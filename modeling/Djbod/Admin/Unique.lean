import Djbod.Admin.Network
import Djbod.Admin.Tombstones
import Djbod.Sched.Log

/-!
# One document per version

* `Command` : a change, a forced removal, a synchronisation; `Allowed` : what each may send, given what it was answered;
* `Host.Knows`, `Docs` : the documents on a node, and those on any node up to some moment of a run;
* `Sprung` : where a document came from: the first node of its predecessor has taken it, or a later one;
* `Isolated` : a forced removal does not overlap with what the removed node takes;
* `one_document_per_version`, `forced_removal_unique` : two documents of one version are the same one.
-/

namespace Djbod.Net

open Sched

/-! ## Commands -/

/-- A command an administrator runs. A change builds the successor of the document it fetched. -/
inductive Command where
  | change (peer : SocketAddr) (build : ClusterDocument → ClusterDocument)
      (successor : ∀ d, (build d).version = d.version + 1)
  | removal (peer : SocketAddr) (node : NodeId)
  | sync (seed : SocketAddr)

namespace Command

def program (S : Setting) : Command → Prog Op Resp (Except AdminError Unit)
  | .change peer build _ => Prog.call (Net.change S peer build).run
  | .removal peer node => Prog.call (forceRemoval S peer node).run
  | .sync seed => Prog.call (do let _ ← Net.sync S seed : AdminProc Unit).run

def skip : Command → Option NodeId
  | .removal _ node => some node
  | _ => none

/-- A synchronisation sends on what it was given. -/
def relays : Command → Bool
  | .sync _ => true
  | _ => false

/-- The command proposes `next` as the successor of `current`. -/
def Builds : Command → ClusterDocument → ClusterDocument → Prop
  | .change _ build _, current, next => next = build current
  | .removal _ node, current, next =>
    current.checkRemovable node = .ok () ∧ next = current.documentWithNodeRemoved node
  | .sync _, _, _ => False

theorem Builds.version {c : Command} {current next : ClusterDocument} (h : c.Builds current next) :
    next.version = current.version + 1 := by
  cases c with
  | change peer build successor => exact h ▸ successor current
  | removal peer node =>
    rw [h.2]
    rfl
  | sync seed => exact h.elim

/-- A change does not bring a removed node back. -/
def KeepsNodes : Command → Prop
  | .change _ build _ => ∀ d node, d.NodeGone node → (build d).NodeGone node
  | _ => True

theorem Builds.nodeGone {c : Command} (hc : c.KeepsNodes) {current next : ClusterDocument} (h : c.Builds current next)
    {node : NodeId} (hgone : current.NodeGone node) : next.NodeGone node := by
  cases c with
  | change peer build successor =>
    rw [show next = build current from h]
    exact hc current node hgone
  | removal peer removed =>
    rw [h.2]
    exact (careful_nodeRemoved removed).keeps.node node hgone
  | sync seed => exact h.elim

end Command

/-- What a command proposes as the successor of a document, the node it leaves out, the node on whose machine it runs,
and whether it sends on documents that it was given. -/
structure Role where
  builds : ClusterDocument → ClusterDocument → Prop
  skip : Option NodeId
  site : Option NodeId
  relays : Bool

def Command.role (c : Command) : Role := ⟨c.Builds, c.skip, none, c.relays⟩

def Fetched (d : ClusterDocument) (past : List (Ev Op Resp)) : Prop := ∃ n a, (⟨n, .fetch a, .ok d⟩ : Ev Op Resp) ∈ past

def Taken (d : ClusterDocument) (past : List (Ev Op Resp)) : Prop :=
  ∃ n a, (⟨n, .apply a d, .ok ()⟩ : Ev Op Resp) ∈ past

/-- The address of the node that a proposal is sent to first. -/
def FirstOf (S : Setting) (current : ClusterDocument) (skip : Option NodeId) (a : SocketAddr) : Prop :=
  ∃ entry rest, entriesExcept current skip = entry :: rest ∧ firstAddress S.text current entry.id = .ok a

/-- What a command may do after `past`: ask for documents; send on one that it was given, if it does so; propose a
successor of one, to the first node, and to others once a node has taken it; and save, on its own machine, what it was
given or has proposed. -/
def Allowed (S : Setting) (role : Role) (past : List (Ev Op Resp)) : Op → Prop
  | .fetch _ => True
  | .apply a d => role.relays = true ∧ Fetched d past ∨
      ∃ current, Fetched current past ∧ role.builds current d ∧ (FirstOf S current role.skip a ∨ Taken d past)
  | .save n d => role.site = some n ∧ (Fetched d past ∨ Taken d past ∨
      ∃ current, Fetched current past ∧ entriesExcept current role.skip = [])

/-- Everything the command has done was allowed when it did it. -/
abbrev Proper (S : Setting) (role : Role) : List (Ev Op Resp) → Prop := Obeys (Allowed S role)

section Traces

variable {S : Setting} {role : Role} {past : List (Ev Op Resp)}

def IsFetch : Op → Prop
  | .fetch _ => True
  | _ => False

theorem Proper.fetch (h : Proper S role past) {e : Ev Op Resp} (he : IsFetch e.op) : Proper S role (past ++ [e]) := by
  refine h.snoc ?_
  cases hop : e.op with
  | fetch a => trivial
  | apply a d =>
    rw [hop] at he
    exact he.elim
  | save n d =>
    rw [hop] at he
    exact he.elim

theorem fetchEntries_uses (document : ClusterDocument) (entries : List NodeEntry) :
    (fetchEntries S document entries).Uses IsFetch := by
  induction entries with
  | nil => trivial
  | cons entry rest ih =>
    refine Task.Uses.bind ?_ fun _ => Task.Uses.bind ih fun _ => Task.uses_ret _
    unfold fetchEntry
    cases firstAddress S.text document entry.id with
    | ok a => exact Task.uses_perform trivial
    | error e => trivial

theorem fetchAllExcept_log (h : Proper S role past) (document : ClusterDocument) (skip : Option NodeId) :
    (fetchAllExcept S document skip).Wp Logged (Proper S role) (fun _ past' => past ⊆ past') past :=
  (Task.wp_logged (fetchEntries_uses document _) (fun _ _ h he => h.fetch he) h).mono (fun _ h => h)
    fun _ _ _ ⟨_, heq, _⟩ => heq ▸ List.subset_append_left _ _

theorem Fetched.mono {d : ClusterDocument} {past' : List (Ev Op Resp)} (h : Fetched d past) (hsub : past ⊆ past') :
    Fetched d past' := by
  obtain ⟨n, a, hmem⟩ := h
  exact ⟨n, a, hsub hmem⟩

theorem fetchDocument_log (h : Proper S role past) (a : SocketAddr) :
    Task.Meets Logged (Proper S role) (fun d past' => Fetched d past') (fun _ _ => True) (fetchDocument a) past := by
  refine ⟨h, ?_⟩
  rintro r _ ⟨n, rfl⟩
  cases r with
  | ok d => exact ⟨h.fetch trivial, n, a, List.mem_append_right _ (List.mem_singleton_self _)⟩
  | error reason => exact ⟨h.fetch trivial, trivial⟩

/-- The first entry of those to send to is the first node, or the document has been taken before. -/
theorem applyInOrder_log {current next : ClusterDocument} (hbuild : role.builds current next) (h : Proper S role past)
    (hcur : Fetched current past) {applied : List NodeId} {entries : List NodeEntry}
    (hfirst : entries = entriesExcept current role.skip ∨ Taken next past) :
    Task.Meets Logged (Proper S role) (fun _ past' => Taken next past' ∨ Fetched current past' ∧
    entriesExcept current role.skip = [])
      (fun _ _ => True) (applyInOrder S current next applied entries) past := by
  induction entries generalizing past applied with
  | nil => exact ⟨h, hfirst.symm.imp id fun heq => ⟨hcur, heq.symm⟩⟩
  | cons entry rest ih =>
    unfold applyInOrder
    cases haddr : firstAddress S.text current entry.id with
    | error e => exact ⟨h, trivial⟩
    | ok a =>
      have hallowed : Allowed S role past (.apply a next) :=
        .inr ⟨current, hcur, hbuild, hfirst.imp (fun heq => ⟨entry, rest, heq.symm, haddr⟩) id⟩
      refine ⟨h, ?_⟩
      rintro r _ ⟨n, rfl⟩
      have hproper := h.snoc (e := ⟨n, .apply a next, r⟩) hallowed
      cases r with
      | ok u =>
        exact ih hproper (hcur.mono (List.subset_append_left _ _))
          (.inr ⟨n, a, List.mem_append_right _ (List.mem_singleton_self _)⟩)
      | error reason =>
        show Task.Meets Logged (Proper S role) _ _ (if applied = [] then _ else _) _
        split_ifs
        · exact ⟨hproper, trivial⟩
        · exact ⟨hproper, trivial⟩

theorem proposeSkipping_log {current next : ClusterDocument} (hbuild : role.builds current next)
    (h : Proper S role past) (hcur : Fetched current past) :
    Task.Meets Logged (Proper S role) (fun _ past' => Taken next past' ∨ Fetched current past' ∧
    entriesExcept current role.skip = [])
      (fun _ _ => True) (proposeSkipping S current next role.skip) past := by
  unfold proposeSkipping
  cases next.validate S.text with
  | error e => exact ⟨h, trivial⟩
  | ok u =>
    refine Task.Meets.bind (Task.Meets.lift (fetchAllExcept_log h current role.skip)) ?_
    rintro reports past' hsub h'
    cases reported reports with
    | error e => exact ⟨h', trivial⟩
    | ok documents =>
      dsimp only
      cases checkVersions current.version documents with
      | error e => exact ⟨h', trivial⟩
      | ok u =>
        dsimp only
        cases checkSameContent [] documents with
        | error e => exact ⟨h', trivial⟩
        | ok u => exact applyInOrder_log hbuild h' (hcur.mono hsub) (.inl rfl)

theorem change_log (peer : SocketAddr) (build : ClusterDocument → ClusterDocument)
    (successor : ∀ d, (build d).version = d.version + 1) :
    Task.Meets Logged (Proper S (Command.change peer build successor).role) (fun _ _ => True) (fun _ _ => True)
      (change S peer build) [] := by
  refine Task.Meets.bind (fetchDocument_log obeys_nil peer) ?_
  intro current past hcur h
  have hbuild : (Command.change peer build successor).role.builds current (build current) := rfl
  exact (proposeSkipping_log hbuild h hcur).mono (fun _ h => h) (fun _ _ _ _ => trivial) fun _ _ _ h => h

theorem forceRemoval_log (peer : SocketAddr) (node : NodeId) :
    Task.Meets Logged (Proper S (Command.removal peer node).role) (fun _ _ => True) (fun _ _ => True)
      (forceRemoval S peer node) [] := by
  refine Task.Meets.bind (fetchDocument_log obeys_nil peer) ?_
  intro current past hcur h
  cases hcheck : current.checkRemovable node with
  | error e => exact ⟨h, trivial⟩
  | ok u =>
    dsimp only
    cases firstAddress S.text current node with
    | error e => exact ⟨h, trivial⟩
    | ok a =>
      refine ⟨h, ?_⟩
      rintro r _ ⟨n, rfl⟩
      cases r with
      | ok d => exact ⟨h.fetch trivial, trivial⟩
      | error reason =>
        have hbuild : (Command.removal peer node).role.builds current (current.documentWithNodeRemoved node) :=
          ⟨hcheck, rfl⟩
        have h' := h.fetch (e := ⟨n, .fetch a, .error reason⟩) trivial
        exact (proposeSkipping_log hbuild h' (hcur.mono (List.subset_append_left _ _))).mono (fun _ h => h)
          (fun _ _ _ _ => trivial) fun _ _ _ h => h

theorem fetchEntries_fetched (h : Proper S role past) (document : ClusterDocument) (entries : List NodeEntry) :
    (fetchEntries S document entries).Wp Logged (Proper S role)
      (fun reports past' => past ⊆ past' ∧ ∀ r ∈ reports, ∀ d, r.result = .ok d → Fetched d past') past := by
  induction entries generalizing past with
  | nil => exact ⟨h, List.Subset.refl _, nofun⟩
  | cons entry rest ih =>
    refine Task.Wp.bind (Q := fun result past' => past ⊆ past' ∧ ∀ d, result = Except.ok d → Fetched d past') ?_ ?_
    · unfold fetchEntry
      cases firstAddress S.text document entry.id with
      | error e => exact ⟨h, List.Subset.refl _, nofun⟩
      | ok a =>
        refine Task.wp_perform h ?_
        rintro r _ ⟨n, rfl⟩
        refine ⟨h.fetch trivial, List.subset_append_left _ _, ?_⟩
        rintro d rfl
        exact ⟨n, a, List.mem_append_right _ (List.mem_singleton_self _)⟩
    · rintro result past₁ ⟨hsub₁, hres⟩ h₁
      refine Task.Wp.bind (ih h₁) ?_
      rintro reports past₂ ⟨hsub₂, hrest⟩ h₂
      refine ⟨h₂, List.Subset.trans hsub₁ hsub₂, ?_⟩
      intro r hr d hd
      rcases List.mem_cons.mp hr with rfl | hr
      · exact (hres d hd).mono hsub₂
      · exact hrest r hr d hd

theorem highestOf_fetched {reports : List NodeDocument} (hall : ∀ r ∈ reports, ∀ d, r.result = .ok d → Fetched d past)
    {highest : ClusterDocument} (hhigh : Fetched highest past) : Fetched (highestOf highest reports) past := by
  induction reports generalizing highest with
  | nil => exact hhigh
  | cons r rest ih =>
    have hrest : ∀ r ∈ rest, ∀ d, r.result = .ok d → Fetched d past := fun r hr => hall r (List.mem_cons_of_mem _ hr)
    unfold highestOf
    cases hres : r.result with
    | error reason => exact ih hrest hhigh
    | ok d =>
      refine ih hrest ?_
      split_ifs
      · exact hall r List.mem_cons_self d hres
      · exact hhigh

theorem pushHighest_log (hrelays : role.relays = true) {highest : ClusterDocument} (h : Proper S role past)
    (hhigh : Fetched highest past) (report : SyncReport) (reports : List NodeDocument) :
    Task.Meets Logged (Proper S role) (fun _ _ => True) (fun _ _ => True)
    (pushHighest S highest report reports) past := by
  induction reports generalizing past report with
  | nil => exact ⟨h, trivial⟩
  | cons r rest ih =>
    unfold pushHighest
    cases r.result with
    | error reason => exact ih h hhigh _
    | ok document =>
      dsimp only
      split_ifs
      · exact ih h hhigh _
      · cases firstAddress S.text highest r.node with
        | error e => exact ⟨h, trivial⟩
        | ok a =>
          refine ⟨h, ?_⟩
          rintro res _ ⟨n, rfl⟩
          have hallowed : Allowed S role past (.apply a highest) := .inl ⟨hrelays, hhigh⟩
          have hproper := h.snoc (e := ⟨n, .apply a highest, res⟩) hallowed
          have hhigh' := hhigh.mono (List.subset_append_left past [⟨n, .apply a highest, res⟩])
          cases res with
          | ok u => exact ih hproper hhigh' _
          | error reason => exact ih hproper hhigh' _

theorem sync_log (seed : SocketAddr) :
    Task.Meets Logged (Proper S (Command.sync seed).role) (fun _ _ => True) (fun _ _ => True) (sync S seed) [] := by
  refine Task.Meets.bind (fetchDocument_log obeys_nil seed) ?_
  intro seedDocument past hseed h
  refine Task.Meets.bind (Task.Meets.lift (fetchEntries_fetched h seedDocument _)) ?_
  rintro reports past₁ ⟨hsub₁, hreports⟩ h₁
  have hhigh := highestOf_fetched hreports (hseed.mono hsub₁)
  refine Task.Meets.bind (Q := fun _ past' => Fetched (highestOf seedDocument reports) past') (Task.Meets.lift ?_) ?_
  · unfold fetchAgain
    split_ifs
    · exact (fetchAllExcept_log h₁ _ _).mono (fun _ h => h) fun _ _ _ hsub => hhigh.mono hsub
    · exact ⟨h₁, hhigh⟩
  · intro reports' past₂ hhigh' h₂
    cases checkSameContent [] (reports'.filterMap fun r => r.result.toOption.map fun d => (r.node, d)) with
    | error e => exact ⟨h₂, trivial⟩
    | ok u => exact pushHighest_log rfl h₂ hhigh' _ _

theorem Command.log (c : Command) : (c.program S).Wp Logged (Proper S c.role) (fun _ _ => True) [] := by
  have hany : ∀ {x : AdminProc Unit}, Task.Meets Logged (Proper S c.role) (fun _ _ => True) (fun _ _ => True) x [] →
      (Prog.call x.run).Wp Logged (Proper S c.role) (fun _ _ => True) [] := fun h =>
    Prog.Wp.call (Task.Wp.mono h (fun _ h => h) fun _ _ _ _ => trivial)
  cases c with
  | change peer build successor => exact hany (change_log peer build successor)
  | removal peer node => exact hany (forceRemoval_log peer node)
  | sync seed => exact hany (Task.Meets.bind (sync_log seed) fun _ _ _ h => ⟨h, trivial⟩)

theorem Command.proper (c : Command) {es : List (Ev Op Resp)} {q : Prog Op Resp (Except AdminError Unit)}
    (h : Prog.Tr (c.program S) es q) : Proper S c.role es := c.log.log h

end Traces

/-! ## Documents in a run -/

/-- The document a process goes by. -/
def Process.Own : Process → ClusterDocument → Prop
  | .down, _ => False
  | .starting d', d => d' = d
  | .heard d' _, d => d' = d
  | .running d', d => d' = d

def Process.Mentions : Process → ClusterDocument → Prop
  | .down, _ => False
  | .starting d', d => d' = d
  | .heard d' theirs, d => d' = d ∨ theirs = d
  | .running d', d => d' = d

/-- The node holds the document: on disk, or in its running process. -/
def Host.Held (h : Host) (d : ClusterDocument) : Prop := h.saved = some d ∨ h.process = .running d

def Host.Knows (h : Host) (d : ClusterDocument) : Prop := h.saved = some d ∨ h.process.Mentions d

theorem Host.Held.knows {h : Host} {d : ClusterDocument} (hd : h.Held d) : h.Knows d := by
  rcases hd with hs | hr
  · exact .inl hs
  · refine .inr ?_
    rw [hr]
    exact rfl

/-- What a process goes by is what its node has saved. -/
def Host.Tidy (h : Host) : Prop := ∀ d, h.process.Own d → h.saved = some d

section Steps

variable {S : Setting} {w w' : World} {a : SocketAddr} {d current : ClusterDocument} {n : NodeId}

theorem answering_eq : w.answering S a = some (n, d) ↔
    S.serves a = some n ∧ (w n).process = .running d ∧ d.clusterId = S.cluster := by
  unfold World.answering
  cases hserves : S.serves a with
  | none => simp
  | some m =>
    dsimp only
    constructor
    · intro h
      split at h
      · rename_i document hrun
        split_ifs at h with hcluster
        cases h
        exact ⟨rfl, hrun, hcluster⟩
      · cases h
    · rintro ⟨hm, hrun, hcluster⟩
      cases hm
      rw [hrun]
      exact if_pos hcluster

theorem applyDocument_ok {text : TextRules} {tls : Bool} (h : applyDocument text tls current d = .ok ()) :
    current.version < d.version ∧ d.clusterId = current.clusterId ∧ d.validate text = .ok () ∧
    (d.transport = .plain ∨ tls = true) := by
  unfold applyDocument at h
  split at h
  · cases h
  · next hvalid =>
      split_ifs at h with hcluster hversion htls
      refine ⟨Nat.lt_of_not_le hversion, Decidable.of_not_not hcluster, hvalid, ?_⟩
      by_contra! hno
      exact htls ⟨hno.1, Bool.eq_false_of_not_eq_true hno.2⟩

structure Takes (S : Setting) (w : World) (a : SocketAddr) (d : ClusterDocument) (n : NodeId) (w' : World) : Prop where
  serves : S.serves a = some n
  running : ∃ current, (w n).process = .running current ∧ current.version < d.version
  valid : d.validate S.text = .ok ()
  cluster : d.clusterId = S.cluster
  tls : d.transport = .plain ∨ (w n).tls = true
  world : w' = Function.update w n ((w n).taking n d)

theorem exec_fetch : exec S (.fetch a) w = (match w.answering S a with
    | some (_, d) => .ok d
    | none => .error "no answer", w) := by
  show (match w.answering S a with
    | some (_, d) => ((.ok d, w) : Resp (.fetch a) × World)
    | none => (.error "no answer", w)) = _
  cases w.answering S a <;> rfl

theorem exec_apply (S : Setting) (a : SocketAddr) (d : ClusterDocument) (w : World) :
    (∃ n, (exec S (.apply a d) w).1 = .ok () ∧ Takes S w a d n (exec S (.apply a d) w).2) ∨
      (∃ reason, (exec S (.apply a d) w).1 = .error reason) ∧ (exec S (.apply a d) w).2 = w := by
  simp only [exec]
  cases hans : w.answering S a with
  | none => exact .inr ⟨⟨_, rfl⟩, rfl⟩
  | some p =>
    obtain ⟨n, current⟩ := p
    obtain ⟨hserves, hrun, hcluster⟩ := answering_eq.mp hans
    dsimp only
    cases hok : applyDocument S.text (w n).tls current d with
    | error e => exact .inr ⟨⟨_, rfl⟩, rfl⟩
    | ok u =>
      obtain ⟨hversion, hsame, hvalid, htls⟩ := applyDocument_ok hok
      exact .inl ⟨n, rfl, hserves, ⟨current, hrun, hversion⟩, hvalid, hsame.trans hcluster, htls, rfl⟩

theorem Faulty.cases {o : Op} {r : Resp o} (h : Faulty S o w r w') :
    w' = w ∨ (∃ a d n, o = .apply a d ∧ Takes S w a d n w') ∨ ∃ n d, o = .save n d := by
  have heffect : w' = w ∨ w' = (exec S o w).2 := by
    rcases h with h | ⟨_, h⟩
    · exact .inr (congrArg Prod.snd h)
    · exact h
  rcases heffect with rfl | rfl
  · exact .inl rfl
  · cases o with
    | fetch a => exact .inl (congrArg Prod.snd exec_fetch)
    | apply a d =>
      rcases exec_apply S a d w with ⟨n, _, htakes⟩ | ⟨_, hsame⟩
      · exact .inr (.inl ⟨a, d, n, rfl, htakes⟩)
      · exact .inl hsame
    | save n d => exact .inr (.inr ⟨n, d, rfl⟩)

theorem save_world {r : Resp (.save n d)} (h : Faulty S (.save n d) w r w') :
    w' = w ∨ w' = Function.update w n { w n with saved := some d } := by
  rcases h with h | ⟨_, h | h⟩
  · exact .inr (congrArg Prod.snd h)
  · exact .inl h
  · exact .inr h

theorem fetch_running (h : Faulty S (.fetch a) w (.ok d) w') : ∃ n, S.serves a = some n ∧
    (w n).process = .running d := by
  rcases h with h | ⟨⟨reason, hfail⟩, _⟩
  · rw [exec_fetch] at h
    cases hans : w.answering S a with
    | none =>
      rw [hans] at h
      cases h
    | some p =>
      rw [hans] at h
      cases h
      obtain ⟨hserves, hrun, _⟩ := answering_eq.mp hans
      exact ⟨p.1, hserves, hrun⟩
  · cases hfail

theorem apply_taken (h : Faulty S (.apply a d) w (.ok ()) w') : ∃ n, Takes S w a d n w' := by
  rcases h with h | ⟨⟨reason, hfail⟩, _⟩
  · rcases exec_apply S a d w with ⟨n, _, htakes⟩ | ⟨⟨reason, hfail⟩, _⟩
    · rw [← h] at htakes
      exact ⟨n, htakes⟩
    · rw [← h] at hfail
      cases hfail
  · cases hfail

theorem Takes.saved (h : Takes S w a d n w') : (w' n).saved = some d := by
  rw [h.world, Function.update_self]
  rfl

theorem Takes.other (h : Takes S w a d n w') {m : NodeId} (hm : m ≠ n) : w' m = w m := by
  rw [h.world, Function.update_of_ne hm]

theorem taking_mentions {h : Host} {d' : ClusterDocument} (hd : (h.taking n d).Knows d') : d' = d := by
  rcases hd with hs | hp
  · exact (Option.some.inj hs).symm
  · unfold Host.taking at hp
    dsimp only at hp
    split_ifs at hp
    · exact hp.symm
    · exact hp.elim

theorem Takes.knows (h : Takes S w a d n w') {m : NodeId} {d' : ClusterDocument} (hd : (w' m).Knows d') :
    d' = d ∨ (w m).Knows d' := by
  by_cases hm : m = n
  · subst hm
    rw [h.world, Function.update_self] at hd
    exact .inl (taking_mentions hd)
  · rw [h.other hm] at hd
    exact .inr hd

theorem Takes.tidy (h : Takes S w a d n w') (ht : ∀ m, (w m).Tidy) (m : NodeId) : (w' m).Tidy := by
  by_cases hm : m = n
  · subst hm
    intro d' hd'
    rw [h.world, Function.update_self] at hd' ⊢
    unfold Host.taking at hd'
    dsimp only at hd'
    split_ifs at hd'
    · exact congrArg some hd'
    · exact hd'.elim
  · rw [h.other hm]
    exact ht m

theorem adopted_version (d theirs : ClusterDocument) : d.version ≤ (adopted d theirs).version := by
  unfold adopted
  split_ifs with h
  · exact h.le
  · exact le_rfl

theorem Env.host (h : Env w w') : ∃ n host, w' = Function.update w n host ∧
    (host = { w n with process := .down } ∨
      (∃ d, (w n).saved = some d ∧ (w n).process = .down ∧ host = { w n with process := .starting d }) ∨
      (∃ m d theirs, (w n).process = .starting d ∧ (w m).process = .running theirs ∧
        host = { w n with process := .heard d theirs }) ∨
      (∃ d theirs, (w n).process = .heard d theirs ∧ host = (w n).adopting d theirs) ∨
      ∃ d document, (w n).process = .starting d ∧ (w n).saved = some document ∧ isMember document n = true ∧
        host = { w n with process := .running document }) := by
  cases h with
  | stop n => exact ⟨n, _, rfl, .inl rfl⟩
  | boot n d hdown hsaved => exact ⟨n, _, rfl, .inr (.inl ⟨d, hsaved, hdown, rfl⟩)⟩
  | hear n m d theirs hstart hpeer hcluster => exact ⟨n, _, rfl, .inr (.inr (.inl ⟨m, d, theirs, hstart, hpeer, rfl⟩))⟩
  | adopt n d theirs hheard => exact ⟨n, _, rfl, .inr (.inr (.inr (.inl ⟨d, theirs, hheard, rfl⟩)))⟩
  | run n d document hstart hsaved hmember =>
    exact ⟨n, _, rfl, .inr (.inr (.inr (.inr ⟨d, document, hstart, hsaved, hmember, rfl⟩)))⟩

theorem adopted_cases (d theirs : ClusterDocument) : adopted d theirs = d ∨ adopted d theirs = theirs := by
  unfold adopted
  split_ifs
  · exact .inr rfl
  · exact .inl rfl

theorem adopting_saved {h : Host} {theirs : ClusterDocument} (hsaved : h.saved = some d) :
    (h.adopting d theirs).saved = some (adopted d theirs) := by
  unfold Host.adopting adopted
  dsimp only
  split_ifs
  · rfl
  · exact hsaved

theorem adopting_knows {h : Host} {theirs d' : ClusterDocument} (hd : (h.adopting d theirs).Knows d') :
    adopted d theirs = d' ∨ h.saved = some d' := by
  rcases hd with hs | hp
  · unfold Host.adopting at hs
    unfold adopted
    dsimp only at hs
    split_ifs at hs ⊢
    · exact .inl (Option.some.inj hs)
    · exact .inr hs
  · exact .inl hp

theorem Env.knows (h : Env w w') {m : NodeId} {d : ClusterDocument} (hd : (w' m).Knows d) : ∃ m', (w m').Knows d := by
  obtain ⟨n, host, rfl, hhost⟩ := h.host
  by_cases hm : m = n
  · subst hm
    rw [Function.update_self] at hd
    rcases hhost with rfl | ⟨d', hsaved, _, rfl⟩ | ⟨m', d', theirs, hstart, hpeer, rfl⟩ | ⟨d', theirs, hheard, rfl⟩ |
      ⟨d', document, hstart, hsaved, _, rfl⟩
    · exact ⟨m, hd.imp id fun hno => hno.elim⟩
    · exact ⟨m, .inl (hd.elim id fun heq => hsaved.trans (congrArg some heq))⟩
    · rcases hd with hd | hd | hd
      · exact ⟨m, .inl hd⟩
      · exact ⟨m, .inr (by rw [hstart]; exact hd)⟩
      · exact ⟨m', .inr (by rw [hpeer]; exact hd)⟩
    · rcases adopting_knows hd with hadopted | hsaved
      · refine ⟨m, .inr ?_⟩
        rw [hheard]
        exact (adopted_cases d' theirs).imp (fun h => h.symm.trans hadopted) fun h => h.symm.trans hadopted
      · exact ⟨m, .inl hsaved⟩
    · exact ⟨m, .inl (hd.elim id fun heq => hsaved.trans (congrArg some heq))⟩
  · rw [Function.update_of_ne hm] at hd
    exact ⟨m, hd⟩

/-- Where processes go by what their nodes have saved, this stays so, and what is saved is never older than before. -/
theorem Env.keeps (h : Env w w') (ht : ∀ m, (w m).Tidy) : (∀ m, (w' m).Tidy) ∧
    ∀ m d, (w m).saved = some d → ∃ d', (w' m).saved = some d' ∧ d.version ≤ d'.version := by
  obtain ⟨n, host, rfl, hhost⟩ := h.host
  -- each case changes one host; the others are as before
  suffices hhost : host.Tidy ∧ ∀ d, (w n).saved = some d → ∃ d', host.saved = some d' ∧ d.version ≤ d'.version by
    obtain ⟨htidy, hsaved⟩ := hhost
    refine ⟨fun m => ?_, fun m d hd => ?_⟩ <;> by_cases hm : m = n
    · subst hm
      rwa [Function.update_self]
    · rw [Function.update_of_ne hm]
      exact ht m
    · subst hm
      rw [Function.update_self]
      exact hsaved d hd
    · rw [Function.update_of_ne hm]
      exact ⟨d, hd, le_rfl⟩
  rcases hhost with rfl | ⟨d, hsaved, _, rfl⟩ | ⟨m, d, theirs, hstart, _, rfl⟩ | ⟨d, theirs, hheard, rfl⟩ | ⟨d,
    document, _, hsaved, _, rfl⟩
  · exact ⟨nofun, fun d hd => ⟨d, hd, le_rfl⟩⟩
  · refine ⟨?_, fun d hd => ⟨d, hd, le_rfl⟩⟩
    rintro _ rfl
    exact hsaved
  · refine ⟨?_, fun d hd => ⟨d, hd, le_rfl⟩⟩
    rintro _ rfl
    exact ht n d (by rw [hstart]; rfl)
  · have hsaved : (w n).saved = some d := ht n d (by rw [hheard]; rfl)
    refine ⟨?_, fun d' hd' => ⟨_, adopting_saved hsaved, ?_⟩⟩
    · rintro _ rfl
      exact adopting_saved hsaved
    · cases hsaved.symm.trans hd'
      exact adopted_version d theirs
  · refine ⟨?_, fun d hd => ⟨d, hd, le_rfl⟩⟩
    rintro _ rfl
    exact hsaved

end Steps

/-! ## Where documents come from -/

def commandsAt {ι : Type} (S : Setting) (commands : ι → Command) (w : World) :
    Config Op Resp World (fun _ : ι => Except AdminError Unit) := ⟨w, fun i => (commands i).program S⟩

/-- One document is held by all nodes that hold any. -/
def Agreed (d : ClusterDocument) (w : World) : Prop :=
  ∀ n, (w n).saved = none ∧ (w n).process = .down ∨
    (w n).saved = some d ∧ ((w n).process = .down ∨ (w n).process = .running d)

section Known

variable {S : Setting} {ι : Type} [DecidableEq ι] {α : ι → Type} {c₀ : Config Op Resp World α} (R : Run (faulty S) c₀)

def Sends (n : ℕ) (i : ι) (a : SocketAddr) (d : ClusterDocument) : Prop :=
  n < R.len ∧ ∃ r, R.label n = .act i (.apply a d) r

def Docs (n : ℕ) (d : ClusterDocument) : Prop := ∃ m ≤ n, ∃ node, (R.store m node).Knows d

variable {R}

theorem Docs.mono {n m : ℕ} (h : n ≤ m) {d : ClusterDocument} (hd : Docs R n d) : Docs R m d := by
  obtain ⟨t, ht, hknows⟩ := hd
  exact ⟨t, ht.trans h, hknows⟩

theorem Docs.back {n : ℕ} {d : ClusterDocument} (h : Docs R (n + 1) d)
    (hknows : ∀ node, (R.store (n + 1) node).Knows d → ∃ node', (R.store n node').Knows d) : Docs R n d := by
  obtain ⟨m, hm, node, hd⟩ := h
  rcases Nat.lt_or_eq_of_le hm with hlt | rfl
  · exact ⟨m, Nat.le_of_lt_succ hlt, node, hd⟩
  · exact ⟨n, le_rfl, hknows node hd⟩

theorem Takes.docs {n : ℕ} {a : SocketAddr} {d d' : ClusterDocument} {node : NodeId}
    (h : Takes S (R.store n) a d node (R.store (n + 1))) (hd : Docs R (n + 1) d') : d' = d ∨ Docs R n d' := by
  by_cases heq : d' = d
  · exact .inl heq
  · exact .inr (hd.back fun m hm => ⟨m, (h.knows hm).resolve_left heq⟩)

theorem unique_insert {P Q : ClusterDocument → Prop} {d : ClusterDocument}
    (h : ∀ d₁ d₂, P d₁ → P d₂ → d₁.version = d₂.version → d₁ = d₂)
    (hfresh : ∀ d', P d' → d'.version ≠ d.version) (hnew : ∀ d', Q d' → d' = d ∨ P d') :
    ∀ d₁ d₂, Q d₁ → Q d₂ → d₁.version = d₂.version → d₁ = d₂ := by
  intro d₁ d₂ h₁ h₂ heq
  rcases hnew d₁ h₁ with rfl | h₁ <;> rcases hnew d₂ h₂ with rfl | h₂
  · rfl
  · exact absurd heq.symm (hfresh d₂ h₂)
  · exact absurd heq (hfresh d₁ h₁)
  · exact h d₁ d₂ h₁ h₂ heq

theorem Agreed.docs {d₀ d : ClusterDocument} (h : Agreed d₀ c₀.store) (hd : Docs R 0 d) : d = d₀ := by
  obtain ⟨m, hm, node, hknows⟩ := hd
  obtain rfl : m = 0 := Nat.le_zero.mp hm
  rw [R.store_zero] at hknows
  rcases h node with ⟨hs, hp⟩ | ⟨hs, hp | hp⟩ <;> rcases hknows with hk | hk <;> rw [hs] at * <;> try rw [hp] at hk
  · cases hk
  · exact hk.elim
  · exact (Option.some.inj hk).symm
  · exact hk.elim
  · exact (Option.some.inj hk).symm
  · exact hk.symm

theorem Fetched.docs {n : ℕ} (hn : n ≤ R.len) {i : ι} {d : ClusterDocument} (h : Fetched d (R.events i n)) :
    Docs R n d := by
  obtain ⟨t, a, hmem⟩ := h
  obtain ⟨ht, _⟩ := R.mem_events.mp hmem
  obtain ⟨node, _, hrun⟩ := fetch_running (R.exec_of_mem hn hmem)
  exact ⟨t, ht.le, node, .inr (by rw [hrun]; exact rfl)⟩

theorem Taken.docs {n : ℕ} (hn : n ≤ R.len) {i : ι} {d : ClusterDocument} (h : Taken d (R.events i n)) :
    Docs R n d := by
  obtain ⟨t, a, hmem⟩ := h
  obtain ⟨ht, _⟩ := R.mem_events.mp hmem
  obtain ⟨node, htakes⟩ := apply_taken (R.exec_of_mem hn hmem)
  exact ⟨t + 1, ht, node, .inl htakes.saved⟩

/-- One step of a run: nothing, a document taken, one saved, or something nodes do by themselves. -/
theorem step_kinds {n : ℕ} (hn : n < R.len) : R.store (n + 1) = R.store n ∨
    (∃ i a d node, Sends R n i a d ∧ Takes S (R.store n) a d node (R.store (n + 1))) ∨
    (∃ i node d r, R.label n = .act i (.save node d) r ∧
      R.store (n + 1) = Function.update (R.store n) node { R.store n node with saved := some d }) ∨
    Env (R.store n) (R.store (n + 1)) := by
  rcases R.store_step hn with h | ⟨i, o, r, hlabel, hexec⟩ | ⟨_, h⟩
  · exact .inl h
  · rcases Faulty.cases hexec with h | ⟨a, d, node, rfl, htakes⟩ | ⟨node, d, rfl⟩
    · exact .inl h
    · exact .inr (.inl ⟨i, a, d, node, ⟨hn, r, hlabel⟩, htakes⟩)
    · exact (save_world hexec).imp id fun h => .inr (.inl ⟨i, node, d, r, hlabel, h⟩)
  · exact .inr (.inr (.inr h))

end Known

section Runs

variable {S : Setting} {ι : Type} [DecidableEq ι] {commands : ι → Command} {w₀ : World} {d₀ : ClusterDocument}
  (R : Run (faulty S) (commandsAt S commands w₀))

/-- The document was proposed as the successor of another, and the first node for it holds it or a later one. -/
def Sprung (n : ℕ) (d : ClusterDocument) : Prop :=
  ∃ c i a node saved, Docs R n c ∧ (commands i).Builds c d ∧ FirstOf S c (commands i).skip a ∧ S.serves a = some node ∧
    (∃ t < n, ∃ b, Sends R t i b d) ∧ (R.store n node).saved = some saved ∧ d.version ≤ saved.version

/-- A forced removal and the node it leaves out do not get into each other's way: when the removal sends its document,
the node holds no other document of that version or later, and is where the document lists it; and afterwards it is sent
no other document of that version or an earlier one. -/
structure Isolated : Prop where
  behind : ∀ n i a d node, Sends R n i a d → (commands i).skip = some node →
    ∀ saved, (R.store n node).saved = some saved → saved.version < d.version ∨ saved = d
  listed : ∀ n i a d node, Sends R n i a d → (commands i).skip = some node →
    ∀ b, firstAddress S.text d node = .ok b → S.serves b = some node
  after : ∀ n i a d t j b d' node, Sends R n i a d → S.serves a = some node → t < n → Sends R t j b d' →
    (commands j).skip = some node → d'.version < d.version ∨ d = d'

/-- The invariant of a run. -/
structure OneEach (d₀ : ClusterDocument) (n : ℕ) : Prop where
  tidy : ∀ node, (R.store n node).Tidy
  unique : ∀ d d', Docs R n d → Docs R n d' → d.version = d'.version → d = d'
  source : ∀ d, Docs R n d → d = d₀ ∨ Sprung R n d
  least : ∀ d, Docs R n d → d₀.version ≤ d.version

variable {R}

theorem OneEach.sent {d : ClusterDocument} (h : OneEach R d₀ n) (hd : Docs R n d) (hne : d ≠ d₀) :
    ∃ i t b, Sends R t i b d := by
  obtain ⟨_, i, _, _, _, _, _, _, _, ⟨t, _, b, hsends⟩, _⟩ := (h.source d hd).resolve_left hne
  exact ⟨i, t, b, hsends⟩

theorem Agreed.oneEach (h : Agreed d₀ w₀) : OneEach R d₀ 0 := by
  have hstore : R.store 0 = w₀ := R.store_zero
  refine ⟨fun node d hown => ?_, fun d d' hd hd' _ => (h.docs hd).trans (h.docs hd').symm, fun d hd => .inl (h.docs hd),
    fun d hd => (h.docs hd) ▸ le_rfl⟩
  rw [hstore] at hown ⊢
  rcases h node with ⟨_, hp⟩ | ⟨hs, hp | hp⟩ <;> rw [hp] at hown
  · exact hown.elim
  · exact hown.elim
  · rw [hs, show d₀ = d from hown]

theorem Sends.allowed {n : ℕ} {i : ι} {a : SocketAddr} {d : ClusterDocument} (h : Sends R n i a d) :
    Allowed S (commands i).role (R.events i n) (.apply a d) := by
  obtain ⟨hn, r, hlabel⟩ := h
  have hproper := (commands i).proper (R.tr i (Nat.succ_le_of_lt hn))
  rw [R.events_act hlabel] at hproper
  exact hproper.last

theorem step_cases {n : ℕ} (hn : n < R.len) : R.store (n + 1) = R.store n ∨
    (∃ i a d node, Sends R n i a d ∧ Takes S (R.store n) a d node (R.store (n + 1))) ∨ Env (R.store n)
    (R.store (n + 1)) := by
  rcases step_kinds hn with h | h | ⟨i, node, d, r, hlabel, _⟩ | h
  · exact .inl h
  · exact .inr (.inl h)
  · have hproper := (commands i).proper (R.tr i (Nat.succ_le_of_lt hn))
    rw [R.events_act hlabel] at hproper
    cases hproper.last.1
  · exact .inr (.inr h)

theorem saved_step {n : ℕ} (hn : n < R.len) (ht : ∀ node, (R.store n node).Tidy) {node : NodeId} {d : ClusterDocument}
    (hd : (R.store n node).saved = some d) : ∃ d', (R.store (n + 1) node).saved = some d' ∧ d.version ≤ d'.version := by
  rcases step_cases hn with h | ⟨i, a, d', m, _, htakes⟩ | h
  · rw [h]
    exact ⟨d, hd, le_rfl⟩
  · by_cases hm : node = m
    · subst hm
      obtain ⟨current, hrun, hlt⟩ := htakes.running
      have hcur : (R.store n node).saved = some current := ht node current (by rw [hrun]; rfl)
      cases hcur.symm.trans hd
      exact ⟨d', htakes.saved, hlt.le⟩
    · rw [htakes.other hm]
      exact ⟨d, hd, le_rfl⟩
  · exact (h.keeps ht).2 node d hd

theorem Sprung.step {n : ℕ} (hn : n < R.len) (ht : ∀ node, (R.store n node).Tidy) {d : ClusterDocument}
    (h : Sprung R n d) : Sprung R (n + 1) d := by
  obtain ⟨c, i, a, node, saved, hc, hbuild, hfirst, hserves, ⟨t, htn, b, hsends⟩, hsaved, hle⟩ := h
  obtain ⟨saved', hsaved', hle'⟩ := saved_step hn ht hsaved
  exact ⟨c, i, a, node, saved', hc.mono (Nat.le_succ n), hbuild, hfirst, hserves,
    ⟨t, htn.trans (Nat.lt_succ_self n), b, hsends⟩, hsaved', hle.trans hle'⟩

theorem OneEach.same {n : ℕ} (hn : n < R.len) (h : OneEach R d₀ n) (ht : ∀ node, (R.store (n + 1) node).Tidy)
    (hdocs : ∀ d, Docs R (n + 1) d → Docs R n d) : OneEach R d₀ (n + 1) where
  tidy := ht
  unique d d' hd hd' := h.unique d d' (hdocs d hd) (hdocs d' hd')
  source d hd := (h.source d (hdocs d hd)).imp id fun hs => hs.step hn h.tidy
  least d hd := h.least d (hdocs d hd)

end Runs

/-! ## Two proposals of one successor -/

/-- Two proposals of successors of one document are sent to the same node first, unless one of them leaves out the node
that the other is sent to. -/
theorem firstOf_cases {S : Setting} {current : ClusterDocument} {skip skip' : Option NodeId} {a a' : SocketAddr}
    (h : FirstOf S current skip a) (h' : FirstOf S current skip' a') :
    a = a' ∨ (∃ node, skip' = some node ∧ firstAddress S.text current node = .ok a) ∨
      ∃ node, skip = some node ∧ firstAddress S.text current node = .ok a' := by
  obtain ⟨entry, rest, heq, haddr⟩ := h
  obtain ⟨entry', rest', heq', haddr'⟩ := h'
  unfold entriesExcept at heq heq'
  cases hnodes : current.activeNodes with
  | nil =>
    rw [hnodes] at heq
    cases heq
  | cons f nodes =>
    rw [hnodes] at heq heq'
    have hkeep : ∀ s : Option NodeId, s ≠ some f.id → (f :: nodes).filter (fun n => decide (some n.id ≠ s)) =
        f :: nodes.filter fun n => decide (some n.id ≠ s) := fun s hs => by
      rw [List.filter_cons, if_pos (decide_eq_true (Ne.symm hs))]
    by_cases hs : skip = some f.id
    · by_cases hs' : skip' = some f.id
      · rw [hs] at heq
        rw [hs', heq] at heq'
        cases heq'
        rw [haddr] at haddr'
        exact .inl (Except.ok.inj haddr')
      · rw [hkeep _ hs'] at heq'
        rw [← (List.cons.inj heq').1] at haddr'
        exact .inr (.inr ⟨f.id, hs, haddr'⟩)
    · rw [hkeep _ hs] at heq
      rw [← (List.cons.inj heq).1] at haddr
      by_cases hs' : skip' = some f.id
      · exact .inr (.inl ⟨f.id, hs', haddr⟩)
      · rw [hkeep _ hs'] at heq'
        rw [← (List.cons.inj heq').1, haddr] at haddr'
        exact .inl (Except.ok.inj haddr')

theorem firstAddress_removed (text : TextRules) (current : ClusterDocument) (node : NodeId) :
    firstAddress text (current.documentWithNodeRemoved node) node = firstAddress text current node := by
  have hnode : ((current.documentWithNodeRemoved node).node node).bind (fun e => e.addresses.head?) =
      (current.node node).bind fun e => e.addresses.head? := by
    unfold ClusterDocument.documentWithNodeRemoved ClusterDocument.successor ClusterDocument.node
    dsimp only
    rw [List.find?_map]
    have hid : ((fun n : NodeEntry => n.id == node) ∘ fun entry : NodeEntry =>
        if entry.id = node then { entry with state := .removed } else entry) = fun n => n.id == node := by
      funext e
      dsimp only [Function.comp_apply]
      split_ifs <;> rfl
    rw [hid]
    cases hfind : current.nodes.find? fun n => n.id == node with
    | none => rfl
    | some e =>
      dsimp only [Option.map_some, Option.bind_some]
      split_ifs <;> rfl
  unfold firstAddress
  rw [hnode]

section Uniqueness

variable {S : Setting} {ι : Type} [DecidableEq ι] {commands : ι → Command} {w₀ : World} {d₀ : ClusterDocument}
  {R : Run (faulty S) (commandsAt S commands w₀)} {n : ℕ}

theorem Command.Builds.removed {c : Command} {current d : ClusterDocument} (h : c.Builds current d) {node : NodeId}
    (hskip : c.skip = some node) : d = current.documentWithNodeRemoved node := by
  cases c with
  | change peer build successor => cases hskip
  | removal peer m =>
    cases hskip
    exact h.2
  | sync seed => exact h.elim

theorem OneEach.fresh (ho : Isolated R) (h : OneEach R d₀ n) {i : ι} {a : SocketAddr}
    {d current : ClusterDocument} {node : NodeId} (hsends : Sends R n i a d)
    (htakes : Takes S (R.store n) a d node (R.store (n + 1))) (hcur : Docs R n current)
    (hbuild : (commands i).Builds current d) (hfirst : FirstOf S current (commands i).skip a) {d' : ClusterDocument}
    (hd' : Docs R n d') (hversion : d'.version = d.version) : Docs R n d := by
  have hsucc := hbuild.version
  rcases h.source d' hd' with rfl | ⟨c, j, a', node', saved, hc, hbuild', hfirst', hserves',
    ⟨t, ht, b, hsent⟩, hsaved, hle⟩
  · have := h.least current hcur
    omega
  · have hbase : c = current := by
      refine h.unique c current hc hcur ?_
      have := hbuild'.version
      omega
    subst hbase
    rcases firstOf_cases hfirst hfirst' with rfl | ⟨m, hskip, haddr⟩ | ⟨m, hskip, haddr⟩
    · -- the same first node: it holds the version already
      obtain rfl : node = node' := Option.some.inj (htakes.serves.symm.trans hserves')
      obtain ⟨held, hrun, hlt⟩ := htakes.running
      have hheld : (R.store n node).saved = some held := h.tidy node held (by rw [hrun]; rfl)
      cases hheld.symm.trans hsaved
      omega
    · -- the other proposal left out the node that this one is sent to
      have haddr' : firstAddress S.text d' m = .ok a := by
        rw [hbuild'.removed hskip, firstAddress_removed]
        exact haddr
      have hserves := ho.listed t j b d' m hsent hskip a haddr'
      rcases ho.after n i a d t j b d' m hsends hserves ht hsent hskip with hlt | rfl
      · omega
      · exact hd'
    · -- this proposal leaves out the node that the other was sent to
      have haddr' : firstAddress S.text d m = .ok a' := by
        rw [hbuild.removed hskip, firstAddress_removed]
        exact haddr
      obtain rfl : m = node' := Option.some.inj ((ho.listed n i a d m hsends hskip a' haddr').symm.trans hserves')
      rcases ho.behind n i a d m hsends hskip saved hsaved with hlt | rfl
      · omega
      · exact ⟨n, le_rfl, m, .inl hsaved⟩

theorem OneEach.step (ho : Isolated R) (hn : n < R.len) (h : OneEach R d₀ n) : OneEach R d₀ (n + 1) := by
  rcases step_cases hn with hsame | ⟨i, a, d, node, hsends, htakes⟩ | henv
  · exact h.same hn (fun node => hsame ▸ h.tidy node) fun d hd => hd.back fun node hknows => ⟨node, hsame ▸ hknows⟩
  · have htidy := htakes.tidy h.tidy
    have hdocs : ∀ d', Docs R (n + 1) d' → d' = d ∨ Docs R n d' := fun d' hd' => htakes.docs hd'
    by_cases hknown : Docs R n d
    · exact h.same hn htidy fun d' hd' => (hdocs d' hd').elim (fun heq => heq ▸ hknown) id
    · -- a new document: it can only come from a proposal, sent to its first node
      rcases hsends.allowed with ⟨_, hfetched⟩ | ⟨current, hcur, hbuild, hfirst | htaken⟩
      · exact absurd (hfetched.docs hn.le) hknown
      · have hcur := hcur.docs hn.le
        have hfresh : ∀ d', Docs R n d' → d'.version ≠ d.version := fun d' hd' heq =>
          hknown (h.fresh ho hsends htakes hcur hbuild hfirst hd' heq)
        refine ⟨htidy, unique_insert h.unique hfresh hdocs, ?_, ?_⟩
        · intro d' hd'
          rcases hdocs d' hd' with rfl | hd'
          · exact .inr ⟨current, i, a, node, d', hcur.mono (Nat.le_succ n), hbuild, hfirst, htakes.serves,
              ⟨n, Nat.lt_succ_self n, a, hsends⟩, htakes.saved, le_rfl⟩
          · exact (h.source d' hd').imp id fun hs => hs.step hn h.tidy
        · intro d' hd'
          rcases hdocs d' hd' with rfl | hd'
          · have := h.least current hcur
            rw [hbuild.version]
            omega
          · exact h.least d' hd'
      · exact absurd (htaken.docs hn.le) hknown
  · exact h.same hn (henv.keeps h.tidy).1 fun d hd => hd.back fun _ hknows => henv.knows hknows

theorem oneEach_run (ho : Isolated R) (hstart : Agreed d₀ w₀) (hn : n ≤ R.len) : OneEach R d₀ n := by
  induction n with
  | zero => exact hstart.oneEach
  | succ n ih => exact (ih (Nat.le_of_succ_le hn)).step ho hn

theorem OneEach.held (h : OneEach R d₀ R.len) {n' : ℕ} (hn : n ≤ R.len) (hn' : n' ≤ R.len) {node node' : NodeId}
    {d d' : ClusterDocument} (hd : (R.store n node).Held d) (hd' : (R.store n' node').Held d')
    (hversion : d.version = d'.version) : d = d' :=
  h.unique d d' ⟨n, hn, node, hd.knows⟩ ⟨n', hn', node', hd'.knows⟩ hversion

theorem saved_run (ho : Isolated R) (hstart : Agreed d₀ w₀) {n' : ℕ} (hle : n ≤ n') (hn' : n' ≤ R.len) {node : NodeId}
    {d : ClusterDocument} (hd : (R.store n node).saved = some d) :
    ∃ d', (R.store n' node).saved = some d' ∧ d.version ≤ d'.version := by
  induction n', hle using Nat.le_induction with
  | base => exact ⟨d, hd, le_rfl⟩
  | succ m hm ih =>
    obtain ⟨d₁, hd₁, hle₁⟩ := ih (Nat.le_of_succ_le hn')
    obtain ⟨d₂, hd₂, hle₂⟩ := saved_step hn' (oneEach_run ho hstart (Nat.le_of_succ_le hn')).tidy hd₁
    exact ⟨d₂, hd₂, hle₁.trans hle₂⟩

theorem Host.Tidy.held {h : Host} (ht : h.Tidy) {d : ClusterDocument} (hd : h.Held d) : h.saved = some d := by
  rcases hd with hs | hr
  · exact hs
  · exact ht d (by rw [hr]; rfl)

theorem isolated_of_noSkip (h : ∀ i, (commands i).skip = none) : Isolated R where
  behind _ i _ _ _ _ hskip := by cases (h i).symm.trans hskip
  listed _ i _ _ _ _ hskip := by cases (h i).symm.trans hskip
  after _ _ _ _ _ j _ _ _ _ _ _ _ hskip := by cases (h j).symm.trans hskip

/-- **One document per version.** With changes, synchronisations, nodes that stop and start again and adopt documents
from peers, and requests and answers lost, two documents of one version held by any nodes at any times are equal, and no
node's version decreases. -/
theorem one_document_per_version (hchanges : ∀ i, (commands i).skip = none) (hstart : Agreed d₀ w₀)
    (R : Run (faulty S) (commandsAt S commands w₀)) :
    (∀ n ≤ R.len, ∀ n' ≤ R.len, ∀ node node' d d', (R.store n node).Held d → (R.store n' node').Held d' →
      d.version = d'.version → d = d') ∧
    ∀ n n', n ≤ n' → n' ≤ R.len → ∀ node d, (R.store n node).Held d →
      (∃ d', (R.store n' node).Held d') ∧ ∀ d', (R.store n' node).Held d' → d.version ≤ d'.version := by
  have ho : Isolated R := isolated_of_noSkip hchanges
  refine ⟨fun n hn n' hn' node node' d d' hd hd' heq => (oneEach_run ho hstart le_rfl).held hn hn' hd hd' heq, ?_⟩
  intro n n' hle hn' node d hd
  have hsaved := ((oneEach_run ho hstart (hle.trans hn')).tidy node).held hd
  obtain ⟨d₁, hd₁, hle₁⟩ := saved_run ho hstart hle hn' hsaved
  refine ⟨⟨d₁, .inl hd₁⟩, fun d' hd' => ?_⟩
  cases (((oneEach_run ho hstart hn').tidy node).held hd').symm.trans hd₁
  exact hle₁

theorem Command.Builds.gone {c : Command} {current d : ClusterDocument} (h : c.Builds current d) {node : NodeId}
    (hskip : c.skip = some node) : d.NodeGone node := by
  cases c with
  | change peer build successor => cases hskip
  | removal peer m =>
    cases hskip
    rw [h.2]
    exact documentWithNodeRemoved_gone h.1
  | sync seed => exact h.elim

/-- What a forced removal sends lists the node it leaves out as removed. -/
theorem Sends.gone {i : ι} {a : SocketAddr} {d : ClusterDocument} (h : Sends R n i a d) {node : NodeId}
    (hskip : (commands i).skip = some node) : d.NodeGone node := by
  rcases h.allowed with ⟨hrelays, _⟩ | ⟨current, _, hbuild, _⟩
  · have hno : ∀ c : Command, c.skip = some node → c.relays = true → False := by
      intro c hskip hrelays
      cases c with
      | change peer build successor => cases hskip
      | removal peer m => cases hrelays
      | sync seed => cases hskip
    exact (hno (commands i) hskip hrelays).elim
  · exact Command.Builds.gone hbuild hskip

/-- A removed node is removed in every later document: each is built from one before it, down to the one that removed
the node, which is the only one of its version. -/
theorem OneEach.nodeGone (hkeeps : ∀ i, (commands i).KeepsNodes) (h : OneEach R d₀ n) {removal : ClusterDocument}
    (hr : Docs R n removal) {node : NodeId} (hgone : removal.NodeGone node) {d : ClusterDocument} (hd : Docs R n d)
    (hle : removal.version ≤ d.version) : d.NodeGone node := by
  obtain ⟨k, hk⟩ := Nat.exists_eq_add_of_le hle
  induction k generalizing d with
  | zero => exact h.unique removal d hr hd hk.symm ▸ hgone
  | succ k ih =>
    rcases h.source d hd with rfl | ⟨c, i, _, _, _, hc, hbuild, _⟩
    · have := h.least removal hr
      omega
    · have hversion := hbuild.version
      exact hbuild.nodeGone (hkeeps i) (ih hc (by omega) (by omega))

/-- From having heard a peer a node goes on by comparing the two documents. -/
theorem adopts_step (hn : n < R.len) {node : NodeId} {d theirs own : ClusterDocument}
    (hheard : (R.store n node).process = .heard d theirs) (hown : (R.store (n + 1) node).process = .starting own) :
    R.store (n + 1) node = (R.store n node).adopting d theirs := by
  rcases step_cases hn with hsame | ⟨i, a, d', m, _, htakes⟩ | henv
  · rw [hsame, hheard] at hown
    cases hown
  · by_cases hm : node = m
    · subst hm
      obtain ⟨current, hrun, _⟩ := htakes.running
      cases hheard.symm.trans hrun
    · rw [htakes.other hm, hheard] at hown
      cases hown
  · obtain ⟨m, host, hworld, hhost⟩ := henv.host
    by_cases hm : node = m
    · subst hm
      rw [hworld, Function.update_self] at hown ⊢
      rcases hhost with rfl | ⟨_, _, hdown, _⟩ | ⟨_, _, _, hstart, _⟩ | ⟨d', theirs', hheard', rfl⟩ | ⟨_, _, hstart, _⟩
      · cases hown
      · cases hheard.symm.trans hdown
      · cases hheard.symm.trans hstart
      · cases hheard.symm.trans hheard'
        rfl
      · cases hheard.symm.trans hstart
    · rw [hworld, Function.update_of_ne hm, hheard] at hown
      cases hown

/-- **Forced removals.** Where the node that a forced removal leaves out is isolated, two documents of one version held
by any nodes at any times are equal. A node that starts and hears a document not older than its own saves that one; and
once a removal of the node has been taken by some node, a node that hears the removal's document or a later one has
saved a document that lists it as removed, as long as no change brings removed nodes back. -/
theorem forced_removal_unique (hstart : Agreed d₀ w₀) (R : Run (faulty S) (commandsAt S commands w₀))
    (ho : Isolated R) :
    (∀ n ≤ R.len, ∀ n' ≤ R.len, ∀ node node' d d', (R.store n node).Held d → (R.store n' node').Held d' →
      d.version = d'.version → d = d') ∧
    ∀ n < R.len, ∀ node d theirs own, (R.store n node).process = .heard d theirs →
      (R.store (n + 1) node).process = .starting own →
      (R.store (n + 1) node).saved = some own ∧ (d.version ≤ theirs.version → own = theirs) ∧
      ((∀ j, (commands j).KeepsNodes) → ∀ i t a removal, (commands i).skip = some node → Sends R t i a removal →
        ∀ t' ≤ n, ∀ m, (R.store t' m).Held removal → removal.version ≤ theirs.version → own.NodeGone node) := by
  have h := oneEach_run ho hstart le_rfl
  refine ⟨fun n hn n' hn' node node' d d' hd hd' heq => h.held hn hn' hd hd' heq, ?_⟩
  intro n hn node d theirs own hheard hown
  have hadopts := adopts_step hn hheard hown
  have hsaved : (R.store n node).saved = some d := (oneEach_run ho hstart hn.le).tidy node d (by rw [hheard]; rfl)
  have htheirs : Docs R R.len theirs := ⟨n, hn.le, node, .inr (by rw [hheard]; exact .inr rfl)⟩
  obtain rfl : adopted d theirs = own := by
    rw [hadopts] at hown
    cases hown
    rfl
  refine ⟨by rw [hadopts]; exact adopting_saved hsaved, fun hle => ?_, ?_⟩
  · unfold adopted
    split_ifs with hlt
    · rfl
    · exact h.unique d theirs ⟨n, hn.le, node, .inl hsaved⟩ htheirs (by omega)
  · intro hkeeps i t a removal hskip hsends t' ht' m hheld hle
    have hremoval : Docs R R.len removal := ⟨t', ht'.trans hn.le, m, hheld.knows⟩
    have hgone := hsends.gone hskip
    unfold adopted
    split_ifs with hlt
    · exact h.nodeGone hkeeps hremoval hgone htheirs hle
    · exact h.nodeGone hkeeps hremoval hgone ⟨n, hn.le, node, .inl hsaved⟩ (by omega)

end Uniqueness

/-! ## Two nodes -/

def pairSetting : Setting where
  text := { plainText with parseSocketAddr := fun s => .ok ⟨0, if s = "a" then 1 else 2⟩ }
  cluster := 7
  serves a := if a.port = 1 then some 1 else if a.port = 2 then some 2 else none

/-- Both nodes have saved the document. -/
def pairWorld (first second : Process) : World := fun n =>
  if n = 1 then ⟨some pairDocument, first, false⟩
  else if n = 2 then ⟨some pairDocument, second, false⟩ else ⟨none, .down, false⟩

theorem pairWorld_agreed {first : Process} (h : first = .down ∨ first = .running pairDocument) :
    Agreed pairDocument (pairWorld first (.running pairDocument)) := by
  intro n
  unfold pairWorld
  split_ifs
  · exact .inr ⟨rfl, h⟩
  · exact .inr ⟨rfl, .inr rfl⟩
  · exact .inl ⟨rfl, rfl⟩

def pairRenamed : ClusterDocument := { pairDocument with version := 2, name := some "x" }

/-- A change of the cluster's name through node 1, and a forced removal of node 1 through node 2. -/
def pairCommands : Bool → Command
  | false => .change ⟨0, 1⟩ (fun d => { d with version := d.version + 1, name := some "x" }) fun _ => rfl
  | true => .removal ⟨0, 2⟩ 1

theorem exec_faulty (S : Setting) (o : Op) (w : World) : (faulty S).Exec o w (exec S o w).1 (exec S o w).2 := .inl rfl

/-- A change that reaches both nodes: each holds the new document, and it is the only one of its version. -/
theorem one_document_per_version_pair : ∃ next, next.version = 2 ∧
    ∃ R : Run (faulty pairSetting) (commandsAt pairSetting (fun _ : Unit => pairCommands false)
      (pairWorld (.running pairDocument) (.running pairDocument))),
    (R.final 1).Held next ∧ (R.final 2).Held next ∧
      ∀ n ≤ R.len, ∀ node d, (R.store n node).Held d → d.version = 2 → d = next := by
  have hplay : ((commandsAt pairSetting (fun _ : Unit => pairCommands false)
      (pairWorld (.running pairDocument) (.running pairDocument))).play (exec pairSetting) (fun _ _ _ => true)
      (List.replicate 5 ((), 0))).map (fun c => ((c.store 1).saved, (c.store 2).saved)) =
        some (some pairRenamed, some pairRenamed) := by
    decide +kernel
  obtain ⟨c, hplay, hc⟩ := Option.map_eq_some_iff.mp hplay
  obtain ⟨R, rfl, _⟩ := Config.play_start (S := faulty pairSetting) (exec pairSetting) (exec_faulty pairSetting) hplay
  obtain ⟨h₁, h₂⟩ := Prod.mk.inj hc
  refine ⟨pairRenamed, rfl, R, .inl h₁, .inl h₂, fun n hn node d hd hversion => ?_⟩
  exact (one_document_per_version (fun _ => rfl) (pairWorld_agreed (.inr rfl)) R).1 n hn R.len le_rfl node 1 d _ hd
    (.inl h₁) hversion

def heedsFirst (w : World) (_ : Unit) : Op → Bool
  | .apply a d => a.port == 2 && ((w 1).saved.all fun saved => decide (saved.version < d.version)) &&
      decide (firstAddress pairSetting.text d 1 = .ok ⟨0, 1⟩)
  | _ => true

theorem isolated_of_heeds {w₀ : World} {R : Run (faulty pairSetting)
    (commandsAt pairSetting (fun _ : Unit => pairCommands true) w₀)} (hok : R.Meets heedsFirst) : Isolated R := by
  have hsent : ∀ n i a d, Sends R n i a d → a.port = 2 ∧
      (∀ saved, (R.store n 1).saved = some saved → saved.version < d.version) ∧
      firstAddress pairSetting.text d 1 = .ok ⟨0, 1⟩ := by
    rintro n i a d ⟨hn, r, hlabel⟩
    have h := hok n hn i _ r hlabel
    simp only [heedsFirst, Bool.and_eq_true, beq_iff_eq, decide_eq_true_eq, Option.all_eq_true] at h
    exact ⟨h.1.1, h.1.2, h.2⟩
  refine ⟨?_, ?_, ?_⟩
  · rintro n i a d node hs ⟨⟩ saved hsaved
    exact .inl ((hsent n i a d hs).2.1 saved hsaved)
  · rintro n i a d node hs ⟨⟩ b hb
    cases (hsent n i a d hs).2.2.symm.trans hb
    rfl
  · rintro n i a d t j b d' node hs hserves _ _ ⟨⟩
    unfold pairSetting at hserves
    dsimp only at hserves
    rw [(hsent n i a d hs).1] at hserves
    cases hserves

/-- Node 1 is down when it is removed, and comes back: it has saved the document that lists it as removed, and no node
holds another one of that version. -/
theorem forced_removal_unique_pair :
    ∃ R : Run (faulty pairSetting) (commandsAt pairSetting (fun _ : Unit => pairCommands true)
      (pairWorld .down (.running pairDocument))),
    Isolated R ∧ (∃ own, (R.final 1).saved = some own ∧ own.NodeGone 1 ∧ own.version = 2) ∧
      ∀ n ≤ R.len, ∀ node d, (R.store n node).Held d → d.version = 2 → d = pairDocument.documentWithNodeRemoved 1 := by
  have hplay : ((commandsAt pairSetting (fun _ : Unit => pairCommands true)
      (pairWorld .down (.running pairDocument))).play (exec pairSetting) heedsFirst (List.replicate 4 ((), 0))).map
        (fun c => ((c.store 1).saved, (c.store 1).process, (c.store 2).process)) =
      some (some pairDocument, .down, .running (pairDocument.documentWithNodeRemoved 1)) := by
    decide +kernel
  obtain ⟨c, hplay, hc⟩ := Option.map_eq_some_iff.mp hplay
  obtain ⟨hsaved, hrest⟩ := Prod.mk.inj hc
  obtain ⟨hdown, hpeer⟩ := Prod.mk.inj hrest
  obtain ⟨R₁, rfl, hok₁⟩ := Config.play_start (S := faulty pairSetting) (exec pairSetting)
    (exec_faulty pairSetting) hplay
  -- node 1 starts again, asks node 2 and compares
  obtain ⟨R₂, hR₂, _, _, hok₂⟩ := R₁.exists_env (Env.boot R₁.final 1 _ hdown hsaved)
  have hR₂' : R₂.final = _ := congrArg Config.store hR₂
  have hstart : (R₂.final 1).process = .starting pairDocument := by
    rw [hR₂']
    rfl
  have hpeer₂ : (R₂.final 2).process = .running (pairDocument.documentWithNodeRemoved 1) := by
    rw [hR₂']
    exact hpeer
  obtain ⟨R₃, hR₃, _, hext₃, hok₃⟩ := R₂.exists_env (Env.hear R₂.final 1 2 _ _ hstart hpeer₂ rfl)
  have hR₃' : R₃.final = _ := congrArg Config.store hR₃
  have hheard : (R₃.final 1).process = .heard pairDocument (pairDocument.documentWithNodeRemoved 1) := by
    rw [hR₃']
    rfl
  have hpeer₃ : (R₃.final 2).process = .running (pairDocument.documentWithNodeRemoved 1) := by
    rw [hR₃']
    exact hpeer₂
  obtain ⟨R₄, hR₄, hlen, hext₄, hok₄⟩ := R₃.exists_env (Env.adopt R₃.final 1 _ _ hheard)
  have hR₄' : R₄.final = _ := congrArg Config.store hR₄
  have hbefore : R₄.store R₃.len = R₃.final := congrArg Config.store (hext₄.2 R₃.len le_rfl)
  have hafter : R₄.store (R₃.len + 1) = R₄.final := by rw [← hlen]; rfl
  have ho : Isolated R₄ := isolated_of_heeds (hok₄ _ (hok₃ _ (hok₂ _ hok₁)))
  obtain ⟨hunique, hreturns⟩ := forced_removal_unique (pairWorld_agreed (.inl rfl)) R₄ ho
  have hheld : (R₄.store R₃.len 2).Held (pairDocument.documentWithNodeRemoved 1) := by
    rw [hbefore]
    exact .inr hpeer₃
  obtain ⟨own, hown⟩ : ∃ own, (R₄.store (R₃.len + 1) 1).process = .starting own := by
    rw [hafter, hR₄']
    exact ⟨_, rfl⟩
  obtain ⟨hsaved₄, htheirs, hgone⟩ := hreturns R₃.len (by omega) 1 _ _ own (by rw [hbefore]; exact hheard) hown
  obtain rfl := htheirs (by decide)
  rw [hafter] at hsaved₄
  -- what node 2 has taken was sent by the removal
  obtain ⟨i, t, b, hsends⟩ := (oneEach_run ho (pairWorld_agreed (.inl rfl)) le_rfl).sent
    ⟨R₃.len, by omega, 2, hheld.knows⟩ (by decide +kernel)
  have hlisted := hgone (fun _ => trivial) i t b _ rfl hsends R₃.len le_rfl 2 hheld le_rfl
  refine ⟨R₄, ho, ⟨_, hsaved₄, hlisted, rfl⟩, fun n hn node d hd hversion => ?_⟩
  exact hunique n hn R₃.len (by omega) node 2 d _ hd hheld hversion

/-- **A forced removal that comes too late.** Node 1 takes a change that reaches no other node, and stops. Its forced
removal gives node 2 another document of the same version, which node 1 does not adopt when it comes back. -/
theorem forced_removal_splits :
    ∃ R : Run (faulty pairSetting) (commandsAt pairSetting pairCommands
      (pairWorld (.running pairDocument) (.running pairDocument))),
    ∃ d theirs, d.version = theirs.version ∧ d ≠ theirs ∧ (R.final 1).Held d ∧ (R.final 2).Held theirs ∧
      (R.final 1).process = .heard d theirs ∧ adopted d theirs ≠ theirs := by
  have hplay : (((commandsAt pairSetting pairCommands (pairWorld (.running pairDocument) (.running pairDocument))).play
      (exec pairSetting) (fun _ _ _ => true) (List.replicate 4 (false, 0))).bind fun c =>
        (⟨Function.update c.store 1 { c.store 1 with process := .down }, c.pc⟩ :
          Config Op Resp World fun _ : Bool => Except AdminError Unit).play (exec pairSetting) (fun _ _ _ => true)
          (List.replicate 4 (true, 0))).map (fun c => ((c.store 1).saved, (c.store 1).process, (c.store 2).process)) =
      some (some pairRenamed, .down, .running (pairDocument.documentWithNodeRemoved 1)) := by
    decide +kernel
  obtain ⟨c₂, hplay, hc⟩ := Option.map_eq_some_iff.mp hplay
  obtain ⟨c₁, hplay₁, hplay₂⟩ := Option.bind_eq_some_iff.mp hplay
  obtain ⟨hsaved, hrest⟩ := Prod.mk.inj hc
  obtain ⟨hdown, hpeer⟩ := Prod.mk.inj hrest
  obtain ⟨R₁, rfl, _⟩ := Config.play_start (S := faulty pairSetting) (exec pairSetting) (exec_faulty pairSetting) hplay₁
  obtain ⟨R₂, hR₂, _⟩ := R₁.exists_env (Env.stop R₁.final 1)
  have hmeets : R₂.Meets fun _ _ _ => true := fun _ _ _ _ _ _ => rfl
  obtain ⟨R₃, hR₃, _⟩ := Config.play_run (exec pairSetting) (exec_faulty pairSetting) R₂ hmeets (hR₂ ▸ hplay₂)
  subst hR₃
  -- node 1 starts again and asks node 2
  obtain ⟨R₄, hR₄, _⟩ := R₃.exists_env (Env.boot R₃.final 1 _ hdown hsaved)
  have hR₄' : R₄.final = _ := congrArg Config.store hR₄
  have hstart : (R₄.final 1).process = .starting pairRenamed := by
    rw [hR₄']
    rfl
  have hpeer₄ : (R₄.final 2).process = .running (pairDocument.documentWithNodeRemoved 1) := by
    rw [hR₄']
    exact hpeer
  obtain ⟨R₅, hR₅, _⟩ := R₄.exists_env (Env.hear R₄.final 1 2 _ _ hstart hpeer₄ rfl)
  have hR₅' : R₅.final = _ := congrArg Config.store hR₅
  refine ⟨R₅, pairRenamed, pairDocument.documentWithNodeRemoved 1,
    rfl, by decide +kernel, .inl ?_, .inr ?_, ?_, by decide +kernel⟩
  · rw [hR₅', hR₄']
    exact hsaved
  · rw [hR₅']
    exact hpeer₄
  · rw [hR₅']
    rfl

end Djbod.Net
