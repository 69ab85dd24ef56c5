import Djbod.Admin.Forward

/-!
# What a synchronisation reaches

`sync` asks the nodes of one document, takes the highest version among their answers, and sends it to the nodes listed
there.

* `Served`, `Remembers` : the versions a node has gone by; a node that starts again goes by none that is older;
* `Steadfast` : the invariant of a run with joins: one document per version, each from a proposal that its first node
  has taken;
* `Highest`, `Seen` : the highest document of the nodes that answer, and whether the seed learns of it;
* `sync_converges` : a synchronisation brings every node that answers to the highest document exactly when the seed
  learns of it, and no node lacks what the document asks for.
-/

namespace Djbod.Net

open Sched

/-! ## Members -/

theorem isMember_entry {d : ClusterDocument} {n : NodeId} (h : isMember d n = true) :
    ∃ entry ∈ d.activeNodes, entry.id = n := by
  obtain ⟨entry, hfind, hstate⟩ := (Option.any_eq_true _ _).mp h
  have hmem := List.mem_of_find?_eq_some hfind
  have hid := List.find?_some hfind
  exact ⟨entry, List.mem_filter.mpr ⟨hmem, hstate⟩, beq_iff_eq.mp hid⟩

theorem validate_nodeIds {text : TextRules} {d : ClusterDocument} (h : d.validate text = .ok ()) :
    ClusterDocument.checkNodeIds [] d.nodes = .ok () := by
  cases hc : ClusterDocument.checkNodeIds [] d.nodes with
  | ok u => rfl
  | error e =>
    unfold ClusterDocument.validate at h
    rw [hc] at h
    simp only [bind, Except.bind] at h
    repeat' split at h
    all_goals cases h

theorem checkNodeIds_nodup {seen : List NodeId} {nodes : List NodeEntry}
    (h : ClusterDocument.checkNodeIds seen nodes = .ok ()) : (nodes.map NodeEntry.id).Nodup ∧
    ∀ n ∈ nodes, n.id ∉ seen := by
  induction nodes generalizing seen with
  | nil => exact ⟨List.nodup_nil, nofun⟩
  | cons n rest ih =>
    unfold ClusterDocument.checkNodeIds at h
    split_ifs at h with hseen
    obtain ⟨hnodup, hout⟩ := ih h
    refine ⟨List.nodup_cons.mpr ⟨fun hmem => ?_, hnodup⟩, List.forall_mem_cons.mpr ⟨hseen, fun m hm => ?_⟩⟩
    · obtain ⟨m, hm, heq⟩ := List.mem_map.mp hmem
      exact hout m hm (heq ▸ List.mem_cons_self)
    · exact fun hms => hout m hm (List.mem_cons_of_mem _ hms)

theorem isMember_of_mem {text : TextRules} {d : ClusterDocument} (h : d.validate text = .ok ()) {entry : NodeEntry}
    (he : entry ∈ d.activeNodes) : isMember d entry.id = true := by
  obtain ⟨hmem, hstate⟩ := List.mem_filter.mp he
  have hnodup := (checkNodeIds_nodup (validate_nodeIds h)).1
  have hfind : d.node entry.id = some entry := by
    cases hfound : d.node entry.id with
    | none =>
      have := List.find?_eq_none.mp hfound entry hmem
      exact absurd (beq_self_eq_true entry.id) this
    | some found =>
      have hid : found.id = entry.id := beq_iff_eq.mp (List.find?_some (p := fun n : NodeEntry =>
        n.id == entry.id) hfound)
      rw [List.inj_on_of_nodup_map hnodup (List.mem_of_find?_eq_some hfound) hmem hid]
  unfold isMember
  rw [hfind]
  exact hstate

theorem entriesExcept_none (d : ClusterDocument) : entriesExcept d none = d.activeNodes :=
  List.filter_eq_self.mpr fun _ _ => rfl

/-! ## Runs with joins -/

/-- One document to begin with: held by all nodes that hold any, valid, and listing the nodes that run. -/
structure Founded (S : Setting) (d₀ : ClusterDocument) (w : World) : Prop where
  agreed : Agreed d₀ w
  valid : d₀.validate S.text = .ok ()
  cluster : d₀.clusterId = S.cluster
  member : ∀ n, (w n).process = .running d₀ → isMember d₀ n = true

variable {w' : World} {current d' : ClusterDocument}

section Runs

variable {S : Setting} {ι : Type} [DecidableEq ι] {activities : ι → Activity} {w₀ : World} {d₀ : ClusterDocument}
  (R : Run (faulty S) (activitiesAt S activities w₀))

/-- At the moment the node runs with the document, or has just taken it. -/
def Served (node : NodeId) (t : ℕ) (own : ClusterDocument) : Prop :=
  (R.store t node).process = .running own ∨ ∃ u a, t = u + 1 ∧ Takes S (R.store u) a own node (R.store t)

/-- A node that starts again does not start with an older document than one it went by before. -/
def Remembers : Prop :=
  ∀ node t t' own own' d, t ≤ t' → t' < R.len → Served R node t own → (R.store t' node).process = .starting own' →
    (R.store (t' + 1) node).process = .running d → own.version ≤ d.version

/-- The document was proposed as the successor of another, and the first node for it has gone by it or a later one. -/
def Stems (n : ℕ) (d : ClusterDocument) : Prop :=
  ∃ c a node t own, Docs R n c ∧ d.version = c.version + 1 ∧ FirstOf S c none a ∧ S.serves a = some node ∧ t ≤ n ∧
    Served R node t own ∧ d.version ≤ own.version

structure Steadfast (d₀ : ClusterDocument) (n : ℕ) : Prop where
  unique : ∀ d d', Docs R n d → Docs R n d' → d.version = d'.version → d = d'
  source : ∀ d, Docs R n d → d = d₀ ∨ Stems R n d
  least : ∀ d, Docs R n d → d₀.version ≤ d.version
  sane : ∀ d, Docs R n d → d.validate S.text = .ok () ∧ d.clusterId = S.cluster

variable {R}

variable {node : NodeId}

theorem Takes.runs {w : World} {a : SocketAddr} {d held : ClusterDocument} (h : Takes S w a d node w')
    (hrun : (w' node).process = .running held) : held = d ∧ isMember d node = true := by
  rw [h.world, Function.update_self] at hrun
  unfold Host.taking at hrun
  dsimp only at hrun
  split_ifs at hrun with hmember
  cases hrun
  exact ⟨rfl, hmember⟩

variable {t : ℕ}

/-- A process that runs did so before with the same document or an older one, or has just started. -/
theorem running_step (ht : t < R.len) {held : ClusterDocument} (hrun : (R.store (t + 1) node).process = .running held) :
    (R.store t node).process = .running held ∨
    (isMember held node = true ∧ ((∃ own, (R.store t node).process = .starting own) ∨
      ∃ current, (R.store t node).process = .running current ∧ current.version < held.version)) := by
  rcases step_kinds ht with hsame | ⟨i, a, d, m, _, htakes⟩ | ⟨i, m, d, r, _, hworld⟩ | henv
  · rw [hsame] at hrun
    exact .inl hrun
  · by_cases hm : node = m
    · subst hm
      obtain ⟨rfl, hmember⟩ := htakes.runs hrun
      obtain ⟨current, hcur, hlt⟩ := htakes.running
      exact .inr ⟨hmember, .inr ⟨current, hcur, hlt⟩⟩
    · rw [htakes.other hm] at hrun
      exact .inl hrun
  · rw [hworld] at hrun
    by_cases hm : node = m
    · subst hm
      rw [Function.update_self] at hrun
      exact .inl hrun
    · rw [Function.update_of_ne hm] at hrun
      exact .inl hrun
  · obtain ⟨m, host, hworld, hhost⟩ := henv.host
    rw [hworld] at hrun
    by_cases hm : node = m
    · subst hm
      rw [Function.update_self] at hrun
      rcases hhost with rfl | ⟨d, _, _, rfl⟩ | ⟨m, d, theirs, _, _, rfl⟩ | ⟨d, theirs, _, rfl⟩ | ⟨d, document, hstart,
        _, hmember, rfl⟩
      · cases hrun
      · cases hrun
      · cases hrun
      · cases hrun
      · cases hrun
        exact .inr ⟨hmember, .inl ⟨d, hstart⟩⟩
    · rw [Function.update_of_ne hm] at hrun
      exact .inl hrun

theorem Served.le (hr : Remembers R) {t' : ℕ} {own held : ClusterDocument} (hs : Served R node t own) (hle : t ≤ t')
    (ht' : t' ≤ R.len) (hrun : (R.store t' node).process = .running held) : own.version ≤ held.version := by
  induction t', hle using Nat.le_induction generalizing held with
  | base =>
    rcases hs with hown | ⟨u, a, _, htakes⟩
    · cases hown.symm.trans hrun
      exact le_rfl
    · rw [(htakes.runs hrun).1]
  | succ u hu ih =>
    rcases running_step ht' hrun with hrun' | ⟨_, ⟨own', hstart⟩ | ⟨current, hcur, hlt⟩⟩
    · exact ih (Nat.le_of_succ_le ht') hrun'
    · exact hr node t u own own' held hu ht' hs hstart hrun
    · exact (ih (Nat.le_of_succ_le ht') hcur).trans hlt.le

theorem Stems.mono {n m : ℕ} (hle : n ≤ m) {d : ClusterDocument} (h : Stems R n d) : Stems R m d := by
  obtain ⟨c, a, node, t, own, hc, hversion, hfirst, hserves, ht, hserved, hown⟩ := h
  exact ⟨c, a, node, t, own, hc.mono hle, hversion, hfirst, hserves, ht.trans hle, hserved, hown⟩

theorem Founded.steadfast (h : Founded S d₀ w₀) : Steadfast R d₀ 0 := by
  have hagreed : Agreed d₀ (activitiesAt S activities w₀).store := h.agreed
  have hdocs : ∀ d, Docs R 0 d → d = d₀ := fun d hd => hagreed.docs hd
  refine ⟨fun d d' hd hd' _ => (hdocs d hd).trans (hdocs d' hd').symm, fun d hd => .inl (hdocs d hd),
    fun d hd => hdocs d hd ▸ le_rfl, fun d hd => hdocs d hd ▸ ⟨h.valid, h.cluster⟩⟩

theorem Founded.members (h : Founded S d₀ w₀) {n : ℕ} (hn : n ≤ R.len) {d : ClusterDocument}
    (hrun : (R.store n node).process = .running d) : isMember d node = true := by
  induction n generalizing d with
  | zero =>
    rw [R.store_zero] at hrun
    rcases h.agreed node with ⟨_, hp⟩ | ⟨_, hp | hp⟩
    · cases hp.symm.trans hrun
    · cases hp.symm.trans hrun
    · cases hp.symm.trans hrun
      exact h.member node hp
  | succ n ih => exact (running_step hn hrun).elim (ih (Nat.le_of_succ_le hn)) And.left

theorem Steadfast.same {n : ℕ} (h : Steadfast R d₀ n) (hdocs : ∀ d, Docs R (n + 1) d → Docs R n d) :
    Steadfast R d₀ (n + 1) where
  unique d d' hd hd' := h.unique d d' (hdocs d hd) (hdocs d' hd')
  source d hd := (h.source d (hdocs d hd)).imp id fun hs => hs.mono (Nat.le_succ n)
  least d hd := h.least d (hdocs d hd)
  sane d hd := h.sane d (hdocs d hd)

theorem label_allowed {n : ℕ} (hn : n < R.len) {i : ι} {o : Op} {r : Resp o} (hlabel : R.label n = .act i o r) :
    Allowed S (activities i).role (R.events i n) o := by
  have hproper := (activities i).allowed (R.tr i (Nat.succ_le_of_lt hn))
  rw [R.events_act hlabel] at hproper
  exact hproper.last

theorem Steadfast.fresh (hr : Remembers R) {n : ℕ} (hn : n < R.len) (h : Steadfast R d₀ n) {a : SocketAddr}
    {d : ClusterDocument} (htakes : Takes S (R.store n) a d node (R.store (n + 1))) (hcur : Docs R n current)
    (hsucc : d.version = current.version + 1) (hfirst : FirstOf S current none a) (hd' : Docs R n d') :
    d'.version ≠ d.version := by
  intro hversion
  rcases h.source d' hd' with rfl | ⟨c, a', node', t, own, hc, hsucc', hfirst', hserves', ht, hserved, hown⟩
  · have := h.least current hcur
    omega
  · obtain rfl : c = current := h.unique c current hc hcur (by omega)
    obtain rfl : a = a' := by
      rcases firstOf_cases hfirst hfirst' with heq | ⟨_, hskip, _⟩ | ⟨_, hskip, _⟩
      · exact heq
      · cases hskip
      · cases hskip
    -- the first node has gone by this version already
    obtain rfl : node = node' := Option.some.inj (htakes.serves.symm.trans hserves')
    obtain ⟨held, hrun, hlt⟩ := htakes.running
    have := hserved.le hr ht hn.le hrun
    omega

theorem Steadfast.step (hf : Founded S d₀ w₀) (hskip : ∀ i, (activities i).role.skip = none) (hr : Remembers R) {n : ℕ}
    (hn : n < R.len) (h : Steadfast R d₀ n) : Steadfast R d₀ (n + 1) := by
  rcases step_kinds hn with hsame | ⟨i, a, d, node, ⟨_, r, hlabel⟩, htakes⟩ | ⟨i, node, d, r, hlabel, hworld⟩ | henv
  · exact h.same fun d hd => hd.back fun node hknows => ⟨node, hsame ▸ hknows⟩
  · have hdocs : ∀ d', Docs R (n + 1) d' → d' = d ∨ Docs R n d' := fun d' hd' => htakes.docs hd'
    by_cases hknown : Docs R n d
    · exact h.same fun d' hd' => (hdocs d' hd').elim (fun heq => heq ▸ hknown) id
    · -- a new document: it can only come from a proposal, sent to its first node
      rcases label_allowed hn hlabel with ⟨_, hfetched⟩ | ⟨current, hcur, hbuild, hfirst | htaken⟩
      · exact absurd (hfetched.docs hn.le) hknown
      · rw [hskip i] at hfirst
        have hcur := hcur.docs hn.le
        have hsucc := Activity.role_version hbuild
        have hfresh : ∀ d', Docs R n d' → d'.version ≠ d.version := fun d' hd' =>
          h.fresh hr hn htakes hcur hsucc hfirst hd'
        refine ⟨unique_insert h.unique hfresh hdocs, ?_, ?_, ?_⟩
        · intro d' hd'
          rcases hdocs d' hd' with rfl | hd'
          · exact .inr ⟨current, a, node, n + 1, d', hcur.mono (Nat.le_succ n), hsucc, hfirst, htakes.serves, le_rfl,
              .inr ⟨n, a, rfl, htakes⟩, le_rfl⟩
          · exact (h.source d' hd').imp id fun hs => hs.mono (Nat.le_succ n)
        · intro d' hd'
          rcases hdocs d' hd' with rfl | hd'
          · have := h.least current hcur
            omega
          · exact h.least d' hd'
        · intro d' hd'
          rcases hdocs d' hd' with rfl | hd'
          · exact ⟨htakes.valid, htakes.cluster⟩
          · exact h.sane d' hd'
      · exact absurd (htaken.docs hn.le) hknown
  · -- what is saved was fetched, or taken by a node before
    have hknown : Docs R n d := by
      obtain ⟨_, hfetched | htaken | ⟨current, hfetched, hnone⟩⟩ := label_allowed hn hlabel
      · exact hfetched.docs hn.le
      · exact htaken.docs hn.le
      · -- the node that answered is listed, so there was a first node
        obtain ⟨t, a, hmem⟩ := hfetched
        obtain ⟨m, _, hrun⟩ := fetch_running (R.exec_of_mem hn.le hmem)
        obtain ⟨entry, hentry, _⟩ := isMember_entry (hf.members ((R.mem_events.mp hmem).1.le.trans hn.le) hrun)
        rw [hskip i, entriesExcept_none] at hnone
        rw [hnone] at hentry
        cases hentry
    refine h.same fun d' hd' => ?_
    by_cases heq : d' = d
    · exact heq ▸ hknown
    refine hd'.back fun node' hknows => ⟨node', ?_⟩
    rw [hworld] at hknows
    by_cases hm : node' = node
    · subst hm
      rw [Function.update_self] at hknows
      exact .inr (hknows.resolve_left fun hs => heq (Option.some.inj hs).symm)
    · rwa [Function.update_of_ne hm] at hknows
  · exact h.same fun d hd => hd.back fun _ hknows => henv.knows hknows

theorem steadfast_run (hf : Founded S d₀ w₀) (hskip : ∀ i, (activities i).role.skip = none) (hr : Remembers R) {n : ℕ}
    (hn : n ≤ R.len) : Steadfast R d₀ n := by
  induction n with
  | zero => exact hf.steadfast
  | succ n ih => exact (ih (Nat.le_of_succ_le hn)).step hf hskip hr hn

end Runs

/-! ## One synchronisation -/

def World.Runs (w : World) (n : NodeId) (d : ClusterDocument) : Prop := (w n).process = .running d

/-- The documents list every node at the address where it is. -/
def Addressed (S : Setting) (w : World) : Prop :=
  ∀ n d, w.Runs n d → ∀ m, isMember d m = true → ∃ a, firstAddress S.text d m = .ok a ∧ S.serves a = some m

/-- What the nodes that run hold: one document per version, each valid and listing nodes where they are. -/
structure Coherent (S : Setting) (w : World) : Prop where
  unique : ∀ n n' d d', w.Runs n d → w.Runs n' d' → d.version = d'.version → d = d'
  valid : ∀ n d, w.Runs n d → d.validate S.text = .ok ()
  cluster : ∀ n d, w.Runs n d → d.clusterId = S.cluster
  addressed : Addressed S w

/-- The answer of a node that is asked for its document. -/
def World.answer (w : World) (n : NodeId) : Except String ClusterDocument :=
  match (w n).process with
  | .running d => .ok d
  | _ => .error "no answer"

def World.reports (w : World) (d : ClusterDocument) : List NodeDocument :=
  d.activeNodes.map fun e => ⟨e.id, e.addresses.headD "", w.answer e.id⟩

def Host.Can (h : Host) (d : ClusterDocument) : Prop := d.transport = .plain ∨ h.tls = true

section Sync

variable {S : Setting} {w : World} {n : NodeId} {d highest seedDocument : ClusterDocument} {a : SocketAddr}

theorem answer_ok : w.answer n = .ok d ↔ w.Runs n d := by
  unfold World.answer World.Runs
  cases (w n).process <;> simp

theorem fetch_answer (hc : Coherent S w) (hserves : S.serves a = some n) : exec S (.fetch a) w = (w.answer n, w) := by
  rw [exec_fetch]
  congr 1
  unfold World.answering World.answer
  rw [hserves]
  dsimp only
  cases hp : (w n).process with
  | running d =>
    dsimp only
    rw [if_pos (hc.cluster n d hp)]
  | _ => rfl

theorem fetchEntries_eval (hc : Coherent S w) (hrun : w.Runs n d) {entries : List NodeEntry}
    (hall : ∀ e ∈ entries, isMember d e.id = true) : (fetchEntries S d entries).eval (exec S) w =
      (entries.map fun e => ⟨e.id, e.addresses.headD "", w.answer e.id⟩, w) := by
  induction entries with
  | nil => rfl
  | cons e rest ih =>
    obtain ⟨hmember, hrest⟩ := List.forall_mem_cons.mp hall
    obtain ⟨a, haddr, hserves⟩ := hc.addressed n d hrun e.id hmember
    have hentry : (fetchEntry S d e).eval (exec S) w = (w.answer e.id, w) := by
      unfold fetchEntry
      rw [haddr]
      exact fetch_answer hc hserves
    unfold fetchEntries
    rw [Task.eval_bind, hentry, Task.eval_bind, ih hrest]
    rfl

theorem fetchAll_eval (hc : Coherent S w) (hrun : w.Runs n d) :
    (fetchAllExcept S d none).eval (exec S) w = (w.reports d, w) := by
  unfold fetchAllExcept
  rw [entriesExcept_none]
  exact fetchEntries_eval hc hrun fun e he => isMember_of_mem (hc.valid n d hrun) he

theorem highestOf_cases (reports : List NodeDocument) : highestOf d reports = d ∨
    d.version < (highestOf d reports).version ∧ ∃ r ∈ reports, r.result = .ok (highestOf d reports) := by
  induction reports generalizing d with
  | nil => exact .inl rfl
  | cons r rest ih =>
    unfold highestOf
    cases hres : r.result with
    | error reason =>
      exact ih.imp id (And.imp id (Exists.imp fun _ h => ⟨List.mem_cons_of_mem _ h.1, h.2⟩))
    | ok document =>
      dsimp only
      split_ifs with hlt
      · rcases ih (d := document) with heq | ⟨hlt', r', hr', hres'⟩
        · rw [heq]
          exact .inr ⟨hlt, r, List.mem_cons_self, hres⟩
        · exact .inr ⟨hlt.trans hlt', r', List.mem_cons_of_mem _ hr', hres'⟩
      · exact ih.imp id (And.imp id (Exists.imp fun _ h => ⟨List.mem_cons_of_mem _ h.1, h.2⟩))

theorem highestOf_ge (reports : List NodeDocument) : d.version ≤ (highestOf d reports).version := by
  rcases highestOf_cases (d := d) reports with heq | ⟨hlt, _⟩
  · rw [heq]
  · exact hlt.le

variable {r : NodeDocument} {reports : List NodeDocument}

theorem le_highestOf (hr : r ∈ reports) (hd' : r.result = .ok d') : d'.version ≤ (highestOf d reports).version := by
  induction reports generalizing d with
  | nil => cases hr
  | cons first rest ih =>
    unfold highestOf
    rcases List.mem_cons.mp hr with rfl | hr
    · rw [hd']
      dsimp only
      refine le_trans ?_ (highestOf_ge rest)
      split_ifs with hlt
      · exact le_rfl
      · exact Nat.le_of_not_lt hlt
    · cases first.result with
      | error reason => exact ih hr
      | ok document => exact ih hr

theorem checkSameContent_ok {earlier documents : List (NodeId × ClusterDocument)}
    (h : ∀ x ∈ earlier ++ documents, ∀ y ∈ earlier ++ documents, x.2.version = y.2.version → x.2 = y.2) :
    checkSameContent earlier documents = .ok () := by
  induction documents generalizing earlier with
  | nil => rfl
  | cons x rest ih =>
    unfold checkSameContent
    have hnone : earlier.find? (fun b => x.2.version == b.2.version && x.2 != b.2) = none := by
      refine List.find?_eq_none.mpr fun b hb => ?_
      simp only [Bool.and_eq_true, beq_iff_eq, bne_iff_ne, not_and, not_not]
      exact h x (List.mem_append_right _ List.mem_cons_self) b (List.mem_append_left _ hb)
    rw [hnone]
    refine ih ?_
    rwa [List.append_assoc, List.singleton_append]

theorem mem_reports (hr : r ∈ w.reports d) : ∃ e ∈ d.activeNodes, r.node = e.id ∧ r.result = w.answer e.id := by
  obtain ⟨e, he, rfl⟩ := List.mem_map.mp hr
  exact ⟨e, he, rfl, rfl⟩

/-- The highest document that a synchronisation from a document finds. -/
def World.found (w : World) (seedDocument : ClusterDocument) : ClusterDocument :=
  highestOf seedDocument (w.reports seedDocument)

theorem found_runs (hc : Coherent S w) (hseed : w.Runs n seedDocument) : ∃ m, (m = n ∨ isMember seedDocument m = true) ∧
    w.Runs m (w.found seedDocument) := by
  rcases highestOf_cases (d := seedDocument) (w.reports seedDocument) with heq | ⟨_, r, hr, hres⟩
  · refine ⟨n, .inl rfl, ?_⟩
    unfold World.found
    rwa [heq]
  · obtain ⟨e, he, _, hanswer⟩ := mem_reports hr
    exact ⟨e.id, .inr (isMember_of_mem (hc.valid n _ hseed) he), answer_ok.mp (hanswer.symm.trans hres)⟩

/-- A synchronisation asks the nodes of the highest document found and sends them this document. -/
theorem sync_eval (hc : Coherent S w) (hserves : S.serves a = some n) (hseed : w.Runs n seedDocument) :
    (sync S a).run.eval (exec S) w = (pushHighest S (w.found seedDocument) ⟨(w.found seedDocument).version, [], [], []⟩
      (w.reports (w.found seedDocument))).run.eval (exec S) w := by
  obtain ⟨m, _, hfound⟩ := found_runs hc hseed
  have hfetch : (fetchDocument a).run.eval (exec S) w = (.ok seedDocument, w) := by
    have hask : (ask (.fetch a) : AdminProc _).run.eval (exec S) w = (.ok (w.answer n), w) := by
      unfold ask
      rw [Task.eval_lift, Task.eval_perform, fetch_answer hc hserves]
    unfold fetchDocument
    rw [Task.eval_try_ok hask, answer_ok.mpr hseed]
    rfl
  have hfirst : (ExceptT.lift (fetchAllExcept S seedDocument none) : AdminProc (List NodeDocument)).run.eval
    (exec S) w =
      (.ok (w.reports seedDocument), w) := by
    rw [Task.eval_lift, fetchAll_eval hc hseed]
  have hagain : (fetchAgain S seedDocument (w.found seedDocument) (w.reports seedDocument)).eval (exec S) w =
      (w.reports (w.found seedDocument), w) := by
    unfold fetchAgain
    split_ifs with hversion
    · exact fetchAll_eval hc hfound
    · rw [hc.unique m n _ _ hfound hseed (not_not.mp hversion)]
      rfl
  have hsecond : (ExceptT.lift (fetchAgain S seedDocument (w.found seedDocument) (w.reports seedDocument)) :
      AdminProc (List NodeDocument)).run.eval (exec S) w = (.ok (w.reports (w.found seedDocument)), w) := by
    rw [Task.eval_lift, hagain]
  have hsame : checkSameContent [] ((w.reports (w.found seedDocument)).filterMap fun r =>
    r.result.toOption.map fun d => (r.node, d)) =
      .ok () := by
    refine checkSameContent_ok fun x hx y hy hversion => ?_
    have hruns : ∀ x ∈ (w.reports (w.found seedDocument)).filterMap
      (fun r => r.result.toOption.map fun d => (r.node, d)),
        ∃ m, w.Runs m x.2 := by
      intro x hx
      obtain ⟨r, hr, hx⟩ := List.mem_filterMap.mp hx
      obtain ⟨e, _, _, hanswer⟩ := mem_reports hr
      obtain ⟨d, hd, rfl⟩ := Option.map_eq_some_iff.mp hx
      refine ⟨e.id, answer_ok.mp (hanswer.symm.trans ?_)⟩
      cases hres : r.result with
      | error reason =>
        rw [hres] at hd
        cases hd
      | ok d' =>
        rw [hres] at hd
        cases hd
        rfl
    obtain ⟨mx, hmx⟩ := hruns x hx
    obtain ⟨my, hmy⟩ := hruns y hy
    exact hc.unique mx my _ _ hmx hmy hversion
  unfold sync
  rw [Task.eval_try_ok hfetch, Task.eval_try_ok hfirst]
  refine (Task.eval_try_ok hsecond).trans ?_
  rw [hsame]
  rfl

def Pushed (highest : ClusterDocument) (w w' : World) : Prop :=
  ∀ n, w' n = w n ∨ (w n).Can highest ∧ w' n = (w n).taking n highest

theorem exec_apply_takes (hserves : S.serves a = some n) (hrun : w.Runs n current)
    (hcluster : current.clusterId = S.cluster)
    (hvalid : d.validate S.text = .ok ()) (hsame : d.clusterId = S.cluster) (hversion : current.version < d.version)
    (hcan : (w n).Can d) : exec S (.apply a d) w = (.ok (), Function.update w n ((w n).taking n d)) := by
  have hok : applyDocument S.text (w n).tls current d = .ok () := by
    unfold applyDocument
    rw [hvalid]
    dsimp only
    rw [if_neg (not_not.mpr (hsame.trans hcluster.symm)), if_neg (Nat.not_le.mpr hversion), if_neg]
    rintro ⟨htransport, htls⟩
    rcases hcan with hplain | hcan
    · exact htransport hplain
    · rw [htls] at hcan
      cases hcan
  simp only [exec, answering_eq.mpr ⟨hserves, hrun, hcluster⟩, hok]

theorem taking_runs {h : Host} (hrun : (h.taking n highest).process = .running d) : d = highest := by
  unfold Host.taking at hrun
  dsimp only at hrun
  split_ifs at hrun
  cases hrun
  rfl

theorem Pushed.apply (hp : Pushed highest w w') (a : SocketAddr) :
    Pushed highest w (exec S (.apply a highest) w').2 ∧
      ∀ n, w' n = (w n).taking n highest → (exec S (.apply a highest) w').2 n = w' n := by
  rcases exec_apply S a highest w' with ⟨m, _, htakes⟩ | ⟨_, hsame⟩
  · obtain ⟨current, hrun, hlt⟩ := htakes.running
    have hold : w' m ≠ (w m).taking m highest := fun heq => by
      rw [heq] at hrun
      rw [taking_runs hrun] at hlt
      exact Nat.lt_irrefl _ hlt
    have hm : w' m = w m := (hp m).elim id fun ⟨_, heq⟩ => absurd heq hold
    refine ⟨fun n => ?_, fun n hn => ?_⟩
    · by_cases hn : n = m
      · subst hn
        rw [htakes.world, Function.update_self, hm]
        exact .inr ⟨hm ▸ htakes.tls, rfl⟩
      · rw [htakes.other hn]
        exact hp n
    · exact htakes.other fun heq => hold (heq ▸ hn)
  · rw [hsame]
    exact ⟨hp, fun _ _ => rfl⟩

/-- From `w'` on, the document has come to the nodes reported to be behind in `w`. -/
structure Reaches (highest : ClusterDocument) (w w' w'' : World) (reports : List NodeDocument) : Prop where
  pushed : Pushed highest w w''
  kept : ∀ n, w' n = (w n).taking n highest → w'' n = (w n).taking n highest
  reached : ∀ r ∈ reports, ∀ d, w.Runs r.node d → d.version < highest.version → (w r.node).Can highest →
    w'' r.node = (w r.node).taking r.node highest

/-- Every node that was behind and can take the document has it in the end. -/
theorem pushHighest_eval (hc : Coherent S w) {holder : NodeId} (hholder : w.Runs holder highest)
    (hreports : ∀ r ∈ reports, r.result = w.answer r.node ∧ isMember highest r.node = true) (hp : Pushed highest w w')
    (report : SyncReport) :
    ∃ report' w'', (pushHighest S highest report reports).run.eval (exec S) w' = (.ok report', w'') ∧
      Reaches highest w w' w'' reports := by
  induction reports generalizing w' report with
  | nil => exact ⟨report, w', rfl, hp, fun _ h => h, nofun⟩
  | cons r rest ih =>
    obtain ⟨⟨hres, hmember⟩, hrest⟩ := List.forall_mem_cons.mp hreports
    -- nothing is sent to a node that is not behind
    have hskip : (∀ d, w.Runs r.node d → ¬ d.version < highest.version) → ∀ report,
        ∃ report' w'', (pushHighest S highest report rest).run.eval (exec S) w' = (.ok report', w'') ∧
          Reaches highest w w' w'' (r :: rest) := by
      intro hnot report
      obtain ⟨report', w'', heval, hreaches⟩ := ih hrest hp report
      refine ⟨report', w'', heval, hreaches.pushed, hreaches.kept, List.forall_mem_cons.mpr ⟨?_, hreaches.reached⟩⟩
      exact fun d hrun hlt _ => absurd hlt (hnot d hrun)
    unfold pushHighest
    rw [hres]
    cases hanswer : w.answer r.node with
    | error reason =>
      refine hskip (fun d hrun => ?_) _
      rw [answer_ok.mpr hrun] at hanswer
      cases hanswer
    | ok document =>
      have hdoc := answer_ok.mp hanswer
      dsimp only
      split_ifs with hversion
      · refine hskip (fun d hrun => ?_) _
        cases (hrun : (w r.node).process = _).symm.trans hdoc
        omega
      · obtain ⟨a, haddr, hserves⟩ := hc.addressed holder highest hholder r.node hmember
        rw [haddr]
        obtain ⟨hp₁, hkeep₁⟩ := hp.apply (S := S) a
        have hask : (ask (.apply a highest) : AdminProc _).run.eval (exec S) w' =
            (.ok (exec S (.apply a highest) w').1, (exec S (.apply a highest) w').2) := by
          unfold ask
          rw [Task.eval_lift, Task.eval_perform]
        have hreach : ∀ d, w.Runs r.node d → d.version < highest.version → (w r.node).Can highest →
            (exec S (.apply a highest) w').2 r.node = (w r.node).taking r.node highest := by
          intro d hrun hlt hcan
          rcases hp r.node with hsame | ⟨_, htaken⟩
          · have hrun' : w'.Runs r.node d := by
              unfold World.Runs
              rwa [hsame]
            rw [exec_apply_takes hserves hrun' (hc.cluster _ _ hrun) (hc.valid _ _ hholder) (hc.cluster _ _ hholder) hlt
              (hsame ▸ hcan)]
            dsimp only
            rw [Function.update_self, hsame]
          · rw [hkeep₁ _ htaken, htaken]
        have hfinish : ∀ report, ∃ report' w'', (pushHighest S highest report rest).run.eval (exec S)
            (exec S (.apply a highest) w').2 = (.ok report', w'') ∧ Reaches highest w w' w'' (r :: rest) := by
          intro report
          obtain ⟨report', w'', heval, hreaches⟩ := ih hrest hp₁ report
          refine ⟨report', w'', heval, hreaches.pushed, fun n hn => hreaches.kept n ((hkeep₁ n hn).trans hn),
            List.forall_mem_cons.mpr ⟨?_, hreaches.reached⟩⟩
          exact fun d hrun hlt hcan => hreaches.kept _ (hreach d hrun hlt hcan)
        dsimp only
        rw [Task.eval_try_ok hask]
        cases (exec S (.apply a highest) w').1 with
        | ok u => exact hfinish _
        | error reason => exact hfinish _

/-- The highest document among those of the nodes that run. -/
def Highest (w : World) (H : ClusterDocument) : Prop := (∃ n, w.Runs n H) ∧ ∀ n d, w.Runs n d → d.version ≤ H.version

/-- The seed has the document, or lists a node that runs with it. -/
def Seen (w : World) (seed : NodeId) (seedDocument H : ClusterDocument) : Prop :=
  ∃ n, (n = seed ∨ isMember seedDocument n = true) ∧ w.Runs n H

/-- A synchronisation through `a` ends well, and every node that runs and is active in the document then runs with
it. -/
def Converges (S : Setting) (w : World) (a : SocketAddr) (H : ClusterDocument) : Prop :=
  (∃ report, ((sync S a).run.eval (exec S) w).1 = .ok report) ∧
    ∀ n d, w.Runs n d → isMember H n = true → ((sync S a).run.eval (exec S) w).2.Runs n H

variable {H : ClusterDocument}

theorem found_of_seen (hc : Coherent S w) (hH : Highest w H) (hseed : w.Runs n seedDocument)
    (hseen : Seen w n seedDocument H) : w.found seedDocument = H := by
  obtain ⟨m, _, hfound⟩ := found_runs hc hseed
  obtain ⟨m', hlisted, hm'⟩ := hseen
  refine hc.unique m m' _ _ hfound hm' (le_antisymm (hH.2 m _ hfound) ?_)
  rcases hlisted with rfl | hlisted
  · cases (hm' : (w m').process = _).symm.trans hseed
    exact highestOf_ge _
  · obtain ⟨e, he, rfl⟩ := isMember_entry hlisted
    have hmem : (⟨e.id, e.addresses.headD "", w.answer e.id⟩ : NodeDocument) ∈ w.reports seedDocument :=
      List.mem_map.mpr ⟨e, he, rfl⟩
    exact le_highestOf hmem (answer_ok.mpr hm')

theorem converges_iff (hc : Coherent S w) (hH : Highest w H) (hserves : S.serves a = some n)
    (hseed : w.Runs n seedDocument) (hactive : isMember H n = true) :
    Converges S w a H ↔ Seen w n seedDocument H ∧
      ∀ m d, w.Runs m d → isMember H m = true → d.version < H.version → (w m).Can H := by
  obtain ⟨holder, hlisted, hholder⟩ := found_runs hc hseed
  have hreports : ∀ r ∈ w.reports (w.found seedDocument), r.result = w.answer r.node ∧
      isMember (w.found seedDocument) r.node = true := by
    intro r hr
    obtain ⟨e, he, hnode, hanswer⟩ := mem_reports hr
    rw [hnode]
    exact ⟨hanswer, isMember_of_mem (hc.valid _ _ hholder) he⟩
  obtain ⟨report, w'', heval, hreaches⟩ := pushHighest_eval hc hholder hreports (fun _ => .inl rfl)
    ⟨(w.found seedDocument).version, [], [], []⟩
  unfold Converges
  rw [sync_eval hc hserves hseed, heval]
  constructor
  · rintro ⟨_, hall⟩
    have hseen : Seen w n seedDocument H := by
      by_contra hno
      have hne : w.found seedDocument ≠ H := fun heq => hno ⟨holder, hlisted, heq ▸ hholder⟩
      have hend : (w'' n).process = .running H := hall n seedDocument hseed hactive
      rcases hreaches.pushed n with hsame | ⟨_, htaken⟩
      · rw [hsame] at hend
        exact hno ⟨n, .inl rfl, hend⟩
      · rw [htaken] at hend
        exact hne (taking_runs hend).symm
    refine ⟨hseen, fun m d hrun hmember hlt => ?_⟩
    have hend : (w'' m).process = .running H := hall m d hrun hmember
    rw [found_of_seen hc hH hseed hseen] at hreaches
    rcases hreaches.pushed m with hsame | ⟨hcan, _⟩
    · rw [hsame] at hend
      cases (hrun : (w m).process = _).symm.trans hend
      exact absurd hlt (Nat.lt_irrefl _)
    · exact hcan
  · rintro ⟨hseen, hcan⟩
    rw [found_of_seen hc hH hseed hseen] at hreaches
    refine ⟨⟨report, rfl⟩, fun m d hrun hmember => ?_⟩
    have htaking : ((w m).taking m H).process = .running H := if_pos hmember
    show (w'' m).process = .running H
    rcases Nat.lt_or_ge d.version H.version with hlt | hge
    · obtain ⟨e, he, rfl⟩ := isMember_entry hmember
      have hmem : (⟨e.id, e.addresses.headD "", w.answer e.id⟩ : NodeDocument) ∈ w.reports H :=
        List.mem_map.mpr ⟨e, he, rfl⟩
      rw [hreaches.reached _ hmem d hrun hlt (hcan _ d hrun hmember hlt)]
      exact htaking
    · obtain ⟨m', hm'⟩ := hH.1
      obtain rfl := hc.unique m m' d H hrun hm' (le_antisymm (hH.2 m d hrun) hge)
      rcases hreaches.pushed m with hsame | ⟨_, htaken⟩
      · rw [hsame]
        exact hrun
      · rw [htaken]
        exact htaking

end Sync

section Convergence

variable {S : Setting} {ι : Type} [DecidableEq ι] {activities : ι → Activity} {w₀ : World} {d₀ : ClusterDocument}

theorem coherent_final (hf : Founded S d₀ w₀) (hskip : ∀ i, (activities i).role.skip = none)
    {R : Run (faulty S) (activitiesAt S activities w₀)} (hr : Remembers R) (haddr : Addressed S R.final) :
    Coherent S R.final := by
  have h := steadfast_run hf hskip hr (le_refl R.len)
  have hdocs : ∀ n d, R.final.Runs n d → Docs R R.len d := fun n d hrun =>
    ⟨R.len, le_rfl, n, .inr (by rw [show (R.store R.len n).process = .running d from hrun]; exact rfl)⟩
  exact {
    unique := fun n n' d d' hd hd' => h.unique d d' (hdocs n d hd) (hdocs n' d' hd')
    valid := fun n d hd => (h.sane d (hdocs n d hd)).1
    cluster := fun n d hd => (h.sane d (hdocs n d hd)).2
    addressed := haddr }

/-- **What a synchronisation reaches.** After any changes and joins, each left at any point, a synchronisation from a
node active in the highest document brings every node that runs and is active there to this document exactly when the
seed has the document or lists a node that has it, and no node that is behind lacks the TLS material the document asks
for. -/
theorem sync_converges (hf : Founded S d₀ w₀) (hskip : ∀ i, (activities i).role.skip = none)
    (R : Run (faulty S) (activitiesAt S activities w₀)) (hr : Remembers R) (haddr : Addressed S R.final)
    {a : SocketAddr} {seed : NodeId} {seedDocument H : ClusterDocument} (hserves : S.serves a = some seed)
    (hseed : R.final.Runs seed seedDocument) (hH : Highest R.final H) (hactive : isMember H seed = true) :
    Converges S R.final a H ↔ Seen R.final seed seedDocument H ∧
      ∀ n d, R.final.Runs n d → isMember H n = true → d.version < H.version → (R.final n).Can H :=
  converges_iff (coherent_final hf hskip hr haddr) hH hserves hseed hactive

end Convergence

/-! ## A third node -/

/-- Addresses `a`, `b` and `c` are those of nodes 1, 2 and 3. -/
def trioSetting : Setting where
  text := { plainText with parseSocketAddr := fun s => .ok ⟨0, if s = "a" then 1 else if s = "b" then 2 else 3⟩ }
  cluster := 7
  serves a := if a.port = 1 ∨ a.port = 2 ∨ a.port = 3 then some a.port else none

/-- `join` of node 3, which has no devices, through node 1: run twice. -/
def trioJoins (_ : Bool) : Activity := .join ⟨3, "c", false⟩ ⟨0, 1⟩ false []

def trioDocument : ClusterDocument := pairDocument.documentWithThisNode ⟨3, "c", false⟩ []

theorem trio_founded : Founded trioSetting pairDocument (pairWorld (.running pairDocument) (.running pairDocument))
    where
  agreed := pairWorld_agreed (.inr rfl)
  valid := by decide +kernel
  cluster := rfl
  member n hrun := by
    unfold pairWorld at hrun
    split_ifs at hrun with h₁ h₂
    · subst h₁
      decide
    · subst h₂
      decide

/-- Before node 3 starts: nobody is about to start, and no other node is there. -/
structure Awaiting (w : World) : Prop where
  settled : ∀ n d, n ≠ 3 → (w n).process ≠ .starting d
  idle : ∀ d, (w 3).process ≠ .running d
  absent : ∀ n, n ≠ 1 → n ≠ 2 → n ≠ 3 → (w n).process = .down

theorem Awaiting.faulty {S : Setting} {w : World} (h : Awaiting w) {o : Op} {r : Resp o} (hx : Faulty S o w r w') :
    Awaiting w' := by
  have hprocess : ∀ n, (w' n).process = (w n).process ∨ ∃ d, (w n).process = .running d ∧
      ∀ d', (w' n).process ≠ .starting d' := by
    intro n
    rcases hx.cases with rfl | ⟨a, d, m, rfl, htakes⟩ | ⟨m, d, rfl⟩
    · exact .inl rfl
    · by_cases hm : n = m
      · subst hm
        obtain ⟨current, hrun, _⟩ := htakes.running
        refine .inr ⟨current, hrun, fun d' => ?_⟩
        rw [htakes.world, Function.update_self]
        unfold Host.taking
        dsimp only
        split_ifs <;> exact nofun
      · exact .inl (by rw [htakes.other hm])
    · rcases save_world hx with rfl | rfl
      · exact .inl rfl
      · by_cases hm : n = m
        · subst hm
          rw [Function.update_self]
          exact .inl rfl
        · rw [Function.update_of_ne hm]
          exact .inl rfl
  refine ⟨fun n d hn => ?_, fun d => ?_, fun n h₁ h₂ h₃ => ?_⟩
  · rcases hprocess n with hsame | ⟨_, _, hnot⟩
    · rw [hsame]
      exact h.settled n d hn
    · exact hnot d
  · rcases hprocess 3 with hsame | ⟨d', hrun, _⟩
    · rw [hsame]
      exact h.idle d
    · exact absurd hrun (h.idle d')
  · rcases hprocess n with hsame | ⟨d', hrun, _⟩
    · rw [hsame]
      exact h.absent n h₁ h₂ h₃
    · cases (h.absent n h₁ h₂ h₃).symm.trans hrun

theorem trio_awaiting : Awaiting (pairWorld (.running pairDocument) (.running pairDocument)) := by
  refine ⟨fun n d _ => ?_, nofun, fun n h₁ h₂ _ => ?_⟩
  · unfold pairWorld
    split_ifs <;> exact nofun
  · unfold pairWorld
    rw [if_neg h₁, if_neg h₂]

theorem trio_play {sched : List (Bool × ℕ)} {c : Config Op Resp World fun _ : Bool => Unit}
    (h : (activitiesAt trioSetting trioJoins (pairWorld (.running pairDocument) (.running pairDocument))).play
    (exec trioSetting)
      (fun _ _ _ => true) sched = some c) :
    ∃ R : Run (faulty trioSetting) (activitiesAt trioSetting trioJoins (pairWorld (.running pairDocument)
    (.running pairDocument))),
      R.cfg R.len = c ∧ ∀ t ≤ R.len, Awaiting (R.store t) := by
  obtain ⟨R, hR, _⟩ := Config.play_start (S := ⟨Faulty trioSetting, fun _ _ => False⟩) (exec trioSetting)
    (exec_faulty trioSetting) h
  refine ⟨R.mono (fun _ _ _ _ h => h) fun _ _ h => h.elim, hR, fun t ht => ?_⟩
  show Awaiting (R.store t)
  induction t with
  | zero =>
    rw [R.store_zero]
    exact trio_awaiting
  | succ t ih =>
    rcases R.store_step ht with hsame | ⟨_, _, _, _, hexec⟩ | ⟨_, henv⟩
    · rw [hsame]
      exact ih (Nat.le_of_succ_le ht)
    · exact (ih (Nat.le_of_succ_le ht)).faulty hexec
    · exact henv.elim

theorem env_snoc {S : Setting} {ι : Type} [DecidableEq ι] {α : ι → Type} {c₀ : Config Op Resp World α} {w : World}
    {P : World → Prop} (R : Run (faulty S) c₀) (h : Env R.final w) : ∃ R' : Run (faulty S) c₀, R'.final = w ∧
      ((∀ t < R.len, P (R.store t)) → P R.final → ∀ t < R'.len, P (R'.store t)) := by
  refine ⟨R.snoc (.env _ h), congrArg Config.store (R.snoc_last _), fun hbefore hlast t ht => ?_⟩
  have hle : t ≤ R.len := Nat.le_of_lt_succ ht
  have hstore : (R.snoc (.env _ h)).store t = R.store t := congrArg Config.store ((R.snoc_extends _).2 t hle)
  rw [hstore]
  rcases Nat.lt_or_eq_of_le hle with hlt | rfl
  · exact hbefore t hlt
  · exact hlast

theorem remembers_of_awaiting {S : Setting} {ι : Type} [DecidableEq ι] {activities : ι → Activity} {w₀ : World}
    {R : Run (faulty S) (activitiesAt S activities w₀)} (h : ∀ t < R.len, Awaiting (R.store t)) : Remembers R := by
  intro node t t' own own' d hle ht' hserved hstart _
  by_cases hnode : node = 3
  · subst hnode
    rcases hserved with hrun | ⟨u, a, rfl, htakes⟩
    · exact absurd hrun ((h t (by omega)).idle own)
    · obtain ⟨current, hrun, _⟩ := htakes.running
      exact absurd hrun ((h u (by omega)).idle current)
  · exact absurd hstart ((h t' ht').settled node own' hnode)

theorem trio_addressed {w : World} (h : ∀ n d, w.Runs n d → d = pairDocument ∨ d = trioDocument) :
    Addressed trioSetting w := by
  intro n d hrun m hmember
  obtain ⟨e, he, rfl⟩ := isMember_entry hmember
  have hall : ∀ d ∈ [pairDocument, trioDocument], ∀ e ∈ d.activeNodes,
      (firstAddress trioSetting.text d e.id).toOption.bind trioSetting.serves = some e.id := by
    decide +kernel
  have hserves := hall d (by simpa using h n d hrun) e he
  cases haddr : firstAddress trioSetting.text d e.id with
  | error e' =>
    rw [haddr] at hserves
    cases hserves
  | ok a =>
    rw [haddr] at hserves
    exact ⟨a, rfl, hserves⟩

/-- Node 3 was told to join, and only node 1 has taken the document that lists it: a synchronisation through node 2
brings both to this document. -/
theorem sync_converges_trio :
    ∃ R : Run (faulty trioSetting) (activitiesAt trioSetting trioJoins
      (pairWorld (.running pairDocument) (.running pairDocument))),
    R.final.Runs 1 trioDocument ∧ R.final.Runs 2 pairDocument ∧ Converges trioSetting R.final ⟨0, 2⟩ trioDocument := by
  have hplay : ((activitiesAt trioSetting trioJoins (pairWorld (.running pairDocument) (.running pairDocument))).play
    (exec trioSetting)
      (fun _ _ _ => true) (List.replicate 5 (false, 0))).map
      (fun c => ((c.store 1).process, (c.store 2).process, (c.store 3).process)) =
      some (.running trioDocument, .running pairDocument, .down) := by
    decide +kernel
  obtain ⟨c, hplay, hc⟩ := Option.map_eq_some_iff.mp hplay
  obtain ⟨h₁, hc⟩ := Prod.mk.inj hc
  obtain ⟨h₂, h₃⟩ := Prod.mk.inj hc
  obtain ⟨R, rfl, hwait⟩ := trio_play hplay
  have hruns : ∀ n d, R.final.Runs n d → d = pairDocument ∨ d = trioDocument := by
    intro n d hrun
    by_cases hn₁ : n = 1
    · subst hn₁
      cases h₁.symm.trans hrun
      exact .inr rfl
    by_cases hn₂ : n = 2
    · subst hn₂
      cases h₂.symm.trans hrun
      exact .inl rfl
    by_cases hn₃ : n = 3
    · subst hn₃
      cases h₃.symm.trans hrun
    · cases ((hwait R.len le_rfl).absent n hn₁ hn₂ hn₃).symm.trans hrun
  have hH : Highest R.final trioDocument := by
    refine ⟨⟨1, h₁⟩, fun n d hrun => ?_⟩
    rcases hruns n d hrun with rfl | rfl <;> decide
  refine ⟨R, h₁, h₂, ?_⟩
  have hserves : trioSetting.serves ⟨0, 2⟩ = some 2 := rfl
  exact (sync_converges trio_founded (fun _ => rfl) R (remembers_of_awaiting fun t ht => hwait t ht.le)
    (trio_addressed hruns) hserves h₂ hH (by decide)).mpr ⟨⟨1, .inr (by decide), h₁⟩, fun n d _ _ _ => .inl rfl⟩

/-- **A document the seed does not hear of.** Node 3 is told to join again, now finds itself listed by node 1, and
starts; node 1 stops. A synchronisation through node 2 does not ask node 3, which node 2's document does not list, and
leaves node 2 behind. -/
theorem sync_unaware :
    ∃ R : Run (faulty trioSetting) (activitiesAt trioSetting trioJoins
      (pairWorld (.running pairDocument) (.running pairDocument))),
      Remembers R ∧ Addressed trioSetting R.final ∧ Highest R.final trioDocument ∧ R.final.Runs 2 pairDocument ∧
        isMember trioDocument 2 = true ∧ ¬ Converges trioSetting R.final ⟨0, 2⟩ trioDocument := by
  have hplay : ((activitiesAt trioSetting trioJoins (pairWorld (.running pairDocument) (.running pairDocument))).play
    (exec trioSetting)
      (fun _ _ _ => true) (List.replicate 5 (false, 0) ++ List.replicate 3 (true, 0))).map
        (fun c => ((c.store 2).process, (c.store 3).process, (c.store 3).saved)) =
      some (.running pairDocument, .down, some trioDocument) := by
    decide +kernel
  obtain ⟨c, hplay, hc⟩ := Option.map_eq_some_iff.mp hplay
  obtain ⟨h₂, hc⟩ := Prod.mk.inj hc
  obtain ⟨h₃, hsaved⟩ := Prod.mk.inj hc
  obtain ⟨R₁, rfl, hwait₁⟩ := trio_play hplay
  have hlast := hwait₁ R₁.len le_rfl
  -- node 1 stops
  obtain ⟨R₂, hR₂, hwait₂⟩ := env_snoc R₁ (.stop R₁.final 1)
  have hstop : Awaiting R₂.final := by
    rw [hR₂]
    refine ⟨fun n d hn => ?_, hlast.idle, fun n hn₁ hn₂ hn₃ => ?_⟩
    · by_cases hn₁ : n = 1
      · subst hn₁
        exact nofun
      · rw [Function.update_of_ne hn₁]
        exact hlast.settled n d hn
    · rw [Function.update_of_ne hn₁]
      exact hlast.absent n hn₁ hn₂ hn₃
  have hsaved₂ : (R₂.final 3).saved = some trioDocument := by
    rw [hR₂]
    exact hsaved
  have hdown₂ : (R₂.final 3).process = .down := by
    rw [hR₂]
    exact h₃
  -- node 3 starts
  obtain ⟨R₃, hR₃, hwait₃⟩ := env_snoc R₂ (.boot R₂.final 3 trioDocument hdown₂ hsaved₂)
  have hboot : Awaiting R₃.final := by
    rw [hR₃]
    refine ⟨fun n d hn => ?_, nofun, fun n hn₁ hn₂ hn₃ => ?_⟩
    · rw [Function.update_of_ne hn]
      exact hstop.settled n d hn
    · rw [Function.update_of_ne hn₃]
      exact hstop.absent n hn₁ hn₂ hn₃
  have hsaved₃ : (R₃.final 3).saved = some trioDocument := by
    rw [hR₃]
    exact hsaved₂
  have hstart₃ : (R₃.final 3).process = .starting trioDocument := by
    rw [hR₃]
    rfl
  obtain ⟨R₄, hR₄, hwait₄⟩ := env_snoc R₃ (.run R₃.final 3 trioDocument trioDocument hstart₃ hsaved₃ (by decide))
  have hbefore : ∀ t < R₄.len, Awaiting (R₄.store t) :=
    hwait₄ (hwait₃ (hwait₂ (fun t ht => hwait₁ t ht.le) hlast) hstop) hboot
  have hrun₂ : R₄.final.Runs 2 pairDocument := by
    rw [hR₄, hR₃, hR₂]
    exact h₂
  have hrun₃ : R₄.final.Runs 3 trioDocument := by
    rw [hR₄]
    rfl
  have hdown₁ : (R₄.final 1).process = .down := by
    rw [hR₄, hR₃, hR₂]
    rfl
  have honly : ∀ n d, R₄.final.Runs n d → n = 2 ∧ d = pairDocument ∨ n = 3 ∧ d = trioDocument := by
    intro n d hrun
    by_cases hn₃ : n = 3
    · subst hn₃
      cases hrun₃.symm.trans hrun
      exact .inr ⟨rfl, rfl⟩
    by_cases hn₂ : n = 2
    · subst hn₂
      cases hrun₂.symm.trans hrun
      exact .inl ⟨rfl, rfl⟩
    by_cases hn₁ : n = 1
    · subst hn₁
      cases hdown₁.symm.trans hrun
    · have habsent := hboot.absent n hn₁ hn₂ hn₃
      have hsame : R₄.final n = R₃.final n := by rw [hR₄, Function.update_of_ne hn₃]
      unfold World.Runs at hrun
      rw [hsame, habsent] at hrun
      cases hrun
  have hr : Remembers R₄ := remembers_of_awaiting hbefore
  have haddr : Addressed trioSetting R₄.final := trio_addressed fun n d hrun => (honly n d hrun).imp And.right And.right
  have hH : Highest R₄.final trioDocument := by
    refine ⟨⟨3, hrun₃⟩, fun n d hrun => ?_⟩
    rcases honly n d hrun with ⟨_, rfl⟩ | ⟨_, rfl⟩ <;> decide
  refine ⟨R₄, hr, haddr, hH, hrun₂, by decide, fun hconverges => ?_⟩
  have hseen := ((converges_iff (coherent_final trio_founded (fun _ => rfl) hr haddr) hH (n := 2)
    rfl hrun₂ (by decide)).mp hconverges).1
  obtain ⟨n, hlisted, hrun⟩ := hseen
  rcases honly n _ hrun with ⟨_, heq⟩ | ⟨rfl, _⟩
  · exact absurd heq (by decide +kernel)
  · exact absurd hlisted (by decide)

end Djbod.Net
