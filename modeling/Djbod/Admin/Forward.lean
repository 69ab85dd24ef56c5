import Djbod.Admin.Unique

/-!
# The document in a node's state directory

`join` and `add-device` write the state directory beside the node's own process, and look at nothing there.

* `Activity` : those two commands, and those an administrator runs elsewhere;
* `Since` : what is saved is no older than the document the command fetched last, nor than anything it has sent or saved
  since;
* `Undisturbed` : nobody else changes the state directory between the command's fetch and its save;
* `state_directory_forward` : then the version there never decreases.
-/

namespace Djbod.Net

open Sched

/-! ## What commands send and save -/

/-- A command run on the machine of a node, or elsewhere. -/
inductive Activity where
  | admin (c : Command)
  | join (config : NodeConfig) (peer : SocketAddr) (wipeRemoved : Bool) (paths : List DevicePath)
  | addDevice (config : NodeConfig) (peer : SocketAddr) (wipeRemoved : Bool) (paths : List DevicePath)

namespace Activity

def program (S : Setting) : Activity → Prog Op Resp Unit
  | .admin c => c.program S >>= fun _ => pure ()
  | .join config peer wipeRemoved paths => Prog.call (Net.join S config peer wipeRemoved paths).run >>= fun _ => pure ()
  | .addDevice config peer wipeRemoved paths =>
    Prog.call (Net.addDevice S config peer wipeRemoved paths).run >>= fun _ => pure ()

/-- The node on whose machine the command runs, and the peer it asks. -/
def site : Activity → Option (NodeId × SocketAddr)
  | .admin _ => none
  | .join config peer _ _ => some (config.nodeId, peer)
  | .addDevice config peer _ _ => some (config.nodeId, peer)

end Activity

/-- `join` and `add-device` propose the document that adds their node and its devices. -/
def localRole (config : NodeConfig) : Role where
  builds current next := ∃ devices, current.proposeThisNode config devices = some next
  skip := none
  site := some config.nodeId
  relays := false

def Activity.role : Activity → Role
  | .admin c => c.role
  | .join config _ _ _ => localRole config
  | .addDevice config _ _ _ => localRole config

section Traces

variable {S : Setting} {past : List (Ev Op Resp)} {config : NodeConfig} {current : ClusterDocument}

/-- What a command on a node's machine goes by: it has what it fetches from the peer, and saves what it has and what it
got accepted. -/
structure Manner (S : Setting) (config : NodeConfig) (peer : SocketAddr) (I : List (Ev Op Resp) → Prop)
    (Has May : ClusterDocument → List (Ev Op Resp) → Prop) : Prop where
  start : I []
  may : ∀ {d past}, Has d past → May d past
  fetch : ∀ {past}, I past → Task.Meets Logged I Has (fun _ _ => True) (ofAdmin (fetchDocument peer)) past
  save : ∀ {d past}, I past → May d past → Task.Meets Logged I (fun _ past' => Has d past → Has d past')
    (fun _ _ => True) (saveDocumentFor config.nodeId d) past
  propose : ∀ {current next past}, (localRole config).builds current next → I past → Has current past →
    Task.Meets Logged I (fun _ past' => May next past') (fun _ _ => True) (proposeSkipping S current next none) past

theorem checked_log {α : Type} {I : List (Ev Op Resp) → Prop} {P : List (Ev Op Resp) → Prop} (h : I past) (hp : P past)
    (x : Except MembershipError α) :
    Task.Meets Logged I (fun _ past' => P past') (fun _ _ => True) (checked x) past := by
  cases x with
  | ok a => exact ⟨h, hp⟩
  | error e => exact ⟨h, trivial⟩

theorem called_log {I : List (Ev Op Resp) → Prop} {y : MemberProc ClusterDocument} {es : List (Ev Op Resp)}
    {q : Prog Op Resp Unit} (hy : Task.Meets Logged I (fun _ _ => True) (fun _ _ => True) y [])
    (h : Prog.Tr (Prog.call y.run >>= fun _ => pure ()) es q) : I es :=
  have hwp : (Prog.call y.run >>= fun _ => pure ()).Wp Logged I (fun _ _ => True) [] :=
    Prog.Wp.bind (Prog.Wp.call hy) fun _ _ _ hI => ⟨hI, trivial⟩
  hwp.log h

section Manner

variable {peer : SocketAddr} {I : List (Ev Op Resp) → Prop} {Has May : ClusterDocument → List (Ev Op Resp) → Prop}
  (m : Manner S config peer I Has May)

include m

theorem Manner.proposeWithRetry (devices : List DeviceId) (attempts : ℕ) (h : I past) (hcur : Has current past) :
    Task.Meets Logged I (fun _ _ => True) (fun _ _ => True)
    (proposeWithRetry S config devices peer attempts current) past := by
  induction attempts generalizing current past with
  | zero => exact ⟨h, trivial⟩
  | succ attempts ih =>
    unfold Net.proposeWithRetry
    cases hnext : current.proposeThisNode config devices with
    | none => exact Task.Meets.bind (m.save h (m.may hcur)) fun _ past' _ h' => ⟨h', trivial⟩
    | some next =>
      -- after losing to another change, the peer is asked again
      have hretry : ∀ {past'}, I past' → Task.Meets Logged I (fun _ _ => True) (fun _ _ => True) (do
            let current ← ofAdmin (fetchDocument peer)
            saveDocumentFor config.nodeId current
            Net.proposeWithRetry S config devices peer attempts current) past' := by
        intro past' h'
        refine Task.Meets.bind (m.fetch h') fun fetched past₂ hf₂ h₂ => ?_
        exact Task.Meets.bind (m.save h₂ (m.may hf₂)) fun _ past₃ hkeep h₃ => ih h₃ (hkeep hf₂)
      refine Task.Meets.bind (m.propose ⟨devices, hnext⟩ h hcur).caught fun answer past' hanswer h' => ?_
      cases answer with
      | ok u => exact Task.Meets.bind (m.save h' hanswer) fun _ past₂ _ h₂ => ⟨h₂, trivial⟩
      | error e =>
        cases e with
        | superseded node reason => exact hretry h'
        | staleProposal expected found => exact hretry h'
        | _ => exact ⟨h', trivial⟩

variable {wipeRemoved : Bool} {paths : List DevicePath} {es : List (Ev Op Resp)} {q : Prog Op Resp Unit}

theorem Manner.join_log (h : Prog.Tr ((Activity.join config peer wipeRemoved paths).program S) es q) : I es := by
  have hjoin : Task.Meets Logged I (fun _ _ => True) (fun _ _ => True) (join S config peer wipeRemoved paths) [] := by
    refine Task.Meets.bind (m.fetch m.start) fun current past hcur h => ?_
    refine Task.Meets.bind (checked_log (P := Has current) h hcur _) fun _ past₁ hcur₁ h₁ => ?_
    refine Task.Meets.bind (m.save h₁ (m.may hcur₁)) fun _ past₂ hkeep h₂ => ?_
    refine Task.Meets.bind (checked_log (P := Has current) h₂ (hkeep hcur₁) _) fun devices past₃ hcur₃ h₃ => ?_
    exact m.proposeWithRetry devices _ h₃ hcur₃
  exact called_log hjoin h

theorem Manner.addDevice_log (h : Prog.Tr ((Activity.addDevice config peer wipeRemoved paths).program S) es q) :
    I es := by
  have hadd : Task.Meets Logged I (fun _ _ => True) (fun _ _ => True)
      (addDevice S config peer wipeRemoved paths) [] := by
    refine Task.Meets.bind (m.fetch m.start) fun current past hcur h => ?_
    refine Task.Meets.bind (checked_log (P := Has current) h hcur _) fun devices past₁ hcur₁ h₁ => ?_
    exact m.proposeWithRetry devices _ h₁ hcur₁
  exact called_log hadd h

end Manner

theorem proper_manner (S : Setting) (config : NodeConfig) (peer : SocketAddr) :
    Manner S config peer (Proper S (localRole config)) Fetched fun d past =>
    Allowed S (localRole config) past (.save config.nodeId d) where
  start := obeys_nil
  may hcur := ⟨rfl, .inl hcur⟩
  fetch {past} h := by
    refine ⟨h, ?_⟩
    rintro r _ ⟨t, rfl⟩
    cases r with
    | ok d => exact ⟨h.fetch trivial, t, peer, List.mem_append_right _ (List.mem_singleton_self _)⟩
    | error reason => exact ⟨h.fetch trivial, trivial⟩
  save {d past} h hallowed := by
    refine ⟨h, ?_⟩
    rintro r _ ⟨t, rfl⟩
    have hproper := h.snoc (e := ⟨t, .save config.nodeId d, r⟩) hallowed
    cases r with
    | ok u => exact ⟨hproper, fun hcur => hcur.mono (List.subset_append_left _ _)⟩
    | error reason => exact ⟨hproper, trivial⟩
  propose {current next past} hbuild h hcur := (proposeSkipping_log hbuild h hcur).mono (fun _ h => h)
    (fun _ _ _ htaken => ⟨rfl, .inr (htaken.imp id fun hnone => ⟨current, hnone⟩)⟩) fun _ _ _ _ => trivial

theorem Activity.allowed (x : Activity) {es : List (Ev Op Resp)} {q : Prog Op Resp Unit}
    (h : Prog.Tr (x.program S) es q) : Proper S x.role es := by
  cases x with
  | admin c =>
    have hlog : (c.program S >>= fun _ => (pure () : Prog Op Resp Unit)).Wp Logged (Proper S c.role)
        (fun _ _ => True) [] :=
      Prog.Wp.bind c.log fun _ _ _ hI => ⟨hI, trivial⟩
    exact hlog.log h
  | join config peer wipeRemoved paths => exact (proper_manner S config peer).join_log h
  | addDevice config peer wipeRemoved paths => exact (proper_manner S config peer).addDevice_log h

theorem localRole_version {next : ClusterDocument} (h : (localRole config).builds current next) :
    next.version = current.version + 1 := by
  obtain ⟨devices, hnext⟩ := h
  unfold ClusterDocument.proposeThisNode at hnext
  split_ifs at hnext
  cases hnext
  rfl

theorem Activity.role_version {x : Activity} {next : ClusterDocument} (h : x.role.builds current next) :
    next.version = current.version + 1 := by
  cases x with
  | admin c => exact Command.Builds.version h
  | join config peer wipeRemoved paths => exact localRole_version h
  | addDevice config peer wipeRemoved paths => exact localRole_version h

end Traces

def Op.document : Op → Option ClusterDocument
  | .fetch _ => none
  | .apply _ d => some d
  | .save _ d => some d

/-- Nothing above the version is sent, saved, or answered by the peer. -/
def Below (peer : SocketAddr) (bound : ℕ) (e : Ev Op Resp) : Prop :=
  (∀ t d, e = ⟨t, .fetch peer, .ok d⟩ → d.version ≤ bound) ∧ ∀ d ∈ e.op.document, d.version ≤ bound

/-- The peer's last answer is a document of version `bound` at most, and so is everything sent or saved since. -/
def Since (peer : SocketAddr) (bound : ℕ) (past : List (Ev Op Resp)) : Prop :=
  ∃ es₁ t d es₂, past = es₁ ++ (⟨t, .fetch peer, .ok d⟩ : Ev Op Resp) :: es₂ ∧ d.version ≤ bound ∧
    ∀ e ∈ es₂, (∀ t' d', e ≠ ⟨t', .fetch peer, .ok d'⟩) ∧ ∀ d' ∈ e.op.document, d'.version ≤ bound

/-- What a command on the machine of `n` may do after `past`. -/
def LocalAllowed (n : NodeId) (peer : SocketAddr) (past : List (Ev Op Resp)) : Op → Prop
  | .save m d => m = n ∧ Since peer d.version past
  | _ => True

abbrev LocalProper (n : NodeId) (peer : SocketAddr) : List (Ev Op Resp) → Prop := Obeys (LocalAllowed n peer)

section Traces

variable {S : Setting} {n : NodeId} {peer : SocketAddr} {past : List (Ev Op Resp)}
  {current next : ClusterDocument} {bound : ℕ}

theorem LocalProper.free (h : LocalProper n peer past) {e : Ev Op Resp} (he : ∀ m d, e.op ≠ .save m d) :
    LocalProper n peer (past ++ [e]) := by
  refine h.snoc ?_
  cases hop : e.op with
  | fetch a => trivial
  | apply a d => trivial
  | save m d => exact absurd hop (he m d)

theorem Since.mono {bound' : ℕ} (h : Since peer bound past) (hle : bound ≤ bound') : Since peer bound' past := by
  obtain ⟨es₁, t, d, es₂, rfl, hd, hes₂⟩ := h
  exact ⟨es₁, t, d, es₂, rfl, hd.trans hle, fun e he => ⟨(hes₂ e he).1, fun d' hd' => ((hes₂ e he).2 d' hd').trans hle⟩⟩

theorem Since.snoc (h : Since peer bound past) {e : Ev Op Resp} (he : Below peer bound e) :
    Since peer bound (past ++ [e]) := by
  by_cases hpeer : ∃ t d, e = ⟨t, .fetch peer, .ok d⟩
  · obtain ⟨t, d, rfl⟩ := hpeer
    exact ⟨past, t, d, [], rfl, he.1 t d rfl, nofun⟩
  · push Not at hpeer
    obtain ⟨es₁, t, d, es₂, rfl, hd, hes₂⟩ := h
    refine ⟨es₁, t, d, es₂ ++ [e], by rw [List.append_assoc, List.cons_append], hd, ?_⟩
    rintro e' he'
    rcases List.mem_append.mp he' with he' | he'
    · exact hes₂ e' he'
    · rw [List.mem_singleton.mp he']
      exact ⟨hpeer, he.2⟩

theorem Since.append (h : Since peer bound past) {es : List (Ev Op Resp)} (hes : ∀ e ∈ es, Below peer bound e) :
    Since peer bound (past ++ es) := by
  induction es generalizing past with
  | nil => rwa [List.append_nil]
  | cons e es ih =>
    obtain ⟨he, hes⟩ := List.forall_mem_cons.mp hes
    have := ih (h.snoc he) hes
    rwa [List.append_assoc, List.singleton_append] at this

theorem fetchEntries_since (bound : ℕ) (h : LocalProper n peer past) (document : ClusterDocument)
    (entries : List NodeEntry) : (fetchEntries S document entries).Wp Logged (LocalProper n peer)
      (fun reports past' => Since peer bound past → (∀ r ∈ reports, ∀ d, r.result = .ok d → d.version ≤ bound) →
        Since peer bound past') past := by
  induction entries generalizing past with
  | nil => exact ⟨h, fun hs _ => hs⟩
  | cons entry rest ih =>
    refine Task.Wp.bind (Q := fun result past' => Since peer bound past →
      (∀ d, result = Except.ok d → d.version ≤ bound) → Since peer bound past') ?_ ?_
    · unfold fetchEntry
      cases firstAddress S.text document entry.id with
      | error e => exact ⟨h, fun hs _ => hs⟩
      | ok a =>
        refine Task.wp_perform h ?_
        rintro r _ ⟨t, rfl⟩
        refine ⟨h.free nofun, fun hs hr => hs.snoc ⟨?_, nofun⟩⟩
        rintro t' d heq
        cases heq
        exact hr d rfl
    · intro result past₁ hres h₁
      refine Task.Wp.bind (ih h₁) ?_
      intro reports past₂ hrest h₂
      refine ⟨h₂, fun hs hall => ?_⟩
      obtain ⟨hfirst, hall⟩ := List.forall_mem_cons.mp hall
      exact hrest (hres hs hfirst) hall

theorem reported_mem {reports : List NodeDocument} {documents : List (NodeId × ClusterDocument)}
    (h : reported reports = .ok documents) {r : NodeDocument} (hr : r ∈ reports) {d : ClusterDocument}
    (hd : r.result = .ok d) : (r.node, d) ∈ documents := by
  induction reports generalizing documents with
  | nil => cases hr
  | cons report rest ih =>
    unfold reported at h
    cases hres : report.result with
    | error reason =>
      rw [hres] at h
      cases h
    | ok document =>
      rw [hres] at h
      cases hrest : reported rest with
      | error e =>
        rw [hrest] at h
        cases h
      | ok documents' =>
        rw [hrest] at h
        cases h
        rcases List.mem_cons.mp hr with rfl | hr
        · cases hres.symm.trans hd
          exact List.mem_cons_self
        · exact List.mem_cons_of_mem _ (ih hrest hr)

theorem checkVersions_ok {version : ℕ} {documents : List (NodeId × ClusterDocument)}
    (h : checkVersions version documents = .ok ()) : ∀ d ∈ documents, d.2.version = version := by
  unfold checkVersions at h
  split_ifs at h with hall
  · exact fun d hd => beq_iff_eq.mp (List.all_eq_true.mp hall d hd)
  · cases documents with
    | nil => nofun
    | cons first rest =>
      dsimp only at h
      split_ifs at h

theorem applyInOrder_uses (applied : List NodeId) (entries : List NodeEntry) :
    (applyInOrder S current next applied entries).run.Uses fun o => ∃ a, o = .apply a next := by
  induction entries generalizing applied with
  | nil => trivial
  | cons entry rest ih =>
    unfold applyInOrder
    cases firstAddress S.text current entry.id with
    | error e => trivial
    | ok a =>
      refine ⟨⟨a, rfl⟩, fun r => ?_⟩
      cases r with
      | ok u => exact ih _
      | error reason =>
        show (ExceptT.run (if applied = [] then _ else _ : AdminProc Unit)).Uses _
        split_ifs <;> trivial

/-- A proposal that goes through was answered with documents of one version, and sends nothing but its own. -/
theorem proposal_log (h : LocalProper n peer past) (hs : Since peer current.version past)
    (hnext : next.version = current.version + 1) : Task.Meets Logged (LocalProper n peer)
    (fun _ past' => Since peer next.version past') (fun _ _ => True)
      (proposeSkipping S current next none) past := by
  unfold proposeSkipping
  cases next.validate S.text with
  | error e => exact ⟨h, trivial⟩
  | ok u =>
    refine Task.Meets.bind (Task.Meets.lift (fetchEntries_since current.version h current _)) ?_
    intro reports past' hsince h'
    cases hreported : reported reports with
    | error e => exact ⟨h', trivial⟩
    | ok documents =>
      dsimp only
      cases hversions : checkVersions current.version documents with
      | error e => exact ⟨h', trivial⟩
      | ok u =>
        dsimp only
        cases checkSameContent [] documents with
        | error e => exact ⟨h', trivial⟩
        | ok u =>
          have hs' : Since peer current.version past' := hsince hs fun r hr d hd =>
            (checkVersions_ok hversions _ (reported_mem hreported hr hd)).le
          refine (Task.wp_logged (applyInOrder_uses [] _) ?_ h').mono (fun _ h => h) ?_
          · rintro past e h ⟨a, ha⟩
            exact h.free fun m d hop => by cases ha.symm.trans hop
          · rintro (e | u) _ _ ⟨es, rfl, hes⟩
            · trivial
            · refine (hs'.mono (by omega)).append fun e he => ?_
              obtain ⟨a, ha⟩ := hes e he
              refine ⟨fun t d heq => ?_, fun d hd => ?_⟩
              · rw [heq] at ha
                cases ha
              · rw [ha] at hd
                cases hd
                exact le_rfl

theorem local_manner (S : Setting) (config : NodeConfig) (peer : SocketAddr) :
    Manner S config peer (LocalProper config.nodeId peer) (fun d => Since peer d.version) fun d =>
    Since peer d.version where
  start := obeys_nil
  may := id
  fetch {past} h := by
    refine ⟨h, ?_⟩
    rintro r _ ⟨t, rfl⟩
    cases r with
    | ok d => exact ⟨h.free nofun, past, t, d, [], rfl, le_rfl, nofun⟩
    | error reason => exact ⟨h.free nofun, trivial⟩
  save {d past} h hs := by
    refine ⟨h, ?_⟩
    rintro r _ ⟨t, rfl⟩
    have hallowed : LocalAllowed config.nodeId peer past (.save config.nodeId d) := ⟨rfl, hs⟩
    have hproper := h.snoc (e := ⟨t, .save config.nodeId d, r⟩) hallowed
    have hsince : Since peer d.version (past ++ [⟨t, .save config.nodeId d, r⟩]) := by
      refine hs.snoc ⟨nofun, ?_⟩
      rintro _ ⟨⟩
      exact le_rfl
    cases r with
    | ok u => exact ⟨hproper, fun _ => hsince⟩
    | error reason => exact ⟨hproper, trivial⟩
  propose hbuild h hs := proposal_log h hs (localRole_version hbuild)

theorem Activity.proper {x : Activity} (hsite : x.site = some (n, peer)) {es : List (Ev Op Resp)}
    {q : Prog Op Resp Unit} (h : Prog.Tr (x.program S) es q) : LocalProper n peer es := by
  cases x with
  | admin c => cases hsite
  | join config p wipeRemoved paths =>
    cases hsite
    exact (local_manner S config peer).join_log h
  | addDevice config p wipeRemoved paths =>
    cases hsite
    exact (local_manner S config peer).addDevice_log h

theorem Activity.saves {x : Activity} {es : List (Ev Op Resp)} {q : Prog Op Resp Unit} (h : Prog.Tr (x.program S) es q)
    {e : Ev Op Resp} (he : e ∈ es) {d : ClusterDocument} (hop : e.op = .save n d) :
    ∃ peer, x.site = some (n, peer) := by
  obtain ⟨es₁, es₂, heq⟩ := List.append_of_mem he
  have hallowed := x.allowed h es₁ e es₂ heq
  rw [hop] at hallowed
  have hsite := hallowed.1
  cases x with
  | admin c => cases hsite
  | join config peer wipeRemoved paths | addDevice config peer wipeRemoved paths =>
    cases hsite
    exact ⟨peer, rfl⟩

end Traces

/-! ## The state directory in a run -/

section Steps

variable {S : Setting} {w w' : World} {n m : NodeId} {d : ClusterDocument}

theorem Faulty.saved {o : Op} {r : Resp o} (h : Faulty S o w r w') :
    (w' n).saved = (w n).saved ∨ ∃ d, (w' n).saved = some d ∧
      ((∃ a, o = .apply a d ∧ Takes S w a d n w') ∨ o = .save n d) := by
  rcases h.cases with rfl | ⟨a, d, m, rfl, htakes⟩ | ⟨m, d, rfl⟩
  · exact .inl rfl
  · by_cases hm : n = m
    · subst hm
      exact .inr ⟨d, htakes.saved, .inl ⟨a, rfl, htakes⟩⟩
    · rw [htakes.other hm]
      exact .inl rfl
  · rcases save_world h with rfl | rfl
    · exact .inl rfl
    · by_cases hm : n = m
      · subst hm
        rw [Function.update_self]
        exact .inr ⟨d, rfl, .inr rfl⟩
      · rw [Function.update_of_ne hm]
        exact .inl rfl

/-- By itself a node changes its state directory only when it adopts a document at its start. -/
theorem Env.saved (h : Env w w') : (w' n).saved = (w n).saved ∨
    ∃ d theirs, (w n).process = .heard d theirs ∧ d.version < theirs.version ∧ (w' n).saved = some theirs := by
  cases h with
  | stop m | boot m d hdown hsaved | hear m m' d theirs hstart hpeer hcluster
  | run m d document hstart hsaved hmember =>
    refine .inl ?_
    by_cases hm : n = m
    · subst hm
      rw [Function.update_self]
    · rw [Function.update_of_ne hm]
  | adopt m d theirs hheard =>
    by_cases hm : n = m
    · subst hm
      rw [Function.update_self]
      by_cases hlt : d.version < theirs.version
      · exact .inr ⟨d, theirs, hheard, hlt, if_pos hlt⟩
      · exact .inl (if_neg hlt)
    · rw [Function.update_of_ne hm]
      exact .inl rfl

theorem Env.starts (h : Env w w') {own : ClusterDocument} (hstart : (w n).process = .starting own)
    (hrun : (w' n).process = .running d) : (w n).saved = some d := by
  cases h with
  | stop m | boot m d hdown hsaved | hear m m' d theirs hstart' hpeer hcluster | adopt m d theirs hheard =>
    by_cases hm : n = m
    · subst hm
      rw [Function.update_self] at hrun
      cases hrun
    · rw [Function.update_of_ne hm, hstart] at hrun
      cases hrun
  | run m own' document hstart' hsaved hmember =>
    by_cases hm : n = m
    · subst hm
      rw [Function.update_self] at hrun
      cases hrun
      exact hsaved
    · rw [Function.update_of_ne hm, hstart] at hrun
      cases hrun

theorem Faulty.starts {o : Op} {r : Resp o} (h : Faulty S o w r w') {own : ClusterDocument}
    (hstart : (w n).process = .starting own) : (w' n).process = .starting own := by
  rcases h.cases with rfl | ⟨a, d, m, rfl, htakes⟩ | ⟨m, d, rfl⟩
  · exact hstart
  · by_cases hm : n = m
    · subst hm
      obtain ⟨current, hrun, _⟩ := htakes.running
      cases hstart.symm.trans hrun
    · rw [htakes.other hm]
      exact hstart
  · rcases save_world h with rfl | rfl
    · exact hstart
    · by_cases hm : n = m
      · subst hm
        rw [Function.update_self]
        exact hstart
      · rw [Function.update_of_ne hm]
        exact hstart

end Steps

def activitiesAt {ι : Type} (S : Setting) (activities : ι → Activity) (w : World) :
    Config Op Resp World (fun _ : ι => Unit) := ⟨w, fun i => (activities i).program S⟩

section Runs

variable {S : Setting} {ι : Type} [DecidableEq ι] {activities : ι → Activity} {w₀ : World}
  (R : Run (faulty S) (activitiesAt S activities w₀)) (n : NodeId)

/-- A command on the machine of `n` gets its peer's document at `t`, asks for it no more, and saves at `t'`. -/
def Holds (i : ι) (t t' : ℕ) : Prop :=
  ∃ peer d d' r, (activities i).site = some (n, peer) ∧ R.label t = .act i (.fetch peer) (.ok d) ∧ t < t' ∧ t' < R.len ∧
    R.label t' = .act i (.save n d') r ∧ ∀ u d, t < u → u < t' → R.label u ≠ .act i (.fetch peer) (.ok d)

/-- The process of `n` is about to replace the document in its state directory. -/
def Replaces (t : ℕ) : Prop :=
  (∃ i a d r, R.label t = .act i (.apply a d) r ∧ S.serves a = some n) ∨
    R.label t = .env ∧ ∃ d theirs, (R.store t n).process = .heard d theirs

/-- The commands on the machine of a node and its process keep out of each other's way: a command asks a peer that is
not behind the node; from the peer's answer until the command saves, nobody else changes the state directory; and when
the process replaces the document there, it is not newer than the one the process goes by. -/
structure Undisturbed : Prop where
  fresh : ∀ t i peer m theirs saved r, t < R.len → R.label t = .act i (.fetch peer) r →
    (activities i).site = some (n, peer) → S.serves peer = some m → (R.store t m).process = .running theirs →
    (R.store t n).saved = some saved → saved.version ≤ theirs.version
  alone : ∀ i t t', Holds R n i t t' → ∀ u, t < u → u < t' → (∀ o r, R.label u ≠ .act i o r) →
    (R.store (u + 1) n).saved = (R.store u n).saved
  known : ∀ t own saved, t < R.len → Replaces R n t → (R.store t n).process.Own own → (R.store t n).saved = some saved →
    saved.version ≤ own.version

variable {R n}

theorem Undisturbed.save (h : Undisturbed R n) {t : ℕ} (ht : t < R.len) {i : ι} {d : ClusterDocument}
    {r : Resp (.save n d)} (hlabel : R.label t = .act i (.save n d) r) {saved : ClusterDocument}
    (hsaved : (R.store t n).saved = some saved) : saved.version ≤ d.version := by
  have htr := R.tr i (Nat.succ_le_of_lt ht)
  rw [R.events_act hlabel] at htr
  obtain ⟨peer, hsite⟩ := Activity.saves htr (List.mem_append_right _ (List.mem_singleton_self _)) rfl
  obtain ⟨_, es₁, t₁, theirs, es₂, heq, hle, hes₂⟩ := (Activity.proper hsite htr).last
  -- the moment the peer answered
  have hmem : (⟨t₁, .fetch peer, .ok theirs⟩ : Ev Op Resp) ∈ R.events i t :=
    heq ▸ List.mem_append_right _ List.mem_cons_self
  obtain ⟨ht₁, hfetch⟩ := R.mem_events.mp hmem
  dsimp only at ht₁ hfetch
  have hafter : ∀ u o r', t₁ < u → u < t → R.label u = .act i o r' → (⟨u, o, r'⟩ : Ev Op Resp) ∈ es₂ :=
      fun u o r' hlt hu hl =>
    R.mem_after heq hlt hu hl
  have hholds : Holds R n i t₁ t := by
    refine ⟨peer, theirs, d, r, hsite, hfetch, ht₁, ht, hlabel, fun u d' hlt hu hl => ?_⟩
    exact (hes₂ _ (hafter u _ _ hlt hu hl)).1 u d' rfl
  have hexec : Faulty S (.fetch peer) (R.store t₁) (.ok theirs) (R.store (t₁ + 1)) := R.exec_of_mem ht.le hmem
  have hbound : ∀ u, t₁ < u → u ≤ t → ∀ saved, (R.store u n).saved = some saved → saved.version ≤ d.version := by
    intro u hu
    induction u, hu using Nat.le_induction with
    | base =>
      intro _ saved hsaved
      obtain ⟨m, hserves, hrun⟩ := fetch_running hexec
      rcases hexec.saved (n := n) with hsame | ⟨_, _, ⟨_, hop, _⟩ | hop⟩
      · exact (h.fresh t₁ i peer m theirs saved _ (ht₁.trans ht) hfetch hsite hserves hrun (hsame ▸ hsaved)).trans hle
      · cases hop
      · cases hop
    | succ u hlt ih =>
      intro hu saved hsaved
      have hu' : u < t := hu
      have hprev := ih hu'.le
      by_cases hown : ∃ o r, R.label u = .act i o r
      · obtain ⟨o, r', hl⟩ := hown
        rcases Faulty.saved (n := n) (R.exec_of_label (hu'.trans ht) hl) with hsame | ⟨d', hd', hop⟩
        · exact hprev saved (hsame ▸ hsaved)
        · cases hd'.symm.trans hsaved
          have hdoc : saved ∈ o.document := by
            rcases hop with ⟨a, rfl, _⟩ | rfl <;> rfl
          exact (hes₂ _ (hafter u o r' hlt hu' hl)).2 saved hdoc
      · push Not at hown
        exact hprev saved (h.alone i t₁ t hholds u hlt hu' hown ▸ hsaved)
  exact hbound t ht₁ le_rfl saved hsaved

theorem Undisturbed.step (h : Undisturbed R n) {t : ℕ} (ht : t < R.len) {d : ClusterDocument}
    (hd : (R.store t n).saved = some d) : ∃ d', (R.store (t + 1) n).saved = some d' ∧ d.version ≤ d'.version := by
  rcases R.store_step ht with hsame | ⟨i, o, r, hlabel, hexec⟩ | ⟨hlabel, henv⟩
  · exact ⟨d, hsame ▸ hd, le_rfl⟩
  · rcases Faulty.saved (n := n) hexec with hsame | ⟨d', hd', ⟨a, rfl, htakes⟩ | rfl⟩
    · exact ⟨d, hsame.trans hd, le_rfl⟩
    · obtain ⟨current, hrun, hlt⟩ := htakes.running
      have := h.known t current d ht (.inl ⟨i, a, d', r, hlabel, htakes.serves⟩) (by rw [hrun]; rfl) hd
      exact ⟨d', hd', this.trans hlt.le⟩
    · exact ⟨d', hd', h.save ht hlabel hd⟩
  · rcases Env.saved (n := n) henv with hsame | ⟨own, theirs, hheard, hlt, hd'⟩
    · exact ⟨d, hsame.trans hd, le_rfl⟩
    · have := h.known t own d ht (.inr ⟨hlabel, own, theirs, hheard⟩) (by rw [hheard]; rfl) hd
      exact ⟨_, hd', this.trans hlt.le⟩

theorem Undisturbed.run (h : Undisturbed R n) {t t' : ℕ} (hle : t ≤ t') (ht' : t' ≤ R.len) {d : ClusterDocument}
    (hd : (R.store t n).saved = some d) : ∃ d', (R.store t' n).saved = some d' ∧ d.version ≤ d'.version := by
  induction t', hle using Nat.le_induction with
  | base => exact ⟨d, hd, le_rfl⟩
  | succ u hu ih =>
    obtain ⟨d₁, hd₁, hle₁⟩ := ih (Nat.le_of_succ_le ht')
    obtain ⟨d₂, hd₂, hle₂⟩ := h.step ht' hd₁
    exact ⟨d₂, hd₂, hle₁.trans hle₂⟩

/-- **Forward on disk.** Where the commands on the machine of a node and its process keep out of each other's way, the
version in its state directory never decreases, and a node that starts has at least the version it has acknowledged. -/
theorem state_directory_forward (R : Run (faulty S) (activitiesAt S activities w₀)) (n : NodeId) (h : Undisturbed R n) :
    (∀ t t', t ≤ t' → t' ≤ R.len → ∀ d, (R.store t n).saved = some d →
      ∃ d', (R.store t' n).saved = some d' ∧ d.version ≤ d'.version) ∧
    ∀ t t' i a d own d', t < t' → t' < R.len → R.label t = .act i (.apply a d) (.ok ()) → S.serves a = some n →
      (R.store t' n).process = .starting own → (R.store (t' + 1) n).process = .running d' → d.version ≤ d'.version := by
  refine ⟨fun t t' hle ht' d hd => h.run hle ht' hd, ?_⟩
  intro t t' i a d own d' hlt ht' hlabel hserves hstart hrun
  obtain ⟨m, htakes⟩ := apply_taken (R.exec_of_label (hlt.trans ht') hlabel)
  cases htakes.serves.symm.trans hserves
  obtain ⟨saved, hsaved, hle⟩ := h.run hlt ht'.le htakes.saved
  have hstarts : (R.store t' n).saved = some d' := by
    rcases R.store_step ht' with hsame | ⟨j, o, r, _, hexec⟩ | ⟨_, henv⟩
    · rw [hsame, hstart] at hrun
      cases hrun
    · rw [Faulty.starts hexec hstart] at hrun
      cases hrun
    · exact Env.starts henv hstart hrun
  cases hsaved.symm.trans hstarts
  exact hle

end Runs

/-! ## Two nodes -/

/-- `add-device` on the machine of node 2, with node 1 as its peer, and changes of the cluster's name. -/
def pairActivities : Option Bool → Activity
  | none => .addDevice ⟨2, "b", false⟩ ⟨0, 1⟩ false [.empty 3]
  | some _ => .admin (pairCommands false)

/-- Node 2 has saved nothing newer than what a process runs with. -/
def notBehind (w : World) : Process → Bool
  | .running theirs => (w 2).saved.all fun saved => decide (saved.version ≤ theirs.version)
  | _ => false

/-- What the command on the machine of node 2 has to heed: whichever node it asks or sends to is not behind. -/
def heedsSecond (w : World) (_ : Unit) : Op → Bool
  | .fetch a | .apply a _ => (pairSetting.serves a).all fun m => notBehind w (w m).process
  | .save _ _ => true

theorem notBehind_version {w : World} {p : Process} (h : notBehind w p = true) {own saved : ClusterDocument}
    (hown : p.Own own) (hsaved : (w 2).saved = some saved) : saved.version ≤ own.version := by
  cases p with
  | running theirs =>
    rw [← show theirs = own from hown]
    simpa [notBehind, hsaved] using h
  | _ => cases h

/-- `add-device` beside a running node: the new document is in its state directory, and no older one comes back. -/
theorem state_directory_forward_pair :
    ∃ R : Run (faulty pairSetting) (activitiesAt pairSetting (fun _ : Unit => pairActivities none)
      (pairWorld (.running pairDocument) (.running pairDocument))),
    Undisturbed R 2 ∧ (R.store R.len 2).saved.map (fun d => d.version) = some 2 ∧
      ∀ t ≤ R.len, ∀ d, (R.store t 2).saved = some d → d.version ≤ 2 := by
  have hplay : ((activitiesAt pairSetting (fun _ : Unit => pairActivities none)
      (pairWorld (.running pairDocument) (.running pairDocument))).play (exec pairSetting) heedsSecond
      (List.replicate 6 ((), 0))).map (fun c => (c.store 2).saved.map fun d => d.version) = some (some 2) := by
    decide +kernel
  obtain ⟨c, hplay, hc⟩ := Option.map_eq_some_iff.mp hplay
  -- a run without stops and starts
  obtain ⟨R, rfl, hok⟩ := Config.play_start (S := ⟨Faulty pairSetting, fun _ _ => False⟩) (exec pairSetting)
    (exec_faulty pairSetting) hplay
  have hnoEnv : ∀ t < R.len, R.label t ≠ .env := fun t ht hl => by
    have hstep := R.step t ht
    rw [hl] at hstep
    generalize R.cfg (t + 1) = c' at hstep
    cases hstep with
    | env he => exact he
  let R' : Run (faulty pairSetting) _ := R.mono (fun _ _ _ _ h => h) fun _ _ h => h.elim
  have h : Undisturbed R' 2 := by
    refine ⟨?_, ?_, ?_⟩
    · intro t i peer m theirs saved r ht hl _ hserves hrun hsaved
      have hheeds := hok t ht i _ r hl
      simp only [heedsSecond, hserves, Option.all_some] at hheeds
      have hown : (R'.store t m).process.Own theirs := by
        rw [hrun]
        rfl
      exact notBehind_version hheeds hown hsaved
    · rintro i t t' ⟨_, _, _, _, _, _, _, ht', _⟩ u _ hu hother
      rcases R.store_step (hu.trans ht') with hsame | ⟨_, o, r, hl, _⟩ | ⟨_, he⟩
      · exact congrArg (fun w : World => (w 2).saved) hsame
      · exact absurd hl (hother o r)
      · exact he.elim
    · rintro t own saved ht (⟨i, a, d, r, hl, hserves⟩ | ⟨hl, _⟩) hown hsaved
      · have hheeds := hok t ht i _ r hl
        simp only [heedsSecond, hserves, Option.all_some] at hheeds
        exact notBehind_version hheeds hown hsaved
      · exact absurd hl (hnoEnv t ht)
  refine ⟨R', h, hc, fun t ht d hd => ?_⟩
  obtain ⟨d', hd', hle⟩ := (state_directory_forward R' 2 h).1 t R'.len ht le_rfl d hd
  have := congrArg (Option.map fun d : ClusterDocument => d.version) hd'
  rw [show (R'.store R'.len 2).saved.map (fun d => d.version) = some 2 from hc] at this
  exact hle.trans (Option.some.inj this).ge

/-- **A document put back.** `add-device` on the machine of node 2 loses to a change and asks node 1 again; before it
saves the answer, the node takes a third document, which the second one then replaces in its state directory. -/
theorem state_directory_backward :
    ∃ R : Run (faulty pairSetting) (activitiesAt pairSetting pairActivities
      (pairWorld (.running pairDocument) (.running pairDocument))),
    ∃ t ≤ R.len, ∃ d d', (R.store t 2).saved = some d ∧ (R.final 2).saved = some d' ∧ d'.version < d.version := by
  have hplay : ((activitiesAt pairSetting pairActivities (pairWorld (.running pairDocument)
    (.running pairDocument))).play
      (exec pairSetting) (fun _ _ _ => true)
      (List.replicate 1 (none, 0) ++ List.replicate 5 (some false, 0) ++ List.replicate 3 (none, 0) ++
        List.replicate 5 (some true, 0))).bind (fun c =>
        (c.play (exec pairSetting) (fun _ _ _ => true) [(none, 0)]).map fun c' =>
          ((c.store 2).saved.map fun d => d.version, (c'.store 2).saved.map fun d => d.version)) =
          some (some 3, some 2) := by
    decide +kernel
  obtain ⟨c₁, hplay₁, hplay₂⟩ := Option.bind_eq_some_iff.mp hplay
  obtain ⟨c₂, hplay₂, hc⟩ := Option.map_eq_some_iff.mp hplay₂
  obtain ⟨h₁, h₂⟩ := Prod.mk.inj hc
  obtain ⟨d, hd, hv⟩ := Option.map_eq_some_iff.mp h₁
  obtain ⟨d', hd', hv'⟩ := Option.map_eq_some_iff.mp h₂
  obtain ⟨R₁, rfl, hok⟩ := Config.play_start (S := faulty pairSetting) (exec pairSetting)
    (exec_faulty pairSetting) hplay₁
  obtain ⟨R₂, rfl, _, hlen, hsame⟩ := Config.play_run (exec pairSetting) (exec_faulty pairSetting) R₁ hok hplay₂
  refine ⟨R₂, R₁.len, hlen, d, d', ?_, hd', by omega⟩
  unfold Run.store
  rw [hsame R₁.len le_rfl]
  exact hd

end Djbod.Net
