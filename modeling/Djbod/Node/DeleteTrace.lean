import Djbod.Node.Footprint

/-!
# The trace of a removal

* `request_ok`, `request_tr` : a request that was answered, and one that was interrupted;
* `RecordFirst` : no shard file is removed before the record beside it;
* `Removing A es` : the events only remove files of the versions `A`, records first;
* `deleteFrom_tr`, `deleteVersions_tr` : so do the removals, interrupted or not;
* `Cleared`, `deleteVersions_done` : what a removal that succeeded has removed.
-/

namespace Djbod

open Sched

variable {X : Crates} {C : Cluster} {es : List (Ev Op Resp)}

/-! ## Requests that were answered -/

theorem request_ok {α : Type} {target : NodeId} {handler : NodeProc α} {a : α}
    (h : Task.Tr (request X target handler).run es (.ret (.ok a))) :
    ∃ es₁ n, es = es₁ ++ [⟨n, .transfer target, .ok ()⟩] ∧ Task.Tr handler.run es₁ (.ret (.ok a)) := by
  obtain ⟨es₁, es₂, r, rfl, hr, hf⟩ := Task.done_bind h
  obtain ⟨es₃, es₄, answer, rfl, hanswer, hend⟩ := Task.done_bind hf
  obtain ⟨n, rfl⟩ := Task.done_perform hanswer
  cases answer with
  | error reason =>
    obtain ⟨_, hq⟩ := Task.tr_ret hend
    cases hq
  | ok u =>
    cases r with
    | error e =>
      obtain ⟨_, hq⟩ := Task.tr_ret hend
      cases hq
    | ok b =>
      obtain ⟨rfl, hq⟩ := Task.tr_ret hend
      cases hq
      exact ⟨es₁, n, by simp, hr⟩

theorem onOwnDevice_ok {α : Type} {node : NodeId} {d : DeviceId} {proc : Device.Proc α} {a : α}
    (h : Task.Tr (onOwnDevice X C node d proc).run es (.ret (.ok a))) :
    d ∈ C.opened node ∧ Task.Tr proc.run es (.ret (.ok a)) := by
  unfold onOwnDevice at h
  by_cases hd : d ∈ C.opened node
  · rw [if_pos hd] at h
    obtain ⟨es₁, es₂, r, rfl, hr, hend⟩ := Task.done_bind h
    cases r with
    | error e =>
      obtain ⟨_, hq⟩ := Task.tr_ret hend
      cases hq
    | ok b =>
      obtain ⟨rfl, hq⟩ := Task.tr_ret hend
      cases hq
      exact ⟨hd, by rwa [List.append_nil]⟩
  · rw [if_neg hd] at h
    obtain ⟨_, hq⟩ := Task.tr_ret h
    cases hq

/-- A request that was interrupted: the handler's trace so far, and at most the answer's message. -/
theorem request_tr {α : Type} {target : NodeId} {handler : NodeProc α} {t : Task Op Resp (Except ErrorDetail α)}
    (h : Task.Tr (request X target handler).run es t) :
    ∃ es₁ es₂ t', es = es₁ ++ es₂ ∧ Task.Tr handler.run es₁ t' ∧ ∀ e ∈ es₂, e.op.Quiet := by
  rcases Task.tr_bind h with ⟨t', ht, _⟩ | ⟨es₁, es₂, r, rfl, ht, hrest⟩
  · exact ⟨es, [], t', (List.append_nil _).symm, ht, fun _ he => absurd he List.not_mem_nil⟩
  · refine ⟨es₁, es₂, _, rfl, ht, (hrest.uses (P := Op.Quiet)
      (Task.Uses.bind (Task.uses_perform trivial) fun answer => ?_)).1⟩
    cases answer with
    | error e => exact Task.uses_ret _
    | ok u => cases r <;> exact Task.uses_ret _

theorem onOwnDevice_tr {α : Type} {node : NodeId} {d : DeviceId} {proc : Device.Proc α}
    {t : Task Op Resp (Except ErrorDetail α)} (h : Task.Tr (onOwnDevice X C node d proc).run es t) :
    es = [] ∨ ∃ t', Task.Tr proc.run es t' := by
  unfold onOwnDevice at h
  by_cases hd : d ∈ C.opened node
  · rw [if_pos hd] at h
    rcases Task.tr_bind h with ⟨t', ht, _⟩ | ⟨es₁, es₂, r, rfl, ht, hrest⟩
    · exact .inr ⟨t', ht⟩
    · have hnil : es₂ = [] := by cases r <;> exact (Task.tr_ret hrest).1
      rw [hnil, List.append_nil]
      exact .inr ⟨_, ht⟩
  · rw [if_neg hd] at h
    exact .inl (Task.tr_ret h).1

theorem require_ok {α : Type} {check : Except ErrorDetail α} {a : α}
    (h : Prog.Tr (require check).run es (.ret (.ok a))) : es = [] ∧ check = .ok a := by
  obtain ⟨rfl, hq⟩ := Prog.tr_ret h
  exact ⟨rfl, (Prog.ret.inj hq).symm⟩

theorem callNode_done {α : Type} {t : NodeProc α} {res : Except ErrorDetail α}
    (h : Prog.Tr (callNode t).run es (.ret res)) : Task.Tr t.run es (.ret res) := Prog.done_call h

/-! ## Records first -/

def RemovesVersion (kh : KeyHash) (v : VersionId) : Op → Prop
  | .removeRecord _ kh' v' => kh' = kh ∧ v' = v
  | .removeShard _ kh' v' _ => kh' = kh ∧ v' = v
  | _ => False

theorem RemovesVersion.not_quiet {kh : KeyHash} {v : VersionId} {op : Op} (h : RemovesVersion kh v op) :
    ¬ op.Quiet := by
  intro hq
  cases op <;> first | exact h | exact hq

theorem RemovesVersion.version_eq {kh kh' : KeyHash} {v v' : VersionId} {op : Op} (h : RemovesVersion kh v op)
    (h' : RemovesVersion kh' v' op) : v = v' := by
  cases op with
  | removeRecord d kh₀ v₀ => exact h.2.symm.trans h'.2
  | removeShard d kh₀ v₀ i => exact h.2.symm.trans h'.2
  | _ => exact absurd h not_false

/-- No shard file is removed before the record beside it. -/
def RecordFirst (es : List (Ev Op Resp)) : Prop :=
  ∀ a e b, es = a ++ e :: b → ∀ d kh v i, e.op = .removeShard d kh v i →
    ∃ n, (⟨n, .removeRecord d kh v, .ok ()⟩ : Ev Op Resp) ∈ a

theorem RecordFirst.extend {es' : List (Ev Op Resp)} (h : RecordFirst es)
    (h' : ∀ e ∈ es', ∀ d kh v i, e.op = .removeShard d kh v i →
    ∃ n, (⟨n, .removeRecord d kh v, .ok ()⟩ : Ev Op Resp) ∈ es) : RecordFirst (es ++ es') := by
  intro a e b hsplit d kh v i he
  rcases List.append_eq_append_iff.mp hsplit with ⟨c, rfl, hc⟩ | ⟨c, rfl, hc⟩
  · obtain ⟨n, hn⟩ := h' e (hc ▸ List.mem_append_right _ List.mem_cons_self) d kh v i he
    exact ⟨n, List.mem_append_left _ hn⟩
  · cases c with
    | nil =>
      rw [List.nil_append] at hc
      obtain ⟨n, hn⟩ := h' e (hc ▸ List.mem_cons_self) d kh v i he
      exact ⟨n, by simpa using hn⟩
    | cons e' c =>
      obtain ⟨rfl, _⟩ := List.cons.inj hc
      exact h a e c rfl d kh v i he

theorem RecordFirst.append {es' : List (Ev Op Resp)} (h : RecordFirst es) (h' : RecordFirst es') :
    RecordFirst (es ++ es') := by
  intro a e b hsplit d kh v i he
  rcases List.append_eq_append_iff.mp hsplit with ⟨c, rfl, hc⟩ | ⟨c, rfl, hc⟩
  · obtain ⟨n, hn⟩ := h' c e b hc d kh v i he
    exact ⟨n, List.mem_append_right _ hn⟩
  · cases c with
    | nil =>
      obtain ⟨n, hn⟩ := h' [] e b hc.symm d kh v i he
      cases hn
    | cons e' c =>
      obtain ⟨rfl, _⟩ := List.cons.inj hc
      exact h a e c rfl d kh v i he

theorem RecordFirst.of_quiet (h : ∀ e ∈ es, e.op.Quiet) : RecordFirst es := by
  intro a e b hsplit d kh v i he
  have hq := h e (hsplit ▸ List.mem_append_right _ List.mem_cons_self)
  rw [he] at hq
  exact absurd hq not_false

/-- The events only remove files of the versions `A`, and records first. -/
structure Removing (A : KeyHash → VersionId → Prop) (es : List (Ev Op Resp)) : Prop where
  only : ∀ e ∈ es, e.op.Quiet ∨ ∃ kh v, A kh v ∧ RemovesVersion kh v e.op
  recordFirst : RecordFirst es

namespace Removing

variable {A : KeyHash → VersionId → Prop} {es' : List (Ev Op Resp)}

theorem of_quiet (h : ∀ e ∈ es, e.op.Quiet) : Removing A es := ⟨fun e he => .inl (h e he), .of_quiet h⟩

theorem nil : Removing A [] := of_quiet fun _ he => absurd he List.not_mem_nil

theorem append (h : Removing A es) (h' : Removing A es') : Removing A (es ++ es') :=
  ⟨fun e he => (List.mem_append.mp he).elim (h.only e) (h'.only e), h.recordFirst.append h'.recordFirst⟩

theorem of_try {α : Type} {x : Coord α} {f : α → Coord Unit} {q : Prog Op Resp (Except ErrorDetail Unit)}
    (hx : x.run.Uses Op.Quiet) (h : Prog.Tr (x >>= f).run es q)
    (hf : ∀ es₁ es₂ a, es = es₁ ++ es₂ → Prog.Tr x.run es₁ (.ret (.ok a)) → Prog.Tr (f a).run es₂ q → Removing A es₂) :
    Removing A es := by
  rcases Prog.tr_try h with ⟨_, ht, _⟩ | ⟨es₁, es₂, a, rfl, ht, hrest⟩
  · exact .of_quiet (ht.uses hx).1
  · exact .append (.of_quiet (ht.uses hx).1) (hf es₁ es₂ a rfl ht hrest)

end Removing

section Delete

variable {A : KeyHash → VersionId → Prop} {kh : KeyHash} {v : VersionId}

theorem deleteVersion_tr (hA : A kh v) {d : DeviceId} {t : Task Op Resp (Except DeviceError Unit)}
    (h : Task.Tr (Device.deleteVersion d kh v).run es t) : Removing A es := by
  have honly : ∀ e ∈ es, e.op.Quiet ∨ ∃ kh v, A kh v ∧ RemovesVersion kh v e.op :=
    (h.uses (deleteVersion_uses (P := fun o => o.Quiet ∨ ∃ kh v, A kh v ∧ RemovesVersion kh v o) (fun _ hq => .inl hq)
      (.inr ⟨kh, v, hA, rfl, rfl⟩) fun _ => .inr ⟨kh, v, hA, rfl, rfl⟩)).1
  refine ⟨honly, ?_⟩
  unfold Device.deleteVersion at h
  have hask : (Device.ask (Task.perform (Op.keyDirExists d kh))).run.Uses Op.Quiet :=
    Task.uses_lift (Task.uses_perform trivial)
  rcases Task.tr_try h with ⟨_, ht, _⟩ | ⟨es₁, es₂, present, rfl, ht, hrest⟩
  · exact .of_quiet (ht.uses hask).1
  · refine RecordFirst.append (.of_quiet (ht.uses hask).1) ?_
    split_ifs at hrest
    · obtain ⟨rfl, _⟩ := Task.tr_ret hrest
      exact .of_quiet fun _ he => absurd he List.not_mem_nil
    · rcases Task.tr_try hrest with ⟨_, hrem, _⟩ | ⟨es₃, es₄, u, rfl, hrem, hmore⟩
      · -- At most the removal of the record itself.
        intro a e b hsplit d' kh' v' i he
        rcases Task.tr_op hrem with ⟨rfl, _⟩ | ⟨n, resp, es', rfl, hend⟩
        · exact absurd hsplit.symm (by simp)
        · obtain ⟨rfl, _⟩ := Task.tr_ret hend
          have hmem : e ∈ [(⟨n, .removeRecord d kh v, resp⟩ : Ev Op Resp)] := hsplit ▸ by simp
          rw [List.mem_singleton.mp hmem] at he
          cases he
      · obtain ⟨n, rfl⟩ := Task.done_perform hrem
        refine RecordFirst.extend ?_ ?_
        · intro a e b hsplit d' kh' v' i he
          have hmem : e ∈ [(⟨n, .removeRecord d kh v, .ok u⟩ : Ev Op Resp)] := hsplit ▸ by simp
          rw [List.mem_singleton.mp hmem] at he
          cases he
        · have huses : ∀ e ∈ es₄, e.op.Quiet ∨ ∃ i, e.op = .removeShard d kh v i :=
            (hmore.uses (P := fun o => o.Quiet ∨ ∃ i, o = .removeShard d kh v i) (Task.uses_try
              (Task.uses_perform (.inl trivial)) fun _ => removeShards_uses fun i => .inr ⟨i, rfl⟩)).1
          intro e he d' kh' v' i hop
          rcases huses e he with hq | ⟨j, hj⟩
          · rw [hop] at hq
            exact absurd hq not_false
          · rw [hop] at hj
            cases hj
            exact ⟨n, List.mem_singleton_self _⟩

theorem request_deleteVersion_tr (hA : A kh v) {node : NodeId} {d : DeviceId}
    {t : Task Op Resp (Except ErrorDetail Unit)}
    (h : Task.Tr (request X node (deleteVersion X C node d kh v)).run es t) : Removing A es := by
  obtain ⟨es₁, es₂, t₁, rfl, ht, hq⟩ := request_tr h
  refine Removing.append ?_ (.of_quiet hq)
  rcases onOwnDevice_tr ht with rfl | ⟨t₂, ht⟩
  · exact .nil
  · exact deleteVersion_tr hA ht

theorem deleteFrom_tr (hA : A kh v) {shards : List ShardLocation} {t : Task Op Resp (Except ErrorDetail Unit)}
    (h : Task.Tr (deleteFrom X C kh v shards).run es t) : Removing A es := by
  induction shards generalizing es with
  | nil =>
    obtain ⟨rfl, _⟩ := Task.tr_ret h
    exact .nil
  | cons shard shards ih =>
    unfold deleteFrom at h
    split at h
    · exact ih h
    · next owner _ =>
        have hconn : (connectTo X C owner).run.Uses Op.Quiet := connectTo_uses (fun _ hq => hq) owner
        rcases Task.tr_try h with ⟨_, ht, _⟩ | ⟨es₁, es₂, _, rfl, ht, hrest⟩
        · exact .of_quiet (ht.uses hconn).1
        · refine Removing.append (.of_quiet (ht.uses hconn).1) ?_
          rcases Task.tr_try hrest with ⟨_, ht', _⟩ | ⟨es₃, es₄, _, rfl, ht', hmore⟩
          · exact request_deleteVersion_tr hA ht'
          · exact (request_deleteVersion_tr hA ht').append (ih hmore)

theorem deleteVersions_tr {records : List MetadataRecord} (hA : ∀ r ∈ records, A r.keyHash r.version)
    {t : Task Op Resp (Except ErrorDetail Unit)} (h : Task.Tr (deleteVersions X C records).run es t) :
    Removing A es := by
  induction records generalizing es with
  | nil =>
    obtain ⟨rfl, _⟩ := Task.tr_ret h
    exact .nil
  | cons r records ih =>
    rcases Task.tr_try h with ⟨_, ht, _⟩ | ⟨es₁, es₂, _, rfl, ht, hrest⟩
    · exact deleteFrom_tr (hA r List.mem_cons_self) ht
    · exact (deleteFrom_tr (hA r List.mem_cons_self) ht).append
        (ih (fun r' hr' => hA r' (List.mem_cons_of_mem _ hr')) hrest)

/-! ## Removals that succeeded -/

/-- The record was removed from the device, or the device had nothing of the key. -/
def Cleared (es : List (Ev Op Resp)) (d : DeviceId) (kh : KeyHash) (v : VersionId) : Prop :=
  ∃ n, (⟨n, .keyDirExists d kh, false⟩ : Ev Op Resp) ∈ es ∨ (⟨n, .removeRecord d kh v, .ok ()⟩ : Ev Op Resp) ∈ es

theorem Cleared.mono {es' : List (Ev Op Resp)} {d : DeviceId} (h : Cleared es d kh v) (hsub : es ⊆ es') :
    Cleared es' d kh v := by
  obtain ⟨n, hn⟩ := h
  exact ⟨n, hn.imp (fun hm => hsub hm) fun hm => hsub hm⟩

theorem deleteVersion_done {d : DeviceId} (h : Task.Tr (Device.deleteVersion d kh v).run es (.ret (.ok ()))) :
    Cleared es d kh v := by
  unfold Device.deleteVersion at h
  obtain ⟨es₁, es₂, present, rfl, hask, hrest⟩ := Task.done_try h
  obtain ⟨_, hb, hask⟩ := Task.done_lift hask
  cases hb
  obtain ⟨n, rfl⟩ := Task.done_perform hask
  cases present with
  | false => exact ⟨n, .inl (by simp)⟩
  | true =>
    obtain ⟨es₃, es₄, u, rfl, hrem, _⟩ := Task.done_try hrest
    obtain ⟨n', rfl⟩ := Task.done_perform hrem
    exact ⟨n', .inr (by simp)⟩

theorem deleteFrom_done {shards : List ShardLocation}
    (h : Task.Tr (deleteFrom X C kh v shards).run es (.ret (.ok ()))) :
    ∀ shard ∈ shards, (ownerInService C shard.device).isSome → Cleared es shard.device kh v := by
  induction shards generalizing es with
  | nil => exact fun _ hs => absurd hs List.not_mem_nil
  | cons shard shards ih =>
    rw [List.forall_mem_cons]
    unfold deleteFrom at h
    split at h
    · next hnone =>
        refine ⟨fun hsome => ?_, ih h⟩
        rw [hnone] at hsome
        cases hsome
    · next owner _ =>
        obtain ⟨es₁, es₂, _, rfl, _, hrest⟩ := Task.done_try h
        obtain ⟨es₃, es₄, _, rfl, hreq, hmore⟩ := Task.done_try hrest
        obtain ⟨es₅, n, rfl, hhandler⟩ := request_ok hreq
        obtain ⟨_, hproc⟩ := onOwnDevice_ok hhandler
        constructor
        · intro _
          refine (deleteVersion_done hproc).mono fun e he => ?_
          exact List.mem_append_right _ (List.mem_append_left _ (List.mem_append_left _ he))
        · intro shard' hs' hsome
          refine (ih hmore shard' hs' hsome).mono fun e he => ?_
          exact List.mem_append_right _ (List.mem_append_right _ he)

theorem deleteVersions_done {records : List MetadataRecord}
    (h : Task.Tr (deleteVersions X C records).run es (.ret (.ok ()))) :
    ∀ r ∈ records, ∀ shard ∈ r.shards, (ownerInService C shard.device).isSome →
    Cleared es shard.device r.keyHash r.version := by
  induction records generalizing es with
  | nil => exact fun _ hr => absurd hr List.not_mem_nil
  | cons r records ih =>
    obtain ⟨es₁, es₂, _, rfl, hone, hrest⟩ := Task.done_try h
    rw [List.forall_mem_cons]
    constructor
    · intro shard hs hsome
      exact (deleteFrom_done hone shard hs hsome).mono fun e he => List.mem_append_left _ he
    · intro r' hr' shard hs hsome
      exact (ih hrest r' hr' shard hs hsome).mono fun e he => List.mem_append_right _ he

end Delete

end Djbod
