import Djbod.Node.Trust
import Djbod.Sched.Wp

/-!
# What a lookup has seen

A lookup is not atomic: devices are listed and files read one by one, page after page, beside anything else.

* `Listed`, `ReadOk`, `ReadFailed` : what was listed and read in some events;
* `Calm` : answers as they come while every node and attached device is there;
* `Seen` : the copies a lookup returns were read, and a copy it does not return was not listed at some moment;
* `lookupReachable_done`, `lookup_done` : a lookup that returns has `Seen`, or met a file it could not read, or
  ran through as many pages as it was allowed.
-/

namespace Djbod

open Sched

/-- The devices opened by active nodes, in node order. -/
def Cluster.attached (C : Cluster) : List DeviceId := C.document.activeNodes.flatMap fun n => C.opened n.id

/-- The versions under the key hash were listed on the device. -/
def Listed (es : List (Ev Op Resp)) (d : DeviceId) (kh : KeyHash) (vs : List VersionId) : Prop :=
  ∃ n, (⟨n, .readDir d kh, .ok vs⟩ : Ev Op Resp) ∈ es

def ReadOk (es : List (Ev Op Resp)) (d : DeviceId) (kh : KeyHash) (v : VersionId) (r : MetadataRecord) : Prop :=
  ∃ n, (⟨n, .readRecord d kh v, .ok r⟩ : Ev Op Resp) ∈ es

/-- A record file that was listed on an attached device could not be read. -/
def ReadFailed (C : Cluster) (es : List (Ev Op Resp)) (kh : KeyHash) : Prop :=
  ∃ d ∈ C.attached, ∃ vs, Listed es d kh vs ∧ ∃ v ∈ vs, ∃ n e, (⟨n, .readRecord d kh v, .error e⟩ : Ev Op Resp) ∈ es

/-- Answers as they come while every node answers and every attached device is there. -/
structure Calm (C : Cluster) (kh : KeyHash) (es : List (Ev Op Resp)) : Prop where
  listing : ∀ n d r, d ∈ C.attached → (⟨n, .readDir d kh, r⟩ : Ev Op Resp) ∈ es →
    ∃ vs : List VersionId, r = .ok vs ∧ vs.Nodup
  record : ∀ n d v r, (⟨n, .readRecord d kh v, .ok r⟩ : Ev Op Resp) ∈ es → r.version = v ∧ r.keyHash = kh
  failure : ∀ n d v e, (⟨n, .readRecord d kh v, .error e⟩ : Ev Op Resp) ∈ es →
    (deviceErrorDetail e).code ≠ .deviceUnavailable
  connected : ∀ n node r, (⟨n, .connect node, r⟩ : Ev Op Resp) ∈ es → r = .ok ()
  delivered : ∀ n node r, (⟨n, .transfer node, r⟩ : Ev Op Resp) ∈ es → r = .ok ()

variable {X : Crates} {C : Cluster} {kh : KeyHash} {es es' : List (Ev Op Resp)}

theorem Calm.mono (h : Calm C kh es) (hsub : es' ⊆ es) : Calm C kh es' where
  listing n d r hd he := h.listing n d r hd (hsub he)
  record n d v r he := h.record n d v r (hsub he)
  failure n d v e he := h.failure n d v e (hsub he)
  connected n node r he := h.connected n node r (hsub he)
  delivered n node r he := h.delivered n node r (hsub he)

theorem Calm.left (h : Calm C kh (es ++ es')) : Calm C kh es := h.mono (List.subset_append_left _ _)

theorem Calm.right (h : Calm C kh (es ++ es')) : Calm C kh es' := h.mono (List.subset_append_right _ _)

variable {d : DeviceId} {vs : List VersionId}

theorem Listed.mono (h : Listed es d kh vs) (hsub : es ⊆ es') : Listed es' d kh vs := by
  obtain ⟨n, hn⟩ := h
  exact ⟨n, hsub hn⟩

variable {v : VersionId}

theorem ReadOk.mono {r : MetadataRecord} (h : ReadOk es d kh v r) (hsub : es ⊆ es') : ReadOk es' d kh v r := by
  obtain ⟨n, hn⟩ := h
  exact ⟨n, hsub hn⟩

theorem ReadFailed.mono (h : ReadFailed C es kh) (hsub : es ⊆ es') : ReadFailed C es' kh := by
  obtain ⟨d, hd, vs, hl, v, hv, n, e, hn⟩ := h
  exact ⟨d, hd, vs, hl.mono hsub, v, hv, n, e, hsub hn⟩

/-! ## One device -/

theorem readRecord_done {res : Except DeviceError MetadataRecord} (hc : Calm C kh es)
    (h : Task.Tr (Device.readRecord d kh v).run es (.ret res)) :
    (∀ r, res = .ok r → ReadOk es d kh v r) ∧
      ∀ e, res = .error e → (∃ n e', (⟨n, .readRecord d kh v, .error e'⟩ : Ev Op Resp) ∈ es) ∧
      (deviceErrorDetail e).code ≠ .deviceUnavailable := by
  unfold Device.readRecord at h
  rcases Task.done_try_cases h with ⟨e, rfl, hr⟩ | ⟨es₁, es₂, r, rfl, hr, hf⟩
  · obtain ⟨n, rfl⟩ := Task.done_perform hr
    refine ⟨fun r hr => (by cases hr), fun e' he => ?_⟩
    cases he
    exact ⟨⟨n, e, List.mem_singleton_self _⟩, hc.failure n d v e (List.mem_singleton_self _)⟩
  · obtain ⟨n, rfl⟩ := Task.done_perform hr
    have hkey := (hc.record n d v r (List.mem_append_left _ (List.mem_singleton_self _))).2
    rw [if_neg (not_not.mpr hkey)] at hf
    obtain ⟨rfl, hq⟩ := Task.tr_ret hf
    cases hq
    refine ⟨fun r' hr' => ?_, fun e he => by cases he⟩
    cases hr'
    exact ⟨n, by simp⟩

theorem readEach_done {res : Except DeviceError (List MetadataRecord)} (hc : Calm C kh es)
    (h : Task.Tr (Device.readEach d kh vs).run es (.ret res)) :
    (∀ rs, res = .ok rs → List.Forall₂ (fun v r => ReadOk es d kh v r) vs rs) ∧
      ∀ e, res = .error e → (∃ v ∈ vs, ∃ n e', (⟨n, .readRecord d kh v, .error e'⟩ : Ev Op Resp) ∈ es) ∧
        (deviceErrorDetail e).code ≠ .deviceUnavailable := by
  induction vs generalizing es res with
  | nil =>
    obtain ⟨rfl, hq⟩ := Task.tr_ret h
    cases hq
    refine ⟨fun rs hrs => ?_, fun e he => by cases he⟩
    cases hrs
    exact .nil
  | cons v vs ih =>
    unfold Device.readEach at h
    rcases Task.done_try_cases h with ⟨e, rfl, hr⟩ | ⟨es₁, es₂, r, rfl, hr, hf⟩
    · refine ⟨fun rs hrs => (by cases hrs), fun e' he => ?_⟩
      cases he
      obtain ⟨hfail, hcode⟩ := (readRecord_done hc hr).2 e rfl
      exact ⟨⟨v, List.mem_cons_self, hfail⟩, hcode⟩
    · have hone := (readRecord_done hc.left hr).1 r rfl
      rcases Task.done_try_cases hf with ⟨e, rfl, hr⟩ | ⟨es₃, es₄, rs, rfl, hrs, hpure⟩
      · refine ⟨fun rs hrs => (by cases hrs), fun e' he => ?_⟩
        cases he
        obtain ⟨⟨v', hv', n, e', hn⟩, hcode⟩ := (ih hc.right hr).2 e rfl
        exact ⟨⟨v', List.mem_cons_of_mem _ hv', n, e', List.mem_append_right _ hn⟩, hcode⟩
      · obtain ⟨rfl, hq⟩ := Task.tr_ret hpure
        cases hq
        refine ⟨fun rs' hrs' => ?_, fun e he => by cases he⟩
        cases hrs'
        refine .cons (hone.mono (List.subset_append_left _ _)) ?_
        refine ((ih hc.right.left hrs).1 rs rfl).imp fun v r hvr => hvr.mono ?_
        rw [List.append_nil]
        exact List.subset_append_right _ _

theorem readRecords_done {res : Except DeviceError (List MetadataRecord)} (hd : d ∈ C.attached) (hc : Calm C kh es)
    (h : Task.Tr (Device.readRecords d kh).run es (.ret res)) :
    (∀ rs, res = .ok rs → ∃ vs, Listed es d kh vs ∧ vs.Nodup ∧
    rs.map MetadataRecord.version = vs.insertionSort (· ≤ ·) ∧
        ∀ r ∈ rs, ReadOk es d kh r.version r) ∧
      ∀ e, res = .error e → ReadFailed C es kh ∧ (deviceErrorDetail e).code ≠ .deviceUnavailable := by
  unfold Device.readRecords at h
  rcases Task.done_try_cases h with ⟨e, rfl, hr⟩ | ⟨es₁, es₂, vs, rfl, hr, hf⟩
  · obtain ⟨n, rfl⟩ := Task.done_perform hr
    obtain ⟨vs, hvs, _⟩ := hc.listing n d _ hd (List.mem_singleton_self _)
    cases hvs
  · obtain ⟨n, rfl⟩ := Task.done_perform hr
    obtain ⟨vs', hvs, hnodup⟩ := hc.listing n d _ hd (List.mem_append_left _ (List.mem_singleton_self _))
    cases hvs
    obtain ⟨hok, hfail⟩ := readEach_done hc.right hf
    refine ⟨fun rs hrs => ⟨vs, ⟨n, by simp⟩, hnodup, ?_, ?_⟩, fun e he => ?_⟩
    · refine List.forall₂_eq_eq_eq ▸ List.forall₂_map_left_iff.mpr ?_
      refine (hok rs hrs).flip.imp fun r v hvr => ?_
      obtain ⟨n', hn'⟩ := hvr
      exact (hc.right.record n' d v r hn').1
    · intro r hr
      obtain ⟨v, _, n', hn'⟩ := forall₂_left_of_mem (hok rs hrs) hr
      have hv := (hc.right.record n' d v r hn').1
      subst hv
      exact ⟨n', List.mem_append_right _ hn'⟩
    · obtain ⟨⟨v, hv, n', e', hn'⟩, hcode⟩ := hfail e he
      refine ⟨⟨d, hd, vs, ⟨n, by simp⟩, v, (List.mem_insertionSort _).mp hv, n', e', ?_⟩, hcode⟩
      exact List.mem_append_right _ hn'

/-! ## One node -/

/-- Where a copy stands: its version, then its device. -/
def LocatedRecord.place (c : LocatedRecord) : VersionId ×ₗ DeviceId := toLex (c.record.version, c.device)

def LookupCursor.place (cursor : LookupCursor) : VersionId ×ₗ DeviceId := toLex (cursor.version, cursor.device)

theorem LocatedRecord.le_iff {a b : LocatedRecord} : a.Le b ↔ a.place ≤ b.place := by
  rw [place, place, Prod.Lex.le_iff]
  rfl

variable {c : LocatedRecord}

theorem LookupCursor.before_iff {cursor : LookupCursor} : cursor.before c = true ↔ cursor.place < c.place := by
  rw [LookupCursor.place, LocatedRecord.place, Prod.Lex.lt_iff]
  simp [LookupCursor.before]

instance : Std.Total LocatedRecord.Le := ⟨fun a b => by
  rw [LocatedRecord.le_iff, LocatedRecord.le_iff]
  exact le_total _ _⟩

instance : IsTrans LocatedRecord LocatedRecord.Le := ⟨fun a b c => by
  rw [LocatedRecord.le_iff, LocatedRecord.le_iff, LocatedRecord.le_iff]
  exact le_trans⟩

variable {recs : List LocatedRecord}

theorem sorted_lt (h : (recs.map LocatedRecord.place).Nodup) :
    (recs.insertionSort LocatedRecord.Le).Pairwise fun a b => a.place < b.place := by
  have hsort : (recs.insertionSort LocatedRecord.Le).Pairwise LocatedRecord.Le := List.pairwise_insertionSort _ _
  have hne : (recs.insertionSort LocatedRecord.Le).Pairwise fun a b => a.place ≠ b.place := by
    refine (List.perm_insertionSort _ recs).pairwise_iff (fun h => Ne.symm h) |>.mpr ?_
    exact List.pairwise_map.mp h
  exact (hsort.and hne).imp fun h => lt_of_le_of_ne (LocatedRecord.le_iff.mp h.1) h.2

variable {α : Type}

theorem takePage_spec (size : α → ℕ) (limit : ℕ) (started : Bool) (bytes : ℕ) (l : List α) :
    ∃ rest, l = (takePage size limit started bytes l).1 ++ rest ∧
      ((takePage size limit started bytes l).2 = true ↔ rest ≠ []) ∧
      (started = false → l ≠ [] → (takePage size limit started bytes l).1 ≠ []) := by
  induction l generalizing started bytes with
  | nil => exact ⟨[], rfl, by simp [takePage], fun _ h => absurd rfl h⟩
  | cons x l ih =>
    unfold takePage
    split_ifs with hfull
    · refine ⟨x :: l, rfl, by simp, fun hs => ?_⟩
      subst hs
      simp at hfull
    · obtain ⟨rest, hl, htr, _⟩ := ih true (bytes + size x)
      exact ⟨rest, by simpa using hl, htr, fun _ _ => List.cons_ne_nil _ _⟩

theorem takePage_started (size : α → ℕ) (limit bytes : ℕ) (l : List α) :
    (takePage size limit true bytes l).1 = [] ∨ bytes + ((takePage size limit true bytes l).1.map size).sum ≤
    limit := by
  induction l generalizing bytes with
  | nil => exact .inl rfl
  | cons x l ih =>
    unfold takePage
    split_ifs with hfull
    · exact .inl rfl
    · have hx : bytes + size x ≤ limit := by simpa using hfull
      refine .inr ?_
      rw [List.map_cons, List.sum_cons, ← Nat.add_assoc]
      rcases ih (bytes + size x) with hnil | hle
      · rw [hnil]
        exact hx
      · exact hle

/-- A page of more than one item keeps the limit. -/
theorem takePage_bytes (size : α → ℕ) (limit : ℕ) (l : List α) :
    (takePage size limit false 0 l).1.length ≤ 1 ∨ ((takePage size limit false 0 l).1.map size).sum ≤ limit := by
  cases l with
  | nil => exact .inl (Nat.zero_le _)
  | cons x l =>
    have hcons : (takePage size limit false 0 (x :: l)).1 = x :: (takePage size limit true (0 + size x) l).1 := rfl
    rw [hcons, Nat.zero_add]
    rcases takePage_started size limit (size x) l with hnil | hle
    · exact .inl (by rw [hnil]; rfl)
    · exact .inr (by rwa [List.map_cons, List.sum_cons])

structure Sweep (es : List (Ev Op Resp)) (kh : KeyHash) (ds : List DeviceId) (recs : List LocatedRecord) : Prop where
  read : ∀ c ∈ recs, c.device ∈ ds ∧ ReadOk es c.device kh c.record.version c.record
  listed : ∀ d ∈ ds, ∃ vs, Listed es d kh vs ∧ ∀ v ∈ vs, ∃ c ∈ recs, c.device = d ∧ c.record.version = v
  places : (recs.map LocatedRecord.place).Nodup

variable {ds : List DeviceId} {es₁ es₂ : List (Ev Op Resp)} {more : List LocatedRecord}

theorem Sweep.cons {rs : List MetadataRecord} (h : Sweep es₂ kh ds more) (hsub₁ : es₁ ⊆ es)
    (hsub₂ : es₂ ⊆ es) (hd : d ∉ ds) (hlisted : Listed es₁ d kh vs) (hvs : vs.Nodup)
    (hmap : rs.map MetadataRecord.version = vs.insertionSort (· ≤ ·)) (hread : ∀ r ∈ rs, ReadOk es₁ d kh r.version r) :
    Sweep es kh (d :: ds) (rs.map (LocatedRecord.mk d) ++ more) where
  read c hc := by
    rcases List.mem_append.mp hc with hc | hc
    · obtain ⟨r, hr, rfl⟩ := List.mem_map.mp hc
      exact ⟨List.mem_cons_self, (hread r hr).mono hsub₁⟩
    · obtain ⟨hcd, hcr⟩ := h.read c hc
      exact ⟨List.mem_cons_of_mem _ hcd, hcr.mono hsub₂⟩
  listed d' hd' := by
    rcases List.mem_cons.mp hd' with rfl | hd'
    · refine ⟨vs, hlisted.mono hsub₁, fun v hv => ?_⟩
      have hv' : v ∈ rs.map MetadataRecord.version := by rw [hmap, List.mem_insertionSort]; exact hv
      obtain ⟨r, hr, rfl⟩ := List.mem_map.mp hv'
      exact ⟨⟨d', r⟩, List.mem_append_left _ (List.mem_map_of_mem hr), rfl, rfl⟩
    · obtain ⟨vs', hl, hall⟩ := h.listed d' hd'
      refine ⟨vs', hl.mono hsub₂, fun v hv => ?_⟩
      obtain ⟨c, hc, hcd⟩ := hall v hv
      exact ⟨c, List.mem_append_right _ hc, hcd⟩
  places := by
    rw [List.map_append, List.nodup_append]
    refine ⟨?_, h.places, ?_⟩
    · have hnodup : (rs.map MetadataRecord.version).Nodup := by
        rw [hmap]
        exact (List.perm_insertionSort _ vs).nodup_iff.mpr hvs
      rw [List.map_map]
      refine List.pairwise_map.mpr ((List.pairwise_map.mp hnodup).imp fun hne heq => hne ?_)
      exact congrArg Prod.fst (toLex.injective heq)
    · intro p hp q hq heq
      obtain ⟨c, hc, rfl⟩ := List.mem_map.mp hp
      obtain ⟨r, _, rfl⟩ := List.mem_map.mp hc
      obtain ⟨c', hc', rfl⟩ := List.mem_map.mp hq
      have hdev : d = c'.device := congrArg Prod.snd (toLex.injective heq)
      exact hd (hdev ▸ (h.read c' hc').1)

theorem deviceErrorDetail_code (e : DeviceError) : (deviceErrorDetail e).code ≠ .nodeUnreachable := by
  cases e with
  | io kind => cases kind <;> simp [deviceErrorDetail, ErrorDetail.new]
  | shardFile e =>
    cases e with
    | io kind => cases kind <;> simp [deviceErrorDetail, ErrorDetail.new]
    | _ => simp [deviceErrorDetail, ErrorDetail.new]
  | _ => simp [deviceErrorDetail, ErrorDetail.new]

variable {res : Except ErrorDetail (List LocatedRecord × List DeviceId)}

theorem readDevices_done (hds : ∀ d ∈ ds, d ∈ C.attached) (hnodup : ds.Nodup) (hc : Calm C kh es)
    (h : Task.Tr (readDevices kh ds).run es (.ret res)) :
    (∀ recs unread, res = .ok (recs, unread) → unread = [] ∧ Sweep es kh ds recs) ∧
      ∀ e, res = .error e → ReadFailed C es kh ∧ e.code ≠ .nodeUnreachable := by
  induction ds generalizing es res with
  | nil =>
    obtain ⟨rfl, hq⟩ := Task.tr_ret h
    cases hq
    refine ⟨fun recs unread hr => ?_, fun e he => by cases he⟩
    cases hr
    exact ⟨rfl, fun _ hc => absurd hc List.not_mem_nil, fun _ hd => absurd hd List.not_mem_nil, List.nodup_nil⟩
  | cons d ds ih =>
    rw [List.nodup_cons] at hnodup
    have hd := hds d List.mem_cons_self
    unfold readDevices at h
    rcases Task.done_try_cases h with ⟨e, _, hr⟩ | ⟨es₁, es₂, found, rfl, hr, hf⟩
    · obtain ⟨b, hb, _⟩ := Task.done_lift hr
      cases hb
    · obtain ⟨b, hb, hr⟩ := Task.done_lift hr
      cases hb
      cases found with
      | error e =>
        obtain ⟨hfail, hcode⟩ := (readRecords_done hd hc.left hr).2 e rfl
        simp only [if_neg hcode] at hf
        obtain ⟨rfl, hq⟩ := Task.tr_ret hf
        cases hq
        refine ⟨fun recs unread hr => (by cases hr), fun e' he => ?_⟩
        cases he
        exact ⟨hfail.mono (List.subset_append_left _ _), deviceErrorDetail_code e⟩
      | ok rs =>
        obtain ⟨vs, hlisted, hvs, hmap, hread⟩ := (readRecords_done hd hc.left hr).1 rs rfl
        rcases Task.done_try_cases hf with ⟨e, rfl, hr⟩ | ⟨es₃, es₄, ⟨more, unread⟩, rfl, hrest, hpure⟩
        · refine ⟨fun recs unread hr => (by cases hr), fun e' he => ?_⟩
          cases he
          obtain ⟨hfail, hcode⟩ := (ih (fun x hx => hds x (List.mem_cons_of_mem _ hx)) hnodup.2 hc.right hr).2 e rfl
          exact ⟨hfail.mono (List.subset_append_right _ _), hcode⟩
        · obtain ⟨rfl, hq⟩ := Task.tr_ret hpure
          cases hq
          refine ⟨fun recs unread' hr => ?_, fun e he => by cases he⟩
          cases hr
          have hsub₁ : es₁ ⊆ es₁ ++ (es₃ ++ []) := List.subset_append_left _ _
          have hsub₃ : es₃ ⊆ es₁ ++ (es₃ ++ []) := by rw [List.append_nil]; exact List.subset_append_right _ _
          obtain ⟨hunread, hsweep⟩ := (ih (fun x hx => hds x (List.mem_cons_of_mem _ hx)) hnodup.2
            (hc.mono hsub₃) hrest).1 more unread rfl
          exact ⟨hunread, hsweep.cons hsub₁ hsub₃ hnodup.1 hlisted hvs hmap hread⟩

variable {target : NodeId}

theorem request_done {handler : NodeProc α} {res : Except ErrorDetail α}
    (hok : ∀ n r, (⟨n, .transfer target, r⟩ : Ev Op Resp) ∈ es → r = .ok ())
    (h : Task.Tr (request X target handler).run es (.ret res)) : ∃ es₁ n, es = es₁ ++ [⟨n, .transfer target, .ok ()⟩] ∧
      ((∃ a, res = .ok a ∧ Task.Tr handler.run es₁ (.ret (.ok a))) ∨
        ∃ e e', res = .error e ∧ e.code = e'.code ∧ Task.Tr handler.run es₁ (.ret (.error e'))) := by
  obtain ⟨es₁, es₂, r, rfl, hr, hf⟩ := Task.done_bind h
  obtain ⟨es₃, es₄, answer, rfl, hanswer, hend⟩ := Task.done_bind hf
  obtain ⟨n, rfl⟩ := Task.done_perform hanswer
  obtain rfl := hok n answer (by simp)
  cases r with
  | ok a =>
    obtain ⟨rfl, hq⟩ := Task.tr_ret hend
    cases hq
    exact ⟨es₁, n, by simp, .inl ⟨a, rfl, hr⟩⟩
  | error e =>
    obtain ⟨rfl, hq⟩ := Task.tr_ret hend
    cases hq
    exact ⟨es₁, n, by simp, .inr ⟨_, e, rfl, rfl, hr⟩⟩

/-- The copies of a sweep that a page may take, in order. -/
def pageSource (after : Option LookupCursor) (recs : List LocatedRecord) : List LocatedRecord :=
  match after with
  | none => recs.insertionSort LocatedRecord.Le
  | some cursor => (recs.insertionSort LocatedRecord.Le).filter cursor.before

def IsAfter (after : Option LookupCursor) (p : VersionId ×ₗ DeviceId) : Prop := ∀ cursor ∈ after, cursor.place < p

variable {after : Option LookupCursor}

theorem mem_pageSource : c ∈ pageSource after recs ↔ c ∈ recs ∧ IsAfter after c.place := by
  cases after with
  | none => simp [pageSource, IsAfter]
  | some cursor => simp [pageSource, IsAfter, LookupCursor.before_iff]

theorem pageSource_sorted (after : Option LookupCursor) (h : (recs.map LocatedRecord.place).Nodup) :
    (pageSource after recs).Pairwise fun a b => a.place < b.place := by
  cases after with
  | none => exact sorted_lt h
  | some cursor => exact (sorted_lt h).filter _

variable {node : NodeId}

theorem localLookup_done {res : Except ErrorDetail LookupPage} (hds : ∀ d ∈ C.opened node, d ∈ C.attached)
    (hnodup : (C.opened node).Nodup) (hc : Calm C kh es)
    (h : Task.Tr (localLookup X C node kh after).run es (.ret res)) :
    (∀ page, res = .ok page → page.unread = unavailableDevices C node ∧ ∃ recs rest,
        Sweep es kh (C.opened node) recs ∧ pageSource after recs = page.records ++ rest ∧
          (page.truncated = true ↔ rest ≠ []) ∧ (pageSource after recs ≠ [] → page.records ≠ [])) ∧
      ∀ e, res = .error e → ReadFailed C es kh ∧ e.code ≠ .nodeUnreachable := by
  unfold localLookup at h
  rcases Task.done_try_cases h with ⟨e, rfl, hr⟩ | ⟨es₁, es₂, ⟨recs, unread⟩, rfl, hr, hf⟩
  · refine ⟨fun page hp => (by cases hp), fun e' he => ?_⟩
    cases he
    exact (readDevices_done hds hnodup hc hr).2 e rfl
  · obtain ⟨rfl, hsweep⟩ := (readDevices_done hds hnodup hc.left hr).1 recs unread rfl
    obtain ⟨rfl, hq⟩ := Task.tr_ret hf
    cases hq
    refine ⟨fun page hp => ?_, fun e he => by cases he⟩
    cases hp
    obtain ⟨rest, hrest, htr, hne⟩ := takePage_spec X.encodedLen maxListPageBytes false 0 (pageSource after recs)
    refine ⟨List.append_nil _, recs, rest, ?_, hrest, htr, hne rfl⟩
    rw [List.append_nil]
    exact hsweep

/-- The copies a node's pages give from a cursor on: each was read, they are strictly sorted behind the cursor,
and a place behind the cursor that is not among them was not listed at some moment. -/
structure Pages (C : Cluster) (es : List (Ev Op Resp)) (kh : KeyHash) (node : NodeId) (after : Option LookupCursor)
    (recs : List LocatedRecord) : Prop where
  read : ∀ c ∈ recs, c.device ∈ C.opened node ∧ ReadOk es c.device kh c.record.version c.record
  sorted : recs.Pairwise fun a b => a.place < b.place
  behind : ∀ c ∈ recs, IsAfter after c.place
  complete : ∀ d ∈ C.opened node, ∀ v, IsAfter after (toLex (v, d)) →
    (∃ c ∈ recs, c.device = d ∧ c.record.version = v) ∨ ∃ vs, Listed es d kh vs ∧ v ∉ vs

theorem Pages.cons {page rest : List LocatedRecord} {last : LocatedRecord} (hsub₁ : es₁ ⊆ es) (hsub₂ : es₂ ⊆ es)
    (hsweep : Sweep es₁ kh (C.opened node) recs) (hpage : pageSource after recs = page ++ rest)
    (hlast : page.getLast? = some last) (h : Pages C es₂ kh node (some ⟨last.record.version, last.device⟩) more) :
    Pages C es kh node after (page ++ more) := by
  have hsorted := pageSource_sorted after hsweep.places
  rw [hpage, List.pairwise_append] at hsorted
  have hlastmem : last ∈ page := List.mem_of_getLast? hlast
  have hsource : ∀ c ∈ page, c ∈ recs ∧ IsAfter after c.place := fun c hc =>
    mem_pageSource.mp (hpage ▸ List.mem_append_left _ hc)
  have hle : ∀ c ∈ page, c.place ≤ last.place := by
    intro c hc
    obtain ⟨init, rfl⟩ : ∃ init, page = init ++ [last] := by
      obtain ⟨init, hinit⟩ := List.getLast?_eq_some_iff.mp hlast
      exact ⟨init, hinit⟩
    rcases List.mem_append.mp hc with hc | hc
    · exact ((List.pairwise_append.mp hsorted.1).2.2 c hc last (List.mem_singleton_self _)).le
    · rw [List.mem_singleton.mp hc]
  have hmore : ∀ c ∈ more, last.place < c.place := fun c hc => h.behind c hc _ rfl
  constructor
  · intro c hc
    rcases List.mem_append.mp hc with hc | hc
    · obtain ⟨hd, hr⟩ := hsweep.read c (hsource c hc).1
      exact ⟨hd, hr.mono hsub₁⟩
    · obtain ⟨hd, hr⟩ := h.read c hc
      exact ⟨hd, hr.mono hsub₂⟩
  · exact List.pairwise_append.mpr ⟨hsorted.1, h.sorted, fun a ha b hb => (hle a ha).trans_lt (hmore b hb)⟩
  · intro c hc
    rcases List.mem_append.mp hc with hc | hc
    · exact (hsource c hc).2
    · exact fun cursor hcur => ((hsource last hlastmem).2 cursor hcur).trans (hmore c hc)
  · intro d hd v hv
    by_cases hlt : last.place < toLex (v, d)
    · -- The place is behind this page.
      have hafter : IsAfter (some ⟨last.record.version, last.device⟩) (toLex (v, d)) := by
        intro cursor hcur
        cases hcur
        exact hlt
      rcases h.complete d hd v hafter with ⟨c, hc, hcd⟩ | ⟨vs, hl, hno⟩
      · exact .inl ⟨c, List.mem_append_right _ hc, hcd⟩
      · exact .inr ⟨vs, hl.mono hsub₂, hno⟩
    · -- The place is not behind this page: if it was listed, its copy is in the page.
      obtain ⟨vs, hl, hall⟩ := hsweep.listed d hd
      by_cases hmem : v ∈ vs
      · obtain ⟨c, hc, rfl, rfl⟩ := hall v hmem
        have hin : c ∈ page ++ rest := hpage ▸ mem_pageSource.mpr ⟨hc, hv⟩
        rcases List.mem_append.mp hin with hin | hin
        · exact .inl ⟨c, List.mem_append_left _ hin, rfl, rfl⟩
        · exact absurd (hsorted.2.2 last hlastmem c hin) hlt
      · exact .inr ⟨vs, hl.mono hsub₁, hmem⟩

theorem Sweep.pages (h : Sweep es kh (C.opened node) recs) (hsub : es ⊆ es') :
    Pages C es' kh node after (pageSource after recs) where
  read c hc := by
    obtain ⟨hd, hr⟩ := h.read c (mem_pageSource.mp hc).1
    exact ⟨hd, hr.mono hsub⟩
  sorted := pageSource_sorted after h.places
  behind c hc := (mem_pageSource.mp hc).2
  complete d hd v hv := by
    obtain ⟨vs, hl, hall⟩ := h.listed d hd
    by_cases hmem : v ∈ vs
    · obtain ⟨c, hc, rfl, rfl⟩ := hall v hmem
      exact .inl ⟨c, mem_pageSource.mpr ⟨hc, hv⟩, rfl, rfl⟩
    · exact .inr ⟨vs, hl.mono hsub, hmem⟩

variable {fuel : ℕ}

/-- A node's pages end, or a file could not be read, or as many pages as allowed gave a copy each. -/
theorem lookupPages_done {all : List LocatedRecord} (hds : ∀ d ∈ C.opened node, d ∈ C.attached)
    (hnodup : (C.opened node).Nodup) (hc : Calm C kh es)
    (h : Task.Tr (lookupPages X C node kh fuel after all).run es (.ret res)) :
    (∀ found unread, res = .ok (found, unread) → unread = unavailableDevices C node ∧
        ∃ recs, found = all ++ recs ∧ Pages C es kh node after recs) ∧
      ∀ e, res = .error e → e.code ≠ .nodeUnreachable ∧ (ReadFailed C es kh ∨
        ∃ recs : List LocatedRecord, fuel ≤ recs.length ∧ recs.Pairwise (fun a b => a.place < b.place) ∧
          ∀ c ∈ recs, IsAfter after c.place ∧ c.device ∈ C.opened node ∧
          ReadOk es c.device kh c.record.version c.record) := by
  induction fuel generalizing after all es res with
  | zero =>
    obtain ⟨rfl, hq⟩ := Task.tr_ret h
    cases hq
    refine ⟨fun found unread hf => (by cases hf), fun e he => ?_⟩
    cases he
    exact ⟨by simp [ErrorDetail.new], .inr ⟨[], le_rfl, .nil, fun _ hc => absurd hc List.not_mem_nil⟩⟩
  | succ fuel ih =>
    unfold lookupPages at h
    rcases Task.done_try_cases h with ⟨e, rfl, hr⟩ | ⟨es₁, es₂, page, rfl, hr, hf⟩
    · refine ⟨fun found unread hf => (by cases hf), fun e' he => ?_⟩
      cases he
      obtain ⟨es₁, n, rfl, ⟨a, ha, _⟩ | ⟨e₁, e₂, he, hcode, hl⟩⟩ := request_done (hc.delivered · node) hr
      · cases ha
      · cases he
        obtain ⟨hfail, hne⟩ := (localLookup_done hds hnodup hc.left hl).2 e₂ rfl
        exact ⟨hcode ▸ hne, .inl (hfail.mono (List.subset_append_left _ _))⟩
    · obtain ⟨es₃, n, rfl, ⟨a, ha, hl⟩ | ⟨_, _, he, _⟩⟩ := request_done (hc.left.delivered · node) hr
      · cases ha
        obtain ⟨hunread, recs, rest, hsweep, hpage, htr, hne⟩ :=
          (localLookup_done hds hnodup hc.left.left hl).1 page rfl
        have hsub₁ : es₃ ⊆ (es₃ ++ [⟨n, .transfer node, .ok ()⟩]) ++ es₂ :=
          List.Subset.trans (List.subset_append_left _ _) (List.subset_append_left _ _)
        have hsub₂ : es₂ ⊆ (es₃ ++ [⟨n, .transfer node, .ok ()⟩]) ++ es₂ := List.subset_append_right _ _
        cases hlast : page.records.getLast? with
        | none =>
          have hnil : page.records = [] := List.getLast?_eq_none_iff.mp hlast
          have hall : pageSource after recs = [] := by
            by_contra hcon
            exact hne hcon hnil
          simp only [hlast, Option.map_none, Option.isNone_none, Bool.or_true, if_true] at hf
          obtain ⟨rfl, hq⟩ := Task.tr_ret hf
          cases hq
          refine ⟨fun found unread hf => ?_, fun e he => by cases he⟩
          cases hf
          refine ⟨hunread, page.records, rfl, ?_⟩
          rw [hnil, ← hall]
          exact hsweep.pages hsub₁
        | some last =>
          by_cases htrunc : page.truncated = true
          · simp only [hlast, htrunc, Option.map_some, Option.isNone_some, Bool.not_true, Bool.or_self,
              Bool.false_eq_true, if_false] at hf
            obtain ⟨hok, herr⟩ := ih hc.right hf
            constructor
            · intro found unread hres
              obtain ⟨hun, more, hfound, hmore⟩ := hok found unread hres
              exact ⟨hun, page.records ++ more, by rw [hfound, List.append_assoc],
                Pages.cons hsub₁ hsub₂ hsweep hpage hlast hmore⟩
            · intro e he
              obtain ⟨hcode, hfail | ⟨more, hlen, hsorted, hmore⟩⟩ := herr e he
              · exact ⟨hcode, .inl (hfail.mono hsub₂)⟩
              · refine ⟨hcode, .inr ⟨last :: more, by simpa using hlen, ?_, ?_⟩⟩
                · exact List.pairwise_cons.mpr ⟨fun c hc => (hmore c hc).1 _ rfl, hsorted⟩
                · have hsource : last ∈ recs ∧ IsAfter after last.place :=
                    mem_pageSource.mp (hpage ▸ List.mem_append_left _ (List.mem_of_getLast? hlast))
                  intro c hc
                  rcases List.mem_cons.mp hc with rfl | hc
                  · obtain ⟨hd, hr⟩ := hsweep.read c hsource.1
                    exact ⟨hsource.2, hd, hr.mono hsub₁⟩
                  · obtain ⟨hafter, hd, hr⟩ := hmore c hc
                    exact ⟨fun cursor hcur => (hsource.2 cursor hcur).trans (hafter _ rfl), hd, hr.mono hsub₂⟩
          · simp only [Bool.not_eq_true] at htrunc
            simp only [htrunc, Bool.not_false, Bool.true_or, if_true] at hf
            obtain ⟨rfl, hq⟩ := Task.tr_ret hf
            cases hq
            refine ⟨fun found unread hf => ?_, fun e he => by cases he⟩
            cases hf
            have hrest : rest = [] := by
              by_contra hcon
              rw [htr.mpr hcon] at htrunc
              cases htrunc
            rw [hrest, List.append_nil] at hpage
            exact ⟨hunread, page.records, rfl, hpage ▸ hsweep.pages hsub₁⟩
      · cases he

/-! ## All nodes -/

/-- The copies a lookup returns were read, at different places, and a place on one of the devices that is not
among them was not listed at some moment. -/
structure Seen (es : List (Ev Op Resp)) (kh : KeyHash) (ds : List DeviceId) (located : List LocatedRecord) : Prop where
  read : ∀ c ∈ located, c.device ∈ ds ∧ ReadOk es c.device kh c.record.version c.record
  complete : ∀ d ∈ ds, ∀ v, (∃ c ∈ located, c.device = d ∧ c.record.version = v) ∨ ∃ vs, Listed es d kh vs ∧ v ∉ vs
  places : (located.map LocatedRecord.place).Nodup

/-- At least `fuel` copies at different places were read. -/
def Crowded (C : Cluster) (es : List (Ev Op Resp)) (kh : KeyHash) (fuel : ℕ) : Prop :=
  ∃ recs : List LocatedRecord, fuel ≤ recs.length ∧ (recs.map LocatedRecord.place).Nodup ∧
    ∀ c ∈ recs, c.device ∈ C.attached ∧ ReadOk es c.device kh c.record.version c.record

theorem nodup_places_of_sorted (h : recs.Pairwise fun a b => a.place < b.place) :
    (recs.map LocatedRecord.place).Nodup := List.pairwise_map.mpr (h.imp fun hlt => hlt.ne)

variable {located : List LocatedRecord}

theorem Seen.append {ds' : List DeviceId} (h : Seen es kh ds recs) (h' : Seen es kh ds' located)
    (hdisj : ∀ d ∈ ds, d ∉ ds') : Seen es kh (ds ++ ds') (recs ++ located) where
  read c hc := by
    rcases List.mem_append.mp hc with hc | hc
    · exact ⟨List.mem_append_left _ (h.read c hc).1, (h.read c hc).2⟩
    · exact ⟨List.mem_append_right _ (h'.read c hc).1, (h'.read c hc).2⟩
  complete d hd v := by
    rcases List.mem_append.mp hd with hd | hd
    · rcases h.complete d hd v with ⟨c, hc, hcd⟩ | hl
      · exact .inl ⟨c, List.mem_append_left _ hc, hcd⟩
      · exact .inr hl
    · rcases h'.complete d hd v with ⟨c, hc, hcd⟩ | hl
      · exact .inl ⟨c, List.mem_append_right _ hc, hcd⟩
      · exact .inr hl
  places := by
    rw [List.map_append, List.nodup_append]
    refine ⟨h.places, h'.places, fun p hp q hq heq => ?_⟩
    obtain ⟨c, hc, rfl⟩ := List.mem_map.mp hp
    obtain ⟨c', hc', rfl⟩ := List.mem_map.mp hq
    have hdev : c.device = c'.device := congrArg Prod.snd (toLex.injective heq)
    exact hdisj _ (h.read c hc).1 (hdev ▸ (h'.read c' hc').1)

theorem Seen.perm {located' : List LocatedRecord} (h : Seen es kh ds located) (hp : located'.Perm located) :
    Seen es kh ds located' where
  read c hc := h.read c (hp.mem_iff.mp hc)
  complete d hd v := by
    rcases h.complete d hd v with ⟨c, hc, hcd⟩ | hl
    · exact .inl ⟨c, hp.mem_iff.mpr hc, hcd⟩
    · exact .inr hl
  places := (hp.map _).nodup_iff.mpr h.places

theorem Pages.seen (h : Pages C es kh node none recs) (hsub : es ⊆ es') :
    Seen es' kh (C.opened node) recs where
  read c hc := ⟨(h.read c hc).1, (h.read c hc).2.mono hsub⟩
  complete d hd v := by
    rcases h.complete d hd v (fun _ hcur => by cases hcur) with hc | ⟨vs, hl, hno⟩
    · exact .inl hc
    · exact .inr ⟨vs, hl.mono hsub, hno⟩
  places := nodup_places_of_sorted h.sorted

theorem activeNode_listed {n : NodeEntry} (hn : n ∈ C.document.activeNodes) : (C.document.node n.id).isSome := by
  rw [ClusterDocument.node, List.find?_isSome]
  exact ⟨n, (List.mem_filter.mp hn).1, by simp⟩

theorem connectTo_done {res : Except ErrorDetail Unit} (hnode : (C.document.node target).isSome)
    (hok : ∀ n r, (⟨n, .connect target, r⟩ : Ev Op Resp) ∈ es → r = .ok ())
    (h : Task.Tr (connectTo X C target).run es (.ret res)) : ∃ n, res = .ok () ∧
    es = [⟨n, .connect target, .ok ()⟩] := by
  obtain ⟨entry, hentry⟩ := Option.isSome_iff_exists.mp hnode
  unfold connectTo at h
  rw [hentry] at h
  obtain ⟨es₁, es₂, answer, rfl, hanswer, hend⟩ := Task.done_bind h
  obtain ⟨n, rfl⟩ := Task.done_perform hanswer
  obtain rfl := hok n answer (by simp)
  obtain ⟨rfl, hq⟩ := Task.tr_ret hend
  cases hq
  exact ⟨n, rfl, by simp⟩

theorem lookupOn_done (hnode : (C.document.node node).isSome) (hds : ∀ d ∈ C.opened node, d ∈ C.attached)
    (hnodup : (C.opened node).Nodup) (hc : Calm C kh es) (h : Task.Tr (lookupOn X C fuel node kh).run es (.ret res))
    (hsub : es ⊆ es') : (∃ recs, res = .ok (recs, unavailableDevices C node) ∧ Seen es' kh (C.opened node) recs) ∨
      ∃ e, res = .error e ∧ e.code ≠ .nodeUnreachable ∧ (ReadFailed C es' kh ∨ Crowded C es' kh fuel) := by
  unfold lookupOn at h
  rcases Task.done_try_cases h with ⟨e, _, hr⟩ | ⟨es₁, es₂, u, rfl, hr, hf⟩
  · obtain ⟨n, hres, _⟩ := connectTo_done hnode (hc.connected · node) hr
    cases hres
  · have hsub₂ : es₂ ⊆ es' := List.Subset.trans (List.subset_append_right _ _) hsub
    obtain ⟨hok, herr⟩ := lookupPages_done hds hnodup hc.right hf
    cases res with
    | ok answer =>
      obtain ⟨found, unread⟩ := answer
      obtain ⟨rfl, recs, hfound, hpages⟩ := hok found unread rfl
      exact .inl ⟨recs, by rw [hfound, List.nil_append], hpages.seen hsub₂⟩
    | error e =>
      obtain ⟨hcode, hfail | ⟨recs, hlen, hsorted, hrecs⟩⟩ := herr e rfl
      · exact .inr ⟨e, rfl, hcode, .inl (hfail.mono hsub₂)⟩
      · refine .inr ⟨e, rfl, hcode, .inr ⟨recs, hlen, nodup_places_of_sorted hsorted, fun c hc => ?_⟩⟩
        exact ⟨hds _ (hrecs c hc).2.1, (hrecs c hc).2.2.mono hsub₂⟩

/-- The devices a lookup names as unread when every node answers and no device fails. -/
def unreadFrom (X : Crates) (C : Cluster) (unread : List (DeviceId × ErrorCode × String)) (targets : List NodeId) :
    List (DeviceId × ErrorCode × String) :=
  targets.foldl (fun u target => (unavailableDevices C target).foldl (fun u d => insertUnread u d (.deviceUnavailable,
    showDevice X d ++ " is unavailable on " ++ showNode X target ++ " (5.6)")) u) unread

def unreadDevices (X : Crates) (C : Cluster) : List (DeviceId × ErrorCode × String) :=
  addRemoved X C (unreadFrom X C [] (C.document.activeNodes.map NodeEntry.id))

theorem collectLookup_done {nodes : List NodeEntry}
    {answers : List (Except ErrorDetail (List LocatedRecord × List DeviceId))} {P : Prop} (found : Lookup)
    (h : List.Forall₂ (fun (n : NodeEntry) answer =>
      (∃ recs, answer = .ok (recs, unavailableDevices C n.id) ∧ Seen es kh (C.opened n.id) recs) ∨
        ∃ e : ErrorDetail, answer = .error e ∧ e.code ≠ .nodeUnreachable ∧ P) nodes answers)
    (hnodup : (nodes.flatMap fun n => C.opened n.id).Nodup) :
    (∃ recs, collectLookup X C found ((nodes.map NodeEntry.id).zip answers) =
        .ok ⟨found.records ++ recs, unreadFrom X C found.unread (nodes.map NodeEntry.id), found.unreachable⟩ ∧
        Seen es kh (nodes.flatMap fun n => C.opened n.id) recs) ∨
      ∃ e, collectLookup X C found ((nodes.map NodeEntry.id).zip answers) = .error e ∧ P := by
  induction h generalizing found with
  | nil =>
    refine .inl ⟨[], by simp [collectLookup, unreadFrom], ?_⟩
    exact ⟨fun _ hc => absurd hc List.not_mem_nil, fun _ hd => absurd hd List.not_mem_nil, List.nodup_nil⟩
  | @cons n answer nodes answers hone _ ih =>
    rw [List.flatMap_cons, List.nodup_append] at hnodup
    rcases hone with ⟨recs, rfl, hseen⟩ | ⟨e, rfl, hcode, hP⟩
    · simp only [List.map_cons, List.zip_cons_cons, collectLookup]
      rcases ih _ hnodup.2.1 with ⟨more, hcol, hmore⟩ | ⟨e, hcol, hP⟩
      · refine .inl ⟨recs ++ more, ?_, ?_⟩
        · rw [hcol]
          simp [unreadFrom]
        · rw [List.flatMap_cons]
          exact hseen.append hmore fun d hd hd' => hnodup.2.2 d hd d hd' rfl
      · exact .inr ⟨e, hcol, hP⟩
    · simp only [List.map_cons, List.zip_cons_cons, collectLookup, if_neg hcode]
      exact .inr ⟨e, rfl, hP⟩

/-- **What a lookup saw.** A lookup that returned while every node and attached device was there returns what it
saw, unless a file could not be read or it ran through all the pages it was allowed. -/
theorem lookupReachable_done {res : Except ErrorDetail Lookup} (hc : Calm C kh es)
    (h : Prog.Tr (lookupReachable X C fuel kh).run es (.ret res)) :
    (∃ located, res = .ok ⟨located, unreadDevices X C, []⟩ ∧ Seen es kh C.attached located) ∨
      ∃ e, res = .error e ∧ (ReadFailed C es kh ∨ Crowded C es kh fuel) := by
  unfold lookupReachable at h
  rcases Prog.done_try_cases h with ⟨e, _, hr⟩ | ⟨es₁, es₂, answers, rfl, hr, hf⟩
  · obtain ⟨b, hb, _⟩ := Prog.done_lift hr
    cases hb
  · obtain ⟨b, hb, hr⟩ := Prog.done_lift hr
    cases hb
    have htasks := Prog.done_all hr
    rw [List.map_map] at htasks
    have hall := ((List.forall₂_and_left (p := (· ∈ C.document.activeNodes)) _ _).mpr ⟨fun _ hn =>
      hn, htasks.done_map⟩).imp fun n answer ⟨hn, es', hsub, ht⟩ => lookupOn_done (activeNode_listed hn)
        (fun d hd => List.mem_flatMap.mpr ⟨n, hn, hd⟩) ((List.nodup_flatMap.mp C.opened_nodup).1 n hn)
        (hc.left.mono hsub.subset) ht (List.Subset.trans hsub.subset (List.subset_append_left _ es₂))
    rcases collectLookup_done (X := X) ⟨[], [], []⟩ hall C.opened_nodup with ⟨recs, hcol, hseen⟩ | ⟨e, hcol, hP⟩
    · simp only [hcol] at hf
      obtain ⟨rfl, hq⟩ := Prog.tr_ret hf
      cases hq
      exact .inl ⟨_, rfl, hseen.perm (List.perm_insertionSort _ _)⟩
    · simp only [hcol] at hf
      obtain ⟨rfl, hq⟩ := Prog.tr_ret hf
      cases hq
      exact .inr ⟨e, rfl, hP⟩

theorem lookup_done {res : Except ErrorDetail (List LocatedRecord)} (hc : Calm C kh es)
    (h : Prog.Tr (lookup X C fuel kh).run es (.ret res)) :
    (∃ located, res = .ok located ∧ Seen es kh C.attached located) ∨
      ∃ e, res = .error e ∧ (ReadFailed C es kh ∨ Crowded C es kh fuel) := by
  unfold lookup at h
  rcases Prog.done_try_cases h with ⟨e, rfl, hr⟩ | ⟨es₁, es₂, found, rfl, hr, hf⟩
  · rcases lookupReachable_done hc hr with ⟨located, hres, _⟩ | ⟨e', he, hfail⟩
    · cases hres
    · exact .inr ⟨e, rfl, hfail⟩
  · rcases lookupReachable_done hc.left hr with ⟨located, hres, hseen⟩ | ⟨e', he, _⟩
    · cases hres
      obtain ⟨rfl, hq⟩ := Prog.tr_ret hf
      cases hq
      exact .inl ⟨located, rfl, by rwa [List.append_nil]⟩
    · cases he

end Djbod
