import Djbod.Node.Listing
import Djbod.Object.Degraded

/-!
# Claims of absence

A key that is not found, a listing and an inventory that call themselves complete: all three count the devices that
could not be read against `k + m` of the document as it is now.

* `Certain` : no version that an answer leaves out has a copy on a device in service that could not be read;
* `spread` : the devices in service that hold a copy of a version, or cannot be read in any case;
* `absence_certain` : the answers are certain in every outage exactly when every version is spread over `k + m` devices;
* `absence_after_resize` : an object stored at a smaller scheme is denied.
-/

namespace Djbod

open Sched

/-- Devices in service are on nodes that are members. -/
def Cluster.OwnersActive (C : Cluster) : Prop :=
  ∀ e ∈ C.document.devices, e.state ≠ .removed → (C.document.node e.node).any (fun n => n.state == .active) = true

def inServiceEntries (C : Cluster) : List DeviceEntry := C.document.devices.filter fun e => e.state != .removed

/-- The devices that cannot be read are gone for a reader. -/
def Store.without (s : Store) (bad : DeviceId → Bool) : Store :=
  { s with disk := fun d => if bad d then none else s.disk d }

def MetadataRecord.isOf (X : Crates) (key : String) (v : VersionId) (r : MetadataRecord) : Bool :=
  r.keyHash == X.hashKey key && r.key == key && r.version == v

def hasCopy (X : Crates) (s : Store) (key : String) (v : VersionId) (d : DeviceId) : Bool :=
  (s.allRecords d).any (MetadataRecord.isOf X key v)

/-- Nodes are down; nothing breaks off. -/
def nodesDown (down : NodeId → Bool) : Outage := ⟨down, fun _ _ => none, fun _ _ => false⟩

/-- The error says that the key does not exist. One that names a version says that its shards are missing. -/
def ErrorDetail.claimsAbsence (e : ErrorDetail) : Bool := e.code == .notFound && e.version.isNone

section Answers

variable (X : Crates) (C : Cluster) (recordSize : MetadataRecord → ℕ) (s : Store)

/-- A copy of the version is on a device in service that could not be read. -/
def Hidden (down : NodeId → Bool) (bad : DeviceId → Bool) (key : String) (v : VersionId) : Prop :=
  ∃ e ∈ inServiceEntries C, hasCopy X s key v e.id = true ∧ ¬ (e.id ∈ reached C down ∧ bad e.id = false)

/-- None of the versions is left out by an answer while a copy of it is hidden. -/
structure Certain (written : String → VersionId → Prop) (down : NodeId → Bool) (bad : DeviceId → Bool) : Prop where
  get : ∀ key fuel, copyCount C (X.hashKey key) (s.without bad) < fuel → ∀ e,
    ((getObject X C fuel key).run.eval (execOut (nodesDown down)) ⟨s.without bad, none⟩).1 = .error e →
    e.claimsAbsence = true →
      ∀ v, written key v → ¬ Hidden X C s down bad key v
  head : ∀ key fuel, copyCount C (X.hashKey key) (s.without bad) < fuel → ∀ e,
    ((headObject X C fuel key).run.eval (execOut (nodesDown down)) ⟨s.without bad, none⟩).1 = .error e →
    e.claimsAbsence = true →
      ∀ v, written key v → ¬ Hidden X C s down bad key v
  list : ∀ query answer, ((listKeys X C query).run.eval (execOut (nodesDown down))
    ⟨s.without bad, none⟩).1 = .ok answer → answer.complete = true → ∀ key v, written key v → query.Asks key →
    answer.Covers key →
      key ∉ answer.keys.map KeyEntry.key → ¬ Hidden X C s down bad key v
  inventory : ∀ fuel, recordCount C (s.without bad) < fuel → ∀ result,
    ((inventoryMerge X C recordSize fuel).eval (execOut (nodesDown down)) ⟨s.without bad, none⟩).1 = result →
    result.complete C = true → ∀ key v, written key v →
    (∀ copy, Counted result.versions copy → copy.record.isOf X key v = false) →
      ¬ Hidden X C s down bad key v

/-- The devices in service that hold a copy of the version, or that their node cannot read in any case. -/
def spread (key : String) (v : VersionId) : ℕ :=
  (inServiceEntries C).countP fun e => hasCopy X s key v e.id || decide (e.id ∉ C.opened e.node) || (s.disk e.id).isNone

end Answers

section Proofs

variable {X : Crates} {C : Cluster} {recordSize : MetadataRecord → ℕ} {s : Store} {down : NodeId → Bool}
  {bad : DeviceId → Bool} {key : String} {v : VersionId}

theorem Store.without_good {d : DeviceId} (h : bad d = false) : (s.without bad).disk d = s.disk d := by
  simp [Store.without, h]

theorem Store.without_bad (s : Store) {bad : DeviceId → Bool} {d : DeviceId} (h : bad d = true) :
    (s.without bad).disk d = none := by
  simp [Store.without, h]

theorem allRecords_congr {s' : Store} {d : DeviceId} (h : s'.disk d = s.disk d) : s'.allRecords d = s.allRecords d := by
  rw [Store.allRecords, Store.allRecords, h]

theorem InStock.record {e : DeviceEntry} (h : InStock C (s.without bad) (nodesDown down) e)
    (hcopy : hasCopy X s key v e.id = true) : ∃ r ∈ (s.without bad).allRecords e.id, r.isOf X key v = true := by
  have hgood : bad e.id = false := by
    by_contra hbad
    have hnone := Store.without_bad s (Bool.eq_true_of_not_eq_false hbad)
    rw [InStock, hnone] at h
    exact Bool.false_ne_true h.2.2
  obtain ⟨r, hr, hof⟩ := List.any_eq_true.mp hcopy
  exact ⟨r, by rw [allRecords_congr (Store.without_good hgood)]; exact hr, hof⟩

theorem Cluster.device_of_mem {e : DeviceEntry} (he : e ∈ C.document.devices) : C.document.device e.id = some e := by
  cases hf : C.document.device e.id with
  | none => simpa using List.find?_eq_none.mp hf e he
  | some e' =>
    have hid : e'.id = e.id := by simpa using List.find?_some hf
    rw [List.inj_on_of_nodup_map C.devices_nodup (List.mem_of_find?_eq_some hf) he hid]

theorem mem_inService {e : DeviceEntry} : e ∈ inServiceEntries C ↔ e ∈ C.document.devices ∧ e.state ≠ .removed := by
  simp [inServiceEntries]

theorem Cluster.OwnersActive.owner (hC : C.OwnersActive) {e : DeviceEntry} (he : e ∈ inServiceEntries C) :
    ∃ n ∈ C.document.activeNodes, n.id = e.node := by
  obtain ⟨hmem, hs⟩ := mem_inService.mp he
  obtain ⟨n, hn, hact⟩ := (Option.any_eq_true ..).mp (hC e hmem hs)
  have hid : n.id = e.node := by simpa using List.find?_some hn
  exact ⟨n, List.mem_filter.mpr ⟨List.mem_of_find?_eq_some hn, hact⟩, hid⟩

theorem InStock.reached (hC : C.OwnersActive) {e : DeviceEntry} (he : e ∈ inServiceEntries C)
    (h : InStock C (s.without bad) (nodesDown down) e) : e.id ∈ Djbod.reached C down := by
  obtain ⟨n, hn, hid⟩ := hC.owner he
  exact mem_reached.mpr ⟨n, hn, hid ▸ h.1, hid ▸ h.2.1⟩

theorem named_of_not_inStock (hC : C.OwnersActive) {s' : Store} {e : DeviceEntry} (he : e ∈ inServiceEntries C)
    (h : ¬ InStock C s' (nodesDown down) e) : ∃ n ∈ C.document.activeNodes, n.id = e.node ∧
      (down n.id = false → e.id ∈ nodeUnread C s' n.id) := by
  obtain ⟨hmem, hs⟩ := mem_inService.mp he
  obtain ⟨n, hn, hid⟩ := hC.owner he
  refine ⟨n, hn, hid, fun hup => ?_⟩
  rw [nodeUnread, List.mem_append]
  by_cases hin : e.id ∈ C.opened n.id
  · refine .inr (List.mem_filter.mpr ⟨hin, ?_⟩)
    by_contra hdisk
    exact h ⟨hid ▸ hup, hid ▸ hin, by simpa [Option.isSome_iff_ne_none] using hdisk⟩
  · refine .inl (List.mem_map.mpr ⟨e, List.mem_filter.mpr ⟨hmem, ?_⟩, rfl⟩)
    simp [hid.symm, hs, hin]

/-- When every device with a copy is out, as many devices are named as the version is spread over. -/
theorem spread_le (down : NodeId → Bool) (bad : DeviceId → Bool) {named : List DeviceId}
    (hcopy : ∀ e ∈ inServiceEntries C, hasCopy X s key v e.id = true →
      ¬ InStock C (s.without bad) (nodesDown down) e)
    (hnamed : ∀ e ∈ inServiceEntries C, ¬ InStock C (s.without bad) (nodesDown down) e → e.id ∈ named) :
    spread X C s key v ≤ named.length := by
  have hids : ((inServiceEntries C).map DeviceEntry.id).Nodup :=
    (List.Sublist.map _ List.filter_sublist).nodup C.devices_nodup
  rw [spread, List.countP_eq_length_filter, ← List.length_map DeviceEntry.id]
  refine (List.subperm_of_subset ((List.Sublist.map _ List.filter_sublist).nodup hids) fun d hd => ?_).length_le
  obtain ⟨e, he, rfl⟩ := List.mem_map.mp hd
  obtain ⟨hmem, hwhy⟩ := List.mem_filter.mp he
  refine hnamed e hmem ?_
  rw [Bool.or_eq_true, Bool.or_eq_true, decide_eq_true_eq] at hwhy
  rcases hwhy with (hwhy | hwhy) | hwhy
  · exact hcopy e hmem hwhy
  · exact fun h => hwhy h.2.1
  · intro h
    have hsome := h.2.2
    unfold Store.without at hsome
    dsimp only at hsome
    split_ifs at hsome
    · exact Bool.false_ne_true hsome
    · rw [Option.isNone_iff_eq_none.mp hwhy] at hsome
      exact Bool.false_ne_true hsome

theorem spread_pos {e : DeviceEntry} (he : e ∈ inServiceEntries C) (hcopy : hasCopy X s key v e.id = true) :
    0 < spread X C s key v :=
  List.countP_pos_iff.mpr ⟨e, he, by rw [hcopy]; rfl⟩

/-! ## The errors of a read -/

theorem checkCurrent_claims {first : MetadataRecord} {copies : List LocatedRecord} {e : ErrorDetail}
    (h : checkCurrent key first copies = .error e) : e.claimsAbsence = false := by
  induction copies with
  | nil => cases h
  | cons copy copies ih =>
    unfold checkCurrent at h
    split_ifs at h
    · cases h; rfl
    · cases h; rfl
    · exact ih h

theorem trustedVersions_claims {located : List LocatedRecord} {e : ErrorDetail}
    (h : trustedVersions X key located = .error e) : e.claimsAbsence = false := by
  obtain ⟨version, _, hv⟩ := mapM_error_source h
  unfold trustVersion at hv
  split at hv
  · cases hv
    rfl
  · dsimp only at hv
    split at hv
    · cases hv
      rfl
    · split at hv
      · next hcheck =>
          cases hv
          exact checkCurrent_claims hcheck
      · cases hv

theorem foldl_insertUnread_codes {β : Type} (f : β → DeviceId) (why : β → ErrorCode × String)
    (hwhy : ∀ b, (why b).1 ≠ .notFound) (l : List β) {u : List (DeviceId × ErrorCode × String)}
    (hu : ∀ x ∈ u, x.2.1 ≠ .notFound) : ∀ x ∈ l.foldl (fun u b => insertUnread u (f b) (why b)) u,
    x.2.1 ≠ .notFound := by
  induction l generalizing u with
  | nil => exact hu
  | cons b l ih =>
    refine ih (u := insertUnread u (f b) (why b)) fun x hx => ?_
    rcases List.mem_cons.mp hx with rfl | hx
    · exact hwhy b
    · exact hu x (List.mem_filter.mp hx).1

theorem collectLookup_codes {answers : List (NodeId × Except ErrorDetail (List LocatedRecord × List DeviceId))}
    {found out : Lookup} (h : collectLookup X C found answers = .ok out) (hu : ∀ x ∈ found.unread, x.2.1 ≠ .notFound) :
    ∀ x ∈ out.unread, x.2.1 ≠ .notFound := by
  induction answers generalizing found with
  | nil => cases h; exact hu
  | cons a answers ih =>
    obtain ⟨target, answer⟩ := a
    cases answer with
    | ok page => exact ih h (foldl_insertUnread_codes (fun d => d) _ (fun _ hcode => by cases hcode) _ hu)
    | error detail =>
      rw [collectLookup] at h
      split_ifs at h
      exact ih h (foldl_insertUnread_codes DeviceEntry.id _ (fun _ hcode => by cases hcode) _ hu)

theorem addRemoved_codes {unread : List (DeviceId × ErrorCode × String)} (hu : ∀ x ∈ unread, x.2.1 ≠ .notFound) :
    ∀ x ∈ addRemoved X C unread, x.2.1 ≠ .notFound := by
  unfold addRemoved
  generalize (C.document.devices.filter fun e => e.state == .removed) = l
  induction l generalizing unread with
  | nil => exact hu
  | cons e l ih =>
    rw [List.foldl_cons]
    split_ifs
    · exact ih hu
    · refine ih fun x hx => ?_
      rcases List.mem_cons.mp hx with rfl | hx
      · exact nofun
      · exact hu x (List.mem_filter.mp hx).1

theorem lookupReachable_codes {σ : Type} {ex : (o : Op) → σ → Resp o × σ} {w w' : σ} {fuel : ℕ} {kh : KeyHash}
    {found : Lookup} (h : (lookupReachable X C fuel kh).run.eval ex w = (.ok found, w')) :
    ∀ x ∈ found.unread, x.2.1 ≠ .notFound := by
  unfold lookupReachable at h
  obtain ⟨answers, w₁, hall⟩ : ∃ answers w₁, (ExceptT.lift
      (Prog.all ((C.document.activeNodes.map NodeEntry.id).map fun n =>
      (lookupOn X C fuel n kh).run)) : Coord (List (Except ErrorDetail (List LocatedRecord × List DeviceId)))).run.eval
      ex w =
        (.ok answers, w₁) := ⟨_, _, Prog.eval_lift _ _⟩
  rw [Prog.eval_try_ok hall] at h
  cases hc : collectLookup X C ⟨[], [], []⟩ ((C.document.activeNodes.map NodeEntry.id).zip answers) with
  | error e =>
    rw [hc] at h
    cases h
  | ok out =>
    rw [hc] at h
    cases h
    exact addRemoved_codes (collectLookup_codes hc nofun)

/-- A read that claims absence found no copy, and fewer than `k + m` devices in service were out. -/
theorem newestReadable_claims {found : Lookup} {e : ErrorDetail} (h : newestReadable X C key found = .error e)
    (hclaims : e.claimsAbsence = true) (hcodes : ∀ x ∈ found.unread, x.2.1 ≠ .notFound) :
    versionsDescending found.records = [] ∧
      (devicesOut C found.unread = [] ∨ (devicesOut C found.unread).length < C.document.k + C.document.m) := by
  have hno : e.claimsAbsence ≠ false := fun hf => by rw [hf] at hclaims; cases hclaims
  cases ht : trustedVersions X key found.records with
  | error e' =>
    rw [newestReadable, ht] at h
    cases h
    exact absurd (trustedVersions_claims ht) hno
  | ok trusted =>
    have hvs := mapM_eq_ok.mp ht
    rw [newestReadable, ht] at h
    cases trusted with
    | nil =>
      refine ⟨List.forall₂_nil_right_iff.mp hvs, ?_⟩
      dsimp only at h
      split at h
      · next hout => exact .inl hout
      · next d code reason rest hout =>
          split_ifs at h with hmany
          · cases h
            have hmem : (d, code, reason) ∈ devicesOut C found.unread := hout ▸ List.mem_cons_self
            have hcode := hcodes _ (List.mem_filter.mp ((List.mem_insertionSort _).mp hmem)).1
            exact absurd (beq_iff_eq.mp (Bool.and_eq_true_iff.mp hclaims).1) hcode
          · exact .inr (Nat.lt_of_not_le hmany)
    | cons newest rest =>
      dsimp only at h
      split_ifs at h
      cases h
      exact absurd (by simp [ErrorDetail.claimsAbsence, tooFewVouching]) hno

section Get

variable {σ : Type} {ex : (o : Op) → σ → Resp o × σ} {w w' : σ} {r : MetadataRecord}

theorem openFault_claims {detail e : ErrorDetail} (h : openFault detail = .error e) : e.claimsAbsence = false := by
  unfold openFault at h
  split at h <;> cases h
  · next hcode => simp [ErrorDetail.claimsAbsence, hcode]
  · next hcode => simp [ErrorDetail.claimsAbsence, hcode]

theorem openShards_claims {first count : ℕ} {indices : List ℕ} {e : ErrorDetail}
    (h : (openShards X C r key first count indices).run.eval ex w = (.error e, w')) : e.claimsAbsence = false := by
  induction indices generalizing w w' with
  | nil => cases h
  | cons i indices ih =>
    unfold openShards at h
    obtain ⟨opened, w₁, hopen⟩ : ∃ opened w₁, (ExceptT.lift (openShardSource X C r key i first count).run :
        NodeProc (Except ErrorDetail ShardSource)).run.eval ex w = (.ok opened, w₁) := ⟨_, _, Task.eval_lift _ _⟩
    rw [Task.eval_try_ok hopen] at h
    have hrest : ∀ {f : List ShardSource × List UnreadableShard → NodeProc (List ShardSource × List UnreadableShard)},
        (∀ x w₂, ∃ y, (f x).run.eval ex w₂ = (.ok y, w₂)) →
        (openShards X C r key first count indices >>= f).run.eval ex w₁ = (.error e, w') → e.claimsAbsence = false := by
      intro f hf hbind
      obtain ⟨res, w₂, hres⟩ : ∃ res w₂, (openShards X C r key first count indices).run.eval ex w₁ = (res, w₂) :=
        ⟨_, _, rfl⟩
      cases res with
      | error e' =>
        rw [Task.eval_try_error hres] at hbind
        cases hbind
        exact ih hres
      | ok x =>
        rw [Task.eval_try_ok hres] at hbind
        obtain ⟨y, hy⟩ := hf x w₂
        rw [hy] at hbind
        cases hbind
    cases opened with
    | ok source => exact hrest (fun x w₂ => ⟨_, rfl⟩) h
    | error detail =>
      dsimp only at h
      cases hfault : openFault detail with
      | error e' =>
        rw [hfault] at h
        cases h
        exact openFault_claims hfault
      | ok fault =>
        rw [hfault] at h
        exact hrest (fun x w₂ => ⟨_, rfl⟩) h

theorem openForRead_claims {scheme : Scheme} {blockCount : ℕ} {e : ErrorDetail}
    (h : (openForRead X C scheme r key blockCount).run.eval ex w = (.error e, w')) : e.claimsAbsence = false := by
  unfold openForRead at h
  split_ifs at h with hsize
  · cases h
  · obtain ⟨res, w₁, hres⟩ : ∃ res w₁, (openSources X C scheme r key blockCount).run.eval ex w = (res, w₁) :=
      ⟨_, _, rfl⟩
    cases res with
    | ok opened =>
      rw [Task.eval_try_ok hres] at h
      split_ifs at h
      · cases h
        simp [ErrorDetail.claimsAbsence, tooManyUnreadable]
      · cases h
    | error e' =>
      rw [Task.eval_try_error hres] at h
      cases h
      unfold openSources at hres
      obtain ⟨first, w₂, hfirst⟩ : ∃ first w₂, (openShards X C r key 0 blockCount scheme.dataShardIndices).run.eval ex
        w =
          (first, w₂) := ⟨_, _, rfl⟩
      cases first with
      | error e' =>
        rw [Task.eval_try_error hfirst] at hres
        cases hres
        exact openShards_claims hfirst
      | ok opened =>
        rw [Task.eval_try_ok hfirst] at hres
        dsimp only at hres
        split_ifs at hres with hnone
        · cases hres
        · obtain ⟨second, w₃, hsecond⟩ : ∃ second w₃, (openShards X C r key 0 blockCount
              (scheme.shardIndices.filter fun i => i ∉ scheme.dataShardIndices)).run.eval ex w₂ = (second, w₃) :=
              ⟨_, _, rfl⟩
          cases second with
          | error e' =>
            rw [Task.eval_try_error hsecond] at hres
            cases hres
            exact openShards_claims hsecond
          | ok more =>
            rw [Task.eval_try_ok hsecond] at hres
            cases hres

theorem getObject_claims {fuel : ℕ} {e : ErrorDetail} (h : ((getObject X C fuel key).run.eval ex w).1 = .error e)
    (hclaims : e.claimsAbsence = true) : ((newestReadableVersion X C fuel key).run.eval ex w).1 = .error e := by
  have hno : ∀ {e'}, e'.claimsAbsence = false → e' ≠ e := fun hf heq => by rw [heq, hclaims] at hf; cases hf
  unfold getObject at h
  obtain ⟨res, w₁, hres⟩ : ∃ res w₁, (newestReadableVersion X C fuel key).run.eval ex w = (res, w₁) := ⟨_, _, rfl⟩
  rw [hres]
  cases res with
  | error e' =>
    rw [Prog.eval_try_error hres] at h
    exact congrArg Except.error (Except.error.inj h)
  | ok answer =>
    obtain ⟨r, missing⟩ := answer
    rw [Prog.eval_try_ok hres] at h
    dsimp only at h
    cases hs : r.scheme with
    | error e' =>
      have hreq : (require (r.scheme.mapError fun e => ErrorDetail.new .recordsInconsistent e.message)).run.eval ex w₁ =
          (.error (ErrorDetail.new .recordsInconsistent e'.message), w₁) := by rw [hs]; rfl
      rw [Prog.eval_try_error hreq] at h
      exact absurd (Except.error.inj h) (hno rfl)
    | ok scheme =>
      have hreq : (require (r.scheme.mapError fun e => ErrorDetail.new .recordsInconsistent e.message)).run.eval ex w₁ =
          (.ok scheme, w₁) := by rw [hs]; rfl
      rw [Prog.eval_try_ok hreq] at h
      cases hg : shardGeometry scheme r.blockSize (max r.size 1) with
      | none =>
        rw [hg] at h
        dsimp only at h
        have hgeo : (require (.error (ErrorDetail.new .recordsInconsistent "record has an impossible size")) :
            Coord ShardGeometry).run.eval ex w₁ = (.error _, w₁) := rfl
        rw [Prog.eval_try_error hgeo] at h
        exact absurd (Except.error.inj h) (hno rfl)
      | some g =>
        rw [hg] at h
        dsimp only at h
        have hgeo : (require (.ok g) : Coord ShardGeometry).run.eval ex w₁ = (.ok g, w₁) := rfl
        rw [Prog.eval_try_ok hgeo] at h
        obtain ⟨opened, w₂, hopen⟩ : ∃ opened w₂, (callNode (openForRead X C scheme r key g.blockCount)).run.eval ex
          w₁ =
            (opened, w₂) := ⟨_, _, rfl⟩
        cases opened with
        | error e' =>
          rw [Prog.eval_try_error hopen] at h
          exact absurd (Except.error.inj h) (hno (openForRead_claims ((Prog.eval_call _ _).symm.trans hopen)))
        | ok opened =>
          rw [Prog.eval_try_ok hopen, Prog.eval_lift] at h
          cases h

end Get

/-! ## The three answers -/

theorem mem_inventoryDevices (hC : C.OwnersActive) {e : DeviceEntry} : e ∈ inventoryDevices C ↔
    e ∈ inServiceEntries C := by
  rw [mem_inService, inventoryDevices, List.mem_filter, Bool.and_eq_true, bne_iff_ne]
  exact ⟨fun h => ⟨h.1, h.2.1⟩, fun h => ⟨h.1, h.2, hC e h.1 h.2⟩⟩

section Spread

variable (hC : C.OwnersActive) (hspread : ∀ e ∈ inServiceEntries C, hasCopy X s key v e.id = true →
  C.document.k + C.document.m ≤ spread X C s key v)

include hC hspread

theorem headObject_certain {fuel : ℕ}
    (hfuel : copyCount C (X.hashKey key) (s.without bad) < fuel) {e : ErrorDetail}
    (h : ((newestReadableVersion X C fuel key).run.eval (execOut (nodesDown down)) ⟨s.without bad, none⟩).1 = .error e)
    (hclaims : e.claimsAbsence = true) : ¬ Hidden X C s down bad key v := by
  rintro ⟨d, hd, hcopy, _⟩
  have hno : ∀ {e'}, e'.claimsAbsence = false → e' ≠ e := fun hf heq => by rw [heq, hclaims] at hf; cases hf
  unfold newestReadableVersion at h
  cases hkey : checkKey C key with
  | error e' =>
    rw [hkey] at h
    have hsame : e' = e := Except.error.inj h
    refine absurd hsame (hno ?_)
    unfold checkKey at hkey
    split_ifs at hkey <;> cases hkey <;> rfl
  | ok _ =>
    rw [hkey] at h
    dsimp only at h
    by_cases hgood : ∀ d ∈ reached C down, Undamaged (s.without bad) (X.hashKey key) d
    · obtain ⟨found, hlook, hfound⟩ := lookupReachable_sees (X := X)
        (execOut_sees (nodesDown down) (s.without bad)) hgood hfuel
      rw [Prog.eval_try_ok hlook] at h
      have hres : newestReadable X C key found = .error e := by
        cases hn : newestReadable X C key found with
        | ok a => rw [hn] at h; cases h
        | error e' => rw [hn] at h; exact h
      obtain ⟨hnone, hout⟩ := newestReadable_claims hres hclaims (lookupReachable_codes hlook)
      have hle : spread X C s key v ≤ ((devicesOut C found.unread).map Prod.fst).length := by
        refine spread_le down bad (fun e' he' hcopy' hstock => ?_) fun e' he' hstock => ?_
        · obtain ⟨r, hr, hof⟩ := hstock.record hcopy'
          have hr' := mem_allRecords.mp hr
          simp only [MetadataRecord.isOf, Bool.and_eq_true, beq_iff_eq] at hof
          have hmem := (hfound.copies.mem ⟨e'.id, r⟩).mpr ⟨hstock.reached hC he', hof.1.1 ▸ hr'⟩
          rw [versionsDescending_eq_nil.mp hnone] at hmem
          cases hmem
        · obtain ⟨n, hn, hid, hwhy⟩ := named_of_not_inStock hC he' hstock
          obtain ⟨hmem, hs⟩ := mem_inService.mp he'
          have hnamed : Named C (s.without bad) down C.document.activeNodes e'.id := by
            refine ⟨n, hn, ?_⟩
            split_ifs with hdown
            · exact ⟨e', hmem, hid.symm, rfl⟩
            · exact hwhy (Bool.eq_false_of_not_eq_true hdown)
          obtain ⟨u, hu, huid⟩ := List.mem_map.mp ((hfound.unread e'.id).mpr (.inl hnamed))
          refine List.mem_map.mpr ⟨u, (List.mem_insertionSort _).mpr (List.mem_filter.mpr ⟨hu, ?_⟩), huid⟩
          rw [huid, Cluster.device_of_mem hmem]
          simpa using hs
      rw [List.length_map] at hle
      have hpos := spread_pos hd hcopy
      have hK := hspread d hd hcopy
      rcases hout with hnil | hfew
      · rw [hnil, List.length_nil] at hle
        omega
      · omega
    · push Not at hgood
      obtain ⟨e', hlook, hcode⟩ := lookupReachable_bad (X := X)
        (execOut_sees (nodesDown down) (s.without bad)) hgood hfuel
      rw [Prog.eval_try_error hlook] at h
      exact absurd (Except.error.inj h) (hno (by simp [ErrorDetail.claimsAbsence, hcode]))

theorem listKeys_certain {query : ListQuery} {answer : ListAnswer}
    (h : ((listKeys X C query).run.eval (execOut (nodesDown down)) ⟨s.without bad, none⟩).1 = .ok answer)
    (hcomplete : answer.complete = true) (hask : query.Asks key) (hcovers : answer.Covers key)
    (homit : key ∉ answer.keys.map KeyEntry.key) : ¬ Hidden X C s down bad key v := by
  rintro ⟨d, hd, hcopy, _⟩
  obtain ⟨answer', heval, hl⟩ := listKeys_sees X C query (execOut_sees (nodesDown down) (s.without bad))
  rw [heval] at h
  obtain rfl : answer' = answer := Except.ok.inj h
  have hle : spread X C s key v ≤ (answer'.unread.map UnavailableDevice.device).length := by
    refine spread_le down bad (fun e' he' hcopy' hstock => ?_) fun e' he' hstock => ?_
    · obtain ⟨r, hr, hof⟩ := hstock.record hcopy'
      simp only [MetadataRecord.isOf, Bool.and_eq_true, beq_iff_eq] at hof
      obtain rfl : r.key = key := hof.1.2
      exact homit (hl.shown _ (hstock.reached hC he') r hr hask hcovers)
    · obtain ⟨n, hn, hid, hwhy⟩ := named_of_not_inStock hC he' hstock
      obtain ⟨hmem, hs⟩ := mem_inService.mp he'
      refine hl.named n hn e'.id ?_
      split_ifs with hdown
      · exact ⟨e', hmem, hid.symm, hs, rfl⟩
      · exact hwhy (Bool.eq_false_of_not_eq_true hdown)
  rw [hl.complete, decide_eq_true_eq] at hcomplete
  rw [List.length_map] at hle
  have hK := hspread d hd hcopy
  omega

theorem inventory_certain {fuel : ℕ} (hfuel : recordCount C (s.without bad) < fuel)
    (hcomplete : ((inventoryMerge X C recordSize fuel).eval (execOut (nodesDown down)) ⟨s.without bad, none⟩).1.complete
    C = true) (homit : ∀ copy, Counted ((inventoryMerge X C recordSize fuel).eval (execOut (nodesDown down))
    ⟨s.without bad, none⟩).1.versions
      copy → copy.record.isOf X key v = false) : ¬ Hidden X C s down bad key v := by
  rintro ⟨d, hd, hcopy, _⟩
  obtain ⟨result, heval, hcounted, _, hunread⟩ := @inventoryMerge_sees X C recordSize (s.without bad)
    (nodesDown down) _ hfuel
  rw [heval] at hcomplete homit
  have hle : spread X C s key v ≤ (result.unread.map UnavailableDevice.device).length := by
    refine spread_le down bad (fun e' he' hcopy' hstock => ?_) fun e' he' hstock => ?_
    · obtain ⟨r, hr, hof⟩ := hstock.record hcopy'
      have hno := homit ⟨e'.id, r⟩ ((hcounted _).mpr ⟨e', (mem_inventoryDevices hC).mpr he', hstock, rfl, hr⟩)
      rw [hof] at hno
      cases hno
    · exact (hunread _).mpr ⟨e', (mem_inventoryDevices hC).mpr he', hstock, rfl⟩
  have hcomplete : result.unread.length < C.document.k + C.document.m := decide_eq_true_eq.mp hcomplete
  rw [List.length_map] at hle
  have hK := hspread d hd hcopy
  omega

end Spread

theorem inventory_without (hC : C.OwnersActive) {fuel : ℕ}
    (hfuel : recordCount C (s.without (hasCopy X s key v)) < fuel) :
    ((inventoryMerge X C recordSize fuel).eval (execOut (nodesDown fun _ => false))
    ⟨s.without (hasCopy X s key v), none⟩).1.unread.length =
        spread X C s key v ∧
      ∀ copy, Counted ((inventoryMerge X C recordSize fuel).eval (execOut (nodesDown fun _ => false))
        ⟨s.without (hasCopy X s key v), none⟩).1.versions copy → copy.record.isOf X key v = false := by
  obtain ⟨result, heval, hcounted, hnodup, hunread⟩ :=
    @inventoryMerge_sees X C recordSize (s.without (hasCopy X s key v)) (nodesDown fun _ => false) _ hfuel
  rw [heval]
  constructor
  · have hids : ((inServiceEntries C).map DeviceEntry.id).Nodup :=
      (List.Sublist.map _ List.filter_sublist).nodup C.devices_nodup
    rw [spread, List.countP_eq_length_filter, ← List.length_map DeviceEntry.id,
      ← List.length_map UnavailableDevice.device]
    refine ((List.perm_ext_iff_of_nodup hnodup ((List.Sublist.map _ List.filter_sublist).nodup hids)).mpr fun d =>
      ?_).length_eq
    rw [hunread, List.mem_map]
    refine exists_congr fun e => ?_
    rw [mem_inventoryDevices hC, List.mem_filter, and_assoc, and_congr_right_iff]
    intro _
    refine and_congr_left fun _ => ?_
    unfold InStock nodesDown Store.without
    by_cases hcopy : hasCopy X s key v e.id = true
    · simp [hcopy]
    · simp only [hcopy, Bool.false_eq_true, if_false, Bool.false_or, Bool.or_eq_true, decide_eq_true_eq, true_and]
      rw [not_and_or, Option.not_isSome_iff_eq_none, Option.isNone_iff_eq_none]
  · intro copy hcopy
    obtain ⟨e, _, hstock, hid, hmem⟩ := (hcounted copy).mp hcopy
    have hgood : hasCopy X s key v copy.device = false := by
      by_contra hbad
      have hnone : (s.without (hasCopy X s key v)).disk copy.device = none :=
        Store.without_bad s (Bool.eq_true_of_not_eq_false hbad)
      have hdisk := hstock.2.2
      rw [hid, hnone] at hdisk
      cases hdisk
    rw [allRecords_congr (Store.without_good hgood)] at hmem
    by_contra hof
    exact Bool.false_ne_true (hgood.symm.trans (List.any_eq_true.mpr
      ⟨copy.record, hmem, Bool.eq_true_of_not_eq_false hof⟩))

/-- **Absence is certain**, whatever is out, exactly when every version with a copy on a device in service is spread
over as many devices as the document now has shards. -/
theorem absence_certain {written : String → VersionId → Prop} (hC : C.OwnersActive) :
    (∀ down bad, Certain X C recordSize s written down bad) ↔
      ∀ key v, written key v → ∀ e ∈ inServiceEntries C, hasCopy X s key v e.id = true →
        C.document.k + C.document.m ≤ spread X C s key v := by
  constructor
  · intro h key v hw e he hcopy
    by_contra hfew
    obtain ⟨hlen, homit⟩ := @inventory_without X C recordSize s key v hC _ (Nat.lt_succ_self _)
    refine (h (fun _ => false) (hasCopy X s key v)).inventory _ (Nat.lt_succ_self _) _ rfl ?_ key v hw homit
      ⟨e, he, hcopy, fun hread => Bool.false_ne_true (hread.2.symm.trans hcopy)⟩
    rw [Inventory.complete, hlen, decide_eq_true_eq]
    exact Nat.lt_of_not_le hfew
  · intro hspread down bad
    refine ⟨fun key fuel hfuel e he hclaims v hw => ?_, fun key fuel hfuel e he hclaims v hw => ?_,
      fun query answer hans hcomplete key v hw hask hcovers homit => ?_,
      fun fuel hfuel result hres hcomplete key v hw homit => ?_⟩
    · exact headObject_certain hC (hspread key v hw) hfuel (getObject_claims he hclaims) hclaims
    · exact headObject_certain hC (hspread key v hw) hfuel he hclaims
    · exact listKeys_certain hC (hspread key v hw) hans hcomplete hask hcovers homit
    · subst hres
      exact inventory_certain hC (hspread key v hw) hfuel hcomplete homit

end Proofs

/-! ## Two devices -/

def firstVersion (key : String) (v : VersionId) : Prop := key = "k" ∧ v = 1

theorem small_ownersActive (m : ℕ) (states : List DeviceState) : (small m states).OwnersActive := by
  intro e he _
  obtain ⟨_, _, rfl⟩ := List.mem_mapIdx.mp he
  rfl

/-- A record on each of the two devices that the scheme asks for, one of which is out. -/
theorem absence_certain_pair : twoDevices.OwnersActive ∧
    Certain smallCrates twoDevices (fun _ => 1) (byteStore [0, 1]) firstVersion (fun _ => false) (fun d => d == 0) := by
  refine ⟨small_ownersActive 1 _, (absence_certain (small_ownersActive 1 _)).mpr ?_ _ _⟩
  rintro key v ⟨rfl, rfl⟩ e _ _
  decide +kernel

def firstWrite : Except ErrorDetail PutAnswer × Store :=
  ((bytePut 1).program smallCrates (small 0 [.active, .active]) "k").eval exec emptyStore

/-- The write has succeeded; then the document asks for a parity shard. With the one device out that holds the record,
the key is said not to exist. -/
theorem absence_after_resize : firstWrite.1.isOk = true ∧
    ¬ Certain smallCrates twoDevices (fun _ => 1) firstWrite.2 firstVersion (fun _ => false) (fun d => d == 0) := by
  refine ⟨by decide +kernel, fun h => ?_⟩
  have hclaims : (((headObject smallCrates twoDevices 9 "k").run.eval (execOut (nodesDown fun _ => false))
      ⟨firstWrite.2.without fun d => d == 0, none⟩).1.map fun _ => ()).mapError ErrorDetail.claimsAbsence =
      .error true := by
    decide +kernel
  cases he : ((headObject smallCrates twoDevices 9 "k").run.eval (execOut (nodesDown fun _ => false))
      ⟨firstWrite.2.without fun d => d == 0, none⟩).1 with
  | error e =>
    rw [he] at hclaims
    refine h.head "k" 9 (by decide +kernel) e he (Except.error.inj hclaims) 1 ⟨rfl, rfl⟩
      ⟨⟨0, 0, .active, none⟩, by decide +kernel, by decide +kernel, ?_⟩
    exact fun hread => Bool.false_ne_true hread.2.symm
  | ok found =>
    rw [he] at hclaims
    cases hclaims

end Djbod
