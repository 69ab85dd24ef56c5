import Djbod.Node.RepairRun
import Djbod.Object.Degraded

/-!
# When a repair succeeds

* `meets_eval` : what an attempt establishes holds of the operation run on its own;
* `Remains`, `Leftovers` : the record copies left of a version, and those on devices it does not list;
* `Healable`, `Admitted` : what a repair is promised to mend, and what its nodes accept;
* `repair_succeeds` : the first is mended exactly when the second holds;
* `CostsNoMore`, `corrupt_copy_costs` : a damaged record file is borne only where there is none.
-/

namespace Djbod

open Sched

theorem trying_false : Trying False = Runs exec := by
  funext o s r s'
  simp [Trying, Runs]

variable {s : Store}

theorem meets_eval {α : Type} {x : Coord α} {I : Store → Prop} {Q : α → Store → Prop} {E : ErrorDetail → Store → Prop}
    (h : Prog.Meets (Trying False) I Q E x s) : Outcome Q E (x.run.eval exec s).1 (x.run.eval exec s).2 := by
  rw [trying_false] at h
  exact Prog.Wp.eval h

/-! ## The copies that remain -/

/-- The record is that of the newest version in reach, at its highest revision; at least `k` copies of it are left, and
the devices it lists hold no other. -/
structure Remains (C : Cluster) (s : Store) (kh : KeyHash) (r : MetadataRecord) : Prop where
  newest : ∀ d ∈ C.attached, ∀ v r', copyAt s kh v d = some r' → v ≤ r.version
  current : ∀ d ∈ C.attached, ∀ r', copyAt s kh r.version d = some r' → r'.revision ≤ r.revision
  listed : ∀ d ∈ C.attached, d ∈ r.shards.map ShardLocation.device → ∀ r', copyAt s kh r.version d = some r' → r' = r
  enough : r.k ≤ C.attached.countP fun d => copyAt s kh r.version d = some r

/-- Copies on devices the record does not list are earlier ones of the same body. -/
def Leftovers (C : Cluster) (key : String) (s : Store) (kh : KeyHash) (r : MetadataRecord) : Prop :=
  ∀ d ∈ C.attached, d ∉ r.shards.map ShardLocation.device → ∀ r', copyAt s kh r.version d = some r' →
    r'.key = key ∧ r'.revision < r.revision ∧ r'.sameBody r = true

section Copies

variable {X : Crates} {C : Cluster} {key : String} {s : Store} {kh : KeyHash} {scheme : Scheme}
  {r : MetadataRecord} {body : Bytes}

theorem Describes.k_pos (hd : Describes X key r scheme body) : 0 < r.k := by
  obtain ⟨hk, _⟩ := Scheme.new_eq_ok hd.scheme_eq
  rw [← hk]
  exact scheme.data_pos

theorem Remains.held (h : Remains C s kh r) (hk : 0 < r.k) : ∃ d ∈ C.attached, copyAt s kh r.version d = some r := by
  obtain ⟨d, hd, hcopy⟩ := List.countP_pos_iff.mp (hk.trans_le h.enough)
  exact ⟨d, hd, of_decide_eq_true hcopy⟩

theorem Remains.unique (h : Remains C s kh r) (hk : 0 < r.k) {r' : MetadataRecord} (hr : Heads C key s kh r') :
    r' = r := by
  obtain ⟨d, hd, hcopy⟩ := h.held hk
  obtain ⟨d', hd', hcopy'⟩ := hr.held
  have hversion : r'.version = r.version := le_antisymm (h.newest d' hd' _ _ hcopy') (hr.newest d hd _ _ hcopy)
  rw [hversion] at hcopy'
  rcases (hr.copy d hd r (by rw [hversion]; exact hcopy)).2 with hlt | ⟨heq, _⟩
  · exact absurd (h.current d' hd' r' hcopy') (Nat.not_le.mpr hlt)
  · exact heq.symm

theorem Remains.vouched (h : Remains C s kh r) : r.k ≤ vouchersAt C s kh r := by
  refine h.enough.trans (List.countP_mono_left fun d _ hcopy => ?_)
  rw [of_decide_eq_true hcopy, Option.any_some, beq_self_eq_true, Bool.true_or]

theorem Remains.heads (h : Remains C s kh r) (hk : 0 < r.k) (hkey : r.key = key) (hleft : Leftovers C key s kh r) :
    Heads C key s kh r where
  held := h.held hk
  newest := h.newest
  copy d hd r' hcopy := by
    by_cases hmem : d ∈ r.shards.map ShardLocation.device
    · obtain rfl := h.listed d hd hmem r' hcopy
      exact ⟨hkey, .inr ⟨rfl, hmem⟩⟩
    · obtain ⟨hkey', hlt, _⟩ := hleft d hd hmem r' hcopy
      exact ⟨hkey', .inl hlt⟩

theorem Remains.restorable (h : Remains C s kh r) (hk : 0 < r.k) (hkey : r.key = key) (hleft : Leftovers C key s kh r) :
    Restorable C key s kh r where
  toHeads := h.heads hk hkey hleft
  vouched := h.vouched
  body d hd r' hcopy hlt := by
    by_cases hmem : d ∈ r.shards.map ShardLocation.device
    · obtain rfl := h.listed d hd hmem r' hcopy
      exact absurd hlt (Nat.lt_irrefl _)
    · exact (hleft d hd hmem r' hcopy).2.2

theorem Restorable.leftovers (h : Restorable C key s kh r) : Leftovers C key s kh r := by
  intro d hd hnot r' hcopy
  obtain ⟨hkey, hlt | ⟨_, hmem⟩⟩ := h.copy d hd r' hcopy
  · exact ⟨hkey, hlt, h.body d hd r' hcopy hlt⟩
  · exact absurd hmem hnot

end Copies

/-! ## The shards that remain -/

variable {i t : ℕ} {file : ShardFile} {d : DeviceId} {faults : Prop} {plan : RepairPlan}

section Shards

variable {X : Crates} {C : Cluster} {key : String} {s : Store} {scheme : Scheme} {r : MetadataRecord} {body : Bytes}

theorem wholeShard_supplies (h : wholeShard X C s scheme r body i = true) (ht : t < stripeCount scheme r body) :
    suppliesBlock X C s scheme r body t i = true := by
  obtain ⟨file, hfile, hall⟩ := wholeShard_eq_true.mp h
  rw [suppliesBlock, hfile]
  exact hall t ht

theorem not_starved (h : scheme.dataShards ≤ wholeCount X C s scheme r body) : ¬ Starved X C s scheme r body := by
  rintro ⟨t, ht, hfew⟩
  refine absurd (h.trans (List.countP_mono_left fun i _ hi => ?_)) (Nat.not_le.mpr hfew)
  exact wholeShard_supplies hi ht

theorem shardAt_getShard (h : shardAt C r s i = some file) :
    ∃ d, r.deviceFor i = some d ∧ s.getShard d r.keyHash r.version i = some (.ok file) := by
  obtain ⟨d, hd, h⟩ := Option.bind_eq_some_iff.mp h
  obtain ⟨e, _, h⟩ := Option.bind_eq_some_iff.mp h
  refine ⟨d, hd, ?_⟩
  split_ifs at h
  split at h
  · next file' hfile => rw [hfile, Option.some.inj h]
  · cases h

theorem nextRecord_sameBody (r : MetadataRecord) (relocations : List (ℕ × DeviceId)) :
    r.sameBody (nextRecord r relocations) = true := by
  obtain ⟨_, _, hnext, _⟩ := nextRecord_same r relocations
  rw [hnext]
  simp [MetadataRecord.sameBody]

theorem sameBody_trans {a b c : MetadataRecord} (h : a.sameBody b = true) (h' : b.sameBody c = true) :
    a.sameBody c = true := by
  simp only [MetadataRecord.sameBody, Bool.and_eq_true, beq_iff_eq] at h h' ⊢
  obtain ⟨⟨⟨⟨⟨⟨⟨h1, h2⟩, h3⟩, h4⟩, h5⟩, h6⟩, h7⟩, h8⟩ := h
  obtain ⟨⟨⟨⟨⟨⟨⟨h1', h2'⟩, h3'⟩, h4'⟩, h5'⟩, h6'⟩, h7'⟩, h8'⟩ := h'
  exact ⟨⟨⟨⟨⟨⟨⟨h1.trans h1', h2.trans h2'⟩, h3.trans h3'⟩, h4.trans h4'⟩, h5.trans h5'⟩, h6.trans h6'⟩, h7.trans h7'⟩,
    h8.trans h8'⟩

theorem inService_eq_true : inService C d = true ↔ ∃ e, C.document.device d = some e ∧ e.state ≠ .removed := by
  rw [inService, Option.any_eq_true]
  simp

theorem RepairPlan.Fits.keeps (h : plan.Fits faults X C s scheme r body) (hd : Describes X key r scheme body)
    {sh : ShardLocation} (hsh : sh ∈ r.shards) (hin : inService C sh.device = true) :
    (plan.next r).deviceFor sh.index = some sh.device := by
  have hnot : sh.index ∉ plan.relocations.map Prod.fst := by
    rw [h.relocation.indices, mem_lostShards]
    rintro ⟨d, hmem, hout⟩
    have hsame : some sh.device = some d := (hd.deviceFor_shard hsh).symm.trans (hd.deviceFor_shard hmem :)
    rw [← Option.some.inj hsame, hin] at hout
    cases hout
  rw [RepairPlan.next, nextRecord_deviceFor, hd.deviceFor_shard hsh, Option.map_some, relocatedDevice_not_mem hnot]

end Shards

/-! ## When a repair succeeds -/

/-- What a repair is promised to mend: at least `k` equal record copies and `k` whole shards, everything in service
within reach, and room for the shards of removed devices. -/
structure Healable (X : Crates) (C : Cluster) (s : Store) (key : String) (scheme : Scheme) (r : MetadataRecord)
    (body : Bytes) : Prop where
  describes : Describes X key r scheme body
  whole : C.Whole
  up : ∀ d, inService C d = true → (s.disk d).isSome
  allowed : checkKey C key = .ok ()
  remains : Remains C s (X.hashKey key) r
  shards : body ≠ [] → scheme.dataShards ≤ wholeCount X C s scheme r body
  detected : Detected X C s scheme r body
  room : (lostShards C r).length ≤ (rankedAt C s scheme r).length

/-- What the nodes accept: record files that can be read, leftovers that can be told, and shards to rewrite on active
devices only. -/
structure Admitted (X : Crates) (C : Cluster) (s : Store) (key : String) (scheme : Scheme) (r : MetadataRecord)
    (body : Bytes) : Prop where
  readable : ∀ d ∈ C.attached, Undamaged s (X.hashKey key) d
  leftovers : Leftovers C key s (X.hashKey key) r
  active : body ≠ [] → ∀ sh ∈ r.shards, inService C sh.device = true → wholeShard X C s scheme r body sh.index = false →
    (C.document.device sh.device).map DeviceEntry.state = some .active

section Success

variable {X : Crates} {C : Cluster} {key : String} {s : Store} {scheme : Scheme} {r : MetadataRecord} {body : Bytes}

theorem Healable.takes (h : Healable X C s key scheme r body)
    (hactive : (C.document.device d).map DeviceEntry.state = some .active) : CanTake C s d := by
  obtain ⟨e, he, hstate⟩ := Option.map_eq_some_iff.mp hactive
  have hne : e.state ≠ .removed := by rw [hstate]; decide
  obtain ⟨e', he', _, hopen, _⟩ := h.whole.inPlace he hne
  cases he.symm.trans he'
  exact ⟨e, he, hopen, hactive, h.up d (inService_eq_true.mpr ⟨e, he, hne⟩)⟩

theorem Healable.attached (h : Healable X C s key scheme r body) (hin : inService C d = true) : d ∈ C.attached := by
  obtain ⟨e, he, hstate⟩ := inService_eq_true.mp hin
  exact (h.whole.inPlace he hstate).attached

theorem Healable.older (h : Healable X C s key scheme r body) (ha : Admitted X C s key scheme r body)
    (plan : RepairPlan) (hd : d ∈ C.attached) {file : RecordFile}
    (hfile : s.getRecord d (plan.next r).keyHash (plan.next r).version = some file) :
    ∃ r₀, file = .ok r₀ ∧ (r₀ = plan.next r ∨ r₀.sameBody (plan.next r) = true ∧
    r₀.revision < (plan.next r).revision) := by
  rw [plan.next_keyHash, plan.next_version, h.describes.keyHash_eq] at hfile
  cases file with
  | error e => exact absurd hfile (ha.readable d hd _ e)
  | ok r₀ =>
    have hcopy := copyAt_eq_some.mpr hfile
    have hsame := nextRecord_sameBody r plan.relocations
    obtain ⟨revision, shards, hnext, hle, hmore⟩ := nextRecord_same r plan.relocations
    refine ⟨r₀, rfl, ?_⟩
    by_cases hmem : d ∈ r.shards.map ShardLocation.device
    · obtain rfl := h.remains.listed d hd hmem r₀ hcopy
      by_cases hnil : plan.relocations = []
      · left
        rw [RepairPlan.next, hnil]
        rfl
      · refine .inr ⟨hsame, ?_⟩
        rw [RepairPlan.next, hnext, hmore hnil]
        exact Nat.lt_succ_self _
    · obtain ⟨_, hlt, hbody⟩ := ha.leftovers d hd hmem r₀ hcopy
      refine .inr ⟨sameBody_trans hbody hsame, ?_⟩
      rw [RepairPlan.next, hnext]
      exact hlt.trans_le hle

theorem Healable.unblocked (h : Healable X C s key scheme r body) (ha : Admitted X C s key scheme r body)
    (hfits : plan.Fits False X C s scheme r body) : ¬ plan.Blocked C s r := by
  have hd := h.describes
  rintro (⟨p, hp, hno⟩ | ⟨d, hdev, hno⟩ | ⟨d, _, owner, howner, hno⟩)
  · obtain ⟨hlt, hnext, hwhole⟩ := hfits.target p hp
    have hne : body ≠ [] := fun h0 => by rw [hfits.empty h0] at hp; cases hp
    refine hno (h.takes ?_)
    rw [RepairPlan.next, nextRecord_deviceFor] at hnext
    obtain ⟨d, hdev, hreloc⟩ := Option.map_eq_some_iff.mp hnext
    rcases relocatedDevice_cases plan.relocations p.1 d with hmem | ⟨hnot, heq⟩
    · rw [← hreloc]
      exact (hfits.relocation.active _ hmem).2
    · rw [← hreloc, heq]
      have hsh := MetadataRecord.exists_shard hdev
      refine ha.active hne _ hsh ?_ (hwhole.resolve_left id)
      by_contra hout
      rw [hfits.relocation.indices] at hnot
      exact hnot (mem_lostShards.mpr ⟨d, hsh, by simpa using hout⟩)
  · obtain ⟨hmem, _⟩ := (hfits.device d).mp hdev
    have hin := hfits.relocation.inService hmem
    obtain ⟨e, he, hstate⟩ := inService_eq_true.mp hin
    obtain ⟨e', he', _, hopen, _⟩ := h.whole.inPlace he hstate
    cases he.symm.trans he'
    exact hno ⟨e, he, hopen, h.up d hin, fun file hfile => h.older ha plan (h.attached hin) hfile⟩
  · obtain ⟨e, he, hstate, rfl⟩ := ownerInService_eq_some.mp howner
    obtain ⟨e', he', _, hopen, _⟩ := h.whole.inPlace he hstate
    cases he.symm.trans he'
    exact hno hopen

theorem Healable.meets (hlib : ReedSolomonCode.Lawful X.reedSolomon scheme) (h : Healable X C s key scheme r body)
    (fuel : ℕ) : Outcome (fun _ s' => (Restorable C key s (X.hashKey key) r ∧
    ∀ d ∈ C.attached, Undamaged s (X.hashKey key) d) ∧
        ∃ plan : RepairPlan, plan.Fits False X C s scheme r body ∧ plan.Done X C scheme r body s s')
      (fun e s' => (e.code.Plain ∨ s' = s) ∧ (Detected X C s scheme r body → False ∨
      RepairFails False X C s key fuel scheme r body)) ((repairObject X C fuel key).run.eval exec s).1
      ((repairObject X C fuel key).run.eval exec s).2 :=
  meets_eval (repairObject_meets hlib h.describes (fun _ hr => h.remains.unique h.describes.k_pos hr.toHeads) fuel)

theorem Healable.mended (hlib : ReedSolomonCode.Lawful X.reedSolomon scheme) (h : Healable X C s key scheme r body)
    (ha : Admitted X C s key scheme r body) {fuel : ℕ} (hfuel : copyCount C (X.hashKey key) s < fuel) :
    ∃ report s', (repairObject X C fuel key).run.eval exec s = (.ok report, s') ∧
      ∃ plan : RepairPlan, plan.Fits False X C s scheme r body ∧ plan.Done X C scheme r body s s' := by
  have hd := h.describes
  have hmeets := h.meets hlib fuel
  rcases hres : (repairObject X C fuel key).run.eval exec s with ⟨report | report, s'⟩ <;> rw [hres] at hmeets
  · rcases (hmeets.2 h.detected).resolve_left id with hkey | hlook | hno | ⟨hne, hfew⟩ | hroom | ⟨plan, hfits, hblocked⟩
    · exact absurd h.allowed hkey
    · rcases hlook with hf | hbad | hfuel'
      · exact hf.elim
      · exact absurd ha.readable hbad
      · exact absurd hfuel (Nat.not_lt.mpr hfuel')
    · exact absurd (h.remains.restorable hd.k_pos hd.key_eq ha.leftovers) (hno r)
    · rcases hfew with hstarved | hfew
      · exact absurd hstarved (not_starved (h.shards hne))
      · exact absurd (h.shards hne) (Nat.not_le.mpr hfew)
    · exact absurd h.room (Nat.not_le.mpr hroom)
    · exact absurd hblocked (h.unblocked ha hfits)
  · exact ⟨report, s', rfl, hmeets.2⟩

end Success

section Small

/-- Each of two devices may hold the record and its replica, and nothing else. -/
def Replicas (s : Store) : Prop :=
  ∀ d ∈ [0, 1], s.versions d (smallCrates.hashKey "k") = [1] ∧
    copyAt s (smallCrates.hashKey "k") 1 d ∈ [none, some (byteRecord 1 0 [0, 1])] ∧
    s.getShard d (smallCrates.hashKey "k") 1 d ∈ [none, some (.ok (byteShard 1 d))]

instance (s : Store) : Decidable (Replicas s) := inferInstanceAs (Decidable (∀ d ∈ [0, 1], _ ∧ _ ∧ _))

variable {s : Store} {a : DeviceState}

theorem Replicas.copy (h : Replicas s) (hd : d ∈ (small 1 [a, .active]).attached) {v : VersionId} {r : MetadataRecord}
    (hcopy : copyAt s (smallCrates.hashKey "k") v d = some r) : v = 1 ∧ r = byteRecord 1 0 [0, 1] := by
  rw [small_attached] at hd
  obtain ⟨hv, hr, _⟩ := h d hd
  have hmem : v ∈ s.versions d (smallCrates.hashKey "k") :=
    Store.mem_versions.mpr (by rw [copyAt_eq_some.mp hcopy]; rfl)
  obtain rfl : v = 1 := List.mem_singleton.mp (hv ▸ hmem)
  refine ⟨rfl, ?_⟩
  rw [hcopy] at hr
  simpa using hr

theorem Replicas.undamaged (h : Replicas s)
    (hok : ∀ d ∈ List.range 2, (s.getRecord d (smallCrates.hashKey "k") 1).all Except.isOk) :
    ∀ d ∈ (small 1 [a, .active]).attached, Undamaged s (smallCrates.hashKey "k") d := by
  intro d hd v e hbad
  rw [small_attached] at hd
  have hmem : v ∈ s.versions d (smallCrates.hashKey "k") := Store.mem_versions.mpr (by rw [hbad]; rfl)
  obtain rfl : v = 1 := List.mem_singleton.mp ((h d hd).1 ▸ hmem)
  have hread := hok d hd
  rw [hbad] at hread
  cases hread

theorem Replicas.shard (h : Replicas s) (hfile : shardAt (small 1 [a, .active]) (byteRecord 1 0 [0, 1])
    s i = some file) : i < 2 ∧ file = byteShard 1 i := by
  obtain ⟨d, hd, hget⟩ := shardAt_getShard hfile
  have hi : i = d ∧ i ∈ [0, 1] := by
    rcases i with _ | _ | i
    · cases hd
      exact ⟨rfl, by simp⟩
    · cases hd
      exact ⟨rfl, by simp⟩
    · cases hd
  obtain ⟨rfl, hmem⟩ := hi
  have hshard := (h i hmem).2.2
  change s.getShard i (smallCrates.hashKey "k") 1 i = _ at hget
  rw [hget] at hshard
  exact ⟨List.mem_range.mp hmem, by simpa using hshard⟩

theorem Replicas.healable (h : Replicas s) (hup : ∀ d, (s.disk d).isSome)
    (henough : 1 ≤ (List.range 2).countP fun d => copyAt s (smallCrates.hashKey "k") 1 d = some (byteRecord 1 0 [0, 1]))
    (hshards : 1 ≤ wholeCount smallCrates (small 1 [a, .active]) s pair (byteRecord 1 0 [0, 1]) [7])
    (hroom : (lostShards (small 1 [a, .active]) (byteRecord 1 0 [0, 1])).length = 0) :
    Healable smallCrates (small 1 [a, .active]) s "k" pair (byteRecord 1 0 [0, 1]) [7] where
  describes := byte_describes 1 0 (by decide)
  whole := small_whole 1 _
  up d _ := hup d
  allowed := rfl
  remains := {
    newest := fun d hd v r' hcopy => (h.copy hd hcopy).1.le
    current := fun d hd r' hcopy => by rw [(h.copy hd hcopy).2]
    listed := fun d hd _ r' hcopy => (h.copy hd hcopy).2
    enough := by
      rw [small_attached]
      exact henough }
  shards _ := hshards
  detected i file t hfile ht _ _ := by
    have hn : stripeCount pair (byteRecord 1 0 [0, 1]) [7] = 1 := by decide +kernel
    obtain ⟨hi, rfl⟩ := h.shard hfile
    obtain rfl : t = 0 := by omega
    interval_cases i <;> decide +kernel
  room := by
    rw [hroom]
    exact Nat.zero_le _

theorem byteStore_replicas : Replicas (byteStore [1]) := by decide +kernel

end Small

/-! ## Damaged record files -/

def Corrupt (s : Store) (kh : KeyHash) (v : VersionId) (d : DeviceId) : Prop :=
  ∃ e, s.getRecord d kh v = some (.error e)

/-- Nothing but record files is damaged: every shard is whole and on a device in service, and the copies that can be
read are those of one record and its leftovers. -/
structure RecordsOnly (X : Crates) (C : Cluster) (s : Store) (key : String) (scheme : Scheme) (r : MetadataRecord)
    (body : Bytes) : Prop extends Healable X C s key scheme r body where
  leftovers : Leftovers C key s (X.hashKey key) r
  others : ∀ w, w ≠ r.version → AgreeingOn C.attached key s (X.hashKey key) w
  placed : ∀ sh ∈ r.shards, inService C sh.device = true
  complete : body ≠ [] → ∀ i < scheme.totalShards, wholeShard X C s scheme r body i = true

/-- The object is read and the damaged copies are reported, and a repair puts the record in the place of every one. -/
structure CostsNoMore (X : Crates) (C : Cluster) (s : Store) (key : String) (fuel : ℕ) (r : MetadataRecord)
    (body : Bytes) : Prop where
  read : ∃ answer done, (getObject X C fuel key).run.eval exec s = (.ok answer, s) ∧ answer.record = r ∧
    answer.frames.flatMap DataFrame.bytes = body ∧ answer.ended = .ok done ∧
    ∀ d ∈ r.shards.map ShardLocation.device, Corrupt s (X.hashKey key) r.version d →
      d ∈ done.missingRecords.map MissingRecordCopy.device
  repaired : ∃ report s', (repairObject X C fuel key).run.eval exec s = (.ok report, s') ∧
    ∀ d ∈ r.shards.map ShardLocation.device, s'.getRecord d (X.hashKey key) r.version = some (.ok r)

section Corrupted

variable {X : Crates} {C : Cluster} {key : String} {s : Store} {scheme : Scheme} {r : MetadataRecord}
  {body : Bytes} {fuel : ℕ}

theorem reached_all (C : Cluster) : reached C (fun _ => false) = C.attached := by
  simp [reached, upNodes, Cluster.attached]

theorem getObject_reads (hlib : ReedSolomonCode.Lawful X.reedSolomon scheme) (hd : Describes X key r scheme body)
    (hkey : checkKey C key = .ok ()) (hgood : ∀ d ∈ C.attached, Undamaged s (X.hashKey key) d)
    (htrust : Trusted C key s (X.hashKey key) r) (hdet : Detected X C s scheme r body)
    (hfuel : copyCount C (X.hashKey key) s < fuel)
    (henough : ∀ t < stripeCount scheme r body, scheme.dataShards ≤ usableAmong X C s scheme r body t
    (openIndices scheme true)) (hsteady : ∀ t < stripeCount scheme r body, SteadyAt X C s scheme r body
    (fun _ _ => True) t) : ∃ answer, (getObject X C fuel key).run.eval exec s = (.ok answer, s) ∧ answer.record = r ∧
    answer.ended.isOk ∧
      answer.frames.flatMap DataFrame.bytes = body := by
  obtain ⟨found, hfound, hnew⟩ := newestReadableVersion_sees (exec_sees s) (by rw [reached_all]; exact hgood) hkey hfuel
  have hcopies := hfound.copies
  rw [reached_all] at hcopies
  obtain ⟨missing, hread⟩ := (newestReadable_trusted (X := X) hcopies).mpr htrust
  rw [hread] at hnew
  obtain ⟨answer, heval, hrecord, hok, hbody, _⟩ := getObject_delivers hd hlib (exec_shows X C s r)
    hdet hnew henough hsteady
  exact ⟨answer, heval, hrecord, hok, hbody⟩

theorem wholeShard_usable (h : wholeShard X C s scheme r body i = true) (ht : t < stripeCount scheme r body) :
    usable X C s scheme r body t i = true := by
  obtain ⟨file, hfile, hall⟩ := wholeShard_eq_true.mp h
  rw [usable, streamAt_shardAt hfile]
  exact hall t ht

theorem wholeShard_long (h : wholeShard X C s scheme r body i = true) (hfile : shardAt C r s i = some file) :
    stripeCount scheme r body ≤ file.footer.blockCount := by
  obtain ⟨file', hstream, _⟩ := wholeShard_eq_true.mp h
  cases (streamAt_shardAt hstream).symm.trans hfile
  obtain ⟨d, hd, _⟩ := shardAt_getShard hfile
  cases howner : ownerInService C d with
  | none => rw [streamAt_lost hd howner] at hstream; cases hstream
  | some owner => exact ((streamAt_eq_some hd howner).mp hstream).2.2

theorem RepairPlan.Fits.written (hfits : plan.Fits faults X C s scheme r body) {s₁ s₂ : Store}
    (hfilled : plan.Filled X C scheme r body s s₁) (hwriting : Writing (plan.next r) plan.devices s₁ s₂)
    (hwritten : ∀ d ∈ plan.devices, InReach C d ∧ s₂.getRecord d (plan.next r).keyHash (plan.next r).version = some
    (.ok (plan.next r))) (hd : d ∈ (plan.next r).shards.map ShardLocation.device) : s₂.getRecord d r.keyHash r.version =
    some (.ok (plan.next r)) := by
  rw [plan.next_keyHash, plan.next_version] at hwritten
  by_cases hdev : d ∈ plan.devices
  · exact (hwritten d hdev).2
  · have hkept : s₁.getRecord d r.keyHash r.version = some (.ok (plan.next r)) := by
      rw [Within.record hfilled.filling d]
      by_contra hno
      exact hdev ((hfits.device d).mpr ⟨hd, fun hcopy => hno (copyAt_eq_some.mp hcopy.2)⟩)
    have hrec := hwriting.record (d := d)
    rw [plan.next_keyHash, plan.next_version] at hrec
    rcases hrec with hsame | ⟨hin, _⟩
    · exact hsame.trans hkept
    · exact absurd hin hdev

/-- The record is on every device it lists, unless the device was cleared of a stale copy. -/
theorem RepairPlan.Done.record {s' : Store} (h : plan.Done X C scheme r body s s')
    (hfits : plan.Fits faults X C s scheme r body) (hd : d ∈ (plan.next r).shards.map ShardLocation.device)
    (hgone : d ∉ plan.gone) : s'.getRecord d r.keyHash r.version = some (.ok (plan.next r)) := by
  obtain ⟨s₁, hfilled, s₂, hwriting, hwritten, hdropping, _⟩ := h
  rw [plan.next_keyHash, plan.next_version] at hdropping
  rcases Within.record hdropping d with hsame | ⟨hin, _⟩
  · exact hsame.trans (hfits.written hfilled hwriting hwritten hd)
  · exact absurd hin hgone

/-- **A damaged record file** is borne only where there is none: with one in reach neither reads nor repairs succeed. -/
theorem corrupt_copy_costs (hlib : ReedSolomonCode.Lawful X.reedSolomon scheme)
    (h : RecordsOnly X C s key scheme r body) (hfuel : copyCount C (X.hashKey key) s < fuel) :
    CostsNoMore X C s key fuel r body ↔ ∀ d ∈ C.attached, Undamaged s (X.hashKey key) d := by
  have hd := h.describes
  constructor
  · rintro ⟨_, report, s', hres, _⟩
    have hmeets := h.toHealable.meets hlib fuel
    rw [hres] at hmeets
    exact hmeets.1.2
  · intro hgood
    have hlost : lostShards C r = [] := List.eq_nil_iff_forall_not_mem.mpr fun i hi => by
      obtain ⟨d, hsh, hout⟩ := mem_lostShards.mp hi
      rw [h.placed _ hsh] at hout
      cases hout
    have hread : ∃ answer, (getObject X C fuel key).run.eval exec s = (.ok answer, s) ∧ answer.record = r ∧
      answer.ended.isOk ∧
        answer.frames.flatMap DataFrame.bytes = body := by
      have hwhole : ∀ t < stripeCount scheme r body, ∀ i < scheme.totalShards,
          wholeShard X C s scheme r body i = true := by
        intro t ht i hi
        refine h.complete (fun hnil => ?_) i hi
        rw [hd.stripeCount_nil hnil] at ht
        cases ht
      refine getObject_reads hlib hd h.allowed hgood
        ⟨h.remains.heads hd.k_pos hd.key_eq h.leftovers, h.remains.vouched, h.others⟩ h.detected hfuel (fun t ht => ?_)
        fun t ht i hi file hfile => ⟨?_, trivial⟩
      · have hall : ∀ i ∈ scheme.shardIndices, usable X C s scheme r body t i = true :=
          fun i hi => wholeShard_usable (hwhole t ht i (List.mem_range.mp hi)) ht
        rw [usableAmong_all, List.countP_eq_length.mpr hall, Scheme.shardIndices, List.length_range]
        exact scheme.data_le_total
      · exact wholeShard_long (hwhole t ht i (mem_openIndices_true.mp (openIndices_mono hi))) hfile
    refine ⟨?_, ?_⟩
    · obtain ⟨answer, heval, hrec, hok, hbody⟩ := hread
      cases hend : answer.ended with
      | error e => rw [hend] at hok; cases hok
      | ok done =>
        refine ⟨answer, done, heval, hrec, hbody, hend, fun d hdev hbad => ?_⟩
        obtain ⟨sh, hsh, rfl⟩ := List.mem_map.mp hdev
        obtain ⟨e, hbad⟩ := hbad
        exact absurd hbad (hgood _ (h.attached (h.placed sh hsh)) _ e)
    · have ha : Admitted X C s key scheme r body := ⟨hgood, h.leftovers, fun hne sh hsh _ hno => by
        rw [h.complete hne sh.index (hd.scheme_facts.2.1 sh hsh)] at hno
        cases hno⟩
      obtain ⟨report, s', hres, plan, hfits, hdone⟩ := h.mended hlib ha hfuel
      have hnext : plan.next r = r := by
        have hnil : plan.relocations = [] := List.map_eq_nil_iff.mp (hfits.relocation.indices.trans hlost)
        rw [RepairPlan.next, hnil]
        rfl
      refine ⟨report, s', hres, fun d hdev => ?_⟩
      have hrec := hdone.record hfits (by rw [hnext]; exact hdev) fun hgone => ((hfits.removed d).mp hgone).1.2.2 hdev
      rwa [hnext, hd.keyHash_eq] at hrec

end Corrupted

/-- Something that is no record stands in the place of a record file. -/
def Disk.spoil (disk : Disk) (kh : KeyHash) (v : VersionId) : Disk where
  records := disk.records.insert (kh, v) (.error (.json "expected value at line 1 column 1"))
  shards := disk.shards
  filed place r h := by
    by_cases hp : place = (kh, v)
    · subst hp
      rw [AList.lookup_insert] at h
      cases h
    · rw [AList.lookup_insert_ne hp] at h
      exact disk.filed place r h

/-- Both replicas are whole; the record file of the second device is overwritten. -/
def spoiledStore : Store := (byteStore [0, 1]).onDisk 1 fun disk => disk.spoil (smallCrates.hashKey "k") 1

theorem replicas_recordsOnly (h : Replicas s) (hup : ∀ d, (s.disk d).isSome)
    (henough : 1 ≤ (List.range 2).countP fun d => copyAt s (smallCrates.hashKey "k") 1 d = some (byteRecord 1 0 [0, 1]))
    (hwhole : ∀ i < 2, wholeShard smallCrates twoDevices s pair (byteRecord 1 0 [0, 1]) [7] i = true) :
    RecordsOnly smallCrates twoDevices s "k" pair (byteRecord 1 0 [0, 1]) [7] where
  toHealable := h.healable hup henough (by
    have hcount : wholeCount smallCrates twoDevices s pair (byteRecord 1 0 [0, 1]) [7] = 2 :=
      List.countP_eq_length.mpr fun i hi => hwhole i (List.mem_range.mp hi)
    exact hcount.ge.trans' (by decide)) (by decide +kernel)
  leftovers d hd hnot := by
    rw [small_attached] at hd
    exact absurd hd hnot
  others w hw d hd r hcopy := absurd (h.copy hd hcopy).1 hw
  placed := by decide +kernel
  complete _ := hwhole

/-- Every record file can be read: the object is, and a repair leaves the record on both devices. -/
theorem corrupt_copy_costs_none :
    CostsNoMore smallCrates twoDevices (byteStore [0, 1]) "k" 9 (byteRecord 1 0 [0, 1]) [7] := by
  have hlib : ReedSolomonCode.Lawful smallCrates.reedSolomon pair := fun _ => mirror_recovers 1
  have hrep : Replicas (byteStore [0, 1]) := by decide +kernel
  have honly := replicas_recordsOnly hrep (holding_isSome _ _) (by decide +kernel) (by decide +kernel)
  exact (corrupt_copy_costs hlib honly (by decide +kernel)).mpr (hrep.undamaged (by decide +kernel))

/-- One record file of two is overwritten: the object cannot be read, and a repair does not mend it. -/
theorem corrupt_copy_refused : RecordsOnly smallCrates twoDevices spoiledStore "k" pair (byteRecord 1 0 [0, 1]) [7] ∧
    ¬ CostsNoMore smallCrates twoDevices spoiledStore "k" 9 (byteRecord 1 0 [0, 1]) [7] := by
  refine ⟨replicas_recordsOnly (by decide +kernel) (fun d => ?_) (by decide +kernel) (by decide +kernel), fun h => ?_⟩
  · by_cases hd : d = 1
    · subst hd
      rfl
    · rw [spoiledStore, Store.onDisk_disk_ne _ hd]
      exact holding_isSome _ _ d
  · obtain ⟨answer, _, hread, _⟩ := h.read
    have hfail : ((getObject smallCrates twoDevices 9 "k").run.eval exec spoiledStore).1.isOk = false := by
      decide +kernel
    rw [hread] at hfail
    cases hfail

end Djbod
