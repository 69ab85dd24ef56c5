import Djbod.Node.Rebuild

/-!
# New devices for shards

* `relocatedDevice`, `replaced`, `nextRecord` : the record at the next revision, with some shards placed anew;
* `Relocation` : what holds of the devices chosen; `Relocation.valid` : the record stays valid;
* `relocateLostShards_meets` : the devices are chosen among the active ones outside the record, as the statuses rank
  them.
-/

namespace Djbod

open Sched

def relocatedDevice (relocations : List (ℕ × DeviceId)) (i : ℕ) (d : DeviceId) : DeviceId :=
  ((relocations.find? fun p => p.1 == i).map Prod.snd).getD d

/-- The record at the next revision, with the shards on their new devices. -/
def replaced (r : MetadataRecord) (relocations : List (ℕ × DeviceId)) : MetadataRecord :=
  { r with
    revision := r.revision + 1
    shards := r.shards.map fun sh => { sh with device := relocatedDevice relocations sh.index sh.device } }

/-- The record after a repair: at the next revision if shards were placed anew. -/
def nextRecord (r : MetadataRecord) (relocations : List (ℕ × DeviceId)) : MetadataRecord :=
  if relocations.isEmpty then r else replaced r relocations

section Place

variable {r : MetadataRecord} {relocations : List (ℕ × DeviceId)}

theorem relocatedDevice_nil (i : ℕ) (d : DeviceId) : relocatedDevice [] i d = d := rfl

theorem relocatedDevice_mem (hnodup : (relocations.map Prod.fst).Nodup) {p : ℕ × DeviceId} (hp : p ∈ relocations)
    (d : DeviceId) : relocatedDevice relocations p.1 d = p.2 := by
  have hfind : relocations.find? (fun q => q.1 == p.1) = some p := by
    cases hf : relocations.find? fun q => q.1 == p.1 with
    | none => exact absurd (List.find?_eq_none.mp hf p hp) (by simp)
    | some q =>
      rw [List.inj_on_of_nodup_map hnodup (List.mem_of_find?_eq_some hf) hp (by simpa using List.find?_some hf)]
  rw [relocatedDevice, hfind, Option.map_some, Option.getD_some]

theorem relocatedDevice_not_mem {i : ℕ} (hi : i ∉ relocations.map Prod.fst) (d : DeviceId) :
    relocatedDevice relocations i d = d := by
  have hfind : relocations.find? (fun q => q.1 == i) = none := by
    rw [List.find?_eq_none]
    intro q hq heq
    exact hi (List.mem_map.mpr ⟨q, hq, by simpa using heq⟩)
  rw [relocatedDevice, hfind, Option.map_none, Option.getD_none]

theorem relocatedDevice_cases (relocations : List (ℕ × DeviceId)) (i : ℕ) (d : DeviceId) :
    (i, relocatedDevice relocations i d) ∈ relocations ∨ i ∉ relocations.map Prod.fst ∧
    relocatedDevice relocations i d = d := by
  by_cases hi : i ∈ relocations.map Prod.fst
  · refine .inl ?_
    cases hf : relocations.find? fun q => q.1 == i with
    | none =>
      obtain ⟨q, hq, hqi⟩ := List.mem_map.mp hi
      exact absurd (List.find?_eq_none.mp hf q hq) (by simp [hqi])
    | some q =>
      have hqi : q.1 = i := by simpa using List.find?_some hf
      rw [relocatedDevice, hf, Option.map_some, Option.getD_some, ← hqi]
      exact List.mem_of_find?_eq_some hf
  · exact .inr ⟨hi, relocatedDevice_not_mem hi d⟩

theorem foldl_movedTo (hnodup : (relocations.map Prod.fst).Nodup) (r : MetadataRecord) :
    relocations.foldl (fun r p => movedTo p.1 p.2 r) r =
      { r with shards := r.shards.map fun sh =>
        { sh with device := relocatedDevice relocations sh.index sh.device } } := by
  induction relocations generalizing r with
  | nil => simp [relocatedDevice_nil]
  | cons p relocations ih =>
    rw [List.map_cons, List.nodup_cons] at hnodup
    rw [List.foldl_cons, ih hnodup.2]
    simp only [movedTo, List.map_map]
    congr 1
    refine List.map_congr_left fun sh _ => ?_
    by_cases hi : sh.index = p.1
    · have hnot : relocatedDevice relocations p.1 p.2 = p.2 := relocatedDevice_not_mem hnodup.1 p.2
      have hhead : relocatedDevice (p :: relocations) p.1 sh.device = p.2 := by simp [relocatedDevice]
      simp only [Function.comp_apply, hi, if_true, hnot, hhead]
    · have hne : (p.1 == sh.index) = false := by simpa using fun h => hi h.symm
      simp [Function.comp_apply, hi, relocatedDevice, hne]

theorem replaced_deviceFor (i : ℕ) : (replaced r relocations).deviceFor i =
    (r.deviceFor i).map (relocatedDevice relocations i) := by
  have hfind : ∀ shards : List ShardLocation,
      (shards.map fun sh => { sh with device := relocatedDevice relocations sh.index sh.device }).find? (fun sh =>
      sh.index == i) =
        (shards.find? fun sh => sh.index == i).map fun sh =>
        { sh with device := relocatedDevice relocations sh.index sh.device } :=
    fun shards => List.find?_map
  rw [MetadataRecord.deviceFor, MetadataRecord.deviceFor, replaced, hfind, Option.map_map, Option.map_map]
  cases hf : r.shards.find? fun sh => sh.index == i with
  | none => rfl
  | some sh =>
    have hi : sh.index = i := by simpa using List.find?_some hf
    simp [Function.comp_apply, hi]

theorem nextRecord_deviceFor (i : ℕ) : (nextRecord r relocations).deviceFor i =
    (r.deviceFor i).map (relocatedDevice relocations i) := by
  unfold nextRecord
  split_ifs with h
  · rw [List.isEmpty_iff.mp h]
    cases r.deviceFor i <;> rfl
  · exact replaced_deviceFor i

theorem nextRecord_devices : (nextRecord r relocations).shards.map ShardLocation.device =
    r.shards.map fun sh => relocatedDevice relocations sh.index sh.device := by
  unfold nextRecord
  split_ifs with h
  · rw [List.isEmpty_iff.mp h]
    rfl
  · rw [replaced, List.map_map]
    rfl

theorem nextRecord_same (r : MetadataRecord) (relocations : List (ℕ × DeviceId)) : ∃ revision shards,
    nextRecord r relocations = { r with revision := revision, shards := shards } ∧ r.revision ≤ revision ∧
      (relocations ≠ [] → revision = r.revision + 1) := by
  unfold nextRecord
  by_cases h : relocations.isEmpty = true
  · rw [if_pos h]
    exact ⟨r.revision, r.shards, rfl, le_refl _, fun hne => absurd (List.isEmpty_iff.mp h) hne⟩
  · rw [if_neg h]
    exact ⟨_, _, rfl, Nat.le_succ _, fun _ => rfl⟩

end Place

/-- What holds of the devices chosen for some shards of a record. -/
structure Relocation (C : Cluster) (r : MetadataRecord) (lost : List ℕ) (relocations : List (ℕ × DeviceId)) : Prop where
  indices : relocations.map Prod.fst = lost
  nodup : (relocations.map Prod.snd).Nodup
  fresh : ∀ p ∈ relocations, p.2 ∉ r.shards.map ShardLocation.device
  active : ∀ p ∈ relocations, p.2 ∈ C.attached ∧ (C.document.device p.2).map DeviceEntry.state = some .active

section Choose

variable {X : Crates} {C : Cluster} {s : Store} {faults : Prop} {r : MetadataRecord} {lost : List ℕ} {key : String}
  {scheme : Scheme} {body : Bytes} {relocations : List (ℕ × DeviceId)}

theorem Relocation.nil : Relocation C r [] [] := ⟨rfl, .nil, nofun, nofun⟩

theorem Relocation.devices_nodup (h : Relocation C r lost relocations) (hr : r.Valid X.hashKey) :
    ((nextRecord r relocations).shards.map ShardLocation.device).Nodup := by
  rw [nextRecord_devices]
  refine List.Nodup.map_on ?_ (List.Nodup.of_map _ hr.devices)
  intro a ha b hb heq
  rcases relocatedDevice_cases relocations a.index a.device with hma | ⟨_, hna⟩
  · rcases relocatedDevice_cases relocations b.index b.device with hmb | ⟨_, hnb⟩
    · rw [← heq] at hmb
      have := List.inj_on_of_nodup_map h.nodup hma hmb rfl
      exact List.inj_on_of_nodup_map hr.indices ha hb (congrArg Prod.fst this)
    · refine absurd ?_ (h.fresh _ hma)
      rw [heq, hnb]
      exact List.mem_map_of_mem hb
  · rcases relocatedDevice_cases relocations b.index b.device with hmb | ⟨_, hnb⟩
    · refine absurd ?_ (h.fresh _ hmb)
      rw [← heq, hna]
      exact List.mem_map_of_mem ha
    · rw [hna, hnb] at heq
      exact List.inj_on_of_nodup_map hr.devices ha hb heq

theorem Relocation.describes (h : Relocation C r lost relocations) (hd : Describes X key r scheme body) :
    Describes X key (nextRecord r relocations) scheme body := by
  have hdevices := h.devices_nodup hd.valid
  have hindices : (nextRecord r relocations).shards.map ShardLocation.index = r.shards.map ShardLocation.index := by
    unfold nextRecord
    split_ifs
    · rfl
    · rw [replaced, List.map_map]
      rfl
  obtain ⟨revision, shards, hnext, _⟩ := nextRecord_same r relocations
  obtain ⟨scheme', hscheme, hlen, hrange, hall⟩ := hd.valid.scheme
  rw [hnext] at hdevices hindices ⊢
  have hlen' : shards.length = scheme'.totalShards := by
    rw [← hlen, ← List.length_map ShardLocation.index, ← @List.length_map _ _ r.shards ShardLocation.index]
    exact congrArg List.length hindices
  refine ⟨⟨hd.valid.system, hd.valid.contentType, hd.valid.formatVersion, hd.valid.keyHash,
    ⟨scheme', hscheme, hlen', ?_, ?_⟩, hd.valid.blockSize, ?_, hdevices⟩, hd.key_eq, hd.scheme_eq,
    hd.size_eq, hd.checksum_eq⟩
  · intro sh hsh
    have hmem : sh.index ∈ r.shards.map ShardLocation.index := hindices ▸ List.mem_map_of_mem hsh
    obtain ⟨sh', hsh', heq⟩ := List.mem_map.mp hmem
    exact heq ▸ hrange sh' hsh'
  · intro i hi
    show i ∈ shards.map ShardLocation.index
    rw [show shards.map ShardLocation.index = r.shards.map ShardLocation.index from hindices]
    exact hall i hi
  · show (shards.map ShardLocation.index).Nodup
    rw [show shards.map ShardLocation.index = r.shards.map ShardLocation.index from hindices]
    exact hd.valid.indices

def shardBytes (scheme : Scheme) (r : MetadataRecord) : ℕ :=
  if r.size = 0 then 0 else (shardFileLength scheme r.blockSize r.size).getD 0

theorem recordShardBytes_eq (hd : Describes X key r scheme body) :
    recordShardBytes scheme r = .ok (shardBytes scheme r) := by
  unfold recordShardBytes shardBytes
  by_cases hsize : r.size = 0
  · rw [if_pos hsize, if_pos hsize]
  · obtain ⟨g, hg, _⟩ := hd.geometry fun hnil => hsize (by rw [hd.size_eq, hnil]; rfl)
    rw [if_neg hsize, if_neg hsize, shardFileLength, hg]
    rfl

/-- The devices that may take a shard of the record, the roomiest first. -/
def rankedAt (C : Cluster) (s : Store) (scheme : Scheme) (r : MetadataRecord) : List DeviceStatus :=
  ((statusesAt C s).filter (eligibleFor r (shardBytes scheme r))).insertionSort DeviceStatus.Roomier

/-- The devices that are chosen when the statuses are as the devices are. -/
def relocationsAt (C : Cluster) (s : Store) (scheme : Scheme) (r : MetadataRecord) (lost : List ℕ) :
    List (ℕ × DeviceId) :=
  (lost.zip (rankedAt C s scheme r)).map fun p => (p.1, p.2.device)

theorem map_snd_zip_take {α β : Type} (xs : List α) (ys : List β) : (xs.zip ys).map Prod.snd = ys.take xs.length := by
  induction xs generalizing ys with
  | nil => rfl
  | cons x xs ih =>
    cases ys with
    | nil => rfl
    | cons y ys => rw [List.zip_cons_cons, List.map_cons, ih, List.length_cons, List.take_succ_cons]

theorem chooseRelocations_relocation {statuses : List DeviceStatus} {bytes : ℕ}
    {res : MetadataRecord × List (ℕ × DeviceId)} (hlost : lost.Nodup)
    (hnodup : ((statuses.filter DeviceStatus.available).map DeviceStatus.device).Nodup)
    (hrep : ∀ status ∈ statuses, status.available → ∃ n ∈ C.document.activeNodes, Reported C n.id status)
    (h : chooseRelocations r lost bytes statuses = .ok res) : Relocation C r lost res.2 ∧ res.1 = replaced r res.2 ∧
      res.2 = (lost.zip ((statuses.filter (eligibleFor r bytes)).insertionSort DeviceStatus.Roomier)).map
        fun p => (p.1, p.2.device) := by
  unfold chooseRelocations at h
  dsimp only at h
  generalize hranked : (statuses.filter (eligibleFor r bytes)).insertionSort DeviceStatus.Roomier = ranked at h
  have hperm : ranked.Perm (statuses.filter (eligibleFor r bytes)) := hranked ▸ List.perm_insertionSort _ _
  split_ifs at h with hfew
  obtain rfl := Except.ok.inj h
  dsimp only
  have hfst : ((lost.zip ranked).map fun p => (p.1, p.2.device)).map Prod.fst = lost := by
    rw [List.map_map]
    exact List.map_fst_zip (Nat.not_lt.mp hfew)
  have helig : ∀ p ∈ (lost.zip ranked).map (fun p => (p.1, p.2.device)), ∃ status ∈ statuses, status.device = p.2 ∧
      eligibleFor r bytes status = true := by
    intro p hp
    obtain ⟨q, hq, rfl⟩ := List.mem_map.mp hp
    obtain ⟨hmem, hel⟩ := List.mem_filter.mp (hperm.mem_iff.mp (List.of_mem_zip hq).2)
    exact ⟨q.2, hmem, rfl, hel⟩
  refine ⟨⟨hfst, ?_, ?_, ?_⟩, ?_, rfl⟩
  · rw [List.map_map]
    have hsnd : (lost.zip ranked).map (Prod.snd ∘ fun p => (p.1, p.2.device)) =
        (ranked.take lost.length).map DeviceStatus.device := by
      rw [← map_snd_zip_take, List.map_map]
      rfl
    rw [hsnd]
    refine ((List.take_sublist _ _).map _).nodup ((hperm.map _).nodup_iff.mpr ?_)
    have hsub : (statuses.filter (eligibleFor r bytes)).Sublist (statuses.filter DeviceStatus.available) := by
      refine List.monotone_filter_right _ fun status hel => ?_
      unfold eligibleFor at hel
      simp only [Bool.and_eq_true] at hel
      exact hel.1.1.2
    exact (hsub.map _).nodup hnodup
  · intro p hp
    obtain ⟨status, _, hdev, hel⟩ := helig p hp
    unfold eligibleFor at hel
    simp only [Bool.and_eq_true, Bool.not_eq_true', List.contains_eq_mem, decide_eq_false_iff_not] at hel
    exact hdev ▸ hel.2
  · intro p hp
    obtain ⟨status, hmem, hdev, hel⟩ := helig p hp
    unfold eligibleFor at hel
    simp only [Bool.and_eq_true, beq_iff_eq] at hel
    obtain ⟨n, hn, hreport⟩ := hrep status hmem hel.1.1.2
    rw [← hdev]
    refine ⟨List.mem_flatMap.mpr ⟨n, hn, hreport.opened⟩, ?_⟩
    have hstate := hreport.state.symm.trans hel.1.1.1
    unfold stateOf at hstate
    cases hentry : C.document.device status.device with
    | none => rw [hentry] at hstate; cases hstate
    | some e => rw [hentry] at hstate; exact congrArg some hstate
  · exact foldl_movedTo (by rw [hfst]; exact hlost) _

/-- **Choosing new devices.** -/
theorem relocateLostShards_meets (hd : Describes X key r scheme body) (hlost : lost.Nodup) :
    Prog.Meets (Trying faults) (· = s)
      (fun res _ => Relocation C r lost res.2 ∧ res.1 = nextRecord r res.2 ∧
      (¬ faults → res.2 = relocationsAt C s scheme r lost))
      (fun _ _ => faults ∨ (rankedAt C s scheme r).length < lost.length) (relocateLostShards X C r lost) s := by
  unfold relocateLostShards
  by_cases hnil : lost.isEmpty = true
  · rw [if_pos hnil]
    obtain rfl := List.isEmpty_iff.mp hnil
    exact ⟨rfl, .nil, rfl, fun _ => rfl⟩
  · rw [if_neg hnil]
    refine Prog.Meets.bind (require_meets (a := scheme) (by rw [hd.scheme_eq]; rfl) rfl) ?_
    rintro _ s₁ ⟨rfl, rfl⟩ _
    refine Prog.Meets.bind (require_meets (recordShardBytes_eq hd) rfl) ?_
    rintro _ s₂ ⟨rfl, rfl⟩ _
    refine Prog.Meets.bind (broadcastStatus_meets.mono_error fun _ _ _ hf => .inl hf) ?_
    rintro statuses s₃ ⟨hnodup, hrep, hexact⟩ rfl
    cases hchoose : chooseRelocations r lost (shardBytes scheme r) statuses with
    | ok res =>
      obtain ⟨hreloc, hnext, hres⟩ := chooseRelocations_relocation hlost hnodup hrep hchoose
      have hne : ¬ res.2.isEmpty = true := by
        intro hemp
        have hfst := hreloc.indices
        rw [List.isEmpty_iff.mp hemp] at hfst
        exact hnil (by rw [← hfst]; rfl)
      refine ⟨rfl, hreloc, ?_, fun hf => ?_⟩
      · rw [hnext, nextRecord, if_neg hne]
      · rw [hres, hexact hf]
        rfl
    | error e =>
      refine ⟨rfl, ?_⟩
      by_cases hf : faults
      · exact .inl hf
      · refine .inr ?_
        by_contra hge
        rw [hexact hf, chooseRelocations] at hchoose
        dsimp only at hchoose
        rw [rankedAt] at hge
        rw [if_neg hge] at hchoose
        cases hchoose

end Choose

end Djbod
