import Djbod.Node.Mend

/-!
# A whole repair

* `RepairPlan` : what a repair is to do: the shards to write, the devices chosen for lost ones, the devices that get the
  record and those the version is removed from; `RepairPlan.Fits` : how it follows from the files;
* `RepairPlan.Stage`, `RepairPlan.Done` : the files at every point of it, and at its end;
* `repairObject_meets` : a repair that stops anywhere is at a stage of a plan that fits, and why it may fail.
-/

namespace Djbod

open Sched

def lostShards (C : Cluster) (r : MetadataRecord) : List ℕ :=
  (r.shards.filter fun s => !inService C s.device).map ShardLocation.index

structure RepairPlan where
  relocations : List (ℕ × DeviceId)
  targets : List (ℕ × DeviceId)
  devices : List DeviceId
  gone : List DeviceId

namespace RepairPlan

def next (plan : RepairPlan) (r : MetadataRecord) : MetadataRecord := nextRecord r plan.relocations

/-- How the plan follows from the files: lost shards get new devices, the shards that are not whole are written, and the
record goes to every listed device without it. -/
structure Fits (plan : RepairPlan) (faults : Prop) (X : Crates) (C : Cluster) (s : Store) (scheme : Scheme)
    (r : MetadataRecord) (body : Bytes) : Prop where
  relocation : Relocation C r (lostShards C r) plan.relocations
  chosen : ¬ faults → plan.relocations = relocationsAt C s scheme r (lostShards C r)
  target : ∀ p ∈ plan.targets, p.1 < scheme.totalShards ∧ (plan.next r).deviceFor p.1 = some p.2 ∧
    (faults ∨ wholeShard X C s scheme r body p.1 = false)
  kept : body ≠ [] → ∀ i < scheme.totalShards, (∀ d, (i, d) ∉ plan.targets) → wholeShard X C s scheme r body i = true
  empty : body = [] → plan.targets = []
  device : ∀ d, d ∈ plan.devices ↔ d ∈ (plan.next r).shards.map ShardLocation.device ∧
    ¬ (d ∈ C.attached ∧ copyAt s r.keyHash r.version d = some (plan.next r))
  removed : ∀ d, d ∈ plan.gone ↔ StaleOn C s r.keyHash r d ∧ inService C d = true

structure Filled (plan : RepairPlan) (X : Crates) (C : Cluster) (scheme : Scheme) (r : MetadataRecord) (body : Bytes)
    (s s' : Store) : Prop where
  filling : Filling X C scheme r body s plan.targets s'
  shard : ∀ p ∈ plan.targets, ∃ file, s'.getShard p.2 r.keyHash r.version p.1 = some (.ok file) ∧
    Rebuilt X C s scheme r body p.1 file
  admitted : ∀ p ∈ plan.targets, (C.document.device p.2).map DeviceEntry.state = some .active
  enough : Reliable X C s scheme r body → body ≠ [] → scheme.dataShards ≤ wholeCount X C s scheme r body

def Stage (plan : RepairPlan) (X : Crates) (C : Cluster) (scheme : Scheme) (r : MetadataRecord) (body : Bytes)
    (s s' : Store) : Prop :=
  Filling X C scheme r body s plan.targets s' ∨
    ∃ s₁, plan.Filled X C scheme r body s s₁ ∧ Mending C (plan.next r) plan.devices plan.gone s₁ s'

def Done (plan : RepairPlan) (X : Crates) (C : Cluster) (scheme : Scheme) (r : MetadataRecord) (body : Bytes)
    (s s' : Store) : Prop :=
  ∃ s₁, plan.Filled X C scheme r body s s₁ ∧ Mended C (plan.next r) plan.devices plan.gone s₁ s'

/-- A device does not take what the plan gives it, or a stale copy is on a device that its owner has not opened. -/
def Blocked (plan : RepairPlan) (C : Cluster) (s : Store) (r : MetadataRecord) : Prop :=
  (∃ p ∈ plan.targets, ¬ CanTake C s p.2) ∨ (∃ d ∈ plan.devices, ¬ CanRecord C s (plan.next r) d) ∨
    ∃ d, StaleOn C s r.keyHash r d ∧ ∃ owner, ownerInService C d = some owner ∧ d ∉ C.opened owner

end RepairPlan

def RepairFails (faults : Prop) (X : Crates) (C : Cluster) (s : Store) (key : String) (fuel : ℕ) (scheme : Scheme)
    (r : MetadataRecord) (body : Bytes) : Prop :=
  checkKey C key ≠ .ok () ∨ LookupFails faults C (X.hashKey key) s fuel ∨
    (∀ r', ¬ Restorable C key s (X.hashKey key) r') ∨
    (body ≠ [] ∧ (Starved X C s scheme r body ∨ wholeCount X C s scheme r body < scheme.dataShards)) ∨
    (rankedAt C s scheme r).length < (lostShards C r).length ∨
    ∃ plan : RepairPlan, plan.Fits faults X C s scheme r body ∧ plan.Blocked C s r

section

variable {X : Crates} {C : Cluster} {s : Store} {faults : Prop} {key : String} {scheme : Scheme}
  {r : MetadataRecord} {body : Bytes}

theorem lostShards_nodup (hd : Describes X key r scheme body) : (lostShards C r).Nodup :=
  (List.filter_sublist.map _).nodup hd.valid.indices

theorem mem_lostShards {i : ℕ} : i ∈ lostShards C r ↔ ∃ d, (⟨i, d⟩ : ShardLocation) ∈ r.shards ∧
    inService C d = false := by
  simp only [lostShards, List.mem_map, List.mem_filter, Bool.not_eq_true']
  constructor
  · rintro ⟨sh, ⟨hmem, hout⟩, rfl⟩
    exact ⟨sh.device, hmem, hout⟩
  · rintro ⟨d, hmem, hout⟩
    exact ⟨⟨i, d⟩, ⟨hmem, hout⟩, rfl⟩

theorem Relocation.eq_nil (h : Relocation C r (lostShards C r) []) : lostShards C r = [] := h.indices.symm

theorem Relocation.inService {relocations : List (ℕ × DeviceId)} (h : Relocation C r (lostShards C r) relocations)
    {d : DeviceId} (hd : d ∈ (nextRecord r relocations).shards.map ShardLocation.device) : inService C d = true := by
  rw [nextRecord_devices] at hd
  obtain ⟨sh, hsh, rfl⟩ := List.mem_map.mp hd
  rcases relocatedDevice_cases relocations sh.index sh.device with hmem | ⟨hnot, heq⟩
  · obtain ⟨_, hactive⟩ := h.active _ hmem
    obtain ⟨e, he, hstate⟩ := Option.map_eq_some_iff.mp hactive
    unfold Djbod.inService
    rw [he, Option.any_some, hstate]
    rfl
  · rw [heq]
    rw [h.indices, mem_lostShards] at hnot
    by_contra hout
    exact hnot ⟨sh.device, hsh, by simpa using hout⟩

theorem mem_devicesNewFirst {relocations : List (ℕ × DeviceId)} (h : Relocation C r (lostShards C r) relocations)
    (hd : Describes X key r scheme body) {d : DeviceId} : d ∈ devicesNewFirst (nextRecord r relocations) relocations ↔
      d ∈ (nextRecord r relocations).shards.map ShardLocation.device := by
  unfold devicesNewFirst
  dsimp only
  rw [List.mem_append, List.mem_filter]
  constructor
  · rintro (hmem | ⟨hmem, _⟩)
    · obtain ⟨p, hp, rfl⟩ := List.mem_map.mp hmem
      have hlost : p.1 ∈ lostShards C r := h.indices ▸ List.mem_map_of_mem hp
      obtain ⟨d₀, hsh, _⟩ := mem_lostShards.mp hlost
      rw [nextRecord_devices]
      refine List.mem_map.mpr ⟨_, hsh, ?_⟩
      exact relocatedDevice_mem (h.indices ▸ lostShards_nodup hd) hp d₀
    · exact hmem
  · intro hmem
    by_cases hchosen : d ∈ relocations.map Prod.snd
    · exact .inl hchosen
    · exact .inr ⟨hmem, by simpa using hchosen⟩

theorem Heads.not_next (h : Heads C key s r.keyHash r) {relocations : List (ℕ × DeviceId)}
    (hne : relocations ≠ []) {d : DeviceId} (hd : d ∈ C.attached) :
    copyAt s r.keyHash r.version d ≠ some (nextRecord r relocations) := by
  intro hcopy
  obtain ⟨_, _, hnext, _, hrev⟩ := nextRecord_same r relocations
  rw [hnext, hrev hne] at hcopy
  rcases (h.copy d hd _ hcopy).2 with hlt | ⟨heq, _⟩
  · exact absurd hlt (Nat.not_lt.mpr (Nat.le_succ _))
  · exact absurd (congrArg MetadataRecord.revision heq) (Nat.succ_ne_self _)

theorem mem_mendedDevices {found : Repairable} (hfound : RepairFound C s found.record.keyHash found)
    (hheads : Heads C key s found.record.keyHash found.record) (hd : Describes X key found.record scheme body)
    {relocations : List (ℕ × DeviceId)} (h : Relocation C found.record (lostShards C found.record) relocations)
    {d : DeviceId} : d ∈ mendedDevices found.record relocations (found.missing.filter (inService C)) ↔
      d ∈ (nextRecord found.record relocations).shards.map ShardLocation.device ∧
        ¬ (d ∈ C.attached ∧ copyAt s found.record.keyHash found.record.version d = some
        (nextRecord found.record relocations)) := by
  unfold mendedDevices
  by_cases hnil : relocations.isEmpty = true
  · have hin : ∀ d ∈ (nextRecord found.record relocations).shards.map ShardLocation.device, inService C d = true :=
      fun _ hd => h.inService hd
    rw [if_pos hnil]
    rw [List.isEmpty_iff.mp hnil] at hin ⊢
    rw [List.mem_filter, hfound.missing]
    constructor
    · exact fun hmem => hmem.1
    · exact fun hmem => ⟨hmem, hin d hmem.1⟩
  · rw [if_neg hnil, mem_devicesNewFirst h hd]
    refine ⟨fun hmem => ⟨hmem, fun hcopy => ?_⟩, fun hmem => hmem.1⟩
    exact hheads.not_next (fun h0 => hnil (by rw [h0]; rfl)) hcopy.1 hcopy.2

theorem Filling.canRecord {targets : List (ℕ × DeviceId)} {s' : Store} (h : Filling X C scheme r body s targets s')
    {r' : MetadataRecord} (hkey : r'.keyHash = r.keyHash) (hversion : r'.version = r.version) {d : DeviceId}
    (hcan : CanRecord C s r' d) : CanRecord C s' r' d := by
  obtain ⟨e, he, hacc⟩ := hcan
  refine ⟨e, he, hacc.opened, by rw [Within.disk h d]; exact hacc.disk, fun file hfile => hacc.older file ?_⟩
  rw [hkey, hversion] at hfile ⊢
  exact (Within.record h d).symm.trans hfile

theorem RepairPlan.next_keyHash (plan : RepairPlan) (r : MetadataRecord) : (plan.next r).keyHash = r.keyHash := by
  obtain ⟨_, _, hnext, _⟩ := nextRecord_same r plan.relocations
  rw [RepairPlan.next, hnext]

theorem RepairPlan.next_version (plan : RepairPlan) (r : MetadataRecord) : (plan.next r).version = r.version := by
  obtain ⟨_, _, hnext, _⟩ := nextRecord_same r plan.relocations
  rw [RepairPlan.next, hnext]

theorem RepairPlan.filled_nil {plan : RepairPlan} (htargets : plan.targets = [])
    (henough : body ≠ [] → scheme.dataShards ≤ wholeCount X C s scheme r body) : plan.Filled X C scheme r body s s where
  filling := .refl _
  shard p hp := by
    rw [htargets] at hp
    cases hp
  admitted p hp := by
    rw [htargets] at hp
    cases hp
  enough _ := henough

theorem not_whole_of_lost {i : ℕ} (hd : Describes X key r scheme body) (hi : i ∈ lostShards C r) :
    wholeShard X C s scheme r body i = false := by
  obtain ⟨d, hsh, hout⟩ := mem_lostShards.mp hi
  have hdev : r.deviceFor i = some d := hd.deviceFor_shard hsh
  have howner : ownerInService C d = none := by
    rw [← Option.not_isSome_iff_eq_none, ← inService_iff, hout]
    exact Bool.false_ne_true
  rw [wholeShard, streamAt_lost hdev howner]
  rfl

theorem judged_targets {sources : List RepairSource}
    (h : List.Forall₂ (RepairSource.Judged faults X C s scheme r body) scheme.shardIndices sources)
    (relocations : List (ℕ × DeviceId)) :
    (∀ p ∈ repairTargets (sources.filter fun source => source.condition ≠ .intact) relocations,
      p.1 < scheme.totalShards ∧ (nextRecord r relocations).deviceFor p.1 = some p.2 ∧
        (faults ∨ wholeShard X C s scheme r body p.1 = false)) ∧
    ∀ i < scheme.totalShards,
      (∀ d, (i, d) ∉ repairTargets (sources.filter fun source => source.condition ≠ .intact) relocations) →
        wholeShard X C s scheme r body i = true := by
  unfold repairTargets
  constructor
  · intro p hp
    obtain ⟨source, hsource, rfl⟩ := List.mem_map.mp hp
    obtain ⟨hmem, hcond⟩ := List.mem_filter.mp hsource
    obtain ⟨i, hi, hj⟩ := forall₂_left_of_mem h hmem
    refine ⟨?_, ?_, ?_⟩
    · rw [hj.index]
      exact List.mem_range.mp hi
    · rw [nextRecord_deviceFor, hj.index, hj.device]
      rfl
    · rw [hj.index]
      exact hj.damaged (by simpa using hcond)
  · intro i hi hnot
    obtain ⟨source, hmem, hj⟩ := forall₂_left_of_mem h.flip (List.mem_range.mpr hi)
    by_contra hno
    refine hnot (relocatedDevice relocations i source.device)
      (List.mem_map.mpr ⟨source, List.mem_filter.mpr ⟨hmem, ?_⟩, ?_⟩)
    · exact decide_eq_true fun hint => hno (hj.intact hint).1
    · rw [hj.index]
      rfl

/-- The files while a repair runs: as it found them until it has a plan. -/
def RepairRunning (faults : Prop) (X : Crates) (C : Cluster) (scheme : Scheme) (r : MetadataRecord) (body : Bytes)
    (s s' : Store) : Prop :=
  s' = s ∨ ∃ plan : RepairPlan, plan.Fits faults X C s scheme r body ∧ plan.Stage X C scheme r body s s'

/-- The last part of a repair: the shards are in place, the records are not. -/
theorem RepairPlan.finish_meets {plan : RepairPlan} {missing : List DeviceId} {stale : List (DeviceId × ℕ)} {s₁ : Store}
    (hd : Describes X key r scheme body) (hfits : plan.Fits faults X C s scheme r body)
    (hfilled : plan.Filled X C scheme r body s s₁) (hdevices : plan.devices = mendedDevices r plan.relocations missing)
    (hgone : plan.gone = (stale.map Prod.fst).filter (inService C))
    (hstale : ∀ d ∈ stale.map Prod.fst, StaleOn C s r.keyHash r d)
    {fuel : ℕ} : Prog.Meets (Trying faults) (RepairRunning faults X C scheme r body s)
      (fun _ s' => ∃ plan : RepairPlan, plan.Fits faults X C s scheme r body ∧ plan.Done X C scheme r body s s')
      (fun e s' => (e.code.Plain ∨ s' = s) ∧
        (Detected X C s scheme r body → faults ∨ RepairFails faults X C s key fuel scheme r body))
      (callNode (mendRecords X C r (plan.next r) plan.relocations missing stale)) s₁ := by
  refine Prog.Meets.call ((mendRecords_meets (hfits.relocation.describes hd).valid hdevices hgone).mono
    (fun s₂ h => .inr ⟨plan, hfits, .inr ⟨s₁, hfilled, h⟩⟩) (fun _ s₂ _ hq => ⟨plan, hfits, s₁, hfilled, hq.2⟩)
    fun e s₂ _ hE => ⟨.inl hE.1, fun _ => hE.2.imp id fun hcause =>
    .inr (.inr (.inr (.inr (.inr ⟨plan, hfits, .inr ?_⟩))))⟩)
  rcases hcause with ⟨d, hd, hno⟩ | ⟨d, hd, owner, howner, hno⟩
  · exact .inl ⟨d, hd, fun hcan => hno (hfilled.filling.canRecord (plan.next_keyHash r) (plan.next_version r) hcan)⟩
  · exact .inr ⟨d, hstale d hd, owner, howner, hno⟩

/-- **A repair.** Wherever it stops, the files are at a stage of a plan that fits what it found. -/
theorem repairObject_meets (hlib : ReedSolomonCode.Lawful X.reedSolomon scheme) (hd : Describes X key r scheme body)
    (hr : ∀ r', Restorable C key s (X.hashKey key) r' → r' = r) (fuel : ℕ) :
    Prog.Meets (Trying faults) (RepairRunning faults X C scheme r body s)
      (fun _ s' => (Restorable C key s (X.hashKey key) r ∧ ∀ d ∈ C.attached, Undamaged s (X.hashKey key) d) ∧
        ∃ plan : RepairPlan, plan.Fits faults X C s scheme r body ∧ plan.Done X C scheme r body s s')
      (fun e s' => (e.code.Plain ∨ s' = s) ∧
        (Detected X C s scheme r body → faults ∨ RepairFails faults X C s key fuel scheme r body))
      (repairObject X C fuel key) s := by
  have hstill : RepairRunning faults X C scheme r body s s := .inl rfl
  unfold repairObject
  refine Prog.Meets.bind ((repairableRecord_meets fuel).mono (fun _ h => .inl h) (fun _ _ hs hq => And.intro hs hq)
    fun _ _ hs hE => ⟨.inr hs, fun _ => .inr (hE.imp id (Or.imp id .inl))⟩) ?_
  rintro ⟨r', missing, stale⟩ s₁ ⟨rfl, ⟨hrest, hfound⟩, hgood⟩ _
  obtain rfl := hr r' hrest
  rw [← hd.keyHash_eq] at hrest hfound
  have hmem := fun relocations => @mem_mendedDevices X C s₁ key scheme body ⟨r', missing, stale⟩
    hfound hrest.toHeads hd relocations
  have hgone : ∀ d, d ∈ (stale.map Prod.fst).filter (inService C) ↔ StaleOn C s₁ r'.keyHash r' d ∧
      inService C d = true := by
    intro d
    rw [List.mem_filter]
    exact and_congr_left' (hfound.stale d)
  have hstale : ∀ d ∈ stale.map Prod.fst, StaleOn C s₁ r'.keyHash r' d := fun d => (hfound.stale d).mp
  rw [hd.keyHash_eq] at hrest
  dsimp only
  refine Prog.Meets.bind (require_meets (by rw [hd.scheme_eq]; rfl) hstill) ?_
  rintro _ s₂ ⟨rfl, rfl⟩ _
  have hrelocate : Prog.Meets (Trying faults) (RepairRunning faults X C scheme r' body s₂)
      (fun res s' => s' = s₂ ∧ Relocation C r' (lostShards C r') res.2 ∧ res.1 = nextRecord r' res.2 ∧
        (¬ faults → res.2 = relocationsAt C s₂ scheme r' (lostShards C r')))
      (fun e s' => (e.code.Plain ∨ s' = s₂) ∧
        (Detected X C s₂ scheme r' body → faults ∨ RepairFails faults X C s₂ key fuel scheme r' body))
      (relocateLostShards X C r' (lostShards C r')) s₂ :=
    (relocateLostShards_meets hd (lostShards_nodup hd)).mono (fun _ => .inl) (fun _ _ hs hq => ⟨hs, hq⟩)
      fun _ _ hs hE => ⟨.inr hs, fun _ => hE.imp id fun hroom => .inr (.inr (.inr (.inr (.inl hroom))))⟩
  by_cases hempty : r'.size = 0
  · have hbody : body = [] := List.length_eq_zero_iff.mp (hd.size_eq ▸ hempty)
    rw [if_pos hempty]
    refine Prog.Meets.bind hrelocate ?_
    rintro ⟨next, relocations⟩ s₃ ⟨rfl, hreloc, hnext, hchosen⟩ _
    dsimp only at hreloc hnext hchosen
    subst hnext
    have hfits : (RepairPlan.mk relocations [] (mendedDevices r' relocations (missing.filter (inService C)))
        ((stale.map Prod.fst).filter (inService C))).Fits faults X C s₃ scheme r' body :=
      ⟨hreloc, hchosen, nofun, fun hne => absurd hbody hne, fun _ => rfl, fun d => hmem _ hreloc, hgone⟩
    refine Prog.Meets.bind (RepairPlan.finish_meets hd hfits (RepairPlan.filled_nil rfl fun hne => absurd hbody hne)
      rfl rfl hstale) ?_
    rintro ⟨rewritten, removed⟩ s₄ hdone hI
    exact ⟨hI, ⟨hrest, hgood⟩, hdone⟩
  · have hne : body ≠ [] := fun h0 => hempty (by rw [hd.size_eq, h0]; rfl)
    obtain ⟨g, hg, hcount⟩ := hd.geometry hne
    rw [if_neg hempty]
    refine Prog.Meets.bind (require_meets (a := g) (by rw [hg]) hstill) ?_
    rintro _ s₃ ⟨rfl, rfl⟩ _
    rw [hcount]
    refine Prog.Meets.bind ((callNode_still (surveyObject_meets hlib hd.valid.blockSize.1 hd.size_eq hd.checksum_eq
      (fun i hi => hd.deviceFor_isSome hi) key) hstill).mono_error fun _ _ _ hE => ⟨.inr hE.1,
        fun hdet => (hE.2 hdet).imp id fun hstarved => .inr (.inr (.inr (.inl ⟨hne, .inl hstarved⟩)))⟩) ?_
    rintro sources s₄ ⟨rfl, hjudged⟩ _
    obtain ⟨htarget, hkept⟩ := judged_targets hjudged []
    split_ifs with hnone
    · -- every shard is whole, so none is on a device out of service
      have hwhole : ∀ i < scheme.totalShards, wholeShard X C s₄ scheme r' body i = true := by
        intro i hi
        refine hkept i hi fun d hd => ?_
        rw [List.isEmpty_iff.mp hnone] at hd
        cases hd
      have hreloc : Relocation C r' (lostShards C r') [] := by
        have hnil : lostShards C r' = [] := List.eq_nil_iff_forall_not_mem.mpr fun i hi => by
          obtain ⟨d, hsh, _⟩ := mem_lostShards.mp hi
          have := hwhole i (hd.scheme_facts.2.1 _ hsh)
          rw [not_whole_of_lost hd hi] at this
          cases this
        rw [hnil]
        exact .nil
      have hfits : (RepairPlan.mk [] [] (mendedDevices r' [] (missing.filter (inService C)))
          ((stale.map Prod.fst).filter (inService C))).Fits faults X C s₄ scheme r' body :=
        ⟨hreloc, fun _ => by rw [hreloc.eq_nil]; rfl, nofun, fun _ i hi _ => hwhole i hi, fun h0 => absurd h0 hne,
          fun d => hmem _ hreloc, hgone⟩
      have henough : scheme.dataShards ≤ wholeCount X C s₄ scheme r' body := by
        rw [wholeCount, Scheme.shardIndices, List.countP_eq_length.mpr fun i hi => hwhole i (List.mem_range.mp hi),
          List.length_range]
        exact Nat.le_add_right _ _
      refine Prog.Meets.bind (RepairPlan.finish_meets hd hfits (RepairPlan.filled_nil rfl fun _ => henough)
        rfl rfl hstale) ?_
      rintro ⟨rewritten, removed⟩ s₅ hdone hI
      exact ⟨hI, ⟨hrest, hgood⟩, hdone⟩
    · refine Prog.Meets.bind hrelocate ?_
      rintro ⟨next, relocations⟩ s₅ ⟨rfl, hreloc, hnext, hchosen⟩ _
      dsimp only at hreloc hnext hchosen
      subst hnext
      obtain ⟨htarget, hkept⟩ := judged_targets hjudged relocations
      have hfits : (RepairPlan.mk relocations _ (mendedDevices r' relocations (missing.filter (inService C)))
          ((stale.map Prod.fst).filter (inService C))).Fits faults X C s₅ scheme r' body :=
        ⟨hreloc, hchosen, htarget, fun _ => hkept, fun h0 => absurd h0 hne, fun d => hmem _ hreloc, hgone⟩
      refine Prog.Meets.bind ((rebuildShards_meets hlib hd hne hjudged fun p hp => (htarget p hp).1).mono
        (fun s' h => Or.inr ⟨_, hfits, .inl h⟩) (fun _ _ h hq => And.intro h hq)
        fun _ _ _ hE => ⟨hE.1, fun hdet => (hE.2 hdet.reliable).imp id fun hcause => ?_⟩) ?_
      · rcases hcause with hfew | ⟨p, hp, hno⟩
        · exact .inr (.inr (.inr (.inl ⟨hne, .inr hfew⟩)))
        · exact .inr (.inr (.inr (.inr (.inr ⟨_, hfits, .inl ⟨p, hp, hno⟩⟩))))
      rintro _ s₆ ⟨hfill, hshards, hadmitted, henough⟩ _
      refine Prog.Meets.bind (RepairPlan.finish_meets hd hfits ⟨hfill, hshards, hadmitted, fun hrel _ => henough hrel⟩
        rfl rfl hstale) ?_
      rintro ⟨rewritten, removed⟩ s₇ hdone hI
      exact ⟨hI, ⟨hrest, hgood⟩, hdone⟩

end

end Djbod
