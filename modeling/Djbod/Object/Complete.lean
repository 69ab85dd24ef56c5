import Djbod.Object.Repairs

/-!
# What a successful repair leaves

* `RepairPlan.Done.record_same`, `RepairPlan.Done.shard_same` and others : the files at the end of a repair, one kind at
  a time;
* `Current`, `Complete` : the record of the newest version in reach, and a version that nothing is to be repaired of;
* `Orderly` : the devices chosen for lost shards hold no stale copy, and what passes its checks is a shard of the
  object;
* `repair_completes` : a repair that succeeds leaves a complete version exactly then.
-/

namespace Djbod

variable {d : DeviceId} {v : VersionId} {i : ℕ} {p : ℕ × DeviceId}

section Done

variable {X : Crates} {C : Cluster} {s s' : Store} {scheme : Scheme} {r : MetadataRecord} {body : Bytes}
  {plan : RepairPlan}

namespace RepairPlan

variable (h : plan.Done X C scheme r body s s')

include h

theorem Done.cleaned (hd : d ∈ plan.gone) : Cleaned s' r.keyHash r.version d := by
  obtain ⟨s₁, _, s₂, _, _, _, hclean⟩ := h
  have := hclean d hd
  rwa [plan.next_keyHash, plan.next_version] at this

theorem Done.record_same (hd : d ∉ plan.devices) (hgone : d ∉ plan.gone) :
    s'.getRecord d r.keyHash r.version = s.getRecord d r.keyHash r.version := by
  obtain ⟨s₁, hfilled, s₂, hwriting, _, hdropping, _⟩ := h
  have hrec := hwriting.record (d := d)
  rw [plan.next_keyHash, plan.next_version] at hrec hdropping
  rcases Within.record hdropping d with hsame | ⟨hin, _⟩
  · rcases hrec with hsame' | ⟨hin, _⟩
    · exact hsame.trans (hsame'.trans (Within.record hfilled.filling d))
    · exact absurd hin hd
  · exact absurd hin hgone

theorem Done.otherRecord (hv : v ≠ r.version) : s'.getRecord d r.keyHash v = s.getRecord d r.keyHash v := by
  obtain ⟨s₁, hfilled, s₂, hwriting, _, hdropping, _⟩ := h
  have hne : (r.keyHash, v) ≠ (r.keyHash, r.version) := fun heq => hv (congrArg Prod.snd heq)
  have hne' : (r.keyHash, v) ≠ ((plan.next r).keyHash, (plan.next r).version) := by
    rwa [plan.next_keyHash, plan.next_version]
  rw [Within.otherRecord hdropping _ _ _ hne', Within.otherRecord hwriting _ _ _ hne',
    Within.otherRecord hfilled.filling _ _ _ hne]

theorem Done.shard_same (hi : (i, d) ∉ plan.targets) (hgone : d ∉ plan.gone) :
    s'.getShard d r.keyHash r.version i = s.getShard d r.keyHash r.version i := by
  obtain ⟨s₁, hfilled, s₂, hwriting, _, hdropping, _⟩ := h
  have hwritten := Within.shard hwriting d i
  rw [plan.next_keyHash, plan.next_version] at hwritten hdropping
  rcases Within.shard hdropping d i with hsame | ⟨hin, _⟩
  · rcases Within.shard hfilled.filling d i with hsame' | ⟨hin, _⟩
    · exact hsame.trans (hwritten.trans hsame')
    · exact absurd hin hi
  · exact absurd hin hgone

theorem Done.shard_rebuilt (hp : p ∈ plan.targets) (hgone : p.2 ∉ plan.gone) :
    ∃ file, s'.getShard p.2 r.keyHash r.version p.1 = some (.ok file) ∧ Rebuilt X C s scheme r body p.1 file := by
  obtain ⟨s₁, hfilled, s₂, hwriting, _, hdropping, _⟩ := h
  obtain ⟨file, hfile, hbuilt⟩ := hfilled.shard p hp
  have hwritten := Within.shard hwriting p.2 p.1
  rw [plan.next_keyHash, plan.next_version] at hwritten hdropping
  rcases Within.shard hdropping p.2 p.1 with hsame | ⟨hin, _⟩
  · exact ⟨file, hsame.trans (hwritten.trans hfile), hbuilt⟩
  · exact absurd hin hgone

end RepairPlan

end Done

/-- The record of the newest version in reach, at its highest revision. -/
structure Current (C : Cluster) (s : Store) (kh : KeyHash) (now : MetadataRecord) : Prop where
  held : ∃ d ∈ C.attached, copyAt s kh now.version d = some now
  newest : ∀ d ∈ C.attached, ∀ v r', copyAt s kh v d = some r' → v ≤ now.version
  highest : ∀ d ∈ C.attached, ∀ r', copyAt s kh now.version d = some r' → r'.revision ≤ now.revision

/-- Nothing is to be repaired: the record is on every device it lists, all of them in service; each holds the shard that
the encoder makes of the body; and no other device in service has an earlier copy. -/
structure Complete (X : Crates) (C : Cluster) (s : Store) (key : String) (scheme : Scheme) (body : Bytes)
    (now : MetadataRecord) : Prop extends Current C s (X.hashKey key) now where
  describes : Describes X key now scheme body
  record : ∀ sh ∈ now.shards, inService C sh.device = true ∧
    s.getRecord sh.device (X.hashKey key) now.version = some (.ok now)
  shard : body ≠ [] → ∀ sh ∈ now.shards, ∃ file,
    s.getShard sh.device (X.hashKey key) now.version sh.index = some (.ok file) ∧
    Encoded X scheme now body sh.index file
  stale : ∀ d, inService C d = true → d ∉ now.shards.map ShardLocation.device →
    ∀ r', copyAt s (X.hashKey key) now.version d = some r' → now.revision ≤ r'.revision

/-- The record that a repair leaves: lost shards are on the active devices with the most room that hold none. -/
def repairedRecord (C : Cluster) (s : Store) (scheme : Scheme) (r : MetadataRecord) : MetadataRecord :=
  nextRecord r (relocationsAt C s scheme r (lostShards C r))

/-- No device that a lost shard goes to has a stale copy, every file that passes its checks is the shard of the object,
and no device out of reach has an earlier copy. -/
structure Orderly (X : Crates) (C : Cluster) (s : Store) (scheme : Scheme) (r : MetadataRecord) (body : Bytes) :
    Prop where
  fresh : ∀ p ∈ relocationsAt C s scheme r (lostShards C r), ¬ StaleOn C s r.keyHash r p.2
  genuine : body ≠ [] → ∀ i file, streamAt C s r (stripeCount scheme r body) i = some file →
    wholeShard X C s scheme r body i = true → Encoded X scheme r body i file
  reach : ∀ d, inService C d = true → d ∉ C.attached →
    d ∉ (repairedRecord C s scheme r).shards.map ShardLocation.device →
    ∀ r', copyAt s r.keyHash r.version d = some r' → (repairedRecord C s scheme r).revision ≤ r'.revision

variable {kh : KeyHash} {r : MetadataRecord}

section Complete

variable {X : Crates} {C : Cluster} {key : String} {s s' : Store} {scheme : Scheme} {r : MetadataRecord} {body : Bytes}
  {plan : RepairPlan} {faults : Prop}

variable {r' : MetadataRecord}

theorem Heads.unique (h : Heads C key s kh r) (h' : Heads C key s kh r') : r' = r := by
  obtain ⟨d, hd, hcopy⟩ := h.held
  obtain ⟨d', hd', hcopy'⟩ := h'.held
  have hversion : r'.version = r.version := le_antisymm (h.newest d' hd' _ _ hcopy') (h'.newest d hd _ _ hcopy)
  rcases (h'.copy d hd r (by rw [hversion]; exact hcopy)).2 with hlt | ⟨heq, _⟩
  · rcases (h.copy d' hd' r' (by rw [← hversion]; exact hcopy')).2 with hlt' | ⟨heq, _⟩
    · exact absurd hlt' (Nat.not_lt.mpr hlt.le)
    · exact heq
  · exact heq.symm

theorem wholeShard_placed (hdesc : Describes X key r scheme body) (hwhole : wholeShard X C s scheme r body i = true) :
    ∃ d file, ⟨i, d⟩ ∈ r.shards ∧ inService C d = true ∧ streamAt C s r (stripeCount scheme r body) i = some file ∧
      s.getShard d r.keyHash r.version i = some (.ok file) := by
  obtain ⟨file, hfile, _⟩ := wholeShard_eq_true.mp hwhole
  obtain ⟨d, hd, hget⟩ := shardAt_getShard (streamAt_shardAt hfile)
  have hsh := MetadataRecord.exists_shard hd
  refine ⟨d, file, hsh, ?_, hfile, hget⟩
  by_contra hout
  rw [not_whole_of_lost hdesc (mem_lostShards.mpr ⟨d, hsh, by simpa using hout⟩)] at hwhole
  cases hwhole

theorem Encoded.next (plan : RepairPlan) {file : ShardFile} :
    Encoded X scheme (plan.next r) body i file ↔ Encoded X scheme r body i file := by
  obtain ⟨_, _, hnext, _⟩ := nextRecord_same r plan.relocations
  rw [RepairPlan.next, hnext]
  rfl

theorem RepairPlan.next_device (hd : d ∈ (plan.next r).shards.map ShardLocation.device) :
    (∃ p ∈ plan.relocations, p.2 = d) ∨ d ∈ r.shards.map ShardLocation.device := by
  rw [RepairPlan.next, nextRecord_devices] at hd
  obtain ⟨sh, hsh, rfl⟩ := List.mem_map.mp hd
  rcases relocatedDevice_cases plan.relocations sh.index sh.device with hmem | ⟨_, heq⟩
  · exact .inl ⟨_, hmem, rfl⟩
  · exact .inr (by rw [heq]; exact List.mem_map_of_mem hsh)

theorem RepairPlan.Fits.listed_next (h : plan.Fits faults X C s scheme r body) (hdesc : Describes X key r scheme body)
    (hd : d ∈ r.shards.map ShardLocation.device) (hin : inService C d = true) :
    d ∈ (plan.next r).shards.map ShardLocation.device := by
  obtain ⟨sh, hsh, rfl⟩ := List.mem_map.mp hd
  exact List.mem_map_of_mem (MetadataRecord.exists_shard (h.keeps hdesc hsh hin))

theorem RepairPlan.Fits.relocated_next (h : plan.Fits faults X C s scheme r body)
    (hdesc : Describes X key r scheme body) (hp : p ∈ plan.relocations) :
    p.2 ∈ (plan.next r).shards.map ShardLocation.device :=
  (mem_devicesNewFirst h.relocation hdesc).mp (List.mem_append_left _ (List.mem_map_of_mem hp))

/-- A device that gets the record does not have to be cleared, unless a lost shard goes to it. -/
theorem RepairPlan.Fits.not_gone (h : plan.Fits faults X C s scheme r body)
    (hfresh : ∀ p ∈ plan.relocations, ¬ StaleOn C s r.keyHash r p.2)
    (hd : d ∈ (plan.next r).shards.map ShardLocation.device) : d ∉ plan.gone := by
  intro hgone
  obtain ⟨hstale, _⟩ := (h.removed d).mp hgone
  rcases RepairPlan.next_device hd with ⟨p, hp, rfl⟩ | hmem
  · exact hfresh p hp hstale
  · exact hstale.2.2 hmem

theorem Orderly.reliable (h : Orderly X C s scheme r body) (hlib : ReedSolomonCode.Lawful X.reedSolomon scheme)
    (hdesc : Describes X key r scheme body) : Reliable X C s scheme r body := by
  intro i file hfile hwhole t ht
  have hne : body ≠ [] := fun hnil => by
    rw [hdesc.stripeCount_nil hnil] at ht
    cases ht
  have hi : i < scheme.totalShards := by
    obtain ⟨d, hd, _⟩ := shardAt_getShard (streamAt_shardAt hfile)
    exact hdesc.scheme_facts.2.1 _ (MetadataRecord.exists_shard hd)
  obtain ⟨_, hshard⟩ := (h.genuine hne i file hfile hwhole).isShard hlib hdesc.valid.blockSize.1 hdesc.size_eq hne hi
  obtain ⟨b, hb, hblock⟩ := hshard.block t ht
  rw [hblock]
  exact hb

section Left

variable (h : plan.Done X C scheme r body s s') (hfits : plan.Fits faults X C s scheme r body)

include h hfits

theorem RepairPlan.Done.copy_cases (hcopy : copyAt s' r.keyHash r.version d = some r') : r' = plan.next r ∨
    copyAt s r.keyHash r.version d = some r' := by
  have hget := copyAt_eq_some.mp hcopy
  by_cases hgone : d ∈ plan.gone
  · rw [(h.cleaned hgone).1] at hget
    cases hget
  by_cases hdev : d ∈ plan.devices
  · cases (h.record hfits ((hfits.device d).mp hdev).1 hgone).symm.trans hget
    exact .inl rfl
  · rw [h.record_same hdev hgone] at hget
    exact .inr (copyAt_eq_some.mpr hget)

variable (hdesc : Describes X key r scheme body)

include hdesc

theorem RepairPlan.Done.copy_next (hheads : Heads C key s r.keyHash r) (hd : d ∈ C.attached)
    (hin : inService C d = true) (hcopy : copyAt s' r.keyHash r.version d = some r') :
    d ∈ (plan.next r).shards.map ShardLocation.device ∧ r' = plan.next r := by
  have hget := copyAt_eq_some.mp hcopy
  by_cases hgone : d ∈ plan.gone
  · rw [(h.cleaned hgone).1] at hget
    cases hget
  by_cases hnext : d ∈ (plan.next r).shards.map ShardLocation.device
  · cases (h.record hfits hnext hgone).symm.trans hget
    exact ⟨hnext, rfl⟩
  · -- The copy was there before: it is no stale one, and listed devices in service get the record.
    have hdev : d ∉ plan.devices := fun hmem => hnext ((hfits.device d).mp hmem).1
    rw [h.record_same hdev hgone] at hget
    have hnot : d ∉ r.shards.map ShardLocation.device := fun hmem => hnext (hfits.listed_next hdesc hmem hin)
    rcases (hheads.copy d hd r' (copyAt_eq_some.mpr hget)).2 with hlt | ⟨_, hmem⟩
    · exact absurd ((hfits.removed d).mpr ⟨⟨hd, ⟨r', copyAt_eq_some.mpr hget, hlt⟩, hnot⟩, hin⟩) hgone
    · exact absurd hmem hnot

theorem RepairPlan.Done.copy_still (hmem : d ∈ r.shards.map ShardLocation.device)
    (hcopy : copyAt s r.keyHash r.version d = some r) :
    ∃ r', copyAt s' r.keyHash r.version d = some r' ∧ (r' = plan.next r ∨ r' = r) := by
  have hgone : d ∉ plan.gone := fun hgone => ((hfits.removed d).mp hgone).1.2.2 hmem
  by_cases hin : inService C d = true
  · exact ⟨_, copyAt_eq_some.mpr (h.record hfits (hfits.listed_next hdesc hmem hin) hgone), .inl rfl⟩
  · have hdev : d ∉ plan.devices := fun hdev => hin (hfits.relocation.inService ((hfits.device d).mp hdev).1)
    refine ⟨r, copyAt_eq_some.mpr ?_, .inr rfl⟩
    rw [h.record_same hdev hgone]
    exact copyAt_eq_some.mp hcopy

theorem RepairPlan.Done.complete_eq (hheads : Heads C key s r.keyHash r) {now : MetadataRecord}
    (hnow : Complete X C s' key scheme body now) : now = plan.next r := by
  obtain ⟨d₀, hd₀, hcopy₀⟩ := hheads.held
  have hlisted : d₀ ∈ r.shards.map ShardLocation.device := by
    rcases (hheads.copy d₀ hd₀ r hcopy₀).2 with hlt | ⟨_, hmem⟩
    · exact absurd hlt (Nat.lt_irrefl _)
    · exact hmem
  obtain ⟨x, hx, hcases⟩ := h.copy_still hfits hdesc hlisted hcopy₀
  obtain ⟨revision, shards, hnext, hle, _⟩ := nextRecord_same r plan.relocations
  obtain ⟨d₁, hd₁, hcopy₁⟩ := hnow.held
  have hkh := hdesc.keyHash_eq
  have hversion : now.version = r.version := by
    refine le_antisymm ?_ (hnow.newest d₀ hd₀ _ x (hkh ▸ hx))
    by_contra hlt
    have hne : now.version ≠ r.version := fun heq => hlt heq.le
    have hold := copyAt_eq_some.mp hcopy₁
    rw [← hkh, h.otherRecord hne] at hold
    exact hlt (hheads.newest d₁ hd₁ _ now (copyAt_eq_some.mpr hold))
  rw [hversion, ← hkh] at hcopy₁
  have hrevision : r.revision ≤ now.revision := by
    refine le_trans ?_ (hnow.highest d₀ hd₀ x (by rw [hversion, ← hkh]; exact hx))
    rcases hcases with rfl | rfl
    · rw [RepairPlan.next, hnext]
      exact hle
    · exact le_rfl
  rcases h.copy_cases hfits hcopy₁ with heq | hold
  · exact heq
  · rcases (hheads.copy d₁ hd₁ now hold).2 with hlt | ⟨rfl, _⟩
    · exact absurd hrevision (Nat.not_le.mpr hlt)
    · -- The record is as it was: then no shard was lost.
      have hnil : plan.relocations = [] := by
        rw [← List.map_eq_nil_iff (f := Prod.fst), hfits.relocation.indices]
        refine List.eq_nil_iff_forall_not_mem.mpr fun i hi => ?_
        obtain ⟨d, hsh, hout⟩ := mem_lostShards.mp hi
        rw [(hnow.record _ hsh).1] at hout
        cases hout
      rw [RepairPlan.next, hnil]
      rfl

theorem RepairPlan.Done.current (hheads : Heads C key s r.keyHash r)
    (hfresh : ∀ p ∈ plan.relocations, ¬ StaleOn C s r.keyHash r p.2) : Current C s' r.keyHash (plan.next r) where
  held := by
    rw [plan.next_version]
    cases hrel : plan.relocations with
    | nil =>
      have hsame : plan.next r = r := by rw [RepairPlan.next, hrel]; rfl
      obtain ⟨d, hd, hcopy⟩ := hheads.held
      rcases (hheads.copy d hd r hcopy).2 with hlt | ⟨_, hmem⟩
      · exact absurd hlt (Nat.lt_irrefl _)
      · obtain ⟨r', hcopy', heq⟩ := h.copy_still hfits hdesc hmem hcopy
        exact ⟨d, hd, by rw [hcopy', heq.elim id (·.trans hsame.symm)]⟩
    | cons p rest =>
      have hp : p ∈ plan.relocations := hrel ▸ List.mem_cons_self
      have hmem := hfits.relocated_next hdesc hp
      exact ⟨p.2, (hfits.relocation.active p hp).1,
        copyAt_eq_some.mpr (h.record hfits hmem (hfits.not_gone hfresh hmem))⟩
  newest d hd v r' hcopy := by
    rw [plan.next_version]
    by_cases hv : v = r.version
    · exact hv.le
    · have hold := copyAt_eq_some.mp hcopy
      rw [h.otherRecord hv] at hold
      exact hheads.newest d hd v r' (copyAt_eq_some.mpr hold)
  highest d hd r' hcopy := by
    rw [plan.next_version] at hcopy
    obtain ⟨revision, shards, hnext, hle, _⟩ := nextRecord_same r plan.relocations
    rcases h.copy_cases hfits hcopy with rfl | hold
    · exact le_rfl
    · rw [RepairPlan.next, hnext]
      rcases (hheads.copy d hd r' hold).2 with hlt | ⟨rfl, _⟩
      · exact hlt.le.trans hle
      · exact hle

theorem RepairPlan.Done.shard_encoded (hlib : ReedSolomonCode.Lawful X.reedSolomon scheme)
    (hfresh : ∀ p ∈ plan.relocations, ¬ StaleOn C s r.keyHash r p.2) (hord : Orderly X C s scheme r body)
    (hne : body ≠ []) {sh : ShardLocation} (hsh : sh ∈ (plan.next r).shards) :
    ∃ file, s'.getShard sh.device r.keyHash r.version sh.index = some (.ok file) ∧
    Encoded X scheme r body sh.index file := by
  have hdesc' := hfits.relocation.describes hdesc
  have hgone := hfits.not_gone hfresh (List.mem_map_of_mem hsh)
  have hdev : (plan.next r).deviceFor sh.index = some sh.device := hdesc'.deviceFor_shard hsh
  by_cases htarget : (sh.index, sh.device) ∈ plan.targets
  · obtain ⟨file, hfile, hbuilt⟩ := h.shard_rebuilt htarget hgone
    exact ⟨file, hfile, hbuilt (hord.reliable hlib hdesc)⟩
  · -- No device is a target for this index, so its shard was whole where it was.
    have hwhole := hfits.kept hne sh.index (hdesc'.scheme_facts.2.1 sh hsh) fun d hmem => htarget (by
      rw [← Option.some.inj ((hfits.target _ hmem).2.1.symm.trans hdev)]
      exact hmem)
    obtain ⟨d, file, hmem, hin, hfile, hget⟩ := wholeShard_placed hdesc hwhole
    obtain rfl : sh.device = d := Option.some.inj (hdev.symm.trans (hfits.keeps hdesc hmem hin :))
    exact ⟨file, (h.shard_same htarget hgone).trans hget, hord.genuine hne _ file hfile hwhole⟩

end Left

theorem RepairPlan.Done.complete (h : plan.Done X C scheme r body s s')
    (hlib : ReedSolomonCode.Lawful X.reedSolomon scheme) (hfits : plan.Fits False X C s scheme r body)
    (hdesc : Describes X key r scheme body) (hheads : Heads C key s r.keyHash r)
    (hfresh : ∀ p ∈ plan.relocations, ¬ StaleOn C s r.keyHash r p.2) (hord : Orderly X C s scheme r body) :
    Complete X C s' key scheme body (plan.next r) where
  toCurrent := hdesc.keyHash_eq ▸ h.current hfits hdesc hheads hfresh
  describes := hfits.relocation.describes hdesc
  record sh hsh := by
    have hmem := List.mem_map_of_mem (f := ShardLocation.device) hsh
    rw [← hdesc.keyHash_eq, plan.next_version]
    exact ⟨hfits.relocation.inService hmem, h.record hfits hmem (hfits.not_gone hfresh hmem)⟩
  shard hne sh hsh := by
    obtain ⟨file, hfile, henc⟩ := h.shard_encoded hfits hdesc hlib hfresh hord hne hsh
    rw [← hdesc.keyHash_eq, plan.next_version]
    exact ⟨file, hfile, (Encoded.next plan).mpr henc⟩
  stale d hin hnot r' hcopy := by
    rw [← hdesc.keyHash_eq, plan.next_version] at hcopy
    by_cases hd : d ∈ C.attached
    · exact absurd (h.copy_next hfits hdesc hheads hd hin hcopy).1 hnot
    · have hnext : repairedRecord C s scheme r = plan.next r := by rw [repairedRecord, ← hfits.chosen id,
        RepairPlan.next]
      have hold := copyAt_eq_some.mp hcopy
      rw [h.record_same (fun hdev => hnot ((hfits.device d).mp hdev).1) fun hgone =>
        hd ((hfits.removed d).mp hgone).1.1] at hold
      rw [← hnext] at hnot ⊢
      exact hord.reach d hin hd hnot r' (copyAt_eq_some.mpr hold)

/-- **What a repair leaves.** A version that was repaired is complete exactly when the devices chosen had no stale copy
of it and the files that passed their checks are its shards. -/
theorem repair_completes (hlib : ReedSolomonCode.Lawful X.reedSolomon scheme) (hdesc : Describes X key r scheme body)
    (hr : Restorable C key s (X.hashKey key) r) {fuel : ℕ} {report : RepairReport}
    (hres : (repairObject X C fuel key).run.eval exec s = (.ok report, s')) :
    (∃ now, Complete X C s' key scheme body now) ↔ Orderly X C s scheme r body := by
  have hmeets := meets_eval (repairObject_meets (s := s) hlib hdesc (fun _ h => hr.toHeads.unique h.toHeads) fuel)
  rw [hres] at hmeets
  obtain ⟨_, plan, hfits, hdone⟩ := hmeets
  have hheads := hr.toHeads
  have hkh := hdesc.keyHash_eq
  have hnext : repairedRecord C s scheme r = plan.next r := by rw [repairedRecord, ← hfits.chosen id, RepairPlan.next]
  rw [← hkh] at hheads
  constructor
  · rintro ⟨now, hnow⟩
    obtain rfl := hdone.complete_eq hfits hdesc hheads hnow
    refine ⟨fun p hp hstale => ?_, fun hne i file hfile hwhole => ?_, fun d hin hnot hother r' hcopy => ?_⟩
    · rw [← hfits.chosen id] at hp
      have hmem := hfits.relocated_next hdesc hp
      have hclean := hdone.cleaned ((hfits.removed p.2).mpr ⟨hstale, hfits.relocation.inService hmem⟩)
      obtain ⟨sh, hsh, hdev⟩ := List.mem_map.mp hmem
      have hrec := (hnow.record sh hsh).2
      rw [hdev, ← hkh, plan.next_version, hclean.1] at hrec
      cases hrec
    · obtain ⟨d, file₀, hsh, hin, hfile₀, hget⟩ := wholeShard_placed hdesc hwhole
      cases hfile₀.symm.trans hfile
      have htarget : (i, d) ∉ plan.targets := fun hmem => by
        rw [(hfits.target _ hmem).2.2.resolve_left id] at hwhole
        cases hwhole
      obtain ⟨file', hget', henc⟩ := hnow.shard hne _ (MetadataRecord.exists_shard (hfits.keeps hdesc hsh hin))
      have hgone : d ∉ plan.gone := fun hgone => ((hfits.removed d).mp hgone).1.2.2 (List.mem_map_of_mem hsh)
      rw [← hkh, plan.next_version, hdone.shard_same htarget hgone, hget] at hget'
      cases hget'
      exact (Encoded.next plan).mp henc
    · rw [hnext] at hother ⊢
      refine hnow.stale d hin hother r' (copyAt_eq_some.mpr ?_)
      rw [← hkh, plan.next_version, hdone.record_same (fun hdev => hother ((hfits.device d).mp hdev).1)
        fun hgone => hnot ((hfits.removed d).mp hgone).1.1]
      exact copyAt_eq_some.mp hcopy
  · intro h
    have hfresh := h.fresh
    rw [← hfits.chosen id] at hfresh
    exact ⟨plan.next r, hdone.complete hlib hfits hdesc hheads hfresh h⟩

end Complete

section Small

/-- The data shard is missing: a repair leaves a complete version. -/
theorem repair_completes_replica : ∃ report s',
    (repairObject smallCrates twoDevices 9 "k").run.eval exec (byteStore [1]) = (.ok report, s') ∧
      ∃ now, Complete smallCrates twoDevices s' "k" pair [7] now := by
  have hlib : ReedSolomonCode.Lawful smallCrates.reedSolomon pair := fun _ => mirror_recovers 1
  have hheal : Healable smallCrates twoDevices (byteStore [1]) "k" pair (byteRecord 1 0 [0, 1]) [7] :=
    byteStore_replicas.healable (holding_isSome _ _) (by decide +kernel) (by decide +kernel) (by decide +kernel)
  have hok : ((repairObject smallCrates twoDevices 9 "k").run.eval exec (byteStore [1])).1.isOk = true := by
    decide +kernel
  have hrest : Restorable twoDevices "k" (byteStore [1]) (smallCrates.hashKey "k") (byteRecord 1 0 [0, 1]) :=
    hheal.remains.restorable (by decide) rfl fun d hd hnot => by
      rw [small_attached] at hd
      exact absurd hd hnot
  rcases hres : (repairObject smallCrates twoDevices 9 "k").run.eval exec (byteStore [1]) with ⟨report | report, s'⟩ <;>
    rw [hres] at hok
  · cases hok
  refine ⟨report, s', rfl, (repair_completes hlib hheal.describes hrest hres).mpr ⟨?_, fun _ i file hfile _ =>
    ?_, fun d hin hnot => ?_⟩⟩
  · have hnil : relocationsAt twoDevices (byteStore [1]) pair (byteRecord 1 0 [0, 1])
      (lostShards twoDevices (byteRecord 1 0 [0, 1])) = [] := by
      decide +kernel
    rw [hnil]
    nofun
  · obtain ⟨hi, rfl⟩ := byteStore_replicas.shard (streamAt_shardAt hfile)
    unfold Encoded
    interval_cases i <;> decide +kernel
  · exact absurd (hheal.attached hin) hnot

/-- The replicas were on devices 2 and 1, then on 0 and 1; device 2 kept its copy, and device 0 was removed. -/
def staleStore : Store :=
  (holding [⟨1, byteRecord 1 1 [0, 1]⟩, ⟨2, byteRecord 1 0 [2, 1]⟩]).withShards [(1, byteShard 1 1)]

abbrev staleDevices : Cluster := small 1 [.removed, .active, .active]

variable {s : Store}

theorem copyAt_version {w : VersionId} (hv : s.versions d kh ∈ [[], [w]]) (h : copyAt s kh v d = some r) : v = w := by
  have hmem : v ∈ s.versions d kh := Store.mem_versions.mpr (by rw [copyAt_eq_some.mp h]; rfl)
  rcases List.mem_cons.mp hv with hnil | hone
  · rw [hnil] at hmem
    cases hmem
  · rw [List.mem_singleton.mp hone] at hmem
    exact List.mem_singleton.mp hmem

theorem two_copies {a b : MetadataRecord} (hv : ∀ d ∈ List.range 3, s.versions d (smallCrates.hashKey "k") ∈ [[], [1]])
    (hcopies : (List.range 3).map (copyAt s (smallCrates.hashKey "k") 1) = [none, some a, some b])
    (hd : d ∈ staleDevices.attached) (h : copyAt s (smallCrates.hashKey "k") v d = some r) :
    v = 1 ∧ (d = 1 ∧ r = a ∨ d = 2 ∧ r = b) := by
  rw [small_attached] at hd
  obtain rfl := copyAt_version (hv d hd) h
  change [copyAt s _ 1 0, copyAt s _ 1 1, copyAt s _ 1 2] = _ at hcopies
  simp only [List.cons.injEq, and_true] at hcopies
  obtain ⟨hzero, hone, htwo⟩ := hcopies
  refine ⟨rfl, ?_⟩
  have hlt : d < 3 := List.mem_range.mp hd
  interval_cases d
  · cases hzero.symm.trans h
  · exact .inl ⟨rfl, (Option.some.inj (hone.symm.trans h)).symm⟩
  · exact .inr ⟨rfl, (Option.some.inj (htwo.symm.trans h)).symm⟩

theorem staleStore_copy (hd : d ∈ staleDevices.attached)
    (h : copyAt staleStore (smallCrates.hashKey "k") v d = some r) :
    v = 1 ∧ (d = 1 ∧ r = byteRecord 1 1 [0, 1] ∨ d = 2 ∧ r = byteRecord 1 0 [2, 1]) :=
  two_copies (by decide +kernel) (by decide +kernel) hd h

theorem staleStore_restorable : Restorable staleDevices "k" staleStore (smallCrates.hashKey "k")
    (byteRecord 1 1 [0, 1]) := by
  have hremains : Remains staleDevices staleStore (smallCrates.hashKey "k") (byteRecord 1 1 [0, 1]) := by
    refine ⟨fun d hd v r hcopy => (staleStore_copy hd hcopy).1.le, fun d hd r hcopy =>
      ?_, fun d hd hmem r hcopy => ?_, ?_⟩
    · rcases (staleStore_copy hd hcopy).2 with ⟨_, rfl⟩ | ⟨_, rfl⟩ <;> decide
    · rcases (staleStore_copy hd hcopy).2 with ⟨_, rfl⟩ | ⟨rfl, _⟩
      · rfl
      · exact absurd hmem (by decide)
    · decide +kernel
  refine hremains.restorable (by decide) rfl fun d hd hnot r hcopy => ?_
  rcases (staleStore_copy hd hcopy).2 with ⟨rfl, _⟩ | ⟨_, rfl⟩
  · exact absurd (by decide) hnot
  · exact ⟨rfl, by decide, by decide⟩

/-- The lost shard goes to the device with the stale copy, which is cleared afterwards: one copy is left of two. -/
theorem repair_clears_relocated : ∃ report s',
    (repairObject smallCrates staleDevices 9 "k").run.eval exec staleStore = (.ok report, s') ∧
      Describes smallCrates "k" (byteRecord 1 1 [0, 1]) pair [7] ∧
      Restorable staleDevices "k" staleStore (smallCrates.hashKey "k") (byteRecord 1 1 [0, 1]) ∧
      ∀ now, ¬ Complete smallCrates staleDevices s' "k" pair [7] now := by
  have hok : ((repairObject smallCrates staleDevices 9 "k").run.eval exec staleStore).1.isOk = true := by decide +kernel
  have hleft : ∀ d ∈ List.range 3,
      copyAt ((repairObject smallCrates staleDevices 9 "k").run.eval exec staleStore).2 (smallCrates.hashKey "k") 1 d =
        if d = 1 then some (byteRecord 1 2 [2, 1]) else none := by decide +kernel
  have hversions : ∀ d ∈ List.range 3,
      ((repairObject smallCrates staleDevices 9 "k").run.eval exec staleStore).2.versions d
      (smallCrates.hashKey "k") ∈ [[], [1]] := by
    decide +kernel
  rcases hres : (repairObject smallCrates staleDevices 9 "k").run.eval exec staleStore with ⟨report | report, s'⟩ <;>
    rw [hres] at hok hleft hversions
  · cases hok
  refine ⟨report, s', rfl, byte_describes 1 1 (by decide), staleStore_restorable, fun now hnow => ?_⟩
  obtain ⟨d, hd, hcopy⟩ := hnow.held
  rw [small_attached] at hd
  have hversion := copyAt_version (hversions d hd) hcopy
  rw [hversion, hleft d hd] at hcopy
  split_ifs at hcopy
  obtain rfl := Option.some.inj hcopy
  have htwo := (hnow.record ⟨0, 2⟩ (by decide)).2
  exact absurd ((hleft 2 (by decide)).symm.trans (copyAt_eq_some.mpr htwo)) (by decide)

end Small

end Djbod
