import Djbod.Object.Absence

/-!
# Inventory states and reads

What an inventory says of a key's newest version, against what a read of the key does, with some devices and nodes out
of reach.

* `Tidy` : the copies within reach are complete and agree, and the shard files are sound;
* `Tidy.classified` : the state that an inventory gives a version, from the shards it finds in service;
* `Tidy.get` : when a read succeeds, and what it rebuilds;
* `inventory_agrees` : when the two agree; `empty_object_unreadable` : an empty object, for which they do not.
-/

namespace Djbod

open Sched

/-- One version of a key as it was written: its record, and the body that it describes. -/
structure VersionOf (X : Crates) (key : String) where
  record : MetadataRecord
  scheme : Scheme
  body : Bytes
  describes : Describes X key record scheme body
  lawful : ReedSolomonCode.Lawful X.reedSolomon scheme

/-- The record copies of the key within reach are complete and agree, and the shard files that are there are sound. -/
structure Tidy (X : Crates) (C : Cluster) (key : String) (s : Store) (down : NodeId → Bool)
    (versions : VersionId → Option (VersionOf X key)) : Prop where
  numbered : ∀ v o, versions v = some o → o.record.version = v
  only : ∀ d ∈ reached C down, ∀ v file, s.getRecord d (X.hashKey key) v = some file →
    ∃ o, versions v = some o ∧ file = .ok o.record ∧ d ∈ o.record.shards.map ShardLocation.device
  copied : ∀ v o, versions v = some o → ∀ shard ∈ o.record.shards, shard.device ∈ reached C down →
    (s.disk shard.device).isSome → s.getRecord shard.device (X.hashKey key) v = some (.ok o.record)
  whole : ∀ v o, versions v = some o → ∀ shard ∈ o.record.shards, ∀ content,
    s.getShard shard.device (X.hashKey key) v shard.index = some content →
      ∃ file, content = .ok file ∧ IsShard X o.scheme o.record o.body shard.index file
  named : ∀ d ∈ reached C down, ∀ kh v r, s.getRecord d kh v = some (.ok r) → r.keyHash = X.hashKey r.key

/-- An inventory reads the device. -/
def inStock (C : Cluster) (s : Store) (down : NodeId → Bool) (d : DeviceId) : Bool :=
  (inventoryDevices C).any fun e => e.id == d && (!down e.node && decide (e.id ∈ C.opened e.node) &&
    (s.disk e.id).isSome)

/-- An inventory finds the shard: its device is read and has the file. -/
def inStockShard (C : Cluster) (s : Store) (down : NodeId → Bool) (r : MetadataRecord) (shard : ShardLocation) : Bool :=
  inStock C s down shard.device && s.shardHere shard.device r

def outOfStock (C : Cluster) (s : Store) (down : NodeId → Bool) (r : MetadataRecord) : List ℕ :=
  (r.shards.filter fun shard => !inStockShard C s down r shard).map ShardLocation.index

variable {d : DeviceId} {known unread : List DeviceId} {r : MetadataRecord} {v : VersionId}

section Classify

variable {X : Crates} {C : Cluster} {key : String} {s : Store} {down : NodeId → Bool}
  {versions : VersionId → Option (VersionOf X key)}

theorem inStock_iff : inStock C s down d = true ↔ ∃ e ∈ inventoryDevices C, InStock C s (nodesDown down) e ∧
    e.id = d := by
  simp only [inStock, InStock, nodesDown, List.any_eq_true, Bool.and_eq_true, beq_iff_eq, Bool.not_eq_true',
    decide_eq_true_eq]
  constructor
  · rintro ⟨e, he, hid, ⟨hup, hin⟩, hdisk⟩
    exact ⟨e, he, ⟨hup, hin, hdisk⟩, hid⟩
  · rintro ⟨e, he, ⟨hup, hin, hdisk⟩, hid⟩
    exact ⟨e, he, hid, ⟨hup, hin⟩, hdisk⟩

theorem InStock.inReach {e : DeviceEntry} (he : e ∈ inventoryDevices C) (h : InStock C s (nodesDown down) e) :
    e.id ∈ Djbod.reached C down := by
  obtain ⟨n, hn, hactive⟩ := (Option.any_eq_true ..).mp (Bool.and_eq_true_iff.mp (List.mem_filter.mp he).2).2
  have hid : n.id = e.node := by simpa using List.find?_some hn
  exact mem_reached.mpr ⟨n, List.mem_filter.mpr ⟨List.mem_of_find?_eq_some hn, hactive⟩, hid ▸ h.1, hid ▸ h.2.1⟩

theorem inStock_inReach (h : inStock C s down d = true) : d ∈ reached C down ∧ (s.disk d).isSome := by
  obtain ⟨e, he, hin, rfl⟩ := inStock_iff.mp h
  exact ⟨InStock.inReach he hin, hin.2.2⟩

theorem currentCopy_mem (first : LocatedRecord) (rest : List LocatedRecord) :
    currentCopy first rest ∈ first :: rest := by
  unfold currentCopy
  induction rest generalizing first with
  | nil => exact List.mem_cons_self
  | cons c rest ih =>
    rw [List.foldl_cons]
    have hmem := ih (if first.record.revision ≤ c.record.revision then c else first)
    split_ifs at hmem ⊢
    · exact List.mem_cons_of_mem _ hmem
    · rcases List.mem_cons.mp hmem with hmem | hmem
      · rw [hmem]
        exact List.mem_cons_self
      · exact List.mem_cons_of_mem _ (List.mem_cons_of_mem _ hmem)

theorem mapM_mem_of_ok {α β ε : Type} {f : α → Except ε β} {xs : List α} {ys : List β} (h : xs.mapM f = .ok ys)
    {y : β} (hy : y ∈ ys) : ∃ x ∈ xs, f x = .ok y := by
  have hall := mapM_eq_ok.mp h
  clear h
  induction hall with
  | nil => cases hy
  | @cons x y' xs ys hxy _ ih =>
    rcases List.mem_cons.mp hy with rfl | hy
    · exact ⟨x, List.mem_cons_self, hxy⟩
    · obtain ⟨x', hx', hy'⟩ := ih hy
      exact ⟨x', List.mem_cons_of_mem _ hx', hy'⟩

theorem trustVersion_mem {version : VersionId} {copies : List LocatedRecord} {trusted : TrustedVersion}
    (h : trustVersion X key version copies = .ok trusted) : ∃ c ∈ copies, c.record = trusted.record := by
  unfold trustVersion at h
  split at h
  · cases h
  · dsimp only at h
    split at h
    · cases h
    · next first rest hcurrent =>
        split at h
        · cases h
        · cases h
          have hmem : first ∈ copies.filter fun c => c.record.revision == maxRevision copies := by
            rw [hcurrent]
            exact List.mem_cons_self
          exact ⟨first, (List.mem_filter.mp hmem).1, rfl⟩

theorem classifyGroup_record (group : List StreamedRecord) (unread known : List DeviceId) (first : LocatedRecord)
    (rest : List LocatedRecord) : ∃ c ∈ first :: rest,
    c.record = (classifyGroup X group unread known first rest).record := by
  unfold classifyGroup
  dsimp only
  split
  · next record hversions =>
      unfold versionsOfExcluding at hversions
      split at hversions
      · cases hversions
      · next trusted htrusted =>
          obtain ⟨t, ht, hcomplete⟩ := mapM_mem_of_ok hversions List.mem_cons_self
          obtain ⟨v, _, hv⟩ := mapM_mem_of_ok htrusted ht
          obtain ⟨c, hc, hrec⟩ := trustVersion_mem hv
          refine ⟨c, (List.mem_filter.mp hc).1, hrec.trans ?_⟩
          unfold completeVersion at hcomplete
          dsimp only at hcomplete
          split_ifs at hcomplete
          exact Except.ok.inj hcomplete
  · exact ⟨_, currentCopy_mem first rest, rfl⟩

theorem classifyGroup_agreed {group : List StreamedRecord} {first : LocatedRecord} {rest : List LocatedRecord}
    (hall : ∀ c ∈ first :: rest, c.record = r ∧ c.device ∈ r.shards.map ShardLocation.device)
    (hmissing : ∀ shard ∈ r.shards, (∃ c ∈ first :: rest, c.device = shard.device) ∨ shard.device ∈ unread ∨
    shard.device ∉ known) : (classifyGroup X group unread known first rest).state = objectState r
    ((r.shards.filter fun shard =>
      decide (shard.device ∈ unread ∨ shard.device ∉ known) ||
        group.any fun x => x.device == shard.device && !x.shardPresent).map ShardLocation.index) := by
  have hcurrent : (currentCopy first rest).record = r := (hall _ (currentCopy_mem first rest)).1
  have hexpected : ∀ shard ∈ r.shards, shard.device ∈ unread ++ (r.shards.map ShardLocation.device).filter (fun d =>
      d ∉ known && d ∉ unread) ↔ shard.device ∈ unread ∨ shard.device ∉ known := fun shard hs => by
    rw [List.mem_append, List.mem_filter]
    have hmem : shard.device ∈ r.shards.map ShardLocation.device := List.mem_map_of_mem hs
    simp only [hmem, true_and, Bool.and_eq_true, decide_eq_true_eq]
    tauto
  have hgenuine : Genuine r.key (fun _ => r) (first :: rest) :=
    ⟨fun c hc => (hall c hc).1, fun c hc => by rw [(hall c hc).1], fun c hc => by rw [(hall c hc).1]; exact (hall c
    hc).2⟩
  have hversions : versionsDescending (first :: rest) = [r.version] := by
    have hall' : ∀ v ∈ versionsDescending (first :: rest), v = r.version := fun v hv => by
      obtain ⟨c, hc, rfl⟩ := mem_versionsDescending.mp hv
      rw [(hall c hc).1]
    have hmem : r.version ∈ versionsDescending (first :: rest) :=
      mem_versionsDescending.mpr ⟨first, List.mem_cons_self, by rw [(hall first List.mem_cons_self).1]⟩
    have hnodup : (versionsDescending (first :: rest)).Nodup :=
      (versionsDescending_sorted (first :: rest)).imp fun h => h.ne'
    match hlist : versionsDescending (first :: rest), hall', hmem, hnodup with
    | [v], hall', _, _ => rw [hall' v List.mem_cons_self]
    | v :: v' :: vs, hall', _, hnodup =>
      exact absurd ((hall' v (by simp)).trans (hall' v' (by simp)).symm) fun h =>
        (List.nodup_cons.mp hnodup).1 (by simp [h])
  have hcomplete : versionsOfExcluding X r.key (first :: rest)
      (unread ++ (r.shards.map ShardLocation.device).filter fun d =>
      d ∉ known && d ∉ unread) = .ok [r] := by
    have hexpects : ∀ m ∈ lacking r (first :: rest),
        m.device ∈ unread ++ (r.shards.map ShardLocation.device).filter fun d =>
        d ∉ known && d ∉ unread := fun m hm => by
      obtain ⟨shard, hshard, rfl⟩ := List.mem_map.mp hm
      obtain ⟨hs, hno⟩ := List.mem_filter.mp hshard
      refine (hexpected shard hs).mpr ((hmissing shard hs).resolve_left ?_)
      rintro ⟨c, hc, hdev⟩
      rw [Bool.not_eq_true', List.any_eq_false] at hno
      exact hno c (mem_copiesOf.mpr ⟨hc, by rw [(hall c hc).1]⟩) (by simpa using hdev)
    rw [versionsOfExcluding, trustedVersions_genuine hgenuine, hversions]
    refine mapM_eq_ok.mpr (.cons ?_ .nil)
    unfold completeVersion
    dsimp only
    rw [if_neg]
    rw [Nat.not_lt, List.countP_eq_length.mpr]
    exact fun m hm => decide_eq_true (hexpects m hm)
  unfold classifyGroup
  dsimp only
  rw [hcurrent, hcomplete]
  dsimp only
  congr 2
  refine List.filter_congr fun shard hs => ?_
  rw [decide_eq_decide.mpr (hexpected shard hs)]

/-- **What an inventory says of a version** whose copies within reach agree: its state follows from the shards it does
not find. -/
theorem Tidy.classified (h : Tidy X C key s down versions) {o : VersionOf X key} (ho : versions v = some o)
    (hunread : ∀ d, d ∈ unread ↔ ∃ e ∈ inventoryDevices C, ¬ InStock C s (nodesDown down) e ∧ e.id = d)
    (hknown : ∀ d, d ∈ known ↔ ∃ e ∈ inventoryDevices C, down e.node = false ∧ e.id = d) {c : Classified}
    (hc : ClassifiedFrom X unread known s (Stocked C s (nodesDown down)) c) (hkey : c.record.key = key)
    (hversion : c.record.version = v) : c.state = objectState o.record (outOfStock C s down o.record) ∧
      ∃ d ∈ o.record.shards.map ShardLocation.device, inStock C s down d = true := by
  obtain ⟨place, group, first, rest, rfl, hgroup, hmem, hflags⟩ := hc
  -- The group is that of the version.
  have hcopy : ∀ c ∈ first :: rest, c.device ∈ reached C down ∧
      s.getRecord c.device c.record.keyHash c.record.version = some (.ok c.record) ∧
      inStock C s down c.device = true := fun c hc => by
    obtain ⟨⟨e, he, hin, hid, hrec⟩, _⟩ := (hmem c).mp hc
    exact ⟨hid ▸ InStock.inReach he hin, mem_allRecords.mp hrec, inStock_iff.mpr ⟨e, he, hin, hid⟩⟩
  obtain ⟨c₀, hc₀, hrec₀⟩ := classifyGroup_record (X := X) group unread known first rest
  rw [← hrec₀] at hkey hversion
  have hplace : place = toLex (X.hashKey key, v) := by
    rw [← ((hmem c₀).mp hc₀).2, MetadataRecord.filing, h.named _ (hcopy c₀ hc₀).1 _ _ _ (hcopy c₀ hc₀).2.1, hkey,
      hversion]
  have hall : ∀ c ∈ first :: rest, c.record = o.record ∧ c.device ∈ o.record.shards.map ShardLocation.device :=
      fun c hc => by
    have hfiling := ((hmem c).mp hc).2
    rw [hplace, MetadataRecord.filing, toLex_inj, Prod.mk.injEq] at hfiling
    obtain ⟨hreach, hget, _⟩ := hcopy c hc
    rw [hfiling.1, hfiling.2] at hget
    obtain ⟨o', ho', hfile, hlisted⟩ := h.only _ hreach _ _ hget
    cases ho.symm.trans ho'
    exact ⟨Except.ok.inj hfile, hlisted⟩
  have hfound : ∀ shard ∈ o.record.shards, inStock C s down shard.device = true →
      ⟨shard.device, o.record⟩ ∈ first :: rest :=
    fun shard hs hin => by
      obtain ⟨e, he, hstock, hid⟩ := inStock_iff.mp hin
      obtain ⟨hreach, hdisk⟩ := inStock_inReach hin
      have hget := h.copied v o ho shard hs hreach hdisk
      have hkh : o.record.keyHash = X.hashKey key := o.describes.keyHash_eq
      have hv : o.record.version = v := h.numbered v o ho
      refine (hmem _).mpr ⟨⟨e, he, hstock, hid, mem_allRecords.mpr ?_⟩, ?_⟩
      · rw [hkh, hv]
        exact hget
      · rw [hplace, MetadataRecord.filing, hkh, hv]
  have hout : ∀ d, (d ∈ unread ∨ d ∉ known) ↔ inStock C s down d = false := fun d => by
    rw [← Bool.not_eq_true, inStock_iff, hunread, hknown]
    constructor
    · rintro (⟨e, he, hno, hid⟩ | hno) ⟨e', he', hin, hid'⟩
      · have hsame : e = e' := List.inj_on_of_nodup_map C.devices_nodup (List.mem_filter.mp he).1
          (List.mem_filter.mp he').1 (hid.trans hid'.symm)
        exact hno (hsame ▸ hin)
      · exact hno ⟨e', he', hin.1, hid'⟩
    · intro hno
      by_cases hex : ∃ e ∈ inventoryDevices C, down e.node = false ∧ e.id = d
      · obtain ⟨e, he, _, hid⟩ := hex
        exact .inl ⟨e, he, fun hin => hno ⟨e, he, hin, hid⟩, hid⟩
      · exact .inr hex
  refine ⟨?_, c₀.device, (hall c₀ hc₀).2, (hcopy c₀ hc₀).2.2⟩
  rw [classifyGroup_agreed hall fun shard hs => ?_]
  · unfold outOfStock
    congr 2
    refine List.filter_congr fun shard hs => ?_
    have hdecide : decide (shard.device ∈ unread ∨ shard.device ∉ known) = !inStock C s down shard.device := by
      rw [Bool.eq_iff_iff, decide_eq_true_eq, hout, Bool.not_eq_true']
    rw [hdecide, inStockShard]
    cases hin : inStock C s down shard.device with
    | false => simp
    | true =>
      have hany : (group.any fun x => x.device == shard.device && !x.shardPresent) = !s.shardHere
          shard.device o.record := by
        have hx : ∀ x ∈ group, x.device = shard.device → x.shardPresent = s.shardHere shard.device o.record :=
            fun x hx hdev => by
          have hmem' : (⟨x.device, x.record⟩ : LocatedRecord) ∈ first :: rest := by
            rw [← hgroup]
            exact List.mem_map.mpr ⟨x, hx, rfl⟩
          have hrecord : x.record = o.record := (hall _ hmem').1
          rw [hflags x hx, hrecord, hdev]
        have hthere := hfound shard hs hin
        rw [← hgroup] at hthere
        obtain ⟨x, hxmem, hxeq⟩ := List.mem_map.mp hthere
        have hxdev : x.device = shard.device := congrArg LocatedRecord.device hxeq
        cases hhere : s.shardHere shard.device o.record with
        | false =>
          rw [Bool.not_false, List.any_eq_true]
          exact ⟨x, hxmem, by rw [hx x hxmem hxdev, hhere, hxdev]; simp⟩
        | true =>
          rw [Bool.not_true, List.any_eq_false]
          intro y hy hand
          obtain ⟨hdev, hno⟩ := Bool.and_eq_true_iff.mp hand
          rw [hx y hy (beq_iff_eq.mp hdev), hhere] at hno
          cases hno
      rw [hany]
      simp
  · cases hin : inStock C s down shard.device with
    | true => exact .inl ⟨_, hfound shard hs hin, rfl⟩
    | false => exact .inr ((hout shard.device).mpr hin)

end Classify

/-! ## What a read does -/

variable {answer : Except ErrorDetail GetAnswer}

section Read

variable {X : Crates} {C : Cluster} {key : String} {s : Store} {down : NodeId → Bool}
  {versions : VersionId → Option (VersionOf X key)} {v : VersionId} {o : VersionOf X key} {fuel : ℕ}

/-- The version is the newest of which a copy is within reach. -/
structure NewestInReach (X : Crates) (C : Cluster) (key : String) (s : Store) (down : NodeId → Bool) (v : VersionId) :
    Prop where
  held : ∃ d ∈ reached C down, (s.getRecord d (X.hashKey key) v).isSome
  newest : ∀ d ∈ reached C down, ∀ v' file, s.getRecord d (X.hashKey key) v' = some file → v' ≤ v

theorem Tidy.undamaged (h : Tidy X C key s down versions) : ∀ d ∈ reached C down, Undamaged s (X.hashKey key) d := by
  intro d hd v e hget
  obtain ⟨o, _, hfile, _⟩ := h.only d hd v _ hget
  cases hfile

variable {located : List LocatedRecord}

theorem Tidy.genuine (h : Tidy X C key s down versions) (o : VersionOf X key)
    (hc : CopiesOn (reached C down) (X.hashKey key) s located) :
    Genuine key (fun v => ((versions v).getD o).record) located := by
  have hrec : ∀ c ∈ located, ∃ o', versions c.record.version = some o' ∧ c.record = o'.record ∧
      c.device ∈ o'.record.shards.map ShardLocation.device := fun c hmem => by
    obtain ⟨hreach, hget⟩ := (hc.mem c).mp hmem
    obtain ⟨o', ho', hfile, hlisted⟩ := h.only _ hreach _ _ hget
    exact ⟨o', ho', Except.ok.inj hfile, hlisted⟩
  refine ⟨fun c hmem => ?_, fun c hmem => ?_, fun c hmem => ?_⟩
  · obtain ⟨o', ho', hr, _⟩ := hrec c hmem
    rw [ho']
    exact hr
  · obtain ⟨o', _, hr, _⟩ := hrec c hmem
    rw [hr]
    exact o'.describes.key_eq
  · obtain ⟨o', _, hr, hlisted⟩ := hrec c hmem
    rw [hr]
    exact hlisted

theorem Tidy.copies_length (h : Tidy X C key s down versions) (ho : versions v = some o)
    (hc : CopiesOn (reached C down) (X.hashKey key) s located) :
    (copiesOf located v).length = copiesInReach C s down o.record := by
  refine copiesInReach_eq o.describes.valid.devices ((List.Nodup.of_map _ hc.places).filter _) fun c => ?_
  show c ∈ copiesOf located v ↔ _
  rw [mem_copiesOf, hc.mem]
  constructor
  · rintro ⟨⟨hreach, hget⟩, hv⟩
    rw [hv] at hget
    obtain ⟨o', ho', hfile, hlisted⟩ := h.only _ hreach _ _ hget
    cases ho.symm.trans ho'
    exact ⟨Except.ok.inj hfile, hlisted, hreach, isSome_of_getRecord hget⟩
  · rintro ⟨hr, hlisted, hreach, hdisk⟩
    obtain ⟨shard, hs, hsd⟩ := List.mem_map.mp hlisted
    have hv := h.numbered v o ho
    rw [hr, ← hsd, hv]
    exact ⟨⟨hsd ▸ hreach, h.copied v o ho shard hs (hsd ▸ hreach) (hsd ▸ hdisk)⟩, rfl⟩

theorem NewestInReach.versions_eq (hn : NewestInReach X C key s down v)
    (hgood : ∀ d ∈ reached C down, Undamaged s (X.hashKey key) d)
    (hc : CopiesOn (reached C down) (X.hashKey key) s located) : ∃ rest, versionsDescending located = v :: rest := by
  obtain ⟨d, hd, hsome⟩ := hn.held
  obtain ⟨file, hfile⟩ := Option.isSome_iff_exists.mp hsome
  obtain ⟨r, rfl⟩ : ∃ r, file = .ok r := by
    cases file with
    | ok r => exact ⟨r, rfl⟩
    | error e => exact absurd hfile (hgood d hd v e)
  have hver : r.version = v := (Store.getRecord_filed hfile).2
  have hmem : (⟨d, r⟩ : LocatedRecord) ∈ located := (hc.mem _).mpr ⟨hd, by rw [hver]; exact hfile⟩
  obtain ⟨w, rest, hw⟩ := List.exists_cons_of_ne_nil (mt versionsDescending_eq_nil.mp (List.ne_nil_of_mem hmem))
  have hle : v ≤ w := hver ▸ le_of_versionsDescending hw hmem
  obtain ⟨c, hcmem, hcw⟩ := mem_versionsDescending.mp (hw ▸ List.mem_cons_self : w ∈ versionsDescending located)
  have hge : w ≤ v := hcw ▸ hn.newest _ ((hc.mem c).mp hcmem).1 _ _ ((hc.mem c).mp hcmem).2
  exact ⟨rest, by rw [hw, le_antisymm hge hle]⟩

/-- What a read needs of a version: the key within the limit, `k` copies of the record, and `k` shards unless the object
is empty. -/
def Gettable (C : Cluster) (s : Store) (down : NodeId → Bool) (key : String) (o : VersionOf X key) : Prop :=
  checkKey C key = .ok () ∧ o.scheme.dataShards ≤ copiesInReach C s down o.record ∧
    (o.body = [] ∨ unopenable C (s.behind C down) o.scheme o.record ≤ o.scheme.parityShards)

/-- Every shard that can be opened is sound. -/
def AllWhole (X : Crates) (C : Cluster) (s : Store) (scheme : Scheme) (r : MetadataRecord) (body : Bytes) : Prop :=
  ∀ i file, shardAt C r s i = some file → IsShard X scheme r body i file

/-- Whether a data shard cannot be opened; the parity shards are opened at once then. -/
def dataClosed (C : Cluster) (s : Store) (scheme : Scheme) (r : MetadataRecord) : Bool :=
  scheme.dataShardIndices.any fun i => (shardAt C r s i).isNone

section AllWhole

variable {scheme : Scheme} {body : Bytes}

theorem AllWhole.detected (h : AllWhole X C s scheme r body) : Detected X C s scheme r body := by
  intro i file t hfile ht _ _
  obtain ⟨b, hb, hblock⟩ := (h i file hfile).block t ht
  rw [hb, hblock]

theorem AllWhole.usable (h : AllWhole X C s scheme r body) (hlib : ReedSolomonCode.Lawful X.reedSolomon scheme) {t : ℕ}
    (ht : t < stripeCount scheme r body) (i : ℕ) : usable X C s scheme r body t i = (shardAt C r s i).isSome := by
  cases hfile : shardAt C r s i with
  | none => simp [Djbod.usable, hfile]
  | some file => exact (h i file hfile).usable hlib hfile ht

theorem AllWhole.enough (h : AllWhole X C s scheme r body) (hlib : ReedSolomonCode.Lawful X.reedSolomon scheme)
    (hd : Describes X key r scheme body) (hk : body = [] ∨ unopenable C s scheme r ≤ scheme.parityShards) {t : ℕ}
    (ht : t < stripeCount scheme r body) : scheme.dataShards ≤ usableAmong X C s scheme r body t
    (openIndices scheme true) := by
  rcases hk with hnil | hk
  · rw [hd.stripeCount_nil hnil] at ht
    cases ht
  · have htotal := unopenable_add C s scheme r
    rw [usableAmong_all]
    simp only [funext (h.usable hlib ht)]
    omega

/-- A read of sound shards lists a data shard exactly when there are stripes and a data shard cannot be opened. -/
theorem AllWhole.rebuilds (h : AllWhole X C s scheme r body) (hlib : ReedSolomonCode.Lawful X.reedSolomon scheme)
    {entries : List Reconstruction} (hpos : ∀ e ∈ entries, 0 < e.stripes)
    (hcovered : ∀ i t, covered entries i t = if t < stripeCount scheme r body ∧
      i ∈ openIndices scheme (parityBefore X C s scheme r body (t + 1)) ∧
      Djbod.usable X C s scheme r body t i = false then 1 else 0) :
    (∃ i ∈ entries.map Reconstruction.shardIndex, i < scheme.dataShards) ↔
      0 < stripeCount scheme r body ∧ dataClosed C s scheme r = true := by
  rw [dataClosed, List.any_eq_true]
  constructor
  · rintro ⟨i, hi, hlt⟩
    obtain ⟨e, he, rfl⟩ := List.mem_map.mp hi
    have hcount : 0 < covered entries e.shardIndex e.firstStripe :=
      List.countP_pos_iff.mpr ⟨e, he, by simp [Reconstruction.covers, hpos e he]⟩
    rw [hcovered] at hcount
    split_ifs at hcount with hno
    · rw [h.usable hlib hno.1] at hno
      exact ⟨Nat.zero_lt_of_lt hno.1, _, List.mem_range.mpr hlt, by simpa using hno.2.2⟩
    · cases hcount
  · rintro ⟨hstripes, i, hi, hnone⟩
    have hopen : i ∈ openIndices scheme (parityBefore X C s scheme r body (0 + 1)) := by
      cases parityBefore X C s scheme r body (0 + 1) with
      | true => exact List.mem_append_left _ hi
      | false => exact hi
    have hcount := hcovered i 0
    rw [if_pos ⟨hstripes, hopen, by rw [h.usable hlib hstripes]; simpa using hnone⟩] at hcount
    obtain ⟨e, he, hcovers⟩ := List.countP_pos_iff.mp (hcount.trans_gt Nat.one_pos)
    have heq : e.shardIndex = i := by
      simp only [Reconstruction.covers, Bool.and_eq_true, beq_iff_eq] at hcovers
      exact hcovers.1.1
    exact ⟨i, List.mem_map.mpr ⟨e, he, heq⟩, List.mem_range.mp hi⟩

end AllWhole

theorem Tidy.allWhole (h : Tidy X C key s down versions) (ho : versions v = some o) :
    AllWhole X C (s.behind C down) o.scheme o.record o.body := by
  intro i file hfile
  obtain ⟨d, entry, hdev, _, _, _, hget⟩ := shardAt_behind hfile
  rw [o.describes.keyHash_eq, h.numbered v o ho] at hget
  obtain ⟨file', hcontent, hshard⟩ := h.whole v o ho ⟨i, d⟩ (MetadataRecord.exists_shard hdev) _ hget
  cases hcontent
  exact hshard

theorem nodesDown_shows (X : Crates) (C : Cluster) (s : Store) (down : NodeId → Bool) (r : MetadataRecord) :
    Shows (execOut (nodesDown down)) ⟨s, none⟩ X C (s.behind C down) r fun _ _ => True := by
  have hshows := execOut_shows X C s r (nodesDown down)
  exact ⟨hshows.opened, hshows.short, hshows.closed, fun source hnext hstop _ =>
    hshows.block source hnext hstop ⟨rfl, rfl⟩, fun _ _ _ hno => absurd trivial hno, hshows.ended⟩

/-- The answer to a read: it ended well, it was refused, or it ended well and had to rebuild data. -/
def Succeeds (answer : Except ErrorDetail GetAnswer) : Prop := ∃ found done, answer = .ok found ∧ found.ended = .ok done

def Refused (answer : Except ErrorDetail GetAnswer) : Prop := ∃ e, answer = .error e

def Rebuilds (k : ℕ) (answer : Except ErrorDetail GetAnswer) : Prop :=
  ∃ found done, answer = .ok found ∧ found.ended = .ok done ∧
    ∃ i ∈ done.reconstructed.map Reconstruction.shardIndex, i < k

theorem Succeeds.not_refused (h : Succeeds answer) : ¬ Refused answer := by
  rintro ⟨e, he⟩
  obtain ⟨found, done, hok, _⟩ := h
  cases he.symm.trans hok

/-- **A read of the newest version within reach** succeeds when it has what it needs and is refused otherwise; it
rebuilds data when the object is not empty and a data shard cannot be opened. -/
theorem Tidy.get (h : Tidy X C key s down versions) (ho : versions v = some o) (hn : NewestInReach X C key s down v)
    (hfuel : copyCount C (X.hashKey key) s < fuel)
    (hanswer : ((getObject X C fuel key).run.eval (execOut (nodesDown down)) ⟨s, none⟩).1 = answer) :
    (Gettable C s down key o → Succeeds answer ∧ (Rebuilds o.scheme.dataShards answer ↔
      o.body ≠ [] ∧ dataClosed C (s.behind C down) o.scheme o.record = true)) ∧
    (¬ Gettable C s down key o → Refused answer) := by
  subst hanswer
  have hd := o.describes
  cases hkey : checkKey C key with
  | error e =>
    refine ⟨fun hget => ?_, fun _ => ⟨e, ?_⟩⟩
    · cases hkey.symm.trans hget.1
    · have hnew : (newestReadableVersion X C fuel key).run.eval (execOut (nodesDown down))
        ⟨s, none⟩ = (.error e, ⟨s, none⟩) := by
        unfold newestReadableVersion
        rw [hkey]
        rfl
      exact congrArg Prod.fst (Prog.eval_try_error hnew)
  | ok =>
    obtain ⟨found, hfound, heval⟩ := newestReadableVersion_sees (X := X) (execOut_sees (nodesDown down) s)
      h.undamaged hkey hfuel
    obtain ⟨rest, hversions⟩ := hn.versions_eq h.undamaged hfound.copies
    have hrecord : ((versions v).getD o).record = o.record := by rw [ho]; rfl
    have hlen := h.copies_length ho hfound.copies
    by_cases hk : o.scheme.dataShards ≤ copiesInReach C s down o.record
    · obtain ⟨missing, hok⟩ := newestReadable_genuine (X := X) (C := C) found (h.genuine o hfound.copies) hversions
        (by rw [hlen, hrecord, hd.k_eq.1]; exact hk)
      rw [hok, hrecord] at heval
      have hwhole := h.allWhole ho
      have hshows := nodesDown_shows X C s down o.record
      constructor
      · rintro ⟨_, _, henough⟩
        obtain ⟨got, hgot, _, hended, _, hreport⟩ := getObject_delivers hd o.lawful hshows hwhole.detected heval
          (fun t ht => hwhole.enough o.lawful hd henough ht) fun t _ i _ file hfile =>
          ⟨(hwhole i file hfile).count.ge, trivial⟩
        obtain ⟨done, hdone⟩ : ∃ done, got.ended = .ok done := by
          cases hcase : got.ended with
          | ok done => exact ⟨done, rfl⟩
          | error e => rw [hcase] at hended; cases hended
        obtain ⟨hcovered, hpos⟩ := hreport done hdone
        have hrebuilds := hwhole.rebuilds o.lawful hpos hcovered
        have hstripes : 0 < stripeCount o.scheme o.record o.body ↔ o.body ≠ [] :=
          ⟨fun hlt hnil => hlt.ne' (hd.stripeCount_nil hnil), hd.stripeCount_pos⟩
        rw [hgot, ← hstripes, ← hrebuilds]
        refine ⟨⟨got, done, rfl, hdone⟩, fun hre => ?_, fun hex => ⟨got, done, rfl, hdone, hex⟩⟩
        obtain ⟨got', done', hgot', hdone', hex⟩ := hre
        cases hgot'
        cases hdone.symm.trans hdone'
        exact hex
      · intro hno
        have hfew : ¬ (o.body = [] ∨ unopenable C (s.behind C down) o.scheme o.record ≤ o.scheme.parityShards) :=
          fun henough => hno ⟨hkey, hk, henough⟩
        push Not at hfew
        rcases getObject_shows hd o.lawful hshows heval hwhole.detected with ⟨_, _, _, _, hle⟩ | ⟨e, he, _⟩
        · exact absurd (hle hfew.1) (Nat.not_le.mpr hfew.2)
        · exact ⟨e, by rw [he]⟩
    · refine ⟨fun hget => absurd hget.2.1 hk, fun _ => ?_⟩
      obtain ⟨e, he⟩ := newestReadable_tooFew (X := X) (C := C) found (h.genuine o hfound.copies) hversions
        (by rw [hlen, hrecord, hd.k_eq.1]; exact Nat.lt_of_not_le hk)
      rw [he] at heval
      exact ⟨e, congrArg Prod.fst (Prog.eval_try_error heval)⟩

end Read

/-! ## The two compared -/

section Compare

variable {X : Crates} {C : Cluster} {key : String} {s : Store} {down : NodeId → Bool}
  {versions : VersionId → Option (VersionOf X key)} {v : VersionId} {o : VersionOf X key}

def ClassedAs (inventory : Inventory) (key : String) (version : VersionId) (state : ObjectState) : Prop :=
  ∃ c ∈ inventory.versions, c.record.key = key ∧ c.record.version = version ∧ c.state = state

/-- What an inventory says of a version agrees with what a read of the key does. -/
structure StatesAgree (inventory : Inventory) (answer : Except ErrorDetail GetAnswer) (key : String)
    (version : VersionId) (k : ℕ) : Prop where
  readable : ClassedAs inventory key version .whole ∨ ClassedAs inventory key version .degradedParity ∨
    ClassedAs inventory key version .degradedData ↔ Succeeds answer
  unreadable : ClassedAs inventory key version .unreadable ↔ Refused answer
  rebuilt : ClassedAs inventory key version .degradedData ↔ Succeeds answer ∧ Rebuilds k answer

/-- How many of the version's shards an inventory finds. -/
def stock (C : Cluster) (s : Store) (down : NodeId → Bool) (r : MetadataRecord) : ℕ :=
  r.shards.countP (inStockShard C s down r)

/-- An inventory sees of the version what a read does: its record; the shards that are enough for a read; and, of an
object that is read without rebuilding, all data shards. -/
structure InView (C : Cluster) (s : Store) (down : NodeId → Bool) (key : String) (o : VersionOf X key) : Prop where
  seen : ∃ d ∈ o.record.shards.map ShardLocation.device, inStock C s down d = true
  limit : o.scheme.dataShards ≤ stock C s down o.record → checkKey C key = .ok ()
  enough : Gettable C s down key o → o.scheme.dataShards ≤ stock C s down o.record
  data : Gettable C s down key o → (o.body = [] ∨ dataClosed C (s.behind C down) o.scheme o.record = false) →
    ∀ shard ∈ o.record.shards, shard.index < o.scheme.dataShards → inStockShard C s down o.record shard = true

variable {out : List ℕ}

theorem objectState_unreadable : objectState r out = .unreadable ↔ r.m < out.length := by
  unfold objectState
  split_ifs with hnil hmany hdata
  · simp [List.isEmpty_iff.mp hnil]
  · simpa using hmany
  · simpa using hmany
  · simpa using hmany

theorem objectState_degradedData : objectState r out = .degradedData ↔ out.length ≤ r.m ∧ ∃ i ∈ out, i < r.k := by
  unfold objectState
  split_ifs with hnil hmany hdata
  · simp [List.isEmpty_iff.mp hnil]
  · simp [Nat.not_le.mpr hmany]
  · simpa [Nat.not_lt.mp hmany] using hdata
  · simpa [Nat.not_lt.mp hmany] using hdata

theorem objectState_readable :
    objectState r out = .whole ∨ objectState r out = .degradedParity ∨ objectState r out = .degradedData ↔
    out.length ≤ r.m := by
  unfold objectState
  split_ifs with hnil hmany hdata
  · simp [List.isEmpty_iff.mp hnil]
  · simp [Nat.not_le.mpr hmany]
  · simp [Nat.not_lt.mp hmany]
  · simp [Nat.not_lt.mp hmany]

theorem outOfStock_length (hd : Describes X key o.record o.scheme o.body) :
    stock C s down o.record + (outOfStock C s down o.record).length = o.scheme.dataShards + o.scheme.parityShards := by
  have h := List.length_eq_countP_add_countP (inStockShard C s down o.record) (l := o.record.shards)
  rw [hd.scheme_facts.1, Scheme.totalShards] at h
  rw [h, stock, outOfStock, List.length_map, ← List.countP_eq_length_filter]
  congr 1
  exact List.countP_congr fun shard _ => by simp

variable {shard : ShardLocation}

theorem Describes.shardOn_shard {scheme : Scheme} {body : Bytes} (h : Describes X key r scheme body)
    (hs : shard ∈ r.shards) : r.shardOn shard.device = some shard.index := by
  rw [MetadataRecord.shardOn, Option.map_eq_some_iff]
  refine ⟨shard, ?_, rfl⟩
  cases hf : r.shards.find? fun sh => sh.device == shard.device with
  | none => simpa using List.find?_eq_none.mp hf shard hs
  | some found =>
    have hdev : found.device = shard.device := by simpa using List.find?_some hf
    rw [List.inj_on_of_nodup_map h.valid.devices (List.mem_of_find?_eq_some hf) hs hdev]

theorem Tidy.opens (h : Tidy X C key s down versions) (ho : versions v = some o) (hs : shard ∈ o.record.shards)
    (hin : inStockShard C s down o.record shard = true) :
    (shard.device ∈ reached C down ∧ (s.disk shard.device).isSome) ∧
      (shardAt C o.record (s.behind C down) shard.index).isSome := by
  obtain ⟨hstock, hhere⟩ := Bool.and_eq_true_iff.mp hin
  refine ⟨inStock_inReach hstock, ?_⟩
  obtain ⟨e, he, ⟨hup, hopened, _⟩, hid⟩ := inStock_iff.mp hstock
  have hentry : C.document.device shard.device = some e := hid ▸ Cluster.device_of_mem (List.mem_filter.mp he).1
  have hbehind : (s.behind C down).disk shard.device = s.disk shard.device := by
    have hup' : ¬ down e.node = true := by rw [show down e.node = false from hup]; exact Bool.false_ne_true
    simp only [Store.behind, hentry, Option.any_some, if_neg hup']
  have hsome : (s.getShard shard.device o.record.keyHash o.record.version shard.index).isSome := by
    rw [Store.shardHere, o.describes.shardOn_shard hs, Option.any_some, decide_eq_true_eq,
      Store.mem_shardIndices] at hhere
    exact hhere
  obtain ⟨content, hcontent⟩ := Option.isSome_iff_exists.mp hsome
  have hget := hcontent
  rw [o.describes.keyHash_eq, h.numbered v o ho] at hget
  obtain ⟨file, rfl, _⟩ := h.whole v o ho shard hs content hget
  have hget' : (s.behind C down).getShard shard.device o.record.keyHash o.record.version shard.index =
      some (.ok file) := by
    rw [← hcontent, Store.getShard, Store.getShard, hbehind]
  unfold shardAt
  rw [o.describes.deviceFor_shard hs, Option.bind_some, hentry, Option.bind_some, if_pos (hid ▸ hopened), hget']
  rfl

theorem Tidy.gettable (h : Tidy X C key s down versions) (ho : versions v = some o) (hkey : checkKey C key = .ok ())
    (hk : o.scheme.dataShards ≤ stock C s down o.record) : Gettable C s down key o := by
  refine ⟨hkey, hk.trans (List.countP_mono_left fun shard hs hin => ?_), .inr ?_⟩
  · obtain ⟨⟨hreach, hdisk⟩, _⟩ := h.opens ho hs hin
    rw [decide_eq_true hreach, Bool.true_and]
    exact hdisk
  · have hopen : stock C s down o.record ≤ o.scheme.shardIndices.countP fun i =>
      (shardAt C o.record (s.behind C down) i).isSome := by
      rw [o.describes.countP_indices]
      exact List.countP_mono_left fun shard hs hin => (h.opens ho hs hin).2
    have hadd := unopenable_add C (s.behind C down) o.scheme o.record
    omega

theorem Tidy.listed (h : Tidy X C key s down versions) (ho : versions v = some o)
    (hseen : ∃ d ∈ o.record.shards.map ShardLocation.device, inStock C s down d = true) {inventory : Inventory}
    (hcounted : ∀ copy, Counted inventory.versions copy ↔ Stocked C s (nodesDown down) copy)
    (hfrom : ∀ c ∈ inventory.versions, ClassifiedFrom X unread known s (Stocked C s (nodesDown down)) c) :
    ∃ c ∈ inventory.versions, c.record.key = key ∧ c.record.version = v := by
  obtain ⟨d, hd, hin⟩ := hseen
  obtain ⟨shard, hs, rfl⟩ := List.mem_map.mp hd
  obtain ⟨e, he, hstock, hid⟩ := inStock_iff.mp hin
  obtain ⟨hreach, hdisk⟩ := inStock_inReach hin
  have hkh : o.record.keyHash = X.hashKey key := o.describes.keyHash_eq
  have hv : o.record.version = v := h.numbered v o ho
  have hget := h.copied v o ho shard hs hreach hdisk
  obtain ⟨c, hc, hmem⟩ := (hcounted ⟨shard.device, o.record⟩).mpr
    ⟨e, he, hstock, hid, mem_allRecords.mpr (by rw [hkh, hv]; exact hget)⟩
  obtain ⟨place, group, first, rest, rfl, _, hgroup, _⟩ := hfrom c hc
  refine ⟨_, hc, ?_⟩
  rw [classifyGroup_group] at hmem
  -- All copies of the group are of the version.
  obtain ⟨c₀, hc₀, hrec₀⟩ := classifyGroup_record (X := X) group unread known first rest
  have hfiling : c₀.record.filing = o.record.filing := ((hgroup c₀).mp hc₀).2.trans ((hgroup _).mp hmem).2.symm
  obtain ⟨⟨e', he', hstock', hid', hall⟩, _⟩ := (hgroup c₀).mp hc₀
  rw [MetadataRecord.filing, MetadataRecord.filing, toLex_inj, Prod.mk.injEq, hkh, hv] at hfiling
  have hget₀ := mem_allRecords.mp hall
  rw [hfiling.1, hfiling.2] at hget₀
  obtain ⟨o', ho', hfile, _⟩ := h.only _ (hid' ▸ InStock.inReach he' hstock') _ _ hget₀
  cases ho.symm.trans ho'
  rw [← hrec₀, Except.ok.inj hfile]
  exact ⟨o.describes.key_eq, hv⟩

theorem Tidy.decided {fuel : ℕ} (h : Tidy X C key s down versions) (hfuel : copyCount C (X.hashKey key) s < fuel)
    (hanswer : ((getObject X C fuel key).run.eval (execOut (nodesDown down)) ⟨s, none⟩).1 = answer) :
    Succeeds answer ∨ Refused answer := by
  obtain ⟨found, hlook, hfound⟩ := lookupReachable_sees (X := X) (execOut_sees (nodesDown down) s) h.undamaged hfuel
  by_cases hnil : found.records = []
  · right
    cases hkey : checkKey C key with
    | error e =>
      have hnew : (newestReadableVersion X C fuel key).run.eval (execOut (nodesDown down))
          ⟨s, none⟩ = (.error e, ⟨s, none⟩) := by
        unfold newestReadableVersion
        rw [hkey]
        rfl
      exact ⟨e, by rw [← hanswer]; exact congrArg Prod.fst (Prog.eval_try_error hnew)⟩
    | ok =>
      obtain ⟨e, he⟩ := newestReadable_none X C key found hnil
      have hnew : (newestReadableVersion X C fuel key).run.eval (execOut (nodesDown down))
          ⟨s, none⟩ = (.error e, ⟨s, none⟩) := by
        unfold newestReadableVersion
        rw [hkey]
        dsimp only
        rw [Prog.eval_try_ok hlook, he]
        rfl
      exact ⟨e, by rw [← hanswer]; exact congrArg Prod.fst (Prog.eval_try_error hnew)⟩
  · obtain ⟨w, rest, hw⟩ := List.exists_cons_of_ne_nil (mt versionsDescending_eq_nil.mp hnil)
    obtain ⟨c, hc, rfl⟩ := mem_versionsDescending.mp (hw ▸ List.mem_cons_self : w ∈ versionsDescending found.records)
    obtain ⟨hreach, hget⟩ := (hfound.copies.mem c).mp hc
    obtain ⟨o', ho', _⟩ := h.only _ hreach _ _ hget
    have hn : NewestInReach X C key s down c.record.version := by
      refine ⟨⟨c.device, hreach, by rw [hget]; rfl⟩, fun d hd v' file hfile => ?_⟩
      obtain ⟨o'', ho'', rfl, _⟩ := h.only d hd v' file hfile
      have hv : o''.record.version = v' := h.numbered v' o'' ho''
      rw [← hv] at hfile ⊢
      exact le_of_versionsDescending hw ((hfound.copies.mem ⟨d, o''.record⟩).mpr ⟨hd, hfile⟩)
    obtain ⟨hyes, hno⟩ := h.get ho' hn hfuel hanswer
    by_cases hget : Gettable C s down key o'
    · exact .inl (hyes hget).1
    · exact .inr (hno hget)

/-- **Inventory states agree with reads** of the newest version exactly when an inventory sees what a read does. -/
theorem inventory_agrees {recordSize : MetadataRecord → ℕ} (h : Tidy X C key s down versions) (ho : versions v = some o)
    (hnewest : ∀ v' o', versions v' = some o' → v' ≤ v) {fuel fuel' : ℕ} (hfuel : recordCount C s < fuel)
    (hfuel' : copyCount C (X.hashKey key) s < fuel') :
    StatesAgree ((inventoryMerge X C recordSize fuel).eval (execOut (nodesDown down)) ⟨s, none⟩).1
        ((getObject X C fuel' key).run.eval (execOut (nodesDown down)) ⟨s, none⟩).1 key v o.scheme.dataShards ↔
      InView C s down key o := by
  obtain ⟨inventory, unread, known, heval, hcounted, _, _, hunread, hknown, hfrom⟩ :=
    @inventoryMerge_groups X C recordSize s (nodesDown down) fuel hfuel
  rw [heval]
  generalize hanswer : ((getObject X C fuel' key).run.eval (execOut (nodesDown down)) ⟨s, none⟩).1 = answer
  by_cases hseen : ∃ d ∈ o.record.shards.map ShardLocation.device, inStock C s down d = true
  · -- The version is listed, in the state of the shards found.
    have hclassed : ∀ state, ClassedAs inventory key v state ↔
        objectState o.record (outOfStock C s down o.record) = state := by
      intro state
      constructor
      · rintro ⟨c, hc, hkey, hversion, rfl⟩
        exact (h.classified ho hunread hknown (hfrom c hc) hkey hversion).1.symm
      · rintro rfl
        obtain ⟨c, hc, hkey, hversion⟩ := h.listed ho hseen hcounted hfrom
        exact ⟨c, hc, hkey, hversion, (h.classified ho hunread hknown (hfrom c hc) hkey hversion).1⟩
    have hn : NewestInReach X C key s down v := by
      obtain ⟨d, hd, hin⟩ := hseen
      obtain ⟨shard, hs, rfl⟩ := List.mem_map.mp hd
      obtain ⟨hreach, hdisk⟩ := inStock_inReach hin
      refine ⟨⟨_, hreach, by rw [h.copied v o ho shard hs hreach hdisk]; rfl⟩, fun d hd v' file hfile => ?_⟩
      obtain ⟨o', ho', _⟩ := h.only d hd v' file hfile
      exact hnewest v' o' ho'
    obtain ⟨hyes, hno⟩ := h.get ho hn hfuel' hanswer
    have hlen : stock C s down o.record + (outOfStock C s down o.record).length = o.scheme.dataShards +
        o.scheme.parityShards :=
      outOfStock_length o.describes
    have hm := o.describes.k_eq.2
    have hstock : (outOfStock C s down o.record).length ≤ o.record.m ↔
      o.scheme.dataShards ≤ stock C s down o.record := by omega
    have hreadable : (ClassedAs inventory key v .whole ∨ ClassedAs inventory key v .degradedParity ∨
        ClassedAs inventory key v .degradedData) ↔ o.scheme.dataShards ≤ stock C s down o.record := by
      rw [hclassed, hclassed, hclassed, objectState_readable, hstock]
    have hunreadable : ClassedAs inventory key v .unreadable ↔ ¬ o.scheme.dataShards ≤ stock C s down o.record := by
      rw [hclassed, objectState_unreadable, ← hstock, Nat.not_le]
    have hdegraded : ClassedAs inventory key v .degradedData ↔ o.scheme.dataShards ≤ stock C s down o.record ∧
        ∃ shard ∈ o.record.shards, shard.index < o.scheme.dataShards ∧
        inStockShard C s down o.record shard = false := by
      rw [hclassed, objectState_degradedData, hstock, o.describes.k_eq.1]
      refine and_congr_right fun _ => ?_
      simp only [outOfStock, List.mem_map, List.mem_filter, Bool.not_eq_true']
      constructor
      · rintro ⟨_, ⟨shard, ⟨hs, hout⟩, rfl⟩, hlt⟩
        exact ⟨shard, hs, hlt, hout⟩
      · rintro ⟨shard, hs, hlt, hout⟩
        exact ⟨_, ⟨shard, ⟨hs, hout⟩, rfl⟩, hlt⟩
    have hsucceeds : Succeeds answer ↔ Gettable C s down key o := by
      constructor
      · intro hs
        by_contra hget
        exact hs.not_refused (hno hget)
      · exact fun hget => (hyes hget).1
    have hrefused : Refused answer ↔ ¬ Gettable C s down key o :=
      ⟨fun hr hget => (hyes hget).1.not_refused hr, hno⟩
    constructor
    · intro hagree
      have hsame : o.scheme.dataShards ≤ stock C s down o.record ↔ Gettable C s down key o := by
        rw [← hreadable, hagree.readable, hsucceeds]
      refine ⟨hseen, fun hk => (hsame.mp hk).1, hsame.mpr, fun hget hwhole shard hs hlt => ?_⟩
      by_contra hout
      have hclass := hdegraded.mpr ⟨hsame.mpr hget, shard, hs, hlt, Bool.eq_false_iff.mpr hout⟩
      obtain ⟨hbody, hclosed⟩ := (hyes hget).2.mp (hagree.rebuilt.mp hclass).2
      rcases hwhole with hnil | hopen
      · exact hbody hnil
      · rw [hopen] at hclosed
        cases hclosed
    · intro hview
      have hsame : o.scheme.dataShards ≤ stock C s down o.record ↔ Gettable C s down key o :=
        ⟨fun hk => h.gettable ho (hview.limit hk) hk, hview.enough⟩
      refine ⟨by rw [hreadable, hsame, hsucceeds], by rw [hunreadable, hsame, hrefused], ?_⟩
      rw [hdegraded, hsucceeds, hsame]
      refine and_congr_right fun hget => ?_
      rw [(hyes hget).2]
      constructor
      · rintro ⟨shard, hs, hlt, hout⟩
        by_contra hno
        have hwhole : o.body = [] ∨ dataClosed C (s.behind C down) o.scheme o.record = false := by
          by_cases hbody : o.body = []
          · exact .inl hbody
          · exact .inr (Bool.eq_false_iff.mpr fun hclosed => hno ⟨hbody, hclosed⟩)
        rw [hview.data hget hwhole shard hs hlt] at hout
        cases hout
      · rintro ⟨_, hclosed⟩
        obtain ⟨i, hi, hnone⟩ := List.any_eq_true.mp hclosed
        have hlt : i < o.scheme.dataShards := List.mem_range.mp hi
        obtain ⟨shard, hs, rfl⟩ := List.mem_map.mp (o.describes.scheme_facts.2.2 i
          (hlt.trans_le o.scheme.data_le_total))
        refine ⟨shard, hs, hlt, Bool.eq_false_iff.mpr fun hin => ?_⟩
        rw [Option.isNone_iff_eq_none] at hnone
        have hopen := (h.opens ho hs hin).2
        rw [hnone] at hopen
        cases hopen
  · -- The version is not listed at all, whatever the read does.
    refine iff_of_false (fun hagree => ?_) fun hview => hseen hview.seen
    have hnone : ∀ state, ¬ ClassedAs inventory key v state := by
      rintro state ⟨c, hc, hkey, hversion, _⟩
      exact hseen (h.classified ho hunread hknown (hfrom c hc) hkey hversion).2
    rcases h.decided hfuel' hanswer with hyes | hno
    · rcases hagree.readable.mpr hyes with hc | hc | hc
      · exact hnone _ hc
      · exact hnone _ hc
      · exact hnone _ hc
    · exact hnone _ (hagree.unreadable.mpr hno)

end Compare

/-! ## Two devices -/

theorem tidy_of_pair {o : VersionOf smallCrates "k"} {s : Store} (hv : o.record.version = 1)
    (hshards : o.record.shards.map ShardLocation.device = [0, 1])
    (hcopies : ∀ d kh v file, s.getRecord d kh v = some file → file = .ok o.record ∧
    kh = smallCrates.hashKey "k" ∧ v = 1) (hheld : ∀ d ∈ [0, 1], s.getRecord d (smallCrates.hashKey "k")
    1 = some (.ok o.record)) (hwhole : ∀ shard ∈ o.record.shards, ∀ content, s.getShard shard.device
    (smallCrates.hashKey "k") 1 shard.index = some content →
      ∃ file, content = .ok file ∧ IsShard smallCrates o.scheme o.record o.body shard.index file) :
    Tidy smallCrates twoDevices "k" s (fun _ => false) fun v => if v = 1 then some o else none where
  numbered v o' ho := by
    split_ifs at ho with h
    cases ho
    rw [hv, h]
  only d hd v file hget := by
    obtain ⟨rfl, _, rfl⟩ := hcopies d _ v file hget
    have hreach : reached twoDevices (fun _ => false) = [0, 1] := by decide +kernel
    exact ⟨o, if_pos rfl, rfl, hshards ▸ hreach ▸ hd⟩
  copied v o' ho shard hs _ _ := by
    split_ifs at ho with h
    cases ho
    subst h
    exact hheld _ (hshards ▸ List.mem_map_of_mem hs)
  whole v o' ho shard hs content hget := by
    split_ifs at ho with h
    cases ho
    subst h
    exact hwhole shard hs content hget
  named d _ kh v r hget := by
    cases (hcopies d kh v _ hget).1
    rw [o.describes.keyHash_eq, o.describes.key_eq]

def heldByBoth (r : MetadataRecord) : Store := holding [⟨0, r⟩, ⟨1, r⟩]

theorem heldByBoth_copies {shards : List (DeviceId × ShardFile)} {kh : KeyHash} {file : RecordFile}
    (h : ((heldByBoth r).withShards shards).getRecord d kh v = some file) : file = .ok r ∧ kh = r.keyHash ∧
    v = r.version := by
  rw [withShards_getRecord] at h
  obtain ⟨c, hc, _, rfl⟩ := holding_getRecord h
  have hr : c.record = r := by
    rcases List.mem_cons.mp hc with rfl | hc
    · rfl
    · rw [List.mem_singleton.mp hc]
  rw [hr] at h ⊢
  obtain ⟨hkh, hv⟩ := Store.getRecord_filed h
  exact ⟨rfl, hkh.symm, hv.symm⟩

def byteVersion : VersionOf smallCrates "k" :=
  ⟨byteRecord 1 0 [0, 1], pair, [7], byte_describes 1 0 (by decide), fun _ => mirror_recovers 1⟩

theorem byteStore_tidy : Tidy smallCrates twoDevices "k" (byteStore [1]) (fun _ => false)
    fun v => if v = 1 then some byteVersion else none := by
  refine tidy_of_pair rfl rfl (fun d kh v file h => heldByBoth_copies h)
    (by decide +kernel) fun shard hs content hget => ?_
  have hfiles : ∀ shard ∈ (byteRecord 1 0 [0, 1]).shards, (byteStore [1]).getShard shard.device
    (smallCrates.hashKey "k") 1 shard.index =
      if shard.index = 1 then some (.ok (byteShard 1 1)) else none := by decide +kernel
  rw [hfiles shard hs] at hget
  split_ifs at hget with hi
  cases hget
  rw [hi]
  have hn : stripeCount pair (byteRecord 1 0 [0, 1]) [7] = 1 := by decide +kernel
  refine ⟨_, rfl, hn.symm, fun t ht => ⟨[7], ?_⟩⟩
  obtain rfl : t = 0 := Nat.lt_one_iff.mp (hn ▸ ht)
  decide +kernel

/-- The data shard's file is missing: the inventory says so, and a read rebuilds the data. -/
theorem inventory_agrees_replica : InView twoDevices (byteStore [1]) (fun _ => false) "k" byteVersion ∧
    StatesAgree ((inventoryMerge smallCrates twoDevices (fun _ => 1) 9).eval (execOut (nodesDown fun _ => false))
    ⟨byteStore [1], none⟩).1
      ((getObject smallCrates twoDevices 9 "k").run.eval (execOut (nodesDown fun _ => false))
      ⟨byteStore [1], none⟩).1 "k" 1 1 := by
  have hview : InView twoDevices (byteStore [1]) (fun _ => false) "k" byteVersion := by
    refine ⟨by decide +kernel, fun _ => by decide +kernel, fun _ => by decide +kernel, fun _ hwhole => ?_⟩
    exact absurd hwhole (by decide +kernel)
  refine ⟨hview, (inventory_agrees byteStore_tidy (if_pos rfl) (fun v' o' ho => ?_) (by decide +kernel)
    (by decide +kernel)).mpr hview⟩
  split_ifs at ho with h
  exact h.le

def emptyVersion : VersionOf smallCrates "k" where
  record := smallRecord 1 0 [0, 1]
  scheme := pair
  body := []
  describes := ⟨MetadataRecord.validate_eq_ok.mp (by decide), rfl, rfl, rfl, rfl⟩
  lawful _ := mirror_recovers 1

theorem emptyVersion_tidy : Tidy smallCrates twoDevices "k" (heldByBoth emptyVersion.record) (fun _ => false)
    fun v => if v = 1 then some emptyVersion else none := by
  refine tidy_of_pair rfl rfl (fun d kh v file h => ?_) (by decide +kernel) fun shard hs content hget => ?_
  · rw [← withShards_getRecord _ []] at h
    exact heldByBoth_copies h
  · have hnone : ∀ shard ∈ (smallRecord 1 0 [0, 1]).shards,
        (heldByBoth (smallRecord 1 0 [0, 1])).getShard shard.device (smallCrates.hashKey "k") 1 shard.index = none := by
          decide +kernel
    cases (hnone shard hs).symm.trans hget

/-- An empty object has no shard files, and a read needs none: the inventory calls it unreadable, and it is read. -/
theorem empty_object_unreadable :
    Tidy smallCrates twoDevices "k" (heldByBoth emptyVersion.record) (fun _ => false)
    (fun v => if v = 1 then some emptyVersion else none) ∧
    ¬ StatesAgree ((inventoryMerge smallCrates twoDevices (fun _ => 1) 9).eval (execOut (nodesDown fun _ => false))
        ⟨heldByBoth emptyVersion.record, none⟩).1
      ((getObject smallCrates twoDevices 9 "k").run.eval (execOut (nodesDown fun _ => false))
      ⟨heldByBoth emptyVersion.record, none⟩).1 "k" 1 1 := by
  refine ⟨emptyVersion_tidy, fun h => ?_⟩
  have hlisted : ∃ c ∈ ((inventoryMerge smallCrates twoDevices (fun _ => 1) 9).eval (execOut (nodesDown fun _ => false))
      ⟨heldByBoth emptyVersion.record, none⟩).1.versions, c.record.key = "k" ∧ c.record.version = 1 ∧
      c.state = .unreadable := by
    decide +kernel
  obtain ⟨e, he⟩ := h.unreadable.mp hlisted
  have hread : ((getObject smallCrates twoDevices 9 "k").run.eval (execOut (nodesDown fun _ => false))
      ⟨heldByBoth emptyVersion.record, none⟩).1.isOk = true := by decide +kernel
  rw [he] at hread
  cases hread

end Djbod
