import Djbod.Node.PutTrace

/-!
# The smallest clusters

One node, whose devices hold a replica each: `1 + m` shards, every parity block a copy of the data block.

* `small`, `small_whole`, `small_codes` : such clusters are whole and their code keeps its promise;
* `emptyStore` : devices with nothing on them;
* `byteRecord`, `byteShard` : an object of one byte.
-/

namespace Djbod

/-- Crates for replicas; no two things are told apart by a hash. -/
def smallCrates : Crates where
  xxh3 _ := 0
  reedSolomon _ m := mirror m
  hashKey _ := 0
  encodedLen _ := 1
  showUuid _ := ""
  debugString text := text

/-- One node with devices `0`, `1` and so on, in these states. -/
def smallDocument (m : ℕ) (states : List DeviceState) : ClusterDocument where
  version := 1
  clusterId := 1
  name := none
  k := 1
  m := m
  blockSize := 65536
  independenceLevel := .device
  headroom := 0
  maxKeyBytes := 1024
  maxObjectBytes := 1048576
  maxUserMetadataBytes := 1024
  transport := .plain
  nodes := [⟨0, ["127.0.0.1:9000"], none, .active⟩]
  devices := states.mapIdx fun d state => ⟨d, 0, state, none⟩

theorem smallDocument_ids (m : ℕ) (states : List DeviceState) :
    (smallDocument m states).devices.map DeviceEntry.id = List.range states.length :=
  mapIdx_map_index (fun _ _ => rfl) states

/-- The node has opened all its devices, whatever their state. -/
def small (m : ℕ) (states : List DeviceState) : Cluster where
  document := smallDocument m states
  opened n := if n = 0 then List.range states.length else []
  blockSize_aligned := ⟨by simp [smallDocument], by simp [smallDocument]⟩
  devices_nodup := smallDocument_ids m states ▸ List.nodup_range
  owner_listed e he := by
    obtain ⟨_, _, rfl⟩ := List.mem_mapIdx.mp he
    rfl
  opened_listed n d hd := by
    have hid : d ∈ (smallDocument m states).devices.map DeviceEntry.id := by
      rw [smallDocument_ids]
      split_ifs at hd
      · exact hd
      · cases hd
    obtain ⟨e, he, rfl⟩ := List.mem_map.mp hid
    rw [ClusterDocument.device, List.find?_isSome]
    exact ⟨e, he, by simp⟩
  opened_nodup := by simp [ClusterDocument.activeNodes, smallDocument, List.nodup_range]

theorem small_attached (m : ℕ) (states : List DeviceState) : (small m states).attached = List.range states.length := by
  simp [Cluster.attached, ClusterDocument.activeNodes, small, smallDocument]

theorem small_whole (m : ℕ) (states : List DeviceState) : (small m states).Whole := by
  intro e he _
  have hid : e.id ∈ List.range states.length := smallDocument_ids m states ▸ List.mem_map_of_mem he
  obtain ⟨_, _, rfl⟩ := List.mem_mapIdx.mp he
  exact ⟨hid, _, List.mem_singleton_self _, rfl⟩

theorem small_codes (m : ℕ) (states : List DeviceState) : Codes smallCrates (small m states) := by
  intro scheme hs _
  obtain ⟨hk, hm⟩ := Scheme.new_eq_ok hs
  rw [hk, hm]
  exact mirror_recovers m

def emptyDisk : Disk := ⟨∅, ∅, fun _ _ h => by cases h⟩

def emptyStore : Store := ⟨fun _ => some emptyDisk, fun _ => ⟨1048576, 1048576⟩⟩

/-- The record of an empty object, with a replica on each of the devices. -/
def smallRecord (version : VersionId) (revision : ℕ) (devices : List DeviceId) : MetadataRecord where
  formatVersion := recordFormatVersion
  system := systemName
  bucket := defaultBucket
  key := "k"
  keyHash := smallCrates.hashKey "k"
  version := version
  created := 0
  size := 0
  objectChecksum := smallCrates.xxh3 []
  k := 1
  m := devices.length - 1
  blockSize := 65536
  shards := devices.mapIdx fun i d => ⟨i, d⟩
  revision := revision
  contentType := none
  userMetadata := []

def holding (copies : List LocatedRecord) : Store :=
  copies.foldl (fun s c => (exec (.writeRecord c.device c.record) s).2) emptyStore

def byteRecord (version : VersionId) (revision : ℕ) (devices : List DeviceId) : MetadataRecord :=
  { smallRecord version revision devices with size := 1 }

def byteShard (version : VersionId) (i : ℕ) : ShardFile where
  header := ⟨pair, i, 65536, smallCrates.hashKey "k", version⟩
  footer := ⟨1, 1, 1, 0, [0]⟩
  blocks := [[7]]
  checksums_length := rfl
  blocks_length := rfl

def Store.withShards (s : Store) (shards : List (DeviceId × ShardFile)) : Store :=
  shards.foldl (fun s shard => (exec (.finishShard shard.1 shard.2) s).2) s

theorem isSome_foldl_exec {α : Type} (op : α → Op) (xs : List α) (s : Store) (d : DeviceId) :
    ((xs.foldl (fun s x => (exec (op x) s).2) s).disk d).isSome = (s.disk d).isSome := by
  induction xs generalizing s with
  | nil => rfl
  | cons x xs ih => rw [List.foldl_cons, ih, exec_isSome]

theorem holding_isSome (copies : List LocatedRecord) (shards : List (DeviceId × ShardFile)) (d : DeviceId) :
    (((holding copies).withShards shards).disk d).isSome := by
  rw [Store.withShards, isSome_foldl_exec fun shard : DeviceId × ShardFile => Op.finishShard shard.1 shard.2, holding,
    isSome_foldl_exec fun c : LocatedRecord => Op.writeRecord c.device c.record]
  rfl

theorem holding_getRecord {copies : List LocatedRecord} {d : DeviceId} {kh : KeyHash} {v : VersionId}
    {file : RecordFile} (h : (holding copies).getRecord d kh v = some file) : ∃ c ∈ copies, c.device = d ∧
    file = .ok c.record := by
  induction copies using List.reverseRecOn with
  | nil => cases h
  | append_singleton copies c ih =>
    rw [holding, List.foldl_append, List.foldl_cons, List.foldl_nil] at h
    rcases exec_getRecord (.writeRecord c.device c.record)
      (holding copies) d kh v with hsame | ⟨r, hop, rfl, rfl, hdisk⟩ | hop
    · obtain ⟨c', hc', hd, hfile⟩ := ih (hsame.symm.trans h)
      exact ⟨c', List.mem_append_left _ hc', hd, hfile⟩
    · cases hop
      exact ⟨c, by simp, rfl, (Option.some.inj ((exec_writeRecord hdisk _).symm.trans h)).symm⟩
    · cases hop

theorem withShards_getRecord (s : Store) (shards : List (DeviceId × ShardFile)) (d : DeviceId) (kh : KeyHash)
    (v : VersionId) : (s.withShards shards).getRecord d kh v = s.getRecord d kh v := by
  induction shards generalizing s with
  | nil => rfl
  | cons shard shards ih =>
    rw [Store.withShards, List.foldl_cons]
    refine (ih _).trans ?_
    rcases exec_getRecord (.finishShard shard.1 shard.2) s d kh v with h | ⟨_, h, _⟩ | h
    · exact h
    · cases h
    · cases h

theorem byte_describes (version : VersionId) (revision : ℕ) {d d' : DeviceId} (h : d ≠ d') :
    Describes smallCrates "k" (byteRecord version revision [d, d']) pair [7] where
  valid := {
    system := rfl
    contentType := Nat.zero_le _
    formatVersion := rfl
    keyHash := rfl
    scheme := ⟨pair, rfl, rfl, by simp [byteRecord, smallRecord, pair, Scheme.totalShards],
      fun index hi => by
        change index ∈ [0, 1]
        have : index < 2 := hi
        interval_cases index <;> decide⟩
    blockSize := by simp [byteRecord, smallRecord]
    indices := by simp [byteRecord, smallRecord]
    devices := by simpa [byteRecord, smallRecord] using h }
  key_eq := rfl
  scheme_eq := rfl
  size_eq := rfl
  checksum_eq := rfl

theorem emptyStore_up (C : Cluster) : Up C emptyStore := fun _ _ => rfl

theorem emptyStore_fresh (C : Cluster) (kh : KeyHash) (v : VersionId) : Fresh C kh emptyStore v :=
  fun _ _ => ⟨rfl, fun _ => rfl⟩

theorem emptyStore_known {X : Crates} {C : Cluster} {key : String} :
    Known (fun _ => (none : Option (StoredObject X C key))) emptyStore where
  version _ _ h := by cases h
  found _ _ _ _ h := by cases h

end Djbod
