import Djbod.Core.ShardFile

/-!
# The metadata record

One record per version, stored in full on every device that holds a shard of that version.

* `MetadataRecord` and its `sameBody`, `validate`, `deviceFor`, `shardOn`;
* `MetadataRecord.Valid` : what a record that passes `validate` satisfies, `validate_eq_ok`;
* `shardOn_isSome` : a device is listed exactly when some shard is on it.
-/

namespace Djbod

abbrev DeviceId := ℕ

structure ShardLocation where
  index : ℕ
  device : DeviceId
  deriving DecidableEq, Repr

structure MetadataRecord where
  formatVersion : ℕ
  system : String
  bucket : String
  key : String
  keyHash : KeyHash
  version : VersionId
  created : ℤ
  size : ℕ
  objectChecksum : BlockChecksum
  k : ℕ
  m : ℕ
  blockSize : ℕ
  shards : List ShardLocation
  revision : ℕ
  contentType : Option String
  userMetadata : List (String × String)
  deriving DecidableEq, Inhabited

def recordFormatVersion : ℕ := 1
def systemName : String := "distributed-jbod"
def defaultBucket : String := "default"
def maxContentTypeBytes : ℕ := 1024

inductive RecordError where
  | json (reason : String)
  | contentTypeTooLong (bytes : ℕ)
  | checksumMismatch (stored computed : BlockChecksum)
  | wrongSystem (system : String)
  | unsupportedFormatVersion (v : ℕ)
  | keyHashMismatch (stored computed : KeyHash)
  | invalidScheme (e : SchemeError)
  | badBlockSize (size : ℕ)
  | wrongShardCount (expected actual : ℕ)
  | missingShardIndex (index : ℕ)
  | duplicateShardIndex (index : ℕ)
  | duplicateDevice (device : DeviceId)
  deriving DecidableEq, Repr

namespace MetadataRecord

def sameBody (r other : MetadataRecord) : Bool :=
  r.version == other.version && r.key == other.key && r.keyHash == other.keyHash && r.size == other.size &&
    r.objectChecksum == other.objectChecksum && r.k == other.k && r.m == other.m && r.blockSize == other.blockSize

def scheme (r : MetadataRecord) : Except SchemeError Scheme := Scheme.new r.k r.m

def deviceFor (r : MetadataRecord) (index : ℕ) : Option DeviceId :=
  (r.shards.find? fun shard => shard.index == index).map ShardLocation.device

def shardOn (r : MetadataRecord) (device : DeviceId) : Option ℕ :=
  (r.shards.find? fun shard => shard.device == device).map ShardLocation.index

/-- Each listed shard must be in the scheme, once, and on a device of its own. -/
def validateShards (scheme : Scheme) : List ℕ → List DeviceId → List ShardLocation → Except RecordError Unit
  | seenIndex, _, [] =>
    match scheme.shardIndices.find? (· ∉ seenIndex) with
    | some index => .error (.missingShardIndex index)
    | none => .ok ()
  | seenIndex, seenDevices, shard :: rest =>
    if !scheme.contains shard.index then .error (.missingShardIndex shard.index)
    else if shard.index ∈ seenIndex then .error (.duplicateShardIndex shard.index)
    else if shard.device ∈ seenDevices then .error (.duplicateDevice shard.device)
    else validateShards scheme (shard.index :: seenIndex) (shard.device :: seenDevices) rest

/-- The invariants a record must satisfy regardless of where it came from. -/
def validate (hashKey : String → KeyHash) (r : MetadataRecord) : Except RecordError Unit :=
  if r.system ≠ systemName then .error (.wrongSystem r.system)
  else if (r.contentType.elim 0 String.utf8ByteSize) > maxContentTypeBytes then
    .error (.contentTypeTooLong (r.contentType.elim 0 String.utf8ByteSize))
  else if r.formatVersion ≠ recordFormatVersion then .error (.unsupportedFormatVersion r.formatVersion)
  else if hashKey r.key ≠ r.keyHash then .error (.keyHashMismatch r.keyHash (hashKey r.key))
  else
    match r.scheme with
    | .error e => .error (.invalidScheme e)
    | .ok scheme =>
      if r.blockSize = 0 ∨ r.blockSize % 4096 ≠ 0 then .error (.badBlockSize r.blockSize)
      else if r.shards.length ≠ scheme.totalShards then
        .error (.wrongShardCount scheme.totalShards r.shards.length)
      else validateShards scheme [] [] r.shards

/-- What `validate` accepts. -/
structure Valid (hashKey : String → KeyHash) (r : MetadataRecord) : Prop where
  system : r.system = systemName
  contentType : r.contentType.elim 0 String.utf8ByteSize ≤ maxContentTypeBytes
  formatVersion : r.formatVersion = recordFormatVersion
  keyHash : r.keyHash = hashKey r.key
  scheme : ∃ scheme, r.scheme = .ok scheme ∧ r.shards.length = scheme.totalShards ∧
    (∀ shard ∈ r.shards, shard.index < scheme.totalShards) ∧
    ∀ index < scheme.totalShards, index ∈ r.shards.map ShardLocation.index
  blockSize : 0 < r.blockSize ∧ r.blockSize % 4096 = 0
  indices : (r.shards.map ShardLocation.index).Nodup
  devices : (r.shards.map ShardLocation.device).Nodup

theorem validateShards_eq_ok {scheme : Scheme} {seenIndex : List ℕ} {seenDevices : List DeviceId}
    {shards : List ShardLocation} :
    validateShards scheme seenIndex seenDevices shards = .ok () ↔
      (∀ shard ∈ shards, shard.index < scheme.totalShards) ∧
      (shards.map ShardLocation.index).Nodup ∧ (shards.map ShardLocation.device).Nodup ∧
      (∀ shard ∈ shards, shard.index ∉ seenIndex ∧ shard.device ∉ seenDevices) ∧
      ∀ index < scheme.totalShards, index ∈ seenIndex ∨ index ∈ shards.map ShardLocation.index := by
  induction shards generalizing seenIndex seenDevices with
  | nil =>
    have hfind : scheme.shardIndices.find? (· ∉ seenIndex) = none ↔
        ∀ index < scheme.totalShards, index ∈ seenIndex := by
      rw [List.find?_eq_none]
      simp [Scheme.shardIndices]
    unfold validateShards
    split
    · next index h =>
        simp only [List.map_nil, List.not_mem_nil, or_false, List.nodup_nil, true_and, reduceCtorEq, false_iff,
          IsEmpty.forall_iff, implies_true]
        rw [← hfind, h]
        simp
    · next h => simpa using hfind.mp h
  | cons shard rest ih =>
    rw [List.forall_mem_cons, List.forall_mem_cons, List.map_cons, List.map_cons, List.nodup_cons,
      List.nodup_cons, validateShards]
    by_cases h₁ : shard.index < scheme.totalShards
    · by_cases h₂ : shard.index ∈ seenIndex
      · simp [Scheme.contains, h₁, h₂]
      · by_cases h₃ : shard.device ∈ seenDevices
        · simp [Scheme.contains, h₁, h₂, h₃]
        · simp only [Scheme.contains, h₁, decide_true, Bool.not_true, Bool.false_eq_true, if_false, h₂, h₃, ih,
            true_and, List.mem_cons, not_or, not_false_eq_true]
          constructor
          · rintro ⟨hr, hi, hd, hs, hc⟩
            refine ⟨hr, ⟨?_, hi⟩, ⟨?_, hd⟩, fun x hx => ⟨(hs x hx).1.2, (hs x hx).2.2⟩, fun n hn => ?_⟩
            · intro hmem
              obtain ⟨x, hx, he⟩ := List.mem_map.mp hmem
              exact (hs x hx).1.1 he
            · intro hmem
              obtain ⟨x, hx, he⟩ := List.mem_map.mp hmem
              exact (hs x hx).2.1 he
            · rcases hc n hn with (h | h) | h
              · exact .inr (.inl h)
              · exact .inl h
              · exact .inr (.inr h)
          · rintro ⟨hr, ⟨hi', hi⟩, ⟨hd', hd⟩, hs, hc⟩
            refine ⟨hr, hi, hd, fun x hx => ⟨⟨?_, (hs x hx).1⟩, ⟨?_, (hs x hx).2⟩⟩, fun n hn => ?_⟩
            · exact fun he => hi' (List.mem_map.mpr ⟨x, hx, he⟩)
            · exact fun he => hd' (List.mem_map.mpr ⟨x, hx, he⟩)
            · rcases hc n hn with h | h | h
              · exact .inl (.inr h)
              · exact .inl (.inl h)
              · exact .inr h
    · simp [Scheme.contains, h₁]

theorem validate_eq_ok {hashKey : String → KeyHash} {r : MetadataRecord} :
    r.validate hashKey = .ok () ↔ r.Valid hashKey := by
  constructor
  · intro h
    cases hs : r.scheme with
    | error e =>
      simp only [validate, hs] at h
      split_ifs at h
    | ok scheme =>
      simp only [validate, hs] at h
      split_ifs at h with h₁ h₂ h₃ h₄ h₅ h₆
      obtain ⟨hr, hi, hd, _, hc⟩ := validateShards_eq_ok.mp h
      push Not at h₁ h₃ h₄ h₅ h₆
      exact
        { system := h₁
          contentType := Nat.le_of_not_gt h₂
          formatVersion := h₃
          keyHash := h₄.symm
          scheme := ⟨scheme, hs, h₆, hr, fun n hn => (hc n hn).resolve_left List.not_mem_nil⟩
          blockSize := ⟨Nat.pos_of_ne_zero h₅.1, h₅.2⟩
          indices := hi
          devices := hd }
  · intro h
    obtain ⟨scheme, hs, hlen, hr, hc⟩ := h.scheme
    have hshards : validateShards scheme [] [] r.shards = .ok () :=
      validateShards_eq_ok.mpr ⟨hr, h.indices, h.devices, fun _ _ => ⟨List.not_mem_nil, List.not_mem_nil⟩,
        fun n hn => .inr (hc n hn)⟩
    have hb := h.blockSize
    unfold validate
    rw [if_neg (not_not.mpr h.system), if_neg (Nat.not_lt.mpr h.contentType), if_neg (not_not.mpr h.formatVersion),
      if_neg (not_not.mpr h.keyHash.symm), hs]
    dsimp only
    rw [if_neg (by omega), if_neg (not_not.mpr hlen), hshards]

theorem shardOn_isSome {r : MetadataRecord} {device : DeviceId} :
    (r.shardOn device).isSome ↔ device ∈ r.shards.map ShardLocation.device := by
  simp [shardOn, List.find?_isSome]

end MetadataRecord

end Djbod
