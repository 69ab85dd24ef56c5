import Djbod.Core.Tree
import Djbod.Data.Cbor
import Djbod.Node.Inventory

/-!
# The messages that carry keys and records, encoded

* `maxPayloadLen` : the largest payload a peer accepts;
* `encodeKeyEntry`, `encodeRecord` : the parts; identifiers are 16 bytes, hashes, versions, checksums and times are
  text;
* `encodeLocalList`, `encodeListKeys` : the pages of a listing;
* `encodePutObject`, `encodePutMeta`, `encodeLocalLookup`, `encodeLocalRecords`, `encodeHeadObject`, `encodeGetObject` :
  the request that brings an object and the messages that carry its record;
* `encodeRecord_length` : the record is the request with a number of bytes added.
-/

namespace Djbod

open Cbor

def maxPayloadLen : ℕ := 64 * 1024 * 1024 + 4096

/-! ## Parts -/

def encodeUuid (id : ℕ) : Encoding := Cbor.bytes (bigEndian 16 id)

def encodeVersion (v : VersionId) : Encoding := text (String.ofList (toText v))

def encodeKeyHash (kh : KeyHash) : Encoding := text (String.ofList (toHex kh))

def encodeChecksum (c : BlockChecksum) : Encoding := text (String.ofList (checksumToHex c))

def encodeKeyEntry (e : KeyEntry) : Encoding :=
  fields [("key", text e.key), ("size", uint e.size), ("version", encodeVersion e.version)]

def encodeUnavailable (u : UnavailableDevice) : Encoding :=
  fields [("device", encodeUuid u.device), ("node", encodeUuid u.node)]

def encodeShard (shard : ShardLocation) : Encoding :=
  fields [("index", uint shard.index), ("device", encodeUuid shard.device)]

/-- The fields that are left out when there is nothing in them. -/
def optionalFields (contentType : Option String) (userMetadata : List (String × String)) : List (String × Encoding) :=
  (contentType.elim [] fun value => [("content_type", text value)]) ++
    if userMetadata.isEmpty then []
    else [("user_metadata", Cbor.map (userMetadata.map fun kv => (text kv.1, text kv.2)))]

section Record

variable (showTime : ℤ → String)

def encodeRecord (r : MetadataRecord) : Encoding :=
  fields ([("format_version", uint r.formatVersion), ("system", text r.system), ("bucket", text r.bucket),
    ("key", text r.key), ("key_hash", encodeKeyHash r.keyHash), ("version", encodeVersion r.version),
    ("created", text (showTime r.created)), ("size", uint r.size), ("object_checksum", encodeChecksum r.objectChecksum),
    ("k", uint r.k), ("m", uint r.m), ("block_size", uint r.blockSize), ("shards", array (r.shards.map encodeShard)),
    ("revision", uint r.revision)] ++ optionalFields r.contentType r.userMetadata)

def encodeLocated (c : LocatedRecord) : Encoding :=
  fields [("device", encodeUuid c.device), ("record", encodeRecord showTime c.record)]

def encodeDeviceRecord (x : DeviceRecord) : Encoding :=
  fields [("record", encodeRecord showTime x.record), ("shard_present", bool x.shardPresent)]

end Record

/-- Why a record copy is missing; the alternative's name is one of its fields. -/
def encodeFault : RecordCopyFault → Encoding
  | .missing => fields [("kind", text "missing")]
  | .stale revision => fields [("kind", text "stale"), ("revision", uint revision)]
  | .unavailable reason => fields [("kind", text "unavailable"), ("reason", text reason)]

def encodeMissing (missing : MissingRecordCopy) : Encoding :=
  fields [("device", encodeUuid missing.device), ("fault", encodeFault missing.fault)]

/-! ## Messages -/

def encodeLocalList (page : LocalListPage) : Encoding :=
  variant "LocalList" (fields [("entries", array (page.entries.map encodeKeyEntry)), ("truncated", bool page.truncated),
    ("unread", array (page.unread.map encodeUuid))])

def encodeListKeys (answer : ListAnswer) : Encoding :=
  variant "ListKeys" (fields [("keys", array (answer.keys.map encodeKeyEntry)), ("truncated", bool answer.truncated),
    ("unread", array (answer.unread.map encodeUnavailable)), ("complete", bool answer.complete)])

def encodePutObject (params : PutParams) : Encoding :=
  variant "PutObject" (fields ([("key", text params.key), ("size", uint params.size)] ++
    optionalFields params.contentType params.userMetadata))

section Carriers

variable (showTime : ℤ → String)

def encodePutMeta (d : DeviceId) (r : MetadataRecord) : Encoding :=
  variant "PutMeta" (fields [("device", encodeUuid d), ("record", encodeRecord showTime r)])

def encodeLocalLookup (page : LookupPage) : Encoding :=
  variant "LocalLookup" (fields [("records", array (page.records.map (encodeLocated showTime))),
    ("truncated", bool page.truncated), ("unread", array (page.unread.map encodeUuid))])

def encodeLocalRecords (records : List DeviceRecord) (truncated : Bool) : Encoding :=
  variant "LocalRecords" (fields [("records", array (records.map (encodeDeviceRecord showTime))),
    ("truncated", bool truncated)])

def encodeHeadObject (r : MetadataRecord) (missing : List MissingRecordCopy) : Encoding :=
  variant "HeadObject" (fields [("record", encodeRecord showTime r),
    ("missing_records", array (missing.map encodeMissing))])

def encodeGetObject (r : MetadataRecord) : Encoding :=
  variant "GetObject" (fields [("record", encodeRecord showTime r)])

end Carriers

/-! ## Lengths -/

@[simp]
theorem encodeUuid_length (id : ℕ) : (encodeUuid id).length = 17 := by
  simp [encodeUuid, bigEndian, headLen]

theorem utf8Size_hexDigit : ∀ d < 16, (hexDigit d).utf8Size = 1 := by decide

theorem utf8Size_alphabet : ∀ d < 32, (alphabet.getD d '0').utf8Size = 1 := by decide

theorem hexText_size (n x : ℕ) : (String.ofList (FixedWidth.text hexDigit 16 n x)).utf8ByteSize = n := by
  rw [utf8ByteSize_ofList, FixedWidth.text_length]
  intro c hc
  obtain ⟨d, hd, rfl⟩ := List.mem_map.mp hc
  exact utf8Size_hexDigit d (FixedWidth.lt_of_mem_digits (by decide) hd)

theorem toText_size (v : VersionId) : (String.ofList (toText v)).utf8ByteSize = 26 := by
  rw [utf8ByteSize_ofList, toText_length]
  · rfl
  · intro c hc
    obtain ⟨d, hd, rfl⟩ := List.mem_map.mp hc
    exact utf8Size_alphabet d (FixedWidth.lt_of_mem_digits (by decide) hd)

@[simp]
theorem encodeVersion_length (v : VersionId) : (encodeVersion v).length = 28 := by
  rw [encodeVersion, text_length, Cbor.textLen, toText_size]
  rfl

@[simp]
theorem encodeKeyHash_length (kh : KeyHash) : (encodeKeyHash kh).length = 66 := by
  rw [encodeKeyHash, text_length, Cbor.textLen, toHex, hexText_size]
  rfl

@[simp]
theorem encodeChecksum_length (c : BlockChecksum) : (encodeChecksum c).length = 17 := by
  rw [encodeChecksum, text_length, Cbor.textLen, checksumToHex, hexText_size]
  rfl

def keyEntryBytes (e : KeyEntry) : ℕ := 46 + Cbor.textLen e.key + headLen e.size

@[simp]
theorem encodeKeyEntry_length (e : KeyEntry) : (encodeKeyEntry e).length = keyEntryBytes e := by
  have hnames : namesLen ["key", "size", "version"] = 17 := rfl
  simp only [encodeKeyEntry, fields_three,
    text_length, uint_length, encodeVersion_length, keyEntryBytes, hnames]
  omega

@[simp]
theorem encodeUnavailable_length (u : UnavailableDevice) : (encodeUnavailable u).length = 47 := by
  have hnames : namesLen ["device", "node"] = 12 := rfl
  simp only [encodeUnavailable, fields_two,
    encodeUuid_length, hnames]

def keyEntriesBytes (entries : List KeyEntry) : ℕ := headLen entries.length + (entries.map keyEntryBytes).sum

theorem encodeKeyEntries_length (entries : List KeyEntry) :
    (array (entries.map encodeKeyEntry)).length = keyEntriesBytes entries := by
  rw [array_length, List.length_map, List.map_map, keyEntriesBytes]
  simp only [Function.comp_def, encodeKeyEntry_length]

theorem array_length_const {α : Type} (encode : α → Encoding) (n : ℕ) (h : ∀ a, (encode a).length = n) (l : List α) :
    (array (l.map encode)).length = headLen l.length + n * l.length := by
  rw [array_length, List.length_map, List.map_map]
  simp [Function.comp_def, h, Nat.mul_comm]

def localListOverhead (unread : ℕ) : ℕ := 38 + headLen unread + 17 * unread

theorem encodeLocalList_length (page : LocalListPage) :
    (encodeLocalList page).length = localListOverhead page.unread.length + keyEntriesBytes page.entries := by
  have hname : Cbor.textLen "LocalList" = 10 := rfl
  have hnames : namesLen ["entries", "truncated", "unread"] = 25 := rfl
  simp only [encodeLocalList, variant_length, fields_three, encodeKeyEntries_length, bool_length,
    array_length_const encodeUuid 17 encodeUuid_length, localListOverhead, hname, hnames]
  omega

def listKeysOverhead (unread : ℕ) : ℕ := 44 + headLen unread + 47 * unread

theorem encodeListKeys_length (answer : ListAnswer) :
    (encodeListKeys answer).length = listKeysOverhead answer.unread.length + keyEntriesBytes answer.keys := by
  have hname : Cbor.textLen "ListKeys" = 9 := rfl
  have hnames : namesLen ["keys", "truncated", "unread", "complete"] = 31 := rfl
  have hhead : headLen 4 = 1 := rfl
  simp only [encodeListKeys, variant_length, fields_length, List.length_cons, List.length_nil, List.map_cons,
    List.map_nil, List.sum_cons, List.sum_nil, encodeKeyEntries_length, bool_length,
    array_length_const encodeUnavailable 47 encodeUnavailable_length, listKeysOverhead, hname, hnames, hhead]
  omega

/-! ## The record and the request that brought it -/

@[simp]
theorem encodeShard_length (shard : ShardLocation) : (encodeShard shard).length = 31 + headLen shard.index := by
  have hnames : namesLen ["index", "device"] = 13 := rfl
  simp only [encodeShard, fields_two,
    uint_length, encodeUuid_length, hnames]
  omega

def shardsBytes (shards : List ShardLocation) : ℕ :=
  headLen shards.length + (shards.map fun shard => 31 + headLen shard.index).sum

theorem encodeShards_length (shards : List ShardLocation) :
    (array (shards.map encodeShard)).length = shardsBytes shards := by
  rw [array_length, List.length_map, List.map_map, shardsBytes]
  simp only [Function.comp_def, encodeShard_length]

/-- What a record takes beyond the request that brought its object. -/
def recordGrowth (showTime : ℤ → String) (r : MetadataRecord) : ℕ :=
  227 + Cbor.textLen (showTime r.created) + headLen r.k + headLen r.m + headLen r.blockSize + headLen r.revision +
    shardsBytes r.shards

theorem optionalFields_le (contentType : Option String) (userMetadata : List (String × String)) :
    (optionalFields contentType userMetadata).length ≤ 2 := by
  unfold optionalFields
  rw [List.length_append]
  have hmetadata : (if userMetadata.isEmpty then ([] : List (String × Encoding)) else
      [("user_metadata", Cbor.map (userMetadata.map fun kv => (text kv.1, text kv.2)))]).length ≤
      1 := by split_ifs <;> simp
  cases contentType with
  | none => simp only [Option.elim_none, List.length_nil]; omega
  | some value => simp only [Option.elim_some, List.length_cons, List.length_nil]; omega

def fieldsBytes (fs : List (String × Encoding)) : ℕ := namesLen (fs.map Prod.fst) + (fs.map fun f => f.2.length).sum

theorem namesLen_append (names names' : List String) :
    namesLen (names ++ names') = namesLen names + namesLen names' := by
  rw [namesLen, List.map_append, List.sum_append, namesLen, namesLen]

theorem fields_append_length (fs fs' : List (String × Encoding)) (h : fs.length + fs'.length < 24) :
    (fields (fs ++ fs')).length = 1 + namesLen (fs.map Prod.fst) + (fs.map fun f => f.2.length).sum +
    fieldsBytes fs' := by
  have hhead : headLen (fs ++ fs').length = 1 := if_pos (by rwa [List.length_append])
  rw [fields_length, hhead, List.map_append, List.map_append, namesLen_append, List.sum_append, fieldsBytes]
  omega

theorem encodePutObject_length (params : PutParams) : (encodePutObject params).length =
    21 + Cbor.textLen params.key + headLen params.size +
      fieldsBytes (optionalFields params.contentType params.userMetadata) := by
  have hname : Cbor.textLen "PutObject" = 10 := rfl
  have hnames : namesLen ["key", "size"] = 9 := rfl
  have hoptional := optionalFields_le params.contentType params.userMetadata
  rw [encodePutObject, variant_length, fields_append_length _ _
    (by rw [List.length_cons, List.length_singleton]; omega)]
  simp only [List.map_cons, List.map_nil, List.sum_cons, List.sum_nil, text_length, uint_length, hname, hnames]
  omega

/-- **A record is as long as the request that brought its object, and `recordGrowth`.** -/
theorem encodeRecord_length (showTime : ℤ → String) {r : MetadataRecord} {params : PutParams}
    (hformat : r.formatVersion = recordFormatVersion)
    (hsystem : r.system = systemName) (hbucket : r.bucket = defaultBucket) (hkey : r.key = params.key)
    (hsize : r.size = params.size) (hcontent : r.contentType = params.contentType)
    (hmetadata : r.userMetadata = params.userMetadata) :
    (encodeRecord showTime r).length = (encodePutObject params).length + recordGrowth showTime r := by
  have hnames : namesLen ["format_version", "system", "bucket", "key", "key_hash", "version", "created", "size",
    "object_checksum", "k", "m", "block_size", "shards", "revision"] = 110 := rfl
  have hformatLen : headLen recordFormatVersion = 1 := rfl
  have hsystemLen : Cbor.textLen systemName = 17 := rfl
  have hbucketLen : Cbor.textLen defaultBucket = 8 := rfl
  have hoptional := optionalFields_le params.contentType params.userMetadata
  rw [encodeRecord, hformat, hsystem, hbucket, hkey, hsize, hcontent, hmetadata, fields_append_length _ _ (by
    simp only [List.length_cons, List.length_nil]
    omega), encodePutObject_length, recordGrowth]
  simp only [List.map_cons, List.map_nil, List.sum_cons, List.sum_nil, text_length, uint_length, encodeKeyHash_length,
    encodeVersion_length, encodeChecksum_length, encodeShards_length, hnames, hformatLen, hsystemLen, hbucketLen]
  omega

theorem names_le_encodeRecord (showTime : ℤ → String) (r : MetadataRecord) :
    110 ≤ (encodeRecord showTime r).length := by
  have hnames : namesLen ["format_version", "system", "bucket", "key", "key_hash", "version", "created", "size",
    "object_checksum", "k", "m", "block_size", "shards", "revision"] = 110 := rfl
  have hoptional := optionalFields_le r.contentType r.userMetadata
  rw [encodeRecord, fields_append_length _ _ (by
    simp only [List.length_cons, List.length_nil]
    omega)]
  simp only [List.map_cons, List.map_nil, hnames]
  omega

/-! ## The messages that carry the record -/

section Carriers

variable (showTime : ℤ → String)

theorem encodePutMeta_length (d : DeviceId) (r : MetadataRecord) :
    (encodePutMeta showTime d r).length = 41 + (encodeRecord showTime r).length := by
  have hname : Cbor.textLen "PutMeta" = 8 := rfl
  have hnames : namesLen ["device", "record"] = 14 := rfl
  simp only [encodePutMeta, variant_length, fields_two, encodeUuid_length, hname, hnames]
  omega

theorem encodeLocated_length (c : LocatedRecord) : (encodeLocated showTime c).length = 32 +
    (encodeRecord showTime c.record).length := by
  have hnames : namesLen ["device", "record"] = 14 := rfl
  simp only [encodeLocated, fields_two,
    encodeUuid_length, hnames]

theorem encodeLocalLookup_length (page : LookupPage) : (encodeLocalLookup showTime page).length =
    40 + headLen page.records.length + (page.records.map fun c => 32 + (encodeRecord showTime c.record).length).sum +
      headLen page.unread.length + 17 * page.unread.length := by
  have hname : Cbor.textLen "LocalLookup" = 12 := rfl
  have hnames : namesLen ["records", "truncated", "unread"] = 25 := rfl
  simp only [encodeLocalLookup, variant_length, fields_three, bool_length, array_length, List.length_map, List.map_map,
    Function.comp_def, encodeLocated_length, encodeUuid_length, List.map_const', List.sum_replicate,
    smul_eq_mul, hname, hnames]
  omega

theorem encodeDeviceRecord_length (x : DeviceRecord) :
    (encodeDeviceRecord showTime x).length = 23 + (encodeRecord showTime x.record).length := by
  have hnames : namesLen ["record", "shard_present"] = 21 := rfl
  simp only [encodeDeviceRecord, fields_two,
    bool_length, hnames]
  omega

theorem encodeLocalRecords_length (records : List DeviceRecord) (truncated : Bool) :
    (encodeLocalRecords showTime records truncated).length = 34 + headLen records.length + (records.map fun x =>
    23 + (encodeRecord showTime x.record).length).sum := by
  have hname : Cbor.textLen "LocalRecords" = 13 := rfl
  have hnames : namesLen ["records", "truncated"] = 18 := rfl
  simp only [encodeLocalRecords, variant_length, fields_two, bool_length, array_length, List.length_map, List.map_map,
    Function.comp_def, encodeDeviceRecord_length, hname, hnames]
  omega

theorem encodeHeadObject_length (r : MetadataRecord) (missing : List MissingRecordCopy) :
    (encodeHeadObject showTime r missing).length = 36 + (encodeRecord showTime r).length +
    (array (missing.map encodeMissing)).length := by
  have hname : Cbor.textLen "HeadObject" = 11 := rfl
  have hnames : namesLen ["record", "missing_records"] = 23 := rfl
  simp only [encodeHeadObject, variant_length, fields_two, hname, hnames]
  omega

theorem encodeGetObject_length (r : MetadataRecord) :
    (encodeGetObject showTime r).length = 19 + (encodeRecord showTime r).length := by
  have hname : Cbor.textLen "GetObject" = 10 := rfl
  have hnames : namesLen ["record"] = 7 := rfl
  have hhead : headLen 1 = 1 := rfl
  simp only [encodeGetObject, variant_length, fields_length, List.length_cons, List.length_nil, List.map_cons,
    List.map_nil, List.sum_cons, List.sum_nil, hname, hnames, hhead]
  omega

end Carriers

end Djbod
