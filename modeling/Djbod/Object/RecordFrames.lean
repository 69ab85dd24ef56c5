import Djbod.Object.ListFrames
import Djbod.Object.Sizing

/-!
# Whether the messages that carry a record fit in a frame

The record of an object carries the key, the content type and the user metadata that the `PutObject` request brought,
and more; the limits on the request count the text of the metadata, not its encoding.

* `putRecord` : the record of an accepted request, at any placement and revision;
* `record_messages_fit_iff` : a message that carries it fits exactly when the request left room for what the message
  adds;
* `record_overflows` : an object that is accepted and stored, and that no lookup can return.
-/

namespace Djbod

open Cbor Sched

/-- The record of an object, once its body has arrived, at some placement and revision. -/
def putRecord (X : Crates) (C : Cluster) (scheme : Scheme) (version : VersionId) (created : ℤ) (params : PutParams)
    (chosen : List DeviceStatus) (checksum : BlockChecksum) (revision : ℕ) : MetadataRecord :=
  { recordTemplate X C scheme version created params chosen with objectChecksum := checksum, revision := revision }

/-! ## The pages that nodes make -/

/-- The crates that measure a record copy by its encoding, as `encode_cbor` does. -/
def Crates.measuring (X : Crates) (showTime : ℤ → String) : Crates :=
  { X with encodedLen := fun c => (encodeLocated showTime c).length }

section Pages

variable {σ : Type} {ex : (o : Op) → σ → Resp o × σ} {w w' : σ} {X : Crates} {C : Cluster} {node : NodeId}
  {showTime : ℤ → String}

theorem eq_singleton_of_mem {α : Type} {l : List α} {a : α} (h : a ∈ l) (hlen : l.length ≤ 1) : l = [a] := by
  obtain ⟨b, rfl⟩ := List.length_eq_one_iff.mp (le_antisymm hlen (List.length_pos_of_mem h))
  rw [List.mem_singleton.mp h]

theorem localLookup_page {kh : KeyHash} {after : Option LookupCursor} {page : LookupPage}
    (h : (localLookup X C node kh after).run.eval ex w = (.ok page, w')) :
    page.records.length ≤ 1 ∨ (page.records.map X.encodedLen).sum ≤ maxListPageBytes := by
  unfold localLookup at h
  obtain ⟨⟨records, unread⟩, w₁, -, h⟩ := Task.eval_try_inv h
  obtain rfl := Except.ok.inj (congrArg Prod.fst h)
  exact takePage_bytes ..

theorem withPresence_records (d : DeviceId) (l : List MetadataRecord) (w : σ) :
    ((withPresence d l).eval ex w).1.map DeviceRecord.record = l := by
  induction l generalizing w with
  | nil => rfl
  | cons r l ih =>
    rw [withPresence, Task.eval_bind, Task.eval_bind]
    exact congrArg (r :: ·) (ih _)

theorem onOwnDevice_eval {α : Type} {d : DeviceId} {proc : Device.Proc α} {a : α}
    (h : (onOwnDevice X C node d proc).run.eval ex w = (.ok a, w')) : proc.run.eval ex w = (.ok a, w') := by
  unfold onOwnDevice at h
  by_cases hd : d ∈ C.opened node
  · rw [if_pos hd] at h
    have hbind := (Task.eval_bind proc.run _ w).symm.trans h
    rcases hproc : proc.run.eval ex w with ⟨e | b, w₁⟩
    · rw [hproc] at hbind
      cases hbind
    · rw [hproc] at hbind
      cases hbind
      rfl
  · rw [if_neg hd] at h
    cases h

theorem localRecords_page {recordSize : MetadataRecord → ℕ} {d : DeviceId} {after : Option RecordCursor}
    {page : List DeviceRecord} {truncated : Bool} (h : (localRecords X C recordSize node d after).run.eval ex w =
    (.ok (page, truncated), w')) : page.length ≤ 1 ∨
    (page.map fun x => recordSize x.record).sum ≤ maxListPageBytes := by
  obtain ⟨records, w₁, -, h⟩ := Task.eval_try_inv (onOwnDevice_eval h)
  obtain ⟨page', w₂, hpresence, h⟩ := Task.eval_try_inv h
  obtain ⟨rfl, -⟩ := Prod.mk.inj (Except.ok.inj (congrArg Prod.fst h))
  have hrecords : page'.map DeviceRecord.record = (takePage recordSize maxListPageBytes false 0
      (recordsAfter after records)).1 := by
    rw [Task.eval_lift] at hpresence
    rw [← Except.ok.inj (congrArg Prod.fst hpresence)]
    exact withPresence_records ..
  have hpage := takePage_bytes recordSize maxListPageBytes (recordsAfter after records)
  rwa [← hrecords, List.length_map, List.map_map] at hpage

theorem localLookup_bytes {kh : KeyHash} {after : Option LookupCursor} {page : LookupPage}
    (h : (localLookup (X.measuring showTime) C node kh after).run.eval ex w = (.ok page, w')) {c : LocatedRecord}
    (hc : c ∈ page.records) : page.records = [c] ∨ (encodeLocalLookup showTime page).length ≤ maxListPageBytes + 58 +
    17 * page.unread.length := by
  refine (localLookup_page h).imp (eq_singleton_of_mem hc) fun hbytes => ?_
  have hmeasure : (page.records.map (X.measuring showTime).encodedLen).sum =
      (page.records.map fun c => 32 + (encodeRecord showTime c.record).length).sum := by
    simp only [Crates.measuring, encodeLocated_length]
  have hrecords := headLen_le page.records.length
  have hunread := headLen_le page.unread.length
  rw [encodeLocalLookup_length]
  omega

theorem localRecords_bytes {d : DeviceId} {after : Option RecordCursor} {page : List DeviceRecord} {truncated : Bool}
    (h : (localRecords X C (fun r => (encodeRecord showTime r).length) node d after).run.eval ex w =
    (.ok (page, truncated), w')) {x : DeviceRecord} (hx : x ∈ page) : page = [x] ∨
    (encodeLocalRecords showTime page truncated).length ≤ maxPayloadLen := by
  refine (localRecords_page h).imp (eq_singleton_of_mem hx) fun hbytes => ?_
  have hflags : (page.map fun x => 23 + (encodeRecord showTime x.record).length).sum ≤
      (page.map fun x => 2 * (encodeRecord showTime x.record).length).sum := by
    refine List.sum_le_sum fun x _ => ?_
    have := names_le_encodeRecord showTime x.record
    omega
  rw [List.sum_map_mul_left] at hflags
  have hrecords := headLen_le page.length
  rw [encodeLocalRecords_length]
  unfold maxPayloadLen
  unfold maxListPageBytes at hbytes
  omega

end Pages

section Put

variable (showTime : ℤ → String) (X : Crates) (C : Cluster) (scheme : Scheme) (version : VersionId) (created : ℤ)
  (params : PutParams) (chosen : List DeviceStatus) (checksum : BlockChecksum) (revision : ℕ)

def putGrowth : ℕ :=
  227 + Cbor.textLen (showTime created) + headLen scheme.dataShards + headLen scheme.parityShards +
    headLen C.document.blockSize + headLen revision + headLen chosen.length + ((List.range chosen.length).map fun i =>
    31 + headLen i).sum

theorem shardsBytes_mapIdx (chosen : List DeviceStatus) :
    shardsBytes (chosen.mapIdx fun i status => ⟨i, status.device⟩) =
    headLen chosen.length + ((List.range chosen.length).map fun i => 31 + headLen i).sum := by
  have hmap : (chosen.mapIdx fun i status => (⟨i, status.device⟩ : ShardLocation)).map (fun shard =>
    31 + headLen shard.index) =
      (List.range chosen.length).map fun i => 31 + headLen i := by
    refine List.ext_getElem (by simp) fun i h h' => ?_
    simp
  rw [shardsBytes, List.length_mapIdx, hmap]

theorem putRecord_length : (encodeRecord showTime (putRecord X C scheme version created params chosen checksum
    revision)).length = (encodePutObject params).length + putGrowth showTime C scheme created chosen revision := by
  have hlength : (encodeRecord showTime (putRecord X C scheme version created params chosen checksum revision)).length =
      (encodePutObject params).length + recordGrowth showTime
      (putRecord X C scheme version created params chosen checksum revision) :=
    encodeRecord_length showTime rfl rfl rfl rfl rfl rfl rfl
  rw [hlength]
  refine congrArg _ ?_
  show 227 + _ + _ + _ + _ + _ + shardsBytes (chosen.mapIdx fun i status => ⟨i, status.device⟩) = _
  rw [shardsBytes_mapIdx, putGrowth]
  exact (Nat.add_assoc _ _ _).symm

/-- **A message that carries the record of an object fits in a frame exactly when the request that brought the object
left room** for what the record adds to it and the message to the record. -/
theorem record_messages_fit_iff :
    (∀ d, (encodePutMeta showTime d (putRecord X C scheme version created params chosen checksum revision)).length ≤
        maxPayloadLen ↔
      (encodePutObject params).length + putGrowth showTime C scheme created chosen revision + 41 ≤ maxPayloadLen) ∧
    (∀ d front back truncated unread, (encodeLocalLookup showTime
        ⟨front ++ ⟨d, putRecord X C scheme version created params chosen checksum revision⟩ :: back,
          truncated, unread⟩).length ≤ maxPayloadLen ↔
      (encodePutObject params).length + putGrowth showTime C scheme created chosen revision +
        (72 + headLen (front.length + back.length + 1) + headLen unread.length + 17 * unread.length +
          ((front ++ back).map fun c => 32 + (encodeRecord showTime c.record).length).sum) ≤ maxPayloadLen) ∧
    (∀ present front back truncated, (encodeLocalRecords showTime
        (front ++ ⟨putRecord X C scheme version created params chosen checksum revision, present⟩ :: back)
        truncated).length ≤ maxPayloadLen ↔
      (encodePutObject params).length + putGrowth showTime C scheme created chosen revision +
        (57 + headLen (front.length + back.length + 1) +
          ((front ++ back).map fun x => 23 + (encodeRecord showTime x.record).length).sum) ≤ maxPayloadLen) ∧
    (∀ missing, (encodeHeadObject showTime
        (putRecord X C scheme version created params chosen checksum revision) missing).length ≤ maxPayloadLen ↔
      (encodePutObject params).length + putGrowth showTime C scheme created chosen revision +
        (36 + (array (missing.map encodeMissing)).length) ≤ maxPayloadLen) ∧
    ((encodeGetObject showTime (putRecord X C scheme version created params chosen checksum revision)).length ≤
        maxPayloadLen ↔
      (encodePutObject params).length + putGrowth showTime C scheme created chosen revision + 19 ≤ maxPayloadLen) ∧
    (∀ {σ : Type} (ex : (o : Op) → σ → Resp o × σ) (w w' : σ) node kh after page d,
      (localLookup (X.measuring showTime) C node kh after).run.eval ex w = (.ok page, w') →
      ⟨d, putRecord X C scheme version created params chosen checksum revision⟩ ∈ page.records →
        (page.records = [⟨d, putRecord X C scheme version created params chosen checksum revision⟩] ∧
          ((encodeLocalLookup showTime page).length ≤ maxPayloadLen ↔
            (encodePutObject params).length + putGrowth showTime C scheme created chosen revision +
              (73 + headLen page.unread.length + 17 * page.unread.length) ≤ maxPayloadLen)) ∨
        (encodeLocalLookup showTime page).length ≤ maxListPageBytes + 58 + 17 * page.unread.length) ∧
    ∀ {σ : Type} (ex : (o : Op) → σ → Resp o × σ) (w w' : σ) node device after page truncated present,
      (localRecords X C (fun r => (encodeRecord showTime r).length) node device after).run.eval ex w =
        (.ok (page, truncated), w') →
      ⟨putRecord X C scheme version created params chosen checksum revision, present⟩ ∈ page →
        (page = [⟨putRecord X C scheme version created params chosen checksum revision, present⟩] ∧
          ((encodeLocalRecords showTime page truncated).length ≤ maxPayloadLen ↔
            (encodePutObject params).length + putGrowth showTime C scheme created chosen revision + 58 ≤
              maxPayloadLen)) ∨
        (encodeLocalRecords showTime page truncated).length ≤ maxPayloadLen := by
  have hrecord := putRecord_length showTime X C scheme version created params chosen checksum revision
  have hone : headLen 1 = 1 := rfl
  refine ⟨fun d => ?_, fun d front back truncated unread => ?_, fun present front back truncated =>
    ?_, fun missing => ?_, ?_, fun ex w w' node kh after page d heval hmem =>
    ?_, fun ex w w' node device after page truncated present heval hmem => ?_⟩
  · rw [encodePutMeta_length, hrecord, Nat.add_comm 41]
  · have hlen : (front ++ ⟨d, putRecord X C scheme version created params chosen checksum revision⟩ :: back).length =
        front.length + back.length + 1 := by rw [List.length_append, List.length_cons]; rfl
    rw [encodeLocalLookup_length, hlen]
    simp only [List.map_append, List.map_cons, List.sum_append, List.sum_cons, hrecord]
    omega
  · have hlen : (front ++ ⟨putRecord X C scheme version created params chosen checksum revision,
      present⟩ :: back).length =
        front.length + back.length + 1 := by rw [List.length_append, List.length_cons]; rfl
    rw [encodeLocalRecords_length, hlen]
    simp only [List.map_append, List.map_cons, List.sum_append, List.sum_cons, hrecord]
    omega
  · rw [encodeHeadObject_length, hrecord]
    omega
  · rw [encodeGetObject_length, hrecord, Nat.add_comm 19]
  · refine (localLookup_bytes heval hmem).imp_left fun halone => ⟨halone, ?_⟩
    rw [encodeLocalLookup_length, halone]
    simp only [List.length_singleton, List.map_singleton, List.sum_singleton, hrecord, hone]
    omega
  · refine (localRecords_bytes heval hmem).imp_left fun halone => ⟨halone, ?_⟩
    rw [encodeLocalRecords_length, halone]
    simp only [List.length_singleton, List.map_singleton, List.sum_singleton, hrecord, hone]
    omega

end Put

/-! ## Much metadata in small pieces -/

/-- A valid document with the largest limits on keys and metadata. -/
def wideDocument : ClusterDocument :=
  { smallDocument 0 [.active] with maxKeyBytes := limitMaxKeyBytes, maxUserMetadataBytes := limitMaxUserMetadataBytes }

def wideCluster : Cluster where
  document := wideDocument
  opened := (small 0 [.active]).opened
  blockSize_aligned := (small 0 [.active]).blockSize_aligned
  devices_nodup := (small 0 [.active]).devices_nodup
  owner_listed := (small 0 [.active]).owner_listed
  opened_listed := (small 0 [.active]).opened_listed
  opened_nodup := (small 0 [.active]).opened_nodup

def pieces (n : ℕ) : List (String × String) := (List.range n).map fun i => (shortKey i, "")

/-- An empty object with such metadata, under a key of 3700 characters. -/
def piecesParams (n : ℕ) : PutParams := ⟨String.ofList (List.replicate 3700 'a'), 0, none, pieces n⟩

/-- As many as have 48 MiB of text. -/
def manyPieces : ℕ := 8388608

theorem sum_map_const {α : Type} {f : α → ℕ} (n : ℕ) (l : List α) (h : ∀ a ∈ l, f a = n) :
    (l.map f).sum = n * l.length := by
  rw [List.map_congr_left h, List.map_const', List.sum_replicate, smul_eq_mul, Nat.mul_comm]

section Pieces

variable (n : ℕ)

theorem pieces_length : (pieces n).length = n := by rw [pieces, List.length_map, List.length_range]

theorem pieces_text : ((pieces n).map fun kv => kv.1.utf8ByteSize + kv.2.utf8ByteSize).sum = 6 * n := by
  rw [sum_map_const 6 (pieces n) fun kv hkv => ?_, pieces_length]
  obtain ⟨i, -, rfl⟩ := List.mem_map.mp hkv
  exact hexText_size 6 i

theorem pieces_pairs : (((pieces n).map fun kv => (text kv.1, text kv.2)).map fun p =>
    p.1.length + p.2.length).sum = 8 * n := by
  rw [List.map_map, sum_map_const 8 (pieces n) fun kv hkv => ?_, pieces_length]
  obtain ⟨i, -, rfl⟩ := List.mem_map.mp hkv
  show (text (shortKey i)).length + (text "").length = 8
  rw [text_length, text_length, Cbor.textLen, shortKey, hexText_size]
  rfl

theorem pieces_bytes (hn : 0 < n) : fieldsBytes (optionalFields none (pieces n)) = 14 + headLen n + 8 * n := by
  have hempty : (pieces n).isEmpty = false := by
    rw [← Bool.not_eq_true, List.isEmpty_iff_length_eq_zero, pieces_length]
    omega
  have hname : namesLen ["user_metadata"] = 14 := rfl
  simp only [optionalFields, hempty, Option.elim_none, Bool.false_eq_true, if_false, List.nil_append, fieldsBytes,
    List.map_cons, List.map_nil, List.sum_cons, List.sum_nil, map_length, List.length_map, pieces_length,
    pieces_pairs, hname]
  omega

theorem piecesKey_size : (piecesParams n).key.utf8ByteSize = 3700 := by
  refine (utf8ByteSize_ofList fun c hc => ?_).trans List.length_replicate
  rw [List.eq_of_mem_replicate hc]
  rfl

theorem piecesParams_length (hn : 0 < n) : (encodePutObject (piecesParams n)).length = 3739 + headLen n + 8 * n := by
  have hkey : Cbor.textLen (piecesParams n).key = 3703 := by
    rw [Cbor.textLen, piecesKey_size]
    rfl
  have hsize : headLen (piecesParams n).size = 1 := rfl
  have hfields : fieldsBytes (optionalFields (piecesParams n).contentType (piecesParams n).userMetadata) = 14 +
      headLen n + 8 * n :=
    pieces_bytes n hn
  rw [encodePutObject_length, hkey, hsize, hfields]
  omega

/-- The checks let the request through as long as the limit on the text is kept. -/
theorem piecesParams_checked (hn : 6 * n ≤ limitMaxUserMetadataBytes) :
    checkPut wideCluster (piecesParams n) = .ok () := by
  have hkey : checkKey wideCluster (piecesParams n).key = .ok () := by
    rw [checkKey, if_neg, if_neg]
    · rw [piecesKey_size]
      decide
    · rw [String.isEmpty_iff_utf8ByteSize_eq_zero, piecesKey_size]
      decide
  have htext : ((piecesParams n).userMetadata.map fun kv => kv.1.utf8ByteSize + kv.2.utf8ByteSize).sum = 6 * n :=
    pieces_text n
  rw [checkPut, hkey]
  dsimp only
  rw [htext, if_neg, if_neg, if_neg]
  · exact Nat.not_lt_zero _
  · exact Nat.not_lt.mpr hn
  · exact Nat.not_lt_zero _

end Pieces

/-- Every time shown as the first one: no time has a shorter text. -/
def epochText (_ : ℤ) : String := "1970-01-01T00:00:00Z"

def alone : Scheme := ⟨1, 0, Nat.one_pos, pair.data_le, Nat.zero_le _, by decide⟩

def piecesRecord : MetadataRecord :=
  putRecord smallCrates wideCluster alone 1 0 (piecesParams manyPieces) [⟨0, 0, .active, true, 0, 0⟩] 0 0

theorem piecesRecord_length : (encodeRecord epochText piecesRecord).length = 67112897 := by
  have hgrowth : putGrowth epochText wideCluster alone 0 [⟨0, 0, .active, true, 0, 0⟩] 0 = 289 := rfl
  have hhead : headLen manyPieces = 5 := rfl
  rw [piecesRecord, putRecord_length, hgrowth, piecesParams_length manyPieces (by decide), hhead, manyPieces]

theorem piecesRecord_page : (localLookup (smallCrates.measuring epochText) wideCluster 0 0 none).run.eval exec
    (holding [⟨0, piecesRecord⟩]) = (.ok ⟨[⟨0, piecesRecord⟩], false, []⟩, holding [⟨0, piecesRecord⟩]) := rfl

/-- **An object that is stored and cannot be read**: its request fits and passes the checks, its record is written, and
the page that the node then answers a lookup with does not fit in a frame. -/
theorem record_overflows :
    wideDocument.validate plainText = .ok () ∧ wideDocument.scheme = .ok alone ∧
      (encodePutObject (piecesParams manyPieces)).length ≤ maxPayloadLen ∧
      checkPut wideCluster (piecesParams manyPieces) = .ok () ∧
      (encodePutMeta epochText 0 piecesRecord).length ≤ maxPayloadLen ∧
      ∃ page, (localLookup (smallCrates.measuring epochText) wideCluster 0
          (smallCrates.hashKey piecesRecord.key) none).run.eval exec (holding [⟨0, piecesRecord⟩]) =
          (.ok page, holding [⟨0, piecesRecord⟩]) ∧
        page = ⟨[⟨0, piecesRecord⟩], false, []⟩ ∧ ¬(encodeLocalLookup epochText page).length ≤ maxPayloadLen := by
  refine ⟨by decide +kernel, rfl, ?_, piecesParams_checked manyPieces (by decide), ?_, _, piecesRecord_page, rfl, ?_⟩
  · have hhead : headLen manyPieces = 5 := rfl
    rw [piecesParams_length manyPieces (by decide), hhead, manyPieces]
    decide
  · rw [encodePutMeta_length, piecesRecord_length]
    decide
  · have hone : headLen 1 = 1 := rfl
    have hzero : headLen 0 = 1 := rfl
    rw [encodeLocalLookup_length]
    simp only [List.length_cons, List.length_nil, List.map_cons, List.map_nil, List.sum_cons, List.sum_nil,
      piecesRecord_length, Nat.zero_add, hone, hzero]
    decide

end Djbod
