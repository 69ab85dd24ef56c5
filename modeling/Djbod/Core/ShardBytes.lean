import Djbod.Core.ShardFile
import Djbod.Data.Buffer
import Djbod.Data.Outcome

/-!
# Shard files as bytes

The header page, the blocks, the footer with its checksum table and the trailer, as they lie on disk.

* `ShardFileHeader.encode`, `decode` : the header page, `decode_encode`;
* `ShardFileFooter.encodeWithTrailer`, `decodeWithTrailer` : footer and trailer, `decodeWithTrailer_encode`;
* `ShardFileOutput` : the writer with the bytes it has written;
* `ShardFileReader.openFile`, `readBlock` : the reader, its arithmetic that of a checked build.
-/

namespace Djbod

open Pieces Buffer Checked

def magic : Bytes := [0x44, 0x4A, 0x42, 0x4F, 0x44, 0x2D, 0x53, 0x46]

def shardFormatVersion : ℕ := 1

def checksumAlgorithmXxh364 : ℕ := 1

/-! ## Fields -/

def offHeaderMagic : ℕ := 0
def offHeaderFormatVersion : ℕ := 8
def offHeaderChecksumAlgorithm : ℕ := 12
def offHeaderFlags : ℕ := 16
def offHeaderK : ℕ := 20
def offHeaderM : ℕ := 21
def offHeaderShardIndex : ℕ := 22
def offHeaderBlockLength : ℕ := 24
def offHeaderKeyHash : ℕ := 32
def offHeaderVersionId : ℕ := 64
def offHeaderChecksum : ℕ := 80

def offFooterBlockCount : ℕ := 0
def offFooterLastBlockLength : ℕ := 8
def offFooterObjectSize : ℕ := 16
def offFooterObjectChecksum : ℕ := 24
def offFooterChecksum : ℕ := 32
def offFooterTable : ℕ := 40

def writeU32 (buf : Bytes) (offset value : ℕ) : Bytes := writeAt buf offset (toLe 4 value)

def writeU64 (buf : Bytes) (offset value : ℕ) : Bytes := writeAt buf offset (toLe 8 value)

def readU8 (buf : Bytes) (offset : ℕ) : ℕ := ofLe (readAt buf offset 1)

def readU32 (buf : Bytes) (offset : ℕ) : ℕ := ofLe (readAt buf offset 4)

def readU64 (buf : Bytes) (offset : ℕ) : ℕ := ofLe (readAt buf offset 8)

section Format

variable (xxh3 : Bytes → BlockChecksum)

/-- The checksum of a region with the eight bytes at `zeroedAt` taken as zero. -/
def checksumWithFieldZeroed (bytes : Bytes) (zeroedAt : ℕ) : BlockChecksum :=
  xxh3 (writeAt bytes zeroedAt (List.replicate 8 0))

/-- A region with its checksum in the eight bytes at `offset`. -/
def sealField (bytes : Bytes) (offset : ℕ) : Bytes :=
  writeU64 bytes offset (checksumWithFieldZeroed xxh3 bytes offset).toNat

namespace ShardFileHeader

def fields (header : ShardFileHeader) : Bytes :=
  let page : Bytes := List.replicate headerLen 0
  let page := writeAt page offHeaderMagic magic
  let page := writeU32 page offHeaderFormatVersion shardFormatVersion
  let page := writeU32 page offHeaderChecksumAlgorithm checksumAlgorithmXxh364
  let page := writeU32 page offHeaderFlags 0
  let page := writeAt page offHeaderK (toLe 1 header.scheme.dataShards)
  let page := writeAt page offHeaderM (toLe 1 header.scheme.parityShards)
  let page := writeAt page offHeaderShardIndex (toLe 1 header.shardIndex)
  let page := writeU64 page offHeaderBlockLength header.blockLength
  let page := writeAt page offHeaderKeyHash (toBe 32 header.keyHash)
  writeAt page offHeaderVersionId (toBe 16 header.versionId)

def encode (header : ShardFileHeader) : Bytes := sealField xxh3 header.fields offHeaderChecksum

def decode (page : Bytes) : Except ShardFileError ShardFileHeader :=
  if page.length ≠ headerLen then .error (.tooShort page.length)
  else if readAt page offHeaderMagic 8 ≠ magic then .error .badMagic
  else if readU32 page offHeaderFormatVersion ≠ shardFormatVersion then
    .error (.unsupportedFormatVersion (readU32 page offHeaderFormatVersion))
  else if readU32 page offHeaderChecksumAlgorithm ≠ checksumAlgorithmXxh364 then
    .error (.unsupportedChecksumAlgorithm (readU32 page offHeaderChecksumAlgorithm))
  else if (checksumWithFieldZeroed xxh3 page offHeaderChecksum).toNat ≠ readU64 page offHeaderChecksum then
    .error .headerChecksumMismatch
  else
    match Scheme.new (readU8 page offHeaderK) (readU8 page offHeaderM) with
    | .error e => .error (.invalidScheme e)
    | .ok scheme =>
      let shardIndex := readU8 page offHeaderShardIndex
      if !scheme.contains shardIndex then .error (.shardIndexOutOfRange shardIndex)
      else
        .ok
          { scheme := scheme
            shardIndex := shardIndex
            blockLength := readU64 page offHeaderBlockLength
            keyHash := Fin.ofNat (2 ^ 256) (ofBe (readAt page offHeaderKeyHash 32))
            versionId := Fin.ofNat (2 ^ 128) (ofBe (readAt page offHeaderVersionId 16)) }

end ShardFileHeader

namespace ShardFileFooter

def encodedLength (footer : ShardFileFooter) : ℕ := footerFixedLen + 8 * footer.checksums.length

/-- Footer and trailer before the footer's checksum is filled in. -/
def fields (footer : ShardFileFooter) (footerOffset : ℕ) : Bytes :=
  let footerLen := footer.encodedLength
  let bytes : Bytes := List.replicate (footerLen + trailerLen) 0
  let bytes := writeU64 bytes offFooterBlockCount footer.blockCount
  let bytes := writeU64 bytes offFooterLastBlockLength footer.lastBlockLength
  let bytes := writeU64 bytes offFooterObjectSize footer.objectSize
  let bytes := writeU64 bytes offFooterObjectChecksum footer.objectChecksum.toNat
  let bytes := writeEach bytes offFooterTable (footer.checksums.map fun checksum => toLe 8 checksum.toNat)
  let bytes := writeU64 bytes footerLen footerLen
  writeU64 bytes (footerLen + 8) footerOffset

def encodeWithTrailer (footer : ShardFileFooter) (footerOffset : ℕ) : Bytes :=
  sealField xxh3 (footer.fields footerOffset) offFooterChecksum

/-- The checks on footer and trailer after the length was found to be possible. -/
def decodeFields (bytes : Bytes) (footerLen : ℕ) : Except ShardFileError ShardFileFooter :=
  let blockCount := readU64 bytes offFooterBlockCount
  let tableEntries := (footerLen - footerFixedLen) / 8
  if (checksumWithFieldZeroed xxh3 bytes offFooterChecksum).toNat ≠ readU64 bytes offFooterChecksum then
    .error .footerChecksumMismatch
  else if blockCount ≠ tableEntries then
    .error (.inconsistentFooter s!"block count {blockCount} but checksum table has {tableEntries} entries")
  else if blockCount = 0 then .error .noBlocks
  else
    .ok
      { blockCount := blockCount
        lastBlockLength := readU64 bytes offFooterLastBlockLength
        objectSize := readU64 bytes offFooterObjectSize
        objectChecksum := UInt64.ofNat (readU64 bytes offFooterObjectChecksum)
        checksums := (List.range blockCount).map fun i => UInt64.ofNat (readU64 bytes (offFooterTable + 8 * i)) }

def decodeWithTrailer (bytes : Bytes) : Outcome ShardFileError ShardFileFooter := do
  let footerLen ← sub bytes.length trailerLen
  if footerLen < footerFixedLen ∨ (footerLen - footerFixedLen) % 8 ≠ 0 then .error (.badFooterLength footerLen)
  else .ofExcept (decodeFields xxh3 bytes footerLen)

end ShardFileFooter

/-! ## Writing -/

/-- A shard file writer and what its file holds. -/
structure ShardFileOutput where
  writer : ShardFileWriter
  file : Bytes

namespace ShardFileOutput

def create (header : ShardFileHeader) : Except ShardFileError ShardFileOutput :=
  (ShardFileWriter.create header).map fun writer => ⟨writer, header.encode xxh3⟩

def appendBlock (w : ShardFileOutput) (block : ShardBlock) : Except ShardFileError ShardFileOutput :=
  (w.writer.appendBlock xxh3 block).map fun writer => ⟨writer, w.file ++ block.bytes⟩

def footerOffset (header : ShardFileHeader) (footer : ShardFileFooter) : ℕ :=
  headerLen + (footer.blockCount - 1) * header.blockLength + footer.lastBlockLength

def finish (w : ShardFileOutput) (objectSize : ℕ) (objectChecksum : BlockChecksum) :
    Except ShardFileError (ShardFileFooter × Bytes) :=
  (w.writer.finish objectSize objectChecksum).map fun file =>
    (file.footer, w.file ++ file.footer.encodeWithTrailer xxh3 (footerOffset w.writer.header file.footer))

def appendAll (w : ShardFileOutput) : List ShardBlock → Except ShardFileError ShardFileOutput
  | [] => .ok w
  | block :: rest =>
    match w.appendBlock xxh3 block with
    | .error e => .error e
    | .ok w => w.appendAll rest

end ShardFileOutput

/-- The footer and the bytes of a shard file written in full. -/
def writeFile (header : ShardFileHeader) (blocks : List ShardBlock) (objectSize : ℕ) (objectChecksum : BlockChecksum) :
    Except ShardFileError (ShardFileFooter × Bytes) :=
  match ShardFileOutput.create xxh3 header with
  | .error e => .error e
  | .ok w =>
    match w.appendAll xxh3 blocks with
    | .error e => .error e
    | .ok w => w.finish xxh3 objectSize objectChecksum

def ShardFile.encode (file : ShardFile) : Bytes :=
  file.header.encode xxh3 ++ (file.blocks.flatten ++
    file.footer.encodeWithTrailer xxh3 (ShardFileOutput.footerOffset file.header file.footer))

/-! ## Reading -/

def readExactAt (file : Bytes) (offset n : ℕ) : Outcome ShardFileError Bytes :=
  if offset + n ≤ file.length then .ok (readAt file offset n) else .error (.io .other)

/-- `shardGeometry` as it is computed in 64 bits. -/
def shardGeometryChecked (scheme : Scheme) (blockLength objectSize : ℕ) :
    Outcome ShardFileError (Option ShardGeometry) :=
  if objectSize = 0 ∨ blockLength = 0 then .ok none
  else do
    let k := scheme.dataShards
    let stripeBytes ← mul k blockLength
    let blockCount ← Checked.divCeil objectSize stripeBytes
    let full ← mul (← sub blockCount 1) stripeBytes
    let lastStripeBytes ← sub objectSize full
    let lastBlockLength ← Checked.divCeil lastStripeBytes k
    pure (some ⟨blockCount, lastBlockLength⟩)

/-- `shardFileLength` as it is computed in 64 bits. -/
def shardFileLengthChecked (scheme : Scheme) (blockLength objectSize : ℕ) : Outcome ShardFileError (Option ℕ) := do
  match ← shardGeometryChecked scheme blockLength objectSize with
  | none => pure none
  | some geometry =>
    let full ← mul (← sub geometry.blockCount 1) blockLength
    let length ← add headerLen full
    let length ← add length geometry.lastBlockLength
    let length ← add length footerFixedLen
    let length ← add length (← mul 8 geometry.blockCount)
    let length ← add length trailerLen
    pure (some length)

structure ShardFileReader where
  file : Bytes
  header : ShardFileHeader
  footer : ShardFileFooter

namespace ShardFileReader

/-- The trailer: the footer's length and offset, which have to account for the whole file. -/
def readTrailer (file : Bytes) : Outcome ShardFileError (ℕ × ℕ) :=
  let fileLength := file.length
  if fileLength < headerLen + 1 + footerFixedLen + 8 + trailerLen then .error (.tooShort fileLength)
  else do
    let trailer ← readExactAt file (← sub fileLength trailerLen) trailerLen
    let footerLength := readU64 trailer 0
    let footerOffset := readU64 trailer 8
    -- `checked_add` twice: a sum that does not fit is not the file's length either.
    if footerOffset + footerLength + trailerLen ≥ limit ∨ footerOffset + footerLength + trailerLen ≠ fileLength then
      .error (.trailerInvariant footerOffset footerLength fileLength)
    else if footerLength < footerFixedLen ∨ (footerLength - footerFixedLen) % 8 ≠ 0 then
      .error (.badFooterLength footerLength)
    else pure (footerLength, footerOffset)

def readFooter (file : Bytes) (footerLength footerOffset : ℕ) : Outcome ShardFileError ShardFileFooter := do
  let footerBytes ← readExactAt file footerOffset (← add footerLength trailerLen)
  ShardFileFooter.decodeWithTrailer xxh3 footerBytes

def readHeader (file : Bytes) : Outcome ShardFileError ShardFileHeader := do
  let page ← readExactAt file 0 headerLen
  .ofExcept (ShardFileHeader.decode xxh3 page)

/-- Header and footer have to agree with the trailer on where the blocks are. -/
def checkOffset (header : ShardFileHeader) (footer : ShardFileFooter) (footerOffset : ℕ) :
    Outcome ShardFileError Unit :=
  if footer.lastBlockLength = 0 ∨ footer.lastBlockLength > header.blockLength then
    .error (.inconsistentFooter s!"last block length {footer.lastBlockLength} with block length {header.blockLength}")
  else do
    let full ← mul (← sub footer.blockCount 1) header.blockLength
    let expected ← add (← add headerLen full) footer.lastBlockLength
    if expected ≠ footerOffset then
      .error (.inconsistentFooter (s!"{footer.blockCount} blocks of {header.blockLength} bytes plus a last block of " ++
        s!"{footer.lastBlockLength} put the footer at {expected}, trailer says {footerOffset}"))
    else pure ()

/-- The blocks have to be what the recorded object size implies. -/
def checkGeometry (header : ShardFileHeader) (footer : ShardFileFooter) : Outcome ShardFileError Unit := do
  let geometry ← shardGeometryChecked header.scheme header.blockLength footer.objectSize
  if geometry ≠ some ⟨footer.blockCount, footer.lastBlockLength⟩ then
    .error (.geometryMismatch footer.objectSize (geometry.elim 0 (·.blockCount)) (geometry.elim 0 (·.lastBlockLength))
      footer.blockCount footer.lastBlockLength)
  else pure ()

/-- What trailer, footer and header say, each of them checked by itself. -/
structure Parts where
  header : ShardFileHeader
  footer : ShardFileFooter
  footerOffset : ℕ

def readParts (file : Bytes) : Outcome ShardFileError Parts := do
  let (footerLength, footerOffset) ← readTrailer file
  let footer ← readFooter xxh3 file footerLength footerOffset
  let header ← readHeader xxh3 file
  pure ⟨header, footer, footerOffset⟩

def openFile (file : Bytes) : Outcome ShardFileError ShardFileReader := do
  let parts ← readParts xxh3 file
  checkOffset parts.header parts.footer parts.footerOffset
  checkGeometry parts.header parts.footer
  pure ⟨file, parts.header, parts.footer⟩

def blockLength (reader : ShardFileReader) (index : ℕ) : Outcome ShardFileError ℕ :=
  if index ≥ reader.footer.blockCount then .error (.blockOutOfRange index reader.footer.blockCount)
  else do
    let last ← sub reader.footer.blockCount 1
    if index = last then pure reader.footer.lastBlockLength else pure reader.header.blockLength

def readBlock (reader : ShardFileReader) (index : ℕ) : Outcome ShardFileError ShardBlock := do
  let length ← reader.blockLength index
  let bytes ← readExactAt reader.file (← add headerLen (← mul index reader.header.blockLength)) length
  let checksum ← nth reader.footer.checksums index
  pure ⟨reader.header.shardIndex, bytes, checksum⟩

end ShardFileReader

end Format

/-! ## What was written is read -/

section RoundTrip

variable {xxh3 : Bytes → BlockChecksum}

theorem sealField_length (bytes : Bytes) (offset : ℕ) : (sealField xxh3 bytes offset).length = bytes.length := by
  simp [sealField, writeU64]

variable {bytes : Bytes} {offset : ℕ}

theorem readAt_sealField {o n : ℕ} (h : o + n ≤ offset ∨ offset + 8 ≤ o) :
    readAt (sealField xxh3 bytes offset) o n = readAt bytes o n := by
  rw [sealField, writeU64, readAt_writeAt_of_disjoint (by simpa using h)]

theorem checksum_sealField (h : offset + 8 ≤ bytes.length) :
    (checksumWithFieldZeroed xxh3 (sealField xxh3 bytes offset) offset).toNat =
    readU64 (sealField xxh3 bytes offset) offset := by
  have hsame : checksumWithFieldZeroed xxh3 (sealField xxh3 bytes offset) offset =
      checksumWithFieldZeroed xxh3 bytes offset := by
    rw [checksumWithFieldZeroed, sealField, writeU64, writeAt_writeAt (by simp), checksumWithFieldZeroed]
  rw [hsame, readU64, sealField, writeU64, readAt_writeAt (by simpa using h) (by simp), ofLe_toLe]
  exact UInt64.toNat_lt _

namespace ShardFileHeader

/-- A header of which a file can be written: its shard is one of the scheme's, and its block length a 64-bit number. -/
structure Valid (header : ShardFileHeader) : Prop where
  index_lt : header.shardIndex < header.scheme.totalShards
  blockLength_lt : header.blockLength < limit

theorem fields_length (header : ShardFileHeader) : header.fields.length = headerLen := by
  simp [fields, writeU32, writeU64]

theorem fields_read (header : ShardFileHeader) :
    readAt header.fields offHeaderMagic 8 = magic ∧
    readAt header.fields offHeaderFormatVersion 4 = toLe 4 shardFormatVersion ∧
    readAt header.fields offHeaderChecksumAlgorithm 4 = toLe 4 checksumAlgorithmXxh364 ∧
    readAt header.fields offHeaderK 1 = toLe 1 header.scheme.dataShards ∧
    readAt header.fields offHeaderM 1 = toLe 1 header.scheme.parityShards ∧
    readAt header.fields offHeaderShardIndex 1 = toLe 1 header.shardIndex ∧
    readAt header.fields offHeaderBlockLength 8 = toLe 8 header.blockLength ∧
    readAt header.fields offHeaderKeyHash 32 = toBe 32 header.keyHash ∧
    readAt header.fields offHeaderVersionId 16 = toBe 16 header.versionId := by
  have hlen : (List.replicate headerLen (0 : UInt8)).length = 4096 := by rw [List.length_replicate, headerLen]
  simp only [fields, writeU32, writeU64]
  generalize List.replicate headerLen (0 : UInt8) = page at hlen ⊢
  simp [readAt_writeAt, readAt_writeAt_of_disjoint, hlen, offHeaderMagic, offHeaderFormatVersion,
    offHeaderChecksumAlgorithm, offHeaderFlags, offHeaderK, offHeaderM, offHeaderShardIndex, offHeaderBlockLength,
    offHeaderKeyHash, offHeaderVersionId, magic]

theorem encode_length (xxh3 : Bytes → BlockChecksum) (header : ShardFileHeader) :
    (header.encode xxh3).length = headerLen := by
  rw [encode, sealField_length, fields_length]

/-- **A header page is read back** as the header it was made from. -/
theorem decode_encode {header : ShardFileHeader} (h : header.Valid) :
    decode xxh3 (header.encode xxh3) = .ok header := by
  obtain ⟨hmagic, hversion, halgorithm, hk, hm, hindex, hblock, hkey, hid⟩ := header.fields_read
  have hkeep : ∀ {o n : ℕ}, o + n ≤ 80 → readAt (header.encode xxh3) o n = readAt header.fields o n :=
    fun ho => readAt_sealField (.inl ho)
  have htotal := header.scheme.total_le
  have hlt := h.index_lt
  rw [Scheme.totalShards] at hlt
  simp only [maxTotalShards] at htotal
  have hscheme : Scheme.new (readU8 (header.encode xxh3) offHeaderK) (readU8 (header.encode xxh3) offHeaderM) =
      .ok header.scheme := by
    rw [readU8, readU8, hkeep (by decide), hkeep (by decide), hk, hm, ofLe_toLe (by omega), ofLe_toLe (by omega),
      Scheme.new_self]
  have hshard : readU8 (header.encode xxh3) offHeaderShardIndex = header.shardIndex := by
    rw [readU8, hkeep (by decide), hindex, ofLe_toLe (by omega)]
  have hlength : readU64 (header.encode xxh3) offHeaderBlockLength = header.blockLength := by
    rw [readU64, hkeep (by decide), hblock, ofLe_toLe h.blockLength_lt]
  have hkh : Fin.ofNat (2 ^ 256) (ofBe (readAt (header.encode xxh3) offHeaderKeyHash 32)) = header.keyHash := by
    rw [hkeep (by decide), hkey, ofBe_toBe header.keyHash.isLt, Fin.ofNat_val_eq_self]
  have hvid : Fin.ofNat (2 ^ 128) (ofBe (readAt (header.encode xxh3) offHeaderVersionId 16)) = header.versionId := by
    rw [hkeep (by decide), hid, ofBe_toBe header.versionId.isLt, Fin.ofNat_val_eq_self]
  have hcontains : header.scheme.contains header.shardIndex = true := decide_eq_true h.index_lt
  have hsum : (checksumWithFieldZeroed xxh3 (header.encode xxh3) offHeaderChecksum).toNat = readU64 (header.encode xxh3)
      offHeaderChecksum :=
    checksum_sealField (by rw [fields_length]; decide)
  unfold decode
  rw [if_neg (not_not.mpr (header.encode_length xxh3)), if_neg (not_not.mpr ((hkeep (by decide)).trans hmagic)),
    if_neg (not_not.mpr (by rw [readU32, hkeep (by decide), hversion, ofLe_toLe (by decide)])),
    if_neg (not_not.mpr (by rw [readU32, hkeep (by decide), halgorithm, ofLe_toLe (by decide)])),
    if_neg (not_not.mpr hsum), hscheme]
  simp only [hshard, hcontains, hlength, hkh, hvid, Bool.not_true, Bool.false_eq_true, if_false]

end ShardFileHeader

namespace ShardFileFooter

/-- A footer whose numbers fit into 64 bits, with a table for its blocks. -/
structure Valid (footer : ShardFileFooter) : Prop where
  count_pos : 0 < footer.blockCount
  count_eq : footer.checksums.length = footer.blockCount
  count_lt : footer.blockCount < limit
  last_lt : footer.lastBlockLength < limit
  size_lt : footer.objectSize < limit

theorem fields_length (footer : ShardFileFooter) (offset : ℕ) :
    (footer.fields offset).length = footer.encodedLength + trailerLen := by
  simp [fields, writeU64, writeEach_eq]

theorem fields_read (footer : ShardFileFooter) (offset : ℕ) :
    readAt (footer.fields offset) offFooterBlockCount 8 = toLe 8 footer.blockCount ∧
    readAt (footer.fields offset) offFooterLastBlockLength 8 = toLe 8 footer.lastBlockLength ∧
    readAt (footer.fields offset) offFooterObjectSize 8 = toLe 8 footer.objectSize ∧
    readAt (footer.fields offset) offFooterObjectChecksum 8 = toLe 8 footer.objectChecksum.toNat ∧
    (∀ i checksum, footer.checksums[i]? = some checksum →
      readAt (footer.fields offset) (offFooterTable + 8 * i) 8 = toLe 8 checksum.toNat) ∧
    readAt (footer.fields offset) footer.encodedLength 8 = toLe 8 footer.encodedLength ∧
    readAt (footer.fields offset) (footer.encodedLength + 8) 8 = toLe 8 offset := by
  have hwidth : ∀ e ∈ footer.checksums.map fun checksum => toLe 8 checksum.toNat, e.length = 8 := by
    intro e he
    obtain ⟨checksum, _, rfl⟩ := List.mem_map.mp he
    exact toLe_length _ _
  have htable := flatten_length_of_width hwidth
  rw [List.length_map] at htable
  have hlen : (List.replicate (footer.encodedLength + trailerLen) (0 : UInt8)).length = 40 + 8 *
      footer.checksums.length + 16 := by
    rw [List.length_replicate, encodedLength, footerFixedLen, trailerLen]
  have hsize : footer.encodedLength = 40 + 8 * footer.checksums.length := rfl
  simp only [fields, writeU64, writeEach_eq]
  generalize List.replicate (footer.encodedLength + trailerLen) (0 : UInt8) = page at hlen ⊢
  simp only [offFooterBlockCount, offFooterLastBlockLength, offFooterObjectSize, offFooterObjectChecksum,
    offFooterTable, hsize]
  -- Each read passes the writes beside it and meets the one that filled its field.
  refine ⟨?_, ?_, ?_, ?_, fun i checksum hi => ?_, ?_, ?_⟩
  case refine_5 =>
    have hbound : i < footer.checksums.length := (List.getElem?_eq_some_iff.mp hi).1
    rw [readAt_writeAt_of_disjoint (by rw [toLe_length]; omega), readAt_writeAt_of_disjoint
      (by rw [toLe_length]; omega), readAt_writeAt_within (by simp only [htable, hlen, writeAt_length]; omega)
      (by rw [htable]; omega)]
    exact readAt_flatten hwidth (by rw [List.getElem?_map, hi, Option.map_some])
  all_goals
    simp (disch := ((try simp only [toLe_length, htable, hlen, writeAt_length]) <;> omega))
      only [readAt_writeAt, readAt_writeAt_of_disjoint]

theorem encodeWithTrailer_length (xxh3 : Bytes → BlockChecksum) (footer : ShardFileFooter) (offset : ℕ) :
    (footer.encodeWithTrailer xxh3 offset).length = footer.encodedLength + trailerLen := by
  rw [encodeWithTrailer, sealField_length, fields_length]

variable {footer : ShardFileFooter}

/-- **Footer and trailer are read back** as the footer they were made from. -/
theorem decodeWithTrailer_encode (h : footer.Valid) (offset : ℕ) :
    decodeWithTrailer xxh3 (footer.encodeWithTrailer xxh3 offset) = .ok footer := by
  obtain ⟨hcount, hlast, hsize, hchecksum, htable, -, -⟩ := footer.fields_read offset
  set bytes := footer.encodeWithTrailer xxh3 offset with hbytes
  have hkeep : ∀ {o n : ℕ}, o + n ≤ 32 ∨ 40 ≤ o → readAt bytes o n = readAt (footer.fields offset) o n :=
    fun ho => readAt_sealField ho
  have hlen : footer.encodedLength = 40 + 8 * footer.blockCount := by
    rw [encodedLength, footerFixedLen, h.count_eq]
  have hcount' : readU64 bytes offFooterBlockCount = footer.blockCount := by
    rw [readU64, hkeep (by decide), hcount, ofLe_toLe h.count_lt]
  have hsum : (checksumWithFieldZeroed xxh3 bytes offFooterChecksum).toNat = readU64 bytes offFooterChecksum := by
    refine checksum_sealField ?_
    rw [fields_length, hlen]
    simp only [offFooterChecksum, trailerLen]
    omega
  have hentries : (List.range footer.blockCount).map (fun i => UInt64.ofNat (readU64 bytes (offFooterTable + 8 * i))) =
      footer.checksums := by
    apply List.ext_getElem?
    intro i
    rw [List.getElem?_map]
    by_cases hi : i < footer.blockCount
    · have hget := List.getElem?_eq_getElem (h.count_eq.symm ▸ hi : i < footer.checksums.length)
      rw [List.getElem?_range hi, Option.map_some, readU64, hkeep (.inr (by simp only [offFooterTable]; omega)),
        htable i _ hget, ofLe_toLe (UInt64.toNat_lt _), UInt64.ofNat_toNat, hget]
    · rw [List.getElem?_eq_none (by simpa using hi), List.getElem?_eq_none (by rw [h.count_eq]; omega), Option.map_none]
  have hfields : decodeFields xxh3 bytes footer.encodedLength = .ok footer := by
    have hpos := h.count_pos
    unfold decodeFields
    dsimp only
    rw [if_neg (not_not.mpr hsum), hcount', if_neg (not_not.mpr (by rw [hlen, footerFixedLen]; omega)),
      if_neg (by omega), hentries, readU64, hkeep (by decide), hlast, ofLe_toLe h.last_lt, readU64, hkeep (by decide),
      hsize, ofLe_toLe h.size_lt, readU64, hkeep (by decide), hchecksum, ofLe_toLe (UInt64.toNat_lt _),
      UInt64.ofNat_toNat]
  rw [decodeWithTrailer, hbytes, encodeWithTrailer_length, sub_ok (Nat.le_add_left _ _), Outcome.ok_bind,
    Nat.add_sub_cancel, if_neg (by rw [hlen, footerFixedLen]; omega), ← hbytes, hfields]
  rfl

theorem trailer_read (xxh3 : Bytes → BlockChecksum) (hlen : footer.encodedLength < limit) (hoff : offset < limit) :
    readU64 (readAt (footer.encodeWithTrailer xxh3 offset) footer.encodedLength trailerLen) 0 = footer.encodedLength ∧
      readU64 (readAt (footer.encodeWithTrailer xxh3 offset) footer.encodedLength trailerLen) 8 = offset := by
  obtain ⟨-, -, -, -, -, hlength, hoffset⟩ := footer.fields_read offset
  have hfar : offFooterChecksum + 8 ≤ footer.encodedLength := Nat.le_add_right _ _
  constructor
  · rw [readU64, readAt_readAt (by decide), Nat.add_zero, encodeWithTrailer, readAt_sealField (.inr hfar),
      hlength, ofLe_toLe hlen]
  · rw [readU64, readAt_readAt (by decide), encodeWithTrailer,
      readAt_sealField (.inr (by exact hfar.trans (Nat.le_add_right _ _))), hoffset, ofLe_toLe hoff]

end ShardFileFooter

/-! ## A whole file -/

/-- A file whose blocks are those that its header, its footer and the object's size imply. -/
structure ShardFile.Sound (file : ShardFile) : Prop where
  header : file.header.Valid
  fit : FitBlocks file.header.blockLength file.blocks
  last : file.blocks.getLast?.map List.length = some file.footer.lastBlockLength
  geometry : shardGeometry file.header.scheme file.header.blockLength file.footer.objectSize =
    some ⟨file.footer.blockCount, file.footer.lastBlockLength⟩

/-- The lengths of the object and of the file do not exceed 64 bits. -/
structure ShardFile.Fits (xxh3 : Bytes → BlockChecksum) (file : ShardFile) : Prop where
  size : file.footer.objectSize < limit
  length : (file.encode xxh3).length < limit

variable {B : ℕ} {bs : List Bytes}

theorem FitBlocks.flatten_length (h : FitBlocks B bs) {last : ℕ} (hlast : bs.getLast?.map List.length = some last) :
    bs.flatten.length = (bs.length - 1) * B + last := by
  obtain ⟨b, hb, rfl⟩ := Option.map_eq_some_iff.mp hlast
  obtain ⟨front, rfl⟩ := List.getLast?_eq_some_iff.mp hb
  have hfull : ∀ e ∈ front, e.length = B := fun e he => h.full e (by rwa [List.dropLast_concat])
  rw [List.flatten_append, List.length_append, flatten_length_of_width hfull]
  simp [Nat.mul_comm]

variable {b : Bytes} {i : ℕ}

theorem FitBlocks.readAt_flatten (h : FitBlocks B bs) (hi : bs[i]? = some b) :
    readAt bs.flatten (i * B) b.length = b := by
  obtain ⟨hlt, hget⟩ := List.getElem?_eq_some_iff.mp hi
  have hsplit : bs = bs.take i ++ b :: bs.drop (i + 1) := by
    rw [← hget, List.getElem_cons_drop, List.take_append_drop]
  have hfull : ∀ e ∈ bs.take i, e.length = B := by
    intro e he
    refine h.full e ?_
    rw [List.dropLast_eq_take]
    exact (List.take_subset_take_left bs (by omega : i ≤ bs.length - 1)) he
  have hfront : (bs.take i).flatten.length = i * B := by
    rw [flatten_length_of_width hfull, List.length_take, Nat.min_eq_left hlt.le, Nat.mul_comm]
  conv_lhs => rw [hsplit, List.flatten_append, List.flatten_cons]
  rw [show i * B = (bs.take i).flatten.length +
    0 by omega, readAt_append_right, readAt_append_left (by omega), readAt_self]

section Geometry

variable {scheme : Scheme} {B size : ℕ}

/-- The geometry in 64 bits is the exact one, as long as a stripe's length fits. -/
theorem shardGeometryChecked_ok (hsize : size < limit) (hstripe : scheme.dataShards * B < limit) :
    shardGeometryChecked scheme B size = .ok (shardGeometry scheme B size) := by
  unfold shardGeometryChecked shardGeometry
  by_cases hzero : size = 0 ∨ B = 0
  · rw [if_pos hzero, if_pos hzero]
  · rw [if_neg hzero, if_neg hzero]
    have hS : 0 < scheme.dataShards * B := Nat.mul_pos scheme.data_pos (by omega)
    have hcount := divCeil_pos (show 0 < size by omega) hS
    have hfull := mul_lt_of_lt_divCeil hS (Nat.sub_one_lt hcount.ne')
    dsimp only
    rw [mul_ok hstripe, Outcome.ok_bind, divCeil_ok hS, Outcome.ok_bind, sub_ok (by omega), Outcome.ok_bind,
      mul_ok (by omega), Outcome.ok_bind, sub_ok (by omega), Outcome.ok_bind, divCeil_ok scheme.data_pos]
    rfl

/-- A stripe whose length does not fit stops the program. -/
theorem shardGeometryChecked_panic (hzero : ¬ (size = 0 ∨ B = 0)) (hstripe : limit ≤ scheme.dataShards * B) :
    shardGeometryChecked scheme B size = .panic .overflow := by
  unfold shardGeometryChecked
  rw [if_neg hzero]
  dsimp only
  rw [mul_overflow hstripe]
  rfl

end Geometry

namespace ShardFile.Sound

variable {file : ShardFile}

theorem count_pos (h : file.Sound) : 0 < file.footer.blockCount := by
  obtain ⟨b, hb, -⟩ := Option.map_eq_some_iff.mp h.last
  rw [← file.blocks_length]
  exact List.length_pos_of_mem (List.mem_of_getLast? hb)

theorem last_pos (h : file.Sound) : 0 < file.footer.lastBlockLength ∧
    file.footer.lastBlockLength ≤ file.header.blockLength := by
  obtain ⟨b, hb, hlen⟩ := Option.map_eq_some_iff.mp h.last
  have hmem := List.mem_of_getLast? hb
  exact hlen ▸ ⟨h.fit.pos b hmem, h.fit.le b hmem⟩

theorem footerOffset_eq (h : file.Sound) :
    headerLen + file.blocks.flatten.length = ShardFileOutput.footerOffset file.header file.footer := by
  rw [h.fit.flatten_length h.last, ShardFileOutput.footerOffset, file.blocks_length, Nat.add_assoc]

theorem length_eq (xxh3 : Bytes → BlockChecksum) (h : file.Sound) : (file.encode xxh3).length =
    ShardFileOutput.footerOffset file.header file.footer + file.footer.encodedLength + trailerLen := by
  rw [encode, List.length_append, List.length_append, ShardFileHeader.encode_length,
    ShardFileFooter.encodeWithTrailer_length, ← h.footerOffset_eq]
  omega

theorem encode_length (xxh3 : Bytes → BlockChecksum) (h : file.Sound) :
    shardFileLength file.header.scheme file.header.blockLength file.footer.objectSize =
    some (file.encode xxh3).length := by
  rw [shardFileLength, h.geometry, h.length_eq xxh3, ShardFileOutput.footerOffset, ShardFileFooter.encodedLength,
    file.checksums_length, file.blocks_length, Option.map_some]
  congr 1
  dsimp only
  omega

theorem footer_valid (h : file.Sound) (hfits : file.Fits xxh3) : file.footer.Valid := by
  have hcount := h.count_pos
  have hlength := hfits.length
  rw [h.length_eq xxh3, ShardFileOutput.footerOffset, ShardFileFooter.encodedLength, file.checksums_length,
    file.blocks_length] at hlength
  exact ⟨hcount, by rw [file.checksums_length, file.blocks_length], by omega, by omega, hfits.size⟩

theorem readAt_footer (xxh3 : Bytes → BlockChecksum) (h : file.Sound) (d n : ℕ) :
    readAt (file.encode xxh3) (ShardFileOutput.footerOffset file.header file.footer + d) n =
    readAt (file.footer.encodeWithTrailer xxh3 (ShardFileOutput.footerOffset file.header file.footer)) d n := by
  conv_lhs => rw [← h.footerOffset_eq, ← file.header.encode_length xxh3, Nat.add_assoc]
  rw [encode, readAt_append_right, readAt_append_right]

theorem readTrailer (h : file.Sound) (hfits : file.Fits xxh3) :
    ShardFileReader.readTrailer (file.encode xxh3) =
      .ok (file.footer.encodedLength, ShardFileOutput.footerOffset file.header file.footer) := by
  have hlen := h.length_eq xxh3
  have hfits' := hfits.length
  have hcount := h.count_pos
  have hlast := h.last_pos
  have hsize : file.footer.encodedLength = footerFixedLen + 8 * file.footer.blockCount := by
    rw [ShardFileFooter.encodedLength, file.checksums_length, file.blocks_length]
  have hoff : headerLen + file.footer.lastBlockLength ≤ ShardFileOutput.footerOffset file.header file.footer := by
    rw [ShardFileOutput.footerOffset]
    omega
  obtain ⟨hlength, hoffset⟩ := ShardFileFooter.trailer_read xxh3 (by omega : file.footer.encodedLength < limit)
    (by omega : ShardFileOutput.footerOffset file.header file.footer < limit)
  unfold ShardFileReader.readTrailer
  dsimp only
  rw [if_neg (by omega), sub_ok (by omega), Outcome.ok_bind, readExactAt, if_pos (by omega), Outcome.ok_bind,
    show (file.encode xxh3).length - trailerLen = ShardFileOutput.footerOffset file.header file.footer +
      file.footer.encodedLength by omega,
    h.readAt_footer, hlength, hoffset, if_neg (by omega), if_neg (by rw [hsize]; omega)]
  rfl

theorem readParts (h : file.Sound) (hfits : file.Fits xxh3) : ShardFileReader.readParts xxh3 (file.encode xxh3) =
    .ok ⟨file.header, file.footer, ShardFileOutput.footerOffset file.header file.footer⟩ := by
  have hlen := h.length_eq xxh3
  have hfits' := hfits.length
  have hfooter : ShardFileReader.readFooter xxh3 (file.encode xxh3) file.footer.encodedLength
      (ShardFileOutput.footerOffset file.header file.footer) = .ok file.footer := by
    have hread := h.readAt_footer xxh3 0 (file.footer.encodedLength + trailerLen)
    rw [Nat.add_zero, ← file.footer.encodeWithTrailer_length xxh3, readAt_self] at hread
    rw [ShardFileReader.readFooter, add_ok (by omega), Outcome.ok_bind, readExactAt, if_pos (by omega), Outcome.ok_bind,
      ← file.footer.encodeWithTrailer_length xxh3, hread, ShardFileFooter.decodeWithTrailer_encode
      (h.footer_valid hfits)]
  have hheader : ShardFileReader.readHeader xxh3 (file.encode xxh3) = .ok file.header := by
    have hpage : readAt (file.encode xxh3) 0 headerLen = file.header.encode xxh3 := by
      rw [encode, readAt_append_left (by rw [ShardFileHeader.encode_length]; omega),
        ← file.header.encode_length xxh3, readAt_self]
    rw [ShardFileReader.readHeader, readExactAt, if_pos (by rw [hlen, ShardFileOutput.footerOffset]; omega),
      Outcome.ok_bind, hpage, ShardFileHeader.decode_encode h.header]
    rfl
  rw [ShardFileReader.readParts, h.readTrailer hfits, Outcome.ok_bind]
  dsimp only
  rw [hfooter, Outcome.ok_bind, hheader]
  rfl

/-- **A file that was written opens**, with its header and its footer. -/
theorem openFile (h : file.Sound) (hfits : file.Fits xxh3)
    (hstripe : file.header.scheme.dataShards * file.header.blockLength < limit) :
    ShardFileReader.openFile xxh3 (file.encode xxh3) = .ok ⟨file.encode xxh3, file.header, file.footer⟩ := by
  have hlen := h.length_eq xxh3
  have hfits' := hfits.length
  have hcount := h.count_pos
  have hlast := h.last_pos
  have hoffset : ShardFileReader.checkOffset file.header file.footer
      (ShardFileOutput.footerOffset file.header file.footer) = .ok () := by
    rw [ShardFileOutput.footerOffset] at hlen ⊢
    rw [ShardFileReader.checkOffset, if_neg (by omega), sub_ok (by omega), Outcome.ok_bind, mul_ok (by omega),
      Outcome.ok_bind, add_ok (by omega), Outcome.ok_bind, add_ok (by omega), Outcome.ok_bind, if_neg (not_not.mpr rfl)]
    rfl
  have hgeometry : ShardFileReader.checkGeometry file.header file.footer = .ok () := by
    rw [ShardFileReader.checkGeometry, shardGeometryChecked_ok hfits.size hstripe, h.geometry, Outcome.ok_bind,
      if_neg (not_not.mpr rfl)]
    rfl
  rw [ShardFileReader.openFile, h.readParts hfits, Outcome.ok_bind, hoffset, Outcome.ok_bind, hgeometry]
  rfl

theorem block_length (h : file.Sound) (hb : file.blocks[i]? = some b) :
    b.length = if i = file.footer.blockCount - 1 then file.footer.lastBlockLength else file.header.blockLength := by
  obtain ⟨hlt, hget⟩ := List.getElem?_eq_some_iff.mp hb
  rw [← file.blocks_length]
  split_ifs with hi
  · have hlast := h.last
    rw [List.getLast?_eq_getElem?, ← hi, hb] at hlast
    exact Option.some.inj hlast
  · refine h.fit.full b ?_
    rw [← hget, List.dropLast_eq_take]
    exact List.mem_take_iff_getElem.mpr ⟨i, by omega, rfl⟩

/-- **Its blocks are read back**, each with its checksum. -/
theorem readBlock (h : file.Sound) (hfits : file.Fits xxh3) {checksum : BlockChecksum} (hb : file.blocks[i]? = some b)
    (hsum : file.footer.checksums[i]? = some checksum) :
    ShardFileReader.readBlock ⟨file.encode xxh3, file.header, file.footer⟩ i = .ok
    ⟨file.header.shardIndex, b, checksum⟩ := by
  have hlen := h.length_eq xxh3
  have hfits' := hfits.length
  have hlt : i < file.footer.blockCount := file.blocks_length ▸ (List.getElem?_eq_some_iff.mp hb).1
  have hblock := h.block_length hb
  have hbefore : i * file.header.blockLength ≤ (file.footer.blockCount - 1) * file.header.blockLength :=
    Nat.mul_le_mul_right _ (by omega)
  have hend : headerLen + (i * file.header.blockLength + b.length) ≤ ShardFileOutput.footerOffset file.header
      file.footer := by
    rw [ShardFileOutput.footerOffset, hblock]
    split_ifs with hi
    · omega
    · have := Nat.mul_le_mul_right file.header.blockLength (show i + 1 ≤ file.footer.blockCount - 1 by omega)
      rw [Nat.add_mul] at this
      omega
  have hlength : ShardFileReader.blockLength ⟨file.encode xxh3, file.header, file.footer⟩ i = .ok b.length := by
    simp only [ShardFileReader.blockLength]
    rw [if_neg (by omega), sub_ok (by omega), Outcome.ok_bind, hblock]
    split_ifs <;> rfl
  have hbytes : readAt (file.encode xxh3) (headerLen + i * file.header.blockLength) b.length = b := by
    conv_lhs => rw [encode, ← file.header.encode_length xxh3, readAt_append_right]
    rw [readAt_append_left (by rw [← h.footerOffset_eq] at hend; omega), h.fit.readAt_flatten hb]
  simp only [ShardFileReader.readBlock]
  rw [hlength, Outcome.ok_bind, mul_ok (by omega), Outcome.ok_bind, add_ok (by omega), Outcome.ok_bind, readExactAt,
    if_pos (by omega), Outcome.ok_bind, hbytes, nth_ok hsum]
  rfl

end ShardFile.Sound

end RoundTrip

end Djbod
