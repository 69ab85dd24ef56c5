import Djbod.Core.Stripe

/-!
# Shard files

One device's blocks for one version of one object, at the level of header, blocks and footer.

* `shardGeometry` : the block count and last block length an object's size determines;
* `ShardFileWriter` : `appendBlock` and `finish` with their checks;
* `ShardFile` : a file that opens, `ShardFile.readBlock` its blocks with their stored checksums;
* `writeShard_ok` : blocks that fit an object's geometry are accepted and stored as they are.
-/

namespace Djbod

open Pieces

/-- The 128-bit identifier of a version, ordered by creation time. -/
abbrev VersionId := Fin (2 ^ 128)

abbrev KeyHash := Fin (2 ^ 256)

instance versionId_neZero : NeZero (2 ^ 128) := inferInstance

instance keyHash_neZero : NeZero (2 ^ 256) := inferInstance

structure ShardFileHeader where
  scheme : Scheme
  shardIndex : ℕ
  blockLength : ℕ
  keyHash : KeyHash
  versionId : VersionId
  deriving DecidableEq

structure ShardFileFooter where
  blockCount : ℕ
  lastBlockLength : ℕ
  objectSize : ℕ
  objectChecksum : BlockChecksum
  checksums : List BlockChecksum
  deriving DecidableEq

structure ShardGeometry where
  blockCount : ℕ
  lastBlockLength : ℕ
  deriving DecidableEq, Repr

def headerLen : ℕ := 4096
def footerFixedLen : ℕ := 40
def trailerLen : ℕ := 16

def shardGeometry (scheme : Scheme) (blockLength objectSize : ℕ) : Option ShardGeometry :=
  if objectSize = 0 ∨ blockLength = 0 then none
  else
    let k := scheme.dataShards
    let stripeBytes := k * blockLength
    let blockCount := divCeil objectSize stripeBytes
    let lastStripeBytes := objectSize - (blockCount - 1) * stripeBytes
    some ⟨blockCount, divCeil lastStripeBytes k⟩

def shardFileLength (scheme : Scheme) (blockLength objectSize : ℕ) : Option ℕ :=
  (shardGeometry scheme blockLength objectSize).map fun geometry =>
    headerLen + (geometry.blockCount - 1) * blockLength + geometry.lastBlockLength + footerFixedLen +
      8 * geometry.blockCount + trailerLen

/-- The kinds of I/O error the program tells apart. -/
inductive IoErrorKind where
  | notFound
  | other
  deriving DecidableEq, Repr

inductive ShardFileError where
  | io (kind : IoErrorKind)
  | tooShort (length : ℕ)
  | badMagic
  | unsupportedFormatVersion (v : ℕ)
  | unsupportedChecksumAlgorithm (a : ℕ)
  | headerChecksumMismatch
  | invalidScheme (e : SchemeError)
  | shardIndexOutOfRange (index : ℕ)
  | trailerInvariant (footerOffset footerLength fileLength : ℕ)
  | badFooterLength (length : ℕ)
  | footerChecksumMismatch
  | inconsistentFooter (reason : String)
  | blockOutOfRange (index count : ℕ)
  | wrongShardIndex (expected actual : ℕ)
  | badBlockLength (actual max : ℕ)
  | blockAfterShortBlock
  | suppliedChecksumMismatch (supplied computed : BlockChecksum)
  | noBlocks
  | geometryMismatch (objectSize expectedBlocks expectedLast actualBlocks actualLast : ℕ)
  deriving DecidableEq, Repr

/-- A shard file that opens: its header, its footer and the bytes of its blocks. -/
structure ShardFile where
  header : ShardFileHeader
  footer : ShardFileFooter
  blocks : List Bytes
  checksums_length : footer.checksums.length = blocks.length
  blocks_length : blocks.length = footer.blockCount
  deriving DecidableEq

def ShardFile.readBlock (file : ShardFile) (index : ℕ) : Except ShardFileError ShardBlock :=
  match file.blocks[index]?, file.footer.checksums[index]? with
  | some bytes, some checksum => .ok ⟨file.header.shardIndex, bytes, checksum⟩
  | _, _ => .error (.blockOutOfRange index file.footer.blockCount)

/-- A shard file being written: what has been appended so far. -/
structure ShardFileWriter where
  header : ShardFileHeader
  blocks : List Bytes
  checksums : List BlockChecksum
  lastBlockLength : ℕ
  shortBlockWritten : Bool
  checksums_length : checksums.length = blocks.length

namespace ShardFileWriter

def create (header : ShardFileHeader) : Except ShardFileError ShardFileWriter :=
  if !header.scheme.contains header.shardIndex then .error (.shardIndexOutOfRange header.shardIndex)
  else .ok ⟨header, [], [], 0, false, rfl⟩

def push (w : ShardFileWriter) (bytes : Bytes) (checksum : BlockChecksum) : ShardFileWriter where
  header := w.header
  blocks := w.blocks ++ [bytes]
  checksums := w.checksums ++ [checksum]
  lastBlockLength := bytes.length
  shortBlockWritten := w.shortBlockWritten || bytes.length < w.header.blockLength
  checksums_length := by simp [w.checksums_length]

def appendBlock (xxh3 : Bytes → BlockChecksum) (w : ShardFileWriter) (block : ShardBlock) :
    Except ShardFileError ShardFileWriter :=
  let len := block.bytes.length
  if block.index ≠ w.header.shardIndex then .error (.wrongShardIndex w.header.shardIndex block.index)
  else if w.shortBlockWritten then .error .blockAfterShortBlock
  else if len = 0 ∨ len > w.header.blockLength then .error (.badBlockLength len w.header.blockLength)
  else if xxh3 block.bytes ≠ block.checksum then
    .error (.suppliedChecksumMismatch block.checksum (xxh3 block.bytes))
  else .ok (w.push block.bytes (xxh3 block.bytes))

def finish (w : ShardFileWriter) (objectSize : ℕ) (objectChecksum : BlockChecksum) :
    Except ShardFileError ShardFile :=
  let actualBlocks := w.checksums.length
  let expected := shardGeometry w.header.scheme w.header.blockLength objectSize
  if w.checksums.isEmpty then .error .noBlocks
  else if expected ≠ some ⟨actualBlocks, w.lastBlockLength⟩ then
    .error (.geometryMismatch objectSize (expected.elim 0 (·.blockCount)) (expected.elim 0 (·.lastBlockLength))
      actualBlocks w.lastBlockLength)
  else
    .ok
      { header := w.header
        footer := ⟨actualBlocks, w.lastBlockLength, objectSize, objectChecksum, w.checksums⟩
        blocks := w.blocks
        checksums_length := w.checksums_length
        blocks_length := w.checksums_length.symm }

def appendAll (xxh3 : Bytes → BlockChecksum) (w : ShardFileWriter) :
    List ShardBlock → Except ShardFileError ShardFileWriter
  | [] => .ok w
  | block :: rest =>
    match w.appendBlock xxh3 block with
    | .error e => .error e
    | .ok w => w.appendAll xxh3 rest

end ShardFileWriter

def writeShard (xxh3 : Bytes → BlockChecksum) (header : ShardFileHeader) (blocks : List ShardBlock)
    (objectSize : ℕ) (objectChecksum : BlockChecksum) : Except ShardFileError ShardFile := do
  let w ← ShardFileWriter.create header
  let w ← w.appendAll xxh3 blocks
  w.finish objectSize objectChecksum

/-! ## Writing the blocks of an object -/

section

variable {xxh3 : Bytes → BlockChecksum}

/-- Blocks of a shard: every block has between one and `B` bytes, and only the last has fewer than `B`. -/
structure FitBlocks (B : ℕ) (bs : List Bytes) : Prop where
  pos : ∀ b ∈ bs, 0 < b.length
  le : ∀ b ∈ bs, b.length ≤ B
  full : ∀ b ∈ bs.dropLast, b.length = B

theorem ShardFileWriter.appendAll_ok {w : ShardFileWriter} {bs : List Bytes}
    (hshort : w.shortBlockWritten = false) (h : FitBlocks w.header.blockLength bs) :
    ∃ w', w.appendAll xxh3 (bs.map fun b => ⟨w.header.shardIndex, b, xxh3 b⟩) = .ok w' ∧
      w'.header = w.header ∧ w'.blocks = w.blocks ++ bs ∧ w'.checksums = w.checksums ++ bs.map xxh3 ∧
      w'.lastBlockLength = (bs.getLast?.map List.length).getD w.lastBlockLength := by
  induction bs generalizing w with
  | nil => exact ⟨w, rfl, rfl, by simp, by simp, rfl⟩
  | cons b rest ih =>
    have hb := h.pos b List.mem_cons_self
    have hle := h.le b List.mem_cons_self
    have hone : w.appendBlock xxh3 ⟨w.header.shardIndex, b, xxh3 b⟩ = .ok (w.push b (xxh3 b)) := by
      simp only [appendBlock, ne_eq, not_true_eq_false, if_false, hshort, Bool.false_eq_true]
      rw [if_neg (by omega)]
    cases rest with
    | nil => exact ⟨w.push b (xxh3 b), by simp only [List.map_cons, List.map_nil, appendAll, hone], rfl, rfl, rfl, rfl⟩
    | cons c rest =>
      have hfull : b.length = w.header.blockLength := h.full b (by simp)
      obtain ⟨w', hok, hhead, hblocks, hsums, hlast⟩ := ih (w := w.push b (xxh3 b))
        (by simp [push, hshort, hfull])
        ⟨fun x hx => h.pos x (List.mem_cons_of_mem _ hx), fun x hx => h.le x (List.mem_cons_of_mem _ hx),
          fun x hx => h.full x (by rw [List.dropLast_cons_cons]; exact List.mem_cons_of_mem _ hx)⟩
      refine ⟨w', ?_, hhead, ?_, ?_, ?_⟩
      · rw [List.map_cons, appendAll, hone]
        exact hok
      · rw [hblocks]; simp [push]
      · rw [hsums]; simp [push]
      · rw [hlast, List.getLast?_cons_cons, List.getLast?_eq_some_getLast (List.cons_ne_nil _ _)]
        rfl

/-- **Storing a shard.** Blocks that fit the object's geometry are stored as they are. -/
theorem writeShard_ok (header : ShardFileHeader) {bs : List Bytes} {last : Bytes} {size : ℕ}
    (checksum : BlockChecksum) (hidx : header.shardIndex < header.scheme.totalShards)
    (hfit : FitBlocks header.blockLength bs) (hlast : bs.getLast? = some last)
    (hgeo : shardGeometry header.scheme header.blockLength size = some ⟨bs.length, last.length⟩) :
    ∃ file, writeShard xxh3 header (bs.map fun b => ⟨header.shardIndex, b, xxh3 b⟩) size checksum = .ok file ∧
      file.header = header ∧ file.blocks = bs ∧ file.footer.checksums = bs.map xxh3 ∧
      file.footer.blockCount = bs.length := by
  have hcont : header.scheme.contains header.shardIndex = true := decide_eq_true hidx
  obtain ⟨w, hok, hhead, hblocks, hsums, hlen⟩ :=
    ShardFileWriter.appendAll_ok (w := ⟨header, [], [], 0, false, rfl⟩) rfl hfit
  have hsums' : w.checksums = bs.map xxh3 := by rw [hsums, List.nil_append]
  have hlen' : w.lastBlockLength = last.length := by rw [hlen, hlast]; rfl
  have hne : (bs.map xxh3).isEmpty = false := by
    rw [List.isEmpty_eq_false_iff]
    rintro hnil
    rw [List.map_eq_nil_iff.mp hnil] at hlast
    cases hlast
  have hfinish : w.finish size checksum = .ok ⟨w.header, ⟨w.checksums.length, w.lastBlockLength, size, checksum,
      w.checksums⟩, w.blocks, w.checksums_length, w.checksums_length.symm⟩ := by
    simp only [ShardFileWriter.finish, hne, Bool.false_eq_true, if_false, hhead, hgeo, hlen', hsums',
      List.length_map, ne_eq, not_true_eq_false]
  have hwrite : writeShard xxh3 header (bs.map fun b => ⟨header.shardIndex, b, xxh3 b⟩) size checksum =
      w.finish size checksum := by
    simp only [writeShard, ShardFileWriter.create, hcont, Bool.not_true, Bool.false_eq_true, if_false]
    show (ShardFileWriter.appendAll xxh3 _ _ >>= _) = _
    rw [hok]
    rfl
  exact ⟨_, hwrite.trans hfinish, hhead, hblocks, hsums', (congrArg List.length hsums').trans (List.length_map _)⟩

end

end Djbod
