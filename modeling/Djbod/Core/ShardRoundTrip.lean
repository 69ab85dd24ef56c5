import Djbod.Core.ShardBytes

/-!
# Shard files, written and read

* `Grown` : what a writer has been through, kept by `appendBlock`, hence by `appendAll` (`appendAll_grown`);
* `writeShard_iff` : the sequences of blocks of which a writer makes a file;
* `writeFile_eq` : the bytes of the file are those of the `ShardFile`;
* `ShardOf` : the blocks have the shape that encoding an object stripe by stripe gives this shard;
* `shard_file_round_trip` : exactly these are accepted, and the file gives back what was written.
-/

namespace Djbod

open Pieces Buffer Checked

section Writer

variable {xxh3 : Bytes → BlockChecksum} {header : ShardFileHeader} {w w' : ShardFileWriter} {block : ShardBlock}
  {blocks : List ShardBlock}

/-- The writer has been given `blocks`, and accepted them. -/
structure Grown (xxh3 : Bytes → BlockChecksum) (header : ShardFileHeader) (blocks : List ShardBlock)
    (w : ShardFileWriter) : Prop where
  header_eq : w.header = header
  blocks_eq : w.blocks = blocks.map ShardBlock.bytes
  checksums_eq : w.checksums = blocks.map ShardBlock.checksum
  right : ∀ b ∈ blocks, b.index = header.shardIndex ∧ xxh3 b.bytes = b.checksum
  fit : FitBlocks header.blockLength (blocks.map ShardBlock.bytes)
  full : w.shortBlockWritten = false → ∀ b ∈ blocks, b.bytes.length = header.blockLength
  last_eq : w.lastBlockLength = ((blocks.map ShardBlock.bytes).getLast?.map List.length).getD 0

theorem appendBlock_eq_ok (h : w.appendBlock xxh3 block = .ok w') : block.index = w.header.shardIndex ∧
    w.shortBlockWritten = false ∧ 0 < block.bytes.length ∧ block.bytes.length ≤ w.header.blockLength ∧
    xxh3 block.bytes = block.checksum ∧ w' = w.push block.bytes block.checksum := by
  unfold ShardFileWriter.appendBlock at h
  dsimp only at h
  split_ifs at h with hindex hshort hlen hsum
  cases h
  exact ⟨not_not.mp hindex, by simpa using hshort, by omega, by omega, not_not.mp hsum, by rw [not_not.mp hsum]⟩

theorem Grown.append (hw : Grown xxh3 header blocks w) (h : w.appendBlock xxh3 block = .ok w') :
    Grown xxh3 header (blocks ++ [block]) w' := by
  obtain ⟨hindex, hshort, hpos, hle, hsum, rfl⟩ := appendBlock_eq_ok h
  have hall := hw.full hshort
  rw [hw.header_eq] at hindex hle
  refine ⟨hw.header_eq, ?_, ?_, ?_, ⟨?_, ?_, ?_⟩, ?_, ?_⟩
  · simp [ShardFileWriter.push, hw.blocks_eq]
  · simp [ShardFileWriter.push, hw.checksums_eq]
  · intro b hb
    rcases List.mem_append.mp hb with hb | hb
    · exact hw.right b hb
    · rw [List.mem_singleton.mp hb]
      exact ⟨hindex, hsum⟩
  · intro b hb
    rw [List.map_append, List.map_singleton, List.mem_append, List.mem_singleton] at hb
    rcases hb with hb | rfl
    · exact hw.fit.pos b hb
    · exact hpos
  · intro b hb
    rw [List.map_append, List.map_singleton, List.mem_append, List.mem_singleton] at hb
    rcases hb with hb | rfl
    · exact hw.fit.le b hb
    · exact hle
  · intro b hb
    rw [List.map_append, List.map_singleton, List.dropLast_concat] at hb
    obtain ⟨b', hb', rfl⟩ := List.mem_map.mp hb
    exact hall b' hb'
  · intro hshort' b hb
    rcases List.mem_append.mp hb with hb | hb
    · exact hall b hb
    · rw [List.mem_singleton.mp hb]
      simp only [ShardFileWriter.push, hw.header_eq, hshort, Bool.false_or, decide_eq_false_iff_not] at hshort'
      omega
  · simp [ShardFileWriter.push]

theorem appendAll_grown {more : List ShardBlock} (hw : Grown xxh3 header blocks w)
    (h : w.appendAll xxh3 more = .ok w') : Grown xxh3 header (blocks ++ more) w' := by
  induction more generalizing blocks w with
  | nil =>
    cases h
    rwa [List.append_nil]
  | cons block more ih =>
    unfold ShardFileWriter.appendAll at h
    split at h
    · cases h
    · next w₁ hone =>
        have := ih (hw.append hone) h
        rwa [List.append_assoc] at this

theorem grown_new (header : ShardFileHeader) : Grown xxh3 header [] ⟨header, [], [], 0, false, rfl⟩ where
  header_eq := rfl
  blocks_eq := rfl
  checksums_eq := rfl
  right _ h := by cases h
  fit := by constructor <;> simp
  full _ _ h := by cases h
  last_eq := rfl

/-- The blocks of which a writer makes a file for an object of `size` bytes. -/
structure Acceptable (xxh3 : Bytes → BlockChecksum) (header : ShardFileHeader) (blocks : List ShardBlock) (size : ℕ) :
    Prop where
  right : ∀ b ∈ blocks, b.index = header.shardIndex ∧ xxh3 b.bytes = b.checksum
  fit : FitBlocks header.blockLength (blocks.map ShardBlock.bytes)
  geometry : ∃ last, (blocks.map ShardBlock.bytes).getLast? = some last ∧
    shardGeometry header.scheme header.blockLength size = some ⟨blocks.length, last.length⟩

variable {checksum : BlockChecksum} {file : ShardFile} {size : ℕ}

theorem finish_eq_ok (h : w.finish size checksum = .ok file) :
    w.checksums ≠ [] ∧ shardGeometry w.header.scheme w.header.blockLength size = some
    ⟨w.checksums.length, w.lastBlockLength⟩ ∧
      file.header = w.header ∧ file.blocks = w.blocks ∧
      file.footer = ⟨w.checksums.length, w.lastBlockLength, size, checksum, w.checksums⟩ := by
  unfold ShardFileWriter.finish at h
  dsimp only at h
  split_ifs at h with hempty hgeo
  cases h
  exact ⟨by simpa using hempty, not_not.mp hgeo, rfl, rfl, rfl⟩

theorem writeShard_eq_ok (h : writeShard xxh3 header blocks size checksum = .ok file) :
    header.shardIndex < header.scheme.totalShards ∧ Acceptable xxh3 header blocks size ∧ file.header = header ∧
      file.blocks = blocks.map ShardBlock.bytes ∧ file.footer.checksums = blocks.map ShardBlock.checksum ∧
      file.footer.objectSize = size ∧ file.footer.objectChecksum = checksum ∧ file.footer.blockCount = blocks.length ∧
      file.blocks.getLast?.map List.length = some file.footer.lastBlockLength := by
  unfold writeShard ShardFileWriter.create at h
  by_cases hidx : header.scheme.contains header.shardIndex = true
  · rw [hidx] at h
    simp only [Bool.not_true, Bool.false_eq_true, if_false] at h
    change (ShardFileWriter.appendAll xxh3 _ blocks >>= fun w => w.finish size checksum) = _ at h
    cases happ : ShardFileWriter.appendAll xxh3 ⟨header, [], [], 0, false, rfl⟩ blocks with
    | error e =>
      rw [happ] at h
      cases h
    | ok w =>
      rw [happ] at h
      obtain ⟨hne, hgeo, hheader, hblocks, hfooter⟩ := finish_eq_ok (w := w) h
      have hg := appendAll_grown (grown_new header) happ
      rw [List.nil_append] at hg
      rw [hg.header_eq, hg.checksums_eq, List.length_map] at hgeo
      have hlast : ((blocks.map ShardBlock.bytes).getLast?.map List.length) = some w.lastBlockLength := by
        rw [hg.last_eq]
        cases hl : (blocks.map ShardBlock.bytes).getLast? with
        | none =>
          rw [List.getLast?_eq_none_iff, List.map_eq_nil_iff] at hl
          rw [hg.checksums_eq, hl] at hne
          exact absurd rfl hne
        | some last => rfl
      refine ⟨of_decide_eq_true hidx, ⟨hg.right, hg.fit, ?_⟩, hheader.trans hg.header_eq, hblocks.trans hg.blocks_eq,
        ?_, ?_, ?_, ?_, ?_⟩
      · obtain ⟨last, hl, hlen⟩ := Option.map_eq_some_iff.mp hlast
        exact ⟨last, hl, hlen ▸ hgeo⟩
      · rw [hfooter]
        exact hg.checksums_eq
      · rw [hfooter]
      · rw [hfooter]
      · rw [hfooter, hg.checksums_eq, List.length_map]
      · rw [hblocks, hg.blocks_eq, hlast, hfooter]
  · rw [Bool.eq_false_iff.mpr hidx] at h
    cases h

/-- **The sequences of blocks of which a writer makes a file.** -/
theorem writeShard_iff (hidx : header.shardIndex < header.scheme.totalShards) :
    (∃ file, writeShard xxh3 header blocks size checksum = .ok file) ↔ Acceptable xxh3 header blocks size := by
  constructor
  · rintro ⟨file, h⟩
    exact (writeShard_eq_ok h).2.1
  · intro h
    obtain ⟨last, hlast, hgeo⟩ := h.geometry
    have hblocks : blocks = (blocks.map ShardBlock.bytes).map fun b => ⟨header.shardIndex, b, xxh3 b⟩ := by
      rw [List.map_map]
      refine (List.map_id blocks).symm.trans (List.map_congr_left fun b hb => ?_)
      obtain ⟨hindex, hsum⟩ := h.right b hb
      simp only [Function.comp_apply, hsum, ← hindex, id]
    obtain ⟨file, hfile, -⟩ := @writeShard_ok xxh3 header _ _ _ checksum hidx h.fit hlast
      (by rw [List.length_map]; exact hgeo)
    exact ⟨file, by rw [hblocks]; exact hfile⟩

theorem writeShard_sound (hB : header.blockLength < limit)
    (h : writeShard xxh3 header blocks size checksum = .ok file) : file.Sound := by
  obtain ⟨hidx, hacc, hheader, hblocks, -, hsize, -, hcount, hlast⟩ := writeShard_eq_ok h
  obtain ⟨last, hl, hgeo⟩ := hacc.geometry
  refine ⟨hheader ▸ ⟨hidx, hB⟩, by rw [hheader, hblocks]; exact hacc.fit, hlast, ?_⟩
  rw [hblocks, hl] at hlast
  rw [hheader, hsize, hcount, hgeo, Option.some.inj hlast]

end Writer

/-! ## The bytes written -/

section Bytes

variable {xxh3 : Bytes → BlockChecksum} {header : ShardFileHeader}

theorem ShardFileOutput.appendAll_eq (w : ShardFileOutput) (blocks : List ShardBlock) :
    w.appendAll xxh3 blocks =
      (w.writer.appendAll xxh3 blocks).map fun writer => ⟨writer, w.file ++ (blocks.map ShardBlock.bytes).flatten⟩ := by
  induction blocks generalizing w with
  | nil => simp [ShardFileOutput.appendAll, ShardFileWriter.appendAll, Except.map]
  | cons block rest ih =>
    rw [ShardFileOutput.appendAll, ShardFileWriter.appendAll, ShardFileOutput.appendBlock]
    cases w.writer.appendBlock xxh3 block with
    | error e => rfl
    | ok writer =>
      simp only [Except.map]
      rw [ih]
      simp only [List.map_cons, List.flatten_cons, List.append_assoc]
      rfl

/-- **The bytes of a file** are those of its header, its blocks and its footer. -/
theorem writeFile_eq (blocks : List ShardBlock) (size : ℕ) (checksum : BlockChecksum) :
    writeFile xxh3 header blocks size checksum =
      (writeShard xxh3 header blocks size checksum).map fun file => (file.footer, file.encode xxh3) := by
  unfold writeFile writeShard ShardFileOutput.create
  cases hcreate : ShardFileWriter.create header with
  | error e => rfl
  | ok w =>
    simp only [Except.map]
    rw [ShardFileOutput.appendAll_eq]
    change _ = Except.map _ (w.appendAll xxh3 blocks >>= fun w => w.finish size checksum)
    cases happ : w.appendAll xxh3 blocks with
    | error e => rfl
    | ok w' =>
      change ShardFileOutput.finish xxh3 _ size checksum = Except.map _ (w'.finish size checksum)
      rw [ShardFileOutput.finish]
      cases hfinish : w'.finish size checksum with
      | error e => simp only [Except.map]
      | ok file =>
        obtain ⟨-, -, hheader, hblocks, -⟩ := finish_eq_ok hfinish
        have hw : w = ⟨header, [], [], 0, false, rfl⟩ := by
          unfold ShardFileWriter.create at hcreate
          split_ifs at hcreate
          cases hcreate
          rfl
        have hg := appendAll_grown (hw ▸ grown_new header) happ
        simp only [Except.map, ShardFile.encode, hheader, hblocks, hg.header_eq, hg.blocks_eq, List.nil_append,
          List.append_assoc]

end Bytes

/-! ## The blocks of an object -/

section Shape

variable {xxh3 : Bytes → BlockChecksum} {lib : ℕ → ℕ → ReedSolomon} {header : ShardFileHeader} {body : Bytes}
  {blocks : List ShardBlock}

/-- The blocks have the shape that encoding `body` stripe by stripe gives this shard: one block a stripe, of the length
that the encoder gives it, with the right checksum. -/
def ShardOf (xxh3 : Bytes → BlockChecksum) (lib : ℕ → ℕ → ReedSolomon) (header : ShardFileHeader) (body : Bytes)
    (blocks : List ShardBlock) : Prop :=
  ∃ stripes, FitBlocks (header.scheme.dataShards * header.blockLength) stripes ∧ stripes.flatten = body ∧
    List.Forall₂ (fun stripe block => ∃ encoded stored,
      encodeStripe xxh3 (.new lib header.scheme) stripe header.blockLength = .ok encoded ∧
      encoded[header.shardIndex]? = some stored ∧
        block.index = stored.index ∧ block.bytes.length = stored.bytes.length ∧ block.checksum = xxh3 block.bytes)
        stripes blocks

variable {n : ℕ}

/-- Blocks that fit, by their lengths: full ones, then one that is not empty. -/
theorem fitBlocks_iff {bs : List Bytes} (hne : bs ≠ []) :
    FitBlocks n bs ↔ ∃ s, 0 < s ∧ s ≤ n ∧ bs.map List.length = List.replicate (bs.length - 1) n ++ [s] := by
  obtain ⟨front, b, rfl⟩ := List.eq_nil_or_concat bs |>.resolve_left hne
  rw [List.concat_eq_append, List.map_append, List.map_singleton, List.length_append, List.length_singleton,
    Nat.add_sub_cancel]
  constructor
  · intro h
    refine ⟨b.length, h.pos b (by simp), h.le b (by simp), ?_⟩
    congr 1
    rw [List.eq_replicate_iff, List.length_map]
    refine ⟨rfl, fun len hlen => ?_⟩
    obtain ⟨e, he, rfl⟩ := List.mem_map.mp hlen
    exact h.full e (by rwa [List.dropLast_concat])
  · rintro ⟨s, hpos, hle, heq⟩
    obtain ⟨hfront, hlast⟩ := List.append_inj' heq rfl
    rw [List.cons.injEq] at hlast
    have hfull : ∀ e ∈ front, e.length = n := fun e he => (List.eq_replicate_iff.mp hfront).2 _ (List.mem_map_of_mem he)
    refine ⟨fun e he => ?_, fun e he => ?_, fun e he => hfull e (by rwa [List.dropLast_concat] at he)⟩
    · rcases List.mem_append.mp he with he | he
      · rw [hfull e he]
        omega
      · rw [List.mem_singleton.mp he]
        omega
    · rcases List.mem_append.mp he with he | he
      · rw [hfull e he]
      · rw [List.mem_singleton.mp he]
        omega

theorem pieces_fit (hn : 0 < n) (l : Bytes) : FitBlocks n (pieces n l) := by
  refine ⟨fun b hb => ?_, fun b hb => ?_, fun b hb => ?_⟩
  · obtain ⟨i, hi, rfl⟩ := List.mem_map.mp hb
    exact List.length_pos_iff.mpr (piece_ne_nil hn (List.mem_range.mp hi))
  · obtain ⟨i, hi, rfl⟩ := List.mem_map.mp hb
    rw [piece_length]
    exact Nat.min_le_left _ _
  · rw [pieces, List.dropLast_eq_take, ← List.map_take, List.take_range, List.length_map, List.length_range] at hb
    obtain ⟨i, hi, rfl⟩ := List.mem_map.mp hb
    have hi' : i + 1 < Pieces.divCeil l.length n := by
      have := List.mem_range.mp hi
      omega
    have hlt := mul_lt_of_lt_divCeil hn hi'
    rw [Nat.add_mul] at hlt
    rw [piece_length]
    omega

theorem divCeil_mul {k : ℕ} (hk : 0 < k) (B : ℕ) : Pieces.divCeil (k * B) k = B := by
  refine le_antisymm (divCeil_le hk le_rfl) ?_
  have := le_mul_divCeil (a := k * B) hk
  exact Nat.le_of_mul_le_mul_left this hk

theorem encoded_length (hlib : ReedSolomonCode.Lawful lib header.scheme)
    (hidx : header.shardIndex < header.scheme.totalShards) {stripe : Bytes} (hne : 0 < stripe.length)
    (hle : stripe.length ≤ header.scheme.dataShards * header.blockLength) :
    ∃ encoded stored, encodeStripe xxh3 (.new lib header.scheme) stripe header.blockLength = .ok encoded ∧
      encoded[header.shardIndex]? = some stored ∧ stored.index = header.shardIndex ∧
      stored.bytes.length = Pieces.divCeil stripe.length header.scheme.dataShards := by
  have hlt : header.shardIndex < (stripeBlocks (.new lib header.scheme) stripe).length := by
    rw [stripeBlocks_length hlib]
    exact hidx
  have hstored := @sealBlocks_getElem? xxh3 (stripeBlocks (.new lib header.scheme) stripe) header.shardIndex
  rw [List.getElem?_eq_getElem hlt, Option.map_some] at hstored
  exact ⟨_, _, encodeStripe_ok (List.length_pos_iff.mp hne) hle, hstored, rfl, length_of_mem_stripeBlocks hlib
    (List.getElem_mem hlt)⟩

theorem forall₂_and_map {α β γ : Type} {P : β → Prop} {f : β → γ} {g : α → γ} (as : List α) (bs : List β) :
    List.Forall₂ (fun a b => P b ∧ f b = g a) as bs ↔ (∀ b ∈ bs, P b) ∧ bs.map f = as.map g := by
  induction as generalizing bs with
  | nil => cases bs <;> simp
  | cons a as ih =>
    cases bs with
    | nil => simp
    | cons b bs =>
      simp only [List.forall₂_cons, ih, List.forall_mem_cons, List.map_cons, List.cons.injEq]
      tauto

theorem shardOf_iff (hlib : ReedSolomonCode.Lawful lib header.scheme)
    (hidx : header.shardIndex < header.scheme.totalShards) : ShardOf xxh3 lib header body blocks ↔
    (∀ b ∈ blocks, b.index = header.shardIndex ∧ xxh3 b.bytes = b.checksum) ∧
      ∃ stripes, FitBlocks (header.scheme.dataShards * header.blockLength) stripes ∧ stripes.flatten = body ∧
        blocks.map (fun b => b.bytes.length) = stripes.map fun stripe =>
        Pieces.divCeil stripe.length header.scheme.dataShards := by
  have hone : ∀ stripes : List Bytes, FitBlocks (header.scheme.dataShards * header.blockLength) stripes →
      (List.Forall₂ (fun stripe block => ∃ encoded stored,
        encodeStripe xxh3 (.new lib header.scheme) stripe header.blockLength = .ok encoded ∧
        encoded[header.shardIndex]? = some stored ∧
          block.index = stored.index ∧ block.bytes.length = stored.bytes.length ∧ block.checksum = xxh3 block.bytes)
          stripes blocks ↔
        (∀ b ∈ blocks, b.index = header.shardIndex ∧ xxh3 b.bytes = b.checksum) ∧
          blocks.map (fun b => b.bytes.length) = stripes.map fun stripe =>
          Pieces.divCeil stripe.length header.scheme.dataShards) := by
    intro stripes hfit
    rw [← forall₂_and_map, List.forall₂_iff_zip, List.forall₂_iff_zip]
    refine and_congr_right fun _ => forall_congr' fun stripe => forall_congr' fun block =>
      imp_congr_right fun hmem => ?_
    have hstripe := (List.of_mem_zip hmem).1
    obtain ⟨encoded, stored, henc, hget, hindex, hlen⟩ :=
      @encoded_length xxh3 lib header hlib hidx stripe (hfit.pos stripe hstripe) (hfit.le stripe hstripe)
    constructor
    · rintro ⟨encoded', stored', henc', hget', hindex', hlen', hsum⟩
      cases henc.symm.trans henc'
      cases hget.symm.trans hget'
      exact ⟨⟨hindex'.trans hindex, hsum.symm⟩, hlen'.trans hlen⟩
    · rintro ⟨⟨hindex', hsum⟩, hlen'⟩
      exact ⟨encoded, stored, henc, hget, hindex'.trans hindex.symm, hlen'.trans hlen.symm, hsum.symm⟩
  constructor
  · rintro ⟨stripes, hfit, hflat, hall⟩
    obtain ⟨hright, hlens⟩ := (hone stripes hfit).mp hall
    exact ⟨hright, stripes, hfit, hflat, hlens⟩
  · rintro ⟨hright, stripes, hfit, hflat, hlens⟩
    exact ⟨stripes, hfit, hflat, (hone stripes hfit).mpr ⟨hright, hlens⟩⟩

theorem shardGeometry_of_stripes {scheme : Scheme} {B c s : ℕ} (hs : 0 < s) (hle : s ≤ scheme.dataShards * B) :
    shardGeometry scheme B (c * (scheme.dataShards * B) + s) = some ⟨c + 1, Pieces.divCeil s scheme.dataShards⟩ := by
  have hB : 0 < B := Nat.pos_of_ne_zero fun h0 => by
    rw [h0, Nat.mul_zero] at hle
    omega
  have hcount : Pieces.divCeil (c * (scheme.dataShards * B) + s) (scheme.dataShards * B) = c + 1 :=
    divCeil_eq (Nat.mul_pos scheme.data_pos hB) (by omega) (by rw [Nat.add_mul]; omega)
  unfold shardGeometry
  rw [if_neg (by omega)]
  dsimp only
  rw [hcount, Nat.add_sub_cancel, Nat.add_sub_cancel_left]

/-- **The sequences accepted** are those that encoding an object of the size gives. -/
theorem acceptable_iff (hlib : ReedSolomonCode.Lawful lib header.scheme)
    (hidx : header.shardIndex < header.scheme.totalShards) (hne : body ≠ []) :
    Acceptable xxh3 header blocks body.length ↔ ShardOf xxh3 lib header body blocks := by
  rw [shardOf_iff hlib hidx]
  have hmap : (blocks.map ShardBlock.bytes).map List.length = blocks.map fun b => b.bytes.length := by
    rw [List.map_map]
    rfl
  -- The lengths of stripes, and of the blocks that they give.
  have hlens : ∀ stripes : List Bytes, stripes.flatten = body →
    FitBlocks (header.scheme.dataShards * header.blockLength) stripes →
      ∃ c s, 0 < s ∧ s ≤ header.scheme.dataShards * header.blockLength ∧
        body.length = c * (header.scheme.dataShards * header.blockLength) + s ∧
        stripes.map (fun stripe => Pieces.divCeil stripe.length header.scheme.dataShards) =
          List.replicate c header.blockLength ++ [Pieces.divCeil s header.scheme.dataShards] := by
    intro stripes hflat hfit
    have hne' : stripes ≠ [] := by
      rintro rfl
      exact hne hflat.symm
    obtain ⟨s, hpos, hle, hlen⟩ := (fitBlocks_iff hne').mp hfit
    refine ⟨stripes.length - 1, s, hpos, hle, ?_, ?_⟩
    · rw [← hflat, List.length_flatten, hlen, List.sum_append, List.sum_replicate, List.sum_singleton, smul_eq_mul]
    · have := congrArg (List.map fun n => Pieces.divCeil n header.scheme.dataShards) hlen
      rw [List.map_map, List.map_append, List.map_replicate, divCeil_mul header.scheme.data_pos,
        List.map_singleton] at this
      exact this
  constructor
  · intro h
    obtain ⟨last, hlast, hgeo⟩ := h.geometry
    have hB : 0 < header.blockLength := Nat.pos_of_ne_zero fun h0 => by
      rw [shardGeometry, if_pos (.inr h0)] at hgeo
      cases hgeo
    have hS : 0 < header.scheme.dataShards * header.blockLength := Nat.mul_pos header.scheme.data_pos hB
    refine ⟨h.right, pieces _ body, pieces_fit hS body, flatten_pieces hS body, ?_⟩
    obtain ⟨c, s, hpos, hle, hsize, hstripes⟩ := hlens _ (flatten_pieces hS body) (pieces_fit hS body)
    rw [hsize, shardGeometry_of_stripes hpos hle, Option.some.injEq, ShardGeometry.mk.injEq] at hgeo
    have hne' : blocks.map ShardBlock.bytes ≠ [] := by
      intro hnil
      rw [hnil] at hlast
      cases hlast
    obtain ⟨l, -, -, hlen⟩ := (fitBlocks_iff hne').mp h.fit
    have hl : last.length = l := by
      have := congrArg List.getLast? hlen
      rw [List.getLast?_map, hlast, List.getLast?_concat] at this
      exact Option.some.inj this
    rw [hstripes, ← hmap, hlen, List.length_map, ← hgeo.1, Nat.add_sub_cancel, hgeo.2, hl]
  · rintro ⟨hright, stripes, hfit, hflat, hlen⟩
    obtain ⟨c, s, hpos, hle, hsize, hstripes⟩ := hlens stripes hflat hfit
    rw [hstripes] at hlen
    have hcount : blocks.length = c + 1 := by
      have := congrArg List.length hlen
      simpa using this
    have hne' : blocks.map ShardBlock.bytes ≠ [] := by
      intro hnil
      rw [List.map_eq_nil_iff.mp hnil] at hcount
      cases hcount
    have hlast : ∃ last, (blocks.map ShardBlock.bytes).getLast? = some last ∧
        last.length = Pieces.divCeil s header.scheme.dataShards := by
      have := congrArg List.getLast? (hmap.trans hlen)
      rw [List.getLast?_map, List.getLast?_concat, Option.map_eq_some_iff] at this
      exact this
    obtain ⟨last, hl, hlastlen⟩ := hlast
    refine ⟨hright, (fitBlocks_iff hne').mpr ⟨_, divCeil_pos hpos header.scheme.data_pos,
      divCeil_le header.scheme.data_pos hle, ?_⟩, last, hl, ?_⟩
    · rw [hmap, hlen, List.length_map, hcount, Nat.add_sub_cancel]
    · rw [hsize, shardGeometry_of_stripes hpos hle, hcount, hlastlen]

/-- No number that is computed for a shard of an object of `size` bytes exceeds 64 bits. -/
structure NoOverflow (header : ShardFileHeader) (size : ℕ) : Prop where
  size_lt : size < limit
  stripe_lt : header.scheme.dataShards * header.blockLength < limit
  length_lt : ∀ n, shardFileLength header.scheme header.blockLength size = some n → n < limit

/-- **Shard files round trip.** A writer makes a file of exactly the sequences of blocks that encoding an object of the
size gives this shard. The file has the length computed for it, opens with the header and the footer it was written
with, and gives back every block with its checksum. -/
theorem shard_file_round_trip (hlib : ReedSolomonCode.Lawful lib header.scheme) (hheader : header.Valid) {size : ℕ}
    (hpos : 0 < size) (hfits : NoOverflow header size) (blocks : List ShardBlock) (checksum : BlockChecksum) :
    (∀ body : Bytes, body.length = size →
      ((∃ footer file, writeFile xxh3 header blocks size checksum = .ok (footer, file)) ↔
      ShardOf xxh3 lib header body blocks)) ∧
    ∀ footer file, writeFile xxh3 header blocks size checksum = .ok (footer, file) →
      shardFileLength header.scheme header.blockLength size = some file.length ∧
      ∃ reader, ShardFileReader.openFile xxh3 file = .ok reader ∧ reader.header = header ∧ reader.footer = footer ∧
        reader.footer.blockCount = blocks.length ∧ ∀ i block, blocks[i]? = some block →
        reader.readBlock i = .ok block := by
  constructor
  · rintro body rfl
    rw [← acceptable_iff hlib hheader.index_lt (List.length_pos_iff.mp hpos), ← writeShard_iff hheader.index_lt,
      writeFile_eq]
    constructor
    · rintro ⟨footer, file, h⟩
      cases hw : writeShard xxh3 header blocks body.length checksum with
      | error e =>
        rw [hw] at h
        cases h
      | ok f => exact ⟨f, rfl⟩
    · rintro ⟨f, hf⟩
      rw [hf]
      exact ⟨_, _, rfl⟩
  · intro footer file h
    rw [writeFile_eq] at h
    cases hw : writeShard xxh3 header blocks size checksum with
    | error e =>
      rw [hw] at h
      cases h
    | ok f =>
      rw [hw] at h
      cases h
      obtain ⟨-, hacc, hhead, hblocks, hsums, hsize, -, hcount, -⟩ := writeShard_eq_ok hw
      have hsound := writeShard_sound hheader.blockLength_lt hw
      have hlen := hsound.encode_length xxh3
      rw [hhead, hsize] at hlen
      have hall : f.Fits xxh3 := ⟨hsize ▸ hfits.size_lt, hfits.length_lt _ hlen⟩
      refine ⟨hlen, _, hsound.openFile hall (hhead ▸ hfits.stripe_lt), hhead, rfl, hcount, fun i block hi => ?_⟩
      obtain ⟨hindex, -⟩ := hacc.right block (List.mem_of_getElem? hi)
      have hget : ∀ {α : Type} (g : ShardBlock → α) {l : List α}, l = blocks.map g → l[i]? = some (g block) := by
        rintro α g l rfl
        rw [List.getElem?_map, hi, Option.map_some]
      rw [hsound.readBlock hall (hget _ hblocks) (hget _ hsums), hhead, ← hindex]

def replicaHeader : ShardFileHeader := ⟨pair, 1, 65536, 0, 0⟩

/-- The file of one byte. -/
theorem shard_file_round_trip_byte : NoOverflow replicaHeader 1 ∧
    ∃ footer file, writeFile (fun _ => 0) replicaHeader [⟨1, [7], 0⟩] 1 0 = .ok (footer, file) ∧
      ∃ reader, ShardFileReader.openFile (fun _ => 0) file = .ok reader ∧ reader.footer = footer ∧
      reader.readBlock 0 = .ok ⟨1, [7], 0⟩ := by
  have hfits : NoOverflow replicaHeader 1 := ⟨by decide, by decide, by decide⟩
  obtain ⟨haccept, hread⟩ := @shard_file_round_trip (fun _ => 0) (fun _ m => mirror m) replicaHeader (fun _ =>
    mirror_recovers 1) ⟨by decide, by decide⟩ 1 Nat.one_pos hfits [⟨1, [7], 0⟩] 0
  have hshape : ShardOf (fun _ => 0) (fun _ m => mirror m) replicaHeader [7] [⟨1, [7], 0⟩] := by
    refine ⟨[[7]], ⟨by decide, by decide, by decide⟩, rfl, .cons ⟨[⟨0, [7], 0⟩, ⟨1, [7], 0⟩], ⟨1, [7], 0⟩, ?_⟩ .nil⟩
    decide
  obtain ⟨footer, file, hfile⟩ := (haccept [7] rfl).mpr hshape
  obtain ⟨-, reader, hopen, -, hfooter, -, hblocks⟩ := hread footer file hfile
  exact ⟨hfits, footer, file, hfile, reader, hopen, hfooter, hblocks 0 _ rfl⟩

end Shape

end Djbod
