import Djbod.Core.ShardBytes

/-!
# Arbitrary files

What opening a file of any bytes as a shard file can do, and reading its blocks.

* `readParts_calm`, `readParts_eq_ok` : trailer, footer and header are read without arithmetic that could overflow, and
  account for the whole file;
* `Bounded` : the numbers in header and footer place the blocks below `2 ^ 64`;
* `openFile_calm_iff` : the program survives opening the file exactly then;
* `openFile_inside` : an opened file has all its blocks between header page and footer.
-/

namespace Djbod

open Buffer Checked Outcome

namespace ShardFileReader

variable {xxh3 : Bytes → BlockChecksum} {file : Bytes}

theorem readExactAt_calm (offset n : ℕ) : Calm (readExactAt file offset n) := by
  unfold readExactAt
  split_ifs
  · exact Calm.ok _
  · exact Calm.error _

theorem readExactAt_eq_ok {offset n : ℕ} {bytes : Bytes} (h : readExactAt file offset n = .ok bytes) :
    bytes.length = n ∧ offset + n ≤ file.length := by
  unfold readExactAt at h
  split_ifs at h with hle
  cases h
  exact ⟨readAt_length hle, hle⟩

theorem readTrailer_calm (file : Bytes) : Calm (readTrailer file) := by
  unfold readTrailer
  dsimp only
  split_ifs with hshort
  · exact Calm.error _
  · rw [sub_ok (by omega), ok_bind]
    refine (readExactAt_calm _ _).bind fun trailer _ => ?_
    split_ifs
    · exact Calm.error _
    · exact Calm.error _
    · exact Calm.ok _

theorem readTrailer_eq_ok {footerLength footerOffset : ℕ} (h : readTrailer file = .ok (footerLength, footerOffset)) :
    footerOffset + footerLength + trailerLen = file.length ∧ footerFixedLen ≤ footerLength ∧
    (footerLength - footerFixedLen) % 8 = 0 := by
  unfold readTrailer at h
  dsimp only at h
  split_ifs at h with hshort
  rw [sub_ok (by omega), ok_bind] at h
  obtain ⟨trailer, -, h⟩ := bind_eq_ok.mp h
  split_ifs at h with hsum hlen
  cases h
  omega

theorem readFooter_calm {footerLength footerOffset : ℕ} (h : footerLength + trailerLen < limit) :
    Calm (readFooter xxh3 file footerLength footerOffset) := by
  unfold readFooter
  rw [add_ok h, ok_bind]
  refine (readExactAt_calm _ _).bind fun bytes hbytes => ?_
  unfold ShardFileFooter.decodeWithTrailer
  rw [(readExactAt_eq_ok hbytes).1, sub_ok (Nat.le_add_left _ _), ok_bind]
  split_ifs
  · exact Calm.error _
  · exact Calm.ofExcept _

theorem readU64_lt (bytes : Bytes) (offset : ℕ) : readU64 bytes offset < limit := by
  refine lt_of_lt_of_le (ofLe_lt _) ?_
  have hlen : (readAt bytes offset 8).length ≤ 8 := by simp [readAt]
  exact Nat.pow_le_pow_right (by decide : 0 < 256) hlen

theorem readFooter_eq_ok {footerLength footerOffset : ℕ} (hadd : footerLength + trailerLen < limit)
    (h8 : (footerLength - footerFixedLen) % 8 = 0) {footer : ShardFileFooter}
    (h : readFooter xxh3 file footerLength footerOffset = .ok footer) :
    footer.encodedLength = footerLength ∧ 0 < footer.blockCount ∧ footer.checksums.length = footer.blockCount ∧
      footer.objectSize < limit := by
  unfold readFooter at h
  rw [add_ok hadd, ok_bind] at h
  obtain ⟨bytes, hbytes, h⟩ := bind_eq_ok.mp h
  unfold ShardFileFooter.decodeWithTrailer at h
  rw [(readExactAt_eq_ok hbytes).1, sub_ok (Nat.le_add_left _ _), ok_bind, Nat.add_sub_cancel] at h
  split_ifs at h with hlen
  rw [ofExcept_eq_ok] at h
  unfold ShardFileFooter.decodeFields at h
  dsimp only at h
  split_ifs at h with hsum hcount hzero
  cases h
  have hentries : (footerLength - footerFixedLen) / 8 * 8 = footerLength - footerFixedLen :=
    Nat.div_mul_cancel (Nat.dvd_of_mod_eq_zero h8)
  rw [not_not] at hcount
  refine ⟨?_, Nat.pos_of_ne_zero hzero, by simp, readU64_lt _ _⟩
  simp only [ShardFileFooter.encodedLength, List.length_map, List.length_range, hcount]
  omega

theorem readHeader_calm (file : Bytes) : Calm (readHeader xxh3 file) :=
  (readExactAt_calm _ _).bind fun _ _ => Calm.ofExcept _

/-- Reading trailer, footer and header never stops the program. -/
theorem readParts_calm (hfile : file.length < limit) : Calm (readParts xxh3 file) := by
  refine (readTrailer_calm file).bind fun ⟨footerLength, footerOffset⟩ htrailer => ?_
  have hlen := (readTrailer_eq_ok htrailer).1
  exact (readFooter_calm (by omega)).bind fun _ _ => (readHeader_calm file).bind fun _ _ => Calm.ok _

theorem readParts_eq_ok (hfile : file.length < limit) {parts : Parts} (h : readParts xxh3 file = .ok parts) :
    parts.footerOffset + parts.footer.encodedLength + trailerLen = file.length ∧ 0 < parts.footer.blockCount ∧
      parts.footer.checksums.length = parts.footer.blockCount ∧ parts.footer.objectSize < limit := by
  obtain ⟨⟨footerLength, footerOffset⟩, htrailer, h⟩ := bind_eq_ok.mp h
  obtain ⟨footer, hfooter, h⟩ := bind_eq_ok.mp h
  obtain ⟨header, -, h⟩ := bind_eq_ok.mp h
  cases h
  obtain ⟨hlen, hfixed, h8⟩ := readTrailer_eq_ok htrailer
  obtain ⟨hfooterLen, hpos, hsums, hsize⟩ := readFooter_eq_ok (by omega) h8 hfooter
  exact ⟨by rw [hfooterLen]; exact hlen, hpos, hsums, hsize⟩

/-! ## Header and footer together -/

/-- The numbers in header and footer place the blocks, and a stripe, below `2 ^ 64`. -/
def Bounded (xxh3 : Bytes → BlockChecksum) (file : Bytes) : Prop :=
  ∀ parts, readParts xxh3 file = .ok parts → 0 < parts.footer.lastBlockLength →
    parts.footer.lastBlockLength ≤ parts.header.blockLength →
    ShardFileOutput.footerOffset parts.header parts.footer < limit ∧
      (ShardFileOutput.footerOffset parts.header parts.footer = parts.footerOffset → parts.footer.objectSize ≠ 0 →
        parts.header.scheme.dataShards * parts.header.blockLength < limit)

variable {header : ShardFileHeader} {footer : ShardFileFooter} {footerOffset : ℕ}

theorem checkOffset_ok (hcount : 0 < footer.blockCount) (hpos : 0 < footer.lastBlockLength)
    (hle : footer.lastBlockLength ≤ header.blockLength) (hfit : ShardFileOutput.footerOffset header footer < limit) :
    checkOffset header footer footerOffset = .ok () ∧ ShardFileOutput.footerOffset header footer = footerOffset ∨
      (∃ e, checkOffset header footer footerOffset = .error e) ∧
      ShardFileOutput.footerOffset header footer ≠ footerOffset := by
  unfold ShardFileOutput.footerOffset at hfit ⊢
  unfold checkOffset
  rw [if_neg (by omega), sub_ok (by omega), ok_bind, mul_ok (by omega), ok_bind, add_ok (by omega), ok_bind,
    add_ok (by omega), ok_bind]
  by_cases heq : headerLen + (footer.blockCount - 1) * header.blockLength + footer.lastBlockLength = footerOffset
  · rw [if_neg (not_not.mpr heq)]
    exact .inl ⟨rfl, heq⟩
  · rw [if_pos heq]
    exact .inr ⟨⟨_, rfl⟩, heq⟩

theorem checkOffset_panic (hcount : 0 < footer.blockCount) (hpos : 0 < footer.lastBlockLength)
    (hle : footer.lastBlockLength ≤ header.blockLength) (hbig : limit ≤ ShardFileOutput.footerOffset header footer) :
    checkOffset header footer footerOffset = .panic .overflow := by
  simp only [ShardFileOutput.footerOffset] at hbig
  unfold checkOffset
  rw [if_neg (by omega), sub_ok (by omega), ok_bind]
  by_cases hmul : (footer.blockCount - 1) * header.blockLength < limit
  · rw [mul_ok hmul, ok_bind]
    by_cases hadd : headerLen + (footer.blockCount - 1) * header.blockLength < limit
    · rw [add_ok hadd, ok_bind, add_overflow hbig]
      rfl
    · rw [add_overflow (by omega)]
      rfl
  · rw [mul_overflow (by omega)]
    rfl

theorem checkOffset_error (h : ¬ (0 < footer.lastBlockLength ∧ footer.lastBlockLength ≤ header.blockLength)) :
    ∃ e, checkOffset header footer footerOffset = .error e := by
  unfold checkOffset
  rw [if_pos (by omega)]
  exact ⟨_, rfl⟩

theorem checkGeometry_calm_iff (hsize : footer.objectSize < limit) (hB : 0 < header.blockLength) :
    Calm (checkGeometry header footer) ↔ (footer.objectSize ≠ 0 →
    header.scheme.dataShards * header.blockLength < limit) := by
  unfold checkGeometry
  by_cases hzero : footer.objectSize = 0
  · have hnone : shardGeometryChecked header.scheme header.blockLength footer.objectSize = .ok none := by
      rw [shardGeometryChecked, if_pos (.inl hzero)]
    rw [hnone, ok_bind]
    refine iff_of_true ?_ fun h => absurd hzero h
    split_ifs
    · exact Calm.error _
    · exact Calm.ok _
  · by_cases hstripe : header.scheme.dataShards * header.blockLength < limit
    · rw [shardGeometryChecked_ok hsize hstripe, ok_bind]
      refine iff_of_true ?_ fun _ => hstripe
      split_ifs
      · exact Calm.error _
      · exact Calm.ok _
    · rw [shardGeometryChecked_panic (by omega) (by omega), panic_bind]
      exact iff_of_false (fun h => h _ rfl) fun h => hstripe (h hzero)

/-- **Opening a file** stops the program exactly when the numbers in it place its blocks or a stripe beyond `2 ^ 64`. -/
theorem openFile_calm_iff (hfile : file.length < limit) : Calm (openFile xxh3 file) ↔ Bounded xxh3 file := by
  unfold openFile Bounded
  cases hparts : readParts xxh3 file with
  | error e => exact iff_of_true (Calm.error e) fun _ h => by cases h
  | panic p => exact absurd hparts (readParts_calm hfile p)
  | ok parts =>
    obtain ⟨-, hcount, -, hsize⟩ := readParts_eq_ok hfile hparts
    simp only [ok_bind, Outcome.ok.injEq, forall_eq']
    by_cases hlast : 0 < parts.footer.lastBlockLength ∧ parts.footer.lastBlockLength ≤ parts.header.blockLength
    · obtain ⟨hpos, hle⟩ := hlast
      by_cases hfit : ShardFileOutput.footerOffset parts.header parts.footer < limit
      · rcases @checkOffset_ok parts.header parts.footer parts.footerOffset hcount hpos hle hfit with ⟨hok,
          heq⟩ | ⟨⟨e, herr⟩, hne⟩
        · rw [hok, ok_bind]
          have hiff := @checkGeometry_calm_iff parts.header parts.footer hsize (by omega)
          constructor
          · intro hcalm _ _
            exact ⟨hfit, fun _ => hiff.mp fun p hp => hcalm p (by rw [hp, panic_bind])⟩
          · intro h
            exact (hiff.mpr ((h hpos hle).2 heq)).bind fun _ _ => Calm.ok _
        · rw [herr, error_bind]
          exact iff_of_true (Calm.error e) fun _ _ => ⟨hfit, fun heq => absurd heq hne⟩
      · rw [checkOffset_panic hcount hpos hle (by omega), panic_bind]
        exact iff_of_false (fun h => h _ rfl) fun h => hfit (h hpos hle).1
    · obtain ⟨e, herr⟩ := @checkOffset_error parts.header parts.footer parts.footerOffset hlast
      rw [herr, error_bind]
      exact iff_of_true (Calm.error e) fun hpos hle => absurd ⟨hpos, hle⟩ hlast

/-! ## The blocks of an opened file -/

theorem openFile_eq_ok (hfile : file.length < limit) {reader : ShardFileReader} (h : openFile xxh3 file = .ok reader) :
    reader.file = file ∧ reader.footer.checksums.length = reader.footer.blockCount ∧
      ShardFileOutput.footerOffset reader.header reader.footer + reader.footer.encodedLength +
      trailerLen = file.length ∧ 0 < reader.footer.blockCount := by
  obtain ⟨parts, hparts, h⟩ := bind_eq_ok.mp h
  obtain ⟨⟨⟩, hoffset, h⟩ := bind_eq_ok.mp h
  obtain ⟨⟨⟩, -, h⟩ := bind_eq_ok.mp h
  cases h
  obtain ⟨hlen, hcount, hsums, -⟩ := readParts_eq_ok hfile hparts
  refine ⟨rfl, hsums, ?_, hcount⟩
  dsimp only
  by_cases hlast : 0 < parts.footer.lastBlockLength ∧ parts.footer.lastBlockLength ≤ parts.header.blockLength
  · by_cases hfit : ShardFileOutput.footerOffset parts.header parts.footer < limit
    · rcases @checkOffset_ok parts.header parts.footer parts.footerOffset hcount hlast.1 hlast.2 hfit with ⟨-,
        heq⟩ | ⟨⟨e, herr⟩, -⟩
      · rw [heq]
        exact hlen
      · cases hoffset.symm.trans herr
    · cases hoffset.symm.trans (checkOffset_panic hcount hlast.1 hlast.2 (Nat.le_of_not_lt hfit))
  · obtain ⟨e, herr⟩ := @checkOffset_error parts.header parts.footer parts.footerOffset hlast
    cases hoffset.symm.trans herr

/-- Every block of the opened file lies between the header page and the footer, and is read; there are no others. -/
structure Inside (reader : ShardFileReader) : Prop where
  blocks : ∀ i length, reader.blockLength i = .ok length → headerLen + i * reader.header.blockLength + length ≤
    ShardFileOutput.footerOffset reader.header reader.footer
  footer : ShardFileOutput.footerOffset reader.header reader.footer + reader.footer.encodedLength + trailerLen =
    reader.file.length
  read : ∀ i < reader.footer.blockCount, ∃ block, reader.readBlock i = .ok block
  others : ∀ i, reader.footer.blockCount ≤ i → reader.readBlock i = .error (.blockOutOfRange i reader.footer.blockCount)

theorem blockLength_eq {reader : ShardFileReader} {i : ℕ} (hi : i < reader.footer.blockCount) :
    reader.blockLength i = .ok (if i = reader.footer.blockCount -
    1 then reader.footer.lastBlockLength else reader.header.blockLength) := by
  unfold ShardFileReader.blockLength
  rw [if_neg (by omega), sub_ok (by omega), ok_bind]
  split_ifs <;> rfl

theorem blockLength_error {reader : ShardFileReader} {i : ℕ} (hi : reader.footer.blockCount ≤ i) :
    reader.blockLength i = .error (.blockOutOfRange i reader.footer.blockCount) := if_pos hi

theorem block_end {header : ShardFileHeader} {footer : ShardFileFooter} {i : ℕ} (hi : i < footer.blockCount) :
    headerLen + i * header.blockLength + (if i = footer.blockCount -
    1 then footer.lastBlockLength else header.blockLength) ≤
      ShardFileOutput.footerOffset header footer := by
  unfold ShardFileOutput.footerOffset
  split_ifs with hlast
  · rw [hlast]
  · have hbefore := Nat.mul_le_mul_right header.blockLength (show i + 1 ≤ footer.blockCount - 1 by omega)
    rw [Nat.add_mul] at hbefore
    omega

/-- **An opened file has its blocks inside.** -/
theorem openFile_inside (hfile : file.length < limit) {reader : ShardFileReader} (h : openFile xxh3 file = .ok reader) :
    reader.Inside := by
  obtain ⟨hsame, hsums, hlen, -⟩ := openFile_eq_ok hfile h
  subst hsame
  refine ⟨fun i length hlength => ?_, hlen, fun i hi => ?_, fun i hi => ?_⟩
  · by_cases hi : i < reader.footer.blockCount
    · rw [blockLength_eq hi, Outcome.ok.injEq] at hlength
      rw [← hlength]
      exact block_end hi
    · rw [blockLength_error (Nat.le_of_not_lt hi)] at hlength
      cases hlength
  · have hend := @block_end reader.header reader.footer i hi
    have hchecksum := List.getElem?_eq_getElem (hsums.symm ▸ hi : i < reader.footer.checksums.length)
    unfold readBlock
    rw [blockLength_eq hi, ok_bind, mul_ok (by omega), ok_bind, add_ok (by omega), ok_bind, readExactAt,
      if_pos (by omega), ok_bind, nth_ok hchecksum]
    exact ⟨_, rfl⟩
  · unfold readBlock
    rw [blockLength_error hi, error_bind]

end ShardFileReader

end Djbod
