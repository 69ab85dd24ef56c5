import Djbod.Core.Files
import Djbod.Data.Outcome

/-!
# Names read back

* `versionText_exact` : the text of a version, its order, and the texts that are read as one;
* `keyHashFromHex`, `checksumFromHex` : the hex parsers;
* `keyHash_exact_iff`, `checksum_exact_iff`, `shard_exact_iff`, `record_exact_iff` : for each parser, the texts on which
  it accepts exactly what formatting gives, up to the case of letters;
* `recognised_iff_plain` : the four together; `names_misread` : names that are misread.
-/

namespace Djbod

open Checked Spelling

/-! ## Order -/

section Order

variable {v w : VersionId} {i j : ℕ}

theorem ascii_toText (v : VersionId) : Ascii (toText v) := by
  intro c hc
  obtain ⟨d, hd, rfl⟩ := List.mem_map.mp hc
  exact (by decide : ∀ d < 32, (alphabet.getD d '0').utf8Size = 1) d (FixedWidth.lt_of_mem_digits (by decide) hd)

theorem ascii_recordFileName (v : VersionId) : Ascii (recordFileName v) :=
  (ascii_toText v).append (by decide)

theorem ascii_shardFileName (v : VersionId) (i : ℕ) : Ascii (shardFileName v i) := by
  refine ((ascii_toText v).append fun c hc => ?_).append (by decide : Ascii shardSuffix)
  rcases List.mem_cons.mp hc with rfl | hc
  · decide
  · exact ascii_of_isDigit (fun _ => isDigit_toString) c hc

theorem shardFileName_lt (h : v < w) (i j : ℕ) : shardFileName v i < shardFileName w j := by
  rw [shardFileName, shardFileName, List.append_assoc, List.append_assoc]
  exact FixedWidth.append_lt_append (by rw [toText_length, toText_length]) (toText_strictMono h)

theorem shardFileName_lt_iff : shardFileName v i < shardFileName w j ↔ v < w ∨ v = w ∧
    shardFileName v i < shardFileName v j := by
  rcases lt_trichotomy v w with h | rfl | h
  · simp [h, shardFileName_lt]
  · simp
  · simp [h.not_gt, h.ne', (shardFileName_lt h j i).not_gt]

theorem shardFileName_inj : shardFileName v i = shardFileName w j ↔ v = w ∧ i = j := by
  constructor
  · intro h
    rw [shardFileName, shardFileName, List.append_cancel_right_eq] at h
    obtain ⟨hv, hi⟩ := List.append_inj h (by rw [toText_length, toText_length])
    refine ⟨toText_strictMono.injective hv, ?_⟩
    rw [← decimal_toString i, (List.cons.inj hi).2, decimal_toString]
  · rintro ⟨rfl, rfl⟩
    rfl

/-- **Versions and their text agree.** The text is read back; texts and file names are in the order of the versions,
byte by byte; a text is read as a version exactly when it is 26 digits of base 32, in either case, of a number below
`2 ^ 128`, and then as that number; and no two versions share a name. -/
theorem versionText_exact (v w : VersionId) (i j : ℕ) (text : Name) :
    (fromText (toText v) = some v ∧ (toText v).length = 26) ∧
    (utf8 (toText v) < utf8 (toText w) ↔ v < w) ∧
    (fromText text = some v ↔ ∃ digits : List ℕ, digits.length = 26 ∧ (∀ d ∈ digits, d < 32) ∧
      text.map Char.toUpper = digits.map (fun d => alphabet.getD d '0') ∧ FixedWidth.value 32 digits < 2 ^ 128 ∧
      v.val = FixedWidth.value 32 digits) ∧
    (utf8 (recordFileName v) < utf8 (recordFileName w) ↔ v < w) ∧
    (utf8 (shardFileName v i) < utf8 (shardFileName w j) ↔
      v < w ∨ v = w ∧ utf8 (shardFileName v i) < utf8 (shardFileName v j)) ∧
    (recordFileName v = recordFileName w ↔ v = w) ∧
    (shardFileName v i = shardFileName w j ↔ v = w ∧ i = j) := by
  refine ⟨⟨fromText_toText v, toText_length v⟩, ?_, ?_, ?_, ?_, recordFileName_strictMono.injective.eq_iff,
    shardFileName_inj⟩
  · rw [utf8_lt_iff (ascii_toText v) (ascii_toText w), toText_strictMono.lt_iff_lt]
  · rw [fromText_eq_some]
    constructor
    · intro h
      have hv : v.val < 32 ^ 26 := v.isLt.trans_le (by norm_num)
      refine ⟨FixedWidth.digits 32 26 v.val, FixedWidth.digits_length .., fun d hd =>
        FixedWidth.lt_of_mem_digits (by decide) hd, h, ?_⟩
      rw [FixedWidth.value_digits hv]
      exact ⟨v.isLt, rfl⟩
    · rintro ⟨digits, hlen, hlt, hmap, _, hv⟩
      rw [hmap, toText, FixedWidth.text, hv, textLen, ← hlen, FixedWidth.digits_value (by decide) hlt]
  · rw [utf8_lt_iff (ascii_recordFileName v) (ascii_recordFileName w), recordFileName_strictMono.lt_iff_lt]
  · rw [utf8_lt_iff (ascii_shardFileName v i) (ascii_shardFileName w j), utf8_lt_iff (ascii_shardFileName v i)
      (ascii_shardFileName v j), shardFileName_lt_iff]

end Order

/-! ## Hex -/

/-- A digit to the base 16, in either case. -/
def hexValue (c : Char) : Option ℕ := "0123456789abcdef".toList.findIdx? fun digit => digit == c.toLower

/-- A text without its plus sign, if it has one. -/
def unsigned (text : Name) : Name := if text.head? = some '+' then text.tail else text

/-- A number to the base 16 below a bound, with or without a plus sign. -/
def fromStrRadix16 (bound : ℕ) (text : Name) : Option ℕ :=
  if unsigned text = [] then none
  else do
    let values ← (unsigned text).mapM hexValue
    let n := FixedWidth.value 16 values
    if n < bound then some n else none

def checksumFromHex (hex : Name) : Option BlockChecksum :=
  if byteLen hex ≠ 16 then none else (fromStrRadix16 (2 ^ 64) hex).map UInt64.ofNat

/-- The next `n` pairs of bytes of a text as numbers. A slice that does not end between characters stops the program. -/
def hexBytes : ℕ → Name → Outcome Unit (List ℕ)
  | 0, _ => .ok []
  | n + 1, hex =>
    match splitBytes 2 hex with
    | none => .panic .outOfBounds
    | some (pair, rest) =>
      match fromStrRadix16 (2 ^ 8) pair with
      | none => .error ()
      | some byte => do
        let bytes ← hexBytes n rest
        return byte :: bytes

def keyHashFromHex (hex : Name) : Outcome Unit KeyHash :=
  if byteLen hex ≠ 64 then .error ()
  else do
    let bytes ← hexBytes 32 hex
    return Fin.ofNat (2 ^ 256) (FixedWidth.value 256 bytes)

def isHex (c : Char) : Bool := (hexValue c).isSome

section Hex

variable {c : Char} {text : Name}

theorem hexValue_eq_some (c : Char) (d : ℕ) : hexValue c = some d ↔ d < 16 ∧ c.toLower = hexDigit d :=
  FixedWidth.findIdx_letter (by decide) _ '0' d

theorem isHex_cases (h : isHex c = true) : ∃ d < 16, c = hexDigit d ∨ c = (hexDigit d).toUpper := by
  obtain ⟨d, hd⟩ := Option.isSome_iff_exists.mp h
  obtain ⟨hlt, hlower⟩ := (hexValue_eq_some c d).mp hd
  refine ⟨d, hlt, ?_⟩
  rw [← hlower, toUpper_toLower]
  rcases eq_upper_or_lower c with heq | heq
  · exact .inr heq
  · rw [toLower_toUpper] at heq
    exact .inl heq

theorem isHex_size (h : isHex c = true) : c.utf8Size = 1 ∧ c ≠ '+' := by
  obtain ⟨d, hd, rfl | rfl⟩ := isHex_cases h
  · exact (by decide : ∀ d < 16, (hexDigit d).utf8Size = 1 ∧ hexDigit d ≠ '+') d hd
  · exact (by decide : ∀ d < 16, (hexDigit d).toUpper.utf8Size = 1 ∧ (hexDigit d).toUpper ≠ '+') d hd

theorem mapM_hexValue_isSome : (text.mapM hexValue).isSome = true ↔ ∀ c ∈ text, isHex c = true := by
  induction text with
  | nil => simp
  | cons c text ih =>
    rw [List.forall_mem_cons, ← ih, List.mapM_cons, isHex]
    cases hexValue c <;> cases text.mapM hexValue <;> simp

theorem text_lower (n x : ℕ) : (FixedWidth.text hexDigit 16 n x).map Char.toLower =
    FixedWidth.text hexDigit 16 n x := by
  rw [FixedWidth.text, List.map_map]
  exact List.map_congr_left fun d hd => (by decide : ∀ d < 16, (hexDigit d).toLower = hexDigit d)
    d (FixedWidth.lt_of_mem_digits (by decide) hd)

theorem sameLetters_hex {n x : ℕ} (hx : x < 16 ^ n) : SameLetters text (FixedWidth.text hexDigit 16 n x) ↔
    text.length = n ∧ ∃ values, text.mapM hexValue = some values ∧ FixedWidth.value 16 values = x := by
  rw [FixedWidth.read_iff (by decide) hexValue_eq_some, and_iff_right hx, SameLetters, text_lower]

theorem ascii_of_isHex (h : ∀ c ∈ text, isHex c = true) : Ascii text := fun c hc => (isHex_size (h c hc)).1

theorem SameLetters.isHex {n x : ℕ} (hx : x < 16 ^ n) (h : SameLetters text (FixedWidth.text hexDigit 16 n x)) :
    ∀ c ∈ text, isHex c = true := by
  obtain ⟨_, values, hvalues, _⟩ := (sameLetters_hex hx).mp h
  exact mapM_hexValue_isSome.mp (by rw [hvalues]; rfl)

theorem fromStrRadix16_eq_some {bound x : ℕ} : fromStrRadix16 bound text = some x ↔
    unsigned text ≠ [] ∧ x < bound ∧ ∃ values, (unsigned text).mapM hexValue = some values ∧
    FixedWidth.value 16 values = x := by
  unfold fromStrRadix16
  split_ifs with hnil
  · simp [hnil]
  · simp only [Option.bind_eq_bind, Option.bind_eq_some_iff]
    constructor
    · rintro ⟨values, hvalues, h⟩
      split_ifs at h with hlt
      cases h
      exact ⟨hnil, hlt, values, hvalues, rfl⟩
    · rintro ⟨_, hlt, values, hvalues, rfl⟩
      exact ⟨values, hvalues, if_pos hlt⟩

theorem checksumFromHex_eq_some {c : BlockChecksum} : checksumFromHex text = some c ↔
    byteLen text = 16 ∧ ∃ values, (unsigned text).mapM hexValue = some values ∧
    FixedWidth.value 16 values = c.toNat := by
  unfold checksumFromHex
  split_ifs with hlen
  · simp [hlen]
  · rw [Option.map_eq_some_iff]
    constructor
    · rintro ⟨x, hx, rfl⟩
      obtain ⟨_, hlt, hvalues⟩ := fromStrRadix16_eq_some.mp hx
      rw [UInt64.toNat_ofNat', Nat.mod_eq_of_lt hlt]
      exact ⟨not_not.mp hlen, hvalues⟩
    · rintro ⟨hlen, hvalues⟩
      refine ⟨c.toNat, fromStrRadix16_eq_some.mpr ⟨fun hnil => ?_, c.toNat_lt, hvalues⟩, UInt64.ofNat_toNat⟩
      unfold unsigned at hnil
      split_ifs at hnil with hsign
      · cases text with
        | nil => cases hsign
        | cons c text =>
          cases hsign
          cases (show text = [] from hnil)
          cases hlen
      · cases hnil
        cases hlen

/-- A checksum is accepted exactly when it is written as it should be, unless a plus sign stands for its first digit. -/
theorem checksum_exact_iff : (∀ c, checksumFromHex text = some c ↔ SameLetters text (checksumToHex c)) ↔
    ∀ digits, text = '+' :: digits → digits.length = 15 → ¬ ∀ c ∈ digits, isHex c = true := by
  have hlt : ∀ c : BlockChecksum, c.toNat < 16 ^ 16 := fun c => c.toNat_lt.trans_eq (by norm_num)
  have hascii : ∀ {text values}, text.mapM hexValue = some values → Ascii text := fun h =>
    ascii_of_isHex (mapM_hexValue_isSome.mp (by rw [h]; rfl))
  by_cases hsign : text.head? = some '+'
  · obtain ⟨digits, rfl⟩ : ∃ digits, text = '+' :: digits := by
      cases text with
      | nil => cases hsign
      | cons c digits => exact ⟨digits, by rw [Option.some.inj hsign]⟩
    have hno : ∀ c, ¬ SameLetters ('+' :: digits) (checksumToHex c) := fun c h =>
      (isHex_size (SameLetters.isHex (hlt c) h _ List.mem_cons_self)).2 rfl
    have hlen : byteLen ('+' :: digits) = 1 + byteLen digits := List.sum_cons
    simp only [hno, iff_false, checksumFromHex_eq_some, hlen, unsigned, hsign, if_true, List.tail_cons]
    constructor
    · rintro h _ ⟨⟩ hcount hhex
      obtain ⟨values, hvalues⟩ := Option.isSome_iff_exists.mp (mapM_hexValue_isSome.mpr hhex)
      obtain ⟨hsmall, hmap⟩ := (FixedWidth.mapM_decode hexValue_eq_some).mp hvalues
      have hsame := congrArg List.length hmap
      rw [List.length_map, List.length_map] at hsame
      have hvalue := FixedWidth.value_lt (by decide) hsmall
      rw [← hsame, hcount] at hvalue
      refine h (UInt64.ofNat (FixedWidth.value 16 values))
        ⟨by rw [(hascii hvalues).byteLen, hcount], values, hvalues, ?_⟩
      rw [UInt64.toNat_ofNat', Nat.mod_eq_of_lt (hvalue.trans (by norm_num))]
    · rintro h c ⟨hbytes, values, hvalues, _⟩
      rw [(hascii hvalues).byteLen] at hbytes
      exact h digits rfl (by omega) (mapM_hexValue_isSome.mp (by rw [hvalues]; rfl))
  · refine iff_of_true (fun c => ?_) fun digits heq => absurd (heq ▸ rfl) hsign
    rw [checksumFromHex_eq_some, checksumToHex, sameLetters_hex (hlt c), unsigned, if_neg hsign]
    exact and_congr_left fun ⟨values, hvalues, _⟩ => by rw [(hascii hvalues).byteLen]

/-! ### Key hashes -/

/-- What is left of a text behind its pairs of hex digits, a plus sign allowed for the first of a pair. -/
def pairsEnd : Name → Name
  | a :: b :: rest => if (isHex a || a == '+') && isHex b then pairsEnd rest else a :: b :: rest
  | rest => rest

/-- The next two bytes of a text end inside a character. -/
def cutsPair : Name → Bool
  | a :: b :: _ => decide (2 < a.utf8Size) || a.utf8Size == 1 && decide (1 < b.utf8Size)
  | [a] => decide (2 < a.utf8Size)
  | [] => false

def pairBytes : Name → List ℕ
  | a :: b :: rest => (16 * (hexValue a).getD 0 + (hexValue b).getD 0) :: pairBytes rest
  | _ => []

theorem hexValue_plus : hexValue '+' = none := by decide

theorem fromStrRadix16_pair (a b : Char) : fromStrRadix16 (2 ^ 8) [a, b] =
    if ((isHex a || a == '+') && isHex b) = true then
      some (16 * (hexValue a).getD 0 + (hexValue b).getD 0) else none := by
  have hlt : ∀ {c d}, hexValue c = some d → d < 16 := fun h => ((hexValue_eq_some _ _).mp h).1
  by_cases hplus : a = '+'
  · subst hplus
    cases hb : hexValue b with
    | none => simp [fromStrRadix16, unsigned, isHex, hb]
    | some y =>
      have hy := hlt hb
      simp [fromStrRadix16, unsigned, isHex, hb, hexValue_plus, FixedWidth.value]
      omega
  · cases ha : hexValue a with
    | none => simp [fromStrRadix16, unsigned, isHex, ha, hplus]
    | some x =>
      cases hb : hexValue b with
      | none => simp [fromStrRadix16, unsigned, isHex, ha, hb, hplus]
      | some y =>
        have hx := hlt ha
        have hy := hlt hb
        simp [fromStrRadix16, unsigned, isHex, ha, hb, hplus, FixedWidth.value]
        omega

theorem fromStrRadix16_wide {bound : ℕ} (h : c.utf8Size ≠ 1) : fromStrRadix16 bound [c] = none := by
  have hhex : hexValue c = none := by
    by_contra hsome
    exact h (isHex_size (Option.isSome_iff_ne_none.mpr hsome)).1
  have hplus : c ≠ '+' := by
    rintro rfl
    exact h rfl
  simp [fromStrRadix16, unsigned, hhex, hplus]

/-- What becomes of the pairs: up to the first that is none, everything is read, and that one is refused or stops the
program. -/
theorem hexBytes_eq {n : ℕ} (h : byteLen text = 2 * n) : hexBytes n text =
    if cutsPair (pairsEnd text) = true then .panic .outOfBounds else if pairsEnd text =
        [] then .ok (pairBytes text) else .error () := by
  induction n generalizing text with
  | zero =>
    cases text with
    | nil => rfl
    | cons a text =>
      have ha := a.utf8Size_pos
      simp only [byteLen, List.map_cons, List.sum_cons] at h
      omega
  | succ n ih =>
    unfold hexBytes
    rcases text with _ | ⟨a, _ | ⟨b, rest⟩⟩
    · cases h
    · have hsize : a.utf8Size = 2 * (n + 1) := by simpa [byteLen] using h
      by_cases htwo : a.utf8Size = 2
      · have hsplit : splitBytes 2 [a] = some ([a], []) := by simp [splitBytes, htwo]
        simp [hsplit, fromStrRadix16_wide (htwo.trans_ne (by decide)), pairsEnd, cutsPair, htwo]
      · have hsplit : splitBytes 2 [a] = none := by simp [splitBytes]; omega
        have hcut : 2 < a.utf8Size := by omega
        simp [hsplit, pairsEnd, cutsPair, hcut]
    · have hsize : a.utf8Size + (b.utf8Size + byteLen rest) = 2 * (n + 1) := by simpa [byteLen] using h
      have ha := a.utf8Size_pos
      have hb := b.utf8Size_pos
      by_cases hone : a.utf8Size = 1
      · by_cases hbone : b.utf8Size = 1
        · have hsplit : splitBytes 2 (a :: b :: rest) = some ([a, b], rest) := by simp [splitBytes, hone, hbone]
          rw [hsplit]
          dsimp only
          rw [fromStrRadix16_pair, pairsEnd]
          by_cases hpair : ((isHex a || a == '+') && isHex b) = true
          · rw [if_pos hpair, if_pos hpair]
            dsimp only
            rw [ih (by omega), pairBytes]
            split_ifs <;> rfl
          · rw [if_neg hpair, if_neg hpair]
            simp [cutsPair, hone, hbone]
        · have hsplit : splitBytes 2 (a :: b :: rest) = none := by
            simp [splitBytes, hone]
            omega
          have hno : isHex b = false := Bool.eq_false_iff.mpr fun hhex => hbone (isHex_size hhex).1
          have hcut : 1 < b.utf8Size := by omega
          simp [hsplit, pairsEnd, hno, cutsPair, hone, hcut]
      · have hno : (isHex a || a == '+') = false := by
          rw [Bool.or_eq_false_iff]
          refine ⟨Bool.eq_false_iff.mpr fun hhex => hone (isHex_size hhex).1, ?_⟩
          rw [beq_eq_false_iff_ne]
          rintro rfl
          exact hone rfl
        by_cases htwo : a.utf8Size = 2
        · have hsplit : splitBytes 2 (a :: b :: rest) = some ([a], b :: rest) := by simp [splitBytes, htwo]
          simp [hsplit, fromStrRadix16_wide hone, pairsEnd, hno, cutsPair, htwo]
        · have hsplit : splitBytes 2 (a :: b :: rest) = none := by
            simp [splitBytes]
            omega
          have hcut : 2 < a.utf8Size := by omega
          simp [hsplit, pairsEnd, hno, cutsPair, hcut]

theorem isHex_of_pairs (hend : pairsEnd text = []) (hplus : '+' ∉ text) : ∀ c ∈ text, isHex c = true := by
  induction text using pairsEnd.induct with
  | case1 a b rest hpair ih =>
    rw [pairsEnd, if_pos hpair] at hend
    simp only [List.mem_cons, not_or] at hplus
    have ha : (a == '+') = false := beq_eq_false_iff_ne.mpr (Ne.symm hplus.1)
    rw [ha, Bool.or_false, Bool.and_eq_true] at hpair
    exact List.forall_mem_cons.mpr ⟨hpair.1, List.forall_mem_cons.mpr ⟨hpair.2, ih hend hplus.2.2⟩⟩
  | case2 a b rest hpair => rw [pairsEnd, if_neg hpair] at hend; cases hend
  | case3 text hshort =>
    rw [pairsEnd.eq_2 text hshort] at hend
    rw [hend]
    nofun

theorem pairs_of_hex {n : ℕ} (hlen : text.length = 2 * n) {values : List ℕ} (h : text.mapM hexValue = some values) :
    pairsEnd text = [] ∧ ∀ v, (pairBytes text).foldl (fun v d => v * 256 + d) v = values.foldl (fun v d =>
    v * 16 + d) v := by
  induction n generalizing text values with
  | zero =>
    cases List.length_eq_zero_iff.mp hlen
    cases h
    exact ⟨rfl, fun _ => rfl⟩
  | succ n ih =>
    match text, hlen with
    | a :: b :: rest, hlen =>
      simp only [List.mapM_cons, Option.bind_eq_bind, Option.bind_eq_some_iff, Option.pure_def, Option.some.injEq] at h
      obtain ⟨x, hx, _, ⟨y, hy, values', hvalues', rfl⟩, rfl⟩ := h
      obtain ⟨hend, hfold⟩ := ih (by simp only [List.length_cons] at hlen; omega) hvalues'
      refine ⟨by simp [pairsEnd, isHex, hx, hy, hend], fun v => ?_⟩
      rw [pairBytes, List.foldl_cons, hfold, List.foldl_cons, List.foldl_cons, hx, hy, Option.getD_some,
        Option.getD_some]
      congr 1
      ring

theorem keyHash_exact_iff :
    ((∀ p, keyHashFromHex text ≠ .panic p) ∧ ∀ h, keyHashFromHex text = .ok h ↔ SameLetters text (toHex h)) ↔
      (byteLen text = 64 → cutsPair (pairsEnd text) = false ∧ (pairsEnd text = [] → '+' ∉ text)) := by
  have hspelt : ∀ h : KeyHash, SameLetters text (toHex h) ↔
      text.length = 64 ∧ ∃ values, text.mapM hexValue = some values ∧ FixedWidth.value 16 values = h.val := fun h =>
    sameLetters_hex (h.isLt.trans_eq (by norm_num))
  have hbytes : ∀ {values}, text.mapM hexValue = some values → byteLen text = text.length := fun h =>
    (ascii_of_isHex (mapM_hexValue_isSome.mp (by rw [h]; rfl))).byteLen
  by_cases hlen : byteLen text = 64
  · have hread : keyHashFromHex text = if cutsPair (pairsEnd text) =
      true then .panic .outOfBounds else if pairsEnd text = [] then
        .ok (Fin.ofNat (2 ^ 256) (FixedWidth.value 256 (pairBytes text))) else .error () := by
      rw [keyHashFromHex, if_neg (not_not.mpr hlen), hexBytes_eq hlen]
      split_ifs <;> rfl
    rw [hread]
    simp only [hlen, forall_const]
    cases hcut : cutsPair (pairsEnd text) with
    | true => exact iff_of_false (fun h => h.1 _ rfl) fun h => Bool.noConfusion h.1
    | false =>
      by_cases hend : pairsEnd text = []
      · by_cases hplus : '+' ∈ text
        · refine iff_of_false (fun h => ?_) fun h => h.2 hend hplus
          have hsame := (h.2 (Fin.ofNat (2 ^ 256) (FixedWidth.value 256 (pairBytes text)))).mp (by simp [hend])
          exact (isHex_size (SameLetters.isHex (Fin.isLt _ |>.trans_eq (by norm_num)) hsame _ hplus)).2 rfl
        · refine iff_of_true ⟨by simp [hend], fun h => ?_⟩ ⟨rfl, fun _ => hplus⟩
          obtain ⟨values, hvalues⟩ := Option.isSome_iff_exists.mp (mapM_hexValue_isSome.mpr (isHex_of_pairs hend hplus))
          have hcount : text.length = 64 := (hbytes hvalues).symm.trans hlen
          have hvalue : FixedWidth.value 256 (pairBytes text) = FixedWidth.value 16 values :=
            (pairs_of_hex (n := 32) hcount hvalues).2 0
          obtain ⟨hsmall, hmap⟩ := (FixedWidth.mapM_decode hexValue_eq_some).mp hvalues
          have hsame : values.length = 64 := by simpa [hcount] using (congrArg List.length hmap).symm
          have hfits := FixedWidth.value_lt (by decide) hsmall
          rw [hsame, ← (by norm_num : (2 : ℕ) ^ 256 = 16 ^ 64)] at hfits
          rw [hspelt, hvalue, if_neg Bool.false_ne_true, if_pos hend, Outcome.ok.injEq, Fin.ext_iff, Fin.val_ofNat,
            Nat.mod_eq_of_lt hfits]
          exact ⟨fun heq => ⟨hcount, values, hvalues, heq⟩, fun ⟨_, values', hvalues', heq⟩ => by
            cases hvalues.symm.trans hvalues'
            exact heq⟩
      · refine iff_of_true ⟨by simp [hend], fun h => ?_⟩ ⟨rfl, fun h => absurd h hend⟩
        rw [hspelt]
        simp only [Bool.false_eq_true, if_false, if_neg hend, reduceCtorEq, false_iff]
        rintro ⟨hcount, values, hvalues, _⟩
        exact hend (pairs_of_hex (n := 32) hcount hvalues).1
  · refine iff_of_true ?_ fun h => absurd h hlen
    rw [keyHashFromHex, if_pos hlen]
    refine ⟨nofun, fun h => ?_⟩
    rw [hspelt]
    simp only [reduceCtorEq, false_iff]
    rintro ⟨hcount, values, hvalues, _⟩
    exact hlen ((hbytes hvalues).trans hcount)

end Hex

/-! ## File names -/

/-- A number written as formatting writes it: no sign, and no zero before other digits. -/
def NumberText (text : Name) : Prop := text.head? ≠ some '+' ∧ (text.head? = some '0' → text = ['0'])

section Files

variable {text name version index suffix : Name} {v : VersionId} {i : ℕ}

theorem parseU8_eq_some : parseU8 text = some i ↔
    unsigned text ≠ [] ∧ (∀ c ∈ unsigned text, c.isDigit = true) ∧ decimal (unsigned text) = i ∧ i < 256 := by
  show (if unsigned text = [] ∨ (!(unsigned text).all Char.isDigit) = true then none
    else if decimal (unsigned text) < 256 then some (decimal (unsigned text)) else none) = some i ↔ _
  split_ifs with hbad hlt
  · refine iff_of_false nofun fun ⟨hne, hdigits, _⟩ => ?_
    simp [hne, List.all_eq_true.mpr hdigits] at hbad
  · rw [not_or, Bool.not_eq_true, Bool.not_eq_false', List.all_eq_true] at hbad
    rw [Option.some.injEq]
    exact ⟨fun h => ⟨hbad.1, hbad.2, h, h ▸ hlt⟩, fun h => h.2.2.1⟩
  · exact iff_of_false nofun fun ⟨_, _, hi, h⟩ => hlt (hi ▸ h)

theorem unsigned_toString (i : ℕ) : unsigned (toString i).toList = (toString i).toList := by
  refine if_neg fun hplus => ?_
  cases isDigit_toString (List.mem_of_mem_head? hplus)

theorem parseU8_toString (h : i < 256) : parseU8 (toString i).toList = some i := by
  rw [parseU8_eq_some, unsigned_toString, decimal_toString]
  exact ⟨by simp, fun _ => isDigit_toString, rfl, h⟩

theorem numberText_iff (h : parseU8 text = some i) : NumberText text ↔ text = (toString i).toList := by
  obtain ⟨hne, hdigits, rfl, _⟩ := parseU8_eq_some.mp h
  by_cases hplus : text.head? = some '+'
  · refine iff_of_false (fun hno => hno.1 hplus) fun heq => ?_
    rw [heq] at hplus
    cases isDigit_toString (List.mem_of_mem_head? hplus)
  · rw [unsigned, if_neg hplus] at hne hdigits ⊢
    rw [NumberText, and_iff_right hplus, ← toString_decimal hne hdigits, eq_comm]

theorem parseRecordFileName_eq_some : parseRecordFileName name = some v ↔ ∃ version, name = version ++ recordSuffix ∧
    fromText version = some v := by
  unfold parseRecordFileName
  split_ifs with hsuffix
  · obtain ⟨version, rfl⟩ := List.isSuffixOf_iff_suffix.mp hsuffix
    rw [List.length_append, Nat.add_sub_cancel, List.take_left]
    exact ⟨fun h => ⟨version, rfl, h⟩, fun ⟨version', heq, h⟩ => List.append_cancel_right heq ▸ h⟩
  · refine iff_of_false nofun ?_
    rintro ⟨version, rfl, _⟩
    exact hsuffix (List.isSuffixOf_iff_suffix.mpr ⟨version, rfl⟩)

theorem sameLetters_toText : SameLetters text (toText v) ↔ fromText text = some v := by
  rw [sameLetters_iff_upper, toText_upper, fromText_eq_some]

/-- A record name is accepted exactly when it is written as it should be, unless only the case of its ending is not. -/
theorem record_exact_iff : (∀ v, parseRecordFileName name = some v ↔ SameLetters name (recordFileName v)) ↔
    ∀ version suffix, name = version ++ suffix → (fromText version).isSome → SameLetters suffix recordSuffix →
    suffix = recordSuffix := by
  constructor
  · rintro h version suffix rfl hversion hsuffix
    obtain ⟨v, hv⟩ := Option.isSome_iff_exists.mp hversion
    obtain ⟨version', heq, _⟩ := parseRecordFileName_eq_some.mp ((h v).mpr ((sameLetters_toText.mpr hv).append hsuffix))
    exact (List.append_inj' heq hsuffix.length).2
  · intro h v
    rw [parseRecordFileName_eq_some]
    constructor
    · rintro ⟨version, rfl, hv⟩
      exact (sameLetters_toText.mpr hv).append rfl
    · intro hsame
      obtain ⟨version, suffix, rfl, hversion, hsuffix⟩ := SameLetters.split hsame
      have hv := sameLetters_toText.mp hversion
      exact ⟨version, by rw [h version suffix rfl (by rw [hv]; rfl) hsuffix], hv⟩

theorem parseShardFileName_iff : parseShardFileName name = some (v, i) ↔ ∃ version index, name = version ++ '.' ::
    (index ++ shardSuffix) ∧ fromText version = some v ∧ parseU8 index = some i := by
  constructor
  · intro h
    obtain ⟨version, index, hname, _, hv, hi⟩ := parseShardFileName_eq_some h
    exact ⟨version, index, hname, hv, hi⟩
  · rintro ⟨version, index, rfl, hv, hi⟩
    have hdot : '.' ∉ version := fun hmem => by
      have hupper := List.mem_map_of_mem (f := Char.toUpper) hmem
      rw [fromText_eq_some.mp hv] at hupper
      exact dot_notMem_toText v hupper
    have hname : version ++ '.' :: (index ++ shardSuffix) = (version ++ '.' :: index) ++ shardSuffix := by simp
    have hstem : ((version ++ '.' :: index) ++ shardSuffix).take
        (((version ++ '.' :: index) ++ shardSuffix).length - shardSuffix.length) = version ++ '.' :: index := by
      rw [List.length_append, Nat.add_sub_cancel, List.take_left]
    have hdrop : (version ++ '.' :: index).dropWhile (fun c => decide (c ≠ '.')) = '.' :: index := by
      rw [List.dropWhile_append_of_pos (fun c hc => by simpa using fun heq : c = '.' => hdot (heq ▸ hc)),
        List.dropWhile_cons_of_neg (by simp)]
    unfold parseShardFileName
    rw [hname, if_pos (List.isSuffixOf_iff_suffix.mpr ⟨_, rfl⟩), hstem]
    dsimp only
    rw [List.span_eq_takeWhile_dropWhile, takeWhile_dot hdot, hdrop]
    simp [hv, hi]

theorem sameLetters_shard : SameLetters name (shardFileName v i) ↔ ∃ version suffix, name = version ++ '.' ::
    ((toString i).toList ++ suffix) ∧ fromText version = some v ∧ SameLetters suffix shardSuffix := by
  have hfixed : ∀ c ∈ '.' :: (toString i).toList, c.toLower = c ∧ c.toUpper = c := by
    refine List.forall_mem_cons.mpr ⟨by decide, fun c hc => ?_⟩
    have hrange := digit_range (isDigit_toString hc)
    rw [← Char.toNat_inj, ← Char.toNat_inj, toNat_toLower, toNat_toUpper]
    exact ⟨if_neg (by omega), if_neg (by omega)⟩
  constructor
  · intro h
    obtain ⟨front, suffix, rfl, hfront, hsuffix⟩ := h.split
    obtain ⟨version, number, rfl, hversion, hnumber⟩ := hfront.split
    cases (sameLetters_iff_eq hfixed).mp hnumber
    exact ⟨version, suffix, by simp, sameLetters_toText.mp hversion, hsuffix⟩
  · rintro ⟨version, suffix, rfl, hversion, hsuffix⟩
    have hsame := ((sameLetters_toText.mpr hversion).append (rfl : SameLetters ('.' :: (toString i).toList) _)).append
      hsuffix
    rwa [List.append_assoc] at hsame

/-- A shard name is accepted exactly when it is written as it should be, unless its number has a sign or a needless
zero, or only the case of its ending is not. -/
theorem shard_exact_iff : (∀ v i, parseShardFileName name = some (v, i) ↔ i < 256 ∧
    SameLetters name (shardFileName v i)) ↔ ∀ version index suffix, name = version ++ '.' :: (index ++ suffix) →
    (fromText version).isSome → (parseU8 index).isSome →
      SameLetters suffix shardSuffix → (suffix = shardSuffix ↔ NumberText index) := by
  constructor
  · rintro h version index suffix rfl hversion hindex hsuffix
    obtain ⟨v, hv⟩ := Option.isSome_iff_exists.mp hversion
    obtain ⟨i, hi⟩ := Option.isSome_iff_exists.mp hindex
    rw [numberText_iff hi]
    constructor
    · rintro rfl
      obtain ⟨version', suffix', heq, hv', hsuffix'⟩ :=
        sameLetters_shard.mp ((h v i).mp (parseShardFileName_iff.mpr ⟨_, _, rfl, hv, hi⟩)).2
      have hlen := (sameLetters_toText.mpr hv).length.trans (sameLetters_toText.mpr hv').length.symm
      exact (List.append_inj' (List.cons.inj (List.append_inj heq hlen).2).2 hsuffix'.length.symm).1
    · intro hnumber
      rw [hnumber] at h
      obtain ⟨version', index', heq, _⟩ := parseShardFileName_iff.mp ((h v i).mpr ⟨(parseU8_eq_some.mp hi).2.2.2,
        sameLetters_shard.mpr ⟨version, suffix, rfl, hv, hsuffix⟩⟩)
      rw [← List.cons_append, ← List.append_assoc, ← List.cons_append, ← List.append_assoc] at heq
      exact (List.append_inj' heq hsuffix.length).2
  · intro h v i
    rw [parseShardFileName_iff]
    constructor
    · rintro ⟨version, index, rfl, hv, hi⟩
      have hnumber := (numberText_iff hi).mp ((h version index shardSuffix rfl (by rw [hv]; rfl)
        (by rw [hi]; rfl) rfl).mp rfl)
      exact ⟨(parseU8_eq_some.mp hi).2.2.2, sameLetters_shard.mpr ⟨version, shardSuffix, by rw [hnumber], hv, rfl⟩⟩
    · rintro ⟨hlt, hsame⟩
      obtain ⟨version, suffix, rfl, hv, hsuffix⟩ := sameLetters_shard.mp hsame
      have hi := parseU8_toString hlt
      have hends := (h version _ suffix rfl (by rw [hv]; rfl) (by rw [hi]; rfl) hsuffix).mpr
        ((numberText_iff hi).mpr rfl)
      exact ⟨version, _, by rw [hends], hv, hi⟩

end Files

/-- Every parser accepts the name exactly when it is what formatting a value gives, up to the case of letters, and then
returns that value; and none stops the program. -/
structure RecognisedExactly (name : Name) : Prop where
  calm : ∀ p, keyHashFromHex name ≠ .panic p
  keyHash : ∀ h, keyHashFromHex name = .ok h ↔ SameLetters name (toHex h)
  checksum : ∀ c, checksumFromHex name = some c ↔ SameLetters name (checksumToHex c)
  shard : ∀ v i, parseShardFileName name = some (v, i) ↔ i < 256 ∧ SameLetters name (shardFileName v i)
  record : ∀ v, parseRecordFileName name = some v ↔ SameLetters name (recordFileName v)

/-- None of the spellings that are misread: of 64 bytes, hex pairs with a plus sign in place of a digit, or followed by
a character that begins in one pair and ends behind it; a plus sign before 15 hex digits; a shard number with a sign or
a needless zero; a file name whose ending is not in lower case. -/
structure PlainName (name : Name) : Prop where
  keyHash : byteLen name = 64 → cutsPair (pairsEnd name) = false ∧ (pairsEnd name = [] → '+' ∉ name)
  checksum : ∀ digits, name = '+' :: digits → digits.length = 15 → ¬ ∀ c ∈ digits, isHex c = true
  shard : ∀ version index suffix, name = version ++ '.' :: (index ++ suffix) → (fromText version).isSome →
    (parseU8 index).isSome → SameLetters suffix shardSuffix → (suffix = shardSuffix ↔ NumberText index)
  record : ∀ version suffix, name = version ++ suffix → (fromText version).isSome → SameLetters suffix recordSuffix →
    suffix = recordSuffix

/-- **A name is recognised exactly as long as it is spelt plainly**, and plainly spelt names of one shard differ in the
case of letters only. -/
theorem recognised_iff_plain (name : Name) : (RecognisedExactly name ↔ PlainName name) ∧
    ∀ name', PlainName name → PlainName name' → ∀ shard, parseShardFileName name = some shard →
      parseShardFileName name' = some shard → SameLetters name name' := by
  have hiff : ∀ name, RecognisedExactly name ↔ PlainName name := fun name =>
    ⟨fun h => ⟨keyHash_exact_iff.mp ⟨h.calm, h.keyHash⟩, checksum_exact_iff.mp h.checksum, shard_exact_iff.mp h.shard,
      record_exact_iff.mp h.record⟩,
    fun h => ⟨(keyHash_exact_iff.mpr h.keyHash).1, (keyHash_exact_iff.mpr h.keyHash).2,
    checksum_exact_iff.mpr h.checksum,
      shard_exact_iff.mpr h.shard, record_exact_iff.mpr h.record⟩⟩
  refine ⟨hiff name, fun name' h h' shard hname hname' => ?_⟩
  have hsame := ((((hiff name).mpr h).shard _ _).mp hname).2
  have hsame' := ((((hiff name').mpr h').shard _ _).mp hname').2
  exact hsame.trans hsame'.symm

def plusName : Name := "00000000000000000000000000.+5.shard".toList

/-- A text of 64 bytes whose second character lies in two pairs. -/
def cutName : Name := '0' :: 'é' :: List.replicate 61 'a'

/-- The name with the plus sign is taken for that of another file, and the other text stops the program. -/
theorem names_misread : parseShardFileName plusName = some (0, 5) ∧
    parseShardFileName (shardFileName 0 5) = some (0, 5) ∧ ¬ SameLetters plusName (shardFileName 0 5) ∧
    keyHashFromHex cutName = .panic .outOfBounds ∧ ¬ RecognisedExactly plusName ∧ ¬ RecognisedExactly cutName := by
  have hparse : parseShardFileName plusName = some (0, 5) := by decide +kernel
  have hother : ¬ SameLetters plusName (shardFileName 0 5) := by decide +kernel
  have hcut : keyHashFromHex cutName = .panic .outOfBounds := by decide +kernel
  exact ⟨hparse, by decide +kernel, hother, hcut, fun h => hother ((h.shard 0 5).mp hparse).2, fun h => h.calm _ hcut⟩

end Djbod
