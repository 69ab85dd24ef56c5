import Djbod.Data.Digits
import Mathlib.Data.Char

/-!
# Spellings

* `SameLetters` : texts that differ in the case of letters only;
* `decimal` : the number that decimal digits spell; `decimal_toString`, `toString_decimal` : its own spelling is the one
  without needless zeros; `decimal_eq_iff` : when two spell one number;
* `byteLen`, `splitBytes` : the length of a text in UTF-8, and its parts at a byte.
-/

namespace Spelling

/-! ## Letter case -/

theorem toNat_toUpper (c : Char) : c.toUpper.toNat = if 97 ≤ c.toNat ∧
    c.toNat ≤ 122 then c.toNat - 32 else c.toNat := by
  have hrange : 'a'.val ≤ c.val ∧ c.val ≤ 'z'.val ↔ 97 ≤ c.toNat ∧ c.toNat ≤ 122 := Iff.rfl
  unfold Char.toUpper
  split_ifs with h h' h'
  · show (c.val + ('A'.val - 'a'.val)).toNat = c.val.toNat - 32
    rw [UInt32.toNat_add]
    show (c.toNat + 4294967264) % 4294967296 = c.toNat - 32
    omega
  all_goals tauto

theorem toNat_toLower (c : Char) : c.toLower.toNat = if 65 ≤ c.toNat ∧ c.toNat ≤ 90 then c.toNat + 32 else c.toNat := by
  have hrange : c.val ≥ 'A'.val ∧ c.val ≤ 'Z'.val ↔ 65 ≤ c.toNat ∧ c.toNat ≤ 90 := Iff.rfl
  unfold Char.toLower
  split_ifs with h h' h'
  · show (c.val + ('a'.val - 'A'.val)).toNat = c.val.toNat + 32
    rw [UInt32.toNat_add]
    show (c.toNat + 32) % 4294967296 = c.toNat + 32
    omega
  all_goals tauto

theorem eq_upper_or_lower (c : Char) : c = c.toUpper ∨ c = c.toUpper.toLower := by
  simp only [← Char.toNat_inj, toNat_toUpper, toNat_toLower]
  grind

theorem toUpper_toLower (c : Char) : c.toLower.toUpper = c.toUpper := by
  simp only [← Char.toNat_inj, toNat_toUpper, toNat_toLower]
  grind

theorem toLower_toUpper (c : Char) : c.toUpper.toLower = c.toLower := by
  simp only [← Char.toNat_inj, toNat_toUpper, toNat_toLower]
  grind

def SameLetters (a b : List Char) : Prop := a.map Char.toLower = b.map Char.toLower

instance (a b : List Char) : Decidable (SameLetters a b) := inferInstanceAs (Decidable (_ = _))

section SameLetters

variable {a a' b b' : List Char}

theorem sameLetters_iff_upper : SameLetters a b ↔ a.map Char.toUpper = b.map Char.toUpper := by
  constructor
  · intro h
    simpa [Function.comp_def, toUpper_toLower] using congrArg (List.map Char.toUpper) h
  · intro h
    simpa [SameLetters, Function.comp_def, toLower_toUpper] using congrArg (List.map Char.toLower) h

theorem SameLetters.length (h : SameLetters a b) : a.length = b.length := by simpa using congrArg List.length h

theorem SameLetters.append (h : SameLetters a a') (h' : SameLetters b b') : SameLetters (a ++ b) (a' ++ b') := by
  rw [SameLetters, List.map_append, List.map_append, h, h']

theorem SameLetters.split (h : SameLetters a (b ++ b')) : ∃ c c', a = c ++ c' ∧ SameLetters c b ∧
    SameLetters c' b' := by
  rw [SameLetters, List.map_append, List.map_eq_append_iff] at h
  obtain ⟨c, c', rfl, hc, hc'⟩ := h
  exact ⟨c, c', rfl, hc, hc'⟩

theorem sameLetters_iff_eq (h : ∀ c ∈ b, c.toLower = c ∧ c.toUpper = c) : SameLetters a b ↔ a = b := by
  refine ⟨fun hab => ?_, fun hab => hab ▸ rfl⟩
  have hupper := sameLetters_iff_upper.mp hab
  rw [SameLetters, List.map_congr_left fun c hc => (h c hc).1, List.map_id'] at hab
  rw [List.map_congr_left fun c hc => (h c hc).2, List.map_id'] at hupper
  have hmem : ∀ c ∈ a, c.toUpper = c := by
    intro c hc
    have hlower : c.toLower ∈ b := hab ▸ List.mem_map_of_mem hc
    have hsame : c.toUpper.toLower = c.toUpper := (h _ (hupper ▸ List.mem_map_of_mem hc)).1
    rcases eq_upper_or_lower c with heq | heq
    · exact heq.symm
    · rw [hsame] at heq
      exact heq.symm
  rwa [List.map_congr_left hmem, List.map_id'] at hupper

end SameLetters

/-! ## Decimal numbers -/

def decimal (text : List Char) : ℕ := FixedWidth.value 10 (text.map fun c => c.toNat - '0'.toNat)

theorem decimal_eq (text : List Char) : decimal text = Nat.ofDigitChars 10 text 0 := by
  rw [decimal, FixedWidth.value, List.foldl_map, Nat.ofDigitChars_eq_foldl]
  congr 1
  funext v c
  ring

theorem decimal_toString (n : ℕ) : decimal (toString n).toList = n := by
  rw [decimal_eq, Nat.toString_eq_ofList_toDigits, String.toList_ofList, Nat.ofDigitChars_ten_toDigits]

theorem isDigit_toString {n : ℕ} {c : Char} (h : c ∈ (toString n).toList) : c.isDigit = true := by
  rw [Nat.toString_eq_ofList_toDigits, String.toList_ofList] at h
  exact Nat.isDigit_of_mem_toDigits (by decide) (by decide) h

theorem digit_range {c : Char} (h : c.isDigit = true) : 48 ≤ c.toNat ∧ c.toNat ≤ 57 := Char.isDigit_iff_toNat.mp h

theorem toDigits_digit {c : Char} (h : c.isDigit = true) : Nat.toDigits 10 (c.toNat - 48) = [c] := by
  have hc := digit_range h
  rw [Nat.toDigits_of_lt_base (by omega), List.cons.injEq, ← Char.toNat_inj, Nat.toNat_digitChar_of_lt_ten (by omega)]
  exact ⟨by omega, rfl⟩

theorem toDigits_ofDigitChars {text : List Char} (h : ∀ c ∈ text, c.isDigit = true) {n : ℕ} (hn : 0 < n) :
    Nat.toDigits 10 (Nat.ofDigitChars 10 text n) = Nat.toDigits 10 n ++ text := by
  induction text generalizing n with
  | nil => simp
  | cons c text ih =>
    have hc := digit_range (h c List.mem_cons_self)
    rw [Nat.ofDigitChars_cons, ih (fun c' hc' => h c' (List.mem_cons_of_mem _ hc')) (by omega)]
    show Nat.toDigits 10 (10 * n + (c.toNat - 48)) ++ text = _
    rw [← Nat.toDigits_append_toDigits (by decide) hn (by omega), toDigits_digit (h c List.mem_cons_self),
      List.append_assoc]
    rfl

theorem decimal_lt {text : List Char} (h : ∀ c ∈ text, c.isDigit = true) : decimal text < 10 ^ text.length := by
  rw [decimal, ← List.length_map]
  apply FixedWidth.value_lt (by decide)
  intro d hd
  obtain ⟨c, hc, rfl⟩ := List.mem_map.mp hd
  have := digit_range (h c hc)
  show c.toNat - 48 < 10
  omega

theorem decimal_zero_cons (text : List Char) : decimal ('0' :: text) = decimal text := by
  rw [decimal_eq, decimal_eq, Nat.ofDigitChars_cons]
  rfl

theorem toDigits_decimal {c : Char} {text : List Char} (hzero : c ≠ '0') (h : ∀ d ∈ c :: text, d.isDigit = true) :
    0 < decimal (c :: text) ∧ Nat.toDigits 10 (decimal (c :: text)) = c :: text := by
  obtain ⟨hc, htext⟩ := List.forall_mem_cons.mp h
  have hrange := digit_range hc
  have hne : c.toNat ≠ 48 := fun heq => hzero (Char.toNat_inj.mp heq)
  have hdigits : Nat.toDigits 10 (decimal (c :: text)) = c :: text := by
    rw [decimal_eq, Nat.ofDigitChars_cons]
    show Nat.toDigits 10 (Nat.ofDigitChars 10 text (10 * 0 + (c.toNat - 48))) = c :: text
    rw [Nat.mul_zero, Nat.zero_add, toDigits_ofDigitChars htext (by omega), toDigits_digit hc]
    rfl
  refine ⟨Nat.pos_of_ne_zero fun hval => hzero ?_, hdigits⟩
  rw [hval, Nat.toDigits_zero] at hdigits
  exact (List.cons.inj hdigits).1.symm

/-- Digits are the number's own text exactly when they have no needless zero. -/
theorem toString_decimal {text : List Char} (hne : text ≠ []) (h : ∀ c ∈ text, c.isDigit = true) :
    (toString (decimal text)).toList = text ↔ (text.head? = some '0' → text = ['0']) := by
  obtain ⟨c, rest, rfl⟩ := List.exists_cons_of_ne_nil hne
  rw [Nat.toString_eq_ofList_toDigits, String.toList_ofList]
  by_cases hzero : c = '0'
  · subst hzero
    rw [decimal_zero_cons]
    constructor
    · intro htext _
      by_contra hlong
      have hpos : 0 < rest.length := List.length_pos_of_ne_nil fun hnil => hlong (by rw [hnil])
      have hlen := (Nat.length_toDigits_le_iff (by decide) hpos).mpr (decimal_lt (List.forall_mem_cons.mp h).2)
      rw [htext, List.length_cons] at hlen
      omega
    · intro hone
      cases (List.cons.inj (hone rfl)).2
      rfl
  · exact iff_of_true (toDigits_decimal hzero h).2 fun heq => absurd (Option.some.inj heq) hzero

/-- Digits without the zeros in front. -/
def significant (text : List Char) : List Char := text.dropWhile (· == '0')

theorem significant_eq {text : List Char} (h : ∀ c ∈ text, c.isDigit = true) :
    significant text = if decimal text = 0 then [] else Nat.toDigits 10 (decimal text) := by
  induction text with
  | nil => rfl
  | cons c text ih =>
    by_cases hzero : c = '0'
    · subst hzero
      rw [decimal_zero_cons]
      exact ih (List.forall_mem_cons.mp h).2
    · obtain ⟨hpos, hdigits⟩ := toDigits_decimal hzero h
      rw [if_neg hpos.ne', hdigits, significant, List.dropWhile_cons_of_neg (by simpa using hzero)]

/-- **Digits spell one number exactly when they differ only in zeros in front.** -/
theorem decimal_eq_iff {a b : List Char} (ha : ∀ c ∈ a, c.isDigit = true) (hb : ∀ c ∈ b, c.isDigit = true) :
    decimal a = decimal b ↔ significant a = significant b := by
  refine ⟨fun h => by rw [significant_eq ha, significant_eq hb, h], fun h => ?_⟩
  have hvalue : ∀ {text : List Char}, (∀ c ∈ text, c.isDigit = true) → decimal (significant text) = decimal text := by
    intro text htext
    rw [significant_eq htext]
    split_ifs with hzero
    · exact hzero.symm
    · rw [decimal_eq, Nat.ofDigitChars_ten_toDigits]
  rw [← hvalue ha, h, hvalue hb]

/-! ## Bytes -/

def byteLen (text : List Char) : ℕ := (text.map Char.utf8Size).sum

/-- The parts of a text before and behind its first `n` bytes; none where that is inside a character or behind the
end. -/
def splitBytes : ℕ → List Char → Option (List Char × List Char)
  | 0, text => some ([], text)
  | _ + 1, [] => none
  | n + 1, c :: rest =>
    if c.utf8Size ≤ n + 1 then
      (splitBytes (n + 1 - c.utf8Size) rest).map fun (front, behind) => (c :: front, behind) else none

def utf8 (text : List Char) : List ℕ := (text.flatMap String.utf8EncodeChar).map UInt8.toNat

def Ascii (text : List Char) : Prop := ∀ c ∈ text, c.utf8Size = 1

instance (text : List Char) : Decidable (Ascii text) := List.decidableBAll _ text

theorem ascii_of_isDigit {text : List Char} (h : ∀ c ∈ text, c.isDigit = true) : Ascii text := by
  intro c hc
  have hrange := digit_range (h c hc)
  rw [Char.utf8Size_eq_one_iff, UInt32.le_iff_toNat_le]
  show c.toNat ≤ 127
  omega

theorem Ascii.append {a b : List Char} (ha : Ascii a) (hb : Ascii b) : Ascii (a ++ b) := by
  intro c hc
  exact (List.mem_append.mp hc).elim (ha c) (hb c)

theorem Ascii.byteLen {text : List Char} (h : Ascii text) : byteLen text = text.length := by
  rw [Spelling.byteLen, List.map_congr_left h]
  simp

theorem Ascii.utf8 {text : List Char} (h : Ascii text) : utf8 text = text.map Char.toNat := by
  induction text with
  | nil => rfl
  | cons c text ih =>
    have hc := Char.utf8Size_eq_one_iff.mp (h c List.mem_cons_self)
    have hbyte : c.val.toUInt8.toNat = c.toNat := by
      rw [UInt32.le_iff_toNat_le] at hc
      show c.val.toNat % 256 = c.val.toNat
      exact Nat.mod_eq_of_lt (hc.trans_lt (by decide))
    have hrest := ih fun c' hc' => h c' (List.mem_cons_of_mem _ hc')
    rw [Spelling.utf8] at hrest ⊢
    rw [List.flatMap_cons, List.map_append, hrest, String.utf8EncodeChar_eq_singleton (h c List.mem_cons_self)]
    exact congrArg (· :: text.map Char.toNat) hbyte

theorem utf8_lt_iff {a b : List Char} (ha : Ascii a) (hb : Ascii b) : utf8 a < utf8 b ↔ a < b := by
  have hmono : StrictMono (List.map Char.toNat) := fun _ _ h => FixedWidth.map_lt_map (fun _ _ hlt => hlt) h
  rw [ha.utf8, hb.utf8, hmono.lt_iff_lt]

end Spelling
