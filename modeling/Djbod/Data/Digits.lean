import Mathlib.Data.List.Lex
import Mathlib.Data.Nat.Digits.Lemmas
import Mathlib.Tactic.Ring

/-!
# Numbers in text of a fixed width

* `digits b n x` : the last `n` digits of `x` to the base `b`, the most significant first;
* `text f b n x` : the same written with the characters `f`;
* `value` : the number read back, `value_digits`;
* `text_lt` : with characters in order, the text is in the order of the numbers;
* `read_iff` : the texts that are read as a number, where reading does not tell some characters apart;
* `append_lt_append` : names of one length are compared before what follows them.
-/

namespace FixedWidth

/-- The last `n` digits of a number, the most significant first. -/
def digits (b : ℕ) : ℕ → ℕ → List ℕ
  | 0, _ => []
  | n + 1, x => x / b ^ n % b :: digits b n x

def value (b : ℕ) (ds : List ℕ) : ℕ := ds.foldl (fun v d => v * b + d) 0

theorem digits_length (b n x : ℕ) : (digits b n x).length = n := by
  induction n with
  | zero => rfl
  | succ n ih => rw [digits, List.length_cons, ih]

theorem lt_of_mem_digits {b n x d : ℕ} (hb : 0 < b) (h : d ∈ digits b n x) : d < b := by
  induction n with
  | zero => cases h
  | succ n ih =>
    rcases List.mem_cons.mp h with rfl | h
    · exact Nat.mod_lt _ hb
    · exact ih h

theorem foldl_digits (b n x v : ℕ) : (digits b n x).foldl (fun v d => v * b + d) v = v * b ^ n + x % b ^ n := by
  induction n generalizing v with
  | zero => simp [digits, Nat.mod_one]
  | succ n ih =>
    rw [digits, List.foldl_cons, ih, Nat.pow_succ, Nat.mod_mul]
    ring

theorem value_digits {b n x : ℕ} (h : x < b ^ n) : value b (digits b n x) = x := by
  rw [value, foldl_digits, Nat.zero_mul, Nat.zero_add, Nat.mod_eq_of_lt h]

theorem value_eq_ofDigits (b : ℕ) (ds : List ℕ) : value b ds = Nat.ofDigits b ds.reverse := by
  rw [Nat.ofDigits_eq_foldr, List.foldr_reverse, value]
  congr 1
  funext v d
  rw [Nat.cast_id]
  ring

theorem value_cons (b d : ℕ) (ds : List ℕ) : value b (d :: ds) = d * b ^ ds.length + value b ds := by
  rw [value_eq_ofDigits, value_eq_ofDigits, List.reverse_cons, Nat.ofDigits_append, Nat.ofDigits_singleton,
    List.length_reverse]
  ring

section Text

variable {χ : Type} (f : ℕ → χ)

def text (b n x : ℕ) : List χ := (digits b n x).map f

variable {f} {b : ℕ}

theorem text_length (n x : ℕ) : (text f b n x).length = n := by rw [text, List.length_map, digits_length]

theorem text_lt [LinearOrder χ] (hb : 0 < b) (hf : ∀ d < b, ∀ d' < b, d < d' → f d < f d') {n x y : ℕ}
    (h : x % b ^ n < y % b ^ n) : text f b n x < text f b n y := by
  induction n with
  | zero => simp [Nat.mod_one] at h
  | succ n ih =>
    rw [Nat.pow_succ, Nat.mod_mul, Nat.mod_mul] at h
    have hx := Nat.mod_lt x (Nat.pow_pos hb : 0 < b ^ n)
    have hy := Nat.mod_lt y (Nat.pow_pos hb : 0 < b ^ n)
    rw [text, text, digits, digits, List.map_cons, List.map_cons]
    rcases Nat.lt_trichotomy (x / b ^ n % b) (y / b ^ n % b) with hlt | heq | hgt
    · exact List.Lex.rel (hf _ (Nat.mod_lt _ hb) _ (Nat.mod_lt _ hb) hlt)
    · rw [heq] at h ⊢
      exact List.Lex.cons (ih (by omega))
    · have hmul : b ^ n * (y / b ^ n % b) + b ^ n ≤ b ^ n * (x / b ^ n % b) := by
        calc b ^ n * (y / b ^ n % b) + b ^ n = b ^ n * (y / b ^ n % b + 1) := by ring
          _ ≤ b ^ n * (x / b ^ n % b) := Nat.mul_le_mul_left _ hgt
      generalize x % b ^ n = u at h hx
      generalize y % b ^ n = v at h hy
      omega

end Text

section Reading

variable {χ : Type} {f : ℕ → χ} {fold : χ → χ} {decode : χ → Option ℕ} {b : ℕ} (hb : 1 < b)
  (hdecode : ∀ c d, decode c = some d ↔ d < b ∧ fold c = f d)

include hb

theorem value_lt {ds : List ℕ} (h : ∀ d ∈ ds, d < b) : value b ds < b ^ ds.length := by
  rw [value_eq_ofDigits, ← List.length_reverse]
  apply Nat.ofDigits_lt_base_pow_length hb
  simpa using h

theorem digits_value {ds : List ℕ} (h : ∀ d ∈ ds, d < b) : digits b ds.length (value b ds) = ds := by
  have hvalue := value_digits (value_lt hb h)
  rw [value_eq_ofDigits, value_eq_ofDigits] at hvalue
  rw [value_eq_ofDigits]
  apply List.reverse_injective
  apply Nat.ofDigits_inj_of_len_eq hb
  · simp [digits_length]
  · intro d hd
    exact lt_of_mem_digits (by omega) (List.mem_reverse.mp hd)
  · simpa using h
  · exact hvalue

omit hb
include hdecode

theorem mapM_decode {s : List χ} {ds : List ℕ} : s.mapM decode = some ds ↔ (∀ d ∈ ds, d < b) ∧
    s.map fold = ds.map f := by
  induction s generalizing ds with
  | nil => cases ds <;> simp
  | cons c s ih =>
    cases ds with
    | nil => simp [Option.bind_eq_some_iff]
    | cons d ds =>
      simp only [List.mapM_cons, Option.bind_eq_bind, Option.bind_eq_some_iff, Option.pure_def, Option.some.injEq,
        List.cons.injEq, List.forall_mem_cons, List.map_cons]
      constructor
      · rintro ⟨d', hd, ds', hds, rfl, rfl⟩
        have := (hdecode c d').mp hd
        have := ih.mp hds
        tauto
      · intro h
        exact ⟨d, (hdecode c d).mpr ⟨h.1.1, h.2.1⟩, ds, ih.mpr ⟨h.1.2, h.2.2⟩, rfl, rfl⟩

include hb

/-- A text of a width is read as a number exactly when it is the number's text, up to what reading does not tell
apart. -/
theorem read_iff {s : List χ} {n x : ℕ} : (s.length = n ∧ ∃ ds, s.mapM decode = some ds ∧ value b ds = x) ↔
    x < b ^ n ∧ s.map fold = text f b n x := by
  constructor
  · rintro ⟨rfl, ds, hds, rfl⟩
    obtain ⟨hlt, hmap⟩ := (mapM_decode hdecode).mp hds
    have hlen : s.length = ds.length := by simpa using congrArg List.length hmap
    rw [hlen, text, digits_value hb hlt]
    exact ⟨value_lt hb hlt, hmap⟩
  · rintro ⟨hx, hmap⟩
    refine ⟨?_, digits b n x, (mapM_decode hdecode).mpr ⟨fun d hd => lt_of_mem_digits (by omega) hd, hmap⟩,
      value_digits hx⟩
    simpa [text_length] using congrArg List.length hmap

end Reading

theorem findIdx_letter {χ : Type} [BEq χ] [LawfulBEq χ] {letters : List χ} (h : letters.Nodup) (c x : χ) (d : ℕ) :
    (letters.findIdx? fun letter => letter == c) = some d ↔ d < letters.length ∧ c = letters.getD d x := by
  rw [List.findIdx?_eq_some_iff_getElem]
  constructor
  · rintro ⟨hd, heq, -⟩
    simpa [hd] using (eq_of_beq heq).symm
  · rintro ⟨hd, rfl⟩
    refine ⟨hd, by simp [hd], fun j hj heq => ?_⟩
    have hsame : j = d := h.getElem_inj_iff.mp (by simpa [hd] using heq)
    omega

section Names

variable {χ : Type} [LinearOrder χ] {a a' b b' : List χ}

theorem append_lt_append (hlen : a.length = a'.length) (h : a < a') : a ++ b < a' ++ b' := by
  induction a generalizing a' with
  | nil =>
    rw [List.length_eq_zero_iff.mp hlen.symm] at h
    exact absurd h (lt_irrefl _)
  | cons x a ih =>
    cases a' with
    | nil => cases hlen
    | cons x' a' =>
      cases h with
      | rel hlt => exact List.Lex.rel hlt
      | cons htail => exact List.Lex.cons (ih (Nat.succ.inj hlen) htail)

theorem map_lt_map {ψ : Type} [LinearOrder ψ] {f : χ → ψ} (hf : StrictMono f) (h : a < b) : a.map f < b.map f := by
  induction a generalizing b with
  | nil =>
    cases h
    exact List.Lex.nil
  | cons x a ih =>
    cases h with
    | rel hlt => exact List.Lex.rel (hf hlt)
    | cons htail => exact List.Lex.cons (ih htail)

theorem append_lt_append_left (h : b < b') : a ++ b < a ++ b' := by
  induction a with
  | nil => exact h
  | cons x a ih => exact List.Lex.cons ih

end Names

end FixedWidth
