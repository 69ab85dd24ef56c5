import Mathlib.Data.List.Basic
import Mathlib.Tactic.Ring

/-!
# Cutting a list into pieces

* `divCeil` : division rounded up;
* `pieces n l` : `l` cut into pieces of `n`, the last one possibly shorter, `flatten_pieces`;
* `fullPieces n l`, `remainder n l` : the pieces that are full and what is left, as a buffer of size `n`
  that is emitted whenever it is full sees them; `fullPieces_append` lets the list arrive in parts.
-/

namespace Pieces

variable {α : Type}

def divCeil (a b : ℕ) : ℕ := (a + b - 1) / b

variable {a b : ℕ}

theorem le_mul_divCeil (hb : 0 < b) : a ≤ b * divCeil a b := by
  unfold divCeil
  have h := Nat.div_add_mod (a + b - 1) b
  have h' := Nat.mod_lt (a + b - 1) hb
  omega

theorem divCeil_pos (ha : 0 < a) (hb : 0 < b) : 0 < divCeil a b :=
  Nat.div_pos (by omega) hb

variable {c : ℕ}

theorem divCeil_le (hb : 0 < b) (h : a ≤ b * c) : divCeil a b ≤ c := by
  unfold divCeil
  rw [Nat.div_le_iff_le_mul hb]
  rw [Nat.mul_comm] at h
  omega

variable {i : ℕ}

theorem mul_lt_of_lt_divCeil (hb : 0 < b) (h : i < divCeil a b) : i * b < a := by
  by_contra hle
  have := divCeil_le hb (show a ≤ b * i by rw [Nat.mul_comm]; omega)
  omega

theorem divCeil_eq (hb : 0 < b) (hlo : c * b < a) (hhi : a ≤ (c + 1) * b) : divCeil a b = c + 1 := by
  refine le_antisymm (divCeil_le hb (by rwa [Nat.mul_comm])) ?_
  by_contra hlt
  have h := le_mul_divCeil (a := a) hb
  have : b * divCeil a b ≤ b * c := Nat.mul_le_mul_left b (by omega)
  rw [Nat.mul_comm b c] at this
  omega

def piece (n : ℕ) (l : List α) (i : ℕ) : List α := (l.drop (i * n)).take n

/-- The list cut into pieces of `n`; the last one may be shorter. -/
def pieces (n : ℕ) (l : List α) : List (List α) := (List.range (divCeil l.length n)).map (piece n l)

theorem flatten_map_piece (n : ℕ) (l : List α) (c : ℕ) :
    ((List.range c).map (piece n l)).flatten = l.take (c * n) := by
  induction c with
  | zero => simp
  | succ c ih =>
    rw [List.range_succ, List.map_append, List.flatten_append, ih, Nat.succ_mul, List.take_add]
    simp [piece]

variable {n : ℕ}

/-- **The pieces joined are the list.** -/
theorem flatten_pieces (hn : 0 < n) (l : List α) : (pieces n l).flatten = l := by
  rw [pieces, flatten_map_piece, List.take_of_length_le]
  rw [Nat.mul_comm]
  exact le_mul_divCeil hn

theorem piece_length (n : ℕ) (l : List α) (i : ℕ) : (piece n l i).length = min n (l.length - i * n) := by
  rw [piece, List.length_take, List.length_drop]

variable {l : List α}

theorem piece_ne_nil (hn : 0 < n) (hi : i < divCeil l.length n) : piece n l i ≠ [] := by
  rw [← List.length_pos_iff, piece_length]
  have := mul_lt_of_lt_divCeil hn hi
  omega

/-! ## A buffer that is emitted when it is full -/

def fullPieces (n : ℕ) (l : List α) : List (List α) := (List.range (l.length / n)).map (piece n l)

def remainder (n : ℕ) (l : List α) : List α := l.drop (l.length / n * n)

theorem fullPieces_of_lt (h : l.length < n) : fullPieces n l = [] := by
  rw [fullPieces, Nat.div_eq_of_lt h]
  rfl

theorem remainder_of_lt (h : l.length < n) : remainder n l = l := by
  rw [remainder, Nat.div_eq_of_lt h, Nat.zero_mul, List.drop_zero]

theorem div_of_le (hn : 0 < n) (h : n ≤ l.length) : l.length / n = (l.drop n).length / n + 1 := by
  rw [List.length_drop, Nat.div_eq_sub_div hn h]

theorem fullPieces_of_le (hn : 0 < n) (h : n ≤ l.length) : fullPieces n l = l.take n :: fullPieces n (l.drop n) := by
  rw [fullPieces, div_of_le hn h, List.range_succ_eq_map, List.map_cons, List.map_map, fullPieces]
  congr 1
  · simp [piece]
  · refine List.map_congr_left fun i _ => ?_
    simp only [Function.comp_apply, piece, List.drop_drop]
    congr 2
    rw [Nat.succ_mul, Nat.add_comm]

theorem remainder_of_le (hn : 0 < n) (h : n ≤ l.length) : remainder n l = remainder n (l.drop n) := by
  rw [remainder, div_of_le hn h, remainder, List.drop_drop]
  congr 1
  ring

theorem fullPieces_exact (hn : 0 < n) (h : l.length = n) : fullPieces n l = [l] ∧ remainder n l = [] := by
  have hdrop : l.drop n = [] := List.drop_eq_nil_iff.mpr h.le
  have htake : l.take n = l := List.take_of_length_le h.le
  rw [fullPieces_of_le hn h.ge, remainder_of_le hn h.ge, hdrop, htake, fullPieces_of_lt (l := []) hn,
    remainder_of_lt (l := []) hn]
  exact ⟨rfl, rfl⟩

theorem remainder_length_lt (hn : 0 < n) (l : List α) : (remainder n l).length < n := by
  rw [remainder, List.length_drop]
  have h := Nat.div_add_mod l.length n
  have h' := Nat.mod_lt l.length hn
  rw [Nat.mul_comm] at h
  omega

/-- **Arrival in parts.** The pieces of a list that arrives in two parts are those of the first, and those
of the second behind what was left of the first. -/
theorem fullPieces_append (hn : 0 < n) (a b : List α) :
    fullPieces n (a ++ b) = fullPieces n a ++ fullPieces n (remainder n a ++ b) ∧
      remainder n (a ++ b) = remainder n (remainder n a ++ b) := by
  induction hlen : a.length using Nat.strong_induction_on generalizing a with
  | _ len ih =>
    by_cases h : a.length < n
    · rw [fullPieces_of_lt h, remainder_of_lt h]
      exact ⟨rfl, rfl⟩
    · have hle : n ≤ a.length := Nat.le_of_not_lt h
      have hle' : n ≤ (a ++ b).length := by rw [List.length_append]; omega
      obtain ⟨hfull, hrest⟩ := ih (a.drop n).length (by rw [List.length_drop]; omega) (a.drop n) rfl
      rw [fullPieces_of_le hn hle', remainder_of_le hn hle', fullPieces_of_le hn hle, remainder_of_le hn hle,
        List.take_append_of_le_length hle, List.drop_append_of_le_length hle, hfull, hrest]
      exact ⟨rfl, rfl⟩

theorem pieces_eq (hn : 0 < n) (l : List α) : pieces n l = fullPieces n l ++
      if remainder n l = [] then [] else [remainder n l] := by
  have hdiv := Nat.div_add_mod l.length n
  rw [Nat.mul_comm] at hdiv
  have hlt := Nat.mod_lt l.length hn
  have hnil : remainder n l = [] ↔ l.length % n = 0 := by
    rw [remainder, List.drop_eq_nil_iff]
    omega
  by_cases h : l.length % n = 0
  · rw [if_pos (hnil.mpr h), List.append_nil, pieces, fullPieces]
    congr 2
    rcases Nat.eq_zero_or_pos (l.length / n) with hz | hpos
    · have : l.length = 0 := by rw [hz] at hdiv; omega
      rw [this, divCeil]
      simp [hn]
    · obtain ⟨c, hc⟩ := Nat.exists_eq_succ_of_ne_zero hpos.ne'
      rw [hc] at hdiv ⊢
      refine divCeil_eq hn ?_ ?_
      · rw [Nat.succ_mul] at hdiv; omega
      · rw [Nat.add_one]; omega
  · rw [if_neg (hnil.not.mpr h), pieces, fullPieces, divCeil_eq hn (c := l.length / n) (by omega)
      (by rw [Nat.add_mul]; omega), List.range_succ, List.map_append]
    congr 1
    rw [List.map_singleton, piece, List.take_of_length_le, remainder]
    rw [List.length_drop]
    omega

end Pieces
