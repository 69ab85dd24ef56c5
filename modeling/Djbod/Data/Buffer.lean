import Mathlib.Data.List.Basic
import Mathlib.Data.Nat.Digits.Defs
import Mathlib.Tactic.Ring

/-!
# Buffers and numbers in them

* `readAt`, `writeAt` : a range of a buffer, read and written over, with what a read finds behind a write
  (`readAt_writeAt`, `readAt_writeAt_of_disjoint`);
* `writeEach` : entries written one behind the other, `writeEach_eq`;
* `toLe`, `ofLe` : numbers as little-endian bytes, `ofLe_toLe`; `toBe`, `ofBe` : as big-endian bytes.
-/

namespace Buffer

variable {α : Type} {buf bytes : List α} {off n : ℕ}

def readAt (buf : List α) (off n : ℕ) : List α := (buf.drop off).take n

/-- The buffer with `bytes` written over it at offset `off`; what lies beyond its end is cut off. -/
def writeAt (buf : List α) (off : ℕ) (bytes : List α) : List α :=
  (buf.take off ++ (bytes ++ buf.drop (off + bytes.length))).take buf.length

theorem getElem?_readAt (buf : List α) (off n i : ℕ) :
    (readAt buf off n)[i]? = if i < n then buf[off + i]? else none := by
  rw [readAt, List.getElem?_take]
  simp only [List.getElem?_drop]

@[simp] theorem writeAt_length (buf : List α) (off : ℕ) (bytes : List α) :
    (writeAt buf off bytes).length = buf.length := by
  simp only [writeAt, List.length_take, List.length_append, List.length_drop]
  omega

theorem getElem?_writeAt (buf : List α) (off : ℕ) (bytes : List α) (i : ℕ) :
    (writeAt buf off bytes)[i]? =
      if off ≤ i ∧ i < off + bytes.length ∧ i < buf.length then bytes[i - off]? else buf[i]? := by
  by_cases hin : i < buf.length
  · rw [writeAt, List.getElem?_take_of_lt hin]
    by_cases hi : i < off
    · rw [List.getElem?_append_left (by simp; omega), if_neg (by omega), List.getElem?_take_of_lt hi]
    · have htake : (buf.take off).length = off := by simp; omega
      rw [List.getElem?_append_right (by omega), htake]
      by_cases hi' : i < off + bytes.length
      · rw [if_pos (by omega), List.getElem?_append_left (by omega)]
      · rw [if_neg (by omega), List.getElem?_append_right (by omega), List.getElem?_drop]
        congr 1
        omega
  · rw [if_neg (by omega), List.getElem?_eq_none (by rw [writeAt_length]; omega), List.getElem?_eq_none (by omega)]

theorem readAt_length (h : off + n ≤ buf.length) : (readAt buf off n).length = n := by
  simp [readAt]
  omega

theorem readAt_writeAt_within (h : off + bytes.length ≤ buf.length) {d : ℕ} (hd : d + n ≤ bytes.length) :
    readAt (writeAt buf off bytes) (off + d) n = readAt bytes d n := by
  apply List.ext_getElem?
  intro i
  rw [getElem?_readAt, getElem?_readAt, getElem?_writeAt]
  by_cases hi : i < n
  · rw [if_pos hi, if_pos hi, if_pos (by omega)]
    congr 1
    omega
  · rw [if_neg hi, if_neg hi]

theorem readAt_self (bytes : List α) : readAt bytes 0 bytes.length = bytes := by
  simp [readAt]

theorem readAt_writeAt (h : off + bytes.length ≤ buf.length) (hn : n = bytes.length) :
    readAt (writeAt buf off bytes) off n = bytes := by
  have := readAt_writeAt_within h (d := 0) (n := n) (by omega)
  rw [Nat.add_zero] at this
  rw [this, hn, readAt_self]

theorem readAt_writeAt_of_disjoint {o : ℕ} (hd : o + n ≤ off ∨ off + bytes.length ≤ o) :
    readAt (writeAt buf off bytes) o n = readAt buf o n := by
  apply List.ext_getElem?
  intro i
  rw [getElem?_readAt, getElem?_readAt, getElem?_writeAt]
  by_cases hi : i < n
  · rw [if_pos hi, if_pos hi, if_neg (by omega)]
  · rw [if_neg hi, if_neg hi]

theorem writeAt_writeAt {bytes' : List α} (hl : bytes'.length = bytes.length) :
    writeAt (writeAt buf off bytes) off bytes' = writeAt buf off bytes' := by
  apply List.ext_getElem?
  intro i
  rw [getElem?_writeAt, getElem?_writeAt, getElem?_writeAt, writeAt_length]
  split_ifs
  · rfl
  · omega
  · rfl

theorem readAt_append_left {rest : List α} (h : off + n ≤ buf.length) :
    readAt (buf ++ rest) off n = readAt buf off n := by
  rw [readAt, readAt, List.drop_append_of_le_length (by omega), List.take_append_of_le_length (by simp; omega)]

theorem readAt_append_right {front : List α} : readAt (front ++ buf) (front.length + off) n = readAt buf off n := by
  rw [readAt, List.drop_append, List.drop_eq_nil_of_le (by omega), Nat.add_sub_cancel_left, List.nil_append, readAt]

theorem readAt_append_readAt (buf : List α) (off n m : ℕ) :
    readAt buf off n ++ readAt buf (off + n) m = readAt buf off (n + m) := by
  rw [readAt, readAt, readAt, List.take_add, List.drop_drop]

theorem readAt_readAt {d m : ℕ} (h : d + m ≤ n) : readAt (readAt buf off n) d m = readAt buf (off + d) m := by
  apply List.ext_getElem?
  intro i
  rw [getElem?_readAt, getElem?_readAt, getElem?_readAt]
  split_ifs
  · rw [Nat.add_assoc]
  · omega
  · rfl

/-! ## Tables -/

def writeEach (buf : List α) (off : ℕ) : List (List α) → List α
  | [] => buf
  | entry :: rest => writeEach (writeAt buf off entry) (off + entry.length) rest

theorem writeAt_nil (buf : List α) (off : ℕ) : writeAt buf off [] = buf := by
  simp [writeAt]

theorem writeAt_append (buf : List α) (off : ℕ) (front back : List α) :
    writeAt (writeAt buf off front) (off + front.length) back = writeAt buf off (front ++ back) := by
  apply List.ext_getElem?
  intro i
  rw [getElem?_writeAt, getElem?_writeAt, getElem?_writeAt, writeAt_length, List.length_append, List.getElem?_append]
  split_ifs <;> first | rfl | omega | (congr 1; omega)

theorem writeEach_eq (entries : List (List α)) (buf : List α) (off : ℕ) :
    writeEach buf off entries = writeAt buf off entries.flatten := by
  induction entries generalizing buf off with
  | nil => rw [writeEach, List.flatten_nil, writeAt_nil]
  | cons entry rest ih => rw [writeEach, ih, List.flatten_cons, writeAt_append]

theorem flatten_length_of_width {w : ℕ} {entries : List (List α)} (h : ∀ e ∈ entries, e.length = w) :
    entries.flatten.length = w * entries.length := by
  induction entries with
  | nil => simp
  | cons entry rest ih =>
    rw [List.flatten_cons, List.length_append, h entry List.mem_cons_self, ih fun e he =>
      h e (List.mem_cons_of_mem _ he), List.length_cons]
    ring

theorem readAt_flatten {w : ℕ} {entries : List (List α)} (h : ∀ e ∈ entries, e.length = w) {i : ℕ} {entry : List α}
    (hi : entries[i]? = some entry) : readAt entries.flatten (w * i) w = entry := by
  induction entries generalizing i with
  | nil => simp at hi
  | cons e rest ih =>
    have he : e.length = w := h e List.mem_cons_self
    cases i with
    | zero =>
      rw [List.getElem?_cons_zero, Option.some_inj] at hi
      rw [List.flatten_cons, Nat.mul_zero, readAt_append_left (by omega), ← hi, ← he, readAt_self]
    | succ i =>
      rw [List.getElem?_cons_succ] at hi
      rw [List.flatten_cons, Nat.mul_succ, Nat.add_comm, show w + w * i = e.length + w *
        i by rw [he], readAt_append_right]
      exact ih (fun e he => h e (List.mem_cons_of_mem _ he)) hi

/-! ## Numbers -/

def toLe : ℕ → ℕ → List UInt8
  | 0, _ => []
  | n + 1, value => UInt8.ofNat value :: toLe n (value / 256)

/-- The number of which these are the bytes, the lowest first. -/
def ofLe : List UInt8 → ℕ
  | [] => 0
  | b :: rest => b.toNat + 256 * ofLe rest

@[simp] theorem toLe_length (n value : ℕ) : (toLe n value).length = n := by
  induction n generalizing value with
  | zero => rfl
  | succ n ih => rw [toLe, List.length_cons, ih]

theorem ofLe_toLe {n value : ℕ} (h : value < 256 ^ n) : ofLe (toLe n value) = value := by
  induction n generalizing value with
  | zero =>
    rw [Nat.pow_zero] at h
    simp [toLe, ofLe]
    omega
  | succ n ih =>
    have hdiv : value / 256 < 256 ^ n := by
      rw [Nat.div_lt_iff_lt_mul (by decide), ← Nat.pow_succ]
      exact h
    rw [toLe, ofLe, ih hdiv, UInt8.toNat_ofNat']
    omega

theorem ofLe_lt (bytes : List UInt8) : ofLe bytes < 256 ^ bytes.length := by
  induction bytes with
  | nil => decide
  | cons b rest ih =>
    have hb := b.toNat_lt
    rw [ofLe, List.length_cons, Nat.pow_succ]
    omega

theorem toLe_ofLe (bytes : List UInt8) : toLe bytes.length (ofLe bytes) = bytes := by
  induction bytes with
  | nil => rfl
  | cons b rest ih =>
    have hb := b.toNat_lt
    rw [ofLe, List.length_cons, toLe, show (b.toNat + 256 * ofLe rest) / 256 = ofLe rest by omega, ih]
    refine congrArg (· :: rest) (UInt8.toNat_inj.mp ?_)
    rw [UInt8.toNat_ofNat']
    omega

def toBe (n value : ℕ) : List UInt8 := (toLe n value).reverse

/-- The number of which these are the bytes, the highest first. -/
def ofBe (bytes : List UInt8) : ℕ := ofLe bytes.reverse

@[simp] theorem toBe_length (n value : ℕ) : (toBe n value).length = n := by
  simp [toBe]

theorem ofBe_toBe {n value : ℕ} (h : value < 256 ^ n) : ofBe (toBe n value) = value := by
  rw [ofBe, toBe, List.reverse_reverse, ofLe_toLe h]

end Buffer
