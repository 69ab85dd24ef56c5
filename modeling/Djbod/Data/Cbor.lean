import Mathlib

/-!
# CBOR in its shortest form

Every item is a head, which names its kind and a number, and what follows it.

* `head`, `headLen` : the head of an item and how many bytes it takes;
* `uint`, `bytes`, `text`, `bool`, `array`, `map` : the items, from the encodings of their parts;
* `fields`, `variant` : a record as a map with its field names as text, and an alternative under its name;
* `*_length` : how long each is.
-/

namespace Cbor

abbrev Encoding := List UInt8

def bigEndian (width n : ℕ) : Encoding := (List.range width).reverse.map fun i => UInt8.ofNat (n / 256 ^ i)

/-- The head of an item: its kind, and a number in as few bytes as it takes. -/
def head (kind n : ℕ) : Encoding :=
  if n < 24 then [UInt8.ofNat (32 * kind + n)]
  else if n < 2 ^ 8 then UInt8.ofNat (32 * kind + 24) :: bigEndian 1 n
  else if n < 2 ^ 16 then UInt8.ofNat (32 * kind + 25) :: bigEndian 2 n
  else if n < 2 ^ 32 then UInt8.ofNat (32 * kind + 26) :: bigEndian 4 n
  else UInt8.ofNat (32 * kind + 27) :: bigEndian 8 n

def uint (n : ℕ) : Encoding := head 0 n

def bytes (b : List UInt8) : Encoding := head 2 b.length ++ b

def text (s : String) : Encoding := head 3 s.utf8ByteSize ++ s.toByteArray.data.toList

def array (items : List Encoding) : Encoding := head 4 items.length ++ items.flatten

def map (pairs : List (Encoding × Encoding)) : Encoding := head 5 pairs.length ++ pairs.flatMap fun p => p.1 ++ p.2

def bool (b : Bool) : Encoding := [if b then 0xf5 else 0xf4]

def fields (fs : List (String × Encoding)) : Encoding := map (fs.map fun f => (text f.1, f.2))

def variant (name : String) (contents : Encoding) : Encoding := map [(text name, contents)]

def headLen (n : ℕ) : ℕ :=
  if n < 24 then 1 else if n < 2 ^ 8 then 2 else if n < 2 ^ 16 then 3 else if n < 2 ^ 32 then 5 else 9

def textLen (s : String) : ℕ := headLen s.utf8ByteSize + s.utf8ByteSize

def namesLen (names : List String) : ℕ := (names.map textLen).sum

@[simp]
theorem head_length (kind n : ℕ) : (head kind n).length = headLen n := by
  unfold head headLen
  split_ifs <;> simp [bigEndian]

@[simp]
theorem bool_length (b : Bool) : (bool b).length = 1 := rfl

theorem headLen_mono {m n : ℕ} (h : m ≤ n) : headLen m ≤ headLen n := by
  unfold headLen
  split_ifs <;> omega

theorem headLen_le (n : ℕ) : headLen n ≤ 9 := by
  unfold headLen
  split_ifs <;> omega

theorem headLen_pos (n : ℕ) : 0 < headLen n := by
  unfold headLen
  split_ifs <;> omega

@[simp]
theorem uint_length (n : ℕ) : (uint n).length = headLen n := head_length 0 n

@[simp]
theorem bytes_length (b : List UInt8) : (bytes b).length = headLen b.length + b.length := by
  rw [bytes, List.length_append, head_length]

@[simp]
theorem text_length (s : String) : (text s).length = textLen s := by
  rw [text, List.length_append, head_length, textLen, Array.length_toList, ByteArray.size_data, String.size_toByteArray]

@[simp]
theorem array_length (items : List Encoding) : (array items).length = headLen items.length +
    (items.map List.length).sum := by
  rw [array, List.length_append, head_length, List.length_flatten]

@[simp]
theorem map_length (pairs : List (Encoding × Encoding)) :
    (map pairs).length = headLen pairs.length + (pairs.map fun p => p.1.length + p.2.length).sum := by
  rw [map, List.length_append, head_length, List.length_flatMap]
  simp only [List.length_append]

theorem fields_length (fs : List (String × Encoding)) :
    (fields fs).length = headLen fs.length + namesLen (fs.map Prod.fst) + (fs.map fun f => f.2.length).sum := by
  rw [fields, map_length, List.length_map, List.map_map, namesLen, List.map_map, Nat.add_assoc, ← List.sum_map_add]
  simp only [Function.comp_def, text_length]

theorem fields_two (a b : String) (x y : Encoding) : (fields [(a, x), (b, y)]).length = 1 + namesLen
    [a, b] + x.length + y.length := by
  rw [fields_length]
  show 1 + namesLen [a, b] + (x.length + (y.length + 0)) = _
  omega

theorem fields_three (a b c : String) (x y z : Encoding) :
    (fields [(a, x), (b, y), (c, z)]).length = 1 + namesLen [a, b, c] + x.length + y.length + z.length := by
  rw [fields_length]
  show 1 + namesLen [a, b, c] + (x.length + (y.length + (z.length + 0))) = _
  omega

@[simp]
theorem variant_length (name : String) (contents : Encoding) :
    (variant name contents).length = 1 + textLen name + contents.length := by
  rw [variant, map_length]
  simp [headLen, Nat.add_assoc]

theorem utf8ByteSize_ofList {l : List Char} (h : ∀ c ∈ l, c.utf8Size = 1) :
    (String.ofList l).utf8ByteSize = l.length := by
  induction l with
  | nil => rfl
  | cons c l ih =>
    rw [String.ofList_cons, String.utf8ByteSize_append, String.utf8ByteSize_singleton, h c List.mem_cons_self,
      ih fun c' hc' => h c' (List.mem_cons_of_mem _ hc'), List.length_cons, Nat.add_comm]

end Cbor
