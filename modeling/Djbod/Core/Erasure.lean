import Mathlib

/-!
# Schemes and the Reed-Solomon code

Shard indices are natural numbers: `0 .. k-1` are data shards, `k .. k+m-1` are parity shards.

* `Scheme` : `k` data and `m` parity shards within the limits, built by `Scheme.new` only;
* `ReedSolomon` : the object of the erasure library for one `k` and `m`, `ReedSolomon.Recovers` what
  the library promises of it;
* `ReedSolomonCode` : `computeParity` and `reconstruct` over shard indices, with the `m = 0` case;
* `ReedSolomonCode.reconstruct_data` : any `k` blocks of a codeword give its data back;
* `mirror_recovers` : replicas are a code that recovers.
-/

namespace Djbod

abbrev Bytes := List UInt8

def maxDataShards : ℕ := 32
def maxParityShards : ℕ := 8
def maxTotalShards : ℕ := 64

inductive SchemeError where
  | noDataShards
  | tooManyDataShards (k : ℕ)
  | tooManyParityShards (m : ℕ)
  | tooManyShards (total : ℕ)
  deriving DecidableEq, Repr

def SchemeError.message : SchemeError → String
  | .noDataShards => "k must be at least 1"
  | .tooManyDataShards k => s!"k = {k} exceeds the maximum of {maxDataShards}"
  | .tooManyParityShards m => s!"m = {m} exceeds the maximum of {maxParityShards}"
  | .tooManyShards total => s!"k + m = {total} exceeds the maximum of {maxTotalShards}"

/-- A validated scheme of `k` data shards and `m` parity shards. -/
structure Scheme where
  dataShards : ℕ
  parityShards : ℕ
  data_pos : 0 < dataShards
  data_le : dataShards ≤ maxDataShards
  parity_le : parityShards ≤ maxParityShards
  total_le : dataShards + parityShards ≤ maxTotalShards
  deriving DecidableEq

namespace Scheme

def new (k m : ℕ) : Except SchemeError Scheme :=
  if h₀ : k = 0 then .error .noDataShards
  else if h₁ : k > maxDataShards then .error (.tooManyDataShards k)
  else if h₂ : m > maxParityShards then .error (.tooManyParityShards m)
  else if h₃ : k + m > maxTotalShards then .error (.tooManyShards (k + m))
  else .ok ⟨k, m, Nat.pos_of_ne_zero h₀, Nat.le_of_not_gt h₁, Nat.le_of_not_gt h₂, Nat.le_of_not_gt h₃⟩

def totalShards (s : Scheme) : ℕ := s.dataShards + s.parityShards

def contains (s : Scheme) (index : ℕ) : Bool := index < s.totalShards

def isData (s : Scheme) (index : ℕ) : Bool := index < s.dataShards

def isParity (s : Scheme) (index : ℕ) : Bool := s.contains index && !s.isData index

def shardIndices (s : Scheme) : List ℕ := List.range s.totalShards

def dataShardIndices (s : Scheme) : List ℕ := List.range s.dataShards

theorem new_eq_ok {k m : ℕ} {s : Scheme} (h : new k m = .ok s) :
    s.dataShards = k ∧ s.parityShards = m := by
  unfold new at h
  split_ifs at h
  cases h
  exact ⟨rfl, rfl⟩

@[simp] theorem new_self (s : Scheme) : new s.dataShards s.parityShards = .ok s := by
  have h₀ := s.data_pos
  have h₁ := s.data_le
  have h₂ := s.parity_le
  have h₃ := s.total_le
  unfold new
  rw [dif_neg (by omega), dif_neg (by omega), dif_neg (by omega), dif_neg (by omega)]

theorem data_le_total (s : Scheme) : s.dataShards ≤ s.totalShards := Nat.le_add_right _ _

end Scheme

inductive CodingError where
  | wrongDataBlockCount (expected actual : ℕ)
  | unequalBlockLengths
  | emptyBlocks
  | indexOutOfRange (index : ℕ)
  | duplicateIndex (index : ℕ)
  | tooFewShardsPresent (present needed : ℕ)
  deriving DecidableEq, Repr

/-! ## The erasure library -/

/-- The library's object for one `k` and `m`. Its interface is positional: data, then parity. -/
structure ReedSolomon where
  encodeSep : List Bytes → List Bytes
  reconstruct : List (Option Bytes) → List (Option Bytes)
  reconstructData : List (Option Bytes) → List (Option Bytes)

/-- `slots` holds some of the blocks of the codeword of `data`, at their positions. -/
structure ReedSolomon.Slots (rs : ReedSolomon) (k m : ℕ) (data : List Bytes)
    (slots : List (Option Bytes)) : Prop where
  count : data.length = k
  pos : ∀ b ∈ data, 0 < b.length
  equal : ∀ b ∈ data, ∀ b' ∈ data, b.length = b'.length
  length : slots.length = k + m
  agree : ∀ (i : ℕ) (b : Bytes), slots[i]? = some (some b) → (data ++ rs.encodeSep data)[i]? = some b
  enough : k ≤ slots.countP Option.isSome

/-- What the library promises for `k + m`: any `k` blocks of a codeword determine all of it. -/
structure ReedSolomon.Recovers (rs : ReedSolomon) (k m : ℕ) : Prop where
  parity_count : ∀ data : List Bytes, data.length = k → (rs.encodeSep data).length = m
  parity_length : ∀ data : List Bytes, data.length = k → (∀ b ∈ data, ∀ b' ∈ data, b.length = b'.length) →
    ∀ p ∈ rs.encodeSep data, ∀ b ∈ data, p.length = b.length
  data_back : ∀ data slots, rs.Slots k m data slots → (rs.reconstructData slots).take k = data.map some
  all_back : ∀ data slots, rs.Slots k m data slots →
    rs.reconstruct slots = (data ++ rs.encodeSep data).map some

/-- The code of one scheme; the library refuses `m = 0`, where there is nothing to compute. -/
structure ReedSolomonCode where
  scheme : Scheme
  reedSolomon : Option ReedSolomon

namespace ReedSolomonCode

def new (lib : ℕ → ℕ → ReedSolomon) (scheme : Scheme) : ReedSolomonCode where
  scheme := scheme
  reedSolomon :=
    if scheme.parityShards = 0 then none else some (lib scheme.dataShards scheme.parityShards)

@[simp] theorem new_scheme (lib : ℕ → ℕ → ReedSolomon) (scheme : Scheme) :
    (new lib scheme).scheme = scheme := rfl

/-- The `m` parity blocks of exactly `k` data blocks of equal, non-zero length. -/
def computeParity (code : ReedSolomonCode) (dataBlocks : List Bytes) : Except CodingError (List Bytes) :=
  let blockLen := (dataBlocks.headD []).length
  if dataBlocks.length ≠ code.scheme.dataShards then
    .error (.wrongDataBlockCount code.scheme.dataShards dataBlocks.length)
  else if blockLen = 0 then .error .emptyBlocks
  else if dataBlocks.any (fun block => block.length != blockLen) then .error .unequalBlockLengths
  else
    match code.reedSolomon with
    | none => .ok (List.replicate code.scheme.parityShards (List.replicate blockLen 0))
    | some rs => .ok (rs.encodeSep dataBlocks)

/-- Lay the present blocks out positionally, checking indices and lengths. -/
def layOut (scheme : Scheme) :
    List (Option Bytes) → Option ℕ → List (ℕ × Bytes) →
      Except CodingError (List (Option Bytes) × Option ℕ)
  | slots, blockLen, [] => .ok (slots, blockLen)
  | slots, blockLen, (index, bytes) :: rest =>
    if !scheme.contains index then .error (.indexOutOfRange index)
    else if (slots.getD index none).isSome then .error (.duplicateIndex index)
    else
      match blockLen with
      | none => layOut scheme (slots.set index (some bytes)) (some bytes.length) rest
      | some len =>
        if len ≠ bytes.length then .error .unequalBlockLengths
        else layOut scheme (slots.set index (some bytes)) (some len) rest

/-- The `wanted` blocks from the `present` ones, in the order of `wanted`. -/
def reconstruct (code : ReedSolomonCode) (present : List (ℕ × Bytes))
    (wanted : List ℕ) : Except CodingError (List Bytes) :=
  match layOut code.scheme (List.replicate code.scheme.totalShards none) none present with
  | .error e => .error e
  | .ok (slots, blockLen) =>
    match wanted.find? (fun index => !code.scheme.contains index) with
    | some index => .error (.indexOutOfRange index)
    | none =>
      let collect (slots : List (Option Bytes)) : List Bytes :=
        wanted.map fun index => (slots.getD index none).getD []
      if wanted.any fun index => (slots.getD index none).isNone then
        if present.length < code.scheme.dataShards then
          .error (.tooFewShardsPresent present.length code.scheme.dataShards)
        else if blockLen = some 0 then .error .emptyBlocks
        else
          match code.reedSolomon with
          -- With no parity there are `k` shards in all, so `k` present leaves nothing to reconstruct.
          | none => .error (.tooFewShardsPresent present.length code.scheme.dataShards)
          | some rs =>
            if wanted.any code.scheme.isParity then .ok (collect (rs.reconstruct slots))
            else .ok (collect (rs.reconstructData slots))
      else .ok (collect slots)

def parity (code : ReedSolomonCode) (data : List Bytes) : List Bytes :=
  match code.reedSolomon with
  | none => []
  | some rs => rs.encodeSep data

section Recovery

variable {lib : ℕ → ℕ → ReedSolomon} {scheme : Scheme} {data cw : List Bytes} {L : ℕ}

/-- The library keeps its promise for the scheme, if the scheme uses it at all. -/
def Lawful (lib : ℕ → ℕ → ReedSolomon) (scheme : Scheme) : Prop :=
  0 < scheme.parityShards → (lib scheme.dataShards scheme.parityShards).Recovers scheme.dataShards scheme.parityShards

theorem computeParity_ok (lib : ℕ → ℕ → ReedSolomon) (hdata : data.length = scheme.dataShards)
    (hL : ∀ b ∈ data, b.length = L) (hpos : 0 < L) :
    (new lib scheme).computeParity data = .ok ((new lib scheme).parity data) := by
  have hne : data ≠ [] := by
    rintro rfl
    exact absurd hdata.symm scheme.data_pos.ne'
  obtain ⟨b, rest, rfl⟩ := List.exists_cons_of_ne_nil hne
  have hb : b.length = L := hL b List.mem_cons_self
  have hall : ((b :: rest).any fun block => block.length != L) = false := by
    simp only [List.any_eq_false, bne_iff_ne, not_not]
    exact hL
  simp only [computeParity, parity, new_scheme, List.headD_cons, ne_eq, hdata, not_true_eq_false, if_false,
    hb, hpos.ne', hall, Bool.false_eq_true]
  by_cases hm : scheme.parityShards = 0
  · simp [new, hm]
  · simp [new, hm]

theorem parity_length (hlib : Lawful lib scheme) (hdata : data.length = scheme.dataShards) :
    ((new lib scheme).parity data).length = scheme.parityShards := by
  by_cases hm : scheme.parityShards = 0
  · simp [parity, new, hm]
  · simpa [parity, new, hm] using
      (hlib (Nat.pos_of_ne_zero hm)).parity_count data hdata

theorem parity_block_length (hlib : Lawful lib scheme) (hdata : data.length = scheme.dataShards)
    (hL : ∀ b ∈ data, b.length = L) : ∀ p ∈ (new lib scheme).parity data, p.length = L := by
  intro p hp
  by_cases hm : scheme.parityShards = 0
  · simp [parity, new, hm] at hp
  · have hrec := hlib (Nat.pos_of_ne_zero hm)
    simp only [parity, new, hm, if_false] at hp
    obtain ⟨b, hb⟩ := List.exists_mem_of_length_pos (hdata ▸ scheme.data_pos)
    rw [hrec.parity_length data hdata (fun x hx y hy => (hL x hx).trans (hL y hy).symm) p hp b hb, hL b hb]

theorem layOut_ok (hcw : cw.length = scheme.totalShards) (hL : ∀ b ∈ cw, b.length = L)
    {present : List (ℕ × Bytes)} (slots : List (Option Bytes)) (len : Option ℕ)
    (hslots : slots.length = scheme.totalShards) (hlen : len = none ∨ len = some L)
    (hnodup : (present.map Prod.fst).Nodup) (hagree : ∀ p ∈ present, cw[p.1]? = some p.2)
    (hfree : ∀ p ∈ present, slots.getD p.1 none = none) :
    ∃ slots' len', layOut scheme slots len present = .ok (slots', len') ∧
      (len' = none ∨ len' = some L) ∧ slots'.length = scheme.totalShards ∧
      slots'.countP Option.isSome = slots.countP Option.isSome + present.length ∧
      ∀ j, slots'.getD j none = if j ∈ present.map Prod.fst then cw[j]? else slots.getD j none := by
  induction present generalizing slots len with
  | nil => exact ⟨slots, len, rfl, hlen, hslots, rfl, fun j => by simp⟩
  | cons q rest ih =>
    obtain ⟨i, b⟩ := q
    have hi : cw[i]? = some b := hagree _ List.mem_cons_self
    have hib : i < scheme.totalShards := hcw ▸ (List.getElem?_eq_some_iff.mp hi).1
    have hb : b.length = L := hL b (List.mem_of_getElem? hi)
    have hnone : slots.getD i none = none := hfree _ List.mem_cons_self
    have hnone' : slots[i]? = some none := by
      rw [List.getD_eq_getElem?_getD] at hnone
      rw [List.getElem?_eq_getElem (by omega)] at hnone ⊢
      exact congrArg some hnone
    rw [List.map_cons, List.nodup_cons] at hnodup
    have hset : ∀ j, (slots.set i (some b)).getD j none = if j = i then some b else slots.getD j none := by
      intro j
      simp only [List.getD_eq_getElem?_getD]
      by_cases hj : j = i
      · rw [hj, List.getElem?_set_self (by omega), if_pos rfl]; rfl
      · rw [List.getElem?_set_ne (Ne.symm hj), if_neg hj]
    obtain ⟨slots', len', hok, hlen', hl, hcount, hget⟩ := ih
      (slots.set i (some b)) (some L) (by simpa using hslots) (.inr rfl) hnodup.2
      (fun p hp => hagree p (List.mem_cons_of_mem _ hp))
      (fun p hp => by
        have hne : p.1 ≠ i := fun h => hnodup.1 (List.mem_map.mpr ⟨p, hp, h⟩)
        rw [hset, if_neg hne]
        exact hfree p (List.mem_cons_of_mem _ hp))
    refine ⟨slots', len', ?_, hlen', hl, ?_, fun j => ?_⟩
    · have hcont : scheme.contains i = true := decide_eq_true hib
      rcases hlen with rfl | rfl <;> simp [layOut, hcont, hnone', hb, hok]
    · rw [hcount, List.countP_set (by omega)]
      rw [List.getElem?_eq_getElem (by omega), Option.some_inj] at hnone'
      simp [hnone']
      omega
    · rw [hget, hset]
      by_cases hj : j = i
      · subst hj; simp [hi]
      · simp only [hj, if_false, List.map_cons, List.mem_cons, false_or]

theorem mem_of_all_below {l : List ℕ} (hnodup : l.Nodup) {n : ℕ} (hlt : ∀ j ∈ l, j < n) (hn : n ≤ l.length)
    {i : ℕ} (hi : i < n) : i ∈ l := by
  have hsub : l.Subperm (List.range n) := hnodup.subperm fun j hj => List.mem_range.mpr (hlt j hj)
  have hperm : l.Perm (List.range n) := hsub.perm_of_length_le (by simpa using hn)
  exact hperm.mem_iff.mpr (List.mem_range.mpr hi)

/-- **Recovery.** Any `k` blocks of the codeword of `data`, at distinct indices, give `data` back. -/
theorem reconstruct_data (hlib : Lawful lib scheme) (hdata : data.length = scheme.dataShards)
    (hL : ∀ b ∈ data, b.length = L) (hpos : 0 < L) {present : List (ℕ × Bytes)}
    (hnodup : (present.map Prod.fst).Nodup)
    (hagree : ∀ p ∈ present, (data ++ (new lib scheme).parity data)[p.1]? = some p.2)
    (henough : scheme.dataShards ≤ present.length) :
    (new lib scheme).reconstruct present scheme.dataShardIndices = .ok data := by
  have hcw : (data ++ (new lib scheme).parity data).length = scheme.totalShards := by
    rw [List.length_append, hdata, parity_length hlib hdata, Scheme.totalShards]
  have hcwL : ∀ b ∈ data ++ (new lib scheme).parity data, b.length = L := by
    intro b hb
    rcases List.mem_append.mp hb with hb | hb
    · exact hL b hb
    · exact parity_block_length hlib hdata hL b hb
  obtain ⟨slots, len, hok, hlen, hsl, hcount, hget⟩ := layOut_ok hcw hcwL
    (List.replicate scheme.totalShards none) none (by simp) (.inl rfl) hnodup hagree (fun p _ => by
      rw [List.getD_eq_getElem?_getD, List.getElem?_getD_replicate_default_eq])
  have hslot : ∀ i, i ∈ present.map Prod.fst → slots.getD i none = (data ++ (new lib scheme).parity data)[i]? :=
    fun i hi => by rw [hget, if_pos hi]
  have hwant : scheme.dataShardIndices.find? (fun index => !scheme.contains index) = none := by
    rw [List.find?_eq_none]
    intro i hi
    have hik : i < scheme.dataShards := List.mem_range.mp hi
    simpa [Scheme.contains] using lt_of_lt_of_le hik scheme.data_le_total
  have hcollect : ∀ s : List (Option Bytes), (∀ i < scheme.dataShards, s.getD i none = data[i]?) →
      (scheme.dataShardIndices.map fun i => (s.getD i none).getD []) = data := by
    intro s hs
    refine List.ext_getElem (by simp [Scheme.dataShardIndices, hdata]) fun i h₁ h₂ => ?_
    rw [List.getElem_map]
    simp only [Scheme.dataShardIndices, List.getElem_range]
    rw [hs i (by omega), List.getElem?_eq_getElem h₂, Option.getD_some]
  have hleft : ∀ i < scheme.dataShards, (data ++ (new lib scheme).parity data)[i]? = data[i]? :=
    fun i hi => List.getElem?_append_left (by omega)
  have hlen0 : len ≠ some 0 := by
    rcases hlen with rfl | rfl
    · simp
    · simpa using hpos.ne'
  simp only [reconstruct, new_scheme, hok, hwant]
  by_cases hneeds : (scheme.dataShardIndices.any fun i => (slots.getD i none).isNone) = true
  · have hm : scheme.parityShards ≠ 0 := by
      intro hm
      obtain ⟨i, hi, hnone⟩ := List.any_eq_true.mp hneeds
      have hi : i < scheme.dataShards := List.mem_range.mp hi
      have hmem := mem_of_all_below hnodup (n := scheme.dataShards)
        (fun j hj => by
          obtain ⟨p, hp, rfl⟩ := List.mem_map.mp hj
          have := (List.getElem?_eq_some_iff.mp (hagree p hp)).1
          rw [hcw, Scheme.totalShards, hm] at this
          omega)
        (by simpa using henough) hi
      rw [hslot i hmem, hleft i hi, List.getElem?_eq_getElem (by omega)] at hnone
      simp at hnone
    have hrec := hlib (Nat.pos_of_ne_zero hm)
    have hpar : (scheme.dataShardIndices.any scheme.isParity) = false := by
      rw [List.any_eq_false]
      intro i hi
      have hik : i < scheme.dataShards := List.mem_range.mp hi
      simp [Scheme.isParity, Scheme.isData, hik]
    have hcode : (new lib scheme).reedSolomon = some (lib scheme.dataShards scheme.parityShards) := by
      simp [new, hm]
    have hback := hrec.data_back data slots
      { count := hdata
        pos := fun b hb => hL b hb ▸ hpos
        equal := fun b hb b' hb' => (hL b hb).trans (hL b' hb').symm
        length := hsl
        agree := fun i b hb => by
          have hg := hget i
          rw [List.getD_eq_getElem?_getD, hb] at hg
          split_ifs at hg with hmem
          · simpa [parity, hcode] using hg.symm
          · rw [List.getD_eq_getElem?_getD, List.getElem?_getD_replicate_default_eq] at hg
            cases hg
        enough := by omega }
    simp only [hneeds, if_true, if_neg (Nat.not_lt.mpr henough), if_neg hlen0, hcode, hpar, Bool.false_eq_true,
      if_false]
    refine congrArg Except.ok (hcollect _ fun i hi => ?_)
    have htake : ((lib scheme.dataShards scheme.parityShards).reconstructData slots)[i]? = (data.map some)[i]? := by
      rw [← hback, List.getElem?_take_of_lt hi]
    rw [List.getD_eq_getElem?_getD, htake, List.getElem?_map, List.getElem?_eq_getElem (by omega)]
    rfl
  · rw [if_neg hneeds]
    refine congrArg Except.ok (hcollect _ fun i hi => ?_)
    have hsome : slots.getD i none ≠ none := fun hnone =>
      hneeds (List.any_eq_true.mpr ⟨i, List.mem_range.mpr hi, by rw [hnone]; rfl⟩)
    have hg := hget i
    split_ifs at hg with hmem
    · rw [hg, hleft i hi]
    · exact absurd (hg.trans (by rw [List.getD_eq_getElem?_getD, List.getElem?_getD_replicate_default_eq])) hsome

end Recovery

end ReedSolomonCode

/-! ## Replicas -/

/-- The code of `1 + m` shards in which every block is the data block. -/
def mirror (m : ℕ) : ReedSolomon where
  encodeSep data := List.replicate m (data.headD [])
  reconstruct slots := slots.map fun _ => (slots.filterMap id).head?
  reconstructData slots := slots.map fun _ => (slots.filterMap id).head?

theorem mirror_slots {m : ℕ} {data : List Bytes} {slots : List (Option Bytes)} (h : (mirror m).Slots 1 m data slots) :
    ∃ b, data = [b] ∧ (slots.filterMap id).head? = some b := by
  obtain ⟨b, rfl⟩ := List.length_eq_one_iff.mp h.count
  refine ⟨b, rfl, ?_⟩
  have hall : ∀ b' ∈ slots.filterMap id, b' = b := by
    intro b' hb'
    obtain ⟨_, hmem, rfl⟩ := List.mem_filterMap.mp hb'
    obtain ⟨i, hi⟩ := List.mem_iff_getElem?.mp hmem
    have hcw := List.mem_of_getElem? (h.agree i b' hi)
    have hor : b' = b ∨ ¬ m = 0 ∧ b' = b := by simpa [mirror] using hcw
    exact hor.elim id And.right
  have hne : slots.filterMap id ≠ [] := by
    intro hnil
    have hcount := h.enough
    rw [List.countP_eq_zero.mpr] at hcount
    · exact absurd hcount (by decide)
    · intro slot hslot hsome
      obtain ⟨b', rfl⟩ := Option.isSome_iff_exists.mp hsome
      have : b' ∈ slots.filterMap id := List.mem_filterMap.mpr ⟨_, hslot, rfl⟩
      rw [hnil] at this
      cases this
  obtain ⟨b', rest, hcons⟩ := List.exists_cons_of_ne_nil hne
  rw [hcons, List.head?_cons, hall b' (hcons ▸ List.mem_cons_self)]

theorem mirror_recovers (m : ℕ) : (mirror m).Recovers 1 m where
  parity_count data _ := List.length_replicate
  parity_length data hlen _ p hp b hb := by
    obtain ⟨b', rfl⟩ := List.length_eq_one_iff.mp hlen
    obtain rfl : p = b' := List.eq_of_mem_replicate hp
    rw [List.mem_singleton.mp hb]
  data_back data slots h := by
    obtain ⟨b, rfl, hb⟩ := mirror_slots h
    have hlen := h.length
    simp only [mirror, hb, List.map_const', List.take_replicate, hlen]
    rw [Nat.min_eq_left (by omega)]
    rfl
  all_back data slots h := by
    obtain ⟨b, rfl, hb⟩ := mirror_slots h
    have hlen := h.length
    simp only [mirror, hb, List.map_const', hlen, List.headD_cons, List.cons_append, List.nil_append, List.map_cons,
      List.map_replicate]
    rw [Nat.add_comm, List.replicate_succ]

def pair : Scheme := ⟨1, 1, by decide, by decide, by decide, by decide⟩

def double : Scheme := ⟨2, 0, by decide, by decide, by decide, by decide⟩

end Djbod
