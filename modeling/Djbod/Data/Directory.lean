import Mathlib.Data.List.Dedup
import Mathlib.Data.List.Sort
import Mathlib.Order.Basic

/-!
# Directories and walks through them in order

* `Dir` : entries under distinct names; `Dir.gather` makes one, `Dir.get` finds one, `Dir.erase` removes one,
  `Dir.readSorted` lists them in the order of their names;
* `Dir.walk` : one level of a walk that begins at a cursor. What lies before the cursor's name is left out, and only the
  entry of that name is walked with what is left of the cursor;
* `Dir.walk_eq_filter` : the walk from a cursor is the part of the whole walk that lies behind it;
* `Dir.walk_pairwise` : a walk is in order if every entry's walk is, and the names order what lies under them.
-/

structure Dir (ν α : Type) where
  entries : List (ν × α)
  distinct : (entries.map Prod.fst).Nodup

namespace Dir

section Gather

variable {ν α κ : Type} [DecidableEq κ] {name : κ → ν} (hname : Function.Injective name) (keys : List κ) (entry : κ → α)

include hname in
theorem nodup_gather : ((keys.dedup.map fun key => (name key, entry key)).map Prod.fst).Nodup := by
  rw [List.map_map]
  exact (List.nodup_dedup keys).map hname

/-- One entry for each of the keys. -/
def gather : Dir ν α := ⟨keys.dedup.map fun key => (name key, entry key), nodup_gather hname keys entry⟩

theorem mem_gather {e : ν × α} : e ∈ (gather hname keys entry).entries ↔ ∃ key ∈ keys, (name key, entry key) = e := by
  simp only [gather, List.mem_map, List.mem_dedup]

end Gather

variable {ν α β ρ : Type} [LinearOrder ν]

def get (dir : Dir ν α) (name : ν) : Option α := (dir.entries.find? fun e => decide (e.1 = name)).map Prod.snd

def readSorted (dir : Dir ν α) : List (ν × α) := dir.entries.insertionSort fun a b => a.1 ≤ b.1

theorem mem_readSorted {dir : Dir ν α} {e : ν × α} : e ∈ dir.readSorted ↔ e ∈ dir.entries := List.mem_insertionSort _

theorem readSorted_sorted (dir : Dir ν α) : dir.readSorted.Pairwise fun a b => a.1 < b.1 := by
  have hle : dir.readSorted.Pairwise fun a b => a.1 ≤ b.1 := by
    have : Std.Total fun a b : ν × α => a.1 ≤ b.1 := ⟨fun a b => le_total a.1 b.1⟩
    have : IsTrans (ν × α) fun a b => a.1 ≤ b.1 := ⟨fun _ _ _ => le_trans⟩
    exact List.pairwise_insertionSort _ _
  have hne : dir.readSorted.Pairwise fun a b => a.1 ≠ b.1 := by
    have hperm : (dir.readSorted.map Prod.fst).Perm (dir.entries.map Prod.fst) := (List.perm_insertionSort _ _).map _
    exact List.pairwise_map.mp (hperm.nodup_iff.mpr dir.distinct)
  exact (hle.and hne).imp fun h => lt_of_le_of_ne h.1 h.2

theorem get_eq_some {dir : Dir ν α} {name : ν} {entry : α} : dir.get name = some entry ↔
    (name, entry) ∈ dir.entries := by
  rw [get, Option.map_eq_some_iff]
  constructor
  · rintro ⟨⟨name', entry'⟩, hfind, rfl⟩
    have hname : name' = name := by simpa using List.find?_some hfind
    exact hname ▸ List.mem_of_find?_eq_some hfind
  · intro hmem
    obtain ⟨⟨name', entry'⟩, hfind⟩ := Option.isSome_iff_exists.mp
      (List.find?_isSome.mpr ⟨(name, entry), hmem, decide_eq_true rfl⟩ : (dir.entries.find? fun e =>
      decide (e.1 = name)).isSome)
    have hname : name' = name := by simpa using List.find?_some hfind
    have heq : (name', entry') = (name, entry) :=
      List.inj_on_of_nodup_map dir.distinct (List.mem_of_find?_eq_some hfind) hmem hname
    exact ⟨(name', entry'), hfind, (Prod.mk.inj heq).2⟩

theorem get_eq_none {dir : Dir ν α} {name : ν} : dir.get name = none ↔ name ∉ dir.entries.map Prod.fst := by
  rw [Option.eq_none_iff_forall_ne_some]
  simp only [ne_eq, get_eq_some, List.mem_map, Prod.exists, exists_and_right, exists_eq_right, not_exists]

theorem get_ext {dir dir' : Dir ν α} {name : ν} (h : ∀ entry, (name, entry) ∈ dir.entries ↔
    (name, entry) ∈ dir'.entries) : dir.get name = dir'.get name :=
    Option.ext fun entry => by rw [get_eq_some, get_eq_some, h entry]

def erase (dir : Dir ν α) (name : ν) : Dir ν α :=
  ⟨dir.entries.filter fun e => decide (e.1 ≠ name), dir.distinct.sublist (List.filter_sublist.map _)⟩

theorem mem_erase {dir : Dir ν α} {name : ν} {e : ν × α} : e ∈ (dir.erase name).entries ↔ e ∈ dir.entries ∧
    e.1 ≠ name := by
  rw [erase, List.mem_filter, decide_eq_true_eq]

theorem get_erase (dir : Dir ν α) (name name' : ν) :
    (dir.erase name).get name' = if name' = name then none else dir.get name' := by
  split_ifs with h
  · subst h
    rw [get_eq_none, List.mem_map]
    rintro ⟨e, he, rfl⟩
    exact (mem_erase.mp he).2 rfl
  · exact get_ext fun entry => mem_erase.trans (and_iff_left h)

/-- One level of a walk from a cursor, a name and what the cursor goes on with under that name. -/
def walk (visit : Option ρ → ν → α → List β) (cursor : Option (ν × ρ)) (dir : Dir ν α) : List β :=
  dir.readSorted.flatMap fun e =>
    match cursor with
    | none => visit none e.1 e.2
    | some (name, rest) => if e.1 < name then [] else visit (if e.1 = name then some rest else none) e.1 e.2

/-- What lies behind a cursor: under a later name, or under its own and behind the rest of it. -/
def behind (nameOf : β → ν) (later : ρ → β → Bool) (cursor : ν × ρ) (b : β) : Bool :=
  decide (cursor.1 < nameOf b) || (decide (nameOf b = cursor.1) && later cursor.2 b)

theorem behind_iff {nameOf : β → ν} {later : ρ → β → Bool} {cursor : ν × ρ} {b : β} :
    behind nameOf later cursor b = true ↔ cursor.1 < nameOf b ∨ nameOf b = cursor.1 ∧ later cursor.2 b = true := by
  simp [behind]

variable {visit : Option ρ → ν → α → List β} {dir : Dir ν α}

theorem mem_walk_none {b : β} : b ∈ dir.walk visit none ↔ ∃ name entry, (name, entry) ∈ dir.entries ∧
    b ∈ visit none name entry := by
  rw [walk, List.mem_flatMap]
  exact ⟨fun ⟨e, he, hb⟩ => ⟨e.1, e.2, mem_readSorted.mp he, hb⟩, fun ⟨name, entry, he, hb⟩ =>
    ⟨(name, entry), mem_readSorted.mpr he, hb⟩⟩

/-- **The walk from a cursor** is what lies behind the cursor of the whole walk. -/
theorem walk_eq_filter {nameOf : β → ν} {later : ρ → β → Bool} (hname : ∀ name entry, (name, entry) ∈ dir.entries →
      ∀ b ∈ visit none name entry, nameOf b = name)
    (hvisit : ∀ name entry, (name, entry) ∈ dir.entries →
    ∀ rest, visit (some rest) name entry = (visit none name entry).filter (later rest))
    (cursor : ν × ρ) : dir.walk visit (some cursor) = (dir.walk visit none).filter (behind nameOf later cursor) := by
  obtain ⟨name, rest⟩ := cursor
  rw [walk, walk, List.filter_flatMap, List.flatMap_def, List.flatMap_def]
  refine congrArg List.flatten (List.map_congr_left fun e he => ?_)
  have hmem : (e.1, e.2) ∈ dir.entries := mem_readSorted.mp he
  have hof := hname e.1 e.2 hmem
  dsimp only
  rcases lt_trichotomy e.1 name with hlt | heq | hgt
  · rw [if_pos hlt]
    refine (List.filter_eq_nil_iff.mpr fun b hb => ?_).symm
    rw [behind_iff, hof b hb]
    simp [hlt.not_gt, hlt.ne]
  · rw [if_neg heq.not_lt, if_pos heq, hvisit e.1 e.2 hmem rest]
    refine List.filter_congr fun b hb => ?_
    simp [behind, hof b hb, heq]
  · rw [if_neg hgt.not_gt, if_neg hgt.ne']
    refine (List.filter_eq_self.mpr fun b hb => ?_).symm
    rw [behind_iff, hof b hb]
    exact Or.inl hgt

/-- **A walk is in order** if every entry's is and what lies under different names is ordered by them. -/
theorem walk_pairwise {R : β → β → Prop} (nameOf : β → ν) (hname : ∀ name entry, (name, entry) ∈ dir.entries →
      ∀ b ∈ visit none name entry, nameOf b = name)
    (hvisit : ∀ name entry, (name, entry) ∈ dir.entries → (visit none name entry).Pairwise R)
    (horder : ∀ b ∈ dir.walk visit none, ∀ b' ∈ dir.walk visit none, nameOf b < nameOf b' → R b b') :
    (dir.walk visit none).Pairwise R := by
  have hin : ∀ e ∈ dir.readSorted, ∀ b ∈ visit none e.1 e.2, b ∈ dir.walk visit none := fun e he b hb =>
    mem_walk_none.mpr ⟨e.1, e.2, mem_readSorted.mp he, hb⟩
  refine List.pairwise_flatMap.mpr ⟨fun e he => hvisit e.1 e.2 (mem_readSorted.mp he),
    (readSorted_sorted dir).imp_of_mem fun he he' hlt b hb b' hb' => horder b (hin _ he b hb) b' (hin _ he' b' hb') ?_⟩
  rw [hname _ _ (mem_readSorted.mp he) b hb, hname _ _ (mem_readSorted.mp he') b' hb']
  exact hlt

end Dir
