import Mathlib.Algebra.Order.BigOperators.Group.List
import Mathlib.Algebra.Order.Ring.Nat
import Mathlib.Data.Finset.Sort

/-!
# Merging sources in order

Sources answer each request with their next element, their end or a failure. A merge keeps the next element of every
source, takes all that stand at the first place, hands them on as a group, and asks the sources it took from again.

* `merge` : the loop, with what is done with a group and with a failure as parameters;
* `delivered`, `failure` : what a source delivers before it ends, and the failure it ends with;
* `merge_eq` : over sources in order, the merge is the fold over the places that were delivered, each with the elements
  delivered for it, and with every failure behind the last place that its source delivered.
-/

namespace Merging

variable {τ ε α κ β : Type}

/-- The elements that a source delivers before it ends or fails. -/
def delivered : List (Except ε α) → List α
  | [] => []
  | .ok a :: rest => a :: delivered rest
  | .error _ :: _ => []

def failure : List (Except ε α) → Option ε
  | [] => none
  | .ok _ :: rest => failure rest
  | .error e :: _ => some e

@[simp] theorem delivered_ok (as : List α) : delivered (as.map (.ok : α → Except ε α)) = as := by
  induction as with
  | nil => rfl
  | cons a as ih => exact congrArg (a :: ·) ih

@[simp] theorem failure_ok (as : List α) : failure (as.map (.ok : α → Except ε α)) = none := by
  induction as with
  | nil => rfl
  | cons a as ih => exact ih

/-- A source: the element next in line and the answers behind it. -/
structure Line (τ ε α : Type) where
  tag : τ
  head : Option α
  rest : List (Except ε α)

def Line.advance (l : Line τ ε α) : Line τ ε α × Option ε :=
  match l.rest with
  | [] => (⟨l.tag, none, []⟩, none)
  | .ok a :: rest => (⟨l.tag, some a, rest⟩, none)
  | .error e :: rest => (⟨l.tag, none, rest⟩, some e)

section Loop

variable (onFail : β → τ → ε → Except β β)

/-- What an answer changes: a failure may stop the merge. -/
def note (b : β) (t : τ) : Option ε → Except β β
  | none => .ok b
  | some e => onFail b t e

def advanceAll (used : Line τ ε α → Bool) : List (Line τ ε α) → β → Except β (List (Line τ ε α) × β)
  | [], b => .ok ([], b)
  | l :: ls, b =>
    if used l then
      match note onFail b l.tag l.advance.2 with
      | .error b => .error b
      | .ok b =>
        match advanceAll used ls b with
        | .error b => .error b
        | .ok (ls, b) => .ok (l.advance.1 :: ls, b)
    else
      match advanceAll used ls b with
      | .error b => .error b
      | .ok (ls, b) => .ok (l :: ls, b)

variable [LinearOrder κ] (place : α → κ) (onGroup : β → List α → β)

def smallest (ls : List (Line τ ε α)) : Option κ := (ls.filterMap fun l => l.head.map place).min?

def Line.at (p : κ) (l : Line τ ε α) : Bool := l.head.any fun a => decide (place a = p)

/-- Group after group, until no source has an element left. -/
def rounds : ℕ → List (Line τ ε α) → β → Except β β
  | 0, _, b => .ok b
  | n + 1, ls, b =>
    match smallest place ls with
    | none => .ok b
    | some p =>
      match advanceAll onFail (Line.at place p) ls (onGroup b ((ls.filter (Line.at place p)).filterMap Line.head)) with
      | .error b => .error b
      | .ok (ls, b) => rounds n ls b

/-- Ask every source once, then go on group after group. -/
def merge (onFirst : β → τ → ε → Except β β) (sources : List (τ × List (Except ε α))) (b : β) : Except β β :=
  match advanceAll onFirst (fun _ => true) (sources.map fun s => ⟨s.1, none, s.2⟩) b with
  | .error b => .error b
  | .ok (ls, b) => rounds onFail place onGroup ((sources.map fun s => s.2.length).sum + 1) ls b

/-- Two runs that go on or stop together, in related states. -/
def Related {β' γ γ' : Type} (R : β → β' → Prop) (S : γ → γ' → Prop) : Except β γ → Except β' γ' → Prop
  | .ok c, .ok c' => S c c'
  | .error b, .error b' => R b b'
  | _, _ => False

section Related

variable {onFail place onGroup} {β' : Type} {R : β → β' → Prop} {onFirst : β → τ → ε → Except β β}
  {onFail' onFirst' : β' → τ → ε → Except β' β'} {onGroup' : β' → List α → β'} {b : β} {b' : β'}

variable (hfail : ∀ b b' t e, R b b' → Related R R (onFail b t e) (onFail' b' t e))

include hfail

theorem advanceAll_related (used : Line τ ε α → Bool) (ls : List (Line τ ε α)) (h : R b b') :
    Related R (fun x y => x.1 = y.1 ∧ R x.2 y.2) (advanceAll onFail used ls b) (advanceAll onFail' used ls b') := by
  induction ls generalizing b b' with
  | nil => exact ⟨rfl, h⟩
  | cons l ls ih =>
    have hcons : ∀ {c c'} (m : Line τ ε α), R c c' → Related R (fun x y => x.1 = y.1 ∧ R x.2 y.2)
        (match advanceAll onFail used ls c with | .error d => .error d | .ok (ms, d) => .ok (m :: ms, d))
        (match advanceAll onFail' used ls c' with | .error d => .error d | .ok (ms, d) => .ok (m :: ms, d)) := by
      intro c c' m hc
      have hrest := ih hc
      generalize advanceAll onFail used ls c = x, advanceAll onFail' used ls c' = y at hrest ⊢
      rcases x with d | ⟨ms, d⟩ <;> rcases y with d' | ⟨ms', d'⟩
      · exact hrest
      · exact hrest
      · exact hrest
      · exact ⟨congrArg (m :: ·) hrest.1, hrest.2⟩
    unfold advanceAll
    split_ifs with hused
    · have hnote : Related R R (note onFail b l.tag l.advance.2) (note onFail' b' l.tag l.advance.2) := by
        cases l.advance.2 with
        | none => exact h
        | some e => exact hfail b b' l.tag e h
      generalize note onFail b l.tag l.advance.2 = x, note onFail' b' l.tag l.advance.2 = y at hnote ⊢
      rcases x with c | c <;> rcases y with c' | c'
      · exact hnote
      · exact hnote.elim
      · exact hnote.elim
      · exact hcons _ hnote
    · exact hcons _ h

theorem rounds_related (hgroup : ∀ b b' g, R b b' → R (onGroup b g) (onGroup' b' g)) (n : ℕ)
    (ls : List (Line τ ε α)) (h : R b b') : Related R R (rounds onFail place onGroup n ls b)
    (rounds onFail' place onGroup' n ls b') := by
  induction n generalizing ls b b' with
  | zero => exact h
  | succ n ih =>
    unfold rounds
    cases smallest place ls with
    | none => exact h
    | some p =>
      have hall := advanceAll_related hfail (Line.at place p)
        ls (hgroup b b' ((ls.filter (Line.at place p)).filterMap Line.head) h)
      dsimp only
      generalize advanceAll onFail (Line.at place p) ls _ = x, advanceAll onFail' (Line.at place p) ls _ = y at hall ⊢
      rcases x with c | ⟨ms, c⟩ <;> rcases y with c' | ⟨ms', c'⟩
      · exact hall
      · exact hall.elim
      · exact hall.elim
      · obtain ⟨rfl, hc⟩ := hall
        exact ih ms hc

/-- Merges of the same sources stay related. -/
theorem merge_related (hgroup : ∀ b b' g, R b b' → R (onGroup b g) (onGroup' b' g))
    (hfirst : ∀ b b' t e, R b b' → Related R R (onFirst b t e) (onFirst' b' t e))
    (sources : List (τ × List (Except ε α))) (h : R b b') : Related R R (merge onFail place onGroup onFirst sources b)
    (merge onFail' place onGroup' onFirst' sources b') := by
  have hall := advanceAll_related hfirst (fun _ => true) (sources.map fun s => (⟨s.1, none, s.2⟩ : Line τ ε α)) h
  unfold merge
  generalize advanceAll onFirst _ _ b = x, advanceAll onFirst' _ _ b' = y at hall ⊢
  rcases x with c | ⟨ms, c⟩ <;> rcases y with c' | ⟨ms', c'⟩
  · exact hall
  · exact hall.elim
  · exact hall.elim
  · obtain ⟨rfl, hc⟩ := hall
    exact rounds_related hfail hgroup _ ms hc

end Related

end Loop

/-! ## The fold over the places -/

/-- What a source is going to do: deliver its elements, and then end or fail. -/
structure Outlook (τ ε α : Type) where
  tag : τ
  items : List α
  failure : Option ε

section Fold

variable [LinearOrder κ] (place : α → κ)

def places (os : List (Outlook τ ε α)) : Finset κ := ((os.flatMap Outlook.items).map place).toFinset

def groupAt (p : κ) (os : List (Outlook τ ε α)) : List α :=
  os.flatMap fun o => o.items.filter fun a => decide (place a = p)

/-- The failures of the sources that delivered last for a place, or nothing at all. -/
def failedAt (p : Option κ) (os : List (Outlook τ ε α)) : List (τ × ε) :=
  os.filterMap fun o => if o.items.getLast?.map place = p then o.failure.map fun e => (o.tag, e) else none

variable (onGroup : β → List α → β) (fail : β → τ → ε → β)

def failAll (b : β) (fs : List (τ × ε)) : β := fs.foldl (fun b f => fail b f.1 f.2) b

/-- Place after place, its group and then the failures behind it. -/
def foldPlaces (os : List (Outlook τ ε α)) (b : β) : β :=
  ((places place os).sort (· ≤ ·)).foldl (fun b p => failAll fail (onGroup b (groupAt place p os))
    (failedAt place (some p) os)) b

end Fold

def outlookOf (source : τ × List (Except ε α)) : Outlook τ ε α := ⟨source.1, delivered source.2, failure source.2⟩

/-- A source with its next element; without one it is not asked again. -/
def Line.outlook (l : Line τ ε α) : Outlook τ ε α :=
  match l.head with
  | none => ⟨l.tag, [], none⟩
  | some a => ⟨l.tag, a :: delivered l.rest, Merging.failure l.rest⟩

theorem Line.advance_outlook (l : Line τ ε α) : l.advance.1.outlook =
    ⟨l.tag, delivered l.rest, if delivered l.rest = [] then none else Merging.failure l.rest⟩ := by
  unfold advance
  split
  next h => simp [h, outlook, delivered]
  next h => simp [h, outlook, delivered, Merging.failure]
  next h => simp [h, outlook, delivered]

theorem Line.advance_failed (l : Line τ ε α) : l.advance.2 = if delivered l.rest =
    [] then Merging.failure l.rest else none := by
  unfold advance
  split
  next h => simp [h, delivered, Merging.failure]
  next h => simp [h, delivered]
  next h => simp [h, delivered, Merging.failure]

variable {q : κ}

section Step

variable [LinearOrder κ] {place : α → κ}

theorem smallest_mem {ls : List (Line τ ε α)} {p : κ} (h : smallest place ls = some p) :
    ∃ l ∈ ls, l.at place p = true := by
  obtain ⟨l, hl, hplace⟩ := List.mem_filterMap.mp (List.min?_mem h)
  obtain ⟨a, ha, rfl⟩ := Option.map_eq_some_iff.mp hplace
  exact ⟨l, hl, by simp [Line.at, ha]⟩

theorem smallest_le {ls : List (Line τ ε α)} {p : κ} (h : smallest place ls = some p) {l : Line τ ε α}
    (hl : l ∈ ls) {a : α} (ha : l.head = some a) : p ≤ place a :=
  (List.min?_eq_some_iff.mp h).2 _ (List.mem_filterMap.mpr ⟨l, hl, by rw [ha]; rfl⟩)

/-- What a source has left is in order, and does not begin before `p`. -/
structure Line.From (place : α → κ) (p : κ) (l : Line τ ε α) : Prop where
  sorted : l.outlook.items.Pairwise fun a b => place a < place b
  first : ∀ a, l.head = some a → p ≤ place a

variable {p : κ} {l : Line τ ε α}

variable (h : l.From place p)

include h

theorem Line.From.used (hat : l.at place p = true) : ∃ a, l.head = some a ∧ place a = p ∧ ∀ b ∈ delivered l.rest,
    p < place b := by
  obtain ⟨a, ha, hp⟩ := (Option.any_eq_true _ _).mp hat
  have hplace : place a = p := by simpa using hp
  have hsorted := h.sorted
  rw [outlook, ha] at hsorted
  exact ⟨a, ha, hplace, fun b hb => hplace ▸ List.rel_of_pairwise_cons hsorted hb⟩

theorem Line.From.unused (hat : l.at place p = false) : ∀ b ∈ l.outlook.items, p < place b := by
  have hsorted := h.sorted
  unfold outlook at hsorted ⊢
  cases ha : l.head with
  | none => nofun
  | some a =>
    rw [ha] at hsorted
    have hne : place a ≠ p := by simpa [Line.at, ha] using hat
    have hlt : p < place a := lt_of_le_of_ne (h.first a ha) hne.symm
    exact List.forall_mem_cons.mpr ⟨hlt, fun b hb => hlt.trans (List.rel_of_pairwise_cons hsorted hb)⟩

def Line.after (place : α → κ) (p : κ) (l : Line τ ε α) : Line τ ε α := if l.at place p then l.advance.1 else l

theorem Line.From.items_at : l.outlook.items.filter (fun a => decide (place a = p)) =
    if l.at place p then l.head.toList else [] := by
  cases hat : l.at place p with
  | true =>
    obtain ⟨a, ha, hp, hrest⟩ := h.used hat
    have hnone : (delivered l.rest).filter (fun a => decide (place a = p)) = [] :=
      List.filter_eq_nil_iff.mpr fun b hb => by simpa using (hrest b hb).ne'
    simp [outlook, ha, hp, hnone]
  | false =>
    have hnone : l.outlook.items.filter (fun a => decide (place a = p)) = [] :=
      List.filter_eq_nil_iff.mpr fun b hb => by simpa using (h.unused hat b hb).ne'
    simpa using hnone

/-- The last element of a source is at `p` just when the source is used and has no other. -/
theorem Line.From.last_at : l.outlook.items.getLast?.map place = some p ↔ l.at place p = true ∧
    delivered l.rest = [] := by
  cases hat : l.at place p with
  | true =>
    obtain ⟨a, ha, hp, hrest⟩ := h.used hat
    cases hd : delivered l.rest with
    | nil => simp [outlook, ha, hp, hd]
    | cons b bs =>
      rw [hd] at hrest
      have hlast : p < place ((b :: bs).getLast (List.cons_ne_nil b bs)) := hrest _ (List.getLast_mem _)
      simp [outlook, ha, hd, List.getLast?_eq_some_getLast, hlast.ne']
  | false =>
    refine iff_of_false (fun hlast => ?_) (by simp)
    obtain ⟨a, ha, hp⟩ := Option.map_eq_some_iff.mp hlast
    exact (h.unused hat a (List.mem_of_getLast? ha)).ne' hp

theorem Line.From.failed_at : (if l.outlook.items.getLast?.map place = some p then l.outlook.failure.map fun e =>
    (l.tag, e) else none) =
      if l.at place p then l.advance.2.map fun e => (l.tag, e) else none := by
  rw [l.advance_failed]
  cases hat : l.at place p with
  | true =>
    obtain ⟨a, ha, -⟩ := h.used hat
    by_cases hd : delivered l.rest = []
    · rw [if_pos (h.last_at.mpr ⟨hat, hd⟩), if_pos rfl, if_pos hd, outlook, ha]
    · rw [if_neg fun hlast => hd (h.last_at.mp hlast).2, if_pos rfl, if_neg hd]
      rfl
  | false =>
    rw [if_neg fun hlast => by simpa [hat] using (h.last_at.mp hlast).1]
    rfl

theorem Line.From.after_items (hq : q ≠ p) :
    (l.after place p).outlook.items.filter (fun a => decide (place a = q)) = l.outlook.items.filter fun a =>
    decide (place a = q) := by
  unfold after
  cases hat : l.at place p with
  | true =>
    obtain ⟨a, ha, hp, -⟩ := h.used hat
    rw [if_pos rfl, l.advance_outlook]
    simp [outlook, ha, hp, hq.symm]
  | false => simp

omit h in
theorem Line.after_tag (l : Line τ ε α) : (l.after place p).tag = l.tag := by
  unfold after advance
  split
  · split <;> rfl
  · rfl

theorem Line.From.after_failed (hq : q ≠ p) :
    (if (l.after place p).outlook.items.getLast?.map place = some q then (l.after place p).outlook.failure.map fun e =>
    (l.tag, e) else none) =
      if l.outlook.items.getLast?.map place = some q then l.outlook.failure.map fun e => (l.tag, e) else none := by
  unfold after
  cases hat : l.at place p with
  | true =>
    obtain ⟨a, ha, hp, -⟩ := h.used hat
    rw [if_pos rfl, l.advance_outlook]
    cases hd : delivered l.rest with
    | nil => simp [outlook, ha, hp, hd, hq.symm]
    | cons b bs => simp [outlook, ha, hd, List.getLast?_cons_cons]
  | false => simp

theorem Line.From.after_from : (l.after place p).outlook.items.Pairwise fun a b => place a < place b := by
  unfold after
  cases hat : l.at place p with
  | true =>
    obtain ⟨a, ha, -⟩ := h.used hat
    have hsorted := h.sorted
    rw [outlook, ha] at hsorted
    rw [if_pos rfl, l.advance_outlook]
    exact hsorted.of_cons
  | false => simpa using h.sorted

theorem Line.From.mem_after (a : α) : a ∈ (l.after place p).outlook.items ↔ a ∈ l.outlook.items ∧ place a ≠ p := by
  unfold after
  cases hat : l.at place p with
  | true =>
    obtain ⟨b, hb, hp, hrest⟩ := h.used hat
    rw [if_pos rfl, l.advance_outlook]
    simp only [outlook, hb, List.mem_cons]
    constructor
    · exact fun ha => ⟨.inr ha, (hrest a ha).ne'⟩
    · rintro ⟨rfl | ha, hne⟩
      · exact absurd hp hne
      · exact ha
  | false =>
    rw [if_neg Bool.false_ne_true]
    exact ⟨fun ha => ⟨ha, (h.unused hat a ha).ne'⟩, fun ha => ha.1⟩

end Step

/-! ## The merge is the fold -/

section Merge

variable [LinearOrder κ] {place : α → κ} {onGroup : β → List α → β} {fail : β → τ → ε → β}
  {onFail onFirst : β → τ → ε → Except β β}

theorem Line.outlook_tag (l : Line τ ε α) : l.outlook.tag = l.tag := by
  unfold outlook
  split <;> rfl

theorem advanceAll_eq {used : Line τ ε α → Bool} {ls : List (Line τ ε α)}
    (hgo : ∀ l ∈ ls, used l = true → ∀ e, l.advance.2 = some e → ∀ b, onFail b l.tag e = .ok (fail b l.tag e)) (b : β) :
    advanceAll onFail used ls b = .ok (ls.map fun l => if used l then l.advance.1 else l,
      failAll fail b (ls.filterMap fun l => if used l then l.advance.2.map fun e => (l.tag, e) else none)) := by
  induction ls generalizing b with
  | nil => rfl
  | cons l ls ih =>
    have hrest := ih fun l' hl' => hgo l' (List.mem_cons_of_mem _ hl')
    unfold advanceAll
    by_cases hu : used l = true
    · have hnote : note onFail b l.tag l.advance.2 =
        .ok (failAll fail b (l.advance.2.map fun e => (l.tag, e)).toList) := by
        cases hfail : l.advance.2 with
        | none => rfl
        | some e => exact hgo l List.mem_cons_self hu e hfail b
      rw [if_pos hu, hnote]
      dsimp only
      rw [hrest]
      cases hfail : l.advance.2 <;> simp [hu, hfail, failAll]
    · rw [if_neg hu, hrest]
      simp [hu, failAll]

variable {p : κ} {ls : List (Line τ ε α)}

variable {os : List (Outlook τ ε α)}

theorem mem_places : p ∈ places place os ↔ ∃ o ∈ os, ∃ a ∈ o.items, place a = p := by
  simp only [places, List.mem_toFinset, List.mem_map, List.mem_flatMap]
  constructor
  · rintro ⟨a, ⟨o, ho, ha⟩, hp⟩
    exact ⟨o, ho, a, ha, hp⟩
  · rintro ⟨o, ho, a, ha, hp⟩
    exact ⟨a, ⟨o, ho, ha⟩, hp⟩

section Group

variable (h : ∀ l ∈ ls, l.From place p)

include h

theorem group_eq : (ls.filter (Line.at place p)).filterMap Line.head = groupAt place p (ls.map Line.outlook) := by
  induction ls with
  | nil => rfl
  | cons l ls ih =>
    have hrest := ih fun l' hl' => h l' (List.mem_cons_of_mem _ hl')
    have hone := (h l List.mem_cons_self).items_at
    simp only [groupAt, List.map_cons, List.flatMap_cons] at hrest ⊢
    rw [← hrest, hone, List.filter_cons]
    by_cases hat : l.at place p = true
    · cases hhead : l.head <;> simp [hat, hhead]
    · simp [hat]

theorem failed_eq : (ls.filterMap fun l => if l.at place p then l.advance.2.map fun e => (l.tag, e) else none) =
      failedAt place (some p) (ls.map Line.outlook) := by
  rw [failedAt, List.filterMap_map]
  refine List.filterMap_congr fun l hl => ?_
  rw [Function.comp_apply, l.outlook_tag]
  exact (h l hl).failed_at.symm

theorem groupAt_after (hq : q ≠ p) :
    groupAt place q ((ls.map (Line.after place p)).map Line.outlook) = groupAt place q (ls.map Line.outlook) := by
  simp only [groupAt, List.flatMap_map]
  exact List.flatMap_congr fun l hl => (h l hl).after_items hq

theorem failedAt_after (hq : q ≠ p) :
    failedAt place (some q) ((ls.map (Line.after place p)).map Line.outlook) = failedAt place (some q)
    (ls.map Line.outlook) := by
  simp only [failedAt, List.filterMap_map]
  refine List.filterMap_congr fun l hl => ?_
  simp only [Function.comp_apply, Line.outlook_tag, Line.after_tag]
  exact (h l hl).after_failed hq

theorem mem_places_after :
    q ∈ places place ((ls.map (Line.after place p)).map Line.outlook) ↔ q ∈ places place (ls.map Line.outlook) ∧
    q ≠ p := by
  simp only [mem_places, List.map_map, List.mem_map, exists_exists_and_eq_and, Function.comp_apply]
  constructor
  · rintro ⟨l, hl, a, ha, rfl⟩
    obtain ⟨hmem, hne⟩ := ((h l hl).mem_after a).mp ha
    exact ⟨⟨l, hl, a, hmem, rfl⟩, hne⟩
  · rintro ⟨⟨l, hl, a, ha, rfl⟩, hne⟩
    exact ⟨l, hl, a, ((h l hl).mem_after a).mpr ⟨ha, hne⟩, rfl⟩

theorem sort_places (hsome : ∃ l ∈ ls, l.at place p = true) :
    (places place (ls.map Line.outlook)).sort (· ≤ ·) =
      p :: (places place ((ls.map (Line.after place p)).map Line.outlook)).sort (· ≤ ·) := by
  have hmem : p ∈ places place (ls.map Line.outlook) := by
    obtain ⟨l, hl, hat⟩ := hsome
    obtain ⟨a, ha, hp, -⟩ := (h l hl).used hat
    refine mem_places.mpr ⟨_, List.mem_map_of_mem hl, a, ?_, hp⟩
    rw [Line.outlook, ha]
    exact List.mem_cons_self
  have hle : ∀ q ∈ places place ((ls.map (Line.after place p)).map Line.outlook), p ≤ q := by
    intro q hq
    obtain ⟨o, ho, a, ha, rfl⟩ := mem_places.mp ((mem_places_after h).mp hq).1
    obtain ⟨l, hl, rfl⟩ := List.mem_map.mp ho
    cases hat : l.at place p with
    | false => exact ((h l hl).unused hat a ha).le
    | true =>
      obtain ⟨b, hb, hp, hrest⟩ := (h l hl).used hat
      rw [Line.outlook, hb] at ha
      rcases List.mem_cons.mp ha with rfl | ha
      · exact hp.ge
      · exact (hrest a ha).le
  rw [← Finset.sort_insert (· ≤ ·) hle fun hp => ((mem_places_after h).mp hp).2 rfl]
  congr 1
  ext q
  rw [Finset.mem_insert, mem_places_after h]
  by_cases hq : q = p
  · simp [hq, hmem]
  · simp [hq]

theorem after_length (hsome : ∃ l ∈ ls, l.at place p = true) :
    ((ls.map (Line.after place p)).map fun l => l.outlook.items.length).sum < (ls.map fun l =>
    l.outlook.items.length).sum := by
  have hlen : ∀ l ∈ ls, l.at place p = true → (l.after place p).outlook.items.length + 1 = l.outlook.items.length := by
    intro l hl hat
    obtain ⟨a, ha, -⟩ := (h l hl).used hat
    rw [Line.after, if_pos hat, l.advance_outlook, Line.outlook, ha, List.length_cons]
  rw [List.map_map]
  refine List.sum_lt_sum _ _ (fun l hl => ?_) ?_
  · by_cases hat : l.at place p = true
    · exact (hlen l hl hat).le.trans' (Nat.le_succ _)
    · rw [Function.comp_apply, Line.after, if_neg hat]
  · obtain ⟨l, hl, hat⟩ := hsome
    exact ⟨l, hl, (Nat.lt_succ_self _).trans_eq (hlen l hl hat)⟩

end Group

/-- Group after group is place after place. -/
theorem rounds_eq {n : ℕ} (hsorted : ∀ l ∈ ls, l.outlook.items.Pairwise fun a b => place a < place b)
    (hgo : ∀ l ∈ ls, ∀ e, l.outlook.failure = some e → ∀ b, onFail b l.tag e = .ok (fail b l.tag e))
    (hn : (ls.map fun l => l.outlook.items.length).sum < n) (b : β) :
    rounds onFail place onGroup n ls b = .ok (foldPlaces place onGroup fail (ls.map Line.outlook) b) := by
  induction n generalizing ls b with
  | zero => exact absurd hn (Nat.not_lt_zero _)
  | succ n ih =>
    unfold rounds
    cases hsmall : smallest place ls with
    | none =>
      have hnone : places place (ls.map Line.outlook) = ∅ := by
        refine Finset.eq_empty_of_forall_notMem fun q hq => ?_
        obtain ⟨o, ho, a, ha, -⟩ := mem_places.mp hq
        obtain ⟨l, hl, rfl⟩ := List.mem_map.mp ho
        rw [smallest, List.min?_eq_none_iff, List.filterMap_eq_nil_iff] at hsmall
        rw [Line.outlook, Option.map_eq_none_iff.mp (hsmall l hl)] at ha
        cases ha
      rw [foldPlaces, hnone, Finset.sort_empty]
      rfl
    | some p =>
      have hfrom : ∀ l ∈ ls, l.From place p := fun l hl => ⟨hsorted l hl, fun a ha => smallest_le hsmall hl ha⟩
      have hsome := smallest_mem hsmall
      have hadvance : ∀ b, advanceAll onFail (Line.at place p) ls b = .ok (ls.map (Line.after place p),
          failAll fail b (failedAt place (some p) (ls.map Line.outlook))) := by
        intro b
        rw [← failed_eq hfrom]
        refine advanceAll_eq (fun l hl hat e he => hgo l hl e ?_) b
        obtain ⟨a, ha, -⟩ := (hfrom l hl).used hat
        rw [l.advance_failed] at he
        split_ifs at he
        rw [Line.outlook, ha]
        exact he
      have hafter : ∀ l ∈ ls.map (Line.after place p), (l.outlook.items.Pairwise fun a b => place a < place b) ∧
          ∀ e, l.outlook.failure = some e → ∀ b, onFail b l.tag e = .ok (fail b l.tag e) := by
        intro l' hl'
        obtain ⟨l, hl, rfl⟩ := List.mem_map.mp hl'
        refine ⟨(hfrom l hl).after_from, fun e he => ?_⟩
        rw [l.after_tag]
        refine hgo l hl e ?_
        unfold Line.after at he
        split_ifs at he with hat
        · obtain ⟨a, ha, -⟩ := (hfrom l hl).used hat
          rw [l.advance_outlook] at he
          dsimp only at he
          split_ifs at he
          rw [Line.outlook, ha]
          exact he
        · exact he
      dsimp only
      rw [hadvance]
      dsimp only
      rw [ih (fun l hl => (hafter l hl).1) (fun l hl => (hafter l hl).2)
        (Nat.lt_of_lt_of_le (after_length hfrom hsome) (Nat.le_of_lt_succ hn)),
        foldPlaces, foldPlaces, sort_places hfrom hsome, List.foldl_cons, group_eq hfrom]
      -- Behind the first place, what is left has the groups and failures that all had.
      refine congrArg _ (List.foldl_ext _ _ _ fun b' q hq => ?_)
      have hne : q ≠ p := ((mem_places_after hfrom).mp ((Finset.mem_sort _).mp hq)).2
      rw [groupAt_after hfrom hne, failedAt_after hfrom hne]

variable {sources : List (τ × List (Except ε α))}

theorem Line.fresh_outlook (s : τ × List (Except ε α)) : (Line.advance ⟨s.1, none, s.2⟩).1.outlook =
    ⟨s.1, delivered s.2, if delivered s.2 = [] then none else failure s.2⟩ := Line.advance_outlook _

theorem advanceAll_fresh (place : α → κ) (hfirst : ∀ s ∈ sources, ∀ e, failure s.2 = some e →
    ∀ b, onFirst b s.1 e = .ok (fail b s.1 e)) (b : β) : advanceAll onFirst (fun _ => true)
    (sources.map fun s => (⟨s.1, none, s.2⟩ : Line τ ε α)) b =
      .ok (sources.map fun s => (Line.advance ⟨s.1, none, s.2⟩).1,
      failAll fail b (failedAt place none (sources.map outlookOf))) := by
  have hfailed : (sources.filterMap fun s => (Line.advance ⟨s.1, none, s.2⟩).2.map fun e => (s.1, e)) =
      failedAt place none (sources.map outlookOf) := by
    rw [failedAt, List.filterMap_map]
    refine List.filterMap_congr fun s _ => ?_
    simp only [Function.comp_apply, Line.advance_failed, outlookOf, Option.map_eq_none_iff, List.getLast?_eq_none_iff]
    by_cases hd : delivered s.2 = [] <;> simp [hd]
  rw [@advanceAll_eq _ _ _ _ fail, ← hfailed, List.map_map, List.filterMap_map]
  · rfl
  · intro l hl _ e he
    obtain ⟨s, hs, rfl⟩ := List.mem_map.mp hl
    rw [Line.advance_failed] at he
    split_ifs at he
    exact hfirst s hs e he

theorem rounds_fresh {n : ℕ} (hsorted : ∀ s ∈ sources, (delivered s.2).Pairwise fun a b => place a < place b)
    (hgo : ∀ s ∈ sources, ∀ e, failure s.2 = some e → ∀ b, onFail b s.1 e = .ok (fail b s.1 e))
    (hn : (sources.map fun s => (delivered s.2).length).sum < n) (b : β) :
    rounds onFail place onGroup n (sources.map fun s => (Line.advance ⟨s.1, none, s.2⟩).1) b =
      .ok (foldPlaces place onGroup fail (sources.map outlookOf) b) := by
  rw [@rounds_eq _ _ _ _ _ _ place onGroup fail onFail]
  · -- A source that delivers nothing has failed already; of the others, nothing has changed.
    have hsame : ∀ p : κ, failedAt place (some p) ((sources.map fun s =>
      (Line.advance ⟨s.1, none, s.2⟩).1).map Line.outlook) =
        failedAt place (some p) (sources.map outlookOf) := by
      intro p
      simp only [failedAt, List.map_map, List.filterMap_map]
      refine List.filterMap_congr fun s _ => ?_
      simp only [Function.comp_apply, Line.fresh_outlook, outlookOf]
      by_cases hd : delivered s.2 = [] <;> simp [hd]
    have hplaces : places place ((sources.map fun s => (Line.advance ⟨s.1, none, s.2⟩).1).map Line.outlook) =
        places place (sources.map outlookOf) := by
      simp only [places, List.map_map, List.flatMap_map, Function.comp_apply, Line.fresh_outlook, outlookOf]
    have hgroups : ∀ p : κ, groupAt place p ((sources.map fun s =>
      (Line.advance ⟨s.1, none, s.2⟩).1).map Line.outlook) =
        groupAt place p (sources.map outlookOf) := by
      intro p
      simp only [groupAt, List.map_map, List.flatMap_map, Function.comp_apply, Line.fresh_outlook, outlookOf]
    simp only [foldPlaces, hsame, hplaces, hgroups]
  · intro l hl
    obtain ⟨s, hs, rfl⟩ := List.mem_map.mp hl
    rw [Line.fresh_outlook]
    exact hsorted s hs
  · intro l hl e he
    obtain ⟨s, hs, rfl⟩ := List.mem_map.mp hl
    rw [← Line.outlook_tag, Line.fresh_outlook]
    rw [Line.fresh_outlook] at he
    dsimp only at he
    split_ifs at he
    exact hgo s hs e he
  · simpa only [List.map_map, Function.comp_def, Line.fresh_outlook] using hn

variable {e : ε} {t : τ}

theorem mem_failedAt {q : Option κ} : (t, e) ∈ failedAt place q os ↔
    ∃ o ∈ os, o.tag = t ∧ o.failure = some e ∧ o.items.getLast?.map place = q := by
  simp only [failedAt, List.mem_filterMap]
  refine exists_congr fun o => and_congr_right fun _ => ?_
  split_ifs with hq
  · simp [hq, and_comm]
  · simp [hq]

end Merge

end Merging
