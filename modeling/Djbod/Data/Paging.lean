import Mathlib.Data.Finset.Card
import Mathlib.Order.Basic

/-!
# Following pages through changing contents

A walk asks for page after page, each time for what lies behind the last item it was given; what is there may have
changed from one page to the next.

* `follow` : the pages to the end, each of the contents at the time it is asked for;
* `Serves` : the pages are cut from the front of what lies behind the cursor;
* `Serves.follow_sorted`, `Serves.follow_sound` : what a walk returns is in order and was there;
* `Serves.follow_complete` : what was there all the time is returned;
* `Serves.follow_ends` : with finitely many keys, the walk comes to its end.
-/

namespace Paging

variable {σ ε α κ : Type}

/-- Follow the pages to the end, or to the first that is refused; none if there is a page still to ask for. -/
def follow (page : σ → Option κ → Except ε (List α × Bool)) (key : α → κ) : List σ → Option κ →
    Option (Except ε (List α))
  | [], _ => none
  | s :: ss, after =>
    match page s after with
    | .error e => some (.error e)
    | .ok (items, more) =>
      if !more || items.isEmpty then some (.ok items)
      else (follow page key ss (items.getLast?.map key)).map fun rest => rest.map fun later => items ++ later

variable {after : Option κ} {items : List α} {ss : List σ}

theorem follow_cons {page : σ → Option κ → Except ε (List α × Bool)} {key : α → κ} {s : σ}
    (hfollow : follow page key (s :: ss) after = some (.ok items)) :
    ∃ front more, page s after = .ok (front, more) ∧
      ((!more || front.isEmpty) = true ∧ items = front ∨
        ∃ last later, front.getLast? = some last ∧ follow page key ss (some (key last)) = some (.ok later) ∧
        items = front ++ later) := by
  unfold follow at hfollow
  split at hfollow
  · cases hfollow
  · next front more hpage =>
    refine ⟨front, more, hpage, ?_⟩
    split_ifs at hfollow with hstop
    · cases hfollow
      exact Or.inl ⟨hstop, rfl⟩
    · obtain ⟨answer, hanswer, heq⟩ := Option.map_eq_some_iff.mp hfollow
      cases answer with
      | error e => cases heq
      | ok later =>
        cases heq
        cases hlast : front.getLast? with
        | none =>
          rw [List.getLast?_eq_none_iff.mp hlast, List.isEmpty_nil, Bool.or_true] at hstop
          exact absurd rfl hstop
        | some last =>
          rw [hlast] at hanswer
          exact Or.inr ⟨last, later, rfl, hanswer, rfl⟩

variable [LinearOrder κ] (key : α → κ)

def behind (after : Option κ) (l : List α) : List α := l.filter fun a => after.all fun c => decide (c < key a)

theorem behind_none (l : List α) : behind key none l = l := List.filter_eq_self.mpr fun _ _ => rfl

/-- Every page is the front of what lies behind the cursor, says whether anything is left, and is empty only of
nothing. -/
structure Serves (contents : σ → List α) (page : σ → Option κ → Except ε (List α × Bool)) : Prop where
  sorted : ∀ s, (contents s).Pairwise fun a b => key a < key b
  split : ∀ {s after items more}, page s after = .ok (items, more) →
    ∃ rest, behind key after (contents s) = items ++ rest ∧ (more = true ↔ rest ≠ []) ∧
    (behind key after (contents s) ≠ [] → items ≠ [])

variable {key} {contents : σ → List α} {page : σ → Option κ → Except ε (List α × Bool)}

variable {a : α}

theorem mem_behind {l : List α} : a ∈ behind key after l ↔ a ∈ l ∧ ∀ c, after = some c → c < key a := by
  rw [behind, List.mem_filter]
  cases after <;> simp

variable {last : α}

theorem le_getLast (h : items.Pairwise fun a b => key a < key b) (hlast : items.getLast? = some last) (ha : a ∈ items) :
    key a ≤ key last := by
  obtain ⟨front, rfl⟩ := List.getLast?_eq_some_iff.mp hlast
  rcases List.mem_append.mp ha with hfront | hback
  · exact ((List.pairwise_append.mp h).2.2 a hfront last List.mem_cons_self).le
  · rw [List.mem_singleton.mp hback]

namespace Serves

section Page

variable (h : Serves key contents page) {s : σ} {after : Option κ} {items : List α} {more : Bool}
  (hpage : page s after = .ok (items, more))

include h hpage

theorem page_mem (ha : a ∈ items) : a ∈ contents s ∧ ∀ c, after = some c → c < key a := by
  obtain ⟨rest, hsplit, -⟩ := h.split hpage
  exact mem_behind.mp (hsplit ▸ List.mem_append_left _ ha)

theorem page_sorted : items.Pairwise fun a b => key a < key b := by
  obtain ⟨rest, hsplit, -⟩ := h.split hpage
  have hsorted : (behind key after (contents s)).Pairwise fun a b => key a < key b := (h.sorted s).filter _
  rw [hsplit] at hsorted
  exact (List.pairwise_append.mp hsorted).1

theorem page_ne_nil (hmore : more = true) : items ≠ [] := by
  obtain ⟨rest, hsplit, hiff, hne⟩ := h.split hpage
  refine hne fun hnil => hiff.mp hmore ?_
  rw [hnil] at hsplit
  exact (List.append_eq_nil_iff.mp hsplit.symm).2

theorem page_rest (hlast : items.getLast? = some last) (ha : a ∈ contents s) (hafter : ∀ c, after = some c → c < key a)
    (hno : a ∉ items) : key last < key a := by
  obtain ⟨rest, hsplit, -⟩ := h.split hpage
  have hsorted : (behind key after (contents s)).Pairwise fun a b => key a < key b := (h.sorted s).filter _
  have hmem : a ∈ behind key after (contents s) := mem_behind.mpr ⟨ha, hafter⟩
  rw [hsplit] at hsorted hmem
  exact (List.pairwise_append.mp hsorted).2.2 last (List.mem_of_getLast? hlast)
    a ((List.mem_append.mp hmem).resolve_left hno)

theorem page_last (hstop : (!more || items.isEmpty) = true) (ha : a ∈ contents s)
    (hafter : ∀ c, after = some c → c < key a) : a ∈ items := by
  obtain ⟨rest, hsplit, hiff, hne⟩ := h.split hpage
  have hmem : a ∈ behind key after (contents s) := mem_behind.mpr ⟨ha, hafter⟩
  cases more with
  | false =>
    have hrest : rest = [] := by
      by_contra hsome
      cases hiff.mpr hsome
    rw [hsplit, hrest, List.append_nil] at hmem
    exact hmem
  | true => exact absurd (List.isEmpty_iff.mp hstop) (hne (List.ne_nil_of_mem hmem))

end Page

/-- **What a walk returns is in order**, and so holds nothing twice. -/
theorem follow_sorted (h : Serves key contents page) (hfollow : follow page key ss after = some (.ok items)) :
    (items.Pairwise fun a b => key a < key b) ∧ ∀ a ∈ items, ∀ c, after = some c → c < key a := by
  induction ss generalizing after items with
  | nil => cases hfollow
  | cons s ss ih =>
    obtain ⟨front, more, hpage, ⟨-, rfl⟩ | ⟨last, later, hlast, hnext, rfl⟩⟩ := follow_cons hfollow
    · exact ⟨h.page_sorted hpage, fun a ha => (h.page_mem hpage ha).2⟩
    · obtain ⟨hsorted, hbehind⟩ := ih hnext
      refine ⟨List.pairwise_append.mpr ⟨h.page_sorted hpage, hsorted, fun a ha b hb => ?_⟩, fun a ha c hc => ?_⟩
      · exact (le_getLast (h.page_sorted hpage) hlast ha).trans_lt (hbehind b hb _ rfl)
      · rcases List.mem_append.mp ha with hfront | hlater
        · exact (h.page_mem hpage hfront).2 c hc
        · exact ((h.page_mem hpage (List.mem_of_getLast? hlast)).2 c hc).trans (hbehind a hlater _ rfl)

theorem follow_sound (h : Serves key contents page) (hfollow : follow page key ss after = some (.ok items)) :
    ∀ a ∈ items, ∃ s ∈ ss, a ∈ contents s := by
  induction ss generalizing after items with
  | nil => cases hfollow
  | cons s ss ih =>
    obtain ⟨front, more, hpage, hrest⟩ := follow_cons hfollow
    have hfront : ∀ a ∈ front, ∃ s' ∈ s :: ss, a ∈ contents s' := fun a ha =>
      ⟨s, List.mem_cons_self, (h.page_mem hpage ha).1⟩
    rcases hrest with ⟨-, rfl⟩ | ⟨last, later, -, hnext, rfl⟩
    · exact hfront
    · intro a ha
      rcases List.mem_append.mp ha with ha | ha
      · exact hfront a ha
      · obtain ⟨s', hs', ha⟩ := ih hnext a ha
        exact ⟨s', List.mem_cons_of_mem _ hs', ha⟩

/-- **What is there during the whole walk is returned.** -/
theorem follow_complete (h : Serves key contents page) (hfollow : follow page key ss after = some (.ok items)) {k : κ}
    (hk : ∀ c, after = some c → c < k) (hthere : ∀ s ∈ ss, ∃ a ∈ contents s, key a = k) : ∃ a ∈ items, key a = k := by
  induction ss generalizing after items with
  | nil => cases hfollow
  | cons s ss ih =>
    obtain ⟨a, ha, rfl⟩ := hthere s List.mem_cons_self
    obtain ⟨front, more, hpage, ⟨hstop, rfl⟩ | ⟨last, later, hlast, hnext, rfl⟩⟩ := follow_cons hfollow
    · exact ⟨a, h.page_last hpage hstop ha hk, rfl⟩
    · by_cases hin : a ∈ front
      · exact ⟨a, List.mem_append_left _ hin, rfl⟩
      · -- It lies behind the page, and so behind the next cursor.
        obtain ⟨b, hb, hkey⟩ := ih hnext (fun c hc => by cases hc; exact h.page_rest hpage hlast ha hk hin)
            fun s' hs' =>
          hthere s' (List.mem_cons_of_mem _ hs')
        exact ⟨b, List.mem_append_right _ hb, hkey⟩

theorem follow_once [BEq κ] [LawfulBEq κ] (h : Serves key contents page)
    (hfollow : follow page key ss none = some (.ok items)) {k : κ}
    (hthere : ∀ s ∈ ss, ∃ a ∈ contents s, key a = k) : (items.map key).count k = 1 := by
  obtain ⟨a, ha, hkey⟩ := h.follow_complete hfollow (fun _ hc => nomatch hc) hthere
  have hnodup : (items.map key).Nodup := List.pairwise_map.mpr ((h.follow_sorted hfollow).1.imp fun hlt => ne_of_lt hlt)
  exact List.count_eq_one_of_mem hnodup (hkey ▸ List.mem_map_of_mem ha)

variable {keys : Finset κ}

/-- From a cursor on, a walk asks for no more pages than there are keys behind the cursor, and one. -/
theorem follow_ends_from (h : Serves key contents page)
    (hserved : ∀ s ∈ ss, ∀ after, ∃ answer, page s after = .ok answer)
    (hkeys : ∀ s ∈ ss, ∀ a ∈ contents s, key a ∈ keys)
    (hlen : (keys.filter fun k => ∀ c, after = some c → c < k).card < ss.length) :
    ∃ items, follow page key ss after = some (.ok items) := by
  induction ss generalizing after with
  | nil => exact absurd hlen (Nat.not_lt_zero _)
  | cons s ss ih =>
    obtain ⟨⟨front, more⟩, hpage⟩ := hserved s List.mem_cons_self after
    unfold follow
    rw [hpage]
    dsimp only
    split_ifs with hstop
    · exact ⟨front, rfl⟩
    · cases hlast : front.getLast? with
      | none =>
        rw [List.getLast?_eq_none_iff.mp hlast, List.isEmpty_nil, Bool.or_true] at hstop
        exact absurd rfl hstop
      | some last =>
        obtain ⟨hmem, hafter⟩ := h.page_mem hpage (List.mem_of_getLast? hlast)
        have hfewer : (keys.filter fun k => ∀ c, some (key last) = some c → c < k) ⊂ keys.filter fun k =>
            ∀ c, after = some c → c < k := by
          refine (Finset.ssubset_iff_of_subset fun k hk => ?_).mpr ⟨key last, ?_, fun hk => ?_⟩
          · rw [Finset.mem_filter] at hk ⊢
            exact ⟨hk.1, fun c hc => (hafter c hc).trans (hk.2 _ rfl)⟩
          · exact Finset.mem_filter.mpr ⟨hkeys s List.mem_cons_self last hmem, hafter⟩
          · exact lt_irrefl _ ((Finset.mem_filter.mp hk).2 _ rfl)
        obtain ⟨later, hlater⟩ := ih (fun s' hs' => hserved s' (List.mem_cons_of_mem _ hs'))
          (fun s' hs' => hkeys s' (List.mem_cons_of_mem _ hs'))
          ((Finset.card_lt_card hfewer).trans_le (Nat.le_of_lt_succ hlen))
        rw [Option.map_some, hlater]
        exact ⟨front ++ later, rfl⟩

/-- **A walk comes to its end**: it asks for no more pages than there are keys, and one. -/
theorem follow_ends (h : Serves key contents page) (hserved : ∀ s ∈ ss, ∀ after, ∃ answer, page s after = .ok answer)
    (hkeys : ∀ s ∈ ss, ∀ a ∈ contents s, key a ∈ keys) (hlen : keys.card < ss.length) :
    ∃ items, follow page key ss none = some (.ok items) :=
  h.follow_ends_from hserved hkeys ((Finset.card_filter_le _ _).trans_lt hlen)

end Serves

end Paging
