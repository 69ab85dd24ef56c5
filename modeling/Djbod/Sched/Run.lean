import Djbod.Sched.Prog
import Mathlib.Logic.Function.Basic
import Mathlib.Order.Basic

/-!
# Runs of interleaved programs

Any number of programs run over one shared state, one operation at a time.

* `Sys` says how an operation may be executed and what the environment may do on its own;
* `Run` is a finite run: the configuration at every moment and the label of every step;
* `Run.tr` projects a run on one of its programs, `Run.exec_of_mem` gives each event its execution;
* `Run.exists_change` finds the step at which a property of the state became true;
* `Config.play` executes a schedule, `Config.play_run` makes a run of it.
-/

namespace Sched

/-- How operations execute over a shared state, and how the state moves by itself. -/
structure Sys (Op : Type) (Resp : Op → Type) (σ : Type) where
  Exec : (o : Op) → σ → Resp o → σ → Prop
  Env : σ → σ → Prop

inductive Label (ι Op : Type) (Resp : Op → Type) where
  | act (i : ι) (o : Op) (r : Resp o)
  | join (i : ι)
  | env

/-- A shared state and what is left of every program. -/
structure Config (Op : Type) (Resp : Op → Type) (σ : Type) {ι : Type} (α : ι → Type) where
  store : σ
  pc : ∀ i, Prog Op Resp (α i)

variable {Op : Type} {Resp : Op → Type} {σ ι : Type} {α : ι → Type} [DecidableEq ι]

/-- One step of a pool at moment `n`. -/
inductive Config.Step (S : Sys Op Resp σ) (n : ℕ) :
    Config Op Resp σ α → Label ι Op Resp → Config Op Resp σ α → Prop where
  | act (c : Config Op Resp σ α) (i : ι) {o : Op} {r : Resp o} {q : Prog Op Resp (α i)} {s : σ}
      (hp : Prog.Step (c.pc i) ⟨n, o, r⟩ q) (hx : S.Exec o c.store r s) :
      Config.Step S n c (.act i o r) ⟨s, Function.update c.pc i q⟩
  | join (c : Config Op Resp σ α) (i : ι) {q : Prog Op Resp (α i)} (hj : Prog.Join (c.pc i) q) :
      Config.Step S n c (.join i) ⟨c.store, Function.update c.pc i q⟩
  | env (c : Config Op Resp σ α) {s : σ} (he : S.Env c.store s) : Config.Step S n c .env ⟨s, c.pc⟩

/-- A run of `len` steps from a configuration. -/
structure Run (S : Sys Op Resp σ) (c₀ : Config Op Resp σ α) where
  len : ℕ
  cfg : ℕ → Config Op Resp σ α
  label : ℕ → Label ι Op Resp
  start : cfg 0 = c₀
  step : ∀ n < len, (cfg n).Step S n (label n) (cfg (n + 1))

/-- The event of program `i` in a step at moment `n`, if the step is one of its operations. -/
def Label.eventOf (i : ι) (n : ℕ) : Label ι Op Resp → List (Ev Op Resp)
  | .act j o r => if j = i then [⟨n, o, r⟩] else []
  | .join _ => []
  | .env => []

theorem Label.eventOf_act (i j : ι) (n : ℕ) (o : Op) (r : Resp o) :
    (Label.act j o r).eventOf i n = if j = i then [⟨n, o, r⟩] else [] := rfl

variable {e : Ev Op Resp} {i : ι} {l : Label ι Op Resp} {n : ℕ}

theorem Label.mem_eventOf : e ∈ l.eventOf i n ↔ e.time = n ∧ l = .act i e.op e.resp := by
  cases l with
  | act j o r =>
    rw [eventOf_act]
    split_ifs with h
    · subst h
      rw [List.mem_singleton]
      constructor
      · rintro rfl
        exact ⟨rfl, rfl⟩
      · rintro ⟨rfl, h⟩
        cases h
        rfl
    · simp only [List.not_mem_nil, Label.act.injEq, false_iff, not_and]
      exact fun _ hj => absurd hj h
  | join j => simp [Label.eventOf]
  | env => simp [Label.eventOf]

variable {o : Op} {ok : σ → ι → Op → Bool}

namespace Run

variable {S : Sys Op Resp σ} {c₀ : Config Op Resp σ α} (R : Run S c₀)

def store (n : ℕ) : σ := (R.cfg n).store

def final : σ := R.store R.len

/-- The events of program `i` before moment `n`. -/
def events (i : ι) : ℕ → List (Ev Op Resp)
  | 0 => []
  | n + 1 => events i n ++ (R.label n).eventOf i n

theorem store_zero : R.store 0 = c₀.store := by rw [store, R.start]

theorem mem_events : e ∈ R.events i n ↔ e.time < n ∧ R.label e.time = .act i e.op e.resp := by
  induction n with
  | zero => simp [events]
  | succ n ih =>
    rw [events, List.mem_append, ih, Label.mem_eventOf]
    constructor
    · rintro (⟨ht, hl⟩ | ⟨rfl, hl⟩)
      · exact ⟨by omega, hl⟩
      · exact ⟨by omega, hl⟩
    · rintro ⟨ht, hl⟩
      by_cases h : e.time = n
      · exact .inr ⟨h, h ▸ hl⟩
      · exact .inl ⟨by omega, hl⟩

theorem events_pairwise (i : ι) (n : ℕ) :
    (R.events i n).Pairwise fun e e' => e.time < e'.time := by
  induction n with
  | zero => exact List.Pairwise.nil
  | succ n ih =>
    rw [events, List.pairwise_append]
    refine ⟨ih, ?_, fun e he e' he' => ?_⟩
    · cases R.label n with
      | act j o r =>
        rw [Label.eventOf_act]
        split_ifs
        · exact List.pairwise_singleton _ _
        · exact List.Pairwise.nil
      | join j => exact List.Pairwise.nil
      | env => exact List.Pairwise.nil
    · rw [(Label.mem_eventOf.mp he').1]
      exact ((R.mem_events).mp he).1

variable {r : Resp o}

theorem events_act (hl : R.label n = .act i o r) : R.events i (n + 1) = R.events i n ++ [⟨n, o, r⟩] := by
  show R.events i n ++ (R.label n).eventOf i n = _
  rw [hl, Label.eventOf_act, if_pos rfl]

theorem mem_after {es₁ es₂ : List (Ev Op Resp)} (h : R.events i n = es₁ ++ e :: es₂) {u : ℕ}
    (hlt : e.time < u) (hu : u < n) (hl : R.label u = .act i o r) : (⟨u, o, r⟩ : Ev Op Resp) ∈ es₂ := by
  have hmem : (⟨u, o, r⟩ : Ev Op Resp) ∈ R.events i n := R.mem_events.mpr ⟨hu, hl⟩
  have hpairs := R.events_pairwise i n
  rw [h] at hmem hpairs
  rcases List.mem_append.mp hmem with hbefore | hmem
  · have := (List.pairwise_append.mp hpairs).2.2 _ hbefore e List.mem_cons_self
    exact absurd this (Nat.lt_asymm hlt)
  · rcases List.mem_cons.mp hmem with rfl | hafter
    · exact absurd hlt (Nat.lt_irrefl _)
    · exact hafter

/-- **Projection.** What a program performed in a run is a trace of the program. -/
theorem tr (i : ι) (hn : n ≤ R.len) : Prog.Tr (c₀.pc i) (R.events i n) ((R.cfg n).pc i) := by
  induction n with
  | zero => rw [R.start]; exact .nil _
  | succ n ih =>
    have hstep := R.step n (by omega)
    refine (ih (by omega)).append ?_
    generalize R.label n = l at hstep
    generalize R.cfg n = c at hstep
    generalize R.cfg (n + 1) = c' at hstep
    cases hstep with
    | act j hp hx =>
      rw [Label.eventOf_act]
      split_ifs with h
      · subst h
        simpa only [Function.update_self] using .step hp (.nil _)
      · simpa only [Function.update_of_ne (Ne.symm h)] using .nil _
    | join j hj =>
      by_cases h : j = i
      · subst h
        simpa only [Function.update_self] using .join hj (.nil _)
      · simpa only [Function.update_of_ne (Ne.symm h)] using .nil _
    | env he => exact .nil _

theorem exec_of_label (hn : n < R.len) (hl : R.label n = .act i o r) : S.Exec o (R.store n) r (R.store (n + 1)) := by
  have hstep := R.step n hn
  rw [hl] at hstep
  unfold store
  generalize R.cfg n = c at hstep
  generalize R.cfg (n + 1) = c' at hstep
  cases hstep with
  | act j hp hx => exact hx

theorem exec_of_mem (hn : n ≤ R.len) (he : e ∈ R.events i n) :
    S.Exec e.op (R.store e.time) e.resp (R.store (e.time + 1)) := by
  obtain ⟨ht, hl⟩ := R.mem_events.mp he
  exact R.exec_of_label (by omega) hl

/-- A step leaves the state alone, is an operation of some program, or is the environment's. -/
theorem store_step (hn : n < R.len) :
    R.store (n + 1) = R.store n ∨ (∃ i o r, R.label n = .act i o r ∧ S.Exec o (R.store n) r (R.store (n + 1))) ∨
      R.label n = .env ∧ S.Env (R.store n) (R.store (n + 1)) := by
  have hstep := R.step n hn
  cases hl : R.label n with
  | act i o r => exact .inr (.inl ⟨i, o, r, rfl, R.exec_of_label hn hl⟩)
  | join i =>
    rw [hl] at hstep
    unfold store
    generalize R.cfg n = c at hstep
    generalize R.cfg (n + 1) = c' at hstep
    cases hstep with
    | join j hj => exact .inl rfl
  | env =>
    rw [hl] at hstep
    unfold store
    generalize R.cfg n = c at hstep
    generalize R.cfg (n + 1) = c' at hstep
    cases hstep with
    | env he => exact .inr (.inr ⟨rfl, he⟩)

theorem exists_change {P : σ → Prop} {a b : ℕ} (hab : a ≤ b) (ha : ¬ P (R.store a))
    (hb : P (R.store b)) : ∃ n, a ≤ n ∧ n < b ∧ ¬ P (R.store n) ∧ P (R.store (n + 1)) := by
  induction b, hab using Nat.le_induction with
  | base => exact absurd hb ha
  | succ b hab ih =>
    by_cases h : P (R.store b)
    · obtain ⟨n, h₁, h₂, h₃⟩ := ih h
      exact ⟨n, h₁, by omega, h₃⟩
    · exact ⟨b, hab, by omega, h, hb⟩

def nil (S : Sys Op Resp σ) (c₀ : Config Op Resp σ α) : Run S c₀ where
  len := 0
  cfg _ := c₀
  label _ := .env
  start := rfl
  step _ h := absurd h (Nat.not_lt_zero _)

def snoc (R : Run S c₀) {l : Label ι Op Resp} {c : Config Op Resp σ α}
    (h : (R.cfg R.len).Step S R.len l c) : Run S c₀ where
  len := R.len + 1
  cfg n := if n ≤ R.len then R.cfg n else c
  label n := if n < R.len then R.label n else l
  start := by rw [if_pos (Nat.zero_le _), R.start]
  step n hn := by
    by_cases hlt : n < R.len
    · rw [if_pos hlt.le, if_pos hlt, if_pos (Nat.succ_le_of_lt hlt)]
      exact R.step n hlt
    · obtain rfl : n = R.len := by omega
      rw [if_pos le_rfl, if_neg hlt, if_neg (by omega)]
      exact h

variable {c : Config Op Resp σ α}

@[simp] theorem snoc_last (R : Run S c₀) (h : (R.cfg R.len).Step S R.len l c) : (R.snoc h).cfg (R.snoc h).len = c := by
  simp [snoc]

def Extends (R' R : Run S c₀) : Prop := R.len ≤ R'.len ∧ ∀ n ≤ R.len, R'.cfg n = R.cfg n

theorem Extends.refl (R : Run S c₀) : R.Extends R := ⟨le_rfl, fun _ _ => rfl⟩

variable {R : Run S c₀}

theorem Extends.trans {R' R'' : Run S c₀} (h' : R''.Extends R') (h : R'.Extends R) : R''.Extends R :=
  ⟨h.1.trans h'.1, fun n hn => (h'.2 n (hn.trans h.1)).trans (h.2 n hn)⟩

theorem snoc_extends (R : Run S c₀) (h : (R.cfg R.len).Step S R.len l c) : (R.snoc h).Extends R :=
    ⟨Nat.le_succ _, fun _ hn => if_pos hn⟩

/-- A run of a system is a run of any system that can do more. -/
def mono {S' : Sys Op Resp σ} (R : Run S c₀) (hexec : ∀ o s r s', S.Exec o s r s' → S'.Exec o s r s')
    (henv : ∀ s s', S.Env s s' → S'.Env s s') : Run S' c₀ where
  len := R.len
  cfg := R.cfg
  label := R.label
  start := R.start
  step n hn := by
    have hstep := R.step n hn
    revert hstep
    generalize R.cfg (n + 1) = c', R.label n = l
    rintro (⟨i, hp, hx⟩ | ⟨i, hj⟩ | ⟨he⟩)
    · exact .act _ i hp (hexec _ _ _ _ hx)
    · exact .join _ i hj
    · exact .env _ (henv _ _ he)

/-- Every operation is one that `ok` allows in the state it is performed in. -/
def Meets (R : Run S c₀) (ok : σ → ι → Op → Bool) : Prop :=
  ∀ n < R.len, ∀ i o r, R.label n = .act i o r → ok (R.store n) i o = true

theorem Meets.snoc (hok : R.Meets ok) (h : (R.cfg R.len).Step S R.len l c) (hl : ∀ i o r, l = .act i o r →
    ok R.final i o = true) : (R.snoc h).Meets ok := by
  intro n hn i o r hlabel
  have hle : n ≤ R.len := Nat.le_of_lt_succ hn
  have hstore : (R.snoc h).store n = R.store n := congrArg Config.store (if_pos hle)
  rw [hstore]
  by_cases hlt : n < R.len
  · exact hok n hlt i o r ((if_pos hlt).symm.trans hlabel)
  · obtain rfl : n = R.len := le_antisymm hle (Nat.not_lt.mp hlt)
    exact hl i o r ((if_neg hlt).symm.trans hlabel)

/-- A run goes on by something that happens by itself. -/
theorem exists_env (R : Run S c₀) {s : σ} (h : S.Env R.final s) :
    ∃ R' : Run S c₀, R'.cfg R'.len = ⟨s, (R.cfg R.len).pc⟩ ∧ R'.len = R.len + 1 ∧ R'.Extends R ∧
      ∀ ok, R.Meets ok → R'.Meets ok :=
  ⟨R.snoc (.env _ h), R.snoc_last _, rfl, R.snoc_extends _, fun _ hok => hok.snoc _ fun _ _ _ hl => by cases hl⟩

end Run

/-! ## Executing a schedule -/

def returned {β : Type} : List (Task Op Resp β) → Option (List β)
  | [] => some []
  | .ret b :: ts => (returned ts).map (b :: ·)
  | .op _ _ :: _ => none

theorem returned_eq {β : Type} {ts : List (Task Op Resp β)} {bs : List β}
    (h : returned ts = some bs) : ts = bs.map .ret := by
  induction ts generalizing bs with
  | nil => cases h; rfl
  | cons t ts ih =>
    cases t with
    | op o k => cases h
    | ret b =>
      obtain ⟨bs', hbs, rfl⟩ := Option.map_eq_some_iff.mp h
      rw [ih hbs, List.map_cons]

namespace Prog

variable {A : Type}

/-- Take every silent step that is possible. -/
def settle : Prog Op Resp A → Prog Op Resp A
  | .ret a => .ret a
  | .op o k => .op o k
  | .fork ts k =>
    match returned ts with
    | some bs => (k bs).settle
    | none => .fork ts k

/-- The next operation of a program; in a fork, of its task number `j`. -/
def pick (j : ℕ) : Prog Op Resp A → Option ((o : Op) × (Resp o → Prog Op Resp A))
  | .ret _ => none
  | .op o k => some ⟨o, k⟩
  | .fork ts k =>
    match ts[j]? with
    | some (.op o c) => some ⟨o, fun r => .fork (ts.set j (c r)) k⟩
    | _ => none

def ready : Prog Op Resp A → ℕ
  | .fork ts _ => ts.findIdx fun t => match t with
      | .op _ _ => true
      | .ret _ => false
  | _ => 0

def result : Prog Op Resp A → Option A
  | .ret a => some a
  | .op _ _ => none
  | .fork _ _ => none

variable {p : Prog Op Resp A}

theorem result_eq {a : A} (h : p.result = some a) : p = .ret a := by
  cases p with
  | ret b => cases h; rfl
  | op o k => cases h
  | fork ts k => cases h

theorem result_ok {ε β : Type} {p : Prog Op Resp (Except ε β)} (h : p.result.map Except.isOk = some true) :
    ∃ b, p = .ret (.ok b) := by
  obtain ⟨res, hres, hok⟩ := Option.map_eq_some_iff.mp h
  cases res with
  | error e => cases hok
  | ok b => exact ⟨b, result_eq hres⟩

theorem pick_step {j : ℕ} {k : Resp o → Prog Op Resp A} (h : p.pick j = some ⟨o, k⟩) (r : Resp o) :
    p.Step ⟨n, o, r⟩ (k r) := by
  cases p with
  | ret a => cases h
  | op o' k' => cases h; exact .op ⟨n, o, r⟩ k
  | fork ts k' =>
    simp only [pick] at h
    split at h
    · next o' c hc =>
        cases h
        exact .fork j ⟨n, o, r⟩ c k' hc
    · cases h

end Prog

namespace Config

/-- Let program `i` perform its next operation if it is allowed, in a fork that of task `j`, and settle. -/
def playOne (exec : (o : Op) → σ → Resp o × σ) (ok : σ → ι → Op → Bool) (c : Config Op Resp σ α) (i : ι) (j : ℕ) :
    Option (Config Op Resp σ α) :=
  match (c.pc i).pick j with
  | none => none
  | some ⟨o, k⟩ =>
    if ok c.store i o then some ⟨(exec o c.store).2, Function.update c.pc i (k (exec o c.store).1).settle⟩ else none

/-- Execute a schedule: which program performs its next operation, in a fork which task's. -/
def play (exec : (o : Op) → σ → Resp o × σ) (ok : σ → ι → Op → Bool) (c : Config Op Resp σ α) :
    List (ι × ℕ) → Option (Config Op Resp σ α)
  | [] => some c
  | (i, j) :: rest => (c.playOne exec ok i j).bind fun c' => c'.play exec ok rest

/-- The schedule in which program `i` alone performs up to `n` operations, the tasks of a fork in order, and where it
leads. -/
def solo (exec : (o : Op) → σ → Resp o × σ) (i : ι) : ℕ → Config Op Resp σ α → List (ι × ℕ) × Config Op Resp σ α
  | 0, c => ([], c)
  | n + 1, c =>
    match c.playOne exec (fun _ _ _ => true) i (c.pc i).ready with
    | none => ([], c)
    | some c' => ((i, (c.pc i).ready) :: (c'.solo exec i n).1, (c'.solo exec i n).2)

/-- The schedule in which the programs take turns, each for up to so many operations. -/
def turns (exec : (o : Op) → σ → Resp o × σ) : List (ι × ℕ) → Config Op Resp σ α → List (ι × ℕ)
  | [], _ => []
  | (i, n) :: rest, c => (c.solo exec i n).1 ++ (c.solo exec i n).2.turns exec rest

variable {S : Sys Op Resp σ} {c₀ : Config Op Resp σ α}

theorem settle_run (R : Run S c₀) (hok : R.Meets ok) {s : σ} {pc : ∀ i, Prog Op Resp (α i)} {p : Prog Op Resp (α i)}
    (h : R.cfg R.len = ⟨s, Function.update pc i p⟩) :
    ∃ R' : Run S c₀, R'.cfg R'.len = ⟨s, Function.update pc i p.settle⟩ ∧ R'.Meets ok ∧ R'.Extends R := by
  induction p generalizing R with
  | ret a => exact ⟨R, h, hok, .refl R⟩
  | op o k => exact ⟨R, h, hok, .refl R⟩
  | fork ts k ih =>
    unfold Prog.settle
    split
    · next bs hbs =>
        have hj : Prog.Join ((R.cfg R.len).pc i) (k bs) := by
          rw [h, returned_eq hbs]
          simpa only [Function.update_self] using .mk bs k
        obtain ⟨R', hR', hok', hext⟩ := ih bs (R.snoc (.join _ i hj)) (hok.snoc _ fun _ _ _ hl => by cases hl)
          (by rw [Run.snoc_last, h, Function.update_idem])
        exact ⟨R', hR', hok', hext.trans (R.snoc_extends _)⟩
    · exact ⟨R, h, hok, .refl R⟩

variable {c' : Config Op Resp σ α} {sched : List (ι × ℕ)}

/-- **Soundness of schedules.** What a schedule reaches is reached by a run, of allowed operations. -/
theorem play_run (exec : (o : Op) → σ → Resp o × σ) (hexec : ∀ o s, S.Exec o s (exec o s).1 (exec o s).2) (R : Run S c₀)
    (hok : R.Meets ok) (h : (R.cfg R.len).play exec ok sched = some c') :
    ∃ R' : Run S c₀, R'.cfg R'.len = c' ∧ R'.Meets ok ∧ R'.Extends R := by
  induction sched generalizing R with
  | nil => exact ⟨R, Option.some.inj h, hok, .refl R⟩
  | cons choice rest ih =>
    obtain ⟨i, j⟩ := choice
    obtain ⟨c₁, hone, hrest⟩ := Option.bind_eq_some_iff.mp h
    unfold playOne at hone
    split at hone
    · cases hone
    · next o k hpick =>
        split_ifs at hone with hallow
        cases hone
        have hstep := Step.act (R.cfg R.len) i (Prog.pick_step (n := R.len) hpick _) (hexec o _)
        obtain ⟨R₁, hR₁, hok₁, hext₁⟩ := settle_run (R.snoc hstep)
          (hok.snoc hstep fun _ _ _ hl => by cases hl; exact hallow) (R.snoc_last hstep)
        obtain ⟨R₂, hR₂, hok₂, hext₂⟩ := ih R₁ hok₁ (by rw [hR₁]; exact hrest)
        exact ⟨R₂, hR₂, hok₂, hext₂.trans (hext₁.trans (R.snoc_extends hstep))⟩

theorem play_start (exec : (o : Op) → σ → Resp o × σ) (hexec : ∀ o s, S.Exec o s (exec o s).1 (exec o s).2)
    (h : c₀.play exec ok sched = some c') : ∃ R : Run S c₀, R.cfg R.len = c' ∧ R.Meets ok := by
  obtain ⟨R, hR, hok, _⟩ := play_run exec hexec (Run.nil S c₀) (fun _ hn => absurd hn (Nat.not_lt_zero _)) h
  exact ⟨R, hR, hok⟩

end Config

end Sched
