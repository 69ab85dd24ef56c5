import Djbod.Sched.Wp

/-!
# Programs and what they have done so far

What a program may do next can depend on what it was answered before. The state of a program is then the list of its own
events.

* `Logged` : an operation is added to the list, whatever the answer;
* `Obeys` : each operation was allowed by the operations before it;
* `Prog.Wp.log` : an invariant of the list holds of every trace of the program.
-/

namespace Sched

variable {Op : Type} {Resp : Op → Type} {α β : Type}

/-- The operation is performed at some moment, with any answer. -/
def Logged (o : Op) (past : List (Ev Op Resp)) (r : Resp o) (past' : List (Ev Op Resp)) : Prop :=
  ∃ n, past' = past ++ [⟨n, o, r⟩]

/-- Every operation was allowed after those before it. -/
def Obeys (A : List (Ev Op Resp) → Op → Prop) (es : List (Ev Op Resp)) : Prop :=
  ∀ es₁ e es₂, es = es₁ ++ e :: es₂ → A es₁ e.op

section Obeys

variable {A : List (Ev Op Resp) → Op → Prop} {past : List (Ev Op Resp)} {e : Ev Op Resp}

theorem obeys_nil : Obeys A [] := by
  intro es₁ e es₂ h
  cases es₁ <;> cases h

theorem Obeys.snoc (h : Obeys A past) (he : A past e.op) : Obeys A (past ++ [e]) := by
  intro es₁ e' es₂ heq
  rcases List.eq_nil_or_concat es₂ with rfl | ⟨es₃, e₃, rfl⟩
  · obtain ⟨rfl, hlast⟩ := List.append_inj' heq rfl
    cases hlast
    exact he
  · refine h es₁ e' es₃ ?_
    rw [List.concat_eq_append, ← List.cons_append, ← List.append_assoc] at heq
    exact (List.append_inj' heq rfl).1

theorem Obeys.last (h : Obeys A (past ++ [e])) : A past e.op := h past e [] rfl

end Obeys

theorem execAll_logged (past es : List (Ev Op Resp)) : ExecAll Logged past es (past ++ es) := by
  induction es generalizing past with
  | nil => exact List.append_nil past
  | cons e es ih =>
    refine ⟨past ++ [e], ⟨e.time, rfl⟩, ?_⟩
    have := ih (past ++ [e])
    rwa [List.append_assoc, List.singleton_append] at this

theorem Prog.Wp.log {p q : Prog Op Resp α} {I : List (Ev Op Resp) → Prop} {Q : α → List (Ev Op Resp) → Prop}
    (h : p.Wp Logged I Q []) {es : List (Ev Op Resp)} (ht : Tr p es q) : I es :=
  (h.sound ht (execAll_logged [] es)).inv

/-- A task that performs only operations the invariant allows at any time. -/
theorem Task.wp_logged {t : Task Op Resp β} {P : Op → Prop} {I : List (Ev Op Resp) → Prop} (ht : t.Uses P)
    (hstep : ∀ past (e : Ev Op Resp), I past → P e.op → I (past ++ [e])) {past : List (Ev Op Resp)} (hI : I past) :
    t.Wp Logged I (fun _ past' => ∃ es, past' = past ++ es ∧ ∀ e ∈ es, P e.op) past := by
  induction t generalizing past with
  | ret b => exact ⟨hI, [], (List.append_nil past).symm, nofun⟩
  | op o k ih =>
    refine ⟨hI, ?_⟩
    rintro r _ ⟨n, rfl⟩
    refine (ih r (ht.2 r) (hstep past ⟨n, o, r⟩ hI ht.1)).mono (fun _ h => h) ?_
    rintro _ _ _ ⟨es, rfl, hes⟩
    refine ⟨⟨n, o, r⟩ :: es, by rw [List.append_assoc, List.singleton_append], ?_⟩
    exact List.forall_mem_cons.mpr ⟨ht.1, hes⟩

end Sched
