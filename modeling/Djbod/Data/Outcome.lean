import Djbod.Data.Pieces

/-!
# Computations that may stop the program

64-bit arithmetic as a checked build computes it: where a result does not fit, the program stops.

* `Outcome ε α` : a result, an error of type `ε` that is returned, or a stop;
* `Outcome.Calm` : the computation does not stop, `Calm.bind`;
* `add`, `sub`, `mul`, `divCeil` : arithmetic on numbers below `2 ^ 64`; `nth` : an element of a list by its index.
-/

namespace Checked

inductive Panic where
  | overflow
  | divisionByZero
  | outOfBounds
  deriving DecidableEq, Repr

inductive Outcome (ε α : Type) where
  | ok (value : α)
  | error (e : ε)
  | panic (p : Panic)
  deriving DecidableEq, Repr

namespace Outcome

variable {ε α β : Type}

protected def bind (x : Outcome ε α) (f : α → Outcome ε β) : Outcome ε β :=
  match x with
  | .ok a => f a
  | .error e => .error e
  | .panic p => .panic p

instance : Monad (Outcome ε) where
  pure := .ok
  bind := Outcome.bind

def ofExcept : Except ε α → Outcome ε α
  | .ok a => .ok a
  | .error e => .error e

@[simp] theorem pure_eq (a : α) : (pure a : Outcome ε α) = .ok a := rfl

@[simp] theorem ok_bind (a : α) (f : α → Outcome ε β) : (Outcome.ok a >>= f) = f a := rfl

@[simp] theorem error_bind (e : ε) (f : α → Outcome ε β) : (Outcome.error e >>= f) = .error e := rfl

@[simp] theorem panic_bind (p : Panic) (f : α → Outcome ε β) : (Outcome.panic p >>= f) = .panic p := rfl

theorem bind_eq_ok {x : Outcome ε α} {f : α → Outcome ε β} {b : β} : (x >>= f) = .ok b ↔ ∃ a, x = .ok a ∧
    f a = .ok b := by
  cases x <;> simp

theorem ofExcept_eq_ok {x : Except ε α} {a : α} : ofExcept x = .ok a ↔ x = .ok a := by
  cases x <;> simp [ofExcept]

/-- The computation does not stop the program. -/
def Calm (x : Outcome ε α) : Prop := ∀ p, x ≠ .panic p

theorem Calm.ok (a : α) : Calm (.ok a : Outcome ε α) := fun _ h => by cases h

theorem Calm.error (e : ε) : Calm (.error e : Outcome ε α) := fun _ h => by cases h

theorem Calm.ofExcept (x : Except ε α) : Calm (Outcome.ofExcept x) := by
  cases x
  · exact Calm.error _
  · exact Calm.ok _

theorem Calm.bind {x : Outcome ε α} {f : α → Outcome ε β} (hx : Calm x) (hf : ∀ a, x = .ok a → Calm (f a)) :
    Calm (x >>= f) := by
  cases x with
  | ok a => exact hf a rfl
  | error e => exact Calm.error e
  | panic p => exact absurd rfl (hx p)

end Outcome

section Arithmetic

variable {ε α : Type} {a b : ℕ}

def limit : ℕ := 2 ^ 64

def add (a b : ℕ) : Outcome ε ℕ := if a + b < limit then .ok (a + b) else .panic .overflow

def sub (a b : ℕ) : Outcome ε ℕ := if b ≤ a then .ok (a - b) else .panic .overflow

def mul (a b : ℕ) : Outcome ε ℕ := if a * b < limit then .ok (a * b) else .panic .overflow

def divCeil (a b : ℕ) : Outcome ε ℕ := if b = 0 then .panic .divisionByZero else .ok (Pieces.divCeil a b)

def nth (l : List α) (i : ℕ) : Outcome ε α :=
  match l[i]? with
  | some a => .ok a
  | none => .panic .outOfBounds

theorem add_ok (h : a + b < limit) : (add a b : Outcome ε ℕ) = .ok (a + b) := if_pos h

theorem sub_ok (h : b ≤ a) : (sub a b : Outcome ε ℕ) = .ok (a - b) := if_pos h

theorem mul_ok (h : a * b < limit) : (mul a b : Outcome ε ℕ) = .ok (a * b) := if_pos h

theorem divCeil_ok (h : 0 < b) : (divCeil a b : Outcome ε ℕ) = .ok (Pieces.divCeil a b) := if_neg h.ne'

theorem nth_ok {l : List α} {i : ℕ} {x : α} (h : l[i]? = some x) : (nth l i : Outcome ε α) = .ok x := by
  rw [nth, h]

theorem add_overflow (h : limit ≤ a + b) : (add a b : Outcome ε ℕ) = .panic .overflow := if_neg (by omega)

theorem mul_overflow (h : limit ≤ a * b) : (mul a b : Outcome ε ℕ) = .panic .overflow := if_neg (by omega)

theorem add_bind_overflow {f : ℕ → Outcome ε α} (h : a + b < limit → f (a + b) = .panic .overflow) :
    (add a b >>= f) = .panic .overflow := by
  unfold add
  split_ifs with hfit
  · exact h hfit
  · rfl

theorem mul_bind_overflow {f : ℕ → Outcome ε α} (h : a * b < limit → f (a * b) = .panic .overflow) :
    (mul a b >>= f) = .panic .overflow := by
  unfold mul
  split_ifs with hfit
  · exact h hfit
  · rfl

end Arithmetic

end Checked
