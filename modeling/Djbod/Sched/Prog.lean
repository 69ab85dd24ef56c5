import Mathlib.Data.List.Forall2
import Mathlib.Data.List.Sublists

/-!
# Programs over answered operations

A generic library of sequential tasks and of programs that fork tasks and wait for them.

* `Task` is a sequential program: it returns, or performs an operation and goes on with the answer;
* `Prog` may also fork a list of tasks, whose operations interleave, and go on with all their results;
* `Ev` is one performed operation with its answer and the moment at which it was performed;
* `Task.Tr`, `Prog.Tr` say which operations a program performed and what is left of it;
* `Task.Uses`, `Prog.Uses` bound the operations a program may perform whatever it is answered;
* `Task.eval`, `Prog.eval` run a program alone against a deterministic executor.
-/

namespace Sched

/-- A sequential program over operations `Op`, each answered by a `Resp` of its own. -/
inductive Task (Op : Type) (Resp : Op → Type) (β : Type) : Type where
  | ret (b : β)
  | op (o : Op) (k : Resp o → Task Op Resp β)

/-- A program that may fork tasks; it waits for all of them and receives their results in order. -/
inductive Prog (Op : Type) (Resp : Op → Type) (α : Type) : Type 1 where
  | ret (a : α)
  | op (o : Op) (k : Resp o → Prog Op Resp α)
  | fork {β : Type} (ts : List (Task Op Resp β)) (k : List β → Prog Op Resp α)

/-- A performed operation: when, which, and what it was answered. -/
structure Ev (Op : Type) (Resp : Op → Type) where
  time : ℕ
  op : Op
  resp : Resp op

variable {Op : Type} {Resp : Op → Type} {α β γ ε : Type}

/-! ## Sequencing -/

variable {c : γ} {t : Task Op Resp β}

namespace Task

def bind : Task Op Resp β → (β → Task Op Resp γ) → Task Op Resp γ
  | .ret b, f => f b
  | .op o k, f => .op o fun r => (k r).bind f

instance : Monad (Task Op Resp) where
  pure := .ret
  bind := .bind

def perform (o : Op) : Task Op Resp (Resp o) := .op o .ret

@[simp] theorem pure_eq (b : β) : (pure b : Task Op Resp β) = .ret b := rfl

@[simp] theorem ret_bind (b : β) (f : β → Task Op Resp γ) : (Task.ret b >>= f) = f b := rfl

@[simp] theorem op_bind (o : Op) (k : Resp o → Task Op Resp β) (f : β → Task Op Resp γ) :
    (Task.op o k >>= f) = .op o fun r => k r >>= f := rfl

theorem bind_ret_inv {f : β → Task Op Resp γ} (h : (t >>= f) = .ret c) : ∃ b, t = .ret b ∧ f b = .ret c := by
  cases t with
  | ret b => exact ⟨b, rfl, h⟩
  | op o k => cases h

end Task

namespace Prog

def bind : Prog Op Resp α → (α → Prog Op Resp γ) → Prog Op Resp γ
  | .ret a, f => f a
  | .op o k, f => .op o fun r => (k r).bind f
  | .fork ts k, f => .fork ts fun bs => (k bs).bind f

instance : Monad (Prog Op Resp) where
  pure := .ret
  bind := .bind

/-- A task run on the spot. -/
def call : Task Op Resp α → Prog Op Resp α
  | .ret a => .ret a
  | .op o k => .op o fun r => call (k r)

/-- Tasks run side by side. -/
def all (ts : List (Task Op Resp β)) : Prog Op Resp (List β) := .fork ts .ret

@[simp] theorem pure_eq (a : α) : (pure a : Prog Op Resp α) = .ret a := rfl

@[simp] theorem ret_bind (a : α) (f : α → Prog Op Resp γ) : (Prog.ret a >>= f) = f a := rfl

@[simp] theorem op_bind (o : Op) (k : Resp o → Prog Op Resp α) (f : α → Prog Op Resp γ) :
    (Prog.op o k >>= f) = .op o fun r => k r >>= f := rfl

@[simp] theorem fork_bind (ts : List (Task Op Resp β)) (k : List β → Prog Op Resp α)
    (f : α → Prog Op Resp γ) : (Prog.fork ts k >>= f) = .fork ts fun bs => k bs >>= f := rfl

end Prog

/-! ## Traces -/

/-- `Task.Tr t es t'`: `t` performed `es` in order and is now `t'`. -/
inductive Task.Tr : Task Op Resp β → List (Ev Op Resp) → Task Op Resp β → Prop where
  | nil (t : Task Op Resp β) : Task.Tr t [] t
  | cons (e : Ev Op Resp) (k : Resp e.op → Task Op Resp β) {es : List (Ev Op Resp)}
      {t' : Task Op Resp β} (h : Task.Tr (k e.resp) es t') : Task.Tr (.op e.op k) (e :: es) t'

/-- `Tasks ts es ts'`: the tasks `ts` performed `es`, in some interleaving, and are now `ts'`. -/
inductive Tasks : List (Task Op Resp β) → List (Ev Op Resp) → List (Task Op Resp β) → Prop where
  | nil (ts : List (Task Op Resp β)) : Tasks ts [] ts
  | cons {ts ts' : List (Task Op Resp β)} (i : ℕ) (e : Ev Op Resp) (k : Resp e.op → Task Op Resp β)
      {es : List (Ev Op Resp)} (hi : ts[i]? = some (.op e.op k))
      (h : Tasks (ts.set i (k e.resp)) es ts') : Tasks ts (e :: es) ts'

/-- One visible step of a program. -/
inductive Prog.Step : Prog Op Resp α → Ev Op Resp → Prog Op Resp α → Prop where
  | op (e : Ev Op Resp) (k : Resp e.op → Prog Op Resp α) : Prog.Step (.op e.op k) e (k e.resp)
  | fork {β : Type} {ts : List (Task Op Resp β)} (i : ℕ) (e : Ev Op Resp)
      (c : Resp e.op → Task Op Resp β) (k : List β → Prog Op Resp α)
      (hi : ts[i]? = some (.op e.op c)) : Prog.Step (.fork ts k) e (.fork (ts.set i (c e.resp)) k)

/-- The silent step of a program all of whose forked tasks have returned. -/
inductive Prog.Join : Prog Op Resp α → Prog Op Resp α → Prop where
  | mk {β : Type} (bs : List β) (k : List β → Prog Op Resp α) : Prog.Join (.fork (bs.map .ret) k) (k bs)

/-- `Prog.Tr p es q`: `p` performed `es` in order, with silent steps between, and is now `q`. -/
inductive Prog.Tr : Prog Op Resp α → List (Ev Op Resp) → Prog Op Resp α → Prop where
  | nil (p : Prog Op Resp α) : Prog.Tr p [] p
  | step {p p' q : Prog Op Resp α} {e : Ev Op Resp} {es : List (Ev Op Resp)}
      (hs : Prog.Step p e p') (h : Prog.Tr p' es q) : Prog.Tr p (e :: es) q
  | join {p p' q : Prog Op Resp α} {es : List (Ev Op Resp)}
      (hj : Prog.Join p p') (h : Prog.Tr p' es q) : Prog.Tr p es q

variable {b : β} {es : List (Ev Op Resp)} {o : Op}

namespace Task

theorem tr_ret (h : Tr (.ret b) es t) : es = [] ∧ t = .ret b := by
  cases h with
  | nil => exact ⟨rfl, rfl⟩

variable {k : Resp o → Task Op Resp β}

theorem tr_op (h : Tr (.op o k) es t) : (es = [] ∧ t = .op o k) ∨ ∃ n r es', es = ⟨n, o, r⟩ :: es' ∧
    Tr (k r) es' t := by
  cases h with
  | nil => exact .inl ⟨rfl, rfl⟩
  | cons e k h => exact .inr ⟨e.time, e.resp, _, rfl, h⟩

theorem done_op (h : Tr (.op o k) es (.ret b)) : ∃ n r es', es = ⟨n, o, r⟩ :: es' ∧ Tr (k r) es' (.ret b) := by
  rcases tr_op h with ⟨_, h⟩ | h
  · cases h
  · exact h

theorem done_perform {r : Resp o} (h : Tr (perform o) es (.ret r)) : ∃ n, es = [⟨n, o, r⟩] := by
  obtain ⟨n, r', es', rfl, hk⟩ := done_op h
  obtain ⟨rfl, hq⟩ := tr_ret hk
  cases hq
  exact ⟨n, rfl⟩

/-- A trace of a sequence is a trace of its first part, or a complete one followed by the rest. -/
theorem tr_bind {f : β → Task Op Resp γ} {q : Task Op Resp γ} (h : Tr (t >>= f) es q) :
    (∃ t', Tr t es t' ∧ q = t' >>= f) ∨
      ∃ es₁ es₂ b, es = es₁ ++ es₂ ∧ Tr t es₁ (.ret b) ∧ Tr (f b) es₂ q := by
  induction t generalizing es with
  | ret b => exact .inr ⟨[], es, b, rfl, .nil _, h⟩
  | op o k ih =>
    rw [op_bind] at h
    rcases tr_op h with ⟨rfl, rfl⟩ | ⟨n, r, es', rfl, hk⟩
    · exact .inl ⟨_, .nil _, rfl⟩
    · rcases ih r hk with ⟨t', ht, rfl⟩ | ⟨es₁, es₂, b, rfl, ht, hf⟩
      · exact .inl ⟨t', .cons ⟨n, o, r⟩ k ht, rfl⟩
      · exact .inr ⟨_ :: es₁, es₂, b, rfl, .cons ⟨n, o, r⟩ k ht, hf⟩

theorem done_bind {f : β → Task Op Resp γ} (h : Tr (t >>= f) es (.ret c)) :
    ∃ es₁ es₂ b, es = es₁ ++ es₂ ∧ Tr t es₁ (.ret b) ∧ Tr (f b) es₂ (.ret c) := by
  rcases tr_bind h with ⟨t', ht, hq⟩ | h
  · obtain ⟨b, rfl, hb⟩ := bind_ret_inv hq.symm
    exact ⟨es, [], b, (List.append_nil _).symm, ht, hb ▸ .nil _⟩
  · exact h

end Task

variable {ts ts' : List (Task Op Resp β)} {bs : List β}

namespace Tasks

theorem length_eq (h : Tasks ts es ts') : ts'.length = ts.length := by
  induction h with
  | nil ts => rfl
  | cons i e k _ _ ih => simpa using ih

variable {j : ℕ}

/-- Each task of a list has performed a part of the list's trace, in order. -/
theorem component (h : Tasks ts es ts') (hj : ts[j]? = some t) : ∃ t' es', ts'[j]? = some t' ∧ es'.Sublist es ∧
    Task.Tr t es' t' := by
  induction h generalizing t with
  | nil ts => exact ⟨t, [], hj, List.Sublist.refl _, .nil t⟩
  | @cons ts ts' i e k es hi _ ih =>
    by_cases hij : i = j
    · subst hij
      obtain rfl : Task.op e.op k = t := Option.some.inj (hi.symm.trans hj)
      have hlt : i < ts.length := (List.getElem?_eq_some_iff.mp hj).1
      obtain ⟨t', es', ht', hs, ht⟩ := ih (List.getElem?_set_self hlt)
      exact ⟨t', e :: es', ht', hs.cons_cons e, .cons e k ht⟩
    · rw [← List.getElem?_set_ne hij] at hj
      obtain ⟨t', es', ht', hs, ht⟩ := ih hj
      exact ⟨t', es', ht', hs.cons e, ht⟩

theorem done (h : Tasks ts es (bs.map .ret)) (hj : ts[j]? = some t) :
    ∃ b es', bs[j]? = some b ∧ es'.Sublist es ∧ Task.Tr t es' (.ret b) := by
  obtain ⟨t', es', ht', hs, ht⟩ := h.component hj
  rw [List.getElem?_map, Option.map_eq_some_iff] at ht'
  obtain ⟨b, hb, rfl⟩ := ht'
  exact ⟨b, es', hb, hs, ht⟩

theorem done_map {δ : Type} {l : List δ} {f : δ → Task Op Resp β} (h : Tasks (l.map f) es (bs.map .ret)) :
    List.Forall₂ (fun x b => ∃ es', es'.Sublist es ∧ Task.Tr (f x) es' (.ret b)) l bs := by
  have hlen : bs.length = l.length := by simpa using h.length_eq
  refine List.forall₂_iff_get.mpr ⟨hlen.symm, fun i hi hi' => ?_⟩
  obtain ⟨b, es', hb, hsub, ht⟩ := h.done (j := i) (t := f (l.get ⟨i, hi⟩)) (by
    rw [List.getElem?_map, List.getElem?_eq_getElem hi]
    rfl)
  rw [List.getElem?_eq_getElem hi'] at hb
  obtain rfl : bs.get ⟨i, hi'⟩ = b := Option.some.inj hb
  exact ⟨es', hsub, ht⟩

theorem fork (h : Tasks ts es ts') (k : List β → Prog Op Resp α) : Prog.Tr (.fork ts k) es (.fork ts' k) := by
  induction h with
  | nil ts => exact .nil _
  | cons i e c hi _ ih => exact .step (.fork i e c k hi) ih

end Tasks

variable {p q : Prog Op Resp α} {a : α}

namespace Prog

theorem bind_ret_inv {f : α → Prog Op Resp γ} (h : (p >>= f) = .ret c) : ∃ a, p = .ret a ∧ f a = .ret c := by
  cases p with
  | ret a => exact ⟨a, rfl, h⟩
  | op o k => cases h
  | fork ts k => cases h

theorem Tr.append {p' p'' : Prog Op Resp α} {es' : List (Ev Op Resp)} (h : Tr p es p') (h' : Tr p' es' p'') :
    Tr p (es ++ es') p'' := by
  induction h with
  | nil p => exact h'
  | step hs _ ih => exact .step hs (ih h')
  | join hj _ ih => exact .join hj (ih h')

theorem tr_ret (h : Tr (.ret a) es q) : es = [] ∧ q = .ret a := by
  cases h with
  | nil => exact ⟨rfl, rfl⟩
  | step hs _ => cases hs
  | join hj _ => cases hj

theorem tr_op {k : Resp o → Prog Op Resp α} (h : Tr (.op o k) es q) :
    (es = [] ∧ q = .op o k) ∨ ∃ n r es', es = ⟨n, o, r⟩ :: es' ∧ Tr (k r) es' q := by
  cases h with
  | nil => exact .inl ⟨rfl, rfl⟩
  | step hs h =>
    cases hs with
    | op => exact .inr ⟨_, _, _, rfl, h⟩
  | join hj _ => cases hj

/-- A trace of a fork is a trace of its tasks, or a complete one followed by the continuation. -/
theorem tr_fork {k : List β → Prog Op Resp α} (h : Tr (.fork ts k) es q) :
    (∃ ts', Tasks ts es ts' ∧ q = .fork ts' k) ∨
      ∃ es₁ es₂ bs, es = es₁ ++ es₂ ∧ Tasks ts es₁ (bs.map .ret) ∧ Tr (k bs) es₂ q := by
  generalize hp : Prog.fork ts k = p at h
  induction h generalizing ts with
  | nil p => exact .inl ⟨ts, .nil ts, hp.symm⟩
  | step hs h ih =>
    subst hp
    cases hs with
    | fork i _ c _ hi =>
      rcases ih rfl with ⟨ts', ht, rfl⟩ | ⟨es₁, es₂, bs, rfl, ht, hk⟩
      · exact .inl ⟨ts', .cons i _ c hi ht, rfl⟩
      · exact .inr ⟨_ :: es₁, es₂, bs, rfl, .cons i _ c hi ht, hk⟩
  | join hj h ih =>
    subst hp
    cases hj with
    | mk bs k => exact .inr ⟨[], _, bs, rfl, .nil _, h⟩

theorem tr_bind {f : α → Prog Op Resp γ} {q : Prog Op Resp γ} (h : Tr (p >>= f) es q) :
    (∃ p', Tr p es p' ∧ q = p' >>= f) ∨
      ∃ es₁ es₂ a, es = es₁ ++ es₂ ∧ Tr p es₁ (.ret a) ∧ Tr (f a) es₂ q := by
  induction p generalizing es with
  | ret a => exact .inr ⟨[], es, a, rfl, .nil _, h⟩
  | op o k ih =>
    rw [op_bind] at h
    rcases tr_op h with ⟨rfl, rfl⟩ | ⟨n, r, es', rfl, hk⟩
    · exact .inl ⟨_, .nil _, rfl⟩
    · rcases ih r hk with ⟨p', hp, rfl⟩ | ⟨es₁, es₂, a, rfl, hp, hf⟩
      · exact .inl ⟨p', .step (.op ⟨n, o, r⟩ k) hp, rfl⟩
      · exact .inr ⟨_ :: es₁, es₂, a, rfl, .step (.op ⟨n, o, r⟩ k) hp, hf⟩
  | fork ts k ih =>
    rw [fork_bind] at h
    rcases tr_fork h with ⟨ts', ht, rfl⟩ | ⟨es₁, es₂, bs, rfl, ht, hk⟩
    · exact .inl ⟨_, ht.fork k, rfl⟩
    · rcases ih bs hk with ⟨p', hp, rfl⟩ | ⟨es₃, es₄, a, rfl, hp, hf⟩
      · exact .inl ⟨p', (ht.fork k).append (.join (.mk bs k) hp), rfl⟩
      · refine .inr ⟨es₁ ++ es₃, es₄, a, (List.append_assoc ..).symm, ?_, hf⟩
        exact (ht.fork k).append (.join (.mk bs k) hp)

theorem done_bind {f : α → Prog Op Resp γ} (h : Tr (p >>= f) es (.ret c)) :
    ∃ es₁ es₂ a, es = es₁ ++ es₂ ∧ Tr p es₁ (.ret a) ∧ Tr (f a) es₂ (.ret c) := by
  rcases tr_bind h with ⟨p', hp, hq⟩ | h
  · obtain ⟨a, rfl, ha⟩ := bind_ret_inv hq.symm
    exact ⟨es, [], a, (List.append_nil _).symm, hp, ha ▸ .nil _⟩
  · exact h

theorem done_all (h : Tr (all ts) es (.ret bs)) : Tasks ts es (bs.map .ret) := by
  rcases tr_fork h with ⟨_, _, hq⟩ | ⟨es₁, es₂, bs', rfl, ht, hk⟩
  · cases hq
  · obtain ⟨rfl, hq⟩ := tr_ret hk
    cases hq
    rwa [List.append_nil]

theorem tr_call {t : Task Op Resp α} (h : Tr (call t) es q) : ∃ t', Task.Tr t es t' ∧ q = call t' := by
  induction t generalizing es with
  | ret a =>
    obtain ⟨rfl, rfl⟩ := tr_ret h
    exact ⟨_, .nil _, rfl⟩
  | op o k ih =>
    rcases tr_op h with ⟨rfl, rfl⟩ | ⟨n, r, es', rfl, hk⟩
    · exact ⟨_, .nil _, rfl⟩
    · obtain ⟨t', ht, rfl⟩ := ih r hk
      exact ⟨t', .cons ⟨n, o, r⟩ k ht, rfl⟩

theorem done_call {t : Task Op Resp α} (h : Tr (call t) es (.ret a)) : Task.Tr t es (.ret a) := by
  obtain ⟨t', ht, hq⟩ := tr_call h
  cases t' with
  | ret b => cases hq; exact ht
  | op o k => cases hq

end Prog

/-! ## Programs that may fail -/

variable {f : β → ExceptT ε (Task Op Resp) γ} {x : ExceptT ε (Task Op Resp) β}

section Failing

theorem Task.tr_try {q : Task Op Resp (Except ε γ)} (h : Task.Tr (x >>= f).run es q) :
    (∃ t', Task.Tr x.run es t' ∧ q = t' >>= ExceptT.bindCont f) ∨
      ∃ es₁ es₂ b, es = es₁ ++ es₂ ∧ Task.Tr x.run es₁ (.ret (.ok b)) ∧ Task.Tr (f b).run es₂ q := by
  rcases Task.tr_bind h with h | ⟨es₁, es₂, r, rfl, ht, hf⟩
  · exact .inl h
  · cases r with
    | ok b => exact .inr ⟨es₁, es₂, b, rfl, ht, hf⟩
    | error e =>
      obtain ⟨rfl, rfl⟩ := Task.tr_ret hf
      exact .inl ⟨_, by rwa [List.append_nil], rfl⟩

theorem Task.done_try (h : Task.Tr (x >>= f).run es (.ret (.ok c))) :
    ∃ es₁ es₂ b, es = es₁ ++ es₂ ∧ Task.Tr x.run es₁ (.ret (.ok b)) ∧
      Task.Tr (f b).run es₂ (.ret (.ok c)) := by
  obtain ⟨es₁, es₂, r, rfl, ht, hf⟩ := Task.done_bind h
  cases r with
  | ok b => exact ⟨es₁, es₂, b, rfl, ht, hf⟩
  | error e => cases (Task.tr_ret hf).2

theorem Prog.tr_try {x : ExceptT ε (Prog Op Resp) α} {f : α → ExceptT ε (Prog Op Resp) γ}
    {q : Prog Op Resp (Except ε γ)} (h : Prog.Tr (x >>= f).run es q) :
    (∃ p', Prog.Tr x.run es p' ∧ q = p' >>= ExceptT.bindCont f) ∨
      ∃ es₁ es₂ a, es = es₁ ++ es₂ ∧ Prog.Tr x.run es₁ (.ret (.ok a)) ∧ Prog.Tr (f a).run es₂ q := by
  rcases Prog.tr_bind h with h | ⟨es₁, es₂, r, rfl, ht, hf⟩
  · exact .inl h
  · cases r with
    | ok b => exact .inr ⟨es₁, es₂, b, rfl, ht, hf⟩
    | error e =>
      obtain ⟨rfl, rfl⟩ := Prog.tr_ret hf
      exact .inl ⟨_, by rwa [List.append_nil], rfl⟩

theorem Prog.done_try {x : ExceptT ε (Prog Op Resp) α} {f : α → ExceptT ε (Prog Op Resp) γ}
    (h : Prog.Tr (x >>= f).run es (.ret (.ok c))) : ∃ es₁ es₂ a, es = es₁ ++ es₂ ∧ Prog.Tr x.run es₁ (.ret (.ok a)) ∧
      Prog.Tr (f a).run es₂ (.ret (.ok c)) := by
  obtain ⟨es₁, es₂, r, rfl, ht, hf⟩ := Prog.done_bind h
  cases r with
  | ok b => exact ⟨es₁, es₂, b, rfl, ht, hf⟩
  | error e => cases (Prog.tr_ret hf).2

variable {res : Except ε γ}

theorem Task.done_try_cases (h : Task.Tr (x >>= f).run es (.ret res)) :
    (∃ e, res = .error e ∧ Task.Tr x.run es (.ret (.error e))) ∨
      ∃ es₁ es₂ b, es = es₁ ++ es₂ ∧ Task.Tr x.run es₁ (.ret (.ok b)) ∧ Task.Tr (f b).run es₂ (.ret res) := by
  obtain ⟨es₁, es₂, r, rfl, ht, hf⟩ := Task.done_bind h
  cases r with
  | ok b => exact .inr ⟨es₁, es₂, b, rfl, ht, hf⟩
  | error e =>
    obtain ⟨rfl, hq⟩ := Task.tr_ret hf
    cases hq
    exact .inl ⟨e, rfl, by rwa [List.append_nil]⟩

theorem Prog.done_try_cases {x : ExceptT ε (Prog Op Resp) α} {f : α → ExceptT ε (Prog Op Resp) γ}
    (h : Prog.Tr (x >>= f).run es (.ret res)) :
    (∃ e, res = .error e ∧ Prog.Tr x.run es (.ret (.error e))) ∨
      ∃ es₁ es₂ a, es = es₁ ++ es₂ ∧ Prog.Tr x.run es₁ (.ret (.ok a)) ∧ Prog.Tr (f a).run es₂ (.ret res) := by
  obtain ⟨es₁, es₂, r, rfl, ht, hf⟩ := Prog.done_bind h
  cases r with
  | ok b => exact .inr ⟨es₁, es₂, b, rfl, ht, hf⟩
  | error e =>
    obtain ⟨rfl, hq⟩ := Prog.tr_ret hf
    cases hq
    exact .inl ⟨e, rfl, by rwa [List.append_nil]⟩

theorem Task.done_lift {res : Except ε β} (h : Task.Tr (ExceptT.lift t).run es (.ret res)) : ∃ b, res = .ok b ∧
    Task.Tr t es (.ret b) := by
  obtain ⟨es₁, es₂, b, rfl, ht, hf⟩ := Task.done_bind (f := fun b => Task.ret (Except.ok b)) h
  obtain ⟨rfl, hq⟩ := Task.tr_ret hf
  cases hq
  exact ⟨b, rfl, by rwa [List.append_nil]⟩

theorem Prog.done_lift {res : Except ε α} (h : Prog.Tr (ExceptT.lift p).run es (.ret res)) : ∃ a, res = .ok a ∧
    Prog.Tr p es (.ret a) := by
  obtain ⟨es₁, es₂, a, rfl, ht, hf⟩ := Prog.done_bind (f := fun a => Prog.ret (Except.ok a)) h
  obtain ⟨rfl, hq⟩ := Prog.tr_ret hf
  cases hq
  exact ⟨a, rfl, by rwa [List.append_nil]⟩

end Failing

/-! ## The operations a program may perform -/

/-- Every operation the task may perform, whatever it is answered, satisfies `P`. -/
def Task.Uses (P : Op → Prop) : Task Op Resp β → Prop
  | .ret _ => True
  | .op o k => P o ∧ ∀ r, (k r).Uses P

/-- Every operation the program may perform, whatever it is answered, satisfies `P`. -/
def Prog.Uses (P : Op → Prop) : Prog Op Resp α → Prop
  | .ret _ => True
  | .op o k => P o ∧ ∀ r, (k r).Uses P
  | .fork ts k => (∀ t ∈ ts, t.Uses P) ∧ ∀ bs, (k bs).Uses P

section Uses

variable {P : Op → Prop}

namespace Task

@[simp] theorem uses_ret (b : β) : (Task.ret b : Task Op Resp β).Uses P := trivial

theorem uses_perform (h : P o) : (perform o : Task Op Resp (Resp o)).Uses P :=
  ⟨h, fun _ => trivial⟩

theorem Uses.bind {f : β → Task Op Resp γ} (ht : t.Uses P) (hf : ∀ b, (f b).Uses P) : (t >>= f).Uses P := by
  induction t with
  | ret b => exact hf b
  | op o k ih => exact ⟨ht.1, fun r => ih r (ht.2 r)⟩

theorem Tr.uses {t' : Task Op Resp β} (h : Tr t es t') (ht : t.Uses P) : (∀ e ∈ es, P e.op) ∧ t'.Uses P := by
  induction h with
  | nil t => exact ⟨fun _ he => absurd he List.not_mem_nil, ht⟩
  | cons e k _ ih =>
    obtain ⟨hes, ht'⟩ := ih (ht.2 _)
    exact ⟨List.forall_mem_cons.mpr ⟨ht.1, hes⟩, ht'⟩

end Task

theorem Tasks.uses (h : Tasks ts es ts') (hts : ∀ t ∈ ts, t.Uses P) : (∀ e ∈ es, P e.op) ∧ ∀ t ∈ ts', t.Uses P := by
  induction h with
  | nil ts => exact ⟨fun _ he => absurd he List.not_mem_nil, hts⟩
  | @cons ts ts' i e k es hi _ ih =>
    have hop : (Task.op e.op k).Uses P := hts _ (List.mem_of_getElem? hi)
    have hset : ∀ t ∈ ts.set i (k e.resp), t.Uses P := by
      intro t ht
      rcases List.mem_or_eq_of_mem_set ht with ht | rfl
      · exact hts t ht
      · exact hop.2 _
    obtain ⟨hes, hts'⟩ := ih hset
    exact ⟨List.forall_mem_cons.mpr ⟨hop.1, hes⟩, hts'⟩

namespace Prog

@[simp] theorem uses_ret (a : α) : (Prog.ret a : Prog Op Resp α).Uses P := trivial

theorem Uses.bind {f : α → Prog Op Resp γ} (hp : p.Uses P) (hf : ∀ a, (f a).Uses P) : (p >>= f).Uses P := by
  induction p with
  | ret a => exact hf a
  | op o k ih => exact ⟨hp.1, fun r => ih r (hp.2 r)⟩
  | fork ts k ih => exact ⟨hp.1, fun bs => ih bs (hp.2 bs)⟩

theorem uses_call {t : Task Op Resp α} (h : t.Uses P) : (call t).Uses P := by
  induction t with
  | ret a => trivial
  | op o k ih => exact ⟨h.1, fun r => ih r (h.2 r)⟩

theorem uses_all (h : ∀ t ∈ ts, t.Uses P) : (all ts).Uses P :=
  ⟨h, fun _ => trivial⟩

theorem Tr.uses (h : Tr p es q) (hp : p.Uses P) : (∀ e ∈ es, P e.op) ∧ q.Uses P := by
  induction h with
  | nil p => exact ⟨fun _ he => absurd he List.not_mem_nil, hp⟩
  | step hs _ ih =>
    cases hs with
    | op =>
      obtain ⟨hes, hq⟩ := ih (hp.2 _)
      exact ⟨List.forall_mem_cons.mpr ⟨hp.1, hes⟩, hq⟩
    | fork i e c k hi =>
      have hone := (Tasks.cons i _ c hi (.nil _)).uses hp.1
      obtain ⟨hes, hq⟩ := ih ⟨hone.2, hp.2⟩
      exact ⟨List.forall_mem_cons.mpr ⟨hone.1 _ (List.mem_singleton_self _), hes⟩, hq⟩
  | join hj _ ih =>
    cases hj with
    | mk bs k => exact ih (hp.2 bs)

end Prog

theorem Task.uses_try (hx : x.run.Uses P) (hf : ∀ b, (f b).run.Uses P) : (x >>= f).run.Uses P := by
  refine Task.Uses.bind (f := ExceptT.bindCont f) hx fun r => ?_
  cases r with
  | ok b => exact hf b
  | error e => trivial

theorem Prog.uses_try {x : ExceptT ε (Prog Op Resp) α} {f : α → ExceptT ε (Prog Op Resp) γ} (hx : x.run.Uses P)
    (hf : ∀ a, (f a).run.Uses P) : (x >>= f).run.Uses P := by
  refine Prog.Uses.bind (f := ExceptT.bindCont f) hx fun r => ?_
  cases r with
  | ok b => exact hf b
  | error e => trivial

theorem Task.uses_lift (ht : t.Uses P) : (ExceptT.lift t : ExceptT ε (Task Op Resp) β).run.Uses P :=
  Task.Uses.bind (f := fun b => Task.ret (Except.ok b)) ht fun _ => trivial

theorem Prog.uses_lift (hp : p.Uses P) : (ExceptT.lift p : ExceptT ε (Prog Op Resp) α).run.Uses P :=
  Prog.Uses.bind (f := fun a => Prog.ret (Except.ok a)) hp fun _ => trivial

end Uses

/-! ## Running alone -/

section Eval

variable {σ : Type} (exec : (o : Op) → σ → Resp o × σ)

/-- Run a task alone from a state. -/
def Task.eval : Task Op Resp β → σ → β × σ
  | .ret b, s => (b, s)
  | .op o k, s => (k (exec o s).1).eval (exec o s).2

def evalTasks : List (Task Op Resp β) → σ → List β × σ
  | [], s => ([], s)
  | t :: ts, s =>
    let (b, s) := t.eval exec s
    let (bs, s) := evalTasks ts s
    (b :: bs, s)

def Prog.eval : Prog Op Resp α → σ → α × σ
  | .ret a, s => (a, s)
  | .op o k, s => (k (exec o s).1).eval (exec o s).2
  | .fork ts k, s => (k (evalTasks exec ts s).1).eval (evalTasks exec ts s).2

variable {exec}

@[simp] theorem Task.eval_ret (b : β) (s : σ) : (Task.ret b).eval exec s = (b, s) := rfl

@[simp] theorem Task.eval_perform (o : Op) (s : σ) : (Task.perform o).eval exec s = exec o s := rfl

theorem Task.eval_bind (t : Task Op Resp β) (f : β → Task Op Resp γ) (s : σ) :
    (t >>= f).eval exec s = (f (t.eval exec s).1).eval exec (t.eval exec s).2 := by
  induction t generalizing s with
  | ret b => rfl
  | op o k ih => exact ih _ _

@[simp] theorem Prog.eval_ret (a : α) (s : σ) : (Prog.ret a).eval exec s = (a, s) := rfl

theorem Prog.eval_bind (p : Prog Op Resp α) (f : α → Prog Op Resp γ) (s : σ) :
    (p >>= f).eval exec s = (f (p.eval exec s).1).eval exec (p.eval exec s).2 := by
  induction p generalizing s with
  | ret a => rfl
  | op o k ih => exact ih _ _
  | fork ts k ih => exact ih _ _

@[simp] theorem Prog.eval_call (t : Task Op Resp α) (s : σ) :
    (Prog.call t).eval exec s = t.eval exec s := by
  induction t generalizing s with
  | ret a => rfl
  | op o k ih => exact ih _ _

@[simp] theorem Prog.eval_all (ts : List (Task Op Resp β)) (s : σ) :
    (Prog.all ts).eval exec s = evalTasks exec ts s := rfl

variable {s : σ}

theorem evalTasks_const (h : ∀ t ∈ ts, (t.eval exec s).2 = s) :
    evalTasks exec ts s = (ts.map fun t => (t.eval exec s).1, s) := by
  induction ts with
  | nil => rfl
  | cons t ts ih =>
    have hrest := ih fun t' ht' => h t' (List.mem_cons_of_mem _ ht')
    show ((t.eval exec s).1 :: (evalTasks exec ts (t.eval exec s).2).1, (evalTasks exec ts (t.eval exec s).2).2) = _
    rw [h t List.mem_cons_self, hrest]
    rfl

/-! ### Programs that may fail -/

theorem Task.eval_lift (t : Task Op Resp β) (s : σ) :
    (ExceptT.lift t : ExceptT ε (Task Op Resp) β).run.eval exec s = (.ok (t.eval exec s).1, (t.eval exec s).2) :=
  Task.eval_bind t (fun b => Task.ret (Except.ok b)) s

variable {s' : σ}

theorem Task.eval_try_ok (h : x.run.eval exec s = (.ok b, s')) :
    (x >>= f).run.eval exec s = (f b).run.eval exec s' := by
  have hb : (x >>= f).run.eval exec s = _ := Task.eval_bind x.run (ExceptT.bindCont f) s
  rw [hb, h]
  rfl

theorem Task.eval_try_error {e : ε} (h : x.run.eval exec s = (.error e, s')) :
    (x >>= f).run.eval exec s = (.error e, s') := by
  have hb : (x >>= f).run.eval exec s = _ := Task.eval_bind x.run (ExceptT.bindCont f) s
  rw [hb, h]
  rfl

theorem Task.eval_try_inv {c : γ} (h : (x >>= f).run.eval exec s = (.ok c, s')) :
    ∃ b s₁, x.run.eval exec s = (.ok b, s₁) ∧ (f b).run.eval exec s₁ = (.ok c, s') := by
  rcases hx : x.run.eval exec s with ⟨e | b, s₁⟩
  · cases (Task.eval_try_error hx).symm.trans h
  · exact ⟨b, s₁, rfl, (Task.eval_try_ok hx).symm.trans h⟩

theorem Prog.eval_lift (p : Prog Op Resp α) (s : σ) :
    (ExceptT.lift p : ExceptT ε (Prog Op Resp) α).run.eval exec s = (.ok (p.eval exec s).1, (p.eval exec s).2) :=
  Prog.eval_bind p (fun a => Prog.ret (Except.ok a)) s

theorem Prog.eval_try_ok {x : ExceptT ε (Prog Op Resp) α} {f : α → ExceptT ε (Prog Op Resp) γ}
    (h : x.run.eval exec s = (.ok a, s')) : (x >>= f).run.eval exec s = (f a).run.eval exec s' := by
  have hb : (x >>= f).run.eval exec s = _ := Prog.eval_bind x.run (ExceptT.bindCont f) s
  rw [hb, h]
  rfl

theorem Prog.eval_try_error {x : ExceptT ε (Prog Op Resp) α} {f : α → ExceptT ε (Prog Op Resp) γ} {e : ε}
    (h : x.run.eval exec s = (.error e, s')) : (x >>= f).run.eval exec s = (.error e, s') := by
  have hb : (x >>= f).run.eval exec s = _ := Prog.eval_bind x.run (ExceptT.bindCont f) s
  rw [hb, h]
  rfl

theorem Prog.eval_try_inv {x : ExceptT ε (Prog Op Resp) α} {f : α → ExceptT ε (Prog Op Resp) γ}
    (h : (x >>= f).run.eval exec s = (.ok c, s')) : ∃ a s₁, x.run.eval exec s = (.ok a, s₁) ∧
    (f a).run.eval exec s₁ = (.ok c, s') := by
  rcases hx : x.run.eval exec s with ⟨e | a, s₁⟩
  · cases (Prog.eval_try_error hx).symm.trans h
  · exact ⟨a, s₁, rfl, (Prog.eval_try_ok hx).symm.trans h⟩

end Eval

end Sched
