import Djbod.Sched.Run

/-!
# Pre- and postconditions of a program that runs alone

* `ExecAll X s es s'` : executing the events `es` by `X` takes `s` to `s'`;
* `Task.Wp`, `Prog.Wp` : from a state, an invariant holds at every moment of the program, however far it
  gets, and a postcondition when it returns; `bind`, `try`, `call`, `mono` are the rules;
* `Prog.Wp.sound` : what the rules establish holds along every trace;
* `Prog.wp_readOnly` : a program that only reads sees one state;
* `Task.Meets`, `Prog.Meets` : the same for programs that may fail, with a condition for each way out;
* `Prog.Wp.of_run`, `Prog.Wp.eval` : the same for a run of one program and for evaluation;
* `Task.stop` : where a task is when it is stopped.
-/

namespace Sched

variable {Op : Type} {Resp : Op → Type} {σ α β γ ε : Type}

/-- The events are executed one after the other. -/
def ExecAll (X : (o : Op) → σ → Resp o → σ → Prop) : σ → List (Ev Op Resp) → σ → Prop
  | s, [], s' => s' = s
  | s, e :: es, s' => ∃ s₁, X e.op s e.resp s₁ ∧ ExecAll X s₁ es s'

section ExecAll

variable {X : (o : Op) → σ → Resp o → σ → Prop} {s s' : σ} {es : List (Ev Op Resp)}

theorem execAll_append {es₁ es₂ : List (Ev Op Resp)} :
    ExecAll X s (es₁ ++ es₂) s' ↔ ∃ s₁, ExecAll X s es₁ s₁ ∧ ExecAll X s₁ es₂ s' := by
  induction es₁ generalizing s with
  | nil => exact ⟨fun h => ⟨s, rfl, h⟩, by rintro ⟨_, rfl, h⟩; exact h⟩
  | cons e es₁ ih =>
    constructor
    · rintro ⟨s₁, hx, h⟩
      obtain ⟨s₂, h₁, h₂⟩ := ih.mp h
      exact ⟨s₂, ⟨s₁, hx, h₁⟩, h₂⟩
    · rintro ⟨s₂, ⟨s₁, hx, h₁⟩, h₂⟩
      exact ⟨s₁, hx, ih.mpr ⟨s₂, h₁, h₂⟩⟩

theorem ExecAll.preserves {P : σ → Prop} (h : ExecAll X s es s')
    (hP : ∀ e ∈ es, ∀ s s', X e.op s e.resp s' → P s → P s') (hs : P s) : P s' := by
  induction es generalizing s with
  | nil => cases h; exact hs
  | cons e es ih =>
    obtain ⟨s₁, hx, h⟩ := h
    exact ih h (fun e' he' => hP e' (List.mem_cons_of_mem _ he')) (hP e List.mem_cons_self s s₁ hx hs)

variable {e : Ev Op Resp}

theorem ExecAll.establishes {P : σ → Prop} (h : ExecAll X s es s') (he : e ∈ es)
    (hest : ∀ s s', X e.op s e.resp s' → P s') (hP : ∀ e ∈ es, ∀ s s', X e.op s e.resp s' → P s → P s') : P s' := by
  obtain ⟨es₁, es₂, rfl⟩ := List.append_of_mem he
  obtain ⟨s₁, _, s₂, hx, h₂⟩ := execAll_append.mp h
  exact h₂.preserves (fun e' he' => hP e' (by simp [he'])) (hest s₁ s₂ hx)

theorem ExecAll.moment {P : σ → Prop} (h : ExecAll X s es s') (he : e ∈ es)
    (hP : ∀ e ∈ es, ∀ s s', X e.op s e.resp s' → P s → P s') (hs : P s) : ∃ s₁ s₂, P s₁ ∧ X e.op s₁ e.resp s₂ := by
  obtain ⟨es₁, es₂, rfl⟩ := List.append_of_mem he
  obtain ⟨s₁, h₁, s₂, hx, _⟩ := execAll_append.mp h
  exact ⟨s₁, s₂, h₁.preserves (fun e' he' => hP e' (by simp [he'])) hs, hx⟩

theorem ExecAll.const (h : ExecAll X s es s') (hread : ∀ e ∈ es, ∀ s', X e.op s e.resp s' → s' = s) :
    s' = s ∧ ∀ e ∈ es, X e.op s e.resp s := by
  induction es with
  | nil => exact ⟨h, fun _ he => absurd he List.not_mem_nil⟩
  | cons e es ih =>
    obtain ⟨s₁, hx, h⟩ := h
    obtain rfl := hread e List.mem_cons_self s₁ hx
    obtain ⟨hs, hall⟩ := ih h fun e' he' => hread e' (List.mem_cons_of_mem _ he')
    exact ⟨hs, List.forall_mem_cons.mpr ⟨hx, hall⟩⟩

end ExecAll

/-- The invariant holds whenever the task is interrupted and the postcondition when it returns. -/
def Task.Wp (X : (o : Op) → σ → Resp o → σ → Prop) (I : σ → Prop) (Q : β → σ → Prop) : Task Op Resp β → σ → Prop
  | .ret b, s => I s ∧ Q b s
  | .op o k, s => I s ∧ ∀ r s', X o s r s' → (k r).Wp X I Q s'

/-- The same for a program; what its forked tasks do is taken from their traces. -/
def Prog.Wp (X : (o : Op) → σ → Resp o → σ → Prop) (I : σ → Prop) (Q : α → σ → Prop) : Prog Op Resp α → σ → Prop
  | .ret a, s => I s ∧ Q a s
  | .op o k, s => I s ∧ ∀ r s', X o s r s' → (k r).Wp X I Q s'
  | .fork ts k, s => ∀ es ts' s', Tasks ts es ts' → ExecAll X s es s' →
      I s' ∧ ∀ bs, ts' = bs.map .ret → (k bs).Wp X I Q s'

variable {X : (o : Op) → σ → Resp o → σ → Prop} {I J : σ → Prop} {s : σ}

variable {t : Task Op Resp β} {f : β → ExceptT ε (Task Op Resp) γ} {x : ExceptT ε (Task Op Resp) β}

namespace Task

theorem Wp.mono {Q Q' : β → σ → Prop} (h : t.Wp X I Q s) (hI : ∀ s, I s → J s) (hQ : ∀ b s, I s → Q b s → Q' b s) :
    t.Wp X J Q' s := by
  induction t generalizing s with
  | ret b => exact ⟨hI s h.1, hQ b s h.1 h.2⟩
  | op o k ih => exact ⟨hI s h.1, fun r s' hx => ih r (h.2 r s' hx)⟩

theorem Wp.bind {f : β → Task Op Resp γ} {Q : β → σ → Prop} {Q' : γ → σ → Prop} (h : t.Wp X I Q s)
    (hf : ∀ b s, Q b s → I s → (f b).Wp X I Q' s) : (t >>= f).Wp X I Q' s := by
  induction t generalizing s with
  | ret b => exact hf b s h.2 h.1
  | op o k ih => exact ⟨h.1, fun r s' hx => ih r (h.2 r s' hx)⟩

theorem Wp.try {Q : Except ε β → σ → Prop} {Q' : Except ε γ → σ → Prop} (h : x.run.Wp X I Q s)
    (herr : ∀ e s, Q (.error e) s → I s → Q' (.error e) s) (hf : ∀ b s, Q (.ok b) s → I s → (f b).run.Wp X I Q' s) :
    (x >>= f).run.Wp X I Q' s := by
  refine Wp.bind (f := ExceptT.bindCont f) h fun r s hr hi => ?_
  cases r with
  | ok b => exact hf b s hr hi
  | error e => exact ⟨hi, herr e s hr hi⟩

theorem Wp.lift {Q : Except ε β → σ → Prop} (h : t.Wp X I (fun b s => Q (.ok b) s) s) :
    (ExceptT.lift t : ExceptT ε (Task Op Resp) β).run.Wp X I Q s :=
  Wp.bind (f := fun b => Task.ret (Except.ok b)) h fun _ _ hq hi => ⟨hi, hq⟩

theorem wp_perform {o : Op} {Q : Resp o → σ → Prop} (hI : I s) (h : ∀ r s', X o s r s' → I s' ∧ Q r s') :
    (perform o : Task Op Resp (Resp o)).Wp X I Q s := ⟨hI, h⟩

theorem Wp.inv {Q : β → σ → Prop} (h : t.Wp X I Q s) : I s := by
  cases t with
  | ret b => exact h.1
  | op o k => exact h.1

theorem Wp.sound {t' : Task Op Resp β} {Q : β → σ → Prop} (h : t.Wp X I Q s) {es : List (Ev Op Resp)} {s' : σ}
    (ht : Tr t es t') (hx : ExecAll X s es s') : t'.Wp X I Q s' := by
  induction ht generalizing s with
  | nil t => cases hx; exact h
  | cons e k _ ih =>
    obtain ⟨s₁, hx, hrest⟩ := hx
    exact ih (h.2 _ _ hx) hrest

end Task

variable {p : Prog Op Resp α} {ts : List (Task Op Resp β)}

namespace Prog

theorem Wp.mono {Q Q' : α → σ → Prop} (h : p.Wp X I Q s) (hI : ∀ s, I s → J s) (hQ : ∀ a s, I s → Q a s → Q' a s) :
    p.Wp X J Q' s := by
  induction p generalizing s with
  | ret b => exact ⟨hI s h.1, hQ b s h.1 h.2⟩
  | op o k ih => exact ⟨hI s h.1, fun r s' hx => ih r (h.2 r s' hx)⟩
  | fork ts k ih =>
    intro es ts' s' ht hx
    exact ⟨hI s' (h es ts' s' ht hx).1, fun bs hbs => ih bs ((h es ts' s' ht hx).2 bs hbs)⟩

theorem Wp.bind {f : α → Prog Op Resp γ} {Q : α → σ → Prop} {Q' : γ → σ → Prop} (h : p.Wp X I Q s)
    (hf : ∀ a s, Q a s → I s → (f a).Wp X I Q' s) : (p >>= f).Wp X I Q' s := by
  induction p generalizing s with
  | ret b => exact hf b s h.2 h.1
  | op o k ih => exact ⟨h.1, fun r s' hx => ih r (h.2 r s' hx)⟩
  | fork ts k ih =>
    intro es ts' s' ht hx
    exact ⟨(h es ts' s' ht hx).1, fun bs hbs => ih bs ((h es ts' s' ht hx).2 bs hbs)⟩

theorem Wp.try {x : ExceptT ε (Prog Op Resp) α} {f : α → ExceptT ε (Prog Op Resp) γ} {Q : Except ε α → σ → Prop}
    {Q' : Except ε γ → σ → Prop} (h : x.run.Wp X I Q s) (herr : ∀ e s, Q (.error e) s → I s → Q' (.error e) s)
    (hf : ∀ a s, Q (.ok a) s → I s → (f a).run.Wp X I Q' s) : (x >>= f).run.Wp X I Q' s := by
  refine Wp.bind (f := ExceptT.bindCont f) h fun r s hr hi => ?_
  cases r with
  | ok b => exact hf b s hr hi
  | error e => exact ⟨hi, herr e s hr hi⟩

theorem Wp.lift {Q : Except ε α → σ → Prop} (h : p.Wp X I (fun a s => Q (.ok a) s) s) :
    (ExceptT.lift p : ExceptT ε (Prog Op Resp) α).run.Wp X I Q s :=
  Wp.bind (f := fun a => Prog.ret (Except.ok a)) h fun _ _ hq hi => ⟨hi, hq⟩

theorem Wp.call {t : Task Op Resp α} {Q : α → σ → Prop} (h : t.Wp X I Q s) : (call t).Wp X I Q s := by
  induction t generalizing s with
  | ret b => exact h
  | op o k ih => exact ⟨h.1, fun r s' hx => ih r (h.2 r s' hx)⟩

/-- **Soundness.** What the rules establish holds along every trace. -/
theorem Wp.sound {q : Prog Op Resp α} {Q : α → σ → Prop} (h : p.Wp X I Q s) {es : List (Ev Op Resp)} {s' : σ}
    (ht : Tr p es q) (hx : ExecAll X s es s') : q.Wp X I Q s' := by
  induction ht generalizing s with
  | nil p => cases hx; exact h
  | step hs _ ih =>
    obtain ⟨s₁, hx, hrest⟩ := hx
    refine ih ?_ hrest
    cases hs with
    | op => exact h.2 _ _ hx
    | fork i e c k hi =>
      intro es ts' s' hts hes
      exact h (_ :: es) ts' s' (.cons i _ c hi hts) ⟨s₁, hx, hes⟩
  | join hj _ ih =>
    refine ih ?_ hx
    cases hj with
    | mk bs k => exact (h [] _ s (.nil _) rfl).2 bs rfl

theorem Wp.inv {Q : α → σ → Prop} (h : p.Wp X I Q s) : I s := by
  cases p with
  | ret a => exact h.1
  | op o k => exact h.1
  | fork ts k => exact (h [] ts s (.nil _) rfl).1

theorem wp_all {Q : List β → σ → Prop} (hI : ∀ es ts' s', Tasks ts es ts' → ExecAll X s es s' → I s')
    (hQ : ∀ es bs s', Tasks ts es (bs.map .ret) → ExecAll X s es s' → Q bs s') : (all ts).Wp X I Q s := by
  intro es ts' s' ht hx
  refine ⟨hI es ts' s' ht hx, ?_⟩
  rintro bs rfl
  exact ⟨hI es _ s' ht hx, hQ es bs s' ht hx⟩

/-- **Reading.** A program whose operations leave the state alone sees one state from beginning to end. -/
theorem wp_readOnly {Q : α → σ → Prop} {R : Op → Prop} (hp : p.Uses R) (hI : I s)
    (hread : ∀ o, R o → ∀ r s', X o s r s' → s' = s) (hQ : ∀ es a, Tr p es (.ret a) → (∀ e ∈ es, X e.op s e.resp s) →
    Q a s) : p.Wp X I Q s := by
  induction p with
  | ret a => exact ⟨hI, hQ [] a (.nil _) fun _ he => absurd he List.not_mem_nil⟩
  | op o k ih =>
    refine ⟨hI, fun r s' hx => ?_⟩
    obtain rfl := hread o hp.1 r s' hx
    refine ih r (hp.2 r) fun es a ht hall => ?_
    exact hQ (⟨0, o, r⟩ :: es) a (.step (.op ⟨0, o, r⟩ k) ht) (List.forall_mem_cons.mpr ⟨hx, hall⟩)
  | fork ts k ih =>
    intro es ts' s' hts hx
    have huse := hts.uses hp.1
    obtain ⟨rfl, hall⟩ := hx.const fun e he s' => hread _ (huse.1 e he) _ s'
    refine ⟨hI, ?_⟩
    rintro bs rfl
    refine ih bs (hp.2 bs) fun es' a ht hall' => ?_
    refine hQ (es ++ es') a ((hts.fork k).append (.join (.mk bs k) ht)) fun e he => ?_
    rcases List.mem_append.mp he with he | he
    · exact hall e he
    · exact hall' e he

end Prog

/-! ## Programs that may fail -/

/-- What holds when a fallible program returns, and what when it fails. -/
def Outcome (Q : β → σ → Prop) (E : ε → σ → Prop) : Except ε β → σ → Prop
  | .ok b, s => Q b s
  | .error e, s => E e s

/-- The judgement for a fallible task: an invariant, what holds when it returns and what when it fails. -/
def Task.Meets (X : (o : Op) → σ → Resp o → σ → Prop) (I : σ → Prop) (Q : β → σ → Prop) (E : ε → σ → Prop)
    (x : ExceptT ε (Task Op Resp) β) (s : σ) : Prop := x.run.Wp X I (Outcome Q E) s

def Prog.Meets (X : (o : Op) → σ → Resp o → σ → Prop) (I : σ → Prop) (Q : β → σ → Prop) (E : ε → σ → Prop)
    (x : ExceptT ε (Prog Op Resp) β) (s : σ) : Prop := x.run.Wp X I (Outcome Q E) s

section Meets

variable {Q Q' : β → σ → Prop} {R : γ → σ → Prop} {E E' : ε → σ → Prop}

variable {P : Op → Prop}

namespace Task

theorem meets_pure {b : β} (hI : I s) (hQ : Q b s) : Meets X I Q E (pure b : ExceptT ε (Task Op Resp) β) s := ⟨hI, hQ⟩

theorem Meets.bind (h : Meets X I Q E x s) (hf : ∀ b s, Q b s → I s → Meets X I R E (f b) s) :
    Meets X I R E (x >>= f) s :=
  Wp.try h (fun _ _ he _ => he) hf

theorem Meets.mono (h : Meets X I Q E x s) (hI : ∀ s, I s → J s) (hQ : ∀ b s, I s → Q b s → Q' b s)
    (hE : ∀ e s, I s → E e s → E' e s) : Meets X J Q' E' x s := by
  refine Wp.mono h hI fun r s hi hr => ?_
  cases r with
  | ok b => exact hQ b s hi hr
  | error e => exact hE e s hi hr

theorem Meets.mono_error (h : Meets X I Q E x s) (hE : ∀ e s, I s → E e s → E' e s) : Meets X I Q E' x s :=
  h.mono (fun _ h => h) (fun _ _ _ h => h) hE

theorem Meets.lift (h : t.Wp X I Q s) : Meets X I Q E (ExceptT.lift t : ExceptT ε (Task Op Resp) β) s :=
  Wp.lift h

theorem Meets.caught {ε' : Type} {F : ε' → σ → Prop} (h : Meets X I Q E x s) :
    Meets X I (Outcome Q E) F (ExceptT.lift x.run : ExceptT ε' (Task Op Resp) (Except ε β)) s := Wp.lift h

theorem eval_stays {exec : (o : Op) → σ → Resp o × σ} (ht : t.Uses P) (hstay : ∀ o, P o → (exec o s).2 = s) :
    (t.eval exec s).2 = s := by
  induction t with
  | ret b => rfl
  | op o k ih =>
    rw [Task.eval, hstay o ht.1]
    exact ih _ (ht.2 _)

theorem eval_keeps {τ : Type} {exec : (o : Op) → σ → Resp o × σ} (f : σ → τ) (ht : t.Uses P)
    (hkeep : ∀ o s, P o → f (exec o s).2 = f s) (s : σ) : f (t.eval exec s).2 = f s := by
  induction t generalizing s with
  | ret b => rfl
  | op o k ih =>
    rw [Task.eval, ih _ (ht.2 _)]
    exact hkeep o s ht.1

theorem wp_exact {exec : (o : Op) → σ → Resp o × σ} {Q : β → σ → Prop} (ht : t.Uses P)
    (hexact : ∀ o, P o → ∀ r s', X o s r s' → r = (exec o s).1 ∧ s' = s) (hstay : ∀ o, P o → (exec o s).2 = s)
    (hI : I s) (hQ : Q (t.eval exec s).1 s) : t.Wp X I Q s := by
  induction t with
  | ret b => exact ⟨hI, hQ⟩
  | op o k ih =>
    refine ⟨hI, fun r s' hx => ?_⟩
    obtain ⟨rfl, rfl⟩ := hexact o ht.1 r s' hx
    refine ih _ (ht.2 _) ?_
    rw [Task.eval, hstay o ht.1] at hQ
    exact hQ

end Task

namespace Prog

theorem Meets.bind {x : ExceptT ε (Prog Op Resp) β} {f : β → ExceptT ε (Prog Op Resp) γ} (h : Meets X I Q E x s)
    (hf : ∀ b s, Q b s → I s → Meets X I R E (f b) s) : Meets X I R E (x >>= f) s :=
  Wp.try h (fun _ _ he _ => he) hf

theorem Meets.mono {x : ExceptT ε (Prog Op Resp) β} (h : Meets X I Q E x s) (hI : ∀ s, I s → J s)
    (hQ : ∀ b s, I s → Q b s → Q' b s) (hE : ∀ e s, I s → E e s → E' e s) : Meets X J Q' E' x s := by
  refine Wp.mono h hI fun r s hi hr => ?_
  cases r with
  | ok b => exact hQ b s hi hr
  | error e => exact hE e s hi hr

theorem Meets.mono_error {x : ExceptT ε (Prog Op Resp) β} (h : Meets X I Q E x s) (hE : ∀ e s, I s → E e s → E' e s) :
    Meets X I Q E' x s := h.mono (fun _ h => h) (fun _ _ _ h => h) hE

theorem Meets.lift {p : Prog Op Resp β} (h : p.Wp X I Q s) :
    Meets X I Q E (ExceptT.lift p : ExceptT ε (Prog Op Resp) β) s :=
  Wp.lift h

theorem Meets.call (h : Task.Meets X I Q E x s) : Meets X I Q E (ExceptT.mk (call x.run) : ExceptT ε (Prog Op Resp) β)
    s := Wp.call h

/-- Tasks that run side by side and only read: each sees the one state. -/
theorem wp_all_readOnly {δ : Type} {l : List δ} {f : δ → Task Op Resp β} {Q : δ → β → Prop} {R : Op → Prop}
    (huse : ∀ x ∈ l, (f x).Uses R) (hread : ∀ o, R o → ∀ r s', X o s r s' → s' = s) (hI : I s)
    (h : ∀ x ∈ l, (f x).Wp X (fun _ => True) (fun b _ => Q x b) s) :
    (all (l.map f)).Wp X I (fun bs s' => s' = s ∧ List.Forall₂ Q l bs) s := by
  have hts : ∀ t ∈ l.map f, t.Uses R := by
    intro t ht
    obtain ⟨x, hx, rfl⟩ := List.mem_map.mp ht
    exact huse x hx
  have hstay : ∀ es ts' s', Tasks (l.map f) es ts' → ExecAll X s es s' → s' = s ∧ ∀ e ∈ es, X e.op s e.resp s :=
    fun es ts' s' ht hx => hx.const fun e he s' => hread _ ((ht.uses hts).1 e he) _ s'
  refine wp_all (fun es ts' s' ht hx => (hstay es ts' s' ht hx).1 ▸ hI) fun es bs s' ht hx => ?_
  obtain ⟨rfl, hall⟩ := hstay es _ s' ht hx
  refine ⟨rfl, ?_⟩
  have hdone := ht.done_map
  have hmem : ∀ x ∈ l, ∀ b, (∃ es', es'.Sublist es ∧ Task.Tr (f x) es' (.ret b)) → Q x b := by
    rintro x hx b ⟨es', hsub, htr⟩
    have hexec : ∀ es' : List (Ev Op Resp), (∀ e ∈ es', X e.op s' e.resp s') → ExecAll X s' es' s' := by
      intro es'
      induction es' with
      | nil => exact fun _ => rfl
      | cons e es' ih =>
        exact fun hes => ⟨s', hes e List.mem_cons_self, ih fun e' he' => hes e' (List.mem_cons_of_mem _ he')⟩
    exact ((h x hx).sound htr (hexec es' fun e he => hall e (hsub.subset he))).2
  clear hstay hts huse h hx ht
  induction hdone with
  | nil => exact .nil
  | cons hb _ ih =>
    exact .cons (hmem _ List.mem_cons_self _ hb) (ih fun x hx => hmem x (List.mem_cons_of_mem _ hx))

theorem wp_exact {exec : (o : Op) → σ → Resp o × σ} {Q : α → σ → Prop} (hp : p.Uses P)
    (hexact : ∀ o, P o → ∀ r s', X o s r s' → r = (exec o s).1 ∧ s' = s) (hstay : ∀ o, P o → (exec o s).2 = s)
    (hI : I s) (hQ : Q (p.eval exec s).1 s) : p.Wp X I Q s := by
  induction p with
  | ret a => exact ⟨hI, hQ⟩
  | op o k ih =>
    refine ⟨hI, fun r s' hx => ?_⟩
    obtain ⟨rfl, rfl⟩ := hexact o hp.1 r s' hx
    refine ih _ (hp.2 _) ?_
    rw [Prog.eval, hstay o hp.1] at hQ
    exact hQ
  | @fork β ts k ih =>
    rw [Prog.eval, evalTasks_const fun t ht => Task.eval_stays (hp.1 t ht) hstay] at hQ
    have hread : ∀ o, P o → ∀ r s', X o s r s' → s' = s := fun o ho r s' hx => (hexact o ho r s' hx).2
    have hall := wp_all_readOnly (I := I) (f := id) (Q := fun t b => b = (t.eval exec s).1) hp.1 hread hI fun t ht =>
      Task.wp_exact (hp.1 t ht) hexact hstay trivial rfl
    rw [List.map_id] at hall
    intro es ts' s' hts hx
    have hone := hall es ts' s' hts hx
    refine ⟨hone.1, fun bs hbs => ?_⟩
    obtain ⟨_, rfl, hforall⟩ := hone.2 bs hbs
    have hbs' : bs = ts.map fun t => (t.eval exec s').1 := by
      clear hone hbs hts hx hall hQ hp
      induction hforall with
      | nil => rfl
      | cons hb _ ih' => rw [List.map_cons, ← hb, ← ih']
    rw [hbs']
    exact ih _ (hp.2 _) hQ

end Prog

end Meets

/-! ## Evaluation -/

section Eval

variable (exec : (o : Op) → σ → Resp o × σ)

/-- The step relation of a deterministic executor. -/
def Runs (o : Op) (s : σ) (r : Resp o) (s' : σ) : Prop := (r, s') = exec o s

theorem Task.eval_trace (t : Task Op Resp β) (s : σ) :
    ∃ es, Task.Tr t es (.ret (t.eval exec s).1) ∧ ExecAll (Runs exec) s es (t.eval exec s).2 := by
  induction t generalizing s with
  | ret b => exact ⟨[], .nil _, rfl⟩
  | op o k ih =>
    obtain ⟨es, ht, hx⟩ := ih (exec o s).1 (exec o s).2
    exact ⟨⟨0, o, (exec o s).1⟩ :: es, .cons ⟨0, o, (exec o s).1⟩ k ht, (exec o s).2, rfl, hx⟩

/-- The first task that has not returned may run to its end. -/
theorem Tasks.run_first {done : List β} {ts' : List (Task Op Resp β)} {b : β} {es es' : List (Ev Op Resp)}
    (ht : Task.Tr t es (.ret b)) (h : Tasks ((done ++ [b]).map .ret ++ ts) es' ts') : Tasks (done.map .ret ++ t :: ts)
    (es ++ es') ts' := by
  generalize hq : Task.ret b = q at ht
  induction ht with
  | nil t =>
    subst hq
    simpa using h
  | cons e k _ ih =>
    refine .cons done.length e k (by simp) ?_
    simpa using ih hq

theorem evalTasks_trace (done : List β) (ts : List (Task Op Resp β)) (s : σ) :
    ∃ es, Tasks (done.map .ret ++ ts) es ((done ++ (evalTasks exec ts s).1).map .ret) ∧
      ExecAll (Runs exec) s es (evalTasks exec ts s).2 := by
  induction ts generalizing done s with
  | nil => exact ⟨[], by simpa [evalTasks] using Tasks.nil _, rfl⟩
  | cons t ts ih =>
    obtain ⟨es₁, ht, hx₁⟩ := t.eval_trace exec s
    obtain ⟨es₂, hts, hx₂⟩ := ih (done ++ [(t.eval exec s).1]) (t.eval exec s).2
    refine ⟨es₁ ++ es₂, ?_, execAll_append.mpr ⟨_, hx₁, hx₂⟩⟩
    simpa [evalTasks] using Tasks.run_first ht hts

theorem Prog.eval_trace (p : Prog Op Resp α) (s : σ) :
    ∃ es, Prog.Tr p es (.ret (p.eval exec s).1) ∧ ExecAll (Runs exec) s es (p.eval exec s).2 := by
  induction p generalizing s with
  | ret a => exact ⟨[], .nil _, rfl⟩
  | op o k ih =>
    obtain ⟨es, ht, hx⟩ := ih (exec o s).1 (exec o s).2
    exact ⟨⟨0, o, (exec o s).1⟩ :: es, .step (.op ⟨0, o, (exec o s).1⟩ k) ht, (exec o s).2, rfl, hx⟩
  | fork ts k ih =>
    obtain ⟨es₁, hts, hx₁⟩ := evalTasks_trace exec [] ts s
    obtain ⟨es₂, ht, hx₂⟩ := ih (evalTasks exec ts s).1 (evalTasks exec ts s).2
    exact ⟨es₁ ++ es₂, (hts.fork k).append (.join (.mk _ k) ht), execAll_append.mpr ⟨_, hx₁, hx₂⟩⟩

variable {exec}

/-- The state in which a task is that is stopped after some operations, unless it has returned. -/
def Task.stop (exec : (o : Op) → σ → Resp o × σ) : ℕ → Task Op Resp β → σ → σ
  | 0, _, s => s
  | _ + 1, .ret _, s => s
  | n + 1, .op o k, s => (k (exec o s).1).stop exec n (exec o s).2

theorem Task.Wp.stop {Q : β → σ → Prop} (h : t.Wp (Runs exec) I Q s) (n : ℕ) : I (t.stop exec n s) := by
  induction n generalizing t s with
  | zero => exact h.inv
  | succ n ih =>
    cases t with
    | ret b => exact h.1
    | op o k => exact ih (h.2 _ _ rfl)

theorem Task.Wp.eval {Q : β → σ → Prop} (h : t.Wp (Runs exec) I Q s) : Q (t.eval exec s).1 (t.eval exec s).2 := by
  obtain ⟨es, ht, hx⟩ := t.eval_trace exec s
  exact (h.sound ht hx).2

theorem Prog.Wp.eval {Q : α → σ → Prop} (h : p.Wp (Runs exec) I Q s) : Q (p.eval exec s).1 (p.eval exec s).2 := by
  obtain ⟨es, ht, hx⟩ := p.eval_trace exec s
  exact (h.sound ht hx).2

end Eval

/-! ## Runs of one program -/

variable {A : Unit → Type} {S : Sys Op Resp σ} {c₀ : Config Op Resp σ A} {n : ℕ}

/-- The run of a program that is alone is its trace, executed. -/
theorem Run.execAll (R : Run S c₀) (henv : ∀ s s', ¬ S.Env s s') (hn : n ≤ R.len) :
    ExecAll S.Exec c₀.store (R.events () n) (R.store n) := by
  induction n with
  | zero => exact R.store_zero
  | succ n ih =>
    refine execAll_append.mpr ⟨R.store n, ih (by omega), ?_⟩
    have hstep := R.store_step (n := n) (by omega)
    cases hl : R.label n with
    | act i o r => exact ⟨R.store (n + 1), R.exec_of_label (by omega) hl, rfl⟩
    | join i =>
      rcases hstep with h | ⟨i, o, r, h, _⟩ | ⟨_, h⟩
      · exact h
      · rw [hl] at h; cases h
      · exact absurd h (henv _ _)
    | env =>
      rcases hstep with h | ⟨i, o, r, h, _⟩ | ⟨_, h⟩
      · exact h
      · rw [hl] at h; cases h
      · exact absurd h (henv _ _)

theorem Prog.Wp.of_run (R : Run S c₀) (henv : ∀ s s', ¬ S.Env s s') {Q : A () → σ → Prop}
    (h : (c₀.pc ()).Wp S.Exec I Q c₀.store) (hn : n ≤ R.len) : ((R.cfg n).pc ()).Wp S.Exec I Q (R.store n) :=
  h.sound (R.tr () hn) (R.execAll henv hn)

end Sched
