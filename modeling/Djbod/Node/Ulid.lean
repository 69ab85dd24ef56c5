import Djbod.Core.ShardFile

/-!
# Version identifiers

A coordinator gives each body an identifier of 48 bits of milliseconds and 80 random bits. Within a millisecond it
counts the random part up, which wraps around.

* `VersionGenerator.next` : what happens under the lock;
* `Callers`, `Callers.step` : any number of callers, each of which reads the clock before it takes the lock;
* `versions_increase_iff` : the identifiers increase exactly as long as the random part is never counted up from its
  greatest value.
-/

namespace Djbod

/-- What a generator keeps under its lock: the milliseconds and the random part of the last identifier. -/
structure VersionGenerator where
  lastMs : ℕ
  lastRandom : ℕ
  ms_lt : lastMs < 2 ^ 48
  random_lt : lastRandom < 2 ^ 80

namespace VersionGenerator

def new : VersionGenerator := ⟨0, 0, by decide, by decide⟩

/-- A reading of the clock, in milliseconds since the epoch: a time before it counts as the epoch, and 48 bits are
kept. -/
def nowMs (millis : Option ℕ) : Fin (2 ^ 48) :=
  ⟨(millis.map fun n => n % 2 ^ 64).getD 0 &&& 0x0000FFFFFFFFFFFF, lt_of_le_of_lt Nat.and_le_right (by decide)⟩

def drawn (bytes : Vector UInt8 10) : ℕ := bytes.toList.foldl (fun value b => (value <<< 8) ||| b.toNat) 0

theorem foldl_bytes_lt (bytes : List UInt8) {value n : ℕ} (h : value < 2 ^ n) :
    bytes.foldl (fun value b => (value <<< 8) ||| b.toNat) value < 2 ^ (n + 8 * bytes.length) := by
  induction bytes generalizing value n with
  | nil => exact h
  | cons b rest ih =>
    have hshift : value <<< 8 < 2 ^ (n + 8) := by
      rw [Nat.shiftLeft_eq, Nat.pow_add]
      exact Nat.mul_lt_mul_of_pos_right h (by decide)
    have hbyte : b.toNat < 2 ^ (n + 8) := b.toNat_lt.trans_le (Nat.pow_le_pow_right (by decide) (by omega))
    have hrest := ih (Nat.or_lt_two_pow hshift hbyte)
    rwa [show n + 8 + 8 * rest.length = n + 8 * (b :: rest).length by rw [List.length_cons]; omega] at hrest

theorem drawn_lt (bytes : Vector UInt8 10) : drawn bytes < 2 ^ 80 := by
  have h := @foldl_bytes_lt bytes.toList 0 0 (by decide)
  rwa [Vector.length_toList] at h

/-- The random part that follows a reading of the clock. -/
def nextRandom (g : VersionGenerator) (now : Fin (2 ^ 48)) (bytes : Vector UInt8 10) : ℕ :=
  if now > g.lastMs then drawn bytes
  -- The same millisecond, or a clock that stepped back.
  else (g.lastRandom + 1) &&& (1 <<< 80 - 1)

theorem nextRandom_lt (g : VersionGenerator) (now : Fin (2 ^ 48)) (bytes : Vector UInt8 10) :
    g.nextRandom now bytes < 2 ^ 80 := by
  unfold nextRandom
  split
  · exact drawn_lt bytes
  · exact lt_of_le_of_lt Nat.and_le_right (by decide)

/-- The generator after an identifier is made from a reading of the clock. -/
def advance (g : VersionGenerator) (now : Fin (2 ^ 48)) (bytes : Vector UInt8 10) : VersionGenerator where
  lastMs := max now g.lastMs
  lastRandom := g.nextRandom now bytes
  ms_lt := max_lt now.isLt g.ms_lt
  random_lt := g.nextRandom_lt now bytes

def version (g : VersionGenerator) : VersionId := Fin.ofNat (2 ^ 128) ((g.lastMs <<< 80) ||| g.lastRandom)

def next (g : VersionGenerator) (now : Fin (2 ^ 48)) (bytes : Vector UInt8 10) : VersionId × VersionGenerator :=
  ((g.advance now bytes).version, g.advance now bytes)

theorem version_val (g : VersionGenerator) : (g.version : ℕ) = g.lastMs * 2 ^ 80 + g.lastRandom := by
  have hms := g.ms_lt
  have hrandom := g.random_lt
  show ((g.lastMs <<< 80) ||| g.lastRandom) % 2 ^ 128 = _
  rw [← Nat.shiftLeft_add_eq_or_of_lt hrandom, Nat.shiftLeft_eq]
  exact Nat.mod_eq_of_lt (by omega)

/-- The next identifier is greater exactly when the clock went on or there is a random part left to count up to. -/
theorem version_lt_advance_iff (g : VersionGenerator) (now : Fin (2 ^ 48)) (bytes : Vector UInt8 10) :
    g.version < (g.advance now bytes).version ↔ g.lastMs < now ∨ g.lastRandom + 1 < 2 ^ 80 := by
  have hrandom := g.random_lt
  rw [Fin.lt_def, version_val, version_val]
  show _ < max (now : ℕ) g.lastMs * 2 ^ 80 + g.nextRandom now bytes ↔ _
  by_cases hlater : g.lastMs < now
  · rw [max_eq_left hlater.le]
    exact iff_of_true (by omega) (.inl hlater)
  · have hcount : g.nextRandom now bytes = (g.lastRandom + 1) % 2 ^ 80 := by
      rw [nextRandom, if_neg hlater]
      exact Nat.and_two_pow_sub_one_eq_mod _ 80
    rw [max_eq_right (Nat.le_of_not_lt hlater), hcount]
    omega

end VersionGenerator

/-! ## Any number of callers -/

/-- A generator with its callers: what each has read from the clock, and the identifiers given so far, the last one
first. -/
structure Callers (ι : Type) where
  generator : VersionGenerator
  reading : ι → Option (Fin (2 ^ 48))
  issued : List VersionId

/-- What a caller does: it reads the clock, and later takes the lock, under which bytes are drawn if they are needed. -/
inductive CallerStep (ι : Type) where
  | read (caller : ι) (millis : Option ℕ)
  | lock (caller : ι) (bytes : Vector UInt8 10)

namespace Callers

variable {ι : Type} [DecidableEq ι]

def start : Callers ι := ⟨.new, fun _ => none, []⟩

def step (s : Callers ι) : CallerStep ι → Callers ι
  | .read caller millis => { s with reading := Function.update s.reading caller (some (VersionGenerator.nowMs millis)) }
  | .lock caller bytes =>
    match s.reading caller with
    | none => s
    | some now =>
      let (version, generator) := s.generator.next now bytes
      ⟨generator, Function.update s.reading caller none, version :: s.issued⟩

def run (steps : List (CallerStep ι)) : Callers ι := steps.foldl step start

/-- A caller that takes the lock read a later millisecond than the last identifier has, or finds a random part below the
greatest. -/
def Spare (s : Callers ι) : CallerStep ι → Prop
  | .read _ _ => True
  | .lock caller _ => ∀ now, s.reading caller = some now → s.generator.lastMs < now ∨
      s.generator.lastRandom + 1 < 2 ^ 80

theorem step_cases (s : Callers ι) (e : CallerStep ι) :
    (s.step e).generator = s.generator ∧ (s.step e).issued = s.issued ∧ s.Spare e ∨
      ∃ now bytes, (s.step e).generator = s.generator.advance now bytes ∧
        (s.step e).issued = (s.generator.advance now bytes).version :: s.issued ∧
        (s.Spare e ↔ s.generator.lastMs < now ∨ s.generator.lastRandom + 1 < 2 ^ 80) := by
  cases e with
  | read caller millis => exact .inl ⟨rfl, rfl, trivial⟩
  | lock caller bytes =>
    simp only [step, Spare]
    cases s.reading caller with
    | none => exact .inl ⟨rfl, rfl, fun now hnow => nomatch hnow⟩
    | some now =>
      refine .inr ⟨now, bytes, rfl, rfl, fun h => h now rfl, fun h now' hnow => ?_⟩
      obtain rfl := Option.some.inj hnow
      exact h

theorem issued_suffix_step (s : Callers ι) (e : CallerStep ι) : s.issued <:+ (s.step e).issued := by
  rcases s.step_cases e with ⟨-, hissued, -⟩ | ⟨now, bytes, -, hissued, -⟩
  · rw [hissued]
  · rw [hissued]
    exact List.suffix_cons _ _

/-- The identifiers given increase and the generator keeps the last of them. -/
structure Increasing (s : Callers ι) : Prop where
  issued : s.issued.Pairwise (· > ·)
  last : s.issued = [] ∧ s.generator = .new ∨ s.issued.head? = some s.generator.version

omit [DecidableEq ι] in
theorem Increasing.le {s : Callers ι} (h : s.Increasing) : ∀ v ∈ s.issued, v ≤ s.generator.version := by
  intro v hv
  rcases h.last with ⟨hnil, -⟩ | hhead
  · rw [hnil] at hv
    cases hv
  · obtain ⟨rest, hrest⟩ := List.head?_eq_some_iff.mp hhead
    have hpair := h.issued
    rw [hrest] at hv hpair
    rcases List.mem_cons.mp hv with rfl | hv
    · exact le_rfl
    · exact ((List.pairwise_cons.mp hpair).1 v hv).le

theorem step_increasing_iff {s : Callers ι} (h : s.Increasing) (e : CallerStep ι) :
    (s.step e).issued.Pairwise (· > ·) ↔ s.Spare e := by
  rcases s.step_cases e with ⟨-, hissued, hspare⟩ | ⟨now, bytes, -, hissued, hspare⟩
  · rw [hissued]
    exact iff_of_true h.issued hspare
  · rw [hissued, hspare, ← s.generator.version_lt_advance_iff now bytes, List.pairwise_cons, and_iff_left h.issued]
    constructor
    · intro hall
      rcases h.last with ⟨-, hnew⟩ | hhead
      · rw [hnew]
        exact (VersionGenerator.version_lt_advance_iff _ _ _).mpr (.inr (by decide))
      · exact hall _ (List.mem_of_head? hhead)
    · exact fun hlt v hv => lt_of_le_of_lt (h.le v hv) hlt

theorem Increasing.step {s : Callers ι} (h : s.Increasing) {e : CallerStep ι}
    (hissued : (s.step e).issued.Pairwise (· > ·)) : (s.step e).Increasing := by
  refine ⟨hissued, ?_⟩
  rcases s.step_cases e with ⟨hgen, hsame, -⟩ | ⟨now, bytes, hgen, hnew, -⟩
  · rw [hgen, hsame]
    exact h.last
  · rw [hgen, hnew]
    exact .inr rfl

theorem run_increasing {steps : List (CallerStep ι)} (h : (run steps).issued.Pairwise (· > ·)) :
    (run steps).Increasing := by
  induction steps using List.reverseRecOn with
  | nil => exact ⟨.nil, .inl ⟨rfl, rfl⟩⟩
  | append_singleton steps e ih =>
    rw [run, List.foldl_append] at h ⊢
    exact (ih (h.sublist (issued_suffix_step _ e).sublist)).step h

/-- **Every identifier is greater than all before it exactly when no caller finds the greatest random part** in a
millisecond that its reading of the clock does not pass. -/
theorem versions_increase_iff (steps : List (CallerStep ι)) : (run steps).issued.Pairwise (· > ·) ↔
    ∀ front e back, steps = front ++ e :: back → (run front).Spare e := by
  induction steps using List.reverseRecOn with
  | nil => exact iff_of_true .nil fun front e back h => by simp at h
  | append_singleton steps last ih =>
    have hlast : run (steps ++ [last]) = (run steps).step last := List.foldl_append
    rw [hlast]
    constructor
    · intro h front e back hsplit
      have hbefore := h.sublist (issued_suffix_step _ last).sublist
      rcases List.eq_nil_or_concat back with rfl | ⟨back, e', rfl⟩
      · obtain ⟨rfl, rfl⟩ := List.append_singleton_inj.mp hsplit
        exact (step_increasing_iff (run_increasing hbefore) last).mp h
      · rw [List.concat_eq_append, ← List.cons_append, ← List.append_assoc] at hsplit
        exact ih.mp hbefore front e back (List.append_singleton_inj.mp hsplit).1
    · intro h
      have hbefore := ih.mpr fun front e back hsplit => h front e (back ++ [last])
        (by rw [hsplit, List.append_assoc, List.cons_append])
      exact (step_increasing_iff (run_increasing hbefore) last).mpr (h steps last [] rfl)

end Callers

/-- Two identifiers of one millisecond, the first with all its random bits set: the second is smaller. -/
theorem versions_wrap :
    (Callers.run [CallerStep.read () (some 1), .lock () (.replicate 10 255), .read () (some 1),
      .lock () (.replicate 10 0)]).issued = [2 ^ 80, 2 ^ 80 + (2 ^ 80 - 1)] ∧
    ¬(Callers.run [CallerStep.read () (some 1), .lock () (.replicate 10 255), .read () (some 1),
      .lock () (.replicate 10 0)]).issued.Pairwise (· > ·) := by
  decide +kernel

end Djbod
