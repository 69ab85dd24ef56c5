import Djbod.Object.States

/-!
# What a read reports

A read ends with a list of what it rebuilt: one entry for each damaged block on its way, and one for each shard that it
could not open, over the stripes from the one at which it was first wanted.

* `Asks` : the blocks that a read asks for;
* `get_reports` : the list covers exactly what was asked for and did not arrive good, each once.
-/

namespace Djbod

open Sched

section Asked

variable (X : Crates) (C : Cluster) (s : Store) (scheme : Scheme) (r : MetadataRecord) (body : Bytes)

/-- A read asks for the data shards at every stripe, and for the parity shards from the first stripe on at which a block
of a data shard does not arrive good. -/
def Asks (t i : ℕ) : Prop :=
  t < stripeCount scheme r body ∧ (i < scheme.dataShards ∨
    i < scheme.totalShards ∧ ∃ t' ≤ t, ∃ j < scheme.dataShards, arrivesGood X C s scheme r body t' j = false)

instance (t i : ℕ) : Decidable (Asks X C s scheme r body t i) := inferInstanceAs (Decidable (_ ∧ _))

end Asked

variable {X : Crates} {C : Cluster} {s : Store} {scheme : Scheme} {r : MetadataRecord} {body : Bytes} {key : String}

/-! ## What is asked for -/

variable {t : ℕ}

theorem mem_openIndices_false {i : ℕ} : i ∈ openIndices scheme false ↔ i < scheme.dataShards := List.mem_range

theorem asks_iff (h : Detected X C s scheme r body) (hlib : ReedSolomonCode.Lawful X.reedSolomon scheme) (i : ℕ) :
    Asks X C s scheme r body t i ↔
      t < stripeCount scheme r body ∧ i ∈ openIndices scheme (parityBefore X C s scheme r body (t + 1)) := by
  refine and_congr_right fun ht => ?_
  have hparity : parityBefore X C s scheme r body (t + 1) = true ↔
      ∃ t' ≤ t, ∃ j < scheme.dataShards, arrivesGood X C s scheme r body t' j = false := by
    simp only [parityBefore, List.any_eq_true, Bool.or_eq_true, Scheme.dataShardIndices, List.mem_range,
      Bool.not_eq_true', Nat.lt_succ_iff]
    constructor
    · rintro ⟨j, hj, hnone | ⟨t', ht', hno⟩⟩
      · refine ⟨t, le_rfl, j, hj, ?_⟩
        rw [arrivesGood, Option.isNone_iff_eq_none.mp hnone]
        rfl
      · exact ⟨t', ht', j, hj, (arrivesGood_eq_usable h hlib (ht'.trans_lt ht) j).trans hno⟩
    · rintro ⟨t', ht', j, hj, hno⟩
      exact ⟨j, hj, .inr ⟨t', ht', (arrivesGood_eq_usable h hlib (ht'.trans_lt ht) j).symm.trans hno⟩⟩
  rw [← hparity]
  have hle := scheme.data_le_total
  cases parityBefore X C s scheme r body (t + 1) with
  | true =>
    simp only [mem_openIndices_true, and_true]
    omega
  | false => simp [mem_openIndices_false]

section Read

variable {out : Outage} {fuel : ℕ} {answer : GetAnswer} {done : StreamEnd}

theorem getObject_trusts (hfuel : copyCount C (X.hashKey key) s < fuel)
    (hget : ((getObject X C fuel key).run.eval (execOut out) ⟨s, none⟩).1 = .ok answer) :
    ∃ missing, (newestReadableVersion X C fuel key).run.eval (execOut out)
    ⟨s, none⟩ = (.ok (answer.record, missing), ⟨s, none⟩) := by
  have hquiet : ((newestReadableVersion X C fuel key).run.eval (execOut out) ⟨s, none⟩).2 = ⟨s, none⟩ := by
    unfold newestReadableVersion
    cases checkKey C key with
    | error e => rfl
    | ok u =>
      by_cases hgood : ∀ d ∈ reached C out.down, Undamaged s (X.hashKey key) d
      · obtain ⟨found, hlook, _⟩ := lookupReachable_sees (X := X) (execOut_sees out s) hgood hfuel
        dsimp only
        rw [Prog.eval_try_ok hlook]
        cases newestReadable X C key found <;> rfl
      · push Not at hgood
        obtain ⟨e, hlook, _⟩ := lookupReachable_bad (X := X) (execOut_sees out s) hgood hfuel
        dsimp only
        rw [Prog.eval_try_error hlook]
  have hrun : (getObject X C fuel key).run.eval (execOut out) ⟨s, none⟩ = (.ok answer, _) := Prod.ext hget rfl
  obtain ⟨missing, w₁, hnew⟩ := getObject_record hrun
  rw [hnew] at hquiet
  exact ⟨missing, by rw [hnew, ← hquiet]⟩

/-- **A read reports exactly what it rebuilt.** Whatever shards cannot be opened and whatever blocks are damaged, the
list that a read ends with covers each block it asked for and did not receive good once, and no other. -/
theorem get_reports (hd : Describes X key answer.record scheme body)
    (hlib : ReedSolomonCode.Lawful X.reedSolomon scheme)
    (hf : Detected X C (s.behind C out.down) scheme answer.record body) (hfuel : copyCount C (X.hashKey key) s < fuel)
    (hget : ((getObject X C fuel key).run.eval (execOut out) ⟨s, none⟩).1 = .ok answer)
    (hend : answer.ended = .ok done) (i t : ℕ) :
    covered done.reconstructed i t = if Asks X C (s.behind C out.down) scheme answer.record body t i ∧
      arrivesGood X C (s.behind C out.down) scheme answer.record body t i = false then 1 else 0 := by
  obtain ⟨missing, hnew⟩ := getObject_trusts hfuel hget
  have hreport : Reports X C (s.behind C out.down) scheme answer.record body done.reconstructed := by
    rcases getObject_shows hd hlib (execOut_shows X C s answer.record out) hnew hf with ⟨_, heval, _, hreport,
      _⟩ | ⟨e, heval, _⟩
    · rw [heval] at hget
      cases hget
      exact hreport done hend
    · rw [heval] at hget
      cases hget
  rw [hreport.1]
  refine if_congr ?_ rfl rfl
  rw [asks_iff hf hlib, and_assoc]
  exact and_congr_right fun ht => and_congr_right fun _ => by rw [arrivesGood_eq_usable hf hlib ht]

end Read

/-- The data shard's file is not there: the read takes the replica and reports the only block of the data shard. -/
theorem get_reports_replica : ∃ answer done,
    ((getObject smallCrates twoDevices 9 "k").run.eval (execOut noOutage) ⟨byteStore [1], none⟩).1 = .ok answer ∧
      answer.ended = .ok done ∧ covered done.reconstructed 0 0 = 1 := by
  have hread : (((getObject smallCrates twoDevices 9 "k").run.eval (execOut noOutage)
      ⟨byteStore [1], none⟩).1.map fun answer =>
      (answer.record, answer.ended.isOk)).toOption = some (byteRecord 1 0 [0, 1], true) := by decide +kernel
  cases hget : ((getObject smallCrates twoDevices 9 "k").run.eval (execOut noOutage) ⟨byteStore [1], none⟩).1 with
  | error e =>
    rw [hget] at hread
    cases hread
  | ok answer =>
    rw [hget] at hread
    have hboth : (answer.record, answer.ended.isOk) = (byteRecord 1 0 [0, 1], true) := Option.some.inj hread
    obtain ⟨hrec, hok⟩ := Prod.mk.inj hboth
    cases hend : answer.ended with
    | error e =>
      rw [hend] at hok
      cases hok
    | ok done =>
      have hreports := @get_reports smallCrates twoDevices (byteStore [1]) pair [7] "k" noOutage 9 answer done
        (hrec ▸ byte_describes 1 0 (by decide)) (fun _ => mirror_recovers 1) (hrec ▸ byteStore_detected)
        (by decide +kernel) hget hend 0 0
      refine ⟨answer, done, rfl, hend, ?_⟩
      rw [hreports, hrec]
      decide +kernel

end Djbod
