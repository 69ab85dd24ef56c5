import Djbod.Node.DeleteTrace
import Djbod.Node.Moments

/-!
# The files over a run

How a record or shard file that is there at one moment of a run and not at another came and went.

* `store_change` : a step leaves the files alone or is an operation of one of the programs;
* `record_changed`, `shard_changed` : the operation behind a change;
* `events_executed`, `Executed.cleared` : a program's events were executed, each at its moment.
-/

namespace Djbod

open Sched

variable {ι : Type} [DecidableEq ι] {α : ι → Type} {c₀ : Config Op Resp Store α} (R : Run healthy c₀)

theorem store_change {n : ℕ} (hn : n < R.len) :
    R.store (n + 1) = R.store n ∨ ∃ i o r, R.label n = .act i o r ∧ R.store (n + 1) = (exec o (R.store n)).2 := by
  rcases R.store_step hn with h | ⟨i, o, r, hl, hx⟩ | ⟨_, h⟩
  · exact .inl h
  · exact .inr ⟨i, o, r, hl, Exec.store hx⟩
  · exact absurd h not_false

theorem up_always {C : Cluster} (hup : Up C c₀.store) {n : ℕ} (hn : n ≤ R.len) : Up C (R.store n) := by
  induction n with
  | zero => rw [R.store_zero]; exact hup
  | succ n ih =>
    have h := ih (Nat.le_of_succ_le hn)
    rcases store_change R hn with hs | ⟨_, o, _, _, hs⟩
    · rw [hs]; exact h
    · rw [hs]; exact h.exec o

theorem events_executed (i : ι) : Executed R.store (R.events i R.len) := fun _ he => R.exec_of_mem le_rfl he

theorem Executed.cleared {σ : ℕ → Store} {es : List (Ev Op Resp)} {d : DeviceId} {kh : KeyHash} {v : VersionId}
    (hx : Executed σ es) (h : Cleared es d kh v) : ∃ e ∈ es, (σ (e.time + 1)).getRecord d kh v = none := by
  obtain ⟨n, hmem | hmem⟩ := h
  · refine ⟨_, hmem, ?_⟩
    obtain ⟨hres, hs⟩ := Prod.mk.inj (hx _ hmem)
    rw [hs]
    cases hd : (σ n).disk d with
    | none => simp [Store.getRecord, hd]
    | some disk =>
      rw [hd] at hres
      have hkeys : ¬ ∃ key ∈ disk.records.keys, key.1 = kh := by
        rintro ⟨key, hkey, rfl⟩
        have hany : (disk.records.keys.any fun k => k.1 == key.1) = true := List.any_eq_true.mpr ⟨key, hkey, by simp⟩
        dsimp only at hres
        rw [hany] at hres
        cases hres
      simp only [Store.getRecord, hd, Option.bind_some]
      rw [AList.lookup_eq_none]
      exact fun hin => hkeys ⟨_, hin, rfl⟩
  · refine ⟨_, hmem, ?_⟩
    rw [(Exec.store (hx _ hmem)), exec_removeRecord]

variable {d : DeviceId} {kh : KeyHash} {v : VersionId} {a b : ℕ}

theorem exists_exec {P : Store → Prop} (hab : a ≤ b) (hb : b ≤ R.len) (ha : ¬ P (R.store a)) (h : P (R.store b)) :
    ∃ n, a ≤ n ∧ n < b ∧ ∃ i o resp, R.label n = .act i o resp ∧ ¬ P (R.store n) ∧ P (exec o (R.store n)).2 := by
  obtain ⟨n, han, hnb, hno, hyes⟩ := R.exists_change hab ha h
  rcases store_change R (n := n) (by omega) with hs | ⟨i, o, resp, hl, hs⟩
  · exact absurd (hs ▸ hyes) hno
  · exact ⟨n, han, hnb, i, o, resp, hl, hno, hs ▸ hyes⟩

/-- What has become true of a record file became so as it was removed or written. -/
theorem record_changed {P : Option RecordFile → Prop} (hab : a ≤ b) (hb : b ≤ R.len)
    (ha : ¬ P ((R.store a).getRecord d kh v)) (h : P ((R.store b).getRecord d kh v)) :
    ∃ n, a ≤ n ∧ n < b ∧ ∃ i, (∃ resp, R.label n = .act i (.removeRecord d kh v) resp ∧ P none) ∨
      ∃ r resp, R.label n = .act i (.writeRecord d r) resp ∧ r.keyHash = kh ∧ r.version = v ∧ P (some (.ok r)) := by
  obtain ⟨n, han, hnb, i, o, resp, hl, hno, hyes⟩ := exists_exec R (P := fun s => P (s.getRecord d kh v)) hab hb ha h
  refine ⟨n, han, hnb, i, ?_⟩
  rcases exec_getRecord o (R.store n) d kh v with hsame | ⟨r, rfl, rfl, rfl, hd⟩ | rfl
  · exact absurd (hsame ▸ hyes) hno
  · exact .inr ⟨r, resp, hl, rfl, rfl, exec_writeRecord hd r ▸ hyes⟩
  · rw [exec_removeRecord] at hyes
    exact .inl ⟨resp, hl, hyes⟩

theorem shard_changed {j : ℕ} {P : Option ShardContent → Prop} (hab : a ≤ b) (hb : b ≤ R.len)
    (ha : ¬ P ((R.store a).getShard d kh v j)) (h : P ((R.store b).getShard d kh v j)) :
    ∃ n, a ≤ n ∧ n < b ∧ ∃ i, (∃ resp, R.label n = .act i (.removeShard d kh v j) resp ∧ P none) ∨
      ∃ file resp, R.label n = .act i (.finishShard d file) resp ∧ file.header.keyHash = kh ∧
      file.header.versionId = v ∧
        file.header.shardIndex = j ∧ P (some (.ok file)) := by
  obtain ⟨n, han, hnb, i, o, resp, hl, hno, hyes⟩ := exists_exec R (P := fun s => P (s.getShard d kh v j)) hab hb ha h
  refine ⟨n, han, hnb, i, ?_⟩
  rcases exec_getShard o (R.store n) d kh v j with hsame | ⟨file, rfl, rfl, rfl, rfl, hd⟩ | rfl
  · exact absurd (hsame ▸ hyes) hno
  · exact .inr ⟨file, resp, hl, rfl, rfl, rfl, exec_finishShard hd file ▸ hyes⟩
  · rw [exec_removeShard] at hyes
    exact .inl ⟨resp, hl, hyes⟩

end Djbod
