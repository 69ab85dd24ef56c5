import Djbod.Node.RepairTrust
import Djbod.Object.Small

/-!
# A read and a repair of the same copies

* `read_repair_trust` : the two come to the same result exactly when the copies found let them decide alike;
* `read_repair_differ` : an older version whose copies disagree stops the read and not the repair.
-/

namespace Djbod

open Sched

/-- **A read and a repair trust the same records**, every node reachable, exactly when the copies that their lookup
finds are such that the two decide alike. -/
theorem read_repair_trust {X : Crates} {C : Cluster} {key : String} {fuel : ℕ} {s : Store}
    {res : Except ErrorDetail Lookup} (hlook : (lookupReachable X C fuel (X.hashKey key)).run.eval exec s = (res, s))
    (hreach : ∀ found, res = .ok found → found.unreachable = []) :
    SameResult ((newestReadableVersion X C fuel key).run.eval exec s).1
      ((repairableRecord X C fuel key).run.eval exec s).1 ↔
      (checkKey C key = .ok () → ∀ found, res = .ok found → SameTrust key found.records) := by
  cases hkey : checkKey C key with
  | error e =>
    have hread : ((newestReadableVersion X C fuel key).run.eval exec s).1 = .error e := by
      unfold newestReadableVersion
      rw [hkey]
      rfl
    have hrep : ((repairableRecord X C fuel key).run.eval exec s).1 = .error e := by
      unfold repairableRecord
      rw [hkey]
      rfl
    rw [hread, hrep]
    exact ⟨fun _ => nofun, fun _ => trivial⟩
  | ok u =>
    have hcheck : (require (checkKey C key)).run.eval exec s = (.ok (), s) := by rw [hkey]; rfl
    cases res with
    | error e =>
      have hall : (lookup X C fuel (X.hashKey key)).run.eval exec s = (.error e, s) := Prog.eval_try_error hlook
      have hread : ((newestReadableVersion X C fuel key).run.eval exec s).1 = .error e := by
        unfold newestReadableVersion
        rw [hkey]
        exact congrArg Prod.fst (Prog.eval_try_error hlook)
      have hrep : ((repairableRecord X C fuel key).run.eval exec s).1 = .error e := by
        unfold repairableRecord
        rw [Prog.eval_try_ok hcheck, Prog.eval_try_error hall]
      rw [hread, hrep]
      exact ⟨fun _ _ _ => nofun, fun _ => trivial⟩
    | ok found =>
      have hall : (lookup X C fuel (X.hashKey key)).run.eval exec s = (.ok found.records, s) := by
        unfold lookup
        rw [Prog.eval_try_ok hlook, hreach found rfl]
        rfl
      have hread : ((newestReadableVersion X C fuel key).run.eval exec s).1 = newestReadable X C key found := by
        unfold newestReadableVersion
        rw [hkey]
        dsimp only
        rw [Prog.eval_try_ok hlook]
        cases newestReadable X C key found <;> rfl
      have hrep : ((repairableRecord X C fuel key).run.eval exec s).1 = repairable X key found.records := by
        unfold repairableRecord
        rw [Prog.eval_try_ok hcheck, Prog.eval_try_ok hall]
        rfl
      rw [hread, hrep, sameResult_iff]
      refine ⟨fun h _ found' hf => ?_, fun h => h rfl found rfl⟩
      cases hf
      exact h

def wholeStore : Store := holding [⟨0, smallRecord 2 0 [0, 1]⟩, ⟨1, smallRecord 2 0 [0, 1]⟩]

/-- Both trust it. -/
theorem read_repair_trust_whole : ∃ found,
    (lookupReachable smallCrates (small 1 [.active, .active]) 9 0).run.eval exec wholeStore = (.ok found, wholeStore) ∧
      SameTrust "k" found.records := by
  have hstore := lookupReachable_store smallCrates (small 1 [.active, .active]) 9 0 wholeStore
  have hall : (((lookupReachable smallCrates (small 1 [.active, .active]) 9 0).run.eval exec wholeStore).1.map
      fun found =>
      found.unreachable.isEmpty).toOption = some true := by decide +kernel
  have hsame : SameResult ((newestReadableVersion smallCrates (small 1 [.active, .active]) 9 "k").run.eval
    exec wholeStore).1
      ((repairableRecord smallCrates (small 1 [.active, .active]) 9 "k").run.eval exec wholeStore).1 := by
        decide +kernel
  have hkey : checkKey (small 1 [.active, .active]) "k" = .ok () := by decide +kernel
  obtain ⟨res, s', hlook⟩ : ∃ res s', (lookupReachable smallCrates (small 1 [.active, .active]) 9 0).run.eval
    exec wholeStore =
      (res, s') := ⟨_, _, rfl⟩
  rw [hlook] at hall hstore
  obtain rfl : s' = wholeStore := hstore
  cases res with
  | error e => cases hall
  | ok found =>
    have hreach : found.unreachable = [] := by simpa [Except.map, Except.toOption] using hall
    refine ⟨found, hlook, (read_repair_trust hlook fun found' h => ?_).mp hsame hkey found rfl⟩
    cases h
    exact hreach

/-- Version `2` is whole. Of version `1`, two placements at one revision are left, each on one device. -/
def splitStore : Store :=
  holding [⟨0, smallRecord 2 0 [0, 1]⟩, ⟨1, smallRecord 2 0 [0, 1]⟩, ⟨2, smallRecord 1 1 [2, 1]⟩,
    ⟨3, smallRecord 1 1 [0, 3]⟩]

/-- The read is refused for the sake of the older version; the repair trusts the newest. -/
theorem read_repair_differ :
    ¬ SameResult
      ((newestReadableVersion smallCrates (small 1 [.active, .active, .active, .active]) 9 "k").run.eval
        exec splitStore).1
      ((repairableRecord smallCrates (small 1 [.active, .active, .active, .active]) 9 "k").run.eval
        exec splitStore).1 := by
  decide +kernel

end Djbod
