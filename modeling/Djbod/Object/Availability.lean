import Djbod.Object.ClusterMerge

/-!
# The counts of available shards after a scrub's repairs

The cross-check counts every version by its shards available and remembers, for each key, the last version it met with
shards missing; a repair of the key moves that version to the whole ones.

* `countedVersions` : the versions that the cross-check counted, each with its bucket;
* `mergeSources_tally` : the outcome has their counts and, for each key, the last damaged one;
* `repairs_counts` : after repairs the counts are those with the remembered buckets made whole;
* `recount_mended` : a recount makes the buckets of the repaired versions whole;
* `availability_true_iff` : the two agree exactly when each key remembers the version that its repair mends.
-/

namespace Djbod

open Merging

/-! ## Counts of a multiset -/

section Counts

variable {κ : Type} [DecidableEq κ] {m : Multiset κ} {counts : AList fun _ : κ => ℕ}

/-- The counts of a multiset; what is not in it has no entry. -/
def Counts (m : Multiset κ) (counts : AList fun _ : κ => ℕ) : Prop :=
  ∀ b, counts.lookup b = if m.count b = 0 then none else some (m.count b)

theorem Counts.bump (h : Counts m counts) (b : κ) : Counts (b ::ₘ m) (bump b counts) := by
  intro b'
  unfold Djbod.bump
  by_cases hb : b' = b
  · subst hb
    rw [AList.lookup_insert, h b', Multiset.count_cons_self, if_neg (Nat.succ_ne_zero _)]
    split_ifs with h0
    · rw [h0, Option.getD_none]
    · rfl
  · rw [AList.lookup_insert_ne hb, h b', Multiset.count_cons_of_ne hb]

theorem Counts.lower (h : Counts m counts) {b : κ} (hb : b ∈ m) :
    Counts (m.erase b) (match counts.lookup b with
      | none => counts
      | some count => if count - 1 = 0 then counts.erase b else counts.insert b (count - 1)) := by
  have hpos : m.count b ≠ 0 := (Multiset.count_pos.mpr hb).ne'
  rw [h b, if_neg hpos]
  intro b'
  dsimp only
  by_cases hb' : b' = b
  · subst hb'
    rw [Multiset.count_erase_self]
    split_ifs with h0
    · exact AList.lookup_erase _ _
    · exact AList.lookup_insert _
  · rw [Multiset.count_erase_of_ne hb', ← h b']
    split_ifs
    · exact AList.lookup_erase_ne hb'
    · exact AList.lookup_insert_ne hb'

theorem Counts.lookup_eq_some (h : Counts m counts) {b : κ} {n : ℕ} : counts.lookup b = some n ↔ 0 < n ∧
    m.count b = n := by
  rw [h b]
  split_ifs with h0
  · exact ⟨nofun, fun hn => absurd (hn.2 ▸ h0) hn.1.ne'⟩
  · rw [Option.some.injEq]
    exact ⟨fun hn => ⟨hn ▸ Nat.pos_of_ne_zero h0, hn⟩, And.right⟩

end Counts

/-! ## Buckets -/

def Bucket.damaged (b : Bucket) : Bool := decide (b.2.1 < b.1)

def Bucket.whole (b : Bucket) : Bucket := (b.1, b.1, b.2.2)

def mended (buckets repaired : Multiset Bucket) : Multiset Bucket := buckets - repaired + repaired.map Bucket.whole

theorem whole_of_not_damaged {b : Bucket} (hle : b.2.1 ≤ b.1) (h : b.damaged = false) : b.whole = b := by
  have heq : b.1 = b.2.1 := le_antisymm (not_lt.mp (of_decide_eq_false h)) hle
  exact Prod.ext rfl (Prod.ext heq rfl)

variable {buckets r r' : Multiset Bucket}

theorem mended_add (h : r + r' ≤ buckets) : mended (mended buckets r) r' = mended buckets (r + r') := by
  have hle : r' ≤ buckets - r := le_tsub_of_add_le_left h
  rw [mended, mended, mended, ← tsub_add_eq_add_tsub hle, tsub_tsub, Multiset.map_add, add_assoc]

theorem mended_inj (hr : r ≤ buckets) (hr' : r' ≤ buckets) (hd : ∀ b ∈ r, b.damaged = true)
    (hd' : ∀ b ∈ r', b.damaged = true) (h : mended buckets r = mended buckets r') : r = r' := by
  have hcount : ∀ {r}, (∀ b ∈ r, b.damaged = true) → ∀ b, b.damaged = true →
      (mended buckets r).count b = buckets.count b - r.count b := by
    intro r hd b hb
    have hnot : b ∉ r.map Bucket.whole := by
      intro hmem
      obtain ⟨a, -, rfl⟩ := Multiset.mem_map.mp hmem
      simp [Bucket.damaged, Bucket.whole] at hb
    rw [mended, Multiset.count_add, Multiset.count_sub, Multiset.count_eq_zero_of_notMem hnot, Nat.add_zero]
  ext b
  by_cases hb : b.damaged = true
  · have heq := (hcount hd b hb).symm.trans ((congrArg (Multiset.count b) h).trans (hcount hd' b hb))
    have hle := Multiset.le_iff_count.mp hr b
    have hle' := Multiset.le_iff_count.mp hr' b
    omega
  · rw [Multiset.count_eq_zero_of_notMem fun hmem => hb (hd b hmem), Multiset.count_eq_zero_of_notMem fun hmem =>
      hb (hd' b hmem)]

/-! ## What was counted -/

structure CountedVersion where
  key : String
  version : VersionId
  bucket : Bucket
  deriving DecidableEq

def countedOf (X : Crates) (known : Finset DeviceId) (damagedShards : Finset (VersionId × ℕ)) (unread : Finset DeviceId)
    (group : List StreamedRecord) : Option CountedVersion :=
  match groupCopies group with
  | [] => none
  | first :: _ => (checkGroup X group unread known damagedShards).2.map fun shards =>
    ⟨first.record.key, first.record.version, shards.bucket⟩

/-- A device that cannot be read is left out; any other failure ends the merge. -/
def countedFailed (state : List CountedVersion × Finset DeviceId) (source : RecordSource) (detail : ErrorDetail) :
    Except (List CountedVersion × Finset DeviceId) (List CountedVersion × Finset DeviceId) :=
  if detail.code = .deviceUnavailable then .ok (state.1, insert source.device state.2) else .error state

/-- The versions that the cross-check counts, in its order. -/
def countedVersions (X : Crates) (sources : List RecordSource) (damagedShards : Finset (VersionId × ℕ)) :
    List CountedVersion :=
  let known := (sources.map RecordSource.device).toFinset
  match merge countedFailed StreamedRecord.place
      (fun state group => (state.1 ++ (countedOf X known damagedShards state.2 group).toList, state.2)) countedFailed
      (sources.map fun source => (source, source.answers)) ([], ∅) with
  | .error state => state.1
  | .ok state => state.1

section

variable {log : List CountedVersion} {outcome : CrossCheckOutcome} {key : String} {ks : List String}

def bucketsOf (log : List CountedVersion) : Multiset Bucket := ↑(log.map CountedVersion.bucket)

/-- The bucket of the last version of the key that was counted with shards missing. -/
def lastDamaged (log : List CountedVersion) (key : String) : Option Bucket :=
  ((log.filter fun c => decide (c.key = key) && c.bucket.damaged).getLast?).map CountedVersion.bucket

/-- The buckets of one version of the key, where it was counted with shards missing. -/
def damagedOf (log : List CountedVersion) (key : String) (version : VersionId) : List Bucket :=
  (log.filter fun c => decide (c.key = key) && (decide (c.version = version) && c.bucket.damaged)).map
    CountedVersion.bucket

/-- The counts when every version repaired is whole and every other one as it was counted. -/
def recount (log : List CountedVersion) (repaired : CountedVersion → Bool) : Multiset Bucket :=
  ↑(log.map fun c => if repaired c then c.bucket.whole else c.bucket)

/-- The outcome has the counts of these buckets, and remembers these. -/
structure Keeps (buckets : Multiset Bucket) (last : String → Option Bucket) (outcome : CrossCheckOutcome) : Prop where
  counts : Counts buckets outcome.availability
  damaged : ∀ key, outcome.damagedAvailability.lookup key = last key

/-- The outcome has the counts of the versions counted and remembers the last damaged one of each key. -/
structure Tallies (log : List CountedVersion) (outcome : CrossCheckOutcome) : Prop where
  keeps : Keeps (bucketsOf log) (lastDamaged log) outcome
  bounded : ∀ c ∈ log, c.bucket.2.1 ≤ c.bucket.1

/-! ## The cross-check's counts -/

variable {shards : ShardCount}

theorem checkGroup_bounded {X : Crates} {group : List StreamedRecord} {unread known : Finset DeviceId}
    {damagedShards : Finset (VersionId × ℕ)} (h : (checkGroup X group unread known damagedShards).2 = some shards) :
    shards.available ≤ shards.total := by
  unfold checkGroup at h
  split at h
  · cases h
  · dsimp only at h
    split at h
    · cases h
    · obtain ⟨_, -, rfl⟩ := Option.map_eq_some_iff.mp h
      exact Nat.sub_le _ _

theorem lastDamaged_append (log : List CountedVersion) (c : CountedVersion) (key : String) :
    lastDamaged (log ++ [c]) key = if c.key = key ∧
    c.bucket.damaged = true then some c.bucket else lastDamaged log key := by
  unfold lastDamaged
  rw [List.filter_append]
  split_ifs with hc
  · simp [hc.1, hc.2]
  · have hnil : [c].filter (fun c => decide (c.key = key) && c.bucket.damaged) = [] := by simpa using hc
    rw [hnil, List.append_nil]

theorem Tallies.noteShards (h : Tallies log outcome) (hle : shards.available ≤ shards.total) (key : String)
    (version : VersionId) : Tallies (log ++ [⟨key, version, shards.bucket⟩])
    (outcome.noteShards key (some shards)) := by
  refine ⟨⟨?_, fun key' => ?_⟩, ?_⟩
  · rw [bucketsOf, List.map_append, ← Multiset.coe_add, add_comm]
    exact h.keeps.counts.bump shards.bucket
  · rw [lastDamaged_append]
    unfold CrossCheckOutcome.noteShards Bucket.damaged ShardCount.bucket
    dsimp only
    by_cases hd : shards.available < shards.total
    · by_cases hk : key = key'
      · subst hk
        simp [hd]
      · rw [if_pos hd, AList.lookup_insert_ne (Ne.symm hk), if_neg fun hc => hk hc.1]
        exact h.keeps.damaged key'
    · rw [if_neg hd, if_neg fun hc => hd (of_decide_eq_true hc.2)]
      exact h.keeps.damaged key'
  · intro c hc
    rcases List.mem_append.mp hc with hc | hc
    · exact h.bounded c hc
    · rw [List.mem_singleton.mp hc]
      exact hle

variable (X : Crates) (sources : List RecordSource) (damagedShards : Finset (VersionId × ℕ))

theorem Tallies.noteGroup {check : CrossCheck} (h : Tallies log check.outcome) (known unread : Finset DeviceId)
    (group : List StreamedRecord) : Tallies (log ++ (countedOf X known damagedShards unread group).toList)
      (check.noteGroup X known damagedShards unread group).outcome := by
  unfold countedOf CrossCheck.noteGroup
  cases groupCopies group with
  | nil => simpa using h
  | cons first rest =>
    dsimp only
    cases hs : (checkGroup X group unread known damagedShards).2 with
    | none =>
      rw [Option.map_none, Option.toList_none, List.append_nil]
      exact ⟨⟨h.keeps.counts, h.keeps.damaged⟩, h.bounded⟩
    | some shards =>
      have hnote := h.noteShards (checkGroup_bounded hs) first.record.key first.record.version
      exact ⟨⟨hnote.keeps.counts, hnote.keeps.damaged⟩, hnote.bounded⟩

theorem mergeSources_tally : Tallies (countedVersions X sources damagedShards)
    (mergeSources X sources damagedShards).outcome := by
  let known := (sources.map RecordSource.device).toFinset
  let R : CrossCheckState → List CountedVersion × Finset DeviceId → Prop := fun b b' => b.2 = b'.2 ∧
    Tallies b'.1 b.1.outcome
  have hstop : ∀ {log : List CountedVersion} {check : CrossCheck}, Tallies log check.outcome → ∀ owner detail,
      Tallies log (check.stop owner detail).outcome := fun h _ _ => ⟨⟨h.keeps.counts, h.keeps.damaged⟩, h.bounded⟩
  have hnext : ∀ b b' t e, R b b' → Related R R (crossCheckNext b t e) (countedFailed b' t e) := by
    intro b b' t e hb
    unfold crossCheckNext countedFailed
    split_ifs
    · exact ⟨congrArg (insert t.device) hb.1, hb.2⟩
    · exact ⟨hb.1, hstop hb.2 t.owner e⟩
  have hfirst : ∀ b b' t e, R b b' → Related R R (crossCheckFirst b t e) (countedFailed b' t e) := by
    intro b b' t e hb
    unfold crossCheckFirst countedFailed
    split_ifs
    · exact ⟨congrArg (insert t.device) hb.1, hb.2⟩
    · exact ⟨hb.1, hstop hb.2 t.owner e⟩
  have hgroup : ∀ (b : CrossCheckState) (b' : List CountedVersion × Finset DeviceId) (g : List StreamedRecord), R b b' →
      R (b.1.noteGroup X known damagedShards b.2 g, b.2)
      (b'.1 ++ (countedOf X known damagedShards b'.2 g).toList, b'.2) := by
    rintro b ⟨log, u⟩ g ⟨rfl, hb⟩
    exact ⟨rfl, hb.noteGroup X damagedShards known _ g⟩
  have hempty : R (⟨.initial, []⟩, ∅) ([], ∅) :=
    ⟨rfl, ⟨fun b => by simp [CrossCheckOutcome.initial, bucketsOf],
      fun key => by simp [CrossCheckOutcome.initial, lastDamaged]⟩, nofun⟩
  have hrun : Related R R
      (merge crossCheckNext StreamedRecord.place (fun state group =>
      (state.1.noteGroup X known damagedShards state.2 group, state.2))
        crossCheckFirst (sources.map fun source => (source, source.answers)) (⟨.initial, []⟩, ∅))
      (merge countedFailed StreamedRecord.place
        (fun state group => (state.1 ++ (countedOf X known damagedShards state.2 group).toList, state.2)) countedFailed
        (sources.map fun source => (source, source.answers)) ([], ∅)) :=
    merge_related hnext hgroup hfirst _ hempty
  unfold mergeSources countedVersions
  dsimp only
  revert hrun
  generalize merge crossCheckNext StreamedRecord.place _ _ _ _ = x
  generalize merge countedFailed StreamedRecord.place _ _ _ _ = y
  intro hrun
  rcases x with c | c <;> rcases y with c' | c'
  · exact hrun.2
  · exact hrun.elim
  · exact hrun.elim
  · exact hrun.2

/-! ## The counts after the repairs -/

variable {last : String → Option Bucket}

theorem Keeps.noteRepaired (h : Keeps buckets last outcome) (hle : ↑(last key).toList ≤ buckets) :
    Keeps (mended buckets ↑(last key).toList) (Function.update last key none) (outcome.noteRepaired key) := by
  unfold CrossCheckOutcome.noteRepaired
  rw [h.damaged key]
  cases hlast : last key with
  | none =>
    refine ⟨?_, fun key' => ?_⟩
    · simpa [mended] using h.counts
    · rw [h.damaged key', ← hlast, Function.update_eq_self]
  | some bucket =>
    have hmem : bucket ∈ buckets := by simpa [hlast] using hle
    refine ⟨?_, fun key' => ?_⟩
    · have hcounts := (h.counts.lower hmem).bump bucket.whole
      rwa [← Multiset.singleton_add, add_comm, ← Multiset.sub_singleton] at hcounts
    · dsimp only
      by_cases hk : key' = key
      · subst hk
        rw [AList.lookup_erase, Function.update_self]
      · rw [AList.lookup_erase_ne hk, Function.update_of_ne hk, h.damaged key']

theorem Keeps.noteRepaired_foldl (h : Keeps buckets last outcome) (hks : ks.Nodup)
    (hle : ↑(ks.filterMap last) ≤ buckets) : Counts (mended buckets ↑(ks.filterMap last))
    (ks.foldl CrossCheckOutcome.noteRepaired outcome).availability := by
  induction ks generalizing buckets last outcome with
  | nil => simpa [mended] using h.counts
  | cons key ks ih =>
    obtain ⟨hkey, hks⟩ := List.nodup_cons.mp hks
    have hsplit : (↑((key :: ks).filterMap last) : Multiset Bucket) = ↑(last key).toList + ↑(ks.filterMap last) := by
      cases hlast : last key <;> simp [hlast]
    have hrest : ks.filterMap (Function.update last key none) = ks.filterMap last :=
      List.filterMap_congr fun k hk => Function.update_of_ne (ne_of_mem_of_not_mem hk hkey) _ _
    rw [hsplit] at hle ⊢
    have hstep := h.noteRepaired (le_self_add.trans hle)
    have hrun := ih hstep hks (hrest ▸ (le_tsub_of_add_le_left hle).trans le_self_add)
    rwa [hrest, mended_add hle] at hrun

theorem lastDamaged_le (hks : ks.Nodup) (log : List CountedVersion) :
    (↑(ks.filterMap (lastDamaged log)) : Multiset Bucket) ≤ bucketsOf log := by
  induction ks generalizing log with
  | nil => exact Multiset.zero_le _
  | cons key ks ih =>
    obtain ⟨hkey, hks⟩ := List.nodup_cons.mp hks
    -- the other keys' versions are among those that are not this key's
    have hrest : ks.filterMap (lastDamaged log) =
        ks.filterMap (lastDamaged (log.filter fun c => !decide (c.key = key))) := by
      refine List.filterMap_congr fun k hk => ?_
      have hne : k ≠ key := ne_of_mem_of_not_mem hk hkey
      unfold lastDamaged
      rw [List.filter_filter]
      congr 2
      refine List.filter_congr fun c _ => ?_
      by_cases hc : c.key = k
      · simp [hc, hne]
      · simp [hc]
    have hone : (↑(lastDamaged log key).toList : Multiset Bucket) ≤
        ↑((log.filter fun c => decide (c.key = key)).map CountedVersion.bucket) := by
      cases hlast : lastDamaged log key with
      | none => exact Multiset.zero_le _
      | some b =>
        obtain ⟨c, hc, rfl⟩ := Option.map_eq_some_iff.mp hlast
        obtain ⟨hmem, hp⟩ := List.mem_filter.mp (List.mem_of_getLast? hc)
        refine Multiset.singleton_le.mpr (Multiset.mem_coe.mpr (List.mem_map_of_mem (List.mem_filter.mpr ⟨hmem, ?_⟩)))
        exact (Bool.and_eq_true_iff.mp hp).1
    have hsplit : (↑((key :: ks).filterMap (lastDamaged log)) : Multiset Bucket) =
        ↑(lastDamaged log key).toList + ↑(ks.filterMap (lastDamaged log)) := by
      cases hlast : lastDamaged log key <;> simp [hlast]
    have hlog : bucketsOf log = ↑((log.filter fun c => decide (c.key = key)).map CountedVersion.bucket) +
        bucketsOf (log.filter fun c => !decide (c.key = key)) := by
      rw [bucketsOf, bucketsOf, Multiset.coe_add, ← List.map_append, Multiset.coe_eq_coe]
      exact ((List.filter_append_perm _ log).map _).symm
    rw [hsplit, hlog, hrest]
    exact add_le_add hone (ih hks _)

theorem repairs_counts (h : Tallies log outcome) (done : Finset String) :
    Counts (mended (bucketsOf log) ↑((done.sort (· ≤ ·)).filterMap (lastDamaged log)))
    (outcome.repairs done).availability :=
  h.keeps.noteRepaired_foldl (Finset.sort_nodup _ _) (lastDamaged_le (Finset.sort_nodup _ _) log)

/-! ## The recount -/

def repairedBuckets (log : List CountedVersion) (repaired : CountedVersion → Bool) : Multiset Bucket :=
  ↑((log.filter fun c => repaired c && c.bucket.damaged).map CountedVersion.bucket)

theorem repairedBuckets_le (log : List CountedVersion) (repaired : CountedVersion → Bool) :
    repairedBuckets log repaired ≤ bucketsOf log :=
  Multiset.coe_le.mpr (List.filter_sublist.map _).subperm

theorem repairedBuckets_cons (c : CountedVersion) (log : List CountedVersion) (repaired : CountedVersion → Bool) :
    repairedBuckets (c :: log) repaired =
      if repaired c && c.bucket.damaged then c.bucket ::ₘ repairedBuckets log repaired
        else repairedBuckets log repaired := by
  unfold repairedBuckets
  rw [List.filter_cons]
  split_ifs <;> rfl

theorem recount_mended (h : ∀ c ∈ log, c.bucket.2.1 ≤ c.bucket.1) (repaired : CountedVersion → Bool) :
    recount log repaired = mended (bucketsOf log) (repairedBuckets log repaired) := by
  induction log with
  | nil => rfl
  | cons c log ih =>
    obtain ⟨hc, hlog⟩ := List.forall_mem_cons.mp h
    have hcons : recount (c :: log) repaired = (if repaired c then c.bucket.whole else c.bucket)
      ::ₘ recount log repaired := rfl
    have hbuckets : bucketsOf (c :: log) = c.bucket ::ₘ bucketsOf log := rfl
    rw [hcons, ih hlog, hbuckets, repairedBuckets_cons]
    by_cases hboth : (repaired c && c.bucket.damaged) = true
    · rw [if_pos (Bool.and_eq_true_iff.mp hboth).1, if_pos hboth, mended, mended, Multiset.sub_cons,
        Multiset.erase_cons_head, Multiset.map_cons, Multiset.add_cons]
    · have hkeep : (if repaired c then c.bucket.whole else c.bucket) = c.bucket := by
        split_ifs with hr
        · exact whole_of_not_damaged hc (by simpa [hr] using hboth)
        · rfl
      rw [hkeep, if_neg hboth, mended, mended, Multiset.cons_sub_of_le _ (repairedBuckets_le log repaired),
        Multiset.cons_add]

theorem repairedBuckets_or {p q : CountedVersion → Bool} (hpq : ∀ c, p c = true → q c = false)
    (log : List CountedVersion) : repairedBuckets log (fun c => p c || q c) = repairedBuckets log p +
    repairedBuckets log q := by
  induction log with
  | nil => rfl
  | cons c log ih =>
    simp only [repairedBuckets_cons, ih]
    cases hp : p c
    · rw [Bool.false_or, Bool.false_and, if_neg Bool.false_ne_true]
      split_ifs
      · exact (Multiset.add_cons _ _ _).symm
      · rfl
    · cases c.bucket.damaged <;> simp [hpq c hp]

def mends (version : String → VersionId) (done : Finset String) (c : CountedVersion) : Bool :=
  decide (c.key ∈ done) && decide (c.version = version c.key)

theorem repairedBuckets_keys (hks : ks.Nodup) (log : List CountedVersion) (version : String → VersionId) :
    repairedBuckets log (mends version ks.toFinset) = ↑(ks.flatMap fun key => damagedOf log key (version key)) := by
  induction ks with
  | nil => simp [repairedBuckets, mends]
  | cons key ks ih =>
    obtain ⟨hkey, hks⟩ := List.nodup_cons.mp hks
    have hsplit : mends version (key :: ks).toFinset =
        fun c => (decide (c.key = key) && decide (c.version = version key)) || mends version ks.toFinset c := by
      funext c
      unfold mends
      by_cases hc : c.key = key <;> simp [hc]
    rw [hsplit, repairedBuckets_or, ih hks, List.flatMap_cons, ← Multiset.coe_add]
    · simp only [repairedBuckets, damagedOf, Bool.and_assoc]
    · intro c hc
      have heq : c.key = key := by simpa using (Bool.and_eq_true_iff.mp hc).1
      simp [mends, heq, hkey]

/-! ## The counts reported -/

theorem mem_versions (h : Counts buckets outcome.availability) (a : ShardAvailability) :
    a ∈ outcome.versions ↔ 0 < a.versions ∧ buckets.count (a.shardsTotal, a.shardsAvailable, a.k) = a.versions := by
  rw [CrossCheckOutcome.versions, List.mem_insertionSort, ← h.lookup_eq_some, ← Option.mem_def,
    AList.mem_lookup_iff, List.mem_map]
  constructor
  · rintro ⟨e, he, rfl⟩
    exact he
  · intro he
    exact ⟨_, he, rfl⟩

/-- What a run reports is a recount when the buckets remembered for the keys are those of the versions repaired. -/
theorem repairs_recount_iff (h : Tallies log outcome) (version : String → VersionId) (done : Finset String) :
    (∀ a, a ∈ (outcome.repairs done).versions ↔
      0 < a.versions ∧ (recount log (mends version done)).count (a.shardsTotal, a.shardsAvailable, a.k) = a.versions) ↔
      (↑((done.sort (· ≤ ·)).flatMap fun key => (lastDamaged log key).toList) : Multiset Bucket) =
        ↑((done.sort (· ≤ ·)).flatMap fun key => damagedOf log key (version key)) := by
  have hnodup := Finset.sort_nodup done (· ≤ ·)
  have hrepaired := repairedBuckets_keys hnodup log version
  have hlast := lastDamaged_le hnodup log
  have hcounts := repairs_counts h done
  have hnat : ∀ {x y : ℕ}, (∀ n, 0 < n ∧ x = n ↔ 0 < n ∧ y = n) → x = y := by
    intro x y hn
    have hx := hn x
    have hy := hn y
    omega
  rw [Finset.sort_toFinset] at hrepaired
  rw [List.filterMap_eq_flatMap_toList] at hlast hcounts
  rw [recount_mended h.bounded, ← hrepaired]
  simp only [mem_versions hcounts]
  constructor
  · intro hsame
    refine mended_inj hlast (repairedBuckets_le log _) (fun b hb => ?_) (fun b hb => ?_) (Multiset.ext.mpr fun b => ?_)
    · obtain ⟨key, -, hb⟩ := List.mem_flatMap.mp (Multiset.mem_coe.mp hb)
      obtain ⟨c, hc, rfl⟩ := Option.map_eq_some_iff.mp (Option.mem_toList.mp hb)
      exact (Bool.and_eq_true_iff.mp (List.mem_filter.mp (List.mem_of_getLast? hc)).2).2
    · obtain ⟨c, hc, rfl⟩ := List.mem_map.mp (Multiset.mem_coe.mp hb)
      exact (Bool.and_eq_true_iff.mp (List.mem_filter.mp hc).2).2
    · exact hnat fun n => hsame ⟨b.1, b.2.1, b.2.2, n⟩
  · intro hsame a
    rw [hsame]

/-- **The counts after the repairs are a recount exactly when each key remembers the version that its repair mends.**
The keys that can be repaired are those with findings, of the nodes' own scrubs or of the cross-check; `version` is the
version that a repair of a key mends. -/
theorem availability_true_iff (found : Finset String) (version : String → VersionId) :
    (∀ done ⊆ found ∪ (mergeSources X sources damagedShards).outcome.damagedKeys, ∀ a,
      a ∈ ((mergeSources X sources damagedShards).outcome.repairs done).versions ↔
        0 < a.versions ∧ (recount (countedVersions X sources damagedShards) (mends version done)).count
          (a.shardsTotal, a.shardsAvailable, a.k) = a.versions) ↔
      ∀ key ∈ found ∪ (mergeSources X sources damagedShards).outcome.damagedKeys,
        damagedOf (countedVersions X sources damagedShards) key (version key) =
          (lastDamaged (countedVersions X sources damagedShards) key).toList := by
  have htally := mergeSources_tally X sources damagedShards
  simp only [repairs_recount_iff htally]
  constructor
  · intro h key hkey
    have hone := h {key} (Finset.singleton_subset_iff.mpr hkey)
    rw [Finset.sort_singleton, List.flatMap_singleton, List.flatMap_singleton, Multiset.coe_eq_coe] at hone
    cases hlast : lastDamaged (countedVersions X sources damagedShards) key with
    | none => exact List.perm_nil.mp (hlast ▸ hone).symm
    | some b => exact List.perm_singleton.mp (hlast ▸ hone).symm
  · intro h done hdone
    congr 1
    exact List.flatMap_congr fun key hkey => (h key (hdone ((Finset.mem_sort _).mp hkey))).symm

/-- Two devices with two versions of one key: a shard file of version `1` is missing, version `2` is whole. -/
def olderDamaged : List RecordSource :=
  [⟨0, 0, [.ok ⟨byteRecord 1 0 [0, 1], true⟩, .ok ⟨byteRecord 2 0 [0, 1], true⟩]⟩,
    ⟨0, 1, [.ok ⟨byteRecord 1 0 [0, 1], false⟩, .ok ⟨byteRecord 2 0 [0, 1], true⟩]⟩]

/-- **A repair of the newest version counts an older one as whole**: the key has a finding for version `1`, its repair
is one of version `2`, and then both are reported with all their shards. -/
theorem older_counted_whole :
    (mergeSources smallCrates olderDamaged ∅).outcome.damagedKeys = {"k"} ∧
      (mergeSources smallCrates olderDamaged ∅).outcome.availabilityEvent false =
        .crossCheckAvailability 2 [⟨2, 2, 1, 1⟩, ⟨2, 1, 1, 1⟩] false ∧
      (repairable smallCrates "k" [⟨0, byteRecord 1 0 [0, 1]⟩, ⟨1, byteRecord 1 0 [0, 1]⟩, ⟨0, byteRecord 2 0 [0, 1]⟩,
        ⟨1, byteRecord 2 0 [0, 1]⟩]).toOption.map (fun found => found.record.version) = some 2 ∧
      ((mergeSources smallCrates olderDamaged ∅).outcome.repairs {"k"}).availabilityEvent true =
        .crossCheckAvailability 2 [⟨2, 2, 1, 2⟩] true ∧
      recount (countedVersions smallCrates olderDamaged ∅) (mends (fun _ => 2) {"k"}) = {(2, 2, 1), (2, 1, 1)} := by
  refine ⟨by decide +kernel, by decide +kernel, by decide +kernel, by decide +kernel, by decide +kernel⟩

end

end Djbod
