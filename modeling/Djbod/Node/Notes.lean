import Djbod.Node.ReadBack

/-!
# What a read notes

A read notes the damaged blocks on its way, one by one, and the shards that it could not open, each from the stripe on
at which it was first wanted. Its report lists them as entries over ranges of stripes.

* `covered` : how often a list of entries covers the block of a shard for a stripe;
* `NotesClosed`, `NotesDamage`, `NotedBefore` : what has been noted before stripe `t`;
* `StripeNotes` : what decoding a stripe adds to the notes, `StripeNotes.step`;
* `Reports` : what the report covers, `NotedBefore.reports`.
-/

namespace Djbod

open Sched

def Reconstruction.covers (e : Reconstruction) (i t : ℕ) : Bool :=
  e.shardIndex == i && decide (e.firstStripe ≤ t) && decide (t < e.firstStripe + e.stripes)

/-- How many entries cover the block of a shard for a stripe. -/
def covered (entries : List Reconstruction) (i t : ℕ) : ℕ := entries.countP fun e => e.covers i t

section Noted

variable (X : Crates) (C : Cluster) (s : Store) (scheme : Scheme) (r : MetadataRecord) (body : Bytes)

/-- The shards that could not be opened before stripe `t`, each from the stripe on at which it was first wanted. -/
def NotesClosed (t : ℕ) (unreadable : List UnreadableShard) : Prop :=
  ∀ i t', unreadable.countP (fun u => u.index == i && decide (u.firstStripe ≤ t')) =
    if i ∈ openIndices scheme (parityBefore X C s scheme r body (min (t' + 1) t)) ∧ shardAt C r s i = none then 1 else 0

def NotesDamage (t : ℕ) (reconstructed : List Reconstruction) : Prop :=
  ∀ i t', covered reconstructed i t' =
    if t' < t ∧ i ∈ openIndices scheme (parityBefore X C s scheme r body (t' + 1)) ∧ (shardAt C r s i).isSome ∧
      usable X C s scheme r body t' i = false then 1 else 0

structure NotedBefore (t : ℕ) (download : Download) : Prop where
  closed : NotesClosed X C s scheme r body t download.unreadable
  damage : NotesDamage X C s scheme r body t download.reconstructed
  counted : ∀ e ∈ download.reconstructed, 0 < e.stripes

/-- What a read that ended well reports: the blocks that it asked for and could not use, each once, in entries over some
stripes. -/
def Reports (entries : List Reconstruction) : Prop :=
  (∀ i t, covered entries i t = if t < stripeCount scheme r body ∧
    i ∈ openIndices scheme (parityBefore X C s scheme r body (t + 1)) ∧
    usable X C s scheme r body t i = false then 1 else 0) ∧
  ∀ e ∈ entries, 0 < e.stripes

end Noted

variable {X : Crates} {C : Cluster} {s : Store} {scheme : Scheme} {r : MetadataRecord} {body : Bytes}

variable {t : ℕ} {unreadable : List UnreadableShard} {indices : List ℕ} {decoded : DecodedStripe}
  {read before : Download}

theorem countP_opened (hnodup : indices.Nodup)
    (hidx : unreadable.map UnreadableShard.index = indices.filter fun i => (shardAt C r s i).isNone)
    (hfirst : ∀ u ∈ unreadable, u.firstStripe = t) (i t' : ℕ) :
    unreadable.countP (fun u => u.index == i && decide (u.firstStripe ≤ t')) =
      if t ≤ t' ∧ i ∈ indices ∧ shardAt C r s i = none then 1 else 0 := by
  have hcount : (unreadable.map UnreadableShard.index).count i = if i ∈ indices ∧
      shardAt C r s i = none then 1 else 0 := by
    rw [hidx, (hnodup.filter _).count]
    simp [List.mem_filter]
  by_cases hle : t ≤ t'
  · have hall : unreadable.countP (fun u => u.index == i && decide (u.firstStripe ≤ t')) =
        (unreadable.map UnreadableShard.index).count i := by
      rw [List.count, List.countP_map]
      refine List.countP_congr fun u hu => ?_
      simp [hfirst u hu, hle]
    rw [hall, hcount]
    simp [hle]
  · rw [if_neg fun h => hle h.1, List.countP_eq_zero]
    intro u hu
    simp [hfirst u hu, hle]

theorem faults_count {next stop : ℕ} {parity : Bool}
    (hdec : decodeStripe X.xxh3 (.new X.reedSolomon scheme)
    ((sourcesAt C r s next stop (openIndices scheme parity)).map ShardSource.index)
    (blocksAt C r s t (openIndices scheme parity)) (stripeOf scheme r body t).length = .ok decoded) (i : ℕ) :
    (decoded.faults.map BlockFault.index).count i =
      if i ∈ openIndices scheme parity ∧ (shardAt C r s i).isSome ∧
          usable X C s scheme r body t i = false then 1 else 0 := by
  rw [sourcesAt_index] at hdec
  have hindex : decoded.faults.map BlockFault.index =
      (scheme.shardIndices.filter fun i => i ∈ (openIndices scheme parity).filter fun i =>
      (shardAt C r s i).isSome).filter
        fun i => !usable X C s scheme r body t i := by
    rw [decodeStripe_faults hdec]
    refine (judged_eq_filter _ fun i hi => ?_).2
    obtain ⟨hmem, hsome⟩ := List.mem_filter.mp (of_decide_eq_true (List.mem_filter.mp hi).2)
    obtain ⟨file, hfile⟩ := Option.isSome_iff_exists.mp hsome
    rw [find?_blocksAt, if_pos hmem, hfile, Option.map_some]
    exact judgeBlock_usable t i file hfile
  have hnodup : scheme.shardIndices.Nodup := List.nodup_range
  rw [hindex, ((hnodup.filter _).filter _).count]
  refine if_congr ?_ rfl rfl
  simp only [List.mem_filter, decide_eq_true_eq, Bool.not_eq_true', Scheme.shardIndices, List.mem_range]
  exact ⟨fun h => ⟨h.1.2.1, h.1.2.2, h.2⟩, fun h => ⟨⟨openIndices_range _ i h.1, h.1, h.2.1⟩, h.2.2⟩⟩

/-- What decoding a stripe adds to the notes: the faults among the streams it asked for, and the shards that it was the
first to want and could not open. -/
structure StripeNotes (X : Crates) (C : Cluster) (s : Store) (scheme : Scheme) (r : MetadataRecord)
    (body : Bytes) (t : ℕ) (before : Download) (decoded : DecodedStripe) (read : Download) : Prop where
  reconstructed : read.reconstructed = before.reconstructed
  faults : ∀ i, (decoded.faults.map BlockFault.index).count i =
    if i ∈ openIndices scheme (parityBefore X C s scheme r body (t + 1)) ∧ (shardAt C r s i).isSome ∧
      usable X C s scheme r body t i = false then 1 else 0
  unreadable : ∀ i t', read.unreadable.countP (fun u => u.index == i && decide (u.firstStripe ≤ t')) =
    before.unreadable.countP (fun u => u.index == i && decide (u.firstStripe ≤ t')) +
      if t ≤ t' ∧ i ∈ openIndices scheme (parityBefore X C s scheme r body (t + 1)) ∧
        i ∉ openIndices scheme (parityBefore X C s scheme r body t) ∧ shardAt C r s i = none then 1 else 0

theorem NotesClosed.closed (h : NotesClosed X C s scheme r body t unreadable) {u : UnreadableShard}
    (hu : u ∈ unreadable) : shardAt C r s u.index = none := by
  have hpos : 0 < unreadable.countP fun u' => u'.index == u.index && decide (u'.firstStripe ≤ u.firstStripe) :=
    List.countP_pos_iff.mpr ⟨u, hu, by simp⟩
  rw [h] at hpos
  by_contra hopen
  rw [if_neg fun hclosed => hopen hclosed.2] at hpos
  exact Nat.lt_irrefl 0 hpos

/-- A shard is noted from a stripe of the object on: otherwise it would count behind the last stripe and not at it. -/
theorem NotesClosed.early (h : NotesClosed X C s scheme r body t unreadable) (hpos : 0 < t) {u : UnreadableShard}
    (hu : u ∈ unreadable) : u.firstStripe < t := by
  by_contra hlate
  have hsame : unreadable.countP (fun u' => u'.index == u.index && decide (u'.firstStripe ≤ t - 1)) =
      unreadable.countP fun u' => u'.index == u.index && decide (u'.firstStripe ≤ u.firstStripe) := by
    rw [h, h, Nat.min_eq_right (by omega), Nat.min_eq_right (by omega)]
  obtain ⟨front, behind, rfl⟩ := List.append_of_mem hu
  have hmono : ∀ l : List UnreadableShard, l.countP (fun u' => u'.index == u.index && decide (u'.firstStripe ≤ t - 1)) ≤
      l.countP fun u' => u'.index == u.index && decide (u'.firstStripe ≤ u.firstStripe) := by
    intro l
    apply List.countP_mono_left
    intro u' _ hle
    simp only [Bool.and_eq_true, decide_eq_true_eq] at hle ⊢
    exact ⟨hle.1, by omega⟩
  have hfront := hmono front
  have hbehind := hmono behind
  simp only [List.countP_append, List.countP_cons, beq_self_eq_true, le_refl, decide_true, Bool.and_true,
    Bool.true_and, if_true, decide_eq_true_eq, if_neg (by omega : ¬ u.firstStripe ≤ t - 1)] at hsame
  omega

theorem StripeNotes.closed {before : Download} (h : StripeNotes X C s scheme r body t before decoded read)
    (hn : NotesClosed X C s scheme r body t before.unreadable) :
    NotesClosed X C s scheme r body (t + 1) read.unreadable := by
  intro i t'
  rw [h.unreadable, hn]
  by_cases hle : t ≤ t'
  · -- From this stripe on the shard counts if it was noted before or is noted now.
    rw [Nat.min_eq_right (by omega : t ≤ t' + 1), Nat.min_eq_right (by omega : t + 1 ≤ t' + 1)]
    by_cases hi : i ∈ openIndices scheme (parityBefore X C s scheme r body t)
    · simp [hi, openIndices_step hi]
    · simp [hi, hle]
  · rw [Nat.min_eq_left (by omega : t' + 1 ≤ t), Nat.min_eq_left (by omega : t' + 1 ≤ t + 1)]
    simp [hle]

theorem covered_noteFaults {faults : List BlockFault} (hopen : ∀ f ∈ faults, ∀ u ∈ unreadable, u.index ≠ f.index)
    (i t' : ℕ) : covered (noteFaults r unreadable t faults) i t' = if t' = t then (faults.map BlockFault.index).count
    i else 0 := by
  have hall : (faults.filter fun fault => !unreadable.any fun u => u.index == fault.index) = faults :=
    List.filter_eq_self.mpr fun f hf => by simpa using hopen f hf
  rw [covered, noteFaults, hall, List.countP_map]
  split_ifs with ht
  · rw [List.count, List.countP_map]
    refine List.countP_congr fun f _ => ?_
    simp [Reconstruction.covers, ht]
  · rw [List.countP_eq_zero]
    intro f _
    simp only [Function.comp_apply, Reconstruction.covers, Bool.and_eq_true, decide_eq_true_eq]
    omega

/-- **One stripe notes what it asked for and did not get.** -/
theorem StripeNotes.step (h : StripeNotes X C s scheme r body t before decoded read)
    (hn : NotedBefore X C s scheme r body t before) {download : Download}
    (hunreadable : download.unreadable = read.unreadable)
    (hnotes : download.reconstructed = read.reconstructed ++ noteFaults r read.unreadable t decoded.faults) :
    NotedBefore X C s scheme r body (t + 1) download := by
  have hclosed := h.closed hn.closed
  have hopen : ∀ f ∈ decoded.faults, ∀ u ∈ read.unreadable, u.index ≠ f.index := by
    intro f hf u hu heq
    have hpos : 0 < (decoded.faults.map BlockFault.index).count f.index :=
      List.count_pos_iff.mpr (List.mem_map_of_mem hf)
    rw [h.faults, ← heq, hclosed.closed hu, if_neg fun hsome => Bool.false_ne_true hsome.2.1] at hpos
    exact Nat.lt_irrefl 0 hpos
  refine ⟨hunreadable ▸ hclosed, fun i t' => ?_, ?_⟩
  · rw [hnotes, covered, List.countP_append]
    show covered read.reconstructed i t' + covered (noteFaults r read.unreadable t decoded.faults) i t' = _
    rw [h.reconstructed, hn.damage, covered_noteFaults hopen, h.faults]
    by_cases ht' : t' = t
    · subst ht'
      simp
    · rw [if_neg ht', Nat.add_zero]
      exact if_congr (and_congr_left fun _ => by omega) rfl rfl
  · rw [hnotes, h.reconstructed]
    refine List.forall_mem_append.mpr ⟨hn.counted, fun e he => ?_⟩
    obtain ⟨f, _, rfl⟩ := List.mem_map.mp he
    exact Nat.one_pos

/-- The entries at the end: the damaged blocks, and each shard that could not be opened over the stripes that wanted
it. -/
theorem covered_end {N : ℕ} {reconstructed : List Reconstruction}
    (hclosed : NotesClosed X C s scheme r body N unreadable) (hdamage : NotesDamage X C s scheme r body N reconstructed)
    (i t : ℕ) : covered (reconstructed ++ unreadable.map fun shard =>
        ⟨shard.index, shard.device, shard.fault, shard.firstStripe, N - shard.firstStripe⟩) i t =
      if t < N ∧ i ∈ openIndices scheme (parityBefore X C s scheme r body (t + 1)) ∧
        usable X C s scheme r body t i = false
        then 1 else 0 := by
  have hsum : covered (reconstructed ++ unreadable.map fun shard =>
        ⟨shard.index, shard.device, shard.fault, shard.firstStripe, N - shard.firstStripe⟩) i t =
      covered reconstructed i t + if t < N then unreadable.countP (fun u =>
      u.index == i && decide (u.firstStripe ≤ t)) else 0 := by
    rw [covered, List.countP_append, List.countP_map]
    refine congrArg _ ?_
    split_ifs with ht
    · refine List.countP_congr fun u _ => ?_
      simp only [Function.comp_apply, Reconstruction.covers, Bool.and_eq_true, decide_eq_true_eq, beq_iff_eq]
      omega
    · rw [List.countP_eq_zero]
      intro u _
      simp only [Function.comp_apply, Reconstruction.covers, Bool.and_eq_true, decide_eq_true_eq, beq_iff_eq]
      omega
  rw [hsum, hdamage, hclosed]
  by_cases ht : t < N
  · rw [Nat.min_eq_left (by omega : t + 1 ≤ N)]
    cases hfile : shardAt C r s i with
    | none => simp [ht, usable, hfile]
    | some file => simp [ht]
  · simp [ht]

theorem NotedBefore.reports {download : Download} (h : NotedBefore X C s scheme r body
    (stripeCount scheme r body) download) (hpos : 0 < stripeCount scheme r body) :
    Reports X C s scheme r body (download.reconstructed ++ download.unreadable.map fun shard =>
      ⟨shard.index, shard.device, shard.fault, shard.firstStripe, stripeCount scheme r body - shard.firstStripe⟩) := by
  refine ⟨covered_end h.closed h.damage, List.forall_mem_append.mpr ⟨h.counted, fun e he => ?_⟩⟩
  obtain ⟨u, hu, rfl⟩ := List.mem_map.mp he
  exact Nat.sub_pos_of_lt (h.closed.early hpos hu)

end Djbod
