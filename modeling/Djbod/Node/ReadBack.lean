import Djbod.Node.Streams

/-!
# Decoding what is on the devices

* `Faithful` : opened shards have all their blocks, and a block that passes its checks is the one that was stored;
* `usable` : the block of an index for a stripe can be used;
* `decode_at` : what decoding the blocks of a stripe gives;
* `openIndices`, `parityBefore` : the shards whose streams are open before a stripe.
-/

namespace Djbod

open Sched Pieces

variable {X : Crates} {C : Cluster} {s : Store}

section Stripes

variable (X C s) (scheme : Scheme) (r : MetadataRecord) (body : Bytes)

def stripeOf (t : ℕ) : Bytes := piece (scheme.dataShards * r.blockSize) body t

def stripeCount : ℕ := divCeil body.length (scheme.dataShards * r.blockSize)

/-- A block that passes its checks is the one that was stored. -/
def Detected : Prop :=
  ∀ i file t, shardAt C r s i = some file → t < stripeCount scheme r body →
    (blockAt i file t).bytes.length = blockLengthFor (.new X.reedSolomon scheme) (stripeOf scheme r body t).length →
    X.xxh3 (blockAt i file t).bytes = (blockAt i file t).checksum →
    (stripeBlocks (.new X.reedSolomon scheme) (stripeOf scheme r body t))[i]? = some (blockAt i file t).bytes

/-- Opened shards have all their blocks, and a block that passes its checks is the one that was stored. -/
structure Faithful : Prop where
  count : ∀ i file, shardAt C r s i = some file → stripeCount scheme r body ≤ file.footer.blockCount
  sound : Detected X C s scheme r body

def usable (t i : ℕ) : Bool :=
  match shardAt C r s i with
  | none => false
  | some file =>
    (blockAt i file t).bytes.length == blockLengthFor (.new X.reedSolomon scheme) (stripeOf scheme r body t).length &&
      X.xxh3 (blockAt i file t).bytes == (blockAt i file t).checksum

end Stripes

section Decode

variable {scheme : Scheme} {r : MetadataRecord} {body : Bytes}

theorem find?_blocksAt (t : ℕ) (indices : List ℕ) (i : ℕ) :
    (blocksAt C r s t indices).find? (fun b => b.index == i) =
      if i ∈ indices then (shardAt C r s i).map fun file => blockAt i file t else none := by
  induction indices with
  | nil => rfl
  | cons j indices ih =>
    simp only [blocksAt, List.filterMap_cons] at ih ⊢
    cases hs : shardAt C r s j with
    | none =>
      simp only [Option.map_none, ih, List.mem_cons]
      by_cases hij : i = j
      · subst hij; simp [hs]
      · simp [hij]
    | some file =>
      simp only [Option.map_some, List.find?_cons, ih, List.mem_cons]
      by_cases hij : i = j
      · subst hij; simp [hs, blockAt]
      · have hne : (j == i) = false := by simpa using Ne.symm hij
        simp [blockAt, hne, hij]

variable {indices : List ℕ} {t : ℕ}

theorem mem_blocksAt {b : ShardBlock} :
    b ∈ blocksAt C r s t indices ↔ ∃ i ∈ indices, ∃ file, shardAt C r s i = some file ∧ b = blockAt i file t := by
  simp [blocksAt, List.mem_filterMap, eq_comm]

theorem sourcesAt_index (t stop : ℕ) (indices : List ℕ) :
    (sourcesAt C r s t stop indices).map ShardSource.index = indices.filter fun i => (shardAt C r s i).isSome := by
  induction indices with
  | nil => rfl
  | cons i indices ih =>
    simp only [sourcesAt, List.filterMap_cons, List.filter_cons] at ih ⊢
    cases hs : shardAt C r s i with
    | none => simpa [hs] using ih
    | some file => simpa [hs, sourceAt] using ih

theorem blocksAt_index (t : ℕ) (indices : List ℕ) :
    (blocksAt C r s t indices).map ShardBlock.index = indices.filter fun i => (shardAt C r s i).isSome := by
  induction indices with
  | nil => rfl
  | cons i indices ih =>
    simp only [blocksAt, List.filterMap_cons, List.filter_cons] at ih ⊢
    cases hs : shardAt C r s i with
    | none => simpa [hs] using ih
    | some file => simpa [hs, blockAt] using ih

theorem received_blocksAt (h : Detected X C s scheme r body) (ht : t < stripeCount scheme r body)
    (hnodup : indices.Nodup) (hrange : ∀ i ∈ indices, i < scheme.totalShards) :
    Received X.xxh3 (.new X.reedSolomon scheme) (stripeOf scheme r body t)
      (indices.filter fun i => (shardAt C r s i).isSome) (blocksAt C r s t indices) where
  range i hi := hrange i (List.mem_filter.mp hi).1
  requested_nodup := hnodup.filter _
  mem_requested b hb := by
    rw [← blocksAt_index t indices]
    exact List.mem_map_of_mem hb
  nodup := by
    rw [blocksAt_index]
    exact hnodup.filter _
  sound b hb hlen hsum := by
    obtain ⟨i, _, file, hs, rfl⟩ := mem_blocksAt.mp hb
    exact h i file t hs ht hlen hsum

theorem usableBlocks_length {l : List ℕ} {J : ℕ → Except FaultKind Bytes} (ok : ℕ → Bool)
    (h : ∀ i ∈ l, ((J i).isOk) = ok i) : (usableBlocks (l.map fun i => (i, J i))).length = l.countP ok := by
  induction l with
  | nil => rfl
  | cons i l ih =>
    have hi := h i List.mem_cons_self
    have hrest := ih fun j hj => h j (List.mem_cons_of_mem _ hj)
    simp only [usableBlocks, List.map_cons, List.filterMap_cons, List.countP_cons] at hrest ⊢
    cases hj : J i with
    | ok b =>
      rw [hj] at hi
      simp only [← hi, Except.isOk, Except.toBool, List.length_cons, if_true, hrest]
    | error e =>
      rw [hj] at hi
      simp only [← hi, Except.isOk, Except.toBool, hrest, Bool.false_eq_true, if_false, Nat.add_zero]

theorem judgeBlock_usable (t i : ℕ) (file : ShardFile) (hs : shardAt C r s i = some file) :
    (judgeBlock X.xxh3 (blockLengthFor (.new X.reedSolomon scheme) (stripeOf scheme r body t).length)
      (some (blockAt i file t))).isOk = usable X C s scheme r body t i := by
  unfold usable
  rw [hs]
  simp only [judgeBlock, ne_eq, ite_not]
  by_cases hl : (blockAt i file t).bytes.length = blockLengthFor (.new X.reedSolomon scheme)
    (stripeOf scheme r body t).length
  · by_cases hc : X.xxh3 (blockAt i file t).bytes = (blockAt i file t).checksum
    · simp [hl, hc, Except.isOk, Except.toBool]
    · simp [hl, hc, Except.isOk, Except.toBool]
  · simp [hl, Except.isOk, Except.toBool]

theorem usable_count (t : ℕ) (indices : List ℕ) :
    (usableBlocks (judgeRequested X.xxh3 (.new X.reedSolomon scheme)
        (blockLengthFor (.new X.reedSolomon scheme) (stripeOf scheme r body t).length)
        (indices.filter fun i => (shardAt C r s i).isSome) (blocksAt C r s t indices))).length =
      scheme.shardIndices.countP fun i => decide (i ∈ indices) && usable X C s scheme r body t i := by
  unfold judgeRequested
  rw [usableBlocks_length fun i => usable X C s scheme r body t i]
  · rw [List.countP_filter]
    refine List.countP_congr fun i _ => ?_
    simp only [List.mem_filter, Bool.and_eq_true, decide_eq_true_eq]
    constructor
    · rintro ⟨hu, hi, _⟩
      exact ⟨hi, hu⟩
    · rintro ⟨hi, hu⟩
      refine ⟨hu, hi, ?_⟩
      unfold usable at hu
      cases hs : shardAt C r s i with
      | none => rw [hs] at hu; cases hu
      | some file => rfl
  · intro i hi
    have hmem := (List.mem_filter.mp hi).2
    simp only [List.mem_filter, decide_eq_true_eq] at hmem
    obtain ⟨file, hs⟩ := Option.isSome_iff_exists.mp hmem.2
    rw [find?_blocksAt, if_pos hmem.1, hs]
    exact judgeBlock_usable t i file hs

def IsStripe (decoded : DecodedStripe) (data : Bytes) : Prop :=
  decoded = .intact data ∨ ∃ faults, decoded = .repaired data faults

def usableAmong (X : Crates) (C : Cluster) (s : Store) (scheme : Scheme) (r : MetadataRecord) (body : Bytes) (t : ℕ)
    (indices : List ℕ) : ℕ :=
  scheme.shardIndices.countP fun i => decide (i ∈ indices) && usable X C s scheme r body t i

theorem stripeOf_ne_nil (hB : 0 < r.blockSize) (ht : t < stripeCount scheme r body) : stripeOf scheme r body t ≠ [] :=
  piece_ne_nil (Nat.mul_pos scheme.data_pos hB) ht

variable {i : ℕ}

theorem usable_isSome (h : usable X C s scheme r body t i = true) : (shardAt C r s i).isSome := by
  unfold usable at h
  cases hs : shardAt C r s i with
  | none => rw [hs] at h; cases h
  | some file => rfl

theorem blockFaults_eq_nil {judged : List (ℕ × Except FaultKind Bytes)} (h : ∀ p ∈ judged, p.2.isOk = true) :
    blockFaults judged = [] := by
  refine List.filterMap_eq_nil_iff.mpr fun p hp => ?_
  have hok := h p hp
  cases hp2 : p.2 with
  | ok b => rfl
  | error e => rw [hp2] at hok; cases hok

theorem faults_of_usable (h : ∀ i ∈ indices, (shardAt C r s i).isSome → usable X C s scheme r body t i = true) :
    blockFaults (judgeRequested X.xxh3 (.new X.reedSolomon scheme)
        (blockLengthFor (.new X.reedSolomon scheme) (stripeOf scheme r body t).length)
        (indices.filter fun i => (shardAt C r s i).isSome) (blocksAt C r s t indices)) = [] := by
  refine blockFaults_eq_nil fun p hp => ?_
  obtain ⟨i, hi, rfl⟩ := List.mem_map.mp hp
  have hmem := (List.mem_filter.mp hi).2
  simp only [List.mem_filter, decide_eq_true_eq] at hmem
  obtain ⟨file, hs⟩ := Option.isSome_iff_exists.mp hmem.2
  dsimp only
  rw [find?_blocksAt, if_pos hmem.1, hs]
  exact (judgeBlock_usable t i file hs).trans (h i hmem.1 hmem.2)

/-- What decoding the blocks of some indices gives: the stripe when `k` of them can be used, without a fault when all of
them can be, and the refusal otherwise. -/
structure Decoded (X : Crates) (C : Cluster) (s : Store) (scheme : Scheme) (r : MetadataRecord) (body : Bytes) (t : ℕ)
    (indices : List ℕ) (decoded : DecodedStripe) : Prop where
  enough : scheme.dataShards ≤ usableAmong X C s scheme r body t indices → IsStripe decoded (stripeOf scheme r body t)
  intact : scheme.dataShards ≤ usableAmong X C s scheme r body t indices →
    (∀ i ∈ indices, usable X C s scheme r body t i = true) → decoded = .intact (stripeOf scheme r body t)
  few : usableAmong X C s scheme r body t indices < scheme.dataShards →
    ∃ u n faults, decoded = .unrecoverable u n faults

theorem decode_at (hlib : ReedSolomonCode.Lawful X.reedSolomon scheme) (h : Detected X C s scheme r body)
    (hB : 0 < r.blockSize) (ht : t < stripeCount scheme r body) (hnodup : indices.Nodup)
    (hrange : ∀ i ∈ indices, i < scheme.totalShards) (next stop : ℕ) :
    ∃ decoded, decodeStripe X.xxh3 (.new X.reedSolomon scheme)
    ((sourcesAt C r s next stop indices).map ShardSource.index)
        (blocksAt C r s t indices) (stripeOf scheme r body t).length = .ok decoded ∧
      Decoded X C s scheme r body t indices decoded := by
  have hdec := decodeStripe_eq hlib (stripeOf_ne_nil hB ht) (received_blocksAt h ht hnodup hrange)
  rw [sourcesAt_index]
  refine ⟨_, hdec, ?_⟩
  dsimp only
  rw [usable_count]
  by_cases hfew : scheme.shardIndices.countP (fun i => decide (i ∈ indices) && usable X C s scheme r body t i) <
      scheme.dataShards
  · rw [if_pos hfew]
    exact ⟨fun hge => absurd hfew (Nat.not_lt.mpr hge), fun hge => absurd hfew (Nat.not_lt.mpr hge),
      fun _ => ⟨_, _, _, rfl⟩⟩
  · rw [if_neg hfew]
    refine ⟨fun _ => ?_, fun _ hall => ?_, fun hlt => absurd hlt hfew⟩
    · split_ifs
      · exact .inl rfl
      · exact .inr ⟨_, rfl⟩
    · rw [faults_of_usable fun i hi _ => hall i hi]
      rfl

/-! ## Stripe after stripe -/

/-- The indices a read asks for, without and with parity. -/
def openIndices (scheme : Scheme) (parity : Bool) : List ℕ :=
  if parity then scheme.dataShardIndices ++ scheme.shardIndices.filter fun i => i ∉ scheme.dataShardIndices
  else scheme.dataShardIndices

theorem mem_openIndices_true : i ∈ openIndices scheme true ↔ i < scheme.totalShards := by
  have := scheme.data_le_total
  simp only [openIndices, if_true, Scheme.dataShardIndices, Scheme.shardIndices, List.mem_append, List.mem_range,
    List.mem_filter, decide_eq_true_eq]
  omega

theorem openIndices_range (parity : Bool) : ∀ i ∈ openIndices scheme parity, i < scheme.totalShards := by
  cases parity with
  | true => exact fun i hi => mem_openIndices_true.mp hi
  | false =>
    intro i hi
    exact (List.mem_range.mp hi).trans_le scheme.data_le_total

theorem openIndices_nodup (parity : Bool) : (openIndices scheme parity).Nodup := by
  cases parity with
  | false => exact List.nodup_range
  | true =>
    refine List.nodup_append.mpr ⟨List.nodup_range, List.nodup_range.filter _, ?_⟩
    rintro i hi j hj rfl
    simpa [hi] using (List.mem_filter.mp hj).2

/-- The parity shards are open before stripe `t`: a data shard cannot be opened, or one of its blocks was damaged. -/
def parityBefore (X : Crates) (C : Cluster) (s : Store) (scheme : Scheme) (r : MetadataRecord) (body : Bytes)
    (t : ℕ) : Bool :=
  scheme.dataShardIndices.any fun i =>
    (shardAt C r s i).isNone || (List.range t).any fun t' => !usable X C s scheme r body t' i

theorem parityBefore_succ (t : ℕ) : parityBefore X C s scheme r body (t + 1) =
    (parityBefore X C s scheme r body t || scheme.dataShardIndices.any fun i => !usable X C s scheme r body t i) := by
  simp only [parityBefore, List.range_succ, List.any_append, List.any_cons, List.any_nil, Bool.or_false,
    ← Bool.or_assoc]
  generalize scheme.dataShardIndices = l
  induction l with
  | nil => rfl
  | cons i l ih =>
    simp only [List.any_cons, ih]
    cases (shardAt C r s i).isNone <;> cases (List.range t).any fun t' => !usable X C s scheme r body t' i <;>
      cases !usable X C s scheme r body t i <;> simp

theorem openIndices_mono {parity : Bool} (hi : i ∈ openIndices scheme parity) : i ∈ openIndices scheme true :=
  mem_openIndices_true.mpr (openIndices_range parity i hi)

theorem openIndices_step (hi : i ∈ openIndices scheme (parityBefore X C s scheme r body t)) :
    i ∈ openIndices scheme (parityBefore X C s scheme r body (t + 1)) := by
  rw [parityBefore_succ]
  cases hp : parityBefore X C s scheme r body t with
  | true => rwa [hp] at hi
  | false =>
    rw [hp] at hi
    cases scheme.dataShardIndices.any fun i => !usable X C s scheme r body t i with
    | true => exact openIndices_mono hi
    | false => exact hi

end Decode

end Djbod
