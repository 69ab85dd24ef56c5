import Djbod.Node.Within

/-!
# The two passes of a repair

* `streamAt`, `goodBlock`, `wholeShard` : the shards a repair can read from devices in service, and which of them are
  whole;
* `RepairSource.Stands`, `readRepairStripe_meets` : how the streams stand before a stripe, and one step on;
* `surveyObject_meets` : the first pass tells the whole shards from the damaged ones, and fails only if a stripe has too
  few blocks.
-/

namespace Djbod

open Sched Pieces

section Shards

variable (X : Crates) (C : Cluster) (s : Store) (scheme : Scheme) (r : MetadataRecord) (body : Bytes)

/-- The shard file a repair can stream: on a device in service, opened, and long enough. -/
def streamAt (n i : ℕ) : Option ShardFile :=
  (r.deviceFor i).bind fun d => (ownerInService C d).bind fun owner =>
    if d ∈ C.opened owner then
      match s.getShard d r.keyHash r.version i with
      | some (.ok file) => if n ≤ file.footer.blockCount then some file else none
      | _ => none
    else none

def goodBlock (t i : ℕ) (file : ShardFile) : Bool :=
  (blockAt i file t).bytes.length == blockLengthFor (.new X.reedSolomon scheme) (stripeOf scheme r body t).length &&
    X.xxh3 (blockAt i file t).bytes == (blockAt i file t).checksum

/-- The block of stripe `t` that shard `i` supplies to a repair is good. -/
def suppliesBlock (t i : ℕ) : Bool :=
  (streamAt C s r (stripeCount scheme r body) i).any (goodBlock X scheme r body t i)

def wholeShard (i : ℕ) : Bool :=
  (streamAt C s r (stripeCount scheme r body) i).any fun file =>
    (List.range (stripeCount scheme r body)).all fun t => goodBlock X scheme r body t i file

end Shards

variable {stream : ShardSource} {source : RepairSource}

section Streams

variable {X : Crates} {C : Cluster} {s : Store} {r : MetadataRecord} {n i : ℕ} {file : ShardFile}

variable {d : DeviceId} {owner : NodeId}

theorem streamAt_eq_some (hd : r.deviceFor i = some d) (howner : ownerInService C d = some owner) :
    streamAt C s r n i = some file ↔ Offers C s owner d r.keyHash r.version i n file := by
  simp only [streamAt, hd, Option.bind_some, howner, Offers]
  by_cases hopen : d ∈ C.opened owner
  · rw [if_pos hopen]
    cases hfile : s.getShard d r.keyHash r.version i with
    | none => simp
    | some content =>
      cases content with
      | error e => simp
      | ok file' =>
        by_cases hle : n ≤ file'.footer.blockCount
        · simp only [if_pos hle, Option.some.injEq, Except.ok.injEq, hopen, true_and]
          constructor
          · rintro rfl
            exact ⟨rfl, hle⟩
          · exact fun h => h.1
        · simp only [if_neg hle, Option.some.injEq, Except.ok.injEq, reduceCtorEq, false_iff]
          rintro ⟨_, rfl, h⟩
          exact hle h
  · rw [if_neg hopen]
    simp [hopen]

theorem streamAt_lost (hd : r.deviceFor i = some d) (howner : ownerInService C d = none) :
    streamAt C s r n i = none := by
  simp [streamAt, hd, howner]

theorem ownerInService_eq_some :
    ownerInService C d = some owner ↔ ∃ e, C.document.device d = some e ∧ e.state ≠ .removed ∧ e.node = owner := by
  unfold ownerInService
  cases hd : C.document.device d with
  | none => simp
  | some e =>
    by_cases hs : e.state = .removed
    · simp [Option.filter, hs]
    · simp [Option.filter, hs]

theorem inService_iff : inService C d = true ↔ (ownerInService C d).isSome := by
  unfold inService ownerInService
  cases C.document.device d with
  | none => simp
  | some e => by_cases hs : e.state = .removed <;> simp [Option.filter, hs]

theorem streamAt_shardAt (h : streamAt C s r n i = some file) : shardAt C r s i = some file := by
  cases hd : r.deviceFor i with
  | none => simp [streamAt, hd] at h
  | some d =>
    cases howner : ownerInService C d with
    | none => rw [streamAt_lost hd howner] at h; cases h
    | some owner =>
      obtain ⟨hopen, hfile, _⟩ := (streamAt_eq_some hd howner).mp h
      obtain ⟨e, he, _, rfl⟩ := ownerInService_eq_some.mp howner
      simp [shardAt, hd, he, hopen, hfile]

/-- How a stream stands before stripe `t`: at that stripe, or given up. -/
structure RepairSource.Stands (faults : Prop) (C : Cluster) (s : Store) (r : MetadataRecord) (n t i : ℕ)
    (source : RepairSource) : Prop where
  index : source.index = i
  device : r.deviceFor i = some source.device
  streaming : ∀ stream, source.stream = some stream → ∃ file, streamAt C s r n i = some file ∧
    stream = ⟨i, source.device, source.owner, file, t, n⟩ ∧ source.condition = .intact ∧
    ownerInService C source.device = some source.owner
  given : source.stream = none → source.condition ≠ .intact ∧ (faults ∨ streamAt C s r n i = none)

/-- The block a source has for stripe `t`, once it has been read past that stripe. -/
def RepairSource.block (t : ℕ) (source : RepairSource) : List ShardBlock :=
  match source.stream with
  | none => []
  | some stream => [blockAt source.index stream.file t]

variable {faults : Prop}

theorem openRepairSource_meets (hi : (r.deviceFor i).isSome) : Task.Meets (Trying faults) (· = s)
    (fun source _ => source.Stands faults C s r n 0 i) (fun _ _ => faults) (openRepairSource X C r n i) s := by
  unfold openRepairSource
  obtain ⟨d, hd⟩ := Option.isSome_iff_exists.mp hi
  rw [hd]
  dsimp only
  cases howner : ownerInService C d with
  | none => exact ⟨rfl, rfl, hd, nofun, fun _ => ⟨nofun, .inr (streamAt_lost hd howner)⟩⟩
  | some owner =>
    obtain ⟨e, he, _, rfl⟩ := ownerInService_eq_some.mp howner
    dsimp only
    refine Task.Meets.bind (Q := fun _ _ => True) (meets_fails (connectTo_meets (I := (· = s)) (B := fun _ => faults)
      (device_listed he) rfl trivial id) fun _ _ _ _ h => h) ?_
    rintro _ s' _ rfl
    refine Task.Meets.bind (meets_fails (askNode_meets (I := (· = s'))
      (B := fun _ => faults) e.node (getShard_meets 0 n rfl) fun hf _ _ => hf) fun _ _ _ _ h => h) ?_
    rintro answer s'' hanswer rfl
    cases answer with
    | ok file =>
      obtain ⟨_, hoffer⟩ := hanswer
      rw [Nat.zero_add] at hoffer
      refine ⟨rfl, rfl, hd, ?_, nofun⟩
      rintro stream hstream
      cases hstream
      exact ⟨file, (streamAt_eq_some hd howner).mpr hoffer, rfl, rfl, howner⟩
    | error detail =>
      obtain ⟨_, _, hwhy⟩ := hanswer
      rw [Nat.zero_add] at hwhy
      refine ⟨rfl, rfl, hd, nofun, fun _ => ⟨nofun, hwhy.imp id fun hno => ?_⟩⟩
      rw [Option.eq_none_iff_forall_ne_some]
      exact fun file hfile => hno file ((streamAt_eq_some hd howner).mp hfile)

variable {indices : List ℕ}

theorem openRepairSources_meets (hdev : ∀ i ∈ indices, (r.deviceFor i).isSome) :
    Task.Meets (Trying faults) (· = s) (fun sources _ => List.Forall₂ (RepairSource.Stands faults C s r n 0)
    indices sources)
      (fun _ _ => faults) (openRepairSources X C r n indices) s := by
  induction indices with
  | nil => exact ⟨rfl, .nil⟩
  | cons i indices ih =>
    refine (openRepairSource_meets (hdev i List.mem_cons_self)).bind ?_
    rintro source s' hsource rfl
    refine (ih fun j hj => hdev j (List.mem_cons_of_mem _ hj)).bind ?_
    rintro sources s'' hsources rfl
    exact ⟨rfl, .cons hsource hsources⟩

theorem readStreamItem_meets (hnext : stream.next < stream.stop) (hstop : stream.stop ≤ stream.file.footer.blockCount) :
    Task.Meets (Trying faults) (· = s)
      (fun item _ => item = .data ⟨stream.next, stream.file.footer.checksums.getD stream.next 0,
          stream.file.blocks.getD stream.next []⟩ ∨ faults ∧ ∃ error, item = .ended error)
      (Fails fun _ => faults) (readStreamItem X r stream) s := by
  refine request_meets stream.owner ?_ fun hf _ _ => hf
  rw [if_pos hnext]
  refine ⟨rfl, fun answer s' hx => ?_⟩
  obtain rfl := hx.quiet trivial
  rcases hx with hx | ⟨hf, hodd, _⟩
  · obtain rfl : answer = .ok ⟨stream.file.header.shardIndex, stream.file.blocks.getD stream.next [],
        stream.file.footer.checksums.getD stream.next 0⟩ := by
      have hanswer := congrArg Prod.fst hx
      simp only [exec, readBlock_ok (hnext.trans_le hstop)] at hanswer
      exact hanswer
    exact ⟨rfl, .inl rfl⟩
  · obtain ⟨e, rfl⟩ := hodd
    exact ⟨rfl, .inr ⟨hf, _, rfl⟩⟩

theorem readStreamItem_end (hnext : stream.next = stream.stop) : Task.Meets (Trying faults) (· = s)
    (fun item _ => item = .ended none) (Fails fun _ => faults) (readStreamItem X r stream) s := by
  refine request_meets stream.owner ?_ fun hf _ _ => hf
  rw [if_neg (by omega)]
  exact ⟨rfl, rfl⟩

variable {t : ℕ}

theorem readRepairBlock_meets (ht : t < n) (key : String) (h : source.Stands faults C s r n t i) :
    Task.Meets (Trying faults) (· = s)
      (fun res _ => res.2.Stands faults C s r n (t + 1) i ∧ res.1 = res.2.block t ∧
      (res.2.stream.isSome → source.stream.isSome)) (fun _ _ => faults) (readRepairBlock X r key t source) s := by
  unfold readRepairBlock
  cases hstream : source.stream with
  | none =>
    refine ⟨rfl, ⟨h.index, h.device, ?_, h.given⟩, by rw [RepairSource.block, hstream], fun hsome => hstream ▸ hsome⟩
    intro stream hsome
    rw [hstream] at hsome
    cases hsome
  | some stream =>
    obtain ⟨file, hfile, rfl, hcond, howner⟩ := h.streaming stream hstream
    have hlong : n ≤ file.footer.blockCount := ((streamAt_eq_some h.device howner).mp hfile).2.2
    dsimp only
    refine Task.Meets.bind (meets_fails (readStreamItem_meets ht hlong) fun _ _ _ _ hf => hf) ?_
    rintro item s' hitem rfl
    rcases hitem with rfl | ⟨hf, error, rfl⟩
    · dsimp only
      rw [if_neg (by simp)]
      refine ⟨rfl, ⟨h.index, h.device, ?_, nofun⟩, by rw [RepairSource.block]; rfl, fun _ => rfl⟩
      intro stream hsome
      cases hsome
      exact ⟨file, hfile, rfl, hcond, howner⟩
    · exact ⟨rfl, ⟨h.index, h.device, nofun, fun _ => ⟨nofun, .inl hf⟩⟩, rfl, fun _ => rfl⟩

variable {sources : List RepairSource}

/-- **One stripe.** Every stream that still stands gives its block and moves on. -/
theorem readRepairStripe_meets (ht : t < n) (key : String)
    (h : List.Forall₂ (RepairSource.Stands faults C s r n t) indices sources) : Task.Meets (Trying faults) (· = s)
      (fun res _ => List.Forall₂ (RepairSource.Stands faults C s r n (t + 1)) indices res.2 ∧
        res.1 = res.2.flatMap (RepairSource.block t) ∧
        List.Forall₂ (fun old new => new.stream.isSome → old.stream.isSome) sources res.2)
      (fun _ _ => faults) (readRepairStripe X r key t sources) s := by
  induction h with
  | nil => exact ⟨rfl, .nil, rfl, .nil⟩
  | cons hone _ ih =>
    refine (readRepairBlock_meets ht key hone).bind ?_
    rintro ⟨block, source⟩ s' ⟨hstands, hblock, hkeep⟩ rfl
    refine ih.bind ?_
    rintro ⟨blocks, sources⟩ s'' ⟨hall, hblocks, hkeeps⟩ rfl
    refine ⟨rfl, .cons hstands hall, ?_, .cons hkeep hkeeps⟩
    rw [List.flatMap_cons, ← hblock, ← hblocks]

theorem endSources_meets (key : String) {streams : List ShardSource}
    (h : ∀ stream ∈ streams, stream.next = stream.stop) : Task.Meets (Trying faults) (· = s) (fun _ _ => True)
    (fun _ _ => faults) (endSources X r key streams) s := by
  induction streams with
  | nil => exact ⟨rfl, trivial⟩
  | cons stream streams ih =>
    unfold endSources
    refine Task.Meets.bind (Task.Meets.caught (readStreamItem_end (h stream List.mem_cons_self))) ?_
    rintro item s' hitem rfl
    cases item with
    | ok item =>
      obtain rfl : item = .ended none := hitem
      exact ih fun stream' h' => h stream' (List.mem_cons_of_mem _ h')
    | error e => exact ⟨rfl, hitem.2⟩

theorem finishRepairStreams_meets (key : String) (h : List.Forall₂ (RepairSource.Stands faults C s r n n)
    indices sources) : Task.Meets (Trying faults) (· = s)
      (fun _ _ => True) (fun _ _ => faults) (finishRepairStreams X r key sources) s := by
  refine endSources_meets key fun stream hmem => ?_
  obtain ⟨source, hsource, hstream⟩ := List.mem_filterMap.mp hmem
  obtain ⟨i, _, hstands⟩ := forall₂_left_of_mem h hsource
  obtain ⟨file, _, rfl, _⟩ := hstands.streaming stream hstream
  rfl

end Streams

/-! ## Decoding -/

def heldFile (sources : List RepairSource) (i : ℕ) : Option ShardFile :=
  (sources.find? fun source => source.index == i).bind fun source => source.stream.map ShardSource.file

def gives (X : Crates) (scheme : Scheme) (r : MetadataRecord) (body : Bytes) (sources : List RepairSource) (t i : ℕ) :
    Bool :=
  (heldFile sources i).any (goodBlock X scheme r body t i)

variable {file : ShardFile} {i n t' : ℕ}

section Decode

variable {X : Crates} {C : Cluster} {s : Store} {scheme : Scheme} {r : MetadataRecord} {body : Bytes}
  {faults : Prop} {n t : ℕ} {indices : List ℕ} {sources : List RepairSource}

theorem stands_index (h : List.Forall₂ (RepairSource.Stands faults C s r n t) indices sources) :
    sources.map RepairSource.index = indices := by
  induction h with
  | nil => rfl
  | cons hone _ ih => rw [List.map_cons, hone.index, ih]

theorem mem_block {b : ShardBlock} :
    b ∈ source.block t ↔ ∃ stream, source.stream = some stream ∧ b = blockAt source.index stream.file t := by
  unfold RepairSource.block
  cases source.stream with
  | none => simp
  | some stream => simp

theorem block_index (source : RepairSource) : ((source.block t).map ShardBlock.index).Sublist [source.index] := by
  unfold RepairSource.block
  cases source.stream with
  | none => exact List.nil_sublist _
  | some stream => exact List.Sublist.refl _

theorem blocks_index (sources : List RepairSource) :
    ((sources.flatMap (RepairSource.block t)).map ShardBlock.index).Sublist (sources.map RepairSource.index) := by
  induction sources with
  | nil => exact List.Sublist.refl _
  | cons source sources ih =>
    rw [List.flatMap_cons, List.map_append, List.map_cons]
    exact (block_index source).append ih

theorem find?_blocks (hnodup : (sources.map RepairSource.index).Nodup) (i : ℕ) :
    (sources.flatMap (RepairSource.block t)).find? (fun b => b.index == i) =
      (heldFile sources i).map fun file => blockAt i file t := by
  induction sources with
  | nil => rfl
  | cons source sources ih =>
    rw [List.map_cons, List.nodup_cons] at hnodup
    rw [List.flatMap_cons, List.find?_append, heldFile, List.find?_cons]
    by_cases hi : source.index = i
    · subst hi
      have hnone : (sources.flatMap (RepairSource.block t)).find? (fun b => b.index == source.index) = none := by
        rw [List.find?_eq_none]
        intro b hb heq
        exact hnodup.1 ((blocks_index sources).subset (List.mem_map.mpr ⟨b, hb, by simpa using heq⟩))
      rw [hnone]
      simp only [beq_self_eq_true, Option.bind_some, Option.or_none, RepairSource.block]
      cases source.stream with
      | none => rfl
      | some stream => simp [blockAt]
    · have hone : (source.block t).find? (fun b => b.index == i) = none := by
        rw [List.find?_eq_none]
        intro b hb heq
        obtain ⟨stream, _, rfl⟩ := mem_block.mp hb
        exact hi (by simpa [blockAt] using heq)
      rw [hone, Option.none_or, ih hnodup.2, show (source.index == i) = false by simpa using hi]
      rfl

theorem heldFile_streamAt (h : List.Forall₂ (RepairSource.Stands faults C s r n t) indices sources)
    (hheld : heldFile sources i = some file) : i ∈ indices ∧ streamAt C s r n i = some file := by
  unfold heldFile at hheld
  obtain ⟨source, hfind, hstream⟩ := Option.bind_eq_some_iff.mp hheld
  obtain ⟨stream, hsome, rfl⟩ := Option.map_eq_some_iff.mp hstream
  obtain ⟨i', hi', hstands⟩ := forall₂_left_of_mem h (List.mem_of_find?_eq_some hfind)
  have hidx : source.index = i := by simpa using List.find?_some hfind
  obtain rfl : i' = i := hstands.index.symm.trans hidx
  obtain ⟨file, hfile, rfl, _⟩ := hstands.streaming stream hsome
  exact ⟨hi', hfile⟩

theorem heldFile_eq (h : List.Forall₂ (RepairSource.Stands faults C s r n t) indices sources) (hf : ¬ faults)
    (hi : i ∈ indices) : heldFile sources i = streamAt C s r n i := by
  cases hheld : heldFile sources i with
  | some file => exact (heldFile_streamAt h hheld).2.symm
  | none =>
    unfold heldFile at hheld
    obtain ⟨source, hmem, hstands⟩ := forall₂_left_of_mem h.flip hi
    cases hfind : sources.find? fun source => source.index == i with
    | none =>
      have := List.find?_eq_none.mp hfind source hmem
      exact absurd hstands.index (by simpa using this)
    | some source' =>
      rw [hfind, Option.bind_some, Option.map_eq_none_iff] at hheld
      obtain ⟨i', _, hstands'⟩ := forall₂_left_of_mem h (List.mem_of_find?_eq_some hfind)
      have hidx : source'.index = i := by simpa using List.find?_some hfind
      obtain rfl : i' = i := hstands'.index.symm.trans hidx
      exact ((hstands'.given hheld).2.resolve_left hf).symm

theorem heldFile_mem (h : List.Forall₂ (RepairSource.Stands faults C s r n t) indices sources) (hnodup : indices.Nodup)
    (hmem : source ∈ sources) (hstream : source.stream = some stream) :
    heldFile sources source.index = some stream.file := by
  cases hfind : sources.find? fun x => x.index == source.index with
  | none => exact absurd (List.find?_eq_none.mp hfind source hmem) (by simp)
  | some found =>
    have hindex : found.index = source.index := by simpa using List.find?_some hfind
    obtain rfl : found = source :=
      List.inj_on_of_nodup_map (stands_index h ▸ hnodup) (List.mem_of_find?_eq_some hfind) hmem hindex
    rw [heldFile, hfind, Option.bind_some, hstream, Option.map_some]

/-- A good block among those the sources have is the stripe's own. -/
def SoundAt (X : Crates) (scheme : Scheme) (r : MetadataRecord) (body : Bytes) (sources : List RepairSource)
    (t : ℕ) : Prop :=
  ∀ i file, heldFile sources i = some file → goodBlock X scheme r body t i file = true →
    (stripeBlocks (.new X.reedSolomon scheme) (stripeOf scheme r body t))[i]? = some (blockAt i file t).bytes

theorem soundAt_detected (hdet : Detected X C s scheme r body) (ht : t < stripeCount scheme r body)
    (h : List.Forall₂ (RepairSource.Stands faults C s r n t') indices sources) : SoundAt X scheme r body sources t := by
  intro i file hheld hgood
  rw [goodBlock, Bool.and_eq_true, beq_iff_eq, beq_iff_eq] at hgood
  exact hdet i file t (streamAt_shardAt (heldFile_streamAt h hheld).2) ht hgood.1 hgood.2

theorem received_sources (hnodup : indices.Nodup) (hrange : ∀ i ∈ indices, i < scheme.totalShards)
    (h : List.Forall₂ (RepairSource.Stands faults C s r n t') indices sources)
    (hsound : SoundAt X scheme r body sources t) : Received X.xxh3 (.new X.reedSolomon scheme)
    (stripeOf scheme r body t) scheme.shardIndices
      (sources.flatMap (RepairSource.block t)) where
  range i hi := List.mem_range.mp hi
  requested_nodup := List.nodup_range
  mem_requested b hb := by
    have hmem := (blocks_index sources).subset (List.mem_map_of_mem hb)
    rw [stands_index h] at hmem
    exact List.mem_range.mpr (hrange _ hmem)
  nodup := (blocks_index sources).nodup (stands_index h ▸ hnodup)
  sound b hb hlen hsum := by
    obtain ⟨source, hsource, hblock⟩ := List.mem_flatMap.mp hb
    obtain ⟨stream, hstream, rfl⟩ := mem_block.mp hblock
    refine hsound source.index stream.file (heldFile_mem h hnodup hsource hstream) ?_
    rw [goodBlock, Bool.and_eq_true, beq_iff_eq, beq_iff_eq]
    exact ⟨hlen, hsum⟩

theorem blockFaults_index {l : List ℕ} {J : ℕ → Except FaultKind Bytes} (ok : ℕ → Bool)
    (h : ∀ i ∈ l, (J i).isOk = ok i) : (blockFaults (l.map fun i => (i, J i))).map BlockFault.index = l.filter fun i =>
    !ok i := by
  induction l with
  | nil => rfl
  | cons i l ih =>
    have hi := h i List.mem_cons_self
    have hrest := ih fun j hj => h j (List.mem_cons_of_mem _ hj)
    unfold blockFaults at hrest ⊢
    rw [List.map_cons, List.filterMap_cons, List.filter_cons]
    cases hj : J i with
    | ok b =>
      rw [hj] at hi
      rw [← hi]
      simpa [Except.isOk, Except.toBool] using hrest
    | error e =>
      rw [hj] at hi
      rw [← hi]
      simpa [Except.isOk, Except.toBool] using hrest

abbrev decodedAt (X : Crates) (scheme : Scheme) (r : MetadataRecord) (body : Bytes)
    (sources : List RepairSource) (t : ℕ) : Except StripeError DecodedStripe :=
  decodeStripe X.xxh3 (.new X.reedSolomon scheme) scheme.shardIndices (sources.flatMap (RepairSource.block t))
    (stripeOf scheme r body t).length

abbrev judgedAt (X : Crates) (scheme : Scheme) (r : MetadataRecord) (body : Bytes)
    (sources : List RepairSource) (t : ℕ) : List (ℕ × Except FaultKind Bytes) :=
  judgeRequested X.xxh3 (.new X.reedSolomon scheme)
    (blockLengthFor (.new X.reedSolomon scheme) (stripeOf scheme r body t).length) scheme.shardIndices
    (sources.flatMap (RepairSource.block t))

theorem judged_sources (X : Crates) (scheme : Scheme) (r : MetadataRecord) (body : Bytes) (t : ℕ)
    (hnodup : (sources.map RepairSource.index).Nodup) :
    (usableBlocks (judgedAt X scheme r body sources t)).length =
        scheme.shardIndices.countP (gives X scheme r body sources t) ∧
      (blockFaults (judgedAt X scheme r body sources t)).map BlockFault.index =
        scheme.shardIndices.filter fun i => !gives X scheme r body sources t i := by
  have hfilter : scheme.shardIndices.filter (fun i => decide (i ∈ scheme.shardIndices)) = scheme.shardIndices :=
    List.filter_eq_self.mpr fun i hi => decide_eq_true hi
  have hok : ∀ i ∈ scheme.shardIndices, (judgeBlock X.xxh3
      (blockLengthFor (.new X.reedSolomon scheme) (stripeOf scheme r body t).length)
      ((sources.flatMap (RepairSource.block t)).find? fun b => b.index == i)).isOk =
      gives X scheme r body sources t i := by
    intro i _
    rw [find?_blocks hnodup, gives]
    cases heldFile sources i with
    | none => rfl
    | some file =>
      simp only [Option.map_some, Option.any_some, goodBlock, judgeBlock, ne_eq, ite_not]
      split_ifs <;> simp [Except.isOk, Except.toBool, *]
  simp only [judgedAt, judgeRequested, ReedSolomonCode.new_scheme, hfilter]
  exact ⟨usableBlocks_length _ hok, blockFaults_index _ hok⟩

/-- **The faults of a stripe** are the shards without a good block of it. -/
theorem decode_faults (X : Crates) (scheme : Scheme) (r : MetadataRecord) (body : Bytes) (t : ℕ)
    (hnodup : (sources.map RepairSource.index).Nodup) :
    (∀ data, decodedAt X scheme r body sources t = .ok (.intact data) →
        ∀ i < scheme.totalShards, gives X scheme r body sources t i = true) ∧
      ∀ data found, decodedAt X scheme r body sources t = .ok (.repaired data found) →
        ∀ i, i ∈ found.map BlockFault.index ↔ i < scheme.totalShards ∧ gives X scheme r body sources t i = false := by
  obtain ⟨_, hindex⟩ := judged_sources X scheme r body t hnodup
  constructor
  · intro data h i hi
    rw [← decodeStripe_faults h] at hindex
    simpa using List.filter_eq_nil_iff.mp hindex.symm i (List.mem_range.mpr hi)
  · intro data found h i
    rw [← decodeStripe_faults h] at hindex
    rw [show found = (DecodedStripe.repaired data found).faults from rfl, hindex, List.mem_filter,
      Scheme.shardIndices, List.mem_range]
    simp

/-- **Decoding a stripe** from sources whose good blocks are its own: its bytes if at least `k` are good. -/
theorem decode_sources (hlib : ReedSolomonCode.Lawful X.reedSolomon scheme) (hB : 0 < r.blockSize)
    (ht : t < stripeCount scheme r body) (hnodup : indices.Nodup) (hrange : ∀ i ∈ indices, i < scheme.totalShards)
    (h : List.Forall₂ (RepairSource.Stands faults C s r n t') indices sources)
    (hsound : SoundAt X scheme r body sources t) :
    if scheme.shardIndices.countP (gives X scheme r body sources t) < scheme.dataShards then
      ∃ usable needed found, decodedAt X scheme r body sources t = .ok (.unrecoverable usable needed found)
    else decodedAt X scheme r body sources t = .ok (.intact (stripeOf scheme r body t)) ∨
      ∃ found, decodedAt X scheme r body sources t = .ok (.repaired (stripeOf scheme r body t) found) := by
  have hdec : decodedAt X scheme r body sources t = _ :=
    decodeStripe_eq hlib (stripeOf_ne_nil hB ht) (received_sources hnodup hrange h hsound)
  have hcount := (judged_sources X scheme r body t (stands_index h ▸ hnodup)).1
  rw [← hcount, hdec]
  dsimp only
  by_cases hfew : (usableBlocks (judgedAt X scheme r body sources t)).length < scheme.dataShards
  · rw [if_pos hfew, if_pos hfew]
    exact ⟨_, _, _, rfl⟩
  · rw [if_neg hfew, if_neg hfew]
    by_cases hempty : (blockFaults (judgedAt X scheme r body sources t)).isEmpty = true
    · exact .inl (by rw [if_pos hempty])
    · exact .inr ⟨_, by rw [if_neg hempty]⟩

end Decode

/-! ## The first pass -/

section Passes

variable {X : Crates} {C : Cluster} {s : Store} {scheme : Scheme} {r : MetadataRecord} {body : Bytes}
  {faults : Prop} {t : ℕ} {indices : List ℕ} {sources : List RepairSource}

/-- The faults noted before stripe `t` of the shards still streamed are their bad blocks. -/
def Noted (X : Crates) (scheme : Scheme) (r : MetadataRecord) (body : Bytes) (sources : List RepairSource) (t : ℕ)
    (noted : List (ℕ × ℕ)) : Prop :=
  ∀ i file, heldFile sources i = some file → ∀ t', (i, t') ∈ noted ↔ t' < t ∧
    goodBlock X scheme r body t' i file = false

/-- A stripe has too few good blocks for a repair. -/
def Starved (X : Crates) (C : Cluster) (s : Store) (scheme : Scheme) (r : MetadataRecord) (body : Bytes) : Prop :=
  ∃ t < stripeCount scheme r body, scheme.shardIndices.countP (suppliesBlock X C s scheme r body t) < scheme.dataShards

theorem gives_supplies (h : List.Forall₂ (RepairSource.Stands faults C s r (stripeCount scheme r body) t)
    scheme.shardIndices sources) (hf : ¬ faults) (hi : i < scheme.totalShards) : gives X scheme r body sources t' i =
    suppliesBlock X C s scheme r body t' i := by
  rw [gives, suppliesBlock, heldFile_eq h hf (List.mem_range.mpr hi)]

theorem stripeLength_eq (hsize : r.size = body.length) (t : ℕ) :
    stripeLength scheme r t = (stripeOf scheme r body t).length := by
  rw [stripeLength, stripeOf_length, hsize, min_comm]

variable {sources' : List RepairSource}

theorem heldFile_earlier (h : List.Forall₂ (RepairSource.Stands faults C s r n t) indices sources)
    (h' : List.Forall₂ (RepairSource.Stands faults C s r n (t + 1)) indices sources')
    (hkeep : List.Forall₂ (fun old new : RepairSource => new.stream.isSome → old.stream.isSome) sources sources')
    (hheld : heldFile sources' i = some file) : heldFile sources i = some file := by
  have hindex : sources.map RepairSource.index = sources'.map RepairSource.index := by
    rw [stands_index h, stands_index h']
  have hsome : (heldFile sources i).isSome := by
    clear h h'
    induction hkeep with
    | nil => cases hheld
    | @cons old new olds news hone _ ih =>
      rw [List.map_cons, List.map_cons, List.cons.injEq] at hindex
      rw [heldFile, List.find?_cons] at hheld ⊢
      rw [hindex.1]
      cases hi : new.index == i with
      | true =>
        simp only [hi, Option.bind_some] at hheld ⊢
        rw [Option.isSome_map]
        exact hone (by rw [← Option.isSome_map (f := ShardSource.file), hheld]; rfl)
      | false =>
        simp only [hi] at hheld ⊢
        exact ih hheld hindex.2
  obtain ⟨file', hfile'⟩ := Option.isSome_iff_exists.mp hsome
  have heq := (heldFile_streamAt h hfile').2.symm.trans (heldFile_streamAt h' hheld).2
  rw [hfile', heq]

variable {noted : List (ℕ × ℕ)}

theorem Noted.step {new : List (ℕ × ℕ)} (h : Noted X scheme r body sources t noted)
    (hkeep : ∀ i file, heldFile sources' i = some file → heldFile sources i = some file)
    (hnew : ∀ i t', (i, t') ∈ new ↔ t' = t ∧ i < scheme.totalShards ∧ gives X scheme r body sources' t i = false)
    (hrange : ∀ i file, heldFile sources' i = some file → i < scheme.totalShards) :
    Noted X scheme r body sources' (t + 1) (noted ++ new) := by
  intro i file hfile t'
  have hgives : gives X scheme r body sources' t i = goodBlock X scheme r body t i file := by
    rw [gives, hfile, Option.any_some]
  rw [List.mem_append, h i file (hkeep i file hfile) t', hnew i t', hgives]
  constructor
  · rintro (⟨hlt, hbad⟩ | ⟨rfl, _, hbad⟩)
    · exact ⟨by omega, hbad⟩
    · exact ⟨by omega, hbad⟩
  · rintro ⟨hlt, hbad⟩
    rcases Nat.lt_succ_iff_lt_or_eq.mp hlt with hlt | rfl
    · exact .inl ⟨hlt, hbad⟩
    · exact .inr ⟨rfl, hrange i file hfile, hbad⟩

/-- **The first pass.** The bad blocks of the shards read to the end are noted. Where the checksums tell bad blocks, the
stripes decode to the object, and only a stripe with too few blocks stops the pass. -/
theorem surveyStripes_meets (hlib : ReedSolomonCode.Lawful X.reedSolomon scheme) (hB : 0 < r.blockSize)
    (hsize : r.size = body.length) (key : String) {remaining : ℕ} (ht : t + remaining = stripeCount scheme r body)
    {survey : Survey}
    (h : List.Forall₂ (RepairSource.Stands faults C s r (stripeCount scheme r body) t) scheme.shardIndices sources)
    (hhashed : Detected X C s scheme r body → survey.hashed = body.take (t * (scheme.dataShards * r.blockSize)))
    (hnoted : Noted X scheme r body sources t survey.faults) :
    Task.Meets (Trying faults) (· = s)
      (fun res _ => List.Forall₂ (RepairSource.Stands faults C s r (stripeCount scheme r body)
      (stripeCount scheme r body))
          scheme.shardIndices res.1 ∧ (Detected X C s scheme r body → res.2.hashed = body) ∧
        Noted X scheme r body res.1 (stripeCount scheme r body) res.2.faults)
      (fun _ _ => Detected X C s scheme r body → faults ∨ Starved X C s scheme r body)
      (surveyStripes X (.new X.reedSolomon scheme) key r remaining t sources survey) s := by
  induction remaining generalizing t sources survey with
  | zero =>
    obtain rfl : t = stripeCount scheme r body := by omega
    refine ⟨rfl, h, fun hdet => ?_, hnoted⟩
    rw [hhashed hdet, List.take_of_length_le]
    rw [Nat.mul_comm]
    exact le_mul_divCeil (Nat.mul_pos scheme.data_pos hB)
  | succ remaining ih =>
    have hlt : t < stripeCount scheme r body := by omega
    refine Task.Meets.bind ((readRepairStripe_meets hlt key h).mono_error
      fun _ _ _ hf _ => .inl hf) ?_
    rintro ⟨received, sources'⟩ s' ⟨hstands, hreceived, hkeep⟩ rfl
    dsimp only at hstands hreceived hkeep
    subst hreceived
    have hheld : ∀ i file, heldFile sources' i = some file → heldFile sources i = some file := fun i file =>
      heldFile_earlier h hstands hkeep
    have hrange : ∀ i file, heldFile sources' i = some file → i < scheme.totalShards := fun i file hfile =>
      List.mem_range.mp (heldFile_streamAt hstands hfile).1
    have hnodup : (sources'.map RepairSource.index).Nodup := stands_index hstands ▸ List.nodup_range
    obtain ⟨hintact, hrepaired⟩ := decode_faults X scheme r body t hnodup
    have hdecode := fun hdet => decode_sources hlib hB hlt List.nodup_range (fun i hi => List.mem_range.mp hi) hstands
      (soundAt_detected hdet hlt hstands)
    have hnext : ∀ data, (Detected X C s' scheme r body → data = stripeOf scheme r body t) →
      Detected X C s' scheme r body →
        survey.hashed ++ data = body.take ((t + 1) * (scheme.dataShards * r.blockSize)) := by
      intro data hdata hdet
      rw [hdata hdet, hhashed hdet, stripeOf, piece, Nat.add_mul, Nat.one_mul, List.take_add]
    dsimp only
    rw [ReedSolomonCode.new_scheme, stripeLength_eq hsize]
    cases hdec : decodeStripe X.xxh3 (.new X.reedSolomon scheme) scheme.shardIndices
      (sources'.flatMap (RepairSource.block t)) (stripeOf scheme r body t).length with
    | error e =>
      refine ⟨rfl, fun hdet => ?_⟩
      have := hdecode hdet
      rw [decodedAt, hdec] at this
      split_ifs at this <;> simp at this
    | ok decoded =>
      cases decoded with
      | intact data =>
        refine ih (by omega) hstands (hnext data fun hdet => ?_) ?_
        · have := hdecode hdet
          rw [decodedAt, hdec] at this
          split_ifs at this
          · simp at this
          · simpa using this
        · rw [← List.append_nil survey.faults]
          refine hnoted.step hheld (fun i t' => ?_) hrange
          simp only [List.not_mem_nil, false_iff, not_and]
          exact fun _ hi => by rw [hintact data hdec i hi]; decide
      | repaired data found =>
        refine ih (by omega) hstands (hnext data fun hdet => ?_) ?_
        · have := hdecode hdet
          rw [decodedAt, hdec] at this
          split_ifs at this
          · simp at this
          · simpa using this
        · refine hnoted.step hheld (fun i t' => ?_) hrange
          rw [← hrepaired data found hdec i]
          simp only [List.mem_map, Prod.mk.injEq]
          constructor
          · rintro ⟨fault, hmem, rfl, rfl⟩
            exact ⟨rfl, fault, hmem, rfl⟩
          · rintro ⟨rfl, fault, hmem, rfl⟩
            exact ⟨fault, hmem, rfl, rfl⟩
      | unrecoverable usable needed found =>
        refine ⟨rfl, fun hdet => ?_⟩
        have := hdecode hdet
        rw [decodedAt, hdec] at this
        split_ifs at this with hfew
        · by_cases hf : faults
          · exact .inl hf
          · refine .inr ⟨t, hlt, ?_⟩
            rwa [List.countP_congr fun i hi => by rw [← gives_supplies hstands hf (List.mem_range.mp hi)]]
        · simp at this

structure RepairSource.Judged (faults : Prop) (X : Crates) (C : Cluster) (s : Store) (scheme : Scheme)
    (r : MetadataRecord) (body : Bytes) (i : ℕ) (source : RepairSource) : Prop where
  index : source.index = i
  device : r.deviceFor i = some source.device
  intact : source.condition = .intact →
    wholeShard X C s scheme r body i = true ∧ ownerInService C source.device = some source.owner
  damaged : source.condition ≠ .intact → faults ∨ wholeShard X C s scheme r body i = false

theorem surveyed_judged (h : source.Stands faults C s r (stripeCount scheme r body) (stripeCount scheme r body) i)
    (hnoted : ∀ stream, source.stream = some stream → ∀ t', (i, t') ∈ noted ↔ t' < stripeCount scheme r body ∧
    goodBlock X scheme r body t' i stream.file = false) :
    (surveyed noted source).Judged faults X C s scheme r body i := by
  have hstripes : ((noted.filter fun f => f.1 == source.index).map Prod.snd).isEmpty = true ↔
      ∀ t', (i, t') ∉ noted := by
    rw [h.index, List.isEmpty_iff, List.map_eq_nil_iff, List.filter_eq_nil_iff]
    constructor
    · exact fun hno t' hmem => hno _ hmem (by simp)
    · rintro hno ⟨j, t'⟩ hmem hj
      obtain rfl : j = i := by simpa using hj
      exact hno t' hmem
  unfold surveyed
  cases hstream : source.stream with
  | none =>
    obtain ⟨hbad, hwhy⟩ := h.given hstream
    refine ⟨h.index, h.device, fun hc => absurd hc hbad, fun _ => hwhy.imp id fun hno => ?_⟩
    rw [wholeShard, hno, Option.any_none]
  | some stream =>
    obtain ⟨file, hfile, rfl, hcond, howner⟩ := h.streaming stream hstream
    have hnoted := hnoted _ hstream
    by_cases hclean : ∀ t', (i, t') ∉ noted
    · rw [if_neg (by simp [hstripes.mpr hclean])]
      refine ⟨h.index, h.device, fun _ => ⟨?_, howner⟩, fun hne => absurd hcond hne⟩
      rw [wholeShard, hfile, Option.any_some, List.all_eq_true]
      intro t' ht'
      by_contra hbad
      exact hclean t' ((hnoted t').mpr ⟨List.mem_range.mp ht', by simpa using hbad⟩)
    · rw [if_pos (by simpa [← hstripes] using hclean)]
      refine ⟨h.index, h.device, nofun, fun _ => .inr ?_⟩
      obtain ⟨t', ht'⟩ := not_forall_not.mp hclean
      obtain ⟨hlt, hbad⟩ := (hnoted t').mp ht'
      rw [wholeShard, hfile, Option.any_some, List.all_eq_false]
      exact ⟨t', List.mem_range.mpr hlt, by simp [hbad]⟩

/-- **What the first pass finds.** A shard is reported intact only if it is whole, and damaged only if it is not. -/
theorem surveyObject_meets (hlib : ReedSolomonCode.Lawful X.reedSolomon scheme) (hB : 0 < r.blockSize)
    (hsize : r.size = body.length) (hsum : r.objectChecksum = X.xxh3 body)
    (hdev : ∀ i < scheme.totalShards, (r.deviceFor i).isSome) (key : String) : Task.Meets (Trying faults) (· = s)
      (fun sources _ => List.Forall₂ (RepairSource.Judged faults X C s scheme r body) scheme.shardIndices sources)
      (fun _ _ => Detected X C s scheme r body → faults ∨ Starved X C s scheme r body)
      (surveyObject X C scheme key r (stripeCount scheme r body)) s := by
  unfold surveyObject
  refine Task.Meets.bind ((openRepairSources_meets fun i hi => hdev i (List.mem_range.mp hi)).mono (fun _ h => h)
    (fun _ _ _ h => h) fun _ _ _ hf _ => .inl hf) ?_
  rintro sources s₁ hsources rfl
  refine Task.Meets.bind (surveyStripes_meets hlib hB hsize key (Nat.zero_add _) hsources (by simp)
    fun i file _ t' => by simp) ?_
  rintro ⟨sources', survey⟩ s₂ ⟨hstands, hhashed, hnoted⟩ rfl
  refine Task.Meets.bind ((finishRepairStreams_meets key hstands).mono_error
    fun _ _ _ hf _ => .inl hf) ?_
  rintro _ s₃ _ rfl
  dsimp only at hhashed
  dsimp only
  split_ifs with hbad
  · refine ⟨rfl, fun hdet => absurd ?_ hbad⟩
    rw [hhashed hdet, hsum]
  · refine ⟨rfl, List.forall₂_map_right_iff.mpr ?_⟩
    refine forall₂_of_mem hstands fun i _ source hmem hone => surveyed_judged hone fun stream hstream t' => ?_
    have hheld := heldFile_mem hstands List.nodup_range hmem hstream
    rw [hone.index] at hheld
    exact hnoted i _ hheld t'

end Passes

end Djbod
