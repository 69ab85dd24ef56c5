import Djbod.Node.Survey

/-!
# The second pass of a repair

* `Encoded` : the shard file the encoder makes of a body;
* `Reliable` : the whole shards hold the object's own blocks;
* `rebuildStripes_meets` : from whole shards the writers get the blocks of their shards;
* `rebuildShards_meets` : the shards asked for are put in place as the encoder makes them, and nothing else changes.
-/

namespace Djbod

open Sched Pieces

def Encoded (X : Crates) (scheme : Scheme) (r : MetadataRecord) (body : Bytes) (i : ℕ) (file : ShardFile) : Prop :=
  writeShard X.xxh3 ⟨scheme, i, r.blockSize, r.keyHash, r.version⟩
    ((pieces (scheme.dataShards * r.blockSize) body).map (stripeBlock X scheme i)) r.size r.objectChecksum = .ok file

/-- The whole shards hold the blocks of the object. -/
def Reliable (X : Crates) (C : Cluster) (s : Store) (scheme : Scheme) (r : MetadataRecord) (body : Bytes) : Prop :=
  ∀ i file, streamAt C s r (stripeCount scheme r body) i = some file → wholeShard X C s scheme r body i = true →
    ∀ t < stripeCount scheme r body,
      (stripeBlocks (.new X.reedSolomon scheme) (stripeOf scheme r body t))[i]? = some (blockAt i file t).bytes

def wholeCount (X : Crates) (C : Cluster) (s : Store) (scheme : Scheme) (r : MetadataRecord) (body : Bytes) : ℕ :=
  scheme.shardIndices.countP (wholeShard X C s scheme r body)

section

variable {X : Crates} {C : Cluster} {s : Store} {scheme : Scheme} {r : MetadataRecord} {body : Bytes}
  {faults : Prop} {t : ℕ} {key : String}

variable {i : ℕ}

theorem encoded_exists (hlib : ReedSolomonCode.Lawful X.reedSolomon scheme) (hB : 0 < r.blockSize)
    (hsize : r.size = body.length) (hne : body ≠ []) (hi : i < scheme.totalShards) :
    ∃ file, Encoded X scheme r body i file ∧
      file.header = ⟨scheme, i, r.blockSize, r.keyHash, r.version⟩ ∧ IsShard X scheme r body i file := by
  unfold Encoded
  rw [hsize]
  exact writeShard_isShard hlib hB hne hi r.keyHash r.version r.objectChecksum

theorem Encoded.isShard (hlib : ReedSolomonCode.Lawful X.reedSolomon scheme) (hB : 0 < r.blockSize)
    (hsize : r.size = body.length) (hne : body ≠ []) (hi : i < scheme.totalShards) {file : ShardFile}
    (h : Encoded X scheme r body i file) : file.header = ⟨scheme, i, r.blockSize, r.keyHash, r.version⟩ ∧
    IsShard X scheme r body i file := by
  obtain ⟨file', h', hheader, hshard⟩ := encoded_exists hlib hB hsize hne hi
  obtain rfl : file' = file := Except.ok.inj (h'.symm.trans h)
  exact ⟨hheader, hshard⟩

theorem wholeShard_eq_true : wholeShard X C s scheme r body i = true ↔
    ∃ file, streamAt C s r (stripeCount scheme r body) i = some file ∧
      ∀ t < stripeCount scheme r body, goodBlock X scheme r body t i file = true := by
  rw [wholeShard, Option.any_eq_true_iff_get]
  constructor
  · rintro ⟨hsome, hall⟩
    refine ⟨_, (Option.some_get hsome).symm, fun t ht => ?_⟩
    exact List.all_eq_true.mp hall t (List.mem_range.mpr ht)
  · rintro ⟨file, hfile, hall⟩
    refine ⟨by rw [hfile]; rfl, ?_⟩
    rw [List.all_eq_true]
    intro t ht
    simpa [hfile] using hall t (List.mem_range.mp ht)

theorem Detected.reliable (h : Detected X C s scheme r body) : Reliable X C s scheme r body := by
  intro i file hfile hwhole t ht
  obtain ⟨file', hfile', hall⟩ := wholeShard_eq_true.mp hwhole
  obtain rfl : file = file' := Option.some.inj (hfile.symm.trans hfile')
  have hgood := hall t ht
  rw [goodBlock, Bool.and_eq_true, beq_iff_eq, beq_iff_eq] at hgood
  exact h i file t (streamAt_shardAt hfile) ht hgood.1 hgood.2

/-! ## Writers and readers -/

structure ShardWriter.For (C : Cluster) (target : ℕ × DeviceId) (w : ShardWriter) : Prop where
  index : w.index = target.1
  device : w.device = target.2
  blocks : w.blocks = []
  owner : (C.document.device w.device).map DeviceEntry.node = some w.owner
  state : (C.document.device w.device).map DeviceEntry.state = some .active

def CanTake (C : Cluster) (s : Store) (d : DeviceId) : Prop :=
  ∃ e, C.document.device d = some e ∧ Takes C s e.node d

variable {targets : List (ℕ × DeviceId)}

theorem openTargets_meets (key : String) (hsize : (shardFileLength scheme r.blockSize r.size).isSome)
    (hindex : ∀ p ∈ targets, p.1 < scheme.totalShards) :
    Task.Meets (Trying faults) (· = s) (fun writers _ => List.Forall₂ (ShardWriter.For C) targets writers)
      (fun _ _ => faults ∨ ∃ p ∈ targets, ¬ CanTake C s p.2) (openTargets X C scheme key r targets) s := by
  induction targets with
  | nil => exact ⟨rfl, .nil⟩
  | cons p targets ih =>
    obtain ⟨i, d⟩ := p
    unfold openTargets
    cases hd : C.document.device d with
    | none =>
      refine ⟨rfl, .inr ⟨(i, d), List.mem_cons_self, ?_⟩⟩
      rintro ⟨e, he, _⟩
      rw [hd] at he
      cases he
    | some e =>
      dsimp only
      refine Task.Meets.bind (Q := fun _ _ => True) (meets_fails (connectTo_meets (I := (· = s)) (B := fun _ => faults)
        (device_listed hd) rfl trivial id) fun _ _ _ _ hf => .inl hf) ?_
      rintro _ s₁ _ rfl
      refine Task.Meets.bind (meets_fails (request_meets (I := (· = s₁))
        (B := fun _ => faults ∨ ¬ Takes C s₁ e.node d) e.node
        ((beginShard_meets (I := (· = s₁)) (hindex _ List.mem_cons_self) hsize rfl).mono_error
          fun _ _ _ h => ⟨h.1, h.2.2⟩) fun hf _ _ => .inl hf) ?_) ?_
      · rintro err s₂ _ _ hwhy
        refine hwhy.imp id fun hno => ⟨(i, d), List.mem_cons_self, ?_⟩
        rintro ⟨e', he', htakes⟩
        obtain rfl : e = e' := Option.some.inj (hd.symm.trans he')
        exact hno htakes
      rintro _ s₂ ⟨_, _, hactive⟩ rfl
      refine Task.Meets.bind ((ih fun p hp => hindex p (List.mem_cons_of_mem _ hp)).mono_error
        fun _ _ _ h => h.imp id fun ⟨p, hp, hno⟩ => ⟨p, List.mem_cons_of_mem _ hp, hno⟩) ?_
      rintro writers s₃ hwriters rfl
      exact ⟨rfl, .cons ⟨rfl, rfl, rfl, by rw [hd]; rfl, hactive⟩ hwriters⟩

def intactIndices (sources : List RepairSource) : List ℕ :=
  (sources.filter fun source => source.condition = .intact).map RepairSource.index

variable {indices : List ℕ} {sources : List RepairSource}

theorem reopenIntactStreams_meets (h : List.Forall₂ (RepairSource.Judged faults X C s scheme r body) indices sources) :
    Task.Meets (Trying faults) (· = s)
      (fun readers _ => List.Forall₂ (RepairSource.Stands faults C s r (stripeCount scheme r body) 0)
      (intactIndices sources) readers) (fun _ _ => faults)
      (reopenIntactStreams X C r (stripeCount scheme r body) sources) s := by
  induction h with
  | nil => exact ⟨rfl, .nil⟩
  | @cons i source indices sources hone _ ih =>
    unfold reopenIntactStreams
    by_cases hintact : source.condition = .intact
    · obtain ⟨hwhole, howner⟩ := hone.intact hintact
      obtain ⟨e, he, _, hnode⟩ := ownerInService_eq_some.mp howner
      obtain ⟨file₀, hfile₀, _⟩ := wholeShard_eq_true.mp hwhole
      have hoffer := (streamAt_eq_some hone.device howner).mp hfile₀
      rw [if_pos hintact]
      refine Task.Meets.bind (Q := fun _ _ => True) (meets_fails (connectTo_meets (I := (· = s)) (B := fun _ => faults)
        (hnode ▸ device_listed he) rfl trivial id) fun _ _ _ _ hf => hf) ?_
      rintro _ s₁ _ rfl
      refine Task.Meets.bind (meets_fails (request_meets (I := (· = s₁)) (B := fun _ => faults) source.owner
        ((getShard_meets (I := (· = s₁)) 0 (stripeCount scheme r body) rfl).mono_error
          fun _ _ _ h => ⟨h.1, ?_⟩) fun hf _ _ => hf) fun _ _ _ _ hf => hf) ?_
      · refine h.2.2.elim id fun hno => absurd hoffer ?_
        have := hno file₀
        rwa [Nat.zero_add, hone.index] at this
      rintro file s₂ ⟨_, hgot⟩ rfl
      rw [Nat.zero_add, hone.index] at hgot
      refine Task.Meets.bind ih ?_
      rintro readers s₃ hreaders rfl
      refine ⟨rfl, ?_⟩
      rw [intactIndices, List.filter_cons_of_pos (by simpa using hintact), List.map_cons]
      refine .cons ⟨rfl, hone.index ▸ hone.device, ?_, nofun⟩ hreaders
      intro stream hstream
      cases hstream
      exact ⟨file, hone.index ▸ (streamAt_eq_some hone.device howner).mpr hgot, rfl, rfl, howner⟩
    · rw [if_neg hintact]
      rw [intactIndices, List.filter_cons_of_neg (by simpa using hintact)]
      exact ih

theorem sealed_stripeBlock (hlib : ReedSolomonCode.Lawful X.reedSolomon scheme) (stripe : Bytes)
    (hi : i < scheme.totalShards) : (sealBlocks X.xxh3 (stripeBlocks (.new X.reedSolomon scheme) stripe))[i]? =
    some (stripeBlock X scheme i stripe) := by
  have hlen : i < (stripeBlocks (.new X.reedSolomon scheme) stripe).length := by
    rw [stripeBlocks_length hlib]
    exact hi
  rw [sealBlocks, List.getElem?_mapIdx, List.getElem?_eq_getElem hlen, Option.map_some, stripeBlock,
    List.getD_eq_getElem?_getD, List.getElem?_eq_getElem hlen, Option.getD_some]

variable {writers : List ShardWriter}

def ShardWriter.goesTo (w : ShardWriter) : ℕ × DeviceId × NodeId := (w.index, w.device, w.owner)

/-- Sending blocks leaves the writers where they are; `P` is when the blocks are those of a stripe. -/
theorem sendRebuilt_meets {P : Prop} (hlib : ReedSolomonCode.Lawful X.reedSolomon scheme) {blocks : List ShardBlock}
    {stripe : Bytes} (hblocks : P → blocks = sealBlocks X.xxh3 (stripeBlocks (.new X.reedSolomon scheme) stripe))
    (hindex : ∀ w ∈ writers, w.index < scheme.totalShards) : Task.Meets (Trying faults) (· = s)
      (fun writers' _ => writers'.map ShardWriter.goesTo = writers.map ShardWriter.goesTo ∧
        (P → writers' = withStripes X scheme writers [stripe])) (fun _ _ => P → faults)
        (sendRebuilt X blocks writers) s := by
  induction writers with
  | nil => exact ⟨rfl, rfl, fun _ => rfl⟩
  | cons w writers ih =>
    have hseal : P → blocks[w.index]? = some (stripeBlock X scheme w.index stripe) := by
      intro hP
      rw [hblocks hP]
      exact sealed_stripeBlock hlib stripe (hindex w List.mem_cons_self)
    unfold sendRebuilt
    cases hblock : blocks[w.index]? with
    | none => exact ⟨rfl, fun hP => nomatch (hseal hP).symm.trans hblock⟩
    | some block =>
      dsimp only
      refine Task.Meets.bind (meets_fails (sendTo_meets w.owner) fun _ _ _ _ hf _ => hf) ?_
      rintro _ s₁ _ rfl
      refine Task.Meets.bind (ih fun w' hw' => hindex w' (List.mem_cons_of_mem _ hw')) ?_
      rintro writers' s₂ ⟨hgoes, hstripe⟩ rfl
      refine ⟨rfl, congrArg (w.goesTo :: ·) hgoes, fun hP => ?_⟩
      rw [hstripe hP, Option.some.inj (hblock.symm.trans (hseal hP))]
      rfl

/-! ## Rebuilding -/

variable {readers : List RepairSource} {t' : ℕ}

theorem soundAt_reliable (hrel : Reliable X C s scheme r body) (ht : t < stripeCount scheme r body)
    (hwhole : ∀ i ∈ indices, wholeShard X C s scheme r body i = true)
    (h : List.Forall₂ (RepairSource.Stands faults C s r (stripeCount scheme r body) t') indices readers) :
    SoundAt X scheme r body readers t := by
  intro i file hheld _
  obtain ⟨hi, hfile⟩ := heldFile_streamAt h hheld
  exact hrel i file hfile (hwhole i hi) t ht

theorem wholeCount_le_gives (hf : ¬ faults) (ht : t < stripeCount scheme r body)
    (hwhole : ∀ i < scheme.totalShards, wholeShard X C s scheme r body i = true → faults ∨ i ∈ indices)
    (h : List.Forall₂ (RepairSource.Stands faults C s r (stripeCount scheme r body) t') indices readers) :
    wholeCount X C s scheme r body ≤ scheme.shardIndices.countP (gives X scheme r body readers t) := by
  refine List.countP_mono_left fun i hi hw => ?_
  have hmem := (hwhole i (List.mem_range.mp hi) hw).resolve_left hf
  obtain ⟨file, hfile, hall⟩ := wholeShard_eq_true.mp hw
  rw [gives, heldFile_eq h hf hmem, hfile, Option.any_some]
  exact hall t ht

theorem gives_le_wholeCount (hwhole : ∀ i ∈ indices, wholeShard X C s scheme r body i = true)
    (h : List.Forall₂ (RepairSource.Stands faults C s r (stripeCount scheme r body) t') indices readers) :
    scheme.shardIndices.countP (gives X scheme r body readers t) ≤ wholeCount X C s scheme r body := by
  refine List.countP_mono_left fun i _ hg => ?_
  cases hheld : heldFile readers i with
  | none => rw [gives, hheld] at hg; cases hg
  | some file => exact hwhole i (heldFile_streamAt h hheld).1

variable {remaining : ℕ}

/-- **The second pass** reads to the end and leaves the writers where they are; from reliable shards, it gives each
writer the blocks of its shard. -/
theorem rebuildStripes_meets (hlib : ReedSolomonCode.Lawful X.reedSolomon scheme) (hB : 0 < r.blockSize)
    (hsize : r.size = body.length) (key : String) (hnodup : indices.Nodup)
    (hrange : ∀ i ∈ indices, i < scheme.totalShards) (hsub : ∀ i ∈ indices, wholeShard X C s scheme r body i = true)
    (hsup : ∀ i < scheme.totalShards, wholeShard X C s scheme r body i = true → faults ∨ i ∈ indices)
    (ht : t + remaining = stripeCount scheme r body)
    (h : List.Forall₂ (RepairSource.Stands faults C s r (stripeCount scheme r body) t) indices readers)
    (hindex : ∀ w ∈ writers, w.index < scheme.totalShards) :
    Task.Meets (Trying faults) (· = s)
      (fun res _ => List.Forall₂ (RepairSource.Stands faults C s r (stripeCount scheme r body)
      (stripeCount scheme r body))
          indices res.1 ∧ res.2.map ShardWriter.goesTo = writers.map ShardWriter.goesTo ∧
        (Reliable X C s scheme r body → res.2 = withStripes X scheme writers
        ((List.range' t remaining).map (stripeOf scheme r body)) ∧
          (0 < remaining → scheme.dataShards ≤ wholeCount X C s scheme r body)))
      (fun _ _ => Reliable X C s scheme r body → faults ∨ wholeCount X C s scheme r body < scheme.dataShards)
      (rebuildStripes X (.new X.reedSolomon scheme) key r remaining t readers writers) s := by
  induction remaining generalizing t readers writers with
  | zero =>
    obtain rfl : t = stripeCount scheme r body := by omega
    exact ⟨rfl, h, rfl, fun _ => ⟨withStripes_nil.symm, nofun⟩⟩
  | succ remaining ih =>
    have hlt : t < stripeCount scheme r body := by omega
    refine Task.Meets.bind ((readRepairStripe_meets hlt key h).mono_error
      fun _ _ _ hf _ => .inl hf) ?_
    rintro ⟨received, readers'⟩ s₁ ⟨hstands, hreceived, _⟩ rfl
    dsimp only at hstands hreceived
    subst hreceived
    have hencode : encodeStripe X.xxh3 (.new X.reedSolomon scheme) (stripeOf scheme r body t) r.blockSize =
        .ok (sealBlocks X.xxh3 (stripeBlocks (.new X.reedSolomon scheme) (stripeOf scheme r body t))) :=
      encodeStripe_ok (stripeOf_ne_nil hB hlt) (by rw [stripeOf_length]; exact Nat.min_le_left _ _)
    -- what is left once a stripe was decoded and encoded again
    have hsend {data : Bytes} {blocks : List ShardBlock} (hdata : Reliable X C s₁ scheme r body →
          data = stripeOf scheme r body t ∧ scheme.dataShards ≤ wholeCount X C s₁ scheme r body)
        (hblocks : encodeStripe X.xxh3 (.new X.reedSolomon scheme) data r.blockSize = .ok blocks) :
        Task.Meets (Trying faults) (· = s₁) (fun res _ =>
        List.Forall₂ (RepairSource.Stands faults C s₁ r (stripeCount scheme r body) (stripeCount scheme r body))
            indices res.1 ∧ res.2.map ShardWriter.goesTo = writers.map ShardWriter.goesTo ∧
          (Reliable X C s₁ scheme r body →
            res.2 = withStripes X scheme writers ((List.range' t (remaining + 1)).map (stripeOf scheme r body)) ∧
            (0 < remaining + 1 → scheme.dataShards ≤ wholeCount X C s₁ scheme r body)))
        (fun _ _ => Reliable X C s₁ scheme r body → faults ∨ wholeCount X C s₁ scheme r body < scheme.dataShards)
        (sendRebuilt X blocks writers >>= rebuildStripes X (.new X.reedSolomon scheme) key r remaining (t + 1) readers')
        s₁ := by
      have hseal (hrel : Reliable X C s₁ scheme r body) := Except.ok.inj (hblocks.symm.trans ((hdata hrel).1 ▸ hencode))
      refine Task.Meets.bind ((sendRebuilt_meets hlib hseal hindex).mono_error
        fun _ _ _ hf hrel => .inl (hf hrel)) ?_
      rintro writers' s₂ ⟨hgoes, hstripe⟩ rfl
      refine (ih (by omega) hstands ?_).mono (fun _ h => h)
        (fun res _ _ hres => ⟨hres.1, hres.2.1.trans hgoes, fun hrel => ⟨?_, fun _ => (hdata hrel).2⟩⟩) fun _ _ _ h => h
      · intro w hw
        obtain ⟨w', hw', heq⟩ := List.mem_map.mp (hgoes ▸ List.mem_map_of_mem (f := ShardWriter.goesTo) hw)
        have hsame : w'.index = w.index := congrArg Prod.fst heq
        exact hsame ▸ hindex w' hw'
      · rw [(hres.2.2 hrel).1, hstripe hrel, withStripes_append, List.range'_succ, List.map_cons, (hdata hrel).1]
        rfl
    have hdecode (hrel : Reliable X C s₁ scheme r body) :=
      decode_sources hlib hB hlt hnodup hrange hstands (soundAt_reliable hrel hlt hsub hstands)
    have hk (hfew : ¬ scheme.shardIndices.countP (gives X scheme r body readers' t) < scheme.dataShards) :=
      (Nat.not_lt.mp hfew).trans (gives_le_wholeCount hsub hstands)
    dsimp only
    rw [ReedSolomonCode.new_scheme, stripeLength_eq hsize]
    rw [decodedAt] at hdecode
    generalize decodeStripe X.xxh3 _ _ _ _ = decoded at hdecode ⊢
    have hdone (data : Bytes) (hdata : Reliable X C s₁ scheme r body → data = stripeOf scheme r body t ∧
        scheme.dataShards ≤ wholeCount X C s₁ scheme r body) {e : StripeError}
        (he : encodeStripe X.xxh3 (.new X.reedSolomon scheme) data r.blockSize = .error e) :
        ¬ Reliable X C s₁ scheme r body := by
      intro hrel
      rw [(hdata hrel).1, hencode] at he
      cases he
    cases decoded with
    | error e => exact ⟨rfl, fun hrel => by grind⟩
    | ok decoded =>
      cases decoded with
      | unrecoverable usable needed found =>
        refine ⟨rfl, fun hrel => or_iff_not_imp_left.mpr fun hf =>
          (wholeCount_le_gives hf hlt hsup hstands).trans_lt ?_⟩
        grind
      | intact data =>
        dsimp only
        cases hblocks : encodeStripe X.xxh3 (.new X.reedSolomon scheme) data r.blockSize with
        | error e => exact ⟨rfl, fun hrel => absurd hrel (hdone data (by grind) hblocks)⟩
        | ok blocks => exact hsend (by grind) hblocks
      | repaired data found =>
        dsimp only
        cases hblocks : encodeStripe X.xxh3 (.new X.reedSolomon scheme) data r.blockSize with
        | error e => exact ⟨rfl, fun hrel => absurd hrel (hdone data (by grind) hblocks)⟩
        | ok blocks => exact hsend (by grind) hblocks

/-- A file put in place of a shard; from reliable shards, the encoder's. -/
def Rebuilt (X : Crates) (C : Cluster) (s : Store) (scheme : Scheme) (r : MetadataRecord) (body : Bytes) (i : ℕ)
    (file : ShardFile) : Prop :=
  Reliable X C s scheme r body → Encoded X scheme r body i file

/-- The shard files of a version while the shards asked for are put in place. -/
def Filling (X : Crates) (C : Cluster) (scheme : Scheme) (r : MetadataRecord) (body : Bytes) (s : Store)
    (targets : List (ℕ × DeviceId)) : Store → Prop :=
  Within r.keyHash r.version s (fun d x => x = s.getRecord d r.keyHash r.version) fun d i x =>
    x = s.getShard d r.keyHash r.version i ∨ (i, d) ∈ targets ∧ ∃ file, x = some (.ok file) ∧
    Rebuilt X C s scheme r body i file

theorem Filling.refl (targets : List (ℕ × DeviceId)) : Filling X C scheme r body s targets s :=
  Within.refl (fun _ => rfl) fun _ _ => .inl rfl

variable {E : ErrorDetail → Store → Prop} {I : Store → Prop} {α : Type}

theorem require_meets {x : Except ErrorDetail α} {a : α} (hx : x = .ok a) (hI : I s) :
    Prog.Meets (Trying faults) I (fun b s' => a = b ∧ s' = s) E (require x) s := by
  subst hx
  exact ⟨hI, rfl, rfl⟩

theorem callNode_still {Q : α → Store → Prop} {x : NodeProc α} (h : Task.Meets (Trying faults) (· = s) Q E x s)
    (hI : I s) : Prog.Meets (Trying faults) I (fun a s' => s' = s ∧ Q a s') (fun e s' => s' = s ∧ E e s')
    (callNode x) s :=
  Prog.Meets.call (meets_still h hI)

theorem Describes.geometry (h : Describes X key r scheme body) (hne : body ≠ []) :
    ∃ g, shardGeometry scheme r.blockSize r.size = some g ∧ g.blockCount = stripeCount scheme r body := by
  have hsize : r.size ≠ 0 := fun h0 => hne (List.length_eq_zero_iff.mp (h.size_eq ▸ h0))
  obtain ⟨g, hg, hcount⟩ := h.geometry_eq
  rw [Nat.max_eq_left (Nat.pos_of_ne_zero hsize)] at hg
  exact ⟨g, hg, hcount hsize⟩

theorem judged_intactIndices (h : List.Forall₂ (RepairSource.Judged faults X C s scheme r body) indices sources) :
    (intactIndices sources).Sublist indices ∧ (∀ i ∈ intactIndices sources, wholeShard X C s scheme r body i = true) ∧
      ∀ i ∈ indices, wholeShard X C s scheme r body i = true → faults ∨ i ∈ intactIndices sources := by
  induction h with
  | nil => exact ⟨.refl _, nofun, nofun⟩
  | @cons i source indices sources hone _ ih =>
    obtain ⟨hsub, hwhole, hall⟩ := ih
    unfold intactIndices at hsub hwhole hall ⊢
    by_cases hintact : source.condition = .intact
    · rw [List.filter_cons_of_pos (by simpa using hintact), List.map_cons, hone.index]
      refine ⟨hsub.cons_cons i, ?_, ?_⟩
      · rw [List.forall_mem_cons]
        exact ⟨(hone.intact hintact).1, hwhole⟩
      · rw [List.forall_mem_cons]
        exact ⟨fun _ => .inr List.mem_cons_self, fun j hj hw => (hall j hj hw).imp id (List.mem_cons_of_mem _)⟩
    · rw [List.filter_cons_of_neg (by simpa using hintact)]
      refine ⟨hsub.cons i, hwhole, ?_⟩
      rw [List.forall_mem_cons]
      refine ⟨fun hw => .inl ((hone.damaged hintact).resolve_right ?_), hall⟩
      rw [hw]
      decide

variable {w : ShardWriter} {writers' : List ShardWriter}

theorem writer_for (h : List.Forall₂ (ShardWriter.For C) targets writers)
    (hgoes : writers'.map ShardWriter.goesTo = writers.map ShardWriter.goesTo) (hw : w ∈ writers') :
    (w.index, w.device) ∈ targets ∧ (C.document.device w.device).map DeviceEntry.node = some w.owner := by
  have hmem := List.mem_map_of_mem (f := ShardWriter.goesTo) hw
  rw [hgoes] at hmem
  obtain ⟨w₀, hw₀, heq⟩ := List.mem_map.mp hmem
  obtain ⟨p, hp, hfor⟩ := forall₂_left_of_mem h hw₀
  simp only [ShardWriter.goesTo, Prod.mk.injEq] at heq
  obtain ⟨hindex, hdevice, howner⟩ := heq
  rw [← hindex, ← hdevice, ← howner]
  refine ⟨?_, hfor.owner⟩
  rw [show (w₀.index, w₀.device) = p from Prod.ext hfor.index hfor.device]
  exact hp

theorem target_writer (h : List.Forall₂ (ShardWriter.For C) targets writers)
    (hgoes : writers'.map ShardWriter.goesTo = writers.map ShardWriter.goesTo) {p : ℕ × DeviceId} (hp : p ∈ targets) :
    ∃ w ∈ writers', w.index = p.1 ∧ w.device = p.2 := by
  obtain ⟨w₀, hw₀, hfor⟩ := forall₂_left_of_mem h.flip hp
  have hmem := List.mem_map_of_mem (f := ShardWriter.goesTo) hw₀
  rw [← hgoes] at hmem
  obtain ⟨w, hw, heq⟩ := List.mem_map.mp hmem
  simp only [ShardWriter.goesTo, Prod.mk.injEq] at heq
  exact ⟨w, hw, heq.1.trans hfor.index, heq.2.1.trans hfor.device⟩

theorem writer_blocks (h : List.Forall₂ (ShardWriter.For C) targets writers)
    (hw : w ∈ withStripes X scheme writers (pieces (scheme.dataShards * r.blockSize) body)) :
    w.blocks = (pieces (scheme.dataShards * r.blockSize) body).map (stripeBlock X scheme w.index) := by
  obtain ⟨w₀, hw₀, rfl⟩ := List.mem_map.mp hw
  obtain ⟨p, _, hfor⟩ := forall₂_left_of_mem h hw₀
  rw [hfor.blocks, List.nil_append]

/-- **Rebuilding shards.** Files are put in place for the shards asked for, and no other file changes. From reliable
shards the files are the encoder's, and it fails only if a device cannot take its shard or too few shards are whole. -/
theorem rebuildShards_meets (hlib : ReedSolomonCode.Lawful X.reedSolomon scheme) (hdesc : Describes X key r scheme body)
    (hne : body ≠ []) (h : List.Forall₂ (RepairSource.Judged faults X C s scheme r body) scheme.shardIndices sources)
    (hindex : ∀ p ∈ targets, p.1 < scheme.totalShards) :
    Prog.Meets (Trying faults) (Filling X C scheme r body s targets)
      (fun _ s' => (∀ p ∈ targets, ∃ file, s'.getShard p.2 r.keyHash r.version p.1 = some (.ok file) ∧
          Rebuilt X C s scheme r body p.1 file) ∧
        (∀ p ∈ targets, (C.document.device p.2).map DeviceEntry.state = some .active) ∧
        (Reliable X C s scheme r body → scheme.dataShards ≤ wholeCount X C s scheme r body))
      (fun e s' => (e.code.Plain ∨ s' = s) ∧ (Reliable X C s scheme r body →
        faults ∨ wholeCount X C s scheme r body < scheme.dataShards ∨ ∃ p ∈ targets, ¬ CanTake C s p.2))
      (rebuildShards X C key r sources targets) s := by
  have hB := hdesc.valid.blockSize.1
  have hsize : r.size ≠ 0 := fun h0 => hne (List.length_eq_zero_iff.mp (hdesc.size_eq ▸ h0))
  have hfill : Filling X C scheme r body s targets s := .refl targets
  obtain ⟨g, hg, hcount⟩ := hdesc.geometry hne
  obtain ⟨hsub, hwhole, hall⟩ := judged_intactIndices h
  unfold rebuildShards
  refine Prog.Meets.bind (require_meets (by rw [hdesc.scheme_eq]; rfl) hfill) ?_
  rintro _ s₁ ⟨rfl, rfl⟩ _
  refine Prog.Meets.bind (require_meets (a := g) (by rw [hg]) hfill) ?_
  rintro _ s₂ ⟨rfl, rfl⟩ _
  rw [hcount]
  dsimp only
  refine Prog.Meets.bind ((callNode_still (openTargets_meets key (by rw [shardFileLength, hg]; rfl) hindex)
    hfill).mono_error fun _ _ _ hE => ⟨.inr hE.1, fun _ => hE.2.imp id .inr⟩) ?_
  rintro writers s₃ ⟨rfl, hwriters⟩ _
  refine Prog.Meets.bind ((callNode_still (reopenIntactStreams_meets h) hfill).mono_error
    fun _ _ _ hE => ⟨.inr hE.1, fun _ => .inl hE.2⟩) ?_
  rintro readers s₄ ⟨rfl, hreaders⟩ _
  have hwindex : ∀ w ∈ writers, w.index < scheme.totalShards := by
    intro w hw
    obtain ⟨p, hp, hfor⟩ := forall₂_left_of_mem hwriters hw
    exact hfor.index ▸ hindex p hp
  have hstripes := rebuildStripes_meets hlib hB hdesc.size_eq key (hsub.nodup List.nodup_range)
    (fun i hi => List.mem_range.mp (hsub.subset hi)) hwhole (fun i hi => hall i (List.mem_range.mpr hi))
    (Nat.zero_add _) hreaders hwindex
  refine Prog.Meets.bind ((callNode_still hstripes hfill).mono_error
    fun _ _ _ hE => ⟨.inr hE.1, fun hrel => (hE.2 hrel).imp id .inl⟩) ?_
  rintro ⟨readers', writers'⟩ s₅ ⟨rfl, hstands, hgoes, hwrite⟩ _
  dsimp only at hstands hgoes hwrite
  rw [← List.range_eq_range'] at hwrite
  dsimp only
  refine Prog.Meets.bind ((callNode_still (finishRepairStreams_meets key hstands) hfill).mono_error
    fun _ _ _ hE => ⟨.inr hE.1, fun _ => .inl hE.2⟩) ?_
  rintro _ s₆ ⟨rfl, _⟩ _
  have hgood : ∀ w ∈ writers', ∀ file, w.Makes X scheme r r.objectChecksum file →
      Rebuilt X C s₆ scheme r body w.index file := by
    intro w hw file hmakes hrel
    have hblocks := writer_blocks hwriters ((hwrite hrel).1 ▸ hw)
    have := hmakes.1
    rwa [hblocks] at this
  refine (finishWriters_meets (G := Rebuilt X C s₆ scheme r body) rfl rfl hsize hgood (fun w hw file hfile =>
    .inr ⟨(writer_for hwriters hgoes hw).1, file, rfl, hfile⟩) hfill).mono (fun _ h => h) ?_ ?_
  · intro _ s' _ hdone
    refine ⟨fun p hp => ?_, fun p hp => ?_, fun hrel => (hwrite hrel).2 (divCeil_pos (List.length_pos_iff.mpr hne)
      (Nat.mul_pos scheme.data_pos hB))⟩
    · obtain ⟨w, hw, hwi, hwd⟩ := target_writer hwriters hgoes hp
      obtain ⟨file, hfile, hrebuilt⟩ := hdone w hw
      rw [hwi, hwd] at hfile
      exact ⟨file, hfile, hwi ▸ hrebuilt⟩
    · obtain ⟨w, _, hfor⟩ := forall₂_right_of_mem hwriters hp
      exact hfor.device ▸ hfor.state
  · rintro e s' _ ⟨hplain, hwhy⟩
    refine ⟨.inl hplain, fun hrel => hwhy.imp id fun ⟨w, hw, hnot⟩ => .inr ⟨_, (writer_for hwriters hgoes hw).1, ?_⟩⟩
    rintro ⟨e, he, hopen, _, hdisk⟩
    rcases hnot with hnot | hnone
    · refine hnot ⟨?_, hdisk⟩
      have := (writer_for hwriters hgoes hw).2
      rw [he] at this
      exact (Option.some.inj this) ▸ hopen
    · obtain ⟨file, hfile, hheader, _⟩ := encoded_exists hlib hB hdesc.size_eq hne
        (hindex _ (writer_for hwriters hgoes hw).1)
      refine hnone file ⟨?_, hheader⟩
      rw [writer_blocks hwriters ((hwrite hrel).1 ▸ hw)]
      exact hfile

end

end Djbod
