import Djbod.Node.Notes

/-!
# Reading back what is on the devices

A read that runs alone, over a store in which shards may be missing and blocks damaged, and whose streams may break off.

* `getStripe_eval` : one stripe gives the object's bytes, or says that too few blocks can be used or a stream broke off;
* `streamObject_eval` : the same for the whole stream, and what it reports;
* `openForRead_eval` : what a read begins with.
-/

namespace Djbod

open Sched Pieces

variable {X : Crates} {C : Cluster} {s : Store} {scheme : Scheme} {r : MetadataRecord} {body : Bytes}
  {indices : List ℕ} {t i : ℕ}

/-- How far a read has come: every stream stands before stripe `t`, and what was delivered is the object's bytes
up to there. -/
structure Reading (X : Crates) (C : Cluster) (s : Store) (scheme : Scheme) (r : MetadataRecord) (body : Bytes) (t : ℕ)
    (download : Download) : Prop where
  sources : download.sources = sourcesAt C r s t (stripeCount scheme r body) (openIndices scheme download.parityOpen)
  hashed : download.hashed = body.take (t * (scheme.dataShards * r.blockSize))
  delivered : download.delivered = download.hashed.length
  frames : download.frames.flatMap DataFrame.bytes = download.hashed

theorem sourcesAt_append (t stop : ℕ) (a b : List ℕ) :
    sourcesAt C r s t stop a ++ sourcesAt C r s t stop b = sourcesAt C r s t stop (a ++ b) :=
  (List.filterMap_append ..).symm

theorem blocksAt_append (t : ℕ) (a b : List ℕ) : blocksAt C r s t a ++ blocksAt C r s t b = blocksAt C r s t (a ++ b) :=
  (List.filterMap_append ..).symm

/-- What decoding a stripe leaves: every stream stands behind it, nothing was delivered yet, and the outcome is the
stripe unless fewer than `k` blocks can be used. -/
structure StripeRead (X : Crates) (C : Cluster) (s : Store) (scheme : Scheme) (r : MetadataRecord)
    (body : Bytes) (t : ℕ) (before : Download) (decoded : DecodedStripe) (download : Download) : Prop where
  sources : download.sources = sourcesAt C r s (t + 1) (stripeCount scheme r body)
    (openIndices scheme download.parityOpen)
  hashed : download.hashed = before.hashed
  delivered : download.delivered = before.delivered
  frames : download.frames = before.frames
  cases : IsStripe decoded (stripeOf scheme r body t) ∨ ∃ u n faults, decoded = .unrecoverable u n faults
  enough : scheme.dataShards ≤ usableAmong X C s scheme r body t (openIndices scheme true) ↔
    IsStripe decoded (stripeOf scheme r body t)
  notes : StripeNotes X C s scheme r body t before decoded download

variable {decoded : DecodedStripe}

theorem Decoded.enough_iff (h : Decoded X C s scheme r body t indices decoded) :
    scheme.dataShards ≤ usableAmong X C s scheme r body t indices ↔ IsStripe decoded (stripeOf scheme r body t) := by
  refine ⟨h.enough, fun hstripe => ?_⟩
  by_contra hlt
  obtain ⟨u, n, faults, rfl⟩ := h.few (Nat.lt_of_not_ge hlt)
  rcases hstripe with hd | ⟨_, hd⟩
  · cases hd
  · cases hd

theorem Decoded.cases (h : Decoded X C s scheme r body t indices decoded) :
    IsStripe decoded (stripeOf scheme r body t) ∨ ∃ u n faults, decoded = .unrecoverable u n faults :=
  (Nat.lt_or_ge (usableAmong X C s scheme r body t indices) scheme.dataShards).elim (fun hlt => .inr (h.few hlt))
    fun hge => .inl (h.enough hge)

theorem usableAmong_data (t : ℕ) : scheme.dataShards ≤ usableAmong X C s scheme r body t (openIndices scheme false) ↔
    ∀ i ∈ scheme.dataShardIndices, usable X C s scheme r body t i = true := by
  have hcount : usableAmong X C s scheme r body t (openIndices scheme false) =
      scheme.dataShardIndices.countP fun i => usable X C s scheme r body t i := by
    have hsplit : scheme.dataShardIndices = scheme.shardIndices.filter fun i => i ∈ scheme.dataShardIndices := by
      unfold Scheme.dataShardIndices Scheme.shardIndices
      have hle := scheme.data_le_total
      simp only [List.mem_range]
      generalize scheme.dataShards = k at hle
      generalize scheme.totalShards = n at hle
      obtain ⟨m, rfl⟩ := Nat.exists_eq_add_of_le hle
      rw [List.range_add, List.filter_append, List.filter_eq_self.mpr (by simp), List.filter_eq_nil_iff.mpr (by simp),
        List.append_nil]
    unfold usableAmong openIndices
    simp only [Bool.false_eq_true, if_false]
    conv_rhs => rw [hsplit, List.countP_filter]
    refine List.countP_congr fun i _ => ?_
    simp [and_comm]
  have hlen : scheme.dataShardIndices.length = scheme.dataShards := List.length_range
  rw [hcount, ← hlen]
  constructor
  · intro h
    exact List.countP_eq_length.mp (le_antisymm List.countP_le_length h)
  · intro h
    exact (List.countP_eq_length.mpr h).ge

variable {σ : Type} {ex : (o : Op) → σ → Resp o × σ} {w : σ} {arrives : ShardFile → ℕ → Prop}

/-- The streams that are open for a stripe stay steady, or the stripe's read fails. -/
def StripeOutcome (X : Crates) (C : Cluster) (s : Store) (scheme : Scheme) (r : MetadataRecord) (body : Bytes)
    (arrives : ShardFile → ℕ → Prop) (w : σ) (t : ℕ) (before : Download) (parity : Bool)
    (result : Except ErrorDetail (DecodedStripe × Download) × σ) : Prop :=
  (∃ decoded download, result = (.ok (decoded, download), w) ∧
    StripeRead X C s scheme r body t before decoded download ∧ download.parityOpen = parity ∧
    Steady C r s arrives (stripeCount scheme r body) t (openIndices scheme parity)) ∨
  ∃ e, result = (.error e, w) ∧ ¬ Steady C r s arrives (stripeCount scheme r body) t (openIndices scheme parity)

variable {n : ℕ}

theorem steady_append {a b : List ℕ} : Steady C r s arrives n t (a ++ b) ↔ Steady C r s arrives n t a ∧
    Steady C r s arrives n t b :=
  List.forall_mem_append

theorem Steady.long (h : Steady C r s arrives n t indices) : Long C r s n indices :=
  fun i hi file hs => (h i hi file hs).1

/-- How far a read has come, and that the parity shards are open just when a data shard made it necessary. -/
structure Following (X : Crates) (C : Cluster) (s : Store) (scheme : Scheme) (r : MetadataRecord) (body : Bytes) (t : ℕ)
    (download : Download) : Prop extends Reading X C s scheme r body t download where
  parity : download.parityOpen = parityBefore X C s scheme r body t
  long : Long C r s (stripeCount scheme r body) (openIndices scheme download.parityOpen)

variable {download : Download}

theorem framesOf_bytes {blockSize : ℕ} (hB : 0 < blockSize) (sequence : ℕ) (data : Bytes) :
    (framesOf X blockSize sequence data).flatMap DataFrame.bytes = data := by
  have hmap : (framesOf X blockSize sequence data).map DataFrame.bytes = pieces blockSize data := by
    refine List.ext_getElem? fun i => ?_
    rw [framesOf, List.getElem?_map, List.getElem?_mapIdx, Option.map_map]
    exact congrFun Option.map_id _
  rw [List.flatMap_def, hmap, flatten_pieces hB]

def SteadyAt (X : Crates) (C : Cluster) (s : Store) (scheme : Scheme) (r : MetadataRecord) (body : Bytes)
    (arrives : ShardFile → ℕ → Prop) (t : ℕ) : Prop :=
  Steady C r s arrives (stripeCount scheme r body) t (openIndices scheme (parityBefore X C s scheme r body (t + 1)))

theorem endSources_eval (hw : Shows ex w X C s r arrives) (key : String) (stop : ℕ) (indices : List ℕ) :
    (endSources X r key (sourcesAt C r s stop stop indices)).run.eval ex w = (.ok (), w) := by
  induction indices with
  | nil => rfl
  | cons i indices ih =>
    cases hs : shardAt C r s i with
    | none => simpa only [sourcesAt, List.filterMap_cons, hs, Option.map_none] using ih
    | some file =>
      have hlift : (ExceptT.lift (readStreamItem X r (sourceAt C r i file stop stop)).run :
          NodeProc (Except ErrorDetail StreamItem)).run.eval ex w = (.ok (.ok (.ended none)), w) := by
        rw [Task.eval_lift, hw.ended _ rfl]
      simp only [sourcesAt, List.filterMap_cons, hs, Option.map_some] at ih ⊢
      unfold endSources
      rw [Task.eval_try_ok hlift]
      exact ih

theorem checkObject_ok (key : String) (body : Bytes) (hsize : r.size = body.length)
    (hsum : r.objectChecksum = X.xxh3 body) (hhashed : download.hashed = body)
    (hdelivered : download.delivered = download.hashed.length) : checkObject X r key download = .ok () := by
  unfold checkObject
  rw [hdelivered, hhashed, hsize, hsum]
  simp

/-- What the answer of a read is worth: it carries the record, a clean end means that the object was delivered, and
there is one when every stripe has `k` usable blocks. -/
structure Answers (X : Crates) (C : Cluster) (s : Store) (scheme : Scheme) (r : MetadataRecord) (body : Bytes)
    (answer : GetAnswer) : Prop where
  record : answer.record = r
  exact : answer.ended.isOk → answer.frames.flatMap DataFrame.bytes = body
  clean : (∀ t < stripeCount scheme r body, scheme.dataShards ≤ usableAmong X C s scheme r body t
    (openIndices scheme true)) → answer.ended.isOk

/-- The same when streams may break off: a clean end needs steady streams and `k` usable blocks of every stripe. -/
structure AnswersIn (X : Crates) (C : Cluster) (s : Store) (scheme : Scheme) (r : MetadataRecord) (body : Bytes)
    (arrives : ShardFile → ℕ → Prop) (missing : List MissingRecordCopy) (answer : GetAnswer) : Prop where
  record : answer.record = r
  exact : answer.ended.isOk → answer.frames.flatMap DataFrame.bytes = body
  clean : (∀ t < stripeCount scheme r body, scheme.dataShards ≤ usableAmong X C s scheme r body t
    (openIndices scheme true)) → (∀ t < stripeCount scheme r body, SteadyAt X C s scheme r body arrives t) →
    answer.ended.isOk
  steady : answer.ended.isOk → ∀ t < stripeCount scheme r body, SteadyAt X C s scheme r body arrives t
  enough : answer.ended.isOk → ∀ t < stripeCount scheme r body,
    scheme.dataShards ≤ usableAmong X C s scheme r body t (openIndices scheme true)
  missing : ∀ done, answer.ended = .ok done → done.missingRecords = missing

section Stream

variable (hw : Shows ex w X C s r arrives) (hlib : ReedSolomonCode.Lawful X.reedSolomon scheme)
  (h : Detected X C s scheme r body) (hB : 0 < r.blockSize) (hdev : ∀ i < scheme.totalShards, (r.deviceFor i).isSome)

include hw hlib h hB hdev

theorem addParity_eval (key : String) (ht : t < stripeCount scheme r body)
    (hparity : parityBefore X C s scheme r body t = false) (hnext : parityBefore X C s scheme r body (t + 1) = true)
    (download : Download) (hsources : download.sources = sourcesAt C r s (t + 1) (stripeCount scheme r body)
    (openIndices scheme false)) (hsteady : Steady C r s arrives (stripeCount scheme r body)
    t (openIndices scheme false)) : StripeOutcome X C s scheme r body arrives w t download true
      ((addParity X C (.new X.reedSolomon scheme) r key (stripeCount scheme r body) t (stripeOf scheme r body t).length
        (blocksAt C r s t (openIndices scheme false)) download).run.eval ex w) := by
  have hstop : t + (stripeCount scheme r body - t) = stripeCount scheme r body := by omega
  have hidx : openIndices scheme true =
      openIndices scheme false ++ scheme.shardIndices.filter fun i => i ∉ scheme.dataShardIndices := rfl
  have hpardev : ∀ i ∈ scheme.shardIndices.filter (fun i => i ∉ scheme.dataShardIndices), (r.deviceFor i).isSome :=
    fun i hi => hdev i (List.mem_range.mp (List.mem_filter.mp hi).1)
  unfold addParity
  rw [hsources, ReedSolomonCode.new_scheme]
  dsimp only
  have hmore : Steady C r s arrives (stripeCount scheme r body) t (openIndices scheme true) →
      Steady C r s arrives (stripeCount scheme r body) t (scheme.shardIndices.filter fun i =>
      i ∉ scheme.dataShardIndices) :=
    fun hst => (steady_append.mp (hidx ▸ hst)).2
  have hopened := openShards_eval hw key t (stripeCount scheme r body - t) _ hpardev
  rw [hstop] at hopened
  rcases hopened with ⟨hlong, unreadable, hopen, hmissing, hfirst⟩ | ⟨hshort, e, he⟩
  · rw [Task.eval_try_ok hopen]
    dsimp only
    rcases readStripeBlocks_eval hw key _ ht hlong with ⟨hpar, hblocks⟩ | ⟨hno, e, he⟩
    · obtain ⟨decoded, hdecoded, hd⟩ := decode_at hlib h hB ht (openIndices_nodup true) (openIndices_range true)
        (t + 1) (stripeCount scheme r body)
      rw [Task.eval_try_ok hblocks]
      dsimp only
      rw [sourcesAt_append, blocksAt_append, ← hidx, hdecoded]
      refine .inl ⟨_, _, rfl, ⟨rfl, rfl, rfl, rfl, hd.cases, hd.enough_iff, rfl, fun i => ?_, fun i t' => ?_⟩, rfl, ?_⟩
      · rw [hnext]
        exact faults_count hdecoded i
      · rw [List.countP_append, countP_opened (List.nodup_range.filter _) hmissing hfirst, hnext, hparity]
        refine congrArg _ (if_congr (and_congr_right fun _ => ?_) rfl rfl)
        rw [mem_openIndices_true, ← and_assoc]
        simp only [List.mem_filter, Scheme.shardIndices, List.mem_range, decide_eq_true_eq, openIndices,
          Bool.false_eq_true, if_false]
      · rw [hidx]
        exact steady_append.mpr ⟨hsteady, hpar⟩
    · exact .inr ⟨e, Task.eval_try_error he, fun hst => hno (hmore hst)⟩
  · exact .inr ⟨e, Task.eval_try_error he, fun hst => hshort (hmore hst).long⟩

theorem decodeWithParity_eval (key : String) (ht : t < stripeCount scheme r body)
    (hr : Following X C s scheme r body t download) : StripeOutcome X C s scheme r body arrives w t download
    (parityBefore X C s scheme r body (t + 1))
      ((decodeWithParity X C (.new X.reedSolomon scheme) r key (stripeCount scheme r body) t
        (stripeOf scheme r body t).length download).run.eval ex w) := by
  have hnext := @parityBefore_succ X C s scheme r body t
  rw [← hr.parity] at hnext
  unfold decodeWithParity
  rcases readStripeBlocks_eval hw key _ ht hr.long with ⟨hsteady, hread⟩ | ⟨hno, e, he⟩
  · rw [← hr.sources] at hread
    obtain ⟨decoded, hdecoded, hd⟩ := decode_at hlib h hB ht (openIndices_nodup download.parityOpen)
      (openIndices_range download.parityOpen) (t + 1) (stripeCount scheme r body)
    -- Nothing is opened when parity is open already, or all data blocks are sound.
    have hsame : parityBefore X C s scheme r body (t + 1) = download.parityOpen → ∀ sources parity,
        StripeNotes X C s scheme r body t download decoded
          { download with sources := sources, parityOpen := parity } := by
      intro hp sources parity
      refine ⟨rfl, fun i => ?_, fun i t' => ?_⟩
      · rw [hp]
        exact faults_count hdecoded i
      · rw [hp, hr.parity, if_neg fun hno => hno.2.2.1 hno.2.1]
        rfl
    rw [Task.eval_try_ok hread]
    dsimp only
    rw [hdecoded]
    cases hopen : download.parityOpen with
    | true =>
      rw [hopen, Bool.true_or] at hnext
      have hkeep := hsame (hnext.trans hopen.symm)
      rw [hopen] at hd hsteady
      rw [hnext]
      have hcases := hd.cases
      have henough := hd.enough_iff
      cases decoded with
      | intact data => exact .inl ⟨_, _, rfl, ⟨by simp, rfl, rfl, rfl, hcases, henough, hkeep _ _⟩, rfl, hsteady⟩
      | repaired data faults => exact .inl ⟨_, _, rfl, ⟨by simp, rfl, rfl, rfl, hcases, henough, hkeep _ _⟩, rfl,
          hsteady⟩
      | unrecoverable u n faults => exact .inl ⟨_, _, rfl, ⟨by simp, rfl, rfl, rfl, hcases, henough, hkeep _ _⟩, rfl,
          hsteady⟩
    | false =>
      rw [hopen, Bool.false_or] at hnext
      rw [hopen] at hd hsteady
      by_cases hall : ∀ i ∈ scheme.dataShardIndices, usable X C s scheme r body t i = true
      · have hk := (usableAmong_data t).mpr hall
        have hparity : parityBefore X C s scheme r body (t + 1) = false := by
          rw [hnext, List.any_eq_false]
          intro i hi
          simp [hall i hi]
        have hkeep := hsame (hparity.trans hopen.symm)
        rw [hd.intact hk hall] at hkeep ⊢
        rw [hparity]
        have hk' : scheme.dataShards ≤ usableAmong X C s scheme r body t (openIndices scheme true) :=
          hk.trans (List.countP_mono_left fun i _ hi => by
            rw [Bool.and_eq_true, decide_eq_true_eq] at hi ⊢
            exact ⟨openIndices_mono hi.1, hi.2⟩)
        exact .inl ⟨_, _, rfl, ⟨by simp, rfl, rfl, rfl, .inl (.inl rfl), iff_of_true hk' (.inl rfl), hkeep _ _⟩, rfl,
          hsteady⟩
      · -- A damaged block makes parity be opened here, from this stripe on.
        have hparity : parityBefore X C s scheme r body (t + 1) = true := by
          rw [hnext, List.any_eq_true]
          push Not at hall
          obtain ⟨i, hi, hno⟩ := hall
          exact ⟨i, hi, by simpa using hno⟩
        have hfew := Nat.lt_of_not_ge fun hge => hall ((usableAmong_data t).mp hge)
        obtain ⟨u, n, faults, rfl⟩ := hd.few hfew
        have hadd := addParity_eval hw hlib h hB hdev key ht (hr.parity.symm.trans hopen) hparity
          { download with sources := sourcesAt C r s (t + 1) (stripeCount scheme r body) (openIndices scheme false) }
          rfl hsteady
        rw [hparity]
        dsimp only
        rw [if_neg Bool.false_ne_true]
        rcases hadd with ⟨decoded, download', heval, hread', hpar', hsteady'⟩ | ⟨e, heval, hno⟩
        · rw [hopen] at heval
          exact .inl ⟨_, _, heval, ⟨hread'.sources, hread'.hashed, hread'.delivered, hread'.frames, hread'.cases,
            hread'.enough, hread'.notes.reconstructed, hread'.notes.faults, hread'.notes.unreadable⟩, hpar', hsteady'⟩
        · rw [hopen] at heval
          exact .inr ⟨_, heval, hno⟩
  · rw [← hr.sources] at he
    refine .inr ⟨e, Task.eval_try_error he, fun hst => hno fun i hi => hst i (openIndices_step ?_)⟩
    rwa [← hr.parity]

/-- One stripe delivers its bytes, unless fewer than `k` of its blocks can be used or a stream breaks off. -/
theorem getStripe_eval (hsize : r.size = body.length) (key : String) (ht : t < stripeCount scheme r body)
    (hr : Following X C s scheme r body t download) :
    (∃ download', (getStripe X C (.new X.reedSolomon scheme) r key (stripeCount scheme r body)
    t download).run.eval ex w =
        (.ok download', w) ∧ Following X C s scheme r body (t + 1) download' ∧
          (NotedBefore X C s scheme r body t download → NotedBefore X C s scheme r body (t + 1) download') ∧
          SteadyAt X C s scheme r body arrives t ∧ scheme.dataShards ≤ usableAmong X C s scheme r body t
          (openIndices scheme true)) ∨
      ∃ e, (getStripe X C (.new X.reedSolomon scheme) r key (stripeCount scheme r body) t download).run.eval ex w =
        (.error e, w) ∧ (usableAmong X C s scheme r body t (openIndices scheme true) < scheme.dataShards ∨
          ¬ SteadyAt X C s scheme r body arrives t) := by
  have hlen : min (r.size - t * (scheme.dataShards * r.blockSize)) (scheme.dataShards * r.blockSize) =
      (stripeOf scheme r body t).length := by
    rw [stripeOf, piece_length, hsize, min_comm]
  unfold getStripe
  dsimp only
  rw [ReedSolomonCode.new_scheme, hlen]
  rcases decodeWithParity_eval hw hlib h hB hdev key ht hr with
    ⟨decoded, read, hdec, hread, hpar, hsteady⟩ | ⟨e, he, hno⟩
  · have hdeliver : ∀ notes, Following X C s scheme r body (t + 1)
        { read with
          reconstructed := read.reconstructed ++ notes
          hashed := read.hashed ++ stripeOf scheme r body t
          delivered := read.delivered + (stripeOf scheme r body t).length
          frames := read.frames ++ framesOf X r.blockSize read.frames.length (stripeOf scheme r body t) } := by
      intro notes
      refine ⟨⟨hread.sources, ?_, ?_, ?_⟩, hpar, ?_⟩
      · show read.hashed ++ stripeOf scheme r body t = _
        rw [hread.hashed, hr.hashed, stripeOf, piece, Nat.add_mul, Nat.one_mul, List.take_add]
      · show read.delivered + (stripeOf scheme r body t).length = (read.hashed ++ stripeOf scheme r body t).length
        rw [hread.delivered, hr.delivered, hread.hashed, List.length_append]
      · show (read.frames ++ framesOf X r.blockSize read.frames.length (stripeOf scheme r body t)).flatMap
          DataFrame.bytes = read.hashed ++ stripeOf scheme r body t
        rw [List.flatMap_append, framesOf_bytes hB, hread.frames, hr.frames, hread.hashed]
      · show Long C r s _ (openIndices scheme read.parityOpen)
        rw [hpar]
        exact hsteady.long
    rw [Task.eval_try_ok hdec]
    dsimp only
    rcases hread.cases with (rfl | ⟨faults, rfl⟩) | ⟨u, n, faults, rfl⟩
    · exact .inl ⟨_, rfl, hdeliver _, fun hn => hread.notes.step hn rfl rfl, hsteady, hread.enough.mpr (.inl rfl)⟩
    · exact .inl ⟨_, rfl, hdeliver _, fun hn => hread.notes.step hn rfl rfl, hsteady, hread.enough.mpr (.inr ⟨_, rfl⟩)⟩
    · refine .inr ⟨_, rfl, .inl ?_⟩
      by_contra hge
      rcases hread.enough.mp (Nat.not_lt.mp hge) with hd | ⟨_, hd⟩
      · cases hd
      · cases hd
  · exact .inr ⟨e, Task.eval_try_error he, .inr hno⟩

theorem getStripes_eval (hsize : r.size = body.length) (key : String) (ht : t + n = stripeCount scheme r body)
    (hr : Following X C s scheme r body t download) :
    (∃ download', (getStripes X C (.new X.reedSolomon scheme) r key (stripeCount scheme r body)
    n t download).eval ex w =
        ((download', none), w) ∧ Following X C s scheme r body (stripeCount scheme r body) download' ∧
          (NotedBefore X C s scheme r body t download →
          NotedBefore X C s scheme r body (stripeCount scheme r body) download') ∧
          ∀ t', t ≤ t' → t' < stripeCount scheme r body → SteadyAt X C s scheme r body arrives t' ∧
            scheme.dataShards ≤ usableAmong X C s scheme r body t' (openIndices scheme true)) ∨
      ∃ download' e, (getStripes X C (.new X.reedSolomon scheme) r key (stripeCount scheme r body)
      n t download).eval ex w =
        ((download', some e), w) ∧ ∃ t' < stripeCount scheme r body,
          usableAmong X C s scheme r body t' (openIndices scheme true) < scheme.dataShards ∨
            ¬ SteadyAt X C s scheme r body arrives t' := by
  induction n generalizing t download with
  | zero =>
    rw [Nat.add_zero] at ht
    subst ht
    exact .inl ⟨download, rfl, hr, id, fun t' hle hlt => absurd hlt (Nat.not_lt.mpr hle)⟩
  | succ n ih =>
    have htlt : t < stripeCount scheme r body := by omega
    unfold getStripes
    rw [Task.eval_bind]
    rcases getStripe_eval hw hlib h hB hdev hsize key htlt hr with ⟨next, hone, hr', hnotes, hgood⟩ | ⟨e, hone, hwhy⟩
    · rw [hone]
      rcases ih (by omega) hr' with ⟨download', heval, hend, hnotes', hall⟩ | hfail
      · refine .inl ⟨download', heval, hend, fun hn => hnotes' (hnotes hn), fun t' hle hlt => ?_⟩
        rcases Nat.eq_or_lt_of_le hle with rfl | hlt'
        · exact hgood
        · exact hall t' hlt' hlt
      · exact .inr hfail
    · rw [hone]
      exact .inr ⟨download, e, rfl, t, htlt, hwhy⟩

theorem streamObject_eval (hsize : r.size = body.length) (hsum : r.objectChecksum = X.xxh3 body) (key : String)
    (missing : List MissingRecordCopy) {opened : Download} (hr : Following X C s scheme r body 0 opened)
    (hn : NotedBefore X C s scheme r body 0 opened) (hpos : 0 < stripeCount scheme r body) :
    ∃ answer, (streamObject X C scheme r key missing (stripeCount scheme r body) opened).eval ex w = (answer, w) ∧
      AnswersIn X C s scheme r body arrives missing answer ∧
      ∀ done, answer.ended = .ok done → Reports X C s scheme r body done.reconstructed := by
  have hS : 0 < scheme.dataShards * r.blockSize := Nat.mul_pos scheme.data_pos hB
  have hcount : divCeil r.size (max (scheme.dataShards * r.blockSize) 1) = stripeCount scheme r body := by
    rw [hsize, Nat.max_eq_left hS, stripeCount]
  unfold streamObject
  dsimp only
  rw [hcount, Task.eval_bind]
  rcases getStripes_eval hw hlib h hB hdev hsize key (Nat.zero_add _) hr with
    ⟨download, hall, hend, hnotes, hgood⟩ | ⟨download, e, hall, t, ht, hwhy⟩
  · have hhashed : download.hashed = body := by
      rw [hend.hashed, List.take_of_length_le]
      rw [Nat.mul_comm]
      exact le_mul_divCeil hS
    have hcheck := checkObject_ok key body hsize hsum hhashed hend.delivered
    rw [hall]
    dsimp only
    rw [Task.eval_bind, hend.sources, endSources_eval hw]
    refine ⟨_, rfl, ⟨rfl, fun _ => hend.frames.trans hhashed, fun _ _ => ?_, fun _ t ht =>
      (hgood t (Nat.zero_le t) ht).1, fun _ t ht => (hgood t (Nat.zero_le t) ht).2, ?_⟩, ?_⟩
    · rw [hcheck]
      rfl
    · intro done hdone
      rw [hcheck] at hdone
      cases hdone
      rfl
    · intro done hdone
      rw [hcheck] at hdone
      cases hdone
      exact (hnotes hn).reports hpos
  · rw [hall]
    refine ⟨_, rfl, ⟨rfl, nofun, fun henough hst => ?_, nofun, nofun, nofun⟩, nofun⟩
    rcases hwhy with hfew | hno
    · exact absurd (henough t ht) (Nat.not_le.mpr hfew)
    · exact absurd (hst t ht) hno

end Stream

theorem streamObject_empty (scheme : Scheme) (hsize : r.size = 0) (hsum : r.objectChecksum = X.xxh3 []) (key : String)
    (missing : List MissingRecordCopy) (blockCount : ℕ) (hB : 0 < r.blockSize) :
    ∃ answer, (streamObject X C scheme r key missing blockCount ⟨[], [], false, [], [], 0, []⟩).eval ex w =
      (answer, w) ∧
      AnswersIn X C s scheme r [] arrives missing answer ∧
      ∀ done, answer.ended = .ok done → Reports X C s scheme r [] done.reconstructed := by
  have hS : 0 < scheme.dataShards * r.blockSize := Nat.mul_pos scheme.data_pos hB
  have hcount : divCeil r.size (max (scheme.dataShards * r.blockSize) 1) = 0 := by
    rw [hsize, Nat.max_eq_left hS]
    exact Nat.le_zero.mp (divCeil_le hS (Nat.zero_le _))
  have hstripes : stripeCount scheme r [] = 0 := Nat.le_zero.mp (divCeil_le hS (Nat.zero_le _))
  have hend : (do Except.ok (); checkObject X r key ⟨[], [], false, [], [], 0, []⟩; pure ⟨[], missing⟩ :
      Except ErrorDetail StreamEnd) = .ok ⟨[], missing⟩ := by
    rw [@checkObject_ok X r ⟨[], [], false, [], [], 0, []⟩ key [] hsize hsum rfl rfl]
    rfl
  unfold streamObject
  dsimp only
  rw [hcount, Task.eval_bind]
  refine ⟨_, rfl, ⟨rfl, fun _ => rfl, fun _ _ => congrArg Except.isOk hend, fun _ t ht => ?_, fun _ t ht => ?_, ?_⟩, ?_⟩
  · rw [hstripes] at ht
    cases ht
  · rw [hstripes] at ht
    cases ht
  · intro done hdone
    obtain rfl := Except.ok.inj (hend.symm.trans hdone)
    rfl
  · intro done hdone
    obtain rfl := Except.ok.inj (hend.symm.trans hdone)
    refine ⟨fun i t => ?_, nofun⟩
    rw [hstripes, if_neg fun hlt => Nat.not_lt_zero t hlt.1]
    rfl

def unopenable (C : Cluster) (s : Store) (scheme : Scheme) (r : MetadataRecord) : ℕ :=
  scheme.shardIndices.countP fun i => (shardAt C r s i).isNone

theorem shards_countP (scheme : Scheme) (p : ℕ → Bool) :
    scheme.shardIndices.countP p + (scheme.shardIndices.countP fun i => !p i) = scheme.dataShards +
    scheme.parityShards := by
  have h := List.length_eq_countP_add_countP p (l := scheme.shardIndices)
  have hnot : (scheme.shardIndices.countP fun i => decide ¬ p i = true) = scheme.shardIndices.countP fun i => !p i :=
    List.countP_congr fun i _ => by simp
  rw [← hnot, ← h, Scheme.shardIndices, List.length_range, Scheme.totalShards]

theorem unopenable_add (C : Cluster) (s : Store) (scheme : Scheme) (r : MetadataRecord) :
    (scheme.shardIndices.countP fun i => (shardAt C r s i).isSome) + unopenable C s scheme r =
      scheme.dataShards + scheme.parityShards := by
  rw [← shards_countP scheme fun i => (shardAt C r s i).isSome, unopenable]
  simp only [Option.not_isSome]

theorem countP_openIndices (p : ℕ → Bool) : (openIndices scheme true).countP p = scheme.shardIndices.countP p := by
  refine List.Perm.countP_eq p ?_
  refine (List.perm_ext_iff_of_nodup (openIndices_nodup true) List.nodup_range).mpr fun i => ?_
  exact mem_openIndices_true.trans List.mem_range.symm

/-- A read has opened its first shards: it has noted those that cannot be opened, and nothing else. -/
structure Begins (X : Crates) (C : Cluster) (s : Store) (scheme : Scheme) (r : MetadataRecord) (body : Bytes)
    (opened : Download) : Prop extends Following X C s scheme r body 0 opened where
  reconstructed : opened.reconstructed = []
  closed : opened.unreadable.map UnreadableShard.index =
    (openIndices scheme opened.parityOpen).filter fun i => (shardAt C r s i).isNone
  first : ∀ u ∈ opened.unreadable, u.firstStripe = 0

theorem Begins.noted {opened : Download} (h : Begins X C s scheme r body opened) :
    NotedBefore X C s scheme r body 0 opened := by
  refine ⟨fun i t' => ?_, fun i t' => ?_, by rw [h.reconstructed]; nofun⟩
  · rw [countP_opened (openIndices_nodup _) h.closed h.first, h.parity, Nat.min_zero]
    simp
  · rw [h.reconstructed, if_neg fun hlt => Nat.not_lt_zero _ hlt.1]
    rfl

/-- More than `m` shards are noted exactly when more than `m` cannot be opened: with all data shards open, at most `m`
others are left. -/
theorem Begins.many_iff {opened : Download} (h : Begins X C s scheme r body opened) :
    scheme.parityShards < opened.unreadable.length ↔ scheme.parityShards < unopenable C s scheme r := by
  have hlen : opened.unreadable.length = (openIndices scheme opened.parityOpen).countP fun i =>
      (shardAt C r s i).isNone := by
    rw [← List.length_map UnreadableShard.index, h.closed, List.countP_eq_length_filter]
  rw [hlen]
  cases hparity : opened.parityOpen with
  | true => rw [countP_openIndices, unopenable]
  | false =>
    have hdata : ∀ i ∈ scheme.dataShardIndices, (shardAt C r s i).isSome = true := by
      have hnone := h.parity.symm.trans hparity
      simpa [parityBefore, List.any_eq_false, Option.isSome_iff_ne_none] using hnone
    have hzero : (openIndices scheme false).countP (fun i => (shardAt C r s i).isNone) = 0 :=
      List.countP_eq_zero.mpr fun i hi => by simpa [Option.isSome_iff_ne_none] using hdata i hi
    have hcount : scheme.dataShardIndices.countP (fun i => (shardAt C r s i).isSome) = scheme.dataShards := by
      rw [List.countP_eq_length.mpr hdata]
      exact List.length_range
    have hle : scheme.dataShardIndices.countP (fun i => (shardAt C r s i).isSome) ≤
        scheme.shardIndices.countP fun i => (shardAt C r s i).isSome :=
        (List.range_sublist.mpr scheme.data_le_total).countP_le
    have htotal := unopenable_add C s scheme r
    rw [hzero]
    omega

theorem openSources_eval (body : Bytes) (hw : Shows ex w X C s r arrives)
    (hdev : ∀ i < scheme.totalShards, (r.deviceFor i).isSome) (key : String) :
    (∃ opened, (openSources X C scheme r key (stripeCount scheme r body)).run.eval ex w = (.ok opened, w) ∧
      Begins X C s scheme r body opened) ∨
    ∃ e, (openSources X C scheme r key (stripeCount scheme r body)).run.eval ex w = (.error e, w) ∧
      ¬ Long C r s (stripeCount scheme r body) (openIndices scheme (parityBefore X C s scheme r body 0)) := by
  have hparity : parityBefore X C s scheme r body 0 = scheme.dataShardIndices.any fun i =>
      (shardAt C r s i).isNone := by
    simp [parityBefore]
  have hdatadev : ∀ i ∈ scheme.dataShardIndices, (r.deviceFor i).isSome :=
    fun i hi => hdev i ((List.mem_range.mp hi).trans_le scheme.data_le_total)
  have hpardev : ∀ i ∈ scheme.shardIndices.filter (fun i => i ∉ scheme.dataShardIndices), (r.deviceFor i).isSome :=
    fun i hi => hdev i (List.mem_range.mp (List.mem_filter.mp hi).1)
  have hidx : openIndices scheme true =
      openIndices scheme false ++ scheme.shardIndices.filter fun i => i ∉ scheme.dataShardIndices := rfl
  unfold openSources
  dsimp only
  have hdataOpen := openShards_eval hw key 0 (stripeCount scheme r body) _ hdatadev
  have hparOpen := openShards_eval hw key 0 (stripeCount scheme r body) _ hpardev
  rw [Nat.zero_add] at hdataOpen hparOpen
  rcases hdataOpen with ⟨hdata, unreadable, hopen, hun, hfirst⟩ | ⟨hdata, e, he⟩
  · rw [Task.eval_try_ok hopen]
    dsimp only
    cases unreadable with
    | nil =>
      have hnone : parityBefore X C s scheme r body 0 = false := by
        rw [hparity, List.any_eq_false]
        intro i hi hnone
        have hmem : i ∈ scheme.dataShardIndices.filter fun i => (shardAt C r s i).isNone :=
          List.mem_filter.mpr ⟨hi, hnone⟩
        rw [← hun] at hmem
        cases hmem
      refine .inl ⟨_, rfl, ⟨⟨rfl, ?_, rfl, rfl⟩, hnone.symm, hdata⟩, rfl, hun, hfirst⟩
      rw [Nat.zero_mul]
      rfl
    | cons first others =>
      have hsome : parityBefore X C s scheme r body 0 = true := by
        rw [hparity, List.any_eq_true]
        have hmem : first.index ∈ scheme.dataShardIndices.filter fun i => (shardAt C r s i).isNone := by
          rw [← hun]
          exact List.mem_cons_self
        exact ⟨first.index, List.mem_filter.mp hmem⟩
      rw [if_neg (by simp)]
      rcases hparOpen with ⟨hpar, missing, hmore, hun', hfirst'⟩ | ⟨hpar, e, he⟩
      · rw [Task.eval_try_ok hmore]
        refine .inl ⟨_, rfl, ⟨⟨sourcesAt_append .., ?_, rfl, rfl⟩, hsome.symm, ?_⟩, rfl, ?_, List.forall_mem_append.mpr
          ⟨hfirst, hfirst'⟩⟩
        · rw [Nat.zero_mul]
          rfl
        · show Long C r s _ (openIndices scheme true)
          rw [hidx]
          exact List.forall_mem_append.mpr ⟨hdata, hpar⟩
        · rw [List.map_append, hun, hun', ← List.filter_append]
          rfl
      · refine .inr ⟨e, Task.eval_try_error he, fun hlong => hpar ?_⟩
        rw [hsome, hidx] at hlong
        exact (List.forall_mem_append.mp hlong).2
  · refine .inr ⟨e, Task.eval_try_error he, fun hlong => hdata fun i hi => hlong i ?_⟩
    cases parityBefore X C s scheme r body 0 with
    | true => exact List.mem_append_left _ hi
    | false => exact hi

theorem openForRead_eval (body : Bytes) (hw : Shows ex w X C s r arrives)
    (hdev : ∀ i < scheme.totalShards, (r.deviceFor i).isSome) (hsize : r.size ≠ 0) (key : String) :
    (∃ opened, (openForRead X C scheme r key (stripeCount scheme r body)).run.eval ex w = (.ok opened, w) ∧
      Begins X C s scheme r body opened ∧ unopenable C s scheme r ≤ scheme.parityShards) ∨
    ∃ e, (openForRead X C scheme r key (stripeCount scheme r body)).run.eval ex w = (.error e, w) ∧
      (scheme.parityShards < unopenable C s scheme r ∨
        ¬ Long C r s (stripeCount scheme r body) (openIndices scheme (parityBefore X C s scheme r body 0))) := by
  unfold openForRead
  rw [if_neg hsize]
  rcases openSources_eval body hw hdev key with ⟨opened, hopen, hr⟩ | ⟨e, he, hno⟩
  · rw [Task.eval_try_ok hopen]
    by_cases hmany : opened.unreadable.length > scheme.parityShards
    · rw [if_pos hmany]
      exact .inr ⟨_, rfl, .inl (hr.many_iff.mp hmany)⟩
    · rw [if_neg hmany]
      exact .inl ⟨_, rfl, hr, Nat.not_lt.mp (mt hr.many_iff.mpr hmany)⟩
  · exact .inr ⟨e, Task.eval_try_error he, .inr hno⟩

end Djbod
