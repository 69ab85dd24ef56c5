import Djbod.Node.Stored

/-!
# Receiving a body

However the client cuts the body into frames, the writers are sent the blocks of its stripes.

* `bodyBytes` : what the frames carry;
* `withStripes` : writers after the blocks of some stripes went to them;
* `Uploaded` : how far a body has been received, kept by `fillStripes_done`;
* `receiveBody_done` : a body that was received has the declared size, and each writer has its shard's blocks.
-/

namespace Djbod

open Sched Pieces

def bodyBytes : List BodyMessage → Bytes
  | .data frame :: rest => frame.bytes ++ bodyBytes rest
  | _ => []

def stripeBlock (X : Crates) (scheme : Scheme) (i : ℕ) (stripe : Bytes) : ShardBlock :=
  let bytes := (stripeBlocks (.new X.reedSolomon scheme) stripe).getD i []
  ⟨i, bytes, X.xxh3 bytes⟩

/-- Writers after the blocks of some stripes went to them. -/
def withStripes (X : Crates) (scheme : Scheme) (writers : List ShardWriter) (stripes : List Bytes) : List ShardWriter :=
  writers.map fun w => { w with blocks := w.blocks ++ stripes.map (stripeBlock X scheme w.index) }

section

variable {X : Crates} {scheme : Scheme} {es : List (Ev Op Resp)} {base : List ShardWriter}

theorem withStripes_nil : withStripes X scheme base [] = base := by
  simp [withStripes]

theorem withStripes_append (a b : List Bytes) :
    withStripes X scheme (withStripes X scheme base a) b = withStripes X scheme base (a ++ b) := by
  simp [withStripes, Function.comp_def]

theorem withStripes_index (stripes : List Bytes) :
    (withStripes X scheme base stripes).map ShardWriter.index = base.map ShardWriter.index := by
  simp [withStripes, Function.comp_def]

variable {writers writers' : List ShardWriter}

theorem sendBlocks_done {blocks : List ShardBlock} (hlen : writers.length = blocks.length)
    (h : Task.Tr (sendBlocks X writers blocks).run es (.ret (.ok writers'))) :
    writers' = List.zipWith (fun w b => { w with blocks := w.blocks ++ [⟨w.index, b.bytes, b.checksum⟩] })
    writers blocks := by
  induction writers generalizing es blocks writers' with
  | nil =>
    obtain ⟨_, hq⟩ := Task.tr_ret h
    cases hq
    rfl
  | cons w writers ih =>
    cases blocks with
    | nil => cases hlen
    | cons b blocks =>
      obtain ⟨_, _, _, _, _, hrest⟩ := Task.done_try h
      obtain ⟨_, _, rest, _, hmore, hend⟩ := Task.done_try hrest
      obtain ⟨_, hq⟩ := Task.tr_ret hend
      cases hq
      rw [ih (Nat.succ.inj hlen) hmore]
      rfl

theorem zipWith_sealBlocks (hlib : ReedSolomonCode.Lawful X.reedSolomon scheme)
    (hidx : writers.map ShardWriter.index = List.range scheme.totalShards) (stripe : Bytes) :
    List.zipWith (fun w b => { w with blocks := w.blocks ++ [⟨w.index, b.bytes, b.checksum⟩] }) writers
      (sealBlocks X.xxh3 (stripeBlocks (.new X.reedSolomon scheme) stripe)) =
      withStripes X scheme writers [stripe] := by
  have hlen : writers.length = scheme.totalShards := by simpa using congrArg List.length hidx
  have hblocks : (stripeBlocks (.new X.reedSolomon scheme) stripe).length = scheme.totalShards :=
    stripeBlocks_length hlib stripe
  refine List.ext_getElem (by simp [withStripes, hlen, hblocks]) fun i h₁ h₂ => ?_
  have hi : i < writers.length := by simpa [withStripes] using h₂
  have hwi : writers[i].index = i := by
    have := List.getElem_of_eq hidx (i := i) (by simpa using hi)
    simpa using this
  simp [withStripes, stripeBlock, sealBlocks, hwi, hblocks, ← hlen, hi]

theorem sendStripe_done (hlib : ReedSolomonCode.Lawful X.reedSolomon scheme) {blockSize : ℕ}
    (hidx : writers.map ShardWriter.index = List.range scheme.totalShards) {stripe : Bytes} (hne : stripe ≠ [])
    (hle : stripe.length ≤ scheme.dataShards * blockSize)
    (h : Task.Tr (sendStripe X (.new X.reedSolomon scheme) blockSize writers stripe).run es (.ret (.ok writers'))) :
    writers' = withStripes X scheme writers [stripe] := by
  unfold sendStripe at h
  rw [encodeStripe_ok hne hle] at h
  have hlen : writers.length = scheme.totalShards := by simpa using congrArg List.length hidx
  rw [sendBlocks_done (by rw [sealBlocks_length, stripeBlocks_length hlib, hlen]) h, zipWith_sealBlocks hlib hidx]

/-- How far a body has been received: what is left of its stripes is in the buffer, the full ones are sent. -/
structure Uploaded (X : Crates) (scheme : Scheme) (blockSize : ℕ) (base : List ShardWriter) (received : Bytes)
    (upload : Upload) : Prop where
  buffer : upload.stripeBuffer = remainder (scheme.dataShards * blockSize) received
  writers : upload.writers = withStripes X scheme base (fullPieces (scheme.dataShards * blockSize) received)

section Fill

variable {blockSize : ℕ} (hlib : ReedSolomonCode.Lawful X.reedSolomon scheme) (hB : 0 < blockSize)
  (hidx : base.map ShardWriter.index = List.range scheme.totalShards)

variable {received : Bytes} {upload : Upload}

/-- A part of a frame that fills the buffer makes a stripe; any other stays in the buffer. -/
theorem Uploaded.step (h : Uploaded X scheme blockSize base received upload) (hB : 0 < blockSize) (part : Bytes) :
    ((upload.stripeBuffer ++ part).length < scheme.dataShards * blockSize →
        Uploaded X scheme blockSize base (received ++ part)
        { upload with stripeBuffer := upload.stripeBuffer ++ part }) ∧
      ((upload.stripeBuffer ++ part).length = scheme.dataShards * blockSize → ∀ n,
        Uploaded X scheme blockSize base (received ++ part)
          { upload with
            writers := withStripes X scheme upload.writers [upload.stripeBuffer ++ part]
            stripeBuffer := []
            stripeNumber := n }) := by
  have hS : 0 < scheme.dataShards * blockSize := Nat.mul_pos scheme.data_pos hB
  obtain ⟨hfull, hrest⟩ := fullPieces_append hS received part
  rw [← h.buffer] at hfull hrest
  constructor
  · intro hlt
    rw [fullPieces_of_lt hlt, List.append_nil] at hfull
    rw [remainder_of_lt hlt] at hrest
    exact ⟨hrest.symm, by rw [hfull]; exact h.writers⟩
  · intro heq n
    obtain ⟨hone, hnil⟩ := fullPieces_exact hS heq
    rw [hone] at hfull
    rw [hnil] at hrest
    exact ⟨hrest.symm, by rw [hfull, ← withStripes_append, ← h.writers]⟩

variable {upload' : Upload}

include hlib hB hidx in
theorem fillStripes_done {rounds : ℕ} {bytes : Bytes} (h : Uploaded X scheme blockSize base received upload)
    (hrounds : bytes.length ≤ rounds)
    (ht : Task.Tr (fillStripes X (.new X.reedSolomon scheme) blockSize rounds upload bytes).run es
    (.ret (.ok upload'))) : Uploaded X scheme blockSize base (received ++ bytes) upload' ∧
    upload'.hashed = upload.hashed ∧
      upload'.received = upload.received := by
  have hS : 0 < scheme.dataShards * blockSize := Nat.mul_pos scheme.data_pos hB
  induction rounds generalizing received bytes upload es with
  | zero =>
    obtain ⟨_, hq⟩ := Task.tr_ret ht
    cases hq
    rw [List.length_eq_zero_iff.mp (Nat.le_zero.mp hrounds), List.append_nil]
    exact ⟨h, rfl, rfl⟩
  | succ rounds ih =>
    unfold fillStripes at ht
    by_cases hempty : bytes = []
    · rw [if_pos (by simp [hempty])] at ht
      obtain ⟨_, hq⟩ := Task.tr_ret ht
      cases hq
      rw [hempty, List.append_nil]
      exact ⟨h, rfl, rfl⟩
    · rw [if_neg (by simp [hempty])] at ht
      dsimp only at ht
      rw [ReedSolomonCode.new_scheme] at ht
      have hbuf : upload.stripeBuffer.length < scheme.dataShards * blockSize := by
        rw [h.buffer]
        exact remainder_length_lt hS received
      have hpos := List.length_pos_iff.mpr hempty
      generalize htaken : min (scheme.dataShards * blockSize - upload.stripeBuffer.length) bytes.length = taken at ht
      have htlen : (bytes.take taken).length = taken := by rw [List.length_take]; omega
      have hle : (upload.stripeBuffer ++ bytes.take taken).length ≤ scheme.dataShards * blockSize := by
        rw [List.length_append, htlen]; omega
      obtain ⟨hstay, hemit⟩ := h.step hB (bytes.take taken)
      have hdrop : (bytes.drop taken).length ≤ rounds := by rw [List.length_drop]; omega
      have hsplit : received ++ bytes = (received ++ bytes.take taken) ++ bytes.drop taken := by
        rw [List.append_assoc, List.take_append_drop]
      rw [hsplit]
      by_cases hfull : (upload.stripeBuffer ++ bytes.take taken).length = scheme.dataShards * blockSize
      · rw [if_pos hfull] at ht
        obtain ⟨_, _, writers, _, hsend, hrest⟩ := Task.done_try ht
        have hw := sendStripe_done hlib (by rw [h.writers, withStripes_index]; exact hidx)
          (List.ne_nil_of_length_pos (hfull ▸ hS)) hfull.le hsend
        subst hw
        obtain ⟨hup, hhash, hrec⟩ := ih (hemit hfull _) hdrop hrest
        exact ⟨hup, hhash, hrec⟩
      · rw [if_neg hfull] at ht
        obtain ⟨hup, hhash, hrec⟩ := ih (hstay (lt_of_le_of_ne hle hfull)) hdrop ht
        exact ⟨hup, hhash, hrec⟩

include hlib hidx in
/-- **The body arrives whole.** Whatever frames it came in, it has the declared size and every writer was sent its
blocks of every stripe. -/
theorem receiveBody_done {r : MetadataRecord} {body : List BodyMessage} (hB : 0 < r.blockSize)
    (h : Uploaded X scheme r.blockSize base received upload) (hhash : upload.hashed = received)
    (hrec : upload.received = received.length)
    (ht : Task.Tr (receiveBody X (.new X.reedSolomon scheme) r upload body).run es (.ret (.ok upload'))) :
    (received ++ bodyBytes body).length = r.size ∧ upload'.hashed = received ++ bodyBytes body ∧
      upload'.writers = withStripes X scheme base (pieces (scheme.dataShards * r.blockSize)
      (received ++ bodyBytes body)) := by
  have hS : 0 < scheme.dataShards * r.blockSize := Nat.mul_pos scheme.data_pos hB
  induction body generalizing received upload es with
  | nil =>
    obtain ⟨_, hq⟩ := Task.tr_ret ht
    cases hq
  | cons message rest ih =>
    cases message with
    | data frame =>
      unfold receiveBody at ht
      obtain ⟨_, _, next, _, hframe, hrest⟩ := Task.done_try ht
      unfold receiveFrame at hframe
      split_ifs at hframe
      · obtain ⟨_, hq⟩ := Task.tr_ret hframe
        cases hq
      · obtain ⟨_, hq⟩ := Task.tr_ret hframe
        cases hq
      · obtain ⟨_, hq⟩ := Task.tr_ret hframe
        cases hq
      · have h' : Uploaded X scheme r.blockSize base received
            { upload with
              expectedSequence := upload.expectedSequence + 1
              received := upload.received + frame.bytes.length
              hashed := upload.hashed ++ frame.bytes } := ⟨h.buffer, h.writers⟩
        obtain ⟨hup, hhash', hrec'⟩ := fillStripes_done hlib hB hidx h' le_rfl hframe
        have hnext := ih hup (hhash'.trans (by rw [hhash])) (hrec'.trans (by rw [hrec, List.length_append])) hrest
        rw [List.append_assoc] at hnext
        exact hnext
    | endOfStream error =>
      cases error with
      | some e =>
        obtain ⟨_, hq⟩ := Task.tr_ret ht
        cases hq
      | none =>
        unfold receiveBody at ht
        have hend : bodyBytes (.endOfStream none :: rest) = [] := rfl
        rw [hend, List.append_nil]
        split_ifs at ht with hsize hempty
        · obtain ⟨_, hq⟩ := Task.tr_ret ht
          cases hq
        · obtain ⟨_, hq⟩ := Task.tr_ret ht
          cases hq
          have hnil : remainder (scheme.dataShards * r.blockSize) received = [] := by
            rw [← h.buffer]
            simpa using hempty
          refine ⟨by rw [← hrec]; exact not_not.mp hsize, hhash, ?_⟩
          rw [pieces_eq hS, if_pos hnil, List.append_nil]
          exact h.writers
        · obtain ⟨_, _, writers, _, hsend, hend⟩ := Task.done_try ht
          obtain ⟨_, hq⟩ := Task.tr_ret hend
          cases hq
          have hne : upload.stripeBuffer ≠ [] := by simpa using hempty
          have hle : upload.stripeBuffer.length ≤ scheme.dataShards * r.blockSize := by
            rw [h.buffer]
            exact (remainder_length_lt hS received).le
          have hw := sendStripe_done hlib (by rw [h.writers, withStripes_index]; exact hidx) hne hle hsend
          refine ⟨by rw [← hrec]; exact not_not.mp hsize, hhash, ?_⟩
          rw [pieces_eq hS, if_neg (by rw [← h.buffer]; exact hne), ← withStripes_append, ← h.writers, ← h.buffer]
          exact hw
    | other description =>
      obtain ⟨_, hq⟩ := Task.tr_ret ht
      cases hq

end Fill

/-! ## What the writers store -/

section Store

variable {r : MetadataRecord} {body : Bytes}

def shardBlocks (X : Crates) (scheme : Scheme) (r : MetadataRecord) (body : Bytes) (i : ℕ) : List Bytes :=
  (List.range (stripeCount scheme r body)).map fun t =>
    (stripeBlocks (.new X.reedSolomon scheme) (stripeOf scheme r body t)).getD i []

theorem pieces_stripeBlock (i : ℕ) : (pieces (scheme.dataShards * r.blockSize) body).map (stripeBlock X scheme i) =
    (shardBlocks X scheme r body i).map fun b => ⟨i, b, X.xxh3 b⟩ := by
  rw [pieces, shardBlocks, List.map_map, List.map_map]
  rfl

variable {i : ℕ}

variable (hlib : ReedSolomonCode.Lawful X.reedSolomon scheme)

include hlib

theorem shardBlock_mem (hi : i < scheme.totalShards) (t : ℕ) :
    (stripeBlocks (.new X.reedSolomon scheme) (stripeOf scheme r body t))[i]? =
      some ((stripeBlocks (.new X.reedSolomon scheme) (stripeOf scheme r body t)).getD i []) := by
  have hlen : i < (stripeBlocks (.new X.reedSolomon scheme) (stripeOf scheme r body t)).length := by
    rw [stripeBlocks_length hlib]
    exact hi
  rw [List.getD_eq_getElem?_getD, List.getElem?_eq_getElem hlen]
  rfl

theorem shardBlock_length (hi : i < scheme.totalShards) (t : ℕ) :
    ((stripeBlocks (.new X.reedSolomon scheme) (stripeOf scheme r body t)).getD i []).length =
      divCeil (stripeOf scheme r body t).length scheme.dataShards :=
  length_of_mem_stripeBlocks hlib (List.mem_of_getElem? (shardBlock_mem hlib hi t))

omit hlib in
theorem stripeOf_length (t : ℕ) : (stripeOf scheme r body t).length =
    min (scheme.dataShards * r.blockSize) (body.length - t * (scheme.dataShards * r.blockSize)) := piece_length ..

theorem shardBlocks_fit (hB : 0 < r.blockSize) (hi : i < scheme.totalShards) :
    FitBlocks r.blockSize (shardBlocks X scheme r body i) := by
  have hS : 0 < scheme.dataShards * r.blockSize := Nat.mul_pos scheme.data_pos hB
  have hmem : ∀ b ∈ shardBlocks X scheme r body i, ∃ t < stripeCount scheme r body,
      b.length = divCeil (stripeOf scheme r body t).length scheme.dataShards := by
    intro b hb
    obtain ⟨t, ht, rfl⟩ := List.mem_map.mp hb
    exact ⟨t, List.mem_range.mp ht, shardBlock_length hlib hi t⟩
  refine ⟨fun b hb => ?_, fun b hb => ?_, fun b hb => ?_⟩
  · obtain ⟨t, ht, hlen⟩ := hmem b hb
    rw [hlen]
    exact divCeil_pos (List.length_pos_iff.mpr (stripeOf_ne_nil hB ht)) scheme.data_pos
  · obtain ⟨t, _, hlen⟩ := hmem b hb
    rw [hlen]
    exact divCeil_le scheme.data_pos (by rw [stripeOf_length]; exact Nat.min_le_left _ _)
  · -- All stripes but the last are full.
    obtain ⟨t, ht, rfl⟩ : ∃ t, t + 1 < stripeCount scheme r body ∧
        b = (stripeBlocks (.new X.reedSolomon scheme) (stripeOf scheme r body t)).getD i [] := by
      cases hc : stripeCount scheme r body with
      | zero => rw [shardBlocks, hc] at hb; cases hb
      | succ c =>
        rw [shardBlocks, hc, List.range_succ, List.map_append, List.map_singleton, List.dropLast_concat] at hb
        obtain ⟨t, ht, rfl⟩ := List.mem_map.mp hb
        exact ⟨t, Nat.succ_lt_succ (List.mem_range.mp ht), rfl⟩
    have hlt := mul_lt_of_lt_divCeil hS ht
    rw [Nat.succ_mul] at hlt
    rw [shardBlock_length hlib hi, stripeOf_length, Nat.min_eq_left (by omega)]
    obtain ⟨c, hc⟩ := Nat.exists_eq_succ_of_ne_zero hB.ne'
    rw [hc]
    refine divCeil_eq scheme.data_pos ?_ (by rw [Nat.mul_comm])
    rw [Nat.mul_comm scheme.dataShards]
    exact Nat.mul_lt_mul_of_pos_right (Nat.lt_succ_self c) scheme.data_pos

/-- **What a writer stores** of a body is its shard. -/
theorem writeShard_isShard (hB : 0 < r.blockSize) (hne : body ≠ [])
    (hi : i < scheme.totalShards) (kh : KeyHash) (v : VersionId) (checksum : BlockChecksum) :
    ∃ file, writeShard X.xxh3 ⟨scheme, i, r.blockSize, kh, v⟩
        ((pieces (scheme.dataShards * r.blockSize) body).map (stripeBlock X scheme i)) body.length checksum = .ok file ∧
      file.header = ⟨scheme, i, r.blockSize, kh, v⟩ ∧ IsShard X scheme r body i file := by
  have hS : 0 < scheme.dataShards * r.blockSize := Nat.mul_pos scheme.data_pos hB
  have hpos : 0 < body.length := List.length_pos_iff.mpr hne
  obtain ⟨c, hc⟩ := Nat.exists_eq_succ_of_ne_zero (divCeil_pos hpos hS).ne'
  have hcount : stripeCount scheme r body = c + 1 := hc
  have hlast : (shardBlocks X scheme r body i).getLast? =
      some ((stripeBlocks (.new X.reedSolomon scheme) (stripeOf scheme r body c)).getD i []) := by
    rw [shardBlocks, hcount, List.range_succ, List.map_append, List.map_singleton, List.getLast?_concat]
  have hlen : (shardBlocks X scheme r body i).length = c + 1 := by
    rw [shardBlocks, List.length_map, List.length_range, hcount]
  have hgeo : shardGeometry scheme r.blockSize body.length = some ⟨(shardBlocks X scheme r body i).length,
      ((stripeBlocks (.new X.reedSolomon scheme) (stripeOf scheme r body c)).getD i []).length⟩ := by
    have hlo := mul_lt_of_lt_divCeil hS (i := c) (by rw [hc]; exact Nat.lt_succ_self c)
    have hhi := le_mul_divCeil (a := body.length) hS
    rw [hc, Nat.mul_comm, Nat.succ_mul] at hhi
    unfold shardGeometry
    rw [if_neg (by omega)]
    dsimp only
    rw [hc, hlen, shardBlock_length hlib hi, stripeOf_length, Nat.min_eq_right (by omega)]
    rfl
  obtain ⟨file, hwrite, hhead, hblocks, hsums, hfcount⟩ := writeShard_ok ⟨scheme, i, r.blockSize, kh, v⟩ checksum hi
    (shardBlocks_fit hlib hB hi) hlast hgeo
  refine ⟨file, by rw [pieces_stripeBlock]; exact hwrite, hhead, ?_, fun t ht => ?_⟩
  · rw [hfcount, hlen, hcount]
  · refine ⟨_, shardBlock_mem hlib hi t, ?_⟩
    have hget : (shardBlocks X scheme r body i)[t]? =
        some ((stripeBlocks (.new X.reedSolomon scheme) (stripeOf scheme r body t)).getD i []) := by
      rw [shardBlocks, List.getElem?_map, List.getElem?_range ht]
      rfl
    rw [blockAt, hblocks, hsums, List.getD_eq_getElem?_getD, List.getD_eq_getElem?_getD, List.getElem?_map, hget]
    rfl

end Store

end

end Djbod
