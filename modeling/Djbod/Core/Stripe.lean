import Djbod.Core.Erasure
import Djbod.Data.Pieces

/-!
# Stripe encoding and decoding

* `encodeStripe` : up to `k * B` object bytes as `k + m` checksummed blocks of equal length;
* `decodeStripe` : the object bytes back from the received blocks, every block checked first;
* `encodeStripe_ok` : what the encoder stores; `decodeStripe_eq` : with `k` usable blocks the decoder
  returns the object's bytes, and with fewer it says so;
* `decodeStripe_exact` : the result and its faults, from the blocks that arrived as they were stored.
-/

namespace Djbod

open Pieces

abbrev BlockChecksum := UInt64

structure ShardBlock where
  index : ℕ
  bytes : Bytes
  checksum : BlockChecksum
  deriving DecidableEq, Repr

/-- Why a block could not be used, or was never received. -/
inductive FaultKind where
  | missing
  | unreadable (reason : String)
  | unavailable (reason : String)
  | wrongLength (expected actual : ℕ)
  | checksumMismatch (stored computed : BlockChecksum)
  deriving DecidableEq, Repr

structure BlockFault where
  index : ℕ
  kind : FaultKind
  deriving DecidableEq, Repr

inductive DecodedStripe where
  | intact (data : Bytes)
  | repaired (data : Bytes) (faults : List BlockFault)
  | unrecoverable (usable needed : ℕ) (faults : List BlockFault)
  deriving DecidableEq, Repr

inductive StripeError where
  | empty
  | tooLarge (actual max : ℕ)
  | coding (e : CodingError)
  | unrequestedBlock (index : ℕ)
  deriving DecidableEq, Repr

section

variable (xxh3 : Bytes → BlockChecksum) (code : ReedSolomonCode)

/-- The length of every block in a stripe holding `dataLen` object bytes. -/
def blockLengthFor (dataLen : ℕ) : ℕ := divCeil dataLen code.scheme.dataShards

/-- A block cut short by the end of the object, padded with zeros. -/
def padBlock (blockLen : ℕ) (bytes : Bytes) : Bytes := bytes ++ List.replicate (blockLen - bytes.length) 0

/-- Block `i` of `n` is bytes `i * blockLen ..` of the data, padded. -/
def splitBlocks (blockLen : ℕ) : ℕ → Bytes → List Bytes
  | 0, _ => []
  | n + 1, data => padBlock blockLen (data.take blockLen) :: splitBlocks blockLen n (data.drop blockLen)

def sealBlocks (blocks : List Bytes) : List ShardBlock :=
  blocks.mapIdx fun index bytes => ⟨index, bytes, xxh3 bytes⟩

def encodeStripe (data : Bytes) (blockSize : ℕ) : Except StripeError (List ShardBlock) :=
  let scheme := code.scheme
  if data.isEmpty then .error .empty
  else if data.length > scheme.dataShards * blockSize then
    .error (.tooLarge data.length (scheme.dataShards * blockSize))
  else
    let blocks := splitBlocks (blockLengthFor code data.length) scheme.dataShards data
    match code.computeParity blocks with
    | .error e => .error (.coding e)
    | .ok parity => .ok (sealBlocks xxh3 (blocks ++ parity))

def checkRequested (scheme : Scheme) : List ℕ → List ℕ → Except StripeError Unit
  | _, [] => .ok ()
  | seen, index :: rest =>
    if !scheme.contains index then .error (.coding (.indexOutOfRange index))
    else if index ∈ seen then .error (.coding (.duplicateIndex index))
    else checkRequested scheme (index :: seen) rest

def checkReceived (scheme : Scheme) (requested : List ℕ) : List ℕ → List ShardBlock → Except StripeError Unit
  | _, [] => .ok ()
  | seen, block :: rest =>
    if !scheme.contains block.index then .error (.coding (.indexOutOfRange block.index))
    else if block.index ∉ requested then .error (.unrequestedBlock block.index)
    else if block.index ∈ seen then .error (.coding (.duplicateIndex block.index))
    else checkReceived scheme requested (block.index :: seen) rest

/-- The bytes of a requested block, or why they cannot be used. -/
def judgeBlock (blockLen : ℕ) : Option ShardBlock → Except FaultKind Bytes
  | none => .error .missing
  | some block =>
    if block.bytes.length ≠ blockLen then .error (.wrongLength blockLen block.bytes.length)
    else if xxh3 block.bytes ≠ block.checksum then
      .error (.checksumMismatch block.checksum (xxh3 block.bytes))
    else .ok block.bytes

def judgeRequested (blockLen : ℕ) (requested : List ℕ) (received : List ShardBlock) :
    List (ℕ × Except FaultKind Bytes) :=
  (code.scheme.shardIndices.filter (· ∈ requested)).map fun index =>
    (index, judgeBlock xxh3 blockLen (received.find? fun block => block.index == index))

def usableBlocks (judged : List (ℕ × Except FaultKind Bytes)) : List (ℕ × Bytes) :=
  judged.filterMap fun v =>
    match v.2 with
    | .ok bytes => some (v.1, bytes)
    | .error _ => none

def blockFaults (judged : List (ℕ × Except FaultKind Bytes)) : List BlockFault :=
  judged.filterMap fun v =>
    match v.2 with
    | .ok _ => none
    | .error kind => some ⟨v.1, kind⟩

def decodeStripe (requested : List ℕ) (received : List ShardBlock) (dataLen : ℕ) :
    Except StripeError DecodedStripe :=
  let scheme := code.scheme
  if dataLen = 0 then .error .empty
  else
    match checkRequested scheme [] requested with
    | .error e => .error e
    | .ok () =>
      match checkReceived scheme requested [] received with
      | .error e => .error e
      | .ok () =>
        let judged := judgeRequested xxh3 code (blockLengthFor code dataLen) requested received
        let usable := usableBlocks judged
        let faults := blockFaults judged
        if usable.length < scheme.dataShards then
          .ok (.unrecoverable usable.length scheme.dataShards faults)
        else
          match code.reconstruct usable scheme.dataShardIndices with
          | .error e => .error (.coding e)
          | .ok dataBlocks =>
            let data := dataBlocks.flatten.take dataLen
            if faults.isEmpty then .ok (.intact data) else .ok (.repaired data faults)

end

/-! ## Splitting and joining -/

@[simp] theorem splitBlocks_length (L n : ℕ) (data : Bytes) : (splitBlocks L n data).length = n := by
  induction n generalizing data with
  | zero => rfl
  | succ n ih => rw [splitBlocks, List.length_cons, ih]

variable {L : ℕ} {bytes : Bytes}

theorem padBlock_length (h : bytes.length ≤ L) : (padBlock L bytes).length = L := by
  rw [padBlock, List.length_append, List.length_replicate]
  omega

variable {b data : Bytes} {n : ℕ}

theorem length_of_mem_splitBlocks (h : b ∈ splitBlocks L n data) : b.length = L := by
  induction n generalizing data with
  | zero => cases h
  | succ n ih =>
    rcases List.mem_cons.mp h with rfl | h
    · exact padBlock_length (by simp)
    · exact ih h

theorem splitBlocks_flatten (h : data.length ≤ n * L) : (splitBlocks L n data).flatten.take data.length = data := by
  induction n generalizing data with
  | zero =>
    rw [Nat.zero_mul, Nat.le_zero, List.length_eq_zero_iff] at h
    rw [h, List.length_nil, List.take_zero]
  | succ n ih =>
    rw [splitBlocks, List.flatten_cons]
    by_cases hL : data.length ≤ L
    · rw [List.take_of_length_le hL, padBlock, List.append_assoc, List.take_left]
    · have htake : (data.take L).length = L := by rw [List.length_take]; omega
      have hdrop : (data.drop L).length ≤ n * L := by
        rw [List.length_drop]
        rw [Nat.succ_mul] at h
        omega
      have hpad : padBlock L (data.take L) = data.take L := by
        rw [padBlock, htake, Nat.sub_self, List.replicate_zero, List.append_nil]
      have hlen : data.length = (data.take L).length + (data.drop L).length := by
        rw [htake, List.length_drop]; omega
      rw [hpad, hlen, List.take_length_add_append, ih hdrop, List.take_append_drop]

/-! ## What the encoder stores -/

section

variable {xxh3 : Bytes → BlockChecksum} {lib : ℕ → ℕ → ReedSolomon} {scheme : Scheme}

def stripeBlocks (code : ReedSolomonCode) (data : Bytes) : List Bytes :=
  let blocks := splitBlocks (blockLengthFor code data.length) code.scheme.dataShards data
  blocks ++ code.parity blocks

theorem sealBlocks_getElem? (blocks : List Bytes) (i : ℕ) :
    (sealBlocks xxh3 blocks)[i]? = blocks[i]?.map fun bytes => ⟨i, bytes, xxh3 bytes⟩ := by
  rw [sealBlocks, List.getElem?_mapIdx]

@[simp] theorem sealBlocks_length (blocks : List Bytes) : (sealBlocks xxh3 blocks).length = blocks.length := by
  rw [sealBlocks, List.length_mapIdx]

theorem blockLengthFor_pos (lib : ℕ → ℕ → ReedSolomon) (scheme : Scheme) (hne : data ≠ []) :
    0 < blockLengthFor (.new lib scheme) data.length :=
  divCeil_pos (List.length_pos_iff.mpr hne) scheme.data_pos

theorem stripeBlocks_length (hlib : ReedSolomonCode.Lawful lib scheme) (data : Bytes) :
    (stripeBlocks (.new lib scheme) data).length = scheme.totalShards := by
  have hpar := ReedSolomonCode.parity_length hlib
    (splitBlocks_length (blockLengthFor (.new lib scheme) data.length) scheme.dataShards data)
  simp only [stripeBlocks, List.length_append, ReedSolomonCode.new_scheme, splitBlocks_length, hpar,
    Scheme.totalShards]

theorem length_of_mem_stripeBlocks (hlib : ReedSolomonCode.Lawful lib scheme)
    (hb : b ∈ stripeBlocks (.new lib scheme) data) : b.length = blockLengthFor (.new lib scheme) data.length := by
  rcases List.mem_append.mp hb with hb | hb
  · exact length_of_mem_splitBlocks hb
  · exact ReedSolomonCode.parity_block_length hlib (splitBlocks_length ..)
      (fun _ => length_of_mem_splitBlocks) b hb

theorem encodeStripe_ok {blockSize : ℕ} (hne : data ≠ []) (hle : data.length ≤ scheme.dataShards * blockSize) :
    encodeStripe xxh3 (.new lib scheme) data blockSize =
    .ok (sealBlocks xxh3 (stripeBlocks (.new lib scheme) data)) := by
  have hpar := ReedSolomonCode.computeParity_ok lib (splitBlocks_length _ scheme.dataShards data)
    (fun _ => length_of_mem_splitBlocks) (blockLengthFor_pos lib scheme hne)
  simp only [encodeStripe, List.isEmpty_iff, hne, if_false, ReedSolomonCode.new_scheme, Nat.not_lt.mpr hle, hpar,
    stripeBlocks]

/-! ## What the decoder returns -/

variable {requested : List ℕ}

theorem checkRequested_ok (seen : List ℕ) (hrange : ∀ i ∈ requested, i < scheme.totalShards) (hnodup : requested.Nodup)
    (hseen : ∀ i ∈ requested, i ∉ seen) : checkRequested scheme seen requested = .ok () := by
  induction requested generalizing seen with
  | nil => rfl
  | cons i rest ih =>
    rw [List.nodup_cons] at hnodup
    have hi : scheme.contains i = true := decide_eq_true (hrange i List.mem_cons_self)
    have hrest := ih (i :: seen) (fun j hj => hrange j (List.mem_cons_of_mem _ hj)) hnodup.2
      (fun j hj hmem => by
        rcases List.mem_cons.mp hmem with rfl | hmem
        · exact hnodup.1 hj
        · exact hseen j (List.mem_cons_of_mem _ hj) hmem)
    simp only [checkRequested, hi, Bool.not_true, Bool.false_eq_true, if_false, hseen i List.mem_cons_self, hrest]

variable {received : List ShardBlock}

theorem checkReceived_ok (seen : List ℕ) (hrange : ∀ i ∈ requested, i < scheme.totalShards)
    (hreq : ∀ b ∈ received, b.index ∈ requested) (hnodup : (received.map ShardBlock.index).Nodup)
    (hseen : ∀ b ∈ received, b.index ∉ seen) : checkReceived scheme requested seen received = .ok () := by
  induction received generalizing seen with
  | nil => rfl
  | cons b rest ih =>
    rw [List.map_cons, List.nodup_cons] at hnodup
    have hb : b.index ∈ requested := hreq b List.mem_cons_self
    have hi : scheme.contains b.index = true := decide_eq_true (hrange _ hb)
    have hrest := ih (b.index :: seen) (fun c hc => hreq c (List.mem_cons_of_mem _ hc)) hnodup.2
      (fun c hc hmem => by
        rcases List.mem_cons.mp hmem with heq | hmem
        · exact hnodup.1 (List.mem_map.mpr ⟨c, hc, heq⟩)
        · exact hseen c (List.mem_cons_of_mem _ hc) hmem)
    simp only [checkReceived, hi, Bool.not_true, Bool.false_eq_true, if_false, hb, not_true_eq_false,
      hseen b List.mem_cons_self, hrest]

theorem judgeBlock_eq_ok {slot : Option ShardBlock} :
    judgeBlock xxh3 L slot = .ok bytes ↔
      ∃ b, slot = some b ∧ b.bytes = bytes ∧ bytes.length = L ∧ xxh3 bytes = b.checksum := by
  cases slot with
  | none => simp [judgeBlock]
  | some b =>
    simp only [judgeBlock, ne_eq, ite_not, Option.some.injEq, exists_eq_left']
    by_cases hl : b.bytes.length = L
    · by_cases hc : xxh3 b.bytes = b.checksum
      · rw [if_pos hl, if_pos hc, Except.ok.injEq]
        constructor
        · rintro rfl; exact ⟨rfl, hl, hc⟩
        · exact fun h => h.1
      · rw [if_pos hl, if_neg hc]
        constructor
        · intro h; cases h
        · rintro ⟨rfl, _, h⟩; exact absurd h hc
    · rw [if_neg hl]
      constructor
      · intro h; cases h
      · rintro ⟨rfl, h, _⟩; exact absurd h hl

theorem mem_usableBlocks {judged : List (ℕ × Except FaultKind Bytes)} {i : ℕ} :
    (i, bytes) ∈ usableBlocks judged ↔ (i, .ok bytes) ∈ judged := by
  rw [usableBlocks, List.mem_filterMap]
  constructor
  · rintro ⟨⟨j, v⟩, hv, h⟩
    cases v with
    | ok b => cases h; exact hv
    | error e => cases h
  · exact fun h => ⟨_, h, rfl⟩

theorem usableBlocks_fst_sublist (judged : List (ℕ × Except FaultKind Bytes)) :
    ((usableBlocks judged).map Prod.fst).Sublist (judged.map Prod.fst) := by
  induction judged with
  | nil => exact List.Sublist.refl _
  | cons v rest ih =>
    obtain ⟨i, v⟩ := v
    cases v with
    | ok b => exact ih.cons_cons i
    | error e => exact ih.cons i

/-- The blocks received for a stripe of `data`: at most one for each requested index, and every block
that passes its checks is the block the encoder stored. -/
structure Received (xxh3 : Bytes → BlockChecksum) (code : ReedSolomonCode) (data : Bytes)
    (requested : List ℕ) (received : List ShardBlock) : Prop where
  range : ∀ i ∈ requested, i < code.scheme.totalShards
  requested_nodup : requested.Nodup
  mem_requested : ∀ b ∈ received, b.index ∈ requested
  nodup : (received.map ShardBlock.index).Nodup
  sound : ∀ b ∈ received, b.bytes.length = blockLengthFor code data.length → xxh3 b.bytes = b.checksum →
    (stripeBlocks code data)[b.index]? = some b.bytes

def DecodedStripe.faults : DecodedStripe → List BlockFault
  | .intact _ => []
  | .repaired _ faults => faults
  | .unrecoverable _ _ faults => faults

theorem decodeStripe_faults {code : ReedSolomonCode} {len : ℕ} {decoded : DecodedStripe}
    (h : decodeStripe xxh3 code requested received len = .ok decoded) :
    decoded.faults = blockFaults (judgeRequested xxh3 code (blockLengthFor code len) requested received) := by
  unfold decodeStripe at h
  by_cases hlen : len = 0
  · rw [if_pos hlen] at h
    cases h
  rw [if_neg hlen] at h
  cases hreq : checkRequested code.scheme [] requested with
  | error e => rw [hreq] at h; cases h
  | ok u =>
    rw [hreq] at h
    cases hrec : checkReceived code.scheme requested [] received with
    | error e => simp only [hrec] at h; cases h
    | ok u =>
      simp only [hrec] at h
      by_cases hfew : (usableBlocks (judgeRequested xxh3 code (blockLengthFor code len) requested received)).length <
          code.scheme.dataShards
      · rw [if_pos hfew] at h
        cases h
        rfl
      · rw [if_neg hfew] at h
        split at h
        · cases h
        · split_ifs at h with hempty
          · cases h
            exact (List.isEmpty_iff.mp hempty).symm
          · cases h
            rfl

/-- **Decoding.** From blocks of a stripe the decoder returns the stripe's bytes when at least `k` are
usable, and says that it cannot otherwise. -/
theorem decodeStripe_eq (hlib : ReedSolomonCode.Lawful lib scheme) (hne : data ≠ [])
    (h : Received xxh3 (.new lib scheme) data requested received) :
    decodeStripe xxh3 (.new lib scheme) requested received data.length =
      .ok (let judged := judgeRequested xxh3 (.new lib scheme) (blockLengthFor (.new lib scheme) data.length)
              requested received
           if (usableBlocks judged).length < scheme.dataShards then
             .unrecoverable (usableBlocks judged).length scheme.dataShards (blockFaults judged)
           else if (blockFaults judged).isEmpty then .intact data
           else .repaired data (blockFaults judged)) := by
  have hlen : data.length ≠ 0 := fun h0 => hne (List.length_eq_zero_iff.mp h0)
  have hreq : checkRequested scheme [] requested = .ok () :=
    checkRequested_ok [] h.range h.requested_nodup (fun _ _ => List.not_mem_nil)
  have hrec : checkReceived scheme requested [] received = .ok () :=
    checkReceived_ok [] h.range h.mem_requested h.nodup (fun _ _ => List.not_mem_nil)
  simp only [decodeStripe, hlen, if_false, ReedSolomonCode.new_scheme, hreq, hrec]
  set judged := judgeRequested xxh3 (.new lib scheme) (blockLengthFor (.new lib scheme) data.length)
    requested received with hjudged
  by_cases hfew : (usableBlocks judged).length < scheme.dataShards
  · simp only [hfew, if_true]
  · have hfst : judged.map Prod.fst = scheme.shardIndices.filter (· ∈ requested) := by
      rw [hjudged, judgeRequested, List.map_map]
      exact List.map_id _
    have hnodup : ((usableBlocks judged).map Prod.fst).Nodup := by
      refine (usableBlocks_fst_sublist judged).nodup ?_
      rw [hfst]
      exact List.nodup_range.filter _
    have hagree : ∀ p ∈ usableBlocks judged, (stripeBlocks (.new lib scheme) data)[p.1]? = some p.2 := by
      rintro ⟨i, bytes⟩ hp
      rw [mem_usableBlocks, hjudged, judgeRequested, List.mem_map] at hp
      obtain ⟨j, _, hj⟩ := hp
      rw [Prod.mk.injEq] at hj
      obtain ⟨rfl, hj⟩ := hj
      obtain ⟨b, hfind, rfl, hl, hc⟩ := judgeBlock_eq_ok.mp hj
      obtain rfl : b.index = j := by simpa using List.find?_some hfind
      exact h.sound b (List.mem_of_find?_eq_some hfind) hl hc
    have hback := ReedSolomonCode.reconstruct_data hlib (splitBlocks_length _ scheme.dataShards data)
      (fun _ => length_of_mem_splitBlocks) (blockLengthFor_pos lib scheme hne) hnodup hagree (Nat.not_lt.mp hfew)
    have hdata : (splitBlocks (blockLengthFor (.new lib scheme) data.length) scheme.dataShards data).flatten.take
        data.length = data := splitBlocks_flatten (le_mul_divCeil scheme.data_pos)
    simp only [if_neg hfew, hback, hdata]
    split_ifs <;> rfl

end

/-! ## Blocks as they were stored, and damaged ones -/

/-- The blocks received when `blocks` were stored: at most one for each requested index, each as it was stored or
damaged so that its length or its checksum shows it. -/
structure Delivery (xxh3 : Bytes → BlockChecksum) (scheme : Scheme) (blocks : List ShardBlock) (requested : List ℕ)
    (received : List ShardBlock) : Prop where
  range : ∀ i ∈ requested, i < scheme.totalShards
  requested_nodup : requested.Nodup
  mem_requested : ∀ b ∈ received, b.index ∈ requested
  nodup : (received.map ShardBlock.index).Nodup
  shown : ∀ b ∈ received, ∃ stored, blocks[b.index]? = some stored ∧
    (b = stored ∨ b.bytes.length ≠ stored.bytes.length ∨ xxh3 b.bytes ≠ b.checksum)

/-- The block of this index arrived as it was stored. -/
def arrivedGood (blocks received : List ShardBlock) (index : ℕ) : Bool :=
  received.any fun b => b.index == index && blocks[index]? == some b

theorem judged_eq_filter {f : ℕ → Except FaultKind Bytes} {good : ℕ → Bool} (indices : List ℕ)
    (h : ∀ i ∈ indices, (f i).isOk = good i) :
    ((usableBlocks (indices.map fun i => (i, f i))).map Prod.fst = indices.filter good) ∧
      (blockFaults (indices.map fun i => (i, f i))).map BlockFault.index = indices.filter fun i => !good i := by
  induction indices with
  | nil => exact ⟨rfl, rfl⟩
  | cons i rest ih =>
    obtain ⟨hgood, hbad⟩ := ih fun j hj => h j (List.mem_cons_of_mem _ hj)
    cases hf : f i with
    | ok bytes =>
      have hi : good i = true := by rw [← h i List.mem_cons_self, hf]; rfl
      rw [List.map_cons, hf, List.filter_cons_of_pos hi, List.filter_cons_of_neg (by simp [hi]), ← hgood, ← hbad]
      exact ⟨rfl, rfl⟩
    | error kind =>
      have hi : good i = false := by rw [← h i List.mem_cons_self, hf]; rfl
      rw [List.map_cons, hf, List.filter_cons_of_neg (by simp [hi]), List.filter_cons_of_pos (by simp [hi]),
        ← hgood, ← hbad]
      exact ⟨rfl, rfl⟩

section

variable {xxh3 : Bytes → BlockChecksum} {lib : ℕ → ℕ → ReedSolomon} {scheme : Scheme} {data : Bytes}
  {requested : List ℕ} {received : List ShardBlock}

theorem Delivery.sound (h : Delivery xxh3 scheme (sealBlocks xxh3 (stripeBlocks (.new lib scheme) data))
    requested received) (hlib : ReedSolomonCode.Lawful lib scheme) : Received xxh3 (.new lib scheme)
    data requested received where
  range := h.range
  requested_nodup := h.requested_nodup
  mem_requested := h.mem_requested
  nodup := h.nodup
  sound b hb hlen hsum := by
    obtain ⟨stored, hstored, hshown⟩ := h.shown b hb
    rw [sealBlocks_getElem?, Option.map_eq_some_iff] at hstored
    obtain ⟨bytes, hbytes, rfl⟩ := hstored
    rcases hshown with hsame | hwrong | hwrong
    · rw [congrArg ShardBlock.bytes hsame]
      exact hbytes
    · exact absurd (hlen.trans (length_of_mem_stripeBlocks hlib (List.mem_of_getElem? hbytes)).symm) hwrong
    · exact absurd hsum hwrong

/-- A requested block can be used exactly when it arrived as it was stored. -/
theorem Delivery.judged (h : Delivery xxh3 scheme (sealBlocks xxh3 (stripeBlocks (.new lib scheme) data))
    requested received) (hlib : ReedSolomonCode.Lawful lib scheme) (i : ℕ) :
    (judgeBlock xxh3 (blockLengthFor (.new lib scheme) data.length) (received.find? fun b => b.index == i)).isOk =
      arrivedGood (sealBlocks xxh3 (stripeBlocks (.new lib scheme) data)) received i := by
  rw [Bool.eq_iff_iff]
  constructor
  · intro hok
    cases hj : judgeBlock xxh3 (blockLengthFor (.new lib scheme) data.length)
      (received.find? fun b => b.index == i) with
    | error e => rw [hj] at hok; cases hok
    | ok bytes =>
      obtain ⟨b, hfind, rfl, hlen, hsum⟩ := judgeBlock_eq_ok.mp hj
      have hi : b.index = i := by simpa using List.find?_some hfind
      have hb := List.mem_of_find?_eq_some hfind
      have hstored := (h.sound hlib).sound b hb hlen hsum
      rw [arrivedGood, List.any_eq_true]
      refine ⟨b, hb, ?_⟩
      rw [Bool.and_eq_true, beq_iff_eq, beq_iff_eq, sealBlocks_getElem?, ← hi, hstored, Option.map_some, hsum]
      exact ⟨rfl, rfl⟩
  · intro hgood
    obtain ⟨b, hb, hcond⟩ := List.any_eq_true.mp hgood
    rw [Bool.and_eq_true, beq_iff_eq, beq_iff_eq, sealBlocks_getElem?, Option.map_eq_some_iff] at hcond
    obtain ⟨rfl, bytes, hbytes, heq⟩ := hcond
    -- With distinct indices the block found is this one.
    have hfind : received.find? (fun c => c.index == b.index) = some b := by
      cases hf : received.find? fun c => c.index == b.index with
      | none => simpa using List.find?_eq_none.mp hf b hb
      | some c =>
        have hc : c.index = b.index := by simpa using List.find?_some hf
        rw [List.inj_on_of_nodup_map h.nodup (List.mem_of_find?_eq_some hf) hb hc]
    have hlen : b.bytes.length = blockLengthFor (.new lib scheme) data.length := by
      rw [← heq]
      exact length_of_mem_stripeBlocks hlib (List.mem_of_getElem? hbytes)
    have hsum : xxh3 b.bytes = b.checksum := by rw [← heq]
    rw [judgeBlock_eq_ok.mpr ⟨b, hfind, rfl, hlen, hsum⟩]
    rfl

/-- **Exact decoding.** Of the blocks an encoded stripe was stored as, those that arrive undamaged decide the result:
with fewer than `k` the decoder says how many there are, and otherwise it returns the stripe. The faults are the
requested indices without such a block, in index order. -/
theorem decodeStripe_exact (hlib : ReedSolomonCode.Lawful lib scheme) {blockSize : ℕ} (hne : data ≠ [])
    (hle : data.length ≤ scheme.dataShards * blockSize) :
    ∃ blocks, encodeStripe xxh3 (.new lib scheme) data blockSize = .ok blocks ∧
      ∀ requested received, Delivery xxh3 scheme blocks requested received →
        ∃ faults, faults.map BlockFault.index =
            scheme.shardIndices.filter (fun i => decide (i ∈ requested) && !arrivedGood blocks received i) ∧
          decodeStripe xxh3 (.new lib scheme) requested received data.length =
            .ok (if requested.countP (arrivedGood blocks received) < scheme.dataShards then
                .unrecoverable (requested.countP (arrivedGood blocks received)) scheme.dataShards faults
              else if requested.all (arrivedGood blocks received) then .intact data
              else .repaired data faults) := by
  refine ⟨_, encodeStripe_ok hne hle, fun requested received h => ?_⟩
  obtain ⟨husable, hfaults⟩ := judged_eq_filter (scheme.shardIndices.filter (· ∈ requested)) fun i _ => h.judged hlib i
  have hperm : (scheme.shardIndices.filter (· ∈ requested)).Perm requested := by
    refine (List.perm_ext_iff_of_nodup (List.nodup_range.filter _) h.requested_nodup).mpr fun i => ?_
    rw [List.mem_filter, decide_eq_true_eq]
    exact and_iff_right_of_imp fun hi => List.mem_range.mpr (h.range i hi)
  have hcount := congrArg List.length husable
  rw [List.length_map, ← List.countP_eq_length_filter, hperm.countP_eq] at hcount
  have hempty : (blockFaults (judgeRequested xxh3 (.new lib scheme)
    (blockLengthFor (.new lib scheme) data.length) requested
      received)).isEmpty = requested.all (arrivedGood (sealBlocks xxh3 (stripeBlocks (.new lib scheme) data))
      received) := by
    rw [Bool.eq_iff_iff, List.isEmpty_iff, ← List.map_eq_nil_iff, List.all_eq_true]
    refine (iff_of_eq (congrArg (· = []) hfaults)).trans ?_
    rw [List.filter_eq_nil_iff]
    simp only [Bool.not_eq_true', Bool.not_eq_false, hperm.mem_iff]
  refine ⟨_, hfaults.trans ?_, ?_⟩
  · rw [List.filter_filter]
    exact List.filter_congr fun i _ => Bool.and_comm _ _
  · rw [decodeStripe_eq hlib hne (h.sound hlib)]
    simp only [hempty]
    rw [show (usableBlocks (judgeRequested xxh3 (.new lib scheme)
      (blockLengthFor (.new lib scheme) data.length) requested
      received)).length = requested.countP (arrivedGood (sealBlocks xxh3 (stripeBlocks (.new lib scheme) data))
      received) from hcount]
    rfl

/-- The first of two replicas arrives damaged, the second as it was stored. -/
theorem decodeStripe_exact_pair :
    Delivery (fun _ => 0) pair [⟨0, [7], 0⟩, ⟨1, [7], 0⟩] [1, 0] [⟨0, [7, 8], 0⟩, ⟨1, [7], 0⟩] ∧
      ∃ faults, faults.map BlockFault.index = [0] ∧
        decodeStripe (fun _ => 0) (.new (fun _ m => mirror m) pair) [1, 0] [⟨0, [7, 8], 0⟩, ⟨1, [7], 0⟩] 1 =
          .ok (.repaired [7] faults) := by
  have hd : Delivery (fun _ => 0) pair [⟨0, [7], 0⟩, ⟨1, [7], 0⟩] [1, 0] [⟨0, [7, 8], 0⟩, ⟨1, [7], 0⟩] :=
    ⟨by decide, by decide, by decide, by decide, by decide⟩
  obtain ⟨blocks, hblocks, hall⟩ := @decodeStripe_exact (fun _ => 0) (fun _ m => mirror m) pair [7]
    (fun _ => mirror_recovers 1) 4096 (by decide) (by decide)
  have hstored : encodeStripe (fun _ => 0) (.new (fun _ m => mirror m) pair)
    [7] 4096 = .ok [⟨0, [7], 0⟩, ⟨1, [7], 0⟩] := by decide
  cases hstored.symm.trans hblocks
  exact ⟨hd, hall _ _ hd⟩

end

end Djbod
