import Djbod.Core.ShardRoundTrip
import Djbod.Core.ShardSafety
import Djbod.Object.Small

/-!
# How large shard files are

The length of a shard file is computed in 64 bits: by a node that is asked to write one, and by a coordinator that looks
for devices with room.

* `admitShard` : the parameters of `PutShard` up to the creation of the file, with checked arithmetic;
* `shard_inputs_safe` : which files can be opened, and which parameters sent, without stopping the node;
* `shardFileLengthWrapping` : the length as a release build computes it, which wraps around;
* `space_exact` : for which objects it is the length of the file that is written.
-/

namespace Djbod

open Pieces Buffer Checked Outcome

/-! ## Parameters of a write -/

section Admission

variable (X : Crates) (C : Cluster)

/-- `PutShard` up to the creation of the file: its header and the length to reserve, or why it is refused. `writing`
says that another request is writing the shard. -/
def admitShard (node : NodeId) (d : DeviceId) (kh : KeyHash) (v : VersionId) (index k m blockLength size : ℕ)
    (writing : Bool) : Outcome ErrorDetail (ShardFileHeader × ℕ) :=
  if d ∉ C.opened node then .error (ownDeviceError X C node d)
  else if (C.document.device d).map DeviceEntry.state ≠ some .active then
    .error (withDevice (.new .writeFailed ("device " ++ debugDevice X d ++ " is not active and accepts no new shards"))
    d)
  else
    match Scheme.new k m with
    | .error e => .error (.new .protocolViolation e.message)
    | .ok scheme =>
      if !scheme.contains index then .error (.new .protocolViolation s!"shard {index} is outside scheme {k}+{m}")
      else if writing then
        .error (withDevice { ErrorDetail.new .writeFailed
            "this shard is already being written on this device by another request" with
          version := some v
          shardIndex := some index } d)
      else
        match shardFileLengthChecked scheme blockLength size with
        | .panic p => .panic p
        | .error e => .error (withDevice (deviceErrorDetail (.shardFile e)) d)
        | .ok none => .error (withDevice (deviceErrorDetail (.badObjectSize size)) d)
        | .ok (some length) => .ok (⟨scheme, index, blockLength, kh, v⟩, length)

end Admission

section Length

variable {scheme : Scheme} {B size : ℕ}

theorem shardFileLength_eq (hsize : 0 < size) (hB : 0 < B) : ∃ geometry, shardGeometry scheme B size = some geometry ∧
    0 < geometry.blockCount ∧ shardFileLength scheme B size = some (headerLen + (geometry.blockCount - 1) * B +
      geometry.lastBlockLength + footerFixedLen + 8 * geometry.blockCount + trailerLen) := by
  have hgeo : shardGeometry scheme B size = some ⟨Pieces.divCeil size (scheme.dataShards * B), Pieces.divCeil
      (size - (Pieces.divCeil size (scheme.dataShards * B) - 1) * (scheme.dataShards * B)) scheme.dataShards⟩ :=
      if_neg (by omega)
  refine ⟨_, hgeo, divCeil_pos hsize (Nat.mul_pos scheme.data_pos hB), ?_⟩
  rw [shardFileLength, hgeo]
  rfl

theorem shardFileLengthChecked_eq (hsize : size < limit) :
    shardFileLengthChecked scheme B size =
      if size = 0 ∨ B = 0 then .ok none
      else if scheme.dataShards * B < limit ∧ (shardFileLength scheme B size).getD 0 < limit then .ok
        (shardFileLength scheme B size)
      else .panic .overflow := by
  unfold shardFileLengthChecked
  by_cases hzero : size = 0 ∨ B = 0
  · rw [if_pos hzero, shardGeometryChecked, if_pos hzero]
    rfl
  · rw [if_neg hzero]
    by_cases hstripe : scheme.dataShards * B < limit
    · obtain ⟨geometry, hgeo, hcount, hlength⟩ := @shardFileLength_eq scheme B size (by omega) (by omega)
      rw [shardGeometryChecked_ok hsize hstripe, hgeo, ok_bind, hlength, Option.getD_some]
      dsimp only
      rw [sub_ok (by omega), ok_bind]
      by_cases hfit : headerLen + (geometry.blockCount - 1) * B + geometry.lastBlockLength + footerFixedLen +
          8 * geometry.blockCount + trailerLen < limit
      · rw [if_pos ⟨hstripe, hfit⟩, mul_ok (by omega), ok_bind, add_ok (by omega), ok_bind, add_ok (by omega), ok_bind,
          add_ok (by omega), ok_bind, mul_ok (by omega), ok_bind, add_ok (by omega), ok_bind, add_ok hfit]
        rfl
      · rw [if_neg fun h => hfit h.2]
        exact mul_bind_overflow fun _ => add_bind_overflow fun _ => add_bind_overflow fun _ =>
            add_bind_overflow fun _ =>
          mul_bind_overflow fun _ => add_bind_overflow fun _ => add_bind_overflow fun hlt => absurd hlt hfit
    · rw [if_neg fun h => hstripe h.1, shardGeometryChecked_panic hzero (by omega)]
      rfl

end Length

/-! ## Files and parameters of any kind -/

section Safety

variable (X : Crates) (C : Cluster)

/-- The node does not stop over the file: it is refused, or all its blocks lie inside and can be read. -/
def OpensSafely (xxh3 : Bytes → BlockChecksum) (file : Bytes) : Prop :=
  Outcome.Calm (ShardFileReader.openFile xxh3 file) ∧ ∀ reader, ShardFileReader.openFile xxh3 file = .ok reader →
    reader.Inside

/-- A stripe and a file of these parameters have lengths below `2 ^ 64`, if the request gets as far as that. -/
def ShardBounded (node : NodeId) (d : DeviceId) (index k m blockLength size : ℕ) (writing : Bool) : Prop :=
  ∀ scheme, Scheme.new k m = .ok scheme → d ∈ C.opened node →
    (C.document.device d).map DeviceEntry.state = some .active →
    scheme.contains index = true → writing = false → size ≠ 0 → blockLength ≠ 0 →
    scheme.dataShards * blockLength < limit ∧ (shardFileLength scheme blockLength size).getD 0 < limit

variable {X C}

theorem admitShard_calm_iff {node : NodeId} {d : DeviceId} {kh : KeyHash} {v : VersionId}
    {index k m blockLength size : ℕ} {writing : Bool} (hsize : size < limit) :
    Outcome.Calm (admitShard X C node d kh v index k m blockLength size writing) ↔
    ShardBounded C node d index k m blockLength size writing := by
  unfold admitShard ShardBounded
  by_cases hopened : d ∉ C.opened node
  · rw [if_pos hopened]
    exact iff_of_true (Outcome.Calm.error _) fun _ _ h => absurd h hopened
  rw [if_neg hopened]
  by_cases hactive : (C.document.device d).map DeviceEntry.state ≠ some .active
  · rw [if_pos hactive]
    exact iff_of_true (Outcome.Calm.error _) fun _ _ _ h => absurd h hactive
  rw [if_neg hactive]
  cases hscheme : Scheme.new k m with
  | error e => exact iff_of_true (Outcome.Calm.error _) fun _ h => by cases h
  | ok scheme =>
    simp only [Except.ok.injEq, forall_eq']
    by_cases hindex : scheme.contains index = true
    · rw [hindex]
      simp only [Bool.not_true, Bool.false_eq_true, if_false]
      cases writing with
      | true => exact iff_of_true (Outcome.Calm.error _) fun _ _ _ h => by cases h
      | false =>
        simp only [Bool.false_eq_true, if_false]
        rw [shardFileLengthChecked_eq hsize]
        by_cases hzero : size = 0 ∨ blockLength = 0
        · rw [if_pos hzero]
          exact iff_of_true (Outcome.Calm.error _) fun _ _ _ _ hs hb => absurd hzero (by omega)
        · rw [if_neg hzero]
          by_cases hfit : scheme.dataShards * blockLength < limit ∧
            (shardFileLength scheme blockLength size).getD 0 < limit
          · rw [if_pos hfit]
            refine iff_of_true ?_ fun _ _ _ _ _ _ => hfit
            cases shardFileLength scheme blockLength size with
            | none => exact Outcome.Calm.error _
            | some length => exact Outcome.Calm.ok _
          · rw [if_neg hfit]
            refine iff_of_false (fun h => h _ rfl) fun h => hfit (h ?_ ?_ trivial trivial ?_ ?_)
            · exact not_not.mp hopened
            · exact not_not.mp hactive
            · omega
            · omega
    · rw [Bool.eq_false_iff.mpr hindex]
      exact iff_of_true (Outcome.Calm.error _) fun _ _ h => by cases h

/-- **Which files and requests are safe.** A node survives a file exactly when the numbers in its header and footer
place its blocks and a stripe below `2 ^ 64`, and a `PutShard` exactly when a stripe and the file are below. -/
theorem shard_inputs_safe (X : Crates) (C : Cluster) :
    (∀ file : Bytes, file.length < limit → (OpensSafely X.xxh3 file ↔ ShardFileReader.Bounded X.xxh3 file)) ∧
      ∀ node d kh v index k m blockLength size writing, size < limit →
        (Outcome.Calm (admitShard X C node d kh v index k m blockLength size writing) ↔
        ShardBounded C node d index k m blockLength size writing) := by
  refine ⟨fun file hfile => ?_, fun node d kh v index k m blockLength size writing hsize => admitShard_calm_iff hsize⟩
  rw [← ShardFileReader.openFile_calm_iff hfile]
  exact and_iff_left fun reader hopen => ShardFileReader.openFile_inside hfile hopen

/-- A file of one byte in one block, its block length `B`. -/
def oneByteFile (scheme : Scheme) (B : ℕ) : ShardFile where
  header := ⟨scheme, 0, B, 0, 0⟩
  footer := ⟨1, 1, 1, 0, [0]⟩
  blocks := [[7]]
  checksums_length := (rfl : [(0 : BlockChecksum)].length = 1)
  blocks_length := (rfl : [[(7 : UInt8)]].length = 1)

theorem oneByteFile_sound (scheme : Scheme) {B : ℕ} (hpos : 0 < B) (hB : B < limit) : (oneByteFile scheme B).Sound := by
  have hgeo := @shardGeometry_of_stripes scheme B 0 1 Nat.one_pos (Nat.mul_pos scheme.data_pos hpos)
  rw [Nat.zero_mul, Nat.zero_add, divCeil_eq (c := 0) scheme.data_pos (by omega)
    (by have := scheme.data_pos; omega)] at hgeo
  refine ⟨⟨?_, hB⟩, ⟨?_, ?_, ?_⟩, rfl, hgeo⟩
  · exact scheme.data_pos.trans_le scheme.data_le_total
  · simp [oneByteFile]
  · simp [oneByteFile]
    omega
  · simp [oneByteFile]

theorem oneByteFile_parts (xxh3 : Bytes → BlockChecksum) (scheme : Scheme) {B : ℕ} (hpos : 0 < B) (hB : B < limit) :
    ((oneByteFile scheme B).encode xxh3).length < limit ∧
    ShardFileReader.readParts xxh3 ((oneByteFile scheme B).encode xxh3) =
      .ok ⟨⟨scheme, 0, B, 0, 0⟩, ⟨1, 1, 1, 0, [0]⟩, headerLen + 1⟩ := by
  have hsound := oneByteFile_sound scheme hpos hB
  have hlen : ((oneByteFile scheme B).encode xxh3).length < limit := by
    rw [hsound.length_eq xxh3]
    simp only [ShardFileOutput.footerOffset, ShardFileFooter.encodedLength, oneByteFile, Nat.sub_self, Nat.zero_mul]
    decide
  refine ⟨hlen, (hsound.readParts ⟨(by decide : 1 < limit), hlen⟩).trans ?_⟩
  simp [ShardFileOutput.footerOffset, oneByteFile]

/-- A file as the program writes it opens safely. -/
theorem shard_inputs_safe_byte : ShardFileReader.Bounded smallCrates.xxh3
    ((oneByteFile pair 65536).encode smallCrates.xxh3) ∧
    OpensSafely smallCrates.xxh3 ((oneByteFile pair 65536).encode smallCrates.xxh3) := by
  obtain ⟨hlen, hparts⟩ := oneByteFile_parts smallCrates.xxh3 pair (show 0 < 65536 by decide) (by decide)
  have hbounded : ShardFileReader.Bounded smallCrates.xxh3 ((oneByteFile pair 65536).encode smallCrates.xxh3) := by
    intro parts hread _ _
    cases hparts.symm.trans hread
    decide
  exact ⟨hbounded, ((shard_inputs_safe smallCrates (small 1 [.active, .active])).1 _ hlen).mpr hbounded⟩

/-- A file of one block that claims blocks of `2 ^ 63` bytes, its checksums right, stops the node that opens it, and so
does a request to write one. -/
theorem hostile_shard_stops : ¬ OpensSafely smallCrates.xxh3 ((oneByteFile double (2 ^ 63)).encode smallCrates.xxh3) ∧
    admitShard smallCrates (small 1 [.active, .active]) 0 0 0 1 0 2 0 (2 ^ 63) 1 false = .panic .overflow := by
  refine ⟨fun h => ?_, by decide⟩
  obtain ⟨hlen, hparts⟩ := oneByteFile_parts smallCrates.xxh3 double (show 0 < 2 ^ 63 by decide) (by decide)
  have hbounded := (ShardFileReader.openFile_calm_iff hlen).mp h.1
  exact absurd ((hbounded _ hparts (by decide) (by decide)).2 (by decide) (by decide)) (by decide)

end Safety

/-! ## Room for an object -/

section Room

def wrap (n : ℕ) : ℕ := n % limit

/-- `shardGeometry` as a release build computes it. -/
def shardGeometryWrapping (scheme : Scheme) (blockLength objectSize : ℕ) : Option ShardGeometry :=
  if objectSize = 0 ∨ blockLength = 0 then none
  else
    let k := scheme.dataShards
    let stripeBytes := wrap (k * blockLength)
    let blockCount := Pieces.divCeil objectSize stripeBytes
    let lastStripeBytes := wrap (objectSize + limit - wrap ((blockCount - 1) * stripeBytes))
    some ⟨blockCount, Pieces.divCeil lastStripeBytes k⟩

/-- `shardFileLength` as a release build computes it: what exceeds 64 bits is lost. -/
def shardFileLengthWrapping (scheme : Scheme) (blockLength objectSize : ℕ) : Option ℕ :=
  (shardGeometryWrapping scheme blockLength objectSize).map fun geometry =>
    wrap (wrap (wrap (wrap (wrap (headerLen + wrap ((geometry.blockCount - 1) * blockLength)) +
    geometry.lastBlockLength) +
      footerFixedLen) + wrap (8 * geometry.blockCount)) + trailerLen)

/-- A shard file that the writer produces for an object of `size` bytes. -/
def Writes (X : Crates) (scheme : Scheme) (B size : ℕ) (file : Bytes) : Prop :=
  ∃ header blocks checksum footer, header.scheme = scheme ∧ header.blockLength = B ∧
    writeFile X.xxh3 header blocks size checksum = .ok (footer, file)

/-- The room a coordinator asks for is the length of the files that are written, and the devices it chooses have that
much. -/
def RoomExact (X : Crates) (document : ClusterDocument) (size : ℕ) : Prop :=
  ∀ scheme, document.scheme = .ok scheme → ∃ shardBytes, shardFileLengthWrapping scheme document.blockSize size =
    some shardBytes ∧ ∀ file, Writes X scheme document.blockSize size file → file.length = shardBytes ∧
      ∀ statuses chosen, place X scheme shardBytes statuses = .ok chosen → ∀ d ∈ chosen, file.length ≤ d.freeBytes

variable {X : Crates} {scheme : Scheme} {B size : ℕ}

theorem exists_stripes (hsize : 0 < size) (hB : 0 < B) :
    ∃ c s, 0 < s ∧ s ≤ scheme.dataShards * B ∧ size = c * (scheme.dataShards * B) + s := by
  have hS : 0 < scheme.dataShards * B := Nat.mul_pos scheme.data_pos hB
  refine ⟨(size - 1) / (scheme.dataShards * B), (size - 1) % (scheme.dataShards * B) + 1, by omega, Nat.mod_lt _ hS, ?_⟩
  have := Nat.div_add_mod (size - 1) (scheme.dataShards * B)
  rw [Nat.mul_comm] at this
  omega

theorem exists_written (X : Crates) (scheme : Scheme) (hsize : 0 < size) (hB : 0 < B) :
    ∃ file, Writes X scheme B size file := by
  obtain ⟨c, s, hpos, hle, rfl⟩ := @exists_stripes scheme B size hsize hB
  set lens := List.replicate c B ++ [Pieces.divCeil s scheme.dataShards] with hlens
  set blocks : List ShardBlock := lens.map fun n => ⟨0, List.replicate n 0, X.xxh3 (List.replicate n 0)⟩ with hblocks
  have hbytes : (blocks.map ShardBlock.bytes).map List.length = lens := by
    rw [hblocks, List.map_map, List.map_map]
    refine (List.map_congr_left fun n _ => ?_).trans (List.map_id lens)
    simp
  have hcount : blocks.length = c + 1 := by simp [hblocks, hlens]
  have hne : blocks.map ShardBlock.bytes ≠ [] := by
    rw [Ne, List.map_eq_nil_iff]
    intro hnil
    rw [hnil] at hcount
    cases hcount
  have hacc : Acceptable X.xxh3 ⟨scheme, 0, B, 0, 0⟩ blocks (c * (scheme.dataShards * B) + s) := by
    refine ⟨fun b hb => ?_, (fitBlocks_iff hne).mpr ⟨_, divCeil_pos hpos scheme.data_pos,
      divCeil_le scheme.data_pos hle, ?_⟩, ?_⟩
    · obtain ⟨n, _, rfl⟩ := List.mem_map.mp hb
      exact ⟨rfl, rfl⟩
    · rw [hbytes, List.length_map, hcount, Nat.add_sub_cancel]
    · have hlast := congrArg List.getLast? hbytes
      rw [List.getLast?_map, hlens, List.getLast?_concat, Option.map_eq_some_iff] at hlast
      obtain ⟨last, hl, hlen⟩ := hlast
      exact ⟨last, hl, by rw [hcount, hlen]; exact shardGeometry_of_stripes hpos hle⟩
  obtain ⟨file, hfile⟩ := (@writeShard_iff X.xxh3 ⟨scheme, 0, B, 0, 0⟩ blocks 0 _
    (scheme.data_pos.trans_le scheme.data_le_total)).mpr hacc
  exact ⟨_, _, _, _, _, rfl, rfl, by rw [writeFile_eq, hfile]; rfl⟩

theorem Writes.length {file : Bytes} (h : Writes X scheme B size file) (hB : B < limit) :
    shardFileLength scheme B size = some file.length := by
  obtain ⟨header, blocks, checksum, footer, rfl, rfl, hwrite⟩ := h
  rw [writeFile_eq] at hwrite
  cases hw : writeShard X.xxh3 header blocks size checksum with
  | error e =>
    rw [hw] at hwrite
    cases hwrite
  | ok f =>
    rw [hw] at hwrite
    cases hwrite
    obtain ⟨-, -, hhead, -, -, hsize, -⟩ := writeShard_eq_ok hw
    have := (writeShard_sound hB hw).encode_length X.xxh3
    rwa [hhead, hsize] at this

theorem shardFileLength_stripes {c s : ℕ} (hpos : 0 < s) (hle : s ≤ scheme.dataShards * B) :
    shardFileLength scheme B (c * (scheme.dataShards * B) + s) =
      some (c * B + Pieces.divCeil s scheme.dataShards + 8 * (c + 1) + 4152) := by
  rw [shardFileLength, shardGeometry_of_stripes hpos hle, Option.map_some]
  simp only [headerLen, footerFixedLen, trailerLen, Nat.add_sub_cancel]
  congr 1
  omega

/-- A release build computes the exact length up to what 64 bits lose, as long as a stripe fits. -/
theorem shardFileLengthWrapping_eq (hsize : 0 < size) (hlt : size < limit) (hB : 0 < B)
    (hstripe : scheme.dataShards * B < limit) : shardFileLengthWrapping scheme B size =
    (shardFileLength scheme B size).map wrap := by
  have hS : 0 < scheme.dataShards * B := Nat.mul_pos scheme.data_pos hB
  have hcount := divCeil_pos hsize hS
  have hfull := mul_lt_of_lt_divCeil hS (Nat.sub_one_lt hcount.ne')
  have hgeo : shardGeometryWrapping scheme B size = shardGeometry scheme B size := by
    unfold shardGeometryWrapping shardGeometry
    rw [if_neg (by omega), if_neg (by omega)]
    dsimp only
    rw [show wrap (scheme.dataShards * B) = scheme.dataShards * B from Nat.mod_eq_of_lt hstripe,
      show wrap ((Pieces.divCeil size (scheme.dataShards * B) - 1) * (scheme.dataShards * B)) = _ from Nat.mod_eq_of_lt
        (hfull.trans hlt),
      Nat.sub_add_comm hfull.le, wrap, Nat.add_mod_right, Nat.mod_eq_of_lt (by omega)]
  obtain ⟨geometry, hg, -⟩ := @shardFileLength_eq scheme B size hsize hB
  rw [shardFileLengthWrapping, hgeo, shardFileLength, hg, Option.map_some, Option.map_some, Option.map_some]
  simp only [wrap, limit]
  congr 1
  omega

/-- With two data shards or more a shard file is far below `2 ^ 64`, and with one it is the object with its
checksums. -/
theorem shardFileLength_lt_iff (hsize : 0 < size) (hlt : size < limit) (hmin : minBlockSizeBytes ≤ B)
    (hmax : B ≤ maxBlockSizeBytes) : (shardFileLength scheme B size).getD 0 < limit ↔ 2 ≤ scheme.dataShards ∨
    size + 8 * Pieces.divCeil size B + 4152 < limit := by
  simp only [minBlockSizeBytes, maxBlockSizeBytes] at hmin hmax
  obtain ⟨c, s, hpos, hle, rfl⟩ := @exists_stripes scheme B size hsize (by omega)
  rw [shardFileLength_stripes hpos hle, Option.getD_some]
  by_cases hk : 2 ≤ scheme.dataShards
  · refine iff_of_true ?_ (.inl hk)
    have hlast := divCeil_le scheme.data_pos hle
    have hhalf : c * (2 * B) ≤ c * (scheme.dataShards * B) := Nat.mul_le_mul_left c (Nat.mul_le_mul_right B hk)
    have hmany : c * (2 * 65536) ≤ c * (2 * B) := Nat.mul_le_mul_left c (Nat.mul_le_mul_left 2 hmin)
    have hsplit : c * (2 * B) = 2 * (c * B) := by ring
    simp only [limit] at hlt ⊢
    omega
  · have hone : scheme.dataShards = 1 := by
      have := scheme.data_pos
      omega
    rw [hone, Nat.one_mul] at hle ⊢
    have hlast : Pieces.divCeil s 1 = s := by simp [Pieces.divCeil]
    have hcount : Pieces.divCeil (c * B + s) B = c + 1 := divCeil_eq (by omega) (by omega) (by rw [Nat.add_mul]; omega)
    rw [hlast, hcount]
    constructor
    · exact fun h => .inr (by omega)
    · exact fun h => h.elim (fun h2 => absurd h2 (by decide)) (by omega)

/-- **Room is computed exactly** for every object of two data shards or more, and for one of a single data shard exactly
when object and checksums together stay below `2 ^ 64`. -/
theorem space_exact {text : TextRules} {document : ClusterDocument} (hvalid : document.validate text = .ok ())
    (hlimit : document.maxObjectBytes < limit) (hsize : 0 < size) (hmax : size ≤ document.maxObjectBytes) :
    RoomExact X document size ↔ 2 ≤ document.k ∨ size + 8 * Pieces.divCeil size document.blockSize + 4152 < limit := by
  have hlimits := (ClusterDocument.validate_checks hvalid).1
  obtain ⟨scheme, hscheme⟩ := hlimits.scheme
  have hmin := hlimits.blockSize_ge
  have hmaxB := hlimits.blockSize_le
  have hB : 0 < document.blockSize := lt_of_lt_of_le (by decide) hmin
  have hBlt : document.blockSize < limit := lt_of_le_of_lt hmaxB (by decide)
  have hstripe : scheme.dataShards * document.blockSize < limit :=
    lt_of_le_of_lt (Nat.mul_le_mul scheme.data_le hmaxB) (by decide)
  have hwrap := shardFileLengthWrapping_eq hsize (lt_of_le_of_lt hmax hlimit) hB hstripe
  rw [← (Scheme.new_eq_ok hscheme).1, ← shardFileLength_lt_iff hsize (lt_of_le_of_lt hmax hlimit) hmin hmaxB]
  constructor
  · intro h
    obtain ⟨shardBytes, hbytes, hall⟩ := h scheme hscheme
    obtain ⟨file, hfile⟩ := exists_written X scheme hsize hB
    rw [hwrap, hfile.length hBlt, Option.map_some, Option.some.injEq] at hbytes
    rw [hfile.length hBlt, Option.getD_some, (hall file hfile).1, ← hbytes]
    exact Nat.mod_lt _ (by decide)
  · intro hfit scheme' hscheme'
    cases hscheme.symm.trans hscheme'
    obtain ⟨file₀, hfile₀⟩ := exists_written X scheme hsize hB
    rw [hfile₀.length hBlt, Option.getD_some] at hfit
    rw [hfile₀.length hBlt, Option.map_some, wrap, Nat.mod_eq_of_lt hfit] at hwrap
    refine ⟨_, hwrap, fun file hfile => ?_⟩
    have hlen : file.length = file₀.length := Option.some.inj ((hfile.length hBlt).symm.trans (hfile₀.length hBlt))
    refine ⟨hlen, fun statuses chosen hplace d hd => ?_⟩
    unfold place at hplace
    dsimp only at hplace
    split_ifs at hplace with hfew
    cases hplace
    have hmem := (List.perm_insertionSort _ _).subset (List.mem_of_mem_take hd)
    have hroom := (List.mem_filter.mp hmem).2
    simp only [Bool.and_eq_true, decide_eq_true_eq] at hroom
    rw [hlen]
    exact hroom.2

def boundlessDocument (k : ℕ) : ClusterDocument :=
  { smallDocument 0 [.active, .active] with k := k, maxObjectBytes := 2 ^ 64 - 1 }

theorem boundlessDocument_valid : ∀ k ∈ [1, 2], (boundlessDocument k).validate plainText = .ok () := by decide +kernel

/-- The largest object over two data shards. -/
theorem space_exact_double : (boundlessDocument 2).validate plainText = .ok () ∧
    RoomExact smallCrates (boundlessDocument 2) (2 ^ 64 - 1) :=
  have hvalid := boundlessDocument_valid 2 (by decide)
  ⟨hvalid, (space_exact hvalid (by decide) (by decide) (by decide)).mpr (.inl (by decide))⟩

/-- The largest object over one data shard: the length wraps around, and devices are chosen that have two petabytes
free. -/
theorem space_wraps : (boundlessDocument 1).validate plainText = .ok () ∧
    ¬ RoomExact smallCrates (boundlessDocument 1) (2 ^ 64 - 1) := by
  refine ⟨boundlessDocument_valid 1 (by decide), fun h => ?_⟩
  obtain ⟨shardBytes, hbytes, hall⟩ := h ⟨1, 0, by decide, by decide, by decide, by decide⟩ rfl
  obtain ⟨file, hfile⟩ := exists_written smallCrates ⟨1, 0, by decide, by decide, by decide, by decide⟩
    (show 0 < 2 ^ 64 - 1 by decide) (show 0 < 65536 by decide)
  have hlen := hfile.length (by decide)
  have heq := (hall file hfile).1
  rw [show shardFileLengthWrapping _ (boundlessDocument 1).blockSize
    (2 ^ 64 - 1) = some 2251799813689399 by decide +kernel, Option.some.injEq] at hbytes
  rw [heq, ← hbytes] at hlen
  exact absurd hlen (by decide +kernel)

end Room

end Djbod
