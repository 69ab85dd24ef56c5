import Djbod.Node.Put

/-!
# Reading an object

* `openShards` : a block stream for each shard; one that cannot be opened is named instead;
* `readStripeBlocks` : one block from every stream;
* `getStripe` : read, decode, open the parity shards when a block is damaged, decode again, deliver;
* `getObject` : the record, then the frames, then how the stream ended.
-/

namespace Djbod

open Sched Pieces

/-- A shard that could not be opened, why, and from which stripe it was wanted. -/
structure UnreadableShard where
  index : ℕ
  device : DeviceId
  fault : FaultKind
  firstStripe : ℕ
  deriving DecidableEq, Repr

/-- An open block stream: the file, the next block and the end of the blocks asked for. -/
structure ShardSource where
  index : ℕ
  device : DeviceId
  owner : NodeId
  file : ShardFile
  next : ℕ
  stop : ℕ
  deriving DecidableEq

inductive StreamItem where
  | data (frame : DataFrame)
  | ended (error : Option ErrorDetail)
  deriving DecidableEq

/-- What a read rebuilt on the way. -/
structure Reconstruction where
  shardIndex : ℕ
  device : DeviceId
  fault : FaultKind
  firstStripe : ℕ
  stripes : ℕ
  deriving DecidableEq, Repr

structure StreamEnd where
  reconstructed : List Reconstruction
  missingRecords : List MissingRecordCopy
  deriving DecidableEq

/-- The answer to a read: the record, the frames behind it, and how the stream ended. -/
structure GetAnswer where
  record : MetadataRecord
  frames : List DataFrame
  ended : Except ErrorDetail StreamEnd

structure Download where
  sources : List ShardSource
  unreadable : List UnreadableShard
  parityOpen : Bool
  reconstructed : List Reconstruction
  hashed : Bytes
  delivered : ℕ
  frames : List DataFrame

section

variable (X : Crates) (C : Cluster)

def FaultKind.debug : FaultKind → String
  | .missing => "Missing"
  | .unreadable reason => "Unreadable \x7b reason: " ++ X.debugString reason ++ " \x7d"
  | .unavailable reason => "Unavailable \x7b reason: " ++ X.debugString reason ++ " \x7d"
  | .wrongLength expected actual =>
    "WrongLength \x7b expected: " ++ toString expected ++ ", actual: " ++ toString actual ++ " \x7d"
  | .checksumMismatch stored computed =>
    "ChecksumMismatch \x7b stored: " ++ debugChecksum stored ++ ", computed: " ++ debugChecksum computed ++ " \x7d"

def stripeDetail (key : String) (record : MetadataRecord) (stripe : ℕ) (detail : ErrorDetail) : ErrorDetail :=
  { detail with key := some key, version := some record.version, stripe := some stripe }

/-! ## Streams of blocks -/

def openShardSource (record : MetadataRecord) (key : String) (index firstBlock blockCount : ℕ) : NodeProc ShardSource :=
  match record.deviceFor index with
  | none => throw (.new .internal "validated record lists every index")
  | some device =>
    match C.document.device device with
    | none => throw
        { ErrorDetail.new .deviceUnavailable (showDevice X device ++ " is not in the cluster document") with
          device := some device, key := some key, version := some record.version, shardIndex := some index }
    | some entry => do
      connectTo X C entry.node
      let file ← request X entry.node
        (getShard X C entry.node device record.keyHash record.version index firstBlock blockCount)
      pure ⟨index, device, entry.node, file, firstBlock, firstBlock + blockCount⟩

/-- How a failure to open a shard counts; a node that answers wrongly fails the read. -/
def openFault (detail : ErrorDetail) : Except ErrorDetail FaultKind :=
  match detail.code with
  | .notFound => .ok .missing
  | .deviceUnavailable => .ok (.unavailable detail.message)
  | .nodeUnreachable => .ok (.unavailable detail.message)
  | .protocolViolation => .error detail
  | .internal => .error detail
  | _ => .ok (.unreadable detail.message)

/-- Open shards; those that cannot be opened are returned separately. -/
def openShards (record : MetadataRecord) (key : String) (firstBlock blockCount : ℕ) :
    List ℕ → NodeProc (List ShardSource × List UnreadableShard)
  | [] => pure ([], [])
  | index :: rest => do
    let opened ← (ExceptT.lift (openShardSource X C record key index firstBlock blockCount).run :
      NodeProc (Except ErrorDetail ShardSource))
    match opened with
    | .ok source => do
      let (sources, unreadable) ← openShards record key firstBlock blockCount rest
      pure (source :: sources, unreadable)
    | .error detail =>
      match openFault detail with
      | .error detail => throw detail
      | .ok fault => do
        let (sources, unreadable) ← openShards record key firstBlock blockCount rest
        pure (sources, ⟨index, (record.deviceFor index).getD 0, fault, firstBlock⟩ :: unreadable)

def readStreamItem (record : MetadataRecord) (source : ShardSource) : NodeProc StreamItem :=
  request X source.owner <|
    if source.next < source.stop then ExceptT.mk do
      match ← (Task.perform (Op.readBlock source.file source.next) : Task Op Resp (Except DeviceError ShardBlock)) with
      | .ok block => pure (.ok (.data ⟨source.next, block.checksum, block.bytes⟩))
      | .error e => pure (.ok (.ended (some
          { deviceErrorDetail e with
            device := some source.device, version := some record.version, shardIndex := some source.index
            stripe := some source.next })))
    else pure (.ended none)

def readStripeBlocks (record : MetadataRecord) (key : String) (stripe : ℕ) :
    List ShardSource → NodeProc (List ShardBlock × List ShardSource)
  | [] => pure ([], [])
  | source :: rest => do
    let context (detail : ErrorDetail) : ErrorDetail :=
      { stripeDetail key record stripe detail with
        node := some source.owner, device := some source.device, shardIndex := some source.index }
    let item ← readStreamItem X record source
    match item with
    | .ended error => throw (context (error.getD (.new .protocolViolation "node ended its stream early")))
    | .data frame =>
      if frame.sequence ≠ stripe then
        throw (context (.new .protocolViolation s!"node sent block {frame.sequence} when {stripe} was expected"))
      else do
        let (blocks, sources) ← readStripeBlocks record key stripe rest
        pure (⟨source.index, frame.bytes, frame.checksum⟩ :: blocks, { source with next := source.next + 1 } :: sources)

/-- More than `m` shards cannot be read: the first one's own code. -/
def tooManyUnreadable (key : String) (record : MetadataRecord) (unreadable : List UnreadableShard) : ErrorDetail :=
  let code : ErrorCode :=
    match unreadable.head?.map UnreadableShard.fault with
    | some .missing => .notFound
    | some (.unavailable _) => .deviceUnavailable
    | _ => .blockChecksumMismatch
  let list := unreadable.map fun e => s!"shard {e.index} on " ++ showDevice X e.device ++ ": " ++ e.fault.debug X
  { ErrorDetail.new code
    (s!"{unreadable.length} of {record.k + record.m} shards cannot be read and at most {record.m} may be: " ++
      "; ".intercalate list) with
    device := unreadable.head?.map UnreadableShard.device, key := some key, version := some record.version
    shardIndex := unreadable.head?.map UnreadableShard.index }

/-! ## Stripe after stripe -/

/-- The frames of a stripe: at most one block long, numbered on. -/
def framesOf (blockSize sequence : ℕ) (data : Bytes) : List DataFrame :=
  (pieces blockSize data).mapIdx fun i chunk => ⟨sequence + i, X.xxh3 chunk, chunk⟩

/-- What a read reports of the damaged blocks of a stripe; a shard that was never opened is reported once,
at the end. -/
def noteFaults (record : MetadataRecord) (unreadable : List UnreadableShard) (stripe : ℕ) (faults : List BlockFault) :
    List Reconstruction :=
  (faults.filter fun fault => !unreadable.any fun u => u.index == fault.index).map fun fault =>
    ⟨fault.index, (record.deviceFor fault.index).getD 0, fault.kind, stripe, 1⟩

def unrecoverableDetail (record : MetadataRecord) (key : String) (stripe usable needed : ℕ) (faults : List BlockFault) :
    ErrorDetail :=
  { stripeDetail key record stripe (.new .blockChecksumMismatch
      (counted faults.length "damaged block" "damaged blocks" ++
        s!" in stripe {stripe}, {usable} usable of {needed} needed; first: " ++
        ((faults.head?.map fun f => f.kind.debug X).getD ""))) with
    device := faults.head?.bind fun f => record.deviceFor f.index
    shardIndex := faults.head?.map BlockFault.index }

/-- What a stripe that cannot be judged at all ends with. -/
def stripeError (key : String) (record : MetadataRecord) (stripe : ℕ) : ErrorDetail :=
  stripeDetail key record stripe (.new .internal "stripe error")

/-- Open the parity shards from a stripe on and decode it again with their blocks. -/
def addParity (code : ReedSolomonCode) (record : MetadataRecord) (key : String) (blockCount stripe stripeLen : ℕ)
    (received : List ShardBlock) (download : Download) : NodeProc (DecodedStripe × Download) := do
  let parityIndices := code.scheme.shardIndices.filter fun i => i ∉ code.scheme.dataShardIndices
  let (parity, missing) ← openShards X C record key stripe (blockCount - stripe) parityIndices
  let (more, parity) ← readStripeBlocks X record key stripe parity
  let sources := download.sources ++ parity
  match decodeStripe X.xxh3 code (sources.map ShardSource.index) (received ++ more) stripeLen with
  | .error _ => throw (stripeError key record stripe)
  | .ok decoded => pure (decoded,
      { download with sources := sources, unreadable := download.unreadable ++ missing, parityOpen := true })

/-- The stripe's blocks, and the parity shards as well if they are not open yet and a block is damaged. -/
def decodeWithParity (code : ReedSolomonCode) (record : MetadataRecord) (key : String) (blockCount stripe stripeLen : ℕ)
    (download : Download) : NodeProc (DecodedStripe × Download) := do
  let (received, sources) ← readStripeBlocks X record key stripe download.sources
  let download := { download with sources := sources }
  match decodeStripe X.xxh3 code (sources.map ShardSource.index) received stripeLen with
  | .error _ => throw (stripeError key record stripe)
  | .ok (.intact data) => pure (.intact data, download)
  | .ok decoded =>
    if download.parityOpen then pure (decoded, download)
    else addParity X C code record key blockCount stripe stripeLen received download

/-- One stripe: read it, decode it and deliver its bytes. -/
def getStripe (code : ReedSolomonCode) (record : MetadataRecord) (key : String) (blockCount stripe : ℕ)
    (download : Download) : NodeProc Download := do
  let stripeSize := code.scheme.dataShards * record.blockSize
  let stripeLen := min (record.size - stripe * stripeSize) stripeSize
  let (decoded, download) ← decodeWithParity X C code record key blockCount stripe stripeLen download
  let deliver (data : Bytes) (notes : List Reconstruction) : Download :=
    { download with
      reconstructed := download.reconstructed ++ notes
      hashed := download.hashed ++ data
      delivered := download.delivered + data.length
      frames := download.frames ++ framesOf X record.blockSize download.frames.length data }
  match decoded with
  | .intact data => pure (deliver data [])
  | .repaired data faults => pure (deliver data (noteFaults record download.unreadable stripe faults))
  | .unrecoverable usable needed faults => throw (unrecoverableDetail X record key stripe usable needed faults)

/-- The stripes from one on; a failure ends the stream behind what was delivered. -/
def getStripes (code : ReedSolomonCode) (record : MetadataRecord) (key : String) (blockCount : ℕ) :
    ℕ → ℕ → Download → Task Op Resp (Download × Option ErrorDetail)
  | 0, _, download => pure (download, none)
  | remaining + 1, stripe, download => do
    match ← (getStripe X C code record key blockCount stripe download).run with
    | .error detail => pure (download, some detail)
    | .ok download => getStripes code record key blockCount remaining (stripe + 1) download

def endSources (record : MetadataRecord) (key : String) : List ShardSource → NodeProc Unit
  | [] => pure ()
  | source :: rest => do
    let item ← (ExceptT.lift (readStreamItem X record source).run : NodeProc (Except ErrorDetail StreamItem))
    match item with
    | .ok (.ended none) => endSources record key rest
    | _ =>
      throw ({ ErrorDetail.new .protocolViolation "node did not end its stream cleanly" with
        node := some source.owner, device := some source.device, key := some key, version := some record.version
        shardIndex := some source.index } : ErrorDetail)

def checkObject (record : MetadataRecord) (key : String) (download : Download) : Except ErrorDetail Unit :=
  let computed := X.xxh3 download.hashed
  if download.delivered ≠ record.size ∨ computed ≠ record.objectChecksum then
    .error
      { ErrorDetail.new .objectChecksumMismatch
          (s!"delivered {download.delivered} bytes with checksum " ++ debugChecksum computed ++
          s!"; record says {record.size} bytes, " ++ debugChecksum record.objectChecksum) with
        key := some key, version := some record.version }
  else .ok ()

/-- The shards a read begins with: the data shards, and parity at once when one cannot be opened. -/
def openSources (scheme : Scheme) (record : MetadataRecord) (key : String) (blockCount : ℕ) : NodeProc Download := do
  let parityIndices := scheme.shardIndices.filter fun i => i ∉ scheme.dataShardIndices
  let (sources, unreadable) ← openShards X C record key 0 blockCount scheme.dataShardIndices
  if unreadable.isEmpty then pure ⟨sources, [], false, [], [], 0, []⟩
  else do
    let (more, missing) ← openShards X C record key 0 blockCount parityIndices
    pure ⟨sources ++ more, unreadable ++ missing, true, [], [], 0, []⟩

/-- Open what a read begins with; more than `m` shards that cannot be opened is the refusal. -/
def openForRead (scheme : Scheme) (record : MetadataRecord) (key : String) (blockCount : ℕ) : NodeProc Download :=
  if record.size = 0 then pure ⟨[], [], false, [], [], 0, []⟩
  else do
    let opened ← openSources X C scheme record key blockCount
    if opened.unreadable.length > scheme.parityShards then throw (tooManyUnreadable X key record opened.unreadable)
    else pure opened

/-- The stream behind the answer: the frames, the check of the whole object and what was rebuilt. -/
def streamObject (scheme : Scheme) (record : MetadataRecord) (key : String) (missingRecords : List MissingRecordCopy)
    (blockCount : ℕ) (opened : Download) : Task Op Resp GetAnswer := do
  let code := ReedSolomonCode.new X.reedSolomon scheme
  let stripeSize := scheme.dataShards * record.blockSize
  let stripeCount := divCeil record.size (max stripeSize 1)
  let (download, failure) ← getStripes X C code record key blockCount stripeCount 0 opened
  match failure with
  | some detail => pure ⟨record, download.frames, .error detail⟩
  | none => do
    let ended ← (endSources X record key download.sources).run
    let rebuilt := download.unreadable.map fun shard =>
      (⟨shard.index, shard.device, shard.fault, shard.firstStripe, stripeCount - shard.firstStripe⟩ : Reconstruction)
    let status : Except ErrorDetail StreamEnd := do
      ended
      checkObject X record key download
      pure ⟨download.reconstructed ++ rebuilt, missingRecords⟩
    pure ⟨record, download.frames, status⟩

def getObject (fuel : ℕ) (key : String) : Coord GetAnswer := do
  let (record, missingRecords) ← newestReadableVersion X C fuel key
  let scheme ← require (record.scheme.mapError fun e => .new .recordsInconsistent e.message)
  let geometry ← require
    (match shardGeometry scheme record.blockSize (max record.size 1) with
      | some geometry => .ok geometry
      | none => .error (.new .recordsInconsistent "record has an impossible size"))
  let opened ← callNode (openForRead X C scheme record key geometry.blockCount)
  ExceptT.lift (Prog.call (streamObject X C scheme record key missingRecords geometry.blockCount opened))

end

end Djbod
