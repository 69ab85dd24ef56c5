import Djbod.Node.Lookup

/-!
# Storing and deleting an object

* `deleteObject`, `deleteVersionEverywhere` : every version, newest first, device after device;
* `preparePut` : the checks, the placement and a writer for each chosen device;
* `streamBodyToWriters` : the client's frames cut into stripes, each stripe encoded and sent;
* `writeRecords`, `abortShardWriters` : the record on every device, and the clean-up after a failure;
* `putObject` : all of it, and then the removal of the other versions.
-/

namespace Djbod

open Sched

/-- A check that costs no operation. -/
def require {α : Type} (check : Except ErrorDetail α) : Coord α := ExceptT.mk (.ret check)

/-- Go on with the outcome of a program, failed or not. -/
def attempt {α : Type} (x : Coord α) : Coord (Except ErrorDetail α) := ExceptT.lift x.run

/-- One message of a stream: a part of the body with its number and checksum. -/
structure DataFrame where
  sequence : ℕ
  checksum : BlockChecksum
  bytes : Bytes
  deriving DecidableEq, Repr

/-- What the client sends behind a `PutObject` request. -/
inductive BodyMessage where
  | data (frame : DataFrame)
  | endOfStream (error : Option String)
  | other (description : String)
  deriving DecidableEq, Repr

structure PutParams where
  key : String
  size : ℕ
  contentType : Option String
  userMetadata : List (String × String)
  deriving DecidableEq

structure UnavailableDevice where
  device : DeviceId
  node : NodeId
  deriving DecidableEq, Repr

/-- A shard being written on a device, with the blocks streamed to it. -/
structure ShardWriter where
  index : ℕ
  device : DeviceId
  owner : NodeId
  blocks : List ShardBlock
  deriving DecidableEq

structure PreparedPut where
  scheme : Scheme
  record : MetadataRecord
  writers : List ShardWriter
  unavailable : List UnavailableDevice

structure PutAnswer where
  version : VersionId
  unavailable : List UnavailableDevice
  deriving DecidableEq

structure Upload where
  writers : List ShardWriter
  hashed : Bytes
  received : ℕ
  expectedSequence : ℕ
  stripeBuffer : Bytes
  stripeNumber : ℕ

section

variable (X : Crates) (C : Cluster)

/-! ## Deleting -/

def ownerInService (d : DeviceId) : Option NodeId :=
  ((C.document.device d).filter fun e => e.state != .removed).map DeviceEntry.node

/-- Remove a version from the listed devices, one after the other; a device out of service is passed over. -/
def deleteFrom (kh : KeyHash) (v : VersionId) : List ShardLocation → NodeProc Unit
  | [] => pure ()
  | shard :: rest =>
    match ownerInService C shard.device with
    | none => deleteFrom kh v rest
    | some owner => do
      connectTo X C owner
      request X owner (deleteVersion X C owner shard.device kh v)
      deleteFrom kh v rest

def deleteVersionEverywhere (record : MetadataRecord) : NodeProc Unit :=
  deleteFrom X C record.keyHash record.version record.shards

def deleteVersions : List MetadataRecord → NodeProc Unit
  | [] => pure ()
  | record :: rest => do
    deleteVersionEverywhere X C record
    deleteVersions rest

def deleteObject (fuel : ℕ) (key : String) : Coord Unit := do
  require (checkKey C key)
  let located ← lookup X C fuel (X.hashKey key)
  let versions ← require (versionsOf X key located)
  if versions.isEmpty then throw (notFound X key)
  else callNode (deleteVersions X C versions)

/-! ## Placement -/

/-- Most free space first, ties by device. -/
def DeviceStatus.Roomier (a b : DeviceStatus) : Prop :=
  b.freeBytes < a.freeBytes ∨ a.freeBytes = b.freeBytes ∧ a.device ≤ b.device

instance : DecidableRel DeviceStatus.Roomier := fun _ _ => inferInstanceAs (Decidable (_ ∨ _))

/-- Choose `k + m` active devices with room for a shard file. -/
def place (scheme : Scheme) (shardBytes : ℕ) (statuses : List DeviceStatus) : Except ErrorDetail (List DeviceStatus) :=
  let eligible := (statuses.filter fun d => d.state == .active && d.available && d.freeBytes ≥ shardBytes).insertionSort
    DeviceStatus.Roomier
  if eligible.length < scheme.totalShards then
    let unavailable := (statuses.filter fun d => d.state == .active && !d.available).map fun d => X.showUuid d.device
    let missing :=
      if unavailable.isEmpty then ""
      else "; " ++ counted unavailable.length "active device" "active devices" ++ " unavailable: " ++
        ", ".intercalate unavailable
    .error (.new .insufficientDevices
      (s!"{eligible.length} active devices have {shardBytes} bytes free; {scheme.totalShards} are needed" ++ missing))
  else .ok (eligible.take scheme.totalShards)

/-- Every node's devices; a node that does not answer fails the write. -/
def broadcastStatus : Coord (List DeviceStatus) := do
  let targets := C.document.activeNodes.map NodeEntry.id
  let answers ← (ExceptT.lift (Prog.all (targets.map fun n =>
      (do connectTo X C n; request X n (localStatus C n) : NodeProc (List DeviceStatus)).run)) :
    Coord (List (Except ErrorDetail (List DeviceStatus))))
  let statuses ← require (answers.mapM fun answer => answer)
  pure statuses.flatten

/-! ## Before the body -/

def checkPut (params : PutParams) : Except ErrorDetail Unit :=
  match checkKey C params.key with
  | .error e => .error e
  | .ok () =>
    let contentType := params.contentType.elim 0 String.utf8ByteSize
    let metadataBytes := (params.userMetadata.map fun kv => kv.1.utf8ByteSize + kv.2.utf8ByteSize).sum
    if contentType > maxContentTypeBytes then
      .error (.new .metadataTooLarge s!"content type is {contentType} bytes; the limit is {maxContentTypeBytes}")
    else if metadataBytes > C.document.maxUserMetadataBytes then
      .error (.new .metadataTooLarge
        (s!"user metadata is {metadataBytes} bytes of keys and values; " ++
          s!"the cluster's limit is {C.document.maxUserMetadataBytes} (max_user_metadata_bytes)"))
    else if params.size > C.document.maxObjectBytes then
      .error (.new .objectTooLarge
        (s!"object of {params.size} bytes exceeds the cluster's maximum of " ++
          s!"{C.document.maxObjectBytes} (max_object_bytes)"))
    else .ok ()

def shardBytesFor (scheme : Scheme) (size : ℕ) : Except ErrorDetail ℕ :=
  if size = 0 then .ok 0
  else
    match shardFileLength scheme C.document.blockSize size with
    | none => .error (.new .internal "cannot size shard file")
    | some bytes => .ok bytes

def beginWriter (scheme : Scheme) (kh : KeyHash) (v : VersionId) (size i : ℕ) (status : DeviceStatus) : NodeProc Unit :=
  if size = 0 then pure ()
  else request X status.node (beginShard X C status.node status.device kh v i scheme.dataShards scheme.parityShards
    C.document.blockSize size)

/-- A writer on each chosen device, from shard index `i` on. -/
def openWriters (scheme : Scheme) (kh : KeyHash) (v : VersionId) (size : ℕ) : ℕ → List DeviceStatus →
    NodeProc (List ShardWriter)
  | _, [] => pure []
  | i, status :: rest => do
    connectTo X C status.node
    beginWriter X C scheme kh v size i status
    let writers ← openWriters scheme kh v size (i + 1) rest
    pure (⟨i, status.device, status.node, []⟩ :: writers)

/-- The record of a write, to be completed with the checksum of the body. -/
def recordTemplate (scheme : Scheme) (version : VersionId) (created : ℤ) (params : PutParams)
    (chosen : List DeviceStatus) : MetadataRecord where
  formatVersion := recordFormatVersion
  system := systemName
  bucket := defaultBucket
  key := params.key
  keyHash := X.hashKey params.key
  version := version
  created := created
  size := params.size
  objectChecksum := 0
  k := scheme.dataShards
  m := scheme.parityShards
  blockSize := C.document.blockSize
  shards := chosen.mapIdx fun i status => ⟨i, status.device⟩
  revision := 0
  contentType := params.contentType
  userMetadata := params.userMetadata

/-- Everything before the first byte of the body: checks, placement, and a writer on each device. -/
def preparePut (fuel : ℕ) (version : VersionId) (created : ℤ) (params : PutParams) : Coord PreparedPut := do
  require (checkPut C params)
  let scheme ← require (C.document.scheme.mapError fun e => .new .internal e.message)
  let kh := X.hashKey params.key
  let existing ← lookup X C fuel kh
  let _ ← require (versionsOf X params.key existing)
  let statuses ← broadcastStatus X C
  let shardBytes ← require (shardBytesFor C scheme params.size)
  let chosen ← require (place X scheme shardBytes statuses)
  let unavailable := (statuses.filter fun d => d.state == .active && !d.available).map fun d =>
    (⟨d.device, d.node⟩ : UnavailableDevice)
  let writers ← callNode (openWriters X C scheme kh version params.size 0 chosen)
  pure ⟨scheme, recordTemplate X C scheme version created params chosen, writers, unavailable⟩

/-! ## The body -/

def sendTo (owner : NodeId) : NodeProc Unit := request X owner (pure ())

def sendBlocks : List ShardWriter → List ShardBlock → NodeProc (List ShardWriter)
  | writer :: writers, block :: blocks => do
    sendTo X writer.owner
    let rest ← sendBlocks writers blocks
    pure ({ writer with blocks := writer.blocks ++ [⟨writer.index, block.bytes, block.checksum⟩] } :: rest)
  | writers, _ => pure writers

def sendStripe (code : ReedSolomonCode) (blockSize : ℕ) (writers : List ShardWriter) (stripe : Bytes) :
    NodeProc (List ShardWriter) :=
  match encodeStripe X.xxh3 code stripe blockSize with
  | .error _ => throw (.new .internal "encode failed")
  | .ok blocks => sendBlocks X writers blocks

/-- Fill the stripe buffer from the bytes of a frame, sending it each time it is full. Each round takes at
least one byte. -/
def fillStripes (code : ReedSolomonCode) (blockSize : ℕ) : ℕ → Upload → Bytes → NodeProc Upload
  | 0, upload, _ => pure upload
  | rounds + 1, upload, bytes =>
    if bytes.isEmpty then pure upload
    else
      let stripeSize := code.scheme.dataShards * blockSize
      let room := stripeSize - upload.stripeBuffer.length
      let taken := min room bytes.length
      let buffer := upload.stripeBuffer ++ bytes.take taken
      if buffer.length = stripeSize then do
        let writers ← sendStripe X code blockSize upload.writers buffer
        fillStripes code blockSize rounds
          { upload with writers := writers, stripeBuffer := [], stripeNumber := upload.stripeNumber + 1 }
          (bytes.drop taken)
      else fillStripes code blockSize rounds { upload with stripeBuffer := buffer } (bytes.drop taken)

def receiveFrame (code : ReedSolomonCode) (record : MetadataRecord) (upload : Upload) (frame : DataFrame) :
    NodeProc Upload :=
  if frame.sequence ≠ upload.expectedSequence then
    throw (.new .protocolViolation s!"body chunk {frame.sequence} arrived when {upload.expectedSequence} was expected")
  else if X.xxh3 frame.bytes ≠ frame.checksum then
    throw (.new .protocolViolation s!"body chunk {frame.sequence} failed its checksum in transit")
  else if upload.received + frame.bytes.length > record.size then
    throw (.new .protocolViolation s!"body exceeds the declared size of {record.size} bytes")
  else
    fillStripes X code record.blockSize frame.bytes.length
      { upload with
        expectedSequence := upload.expectedSequence + 1
        received := upload.received + frame.bytes.length
        hashed := upload.hashed ++ frame.bytes } frame.bytes

/-- The client's messages up to the end of its stream. A client that stops sending is timed out. -/
def receiveBody (code : ReedSolomonCode) (record : MetadataRecord) : Upload → List BodyMessage → NodeProc Upload
  | _, [] => throw (.new .internal "the client stopped sending")
  | upload, .data frame :: rest => do
    let upload ← receiveFrame X code record upload frame
    receiveBody code record upload rest
  | _, .endOfStream (some e) :: _ => throw (.new .writeFailed ("client abandoned the upload: " ++ e))
  | upload, .endOfStream none :: _ =>
    if upload.received ≠ record.size then
      throw (.new .protocolViolation s!"body was {upload.received} bytes but {record.size} were declared")
    else if upload.stripeBuffer.isEmpty then pure upload
    else do
      let writers ← sendStripe X code record.blockSize upload.writers upload.stripeBuffer
      pure { upload with writers := writers }
  | _, .other description :: _ =>
    throw (.new .protocolViolation ("expected body Data or EndOfStream, got " ++ description))

def sendEnds : List ShardWriter → NodeProc Unit
  | [] => pure ()
  | writer :: rest => do
    sendTo X writer.owner
    sendEnds rest

/-- What the node of a writer does at the end of its stream. -/
def finishWriter (scheme : Scheme) (record : MetadataRecord) (checksum : BlockChecksum) (writer : ShardWriter) :
    NodeProc Unit :=
  request X writer.owner (finishShard X C writer.owner writer.device
    ⟨scheme, writer.index, record.blockSize, record.keyHash, record.version⟩ writer.blocks record.size checksum)

/-- Finish every shard; the nodes do so side by side. An empty object has none. -/
def finishWriters (scheme : Scheme) (record : MetadataRecord) (checksum : BlockChecksum) (writers : List ShardWriter) :
    Coord Unit :=
  if record.size = 0 then pure ()
  else do
    callNode (sendEnds X writers)
    let answers ← (ExceptT.lift (Prog.all (writers.map fun w => (finishWriter X C scheme record checksum w).run)) :
      Coord (List (Except ErrorDetail Unit)))
    let _ ← require (answers.mapM fun answer => answer)
    pure ()

/-- Read the body, encode it stripe by stripe, fan the blocks out and finish every shard. Returns the
checksum of the whole object. -/
def streamBodyToWriters (scheme : Scheme) (record : MetadataRecord) (writers : List ShardWriter)
    (body : List BodyMessage) : Coord BlockChecksum := do
  let code := ReedSolomonCode.new X.reedSolomon scheme
  let upload ← callNode (receiveBody X code record ⟨writers, [], 0, 0, [], 0⟩ body)
  let checksum := X.xxh3 upload.hashed
  finishWriters X C scheme record checksum upload.writers
  pure checksum

/-! ## After the body -/

def writeRecords (record : MetadataRecord) : List ShardWriter → NodeProc Unit
  | [] => pure ()
  | writer :: rest => do
    request X writer.owner (putMeta X C writer.owner writer.device record)
    writeRecords record rest

/-- Clean up on every device, as far as its node answers. -/
def abortShardWriters (kh : KeyHash) (v : VersionId) : List ShardWriter → NodeProc Unit
  | [] => pure ()
  | writer :: rest => do
    let _ ← (ExceptT.lift (request X writer.owner (abortShard X C writer.owner writer.device kh v)).run :
      NodeProc (Except ErrorDetail Unit))
    abortShardWriters kh v rest

def abortPut {α : Type} (record : MetadataRecord) (writers : List ShardWriter) (detail : ErrorDetail) : Coord α := do
  callNode (abortShardWriters X C record.keyHash record.version writers)
  throw detail

/-- The new version is in place everywhere: remove the others. -/
def replaceOthers (fuel : ℕ) (record : MetadataRecord) : Coord Unit := do
  let located ← lookup X C fuel record.keyHash
  let older ← require (versionsOf X record.key located)
  callNode (deleteVersions X C (older.filter fun r => r.version ≠ record.version))

def putObject (fuel : ℕ) (version : VersionId) (created : ℤ) (params : PutParams) (body : List BodyMessage) :
    Coord PutAnswer := do
  let prepared ← preparePut X C fuel version created params
  match ← attempt (streamBodyToWriters X C prepared.scheme prepared.record prepared.writers body) with
  | .error detail => abortPut X C prepared.record prepared.writers detail
  | .ok checksum => do
    let record := { prepared.record with objectChecksum := checksum }
    match ← attempt (callNode (writeRecords X C record prepared.writers)) with
    | .error detail => abortPut X C record prepared.writers detail
    | .ok () => do
      replaceOthers X C fuel record
      pure ⟨version, prepared.unavailable⟩

end

end Djbod
