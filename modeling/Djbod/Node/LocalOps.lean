import Djbod.Core.Tree

/-!
# What a node does for its peers

The node-to-node requests as tasks over the file operations, and how a request reaches a node.

* `Crates` : what the program takes from other libraries; `Cluster` : the document all nodes hold and
  the devices each node has opened;
* `ErrorDetail` : how a request fails; `deviceErrorDetail` : how a device's error is told to a peer;
* `connectTo`, `request` : a connection to a node and one request over it;
* `localLookup`, `putMeta`, `deleteVersion`, `abortShard`, `beginShard`, `finishShard`, `getShard`,
  `localStatus` : the handlers.
-/

namespace Djbod

open Sched

inductive ErrorCode where
  | nodeUnreachable
  | deviceUnavailable
  | blockChecksumMismatch
  | objectChecksumMismatch
  | recordsInconsistent
  | keyMismatch
  | notFound
  | insufficientDevices
  | writeFailed
  | documentVersionMismatch
  | keyTooLong
  | objectTooLarge
  | metadataTooLarge
  | protocolViolation
  | unauthorised
  | tlsRequired
  | internal
  deriving DecidableEq, Repr

structure ErrorDetail where
  code : ErrorCode
  message : String
  node : Option NodeId
  device : Option DeviceId
  key : Option String
  version : Option VersionId
  shardIndex : Option ℕ
  stripe : Option ℕ
  deriving DecidableEq, Repr

def ErrorDetail.new (code : ErrorCode) (message : String) : ErrorDetail :=
  ⟨code, message, none, none, none, none, none, none⟩

/-- A record copy with the device it was found on. -/
structure LocatedRecord where
  device : DeviceId
  record : MetadataRecord
  deriving DecidableEq

structure LookupCursor where
  version : VersionId
  device : DeviceId
  deriving DecidableEq

structure KeyEntry where
  key : String
  size : ℕ
  version : VersionId
  deriving DecidableEq, Repr

/-- What the program takes from other libraries: checksums, the erasure code, key hashes, the encoded
size of a message part, and the text of identifiers and quoted strings. -/
structure Crates where
  xxh3 : Bytes → BlockChecksum
  reedSolomon : ℕ → ℕ → ReedSolomon
  hashKey : String → KeyHash
  encodedLen : LocatedRecord → ℕ
  showUuid : ℕ → String
  debugString : String → String

/-- A cluster while its membership does not change: the document every node holds and the devices each
node has opened. -/
structure Cluster where
  document : ClusterDocument
  opened : NodeId → List DeviceId
  /-- Blocks are aligned as a record demands. -/
  blockSize_aligned : 0 < document.blockSize ∧ document.blockSize % 4096 = 0
  /-- A device is listed once. -/
  devices_nodup : (document.devices.map DeviceEntry.id).Nodup
  /-- Every device is on a listed node. -/
  owner_listed : ∀ e ∈ document.devices, (document.node e.node).isSome
  /-- A node opens only devices that are in the document. -/
  opened_listed : ∀ n, ∀ d ∈ opened n, (document.device d).isSome
  /-- A device is attached to one node. -/
  opened_nodup : (document.activeNodes.flatMap fun n => opened n.id).Nodup

abbrev NodeProc (α : Type) := ExceptT ErrorDetail (Task Op Resp) α

def maxListPageBytes : ℕ := 8 * 1024 * 1024

section

variable (X : Crates) (C : Cluster)

def showDevice (d : DeviceId) : String := "device " ++ X.showUuid d

def showNode (n : NodeId) : String := "node " ++ X.showUuid n

def debugDevice (d : DeviceId) : String := "DeviceId(" ++ X.showUuid d ++ ")"

def debugNode (n : NodeId) : String := "NodeId(" ++ X.showUuid n ++ ")"

/-! ## Errors -/

def debugChecksum (c : BlockChecksum) : String := "BlockChecksum(" ++ String.ofList (checksumToHex c) ++ ")"

def debugKeyHash (kh : KeyHash) : String := "KeyHash(" ++ String.ofList (toHex kh) ++ ")"

/-- The text of a shard file's error, without the operating system's own words. -/
def ShardFileError.message : ShardFileError → String
  | .io _ => "I/O error"
  | .tooShort length => s!"file is {length} bytes, too short to be a shard file"
  | .badMagic => "bad magic: not a shard file"
  | .unsupportedFormatVersion v => s!"unsupported format version {v}"
  | .unsupportedChecksumAlgorithm a => s!"unsupported checksum algorithm {a}"
  | .headerChecksumMismatch => "header checksum mismatch"
  | .invalidScheme e => "header describes an invalid scheme: " ++ e.message
  | .shardIndexOutOfRange index => s!"header shard index shard {index} is outside the scheme"
  | .trailerInvariant footerOffset footerLength fileLength =>
    s!"trailer does not describe this file: footer offset {footerOffset} + " ++
      s!"footer length {footerLength} + 16 != file length {fileLength}"
  | .badFooterLength length => s!"footer length {length} is not 32 + 8n"
  | .footerChecksumMismatch => "footer checksum mismatch"
  | .inconsistentFooter reason => "footer is inconsistent: " ++ reason
  | .blockOutOfRange index count => s!"block {index} is out of range; file has {count} blocks"
  | .wrongShardIndex expected actual => s!"block carries shard {actual} but this file holds shard {expected}"
  | .badBlockLength actual max => s!"block of {actual} bytes; blocks must be 1 .. {max} bytes"
  | .blockAfterShortBlock => "a block was appended after a short block, which must be last"
  | .suppliedChecksumMismatch supplied computed =>
    "block checksum supplied as " ++ debugChecksum supplied ++ " but bytes checksum to " ++ debugChecksum computed
  | .noBlocks => "a shard file must hold at least one block"
  | .geometryMismatch objectSize expectedBlocks expectedLast actualBlocks actualLast =>
    s!"an object of {objectSize} bytes needs {expectedBlocks} blocks with a last block of {expectedLast} bytes, " ++
      s!"but the file has {actualBlocks} blocks with a last block of {actualLast} bytes"

/-- The text of a device's error, without the path, the operating system's own words and what is wrong with a record. -/
def DeviceError.message : DeviceError → String
  | .io _ => "I/O error"
  | .unavailable =>
      "device is unavailable: its directory or identity file cannot be read; the disk failed, is not mounted, " ++
      "or was destroyed (SPEC 5.6)"
  | .record _ => "record error"
  | .recordExists kh v => "record " ++ String.ofList (toText v) ++ " for key hash " ++ debugKeyHash kh ++
      " already exists on this device and the new one is not a higher placement revision of the same body"
  | .shardFile e => "shard file error: " ++ e.message
  | .badObjectSize size => s!"object size {size} is not valid for this scheme and block length"

def deviceErrorDetail (e : DeviceError) : ErrorDetail :=
  let code : ErrorCode :=
    match e with
    | .io .notFound => .notFound
    | .shardFile (.io .notFound) => .notFound
    | .io _ => .deviceUnavailable
    | .unavailable => .deviceUnavailable
    | .record _ => .recordsInconsistent
    | .recordExists _ _ => .writeFailed
    | .shardFile _ => .writeFailed
    | .badObjectSize _ => .writeFailed
  .new code e.message

def withDevice (detail : ErrorDetail) (device : DeviceId) : ErrorDetail := { detail with device := some device }

/-- Devices the document lists for a node that are in service and not opened. -/
def unavailableDevices (node : NodeId) : List DeviceId :=
  (C.document.devices.filter fun e => e.node == node && e.state != .removed && e.id ∉ C.opened node).map DeviceEntry.id

/-! ## Reaching a node -/

/-- Open a connection to a node of the document; its address was checked with the document. -/
def connectTo (target : NodeId) : NodeProc Unit :=
  match C.document.node target with
  | none => throw (.new .nodeUnreachable
      (showNode X target ++ s!" is not in cluster document version {C.document.version}"))
  | some _ => ExceptT.mk do
      match ← (Task.perform (Op.connect target) : Task Op Resp (Except String Unit)) with
      | .ok () => pure (.ok ())
      | .error reason => pure (.error
          { ErrorDetail.new .nodeUnreachable ("cannot reach " ++ showNode X target ++ ": " ++ reason) with
            node := some target })

/-- One request over a connection: the node runs the handler, and its answer may be lost. -/
def request {α : Type} (target : NodeId) (handler : NodeProc α) : NodeProc α := ExceptT.mk do
  let result ← handler.run
  match ← (Task.perform (Op.transfer target) : Task Op Resp (Except String Unit)) with
  | .error reason => pure (.error
      { ErrorDetail.new .nodeUnreachable (showNode X target ++ " failed mid-request: " ++ reason) with
        node := some target })
  | .ok () =>
    match result with
    | .ok a => pure (.ok a)
    | .error detail => pure (.error { detail with node := detail.node <|> some target })

def ownDeviceError (node : NodeId) (d : DeviceId) : ErrorDetail :=
  let message :=
    if d ∈ unavailableDevices C node then
      "device " ++ debugDevice X d ++ " is unavailable on node " ++ debugNode X node ++
        ": it was not opened at startup (SPEC 5.6)"
    else "device " ++ debugDevice X d ++ " is not attached to node " ++ debugNode X node
  withDevice (.new .deviceUnavailable message) d

/-- Run a procedure of one of the node's own devices, which must be opened. -/
def onOwnDevice {α : Type} (node : NodeId) (d : DeviceId) (proc : Device.Proc α) : NodeProc α :=
  if d ∈ C.opened node then ExceptT.mk do
    match ← proc.run with
    | .ok a => pure (.ok a)
    | .error e => pure (.error (withDevice (deviceErrorDetail e) d))
  else throw (ownDeviceError X C node d)

/-! ## Looking up records -/

/-- The record copies on the listed devices; a device that cannot be read is named instead. -/
def readDevices (kh : KeyHash) : List DeviceId → NodeProc (List LocatedRecord × List DeviceId)
  | [] => pure ([], [])
  | d :: rest => do
    let found ← (ExceptT.lift (Device.readRecords d kh).run : NodeProc (Except DeviceError (List MetadataRecord)))
    match found with
    | .ok records => do
      let (more, unread) ← readDevices kh rest
      pure (records.map (LocatedRecord.mk d) ++ more, unread)
    | .error e =>
      let detail := deviceErrorDetail e
      if detail.code = .deviceUnavailable then do
        let (more, unread) ← readDevices kh rest
        pure (more, d :: unread)
      else throw (withDevice detail d)

/-- Version, then device. -/
def LocatedRecord.Le (a b : LocatedRecord) : Prop :=
  a.record.version < b.record.version ∨ a.record.version = b.record.version ∧ a.device ≤ b.device

instance : DecidableRel LocatedRecord.Le := fun _ _ => inferInstanceAs (Decidable (_ ∨ _))

def LookupCursor.before (after : LookupCursor) (r : LocatedRecord) : Bool :=
  after.version < r.record.version || after.version == r.record.version && after.device < r.device

/-- As many items as fit in a page, at least one, and whether any were left over. -/
def takePage {α : Type} (size : α → ℕ) (limit : ℕ) : Bool → ℕ → List α → List α × Bool
  | _, _, [] => ([], false)
  | started, bytes, x :: rest =>
    if started && bytes + size x > limit then ([], true)
    else
      let (page, truncated) := takePage size limit true (bytes + size x) rest
      (x :: page, truncated)

structure LookupPage where
  records : List LocatedRecord
  truncated : Bool
  unread : List DeviceId

/-- Every record copy under a key hash on a node's devices, removed ones included, sorted by version then
device, in pages. -/
def localLookup (node : NodeId) (kh : KeyHash) (after : Option LookupCursor) : NodeProc LookupPage := do
  let (records, unread) ← readDevices kh (C.opened node)
  let sorted := records.insertionSort LocatedRecord.Le
  let retained :=
    match after with
    | none => sorted
    | some cursor => sorted.filter cursor.before
  let (page, truncated) := takePage X.encodedLen maxListPageBytes false 0 retained
  pure ⟨page, truncated, unavailableDevices C node ++ unread⟩

/-! ## Writing and deleting -/

def putMeta (node : NodeId) (d : DeviceId) (record : MetadataRecord) : NodeProc Unit :=
  onOwnDevice X C node d (Device.writeRecord X.hashKey d record)

def deleteVersion (node : NodeId) (d : DeviceId) (kh : KeyHash) (v : VersionId) : NodeProc Unit :=
  onOwnDevice X C node d (Device.deleteVersion d kh v)

/-- Clean up after a failed write: the temporary file, and whatever of the version is in place. -/
def abortShard (node : NodeId) (d : DeviceId) (kh : KeyHash) (v : VersionId) : NodeProc Unit :=
  onOwnDevice X C node d (Device.deleteVersion d kh v)

/-- The first half of `PutShard`: reserve the file and say that the node is ready. -/
def beginShard (node : NodeId) (d : DeviceId) (kh : KeyHash) (v : VersionId) (index k m blockLength size : ℕ) :
    NodeProc Unit :=
  if d ∉ C.opened node then onOwnDevice X C node d (pure ())
  else if (C.document.device d).map DeviceEntry.state ≠ some .active then
    throw (withDevice
      (.new .writeFailed ("device " ++ debugDevice X d ++ " is not active and accepts no new shards")) d)
  else
    match Scheme.new k m with
    | .error e => throw (.new .protocolViolation e.message)
    | .ok scheme =>
      if !scheme.contains index then
        throw (.new .protocolViolation s!"shard {index} is outside scheme {k}+{m}")
      else
        onOwnDevice X C node d <|
          match shardFileLength scheme blockLength size with
          | none => throw (.badObjectSize size)
          | some _ => Device.file (Task.perform (Op.beginShard d ⟨scheme, index, blockLength, kh, v⟩))

/-- The second half of `PutShard`: the blocks that were streamed are appended, the file is finished and
put in place. -/
def finishShard (node : NodeId) (d : DeviceId) (header : ShardFileHeader) (blocks : List ShardBlock) (size : ℕ)
    (checksum : BlockChecksum) : NodeProc Unit :=
  onOwnDevice X C node d <|
    match writeShard X.xxh3 header blocks size checksum with
    | .error e => throw (.shardFile e)
    | .ok file => Device.file (Task.perform (Op.finishShard d file))

/-- Open a shard and check that it has the blocks asked for; the blocks are then read one by one. -/
def getShard (node : NodeId) (d : DeviceId) (kh : KeyHash) (v : VersionId) (index firstBlock blockCount : ℕ) :
    NodeProc ShardFile := do
  let file ← onOwnDevice X C node d (Device.file (Task.perform (Op.openShard d kh v index)))
  if firstBlock + blockCount > file.footer.blockCount then
    throw (.new .protocolViolation
      s!"blocks {firstBlock}..{firstBlock}+{blockCount} requested but the shard has {file.footer.blockCount}")
  else pure file

/-! ## Status and listing -/

structure DeviceStatus where
  device : DeviceId
  node : NodeId
  state : DeviceState
  available : Bool
  totalBytes : ℕ
  freeBytes : ℕ
  deriving DecidableEq

/-- The state the document gives a device; one it does not list counts as removed. -/
def stateOf (d : DeviceId) : DeviceState := ((C.document.device d).map DeviceEntry.state).getD .removed

/-- The status of an opened device; one that cannot report its space is shown as unavailable. -/
def openedStatus (node : NodeId) (d : DeviceId) : Except DeviceError SpaceReport → DeviceStatus
  | .ok space => ⟨d, node, stateOf C d, true, space.totalBytes, space.freeBytes⟩
  | .error _ => ⟨d, node, stateOf C d, false, 0, 0⟩

def statusOf (node : NodeId) : List DeviceId → NodeProc (List DeviceStatus)
  | [] => pure []
  | d :: rest => do
    let space ← (ExceptT.lift (Task.perform (Op.space d)) : NodeProc (Except DeviceError SpaceReport))
    let more ← statusOf node rest
    pure (openedStatus C node d space :: more)

/-- The devices the document lists for a node that it has not opened. -/
def unopenedStatus (node : NodeId) : List DeviceStatus :=
  (C.document.devices.filter fun e => e.node == node && e.id ∉ C.opened node).map fun e =>
    ⟨e.id, node, e.state, false, 0, 0⟩

def localStatus (node : NodeId) : NodeProc (List DeviceStatus) := do
  let opened ← statusOf C node (C.opened node)
  pure (opened ++ unopenedStatus C node)

structure ListQuery where
  keyPrefix : Option String
  startAfter : Option String
  limit : Option ℕ

def listDevices (query : ListQuery) : List DeviceId → NodeProc (List KeyEntry × List DeviceId)
  | [] => pure ([], [])
  | d :: rest => do
    let found ← (ExceptT.lift (Task.perform (Op.walkRecords d)) : NodeProc (Except DeviceError (List MetadataRecord)))
    match found with
    | .ok records => do
      let entries := (records.filter fun r => query.keyPrefix.all fun p => p.isPrefixOf r.key).map fun r =>
        (⟨r.key, r.size, r.version⟩ : KeyEntry)
      let (more, unread) ← listDevices query rest
      pure (entries ++ more, unread)
    | .error e =>
      let detail := deviceErrorDetail e
      if detail.code = .deviceUnavailable then do
        let (more, unread) ← listDevices query rest
        pure (more, d :: unread)
      else throw (withDevice detail d)

end

end Djbod
