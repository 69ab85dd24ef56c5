import Djbod.Node.List

/-!
# Taking stock of every version

The records of every device in service are read in (key hash, version) order and merged; each version is classified from
the copies that were found of it.

* `localRecords` : one page of a device's records, each with whether its shard file is there;
* `DeviceStream` : the pages of one device, fetched as they are used up;
* `classifyGroup` : the state of a version;
* `inventoryMerge` : the merge.
-/

namespace Djbod

open Sched

structure RecordCursor where
  keyHash : KeyHash
  version : VersionId
  deriving DecidableEq

def RecordCursor.before (after : RecordCursor) (r : MetadataRecord) : Bool :=
  after.keyHash < r.keyHash || after.keyHash == r.keyHash && after.version < r.version

structure DeviceRecord where
  record : MetadataRecord
  shardPresent : Bool
  deriving DecidableEq

structure StreamedRecord where
  device : DeviceId
  record : MetadataRecord
  shardPresent : Bool
  deriving DecidableEq

/-- One device's record stream: the rest of the page, the cursor behind it, and whether it was the last one. -/
structure DeviceStream where
  owner : NodeId
  device : DeviceId
  page : List DeviceRecord
  after : Option RecordCursor
  exhausted : Bool

inductive ObjectState where
  | whole
  | degradedParity
  | degradedData
  | unreadable
  | inconsistent
  deriving DecidableEq, Repr

/-- The copies found of one version and what they were judged to be. -/
structure Classified where
  group : List LocatedRecord
  state : ObjectState
  record : MetadataRecord
  shardsOut : ℕ

/-- The versions classified, and the devices that could not be read. -/
structure Inventory where
  versions : List Classified
  unread : List UnavailableDevice

inductive InventoryEvent where
  | object (key : String) (version : VersionId) (state : ObjectState) (shardsAvailable shardsTotal : ℕ)
  | progress (versionsChecked : ℕ)
  | summary (versionsChecked whole degradedParity degradedData unreadable inconsistent : ℕ)
      (unread : List UnavailableDevice) (complete : Bool)
  deriving DecidableEq

/-- From which of a version's shards are out: none, only parity within `m`, some data within `m`, or more than `m`. -/
def objectState (record : MetadataRecord) (out : List ℕ) : ObjectState :=
  if out.isEmpty then .whole
  else if out.length > record.m then .unreadable
  else if out.any fun index => index < record.k then .degradedData
  else .degradedParity

def progressEveryVersions : ℕ := 10000

def versionEvents (keys : Option ObjectState) (n : ℕ) (v : Classified) : List InventoryEvent :=
  let total := v.record.k + v.record.m
  (if keys = some v.state then [.object v.record.key v.record.version v.state (total - v.shardsOut) total] else []) ++
    if n % progressEveryVersions = 0 then [.progress n] else []

section

variable (X : Crates) (C : Cluster) (recordSize : MetadataRecord → ℕ)

/-! ## One device -/

def shardPresent (d : DeviceId) (r : MetadataRecord) : Task Op Resp Bool :=
  match r.shardOn d with
  | none => pure false
  | some index => do
    match ← (Task.perform (Op.listShards d r.keyHash r.version) : Task Op Resp (Except DeviceError (List ℕ))) with
    | .ok indices => pure (decide (index ∈ indices))
    | .error _ => pure false

def withPresence (d : DeviceId) : List MetadataRecord → Task Op Resp (List DeviceRecord)
  | [] => pure []
  | r :: rest => do
    let here ← shardPresent d r
    let more ← withPresence d rest
    pure (⟨r, here⟩ :: more)

def recordsAfter (after : Option RecordCursor) (records : List MetadataRecord) : List MetadataRecord :=
  match after with
  | none => records
  | some cursor => records.filter cursor.before

/-- One page of a device's records in key hash and version order, and whether there are more; one that cannot be read is
skipped. -/
def localRecords (node : NodeId) (d : DeviceId) (after : Option RecordCursor) : NodeProc (List DeviceRecord × Bool) :=
  onOwnDevice X C node d do
    let records ← Device.file (Task.perform (Op.walkRecords d))
    let (page, truncated) := takePage recordSize maxListPageBytes false 0 (recordsAfter after records)
    let page ← (ExceptT.lift (withPresence d page) : Device.Proc (List DeviceRecord))
    pure (page, truncated)

def DeviceStream.open (owner : NodeId) (device : DeviceId) : NodeProc DeviceStream := do
  connectTo X C owner
  pure ⟨owner, device, [], none, false⟩

/-- The stream with a page to take from, unless it is exhausted. -/
def DeviceStream.fill (stream : DeviceStream) : NodeProc DeviceStream :=
  if stream.page.isEmpty && !stream.exhausted then do
    let (records, truncated) ← request X stream.owner
      (localRecords X C recordSize stream.owner stream.device stream.after)
    pure { stream with
      after := records.getLast?.map fun r => ⟨r.record.keyHash, r.record.version⟩
      exhausted := !truncated || records.isEmpty
      page := records }
  else pure stream

def DeviceStream.next (stream : DeviceStream) : NodeProc (Option StreamedRecord × DeviceStream) := do
  let stream ← stream.fill X C recordSize
  match stream.page with
  | [] => pure (none, stream)
  | r :: rest => pure (some ⟨stream.device, r.record, r.shardPresent⟩, { stream with page := rest })

/-! ## The merge -/

/-- Every version's key hash and number, compared in that order. -/
def StreamedRecord.place (r : StreamedRecord) : KeyHash ×ₗ VersionId := toLex (r.record.keyHash, r.record.version)

structure Head where
  stream : DeviceStream
  item : Option StreamedRecord

def markUnread (unread : List UnavailableDevice) (stream : DeviceStream) : List UnavailableDevice :=
  ⟨stream.device, stream.owner⟩ :: unread.filter fun u => u.device != stream.device

/-- Take the next record of a stream; one that fails is unread from there on. -/
def advance (stream : DeviceStream) (unread : List UnavailableDevice) :
    Task Op Resp (Head × List UnavailableDevice) := do
  match ← (stream.next X C recordSize).run with
  | .ok (item, stream) => pure (⟨stream, item⟩, unread)
  | .error _ => pure (⟨stream, none⟩, markUnread unread stream)

def advanceAll (used : Head → Bool) (unread : List UnavailableDevice) :
    List Head → Task Op Resp (List Head × List UnavailableDevice)
  | [] => pure ([], unread)
  | head :: rest =>
    if used head then do
      let (head, unread) ← advance X C recordSize head.stream unread
      let (heads, unread) ← advanceAll used unread rest
      pure (head :: heads, unread)
    else do
      let (heads, unread) ← advanceAll used unread rest
      pure (head :: heads, unread)

def smallest (heads : List Head) : Option (KeyHash ×ₗ VersionId) :=
  (heads.filterMap fun h => h.item.map StreamedRecord.place).min?

/-- The last of the copies at the highest revision. -/
def currentCopy (first : LocatedRecord) (rest : List LocatedRecord) : LocatedRecord :=
  rest.foldl (fun best c => if best.record.revision ≤ c.record.revision then c else best) first

/-- One version's state from its copies. A shard is out when its device is unread, lost (neither read nor unread), or
without the file; copies that do not agree, or a copy missing from a device that was read, make the version
inconsistent. -/
def classifyGroup (group : List StreamedRecord) (unread known : List DeviceId) (first : LocatedRecord)
    (rest : List LocatedRecord) : Classified :=
  let current := (currentCopy first rest).record
  let lost := (current.shards.map ShardLocation.device).filter fun d => d ∉ known && d ∉ unread
  let notExpected := unread ++ lost
  match versionsOfExcluding X current.key (first :: rest) notExpected with
  | .ok [record] =>
    let out := (record.shards.filter fun shard =>
      shard.device ∈ notExpected || group.any fun r => r.device == shard.device && !r.shardPresent).map
      ShardLocation.index
    ⟨first :: rest, objectState record out, record, out.length⟩
  | _ => ⟨first :: rest, .inconsistent, current, 0⟩

def Head.at (place : KeyHash ×ₗ VersionId) (head : Head) : Bool := head.item.any fun r => r.place == place

/-- Classify version after version. The loop ends when no stream has a record left. -/
def mergeLoop (known : List DeviceId) :
    ℕ → List Head → List UnavailableDevice → List Classified → Task Op Resp (List Classified × List UnavailableDevice)
  | 0, _, unread, done => pure (done, unread)
  | fuel + 1, heads, unread, done =>
    match smallest heads with
    | none => pure (done, unread)
    | some place =>
      let group := (heads.filter (Head.at place)).filterMap Head.item
      match group.map fun r => (⟨r.device, r.record⟩ : LocatedRecord) with
      | [] => pure (done, unread)
      | first :: rest => do
        let version := classifyGroup X group (unread.map UnavailableDevice.device) known first rest
        let (heads, unread) ← advanceAll X C recordSize (Head.at place) unread heads
        mergeLoop known fuel heads unread (done ++ [version])

/-- A stream for every device in service whose node is a member; a device whose node cannot be reached is unread. -/
def openStreams : List DeviceEntry → Task Op Resp (List DeviceStream × List UnavailableDevice)
  | [] => pure ([], [])
  | entry :: rest => do
    match ← (DeviceStream.open X C entry.node entry.id).run with
    | .ok stream => do
      let (streams, unread) ← openStreams rest
      pure (stream :: streams, unread)
    | .error _ => do
      let (streams, unread) ← openStreams rest
      pure (streams, ⟨entry.id, entry.node⟩ :: unread)

def inventoryDevices : List DeviceEntry :=
  C.document.devices.filter fun e =>
    e.state != .removed && (C.document.node e.node).any fun n => n.state == .active

def inventoryMerge (fuel : ℕ) : Task Op Resp Inventory := do
  let (streams, unread) ← openStreams X C (inventoryDevices C)
  let (heads, unread) ← advanceAll X C recordSize (fun _ => true) unread (streams.map fun stream => ⟨stream, none⟩)
  let (versions, unread) ← mergeLoop X C recordSize (streams.map DeviceStream.device) fuel heads unread []
  pure ⟨versions, unread.insertionSort fun a b => a.device ≤ b.device⟩

/-- Every version can have been seen. -/
def Inventory.complete (inventory : Inventory) : Bool := inventory.unread.length < C.document.k + C.document.m

end

end Djbod
