import Djbod.Node.LocalOps

/-!
# The broadcast lookup and what is made of it

* `lookupReachable`, `lookup` : every record copy for a key hash, each node asked concurrently and read
  to the end of its pages;
* `trustedVersions` : the copies grouped by version, newest first, with the checks every operation makes;
* `versionsOf` : the versions when every listed copy must have arrived;
* `newestReadableVersion` : the newest version as a read trusts it.
-/

namespace Djbod

open Sched

/-- A program of the coordinator that may fail with an error for the client. -/
abbrev Coord (α : Type) := ExceptT ErrorDetail (Prog Op Resp) α

def callNode {α : Type} (t : NodeProc α) : Coord α := ExceptT.mk (Prog.call t.run)

inductive RecordCopyFault where
  | missing
  | stale (revision : ℕ)
  | unavailable (reason : String)
  deriving DecidableEq, Repr

structure MissingRecordCopy where
  device : DeviceId
  fault : RecordCopyFault
  deriving DecidableEq, Repr

/-- What a broadcast lookup found on the devices it could reach. -/
structure Lookup where
  records : List LocatedRecord
  /-- The devices whose copies could not be looked for, and why. -/
  unread : List (DeviceId × ErrorCode × String)
  /-- The nodes that could not be reached. -/
  unreachable : List ErrorDetail

/-- One version as the copies found describe it. -/
structure TrustedVersion where
  record : MetadataRecord
  missing : List MissingRecordCopy
  vouching : ℕ

section

variable (X : Crates) (C : Cluster)

/-- One node's pages, from a cursor on. The loop ends when a page is not truncated. -/
def lookupPages (target : NodeId) (kh : KeyHash) :
    ℕ → Option LookupCursor → List LocatedRecord → NodeProc (List LocatedRecord × List DeviceId)
  | 0, _, _ => throw (.new .internal "the pages did not end")
  | fuel + 1, after, all => do
    let page ← request X target (localLookup X C target kh after)
    let next := page.records.getLast?.map fun r => (⟨r.record.version, r.device⟩ : LookupCursor)
    if !page.truncated || next.isNone then pure (all ++ page.records, page.unread)
    else lookupPages target kh fuel next (all ++ page.records)

/-- One node's record copies under a key hash, page by page, and the devices it could not read. -/
def lookupOn (fuel : ℕ) (target : NodeId) (kh : KeyHash) : NodeProc (List LocatedRecord × List DeviceId) := do
  connectTo X C target
  lookupPages X C target kh fuel none []

def insertUnread (unread : List (DeviceId × ErrorCode × String)) (d : DeviceId) (why : ErrorCode × String) :
    List (DeviceId × ErrorCode × String) := (d, why) :: unread.filter fun u => u.1 != d

/-- Put the nodes' answers together. A node that cannot be reached leaves its devices unread; any other
failure fails the lookup. -/
def collectLookup : Lookup → List (NodeId × Except ErrorDetail (List LocatedRecord × List DeviceId)) →
    Except ErrorDetail Lookup
  | found, [] => .ok found
  | found, (target, .ok (records, unread)) :: rest =>
    collectLookup
      { found with
        records := found.records ++ records
        unread := unread.foldl (fun u d => insertUnread u d (.deviceUnavailable,
          showDevice X d ++ " is unavailable on " ++ showNode X target ++ " (5.6)")) found.unread } rest
  | found, (target, .error detail) :: rest =>
    if detail.code = .nodeUnreachable then
      collectLookup
        { found with
          unread := (C.document.devices.filter fun e => e.node == target).foldl
            (fun u e => insertUnread u e.id (.nodeUnreachable, detail.message)) found.unread
          unreachable := found.unreachable ++ [detail] } rest
    else .error detail

def addRemoved (unread : List (DeviceId × ErrorCode × String)) : List (DeviceId × ErrorCode × String) :=
  (C.document.devices.filter fun e => e.state == .removed).foldl
    (fun u e =>
      if u.any fun x => x.1 == e.id then u
      else insertUnread u e.id (.deviceUnavailable, showDevice X e.id ++ " was removed from the cluster (18.2.1)"))
    unread

/-- The lookup as a read uses it. -/
def lookupReachable (fuel : ℕ) (kh : KeyHash) : Coord Lookup := do
  let targets := C.document.activeNodes.map NodeEntry.id
  let answers ← (ExceptT.lift (Prog.all (targets.map fun n => (lookupOn X C fuel n kh).run)) :
    Coord (List (Except ErrorDetail (List LocatedRecord × List DeviceId))))
  match collectLookup X C ⟨[], [], []⟩ (targets.zip answers) with
  | .error detail => throw detail
  | .ok found =>
    pure { found with
      records := found.records.insertionSort LocatedRecord.Le
      unread := addRemoved X C found.unread }

/-- The lookup as every operation but a read uses it: a node that cannot be reached fails it. -/
def lookup (fuel : ℕ) (kh : KeyHash) : Coord (List LocatedRecord) := do
  let found ← lookupReachable X C fuel kh
  match found.unreachable with
  | detail :: _ => throw detail
  | [] => pure found.records

/-! ## Versions -/

/-- The copies at the highest revision must agree, and each must be on a device the record lists. -/
def checkCurrent (key : String) (first : MetadataRecord) : List LocatedRecord → Except ErrorDetail Unit
  | [] => .ok ()
  | copy :: rest =>
    if copy.record ≠ first then
      .error
        { ErrorDetail.new .recordsInconsistent s!"record copies at revision {first.revision} disagree" with
          key := some key, version := some first.version, device := some copy.device }
    else if (first.shardOn copy.device).isNone then
      .error
        { ErrorDetail.new .recordsInconsistent "a record copy was found on a device the record does not list" with
          key := some key, version := some first.version, device := some copy.device }
    else checkCurrent key first rest

def maxRevision (copies : List LocatedRecord) : ℕ := (copies.map fun c => c.record.revision).foldr max 0

/-- The listed devices without a copy at the current revision. -/
def missingCopies (first : MetadataRecord) (current copies : List LocatedRecord) : List MissingRecordCopy :=
  (first.shards.filter fun shard => !current.any fun c => c.device == shard.device).map fun shard =>
    let here := copies.filter fun c => c.device == shard.device
    ⟨shard.device, if here.isEmpty then .missing else .stale (maxRevision here)⟩

/-- The checks every operation makes of one version's copies. -/
def trustVersion (key : String) (version : VersionId) (copies : List LocatedRecord) :
    Except ErrorDetail TrustedVersion :=
  match copies.find? fun c => c.record.key != key with
  | some copy => .error
      { ErrorDetail.new .keyMismatch ("record under this key hash names key " ++ X.debugString copy.record.key ++
          ", not " ++ X.debugString key ++ ": hash collision or corruption") with
        key := some key, version := some version, device := some copy.device }
  | none =>
    let current := copies.filter fun c => c.record.revision == maxRevision copies
    match current with
    | [] => .error (.new .internal "non-empty")
    | firstCopy :: _ =>
      let first := firstCopy.record
      match checkCurrent key first current with
      | .error e => .error e
      | .ok () => .ok
          { record := first
            missing := missingCopies first current copies
            vouching := copies.countP fun c => c.record.revision == maxRevision copies || first.sameBody c.record }

def versionsDescending (located : List LocatedRecord) : List VersionId :=
  (located.map fun c => c.record.version).dedup.insertionSort (· ≥ ·)

/-- Group record copies by version, newest first, with the checks every operation makes. -/
def trustedVersions (key : String) (located : List LocatedRecord) : Except ErrorDetail (List TrustedVersion) :=
  (versionsDescending located).mapM fun version =>
    trustVersion X key version (located.filter fun c => c.record.version == version)

/-- The record of a version all of whose listed copies arrived, but for those on `unread` devices. -/
def completeVersion (key : String) (unread : List DeviceId) (trusted : TrustedVersion) :
    Except ErrorDetail MetadataRecord :=
  let record := trusted.record
  let unreadCopies := trusted.missing.countP fun m => m.device ∈ unread
  if unreadCopies < trusted.missing.length then
    let listed := record.k + record.m
    .error
      { ErrorDetail.new .recordsInconsistent
          (s!"{listed - trusted.missing.length} record copies found, {listed - unreadCopies} expected " ++
            s!"(revision {record.revision})") with
        key := some key, version := some record.version }
  else .ok record

def versionsOfExcluding (key : String) (located : List LocatedRecord) (unread : List DeviceId) :
    Except ErrorDetail (List MetadataRecord) :=
  match trustedVersions X key located with
  | .error e => .error e
  | .ok trusted => trusted.mapM (completeVersion key unread)

/-- The versions when every copy a record lists must have arrived. -/
def versionsOf (key : String) (located : List LocatedRecord) : Except ErrorDetail (List MetadataRecord) :=
  versionsOfExcluding X key located []

/-! ## Reading the newest version -/

def checkKey (key : String) : Except ErrorDetail Unit :=
  if key.isEmpty then .error (.new .protocolViolation "key is empty")
  else if key.utf8ByteSize > C.document.maxKeyBytes then
    .error
      { ErrorDetail.new .keyTooLong
          s!"key is {key.utf8ByteSize} bytes; the cluster's limit is {C.document.maxKeyBytes} (max_key_bytes)" with
        key := some (String.ofList (key.toList.take 64) ++ "...") }
  else .ok ()

def notFound (key : String) : ErrorDetail :=
  { ErrorDetail.new .notFound ("no object under key " ++ X.debugString key) with key := some key }

/-- Say of each missing copy whether its device could not be consulted. -/
def classifyMissing (unread : List (DeviceId × ErrorCode × String)) (m : MissingRecordCopy) : MissingRecordCopy :=
  if m.fault ≠ .missing then m
  else
    match unread.find? fun u => u.1 == m.device with
    | some (_, _, reason) => { m with fault := .unavailable reason }
    | none =>
      if (C.document.device m.device).isNone then
        { m with fault := .unavailable (showDevice X m.device ++ " is not in the cluster document") }
      else m

/-- The devices in service whose copies could not be looked for, in device order. -/
def devicesOut (unread : List (DeviceId × ErrorCode × String)) : List (DeviceId × ErrorCode × String) :=
  (unread.filter fun u => (C.document.device u.1).any fun e => e.state != .removed).insertionSort fun a b => a.1 ≤ b.1

def RecordCopyFault.debug : RecordCopyFault → String
  | .missing => "Missing"
  | .stale revision => "Stale \x7b revision: " ++ toString revision ++ " \x7d"
  | .unavailable reason => "Unavailable \x7b reason: " ++ X.debugString reason ++ " \x7d"

/-- Fewer than `k` copies vouch for the body: the first unavailable device's code, if there is one. -/
def tooFewVouching (key : String) (unread : List (DeviceId × ErrorCode × String)) (record : MetadataRecord)
    (missing : List MissingRecordCopy) (vouching : ℕ) : ErrorDetail :=
  let code := (missing.findSome? fun m =>
    match m.fault with
    | .unavailable _ => some (((unread.find? fun u => u.1 == m.device).map fun u => u.2.1).getD .deviceUnavailable)
    | _ => none).getD .recordsInconsistent
  let list := missing.map fun m => showDevice X m.device ++ ": " ++ m.fault.debug X
  { ErrorDetail.new code
    (s!"only {vouching} record copies of {record.k + record.m} can be read and at least k = {record.k} are needed: " ++
      "; ".intercalate list) with
    key := some key, version := some record.version, device := missing.head?.map MissingRecordCopy.device }

def counted (n : ℕ) (one many : String) : String := if n = 1 then s!"{n} " ++ one else s!"{n} " ++ many

/-- The newest version among what a lookup found, as a read trusts it. -/
def newestReadable (key : String) (found : Lookup) : Except ErrorDetail (MetadataRecord × List MissingRecordCopy) :=
  match trustedVersions X key found.records with
  | .error e => .error e
  | .ok [] =>
    let out := devicesOut C found.unread
    match out with
    | [] => .error (notFound X key)
    | (_, code, reason) :: _ =>
      if out.length ≥ C.document.k + C.document.m then
        .error
          { ErrorDetail.new code ("no copy of key " ++ X.debugString key ++
              " on the devices that could be read, and " ++ counted out.length "device could" "devices could" ++
              " not be, enough to hold every copy of a version: " ++ reason) with
            key := some key }
      else .error (notFound X key)
  | .ok (newest :: _) =>
    let missing := newest.missing.map (classifyMissing X C found.unread)
    if newest.vouching < newest.record.k then
      .error (tooFewVouching X key found.unread newest.record missing newest.vouching)
    else .ok (newest.record, missing)

/-- The newest version of `key` as a read trusts it: the copies that arrived must agree, and at least `k`
must vouch for the body. -/
def newestReadableVersion (fuel : ℕ) (key : String) : Coord (MetadataRecord × List MissingRecordCopy) :=
  match checkKey C key with
  | .error e => throw e
  | .ok () => do
    let found ← lookupReachable X C fuel (X.hashKey key)
    match newestReadable X C key found with
    | .error e => throw e
    | .ok answer => pure answer

def headObject (fuel : ℕ) (key : String) : Coord (MetadataRecord × List MissingRecordCopy) :=
  newestReadableVersion X C fuel key

end

end Djbod
