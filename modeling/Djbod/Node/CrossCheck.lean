import Djbod.Data.Merge
import Djbod.Node.Inventory
import Djbod.Node.Repair
import Mathlib.Data.List.AList

/-!
# Merging the cluster's records

The scrub's cross-check and the inventory each merge one stream of records per device in (key hash, version) order, and
judge every version from the copies that were found of it.

* `RecordSource` : a device's stream, as the answers it is going to give;
* `checkGroup` : what the scrub finds wrong with a version, and how many of its shards are available;
* `mergeSources` : the cross-check; a device that cannot be read is left out from there on, any other failure stops it;
* `CrossCheckOutcome.repairs`, `availabilityEvent` : the counts of available shards after the repairs of a scrub;
* `mergeInventory` : the inventory; a stream that fails for any reason is left out from there on.
-/

namespace Djbod

open Merging

/-- A source of one device's records: what it answers to each request for the next one, until it has no more. -/
structure RecordSource where
  owner : NodeId
  device : DeviceId
  items : List (Except ErrorDetail DeviceRecord)

def RecordSource.answers (source : RecordSource) : List (Except ErrorDetail StreamedRecord) :=
  source.items.map fun item => item.map fun r => ⟨source.device, r.record, r.shardPresent⟩

inductive ClusterFinding where
  | recordsInconsistent (key : String) (version : Option VersionId) (detail : String)
  | shardMissingOnDevice (key : String) (version : VersionId) (device : DeviceId) (shardIndex : ℕ)
  | shardLost (key : String) (version : VersionId) (device : DeviceId) (shardIndex : ℕ)
  | staleCopy (key : String) (version : VersionId) (device : DeviceId) (revision currentRevision : ℕ)
  deriving DecidableEq

def findingKey : ClusterFinding → String
  | .recordsInconsistent key _ _ => key
  | .shardMissingOnDevice key _ _ _ => key
  | .shardLost key _ _ _ => key
  | .staleCopy key _ _ _ _ => key

/-- How many of one version's shards are available, and of how many. -/
structure ShardCount where
  total : ℕ
  available : ℕ
  k : ℕ
  deriving DecidableEq

structure DeviceExposure where
  device : DeviceId
  versions : ℕ
  deriving DecidableEq

structure ShardAvailability where
  shardsTotal : ℕ
  shardsAvailable : ℕ
  k : ℕ
  versions : ℕ
  deriving DecidableEq

/-- What the cross-check sends of a scrub's stream, and the counts at the end of it. -/
inductive ScrubEvent where
  | clusterFinding (finding : ClusterFinding)
  | crossCheckStopped (node : NodeId) (detail : ErrorDetail) (versionsChecked : ℕ) (versionsUnchecked : Option ℕ)
  | crossCheckProgress (versionsChecked : ℕ) (keyHash : KeyHash)
  | crossCheckExposure (unread : List DeviceExposure)
      (versionsChecked versionsWithShardsOut versionsAtTheLimit versionsUnreadable : ℕ)
  | crossCheckAvailability (versionsChecked : ℕ) (versions : List ShardAvailability) (afterRepair : Bool)
  deriving DecidableEq

def bump {κ : Type} [DecidableEq κ] (key : κ) (counts : AList fun _ : κ => ℕ) : AList fun _ : κ => ℕ :=
  counts.insert key ((counts.lookup key).getD 0 + 1)

/-! ## What unread devices cost -/

structure Exposure where
  byDevice : AList fun _ : DeviceId => ℕ
  withShardsOut : ℕ
  atTheLimit : ℕ
  unreadable : ℕ

def Exposure.note (exposure : Exposure) (record : MetadataRecord) (unread : Finset DeviceId) : Exposure :=
  let out := (record.shards.map ShardLocation.device).filter (· ∈ unread)
  if out.length = 0 then exposure
  else
    { byDevice := out.foldl (fun counts d => bump d counts) exposure.byDevice
      withShardsOut := exposure.withShardsOut + 1
      atTheLimit := if out.length = record.m then exposure.atTheLimit + 1 else exposure.atTheLimit
      unreadable := if out.length > record.m then exposure.unreadable + 1 else exposure.unreadable }

def Exposure.event (exposure : Exposure) (unread : Finset DeviceId) (versionsChecked : ℕ) : List ScrubEvent :=
  if unread = ∅ then []
  else [.crossCheckExposure ((unread.sort (· ≤ ·)).map fun d => ⟨d, (exposure.byDevice.lookup d).getD 0⟩)
    versionsChecked exposure.withShardsOut exposure.atTheLimit exposure.unreadable]

/-! ## One version -/

def groupCopies (group : List StreamedRecord) : List LocatedRecord := group.map fun r => ⟨r.device, r.record⟩

/-- Whether a device of the group has its shard file; the last copy of a device counts. -/
def presentOn (group : List StreamedRecord) (d : DeviceId) : Option Bool :=
  (group.reverse.find? fun r => r.device == d).map StreamedRecord.shardPresent

section

variable (X : Crates)

/-- The checks of one version from its copies, and how many of its shards are available, unless the copies cannot be
trusted. -/
def checkGroup (group : List StreamedRecord) (unread known : Finset DeviceId) (damagedShards : Finset (VersionId × ℕ)) :
    List ClusterFinding × Option ShardCount :=
  match groupCopies group with
  | [] => ([], none)
  | first :: rest =>
    let copies := first :: rest
    let key := first.record.key
    let lost := ((copies.flatMap fun c => c.record.shards.map ShardLocation.device).filter fun d =>
      decide (d ∉ known) && decide (d ∉ unread) && !copies.any fun c => c.device == d).toFinset
    match versionsOfExcluding X key copies ((unread ∪ lost).sort (· ≤ ·)) with
    | .error e => ([.recordsInconsistent key e.version e.message], none)
    | .ok versions =>
      let shards := versions.head?.map fun record =>
        let unavailable := record.shards.countP fun shard =>
          decide (shard.device ∈ lost) || decide (shard.device ∈ unread) ||
            presentOn group shard.device == some false ||
            decide ((record.version, shard.index) ∈ damagedShards)
        let total := record.k + record.m
        (⟨total, total - unavailable, record.k⟩ : ShardCount)
      let stale := versions.flatMap fun record => (staleCopies record copies).map fun c =>
        .staleCopy key record.version c.1 c.2 record.revision
      let missing := versions.flatMap fun record => record.shards.flatMap fun shard =>
        if shard.device ∈ lost then [.shardLost key record.version shard.device shard.index]
        else if 0 < record.size ∧ presentOn group shard.device = some false then
          [.shardMissingOnDevice key record.version shard.device shard.index]
        else []
      (stale ++ missing, shards)

/-! ## The cross-check -/

/-- Shards in all, shards available, and `k`. -/
abbrev Bucket := ℕ × ℕ × ℕ

/-- What the cross-node phase found and where it got to. -/
structure CrossCheckOutcome where
  findings : ℕ
  damagedKeys : Finset String
  versionsChecked : ℕ
  stoppedAfter : Option ℕ
  exposure : Exposure
  availability : AList fun _ : Bucket => ℕ
  damagedAvailability : AList fun _ : String => Bucket

def CrossCheckOutcome.initial : CrossCheckOutcome := ⟨0, ∅, 0, none, ⟨∅, 0, 0, 0⟩, ∅, ∅⟩

/-- The phase so far: the outcome and the events sent. -/
structure CrossCheck where
  outcome : CrossCheckOutcome
  events : List ScrubEvent

/-- Count the available shards of a version, and remember the version when some are not. -/
def CrossCheckOutcome.noteShards (outcome : CrossCheckOutcome) (key : String) : Option ShardCount → CrossCheckOutcome
  | none => outcome
  | some shards =>
    let bucket : Bucket := (shards.total, shards.available, shards.k)
    { outcome with
      availability := bump bucket outcome.availability
      damagedAvailability := if shards.available < shards.total then outcome.damagedAvailability.insert key bucket
        else outcome.damagedAvailability }

/-- One version: what the unread devices cost it, its shards, its findings and the progress. -/
def CrossCheck.noteGroup (known : Finset DeviceId) (damagedShards : Finset (VersionId × ℕ)) (check : CrossCheck)
    (unread : Finset DeviceId) (group : List StreamedRecord) : CrossCheck :=
  match groupCopies group with
  | [] => check
  | first :: rest =>
    let (findings, shards) := checkGroup X group unread known damagedShards
    let outcome := { check.outcome with exposure := check.outcome.exposure.note (currentCopy first rest).record unread }
    let outcome := outcome.noteShards first.record.key shards
    let outcome :=
      { outcome with
        findings := outcome.findings + findings.length
        damagedKeys := outcome.damagedKeys ∪ (findings.map findingKey).toFinset
        versionsChecked := outcome.versionsChecked + 1 }
    ⟨outcome, check.events ++ findings.map .clusterFinding ++
      if outcome.versionsChecked % progressEveryVersions = 0 then
        [.crossCheckProgress outcome.versionsChecked first.record.keyHash]
      else []⟩

/-- A stream failed otherwise than for its device: the phase ends here. -/
def CrossCheck.stop (check : CrossCheck) (owner : NodeId) (detail : ErrorDetail) : CrossCheck :=
  ⟨{ check.outcome with stoppedAfter := some check.outcome.versionsChecked },
    check.events ++ [.crossCheckStopped (detail.node.getD owner) detail check.outcome.versionsChecked none]⟩

def CrossCheck.expose (check : CrossCheck) (unread : Finset DeviceId) : CrossCheck :=
  ⟨check.outcome, check.events ++ check.outcome.exposure.event unread check.outcome.versionsChecked⟩

/-- The phase so far and the devices that cannot be read. -/
abbrev CrossCheckState := CrossCheck × Finset DeviceId

def crossCheckFirst (state : CrossCheckState) (source : RecordSource) (detail : ErrorDetail) :
    Except CrossCheckState CrossCheckState :=
  if detail.code = .deviceUnavailable then .ok (state.1, insert source.device state.2)
  else .error (state.1.stop source.owner detail, state.2)

/-- A failure behind a group; what was counted before a stop still stands. -/
def crossCheckNext (state : CrossCheckState) (source : RecordSource) (detail : ErrorDetail) :
    Except CrossCheckState CrossCheckState :=
  if detail.code = .deviceUnavailable then .ok (state.1, insert source.device state.2)
  else .error ((state.1.stop source.owner detail).expose state.2, state.2)

/-- Merge the sources; each group is one version's copies across the cluster. -/
def mergeSources (sources : List RecordSource) (damagedShards : Finset (VersionId × ℕ)) : CrossCheck :=
  let known := (sources.map RecordSource.device).toFinset
  match merge crossCheckNext StreamedRecord.place
      (fun state group => (state.1.noteGroup X known damagedShards state.2 group, state.2)) crossCheckFirst
      (sources.map fun source => (source, source.answers)) (⟨.initial, []⟩, ∅) with
  | .error state => state.1
  | .ok state => state.1.expose state.2

/-! ## The counts after repairs -/

/-- A repair of the key succeeded: the version remembered for it is moved to the whole ones. -/
def CrossCheckOutcome.noteRepaired (outcome : CrossCheckOutcome) (key : String) : CrossCheckOutcome :=
  match outcome.damagedAvailability.lookup key with
  | none => outcome
  | some bucket =>
    let availability :=
      match outcome.availability.lookup bucket with
      | none => outcome.availability
      | some count =>
        if count - 1 = 0 then outcome.availability.erase bucket else outcome.availability.insert bucket (count - 1)
    { outcome with
      damagedAvailability := outcome.damagedAvailability.erase key
      availability := bump (bucket.1, bucket.1, bucket.2.2) availability }

/-- The repairs of a scrub, key by key, as far as the counts go: these are the keys whose repair succeeded. -/
def CrossCheckOutcome.repairs (outcome : CrossCheckOutcome) (done : Finset String) : CrossCheckOutcome :=
  (done.sort (· ≤ ·)).foldl CrossCheckOutcome.noteRepaired outcome

/-- The counts of the versions by their shards available, whole versions first. -/
def CrossCheckOutcome.versions (outcome : CrossCheckOutcome) : List ShardAvailability :=
  (outcome.availability.entries.map fun e => ⟨e.1.1, e.1.2.1, e.1.2.2, e.2⟩).insertionSort fun a b =>
    a.shardsTotal < b.shardsTotal ∨ a.shardsTotal = b.shardsTotal ∧
      (b.shardsAvailable < a.shardsAvailable ∨ a.shardsAvailable = b.shardsAvailable ∧ a.k ≤ b.k)

def CrossCheckOutcome.availabilityEvent (outcome : CrossCheckOutcome) (afterRepair : Bool) : ScrubEvent :=
  .crossCheckAvailability outcome.versionsChecked outcome.versions afterRepair

/-! ## The inventory -/

structure InventoryCounts where
  versionsChecked : ℕ
  whole : ℕ
  degradedParity : ℕ
  degradedData : ℕ
  unreadable : ℕ
  inconsistent : ℕ
  deriving DecidableEq

def InventoryCounts.note (counts : InventoryCounts) (state : ObjectState) : InventoryCounts :=
  let counts := { counts with versionsChecked := counts.versionsChecked + 1 }
  match state with
  | .whole => { counts with whole := counts.whole + 1 }
  | .degradedParity => { counts with degradedParity := counts.degradedParity + 1 }
  | .degradedData => { counts with degradedData := counts.degradedData + 1 }
  | .unreadable => { counts with unreadable := counts.unreadable + 1 }
  | .inconsistent => { counts with inconsistent := counts.inconsistent + 1 }

structure Stock where
  counts : InventoryCounts
  events : List InventoryEvent

def Stock.noteGroup (known : List DeviceId) (keys : Option ObjectState) (stock : Stock)
    (unread : AList fun _ : DeviceId => NodeId) (group : List StreamedRecord) : Stock :=
  match groupCopies group with
  | [] => stock
  | first :: rest =>
    let version := classifyGroup X group unread.keys known first rest
    let counts := stock.counts.note version.state
    ⟨counts, stock.events ++ versionEvents keys counts.versionsChecked version⟩

def Stock.summary (stock : Stock) (unread : AList fun _ : DeviceId => NodeId) (unreadLimit : ℕ) : InventoryEvent :=
  .summary stock.counts.versionsChecked stock.counts.whole stock.counts.degradedParity stock.counts.degradedData
    stock.counts.unreadable stock.counts.inconsistent
    ((unread.entries.map fun e => (⟨e.1, e.2⟩ : UnavailableDevice)).insertionSort fun a b => a.device ≤ b.device)
    (decide (unread.entries.length < unreadLimit))

end

end Djbod
