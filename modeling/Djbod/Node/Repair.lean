import Djbod.Node.Get

/-!
# Repairing an object

* `repairable` : the newest version as a repair needs it, with the devices that lack its record and the stale copies;
* `rewriteRecordCopies`, `removeStaleCopies` : the record where it is missing, and its leftovers elsewhere;
* `relocateLostShards` : new devices for the shards of devices out of service;
* `openRepairSources`, `readRepairStripe` : every shard as a stream, going on without one that breaks off;
* `rebuildShards` : decode from the intact shards, encode again, and write the shards asked for;
* `repairObject` : a pass that only reads, then what was found to be missing.
-/

namespace Djbod

open Sched

inductive ShardCondition where
  | intact
  | unreadable (reason : String)
  | corruptBlocks (stripes : List ℕ)
  | lost
  deriving DecidableEq, Repr

/-- One shard as a repair sees it: a stream, or nothing if the file could not be opened. -/
structure RepairSource where
  index : ℕ
  device : DeviceId
  owner : NodeId
  stream : Option ShardSource
  condition : ShardCondition
  deriving DecidableEq

structure ShardRepair where
  index : ℕ
  device : DeviceId
  condition : ShardCondition
  rewritten : Bool
  relocatedTo : Option DeviceId
  deriving DecidableEq

structure RepairReport where
  key : String
  version : VersionId
  shards : List ShardRepair
  recordCopiesRewritten : List DeviceId
  staleCopiesRemoved : List DeviceId
  deriving DecidableEq

/-- A record to complete towards, the listed devices without a copy of it, and the stale copies elsewhere. -/
structure Repairable where
  record : MetadataRecord
  missing : List DeviceId
  stale : List (DeviceId × ℕ)

section

variable (X : Crates) (C : Cluster)

/-! ## The record -/

def staleCopies (current : MetadataRecord) (located : List LocatedRecord) : List (DeviceId × ℕ) :=
  (located.filter fun c => c.record.version == current.version && c.record.revision < current.revision &&
    (current.shardOn c.device).isNone).map fun c => (c.device, c.record.revision)

/-- The copies at the highest revision, as a repair checks them. -/
def checkRepairable (key : String) (first : MetadataRecord) : List LocatedRecord → Except ErrorDetail Unit
  | [] => .ok ()
  | copy :: rest =>
    if copy.record ≠ first then
      .error
        { ErrorDetail.new .recordsInconsistent
            s!"record copies at revision {first.revision} disagree; repair cannot choose between them" with
          key := some key, version := some first.version, device := some copy.device }
    else if (first.shardOn copy.device).isNone then
      .error
        { ErrorDetail.new .recordsInconsistent "a record copy was found on a device the record does not list" with
          key := some key, version := some first.version, device := some copy.device }
    else checkRepairable key first rest

/-- What a repair makes of the copies of the newest version. -/
def repairVersion (key : String) (version : VersionId) (copies : List LocatedRecord) : Except ErrorDetail Repairable :=
  match copies.find? fun c => c.record.key != key with
  | some copy => .error
      { ErrorDetail.new .keyMismatch ("record under this key hash names key " ++ X.debugString copy.record.key ++
          ", not " ++ X.debugString key) with
        key := some key, version := some version }
  | none =>
    let current := copies.filter fun c => c.record.revision == maxRevision copies
    match current with
    | [] => .error (.new .internal "non-empty")
    | firstCopy :: _ =>
      let first := firstCopy.record
      match checkRepairable key first current with
      | .error e => .error e
      | .ok () =>
        match copies.find? fun c => c.record.revision < maxRevision copies && !c.record.sameBody first with
        | some copy => .error
            { ErrorDetail.new .recordsInconsistent
                (s!"a revision {copy.record.revision} copy describes a different body from " ++
                  s!"revision {maxRevision copies}") with
              key := some key, version := some version, device := some copy.device }
        | none =>
          let vouching := copies.countP fun c => c.record.revision == maxRevision copies || first.sameBody c.record
          if vouching < first.k then
            .error
              { ErrorDetail.new .recordsInconsistent
                  (s!"only {vouching} record copies remain of {first.shards.length}; " ++
                    s!"fewer than k = {first.k} cannot be trusted") with
                key := some key, version := some version }
          else
            .ok ⟨first, (first.shards.map ShardLocation.device).filter fun d => !current.any fun c => c.device == d,
              staleCopies first copies⟩

/-- The newest version among the copies found, as a repair needs it. -/
def repairable (key : String) (located : List LocatedRecord) : Except ErrorDetail Repairable :=
  match versionsDescending located with
  | [] => .error (notFound X key)
  | version :: _ => repairVersion X key version (located.filter fun c => c.record.version == version)

def repairableRecord (fuel : ℕ) (key : String) : Coord Repairable := do
  require (checkKey C key)
  let located ← lookup X C fuel (X.hashKey key)
  require (repairable X key located)

def rewriteRecordCopies (record : MetadataRecord) : List DeviceId → NodeProc Unit
  | [] => pure ()
  | d :: rest =>
    match C.document.device d with
    | none => throw
        { ErrorDetail.new .deviceUnavailable (showDevice X d ++ " is not in the cluster document") with
          device := some d, key := some record.key, version := some record.version }
    | some entry => do
      connectTo X C entry.node
      request X entry.node (putMeta X C entry.node d record)
      rewriteRecordCopies record rest

/-- Remove the version from the devices of stale copies; a device out of service is passed over. -/
def removeStaleCopies (record : MetadataRecord) : List (DeviceId × ℕ) → NodeProc (List DeviceId)
  | [] => pure []
  | (d, _) :: rest =>
    match ownerInService C d with
    | none => removeStaleCopies record rest
    | some owner => do
      connectTo X C owner
      request X owner (deleteVersion X C owner d record.keyHash record.version)
      let removed ← removeStaleCopies record rest
      pure (d :: removed)

/-! ## New devices -/

def recordShardBytes (scheme : Scheme) (record : MetadataRecord) : Except ErrorDetail ℕ :=
  if record.size = 0 then .ok 0
  else
    match shardFileLength scheme record.blockSize record.size with
    | none => .error (.new .internal "cannot size shard file")
    | some bytes => .ok bytes

def eligibleFor (record : MetadataRecord) (shardBytes : ℕ) (d : DeviceStatus) : Bool :=
  d.state == .active && d.available && d.freeBytes ≥ shardBytes &&
    !(record.shards.map ShardLocation.device).contains d.device

/-- The record at the next revision, with one shard placed anew. -/
def movedTo (index : ℕ) (d : DeviceId) (record : MetadataRecord) : MetadataRecord :=
  { record with shards := record.shards.map fun s => if s.index = index then { s with device := d } else s }

/-- Choose a device for each lost shard as a write would. -/
def chooseRelocations (record : MetadataRecord) (lost : List ℕ) (shardBytes : ℕ) (statuses : List DeviceStatus) :
    Except ErrorDetail (MetadataRecord × List (ℕ × DeviceId)) :=
  let ranked := (statuses.filter (eligibleFor record shardBytes)).insertionSort DeviceStatus.Roomier
  if ranked.length < lost.length then
    .error
      { ErrorDetail.new .insufficientDevices
          (counted lost.length "shard is" "shards are" ++ " on devices no longer in the cluster, but only " ++
            counted ranked.length "active device" "active devices" ++ s!" with {shardBytes} bytes free " ++
            (if ranked.length = 1 then "holds" else "hold") ++ " no shard of this version") with
        key := some record.key, version := some record.version }
  else
    let relocations := (lost.zip ranked).map fun p => (p.1, p.2.device)
    .ok (relocations.foldl (fun r p => movedTo p.1 p.2 r) { record with revision := record.revision + 1 }, relocations)

/-- The record with its lost shards on new devices, and the devices chosen. -/
def relocateLostShards (record : MetadataRecord) (lost : List ℕ) : Coord (MetadataRecord × List (ℕ × DeviceId)) :=
  if lost.isEmpty then pure (record, [])
  else do
    let scheme ← require (record.scheme.mapError fun e => .new .recordsInconsistent e.message)
    let shardBytes ← require (recordShardBytes scheme record)
    let statuses ← broadcastStatus X C
    require (chooseRelocations record lost shardBytes statuses)

/-- Every device of the record, the newly chosen ones first. -/
def devicesNewFirst (record : MetadataRecord) (relocations : List (ℕ × DeviceId)) : List DeviceId :=
  let chosen := relocations.map Prod.snd
  chosen ++ (record.shards.map ShardLocation.device).filter fun d => !chosen.contains d

/-! ## Streams -/

/-- One request over a connection of which the node's own refusal is an answer like any other. -/
def askNode {α : Type} (target : NodeId) (handler : NodeProc α) : NodeProc (Except ErrorDetail α) := ExceptT.mk do
  let result ← handler.run
  match ← (Task.perform (Op.transfer target) : Task Op Resp (Except String Unit)) with
  | .error reason => pure (.error
      { ErrorDetail.new .nodeUnreachable (showNode X target ++ " failed mid-request: " ++ reason) with
        node := some target })
  | .ok () => pure (.ok result)

/-- A shard as a repair begins with it. A node's refusal makes it a damaged shard; a device out of service a lost
one. -/
def openRepairSource (record : MetadataRecord) (blockCount index : ℕ) : NodeProc RepairSource :=
  match record.deviceFor index with
  | none => throw (.new .internal "validated record lists every index")
  | some d =>
    match ownerInService C d with
    | none => pure ⟨index, d, 0, none, .lost⟩
    | some owner => do
      connectTo X C owner
      match ← askNode X owner (getShard X C owner d record.keyHash record.version index 0 blockCount) with
      | .ok file => pure ⟨index, d, owner, some ⟨index, d, owner, file, 0, blockCount⟩, .intact⟩
      | .error detail => pure ⟨index, d, owner, none, .unreadable detail.message⟩

def openRepairSources (record : MetadataRecord) (blockCount : ℕ) : List ℕ → NodeProc (List RepairSource)
  | [] => pure []
  | index :: rest => do
    let source ← openRepairSource X C record blockCount index
    let sources ← openRepairSources record blockCount rest
    pure (source :: sources)

def readRepairBlock (record : MetadataRecord) (key : String) (stripe : ℕ) (source : RepairSource) :
    NodeProc (List ShardBlock × RepairSource) :=
  match source.stream with
  | none => pure ([], source)
  | some stream => do
    match ← readStreamItem X record stream with
    | .data frame =>
      if frame.sequence ≠ stripe then
        throw { stripeDetail key record stripe (.new .protocolViolation
            s!"node sent block {frame.sequence} when {stripe} was expected") with
          node := some source.owner, device := some source.device, shardIndex := some source.index }
      else pure ([⟨source.index, frame.bytes, frame.checksum⟩],
        { source with stream := some { stream with next := stream.next + 1 } })
    | .ended error => pure ([],
        { source with
          stream := none
          condition := .unreadable ((error.map ErrorDetail.message).getD "stream ended early") })

/-- One block for a stripe from every source that still has a stream. -/
def readRepairStripe (record : MetadataRecord) (key : String) (stripe : ℕ) :
    List RepairSource → NodeProc (List ShardBlock × List RepairSource)
  | [] => pure ([], [])
  | source :: rest => do
    let (block, source) ← readRepairBlock X record key stripe source
    let (blocks, sources) ← readRepairStripe record key stripe rest
    pure (block ++ blocks, source :: sources)

def finishRepairStreams (record : MetadataRecord) (key : String) (sources : List RepairSource) : NodeProc Unit :=
  endSources X record key (sources.filterMap RepairSource.stream)

def reopenIntactStreams (record : MetadataRecord) (blockCount : ℕ) : List RepairSource → NodeProc (List RepairSource)
  | [] => pure []
  | source :: rest =>
    if source.condition = .intact then do
      connectTo X C source.owner
      let file ← request X source.owner
        (getShard X C source.owner source.device record.keyHash record.version source.index 0 blockCount)
      let readers ← reopenIntactStreams record blockCount rest
      pure (⟨source.index, source.device, source.owner,
        some ⟨source.index, source.device, source.owner, file, 0, blockCount⟩, .intact⟩ :: readers)
    else reopenIntactStreams record blockCount rest

/-! ## Rebuilding -/

def openTargets (scheme : Scheme) (key : String) (record : MetadataRecord) :
    List (ℕ × DeviceId) → NodeProc (List ShardWriter)
  | [] => pure []
  | (index, d) :: rest =>
    match C.document.device d with
    | none => throw
        { ErrorDetail.new .deviceUnavailable (showDevice X d ++ " is not in the cluster document") with
          device := some d, key := some key, version := some record.version, shardIndex := some index }
    | some entry => do
      connectTo X C entry.node
      request X entry.node (beginShard X C entry.node d record.keyHash record.version index scheme.dataShards
        scheme.parityShards record.blockSize record.size)
      let writers ← openTargets scheme key record rest
      pure (⟨index, d, entry.node, []⟩ :: writers)

def sendRebuilt (blocks : List ShardBlock) : List ShardWriter → NodeProc (List ShardWriter)
  | [] => pure []
  | writer :: rest =>
    match blocks[writer.index]? with
    | none => throw (.new .internal "index out of bounds")
    | some block => do
      sendTo X writer.owner
      let writers ← sendRebuilt blocks rest
      pure ({ writer with blocks := writer.blocks ++ [⟨writer.index, block.bytes, block.checksum⟩] } :: writers)

def stripeLength (scheme : Scheme) (record : MetadataRecord) (stripe : ℕ) : ℕ :=
  min (record.size - stripe * (scheme.dataShards * record.blockSize)) (scheme.dataShards * record.blockSize)

/-- Decode the stripes from one on, encode them again and send the blocks asked for. -/
def rebuildStripes (code : ReedSolomonCode) (key : String) (record : MetadataRecord) :
    ℕ → ℕ → List RepairSource → List ShardWriter → NodeProc (List RepairSource × List ShardWriter)
  | 0, _, readers, writers => pure (readers, writers)
  | remaining + 1, stripe, readers, writers => do
    let (received, readers) ← readRepairStripe X record key stripe readers
    match decodeStripe X.xxh3 code code.scheme.shardIndices received (stripeLength code.scheme record stripe) with
    | .error _ => throw (.new .internal "stripe error")
    | .ok (.unrecoverable _ _ _) =>
      throw (.new .blockChecksumMismatch s!"stripe {stripe} became unrecoverable between passes")
    | .ok (.intact data) | .ok (.repaired data _) =>
      match encodeStripe X.xxh3 code data record.blockSize with
      | .error _ => throw (.new .internal "encode failed")
      | .ok blocks => do
        let writers ← sendRebuilt X blocks writers
        rebuildStripes code key record remaining (stripe + 1) readers writers

/-- Write the shards asked for from the intact ones. A file is put in place complete or not at all. -/
def rebuildShards (key : String) (record : MetadataRecord) (sources : List RepairSource)
    (targets : List (ℕ × DeviceId)) : Coord Unit := do
  let scheme ← require (record.scheme.mapError fun e => .new .recordsInconsistent e.message)
  let geometry ← require
    (match shardGeometry scheme record.blockSize record.size with
      | some geometry => .ok geometry
      | none => .error (.new .recordsInconsistent "record has an impossible size"))
  let code := ReedSolomonCode.new X.reedSolomon scheme
  let writers ← callNode (openTargets X C scheme key record targets)
  let readers ← callNode (reopenIntactStreams X C record geometry.blockCount sources)
  let (readers, writers) ← callNode (rebuildStripes X code key record geometry.blockCount 0 readers writers)
  callNode (finishRepairStreams X record key readers)
  finishWriters X C scheme record record.objectChecksum writers

/-! ## The whole repair -/

/-- What the first pass found: the object's bytes, and the faulty blocks as shard index and stripe. -/
structure Survey where
  hashed : Bytes
  faults : List (ℕ × ℕ)

def surveyStripes (code : ReedSolomonCode) (key : String) (record : MetadataRecord) :
    ℕ → ℕ → List RepairSource → Survey → NodeProc (List RepairSource × Survey)
  | 0, _, sources, survey => pure (sources, survey)
  | remaining + 1, stripe, sources, survey => do
    let (received, sources) ← readRepairStripe X record key stripe sources
    match decodeStripe X.xxh3 code code.scheme.shardIndices received (stripeLength code.scheme record stripe) with
    | .error _ => throw (.new .internal "stripe error")
    | .ok (.intact data) =>
      surveyStripes code key record remaining (stripe + 1) sources { survey with hashed := survey.hashed ++ data }
    | .ok (.repaired data faults) =>
      surveyStripes code key record remaining (stripe + 1) sources
        ⟨survey.hashed ++ data, survey.faults ++ faults.map fun fault => (fault.index, stripe)⟩
    | .ok (.unrecoverable usable needed faults) =>
      throw (stripeDetail key record stripe (.new .blockChecksumMismatch
        (s!"stripe {stripe} has {usable} usable blocks of {needed} needed; " ++
          counted faults.length "damaged shard" "damaged shards" ++ s!": {faults.map BlockFault.index}")))

def surveyed (faults : List (ℕ × ℕ)) (source : RepairSource) : RepairSource :=
  let stripes := (faults.filter fun f => f.1 == source.index).map Prod.snd
  if source.stream.isSome && !stripes.isEmpty then { source with condition := .corruptBlocks stripes } else source

def reportShards (sources : List RepairSource) (rewritten : List ℕ) (relocations : List (ℕ × DeviceId)) :
    List ShardRepair :=
  sources.map fun s => ⟨s.index, s.device, s.condition, rewritten.contains s.index,
    (relocations.find? fun r => r.1 == s.index).map Prod.snd⟩

/-- The device is listed and not removed. -/
def inService (d : DeviceId) : Bool := (C.document.device d).any fun e => e.state != .removed

/-- The records of a repair, once its shards are in place: at the next revision if shards were placed anew. -/
def mendRecords (record next : MetadataRecord) (relocations : List (ℕ × DeviceId)) (missing : List DeviceId)
    (stale : List (DeviceId × ℕ)) : NodeProc (List DeviceId × List DeviceId) := do
  let devices := if relocations.isEmpty then missing else devicesNewFirst next relocations
  rewriteRecordCopies X C (if relocations.isEmpty then record else next) devices
  let removed ← removeStaleCopies X C record stale
  pure (devices, removed)

/-- The first pass: every stripe from every readable shard. -/
def surveyObject (scheme : Scheme) (key : String) (record : MetadataRecord) (blockCount : ℕ) :
    NodeProc (List RepairSource) := do
  let code := ReedSolomonCode.new X.reedSolomon scheme
  let sources ← openRepairSources X C record blockCount scheme.shardIndices
  let (sources, survey) ← surveyStripes X code key record blockCount 0 sources ⟨[], []⟩
  finishRepairStreams X record key sources
  if X.xxh3 survey.hashed ≠ record.objectChecksum then
    throw { ErrorDetail.new .objectChecksumMismatch ("the intact shards decode to an object with checksum " ++
          debugChecksum (X.xxh3 survey.hashed) ++ ", but the record says " ++ debugChecksum record.objectChecksum ++
          "; nothing rewritten") with
      key := some key, version := some record.version }
  else pure (sources.map (surveyed survey.faults))

def repairTargets (damaged : List RepairSource) (relocations : List (ℕ × DeviceId)) : List (ℕ × DeviceId) :=
  damaged.map fun s => (s.index, ((relocations.find? fun r => r.1 == s.index).map Prod.snd).getD s.device)

def repairObject (fuel : ℕ) (key : String) : Coord RepairReport := do
  let found ← repairableRecord X C fuel key
  let record := found.record
  let scheme ← require (record.scheme.mapError fun e => .new .recordsInconsistent e.message)
  let lost := (record.shards.filter fun s => !inService C s.device).map ShardLocation.index
  let missing := found.missing.filter (inService C)
  if record.size = 0 then do
    let (next, relocations) ← relocateLostShards X C record lost
    let (rewritten, removed) ← callNode (mendRecords X C record next relocations missing found.stale)
    let shards := record.shards.map fun s =>
      let relocated := (relocations.find? fun r => r.1 == s.index).map Prod.snd
      (⟨s.index, s.device, if relocated.isSome then .lost else .intact, false, relocated⟩ : ShardRepair)
    pure ⟨key, record.version, shards, rewritten, removed⟩
  else do
    let geometry ← require
      (match shardGeometry scheme record.blockSize record.size with
        | some geometry => .ok geometry
        | none => .error (.new .recordsInconsistent "record has an impossible size"))
    let sources ← callNode (surveyObject X C scheme key record geometry.blockCount)
    let damaged := sources.filter fun s => s.condition ≠ .intact
    if damaged.isEmpty then do
      let (rewritten, removed) ← callNode (mendRecords X C record record [] missing found.stale)
      pure ⟨key, record.version, reportShards sources [] [], rewritten, removed⟩
    else do
      let (next, relocations) ← relocateLostShards X C record lost
      let targets := repairTargets damaged relocations
      rebuildShards X C key record sources targets
      let (rewritten, removed) ← callNode (mendRecords X C record next relocations missing found.stale)
      pure ⟨key, record.version, reportShards sources (targets.map Prod.fst) relocations, rewritten, removed⟩

end

end Djbod
