import Djbod.Core.Cluster

/-!
# Changes of the cluster document

Every administration command reads the current document, checks what it is asked for, and builds the document to
propose.

* `AdminError`, `MembershipError` : what can go wrong;
* `setDeviceState`, `removeDevice`, `removeNode` and the others : the document each command proposes, `none` if nothing
  changes;
* `openOrInitialise`, `joinDevices`, `addDevices`, `documentWithThisNode` : the commands run on the machine of a node.
-/

namespace Djbod

/-- A version whose current record places shards on the devices looked for. -/
structure VersionReference where
  key : String
  version : VersionId
  shards : ℕ
  m : ℕ
  deriving DecidableEq

inductive AdminError where
  | badAddress (node : NodeId) (address reason : String)
  | unreachable (node : NodeId) (address reason : String)
  | versionsDiffer (versions : List (NodeId × ℕ))
  | diverged (version : ℕ) (a b : NodeId)
  | staleProposal (expected found : ℕ)
  | superseded (node : NodeId) (reason : String)
  | partlyApplied (applied : List NodeId) (failed : NodeId) (reason : String)
  | peerUnreachable (address : SocketAddr) (reason : String)
  | tooManyRetries (attempts : ℕ)
  | document (e : ClusterDocumentError)
  | unknownDevice (device : DeviceId)
  | unknownNode (node : NodeId)
  | nodeRemoved (node : NodeId)
  | stillReferenced (what : String) (versions : ℕ) (examples : List String)
  | deviceActive (device : DeviceId)
  | nodeHasActiveDevices (node : NodeId) (devices : List DeviceId)
  | nodeIsAlive (node : NodeId) (address : String)
  | lastNode
  | nodeNotTlsReady (node : NodeId) (address : String)
  | tlsRequired (transport : Transport)
  | tooFewActiveDevices (active needed k m : ℕ)
  deriving DecidableEq

namespace ClusterDocument

variable (current : ClusterDocument)

/-! ## Successors -/

/-- The successor in which each node and each device is changed as given. -/
def successor (node : NodeEntry → NodeEntry) (device : DeviceEntry → DeviceEntry) : ClusterDocument :=
  { current with
    version := current.version + 1, nodes := current.nodes.map node, devices := current.devices.map device }

def withDeviceState (device : DeviceId) (state : DeviceState) : ClusterDocument :=
  current.successor id fun candidate => if candidate.id = device then { candidate with state := state } else candidate

def withDeviceLabel (device : DeviceId) (label : Option String) : ClusterDocument :=
  current.successor id fun candidate => if candidate.id = device then { candidate with label := label } else candidate

def withNodeLabel (node : NodeId) (label : Option String) : ClusterDocument :=
  current.successor (fun candidate => if candidate.id = node then { candidate with label := label } else candidate) id

def withNodeAddresses (node : NodeId) (addresses : List String) : ClusterDocument :=
  current.successor (fun candidate =>
    if candidate.id = node then { candidate with addresses := addresses } else candidate) id

def documentWithNodeRemoved (node : NodeId) : ClusterDocument :=
  current.successor (fun entry => if entry.id = node then { entry with state := .removed } else entry)
    fun device => if device.node = node then { device with state := .removed } else device

/-! ## What each command proposes -/

def setDeviceState (device : DeviceId) (state : DeviceState) : Except AdminError (Option ClusterDocument) :=
  match current.device device with
  | none => .error (.unknownDevice device)
  | some entry => if entry.state = state then .ok none else .ok (some (current.withDeviceState device state))

def setScheme (k m : ℕ) (blockSize : Option ℕ) : Except AdminError (Option ClusterDocument) :=
  let blockSize := blockSize.getD current.blockSize
  if current.k = k ∧ current.m = m ∧ current.blockSize = blockSize then .ok none
  else
    let active := (current.devices.filter fun d => d.state = .active).length
    if active < k + m then .error (.tooFewActiveDevices active (k + m) k m)
    else .ok (some { current with version := current.version + 1, k := k, m := m, blockSize := blockSize })

def setLimits (maxKeyBytes maxObjectBytes maxUserMetadataBytes : Option ℕ) :
    Except AdminError (Option ClusterDocument) :=
  let next := { current with
    maxKeyBytes := maxKeyBytes.getD current.maxKeyBytes
    maxObjectBytes := maxObjectBytes.getD current.maxObjectBytes
    maxUserMetadataBytes := maxUserMetadataBytes.getD current.maxUserMetadataBytes }
  if next = current then .ok none else .ok (some { next with version := next.version + 1 })

def setNodeLabel (node : NodeId) (label : Option String) : Except AdminError (Option ClusterDocument) :=
  match current.node node with
  | none => .error (.unknownNode node)
  | some entry => if entry.label = label then .ok none else .ok (some (current.withNodeLabel node label))

def setClusterName (name : Option String) : Except AdminError (Option ClusterDocument) :=
  if current.name = name then .ok none else .ok (some { current with version := current.version + 1, name := name })

def setNodeAddresses (node : NodeId) (addresses : List String) : Except AdminError (Option ClusterDocument) :=
  match current.node node with
  | none => .error (.unknownNode node)
  | some entry =>
    if entry.addresses = addresses then .ok none else .ok (some (current.withNodeAddresses node addresses))

def setDeviceLabel (device : DeviceId) (label : Option String) : Except AdminError (Option ClusterDocument) :=
  match current.device device with
  | none => .error (.unknownDevice device)
  | some entry => if entry.label = label then .ok none else .ok (some (current.withDeviceLabel device label))

/-- Every node says that it has TLS material; `ready` is what they answer. -/
def checkTlsReady (ready : NodeEntry → Except AdminError Bool) : List NodeEntry → Except AdminError Unit
  | [] => .ok ()
  | entry :: rest =>
    match ready entry with
    | .error e => .error e
    | .ok false => .error (.nodeNotTlsReady entry.id (entry.addresses.headD ""))
    | .ok true => checkTlsReady ready rest

/-- Moving off `plain` is refused until every node has TLS material. -/
def setTransport (transport : Transport) (ready : NodeEntry → Except AdminError Bool) :
    Except AdminError (Option ClusterDocument) :=
  if current.transport = transport then .ok none
  else
    match if transport = .plain then .ok () else checkTlsReady ready current.activeNodes with
    | .error e => .error e
    | .ok () => .ok (some { current with version := current.version + 1, transport := transport })

def stillReferenced (what : String) (references : List VersionReference) : AdminError :=
  .stillReferenced what references.length ((references.take 5).map VersionReference.key)

/-- Without draining the device or looking for references to it. -/
def removeDeviceForced (device : DeviceId) : Except AdminError (Option ClusterDocument) :=
  match current.device device with
  | none => .error (.unknownDevice device)
  | some entry => if entry.state = .removed then .ok none else .ok (some (current.withDeviceState device .removed))

/-- `references` is what the scan of all records finds. -/
def removeDevice (device : DeviceId) (references : Except AdminError (List VersionReference)) :
    Except AdminError (Option ClusterDocument) :=
  match current.device device with
  | none => .error (.unknownDevice device)
  | some entry =>
    if entry.state = .removed then .ok none
    else if entry.state = .active then .error (.deviceActive device)
    else
      match references with
      | .error e => .error e
      | .ok references =>
        if references ≠ [] then .error (stillReferenced s!"device {device}" references)
        else .ok (some (current.withDeviceState device .removed))

/-- Whether `node` may be removed: it is listed, not a tombstone, and not the last active node. -/
def checkRemovable (node : NodeId) : Except AdminError Unit :=
  match current.node node with
  | none => .error (.unknownNode node)
  | some entry =>
    if entry.state = .removed then .error (.nodeRemoved node)
    else if current.activeNodes.length = 1 then .error .lastNode
    else .ok ()

def removeNode (node : NodeId) (references : Except AdminError (List VersionReference)) :
    Except AdminError (Option ClusterDocument) :=
  match current.checkRemovable node with
  | .error e => .error e
  | .ok () =>
    let active := (current.devices.filter fun d => d.node = node ∧ d.state = .active).map DeviceEntry.id
    if active ≠ [] then .error (.nodeHasActiveDevices node active)
    else
      match references with
      | .error e => .error e
      | .ok references =>
        if references ≠ [] then .error (stillReferenced s!"node {node}" references)
        else .ok (some (current.documentWithNodeRemoved node))

/-- The two steps of a forced removal, for a node that does not answer. -/
def removeNodeForced (node : NodeId) (answers : Bool) : Except AdminError (Option ClusterDocument) :=
  match current.checkRemovable node with
  | .error e => .error e
  | .ok () =>
    if answers then .error (.nodeIsAlive node (((current.node node).bind fun n => n.addresses.head?).getD ""))
    else .ok (some (current.documentWithNodeRemoved node))

end ClusterDocument

/-! ## A node's own membership -/

/-- The part of a node's configuration that its membership depends on. -/
structure NodeConfig where
  nodeId : NodeId
  address : String
  tls : Bool

/-- What a configured directory holds: nothing, or a device initialised for the cluster. `fresh` is the identity that
initialising it gives. -/
inductive DevicePath where
  | empty (fresh : DeviceId)
  | holds (existing fresh : DeviceId)

inductive MembershipError where
  | admin (e : AdminError)
  | alreadyMember (device : DeviceId)
  | removedNode (node : NodeId)
  | removedDevice (device : DeviceId)

namespace ClusterDocument

variable (document : ClusterDocument)

def inUse (device : DeviceId) : Bool := (document.device device).any fun d => d.state != .removed

/-- A directory for `join` or `add-device`: initialised if empty, used as it is if the document lists its device, and a
removed device only after erasing it. -/
def openOrInitialise (wipeRemoved : Bool) : DevicePath → Except MembershipError DeviceId
  | .empty fresh => .ok fresh
  | .holds existing fresh =>
    if document.inUse existing then .ok existing
    else if wipeRemoved then .ok fresh
    else .error (.removedDevice existing)

/-- A node without TLS material does not join a cluster that needs it, and a removed node's id is never revived. -/
def checkJoin (config : NodeConfig) : Except MembershipError Unit :=
  if document.transport ≠ .plain ∧ config.tls = false then .error (.admin (.tlsRequired document.transport))
  else if (document.node config.nodeId).any fun n => n.state == .removed then .error (.removedNode config.nodeId)
  else .ok ()

/-- What `join` does before it proposes: the devices of the node. -/
def joinDevices (config : NodeConfig) (wipeRemoved : Bool) (paths : List DevicePath) :
    Except MembershipError (List DeviceId) :=
  match document.checkJoin config with
  | .error e => .error e
  | .ok () => paths.mapM (document.openOrInitialise wipeRemoved)

def addDevices (wipeRemoved : Bool) (paths : List DevicePath) : Except MembershipError (List DeviceId) :=
  paths.mapM fun path =>
    match path with
    | .empty fresh => .ok fresh
    | .holds existing fresh =>
      if document.inUse existing then .error (.alreadyMember existing)
      else document.openOrInitialise wipeRemoved (.holds existing fresh)

def documentWithThisNode (config : NodeConfig) (devices : List DeviceId) : ClusterDocument :=
  let nodes :=
    if (document.node config.nodeId).isNone then document.nodes ++ [⟨config.nodeId, [config.address], none, .active⟩]
    else document.nodes
  { document with
    version := document.version + 1
    nodes := nodes
    devices := devices.foldl
      (fun listed device =>
        if (listed.find? fun e => e.id == device).isNone then listed ++ [⟨device, config.nodeId, .active, none⟩]
        else listed)
      document.devices }

/-- Nothing is left to propose: the node and the devices are listed. -/
def alreadyListed (config : NodeConfig) (devices : List DeviceId) : Bool :=
  (document.node config.nodeId).isSome && devices.all fun d => (document.device d).isSome

/-- One attempt of `join` or `add-device` to propose. -/
def proposeThisNode (config : NodeConfig) (devices : List DeviceId) : Option ClusterDocument :=
  if document.alreadyListed config devices then none else some (document.documentWithThisNode config devices)

end ClusterDocument

end Djbod
