import Djbod.Core.Record

/-!
# The cluster document

The versioned document every node holds: the scheme, the limits, the nodes and the devices.

* `ClusterDocument` with its lookups `node`, `activeNodes`, `device`;
* `ClusterDocument.validate` : the checks made whenever a document is created or received, over the
  text rules (`TextRules`) of the standard library and the UUID library; `validate_checks` : what a document that passes
  them keeps to.
-/

namespace Djbod

abbrev NodeId := ℕ

structure SocketAddr where
  ip : ℕ
  port : ℕ
  deriving DecidableEq, Repr

inductive NodeState where
  | active
  | removed
  deriving DecidableEq, Repr

structure NodeEntry where
  id : NodeId
  addresses : List String
  label : Option String
  state : NodeState
  deriving DecidableEq

inductive Transport where
  | plain
  | tlsOptional
  | tls
  deriving DecidableEq, Repr

inductive DeviceState where
  | active
  | draining
  | removed
  deriving DecidableEq, Repr

structure DeviceEntry where
  id : DeviceId
  node : NodeId
  state : DeviceState
  label : Option String
  deriving DecidableEq

inductive IndependenceLevel where
  | device
  deriving DecidableEq, Repr

structure ClusterDocument where
  version : ℕ
  clusterId : ℕ
  name : Option String
  k : ℕ
  m : ℕ
  blockSize : ℕ
  independenceLevel : IndependenceLevel
  headroom : ℚ
  maxKeyBytes : ℕ
  maxObjectBytes : ℕ
  maxUserMetadataBytes : ℕ
  transport : Transport
  nodes : List NodeEntry
  devices : List DeviceEntry
  deriving DecidableEq

/-- How texts are read: addresses, UUIDs, and which characters are blank or control characters. -/
structure TextRules where
  parseSocketAddr : String → Except String SocketAddr
  parseUuid : String → Option ℕ
  isWhitespace : Char → Bool
  isControl : Char → Bool
  trim : String → String

def maxLabelBytes : ℕ := 128
def minBlockSizeBytes : ℕ := 64 * 1024
def maxBlockSizeBytes : ℕ := 64 * 1024 * 1024
def limitMaxKeyBytes : ℕ := 1024 * 1024
def limitMaxUserMetadataBytes : ℕ := 48 * 1024 * 1024

inductive ClusterDocumentError where
  | invalidScheme (e : SchemeError)
  | badBlockSize (size : ℕ)
  | badHeadroom
  | badKeyLimit (limit : ℕ)
  | badObjectLimit
  | badMetadataLimit (limit : ℕ)
  | duplicateNode (node : NodeId)
  | noAddresses (node : NodeId)
  | badAddress (node : NodeId) (address reason : String)
  | duplicateAddress (address : String)
  | duplicateDevice (device : DeviceId)
  | badLabel (label reason : String)
  | nilClusterId
  | badClusterName (name reason : String)
  | duplicateLabel (label : String)
  | unknownNode (device : DeviceId) (node : NodeId)
  deriving DecidableEq, Repr

section Labels

variable (text : TextRules)

/-- Whether `label` may name a device or a node. -/
def validateLabel (label : String) : Except ClusterDocumentError Unit :=
  if label.isEmpty || label.utf8ByteSize > maxLabelBytes then
    .error (.badLabel label "must be 1 to 128 bytes")
  else if label.toList.any fun c => text.isWhitespace c || text.isControl c then
    .error (.badLabel label "must not contain whitespace or control characters")
  else if (text.parseUuid label).isSome then .error (.badLabel label "looks like a UUID")
  else .ok ()

def validateClusterName (name : String) : Except ClusterDocumentError Unit :=
  if name.isEmpty || name.utf8ByteSize > maxLabelBytes then
    .error (.badClusterName name "must be 1 to 128 bytes")
  else if name.toList.any text.isControl then
    .error (.badClusterName name "must not contain control characters")
  else if text.trim name ≠ name then
    .error (.badClusterName name "must not start or end with whitespace")
  else .ok ()

end Labels

namespace ClusterDocument

def scheme (d : ClusterDocument) : Except SchemeError Scheme := Scheme.new d.k d.m

def node (d : ClusterDocument) (id : NodeId) : Option NodeEntry := d.nodes.find? fun n => n.id == id

/-- The nodes that are members; a removed node is a tombstone and takes no part. -/
def activeNodes (d : ClusterDocument) : List NodeEntry := d.nodes.filter fun n => n.state == .active

def device (d : ClusterDocument) (id : DeviceId) : Option DeviceEntry := d.devices.find? fun e => e.id == id

section Validate

variable (text : TextRules)

def checkNodeIds : List NodeId → List NodeEntry → Except ClusterDocumentError Unit
  | _, [] => .ok ()
  | seen, n :: rest => if n.id ∈ seen then .error (.duplicateNode n.id) else checkNodeIds (n.id :: seen) rest

/-- Every address parses; an active node's is listed once. Returns the addresses seen. -/
def checkAddresses (n : NodeEntry) : List String → List String → Except ClusterDocumentError (List String)
  | seen, [] => .ok seen
  | seen, address :: rest =>
    match text.parseSocketAddr address with
    | .error reason => .error (.badAddress n.id address reason)
    | .ok _ =>
      if n.state = .removed then checkAddresses n seen rest
      else if address ∈ seen then .error (.duplicateAddress address)
      else checkAddresses n (address :: seen) rest

def checkNodeAddresses : List String → List NodeEntry → Except ClusterDocumentError Unit
  | _, [] => .ok ()
  | seen, n :: rest =>
    if n.addresses.isEmpty then .error (.noAddresses n.id)
    else
      match checkAddresses text n seen n.addresses with
      | .error e => .error e
      | .ok seen => checkNodeAddresses seen rest

/-- Device ids are listed once, each on a listed node. -/
def checkDevices (nodeIds : List NodeId) : List DeviceId → List DeviceEntry → Except ClusterDocumentError Unit
  | _, [] => .ok ()
  | seen, d :: rest =>
    if d.id ∈ seen then .error (.duplicateDevice d.id)
    else if d.node ∉ nodeIds then .error (.unknownNode d.id d.node)
    else checkDevices nodeIds (d.id :: seen) rest

/-- Labels are usable, and no two entries that count share one. -/
def checkLabels : List String → List (Option String × Bool) → Except ClusterDocumentError Unit
  | _, [] => .ok ()
  | seen, (none, _) :: rest => checkLabels seen rest
  | seen, (some label, counts) :: rest =>
    match validateLabel text label with
    | .error e => .error e
    | .ok () =>
      if !counts then checkLabels seen rest
      else if label ∈ seen then .error (.duplicateLabel label)
      else checkLabels (label :: seen) rest

/-- The sanity checks applied whenever a document is created or received. -/
def validate (d : ClusterDocument) : Except ClusterDocumentError Unit := do
  if d.clusterId = 0 then .error .nilClusterId
  match d.scheme with
  | .error e => .error (.invalidScheme e)
  | .ok _ => .ok ()
  if d.blockSize % 4096 ≠ 0 ∨ d.blockSize < minBlockSizeBytes ∨ d.blockSize > maxBlockSizeBytes then
    .error (.badBlockSize d.blockSize)
  if ¬ (0 ≤ d.headroom ∧ d.headroom ≤ 1 / 2) then .error .badHeadroom
  if ¬ (1 ≤ d.maxKeyBytes ∧ d.maxKeyBytes ≤ limitMaxKeyBytes) then .error (.badKeyLimit d.maxKeyBytes)
  if d.maxObjectBytes = 0 then .error .badObjectLimit
  if ¬ (1 ≤ d.maxUserMetadataBytes ∧ d.maxUserMetadataBytes ≤ limitMaxUserMetadataBytes) then
    .error (.badMetadataLimit d.maxUserMetadataBytes)
  checkNodeIds [] d.nodes
  checkNodeAddresses text [] d.nodes
  checkDevices (d.nodes.map NodeEntry.id) [] d.devices
  checkLabels text [] (d.devices.map fun e => (e.label, true))
  match d.name with
  | some name => validateClusterName text name
  | none => .ok ()
  checkLabels text [] (d.nodes.map fun n => (n.label, n.state == .active))

/-- The scheme and the limits of a document that passes its checks. -/
structure Limits (d : ClusterDocument) : Prop where
  scheme : ∃ scheme, d.scheme = .ok scheme
  blockSize_aligned : d.blockSize % 4096 = 0
  blockSize_ge : minBlockSizeBytes ≤ d.blockSize
  blockSize_le : d.blockSize ≤ maxBlockSizeBytes
  maxKeyBytes_le : d.maxKeyBytes ≤ limitMaxKeyBytes
  maxUserMetadataBytes_le : d.maxUserMetadataBytes ≤ limitMaxUserMetadataBytes

theorem validate_checks {text : TextRules} {d : ClusterDocument} (h : d.validate text = .ok ()) :
    d.Limits ∧ checkNodeAddresses text [] d.nodes = .ok () := by
  unfold validate at h
  by_cases hid : d.clusterId = 0
  · rw [if_pos hid] at h
    cases h
  rw [if_neg hid] at h
  cases hscheme : d.scheme with
  | error e =>
    simp only [hscheme] at h
    cases h
  | ok scheme =>
    simp only [hscheme] at h
    by_cases hblock : d.blockSize % 4096 ≠ 0 ∨ d.blockSize < minBlockSizeBytes ∨ d.blockSize > maxBlockSizeBytes
    · rw [if_pos hblock] at h
      cases h
    rw [if_neg hblock] at h
    by_cases hhead : ¬ (0 ≤ d.headroom ∧ d.headroom ≤ 1 / 2)
    · rw [if_pos hhead] at h
      cases h
    rw [if_neg hhead] at h
    by_cases hkey : ¬ (1 ≤ d.maxKeyBytes ∧ d.maxKeyBytes ≤ limitMaxKeyBytes)
    · rw [if_pos hkey] at h
      cases h
    rw [if_neg hkey] at h
    by_cases hobject : d.maxObjectBytes = 0
    · rw [if_pos hobject] at h
      cases h
    rw [if_neg hobject] at h
    by_cases hmeta : ¬ (1 ≤ d.maxUserMetadataBytes ∧ d.maxUserMetadataBytes ≤ limitMaxUserMetadataBytes)
    · rw [if_pos hmeta] at h
      cases h
    rw [if_neg hmeta] at h
    refine ⟨⟨⟨scheme, hscheme⟩, by omega, by omega, by omega, (not_not.mp hkey).2, (not_not.mp hmeta).2⟩, ?_⟩
    cases hids : checkNodeIds [] d.nodes with
    | error e =>
      simp only [hids] at h
      cases h
    | ok _ =>
      cases haddresses : checkNodeAddresses text [] d.nodes with
      | error e =>
        simp only [hids, haddresses] at h
        cases h
      | ok _ => rfl

end Validate

end ClusterDocument

/-- Addresses and labels as a test reads them: every text is an address, none is a UUID. -/
def plainText : TextRules := ⟨fun _ => .ok ⟨0, 0⟩, fun _ => none, fun _ => false, fun _ => false, id⟩

def pairDocument : ClusterDocument where
  version := 1
  clusterId := 7
  name := none
  k := 1
  m := 1
  blockSize := 65536
  independenceLevel := .device
  headroom := 0
  maxKeyBytes := 16
  maxObjectBytes := 1024
  maxUserMetadataBytes := 16
  transport := .plain
  nodes := [⟨1, ["a"], none, .active⟩, ⟨2, ["b"], none, .active⟩]
  devices := [⟨1, 1, .active, none⟩, ⟨2, 2, .active, none⟩]

end Djbod
