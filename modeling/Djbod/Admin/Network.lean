import Djbod.Admin.Change
import Djbod.Sched.Wp

/-!
# Nodes, their documents, and the commands that talk to them

* `Net.Host`, `Net.World` : what each node has saved, and what its process holds;
* `Net.exec` : a node asked for its document, or sent one; `Net.Faulty` : the same with requests and answers lost;
* `Net.Env` : nodes stop, start again from what they saved, and adopt a newer document from a peer first;
* `proposeSkipping`, `sync`, `forceRemoval`, `join`, `addDevice` : the commands.
-/

namespace Djbod.Net

open Sched

/-- What never changes: how texts are read, the cluster the commands are for, and the node behind each address. -/
structure Setting where
  text : TextRules
  cluster : ℕ
  serves : SocketAddr → Option NodeId

/-! ## Nodes -/

/-- The process of a node: while it starts it holds the document it has read, and perhaps one that a peer answered
with. -/
inductive Process where
  | down
  | starting (document : ClusterDocument)
  | heard (document theirs : ClusterDocument)
  | running (document : ClusterDocument)
  deriving DecidableEq

structure Host where
  saved : Option ClusterDocument
  process : Process
  tls : Bool

abbrev World := NodeId → Host

inductive NodeError where
  | invalidDocument (e : ClusterDocumentError)
  | notNewer (current proposed : ℕ)
  | wrongCluster (ours proposed : ℕ)
  | tlsRequired (transport : Transport)
  deriving DecidableEq

/-- A node takes a document of its own cluster with a higher version than the one it holds. -/
def applyDocument (text : TextRules) (tls : Bool) (current proposed : ClusterDocument) : Except NodeError Unit :=
  match proposed.validate text with
  | .error e => .error (.invalidDocument e)
  | .ok () =>
    if proposed.clusterId ≠ current.clusterId then .error (.wrongCluster current.clusterId proposed.clusterId)
    else if proposed.version ≤ current.version then .error (.notNewer current.version proposed.version)
    else if proposed.transport ≠ .plain ∧ tls = false then .error (.tlsRequired proposed.transport)
    else .ok ()

def isMember (d : ClusterDocument) (n : NodeId) : Bool := (d.node n).any fun e => e.state == .active

/-- The host once it has taken a document: saved before it takes effect; a node that is no longer a member stops. -/
def Host.taking (h : Host) (n : NodeId) (d : ClusterDocument) : Host :=
  { h with saved := some d, process := if isMember d n then .running d else .down }

/-! ## Requests -/

inductive Op where
  | fetch (a : SocketAddr)
  | apply (a : SocketAddr) (d : ClusterDocument)
  | save (n : NodeId) (d : ClusterDocument)
  deriving DecidableEq

abbrev Resp : Op → Type
  | .fetch _ => Except String ClusterDocument
  | .apply _ _ => Except String Unit
  | .save _ _ => Except String Unit

/-- The document of the node behind an address, if its process runs and is of the cluster. -/
def World.answering (S : Setting) (w : World) (a : SocketAddr) : Option (NodeId × ClusterDocument) :=
  match S.serves a with
  | none => none
  | some n =>
    match (w n).process with
    | .running d => if d.clusterId = S.cluster then some (n, d) else none
    | _ => none

/-- What a request does and answers, when nothing is lost. -/
def exec (S : Setting) : (o : Op) → World → Resp o × World
  | .fetch a, w =>
    match w.answering S a with
    | some (_, d) => (.ok d, w)
    | none => (.error "no answer", w)
  | .apply a d, w =>
    match w.answering S a with
    | some (n, current) =>
      match applyDocument S.text (w n).tls current d with
      | .ok () => (.ok (), Function.update w n ((w n).taking n d))
      | .error _ => (.error "refused", w)
    | none => (.error "no answer", w)
  | .save n d, w => (.ok (), Function.update w n { w n with saved := some d })

def Resp.Failed : (o : Op) → Resp o → Prop
  | .fetch _, r => ∃ reason, r = .error reason
  | .apply _ _, r => ∃ reason, r = .error reason
  | .save _ _, r => ∃ reason, r = .error reason

/-- A request is carried out and answered, or fails, before or after it was carried out. -/
def Faulty (S : Setting) (o : Op) (w : World) (r : Resp o) (w' : World) : Prop :=
  (r, w') = exec S o w ∨ Resp.Failed o r ∧ (w' = w ∨ w' = (exec S o w).2)

/-! ## Starting and stopping -/

/-- The document to start with, when a peer answered with `theirs`. -/
def adopted (document theirs : ClusterDocument) : ClusterDocument :=
  if document.version < theirs.version then theirs else document

/-- The host once it has compared the two: only a newer document is saved. -/
def Host.adopting (h : Host) (document theirs : ClusterDocument) : Host :=
  { h with
    saved := if document.version < theirs.version then some theirs else h.saved
    process := .starting (adopted document theirs) }

/-- What happens to nodes besides requests. A node is listed at the address it is configured with, so that it proposes
nothing when it starts. -/
inductive Env : World → World → Prop where
  | stop (w : World) (n : NodeId) : Env w (Function.update w n { w n with process := .down })
  | boot (w : World) (n : NodeId) (d : ClusterDocument) (hdown : (w n).process = .down)
      (hsaved : (w n).saved = some d) : Env w (Function.update w n { w n with process := .starting d })
  | hear (w : World) (n m : NodeId) (d theirs : ClusterDocument) (hstart : (w n).process = .starting d)
      (hpeer : (w m).process = .running theirs) (hcluster : theirs.clusterId = d.clusterId) :
      Env w (Function.update w n { w n with process := .heard d theirs })
  | adopt (w : World) (n : NodeId) (d theirs : ClusterDocument) (hheard : (w n).process = .heard d theirs) :
      Env w (Function.update w n ((w n).adopting d theirs))
  | run (w : World) (n : NodeId) (d document : ClusterDocument) (hstart : (w n).process = .starting d)
      (hsaved : (w n).saved = some document) (hmember : isMember document n = true) :
      Env w (Function.update w n { w n with process := .running document })

def faulty (S : Setting) : Sys Op Resp World := ⟨Faulty S, Env⟩

/-! ## Commands -/

abbrev AdminProc (α : Type) := ExceptT AdminError (Task Op Resp) α

def ask {ε : Type} (o : Op) : ExceptT ε (Task Op Resp) (Resp o) := ExceptT.lift (Task.perform o)

def fetchDocument (a : SocketAddr) : AdminProc ClusterDocument := do
  match ← ask (.fetch a) with
  | .ok d => pure d
  | .error reason => throw (.peerUnreachable a reason)

def firstAddress (text : TextRules) (document : ClusterDocument) (node : NodeId) : Except AdminError SocketAddr :=
  let address := ((document.node node).bind fun e => e.addresses.head?).getD ""
  match text.parseSocketAddr address with
  | .ok a => .ok a
  | .error reason => .error (.badAddress node address reason)

/-- What one node answered when asked for its document. -/
structure NodeDocument where
  node : NodeId
  address : String
  result : Except String ClusterDocument

/-- Ask a node, at the first address the document lists for it. -/
def fetchEntry (S : Setting) (document : ClusterDocument) (entry : NodeEntry) :
    Task Op Resp (Except String ClusterDocument) :=
  match firstAddress S.text document entry.id with
  | .ok a => Task.perform (Op.fetch a)
  | .error _ => pure (.error "no usable address")

def fetchEntries (S : Setting) (document : ClusterDocument) : List NodeEntry → Task Op Resp (List NodeDocument)
  | [] => pure []
  | entry :: rest => do
    let result ← fetchEntry S document entry
    let reports ← fetchEntries S document rest
    pure (⟨entry.id, entry.addresses.headD "", result⟩ :: reports)

def entriesExcept (document : ClusterDocument) (skip : Option NodeId) : List NodeEntry :=
  document.activeNodes.filter fun n => some n.id ≠ skip

def fetchAllExcept (S : Setting) (document : ClusterDocument) (skip : Option NodeId) :
    Task Op Resp (List NodeDocument) :=
  fetchEntries S document (entriesExcept document skip)

/-- The documents reported, or the first node that could not be reached. -/
def reported : List NodeDocument → Except AdminError (List (NodeId × ClusterDocument))
  | [] => .ok []
  | report :: rest =>
    match report.result with
    | .error reason => .error (.unreachable report.node report.address reason)
    | .ok document =>
      match reported rest with
      | .error e => .error e
      | .ok documents => .ok ((report.node, document) :: documents)

/-- Every node holds the version that the proposal was built from. -/
def checkVersions (version : ℕ) (documents : List (NodeId × ClusterDocument)) : Except AdminError Unit :=
  if documents.all fun d => d.2.version == version then .ok ()
  else
    match documents with
    | [] => .ok ()
    | first :: rest =>
      if rest.all fun d => d.2.version == first.2.version then .error (.staleProposal version first.2.version)
      else .error (.versionsDiffer (documents.map fun d => (d.1, d.2.version)))

/-- Two nodes that hold the same version hold the same document. -/
def checkSameContent : List (NodeId × ClusterDocument) → List (NodeId × ClusterDocument) → Except AdminError Unit
  | _, [] => .ok ()
  | earlier, a :: rest =>
    match earlier.find? fun b => a.2.version == b.2.version && a.2 != b.2 with
    | some b => .error (.diverged a.2.version b.1 a.1)
    | none => checkSameContent (earlier ++ [a]) rest

/-- Send the document to the entries in order, and stop at the first refusal. -/
def applyInOrder (S : Setting) (current next : ClusterDocument) : List NodeId → List NodeEntry → AdminProc Unit
  | _, [] => pure ()
  | applied, entry :: rest =>
    match firstAddress S.text current entry.id with
    | .error e => throw e
    | .ok a => do
      match ← ask (.apply a next) with
      | .ok () => applyInOrder S current next (applied ++ [entry.id]) rest
      | .error reason =>
        if applied = [] then throw (.superseded entry.id reason)
        else throw (.partlyApplied applied entry.id reason)

/-- Propose `next` as the successor of `current`: every node but `skip` must be reachable and hold `current`'s version;
then apply in document order. -/
def proposeSkipping (S : Setting) (current next : ClusterDocument) (skip : Option NodeId) : AdminProc Unit := do
  match next.validate S.text with
  | .error e => throw (.document e)
  | .ok () =>
    let reports ← (ExceptT.lift (fetchAllExcept S current skip) : AdminProc (List NodeDocument))
    match reported reports with
    | .error e => throw e
    | .ok documents =>
      match checkVersions current.version documents with
      | .error e => throw e
      | .ok () =>
        match checkSameContent [] documents with
        | .error e => throw e
        | .ok () => applyInOrder S current next [] (entriesExcept current skip)

structure SyncReport where
  highestVersion : ℕ
  updated : List NodeId
  alreadyCurrent : List NodeId
  unreachable : List (NodeId × String)
  deriving DecidableEq

/-- The highest document among `highest` and those reported, the first of its version. -/
def highestOf (highest : ClusterDocument) : List NodeDocument → ClusterDocument
  | [] => highest
  | report :: rest =>
    match report.result with
    | .ok document => highestOf (if highest.version < document.version then document else highest) rest
    | .error _ => highestOf highest rest

/-- Send the highest document to every node that reported another version. -/
def pushHighest (S : Setting) (highest : ClusterDocument) : SyncReport → List NodeDocument → AdminProc SyncReport
  | report, [] => pure report
  | report, r :: rest =>
    match r.result with
    | .error reason =>
      pushHighest S highest { report with unreachable := report.unreachable ++ [(r.node, reason)] } rest
    | .ok document =>
      if document.version = highest.version then
        pushHighest S highest { report with alreadyCurrent := report.alreadyCurrent ++ [r.node] } rest
      else
        match firstAddress S.text highest r.node with
        | .error e => throw e
        | .ok a => do
          match ← ask (.apply a highest) with
          | .ok () => pushHighest S highest { report with updated := report.updated ++ [r.node] } rest
          | .error reason =>
            pushHighest S highest { report with unreachable := report.unreachable ++ [(r.node, reason)] } rest

/-- Ask again, with the fuller list of nodes, if a higher document than the seed's was found. -/
def fetchAgain (S : Setting) (seedDocument highest : ClusterDocument) (reports : List NodeDocument) :
    Task Op Resp (List NodeDocument) :=
  if highest.version ≠ seedDocument.version then fetchAllExcept S highest none else pure reports

/-- Bring every reachable node up to the highest document any of them holds. -/
def sync (S : Setting) (seed : SocketAddr) : AdminProc SyncReport := do
  let seedDocument ← fetchDocument seed
  let reports ← (ExceptT.lift (fetchAllExcept S seedDocument none) : AdminProc (List NodeDocument))
  let highest := highestOf seedDocument reports
  let reports ← (ExceptT.lift (fetchAgain S seedDocument highest reports) : AdminProc (List NodeDocument))
  match checkSameContent [] (reports.filterMap fun r => r.result.toOption.map fun d => (r.node, d)) with
  | .error e => throw e
  | .ok () => pushHighest S highest ⟨highest.version, [], [], []⟩ reports

/-- One attempt of a command that changes the document: it builds the successor of the document it fetched. -/
def change (S : Setting) (peer : SocketAddr) (build : ClusterDocument → ClusterDocument) : AdminProc Unit := do
  let current ← fetchDocument peer
  proposeSkipping S current (build current) none

def forceRemoval (S : Setting) (peer : SocketAddr) (node : NodeId) : AdminProc Unit := do
  let current ← fetchDocument peer
  match current.checkRemovable node with
  | .error e => throw e
  | .ok () =>
    match firstAddress S.text current node with
    | .error e => throw e
    | .ok a => do
      match ← ask (.fetch a) with
      | .ok _ => throw (.nodeIsAlive node (((current.node node).bind fun n => n.addresses.head?).getD ""))
      | .error _ => proposeSkipping S current (current.documentWithNodeRemoved node) (some node)

/-! ## A node's own membership -/

abbrev MemberProc (α : Type) := ExceptT MembershipError (Task Op Resp) α

def ofAdmin {α : Type} (x : AdminProc α) : MemberProc α := ExceptT.mk (Except.mapError MembershipError.admin <$> x.run)

def checked {α : Type} : Except MembershipError α → MemberProc α
  | .ok a => pure a
  | .error e => throw e

def saveDocumentFor (n : NodeId) (d : ClusterDocument) : MemberProc Unit := do
  match ← ask (.save n d) with
  | .ok () => pure ()
  | .error reason => throw (.admin (.unreachable n "" reason))

/-- How many times `join` and `add-device` try again after losing to another change. -/
def maxProposalAttempts : ℕ := 5

def proposeWithRetry (S : Setting) (config : NodeConfig) (devices : List DeviceId) (peer : SocketAddr) :
    ℕ → ClusterDocument → MemberProc ClusterDocument
  | 0, _ => throw (.admin (.tooManyRetries maxProposalAttempts))
  | attempts + 1, current =>
    match current.proposeThisNode config devices with
    | none => do
      saveDocumentFor config.nodeId current
      pure current
    | some next => do
      match ← (ExceptT.lift (proposeSkipping S current next none).run : MemberProc (Except AdminError Unit)) with
      | .ok () => do
        saveDocumentFor config.nodeId next
        pure next
      | .error (.superseded _ _) | .error (.staleProposal _ _) => do
        let current ← ofAdmin (fetchDocument peer)
        saveDocumentFor config.nodeId current
        proposeWithRetry S config devices peer attempts current
      | .error e => throw (.admin e)

def join (S : Setting) (config : NodeConfig) (peer : SocketAddr) (wipeRemoved : Bool) (paths : List DevicePath) :
    MemberProc ClusterDocument := do
  let current ← ofAdmin (fetchDocument peer)
  checked (current.checkJoin config)
  saveDocumentFor config.nodeId current
  let devices ← checked (current.joinDevices config wipeRemoved paths)
  proposeWithRetry S config devices peer maxProposalAttempts current

def addDevice (S : Setting) (config : NodeConfig) (peer : SocketAddr) (wipeRemoved : Bool) (paths : List DevicePath) :
    MemberProc ClusterDocument := do
  let current ← ofAdmin (fetchDocument peer)
  let devices ← checked (current.addDevices wipeRemoved paths)
  proposeWithRetry S config devices peer maxProposalAttempts current

end Djbod.Net
