import Djbod.Admin.Change

/-!
# Tombstones

A removed node or device stays in the document, marked removed. Nothing in the validator keeps it so: each command has
its own guard.

* `Operation`, `Operation.next` : the commands, and the document one attempt of each proposes;
* `History` : the documents a sequence of commands leads through, each attempt on the newest of them;
* `Operation.Spares` : the command does not touch a tombstone;
* `tombstones_kept` : then no tombstone is revived, and a removed node has removed devices only.
-/

namespace Djbod

/-- The commands that change the document. Draining a device moves its shards and leaves the document alone. -/
inductive Operation where
  | setDeviceState (device : DeviceId) (state : DeviceState)
  | setScheme (k m : ℕ) (blockSize : Option ℕ)
  | setLimits (maxKeyBytes maxObjectBytes maxUserMetadataBytes : Option ℕ)
  | setNodeLabel (node : NodeId) (label : Option String)
  | setClusterName (name : Option String)
  | setNodeAddresses (node : NodeId) (addresses : List String)
  | setDeviceLabel (device : DeviceId) (label : Option String)
  | setTransport (transport : Transport)
  | removeDevice (device : DeviceId)
  | removeDeviceForced (device : DeviceId)
  | removeNode (node : NodeId)
  | removeNodeForced (node : NodeId)
  | join (config : NodeConfig) (wipeRemoved : Bool) (paths : List DevicePath)
  | addDevice (config : NodeConfig) (wipeRemoved : Bool) (paths : List DevicePath)

/-- What a command learns from the nodes besides the document. -/
structure Learned where
  references : Except AdminError (List VersionReference)
  ready : NodeEntry → Except AdminError Bool
  alive : Bool

/-- One attempt of a command: `first` is the document that it read first, `current` the one that it builds on, another
one if other changes won in between. -/
def Operation.next (answers : Learned) (first current : ClusterDocument) :
    Operation → Except MembershipError (Option ClusterDocument)
  | .setDeviceState device state => (current.setDeviceState device state).mapError .admin
  | .setScheme k m blockSize => (current.setScheme k m blockSize).mapError .admin
  | .setLimits key object metadata => (current.setLimits key object metadata).mapError .admin
  | .setNodeLabel node label => (current.setNodeLabel node label).mapError .admin
  | .setClusterName name => (current.setClusterName name).mapError .admin
  | .setNodeAddresses node addresses => (current.setNodeAddresses node addresses).mapError .admin
  | .setDeviceLabel device label => (current.setDeviceLabel device label).mapError .admin
  | .setTransport transport => (current.setTransport transport answers.ready).mapError .admin
  | .removeDevice device => (current.removeDevice device answers.references).mapError .admin
  | .removeDeviceForced device => (current.removeDeviceForced device).mapError .admin
  | .removeNode node => (current.removeNode node answers.references).mapError .admin
  | .removeNodeForced node => (current.removeNodeForced node answers.alive).mapError .admin
  | .join config wipeRemoved paths => do
    let devices ← first.joinDevices config wipeRemoved paths
    pure (current.proposeThisNode config devices)
  | .addDevice config wipeRemoved paths => do
    let devices ← first.addDevices wipeRemoved paths
    pure (current.proposeThisNode config devices)

namespace ClusterDocument

variable (d : ClusterDocument)

def NodeGone (n : NodeId) : Prop := ∃ e ∈ d.nodes, e.id = n ∧ e.state = .removed

def DeviceGone (device : DeviceId) : Prop := ∃ e ∈ d.devices, e.id = device ∧ e.state = .removed

/-- Every device of a removed node is removed. -/
def Buried : Prop := ∀ e ∈ d.devices, d.NodeGone e.node → e.state = .removed

structure Keeps (d' : ClusterDocument) : Prop where
  node : ∀ n, d.NodeGone n → d'.NodeGone n
  device : ∀ device, d.DeviceGone device → d'.DeviceGone device

end ClusterDocument

open ClusterDocument

/-- The command does not put a removed device into another state, nor a device on a removed node. -/
def Operation.Spares (current : ClusterDocument) : Operation → Prop
  | .setDeviceState device state => current.DeviceGone device → state = .removed
  | .join config _ _ => ¬ current.NodeGone config.nodeId
  | .addDevice config _ _ => ¬ current.NodeGone config.nodeId
  | _ => True

/-- The documents that commands lead through, the newest first. `ok` holds of each command and the document it builds
on. -/
inductive History (text : TextRules) (ok : Operation → ClusterDocument → Prop) : List ClusterDocument → Prop where
  | start {d : ClusterDocument} (h : d.Buried) : History text ok [d]
  | change {first current next : ClusterDocument} {earlier : List ClusterDocument} (op : Operation) (answers : Learned)
      (h : History text ok (current :: earlier)) (hfirst : first ∈ current :: earlier)
      (hnext : (op.next answers first current).toOption = some (some next)) (hvalid : (next.validate text).isOk = true)
      (hok : ok op current) : History text ok (next :: current :: earlier)

/-! ## One change -/

variable {device : DeviceEntry → DeviceEntry} {node : NodeEntry → NodeEntry} {state : DeviceState} {config : NodeConfig}

section Change

variable {d d' : ClusterDocument}

theorem ClusterDocument.Keeps.trans {d'' : ClusterDocument} (h : d.Keeps d') (h' : d'.Keeps d'') : d.Keeps d'' :=
  ⟨fun n hn => h'.node n (h.node n hn), fun device hd => h'.device device (h.device device hd)⟩

theorem same_entries (hn : d'.nodes = d.nodes) (hd : d'.devices = d.devices) : d.Keeps d' ∧ (d.Buried → d'.Buried) := by
  refine ⟨⟨fun n h => ?_, fun device h => ?_⟩, fun h e he hgone => ?_⟩
  · unfold NodeGone
    rwa [hn]
  · unfold DeviceGone
    rwa [hd]
  · unfold NodeGone at hgone
    rw [hn] at hgone
    exact h e (hd ▸ he) hgone

/-- Entries keep their identity, and a tombstone its state. -/
structure Careful (node : NodeEntry → NodeEntry) (device : DeviceEntry → DeviceEntry) (d : ClusterDocument) : Prop where
  nodeId : ∀ e, (node e).id = e.id
  nodeState : ∀ e ∈ d.nodes, e.state = .removed → (node e).state = .removed
  deviceId : ∀ e, (device e).id = e.id ∧ (device e).node = e.node
  deviceState : ∀ e ∈ d.devices, e.state = .removed → (device e).state = .removed
  buries : ∀ n ∈ d.nodes, (node n).state = .removed → n.state = .removed ∨ ∀ e ∈ d.devices, e.node = n.id →
    (device e).state = .removed

theorem Careful.keeps (h : Careful node device d) : d.Keeps (d.successor node device) := by
  refine ⟨?_, ?_⟩
  · rintro _ ⟨e, he, rfl, hstate⟩
    exact ⟨node e, List.mem_map_of_mem he, h.nodeId e, h.nodeState e he hstate⟩
  · rintro _ ⟨e, he, rfl, hstate⟩
    exact ⟨device e, List.mem_map_of_mem he, (h.deviceId e).1, h.deviceState e he hstate⟩

theorem Careful.buried (h : Careful node device d) (hb : d.Buried) : (d.successor node device).Buried := by
  intro e' he' hgone
  obtain ⟨e, he, rfl⟩ := List.mem_map.mp he'
  obtain ⟨n', hn', hid, hstate⟩ := hgone
  obtain ⟨n, hn, rfl⟩ := List.mem_map.mp hn'
  rw [h.nodeId, (h.deviceId e).2] at hid
  rcases h.buries n hn hstate with hold | hnew
  · exact h.deviceState e he (hb e he ⟨n, hn, hid, hold⟩)
  · exact hnew e he hid.symm

theorem careful_of_states (hnode : ∀ e, (node e).id = e.id ∧ (node e).state = e.state)
    (hdevice : ∀ e, (device e).id = e.id ∧ (device e).node = e.node ∧ (device e).state = e.state) :
    Careful node device d where
  nodeId e := (hnode e).1
  nodeState e _ h := (hnode e).2.trans h
  deviceId e := ⟨(hdevice e).1, (hdevice e).2.1⟩
  deviceState e _ h := (hdevice e).2.2.trans h
  buries n _ h := .inl ((hnode n).2.symm.trans h)

theorem careful_deviceState {device : DeviceId} (h : d.DeviceGone device → state = .removed) :
    Careful id (fun e => if e.id = device then { e with state := state } else e) d where
  nodeId _ := rfl
  nodeState _ _ h := h
  deviceId e := by split_ifs <;> exact ⟨rfl, rfl⟩
  deviceState e he hstate := by
    split_ifs with hid
    · exact h ⟨e, he, hid, hstate⟩
    · exact hstate
  buries _ _ h := .inl h

theorem careful_nodeRemoved (node : NodeId) :
    Careful (fun e => if e.id = node then { e with state := .removed } else e)
      (fun e => if e.node = node then { e with state := .removed } else e) d where
  nodeId e := by split_ifs <;> rfl
  nodeState e _ h := by split_ifs; exacts [rfl, h]
  deviceId e := by split_ifs <;> exact ⟨rfl, rfl⟩
  deviceState e _ h := by split_ifs; exacts [rfl, h]
  buries n _ h := by
    by_cases hid : n.id = node
    · refine .inr fun e _ he => ?_
      rw [if_pos (he.trans hid)]
    · rw [if_neg hid] at h
      exact .inl h

/-- A node that may be removed is listed, and the document without it lists it as removed. -/
theorem documentWithNodeRemoved_gone {node : NodeId} (h : d.checkRemovable node = .ok ()) :
    (d.documentWithNodeRemoved node).NodeGone node := by
  unfold checkRemovable at h
  cases hnode : d.node node with
  | none =>
    rw [hnode] at h
    cases h
  | some entry =>
    have hid : entry.id = node := by simpa using List.find?_some hnode
    refine ⟨{ entry with state := .removed }, ?_, hid, rfl⟩
    exact List.mem_map.mpr ⟨entry, List.mem_of_find?_eq_some hnode, if_pos hid⟩

variable {devices : List DeviceId} {e : DeviceEntry} {listed : List DeviceEntry}

theorem mem_listed {node : NodeId} :
    e ∈ devices.foldl (fun listed device =>
        if (listed.find? fun e => e.id == device).isNone then listed ++ [⟨device, node, .active, none⟩] else listed)
          listed →
      e ∈ listed ∨ e.node = node := by
  induction devices generalizing listed with
  | nil => exact .inl
  | cons device devices ih =>
    intro h
    rw [List.foldl_cons] at h
    rcases ih h with hmem | hnode
    · split_ifs at hmem
      · rcases List.mem_append.mp hmem with hold | hnew
        · exact .inl hold
        · rw [List.mem_singleton.mp hnew]
          exact .inr rfl
      · exact .inl hmem
    · exact .inr hnode

theorem listed_mem {node : NodeId} (he : e ∈ listed) :
    e ∈ devices.foldl (fun listed device =>
        if (listed.find? fun e => e.id == device).isNone then listed ++ [⟨device, node, .active, none⟩] else listed)
            listed := by
  induction devices generalizing listed with
  | nil => exact he
  | cons device devices ih =>
    rw [List.foldl_cons]
    refine ih ?_
    split_ifs
    · exact List.mem_append_left _ he
    · exact he

theorem documentWithThisNode_nodeGone {n : NodeId} : (d.documentWithThisNode config devices).NodeGone n ↔
    d.NodeGone n := by
  unfold NodeGone documentWithThisNode
  dsimp only
  split_ifs
  · constructor
    · rintro ⟨e, he, hid, hstate⟩
      rcases List.mem_append.mp he with hold | hnew
      · exact ⟨e, hold, hid, hstate⟩
      · rw [List.mem_singleton.mp hnew] at hstate
        cases hstate
    · rintro ⟨e, he, hid⟩
      exact ⟨e, List.mem_append_left _ he, hid⟩
  · rfl

theorem documentWithThisNode_keeps (config : NodeConfig) (devices : List DeviceId) :
    d.Keeps (d.documentWithThisNode config devices) := by
  refine ⟨fun n h => documentWithThisNode_nodeGone.mpr h, ?_⟩
  rintro device ⟨e, he, hid⟩
  exact ⟨e, listed_mem he, hid⟩

theorem documentWithThisNode_buried (hnode : ¬ d.NodeGone config.nodeId) (devices : List DeviceId) (h : d.Buried) :
    (d.documentWithThisNode config devices).Buried := by
  intro e he hgone
  rw [documentWithThisNode_nodeGone] at hgone
  rcases mem_listed he with hold | hnew
  · exact h e hold hgone
  · exact absurd (hnew ▸ hgone) hnode

end Change

/-! ## Every command -/

/-- What is proposed keeps the tombstones of the document it is built on. -/
def Lasting (current : ClusterDocument) (proposed : Option ClusterDocument) : Prop :=
  ∀ next ∈ proposed, current.Keeps next ∧ (current.Buried → next.Buried)

section Commands

variable {current : ClusterDocument} {proposed : Option ClusterDocument}

theorem sound_none : Lasting current none := nofun

theorem Careful.sound (h : Careful node device current) : Lasting current (some (current.successor node device)) := by
  rintro next ⟨⟩
  exact ⟨h.keeps, h.buried⟩

theorem setDeviceState_sound {device : DeviceId} (hs : current.DeviceGone device → state = .removed)
    (h : current.setDeviceState device state = .ok proposed) : Lasting current proposed := by
  unfold setDeviceState at h
  split at h
  · cases h
  · split_ifs at h <;> cases h
    · exact sound_none
    · exact (careful_deviceState hs).sound

theorem removed_sound (device : DeviceId) : Lasting current (some (current.withDeviceState device .removed)) :=
  (careful_deviceState fun _ => rfl).sound

theorem removeDeviceForced_sound {device : DeviceId} (h : current.removeDeviceForced device = .ok proposed) :
    Lasting current proposed := by
  unfold removeDeviceForced at h
  split at h
  · cases h
  · split_ifs at h <;> cases h
    · exact sound_none
    · exact removed_sound device

variable {references : Except AdminError (List VersionReference)}

theorem removeDevice_sound {device : DeviceId} (h : current.removeDevice device references = .ok proposed) :
    Lasting current proposed := by
  unfold removeDevice at h
  split at h
  · cases h
  · split_ifs at h
    · cases h
      exact sound_none
    · split at h
      · cases h
      · split_ifs at h
        cases h
        exact removed_sound device

theorem nodeRemoved_sound (node : NodeId) : Lasting current (some (current.documentWithNodeRemoved node)) :=
  (careful_nodeRemoved node).sound

theorem removeNode_sound {node : NodeId} (h : current.removeNode node references = .ok proposed) :
    Lasting current proposed := by
  unfold removeNode at h
  split at h
  · cases h
  · dsimp only at h
    split_ifs at h
    split at h
    · cases h
    · split_ifs at h
      cases h
      exact nodeRemoved_sound node

theorem removeNodeForced_sound {node : NodeId} {alive : Bool} (h : current.removeNodeForced node alive = .ok proposed) :
    Lasting current proposed := by
  unfold removeNodeForced at h
  split at h
  · cases h
  · split_ifs at h
    cases h
    exact nodeRemoved_sound node

variable {label : Option String}

theorem setNodeLabel_sound {node : NodeId} (h : current.setNodeLabel node label = .ok proposed) :
    Lasting current proposed := by
  unfold setNodeLabel at h
  split at h
  · cases h
  · split_ifs at h <;> cases h
    · exact sound_none
    · exact (careful_of_states (fun e => by split_ifs <;> exact ⟨rfl, rfl⟩) fun _ => ⟨rfl, rfl, rfl⟩).sound

theorem setNodeAddresses_sound {node : NodeId} {addresses : List String}
    (h : current.setNodeAddresses node addresses = .ok proposed) : Lasting current proposed := by
  unfold setNodeAddresses at h
  split at h
  · cases h
  · split_ifs at h <;> cases h
    · exact sound_none
    · exact (careful_of_states (fun e => by split_ifs <;> exact ⟨rfl, rfl⟩) fun _ => ⟨rfl, rfl, rfl⟩).sound

theorem setDeviceLabel_sound {device : DeviceId} (h : current.setDeviceLabel device label = .ok proposed) :
    Lasting current proposed := by
  unfold setDeviceLabel at h
  split at h
  · cases h
  · split_ifs at h <;> cases h
    · exact sound_none
    · exact (careful_of_states (fun _ => ⟨rfl, rfl⟩) fun e => by split_ifs <;> exact ⟨rfl, rfl, rfl⟩).sound

variable {next : ClusterDocument}

/-- Commands about the scheme, the limits, the name and the transport leave all entries as they are. -/
theorem sound_same (hn : next.nodes = current.nodes) (hd : next.devices = current.devices) :
    Lasting current (some next) := by
  rintro _ ⟨⟩
  exact same_entries hn hd

theorem setScheme_sound {k m : ℕ} {blockSize : Option ℕ} (h : current.setScheme k m blockSize = .ok proposed) :
    Lasting current proposed := by
  unfold setScheme at h
  dsimp only at h
  split_ifs at h <;> cases h
  · exact sound_none
  · exact sound_same rfl rfl

theorem setLimits_sound {key object metadata : Option ℕ} (h : current.setLimits key object metadata = .ok proposed) :
    Lasting current proposed := by
  unfold setLimits at h
  dsimp only at h
  split_ifs at h <;> cases h
  · exact sound_none
  · exact sound_same rfl rfl

theorem setClusterName_sound {name : Option String} (h : current.setClusterName name = .ok proposed) :
    Lasting current proposed := by
  unfold setClusterName at h
  split_ifs at h <;> cases h
  · exact sound_none
  · exact sound_same rfl rfl

theorem setTransport_sound {transport : Transport} {ready : NodeEntry → Except AdminError Bool}
    (h : current.setTransport transport ready = .ok proposed) : Lasting current proposed := by
  unfold setTransport at h
  by_cases hsame : current.transport = transport
  · rw [if_pos hsame] at h
    cases h
    exact sound_none
  · rw [if_neg hsame] at h
    split at h <;> cases h
    exact sound_same rfl rfl

theorem proposeThisNode_sound (hnode : ¬ current.NodeGone config.nodeId) (devices : List DeviceId) :
    Lasting current (current.proposeThisNode config devices) := by
  unfold proposeThisNode
  split_ifs
  · exact sound_none
  · rintro _ ⟨⟩
    exact ⟨documentWithThisNode_keeps config devices, documentWithThisNode_buried hnode devices⟩

theorem mapError_ok {e : Except AdminError (Option ClusterDocument)}
    (h : (e.mapError MembershipError.admin).toOption = some (some next)) : e = .ok (some next) := by
  cases e with
  | error e => cases h
  | ok a =>
    cases h
    rfl

theorem Operation.next_sound {op : Operation} {answers : Learned} {first : ClusterDocument} (hs : op.Spares current)
    (h : (op.next answers first current).toOption = some (some next)) : current.Keeps next ∧
    (current.Buried → next.Buried) := by
  suffices hsound : Lasting current (some next) from hsound next rfl
  cases op with
  | setDeviceState device state => exact setDeviceState_sound hs (mapError_ok h)
  | setScheme k m blockSize => exact setScheme_sound (mapError_ok h)
  | setLimits key object metadata => exact setLimits_sound (mapError_ok h)
  | setNodeLabel node label => exact setNodeLabel_sound (mapError_ok h)
  | setClusterName name => exact setClusterName_sound (mapError_ok h)
  | setNodeAddresses node addresses => exact setNodeAddresses_sound (mapError_ok h)
  | setDeviceLabel device label => exact setDeviceLabel_sound (mapError_ok h)
  | setTransport transport => exact setTransport_sound (mapError_ok h)
  | removeDevice device => exact removeDevice_sound (mapError_ok h)
  | removeDeviceForced device => exact removeDeviceForced_sound (mapError_ok h)
  | removeNode node => exact removeNode_sound (mapError_ok h)
  | removeNodeForced node => exact removeNodeForced_sound (mapError_ok h)
  | join config wipeRemoved paths =>
    cases hdev : first.joinDevices config wipeRemoved paths with
    | error e =>
      rw [Operation.next, hdev] at h
      cases h
    | ok devices =>
      rw [Operation.next, hdev] at h
      have heq : current.proposeThisNode config devices = some next := Option.some.inj h
      exact heq ▸ proposeThisNode_sound hs devices
  | addDevice config wipeRemoved paths =>
    cases hdev : first.addDevices wipeRemoved paths with
    | error e =>
      rw [Operation.next, hdev] at h
      cases h
    | ok devices =>
      rw [Operation.next, hdev] at h
      have heq : current.proposeThisNode config devices = some next := Option.some.inj h
      exact heq ▸ proposeThisNode_sound hs devices

end Commands

/-! ## Every sequence of commands -/

/-- **Tombstones stay.** Where no command puts a removed device into another state or a device on a removed node, what
is removed in a document is removed in every later one, and every device of a removed node is removed. -/
theorem tombstones_kept {text : TextRules} {docs : List ClusterDocument}
    (h : History text (fun op current => op.Spares current) docs) :
    docs.Pairwise (fun later d => d.Keeps later) ∧ ∀ d ∈ docs, d.Buried := by
  induction h with
  | start h => exact ⟨List.pairwise_singleton _ _, fun d hd => List.mem_singleton.mp hd ▸ h⟩
  | @change first current next earlier op answers h hfirst hnext hvalid hok ih =>
    obtain ⟨hpair, hbur⟩ := ih
    obtain ⟨hkeep, hnew⟩ := op.next_sound hok hnext
    refine ⟨List.pairwise_cons.mpr ⟨fun d hd => ?_, hpair⟩, ?_⟩
    · rcases List.mem_cons.mp hd with rfl | hd
      · exact hkeep
      · exact ((List.pairwise_cons.mp hpair).1 d hd).trans hkeep
    · intro d hd
      rcases List.mem_cons.mp hd with rfl | hd
      · exact hnew (hbur current List.mem_cons_self)
      · exact hbur d hd

/-- What commands on the two nodes learn: no record names a device, and the other node does not answer. -/
def quietAnswers : Learned := ⟨.ok [], fun _ => .ok true, false⟩

theorem pairDocument_buried : pairDocument.Buried := by
  rintro e _ ⟨n, hn, _, hstate⟩
  have : ∀ n ∈ pairDocument.nodes, n.state = .active := by decide
  rw [this n hn] at hstate
  cases hstate

/-- A forced removal of node 2 and a change of a label keep the tombstones. -/
theorem tombstones_kept_pair : ∃ removed labelled : ClusterDocument,
    History plainText (fun op current => op.Spares current) [labelled, removed, pairDocument] ∧ removed.NodeGone 2 ∧
      labelled.NodeGone 2 ∧ labelled.DeviceGone 2 := by
  have h : History plainText (fun op current => op.Spares current)
      [(pairDocument.documentWithNodeRemoved 2).withDeviceLabel 1 (some "x"), pairDocument.documentWithNodeRemoved 2,
        pairDocument] :=
    .change (.setDeviceLabel 1 (some "x")) quietAnswers
      (.change (.removeNodeForced 2) quietAnswers (.start pairDocument_buried) List.mem_cons_self rfl
        (by decide +kernel) trivial) List.mem_cons_self rfl (by decide +kernel) trivial
  have hnode : (pairDocument.documentWithNodeRemoved 2).NodeGone 2 := ⟨⟨2, ["b"], none, .removed⟩, by decide, rfl, rfl⟩
  have hdevice : (pairDocument.documentWithNodeRemoved 2).DeviceGone 2 := ⟨⟨2, 2, .removed, none⟩, by decide, rfl, rfl⟩
  have hkeep := (List.pairwise_cons.mp (tombstones_kept h).1).1 _ List.mem_cons_self
  exact ⟨_, _, h, hnode, hkeep.node 2 hnode, hkeep.device 2 hdevice⟩

/-- **Tombstones revived.** Setting the state of a removed device makes it active again, and a device added on a removed
node is active. -/
theorem tombstone_revived :
    (∃ docs, History plainText (fun _ _ => True) docs ∧ ¬ docs.Pairwise fun later d => d.Keeps later) ∧
      ∃ docs, History plainText (fun _ _ => True) docs ∧ ∃ d ∈ docs, ¬ d.Buried := by
  constructor
  · refine ⟨[(pairDocument.withDeviceState 2 .removed).withDeviceState 2 .active,
      pairDocument.withDeviceState 2 .removed, pairDocument], ?_, fun hpair => ?_⟩
    · exact .change (.setDeviceState 2 .active) quietAnswers
        (.change (.removeDeviceForced 2) quietAnswers (.start pairDocument_buried) List.mem_cons_self rfl
          (by decide +kernel) trivial) List.mem_cons_self rfl (by decide +kernel) trivial
    · have hgone : (pairDocument.withDeviceState 2 .removed).DeviceGone 2 :=
        ⟨⟨2, 2, .removed, none⟩, by decide, rfl, rfl⟩
      obtain ⟨e, he, _, hstate⟩ := ((List.pairwise_cons.mp hpair).1 _ List.mem_cons_self).device 2 hgone
      have : ∀ e ∈ ((pairDocument.withDeviceState 2 .removed).withDeviceState 2 .active).devices,
        e.state = .active := by decide
      rw [this e he] at hstate
      cases hstate
  · refine ⟨[(pairDocument.documentWithNodeRemoved 2).documentWithThisNode ⟨2, "b", false⟩ [3],
      pairDocument.documentWithNodeRemoved 2, pairDocument], ?_, _, List.mem_cons_self, fun hburied => ?_⟩
    · exact .change (.addDevice ⟨2, "b", false⟩ false [.empty 3]) quietAnswers
        (.change (.removeNodeForced 2) quietAnswers (.start pairDocument_buried) List.mem_cons_self rfl
          (by decide +kernel) trivial) List.mem_cons_self rfl (by decide +kernel) trivial
    · have := hburied ⟨3, 2, .active, none⟩ (by decide) ⟨⟨2, ["b"], none, .removed⟩, by decide, rfl, rfl⟩
      cases this

end Djbod
