import Djbod.Admin.Change
import Djbod.Node.Stocktake
import Djbod.Object.Small

/-!
# Versions with shards on given devices

Before a device or a node is taken out, the client reads the records of all other devices in service, keeps the copy at
the highest revision of every version, and counts the shards that it places on the devices in question.

* `scanReferences` : the scan; `planForcedRemoval` : what the removal of a dead node would cost;
* `Highest`, `mem_foldl_keepHighest` : which copy of a version is kept;
* `scanNodes_eval` : what a scan reads during an outage;
* `mem_references` : what it reports.
-/

namespace Djbod

open Sched

/-- Another node can rebuild the version once the devices are gone. -/
def VersionReference.recoverable (r : VersionReference) : Bool := decide (r.shards ≤ r.m)

/-- What the removal of a node that does not answer would cost. -/
structure ForcedRemovalPlan where
  current : ClusterDocument
  node : NodeId
  address : String
  unreachableBecause : String
  devices : List DeviceId
  affected : List VersionReference

def ForcedRemovalPlan.unrecoverable (plan : ForcedRemovalPlan) : List VersionReference :=
  plan.affected.filter fun r => !r.recoverable

namespace MetadataRecord

def SameVersion (a b : MetadataRecord) : Prop := a.key = b.key ∧ a.version = b.version

instance (a b : MetadataRecord) : Decidable (a.SameVersion b) := inferInstanceAs (Decidable (_ ∧ _))

def shardsAmong (r : MetadataRecord) (devices : List DeviceId) : ℕ :=
  r.shards.countP fun shard => shard.device ∈ devices

def reference (r : MetadataRecord) (devices : List DeviceId) : VersionReference :=
  ⟨r.key, r.version, r.shardsAmong devices, r.m⟩

end MetadataRecord

/-- The copies kept so far, with another one: a copy of the same version gives way to one at a higher revision only. -/
def keepHighest (current : List MetadataRecord) (record : MetadataRecord) : List MetadataRecord :=
  match current.find? fun held => held.SameVersion record with
  | none => current ++ [record]
  | some held =>
    if held.revision < record.revision then current.map fun r => if r.SameVersion record then record else r else current

/-- The versions with shards on the devices, in key and version order. -/
def references (devices : List DeviceId) (current : List MetadataRecord) : List VersionReference :=
  ((current.insertionSort fun a b => a.key < b.key ∨ a.key = b.key ∧ a.version ≤ b.version).filter fun r =>
    0 < r.shardsAmong devices).map fun r => r.reference devices

section

variable (X : Crates) (C : Cluster) (recordSize : MetadataRecord → ℕ)

def scanDevice (node : NodeId) (d : DeviceId) : ℕ → Option RecordCursor → List MetadataRecord →
    NodeProc (List MetadataRecord)
  | 0, _, records => pure records
  | fuel + 1, after, records => do
    let (page, truncated) ← request X node (localRecords X C recordSize node d after)
    let after := page.getLast?.map fun r => (⟨r.record.keyHash, r.record.version⟩ : RecordCursor)
    let records := records ++ page.map DeviceRecord.record
    if !truncated || after.isNone then pure records else scanDevice node d fuel after records

def scanDevices (fuel : ℕ) (node : NodeId) : List DeviceEntry → List MetadataRecord → NodeProc (List MetadataRecord)
  | [], current => pure current
  | device :: rest, current => do
    let records ← scanDevice X C recordSize node device.id fuel none []
    scanDevices fuel node rest (records.foldl keepHighest current)

def scannedDevices (node : NodeId) : List DeviceEntry :=
  C.document.devices.filter fun d => d.node = node ∧ d.state ≠ .removed

/-- The copies kept after one more node; a node that does not answer fails the scan. -/
def scanNode (fuel : ℕ) (entry : NodeEntry) (current : List MetadataRecord) :
    ExceptT AdminError (Task Op Resp) (List MetadataRecord) := ExceptT.mk do
  let answer ← (do
    connectTo X C entry.id
    scanDevices X C recordSize fuel entry.id (scannedDevices C entry.id) current : NodeProc (List MetadataRecord)).run
  match answer with
  | .ok current => pure (.ok current)
  | .error e => pure (.error (.unreachable entry.id (entry.addresses.headD "") e.message))

def scanNodes (fuel : ℕ) : List NodeEntry → List MetadataRecord → ExceptT AdminError (Task Op Resp)
    (List MetadataRecord)
  | [], current => pure current
  | entry :: rest, current => do
    let current ← scanNode X C recordSize fuel entry current
    scanNodes fuel rest current

def scannedNodes (skip : Option NodeId) : List NodeEntry := C.document.activeNodes.filter fun n => some n.id ≠ skip

def scanReferences (fuel : ℕ) (devices : List DeviceId) (skip : Option NodeId) :
    ExceptT AdminError (Task Op Resp) (List VersionReference) := do
  let current ← scanNodes X C recordSize fuel (scannedNodes C skip) []
  pure (references devices current)

/-- The first step of a forced removal: the node may be removed, it does not answer, and this is what goes with it. -/
def planForcedRemoval (fuel : ℕ) (node : NodeId) : ExceptT AdminError (Task Op Resp) ForcedRemovalPlan := ExceptT.mk do
  match C.document.checkRemovable node with
  | .error e => pure (.error e)
  | .ok () => do
    let address := ((C.document.node node).bind fun n => n.addresses.head?).getD ""
    match ← (connectTo X C node).run with
    | .ok () => pure (.error (.nodeIsAlive node address))
    | .error reason => do
      let devices := (C.document.devices.filter fun d => d.node = node).map DeviceEntry.id
      match ← (scanReferences X C recordSize fuel devices (some node)).run with
      | .error e => pure (.error e)
      | .ok affected => pure (.ok ⟨C.document, node, address, reason.message, devices, affected⟩)

end

/-! ## The copy that is kept -/

/-- The first of the copies of its version that are at the highest revision. -/
def Highest (copies : List MetadataRecord) (r : MetadataRecord) : Prop :=
  ∃ before after, copies = before ++ r :: after ∧ (∀ c ∈ before, c.SameVersion r → c.revision < r.revision) ∧
    ∀ c ∈ after, c.SameVersion r → c.revision ≤ r.revision

namespace MetadataRecord

theorem SameVersion.symm {a b : MetadataRecord} (h : a.SameVersion b) : b.SameVersion a := ⟨h.1.symm, h.2.symm⟩

theorem SameVersion.trans {a b c : MetadataRecord} (h : a.SameVersion b) (h' : b.SameVersion c) : a.SameVersion c :=
  ⟨h.1.trans h'.1, h.2.trans h'.2⟩

end MetadataRecord

theorem Highest.mem {copies : List MetadataRecord} {r : MetadataRecord} (h : Highest copies r) : r ∈ copies := by
  obtain ⟨before, after, rfl, _⟩ := h
  simp

theorem Highest.le {copies : List MetadataRecord} {r c : MetadataRecord} (h : Highest copies r) (hc : c ∈ copies)
    (hsame : c.SameVersion r) : c.revision ≤ r.revision := by
  obtain ⟨before, after, rfl, hbefore, hafter⟩ := h
  rcases List.mem_append.mp hc with hc | hc
  · exact (hbefore c hc hsame).le
  · rcases List.mem_cons.mp hc with rfl | hc
    · exact le_rfl
    · exact hafter c hc hsame

theorem highest_append {copies : List MetadataRecord} {r x : MetadataRecord} :
    Highest (copies ++ [x]) r ↔ (Highest copies r ∧ (x.SameVersion r → x.revision ≤ r.revision)) ∨
      (r = x ∧ ∀ c ∈ copies, c.SameVersion x → c.revision < x.revision) := by
  constructor
  · rintro ⟨before, after, heq, hbefore, hafter⟩
    rcases List.eq_nil_or_concat after with rfl | ⟨after, y, rfl⟩
    · obtain ⟨rfl, hx⟩ := List.append_inj' heq rfl
      obtain rfl := (List.cons.inj hx).1
      exact .inr ⟨rfl, hbefore⟩
    · rw [List.concat_eq_append] at heq hafter
      have heq' : copies ++ [x] = (before ++ r :: after) ++ [y] := by simp [heq]
      obtain ⟨rfl, hx⟩ := List.append_inj' heq' rfl
      obtain rfl := (List.cons.inj hx).1
      exact .inl ⟨⟨before, after, rfl, hbefore, fun c hc => hafter c (by simp [hc])⟩, hafter x (by simp)⟩
  · rintro (⟨⟨before, after, rfl, hbefore, hafter⟩, hx⟩ | ⟨rfl, hlow⟩)
    · refine ⟨before, after ++ [x], by simp, hbefore, fun c hc => ?_⟩
      rcases List.mem_append.mp hc with hc | hc
      · exact hafter c hc
      · rw [List.mem_singleton.mp hc]
        exact hx
    · exact ⟨copies, [], rfl, hlow, nofun⟩

theorem exists_highest {copies : List MetadataRecord} {c : MetadataRecord} (hc : c ∈ copies) :
    ∃ r, Highest copies r ∧ r.SameVersion c := by
  induction copies using List.reverseRecOn generalizing c with
  | nil => cases hc
  | append_singleton copies x ih =>
    by_cases hx : x.SameVersion c ∧ ∀ c ∈ copies, c.SameVersion x → c.revision < x.revision
    · exact ⟨x, highest_append.mpr (.inr ⟨rfl, hx.2⟩), hx.1⟩
    · -- Otherwise a copy of the version was there before, and the highest of those stays.
      have hold : ∃ c' ∈ copies, c'.SameVersion c := by
        rcases List.mem_append.mp hc with hc | hc
        · exact ⟨c, hc, rfl, rfl⟩
        · obtain rfl := List.mem_singleton.mp hc
          by_contra hno
          push Not at hno
          exact hx ⟨⟨rfl, rfl⟩, fun c' hc' hsame => absurd hsame (hno c' hc')⟩
      obtain ⟨c', hc', hsame⟩ := hold
      obtain ⟨r, hr, hrc⟩ := ih hc'
      refine ⟨r, highest_append.mpr (.inl ⟨hr, fun hxr => ?_⟩), hrc.trans hsame⟩
      by_contra hlt
      refine hx ⟨hxr.trans (hrc.trans hsame), fun d hd hdx => ?_⟩
      exact (hr.le hd (hdx.trans hxr)).trans_lt (not_le.mp hlt)

theorem keepHighest_distinct {current : List MetadataRecord} (x : MetadataRecord)
    (h : current.Pairwise fun a b => ¬ a.SameVersion b) : (keepHighest current x).Pairwise fun a b =>
    ¬ a.SameVersion b := by
  unfold keepHighest
  cases hfind : current.find? fun held => held.SameVersion x with
  | none =>
    refine List.pairwise_append.mpr ⟨h, List.pairwise_singleton _ _, fun a ha b hb => ?_⟩
    rw [List.mem_singleton.mp hb]
    simpa using List.find?_eq_none.mp hfind a ha
  | some held =>
    dsimp only
    split_ifs
    · refine List.pairwise_map.mpr (h.imp fun hab => ?_)
      split_ifs with ha hb hb
      · exact absurd (ha.trans hb.symm) hab
      · exact fun hx => hb hx.symm
      · exact ha
      · exact hab
    · exact h

theorem mem_keepHighest {current : List MetadataRecord} {x r : MetadataRecord} (h : current.Pairwise fun a b =>
    ¬ a.SameVersion b) : r ∈ keepHighest current x ↔ (r ∈ current ∧ (x.SameVersion r → x.revision ≤ r.revision)) ∨
      (r = x ∧ ∀ c ∈ current, c.SameVersion x → c.revision < x.revision) := by
  unfold keepHighest
  cases hfind : current.find? fun held => held.SameVersion x with
  | none =>
    have hno : ∀ c ∈ current, ¬ c.SameVersion x := fun c hc => by simpa using List.find?_eq_none.mp hfind c hc
    rw [List.mem_append, List.mem_singleton]
    constructor
    · rintro (hr | rfl)
      · exact .inl ⟨hr, fun hx => absurd hx.symm (hno r hr)⟩
      · exact .inr ⟨rfl, fun c hc hsame => absurd hsame (hno c hc)⟩
    · rintro (⟨hr, _⟩ | ⟨rfl, _⟩)
      · exact .inl hr
      · exact .inr rfl
  | some held =>
    have hheld : held ∈ current := List.mem_of_find?_eq_some hfind
    have hsame : held.SameVersion x := by simpa using List.find?_some hfind
    have hsymm : Std.Symm fun a b : MetadataRecord => ¬ a.SameVersion b := ⟨fun _ _ hn hn' => hn hn'.symm⟩
    have honly : ∀ c ∈ current, c.SameVersion x → c = held := fun c hc hcx => by
      by_contra hne
      exact h.forall hc hheld hne (hcx.trans hsame.symm)
    dsimp only
    split_ifs with hlt
    · rw [List.mem_map]
      constructor
      · rintro ⟨c, hc, rfl⟩
        split_ifs with hcx
        · exact .inr ⟨rfl, fun c hc hcx => honly c hc hcx ▸ hlt⟩
        · exact .inl ⟨hc, fun hx => absurd hx.symm hcx⟩
      · rintro (⟨hr, hle⟩ | ⟨rfl, _⟩)
        · refine ⟨r, hr, if_neg fun hrx => ?_⟩
          obtain rfl := honly r hr hrx
          exact absurd (hle hrx.symm) (not_le.mpr hlt)
        · exact ⟨held, hheld, if_pos hsame⟩
    · constructor
      · intro hr
        refine .inl ⟨hr, fun hx => ?_⟩
        rw [honly r hr hx.symm]
        exact not_lt.mp hlt
      · rintro (⟨hr, _⟩ | ⟨rfl, hlow⟩)
        · exact hr
        · exact absurd (hlow held hheld hsame) hlt

theorem foldl_keepHighest_distinct (copies : List MetadataRecord) :
    (copies.foldl keepHighest []).Pairwise fun a b => ¬ a.SameVersion b := by
  induction copies using List.reverseRecOn with
  | nil => exact .nil
  | append_singleton copies x ih =>
    rw [List.foldl_append]
    exact keepHighest_distinct x ih

/-- **The scan keeps the highest copy of every version.** -/
theorem mem_foldl_keepHighest {copies : List MetadataRecord} {r : MetadataRecord} :
    r ∈ copies.foldl keepHighest [] ↔ Highest copies r := by
  induction copies using List.reverseRecOn generalizing r with
  | nil => exact ⟨nofun, fun h => absurd h.mem List.not_mem_nil⟩
  | append_singleton copies x ih =>
    rw [List.foldl_append, List.foldl_cons, List.foldl_nil, mem_keepHighest (foldl_keepHighest_distinct copies),
      highest_append, ih]
    refine or_congr_right (and_congr_right fun _ => ⟨fun h c hc hcx => ?_, fun h c hc => h c (ih.mp hc).mem⟩)
    obtain ⟨top, htop, hsame⟩ := exists_highest hc
    exact (htop.le hc hsame.symm).trans_lt (h top (ih.mpr htop) (hsame.trans hcx))

theorem mem_references {devices : List DeviceId} {copies : List MetadataRecord} {ref : VersionReference} :
    ref ∈ references devices (copies.foldl keepHighest []) ↔
      ∃ r, Highest copies r ∧ 0 < r.shardsAmong devices ∧ ref = r.reference devices := by
  simp only [references, List.mem_map, List.mem_filter, List.mem_insertionSort, mem_foldl_keepHighest,
    decide_eq_true_eq, and_assoc, @eq_comm _ ref]

/-! ## What a scan reads -/

section Reading

variable {X : Crates} {C : Cluster} {recordSize : MetadataRecord → ℕ} {s : Store} {out : Outage}

theorem scanDevice_eval {node : NodeId} {d : DeviceId} (hd : d ∈ C.opened node) (hdisk : (s.disk d).isSome) {fuel : ℕ}
    {after : Option RecordCursor} {records : List MetadataRecord}
    (hfuel : (recordsAfter after (s.allRecords d)).length < fuel) :
    (scanDevice X C recordSize node d fuel after records).run.eval (execOut out) ⟨s, none⟩ =
      (.ok (records ++ recordsAfter after (s.allRecords d)), ⟨s, none⟩) := by
  induction fuel generalizing after records with
  | zero => omega
  | succ fuel ih =>
    obtain ⟨page, heval, hmap, _⟩ := @eval_localRecords X C recordSize s out _ _ hd hdisk after
    have hreq := eval_request_of (execOut_sees out s) X node heval
    obtain ⟨rest, hsplit, hflag, hfirst⟩ := takePage_spec recordSize maxListPageBytes false 0
      (recordsAfter after (s.allRecords d))
    rw [← hmap] at hsplit hfirst
    rw [scanDevice, Task.eval_try_ok hreq]
    dsimp only
    cases hlast : page.getLast? with
    | none =>
      obtain rfl := List.getLast?_eq_none_iff.mp hlast
      have hnone : recordsAfter after (s.allRecords d) = [] := by
        by_contra hne
        exact hfirst rfl hne rfl
      simp only [Option.map_none, Option.isNone_none, Bool.or_true, if_true, hnone, List.map_nil]
      rfl
    | some last =>
      have hnext : recordsAfter (some ⟨last.record.keyHash, last.record.version⟩) (s.allRecords d) = rest :=
        recordsAfter_next hsplit (by rw [List.getLast?_map, hlast]; rfl)
      simp only [Option.map_some, Option.isNone_some, Bool.or_false]
      cases htr : (takePage recordSize maxListPageBytes false 0 (recordsAfter after (s.allRecords d))).2 with
      | false =>
        have hdone : rest = [] := by
          by_contra hrest
          exact absurd (hflag.mpr hrest) (by rw [htr]; exact Bool.false_ne_true)
        rw [hsplit, hdone, List.append_nil]
        rfl
      | true =>
        have hpos : 0 < page.length := List.length_pos_of_mem (List.mem_of_getLast? hlast)
        have hshort : rest.length < fuel := by
          have := congrArg List.length hsplit
          rw [List.length_append, List.length_map] at this
          omega
        rw [Bool.not_true, if_neg Bool.false_ne_true, ih (by rw [hnext]; exact hshort), hnext, hsplit,
          List.append_assoc]

theorem scanDevice_fails {node : NodeId} {d : DeviceId} (h : d ∉ C.opened node ∨ s.disk d = none) {fuel : ℕ}
    (hfuel : 0 < fuel) (after : Option RecordCursor) (records : List MetadataRecord) :
    ∃ e, (scanDevice X C recordSize node d fuel after records).run.eval (execOut out)
    ⟨s, none⟩ = (.error e, ⟨s, none⟩) := by
  obtain ⟨fuel, rfl⟩ := Nat.exists_eq_succ_of_ne_zero hfuel.ne'
  obtain ⟨e, heval⟩ := @eval_localRecords_gone X C recordSize s out _ _ h after
  exact ⟨_, Task.eval_try_error (eval_request_of (execOut_sees out s) X node heval)⟩

def Served (C : Cluster) (s : Store) (node : NodeId) (e : DeviceEntry) : Prop :=
  e.id ∈ C.opened node ∧ (s.disk e.id).isSome

theorem scanDevices_eval {node : NodeId} {fuel : ℕ} {entries : List DeviceEntry} {current : List MetadataRecord}
    (hfuel : ∀ e ∈ entries, (s.allRecords e.id).length < fuel) :
    ((∀ e ∈ entries, Served C s node e) ∧ (scanDevices X C recordSize fuel node entries current).run.eval
    (execOut out) ⟨s, none⟩ =
      (.ok ((entries.flatMap fun e => s.allRecords e.id).foldl keepHighest current), ⟨s, none⟩)) ∨
    (¬ ∀ e ∈ entries, Served C s node e) ∧
      ∃ e, (scanDevices X C recordSize fuel node entries current).run.eval (execOut out)
      ⟨s, none⟩ = (.error e, ⟨s, none⟩) := by
  induction entries generalizing current with
  | nil => exact .inl ⟨nofun, rfl⟩
  | cons e rest ih =>
    obtain ⟨hone, hrest⟩ := List.forall_mem_cons.mp hfuel
    rw [scanDevices, List.forall_mem_cons]
    by_cases hread : Served C s node e
    · rw [Task.eval_try_ok (scanDevice_eval hread.1 hread.2 hone), List.nil_append, List.flatMap_cons,
        List.foldl_append]
      exact (ih hrest).imp (fun h => ⟨⟨hread, h.1⟩, h.2⟩) fun h => ⟨fun hall => h.1 hall.2, h.2⟩
    · have hgone : e.id ∉ C.opened node ∨ s.disk e.id = none := by
        by_contra hno
        push Not at hno
        exact hread ⟨hno.1, Option.isSome_iff_ne_none.mpr hno.2⟩
      obtain ⟨err, heval⟩ := @scanDevice_fails X C recordSize s out _ _ hgone _ (Nat.zero_lt_of_lt hone) none []
      exact .inr ⟨fun hall => hread hall.1, err, Task.eval_try_error heval⟩

/-- A node answers a scan: it is up and its devices in service can be read. -/
def Scannable (C : Cluster) (s : Store) (out : Outage) (n : NodeEntry) : Prop :=
  out.down n.id = false ∧ ∀ e ∈ scannedDevices C n.id, Served C s n.id e

def nodeRecords (C : Cluster) (s : Store) (n : NodeEntry) : List MetadataRecord :=
  (scannedDevices C n.id).flatMap fun e => s.allRecords e.id

theorem node_isSome {C : Cluster} {n : NodeEntry} (hn : n ∈ C.document.nodes) : (C.document.node n.id).isSome := by
  rw [ClusterDocument.node, List.find?_isSome]
  exact ⟨n, hn, by simp⟩

theorem scanNode_eval {fuel : ℕ} {n : NodeEntry} {current : List MetadataRecord} (hn : n ∈ C.document.nodes)
    (hfuel : ∀ e ∈ scannedDevices C n.id, (s.allRecords e.id).length < fuel) :
    (Scannable C s out n ∧ (scanNode X C recordSize fuel n current).run.eval (execOut out) ⟨s, none⟩ =
      (.ok ((nodeRecords C s n).foldl keepHighest current), ⟨s, none⟩)) ∨
    ¬ Scannable C s out n ∧
      ∃ e, (scanNode X C recordSize fuel n current).run.eval (execOut out) ⟨s, none⟩ = (.error e, ⟨s, none⟩) := by
  rw [scanNode, ExceptT.run_mk, Task.eval_bind]
  cases hdown : out.down n.id with
  | true =>
    obtain ⟨e, heval, _⟩ := eval_connectTo_down (execOut_sees out s) (node_isSome hn) hdown
    rw [Task.eval_try_error heval]
    exact .inr ⟨fun h => Bool.false_ne_true (h.1.symm.trans hdown), _, rfl⟩
  | false =>
    rw [Task.eval_try_ok (eval_connectTo_up (execOut_sees out s) (node_isSome hn) hdown)]
    rcases scanDevices_eval hfuel with ⟨hall, heval⟩ | ⟨hno, e, heval⟩
    · rw [heval]
      exact .inl ⟨⟨hdown, hall⟩, rfl⟩
    · rw [heval]
      exact .inr ⟨fun h => hno h.2, _, rfl⟩

/-- **A scan** of nodes that all answer keeps the highest copy of every version on their devices in service; one that
does not fails it. -/
theorem scanNodes_eval {fuel : ℕ} {nodes : List NodeEntry} {current : List MetadataRecord}
    (hnodes : ∀ n ∈ nodes, n ∈ C.document.nodes) (hfuel : ∀ e ∈ C.document.devices, (s.allRecords e.id).length < fuel) :
    ((∀ n ∈ nodes, Scannable C s out n) ∧ (scanNodes X C recordSize fuel nodes current).run.eval
    (execOut out) ⟨s, none⟩ =
      (.ok ((nodes.flatMap (nodeRecords C s)).foldl keepHighest current), ⟨s, none⟩)) ∨
    (¬ ∀ n ∈ nodes, Scannable C s out n) ∧
      ∃ e, (scanNodes X C recordSize fuel nodes current).run.eval (execOut out) ⟨s, none⟩ = (.error e, ⟨s, none⟩) := by
  induction nodes generalizing current with
  | nil => exact .inl ⟨nofun, rfl⟩
  | cons n rest ih =>
    obtain ⟨hn, hrest⟩ := List.forall_mem_cons.mp hnodes
    rw [scanNodes, List.forall_mem_cons]
    rcases scanNode_eval hn fun e he => hfuel e (List.mem_filter.mp he).1 with ⟨hone, heval⟩ | ⟨hno, e, heval⟩
    · rw [Task.eval_try_ok heval, List.flatMap_cons, List.foldl_append]
      exact (ih hrest).imp (fun h => ⟨⟨hone, h.1⟩, h.2⟩) fun h => ⟨fun hall => h.1 hall.2, h.2⟩
    · exact .inr ⟨fun hall => hno hall.1, e, Task.eval_try_error heval⟩

def scanned (C : Cluster) (s : Store) (skip : Option NodeId) : List MetadataRecord :=
  (scannedNodes C skip).flatMap (nodeRecords C s)

theorem scannedNodes_listed (C : Cluster) (skip : Option NodeId) : ∀ n ∈ scannedNodes C skip, n ∈ C.document.nodes :=
  fun _ hn => (List.mem_filter.mp (List.mem_filter.mp hn).1).1

theorem scanReferences_ok {fuel : ℕ} {devices : List DeviceId} {skip : Option NodeId} {refs : List VersionReference}
    (hfuel : ∀ e ∈ C.document.devices, (s.allRecords e.id).length < fuel)
    (h : ((scanReferences X C recordSize fuel devices skip).run.eval (execOut out) ⟨s, none⟩).1 = .ok refs) :
    (∀ n ∈ scannedNodes C skip, Scannable C s out n) ∧
    refs = references devices ((scanned C s skip).foldl keepHighest []) := by
  rcases @scanNodes_eval X C recordSize s out _ _ [] (scannedNodes_listed C skip)
    hfuel with ⟨hall, heval⟩ | ⟨_, e, heval⟩
  · rw [scanReferences, Task.eval_try_ok heval] at h
    exact ⟨hall, (Except.ok.inj h).symm⟩
  · rw [scanReferences, Task.eval_try_error heval] at h
    cases h

theorem mem_scanned {skip : Option NodeId} {r : MetadataRecord} :
    r ∈ scanned C s skip ↔ ∃ n ∈ C.document.activeNodes, some n.id ≠ skip ∧ ∃ e ∈ C.document.devices, e.node = n.id ∧
      e.state ≠ .removed ∧ s.getRecord e.id r.keyHash r.version = some (.ok r) := by
  simp only [scanned, scannedNodes, nodeRecords, scannedDevices, List.mem_flatMap, List.mem_filter,
    decide_eq_true_eq, mem_allRecords, and_assoc]

end Reading

/-! ## The cost of a forced removal -/

section Cost

variable {X : Crates} {C : Cluster} {recordSize : MetadataRecord → ℕ} {s : Store} {out : Outage} {node : NodeId}

/-- All devices of a node, removed ones included. -/
def devicesOf (C : Cluster) (node : NodeId) : List DeviceId :=
  (C.document.devices.filter fun d => d.node = node).map DeviceEntry.id

theorem checkRemovable_listed {document : ClusterDocument} (h : document.checkRemovable node = .ok ()) :
    (document.node node).isSome := by
  unfold ClusterDocument.checkRemovable at h
  cases hnode : document.node node with
  | none =>
    rw [hnode] at h
    cases h
  | some entry => rfl

theorem planForcedRemoval_ok {fuel : ℕ} {plan : ForcedRemovalPlan}
    (h : ((planForcedRemoval X C recordSize fuel node).run.eval (execOut out) ⟨s, none⟩).1 = .ok plan) :
    plan.devices = devicesOf C node ∧
      ((scanReferences X C recordSize fuel (devicesOf C node) (some node)).run.eval (execOut out) ⟨s, none⟩).1 =
      .ok plan.affected := by
  rw [planForcedRemoval, ExceptT.run_mk] at h
  cases hcheck : C.document.checkRemovable node with
  | error e =>
    rw [hcheck] at h
    cases h
  | ok =>
    have hlisted := checkRemovable_listed hcheck
    rw [hcheck] at h
    dsimp only at h
    rw [Task.eval_bind] at h
    cases hdown : out.down node with
    | false =>
      rw [eval_connectTo_up (execOut_sees out s) hlisted hdown] at h
      cases h
    | true =>
      obtain ⟨e, heval⟩ : ∃ e, (connectTo X C node).run.eval (execOut out) ⟨s, none⟩ = (.error e, ⟨s, none⟩) :=
        (eval_connectTo_down (execOut_sees out s) hlisted hdown).imp fun _ => And.left
      rw [heval] at h
      dsimp only at h
      rw [Task.eval_bind] at h
      unfold devicesOf
      cases hscan : ((scanReferences X C recordSize fuel
        ((C.document.devices.filter fun d => d.node = node).map DeviceEntry.id)
          (some node)).run.eval (execOut out) ⟨s, none⟩).1 with
      | error e =>
        rw [hscan] at h
        cases h
      | ok affected =>
        rw [hscan] at h
        cases h
        exact ⟨rfl, rfl⟩

/-- The copy by which a version is judged when `node` is gone: the highest on the devices in service of the other
members. -/
def Judged (C : Cluster) (s : Store) (node : NodeId) (r : MetadataRecord) : Prop := Highest (scanned C s (some node)) r

/-- A completely written version: every device listed holds this record, and any other copy of the version is older. -/
def Written (C : Cluster) (s : Store) (r : MetadataRecord) : Prop :=
  (∀ shard ∈ r.shards, s.getRecord shard.device r.keyHash r.version = some (.ok r)) ∧
    ∀ e ∈ C.document.devices, ∀ c, s.getRecord e.id r.keyHash r.version = some (.ok c) → c = r ∨ c.revision < r.revision

def Elsewhere (C : Cluster) (node : NodeId) (d : DeviceId) : Prop :=
  ∃ n ∈ C.document.activeNodes, n.id ≠ node ∧ ∃ e ∈ C.document.devices, e.id = d ∧ e.node = n.id ∧ e.state ≠ .removed

def MetadataRecord.shardsBeyond (r : MetadataRecord) (devices : List DeviceId) : ℕ :=
  r.shards.countP fun shard => shard.device ∉ devices

/-- More shards than the parity are on the devices exactly if fewer than `k` are on others. -/
theorem recoverable_iff {r : MetadataRecord} (hr : r.Valid X.hashKey) (devices : List DeviceId) :
    (r.reference devices).recoverable = false ↔ r.shardsBeyond devices < r.k := by
  obtain ⟨scheme, hscheme, hlen, _⟩ := hr.scheme
  obtain ⟨hk, hm⟩ := Scheme.new_eq_ok hscheme
  have hsplit : r.shardsAmong devices + r.shardsBeyond devices = r.shards.length := by
    have := List.length_eq_countP_add_countP (fun shard : ShardLocation => decide (shard.device ∈ devices))
      (l := r.shards)
    rw [this, MetadataRecord.shardsAmong, MetadataRecord.shardsBeyond]
    simp
  rw [VersionReference.recoverable, decide_eq_false_iff_not, MetadataRecord.reference]
  dsimp only
  rw [Scheme.totalShards] at hlen
  omega

theorem Written.judged {r : MetadataRecord} (hvalid : ∀ d kh v c, s.getRecord d kh v = some (.ok c) → c.Valid X.hashKey)
    (h : Written C s r) {shard : ShardLocation} (hshard : shard ∈ r.shards) (helse : Elsewhere C node shard.device) :
    Judged C s node r ∧ ∀ c, Judged C s node c → c.SameVersion r → c = r := by
  obtain ⟨n, hn, hne, e, he, hid, howner, hstate⟩ := helse
  have hcopy := h.1 shard hshard
  have hmem : r ∈ scanned C s (some node) := mem_scanned.mpr
    ⟨n, hn, by simpa using hne, e, he, howner, hstate, hid ▸ hcopy⟩
  have hunique : ∀ c, Judged C s node c → c.SameVersion r → c = r := by
    intro c hc hsame
    obtain ⟨_, _, _, e', he', _, _, hcopy'⟩ := mem_scanned.mp hc.mem
    have hkh : c.keyHash = r.keyHash := by
      rw [(hvalid _ _ _ _ hcopy').keyHash, (hvalid _ _ _ _ hcopy).keyHash, hsame.1]
    rw [hkh, hsame.2] at hcopy'
    exact (h.2 e' he' c hcopy').resolve_right (not_lt.mpr (hc.le hmem hsame.symm))
  obtain ⟨top, htop, hsame⟩ := exists_highest hmem
  exact ⟨hunique top htop hsame ▸ htop, hunique⟩

/-- **The cost of a forced removal.** The versions affected are those whose highest copy on the devices in service of
the other members has a shard on the node's devices, and of these the ones with fewer than `k` shards on other devices
are unrecoverable; a completely written version of which such a device has a copy is judged by its record. -/
theorem forced_removal_cost (hvalid : ∀ d kh v r, s.getRecord d kh v = some (.ok r) → r.Valid X.hashKey) {fuel : ℕ}
    (hfuel : ∀ e ∈ C.document.devices, (s.allRecords e.id).length < fuel) {plan : ForcedRemovalPlan}
    (hplan : ((planForcedRemoval X C recordSize fuel node).run.eval (execOut out) ⟨s, none⟩).1 = .ok plan) :
    (∀ ref, ref ∈ plan.affected ↔
      ∃ r, Judged C s node r ∧ 0 < r.shardsAmong (devicesOf C node) ∧ ref = r.reference (devicesOf C node)) ∧
    (∀ ref, ref ∈ plan.unrecoverable ↔
      ∃ r, Judged C s node r ∧ 0 < r.shardsAmong (devicesOf C node) ∧ r.shardsBeyond (devicesOf C node) < r.k ∧
        ref = r.reference (devicesOf C node)) ∧
    ∀ r, Written C s r → (∃ shard ∈ r.shards, Elsewhere C node shard.device) →
      ((∃ ref ∈ plan.affected, ref.key = r.key ∧ ref.version = r.version) ↔ 0 < r.shardsAmong (devicesOf C node)) ∧
      ((∃ ref ∈ plan.unrecoverable, ref.key = r.key ∧ ref.version = r.version) ↔
        0 < r.shardsAmong (devicesOf C node) ∧ r.shardsBeyond (devicesOf C node) < r.k) := by
  obtain ⟨_, hscan⟩ := planForcedRemoval_ok hplan
  have haffected : ∀ ref, ref ∈ plan.affected ↔
      ∃ r, Judged C s node r ∧ 0 < r.shardsAmong (devicesOf C node) ∧
      ref = r.reference (devicesOf C node) := fun ref => by
    rw [(scanReferences_ok hfuel hscan).2, mem_references]
    rfl
  have hlost : ∀ ref, ref ∈ plan.unrecoverable ↔
      ∃ r, Judged C s node r ∧ 0 < r.shardsAmong (devicesOf C node) ∧ r.shardsBeyond (devicesOf C node) < r.k ∧
        ref = r.reference (devicesOf C node) := fun ref => by
    rw [ForcedRemovalPlan.unrecoverable, List.mem_filter, haffected, Bool.not_eq_true']
    constructor
    · rintro ⟨⟨r, hr, hpos, rfl⟩, hno⟩
      obtain ⟨_, _, _, _, _, _, _, hcopy⟩ := mem_scanned.mp hr.mem
      exact ⟨r, hr, hpos, (recoverable_iff (hvalid _ _ _ _ hcopy) _).mp hno, rfl⟩
    · rintro ⟨r, hr, hpos, hfew, rfl⟩
      obtain ⟨_, _, _, _, _, _, _, hcopy⟩ := mem_scanned.mp hr.mem
      exact ⟨⟨r, hr, hpos, rfl⟩, (recoverable_iff (hvalid _ _ _ _ hcopy) _).mpr hfew⟩
  refine ⟨haffected, hlost, fun r hr ⟨shard, hshard, helse⟩ => ?_⟩
  obtain ⟨hjudged, hunique⟩ := hr.judged hvalid hshard helse
  constructor
  · constructor
    · rintro ⟨ref, href, hkey, hversion⟩
      obtain ⟨c, hc, hpos, rfl⟩ := (haffected ref).mp href
      exact hunique c hc ⟨hkey, hversion⟩ ▸ hpos
    · exact fun hpos => ⟨_, (haffected _).mpr ⟨r, hjudged, hpos, rfl⟩, rfl, rfl⟩
  · constructor
    · rintro ⟨ref, href, hkey, hversion⟩
      obtain ⟨c, hc, hpos, hfew, rfl⟩ := (hlost ref).mp href
      exact hunique c hc ⟨hkey, hversion⟩ ▸ ⟨hpos, hfew⟩
    · exact fun ⟨hpos, hfew⟩ => ⟨_, (hlost _).mpr ⟨r, hjudged, hpos, hfew, rfl⟩, rfl, rfl⟩

end Cost

/-! ## A removed device on another node -/

/-- Two nodes: device 0 is on the first; devices 1 and 2 are on the second, and device 1 was removed. -/
def twoNodes : Cluster where
  document := { smallDocument 1 [] with
    nodes := [⟨0, ["127.0.0.1:9000"], none, .active⟩, ⟨1, ["127.0.0.1:9001"], none, .active⟩]
    devices := [⟨0, 0, .active, none⟩, ⟨1, 1, .removed, none⟩, ⟨2, 1, .active, none⟩] }
  opened n := if n = 0 then [0] else if n = 1 then [1, 2] else []
  blockSize_aligned := ⟨by decide, by decide⟩
  devices_nodup := by decide
  owner_listed := by decide
  opened_listed n d hd := by
    split_ifs at hd
    all_goals
      fin_cases hd <;> rfl
  opened_nodup := by decide

def spreadScheme : Scheme := ⟨2, 1, double.data_pos, double.data_le, pair.parity_le, by decide⟩

/-- An object of two bytes in two data shards and one parity shard. -/
def spreadRecord (devices : List DeviceId) : MetadataRecord :=
  { smallRecord 1 0 devices with size := 2, k := 2, m := 1 }

def spreadShard (i : ℕ) : ShardFile where
  header := ⟨spreadScheme, i, 65536, smallCrates.hashKey "k", 1⟩
  footer := ⟨1, 1, 2, 0, [0]⟩
  blocks := [[8]]
  checksums_length := rfl
  blocks_length := rfl

def spreadStore : Store :=
  (holding [⟨0, spreadRecord [0, 1, 2]⟩, ⟨1, spreadRecord [0, 1, 2]⟩, ⟨2, spreadRecord [0, 1, 2]⟩]).withShards
    [(0, spreadShard 0), (1, spreadShard 1), (2, spreadShard 2)]

def firstDown : Outage := ⟨fun n => n == 0, fun _ _ => none, fun _ _ => false⟩

def MetadataRecord.shardsInService (r : MetadataRecord) (document : ClusterDocument) : ℕ :=
  r.shards.countP fun shard => document.inUse shard.device

theorem spreadStore_copy {d : DeviceId} {kh : KeyHash} {v : VersionId} {r : MetadataRecord}
    (h : spreadStore.getRecord d kh v = some (.ok r)) : r = spreadRecord [0, 1, 2] := by
  rw [spreadStore, withShards_getRecord] at h
  obtain ⟨c, hc, _, hr⟩ := holding_getRecord h
  obtain rfl := Except.ok.inj hr
  exact (by decide : ∀ c ∈ [⟨0, spreadRecord [0, 1, 2]⟩, ⟨1, spreadRecord [0, 1, 2]⟩,
    (⟨2, spreadRecord [0, 1, 2]⟩ : LocatedRecord)], c.record = spreadRecord [0, 1, 2]) c hc

theorem spreadStore_written : Written twoNodes spreadStore (spreadRecord [0, 1, 2]) :=
  ⟨by decide +kernel, fun _ _ _ h => .inl (spreadStore_copy h)⟩

/-- An object of one byte, all of it on the first node. -/
def aloneStore : Store := (holding [⟨0, byteRecord 1 0 [0]⟩]).withShards [(0, byteShard 1 0)]

theorem aloneStore_written : Written twoNodes aloneStore (byteRecord 1 0 [0]) := by
  refine ⟨by decide +kernel, fun e he c hc => .inl ?_⟩
  rw [aloneStore, withShards_getRecord] at hc
  obtain ⟨c', hc', -, hr⟩ := holding_getRecord hc
  rw [Except.ok.inj hr, List.mem_singleton.mp hc']

/-- What a plan says, from what it says of the devices and the versions. -/
theorem plan_of_map {s : Store} {devices : List DeviceId} {affected : List VersionReference}
    (h : ((planForcedRemoval smallCrates twoNodes (fun _ => 1) 9 0).run.eval (execOut firstDown) ⟨s, none⟩).1.map
      (fun plan => (plan.devices, plan.affected)) = .ok (devices, affected)) :
    ∃ plan, ((planForcedRemoval smallCrates twoNodes (fun _ => 1) 9 0).run.eval (execOut firstDown)
    ⟨s, none⟩).1 = .ok plan ∧
      plan.devices = devices ∧ plan.affected = affected := by
  cases hres : ((planForcedRemoval smallCrates twoNodes (fun _ => 1) 9 0).run.eval (execOut firstDown) ⟨s, none⟩).1 with
  | error e =>
    rw [hres] at h
    cases h
  | ok plan =>
    rw [hres] at h
    obtain ⟨hdevices, haffected⟩ := Prod.mk.inj (Except.ok.inj h)
    exact ⟨plan, rfl, hdevices, haffected⟩

theorem spreadStore_plan : ∃ plan,
    ((planForcedRemoval smallCrates twoNodes (fun _ => 1) 9 0).run.eval (execOut firstDown)
    ⟨spreadStore, none⟩).1 = .ok plan ∧
      plan.devices = [0] ∧ plan.affected = [⟨"k", 1, 1, 1⟩] := plan_of_map (by decide +kernel)

/-- A version with a shard on a removed device besides the one on the dead node is lost, and the plan counts it as
recoverable. A version that is all on the dead node is lost too, and the plan does not list it. -/
theorem forced_removal_understated :
    (∃ plan, ((planForcedRemoval smallCrates twoNodes (fun _ => 1) 9 0).run.eval (execOut firstDown)
        ⟨spreadStore, none⟩).1 = .ok plan ∧
      Written twoNodes spreadStore (spreadRecord [0, 1, 2]) ∧ 0 < (spreadRecord [0, 1, 2]).shardsAmong plan.devices ∧
      (spreadRecord [0, 1, 2]).shardsInService (twoNodes.document.documentWithNodeRemoved 0) <
        (spreadRecord [0, 1, 2]).k ∧
      plan.unrecoverable = []) ∧
    ∃ plan, ((planForcedRemoval smallCrates twoNodes (fun _ => 1) 9 0).run.eval (execOut firstDown)
        ⟨aloneStore, none⟩).1 = .ok plan ∧
      Written twoNodes aloneStore (byteRecord 1 0 [0]) ∧ 0 < (byteRecord 1 0 [0]).shardsAmong plan.devices ∧
      plan.affected = [] := by
  obtain ⟨plan, hplan, hdevices, haffected⟩ := spreadStore_plan
  obtain ⟨plan', hplan', hdevices', hnone⟩ := @plan_of_map aloneStore [0] [] (by decide +kernel)
  refine ⟨⟨plan, hplan, spreadStore_written, ?_, by decide, ?_⟩, plan', hplan', aloneStore_written, ?_, hnone⟩
  · rw [hdevices]
    decide
  · rw [ForcedRemovalPlan.unrecoverable, haffected]
    decide
  · rw [hdevices']
    decide

theorem spreadRecord_valid : (spreadRecord [0, 1, 2]).Valid smallCrates.hashKey :=
    MetadataRecord.validate_eq_ok.mp (by decide)

/-- The version is listed by its record. -/
theorem forced_removal_cost_spread : ∃ plan,
    ((planForcedRemoval smallCrates twoNodes (fun _ => 1) 9 0).run.eval (execOut firstDown)
        ⟨spreadStore, none⟩).1 = .ok plan ∧
      ∃ ref ∈ plan.affected, ref.key = "k" ∧ ref.version = 1 := by
  obtain ⟨plan, hplan, _⟩ := spreadStore_plan
  have hcost := (forced_removal_cost (fun _ _ _ r h => spreadStore_copy h ▸ spreadRecord_valid)
    (by decide +kernel) hplan).2.2
  exact ⟨plan, hplan, ((hcost _ spreadStore_written
    ⟨⟨2, 2⟩, by decide, ⟨1, ["127.0.0.1:9001"], none, .active⟩, by decide, by decide,
    ⟨2, 1, .active, none⟩, by decide, rfl, rfl, by decide⟩).1).mpr (by decide)⟩

end Djbod
