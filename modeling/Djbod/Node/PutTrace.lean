import Djbod.Node.DeleteTrace
import Djbod.Node.Upload

/-!
# The trace of a write

* `place_ok`, `preparePut_done` : a write that got past its preparation has chosen `k + m` different devices, each in
  place, and opened a writer on each;
* `Prepared.object` : the object it makes of a body;
* `putObject_done` : the phases of a write that succeeded: shards, then records, then the removal of the other versions.
-/

namespace Djbod

open Sched Pieces

variable {X : Crates} {C : Cluster} {es : List (Ev Op Resp)}

/-! ## Status and placement -/

/-- A status that says available is of a device the node has opened, with the state the document gives it. -/
structure Reported (C : Cluster) (n : NodeId) (status : DeviceStatus) : Prop where
  node : status.node = n
  state : status.state = stateOf C status.device
  opened : status.device ∈ C.opened n

theorem statusOf_done {n : NodeId} {ds : List DeviceId} {statuses : List DeviceStatus} (hds : ∀ d ∈ ds, d ∈ C.opened n)
    (h : Task.Tr (statusOf C n ds).run es (.ret (.ok statuses))) :
    statuses.map DeviceStatus.device = ds ∧ ∀ status ∈ statuses, Reported C n status := by
  induction ds generalizing es statuses with
  | nil =>
    obtain ⟨_, hq⟩ := Task.tr_ret h
    cases hq
    exact ⟨rfl, fun _ hs => absurd hs List.not_mem_nil⟩
  | cons d ds ih =>
    obtain ⟨es₁, es₂, space, rfl, _, hrest⟩ := Task.done_try h
    obtain ⟨es₃, es₄, more, rfl, hmore, hend⟩ := Task.done_try hrest
    obtain ⟨_, hq⟩ := Task.tr_ret hend
    cases hq
    obtain ⟨hmap, hall⟩ := ih (fun d' hd' => hds d' (List.mem_cons_of_mem _ hd')) hmore
    have hone : Reported C n (openedStatus C n d space) := by
      cases space <;> exact ⟨rfl, rfl, hds d List.mem_cons_self⟩
    have hdev : (openedStatus C n d space).device = d := by cases space <;> rfl
    exact ⟨by rw [List.map_cons, hmap, hdev], List.forall_mem_cons.mpr ⟨hone, hall⟩⟩

theorem localStatus_done {n : NodeId} {statuses : List DeviceStatus}
    (h : Task.Tr (localStatus C n).run es (.ret (.ok statuses))) :
    ((statuses.filter DeviceStatus.available).map DeviceStatus.device).Sublist (C.opened n) ∧
      ∀ status ∈ statuses, status.available → Reported C n status := by
  obtain ⟨es₁, es₂, opened, rfl, hopened, hend⟩ := Task.done_try h
  obtain ⟨_, hq⟩ := Task.tr_ret hend
  cases hq
  obtain ⟨hmap, hall⟩ := statusOf_done (fun d hd => hd) hopened
  have hrest : ∀ status ∈ unopenedStatus C n, ¬ status.available = true := by
    intro status hs
    obtain ⟨e, _, rfl⟩ := List.mem_map.mp hs
    exact Bool.false_ne_true
  constructor
  · rw [List.filter_append, List.filter_eq_nil_iff.mpr hrest, List.append_nil, ← hmap]
    exact List.filter_sublist.map _
  · intro status hs hav
    rcases List.mem_append.mp hs with hs | hs
    · exact hall status hs
    · exact absurd hav (hrest status hs)

/-- What a write learns of the devices: the available ones are all different and opened by active nodes. -/
theorem broadcastStatus_done {statuses : List DeviceStatus}
    (h : Prog.Tr (broadcastStatus X C).run es (.ret (.ok statuses))) :
    ((statuses.filter DeviceStatus.available).map DeviceStatus.device).Nodup ∧
      ∀ status ∈ statuses, status.available → ∃ n ∈ C.document.activeNodes, Reported C n.id status := by
  unfold broadcastStatus at h
  obtain ⟨es₁, es₂, answers, rfl, hall, hrest⟩ := Prog.done_try h
  obtain ⟨answers', ha, hall⟩ := Prog.done_lift hall
  cases ha
  obtain ⟨es₃, es₄, lists, rfl, hreq, hend⟩ := Prog.done_try hrest
  obtain ⟨rfl, hlists⟩ := require_ok hreq
  obtain ⟨_, hq⟩ := Prog.tr_ret hend
  cases hq
  have htasks := Prog.done_all hall
  rw [List.map_map] at htasks
  have hnodes := (forall₂_comp htasks.done_map (mapM_eq_ok.mp hlists)).imp
    fun (n : NodeEntry) (l : List DeviceStatus) ⟨answer, ⟨es', _, ht⟩, hl⟩ => by
      subst hl
      obtain ⟨_, _, _, _, _, hstatus⟩ := Task.done_try ht
      obtain ⟨_, _, _, hlocal⟩ := request_ok hstatus
      exact localStatus_done hlocal
  constructor
  · refine List.Sublist.nodup ?_ C.opened_nodup
    have hflat : (lists.flatten.filter DeviceStatus.available).map DeviceStatus.device =
        lists.flatMap fun l => (l.filter DeviceStatus.available).map DeviceStatus.device := by
      rw [List.filter_flatten, List.map_flatten, List.flatMap_def, List.map_map]
      rfl
    rw [hflat]
    exact flatMap_sublist (hnodes.imp fun _ _ h => h.1)
  · intro status hs hav
    obtain ⟨l, hl, hsl⟩ := List.mem_flatten.mp hs
    obtain ⟨n, hn, _, hrep⟩ := forall₂_left_of_mem hnodes hl
    exact ⟨n, hn, hrep status hsl hav⟩

theorem place_ok {scheme : Scheme} {shardBytes : ℕ} {statuses chosen : List DeviceStatus}
    (h : place X scheme shardBytes statuses = .ok chosen)
    (hnodup : ((statuses.filter DeviceStatus.available).map DeviceStatus.device).Nodup) :
    chosen.length = scheme.totalShards ∧ (chosen.map DeviceStatus.device).Nodup ∧
      ∀ status ∈ chosen, status ∈ statuses ∧ status.state = .active ∧ status.available := by
  unfold place at h
  dsimp only at h
  split_ifs at h with hfew
  cases h
  refine ⟨List.length_take_of_le (Nat.not_lt.mp hfew), ?_, ?_⟩
  · refine ((List.take_sublist _ _).map _).nodup ?_
    refine ((List.perm_insertionSort _ _).map _).nodup_iff.mpr ?_
    refine ((List.monotone_filter_right statuses ?_).map _).nodup hnodup
    intro status hs
    simp only [Bool.and_eq_true] at hs
    exact hs.1.2
  · intro status hs
    have hmem := (List.mem_insertionSort _).mp (List.mem_of_mem_take hs)
    obtain ⟨hin, hp⟩ := List.mem_filter.mp hmem
    simp only [Bool.and_eq_true, beq_iff_eq] at hp
    exact ⟨hin, hp.1.1, hp.1.2⟩

theorem openWriters_done {scheme : Scheme} {kh : KeyHash} {v : VersionId} {size i : ℕ} {chosen : List DeviceStatus}
    {writers : List ShardWriter} (h : Task.Tr (openWriters X C scheme kh v size i chosen).run es (.ret (.ok writers))) :
    writers = chosen.mapIdx fun j status => ⟨i + j, status.device, status.node, []⟩ := by
  induction chosen generalizing es i writers with
  | nil =>
    obtain ⟨_, hq⟩ := Task.tr_ret h
    cases hq
    rfl
  | cons status chosen ih =>
    obtain ⟨_, _, _, _, _, hrest⟩ := Task.done_try h
    obtain ⟨_, _, _, _, _, hrest⟩ := Task.done_try hrest
    obtain ⟨_, _, writers, _, hmore, hend⟩ := Task.done_try hrest
    obtain ⟨_, hq⟩ := Task.tr_ret hend
    cases hq
    rw [ih hmore, List.mapIdx_cons]
    simp only [Nat.add_zero, Nat.add_assoc, Nat.add_comm 1]

structure Prepared (X : Crates) (C : Cluster) (version : VersionId) (created : ℤ) (params : PutParams) (p : PreparedPut)
    (chosen : List DeviceStatus) : Prop where
  check : checkPut C params = .ok ()
  scheme : C.document.scheme = .ok p.scheme
  record : p.record = recordTemplate X C p.scheme version created params chosen
  writers : p.writers = chosen.mapIdx fun i status => ⟨i, status.device, status.node, []⟩
  length : chosen.length = p.scheme.totalShards
  nodup : (chosen.map DeviceStatus.device).Nodup
  opened : ∀ status ∈ chosen, status.device ∈ C.opened status.node
  active : ∀ status ∈ chosen, stateOf C status.device = .active

theorem preparePut_done {fuel : ℕ} {version : VersionId} {created : ℤ} {params : PutParams} {p : PreparedPut}
    (h : Prog.Tr (preparePut X C fuel version created params).run es (.ret (.ok p))) :
    ∃ chosen, Prepared X C version created params p chosen := by
  unfold preparePut at h
  obtain ⟨_, _, _, _, hcheck, h⟩ := Prog.done_try h
  obtain ⟨_, _, scheme, _, hscheme, h⟩ := Prog.done_try h
  obtain ⟨_, _, _, _, _, h⟩ := Prog.done_try h
  obtain ⟨_, _, _, _, _, h⟩ := Prog.done_try h
  obtain ⟨_, _, statuses, _, hstatus, h⟩ := Prog.done_try h
  obtain ⟨_, _, _, _, _, h⟩ := Prog.done_try h
  obtain ⟨_, _, chosen, _, hplace, h⟩ := Prog.done_try h
  obtain ⟨_, _, writers, _, hwriters, h⟩ := Prog.done_try h
  obtain ⟨_, hq⟩ := Prog.tr_ret h
  cases hq
  obtain ⟨hnodup, hrep⟩ := broadcastStatus_done hstatus
  obtain ⟨hlen, hdev, hall⟩ := place_ok (require_ok hplace).2 hnodup
  have hdoc : C.document.scheme = .ok scheme := by
    have := (require_ok hscheme).2
    cases hs : C.document.scheme with
    | error e => rw [hs] at this; cases this
    | ok s => rw [hs] at this; cases this; rfl
  refine ⟨chosen, (require_ok hcheck).2, hdoc, rfl, ?_, hlen, hdev, fun status hs => ?_, fun status hs => ?_⟩
  · rw [openWriters_done (callNode_done hwriters)]
    simp only [Nat.zero_add]
  · obtain ⟨hin, _, hav⟩ := hall status hs
    obtain ⟨n, _, hr⟩ := hrep status hin hav
    exact hr.node.symm ▸ hr.opened
  · obtain ⟨hin, hst, hav⟩ := hall status hs
    obtain ⟨n, _, hr⟩ := hrep status hin hav
    exact hr.state.symm.trans hst

/-! ## Record copies -/

def written (es : List (Ev Op Resp)) : List DeviceId :=
  es.filterMap fun e =>
    match e.op with
    | .writeRecord d _ => some d
    | _ => none

theorem written_append (es es' : List (Ev Op Resp)) : written (es ++ es') = written es ++ written es' :=
    List.filterMap_append

theorem written_quiet (h : ∀ e ∈ es, e.op.Quiet) : written es = [] := by
  refine List.filterMap_eq_nil_iff.mpr fun e he => ?_
  have hq := h e he
  split
  · next d r ho => rw [ho] at hq; exact absurd hq not_false
  · rfl

theorem mem_written {d : DeviceId} : d ∈ written es ↔ ∃ e ∈ es, ∃ r, e.op = .writeRecord d r := by
  refine List.mem_filterMap.trans (exists_congr fun e => and_congr_right fun _ => ?_)
  constructor
  · intro h
    split at h
    · next d' r ho => cases h; exact ⟨r, ho⟩
    · cases h
  · rintro ⟨r, ho⟩
    rw [ho]

section Records

variable {d : DeviceId} {r : MetadataRecord}

theorem readRecord_ok {kh : KeyHash} {v : VersionId}
    (h : Task.Tr (Device.readRecord d kh v).run es (.ret (.ok r))) : ∃ n, es = [⟨n, .readRecord d kh v, .ok r⟩] := by
  unfold Device.readRecord at h
  obtain ⟨es₁, es₂, record, rfl, hread, hend⟩ := Task.done_try h
  obtain ⟨n, rfl⟩ := Task.done_perform hread
  split_ifs at hend
  · obtain ⟨_, hq⟩ := Task.tr_ret hend
    cases hq
  · obtain ⟨rfl, hq⟩ := Task.tr_ret hend
    cases hq
    exact ⟨n, rfl⟩

theorem writeRecord_done (h : Task.Tr (Device.writeRecord X.hashKey d r).run es (.ret (.ok ()))) :
    ∃ n, (⟨n, .writeRecord d r, .ok ()⟩ : Ev Op Resp) ∈ es ∨
      (⟨n, .readRecord d r.keyHash r.version, .ok r⟩ : Ev Op Resp) ∈ es := by
  unfold Device.writeRecord at h
  split at h
  · obtain ⟨_, hq⟩ := Task.tr_ret h
    cases hq
  · obtain ⟨es₁, es₂, present, rfl, _, hrest⟩ := Task.done_try h
    have hwrite : ∀ es', Task.Tr (Device.file (Task.perform (Op.writeRecord d r))).run es' (.ret (.ok ())) →
        ∃ n, (⟨n, .writeRecord d r, .ok ()⟩ : Ev Op Resp) ∈ es' := by
      intro es' ht
      obtain ⟨n, rfl⟩ := Task.done_perform ht
      exact ⟨n, List.mem_singleton_self _⟩
    split_ifs at hrest
    · obtain ⟨es₃, es₄, existing, rfl, hread, hmore⟩ := Task.done_try hrest
      obtain ⟨n, rfl⟩ := readRecord_ok hread
      split_ifs at hmore with heq
      · subst heq
        exact ⟨n, .inr (by simp)⟩
      · obtain ⟨_, hq⟩ := Task.tr_ret hmore
        cases hq
      · obtain ⟨n', hn'⟩ := hwrite _ hmore
        exact ⟨n', .inl (List.mem_append_right _ (List.mem_append_right _ hn'))⟩
    · obtain ⟨n, hn⟩ := hwrite _ hrest
      exact ⟨n, .inl (List.mem_append_right _ hn)⟩

theorem writeRecord_written {t : Task Op Resp (Except DeviceError Unit)}
    (h : Task.Tr (Device.writeRecord X.hashKey d r).run es t) : (written es).Sublist [d] := by
  have hquiet : ∀ {es'}, (∀ e ∈ es', e.op.Quiet) → (written es').Sublist [d] := by
    intro es' hq
    rw [written_quiet hq]
    exact List.nil_sublist _
  have hwrite : ∀ {es' t'}, Task.Tr (Device.file (Task.perform (Op.writeRecord d r))).run es' t' →
      (written es').Sublist [d] := by
    intro es' t' ht
    rcases Task.tr_op ht with ⟨rfl, _⟩ | ⟨n, resp, es'', rfl, hend⟩
    · exact List.nil_sublist _
    · obtain ⟨rfl, _⟩ := Task.tr_ret hend
      exact List.Sublist.refl _
  have hpre : ∀ {es₁ es₂}, (∀ e ∈ es₁, e.op.Quiet) → (written es₂).Sublist [d] →
      (written (es₁ ++ es₂)).Sublist [d] := by
    intro es₁ es₂ hq hs
    rw [written_append, written_quiet hq, List.nil_append]
    exact hs
  unfold Device.writeRecord at h
  split at h
  · obtain ⟨rfl, _⟩ := Task.tr_ret h
    exact List.nil_sublist _
  · have hask : (Device.ask (Task.perform (Op.recordExists d r.keyHash r.version))).run.Uses Op.Quiet :=
      Task.uses_lift (Task.uses_perform trivial)
    rcases Task.tr_try h with ⟨_, ht, _⟩ | ⟨es₁, es₂, present, rfl, ht, hrest⟩
    · exact hquiet (ht.uses hask).1
    · refine hpre (ht.uses hask).1 ?_
      split_ifs at hrest
      · have hread : (Device.readRecord d r.keyHash r.version).run.Uses Op.Quiet := readRecord_uses (fun _ hq => hq) d
        rcases Task.tr_try hrest with ⟨_, ht', _⟩ | ⟨es₃, es₄, existing, rfl, ht', hmore⟩
        · exact hquiet (ht'.uses hread).1
        · refine hpre (ht'.uses hread).1 ?_
          split_ifs at hmore
          · obtain ⟨rfl, _⟩ := Task.tr_ret hmore
            exact List.nil_sublist _
          · obtain ⟨rfl, _⟩ := Task.tr_ret hmore
            exact List.nil_sublist _
          · exact hwrite hmore
      · exact hwrite hrest

theorem writeRecords_done {writers : List ShardWriter}
    (h : Task.Tr (writeRecords X C r writers).run es (.ret (.ok ()))) :
    ∀ w ∈ writers, ∃ n, (⟨n, .writeRecord w.device r, .ok ()⟩ : Ev Op Resp) ∈ es ∨
      (⟨n, .readRecord w.device r.keyHash r.version, .ok r⟩ : Ev Op Resp) ∈ es := by
  induction writers generalizing es with
  | nil => exact fun _ hw => absurd hw List.not_mem_nil
  | cons w writers ih =>
    obtain ⟨es₁, es₂, u, rfl, hone, hrest⟩ := Task.done_try h
    obtain ⟨es₃, n, rfl, hhandler⟩ := request_ok hone
    obtain ⟨_, hproc⟩ := onOwnDevice_ok hhandler
    rw [List.forall_mem_cons]
    constructor
    · obtain ⟨n', hn'⟩ := writeRecord_done hproc
      exact ⟨n', hn'.imp (fun hm => List.mem_append_left _ (List.mem_append_left _ hm))
        fun hm => List.mem_append_left _ (List.mem_append_left _ hm)⟩
    · intro w' hw'
      obtain ⟨n', hn'⟩ := ih hrest w' hw'
      exact ⟨n', hn'.imp (fun hm => List.mem_append_right _ hm) fun hm => List.mem_append_right _ hm⟩

theorem writeRecords_written {writers : List ShardWriter} {t : Task Op Resp (Except ErrorDetail Unit)}
    (h : Task.Tr (writeRecords X C r writers).run es t) : (written es).Sublist (writers.map ShardWriter.device) := by
  induction writers generalizing es with
  | nil =>
    obtain ⟨rfl, _⟩ := Task.tr_ret h
    exact List.nil_sublist _
  | cons w writers ih =>
    have hone : ∀ {es' t'}, Task.Tr (request X w.owner (putMeta X C w.owner w.device r)).run es' t' →
        (written es').Sublist [w.device] := by
      intro es' t' ht
      obtain ⟨es₁, es₂, t₁, rfl, ht₁, hq⟩ := request_tr ht
      rw [written_append, written_quiet hq, List.append_nil]
      rcases onOwnDevice_tr ht₁ with rfl | ⟨t₂, ht₂⟩
      · exact List.nil_sublist _
      · exact writeRecord_written ht₂
    rcases Task.tr_try h with ⟨_, ht, _⟩ | ⟨es₁, es₂, u, rfl, ht, hrest⟩
    · exact (hone ht).trans (List.singleton_sublist.mpr List.mem_cons_self)
    · rw [written_append, List.map_cons]
      exact (hone ht).append (ih hrest)

end Records

section Object

variable {version : VersionId} {created : ℤ} {params : PutParams} {p : PreparedPut} {chosen : List DeviceStatus}

theorem checkPut_ok (h : checkPut C params = .ok ()) :
    checkKey C params.key = .ok () ∧ params.contentType.elim 0 String.utf8ByteSize ≤ maxContentTypeBytes := by
  unfold checkPut at h
  cases hk : checkKey C params.key with
  | error e => rw [hk] at h; cases h
  | ok u =>
    rw [hk] at h
    dsimp only at h
    split_ifs at h with hlt
    exact ⟨rfl, Nat.not_lt.mp hlt⟩

theorem mapIdx_map_index {α β : Type} {f : ℕ → α → β} {g : β → ℕ} (h : ∀ i x, g (f i x) = i) (l : List α) :
    (l.mapIdx f).map g = List.range l.length :=
  List.ext_getElem (by simp) fun i _ _ => by simp [h]

theorem mapIdx_map_value {α β γ : Type} {f : ℕ → α → β} {g : β → γ} {k : α → γ} (h : ∀ i x, g (f i x) = k x)
    (l : List α) : (l.mapIdx f).map g = l.map k :=
  List.ext_getElem (by simp) fun i _ _ => by simp [h]

theorem stateOf_active {d : DeviceId} (h : stateOf C d = .active) :
    ∃ e, C.document.device d = some e ∧ e.state = .active := by
  unfold stateOf at h
  cases hd : C.document.device d with
  | none => rw [hd] at h; cases h
  | some e => rw [hd] at h; exact ⟨e, rfl, h⟩

def Prepared.object (hp : Prepared X C version created params p chosen) (hC : C.Whole) (body : Bytes)
    (hsize : body.length = params.size) : StoredObject X C params.key where
  record := { p.record with objectChecksum := X.xxh3 body }
  scheme := p.scheme
  body := body
  valid := by
    rw [hp.record]
    have hidx := mapIdx_map_index (f := fun i (st : DeviceStatus) => (⟨i, st.device⟩ : ShardLocation))
      (g := ShardLocation.index) (fun _ _ => rfl) chosen
    have hdev := mapIdx_map_value (f := fun i (st : DeviceStatus) => (⟨i, st.device⟩ : ShardLocation))
      (g := ShardLocation.device) (fun _ _ => rfl) chosen
    rw [hp.length] at hidx
    have hmem : ∀ i, i ∈ (recordTemplate X C p.scheme version created params chosen).shards.map ShardLocation.index ↔
        i < p.scheme.totalShards := fun i => by
      show i ∈ List.map _ _ ↔ _
      rw [recordTemplate, hidx, List.mem_range]
    refine ⟨rfl, (checkPut_ok hp.check).2, rfl, rfl,
      ⟨p.scheme, Scheme.new_self _, List.length_mapIdx.trans hp.length, ?_, ?_⟩, C.blockSize_aligned, ?_, ?_⟩
    · exact fun shard hs => (hmem shard.index).mp (List.mem_map_of_mem hs)
    · exact fun index hi => (hmem index).mpr hi
    · exact hidx.symm ▸ List.nodup_range
    · exact hdev.symm ▸ hp.nodup
  key_eq := by rw [hp.record]; rfl
  scheme_eq := by rw [hp.record]; exact Scheme.new_self _
  size_eq := by rw [hp.record]; exact hsize.symm
  checksum_eq := rfl
  placed d hd := by
    rw [hp.record] at hd
    have hdev := mapIdx_map_value (f := fun i (st : DeviceStatus) => (⟨i, st.device⟩ : ShardLocation))
      (g := ShardLocation.device) (fun _ _ => rfl) chosen
    obtain ⟨status, hs, rfl⟩ := List.mem_map.mp (hdev ▸ hd)
    obtain ⟨e, he, hstate⟩ := stateOf_active (hp.active status hs)
    exact hC.inPlace he (by rw [hstate]; exact DeviceState.noConfusion)

/-! ## Phases -/

def StoredObject.StoresShard {key : String} (o : StoredObject X C key) : Op → Prop
  | .finishShard d file => ∃ shard ∈ o.record.shards, d = shard.device ∧ file.header.keyHash = X.hashKey key ∧
      file.header.versionId = o.record.version ∧ file.header.shardIndex = shard.index ∧
      IsShard X o.scheme o.record o.body shard.index file
  | _ => False

/-- The operation puts a copy of the object's record in place. -/
def StoredObject.StoresRecord {key : String} (o : StoredObject X C key) : Op → Prop
  | .writeRecord d r => d ∈ o.devices ∧ r = o.record
  | _ => False

def AllShards {key : String} (o : StoredObject X C key) (es : List (Ev Op Resp)) : Prop :=
  o.body ≠ [] → ∀ shard ∈ o.record.shards, ∃ n file, (⟨n, .finishShard shard.device file, .ok ()⟩ : Ev Op Resp) ∈ es ∧
    file.header.keyHash = X.hashKey key ∧ file.header.versionId = o.record.version ∧
    file.header.shardIndex = shard.index ∧ IsShard X o.scheme o.record o.body shard.index file

/-- Every copy of the record was put in place, or found to be there. -/
def AllRecords {key : String} (o : StoredObject X C key) (es : List (Ev Op Resp)) : Prop :=
  ∀ d ∈ o.devices, ∃ n, (⟨n, .writeRecord d o.record, .ok ()⟩ : Ev Op Resp) ∈ es ∨
    (⟨n, .readRecord d (X.hashKey key) o.record.version, .ok o.record⟩ : Ev Op Resp) ∈ es

section Stream

variable (hp : Prepared X C version created params p chosen) (hC : C.Whole) {body : Bytes}
  (hsize : body.length = params.size)

include hp in
theorem Prepared.writers_index : p.writers.map ShardWriter.index = List.range p.scheme.totalShards := by
  rw [hp.writers, ← hp.length]
  exact mapIdx_map_index (fun _ _ => rfl) chosen

theorem Prepared.writers_shards :
    p.writers.map (fun w => (⟨w.index, w.device⟩ : ShardLocation)) = (hp.object hC body hsize).record.shards := by
  show _ = p.record.shards
  rw [hp.writers, hp.record]
  refine List.ext_getElem (by simp [recordTemplate]) fun i _ _ => ?_
  simp [recordTemplate]

include hp in
theorem Prepared.writer_blocks {w : ShardWriter} (hw : w ∈ p.writers) : w.blocks = [] := by
  rw [hp.writers] at hw
  obtain ⟨i, hi, rfl⟩ := List.mem_mapIdx.mp hw
  rfl

theorem Prepared.writer_mem {w : ShardWriter} (hw : w ∈ p.writers) :
    ⟨w.index, w.device⟩ ∈ (hp.object hC body hsize).record.shards := by
  rw [← hp.writers_shards hC hsize]
  exact List.mem_map_of_mem hw

theorem Prepared.exists_writer {shard : ShardLocation} (hs : shard ∈ (hp.object hC body hsize).record.shards) :
    ∃ w ∈ p.writers, w.index = shard.index ∧ w.device = shard.device := by
  rw [← hp.writers_shards hC hsize] at hs
  obtain ⟨w, hw, rfl⟩ := List.mem_map.mp hs
  exact ⟨w, hw, rfl, rfl⟩

def PreparedPut.fullWriters (X : Crates) (p : PreparedPut) (body : Bytes) : List ShardWriter :=
  withStripes X p.scheme p.writers (pieces (p.scheme.dataShards * p.record.blockSize) body)

theorem Prepared.finish_isShard (hlib : ReedSolomonCode.Lawful X.reedSolomon p.scheme) (hne : body ≠ [])
    {w : ShardWriter} (hw : w ∈ p.fullWriters X body) {checksum : BlockChecksum} {file : ShardFile}
    (hfile : writeShard X.xxh3 ⟨p.scheme, w.index, p.record.blockSize, p.record.keyHash, p.record.version⟩ w.blocks
      p.record.size checksum = .ok file) :
    ⟨w.index, w.device⟩ ∈ (hp.object hC body hsize).record.shards ∧ file.header.keyHash = X.hashKey params.key ∧
      file.header.versionId = (hp.object hC body hsize).record.version ∧ file.header.shardIndex = w.index ∧
      IsShard X p.scheme (hp.object hC body hsize).record body w.index file := by
  obtain ⟨w₀, hw₀, rfl⟩ := List.mem_map.mp hw
  have hmem := hp.writer_mem hC hsize hw₀
  have hi : w₀.index < p.scheme.totalShards := (hp.object hC body hsize).describes.scheme_facts.2.1 _ hmem
  obtain ⟨file', hwrite, hhead, hshard⟩ := writeShard_isShard (r := p.record) hlib
    (hp.object hC body hsize).valid.blockSize.1 hne hi p.record.keyHash p.record.version checksum
  dsimp only at hfile
  rw [hp.writer_blocks hw₀, List.nil_append, show p.record.size = body.length from (hp.object hC body hsize).size_eq,
    hwrite] at hfile
  cases hfile
  rw [hhead]
  exact ⟨hmem, (hp.object hC body hsize).keyHash_eq, rfl, rfl, hshard.count, hshard.block⟩

theorem Prepared.finishWriters_uses (hlib : ReedSolomonCode.Lawful X.reedSolomon p.scheme) {P : Op → Prop}
    (hP : ∀ o : Op, o.Quiet → P o) (hstore : ∀ op, (hp.object hC body hsize).StoresShard op → P op)
    (checksum : BlockChecksum) : (finishWriters X C p.scheme p.record checksum (p.fullWriters X body)).run.Uses P := by
  unfold finishWriters
  by_cases hzero : p.record.size = 0
  · rw [if_pos hzero]
    exact Prog.uses_ret _
  · rw [if_neg hzero]
    have hne : body ≠ [] := by
      rintro rfl
      exact hzero (hp.object hC [] hsize).size_eq
    refine Prog.uses_try (callNode_uses (sendEnds_uses hP _)) fun _ =>
        Prog.uses_try (Prog.uses_lift (Prog.uses_all ?_)) fun _ =>
      Prog.uses_try (require_uses _) fun _ => Prog.uses_ret _
    intro t ht
    obtain ⟨w, hw, rfl⟩ := List.mem_map.mp ht
    refine finishWriter_uses hP fun file hfile => hstore _ ?_
    obtain ⟨hmem, hkh, hv, hidx, hshard⟩ := hp.finish_isShard hC hsize hlib hne hw hfile
    exact ⟨_, hmem, rfl, hkh, hv, hidx, hshard⟩

theorem Prepared.finishWriters_done (hlib : ReedSolomonCode.Lawful X.reedSolomon p.scheme) {checksum : BlockChecksum}
    (h : Prog.Tr (finishWriters X C p.scheme p.record checksum (p.fullWriters X body)).run es (.ret (.ok ()))) :
    AllShards (hp.object hC body hsize) es := by
  intro hne shard hs
  have hzero : p.record.size ≠ 0 := by
    intro hz
    exact hne (List.length_eq_zero_iff.mp ((hp.object hC body hsize).size_eq.symm.trans hz))
  unfold finishWriters at h
  rw [if_neg hzero] at h
  obtain ⟨es₁, es₂, _, rfl, _, h⟩ := Prog.done_try h
  obtain ⟨es₃, es₄, answers, rfl, hall, h⟩ := Prog.done_try h
  obtain ⟨_, hb, hall⟩ := Prog.done_lift hall
  cases hb
  obtain ⟨_, _, _, _, hreq, _⟩ := Prog.done_try h
  have hok := (require_ok hreq).2
  obtain ⟨w₀, hw₀, hi, hd⟩ := hp.exists_writer hC hsize hs
  rw [← hi, ← hd]
  obtain ⟨w, hw, hwi, hwd⟩ : ∃ w ∈ p.fullWriters X body, w.index = w₀.index ∧ w.device = w₀.device :=
    ⟨_, List.mem_map_of_mem hw₀, rfl, rfl⟩
  rw [← hwi, ← hwd]
  have hforall := forall₂_comp (Prog.done_all hall).done_map (mapM_eq_ok.mp hok)
  obtain ⟨_, _, _, ⟨es', hsub, ht⟩, rfl⟩ := forall₂_left_of_mem hforall.flip hw
  obtain ⟨es₅, n, rfl, hhandler⟩ := request_ok ht
  obtain ⟨_, hproc⟩ := onOwnDevice_ok hhandler
  split at hproc
  · obtain ⟨_, hq⟩ := Task.tr_ret hproc
    cases hq
  · next file hfile =>
      obtain ⟨n', rfl⟩ := Task.done_perform hproc
      obtain ⟨_, hkh, hv, hidx, hshard⟩ := hp.finish_isShard hC hsize hlib hne hw hfile
      refine ⟨n', file, ?_, hkh, hv, hidx, hshard⟩
      exact List.mem_append_right _ (List.mem_append_left _ (hsub.subset (by simp)))

section Messages

variable {messages : List BodyMessage}

include hp in
theorem Prepared.received (hlib : ReedSolomonCode.Lawful X.reedSolomon p.scheme) {upload : Upload}
    (h : Prog.Tr (callNode (receiveBody X (.new X.reedSolomon p.scheme) p.record ⟨p.writers, [], 0, 0, [], 0⟩
    messages)).run es
      (.ret (.ok upload))) :
    (bodyBytes messages).length = params.size ∧ upload.hashed = bodyBytes messages ∧
      upload.writers = p.fullWriters X (bodyBytes messages) := by
  have hB : 0 < p.record.blockSize := by rw [hp.record]; exact C.blockSize_aligned.1
  have hS : 0 < p.scheme.dataShards * p.record.blockSize := Nat.mul_pos p.scheme.data_pos hB
  have hsize : p.record.size = params.size := by rw [hp.record]; rfl
  have hnil : Uploaded X p.scheme p.record.blockSize p.writers [] ⟨p.writers, [], 0, 0, [], 0⟩ := by
    refine ⟨(remainder_of_lt (l := []) hS).symm, ?_⟩
    rw [fullPieces_of_lt (l := []) hS, withStripes_nil]
  have hdone := receiveBody_done hlib hp.writers_index hB hnil rfl rfl (callNode_done h)
  rw [List.nil_append, hsize] at hdone
  exact hdone

/-- Until the body has arrived nothing is stored; then only shards are. -/
theorem Prepared.stream_tr (hlib : ReedSolomonCode.Lawful X.reedSolomon p.scheme)
    {q : Prog Op Resp (Except ErrorDetail BlockChecksum)}
    (h : Prog.Tr (streamBodyToWriters X C p.scheme p.record p.writers messages).run es q) :
    (∀ e ∈ es, e.op.Quiet) ∨ ∃ hsize : (bodyBytes messages).length = params.size,
      ∀ e ∈ es, e.op.Quiet ∨ (hp.object hC _ hsize).StoresShard e.op := by
  unfold streamBodyToWriters at h
  dsimp only at h
  rcases Prog.tr_try h with ⟨t, ht, _⟩ | ⟨es₁, es₂, upload, rfl, ht, hrest⟩
  · exact .inl (ht.uses (callNode_uses (receiveBody_uses (fun _ hq => hq) _ _ _ _))).1
  · obtain ⟨hsize, _, hw⟩ := hp.received hlib ht
    refine .inr ⟨hsize, fun e he => ?_⟩
    rcases List.mem_append.mp he with he | he
    · exact .inl ((ht.uses (callNode_uses (receiveBody_uses (fun _ hq => hq) _ _ _ _))).1 e he)
    · rw [hw] at hrest
      exact (hrest.uses (Prog.uses_try (hp.finishWriters_uses hC hsize hlib (P := fun op => op.Quiet ∨
        (hp.object hC _ hsize).StoresShard op) (fun _ hq => .inl hq) (fun _ hs => .inr hs) _) fun _ =>
        Prog.uses_ret _)).1 e he

/-- When the stream is done, every shard is in place and the checksum is the body's. -/
theorem Prepared.stream_done (hlib : ReedSolomonCode.Lawful X.reedSolomon p.scheme) {checksum : BlockChecksum}
    (h : Prog.Tr (streamBodyToWriters X C p.scheme p.record p.writers messages).run es (.ret (.ok checksum))) :
    ∃ hsize : (bodyBytes messages).length = params.size, checksum = X.xxh3 (bodyBytes messages) ∧
      (∀ e ∈ es, e.op.Quiet ∨ (hp.object hC _ hsize).StoresShard e.op) ∧ AllShards (hp.object hC _ hsize) es := by
  have hev := hp.stream_tr hC hlib h
  unfold streamBodyToWriters at h
  dsimp only at h
  obtain ⟨es₁, es₂, upload, rfl, ht, hrest⟩ := Prog.done_try h
  obtain ⟨hsize, hhash, hw⟩ := hp.received hlib ht
  rw [hw, hhash] at hrest
  obtain ⟨es₃, es₄, _, rfl, hfinish, hend⟩ := Prog.done_try hrest
  obtain ⟨rfl, hq⟩ := Prog.tr_ret hend
  cases hq
  refine ⟨hsize, rfl, ?_, ?_⟩
  · rcases hev with hquiet | ⟨_, hall⟩
    · exact fun e he => .inl (hquiet e he)
    · exact hall
  · intro hne shard hs
    obtain ⟨n, file, hmem, hfile⟩ := hp.finishWriters_done hC hsize hlib hfinish hne shard hs
    exact ⟨n, file, List.mem_append_right _ (List.mem_append_left _ hmem), hfile⟩

end Messages

/-! ## The records of a prepared write -/

theorem Prepared.writeRecords_tr {t : Task Op Resp (Except ErrorDetail Unit)}
    (h : Task.Tr (writeRecords X C (hp.object hC body hsize).record p.writers).run es t) :
    (∀ e ∈ es, e.op.Quiet ∨ (hp.object hC body hsize).StoresRecord e.op) ∧ (written es).Nodup := by
  constructor
  · refine (h.uses (writeRecords_uses (P := fun op => op.Quiet ∨ (hp.object hC body hsize).StoresRecord op)
      (fun _ hq => .inl hq) fun w hw => .inr ⟨?_, rfl⟩)).1
    exact (hp.object hC body hsize).mem_devices (hp.writer_mem hC hsize hw)
  · refine (writeRecords_written h).nodup ?_
    have hdev : p.writers.map ShardWriter.device = (hp.object hC body hsize).devices := by
      rw [StoredObject.devices, ← hp.writers_shards hC hsize, List.map_map]
      rfl
    rw [hdev]
    exact (hp.object hC body hsize).valid.devices

theorem Prepared.writeRecords_all
    (h : Task.Tr (writeRecords X C (hp.object hC body hsize).record p.writers).run es (.ret (.ok ()))) :
    AllRecords (hp.object hC body hsize) es := by
  intro d hd
  obtain ⟨shard, hs, rfl⟩ := List.mem_map.mp hd
  obtain ⟨w, hw, _, hwd⟩ := hp.exists_writer hC hsize hs
  obtain ⟨n, hn⟩ := writeRecords_done h w hw
  rw [hwd, (hp.object hC body hsize).keyHash_eq] at hn
  exact ⟨n, hn⟩

end Stream

end Object

/-! ## The whole write -/

theorem attempt_done {α : Type} {x : Coord α} {r : Except ErrorDetail α}
    (h : Prog.Tr (attempt x).run es (.ret (.ok r))) : Prog.Tr x.run es (.ret r) := by
  obtain ⟨_, hb, ht⟩ := Prog.done_lift h
  cases hb
  exact ht

/-- The library keeps its promise for the scheme that objects are written with. -/
def Codes (X : Crates) (C : Cluster) : Prop :=
  ∀ scheme, C.document.scheme = .ok scheme → ReedSolomonCode.Lawful X.reedSolomon scheme

/-- The object is what a write with this version and body stores. -/
structure StoredObject.Written {key : String} (o : StoredObject X C key) (version : VersionId)
    (messages : List BodyMessage) : Prop where
  version : o.record.version = version
  body : o.body = bodyBytes messages
  scheme : C.document.scheme = .ok o.scheme
  allowed : checkKey C key = .ok ()

theorem Prepared.written (hp : Prepared X C version created params p chosen) (hC : C.Whole)
    {messages : List BodyMessage} (hsize : (bodyBytes messages).length = params.size) :
    (hp.object hC _ hsize).Written version messages where
  version := by
    show p.record.version = version
    rw [hp.record]
    rfl
  body := rfl
  scheme := hp.scheme
  allowed := (checkPut_ok hp.check).1

/-- A write that succeeded went through all its phases. -/
structure Succeeded {key : String} (o : StoredObject X C key) (fuel : ℕ) (es es₁ es₂ es₃ : List (Ev Op Resp)) :
    Prop where
  split : es = es₁ ++ (es₂ ++ es₃)
  shards : ∀ e ∈ es₁, e.op.Quiet ∨ o.StoresShard e.op
  records : ∀ e ∈ es₂, e.op.Quiet ∨ o.StoresRecord e.op
  once : (written es₂).Nodup
  allShards : AllShards o es₁
  allRecords : AllRecords o es₂
  replaced : Prog.Tr (replaceOthers X C fuel o.record).run es₃ (.ret (.ok ()))

theorem putObject_done {fuel : ℕ} {version : VersionId} {created : ℤ} {params : PutParams} {messages : List BodyMessage}
    (hC : C.Whole) (hlib : Codes X C) {answer : PutAnswer}
    (h : Prog.Tr (putObject X C fuel version created params messages).run es (.ret (.ok answer))) :
    ∃ o : StoredObject X C params.key, o.Written version messages ∧
      ∃ es₁ es₂ es₃, Succeeded o fuel es es₁ es₂ es₃ := by
  unfold putObject at h
  obtain ⟨es₀, es', p, rfl, ht, hrest⟩ := Prog.done_try h
  have hquiet₀ := (ht.uses (P := Op.Quiet) (preparePut_uses (fun _ hq => hq) _ _ _)).1
  obtain ⟨chosen, hp⟩ := preparePut_done ht
  have habort : ∀ {es' : List (Ev Op Resp)} {record writers detail},
      ¬ Prog.Tr (abortPut X C record writers detail : Coord PutAnswer).run es' (.ret (.ok answer)) := by
    intro es' record writers detail hab
    obtain ⟨_, _, _, _, _, hend⟩ := Prog.done_try hab
    obtain ⟨_, hq⟩ := Prog.tr_ret hend
    cases hq
  obtain ⟨es₁, es₂, r, rfl, hatt, hmore⟩ := Prog.done_try hrest
  have hs := attempt_done hatt
  cases r with
  | error detail => exact absurd hmore habort
  | ok checksum =>
    obtain ⟨hsize, rfl, hstore, hall⟩ := hp.stream_done hC (hlib _ hp.scheme) hs
    obtain ⟨es₃, es₄, r, rfl, hatt', hlast⟩ := Prog.done_try hmore
    have hw := callNode_done (attempt_done hatt')
    obtain ⟨honly, hnodup⟩ := hp.writeRecords_tr hC hsize hw
    cases r with
    | error detail => exact absurd hlast habort
    | ok u =>
      obtain ⟨es₅, es₆, _, rfl, ht', hend⟩ := Prog.done_try hlast
      obtain ⟨rfl, _⟩ := Prog.tr_ret hend
      refine ⟨hp.object hC _ hsize, hp.written hC hsize, es₀ ++ es₁, es₃, es₅, by simp, ?_, honly, hnodup, ?_,
        hp.writeRecords_all hC hsize hw, ht'⟩
      · intro e he
        rcases List.mem_append.mp he with he | he
        · exact .inl (hquiet₀ e he)
        · exact hstore e he
      · intro hne shard hsh
        obtain ⟨n, file, hmem, hfile⟩ := hall hne shard hsh
        exact ⟨n, file, List.mem_append_right _ hmem, hfile⟩

theorem replaceOthers_done {fuel : ℕ} {r : MetadataRecord}
    (h : Prog.Tr (replaceOthers X C fuel r).run es (.ret (.ok ()))) :
    ∃ es₁ es₂ located older, es = es₁ ++ es₂ ∧ Prog.Tr (lookup X C fuel r.keyHash).run es₁ (.ret (.ok located)) ∧
      versionsOf X r.key located = .ok older ∧
      Task.Tr (deleteVersions X C (older.filter fun r' => r'.version ≠ r.version)).run es₂ (.ret (.ok ())) := by
  unfold replaceOthers at h
  obtain ⟨es₁, es₂, located, rfl, hlook, hrest⟩ := Prog.done_try h
  obtain ⟨es₃, es₄, older, rfl, hreq, hdel⟩ := Prog.done_try hrest
  obtain ⟨rfl, hok⟩ := require_ok hreq
  exact ⟨es₁, es₄, located, older, rfl, hlook, hok, callNode_done hdel⟩

theorem replaceOthers_tr {fuel : ℕ} {r : MetadataRecord} {q : Prog Op Resp (Except ErrorDetail Unit)}
    (h : Prog.Tr (replaceOthers X C fuel r).run es q) : Removing (fun _ v => v ≠ r.version) es := by
  refine .of_try (lookup_uses (fun _ hq => hq) fuel) h fun _ _ located _ _ hrest => ?_
  refine .of_try (require_uses _) hrest fun _ _ older _ _ hdel => ?_
  obtain ⟨_, hdel, _⟩ := Prog.tr_call hdel
  refine deleteVersions_tr (fun r' hr' => ?_) hdel
  simpa using (List.mem_filter.mp hr').2

end Djbod
