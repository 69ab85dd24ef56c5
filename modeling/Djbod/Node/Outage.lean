import Djbod.Node.Moments

/-!
# Looking up records while nodes are down

A lookup that runs alone over devices of which some cannot be consulted: their node does not answer, they were not
opened, or their tree is gone.

* `Outage`, `Wire`, `execOut` : what fails while a read runs, and how operations execute meanwhile;
* `Sees` : an executor answers a lookup from the files of a store, over the nodes that are up;
* `reached` : the devices of the nodes that are up; `CopiesOn` : the record copies on some devices;
* `lookupReachable_sees` : the lookup returns the copies on the reached devices and names every device it could not
  read;
* `lookupReachable_bad` : it fails when a reached device holds a record file that cannot be read.
-/

namespace Djbod

open Sched

/-- What fails while a read runs: nodes that do not answer, blocks that their device cannot read, and blocks lost with
the connection they are sent over. -/
structure Outage where
  down : NodeId → Bool
  unread : ShardFile → ℕ → Option DeviceError
  lost : ShardFile → ℕ → Bool

/-- The devices, and the block on its way. -/
structure Wire where
  store : Store
  sending : Option (ShardFile × ℕ)

def execOut (out : Outage) : (o : Op) → Wire → Resp o × Wire
  | .connect n, w => (if out.down n then .error "connection refused" else .ok (), w)
  | .transfer _, w =>
    match w.sending with
    | none => (.ok (), w)
    | some (file, n) => (if out.lost file n then .error "connection reset" else .ok (), { w with sending := none })
  | .readBlock file n, w =>
    (match out.unread file n with
      | some e => .error e
      | none => (exec (.readBlock file n) w.store).1, { w with sending := some (file, n) })
  | o, w => ((exec o w.store).1, { w with store := (exec o w.store).2 })

/-- An executor that answers lookups from the files of `s`, over connections to the nodes that are not `down`. -/
structure Sees {σ : Type} (ex : (o : Op) → σ → Resp o × σ) (w : σ) (s : Store) (down : NodeId → Bool) : Prop where
  refused : ∀ n, down n = true → ∃ reason, ex (.connect n) w = (.error reason, w)
  connected : ∀ n, down n = false → ex (.connect n) w = (.ok (), w)
  delivered : ∀ n, ex (.transfer n) w = (.ok (), w)
  readDir : ∀ d kh, ex (.readDir d kh) w = ((exec (.readDir d kh) s).1, w)
  readRecord : ∀ d kh v, ex (.readRecord d kh v) w = ((exec (.readRecord d kh v) s).1, w)
  openShard : ∀ d kh v i, ex (.openShard d kh v i) w = ((exec (.openShard d kh v i) s).1, w)
  walkRecords : ∀ d, ex (.walkRecords d) w = ((exec (.walkRecords d) s).1, w)

theorem exec_sees (s : Store) : Sees exec s s fun _ => false where
  refused _ h := by cases h
  connected _ _ := rfl
  delivered _ := rfl
  readDir _ _ := rfl
  readRecord _ _ _ := rfl
  openShard _ _ _ _ := rfl
  walkRecords _ := rfl

theorem execOut_sees (out : Outage) (s : Store) : Sees (execOut out) ⟨s, none⟩ s out.down where
  refused n h := ⟨"connection refused", by rw [execOut, if_pos h]⟩
  connected n h := by rw [execOut, if_neg (by rw [h]; exact Bool.false_ne_true)]
  delivered _ := rfl
  readDir _ _ := rfl
  readRecord _ _ _ := rfl
  openShard _ _ _ _ := rfl
  walkRecords _ := rfl

/-! ## The copies on a device -/

/-- The readable record copies under a key hash on a device, oldest version first. -/
def Store.recordsOf (s : Store) (d : DeviceId) (kh : KeyHash) : List MetadataRecord :=
  ((s.versions d kh).insertionSort (· ≤ ·)).filterMap fun v =>
    match s.getRecord d kh v with
    | some (.ok r) => some r
    | _ => none

def Undamaged (s : Store) (kh : KeyHash) (d : DeviceId) : Prop := ∀ v e, s.getRecord d kh v ≠ some (.error e)

structure CopiesOn (ds : List DeviceId) (kh : KeyHash) (s : Store) (located : List LocatedRecord) : Prop where
  mem : ∀ c, c ∈ located ↔ c.device ∈ ds ∧ s.getRecord c.device kh c.record.version = some (.ok c.record)
  places : (located.map LocatedRecord.place).Nodup

def copiesIn (s : Store) (kh : KeyHash) (ds : List DeviceId) : List LocatedRecord :=
  ds.flatMap fun d => (s.recordsOf d kh).map (LocatedRecord.mk d)

section Device

variable {s : Store} {d : DeviceId} {kh : KeyHash}

theorem mem_recordsOf {r : MetadataRecord} : r ∈ s.recordsOf d kh ↔ s.getRecord d kh r.version = some (.ok r) := by
  simp only [Store.recordsOf, List.mem_filterMap, List.mem_insertionSort, Store.mem_versions]
  constructor
  · rintro ⟨v, _, hr⟩
    split at hr
    · next r' hr' =>
        cases hr
        rwa [(Store.getRecord_filed hr').2]
    · cases hr
  · intro h
    exact ⟨r.version, h ▸ rfl, by rw [h]⟩

theorem recordsOf_versions_nodup : ((s.recordsOf d kh).map MetadataRecord.version).Nodup := by
  have hsub : ((s.recordsOf d kh).map MetadataRecord.version).Sublist ((s.versions d kh).insertionSort (· ≤ ·)) := by
    unfold Store.recordsOf
    rw [List.map_filterMap]
    have hid := List.filterMap_some (l := (s.versions d kh).insertionSort (· ≤ ·))
    conv_rhs => rw [← hid]
    generalize (s.versions d kh).insertionSort (· ≤ ·) = vs
    induction vs with
    | nil => exact .slnil
    | cons v vs ih =>
      rw [List.filterMap_cons, List.filterMap_cons]
      cases hr : s.getRecord d kh v with
      | none => exact ih.cons _
      | some file =>
        cases file with
        | error e => exact ih.cons _
        | ok r =>
          simp only [Option.map_some]
          rw [(Store.getRecord_filed hr).2]
          exact ih.cons_cons _
  exact hsub.nodup ((List.perm_insertionSort _ _).nodup_iff.mpr (Store.versions_nodup s d kh))

theorem recordsOf_length_le : (s.recordsOf d kh).length ≤ (s.versions d kh).length := by
  refine (List.length_filterMap_le _ _).trans ?_
  rw [List.length_insertionSort]

theorem recordsOf_gone (h : s.disk d = none) : s.recordsOf d kh = [] := by
  unfold Store.recordsOf Store.versions
  rw [h]
  rfl

theorem copiesOn_copiesIn {ds : List DeviceId} (hds : ds.Nodup) : CopiesOn ds kh s (copiesIn s kh ds) where
  mem c := by
    simp only [copiesIn, List.mem_flatMap, List.mem_map, mem_recordsOf]
    constructor
    · rintro ⟨d, hd, r, hr, rfl⟩
      exact ⟨hd, hr⟩
    · rintro ⟨hd, hr⟩
      exact ⟨c.device, hd, c.record, hr, rfl⟩
  places := by
    induction ds with
    | nil => exact List.nodup_nil
    | cons d ds ih =>
      rw [List.nodup_cons] at hds
      simp only [copiesIn, List.flatMap_cons, List.map_append, List.map_map] at ih ⊢
      refine List.nodup_append.mpr ⟨?_, ih hds.2, ?_⟩
      · refine List.Nodup.of_map (fun p : VersionId ×ₗ DeviceId => (ofLex p).1) ?_
        rw [List.map_map]
        exact recordsOf_versions_nodup
      · intro p hp q hq hpq
        subst hpq
        obtain ⟨r, _, rfl⟩ := List.mem_map.mp hp
        obtain ⟨c, hc, hplace⟩ := List.mem_map.mp hq
        obtain ⟨d', hd', hc'⟩ := List.mem_flatMap.mp hc
        obtain ⟨r', _, rfl⟩ := List.mem_map.mp hc'
        have hdd : d' = d := congrArg (fun p : VersionId ×ₗ DeviceId => (ofLex p).2) hplace
        exact hds.1 (hdd ▸ hd')

theorem CopiesOn.perm {ds : List DeviceId} {located located' : List LocatedRecord} (h : CopiesOn ds kh s located)
    (hp : located'.Perm located) : CopiesOn ds kh s located' where
  mem c := hp.mem_iff.trans (h.mem c)
  places := (hp.map _).nodup_iff.mpr h.places

theorem copiesIn_length_le (ds : List DeviceId) :
    (copiesIn s kh ds).length ≤ (ds.map fun d => (s.versions d kh).length).sum := by
  induction ds with
  | nil => exact Nat.zero_le _
  | cons d ds ih =>
    simp only [copiesIn, List.flatMap_cons, List.length_append, List.length_map, List.map_cons, List.sum_cons] at ih ⊢
    exact Nat.add_le_add recordsOf_length_le ih

end Device

/-! ## One node -/

section Node

variable {σ : Type} {ex : (o : Op) → σ → Resp o × σ} {w : σ} {s : Store} {down : NodeId → Bool}
  {X : Crates} {C : Cluster} {kh : KeyHash}

variable (hw : Sees ex w s down)

include hw

theorem eval_readRecord (d : DeviceId) {v : VersionId} {r : MetadataRecord}
    (h : s.getRecord d kh v = some (.ok r)) : (Device.readRecord d kh v).run.eval ex w = (.ok r, w) := by
  have hop : (Device.file (Task.perform (Op.readRecord d kh v))).run.eval ex w = (.ok r, w) := by
    refine (hw.readRecord d kh v).trans ?_
    simp only [exec, h]
  unfold Device.readRecord
  rw [Task.eval_try_ok hop, if_neg (not_not.mpr (Store.getRecord_filed h).1)]
  rfl

theorem eval_readRecord_bad (d : DeviceId) {v : VersionId} {e : RecordError}
    (h : s.getRecord d kh v = some (.error e)) : (Device.readRecord d kh v).run.eval ex w =
    (.error (.record e), w) := by
  refine Task.eval_try_error ((hw.readRecord d kh v).trans ?_)
  simp only [exec, h]

theorem eval_readEach (d : DeviceId) {vs : List VersionId} (h : ∀ v ∈ vs, (s.getRecord d kh v).isSome) :
    ((∀ v ∈ vs, ∀ e, s.getRecord d kh v ≠ some (.error e)) ∧
    (Device.readEach d kh vs).run.eval ex w = (.ok (vs.filterMap fun v =>
      match s.getRecord d kh v with | some (.ok r) => some r | _ => none), w)) ∨
    (∃ v e, s.getRecord d kh v = some (.error e)) ∧
    ∃ e, (Device.readEach d kh vs).run.eval ex w = (.error (.record e), w) := by
  induction vs with
  | nil => exact .inl ⟨nofun, rfl⟩
  | cons v vs ih =>
    have ih := ih fun v' hv' => h v' (List.mem_cons_of_mem _ hv')
    obtain ⟨file, hfile⟩ := Option.isSome_iff_exists.mp (h v List.mem_cons_self)
    unfold Device.readEach
    cases file with
    | error e => exact .inr ⟨⟨v, e, hfile⟩, e, Task.eval_try_error (eval_readRecord_bad hw d hfile)⟩
    | ok r =>
      rw [Task.eval_try_ok (eval_readRecord hw d hfile)]
      rcases ih with ⟨hgood, hrest⟩ | ⟨hbad, e, hrest⟩
      · refine .inl ⟨List.forall_mem_cons.mpr ⟨fun e he => (by cases hfile.symm.trans he), hgood⟩, ?_⟩
        rw [Task.eval_try_ok hrest, List.filterMap_cons, hfile]
        rfl
      · exact .inr ⟨hbad, e, Task.eval_try_error hrest⟩

omit hw in
theorem mem_sortedVersions {d : DeviceId} {v : VersionId} (hv : v ∈ (s.versions d kh).insertionSort (· ≤ ·)) :
    (s.getRecord d kh v).isSome := Store.mem_versions.mp ((List.mem_insertionSort _).mp hv)

theorem eval_readDir {d : DeviceId} (hd : (s.disk d).isSome) :
    (Device.file (Task.perform (Op.readDir d kh))).run.eval ex w = (.ok (s.versions d kh), w) := by
  refine (hw.readDir d kh).trans ?_
  simp only [exec, onDevice, if_pos hd]

theorem eval_readRecords {d : DeviceId} (hd : (s.disk d).isSome) :
    (Undamaged s kh d ∧ (Device.readRecords d kh).run.eval ex w = (.ok (s.recordsOf d kh), w)) ∨
    ¬ Undamaged s kh d ∧ ∃ e, (Device.readRecords d kh).run.eval ex w = (.error (.record e), w) := by
  unfold Device.readRecords
  rw [Task.eval_try_ok (eval_readDir hw hd)]
  refine (eval_readEach hw d fun v hv => mem_sortedVersions hv).imp (fun hgood => ⟨fun v e he => ?_, hgood.2⟩)
    fun ⟨⟨v, e, he⟩, hbad⟩ => ⟨fun hgood => hgood v e he, hbad⟩
  exact hgood.1 v ((List.mem_insertionSort _).mpr (Store.mem_versions.mpr (he ▸ rfl))) e he

theorem eval_readRecords_gone {d : DeviceId} (hd : s.disk d = none) :
    (Device.readRecords d kh).run.eval ex w = (.error .unavailable, w) := by
  refine Task.eval_try_error ((hw.readDir d kh).trans ?_)
  simp only [exec, onDevice, hd, Option.isSome_none, Bool.false_eq_true, if_false]

theorem eval_readDevices {ds : List DeviceId} :
    ((∀ d ∈ ds, Undamaged s kh d) ∧
      (readDevices kh ds).run.eval ex w = (.ok (copiesIn s kh ds, ds.filter fun d => (s.disk d).isNone), w)) ∨
    (∃ d ∈ ds, ¬ Undamaged s kh d) ∧ ∃ e, (readDevices kh ds).run.eval ex w = (.error e, w) ∧
    e.code = .recordsInconsistent := by
  induction ds with
  | nil => exact .inl ⟨nofun, rfl⟩
  | cons d ds ih =>
    have hlift : ∀ {res}, (Device.readRecords d kh).run.eval ex w = (res, w) →
        (ExceptT.lift (Device.readRecords d kh).run : NodeProc (Except DeviceError (List MetadataRecord))).run.eval ex
        w = (.ok res, w) := fun hone => by rw [Task.eval_lift, hone]
    unfold readDevices
    cases hd : s.disk d with
    | none =>
      rw [Task.eval_try_ok (hlift (eval_readRecords_gone hw hd))]
      dsimp only
      rw [if_pos (show (deviceErrorDetail .unavailable).code = .deviceUnavailable from rfl)]
      rcases ih with ⟨hgood, hrest⟩ | ⟨⟨d', hd', hno⟩, e, hrest, hcode⟩
      · refine .inl ⟨List.forall_mem_cons.mpr ⟨fun v e => by simp [Store.getRecord, hd], hgood⟩, ?_⟩
        rw [Task.eval_try_ok hrest]
        simp only [copiesIn, List.flatMap_cons, recordsOf_gone hd, List.map_nil, List.nil_append, List.filter_cons, hd,
          Option.isNone_none, if_true]
        rfl
      · exact .inr ⟨⟨d', List.mem_cons_of_mem _ hd', hno⟩, e, Task.eval_try_error hrest, hcode⟩
    | some disk =>
      rcases eval_readRecords hw (show (s.disk d).isSome by rw [hd]; rfl) with ⟨hone, hread⟩ | ⟨hno, e, hread⟩
      · rw [Task.eval_try_ok (hlift hread)]
        dsimp only
        rcases ih with ⟨hgood, hrest⟩ | ⟨⟨d', hd', hno⟩, e, hrest, hcode⟩
        · refine .inl ⟨List.forall_mem_cons.mpr ⟨hone, hgood⟩, ?_⟩
          rw [Task.eval_try_ok hrest]
          simp only [copiesIn, List.flatMap_cons, List.filter_cons, hd, Option.isNone_some,
            Bool.false_eq_true, if_false]
          rfl
        · exact .inr ⟨⟨d', List.mem_cons_of_mem _ hd', hno⟩, e, Task.eval_try_error hrest, hcode⟩
      · rw [Task.eval_try_ok (hlift hread)]
        dsimp only
        rw [if_neg (show ¬(deviceErrorDetail (.record e)).code = .deviceUnavailable by intro h; cases h)]
        exact .inr ⟨⟨d, List.mem_cons_self, hno⟩, withDevice (deviceErrorDetail (.record e)) d, rfl, rfl⟩

omit hw in
theorem eval_request_sent (X : Crates) {w' w'' : σ} {α : Type} {target : NodeId} {handler : NodeProc α}
    {res : Except ErrorDetail α} (h : handler.run.eval ex w = (res, w'))
    (hsent : ex (.transfer target) w' = (.ok (), w'')) : (request X target handler).run.eval ex w =
      (res.mapError fun detail => { detail with node := detail.node <|> some target }, w'') := by
  unfold request
  rw [ExceptT.run_mk, Task.eval_bind, h, Task.eval_bind, Task.eval_perform, hsent]
  cases res <;> rfl

omit hw in
theorem eval_request_lost (X : Crates) {w' w'' : σ} {α : Type} {target : NodeId} {handler : NodeProc α}
    {res : Except ErrorDetail α} {reason : String} (h : handler.run.eval ex w = (res, w'))
    (hsent : ex (.transfer target) w' = (.error reason, w'')) :
    ∃ e, (request X target handler).run.eval ex w = (.error e, w'') := by
  unfold request
  rw [ExceptT.run_mk, Task.eval_bind, h, Task.eval_bind, Task.eval_perform, hsent]
  exact ⟨_, rfl⟩

theorem eval_request_of (X : Crates) (target : NodeId) {α : Type} {handler : NodeProc α} {res : Except ErrorDetail α}
    (h : handler.run.eval ex w = (res, w)) : (request X target handler).run.eval ex w =
      (res.mapError fun detail => { detail with node := detail.node <|> some target }, w) :=
  eval_request_sent X h (hw.delivered target)

theorem eval_connectTo_up {target : NodeId} (hnode : (C.document.node target).isSome)
    (hup : down target = false) : (connectTo X C target).run.eval ex w = (.ok (), w) := by
  obtain ⟨entry, hentry⟩ := Option.isSome_iff_exists.mp hnode
  unfold connectTo
  rw [hentry]
  dsimp only
  rw [ExceptT.run_mk, Task.eval_bind, Task.eval_perform, hw.connected target hup]
  rfl

theorem eval_connectTo_down {target : NodeId} (hnode : (C.document.node target).isSome) (hdown : down target = true) :
    ∃ e, (connectTo X C target).run.eval ex w = (.error e, w) ∧ e.code = .nodeUnreachable := by
  obtain ⟨entry, hentry⟩ := Option.isSome_iff_exists.mp hnode
  obtain ⟨reason, hreason⟩ := hw.refused target hdown
  unfold connectTo
  rw [hentry]
  dsimp only
  rw [ExceptT.run_mk, Task.eval_bind, Task.eval_perform, hreason]
  exact ⟨_, rfl, rfl⟩

def nodeUnread (C : Cluster) (s : Store) (node : NodeId) : List DeviceId :=
  unavailableDevices C node ++ (C.opened node).filter fun d => (s.disk d).isNone

omit hw in
/-- The rest of the pages is what lies behind the last copy of a page. -/
theorem pageSource_next {after : Option LookupCursor} {recs page rest : List LocatedRecord} {last : LocatedRecord}
    (hplaces : (recs.map LocatedRecord.place).Nodup) (hpage : pageSource after recs = page ++ rest)
    (hlast : page.getLast? = some last) : pageSource (some ⟨last.record.version, last.device⟩) recs = rest := by
  have hsorted := pageSource_sorted after hplaces
  rw [hpage, List.pairwise_append] at hsorted
  obtain ⟨init, rfl⟩ := List.getLast?_eq_some_iff.mp hlast
  have hlastmem : last ∈ pageSource after recs := by
    rw [hpage]
    simp
  have hcursor : (⟨last.record.version, last.device⟩ : LookupCursor).place = last.place := rfl
  have hsub : pageSource (some ⟨last.record.version, last.device⟩) recs =
      (pageSource after recs).filter (LookupCursor.before ⟨last.record.version, last.device⟩) := by
    cases after with
    | none => rfl
    | some cursor =>
      simp only [pageSource, List.filter_filter]
      refine List.filter_congr fun c _ => ?_
      rw [Bool.eq_iff_iff, Bool.and_eq_true, LookupCursor.before_iff, LookupCursor.before_iff, hcursor]
      refine ⟨fun h => ⟨h, ?_⟩, And.left⟩
      exact ((mem_pageSource.mp hlastmem).2 cursor rfl).trans h
  rw [hsub, hpage, List.filter_append]
  have hinit : (init ++ [last]).filter (LookupCursor.before ⟨last.record.version, last.device⟩) = [] := by
    refine List.filter_eq_nil_iff.mpr fun c hc hbefore => ?_
    rw [LookupCursor.before_iff, hcursor] at hbefore
    rcases List.mem_append.mp hc with hc | hc
    · exact lt_asymm hbefore ((List.pairwise_append.mp hsorted.1).2.2 c hc last (List.mem_singleton_self _))
    · rw [List.mem_singleton.mp hc] at hbefore
      exact lt_irrefl _ hbefore
  have hrest : rest.filter (LookupCursor.before ⟨last.record.version, last.device⟩) = rest := by
    refine List.filter_eq_self.mpr fun c hc => ?_
    rw [LookupCursor.before_iff, hcursor]
    exact hsorted.2.2 last (by simp) c hc
  rw [hinit, hrest, List.nil_append]

theorem eval_localLookup (node : NodeId) (after : Option LookupCursor) :
    ((∀ d ∈ C.opened node, Undamaged s kh d) ∧ (localLookup X C node kh after).run.eval ex w =
      (.ok ⟨(takePage X.encodedLen maxListPageBytes false 0 (pageSource after (copiesIn s kh (C.opened node)))).1,
        (takePage X.encodedLen maxListPageBytes false 0 (pageSource after (copiesIn s kh (C.opened node)))).2,
        nodeUnread C s node⟩, w)) ∨
    (∃ d ∈ C.opened node, ¬ Undamaged s kh d) ∧
      ∃ e, (localLookup X C node kh after).run.eval ex w = (.error e, w) ∧ e.code = .recordsInconsistent := by
  unfold localLookup
  rcases eval_readDevices hw with ⟨hgood, hread⟩ | ⟨hbad, e, hread, hcode⟩
  · rw [Task.eval_try_ok hread]
    exact .inl ⟨hgood, by cases after <;> rfl⟩
  · exact .inr ⟨hbad, e, Task.eval_try_error hread, hcode⟩

theorem eval_lookupPages {node : NodeId} (hgood : ∀ d ∈ C.opened node, Undamaged s kh d)
    (hnodup : (C.opened node).Nodup) {fuel : ℕ} {after : Option LookupCursor} {all : List LocatedRecord}
    (hfuel : (pageSource after (copiesIn s kh (C.opened node))).length < fuel) :
    (lookupPages X C node kh fuel after all).run.eval ex w =
      (.ok (all ++ pageSource after (copiesIn s kh (C.opened node)), nodeUnread C s node), w) := by
  induction fuel generalizing after all with
  | zero => exact absurd hfuel (Nat.not_lt_zero _)
  | succ fuel ih =>
    have hplaces : ((copiesIn s kh (C.opened node)).map LocatedRecord.place).Nodup := (copiesOn_copiesIn hnodup).places
    obtain ⟨rest, hpage, htrunc, hne⟩ := takePage_spec X.encodedLen maxListPageBytes false 0
      (pageSource after (copiesIn s kh (C.opened node)))
    obtain ⟨_, hlocal⟩ := (eval_localLookup (X := X) hw node after).resolve_right fun ⟨⟨d, hd, hno⟩, _⟩ =>
      hno (hgood d hd)
    have hone := eval_request_of hw X node hlocal
    unfold lookupPages
    rw [Task.eval_try_ok hone]
    generalize takePage X.encodedLen maxListPageBytes false 0 (pageSource after (copiesIn s kh (C.opened node))) = taken
      at hpage htrunc hne ⊢
    obtain ⟨page, truncated⟩ := taken
    dsimp only at hpage htrunc hne ⊢
    cases hlast : page.getLast? with
    | none =>
      obtain rfl : page = [] := List.getLast?_eq_none_iff.mp hlast
      have hnil : pageSource after (copiesIn s kh (C.opened node)) = [] := by
        by_contra h
        exact hne rfl h rfl
      rw [hnil]
      simp
    | some last =>
      cases truncated with
      | false =>
        have hrest : rest = [] := by
          by_contra h
          cases htrunc.mpr h
        rw [hrest, List.append_nil] at hpage
        simp [hpage]
      | true =>
        have hnext := pageSource_next hplaces hpage hlast
        have hpos : 0 < page.length := by
          cases page with
          | nil => cases hlast
          | cons c page => exact Nat.succ_pos _
        have hlen : (pageSource (some ⟨last.record.version, last.device⟩) (copiesIn s kh (C.opened node))).length <
            fuel := by
          rw [hpage, List.length_append] at hfuel
          rw [hnext]
          omega
        have hih := @ih _ (all ++ page) hlen
        rw [hnext] at hih
        rw [hpage, ← List.append_assoc]
        simpa using hih

theorem eval_lookupOn {node : NodeId} (hnode : (C.document.node node).isSome) (hup : down node = false)
    (hgood : ∀ d ∈ C.opened node, Undamaged s kh d) (hnodup : (C.opened node).Nodup) {fuel : ℕ}
    (hfuel : (copiesIn s kh (C.opened node)).length < fuel) : (lookupOn X C fuel node kh).run.eval ex w =
      (.ok (pageSource none (copiesIn s kh (C.opened node)), nodeUnread C s node), w) := by
  unfold lookupOn
  rw [Task.eval_try_ok (eval_connectTo_up hw hnode hup), eval_lookupPages hw hgood hnodup (by
    rw [pageSource, List.length_insertionSort]
    exact hfuel)]
  rfl

theorem eval_lookupOn_bad {node : NodeId} (hnode : (C.document.node node).isSome)
    (hup : down node = false) (hbad : ∃ d ∈ C.opened node, ¬ Undamaged s kh d) {fuel : ℕ} (hfuel : 0 < fuel) :
    ∃ e, (lookupOn X C fuel node kh).run.eval ex w = (.error e, w) ∧ e.code = .recordsInconsistent := by
  obtain ⟨d, hd, hno⟩ := hbad
  obtain ⟨_, e, hlocal, hcode⟩ := (eval_localLookup (X := X) hw node none).resolve_left fun hgood => hno (hgood.1 d hd)
  have hreq := eval_request_of hw X node hlocal
  obtain ⟨fuel, rfl⟩ := Nat.exists_eq_succ_of_ne_zero hfuel.ne'
  refine ⟨{ e with node := e.node <|> some node }, ?_, hcode⟩
  unfold lookupOn
  rw [Task.eval_try_ok (eval_connectTo_up hw hnode hup)]
  unfold lookupPages
  exact Task.eval_try_error hreq

theorem eval_lookupOn_down (X : Crates) (kh : KeyHash) {node : NodeId} (hnode : (C.document.node node).isSome)
    (hdown : down node = true) (fuel : ℕ) :
    ∃ e, (lookupOn X C fuel node kh).run.eval ex w = (.error e, w) ∧ e.code = .nodeUnreachable := by
  obtain ⟨e, he, hcode⟩ := eval_connectTo_down (X := X) hw hnode hdown
  exact ⟨e, Task.eval_try_error he, hcode⟩

end Node

/-! ## All nodes -/

section Nodes

variable {σ : Type} {ex : (o : Op) → σ → Resp o × σ} {w : σ} {s : Store} {down : NodeId → Bool}
  {X : Crates} {C : Cluster} {kh : KeyHash}

def upNodes (C : Cluster) (down : NodeId → Bool) : List NodeEntry := C.document.activeNodes.filter fun n => !down n.id

def reached (C : Cluster) (down : NodeId → Bool) : List DeviceId := (upNodes C down).flatMap fun n => C.opened n.id

/-- A device that a lookup names as unread: its node is down, or names it itself. -/
def Named (C : Cluster) (s : Store) (down : NodeId → Bool) (nodes : List NodeEntry) (d : DeviceId) : Prop :=
  ∃ n ∈ nodes, if down n.id then ∃ e ∈ C.document.devices, e.node = n.id ∧ e.id = d else d ∈ nodeUnread C s n.id

theorem mem_reached {d : DeviceId} : d ∈ reached C down ↔ ∃ n ∈ C.document.activeNodes, down n.id = false ∧
    d ∈ C.opened n.id := by
  simp [reached, upNodes, and_assoc]

theorem reached_nodup : (reached C down).Nodup := by
  have hsub := (List.filter_sublist (p := fun n : NodeEntry => !down n.id) (l := C.document.activeNodes)).map
    fun n => C.opened n.id
  exact hsub.flatten.nodup C.opened_nodup

theorem opened_nodup_of_active {n : NodeEntry} (hn : n ∈ C.document.activeNodes) : (C.opened n.id).Nodup :=
  (List.nodup_flatMap.mp C.opened_nodup).1 n hn

theorem foldl_insertUnread {β : Type} (f : β → DeviceId) (why : β → ErrorCode × String) (l : List β)
    (u : List (DeviceId × ErrorCode × String)) :
    (∀ d, d ∈ (l.foldl (fun u b => insertUnread u (f b) (why b)) u).map Prod.fst ↔ d ∈ u.map Prod.fst ∨ d ∈ l.map f) ∧
      ((u.map Prod.fst).Nodup → ((l.foldl (fun u b => insertUnread u (f b) (why b)) u).map Prod.fst).Nodup) := by
  induction l generalizing u with
  | nil => simp
  | cons b l ih =>
    obtain ⟨hmem, hnodup⟩ := ih (insertUnread u (f b) (why b))
    have hkeys : ∀ d, d ∈ (insertUnread u (f b) (why b)).map Prod.fst ↔ d = f b ∨ d ∈ u.map Prod.fst := by
      intro d
      simp only [insertUnread, List.map_cons, List.mem_cons, List.mem_map, List.mem_filter, bne_iff_ne]
      constructor
      · rintro (h | ⟨x, ⟨hx, _⟩, rfl⟩)
        · exact .inl h
        · exact .inr ⟨x, hx, rfl⟩
      · rintro (h | ⟨x, hx, rfl⟩)
        · exact .inl h
        · by_cases hd : x.1 = f b
          · exact .inl hd
          · exact .inr ⟨x, ⟨hx, hd⟩, rfl⟩
    refine ⟨fun d => ?_, fun hu => hnodup ?_⟩
    · rw [List.foldl_cons, hmem, hkeys, List.map_cons, List.mem_cons]
      tauto
    · simp only [insertUnread, List.map_cons, List.nodup_cons, List.mem_map, List.mem_filter, bne_iff_ne]
      refine ⟨?_, (List.Sublist.map _ List.filter_sublist).nodup hu⟩
      rintro ⟨x, ⟨_, hne⟩, hx⟩
      exact hne hx

def Answered (C : Cluster) (s : Store) (down : NodeId → Bool) (kh : KeyHash) (n : NodeEntry)
    (answer : Except ErrorDetail (List LocatedRecord × List DeviceId)) : Prop :=
  if down n.id then ∃ e, answer = .error e ∧ e.code = .nodeUnreachable
  else answer = .ok (pageSource none (copiesIn s kh (C.opened n.id)), nodeUnread C s n.id)

theorem collectLookup_answered {nodes : List NodeEntry}
    {answers : List (Except ErrorDetail (List LocatedRecord × List DeviceId))} (found : Lookup)
    (hu : (found.unread.map Prod.fst).Nodup) (h : List.Forall₂ (Answered C s down kh) nodes answers) :
    ∃ out, collectLookup X C found ((nodes.map NodeEntry.id).zip answers) = .ok out ∧
      out.records = found.records ++ (nodes.filter fun n => !down n.id).flatMap
        (fun n => pageSource none (copiesIn s kh (C.opened n.id))) ∧
      (∀ d, d ∈ out.unread.map Prod.fst ↔ d ∈ found.unread.map Prod.fst ∨ Named C s down nodes d) ∧
      (out.unread.map Prod.fst).Nodup ∧
      (out.unreachable = [] ↔ found.unreachable = [] ∧ ∀ n ∈ nodes, down n.id = false) := by
  induction h generalizing found with
  | nil => exact ⟨found, rfl, by simp, by simp [Named], hu, by simp⟩
  | @cons n answer nodes answers hone _ ih =>
    unfold Answered at hone
    cases hdown : down n.id with
    | true =>
      rw [if_pos hdown] at hone
      obtain ⟨e, rfl, hcode⟩ := hone
      obtain ⟨hmem, hnodup⟩ := foldl_insertUnread (fun e : DeviceEntry => e.id) (fun _ => (.nodeUnreachable, e.message))
        (C.document.devices.filter fun e => e.node == n.id) found.unread
      obtain ⟨out, hout, hrec, hun, hnd, hreach⟩ := ih
        { found with
          unread := (C.document.devices.filter fun e => e.node == n.id).foldl
            (fun u e' => insertUnread u e'.id (.nodeUnreachable, e.message)) found.unread
          unreachable := found.unreachable ++ [e] } (hnodup hu)
      refine ⟨out, ?_, ?_, fun d => ?_, hnd, ?_⟩
      · rw [List.map_cons, List.zip_cons_cons, collectLookup, if_pos hcode]
        exact hout
      · rw [hrec, List.filter_cons, hdown]
        rfl
      · rw [hun, hmem]
        simp only [Named, List.exists_mem_cons_iff, hdown, if_true, List.mem_map, List.mem_filter,
          beq_iff_eq, and_assoc]
        exact or_assoc
      · rw [hreach]
        simp [hdown]
    | false =>
      rw [if_neg (by rw [hdown]; exact Bool.false_ne_true)] at hone
      subst hone
      obtain ⟨hmem, hnodup⟩ := foldl_insertUnread (fun d : DeviceId => d)
        (fun d => (.deviceUnavailable, showDevice X d ++ " is unavailable on " ++ showNode X n.id ++ " (5.6)"))
        (nodeUnread C s n.id) found.unread
      obtain ⟨out, hout, hrec, hun, hnd, hreach⟩ := ih
        { found with
          records := found.records ++ pageSource none (copiesIn s kh (C.opened n.id))
          unread := (nodeUnread C s n.id).foldl (fun u d => insertUnread u d (.deviceUnavailable,
            showDevice X d ++ " is unavailable on " ++ showNode X n.id ++ " (5.6)")) found.unread } (hnodup hu)
      refine ⟨out, ?_, ?_, fun d => ?_, hnd, ?_⟩
      · rw [List.map_cons, List.zip_cons_cons, collectLookup]
        exact hout
      · rw [hrec, List.filter_cons, hdown]
        simp
      · rw [hun, hmem]
        simp only [Named, List.exists_mem_cons_iff, hdown, Bool.false_eq_true, if_false, List.map_id', or_assoc]
      · rw [hreach]
        simp [hdown]

theorem collectLookup_failed {targets : List NodeId}
    {answers : List (Except ErrorDetail (List LocatedRecord × List DeviceId))}
    {code : ErrorCode} (hcode : code ≠ .nodeUnreachable) (found : Lookup)
    (h : ∀ a ∈ answers, ∀ e, a = .error e → e.code = .nodeUnreachable ∨ e.code = code)
    (hbad : ∃ e, .error e ∈ answers ∧ e.code = code) (hlen : answers.length = targets.length) :
    ∃ e, collectLookup X C found (targets.zip answers) = .error e ∧ e.code = code := by
  induction answers generalizing found targets with
  | nil =>
    obtain ⟨e, he, _⟩ := hbad
    cases he
  | cons a answers ih =>
    cases targets with
    | nil => cases hlen
    | cons target targets =>
      have hrest : ∀ found', (∀ e, a = .error e → e.code ≠ code) →
          ∃ e, collectLookup X C found' (targets.zip answers) = .error e ∧ e.code = code := by
        intro found' hne
        refine ih found' (fun a' ha' => h a' (List.mem_cons_of_mem _ ha')) ?_ (Nat.succ.inj hlen)
        obtain ⟨e, he, hec⟩ := hbad
        rcases List.mem_cons.mp he with rfl | he
        · exact absurd hec (hne e rfl)
        · exact ⟨e, he, hec⟩
      rw [List.zip_cons_cons]
      cases a with
      | ok answer => exact hrest _ nofun
      | error e =>
        rw [collectLookup]
        by_cases hun : e.code = .nodeUnreachable
        · rw [if_pos hun]
          refine hrest _ fun e' he' => ?_
          cases he'
          exact hun ▸ hcode.symm
        · rw [if_neg hun]
          exact ⟨e, rfl, (h _ List.mem_cons_self e rfl).resolve_left hun⟩

theorem eval_answers {answer : NodeEntry → Except ErrorDetail (List LocatedRecord × List DeviceId)} {fuel : ℕ}
    (h : ∀ n ∈ C.document.activeNodes, (lookupOn X C fuel n.id kh).run.eval ex w = (answer n, w)) :
    (lookupReachable X C fuel kh).run.eval ex w =
      ((match collectLookup X C ⟨[], [], []⟩
          ((C.document.activeNodes.map NodeEntry.id).zip (C.document.activeNodes.map answer)) with
        | .error detail => (throw detail : Coord Lookup)
        | .ok found => pure { found with
            records := found.records.insertionSort LocatedRecord.Le
            unread := addRemoved X C found.unread }).run.eval ex w) := by
  have hall : (ExceptT.lift (Prog.all ((C.document.activeNodes.map NodeEntry.id).map fun n =>
      (lookupOn X C fuel n kh).run)) : Coord (List (Except ErrorDetail (List LocatedRecord × List DeviceId)))).run.eval
      ex w =
        (.ok (C.document.activeNodes.map answer), w) := by
    rw [Prog.eval_lift, Prog.eval_all, List.map_map, evalTasks_const]
    · rw [List.map_map, List.map_congr_left]
      intro n hn
      exact congrArg Prod.fst (h n hn)
    · intro t ht
      obtain ⟨n, hn, rfl⟩ := List.mem_map.mp ht
      exact congrArg Prod.snd (h n hn)
  unfold lookupReachable
  exact Prog.eval_try_ok hall

theorem addRemoved_keys (unread : List (DeviceId × ErrorCode × String)) :
    (∀ d, d ∈ (addRemoved X C unread).map Prod.fst ↔
      d ∈ unread.map Prod.fst ∨ ∃ e ∈ C.document.devices, e.state = .removed ∧ e.id = d) ∧
      ((unread.map Prod.fst).Nodup → ((addRemoved X C unread).map Prod.fst).Nodup) := by
  have hrem : ∀ d, (∃ e ∈ C.document.devices, e.state = .removed ∧ e.id = d) ↔
      ∃ e ∈ C.document.devices.filter fun e => e.state == .removed, e.id = d := by
    simp [and_assoc]
  simp only [hrem]
  unfold addRemoved
  generalize (C.document.devices.filter fun e => e.state == .removed) = l
  induction l generalizing unread with
  | nil => simp
  | cons e l ih =>
    rw [List.foldl_cons]
    obtain ⟨hmem, hnodup⟩ := ih (if unread.any fun x => x.1 == e.id then unread
      else insertUnread unread e.id (.deviceUnavailable, showDevice X e.id ++ " was removed from the cluster (18.2.1)"))
    by_cases hany : (unread.any fun x => x.1 == e.id) = true
    · rw [if_pos hany] at hmem hnodup ⊢
      have hin : e.id ∈ unread.map Prod.fst := by
        obtain ⟨x, hx, hid⟩ := List.any_eq_true.mp hany
        exact List.mem_map.mpr ⟨x, hx, by simpa using hid⟩
      refine ⟨fun d => ?_, hnodup⟩
      rw [hmem, List.exists_mem_cons_iff]
      constructor
      · rintro (h | h)
        · exact .inl h
        · exact .inr (.inr h)
      · rintro (h | rfl | h)
        · exact .inl h
        · exact .inl hin
        · exact .inr h
    · rw [if_neg hany] at hmem hnodup ⊢
      obtain ⟨hins, hind⟩ := foldl_insertUnread (fun e : DeviceEntry => e.id)
        (fun e => (.deviceUnavailable, showDevice X e.id ++ " was removed from the cluster (18.2.1)")) [e] unread
      refine ⟨fun d => ?_, fun hu => hnodup (hind hu)⟩
      rw [hmem, List.exists_mem_cons_iff]
      have hd := hins d
      simp only [List.foldl_cons, List.foldl_nil, List.map_cons, List.map_nil, List.mem_singleton] at hd
      rw [hd]
      constructor
      · rintro ((h | h) | h)
        · exact .inl h
        · exact .inr (.inl h.symm)
        · exact .inr (.inr h)
      · rintro (h | h | h)
        · exact .inl (.inl h)
        · exact .inl (.inr h.symm)
        · exact .inr h

theorem flatMap_copiesIn (nodes : List NodeEntry) :
    (nodes.flatMap fun n => pageSource none (copiesIn s kh (C.opened n.id))).Perm
      (copiesIn s kh (nodes.flatMap fun n => C.opened n.id)) := by
  induction nodes with
  | nil => exact .refl _
  | cons n nodes ih =>
    simp only [List.flatMap_cons, copiesIn, List.flatMap_append] at ih ⊢
    exact (List.perm_insertionSort _ _).append ih

theorem copiesIn_opened_le {n : NodeEntry} (hn : n ∈ C.document.activeNodes) :
    (copiesIn s kh (C.opened n.id)).length ≤ copyCount C kh s := by
  refine (copiesIn_length_le _).trans ?_
  unfold copyCount Cluster.attached
  rw [List.map_flatMap, List.flatMap_def, List.sum_flatten, List.map_map]
  exact List.single_le_sum (by simp) _ (List.mem_map.mpr ⟨n, hn, rfl⟩)

/-- What a lookup that runs alone during an outage returns. -/
structure Found (C : Cluster) (s : Store) (down : NodeId → Bool) (kh : KeyHash) (found : Lookup) : Prop where
  copies : CopiesOn (reached C down) kh s found.records
  unread : ∀ d, d ∈ found.unread.map Prod.fst ↔
    Named C s down C.document.activeNodes d ∨ ∃ e ∈ C.document.devices, e.state = .removed ∧ e.id = d
  nodup : (found.unread.map Prod.fst).Nodup
  unreachable : found.unreachable = [] ↔ ∀ n ∈ C.document.activeNodes, down n.id = false

theorem lookupOn_answer (X : Crates) (kh : KeyHash) (hw : Sees ex w s down) {fuel : ℕ} (hfuel : copyCount C kh s < fuel)
    (n : NodeEntry) : ∃ answer, n ∈ C.document.activeNodes → (lookupOn X C fuel n.id kh).run.eval ex w = (answer, w) ∧
      (Answered C s down kh n answer ∧ (down n.id = false → ∀ d ∈ C.opened n.id, Undamaged s kh d) ∨
        down n.id = false ∧ (∃ d ∈ C.opened n.id, ¬ Undamaged s kh d) ∧ ∃ e, answer = .error e ∧
        e.code = .recordsInconsistent) := by
  by_cases hn : n ∈ C.document.activeNodes
  · cases hdown : down n.id with
    | true =>
      obtain ⟨e, he, hcode⟩ := eval_lookupOn_down hw X kh (activeNode_listed hn) hdown fuel
      exact ⟨_, fun _ => ⟨he, .inl ⟨by rw [Answered, if_pos hdown]; exact ⟨e, rfl, hcode⟩, nofun⟩⟩⟩
    | false =>
      by_cases hgood : ∀ d ∈ C.opened n.id, Undamaged s kh d
      · refine ⟨_, fun _ => ⟨eval_lookupOn hw (activeNode_listed hn) hdown hgood (opened_nodup_of_active hn)
          ((copiesIn_opened_le hn).trans_lt hfuel), .inl ⟨?_, fun _ => hgood⟩⟩⟩
        rw [Answered, if_neg (by rw [hdown]; exact Bool.false_ne_true)]
      · push Not at hgood
        obtain ⟨e, he, hcode⟩ := eval_lookupOn_bad (X := X) hw (activeNode_listed hn) hdown hgood
          (Nat.zero_le _ |>.trans_lt hfuel)
        exact ⟨_, fun _ => ⟨he, .inr ⟨rfl, hgood, e, rfl, hcode⟩⟩⟩
  · exact ⟨.ok ([], []), fun h => absurd h hn⟩

/-- **A lookup during an outage** returns the copies on the devices it reaches and names every other one. -/
theorem lookupReachable_sees (hw : Sees ex w s down) (hgood : ∀ d ∈ reached C down, Undamaged s kh d) {fuel : ℕ}
    (hfuel : copyCount C kh s < fuel) :
    ∃ found, (lookupReachable X C fuel kh).run.eval ex w = (.ok found, w) ∧ Found C s down kh found := by
  choose answer hanswer using lookupOn_answer (C := C) X kh hw hfuel
  have hanswered : ∀ n ∈ C.document.activeNodes, Answered C s down kh n (answer n) := by
    intro n hn
    rcases (hanswer n hn).2 with h | ⟨hup, ⟨d, hd, hno⟩, _⟩
    · exact h.1
    · exact absurd (hgood d (mem_reached.mpr ⟨n, hn, hup, hd⟩)) hno
  obtain ⟨out, hout, hrec, hun, hnd, hreach⟩ := collectLookup_answered (X := X) ⟨[], [], []⟩ List.nodup_nil
    (List.forall₂_map_right_iff.mpr (List.forall₂_same.mpr hanswered))
  have heval := eval_answers (X := X) (fun n hn => (hanswer n hn).1)
  rw [hout] at heval
  refine ⟨_, heval, ?_, fun d => ?_, (addRemoved_keys _).2 hnd, ?_⟩
  · refine (copiesOn_copiesIn reached_nodup).perm ((List.perm_insertionSort _ _).trans ?_)
    rw [hrec]
    exact flatMap_copiesIn _
  · show d ∈ (addRemoved X C out.unread).map Prod.fst ↔ _
    rw [(addRemoved_keys _).1, hun]
    simp
  · show out.unreachable = [] ↔ _
    rw [hreach]
    simp

/-- A record file that cannot be read, on a device that is reached, fails the lookup. -/
theorem lookupReachable_bad (hw : Sees ex w s down) (hbad : ∃ d ∈ reached C down, ¬ Undamaged s kh d) {fuel : ℕ}
    (hfuel : copyCount C kh s < fuel) :
    ∃ e, (lookupReachable X C fuel kh).run.eval ex w = (.error e, w) ∧ e.code = .recordsInconsistent := by
  choose answer hanswer using lookupOn_answer (C := C) X kh hw hfuel
  have heval := eval_answers (X := X) (fun n hn => (hanswer n hn).1)
  obtain ⟨d, hd, hno⟩ := hbad
  obtain ⟨n, hn, hup, hopen⟩ := mem_reached.mp hd
  obtain ⟨_, _, e, he, hcode⟩ := (hanswer n hn).2.resolve_left fun h => hno (h.2 hup d hopen)
  obtain ⟨e', hcollect, hcode'⟩ := @collectLookup_failed X C (C.document.activeNodes.map NodeEntry.id)
    (C.document.activeNodes.map answer) .recordsInconsistent (by decide) ⟨[], [], []⟩
    (fun a ha e'' he'' => by
      obtain ⟨n', hn', rfl⟩ := List.mem_map.mp ha
      rcases (hanswer n' hn').2 with ⟨hans, _⟩ | ⟨_, _, e₁, he₁, hcode₁⟩
      · rw [he'', Answered] at hans
        split_ifs at hans
        obtain ⟨e₁, he₁, hcode₁⟩ := hans
        cases he₁
        exact .inl hcode₁
      · cases he₁.symm.trans he''
        exact .inr hcode₁)
    ⟨e, List.mem_map.mpr ⟨n, hn, he⟩, hcode⟩ (by simp)
  rw [hcollect] at heval
  exact ⟨e', heval, hcode'⟩

end Nodes

end Djbod
