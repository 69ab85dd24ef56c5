import Djbod.Object.Small

/-!
# What becomes of a stored record

A device replaces the record of a version only by one that describes the same body at a higher revision. What counts as
the body leaves out the bucket, the time of creation, the content type and the user metadata.

* `RecordCall`, `afterCalls` : calls on a device, one after the other;
* `PlacementHistory` : until it is deleted, a record changes in its placement only, and to a higher revision;
* `stored_record_history` : that is so exactly when no accepted record differs in what is left out.
-/

namespace Djbod

/-- A call on a device that concerns its record files. -/
inductive RecordCall where
  | write (record : MetadataRecord)
  | delete (kh : KeyHash) (v : VersionId)

/-- The second record differs from the first in its placement at most. -/
def PlacementOnly (e e' : MetadataRecord) : Prop := e' = { e with shards := e'.shards, revision := e'.revision }

theorem PlacementOnly.trans {e₁ e₂ e₃ : MetadataRecord} (h : PlacementOnly e₁ e₂) (h' : PlacementOnly e₂ e₃) :
    PlacementOnly e₁ e₃ := by
  unfold PlacementOnly at h h'
  rw [h] at h'
  exact h'

section Calls

variable (X : Crates) (d : DeviceId)

def RecordCall.perform (s : Store) : RecordCall → Except DeviceError Unit × Store
  | .write record => (Device.writeRecord X.hashKey d record).run.eval exec s
  | .delete kh v => (Device.deleteVersion d kh v).run.eval exec s

def afterCalls (s : Store) (calls : List RecordCall) : Store := calls.foldl (fun s call => (call.perform X d s).2) s

/-- A record that is stored before some of the calls, which do not delete its version, is stored after them as well: the
same, or with another placement at a higher revision. -/
def PlacementHistory (s : Store) (calls : List RecordCall) : Prop :=
  ∀ front mid back, calls = front ++ mid ++ back → ∀ kh v e, (afterCalls X d s front).getRecord d kh v = some (.ok e) →
    e.Valid X.hashKey → .delete kh v ∉ mid →
    ∃ e', (afterCalls X d s (front ++ mid)).getRecord d kh v = some (.ok e') ∧ PlacementOnly e e' ∧
    (e' = e ∨ e.revision < e'.revision)

/-- A record written over one with the same body and a lower revision has its bucket, creation time, content type and
user metadata. -/
def Agrees (s : Store) (call : RecordCall) : Prop :=
  ∀ record e, call = .write record → s.getRecord d record.keyHash record.version = some (.ok e) → e.Valid X.hashKey →
    record.Valid X.hashKey → e.sameBody record = true → e.revision < record.revision →
    record.bucket = e.bucket ∧ record.created = e.created ∧ record.contentType = e.contentType ∧
    record.userMetadata = e.userMetadata

variable {X d} {s : Store} {record e : MetadataRecord}

theorem exec_writeRecord_ok (hdisk : (s.disk d).isSome) :
    exec (.writeRecord d record) s = (.ok (), (exec (.writeRecord d record) s).2) := by
  show (onDevice s d .unavailable (), _) = _
  rw [onDevice, if_pos hdisk]
  rfl

theorem eval_writeRecord (h : s.getRecord d record.keyHash record.version = some (.ok e))
    (hvalid : record.validate X.hashKey = .ok ()) : (Device.writeRecord X.hashKey d record).run.eval exec s =
      if e = record then (.ok (), s)
      else if !(e.sameBody record && e.revision < record.revision) then (.error
        (.recordExists record.keyHash record.version), s)
      else exec (.writeRecord d record) s := by
  have hpresent : (Device.ask (Sched.Task.perform (Op.recordExists d record.keyHash record.version))).run.eval exec s =
      (.ok true, s) := by
    refine (Sched.Task.eval_lift _ s).trans ?_
    show (Except.ok (s.getRecord d record.keyHash record.version).isSome, s) = _
    rw [h]
    rfl
  unfold Device.writeRecord
  rw [hvalid]
  dsimp only
  rw [Sched.Task.eval_try_ok hpresent, if_pos rfl, Sched.Task.eval_try_ok (eval_readRecord (exec_sees s) d h)]
  split_ifs
  · rfl
  · rfl
  · rfl

theorem write_accepted (h : s.getRecord d record.keyHash record.version = some (.ok e))
    (hvalid : record.Valid X.hashKey) (hbody : e.sameBody record = true) (hrev : e.revision < record.revision) :
    RecordCall.perform X d s (.write record) = (.ok (), (exec (.writeRecord d record) s).2) := by
  have hne : e ≠ record := by
    rintro rfl
    exact lt_irrefl _ hrev
  refine (eval_writeRecord h (MetadataRecord.validate_eq_ok.mpr hvalid)).trans ?_
  rw [if_neg hne, if_neg (by simp [hbody, hrev])]
  exact exec_writeRecord_ok (isSome_of_getRecord h)

/-- Over a stored record: the same again, a refusal, or a replacement. -/
theorem write_over (h : s.getRecord d record.keyHash record.version = some (.ok e)) :
    record = e ∧ RecordCall.perform X d s (.write record) = (.ok (), s) ∨
      (∃ err, RecordCall.perform X d s (.write record) = (.error err, s)) ∨
      record.Valid X.hashKey ∧ e.sameBody record = true ∧ e.revision < record.revision ∧
        RecordCall.perform X d s (.write record) = (.ok (), (exec (.writeRecord d record) s).2) := by
  rw [show RecordCall.perform X d s (.write record) = (Device.writeRecord X.hashKey d record).run.eval exec s from rfl]
  cases hvalid : record.validate X.hashKey with
  | error err =>
    refine .inr (.inl ⟨.record err, ?_⟩)
    rw [Device.writeRecord, hvalid]
    rfl
  | ok u =>
    rw [eval_writeRecord h hvalid]
    split_ifs with hsame hrefused
    · exact .inl ⟨hsame.symm, rfl⟩
    · exact .inr (.inl ⟨_, rfl⟩)
    · simp only [Bool.not_eq_true', Bool.not_eq_false, Bool.and_eq_true, decide_eq_true_eq] at hrefused
      exact .inr (.inr ⟨MetadataRecord.validate_eq_ok.mp hvalid, hrefused.1, hrefused.2,
        exec_writeRecord_ok (isSome_of_getRecord h)⟩)

theorem perform_getRecord {kh : KeyHash} {v : VersionId} (call : RecordCall) (h : s.getRecord d kh v = some (.ok e))
    (hdelete : call ≠ .delete kh v) : (call.perform X d s).2.getRecord d kh v = some (.ok e) ∨
      ∃ record, call = .write record ∧ record.keyHash = kh ∧ record.version = v ∧ record.Valid X.hashKey ∧
      e.sameBody record = true ∧
        e.revision < record.revision ∧ (call.perform X d s).2.getRecord d kh v = some (.ok record) := by
  cases call with
  | delete kh' v' =>
    refine .inl (Eq.trans ?_ h)
    have huses : (Device.deleteVersion d kh' v').run.Uses fun o => o.Quiet ∨ o = .removeRecord d kh' v' ∨
        ∃ i, o = .removeShard d kh' v' i :=
      deleteVersion_uses (fun _ hq => .inl hq) (.inr (.inl rfl)) fun i => .inr (.inr ⟨i, rfl⟩)
    refine Sched.Task.eval_keeps (fun s => s.getRecord d kh v) huses (fun o s ho => ?_) s
    rcases exec_getRecord o s d kh v with hsame | ⟨r, rfl, -⟩ | rfl
    · exact hsame
    · simp [Op.Quiet] at ho
    · rcases ho with hq | heq | ⟨i, heq⟩
      · exact absurd hq not_false
      · cases heq
        exact absurd rfl hdelete
      · cases heq
  | write record =>
    by_cases hplace : record.keyHash = kh ∧ record.version = v
    · obtain ⟨rfl, rfl⟩ := hplace
      rcases @write_over X d s record e h with ⟨-, hdone⟩ | ⟨err, hdone⟩ | ⟨hvalid, hbody, hrev, hdone⟩
      · exact .inl (by rw [hdone, h])
      · exact .inl (by rw [hdone, h])
      · refine .inr ⟨record, rfl, rfl, rfl, hvalid, hbody, hrev, ?_⟩
        rw [hdone]
        exact exec_writeRecord (isSome_of_getRecord h) record
    · refine .inl (Eq.trans ?_ h)
      have huses : (Device.writeRecord X.hashKey d record).run.Uses fun o => o.Quiet ∨ o = .writeRecord d record :=
        writeRecord_uses (fun _ hq => .inl hq) (.inr rfl)
      refine Sched.Task.eval_keeps (fun s => s.getRecord d kh v) huses (fun o s ho => ?_) s
      rcases exec_getRecord o s d kh v with hsame | ⟨r, rfl, hkh, hv, -⟩ | rfl
      · exact hsame
      · rcases ho with hq | heq
        · exact absurd hq not_false
        · cases heq
          exact absurd ⟨hkh, hv⟩ hplace
      · simp [Op.Quiet] at ho

theorem placementOnly_iff (he : e.Valid X.hashKey) (hr : record.Valid X.hashKey) (hbody : e.sameBody record = true) :
    PlacementOnly e record ↔ record.bucket = e.bucket ∧ record.created = e.created ∧
    record.contentType = e.contentType ∧
      record.userMetadata = e.userMetadata := by
  have hsystem := hr.system.trans he.system.symm
  have hformat := hr.formatVersion.trans he.formatVersion.symm
  simp only [MetadataRecord.sameBody, Bool.and_eq_true, beq_iff_eq] at hbody
  obtain ⟨⟨⟨⟨⟨⟨⟨hversion, hkey⟩, hhash⟩, hsize⟩, hsum⟩, hk⟩, hm⟩, hblock⟩ := hbody
  constructor
  · intro h
    rw [h]
    exact ⟨rfl, rfl, rfl, rfl⟩
  · rintro ⟨hbucket, hcreated, hcontent, huser⟩
    cases e
    cases record
    simp_all [PlacementOnly]

theorem perform_keeps {kh : KeyHash} {v : VersionId} (call : RecordCall) (h : s.getRecord d kh v = some (.ok e))
    (he : e.Valid X.hashKey) (hdelete : call ≠ .delete kh v) (hagrees : Agrees X d s call) :
    ∃ e', (call.perform X d s).2.getRecord d kh v = some (.ok e') ∧ e'.Valid X.hashKey ∧ PlacementOnly e e' ∧
      (e' = e ∨ e.revision < e'.revision) := by
  rcases perform_getRecord call h hdelete with hsame | ⟨record, rfl, rfl, rfl, hvalid, hbody, hrev, hnow⟩
  · exact ⟨e, hsame, he, rfl, .inl rfl⟩
  · exact ⟨record, hnow, hvalid, (placementOnly_iff he hvalid hbody).mpr (hagrees record e rfl h he hvalid hbody hrev),
      .inr hrev⟩

theorem afterCalls_append (s : Store) (front back : List RecordCall) :
    afterCalls X d s (front ++ back) = afterCalls X d (afterCalls X d s front) back := List.foldl_append

theorem afterCalls_keeps {kh : KeyHash} {v : VersionId} (calls : List RecordCall)
    (h : s.getRecord d kh v = some (.ok e)) (he : e.Valid X.hashKey) (hdelete : .delete kh v ∉ calls)
    (hagrees : ∀ front call back, calls = front ++ call :: back → Agrees X d (afterCalls X d s front) call) :
    ∃ e', (afterCalls X d s calls).getRecord d kh v = some (.ok e') ∧ PlacementOnly e e' ∧
    (e' = e ∨ e.revision < e'.revision) := by
  induction calls generalizing s e with
  | nil => exact ⟨e, h, rfl, .inl rfl⟩
  | cons call calls ih =>
    obtain ⟨hhead, htail⟩ := List.ne_and_not_mem_of_not_mem_cons hdelete
    obtain ⟨e₁, h₁, he₁, hplace₁, hrev₁⟩ := perform_keeps call h he (Ne.symm hhead) (hagrees [] call calls rfl)
    obtain ⟨e₂, h₂, hplace₂, hrev₂⟩ := ih h₁ he₁ htail fun front call' back hsplit =>
      hagrees (call :: front) call' back (by rw [hsplit]; rfl)
    refine ⟨e₂, h₂, hplace₁.trans hplace₂, ?_⟩
    rcases hrev₁ with rfl | hlt₁
    · exact hrev₂
    · rcases hrev₂ with rfl | hlt₂
      · exact .inr hlt₁
      · exact .inr (hlt₁.trans hlt₂)

end Calls

/-- **A stored record changes in its placement only, and to a higher revision, exactly when every record that is
accepted over another agrees with it in bucket, creation time, content type and user metadata**; any other write over a
stored record is that record itself, or is refused and changes nothing. -/
theorem stored_record_history (X : Crates) (d : DeviceId) (s : Store) (calls : List RecordCall) :
    (PlacementHistory X d s calls ↔
      ∀ front call back, calls = front ++ call :: back → Agrees X d (afterCalls X d s front) call) ∧
    ∀ front record back e, calls = front ++ .write record :: back →
      (afterCalls X d s front).getRecord d record.keyHash record.version = some (.ok e) →
      record = e ∧ RecordCall.perform X d (afterCalls X d s front) (.write record) = (.ok (), afterCalls X d s front) ∨
      (∃ err, RecordCall.perform X d (afterCalls X d s front) (.write record) = (.error err, afterCalls X d s front)) ∨
      e.revision < record.revision ∧ (RecordCall.perform X d (afterCalls X d s front) (.write record)).1 = .ok () ∧
        (afterCalls X d s (front ++ [.write record])).getRecord d record.keyHash record.version =
        some (.ok record) := by
  refine ⟨⟨?_, ?_⟩, ?_⟩
  · rintro h front call back hsplit record e rfl hstored he hvalid hbody hrev
    obtain ⟨e', hnow, hplace, -⟩ := h front [.write record] back (by rw [hsplit, List.append_assoc]; rfl)
      _ _ e hstored he (by simp)
    rw [afterCalls_append] at hnow
    have hwritten : (RecordCall.perform X d (afterCalls X d s front) (.write record)).2.getRecord d record.keyHash
      record.version =
        some (.ok record) := by
      rw [write_accepted hstored hvalid hbody hrev]
      exact exec_writeRecord (isSome_of_getRecord hstored) record
    obtain rfl := Except.ok.inj (Option.some.inj (hwritten.symm.trans hnow))
    exact (placementOnly_iff he hvalid hbody).mp hplace
  · intro h front mid back hsplit kh v e hstored he hdelete
    rw [afterCalls_append]
    refine afterCalls_keeps mid hstored he hdelete fun front' call back' hmid => ?_
    rw [← afterCalls_append]
    exact h (front ++ front') call (back' ++ back) (by rw [hsplit, hmid]; simp)
  · intro front record back e hsplit hstored
    rcases @write_over X d _ record e hstored with hsame | hrefused | ⟨-, -, hrev, hdone⟩
    · exact .inl hsame
    · exact .inr (.inl hrefused)
    · refine .inr (.inr ⟨hrev, by rw [hdone], ?_⟩)
      rw [afterCalls_append]
      show (RecordCall.perform X d _ (.write record)).2.getRecord d _ _ = _
      rw [hdone]
      exact exec_writeRecord (isSome_of_getRecord hstored) record

/-- The record of an empty object with a content type, before and after a move that gives it another one. -/
def typedRecord (revision : ℕ) (contentType : String) : MetadataRecord :=
  { smallRecord 1 revision [0] with contentType := some contentType }

/-- A second record of the same body at a higher revision changes the content type of what is stored. -/
theorem stored_record_retyped :
    (typedRecord 0 "text/plain").validate smallCrates.hashKey = .ok () ∧
    (typedRecord 1 "text/html").validate smallCrates.hashKey = .ok () ∧
      ¬PlacementHistory smallCrates 0 emptyStore
        [.write (typedRecord 0 "text/plain"), .write (typedRecord 1 "text/html")] := by
  have hvalid : (typedRecord 0 "text/plain").validate smallCrates.hashKey = .ok () := by decide +kernel
  refine ⟨hvalid, by decide +kernel, fun h => ?_⟩
  have hfirst : (afterCalls smallCrates 0 emptyStore [.write (typedRecord 0 "text/plain")]).getRecord 0
    (smallCrates.hashKey "k") 1 =
      some (.ok (typedRecord 0 "text/plain")) := by decide +kernel
  have hsecond : (afterCalls smallCrates 0 emptyStore [.write (typedRecord 0 "text/plain"),
    .write (typedRecord 1 "text/html")]).getRecord 0
      (smallCrates.hashKey "k") 1 = some (.ok (typedRecord 1 "text/html")) := by decide +kernel
  obtain ⟨e', hnow, hplace, -⟩ := h [.write (typedRecord 0 "text/plain")] [.write (typedRecord 1 "text/html")]
    [] rfl _ _ _ hfirst (MetadataRecord.validate_eq_ok.mp hvalid) (by simp)
  obtain rfl := Except.ok.inj (Option.some.inj (hsecond.symm.trans hnow))
  have htype : some "text/html" = some "text/plain" := congrArg MetadataRecord.contentType hplace
  exact absurd htype (by decide)

end Djbod
