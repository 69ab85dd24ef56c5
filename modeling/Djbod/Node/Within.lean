import Djbod.Node.Attempt

/-!
# Changes to the files of one version

* `Within kh v s R S s'` : of `s` only files of the version changed, its record files to what `R` allows and its shard
  files to what `S` allows, device by device;
* `Op.Allowed`, `Within.exec` : operations that make only what is allowed, and one step of them;
* `finishWriters_meets`, `putMeta_meets`, `deleteVersion_meets` : the requests that change files.
-/

namespace Djbod

open Sched

/-- The operation writes or removes files of one version only, and makes them what is allowed. -/
def Op.Allowed (kh : KeyHash) (v : VersionId) (R : DeviceId → Option RecordFile → Prop)
    (S : DeviceId → ℕ → Option ShardContent → Prop) : Op → Prop
  | .writeRecord d r => r.keyHash = kh ∧ r.version = v ∧ R d (some (.ok r))
  | .removeRecord d kh' v' => kh' = kh ∧ v' = v ∧ R d none
  | .finishShard d file => file.header.keyHash = kh ∧ file.header.versionId = v ∧
      S d file.header.shardIndex (some (.ok file))
  | .removeShard d kh' v' i => kh' = kh ∧ v' = v ∧ S d i none
  | _ => True

/-- The files of one version changed to what is allowed, and nothing else did. -/
structure Within (kh : KeyHash) (v : VersionId) (s : Store) (R : DeviceId → Option RecordFile → Prop)
    (S : DeviceId → ℕ → Option ShardContent → Prop) (s' : Store) : Prop where
  disk : ∀ d, (s'.disk d).isSome = (s.disk d).isSome
  space : s'.space = s.space
  record : ∀ d, R d (s'.getRecord d kh v)
  shard : ∀ d i, S d i (s'.getShard d kh v i)
  otherRecord : ∀ d kh' v', (kh', v') ≠ (kh, v) → s'.getRecord d kh' v' = s.getRecord d kh' v'
  otherShard : ∀ d kh' v' i, (kh', v') ≠ (kh, v) → s'.getShard d kh' v' i = s.getShard d kh' v' i

section

variable {kh : KeyHash} {v : VersionId} {s s' : Store} {R : DeviceId → Option RecordFile → Prop}
  {S : DeviceId → ℕ → Option ShardContent → Prop}

theorem exec_space (o : Op) (s : Store) : (exec o s).2.space = s.space := by
  cases o <;> rfl

theorem Within.refl (hR : ∀ d, R d (s.getRecord d kh v)) (hS : ∀ d i, S d i (s.getShard d kh v i)) :
    Within kh v s R S s :=
  ⟨fun _ => rfl, rfl, hR, hS, fun _ _ _ _ => rfl, fun _ _ _ _ _ => rfl⟩

/-- **One step.** An operation that makes only allowed files keeps within what is allowed. -/
theorem Within.exec (h : Within kh v s R S s') {o : Op} (ho : o.Allowed kh v R S) :
    Within kh v s R S (exec o s').2 where
  disk d := by rw [exec_isSome, h.disk]
  space := by rw [exec_space, h.space]
  record d := by
    rcases exec_getRecord o s' d kh v with heq | ⟨r, rfl, rfl, rfl, hd⟩ | rfl
    · rw [heq]
      exact h.record d
    · rw [exec_writeRecord hd]
      exact ho.2.2
    · rw [exec_removeRecord]
      exact ho.2.2
  shard d i := by
    rcases exec_getShard o s' d kh v i with heq | ⟨file, rfl, rfl, rfl, rfl, hd⟩ | rfl
    · rw [heq]
      exact h.shard d i
    · rw [exec_finishShard hd]
      exact ho.2.2
    · rw [exec_removeShard]
      exact ho.2.2
  otherRecord d kh' v' hne := by
    rcases exec_getRecord o s' d kh' v' with heq | ⟨r, rfl, rfl, rfl, _⟩ | rfl
    · rw [heq, h.otherRecord d kh' v' hne]
    · exact absurd (Prod.ext ho.1 ho.2.1) hne
    · exact absurd (Prod.ext ho.1 ho.2.1) hne
  otherShard d kh' v' i hne := by
    rcases exec_getShard o s' d kh' v' i with heq | ⟨file, rfl, rfl, rfl, _⟩ | rfl
    · rw [heq, h.otherShard d kh' v' i hne]
    · exact absurd (Prod.ext ho.1 ho.2.1) hne
    · exact absurd (Prod.ext ho.1 ho.2.1) hne

theorem Within.trying (h : Within kh v s R S s') {faults : Prop} {o : Op} {r : Resp o} {s'' : Store}
    (ho : o.Allowed kh v R S) (hx : Trying faults o s' r s'') : Within kh v s R S s'' := by
  rcases hx.store with rfl | rfl
  · exact h
  · exact h.exec ho

end

/-! ## Shard files -/

section Finish

variable {faults : Prop} {X : Crates} {C : Cluster} {s : Store} {I : Store → Prop}

theorem meets_still {α : Type} {Q : α → Store → Prop} {E : ErrorDetail → Store → Prop} {x : NodeProc α}
    (h : Task.Meets (Trying faults) (· = s) Q E x s) (hI : I s) :
    Task.Meets (Trying faults) I (fun a s' => s' = s ∧ Q a s') (fun e s' => s' = s ∧ E e s') x s :=
  h.mono (fun _ hs => hs ▸ hI) (fun _ _ hs hq => ⟨hs, hq⟩) fun _ _ hs he => ⟨hs, he⟩

theorem sendTo_meets (owner : NodeId) :
    Task.Meets (Trying faults) (· = s) (fun _ _ => True) (Fails fun _ => faults) (sendTo X owner) s :=
  request_meets owner ⟨rfl, trivial⟩ fun hf _ _ => hf

theorem sendEnds_meets (writers : List ShardWriter) :
    Task.Meets (Trying faults) (· = s) (fun _ _ => True) (Fails fun _ => faults) (sendEnds X writers) s := by
  induction writers with
  | nil => exact ⟨rfl, trivial⟩
  | cons w writers ih => exact (sendTo_meets w.owner).bind fun _ s' _ hs => hs ▸ ih

variable {scheme : Scheme} {record : MetadataRecord} {checksum : BlockChecksum} {es : List (Ev Op Resp)}

/-- The file the end of a writer's stream puts in place. -/
def ShardWriter.Makes (X : Crates) (scheme : Scheme) (record : MetadataRecord) (checksum : BlockChecksum)
    (w : ShardWriter) (file : ShardFile) : Prop :=
  writeShard X.xxh3 ⟨scheme, w.index, record.blockSize, record.keyHash, record.version⟩
      w.blocks record.size checksum = .ok file ∧
    file.header = ⟨scheme, w.index, record.blockSize, record.keyHash, record.version⟩

theorem writeShard_header {xxh3 : Bytes → BlockChecksum} {header : ShardFileHeader}
    {blocks : List ShardBlock} {size : ℕ} {file : ShardFile}
    (h : writeShard xxh3 header blocks size checksum = .ok file) : file.header = header := by
  have happend : ∀ (w w' : ShardFileWriter) (bs : List ShardBlock), w.appendAll xxh3 bs = .ok w' →
      w'.header = w.header := by
    intro w w' bs
    induction bs generalizing w with
    | nil =>
      intro h
      cases h
      rfl
    | cons b bs ih =>
      intro h
      unfold ShardFileWriter.appendAll at h
      cases hone : w.appendBlock xxh3 b with
      | error e => rw [hone] at h; cases h
      | ok w₁ =>
        rw [hone] at h
        rw [ih w₁ h]
        unfold ShardFileWriter.appendBlock at hone
        dsimp only at hone
        split_ifs at hone
        cases hone
        rfl
  unfold writeShard ShardFileWriter.create at h
  by_cases hin : header.scheme.contains header.shardIndex = true
  · rw [if_neg (by simp [hin])] at h
    cases happ : ShardFileWriter.appendAll xxh3 ⟨header, [], [], 0, false, rfl⟩ blocks with
    | error e =>
      replace h : (ShardFileWriter.appendAll xxh3 ⟨header, [], [], 0, false, rfl⟩ blocks >>= _) = _ := h
      rw [happ] at h
      cases h
    | ok w =>
      replace h : (ShardFileWriter.appendAll xxh3 ⟨header, [], [], 0, false, rfl⟩ blocks >>= fun w =>
        w.finish size checksum) = .ok file := h
      rw [happ] at h
      replace h : w.finish size checksum = .ok file := h
      unfold ShardFileWriter.finish at h
      dsimp only at h
      split_ifs at h
      cases h
      exact happend _ _ _ happ
  · rw [if_pos (by simpa using hin)] at h
    cases h

theorem finishWriter_done {w : ShardWriter} {res : Except ErrorDetail Unit}
    (h : Task.Tr (finishWriter X C scheme record checksum w).run es (.ret res)) :
    (res = .ok () → ∃ file n, w.Makes X scheme record checksum file ∧
        (⟨n, .finishShard w.device file, .ok ()⟩ : Ev Op Resp) ∈ es) ∧
      ∀ e, res = .error e → e.code.Plain ∧ (w.device ∉ C.opened w.owner ∨
      (∀ file, ¬ w.Makes X scheme record checksum file) ∨
        (∃ n reason, (⟨n, .transfer w.owner, .error reason⟩ : Ev Op Resp) ∈ es) ∨
          ∃ n file e', (⟨n, .finishShard w.device file, .error e'⟩ : Ev Op Resp) ∈ es) := by
  obtain ⟨es₁, es₂, result, rfl, hhandler, hrest⟩ := Task.done_bind h
  obtain ⟨es₃, es₄, answer, rfl, hanswer, hend⟩ := Task.done_bind hrest
  obtain ⟨n, rfl⟩ := Task.done_perform hanswer
  unfold finishShard onOwnDevice at hhandler
  cases answer with
  | error reason =>
    obtain ⟨_, hres⟩ := Task.tr_ret hend
    cases hres
    refine ⟨nofun, fun e he => ?_⟩
    cases he
    exact ⟨⟨nofun, nofun⟩, .inr (.inr (.inl ⟨n, reason, by simp⟩))⟩
  | ok u =>
    by_cases hd : w.device ∈ C.opened w.owner
    · rw [if_pos hd] at hhandler
      cases hfile : writeShard X.xxh3 ⟨scheme, w.index, record.blockSize, record.keyHash, record.version⟩
        w.blocks record.size
          checksum with
      | error e =>
        rw [hfile] at hhandler
        obtain ⟨_, hresult⟩ := Task.tr_ret hhandler
        cases hresult
        obtain ⟨_, hres⟩ := Task.tr_ret hend
        cases hres
        refine ⟨nofun, fun e' he' => ?_⟩
        cases he'
        refine ⟨deviceErrorDetail_plain (.shardFile e), .inr (.inl fun file hmakes => ?_)⟩
        rw [hmakes.1] at hfile
        cases hfile
      | ok file =>
        rw [hfile] at hhandler
        obtain ⟨es₅, es₆, stored, rfl, hstored, hback⟩ := Task.done_bind hhandler
        obtain ⟨n', rfl⟩ := Task.done_perform hstored
        cases stored with
        | ok u' =>
          obtain ⟨_, hresult⟩ := Task.tr_ret hback
          cases hresult
          obtain ⟨_, hres⟩ := Task.tr_ret hend
          cases hres
          exact ⟨fun _ => ⟨file, n', ⟨hfile, writeShard_header hfile⟩, by simp⟩, nofun⟩
        | error e =>
          obtain ⟨_, hresult⟩ := Task.tr_ret hback
          cases hresult
          obtain ⟨_, hres⟩ := Task.tr_ret hend
          cases hres
          refine ⟨nofun, fun e' he' => ?_⟩
          cases he'
          exact ⟨deviceErrorDetail_plain e, .inr (.inr (.inr ⟨n', file, e, by simp⟩))⟩
    · rw [if_neg hd] at hhandler
      obtain ⟨_, hresult⟩ := Task.tr_ret hhandler
      cases hresult
      obtain ⟨_, hres⟩ := Task.tr_ret hend
      cases hres
      refine ⟨nofun, fun e he => ?_⟩
      cases he
      exact ⟨⟨nofun, nofun⟩, .inl hd⟩

def ShardWriter.Ready (C : Cluster) (s : Store) (w : ShardWriter) : Prop :=
  w.device ∈ C.opened w.owner ∧ (s.disk w.device).isSome

/-- **Putting shard files in place**, side by side. -/
theorem finishWriters_meets {kh : KeyHash} {v : VersionId} {s₀ : Store} {R : DeviceId → Option RecordFile → Prop}
    {S : DeviceId → ℕ → Option ShardContent → Prop} {G : ℕ → ShardFile → Prop} {writers : List ShardWriter}
    (hkh : record.keyHash = kh) (hv : record.version = v) (hsize : record.size ≠ 0)
    (hfiles : ∀ w ∈ writers, ∀ file, w.Makes X scheme record checksum file → G w.index file)
    (hS : ∀ w ∈ writers, ∀ file, G w.index file → S w.device w.index (some (.ok file))) (h : Within kh v s₀ R S s) :
    Prog.Meets (Trying faults) (Within kh v s₀ R S)
      (fun _ s' => ∀ w ∈ writers, ∃ file, s'.getShard w.device kh v w.index = some (.ok file) ∧ G w.index file)
      (Fails fun _ => faults ∨ ∃ w ∈ writers, ¬ w.Ready C s ∨ ∀ file, ¬ w.Makes X scheme record checksum file)
      (finishWriters X C scheme record checksum writers) s := by
  -- The operations of the tasks: quiet ones, and each writer's file put in place.
  have huse : ∀ t ∈ writers.map (fun w => (finishWriter X C scheme record checksum w).run), t.Uses fun o => o.Quiet ∨
      ∃ w ∈ writers, ∃ file, o = .finishShard w.device file ∧ w.Makes X scheme record checksum file ∧
      G w.index file := by
    intro t ht
    obtain ⟨w, hw, rfl⟩ := List.mem_map.mp ht
    refine finishWriter_uses (fun _ hq => .inl hq) fun file hfile => ?_
    have hmakes : w.Makes X scheme record checksum file := ⟨hfile, writeShard_header hfile⟩
    exact .inr ⟨w, hw, file, rfl, hmakes, hfiles w hw file hmakes⟩
  have hallowed : ∀ o : Op, (o.Quiet ∨ ∃ w ∈ writers, ∃ file, o = .finishShard w.device file ∧
      w.Makes X scheme record checksum file ∧ G w.index file) → o.Allowed kh v R S := by
    rintro o (hq | ⟨w, hw, file, rfl, ⟨_, hheader⟩, hgood⟩)
    · cases o <;> trivial
    · simp only [Op.Allowed, hheader]
      exact ⟨hkh, hv, hS w hw file hgood⟩
  unfold finishWriters
  rw [if_neg hsize]
  refine Prog.Meets.bind (Q := fun _ s' => s' = s) (Prog.Meets.call
    ((meets_still (sendEnds_meets writers) h).mono (fun _ h => h)
    (fun _ _ _ hq => hq.1) fun e s' _ he => ⟨he.2.1, .inl he.2.2⟩)) ?_
  rintro _ s' rfl _
  refine Prog.Meets.bind (Q := fun answers s'' => List.Forall₂ (fun w answer => (∀ e, answer = .error e → e.code.Plain ∧
    (faults ∨ ¬ w.Ready C s' ∨ ∀ file, ¬ w.Makes X scheme record checksum file)) ∧ (answer = .ok () →
      ∃ file, s''.getShard w.device kh v w.index = some (.ok file) ∧ G w.index file)) writers answers)
      (Prog.Meets.lift (Prog.wp_all ?_ ?_)) ?_
  · intro es ts' s'' ht hx
    exact hx.preserves (fun e he s₁ s₂ hx hw => hw.trying (hallowed _ ((ht.uses huse).1 e he)) hx) h
  · intro es answers s'' ht hx
    have hops := (ht.uses huse).1
    have hmem : ∀ w ∈ writers, ∀ answer, (∃ es', es'.Sublist es ∧
        Task.Tr (finishWriter X C scheme record checksum w).run es' (.ret answer)) →
        (∀ e, answer = .error e → e.code.Plain ∧ (faults ∨ ¬ w.Ready C s' ∨
        ∀ file, ¬ w.Makes X scheme record checksum file)) ∧
          (answer = .ok () → ∃ file, s''.getShard w.device kh v w.index = some (.ok file) ∧ G w.index file) := by
      rintro w hw answer ⟨es', hsub, htr⟩
      obtain ⟨hok, herr⟩ := finishWriter_done htr
      constructor
      · rintro e rfl
        obtain ⟨hplain, hwhy⟩ := herr e rfl
        refine ⟨hplain, or_iff_not_imp_left.mpr fun hf => or_iff_not_imp_left.mpr fun hready => ?_⟩
        rw [not_not] at hready
        rcases hwhy with hd | hmakes | ⟨n, reason, hev⟩ | ⟨n, file, e', hev⟩
        · exact absurd hready.1 hd
        · exact hmakes
        · obtain ⟨s₁, s₂, _, hx₁⟩ := hx.moment (P := fun _ => True) (hsub.subset hev) (fun _ _ _ _ _ h => h) trivial
          rcases hx₁ with hx₁ | ⟨hf', _⟩
          · cases congrArg Prod.fst hx₁
          · exact absurd hf' hf
        · obtain ⟨s₁, s₂, hdisk, hx₁⟩ := hx.moment (P := fun s₁ => (s₁.disk w.device).isSome) (hsub.subset hev)
            (fun e he s₁ s₂ hx₁ hdisk => by
              rcases hx₁.store with rfl | rfl
              · exact hdisk
              · rwa [exec_isSome]) hready.2
          rcases hx₁ with hx₁ | ⟨hf', _⟩
          · have := congrArg Prod.fst hx₁
            simp only [exec, onDevice, hdisk, if_true] at this
            cases this
          · exact absurd hf' hf
      · intro hres
        obtain ⟨file, n, hfile, hev⟩ := hok hres
        have hgood := hfiles w hw file hfile
        refine hx.establishes (P := fun s₁ => ∃ file, s₁.getShard w.device kh v w.index = some (.ok file) ∧
          G w.index file) (hsub.subset hev) ?_ ?_
        · rintro s₁ s₂ (hx₁ | ⟨_, hodd, _⟩)
          · obtain ⟨hanswer, rfl⟩ := Prod.mk.inj hx₁
            have hdisk : (s₁.disk w.device).isSome := by
              by_contra hno
              simp only [onDevice, hno, if_false] at hanswer
              cases hanswer
            have hput := exec_finishShard hdisk file
            rw [hfile.2] at hput
            exact ⟨file, by rw [← hkh, ← hv]; exact hput, hgood⟩
          · obtain ⟨_, h⟩ := hodd
            cases h
        · intro e he s₁ s₂ hx₁ hthere
          rcases hx₁.store with rfl | rfl
          · exact hthere
          · rcases exec_getShard e.op s₁ w.device kh v w.index with heq | ⟨file', ho, _, _, hi, hdisk⟩ | ho
            · rw [heq]
              exact hthere
            · -- The place is written again: by a writer of the same shard.
              rcases hops e he with hq | ⟨w', hw', file'', ho', hmade, hgood'⟩
              · rw [ho] at hq
                exact hq.elim
              · rw [ho] at ho'
                obtain ⟨hdev, rfl⟩ := Op.finishShard.inj ho'
                have hput := exec_finishShard hdisk file'
                rw [ho]
                have hidx : w'.index = w.index := by rw [← hi, hmade.2]
                rw [hmade.2, hkh, hv, hidx] at hput
                exact ⟨file', hput, hidx ▸ hgood'⟩
            · rcases hops e he with hq | ⟨w', _, _, ho', _⟩
              · rw [ho] at hq
                exact hq.elim
              · rw [ho] at ho'
                cases ho'
    exact forall₂_of_mem ht.done_map fun w hw answer _ h => hmem w hw answer h
  · intro answers s'' hanswers hi
    cases hall : answers.mapM (fun answer => answer) with
    | ok us =>
      refine ⟨hi, fun w hw => ?_⟩
      obtain ⟨_, _, answer, ⟨_, hok⟩, rfl⟩ := forall₂_left_of_mem (forall₂_comp hanswers (mapM_eq_ok.mp hall)).flip hw
      exact hok rfl
    | error e =>
      obtain ⟨answer, hmem, rfl⟩ := mapM_error_source hall
      obtain ⟨w, hw, herr, _⟩ := forall₂_left_of_mem hanswers hmem
      obtain ⟨hplain, hwhy⟩ := herr e rfl
      exact ⟨hi, hplain, hwhy.imp id fun h => ⟨w, hw, h⟩⟩

end Finish

/-! ## Records -/

section Records

variable {faults : Prop} {X : Crates} {C : Cluster} {s : Store} {I : Store → Prop} {node : NodeId} {d : DeviceId}
  {r : MetadataRecord}

/-- The device takes the record: it is there, and what it holds of the version is the record or its predecessor. -/
structure Accepts (C : Cluster) (s : Store) (node : NodeId) (d : DeviceId) (r : MetadataRecord) : Prop where
  opened : d ∈ C.opened node
  disk : (s.disk d).isSome
  older : ∀ file, s.getRecord d r.keyHash r.version = some file →
    ∃ r₀, file = .ok r₀ ∧ (r₀ = r ∨ r₀.sameBody r = true ∧ r₀.revision < r.revision)

/-- The record is on the device, written or found there. -/
def Recorded (s : Store) (d : DeviceId) (r : MetadataRecord) (s' : Store) : Prop :=
  (s' = s ∨ s' = (exec (.writeRecord d r) s).2) ∧ s'.getRecord d r.keyHash r.version = some (.ok r)

theorem writeFile_meets (hI : I s) (hwrite : I (exec (.writeRecord d r) s).2) :
    Task.Meets (Trying faults) I (fun _ => Recorded s d r) (fun _ s' => I s' ∧ (faults ∨ s.disk d = none))
      (Device.file (Task.perform (Op.writeRecord d r))) s := by
  refine ⟨hI, fun answer s' hx => ?_⟩
  have hI' : I s' := by
    rcases hx.store with rfl | rfl
    · exact hI
    · exact hwrite
  refine ⟨hI', ?_⟩
  by_cases hd : (s.disk d).isSome
  · rcases hx with hx | ⟨hf, hodd, _⟩
    · obtain ⟨rfl, rfl⟩ := Prod.mk.inj hx
      simp only [onDevice, hd, if_true]
      exact ⟨.inr rfl, exec_writeRecord hd r⟩
    · obtain ⟨e, rfl⟩ := hodd
      exact ⟨hI', .inl hf⟩
  · rcases hx with hx | ⟨hf, hodd, _⟩
    · obtain ⟨rfl, rfl⟩ := Prod.mk.inj hx
      simp only [onDevice, hd, if_false, Bool.false_eq_true]
      exact ⟨hI', .inr (by simpa using hd)⟩
    · obtain ⟨e, rfl⟩ := hodd
      exact ⟨hI', .inl hf⟩

theorem readRecord_meets {kh : KeyHash} {v : VersionId} (hI : I s) : Task.Meets (Trying faults) I
    (fun r s' => s' = s ∧ s.getRecord d kh v = some (.ok r))
    (fun _ s' => s' = s ∧ ∀ r, s.getRecord d kh v ≠ some (.ok r)) (Device.readRecord d kh v) s := by
  refine wp_looks (readRecord_looks d) hI ?_
  cases hfile : s.getRecord d kh v with
  | none =>
    have heval : (Device.readRecord d kh v).run.eval exec s = (.error (.io .notFound), s) :=
      Task.eval_try_error (by show ((exec (.readRecord d kh v) s).1, s) = _; simp only [exec, hfile])
    rw [heval]
    exact ⟨rfl, by simp⟩
  | some file =>
    cases file with
    | error e =>
      rw [eval_readRecord_bad (exec_sees s) d hfile]
      exact ⟨rfl, by simp⟩
    | ok r =>
      rw [eval_readRecord (exec_sees s) d hfile]
      exact ⟨rfl, rfl⟩

/-- **Storing a record.** -/
theorem putMeta_meets (hvalid : r.Valid X.hashKey) (hI : I s) (hwrite : I (exec (.writeRecord d r) s).2) :
    Task.Meets (Trying faults) I (fun _ s' => d ∈ C.opened node ∧ Recorded s d r s')
      (Fails fun s' => I s' ∧ (faults ∨ ¬ Accepts C s node d r)) (putMeta X C node d r) s := by
  by_cases hd : d ∈ C.opened node
  · refine Task.Meets.mono (Q := fun _ => Recorded s d r) (onOwnDevice_meets hd ?_) (fun _ h => h)
      (fun _ _ _ h => ⟨hd, h⟩) fun _ _ _ h => h
    unfold Device.writeRecord
    rw [MetadataRecord.validate_eq_ok.mpr hvalid]
    have hfile := @writeFile_meets faults s I d r hI hwrite
    refine Task.Meets.bind (Q := fun present s' => s' = s ∧ present = (s.getRecord d r.keyHash r.version).isSome)
      (Task.Meets.lift ⟨hI, fun present s' hx => ?_⟩) ?_
    · obtain ⟨rfl, rfl⟩ := hx.exact trivial
      exact ⟨hI, rfl, rfl⟩
    · rintro present s' ⟨rfl, rfl⟩ _
      cases hcur : s'.getRecord d r.keyHash r.version with
      | none =>
        refine hfile.mono_error fun e s'' _ h => ⟨h.1, h.2.imp id fun hgone hacc => ?_⟩
        have := hacc.disk
        rw [hgone] at this
        cases this
      | some file =>
        rw [Option.isSome_some, if_pos rfl]
        refine Task.Meets.bind ((readRecord_meets hI).mono_error ?_) ?_
        · rintro e s'' hi ⟨rfl, hbad⟩
          refine ⟨hi, .inr fun hacc => ?_⟩
          obtain ⟨r₀, rfl, _⟩ := hacc.older file hcur
          exact hbad r₀ hcur
        · rintro existing s'' ⟨rfl, hex⟩ _
          by_cases hsame : existing = r
          · rw [if_pos hsame]
            exact ⟨hI, .inl rfl, hsame ▸ hex⟩
          · rw [if_neg hsame]
            split_ifs with hlow
            · refine ⟨hI, hI, .inr fun hacc => ?_⟩
              obtain ⟨r₀, hr₀, hwhy⟩ := hacc.older _ hex
              obtain rfl : existing = r₀ := Except.ok.inj hr₀
              rcases hwhy with rfl | ⟨hbody, hrev⟩
              · exact hsame rfl
              · simp [hbody, hrev] at hlow
            · refine hfile.mono_error fun e s' _ h => ⟨h.1, h.2.imp id fun hgone hacc => ?_⟩
              have := hacc.disk
              rw [hgone] at this
              cases this
  · exact onOwnDevice_closed hd hI ⟨hI, .inr fun h => hd h.opened⟩

end Records

/-! ## Removal -/

section Removal

variable {faults : Prop} {X : Crates} {C : Cluster} {s : Store} {I : Store → Prop} {node : NodeId}
  {d : DeviceId} {kh : KeyHash} {v : VersionId}

/-- Files of the version on the device have gone, and nothing else changed. -/
def Clearing (kh : KeyHash) (v : VersionId) (d : DeviceId) (s : Store) : Store → Prop :=
  Within kh v s (fun d' x => x = s.getRecord d' kh v ∨ d' = d ∧ x = none)
    fun d' i x => x = s.getShard d' kh v i ∨ d' = d ∧ x = none

/-- The version has gone from the device, and nothing else changed. -/
structure Emptied (kh : KeyHash) (v : VersionId) (d : DeviceId) (s s' : Store) : Prop where
  clearing : Clearing kh v d s s'
  record : s'.getRecord d kh v = none
  shard : ∀ i, s'.getShard d kh v i = none

theorem removeShards_meets {s' : Store} {is : List ℕ} (hI : ∀ s', Clearing kh v d s s' → I s')
    (h : Clearing kh v d s s') (hrecord : s'.getRecord d kh v = none)
    (hrest : ∀ i, i ∉ is → s'.getShard d kh v i = none) :
    Task.Meets (Trying faults) I (fun _ => Emptied kh v d s) (fun _ s' => I s' ∧ faults)
    (Device.removeShards d kh v is) s' := by
  induction is generalizing s' with
  | nil => exact ⟨hI s' h, h, hrecord, fun i => hrest i List.not_mem_nil⟩
  | cons i is ih =>
    refine Task.Meets.bind (Q := fun _ s'' => s'' = (exec (.removeShard d kh v i) s').2)
      ⟨hI s' h, fun answer s'' hx => ?_⟩ ?_
    · have hclear : Clearing kh v d s s'' := h.trying (o := .removeShard d kh v i) ⟨rfl, rfl, .inr ⟨rfl, rfl⟩⟩ hx
      refine ⟨hI s'' hclear, ?_⟩
      rcases hx with hx | ⟨hf, hodd, _⟩
      · obtain ⟨rfl, rfl⟩ := Prod.mk.inj hx
        exact rfl
      · obtain ⟨e, rfl⟩ := hodd
        exact ⟨hI s'' hclear, hf⟩
    · rintro _ s'' rfl _
      refine ih (h.exec (o := .removeShard d kh v i) ⟨rfl, rfl, .inr ⟨rfl, rfl⟩⟩) ?_ fun j hj => ?_
      · rcases exec_getRecord (.removeShard d kh v i) s' d kh v with heq | ⟨_, ho, _⟩ | ho
        · rw [heq, hrecord]
        · cases ho
        · cases ho
      · by_cases hij : j = i
        · subst hij
          exact exec_removeShard s' d kh v j
        · rcases exec_getShard (.removeShard d kh v i) s' d kh v j with heq | ⟨_, ho, _⟩ | ho
          · rw [heq]
            exact hrest j fun hmem => (List.mem_cons.mp hmem).elim hij hj
          · cases ho
          · cases ho
            exact absurd rfl hij

theorem keyDir_absent (h : (exec (.keyDirExists d kh) s).1 = false) :
    s.getRecord d kh v = none ∧ ∀ i, s.getShard d kh v i = none := by
  simp only [exec] at h
  unfold Store.getRecord Store.getShard
  cases hdisk : s.disk d with
  | none => exact ⟨rfl, fun _ => rfl⟩
  | some disk =>
    rw [hdisk] at h
    simp only [Bool.or_eq_false_iff, List.any_eq_false, beq_iff_eq] at h
    constructor
    · refine AList.lookup_eq_none.mpr fun hmem => ?_
      exact h.1 _ (AList.mem_keys.mp hmem) rfl
    · intro i
      refine AList.lookup_eq_none.mpr fun hmem => ?_
      exact h.2 _ (AList.mem_keys.mp hmem) rfl

theorem Clearing.refl (kh : KeyHash) (v : VersionId) (d : DeviceId) (s : Store) : Clearing kh v d s s :=
  Within.refl (fun _ => .inl rfl) fun _ _ => .inl rfl

/-- **Removing a version from a device.** -/
theorem deleteVersion_meets (hI : ∀ s', Clearing kh v d s s' → I s') :
    Task.Meets (Trying faults) I (fun _ => Emptied kh v d s) (Fails fun s' => I s' ∧ (faults ∨ d ∉ C.opened node))
      (deleteVersion X C node d kh v) s := by
  have hs : I s := hI s (.refl kh v d s)
  by_cases hd : d ∈ C.opened node
  · refine onOwnDevice_meets hd ?_
    unfold Device.deleteVersion
    refine Task.Meets.bind (Q := fun present s' => s' = s ∧ present = (exec (.keyDirExists d kh) s).1)
      (Task.Meets.lift ⟨hs, fun present s' hx => ?_⟩) ?_
    · obtain ⟨rfl, rfl⟩ := hx.exact trivial
      exact ⟨hs, rfl, rfl⟩
    · rintro present s' ⟨rfl, rfl⟩ _
      cases hpresent : (exec (.keyDirExists d kh) s').1 with
      | false =>
        obtain ⟨hrecord, hshard⟩ := keyDir_absent (v := v) hpresent
        exact ⟨hs, .refl kh v d s', hrecord, hshard⟩
      | true =>
        have hclear : ∀ s₁, s₁ = s' ∨ s₁ = (exec (.removeRecord d kh v) s').2 → Clearing kh v d s' s₁ := by
          rintro s₁ (rfl | rfl)
          · exact .refl kh v d s₁
          · exact (Clearing.refl kh v d s').exec (o := .removeRecord d kh v) ⟨rfl, rfl, .inr ⟨rfl, rfl⟩⟩
        refine Task.Meets.bind (Q := fun _ s₁ => s₁ = (exec (.removeRecord d kh v) s').2)
          ⟨hs, fun answer s₁ hx => ?_⟩ ?_
        · have hi := hI s₁ (hclear s₁ hx.store)
          refine ⟨hi, ?_⟩
          rcases hx with hx | ⟨hf, hodd, _⟩
          · obtain ⟨rfl, rfl⟩ := Prod.mk.inj hx
            exact rfl
          · obtain ⟨e, rfl⟩ := hodd
            exact ⟨hi, .inl hf⟩
        · rintro _ s₁ hs₁ hi
          have hdisk : (s₁.disk d).isSome := by
            rw [hs₁, exec_isSome]
            simp only [exec] at hpresent
            cases hdisk : s'.disk d with
            | none => rw [hdisk] at hpresent; cases hpresent
            | some disk => rfl
          refine Task.Meets.bind (Q := fun is s₂ => s₂ = s₁ ∧ is = s₁.shardIndices d kh v)
            ⟨hi, fun answer s₂ hx => ?_⟩ ?_
          · obtain rfl := hx.quiet trivial
            refine ⟨hi, ?_⟩
            rcases hx with hx | ⟨hf, hodd, _⟩
            · have hanswer := congrArg Prod.fst hx
              simp only [exec, onDevice, hdisk, if_true] at hanswer
              subst hanswer
              exact ⟨rfl, rfl⟩
            · obtain ⟨e, rfl⟩ := hodd
              exact ⟨hi, .inl hf⟩
          · rintro is s₂ ⟨rfl, rfl⟩ _
            refine (removeShards_meets hI (hclear _ (.inr hs₁)) (hs₁ ▸ exec_removeRecord s' d kh v) fun i hi =>
              ?_).mono_error fun _ _ _ h => ⟨h.1, .inl h.2⟩
            rw [Store.mem_shardIndices] at hi
            simpa using hi
  · exact onOwnDevice_closed hd hs ⟨hs, .inr hd⟩

end Removal

end Djbod
