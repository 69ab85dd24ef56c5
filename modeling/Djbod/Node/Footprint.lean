import Djbod.Node.Get
import Djbod.Node.List
import Djbod.Sched.Wp

/-!
# What each program may do to the files

* `Op.Quiet` : operations that leave every file as it is, `exec_quiet`;
* one footprint for each handler and each program of the coordinator: lookups, status and reads are quiet,
  and the others write or remove only the files of the versions they are about.
-/

namespace Djbod

open Sched

/-- The operation leaves every file as it is. -/
def Op.Quiet : Op → Prop
  | .writeRecord _ _ => False
  | .removeRecord _ _ _ => False
  | .removeShard _ _ _ _ => False
  | .finishShard _ _ => False
  | _ => True

theorem exec_quiet {o : Op} (h : o.Quiet) (s : Store) : (exec o s).2 = s := by
  cases o <;> first | rfl | exact absurd h not_false

variable {X : Crates} {C : Cluster} {P : Op → Prop} {kh : KeyHash} {v : VersionId} {α : Type} {d : DeviceId}

/-! ## Requests -/

theorem onOwnDevice_uses {node : NodeId} {proc : Device.Proc α} (h : proc.run.Uses P) :
    (onOwnDevice X C node d proc).run.Uses P := by
  unfold onOwnDevice
  split
  · exact Task.Uses.bind h fun r => by cases r <;> exact Task.uses_ret _
  · exact Task.uses_ret _

theorem callNode_uses {t : NodeProc α} (h : t.run.Uses P) : (callNode t).run.Uses P := Prog.uses_call h

theorem require_uses (check : Except ErrorDetail α) : (require check).run.Uses P := Prog.uses_ret _

theorem removeShards_uses {is : List ℕ} (hshard : ∀ i, P (.removeShard d kh v i)) :
    (Device.removeShards d kh v is).run.Uses P := by
  induction is with
  | nil => exact Task.uses_ret _
  | cons i is ih => exact Task.uses_try (Task.uses_perform (hshard i)) fun _ => ih

variable (hP : ∀ o : Op, o.Quiet → P o)

include hP

theorem connectTo_uses (target : NodeId) : (connectTo X C target).run.Uses P := by
  unfold connectTo
  split
  · exact Task.uses_ret _
  · exact Task.Uses.bind (Task.uses_perform (hP _ trivial)) fun r => by cases r <;> exact Task.uses_ret _

theorem request_uses (target : NodeId) {handler : NodeProc α} (h : handler.run.Uses P) :
    (request X target handler).run.Uses P := by
  refine Task.Uses.bind h fun r => Task.Uses.bind (Task.uses_perform (hP _ trivial)) fun answer => ?_
  cases answer with
  | error e => exact Task.uses_ret _
  | ok u => cases r <;> exact Task.uses_ret _

/-! ## Lookups -/

theorem readRecord_uses (d : DeviceId) : (Device.readRecord d kh v).run.Uses P := by
  refine Task.uses_try (Task.uses_perform (hP _ trivial)) fun r => ?_
  split_ifs
  · exact Task.uses_ret _
  · exact Task.uses_ret _

theorem readEach_uses (d : DeviceId) (vs : List VersionId) : (Device.readEach d kh vs).run.Uses P := by
  induction vs with
  | nil => exact Task.uses_ret _
  | cons v vs ih =>
    exact Task.uses_try (readRecord_uses hP d) fun r => Task.uses_try ih fun rs => Task.uses_ret _

theorem readDevices_uses (ds : List DeviceId) : (readDevices kh ds).run.Uses P := by
  induction ds with
  | nil => exact Task.uses_ret _
  | cons d ds ih =>
    refine Task.uses_try (Task.uses_lift ?_) fun found => ?_
    · exact Task.uses_try (Task.uses_perform (hP _ trivial)) fun vs => readEach_uses hP d _
    · cases found with
      | ok rs => exact Task.uses_try ih fun _ => Task.uses_ret _
      | error e =>
        dsimp only
        split_ifs
        · exact Task.uses_try ih fun _ => Task.uses_ret _
        · exact Task.uses_ret _

theorem lookupPages_uses (target : NodeId) (fuel : ℕ) (after : Option LookupCursor)
    (all : List LocatedRecord) : (lookupPages X C target kh fuel after all).run.Uses P := by
  induction fuel generalizing after all with
  | zero => exact Task.uses_ret _
  | succ fuel ih =>
    refine Task.uses_try (request_uses hP target ?_) fun page => ?_
    · exact Task.uses_try (readDevices_uses hP _) fun _ => Task.uses_ret _
    · dsimp only
      split_ifs
      · exact Task.uses_ret _
      · exact ih _ _

theorem lookupReachable_uses (fuel : ℕ) : (lookupReachable X C fuel kh).run.Uses P := by
  refine Prog.uses_try (Prog.uses_lift (Prog.uses_all fun t ht => ?_)) fun answers => ?_
  · obtain ⟨n, _, rfl⟩ := List.mem_map.mp ht
    exact Task.uses_try (connectTo_uses hP n) fun _ => lookupPages_uses hP n fuel none []
  · split
    · exact Prog.uses_ret _
    · exact Prog.uses_ret _

theorem lookup_uses (fuel : ℕ) : (lookup X C fuel kh).run.Uses P := by
  refine Prog.uses_try (lookupReachable_uses hP fuel) fun found => ?_
  split
  · exact Prog.uses_ret _
  · exact Prog.uses_ret _

/-! ## Deleting -/

theorem deleteVersion_uses (hrecord : P (.removeRecord d kh v)) (hshard : ∀ i, P (.removeShard d kh v i)) :
    (Device.deleteVersion d kh v).run.Uses P := by
  refine Task.uses_try (Task.uses_lift (Task.uses_perform (hP _ trivial))) fun present => ?_
  split_ifs
  · exact Task.uses_ret _
  · refine Task.uses_try (Task.uses_perform hrecord) fun _ => Task.uses_try (Task.uses_perform (hP _ trivial)) fun _ =>
      ?_
    exact removeShards_uses hshard

/-! ## Writing -/

theorem statusOf_uses (node : NodeId) (ds : List DeviceId) : (statusOf C node ds).run.Uses P := by
  induction ds with
  | nil => exact Task.uses_ret _
  | cons d ds ih =>
    exact Task.uses_try (Task.uses_lift (Task.uses_perform (hP _ trivial))) fun _ =>
      Task.uses_try ih fun _ => Task.uses_ret _

theorem broadcastStatus_uses : (broadcastStatus X C).run.Uses P := by
  refine Prog.uses_try (Prog.uses_lift (Prog.uses_all fun t ht => ?_)) fun answers => ?_
  · obtain ⟨n, _, rfl⟩ := List.mem_map.mp ht
    refine Task.uses_try (connectTo_uses hP n) fun _ => request_uses hP n ?_
    exact Task.uses_try (statusOf_uses hP n _) fun _ => Task.uses_ret _
  · exact Prog.uses_try (require_uses _) fun _ => Prog.uses_ret _

theorem beginShard_uses (node : NodeId) (d : DeviceId) (index k m blockLength size : ℕ) :
    (beginShard X C node d kh v index k m blockLength size).run.Uses P := by
  unfold beginShard
  by_cases hd : d ∈ C.opened node
  · rw [if_neg (not_not.mpr hd)]
    split_ifs
    · exact Task.uses_ret _
    · split
      · exact Task.uses_ret _
      · split_ifs
        · exact Task.uses_ret _
        · refine onOwnDevice_uses ?_
          split
          · exact Task.uses_ret _
          · exact Task.uses_perform (hP _ trivial)
  · rw [if_pos hd]
    exact onOwnDevice_uses (Task.uses_ret _)

theorem openWriters_uses (scheme : Scheme) (size i : ℕ) (chosen : List DeviceStatus) :
    (openWriters X C scheme kh v size i chosen).run.Uses P := by
  induction chosen generalizing i with
  | nil => exact Task.uses_ret _
  | cons status chosen ih =>
    refine Task.uses_try (connectTo_uses hP _) fun _ => Task.uses_try ?_ fun _ =>
      Task.uses_try (ih _) fun _ => Task.uses_ret _
    unfold beginWriter
    split_ifs
    · exact Task.uses_ret _
    · exact request_uses hP _ (beginShard_uses hP _ _ _ _ _ _ _)

theorem preparePut_uses (fuel : ℕ) (created : ℤ) (params : PutParams) :
    (preparePut X C fuel v created params).run.Uses P := by
  refine Prog.uses_try (require_uses _) fun _ => Prog.uses_try (require_uses _) fun scheme => ?_
  refine Prog.uses_try (lookup_uses hP fuel) fun existing => Prog.uses_try (require_uses _) fun _ => ?_
  refine Prog.uses_try (broadcastStatus_uses hP) fun statuses => Prog.uses_try (require_uses _) fun shardBytes => ?_
  refine Prog.uses_try (require_uses _) fun chosen => ?_
  exact Prog.uses_try (callNode_uses (openWriters_uses hP _ _ _ _)) fun writers => Prog.uses_ret _

theorem sendTo_uses (owner : NodeId) : (sendTo X owner).run.Uses P :=
  request_uses hP owner (Task.uses_ret _)

theorem sendBlocks_uses (writers : List ShardWriter) (blocks : List ShardBlock) :
    (sendBlocks X writers blocks).run.Uses P := by
  induction writers generalizing blocks with
  | nil => exact Task.uses_ret _
  | cons w writers ih =>
    cases blocks with
    | nil => exact Task.uses_ret _
    | cons b blocks =>
      exact Task.uses_try (sendTo_uses hP _) fun _ => Task.uses_try (ih blocks) fun _ => Task.uses_ret _

theorem sendStripe_uses (code : ReedSolomonCode) (blockSize : ℕ)
    (writers : List ShardWriter) (stripe : Bytes) : (sendStripe X code blockSize writers stripe).run.Uses P := by
  unfold sendStripe
  split
  · exact Task.uses_ret _
  · exact sendBlocks_uses hP _ _

theorem fillStripes_uses (code : ReedSolomonCode) (blockSize rounds : ℕ) (upload : Upload)
    (bytes : Bytes) : (fillStripes X code blockSize rounds upload bytes).run.Uses P := by
  induction rounds generalizing upload bytes with
  | zero => exact Task.uses_ret _
  | succ rounds ih =>
    unfold fillStripes
    split_ifs
    · exact Task.uses_ret _
    · dsimp only
      split_ifs
      · exact Task.uses_try (sendStripe_uses hP _ _ _ _) fun _ => ih _ _
      · exact ih _ _

theorem receiveBody_uses (code : ReedSolomonCode) (record : MetadataRecord)
    (upload : Upload) (body : List BodyMessage) : (receiveBody X code record upload body).run.Uses P := by
  induction body generalizing upload with
  | nil => exact Task.uses_ret _
  | cons message body ih =>
    cases message with
    | data frame =>
      refine Task.uses_try ?_ fun upload => ih upload
      unfold receiveFrame
      split_ifs
      · exact Task.uses_ret _
      · exact Task.uses_ret _
      · exact Task.uses_ret _
      · exact fillStripes_uses hP _ _ _ _ _
    | endOfStream error =>
      cases error with
      | some e => exact Task.uses_ret _
      | none =>
        unfold receiveBody
        split_ifs
        · exact Task.uses_ret _
        · exact Task.uses_ret _
        · exact Task.uses_try (sendStripe_uses hP _ _ _ _) fun _ => Task.uses_ret _
    | other description => exact Task.uses_ret _

theorem sendEnds_uses (writers : List ShardWriter) : (sendEnds X writers).run.Uses P := by
  induction writers with
  | nil => exact Task.uses_ret _
  | cons w writers ih => exact Task.uses_try (sendTo_uses hP _) fun _ => ih

variable {record : MetadataRecord}

/-- The end of a shard's stream puts the file of that shard in place, and no other. -/
theorem finishWriter_uses {scheme : Scheme} {checksum : BlockChecksum} {writer : ShardWriter}
    (hfile : ∀ file, writeShard X.xxh3 ⟨scheme, writer.index, record.blockSize, record.keyHash, record.version⟩
    writer.blocks record.size checksum = .ok file → P (.finishShard writer.device file)) :
    (finishWriter X C scheme record checksum writer).run.Uses P := by
  refine request_uses hP _ (onOwnDevice_uses ?_)
  cases hw : writeShard X.xxh3 ⟨scheme, writer.index, record.blockSize, record.keyHash, record.version⟩
      writer.blocks record.size checksum with
  | error e => exact Task.uses_ret _
  | ok file => exact Task.uses_perform (hfile file hw)

theorem writeRecord_uses (hwrite : P (.writeRecord d record)) : (Device.writeRecord X.hashKey d record).run.Uses P := by
  unfold Device.writeRecord
  split
  · exact Task.uses_ret _
  · refine Task.uses_try (Task.uses_lift (Task.uses_perform (hP _ trivial))) fun present => ?_
    split_ifs
    · refine Task.uses_try (readRecord_uses hP d) fun existing => ?_
      split_ifs
      · exact Task.uses_ret _
      · exact Task.uses_ret _
      · exact Task.uses_perform hwrite
    · exact Task.uses_perform hwrite

theorem writeRecords_uses {writers : List ShardWriter}
    (hwrite : ∀ w ∈ writers, P (.writeRecord w.device record)) : (writeRecords X C record writers).run.Uses P := by
  induction writers with
  | nil => exact Task.uses_ret _
  | cons w writers ih =>
    refine Task.uses_try (request_uses hP _ (onOwnDevice_uses (writeRecord_uses hP (hwrite w List.mem_cons_self))))
      fun _ => ?_
    exact ih fun w' hw' => hwrite w' (List.mem_cons_of_mem _ hw')

end Djbod
