import Djbod.Core.Cluster
import Djbod.Sched.Run

/-!
# Devices and the operations on them

The shared state of a cluster is what its devices hold: record files and shard files, by key hash.

* `Store` : every device's files and free space; `getRecord`, `getShard`, `versions` read it;
* `Op`, `Resp` : the single file operations and the messages, each atomic;
* `exec` : how an operation executes when nothing fails, `Exec` the same with any space report;
* `Device.*` : the procedures of a device as tasks over these operations.
-/

namespace Djbod

open Sched

inductive DeviceError where
  | io (kind : IoErrorKind)
  | unavailable
  | record (e : RecordError)
  | recordExists (keyHash : KeyHash) (version : VersionId)
  | shardFile (e : ShardFileError)
  | badObjectSize (size : ℕ)
  deriving DecidableEq, Repr

/-- A record file, as parsing and validating its contents gives it. -/
abbrev RecordFile := Except RecordError MetadataRecord

/-- A shard file, as opening it gives it. -/
abbrev ShardContent := Except ShardFileError ShardFile

/-- The files of one device. A record file that can be read is filed under its own key hash and version. -/
structure Disk where
  records : AList fun _ : KeyHash × VersionId => RecordFile
  shards : AList fun _ : KeyHash × VersionId × ℕ => ShardContent
  filed : ∀ place r, records.lookup place = some (.ok r) → place = (r.keyHash, r.version)

namespace Disk

def putRecord (disk : Disk) (r : MetadataRecord) : Disk where
  records := disk.records.insert (r.keyHash, r.version) (.ok r)
  shards := disk.shards
  filed place r' h := by
    by_cases hp : place = (r.keyHash, r.version)
    · subst hp
      rw [AList.lookup_insert] at h
      cases h
      rfl
    · rw [AList.lookup_insert_ne hp] at h
      exact disk.filed place r' h

def eraseRecord (disk : Disk) (place : KeyHash × VersionId) : Disk where
  records := disk.records.erase place
  shards := disk.shards
  filed place' r h := by
    by_cases hp : place' = place
    · subst hp
      rw [AList.lookup_erase] at h
      cases h
    · rw [AList.lookup_erase_ne hp] at h
      exact disk.filed place' r h

def putShard (disk : Disk) (file : ShardFile) : Disk :=
  { disk with
    shards := disk.shards.insert (file.header.keyHash, file.header.versionId, file.header.shardIndex) (.ok file) }

def eraseShard (disk : Disk) (place : KeyHash × VersionId × ℕ) : Disk :=
  { disk with shards := disk.shards.erase place }

end Disk

structure SpaceReport where
  totalBytes : ℕ
  freeBytes : ℕ
  deriving DecidableEq, Repr

/-- What every device holds; a device whose tree is gone holds nothing. -/
structure Store where
  disk : DeviceId → Option Disk
  space : DeviceId → SpaceReport

namespace Store

def getRecord (s : Store) (d : DeviceId) (kh : KeyHash) (v : VersionId) : Option RecordFile :=
  (s.disk d).bind fun disk => disk.records.lookup (kh, v)

def getShard (s : Store) (d : DeviceId) (kh : KeyHash) (v : VersionId) (i : ℕ) : Option ShardContent :=
  (s.disk d).bind fun disk => disk.shards.lookup (kh, v, i)

def versions (s : Store) (d : DeviceId) (kh : KeyHash) : List VersionId :=
  match s.disk d with
  | none => []
  | some disk => (disk.records.keys.filter fun key => key.1 == kh).map Prod.snd

def shardIndices (s : Store) (d : DeviceId) (kh : KeyHash) (v : VersionId) : List ℕ :=
  match s.disk d with
  | none => []
  | some disk => (disk.shards.keys.filter fun key => key.1 == kh && key.2.1 == v).map fun key => key.2.2

def allRecords (s : Store) (d : DeviceId) : List MetadataRecord :=
  match s.disk d with
  | none => []
  | some disk => (disk.records.keys.insertionSort fun a b => a.1 < b.1 ∨ a.1 = b.1 ∧ a.2 ≤ b.2).filterMap fun key =>
    match disk.records.lookup key with
    | some (.ok r) => some r
    | _ => none

def onDisk (s : Store) (d : DeviceId) (f : Disk → Disk) : Store :=
  { s with disk := Function.update s.disk d ((s.disk d).map f) }

end Store

/-! ## Operations -/

/-- Opening a connection, one message over it, and the file operations of a device. -/
inductive Op where
  | connect (node : NodeId)
  | transfer (node : NodeId)
  | readDir (d : DeviceId) (kh : KeyHash)
  | readRecord (d : DeviceId) (kh : KeyHash) (v : VersionId)
  | recordExists (d : DeviceId) (kh : KeyHash) (v : VersionId)
  | writeRecord (d : DeviceId) (r : MetadataRecord)
  | keyDirExists (d : DeviceId) (kh : KeyHash)
  | removeRecord (d : DeviceId) (kh : KeyHash) (v : VersionId)
  | listShards (d : DeviceId) (kh : KeyHash) (v : VersionId)
  | removeShard (d : DeviceId) (kh : KeyHash) (v : VersionId) (i : ℕ)
  | space (d : DeviceId)
  | beginShard (d : DeviceId) (header : ShardFileHeader)
  | finishShard (d : DeviceId) (file : ShardFile)
  | openShard (d : DeviceId) (kh : KeyHash) (v : VersionId) (i : ℕ)
  | readBlock (file : ShardFile) (n : ℕ)
  | walkRecords (d : DeviceId)

/-- What each operation is answered with. A message that is not answered carries the reason. -/
@[reducible] def Resp : Op → Type
  | .connect _ => Except String Unit
  | .transfer _ => Except String Unit
  | .readDir _ _ => Except DeviceError (List VersionId)
  | .readRecord _ _ _ => Except DeviceError MetadataRecord
  | .recordExists _ _ _ => Bool
  | .writeRecord _ _ => Except DeviceError Unit
  | .keyDirExists _ _ => Bool
  | .removeRecord _ _ _ => Except DeviceError Unit
  | .listShards _ _ _ => Except DeviceError (List ℕ)
  | .removeShard _ _ _ _ => Except DeviceError Unit
  | .space _ => Except DeviceError SpaceReport
  | .beginShard _ _ => Except DeviceError Unit
  | .finishShard _ _ => Except DeviceError Unit
  | .openShard _ _ _ _ => Except DeviceError ShardFile
  | .readBlock _ _ => Except DeviceError ShardBlock
  | .walkRecords _ => Except DeviceError (List MetadataRecord)

/-- `e` when the device is there, `gone` when its tree is not. -/
def onDevice {α : Type} (s : Store) (d : DeviceId) (gone : DeviceError) (e : α) : Except DeviceError α :=
  if (s.disk d).isSome then .ok e else .error gone

/-- Execute an operation when nothing fails but what the files themselves make fail. -/
def exec : (o : Op) → Store → Resp o × Store
  | .connect _, s => (.ok (), s)
  | .transfer _, s => (.ok (), s)
  | .readDir d kh, s => (onDevice s d .unavailable (s.versions d kh), s)
  | .readRecord d kh v, s =>
    (match s.getRecord d kh v with
      | none => .error (.io .notFound)
      | some (.error e) => .error (.record e)
      | some (.ok r) => .ok r, s)
  | .recordExists d kh v, s => ((s.getRecord d kh v).isSome, s)
  | .writeRecord d r, s =>
    (onDevice s d .unavailable (),
      s.onDisk d fun disk => disk.putRecord r)
  | .keyDirExists d kh, s =>
    (match s.disk d with
      | none => false
      | some disk => (disk.records.keys.any fun key => key.1 == kh) || disk.shards.keys.any fun key => key.1 == kh, s)
  | .removeRecord d kh v, s =>
    (.ok (), s.onDisk d fun disk => disk.eraseRecord (kh, v))
  | .listShards d kh v, s => (onDevice s d (.io .notFound) (s.shardIndices d kh v), s)
  | .removeShard d kh v i, s =>
    (.ok (), s.onDisk d fun disk => disk.eraseShard (kh, v, i))
  | .space d, s => (onDevice s d .unavailable (s.space d), s)
  | .beginShard d _, s => (onDevice s d .unavailable (), s)
  | .finishShard d file, s =>
    (onDevice s d (.io .notFound) (), s.onDisk d fun disk => disk.putShard file)
  | .openShard d kh v i, s =>
    (match s.getShard d kh v i with
      | none => .error (.shardFile (.io .notFound))
      | some (.error e) => .error (.shardFile e)
      | some (.ok file) => .ok file, s)
  | .readBlock file n, s =>
    (match file.readBlock n with
      | .error e => .error (.shardFile e)
      | .ok block => .ok block, s)
  | .walkRecords d, s => (onDevice s d .unavailable (s.allRecords d), s)

/-- Execution when nothing fails: the free space a device reports is any. -/
def Exec : (o : Op) → Store → Resp o → Store → Prop
  | .space _, s, _, s' => s' = s
  | o, s, r, s' => (r, s') = exec o s

def Op.Failed : (o : Op) → Resp o → Prop
  | .connect _, r => ∃ e, r = .error e
  | .transfer _, r => ∃ e, r = .error e
  | .readDir _ _, r => ∃ e, r = .error e
  | .readRecord _ _ _, r => ∃ e, r = .error e
  | .recordExists _ _ _, _ => False
  | .writeRecord _ _, r => ∃ e, r = .error e
  | .keyDirExists _ _, _ => False
  | .removeRecord _ _ _, r => ∃ e, r = .error e
  | .listShards _ _ _, r => ∃ e, r = .error e
  | .removeShard _ _ _ _, r => ∃ e, r = .error e
  | .space _, r => ∃ e, r = .error e
  | .beginShard _ _, r => ∃ e, r = .error e
  | .finishShard _ _, r => ∃ e, r = .error e
  | .openShard _ _ _ _, r => ∃ e, r = .error e
  | .readBlock _ _, r => ∃ e, r = .error e
  | .walkRecords _, r => ∃ e, r = .error e

/-- The cluster while nothing fails. -/
def healthy : Sys Op Resp Store := ⟨Exec, fun _ _ => False⟩

/-! ## What an operation changes -/

theorem exec_sound (o : Op) (s : Store) : Exec o s (exec o s).1 (exec o s).2 := by
  cases o <;> rfl

variable {s : Store}

theorem Exec.store {o : Op} {s' : Store} {r : Resp o} (h : Exec o s r s') : s' = (exec o s).2 := by
  cases o <;> first | exact h | exact congrArg Prod.snd h

variable {d : DeviceId}

theorem isSome_of_getRecord {kh : KeyHash} {v : VersionId} {file : RecordFile} (h : s.getRecord d kh v = some file) :
    (s.disk d).isSome := by
  obtain ⟨disk, hdisk, -⟩ := Option.bind_eq_some_iff.mp h
  rw [hdisk]
  rfl

namespace Store

variable {kh : KeyHash} {v : VersionId}

theorem mem_versions : v ∈ s.versions d kh ↔ (s.getRecord d kh v).isSome := by
  unfold versions getRecord
  cases hd : s.disk d with
  | none => simp
  | some disk =>
    rw [Option.bind_some, AList.lookup_isSome, AList.mem_keys]
    simp

theorem getRecord_filed {r : MetadataRecord} (h : s.getRecord d kh v = some (.ok r)) : r.keyHash = kh ∧
    r.version = v := by
  obtain ⟨disk, _, hr⟩ := Option.bind_eq_some_iff.mp h
  cases disk.filed _ _ hr
  exact ⟨rfl, rfl⟩

theorem mem_shardIndices {i : ℕ} : i ∈ s.shardIndices d kh v ↔ (s.getShard d kh v i).isSome := by
  unfold shardIndices getShard
  cases hd : s.disk d with
  | none => simp
  | some disk =>
    rw [Option.bind_some, AList.lookup_isSome, AList.mem_keys]
    simp

@[simp] theorem onDisk_disk_self (s : Store) (d : DeviceId) (f : Disk → Disk) :
    (s.onDisk d f).disk d = (s.disk d).map f := Function.update_self ..

@[simp] theorem onDisk_disk_ne (s : Store) {d' : DeviceId} (h : d' ≠ d) (f : Disk → Disk) :
    (s.onDisk d f).disk d' = s.disk d' := Function.update_of_ne h ..

theorem onDisk_isSome (s : Store) (d d' : DeviceId) (f : Disk → Disk) :
    ((s.onDisk d f).disk d').isSome = (s.disk d').isSome := by
  by_cases h : d' = d
  · subst h; simp
  · simp [h]

theorem onDisk_getRecord_of_records (s : Store) (d d' : DeviceId) (f : Disk → Disk)
    (hf : ∀ disk, (f disk).records = disk.records) (kh : KeyHash) (v : VersionId) :
    (s.onDisk d f).getRecord d' kh v = s.getRecord d' kh v := by
  unfold getRecord
  by_cases h : d' = d
  · subst h
    rw [onDisk_disk_self, Option.bind_map]
    simp [hf]
  · rw [onDisk_disk_ne _ h]

theorem onDisk_getShard_of_shards (s : Store) (d d' : DeviceId) (f : Disk → Disk)
    (hf : ∀ disk, (f disk).shards = disk.shards) (kh : KeyHash) (v : VersionId) (i : ℕ) :
    (s.onDisk d f).getShard d' kh v i = s.getShard d' kh v i := by
  unfold getShard
  by_cases h : d' = d
  · subst h
    rw [onDisk_disk_self, Option.bind_map]
    simp [hf]
  · rw [onDisk_disk_ne _ h]

end Store

theorem exec_isSome (o : Op) (s : Store) (d : DeviceId) : ((exec o s).2.disk d).isSome = (s.disk d).isSome := by
  cases o <;> first | rfl | exact Store.onDisk_isSome ..

theorem exec_removeRecord (s : Store) (d : DeviceId) (kh : KeyHash) (v : VersionId) :
    (exec (.removeRecord d kh v) s).2.getRecord d kh v = none := by
  simp only [exec, Store.getRecord, Store.onDisk_disk_self, Option.bind_map]
  cases s.disk d with
  | none => rfl
  | some disk => exact AList.lookup_erase (kh, v) disk.records

theorem exec_writeRecord (hd : (s.disk d).isSome) (r : MetadataRecord) :
    (exec (.writeRecord d r) s).2.getRecord d r.keyHash r.version = some (.ok r) := by
  obtain ⟨disk, hdisk⟩ := Option.isSome_iff_exists.mp hd
  simp only [exec, Store.getRecord, Store.onDisk_disk_self, hdisk, Option.map_some, Option.bind_some,
    Disk.putRecord, AList.lookup_insert]

theorem exec_removeShard (s : Store) (d : DeviceId) (kh : KeyHash) (v : VersionId) (i : ℕ) :
    (exec (.removeShard d kh v i) s).2.getShard d kh v i = none := by
  simp only [exec, Store.getShard, Store.onDisk_disk_self, Option.bind_map]
  cases s.disk d with
  | none => rfl
  | some disk => exact AList.lookup_erase (kh, v, i) disk.shards

theorem exec_finishShard (hd : (s.disk d).isSome) (file : ShardFile) :
    (exec (.finishShard d file) s).2.getShard d file.header.keyHash file.header.versionId file.header.shardIndex =
      some (.ok file) := by
  obtain ⟨disk, hdisk⟩ := Option.isSome_iff_exists.mp hd
  simp only [exec, Store.getShard, Store.onDisk_disk_self, hdisk, Option.map_some, Option.bind_some,
    Disk.putShard, AList.lookup_insert]

/-- A record file changes only by being written or removed. -/
theorem exec_getRecord (o : Op) (s : Store) (d : DeviceId) (kh : KeyHash) (v : VersionId) :
    (exec o s).2.getRecord d kh v = s.getRecord d kh v ∨
      (∃ r, o = .writeRecord d r ∧ r.keyHash = kh ∧ r.version = v ∧ (s.disk d).isSome) ∨
      o = .removeRecord d kh v := by
  cases o with
  | writeRecord d' r =>
    by_cases hd : d = d'
    · subst hd
      cases hdisk : s.disk d with
      | none => exact .inl (by simp [exec, Store.getRecord, hdisk])
      | some disk =>
        by_cases hk : (kh, v) = (r.keyHash, r.version)
        · cases hk
          exact .inr (.inl ⟨r, rfl, rfl, rfl, rfl⟩)
        · exact .inl (by simp [exec, Store.getRecord, hdisk, Disk.putRecord, AList.lookup_insert_ne hk])
    · exact .inl (by simp [exec, Store.getRecord, hd])
  | removeRecord d' kh' v' =>
    by_cases hd : d = d'
    · subst hd
      by_cases hk : (kh, v) = (kh', v')
      · cases hk
        exact .inr (.inr rfl)
      · refine .inl ?_
        simp only [exec, Store.getRecord, Store.onDisk_disk_self, Option.bind_map]
        cases s.disk d with
        | none => rfl
        | some disk => exact AList.lookup_erase_ne hk
    · exact .inl (by simp [exec, Store.getRecord, hd])
  | removeShard d' kh' v' i =>
      exact .inl (by simp only [exec]; rw [Store.onDisk_getRecord_of_records]; exact fun _ => rfl)
  | finishShard d' file => exact .inl (by simp only [exec]; rw [Store.onDisk_getRecord_of_records]; exact fun _ => rfl)
  | _ => exact .inl rfl

/-- A shard file changes only by being finished or removed. -/
theorem exec_getShard (o : Op) (s : Store) (d : DeviceId) (kh : KeyHash) (v : VersionId) (i : ℕ) :
    (exec o s).2.getShard d kh v i = s.getShard d kh v i ∨
      (∃ file, o = .finishShard d file ∧ file.header.keyHash = kh ∧ file.header.versionId = v ∧
        file.header.shardIndex = i ∧ (s.disk d).isSome) ∨
      o = .removeShard d kh v i := by
  cases o with
  | finishShard d' file =>
    by_cases hd : d = d'
    · subst hd
      cases hdisk : s.disk d with
      | none => exact .inl (by simp [exec, Store.getShard, hdisk])
      | some disk =>
        by_cases hk : (kh, v, i) = (file.header.keyHash, file.header.versionId, file.header.shardIndex)
        · cases hk
          exact .inr (.inl ⟨file, rfl, rfl, rfl, rfl, rfl⟩)
        · exact .inl (by simp [exec, Store.getShard, hdisk, Disk.putShard, AList.lookup_insert_ne hk])
    · exact .inl (by simp [exec, Store.getShard, hd])
  | removeShard d' kh' v' i' =>
    by_cases hd : d = d'
    · subst hd
      by_cases hk : (kh, v, i) = (kh', v', i')
      · cases hk
        exact .inr (.inr rfl)
      · refine .inl ?_
        simp only [exec, Store.getShard, Store.onDisk_disk_self, Option.bind_map]
        cases s.disk d with
        | none => rfl
        | some disk => exact AList.lookup_erase_ne hk
    · exact .inl (by simp [exec, Store.getShard, hd])
  | removeRecord d' kh' v' => exact .inl (by simp only [exec]; rw [Store.onDisk_getShard_of_shards]; exact fun _ => rfl)
  | writeRecord d' r => exact .inl (by simp only [exec]; rw [Store.onDisk_getShard_of_shards]; exact fun _ => rfl)
  | _ => exact .inl rfl

/-! ## The procedures of a device -/

namespace Device

/-- A task over the operations that may fail with an error of the device. -/
abbrev Proc (α : Type) := ExceptT DeviceError (Task Op Resp) α

def file {α : Type} (t : Task Op Resp (Except DeviceError α)) : Proc α := ExceptT.mk t

def ask (t : Task Op Resp Bool) : Proc Bool := ExceptT.lift t

/-- Read a record file and check that it is filed under its own key hash. -/
def readRecord (d : DeviceId) (kh : KeyHash) (v : VersionId) : Proc MetadataRecord := do
  let record ← file (Task.perform (Op.readRecord d kh v))
  if record.keyHash ≠ kh then throw (.record (.keyHashMismatch record.keyHash kh)) else pure record

def readEach (d : DeviceId) (kh : KeyHash) : List VersionId → Proc (List MetadataRecord)
  | [] => pure []
  | v :: rest => do
    let record ← readRecord d kh v
    let records ← readEach d kh rest
    pure (record :: records)

/-- Every record copy under a key hash, oldest version first: the directory is listed, then each file
is read. -/
def readRecords (d : DeviceId) (kh : KeyHash) : Proc (List MetadataRecord) := do
  let versions ← file (Task.perform (Op.readDir d kh))
  readEach d kh (versions.insertionSort (· ≤ ·))

/-- Store a record. An existing one of the same version is replaced only by one that describes the same
body at a higher placement revision. -/
def writeRecord (hashKey : String → KeyHash) (d : DeviceId) (record : MetadataRecord) : Proc Unit :=
  match record.validate hashKey with
  | .error e => throw (.record e)
  | .ok () => do
    let present ← ask (Task.perform (Op.recordExists d record.keyHash record.version))
    if present then do
      let existing ← readRecord d record.keyHash record.version
      if existing = record then pure ()
      else if !(existing.sameBody record && existing.revision < record.revision) then
        throw (.recordExists record.keyHash record.version)
      else file (Task.perform (Op.writeRecord d record))
    else file (Task.perform (Op.writeRecord d record))

def removeShards (d : DeviceId) (kh : KeyHash) (v : VersionId) : List ℕ → Proc Unit
  | [] => pure ()
  | i :: rest => do
    file (Task.perform (Op.removeShard d kh v i))
    removeShards d kh v rest

/-- Remove a version: record first, then any shard file. Removing what is absent succeeds. -/
def deleteVersion (d : DeviceId) (kh : KeyHash) (v : VersionId) : Proc Unit := do
  let present ← ask (Task.perform (Op.keyDirExists d kh))
  if !present then pure ()
  else do
    file (Task.perform (Op.removeRecord d kh v))
    let shards ← file (Task.perform (Op.listShards d kh v))
    removeShards d kh v shards

end Device

end Djbod
