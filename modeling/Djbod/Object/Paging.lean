import Djbod.Core.Names
import Djbod.Data.Paging
import Djbod.Node.Stocktake
import Djbod.Object.Small

/-!
# Walks over the records, page by page

A walk follows the pages of `LocalRecords` by the last record's key hash and version, or those of `LocalLookup` by the
last copy's version and device, while records are created, replaced and deleted between the pages.

* `recordsPage`, `lookupPage` : one page of what is there when it is asked for;
* `localRecords_refines` : the page from the directories is the page of the files they hold;
* `recordsPage_serves`, `lookupPage_serves` : a page is the front of what lies behind its cursor;
* `paging_complete` : a walk returns what is there all the time, once and in order.
-/

namespace Djbod

/-! ## Pages of a device's records -/

variable {r : MetadataRecord}

section Records

variable (recordSize : MetadataRecord → ℕ) (d : DeviceId)

/-- The records behind a place in the directories of a device, as a page carries them. -/
def recordsBehind (tree : DeviceTree) (after : Option (KeyHash ×ₗ VersionId)) : List DeviceRecord :=
  (walkRecordsFrom d tree (after.map ofLex)).map fun x => ⟨x.1, x.2⟩

/-- One page of the records of a device; a device whose bucket cannot be found is unavailable. -/
def recordsPage (held : Option DeviceTree) (after : Option (KeyHash ×ₗ VersionId)) :
    Except DeviceError (List DeviceRecord × Bool) :=
  match held with
  | none => .error .unavailable
  | some tree => .ok (takePage (fun x => recordSize x.record) maxListPageBytes false 0 (recordsBehind d tree after))

/-- Every record on a device, page by page; `moments` is what the device holds at each page. -/
def fetchDeviceRecords (moments : List (Option DeviceTree)) : Option (Except DeviceError (List DeviceRecord)) :=
  Paging.follow (recordsPage recordSize d) (fun x => x.record.filing) moments none

variable {recordSize d} {tree : DeviceTree}

theorem behindCursor_iff {hash : KeyHash} {version : VersionId} :
    behindCursor hash version r = true ↔ toLex (hash, version) < r.filing := by
  rw [behindCursor, MetadataRecord.filing, Prod.Lex.lt_iff, Bool.or_eq_true, Bool.and_eq_true, decide_eq_true_iff,
    decide_eq_true_iff, decide_eq_true_iff]
  exact or_congr Iff.rfl (and_congr eq_comm Iff.rfl)

theorem recordsBehind_sorted (d : DeviceId) (tree : DeviceTree) :
    (recordsBehind d tree none).Pairwise fun a b => a.record.filing < b.record.filing :=
  List.pairwise_map.mpr (walkRecordsFrom_sorted.imp behindCursor_iff.mp)

theorem recordsBehind_eq (after : Option (KeyHash ×ₗ VersionId)) :
    recordsBehind d tree after = Paging.behind (fun x => x.record.filing) after (recordsBehind d tree none) := by
  cases after with
  | none => exact (Paging.behind_none _ _).symm
  | some cursor =>
    have hwalk : walkRecordsFrom d tree (some (ofLex cursor)) =
        (walkRecordsFrom d tree none).filter fun x => behindCursor (ofLex cursor).1 (ofLex cursor).2 x.1 :=
        walkRecordsFrom_some _ _
    rw [recordsBehind, recordsBehind, Option.map_some, Option.map_none, hwalk, Paging.behind, List.filter_map]
    refine congrArg _ (List.filter_congr fun x _ => Bool.eq_iff_iff.mpr (behindCursor_iff.trans ?_))
    exact (decide_eq_true_iff (p := cursor < x.1.filing)).symm

theorem mem_recordsBehind : (∃ x ∈ recordsBehind d tree none, x.record = r) ↔ tree.Readable r := by
  rw [← walkRecordsFrom_readable (d := d), List.mem_map]
  constructor
  · rintro ⟨x, hx, rfl⟩
    obtain ⟨y, hy, rfl⟩ := List.mem_map.mp hx
    exact ⟨y, hy, rfl⟩
  · rintro ⟨y, hy, rfl⟩
    exact ⟨_, List.mem_map_of_mem hy, rfl⟩

def recordsHeld (d : DeviceId) (held : Option DeviceTree) : List DeviceRecord :=
  held.elim [] fun tree => recordsBehind d tree none

theorem recordsPage_serves (recordSize : MetadataRecord → ℕ) (d : DeviceId) :
    Paging.Serves (fun x : DeviceRecord => x.record.filing) (recordsHeld d) (recordsPage recordSize d) where
  sorted held := by
    cases held with
    | none => exact .nil
    | some tree => exact recordsBehind_sorted d tree
  split {held after items more} hpage := by
    cases held with
    | none => cases hpage
    | some tree =>
      obtain ⟨rest, hsplit, hmore, hne⟩ := takePage_spec (fun x : DeviceRecord => recordSize x.record)
        maxListPageBytes false 0 (recordsBehind d tree after)
      rw [Except.ok.inj hpage] at hsplit hmore hne
      rw [recordsHeld, Option.elim_some, ← recordsBehind_eq]
      exact ⟨rest, hsplit, hmore, hne rfl⟩

end Records

/-! ## The directories and the files they hold -/

theorem takePage_map {α β : Type} (f : α → β) (size : β → ℕ) (limit : ℕ) (started : Bool) (bytes : ℕ) (l : List α) :
    takePage size limit started bytes (l.map f) = Prod.map (List.map f)
    id (takePage (fun a => size (f a)) limit started bytes l) := by
  induction l generalizing started bytes with
  | nil => rfl
  | cons a l ih =>
    unfold takePage
    rw [List.map_cons]
    dsimp only
    split_ifs
    · rfl
    · rw [ih]
      rfl

theorem Flagged.eq_map {s : Store} {d : DeviceId} {page : List DeviceRecord} (h : Flagged s d page) :
    page = (page.map DeviceRecord.record).map fun r => ⟨r, s.shardHere d r⟩ := by
  rw [List.map_map]
  refine (List.map_id _).symm.trans (List.map_congr_left fun x hx => ?_)
  rw [Function.comp_apply, ← h x hx]
  rfl

/-- The directories hold the files of a disk. -/
structure DeviceTree.Holds (tree : DeviceTree) (disk : Disk) : Prop where
  records : ∀ kh v, tree.record kh v = (disk.records.lookup (kh, v)).map Entry.file
  shards : ∀ kh keyDir, tree.keyDir kh = some keyDir → ∀ v index,
    (keyDir.get (shardFileName v index)).any Entry.isFile = (disk.shards.lookup (kh, v, index)).isSome

/-! ### The directories of a disk -/

namespace Disk

/-- A file of a key: the record of a version, or one of its shards. -/
abbrev KeyFile := VersionId ⊕ VersionId × ℕ

def fileName : KeyFile → Name := Sum.elim recordFileName fun shard => shardFileName shard.1 shard.2

theorem parseRecordFileName_shardFileName (v : VersionId) (i : ℕ) : parseRecordFileName (shardFileName v i) = none := by
  refine if_neg fun hsuffix => ?_
  have hlast := last_of_suffix recordSuffix (c := 'n') rfl (List.isSuffixOf_iff_suffix.mp hsuffix)
  rw [shardFileName, last_of_suffix shardSuffix (c := 'd') rfl ⟨_, rfl⟩] at hlast
  cases hlast

theorem recordFileName_ne_shardFileName (v w : VersionId) (i : ℕ) : recordFileName v ≠ shardFileName w i := by
  intro h
  have hparse := parseRecordFileName_recordFileName v
  rw [h, parseRecordFileName_shardFileName] at hparse
  cases hparse

theorem fileName_injective : Function.Injective fileName :=
  recordFileName_strictMono.injective.sumElim (fun _ _ h => Prod.ext_iff.mpr (shardFileName_inj.mp h)) fun v shard =>
    recordFileName_ne_shardFileName v shard.1 shard.2

variable (disk : Disk)

def hashes : List KeyHash := disk.records.keys.map Prod.fst ++ disk.shards.keys.map Prod.fst

def keyFiles (kh : KeyHash) : List KeyFile :=
  ((disk.records.keys.filter fun place => place.1 = kh).map fun place => .inl place.2) ++
    (disk.shards.keys.filter fun place => place.1 = kh).map fun place => .inr place.2

/-- What reading a file of the key as a record gives; a shard file is not JSON. -/
def entry (kh : KeyHash) : KeyFile → Entry
  | .inl v => .file ((disk.records.lookup (kh, v)).getD (.error (.json "")))
  | .inr _ => .file (.error (.json ""))

def keyDir (kh : KeyHash) : KeyDir := .gather fileName_injective (disk.keyFiles kh) (disk.entry kh)

def bucket : BucketDir :=
  .gather Function.injective_id (disk.hashes.map fun kh => (directoryComponents kh).1) fun a =>
    .gather Function.injective_id
      ((disk.hashes.filter fun kh => (directoryComponents kh).1 = a).map fun kh => (directoryComponents kh).2.1)
      fun b => .gather toHex_strictMono.injective
        (disk.hashes.filter fun kh => (directoryComponents kh).1 = a ∧ (directoryComponents kh).2.1 = b) disk.keyDir

variable {disk} {kh : KeyHash} {v : VersionId} {i : ℕ}

theorem inl_mem_keyFiles : .inl v ∈ disk.keyFiles kh ↔ (disk.records.lookup (kh, v)).isSome := by
  simp [keyFiles, AList.lookup_isSome, AList.mem_keys]

theorem inr_mem_keyFiles : .inr (v, i) ∈ disk.keyFiles kh ↔ (disk.shards.lookup (kh, v, i)).isSome := by
  simp [keyFiles, AList.lookup_isSome, AList.mem_keys]

theorem hasDir_bucket {path : Name × Name × Name} {keyDir : KeyDir} :
    disk.bucket.HasDir path keyDir ↔ ∃ kh ∈ disk.hashes, directoryComponents kh = path ∧ disk.keyDir kh = keyDir := by
  obtain ⟨a, b, c⟩ := path
  constructor
  · rintro ⟨first, second, hfirst, hsecond, hkey⟩
    obtain ⟨a', -, ha⟩ := (Dir.mem_gather ..).mp hfirst
    obtain ⟨rfl, rfl⟩ := Prod.mk.inj ha
    obtain ⟨b', -, hb⟩ := (Dir.mem_gather ..).mp hsecond
    obtain ⟨rfl, rfl⟩ := Prod.mk.inj hb
    obtain ⟨kh, hkh, hc⟩ := (Dir.mem_gather ..).mp hkey
    obtain ⟨rfl, rfl⟩ := Prod.mk.inj hc
    obtain ⟨hmem, hcomponents⟩ := List.mem_filter.mp hkh
    obtain ⟨rfl, rfl⟩ := of_decide_eq_true hcomponents
    exact ⟨kh, hmem, rfl, rfl⟩
  · rintro ⟨kh, hmem, hpath, rfl⟩
    cases hpath
    refine ⟨_, _, (Dir.mem_gather ..).mpr ⟨_, List.mem_map_of_mem hmem, rfl⟩,
      (Dir.mem_gather ..).mpr ⟨_, List.mem_map_of_mem (List.mem_filter.mpr ⟨hmem, ?_⟩), rfl⟩,
      (Dir.mem_gather ..).mpr ⟨kh, List.mem_filter.mpr ⟨hmem, ?_⟩, rfl⟩⟩
    · exact decide_eq_true rfl
    · exact decide_eq_true ⟨rfl, rfl⟩

theorem filed_bucket {path : Name × Name × Name} {keyDir : KeyDir} (hdir : disk.bucket.HasDir path keyDir)
    {name : Name} {e : Entry} (he : (name, e) ∈ keyDir.entries) {v : VersionId}
    (hparse : parseRecordFileName name = some v) : name = recordFileName v ∧ ∀ {r}, e.read = .ok r → r.version = v ∧
    directoryComponents r.keyHash = path := by
  obtain ⟨kh, -, rfl, rfl⟩ := hasDir_bucket.mp hdir
  obtain ⟨file, hfile, heq⟩ := (Dir.mem_gather ..).mp he
  cases heq
  cases file with
  | inl w =>
    obtain rfl : w = v := Option.some.inj ((parseRecordFileName_recordFileName w).symm.trans hparse)
    refine ⟨rfl, fun {r} hread => ?_⟩
    obtain ⟨contents, hlookup⟩ := Option.isSome_iff_exists.mp (inl_mem_keyFiles.mp hfile)
    rw [entry, hlookup, Option.getD_some] at hread
    cases contents with
    | error e => cases hread
    | ok r' =>
      cases hread
      obtain ⟨rfl, rfl⟩ := Prod.mk.inj (disk.filed _ _ hlookup)
      exact ⟨rfl, rfl⟩
  | inr shard => cases (parseRecordFileName_shardFileName shard.1 shard.2).symm.trans hparse

def tree (disk : Disk) : DeviceTree := ⟨disk.bucket, filed_bucket⟩

variable (disk) (kh)

theorem get_keyDir (file : KeyFile) (e : Entry) :
    (disk.keyDir kh).get (fileName file) = some e ↔ file ∈ disk.keyFiles kh ∧ disk.entry kh file = e := by
  rw [Dir.get_eq_some, keyDir, Dir.mem_gather]
  constructor
  · rintro ⟨file', hmem, heq⟩
    obtain ⟨hname, rfl⟩ := Prod.mk.inj heq
    obtain rfl := fileName_injective hname
    exact ⟨hmem, rfl⟩
  · rintro ⟨hmem, rfl⟩
    exact ⟨file, hmem, rfl⟩

theorem keyDir_tree (dir : KeyDir) : disk.tree.keyDir kh = some dir ↔ kh ∈ disk.hashes ∧ disk.keyDir kh = dir := by
  refine (DeviceTree.keyDir_eq_some.trans hasDir_bucket).trans ⟨?_, fun h => ⟨kh, h.1, rfl, h.2⟩⟩
  rintro ⟨kh', hmem, hpath, rfl⟩
  obtain rfl := directoryComponents_injective hpath
  exact ⟨hmem, rfl⟩

/-- **Every disk has directories that hold its files.** -/
theorem tree_holds : disk.tree.Holds disk where
  records kh v := by
    refine Option.ext fun e => ?_
    simp only [DeviceTree.record, Option.bind_eq_some_iff, keyDir_tree, Option.map_eq_some_iff]
    constructor
    · rintro ⟨_, ⟨-, rfl⟩, hget⟩
      obtain ⟨hmem, rfl⟩ := (disk.get_keyDir kh (.inl v) e).mp hget
      obtain ⟨file, hlookup⟩ := Option.isSome_iff_exists.mp (inl_mem_keyFiles.mp hmem)
      exact ⟨file, hlookup, by rw [entry, hlookup, Option.getD_some]⟩
    · rintro ⟨file, hlookup, rfl⟩
      have hkey : (kh, v) ∈ disk.records.keys := AList.mem_keys.mp (AList.lookup_isSome.mp (hlookup ▸ rfl))
      refine ⟨_, ⟨List.mem_append_left _ (List.mem_map_of_mem (f := Prod.fst) hkey), rfl⟩, ?_⟩
      exact (disk.get_keyDir kh (.inl v) _).mpr ⟨inl_mem_keyFiles.mpr (hlookup ▸ rfl), by rw [entry, hlookup,
        Option.getD_some]⟩
  shards kh keyDir hdir v i := by
    obtain ⟨-, rfl⟩ := (disk.keyDir_tree kh keyDir).mp hdir
    rw [Bool.eq_iff_iff, ← inr_mem_keyFiles, Option.any_eq_true]
    constructor
    · rintro ⟨e, hget, -⟩
      exact ((disk.get_keyDir kh (.inr (v, i)) e).mp hget).1
    · exact fun hmem => ⟨_, (disk.get_keyDir kh (.inr (v, i)) _).mpr ⟨hmem, rfl⟩, rfl⟩

end Disk

variable {C : Cluster} {X : Crates} {node : NodeId} {recordSize : MetadataRecord → ℕ}

section Refines

variable {s : Store} {d : DeviceId} {tree : DeviceTree} {disk : Disk} (hdisk : s.disk d = some disk)
  (h : tree.Holds disk)

include hdisk h

theorem readable_iff : tree.Readable r ↔ r ∈ s.allRecords d := by
  rw [mem_allRecords, Store.getRecord, hdisk, Option.bind_some, DeviceTree.Readable, h.records]
  cases disk.records.lookup (r.keyHash, r.version) with
  | none => simp
  | some file => cases file <;> simp [Entry.read]

theorem shardPresent_eq {keyDir : KeyDir} (hdir : tree.keyDir r.keyHash = some keyDir) :
    keyDir.shardPresent d r.version r = s.shardHere d r := by
  unfold KeyDir.shardPresent Store.shardHere
  cases r.shardOn d with
  | none => rfl
  | some index =>
    dsimp only
    rw [h.shards r.keyHash keyDir hdir, Option.any_some, Bool.eq_iff_iff, decide_eq_true_iff, Store.mem_shardIndices,
      Store.getShard, hdisk, Option.bind_some]

/-- The walk through the directories is the list of the readable record files in the order of their places. -/
theorem recordsBehind_refines : recordsBehind d tree none = (s.allRecords d).map fun r => ⟨r, s.shardHere d r⟩ := by
  have hflagged : Flagged s d (recordsBehind d tree none) := by
    intro x hx
    obtain ⟨y, hy, rfl⟩ := List.mem_map.mp hx
    obtain ⟨keyDir, hdir, -, hpresent⟩ := mem_walkRecordsFrom.mp hy
    exact hpresent.trans (shardPresent_eq hdisk h hdir)
  rw [hflagged.eq_map, List.Pairwise.eq_of_mem_iff (r := InvImage (· < ·) MetadataRecord.filing) (allRecords_sorted s d)
    (List.pairwise_map.mpr (recordsBehind_sorted d tree)) fun r => ?_]
  rw [← readable_iff hdisk h, ← mem_recordsBehind (d := d), List.mem_map]

theorem recordsBehind_after (after : Option RecordCursor) :
    recordsBehind d tree (after.map fun c => toLex (c.keyHash, c.version)) =
    (recordsAfter after (s.allRecords d)).map fun r => ⟨r, s.shardHere d r⟩ := by
  rw [recordsBehind_eq, recordsBehind_refines hdisk h]
  cases after with
  | none => exact Paging.behind_none _ _
  | some cursor =>
    rw [recordsAfter, Paging.behind, List.filter_map]
    refine congrArg _ (List.filter_congr fun r _ => Bool.eq_iff_iff.mpr ?_)
    exact decide_eq_true_iff.trans RecordCursor.before_iff.symm

/-- **The page from the directories is the page of the files they hold.** -/
theorem localRecords_refines {out : Outage} (hd : d ∈ C.opened node) (after : Option RecordCursor) :
    ∃ answer, (localRecords X C recordSize node d after).run.eval (execOut out) ⟨s, none⟩ = (.ok answer, ⟨s, none⟩) ∧
      recordsPage recordSize d (some tree) (after.map fun c => toLex (c.keyHash, c.version)) = .ok answer := by
  obtain ⟨page, heval, hrecords, hflagged⟩ := @eval_localRecords X C recordSize s out node d hd
    (by rw [hdisk]; rfl) after
  refine ⟨_, heval, congrArg Except.ok ?_⟩
  rw [recordsBehind_after hdisk h, takePage_map, hflagged.eq_map, hrecords]
  rfl

end Refines

/-- A disk with records of these versions of one key, without the shard files they list. -/
def pagedDisk (versions : List VersionId) : Disk :=
  versions.foldl (fun disk v => disk.putRecord (byteRecord v 0 [0])) emptyDisk

/-- Devices that all hold the same files. -/
def pagedStore (disk : Disk) : Store := ⟨fun _ => some disk, fun _ => ⟨1048576, 1048576⟩⟩

/-- Three records and the shard file of the second; the page behind the first says which of the other two has its
file. -/
theorem localRecords_refines_flags :
    let disk := (pagedDisk [3, 1, 2]).putShard (byteShard 2 0)
    let s := pagedStore disk
    ∃ answer, (localRecords smallCrates (small 0 [.active]) (fun _ => 500) 0 0 (some ⟨0, 1⟩)).run.eval
        (execOut ⟨fun _ => true, fun _ _ => none, fun _ _ => false⟩) ⟨s, none⟩ = (.ok answer, ⟨s, none⟩) ∧
      recordsPage (fun _ => 500) 0 (some disk.tree) (some (toLex (0, 1))) = .ok answer ∧
      answer = ([⟨byteRecord 2 0 [0], true⟩, ⟨byteRecord 3 0 [0], false⟩], false) := by
  intro disk s
  obtain ⟨answer, heval, hpage⟩ := @localRecords_refines (small 0 [.active]) smallCrates 0 (fun _ => 500) s 0 _ disk rfl
    disk.tree_holds ⟨fun _ => true, fun _ _ => none, fun _ _ => false⟩ (by decide) (some ⟨0, 1⟩)
  refine ⟨answer, heval, hpage, ?_⟩
  have hpages : ((localRecords smallCrates (small 0 [.active]) (fun _ => 500) 0 0 (some ⟨0, 1⟩)).run.eval
      (execOut ⟨fun _ => true, fun _ _ => none, fun _ _ => false⟩) ⟨s, none⟩).1 =
      .ok ([⟨byteRecord 2 0 [0], true⟩, ⟨byteRecord 3 0 [0], false⟩], false) := by decide +kernel
  rw [heval] at hpages
  exact Except.ok.inj hpages

/-! ## Pages of a key's copies -/

section Lookup

variable (X : Crates) (C : Cluster) (node : NodeId) (kh : KeyHash)

/-- One page of a node's copies of a key's records. -/
def lookupPage (s : Store) (after : Option (VersionId ×ₗ DeviceId)) : Except ErrorDetail (List LocatedRecord × Bool) :=
  ((localLookup X C node kh (after.map fun c => ⟨(ofLex c).1, (ofLex c).2⟩)).run.eval exec s).1.map fun page =>
    (page.records, page.truncated)

/-- Every copy of a key's records on a node, page by page; `moments` is what the devices hold at each page. -/
def fetchCopies (moments : List Store) : Option (Except ErrorDetail (List LocatedRecord)) :=
  Paging.follow (lookupPage X C node kh) LocatedRecord.place moments none

def copiesHeld (s : Store) : List LocatedRecord := (copiesIn s kh (C.opened node)).insertionSort LocatedRecord.Le

variable {X C node kh} {s : Store}

theorem pageSource_eq (after : Option (VersionId ×ₗ DeviceId)) (recs : List LocatedRecord) :
    pageSource (after.map fun c => ⟨(ofLex c).1, (ofLex c).2⟩) recs =
      Paging.behind LocatedRecord.place after (recs.insertionSort LocatedRecord.Le) := by
  cases after with
  | none => exact (Paging.behind_none _ _).symm
  | some cursor =>
    refine List.filter_congr fun c _ => Bool.eq_iff_iff.mpr ?_
    exact LookupCursor.before_iff.trans decide_eq_true_iff.symm

theorem lookupPage_ok (hgood : ∀ d ∈ C.opened node, Undamaged s kh d) (after : Option (VersionId ×ₗ DeviceId)) :
    lookupPage X C node kh s after =
      .ok (takePage X.encodedLen maxListPageBytes false 0
      (Paging.behind LocatedRecord.place after (copiesHeld C node kh s))) := by
  obtain ⟨_, hlocal⟩ := (eval_localLookup (X := X) (exec_sees s) node (after.map fun c =>
    ⟨(ofLex c).1, (ofLex c).2⟩)).resolve_right fun ⟨⟨d, hd, hno⟩, _⟩ => hno (hgood d hd)
  rw [lookupPage, hlocal, pageSource_eq]
  rfl

theorem lookupPage_bad (hbad : ∃ d ∈ C.opened node, ¬Undamaged s kh d) (after : Option (VersionId ×ₗ DeviceId)) :
    ∃ e, lookupPage X C node kh s after = .error e := by
  obtain ⟨d, hd, hno⟩ := hbad
  obtain ⟨_, e, he, -⟩ := (eval_localLookup (X := X) (exec_sees s) node (after.map fun c =>
    ⟨(ofLex c).1, (ofLex c).2⟩)).resolve_left fun hgood => hno (hgood.1 d hd)
  exact ⟨e, by rw [lookupPage, he]; rfl⟩

theorem lookupPage_serves (X : Crates) (hnodup : (C.opened node).Nodup) (kh : KeyHash) :
    Paging.Serves LocatedRecord.place (copiesHeld C node kh) (lookupPage X C node kh) where
  sorted s := sorted_lt (copiesOn_copiesIn hnodup).places
  split {s after items more} hpage := by
    by_cases hgood : ∀ d ∈ C.opened node, Undamaged s kh d
    · obtain ⟨rest, hsplit, hmore, hne⟩ := takePage_spec X.encodedLen maxListPageBytes false 0
        (Paging.behind LocatedRecord.place after (copiesHeld C node kh s))
      rw [lookupPage_ok hgood] at hpage
      rw [Except.ok.inj hpage] at hsplit hmore hne
      exact ⟨rest, hsplit, hmore, hne rfl⟩
    · push Not at hgood
      obtain ⟨e, he⟩ := lookupPage_bad (X := X) hgood after
      rw [he] at hpage
      cases hpage

theorem mem_copiesHeld (hnodup : (C.opened node).Nodup) {c : LocatedRecord} :
    c ∈ copiesHeld C node kh s ↔ c.device ∈ C.opened node ∧ s.getRecord c.device kh c.record.version =
    some (.ok c.record) := by
  rw [copiesHeld, List.mem_insertionSort]
  exact (copiesOn_copiesIn hnodup).mem c

end Lookup

/-! ## Walks -/

/-- What a walk over a device's records returns, the device having held `moments` when its pages were asked for. -/
structure RecordsWalked (moments : List (Option DeviceTree)) (items : List DeviceRecord) : Prop where
  increasing : items.Pairwise fun a b => a.record.filing < b.record.filing
  found : ∀ x ∈ items, ∃ tree, some tree ∈ moments ∧ tree.Readable x.record
  place_once : ∀ place, (∀ held ∈ moments, ∃ tree r, held = some tree ∧ tree.Readable r ∧ r.filing = place) →
    (items.map fun x => x.record.filing).count place = 1
  record_once : ∀ r, (∀ held ∈ moments, ∃ tree, held = some tree ∧ tree.Readable r) →
    (items.map DeviceRecord.record).count r = 1

/-- What a walk over a node's copies of a key's records returns. -/
structure CopiesWalked (C : Cluster) (node : NodeId) (kh : KeyHash) (moments : List Store)
    (items : List LocatedRecord) : Prop where
  increasing : items.Pairwise fun a b => a.place < b.place
  found : ∀ c ∈ items, c.device ∈ C.opened node ∧
    ∃ s ∈ moments, s.getRecord c.device kh c.record.version = some (.ok c.record)
  place_once : ∀ d ∈ C.opened node, ∀ v, (∀ s ∈ moments, ∃ r, s.getRecord d kh v = some (.ok r)) →
    (items.map LocatedRecord.place).count (toLex (v, d)) = 1
  copy_once : ∀ c : LocatedRecord, c.device ∈ C.opened node →
    (∀ s ∈ moments, s.getRecord c.device kh c.record.version = some (.ok c.record)) → items.count c = 1

theorem readable_unique {tree : DeviceTree} {r' : MetadataRecord} (h : tree.Readable r) (h' : tree.Readable r')
    (hfiling : r.filing = r'.filing) : r = r' := by
  obtain ⟨e, he, hread⟩ := h
  obtain ⟨e', he', hread'⟩ := h'
  have hplace : (r.keyHash, r.version) = (r'.keyHash, r'.version) := toLex.injective hfiling
  rw [(Prod.mk.inj hplace).1, (Prod.mk.inj hplace).2, he'] at he
  cases he
  rw [hread'] at hread
  exact (Except.ok.inj hread).symm

variable {moments : List (Option DeviceTree)}

theorem fetchDeviceRecords_walked {d : DeviceId} {items : List DeviceRecord}
    (h : fetchDeviceRecords recordSize d moments = some (.ok items)) : RecordsWalked moments items := by
  have hserves := recordsPage_serves recordSize d
  have hsorted := (hserves.follow_sorted h).1
  have hfound : ∀ x ∈ items, ∃ tree, some tree ∈ moments ∧ tree.Readable x.record := by
    intro x hx
    obtain ⟨held, hheld, hmem⟩ := hserves.follow_sound h x hx
    cases held with
    | none => cases hmem
    | some tree => exact ⟨tree, hheld, mem_recordsBehind.mp ⟨x, hmem, rfl⟩⟩
  have hthere : ∀ place, (∀ held ∈ moments, ∃ tree r, held = some tree ∧ tree.Readable r ∧ r.filing = place) →
      ∀ held ∈ moments, ∃ x ∈ recordsHeld d held, x.record.filing = place := by
    intro place hall held hheld
    obtain ⟨tree, r, rfl, hr, hplace⟩ := hall held hheld
    obtain ⟨x, hx, rfl⟩ := mem_recordsBehind.mpr hr
    exact ⟨x, hx, hplace⟩
  refine ⟨hsorted, hfound, fun place hall => hserves.follow_once h (hthere place hall), fun r hall => ?_⟩
  obtain ⟨x, hx, hplace⟩ := hserves.follow_complete h (fun _ hc => nomatch hc) (hthere r.filing fun held hheld => by
    obtain ⟨tree, rfl, hr⟩ := hall held hheld
    exact ⟨tree, r, rfl, hr, rfl⟩)
  obtain ⟨tree, htree, hreadable⟩ := hfound x hx
  obtain ⟨tree', heq, hr⟩ := hall (some tree) htree
  cases heq
  have hsame : x.record = r := readable_unique hreadable hr hplace
  refine List.count_eq_one_of_mem (List.pairwise_map.mpr (hsorted.imp fun hlt heq => ?_))
    (hsame ▸ List.mem_map_of_mem hx)
  rw [heq] at hlt
  exact lt_irrefl _ hlt

variable {kh : KeyHash}

theorem fetchCopies_walked (hnodup : (C.opened node).Nodup) {moments : List Store} {items : List LocatedRecord}
    (h : fetchCopies X C node kh moments = some (.ok items)) : CopiesWalked C node kh moments items := by
  have hserves := lookupPage_serves X hnodup kh
  have hsorted := (hserves.follow_sorted h).1
  have hfound : ∀ c ∈ items, c.device ∈ C.opened node ∧ ∃ s ∈ moments, s.getRecord c.device kh c.record.version =
      some (.ok c.record) := by
    intro c hc
    obtain ⟨s, hs, hmem⟩ := hserves.follow_sound h c hc
    obtain ⟨hd, hget⟩ := (mem_copiesHeld hnodup).mp hmem
    exact ⟨hd, s, hs, hget⟩
  have hthere : ∀ d ∈ C.opened node, ∀ v, (∀ s ∈ moments, ∃ r, s.getRecord d kh v = some (.ok r)) →
      ∀ s ∈ moments, ∃ c ∈ copiesHeld C node kh s, c.place = toLex (v, d) := by
    intro d hd v hall s hs
    obtain ⟨r, hr⟩ := hall s hs
    obtain ⟨-, rfl⟩ := Store.getRecord_filed hr
    exact ⟨⟨d, r⟩, (mem_copiesHeld hnodup).mpr ⟨hd, hr⟩, rfl⟩
  refine ⟨hsorted, hfound, fun d hd v hall => hserves.follow_once h (hthere d hd v hall), fun c hd hall => ?_⟩
  obtain ⟨c', hc', hplace⟩ := hserves.follow_complete h (fun _ hc => nomatch hc)
      (hthere c.device hd c.record.version fun s hs =>
    ⟨c.record, hall s hs⟩)
  obtain ⟨-, s, hs, hget⟩ := hfound c' hc'
  have hsame : c' = c := by
    obtain ⟨hversion, hdevice⟩ := Prod.mk.inj (toLex.injective hplace)
    rw [hdevice, hversion, hall s hs] at hget
    cases c
    cases c'
    cases hget
    cases hdevice
    rfl
  refine List.count_eq_one_of_mem (hsorted.imp fun hlt heq => ?_) (hsame ▸ hc')
  rw [heq] at hlt
  exact lt_irrefl _ hlt

theorem fetchDeviceRecords_ends (recordSize : MetadataRecord → ℕ) (d : DeviceId)
    {places : Finset (KeyHash ×ₗ VersionId)} (hheld : ∀ held ∈ moments, ∃ tree, held = some tree ∧
    ∀ r, tree.Readable r → r.filing ∈ places) (hlen : places.card < moments.length) :
    ∃ items, fetchDeviceRecords recordSize d moments = some (.ok items) := by
  refine (recordsPage_serves recordSize d).follow_ends (fun held hm after => ?_) (fun held hm x hx => ?_) hlen
  · obtain ⟨tree, rfl, -⟩ := hheld held hm
    exact ⟨_, rfl⟩
  · obtain ⟨tree, rfl, hplaces⟩ := hheld held hm
    exact hplaces x.record (mem_recordsBehind.mp ⟨x, hx, rfl⟩)

theorem fetchCopies_ends (X : Crates) (hnodup : (C.opened node).Nodup) {moments : List Store}
    (hgood : ∀ s ∈ moments, ∀ d ∈ C.opened node, Undamaged s kh d) {places : Finset (VersionId ×ₗ DeviceId)}
    (hheld : ∀ s ∈ moments, ∀ d ∈ C.opened node, ∀ v r, s.getRecord d kh v = some (.ok r) → toLex (v, d) ∈ places)
    (hlen : places.card < moments.length) : ∃ items, fetchCopies X C node kh moments = some (.ok items) := by
  refine (lookupPage_serves X hnodup kh).follow_ends (fun s hs after => ⟨_, lookupPage_ok (hgood s hs) after⟩)
    (fun s hs c hc => ?_) hlen
  obtain ⟨hd, hget⟩ := (mem_copiesHeld hnodup).mp hc
  exact hheld s hs c.device hd c.record.version c.record hget

/-- **Paging over records loses and repeats nothing.** Whatever is created, replaced and deleted between the pages, and
however large the records are, a walk over a device's records and a walk over a node's copies of a key return strictly
increasing items, all of them found on the way, and once each what can be read during the whole walk; with more moments
than places ever filled they come to their end; and no page that says more follow is empty. -/
theorem paging_complete (X : Crates) (C : Cluster) (recordSize : MetadataRecord → ℕ) :
    (∀ d moments,
      (∀ items, fetchDeviceRecords recordSize d moments = some (.ok items) → RecordsWalked moments items) ∧
      (∀ places : Finset (KeyHash ×ₗ VersionId),
        (∀ held ∈ moments, ∃ tree, held = some tree ∧ ∀ r, tree.Readable r → r.filing ∈ places) →
        places.card < moments.length →
          ∃ items, fetchDeviceRecords recordSize d moments = some (.ok items)) ∧
      ∀ held after items, recordsPage recordSize d held after = .ok (items, true) → items ≠ []) ∧
    ∀ n ∈ C.document.activeNodes, ∀ kh moments,
      (∀ items, fetchCopies X C n.id kh moments = some (.ok items) → CopiesWalked C n.id kh moments items) ∧
      (∀ places : Finset (VersionId ×ₗ DeviceId), (∀ s ∈ moments, ∀ d ∈ C.opened n.id, Undamaged s kh d) →
        (∀ s ∈ moments, ∀ d ∈ C.opened n.id, ∀ v r, s.getRecord d kh v = some (.ok r) → toLex (v, d) ∈ places) →
          places.card < moments.length → ∃ items, fetchCopies X C n.id kh moments = some (.ok items)) ∧
      (∀ s after, (∃ answer, lookupPage X C n.id kh s after = .ok answer) ↔ ∀ d ∈ C.opened n.id, Undamaged s kh d) ∧
      ∀ s after items, lookupPage X C n.id kh s after = .ok (items, true) → items ≠ [] := by
  refine ⟨fun d moments => ⟨fun items => fetchDeviceRecords_walked, fun places => fetchDeviceRecords_ends recordSize d,
      fun held after items h =>
    (recordsPage_serves recordSize d).page_ne_nil h rfl⟩, fun n hn kh moments => ?_⟩
  have hnodup := opened_nodup_of_active hn
  refine ⟨fun items => fetchCopies_walked hnodup, fun places hgood => fetchCopies_ends X hnodup hgood, fun s after =>
      ⟨?_, ?_⟩, fun s after items h =>
    (lookupPage_serves X hnodup kh).page_ne_nil h rfl⟩
  · rintro ⟨answer, hanswer⟩
    by_contra hbad
    push Not at hbad
    obtain ⟨e, he⟩ := lookupPage_bad (X := X) hbad after
    rw [he] at hanswer
    cases hanswer
  · exact fun hgood => ⟨_, lookupPage_ok hgood after⟩

theorem pagedDisk_lookup {versions : List VersionId} {place : KeyHash × VersionId} {file : RecordFile}
    (h : (pagedDisk versions).records.lookup place = some file) : ∃ v ∈ versions, place = (0, v) ∧
    file = .ok (byteRecord v 0 [0]) := by
  induction versions using List.reverseRecOn with
  | nil => cases h
  | append_singleton versions v ih =>
    rw [pagedDisk, List.foldl_append, List.foldl_cons, List.foldl_nil] at h
    by_cases hplace : place = (0, v)
    · subst hplace
      exact ⟨v, by simp, rfl, (Option.some.inj ((AList.lookup_insert _).symm.trans h)).symm⟩
    · obtain ⟨w, hw, hfile⟩ := ih ((AList.lookup_insert_ne hplace).symm.trans h)
      exact ⟨w, List.mem_append_left _ hw, hfile⟩

/-- The versions that a device holds when the pages of a walk are asked for: the second is deleted and the fourth
created after the first page, the first is deleted after the second page. -/
def pagedVersions : List (List VersionId) := [[1, 2, 3], [1, 3, 4], [4, 3], [4, 3], [4, 3]]

/-- Records larger than a page, one to a page, some of them created and deleted between the pages. -/
theorem paging_complete_changing :
    (∃ items, fetchDeviceRecords (fun _ => 2 ^ 30) 0
        (pagedVersions.map fun versions => some (pagedDisk versions).tree) = some (.ok items) ∧
      RecordsWalked (pagedVersions.map fun versions => some (pagedDisk versions).tree) items ∧
      items.map (fun x => x.record.version) = [1, 3, 4]) ∧
    ∃ items, fetchCopies { smallCrates with encodedLen := fun _ => 2 ^ 30 } (small 0 [.active]) 0 0
        (pagedVersions.map fun versions => pagedStore (pagedDisk versions)) = some (.ok items) ∧
      CopiesWalked (small 0 [.active]) 0 0 (pagedVersions.map fun versions => pagedStore (pagedDisk versions)) items ∧
      items.map (fun c => c.record.version) = [1, 3, 4] := by
  obtain ⟨hrecords, hcopies⟩ := paging_complete { smallCrates with encodedLen := fun _ => 2 ^ 30 }
    (small 0 [.active]) fun _ => 2 ^ 30
  have hversions : ∀ versions ∈ pagedVersions, ∀ v ∈ versions, v ∈ ({1, 2, 3, 4} : Finset VersionId) := by
    simp [pagedVersions]
  refine ⟨?_, ?_⟩
  · obtain ⟨hwalked, hends, -⟩ := hrecords 0 (pagedVersions.map fun versions => some (pagedDisk versions).tree)
    obtain ⟨items, hitems⟩ := hends (({1, 2, 3, 4} : Finset VersionId).image fun v => toLex (0, v)) (by
      intro held hheld
      obtain ⟨versions, hmem, rfl⟩ := List.mem_map.mp hheld
      refine ⟨_, rfl, fun r hr => ?_⟩
      have hget := mem_allRecords.mp ((readable_iff (s := pagedStore (pagedDisk versions)) (d := 0) rfl
        (pagedDisk versions).tree_holds).mp hr)
      obtain ⟨v, hv, hplace, -⟩ := pagedDisk_lookup hget
      rw [MetadataRecord.filing, hplace]
      exact Finset.mem_image_of_mem _ (hversions versions hmem v hv)) (by decide)
    refine ⟨items, hitems, hwalked items hitems, ?_⟩
    have hfetched : fetchDeviceRecords (fun _ => 2 ^ 30) 0
        (pagedVersions.map fun versions => some (pagedDisk versions).tree) =
        some (.ok ([1, 3, 4].map fun v => ⟨byteRecord v 0 [0], false⟩)) := by decide +kernel
    rw [Except.ok.inj (Option.some.inj (hitems.symm.trans hfetched))]
    rfl
  · obtain ⟨hwalked, hends, -⟩ := hcopies ⟨0, ["127.0.0.1:9000"], none, .active⟩ (by decide) 0
      (pagedVersions.map fun versions => pagedStore (pagedDisk versions))
    obtain ⟨items, hitems⟩ := hends (({1, 2, 3, 4} : Finset VersionId).image fun v => toLex (v, 0)) (by
      intro s hs d hd v e hget
      obtain ⟨versions, hmem, rfl⟩ := List.mem_map.mp hs
      obtain ⟨w, hw, -, hfile⟩ := pagedDisk_lookup hget
      cases hfile) (by
      intro s hs d hd v r hget
      obtain ⟨versions, hmem, rfl⟩ := List.mem_map.mp hs
      obtain ⟨w, hw, hplace, -⟩ := pagedDisk_lookup hget
      obtain rfl : d = 0 := by simpa [small] using hd
      rw [(Prod.mk.inj hplace).2]
      exact Finset.mem_image_of_mem _ (hversions versions hmem w hw)) (by decide)
    refine ⟨items, hitems, hwalked items hitems, ?_⟩
    have hfetched : fetchCopies { smallCrates with encodedLen := fun _ => 2 ^ 30 } (small 0 [.active]) 0 0
        (pagedVersions.map fun versions => pagedStore (pagedDisk versions)) =
        some (.ok ([1, 3, 4].map fun v => ⟨0, byteRecord v 0 [0]⟩)) := by decide +kernel
    rw [Except.ok.inj (Option.some.inj (hitems.symm.trans hfetched))]
    rfl

end Djbod
