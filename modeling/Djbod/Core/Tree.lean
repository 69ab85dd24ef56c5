import Djbod.Core.Device
import Djbod.Data.Directory
import Djbod.Data.Spelling

/-!
# The directories of a device

Under its bucket a device has two levels of directories named by the first hex characters of a key hash, then one
directory for each key, named by the whole hash, with the record and shard files of its versions.

* `toHex`, `toText`, `fromText` : key hashes and versions as text; the text is in their order;
* `recordFileName`, `shardFileName`, `parseRecordFileName` : the names of a version's files;
* `DeviceTree` : the directories of a device whose record files each lie under their own key hash and version;
* `walkRecordsFrom` : the records behind a cursor, in directory order;
* `walkRecordsFrom_some`, `walkRecordsFrom_sorted`, `mem_walkRecordsFrom` : what the walk visits.
-/

namespace Djbod

/-! ## Names -/

abbrev Name := List Char

def hexDigit (digit : ℕ) : Char := "0123456789abcdef".toList.getD digit '0'

/-- The 64 lowercase hex characters that name the object directory. -/
def toHex (kh : KeyHash) : Name := FixedWidth.text hexDigit 16 64 kh.val

/-- The 16 lowercase hex characters of a checksum. -/
def checksumToHex (c : BlockChecksum) : Name := FixedWidth.text hexDigit 16 16 c.toNat

/-- The three path components under a bucket directory: the first two hex characters, the next two, and the full
hash. -/
def directoryComponents (kh : KeyHash) : Name × Name × Name := ((toHex kh).take 2, ((toHex kh).drop 2).take 2, toHex kh)

/-- Crockford base32: digits and letters without I, L, O, U. -/
def alphabet : List Char := "0123456789ABCDEFGHJKMNPQRSTVWXYZ".toList

def textLen : ℕ := 26

def decodeChar (c : Char) : Option ℕ := alphabet.findIdx? fun letter => letter == c.toUpper

def toText (v : VersionId) : Name := FixedWidth.text (fun digit => alphabet.getD digit '0') 32 textLen v.val

/-- Parse the text form. The first character must be `0` to `7`, since 26 base32 digits hold 130 bits. -/
def fromText (text : Name) : Option VersionId :=
  if text.length ≠ textLen then none
  else if !(text.head?.any fun c => '0' ≤ c && c ≤ '7') then none
  else (text.mapM decodeChar).map fun digits => Fin.ofNat (2 ^ 128) (FixedWidth.value 32 digits)

def recordSuffix : Name := ".meta.json".toList

def shardSuffix : Name := ".shard".toList

def recordFileName (v : VersionId) : Name := toText v ++ recordSuffix

def shardFileName (v : VersionId) (index : ℕ) : Name := toText v ++ '.' :: (toString index).toList ++ shardSuffix

def parseRecordFileName (name : Name) : Option VersionId :=
  if recordSuffix.isSuffixOf name then fromText (name.take (name.length - recordSuffix.length)) else none

theorem hexDigit_lt : ∀ d < 16, ∀ d' < 16, d < d' → hexDigit d < hexDigit d' := by decide

theorem alphabet_lt : ∀ d < 32, ∀ d' < 32, d < d' → alphabet.getD d '0' < alphabet.getD d' '0' := by decide

theorem toHex_strictMono : StrictMono toHex := fun a b h => FixedWidth.text_lt (by decide) hexDigit_lt (by
  rw [Nat.mod_eq_of_lt (a.isLt.trans_eq (by norm_num)), Nat.mod_eq_of_lt (b.isLt.trans_eq (by norm_num))]
  exact h)

theorem toText_strictMono : StrictMono toText := fun v w h => FixedWidth.text_lt (by decide) alphabet_lt (by
  rw [Nat.mod_eq_of_lt (v.isLt.trans_le (by norm_num [textLen])),
    Nat.mod_eq_of_lt (w.isLt.trans_le (by norm_num [textLen]))]
  exact h)

theorem toText_length (v : VersionId) : (toText v).length = textLen := FixedWidth.text_length _ _

theorem recordFileName_strictMono : StrictMono recordFileName := fun v w h =>
  FixedWidth.append_lt_append (by rw [toText_length, toText_length]) (toText_strictMono h)

theorem decodeChar_eq_some (c : Char) (d : ℕ) : decodeChar c = some d ↔ d < 32 ∧ c.toUpper = alphabet.getD d '0' :=
  FixedWidth.findIdx_letter (by decide) _ '0' d

theorem first_iff {c : Char} {d : ℕ} (h : decodeChar c = some d) : ('0' ≤ c && c ≤ '7') = true ↔ d < 8 := by
  obtain ⟨hd, hupper⟩ := (decodeChar_eq_some c d).mp h
  have hcases : ∀ d < 32, (('0' ≤ alphabet.getD d '0' && alphabet.getD d '0' ≤ '7') = true ↔ d < 8) ∧
      (('0' ≤ (alphabet.getD d '0').toLower && (alphabet.getD d '0').toLower ≤ '7') = true ↔ d < 8) := by decide
  rcases Spelling.eq_upper_or_lower c with heq | heq
  · rw [heq, hupper]
    exact (hcases d hd).1
  · rw [heq, hupper]
    exact (hcases d hd).2

/-- The first character says whether the digits fit in 128 bits. -/
theorem head_iff {text : Name} {ds : List ℕ} (hlen : text.length = textLen) (hds : text.mapM decodeChar = some ds) :
    (text.head?.any fun c => '0' ≤ c && c ≤ '7') = true ↔ FixedWidth.value 32 ds < 2 ^ 128 := by
  obtain ⟨hlt, hmap⟩ := (FixedWidth.mapM_decode decodeChar_eq_some).mp hds
  cases text with
  | nil => cases hlen
  | cons c text =>
    cases ds with
    | nil => cases hmap
    | cons d ds =>
      rw [List.map_cons, List.map_cons, List.cons.injEq] at hmap
      have hds : ds.length = 25 := by
        have hsame := congrArg List.length hmap.2
        rw [List.length_map, List.length_map, Nat.succ.inj hlen] at hsame
        exact hsame.symm
      have hrest := FixedWidth.value_lt (by decide) (List.forall_mem_cons.mp hlt).2
      rw [List.head?_cons, Option.any_some, first_iff ((decodeChar_eq_some c d).mpr ⟨hlt d List.mem_cons_self, hmap.1⟩),
        FixedWidth.value_cons, hds]
      rw [hds] at hrest
      omega

/-- **A text is read as a version exactly when it is the text of the version, in either case.** -/
theorem fromText_eq_some {text : Name} {v : VersionId} : fromText text = some v ↔ text.map Char.toUpper = toText v := by
  have hlt : v.val < 32 ^ textLen := v.isLt.trans_le (by norm_num [textLen])
  rw [toText, ← (FixedWidth.read_iff (by decide) decodeChar_eq_some).trans (and_iff_right hlt)]
  unfold fromText
  constructor
  · intro h
    split_ifs at h with hlen hhead
    obtain ⟨ds, hds, hv⟩ := Option.map_eq_some_iff.mp h
    rw [not_not] at hlen
    refine ⟨hlen, ds, hds, ?_⟩
    have hfits := (head_iff hlen hds).mp (by simpa using hhead)
    rw [← hv, Fin.val_ofNat, Nat.mod_eq_of_lt hfits]
  · rintro ⟨hlen, ds, hds, hv⟩
    have hhead := (head_iff hlen hds).mpr (hv ▸ v.isLt)
    rw [if_neg (not_not.mpr hlen), hhead, hds]
    simp [hv]

theorem toUpper_alphabet : ∀ d < 32, (alphabet.getD d '0').toUpper = alphabet.getD d '0' := by decide

theorem toText_upper (v : VersionId) : (toText v).map Char.toUpper = toText v := by
  rw [toText, FixedWidth.text, List.map_map]
  exact List.map_congr_left fun d hd => toUpper_alphabet d (FixedWidth.lt_of_mem_digits (by decide) hd)

theorem fromText_toText (v : VersionId) : fromText (toText v) = some v := fromText_eq_some.mpr (toText_upper v)

theorem parseRecordFileName_recordFileName (v : VersionId) : parseRecordFileName (recordFileName v) = some v := by
  have htake : (recordFileName v).take ((recordFileName v).length - recordSuffix.length) = toText v := by
    rw [recordFileName, List.length_append, Nat.add_sub_cancel, List.take_left]
  have hsuffix : recordSuffix.isSuffixOf (recordFileName v) = true := List.isSuffixOf_iff_suffix.mpr ⟨toText v, rfl⟩
  rw [parseRecordFileName, if_pos hsuffix, htake, fromText_toText]

section Components

variable {a b : KeyHash}

theorem toHex_split (kh : KeyHash) :
    toHex kh = (directoryComponents kh).1 ++ ((directoryComponents kh).2.1 ++ ((toHex kh).drop 2).drop 2) := by
  rw [directoryComponents, List.take_append_drop, List.take_append_drop]

theorem components_length (kh : KeyHash) : (directoryComponents kh).1.length = 2 ∧
    (directoryComponents kh).2.1.length = 2 := by
  have hlen : (toHex kh).length = 64 := FixedWidth.text_length _ _
  simp [directoryComponents, hlen]

theorem lt_of_first (h : (directoryComponents a).1 < (directoryComponents b).1) : a < b := by
  rw [← toHex_strictMono.lt_iff_lt, toHex_split a, toHex_split b]
  exact FixedWidth.append_lt_append (by rw [(components_length a).1, (components_length b).1]) h

theorem lt_of_second (hfirst : (directoryComponents a).1 = (directoryComponents b).1)
    (h : (directoryComponents a).2.1 < (directoryComponents b).2.1) : a < b := by
  rw [← toHex_strictMono.lt_iff_lt, toHex_split a, toHex_split b, hfirst]
  exact FixedWidth.append_lt_append_left (FixedWidth.append_lt_append
    (by rw [(components_length a).2, (components_length b).2]) h)

theorem lt_of_third (h : (directoryComponents a).2.2 < (directoryComponents b).2.2) :
    a < b := toHex_strictMono.lt_iff_lt.mp h

theorem directoryComponents_injective : Function.Injective directoryComponents := fun _ _ h =>
  toHex_strictMono.injective (Prod.mk.inj (Prod.mk.inj h).2).2

/-- The order of paths is the order of the hashes. -/
theorem components_lt_iff : a < b ↔ (directoryComponents a).1 < (directoryComponents b).1 ∨
    (directoryComponents b).1 = (directoryComponents a).1 ∧ ((directoryComponents a).2.1 < (directoryComponents b).2.1 ∨
      (directoryComponents b).2.1 = (directoryComponents a).2.1 ∧
      (directoryComponents a).2.2 < (directoryComponents b).2.2) := by
  constructor
  · intro h
    rcases lt_trichotomy (directoryComponents a).1 (directoryComponents b).1 with h1 | h1 | h1
    · exact Or.inl h1
    · refine Or.inr ⟨h1.symm, ?_⟩
      rcases lt_trichotomy (directoryComponents a).2.1 (directoryComponents b).2.1 with h2 | h2 | h2
      · exact Or.inl h2
      · exact Or.inr ⟨h2.symm, toHex_strictMono h⟩
      · exact absurd h (lt_of_second h1.symm h2).not_gt
    · exact absurd h (lt_of_first h1).not_gt
  · rintro (h1 | ⟨h1, h2 | ⟨-, h3⟩⟩)
    · exact lt_of_first h1
    · exact lt_of_second h1.symm h2
    · exact lt_of_third h3

end Components

/-! ## The tree -/

/-- What lies in a key directory: a file, as reading it as a record gives it, or something that cannot be read. -/
inductive Entry where
  | file (contents : RecordFile)
  | directory

namespace Entry

def isFile : Entry → Bool
  | .file _ => true
  | .directory => false

def read : Entry → Except DeviceError MetadataRecord
  | .file (.ok record) => .ok record
  | .file (.error e) => .error (.record e)
  | .directory => .error (.io .other)

end Entry

abbrev KeyDir := Dir Name Entry

abbrev BucketDir := Dir Name (Dir Name (Dir Name KeyDir))

def BucketDir.HasDir (bucket : BucketDir) (path : Name × Name × Name) (keyDir : KeyDir) : Prop :=
  ∃ first second, (path.1, first) ∈ bucket.entries ∧ (path.2.1, second) ∈ first.entries ∧
    (path.2.2, keyDir) ∈ second.entries

theorem BucketDir.hasDir {bucket : BucketDir} {a b c : Name} {first : Dir Name (Dir Name KeyDir)}
    {second : Dir Name KeyDir} {keyDir : KeyDir} (hfirst : (a, first) ∈ bucket.entries)
    (hsecond : (b, second) ∈ first.entries) (hkey : (c, keyDir) ∈ second.entries) :
    bucket.HasDir (a, b, c) keyDir := ⟨first, second, hfirst, hsecond, hkey⟩

/-- The directories of a device whose record files each lie under their own key hash and version. -/
structure DeviceTree where
  bucket : BucketDir
  filed : ∀ {path keyDir}, bucket.HasDir path keyDir → ∀ {name entry}, (name, entry) ∈ keyDir.entries →
    ∀ {v}, parseRecordFileName name = some v → name = recordFileName v ∧
      ∀ {r}, entry.read = .ok r → r.version = v ∧ directoryComponents r.keyHash = path

/-- Whether a key directory has the shard file that a version's record lists for the device. -/
def KeyDir.shardPresent (d : DeviceId) (keyDir : KeyDir) (v : VersionId) (record : MetadataRecord) : Bool :=
  match record.shardOn d with
  | none => false
  | some index => (keyDir.get (shardFileName v index)).any Entry.isFile

/-- What a walk behind a version finds in one entry of a key directory; a record that cannot be read is skipped. -/
def KeyDir.visitEntry (d : DeviceId) (after : Option VersionId) (keyDir : KeyDir) (e : Name × Entry) :
    Option (MetadataRecord × Bool) :=
  match parseRecordFileName e.1 with
  | none => none
  | some version =>
    if after.any fun c => version ≤ c then none
    else
      match e.2.read with
      | .error _ => none
      | .ok record => some (record, keyDir.shardPresent d version record)

def KeyDir.visit (d : DeviceId) (after : Option VersionId) (keyDir : KeyDir) : List (MetadataRecord × Bool) :=
  keyDir.readSorted.filterMap (keyDir.visitEntry d after)

/-- The walk through the key directories of one second-level directory. -/
def walkKeyDirs (d : DeviceId) (cursor : Option (Name × VersionId)) (second : Dir Name KeyDir) :
    List (MetadataRecord × Bool) :=
  second.walk (fun after _ keyDir => keyDir.visit d after) cursor

def walkSeconds (d : DeviceId) (cursor : Option (Name × Name × VersionId)) (first : Dir Name (Dir Name KeyDir)) :
    List (MetadataRecord × Bool) :=
  first.walk (fun cursor _ second => walkKeyDirs d cursor second) cursor

/-- The records after a cursor in key hash then version order, which is the order the directories are in, each with
whether the device has the shard file the record lists for it. Directories before the cursor are not entered. -/
def walkRecordsFrom (d : DeviceId) (tree : DeviceTree) (after : Option (KeyHash × VersionId)) :
    List (MetadataRecord × Bool) :=
  let cursor := after.map fun (hash, version) =>
    ((directoryComponents hash).1, (directoryComponents hash).2.1, (directoryComponents hash).2.2, version)
  tree.bucket.walk (fun cursor _ first => walkSeconds d cursor first) cursor

variable {d : DeviceId} {tree : DeviceTree}

theorem KeyDir.visitEntry_eq_some {after : Option VersionId} {keyDir : KeyDir} {e : Name × Entry}
    {x : MetadataRecord × Bool} : keyDir.visitEntry d after e = some x ↔ ∃ v, parseRecordFileName e.1 = some v ∧
    (∀ c, after = some c → c < v) ∧
      e.2.read = .ok x.1 ∧ x.2 = keyDir.shardPresent d v x.1 := by
  unfold KeyDir.visitEntry
  cases parseRecordFileName e.1 with
  | none => simp
  | some v =>
    have hafter : (after.any fun c => decide (v ≤ c)) = true ↔ ¬∀ c, after = some c → c < v := by cases after <;> simp
    cases e.2.read with
    | error err => simp
    | ok record =>
      dsimp only
      by_cases hlt : ∀ c, after = some c → c < v
      · rw [if_neg (fun h => hafter.mp h hlt)]
        constructor
        · intro hx
          cases hx
          exact ⟨v, rfl, hlt, rfl, rfl⟩
        · rintro ⟨v', hv, -, hr, hp⟩
          cases hv
          cases hr
          rw [← hp]
      · rw [if_pos (hafter.mpr hlt)]
        constructor
        · intro hx
          cases hx
        · rintro ⟨v', hv, hlt', -⟩
          cases hv
          exact absurd hlt' hlt

theorem KeyDir.mem_visit {after : Option VersionId} {keyDir : KeyDir} {x : MetadataRecord × Bool} :
    x ∈ keyDir.visit d after ↔ ∃ name entry v, (name, entry) ∈ keyDir.entries ∧ parseRecordFileName name = some v ∧
      (∀ c, after = some c → c < v) ∧ entry.read = .ok x.1 ∧ x.2 = keyDir.shardPresent d v x.1 := by
  simp only [KeyDir.visit, List.mem_filterMap, Dir.mem_readSorted, KeyDir.visitEntry_eq_some]
  exact ⟨fun ⟨e, hmem, v, h⟩ => ⟨e.1, e.2, v, hmem, h⟩, fun ⟨name, entry, v, hmem, h⟩ => ⟨(name, entry), hmem, v, h⟩⟩

theorem mem_walk_whole {x : MetadataRecord × Bool} :
    x ∈ walkRecordsFrom d tree none ↔ ∃ path keyDir, tree.bucket.HasDir path keyDir ∧ x ∈ keyDir.visit d none := by
  simp only [walkRecordsFrom, walkSeconds, walkKeyDirs, Option.map_none, Dir.mem_walk_none]
  constructor
  · rintro ⟨a, first, h1, b, second, h2, c, keyDir, h3, hx⟩
    exact ⟨(a, b, c), keyDir, ⟨first, second, h1, h2, h3⟩, hx⟩
  · rintro ⟨⟨a, b, c⟩, keyDir, ⟨first, second, h1, h2, h3⟩, hx⟩
    exact ⟨a, first, h1, b, second, h2, c, keyDir, h3, hx⟩

theorem DeviceTree.visit_filed (tree : DeviceTree) {path : Name × Name × Name} {keyDir : KeyDir}
    (hdir : tree.bucket.HasDir path keyDir) {after : Option VersionId} {x : MetadataRecord × Bool}
    (hx : x ∈ keyDir.visit d after) : directoryComponents x.1.keyHash = path := by
  obtain ⟨name, entry, v, hmem, hparse, -, hread, -⟩ := KeyDir.mem_visit.mp hx
  exact ((tree.filed hdir hmem hparse).2 hread).2

/-- The key directory's records behind a version are those of the whole directory that lie behind it. -/
theorem DeviceTree.visit_some (tree : DeviceTree) {path : Name × Name × Name} {keyDir : KeyDir}
    (hdir : tree.bucket.HasDir path keyDir) (c : VersionId) :
    keyDir.visit d (some c) = (keyDir.visit d none).filter fun x => decide (c < x.1.version) := by
  rw [KeyDir.visit, KeyDir.visit, List.filter_filterMap]
  refine List.filterMap_congr fun e he => Option.ext fun x => ?_
  rw [Option.filter_eq_some_iff, KeyDir.visitEntry_eq_some, KeyDir.visitEntry_eq_some, decide_eq_true_eq]
  have hversion : ∀ v, parseRecordFileName e.1 = some v → e.2.read = .ok x.1 → x.1.version = v := fun v hparse hread =>
    ((tree.filed hdir (Dir.mem_readSorted.mp he) hparse).2 hread).1
  constructor
  · rintro ⟨v, hparse, hafter, hread, hpresent⟩
    exact ⟨⟨v, hparse, (fun _ hc => nomatch hc), hread, hpresent⟩, hversion v hparse hread ▸ hafter c rfl⟩
  · rintro ⟨⟨v, hparse, -, hread, hpresent⟩, hlt⟩
    exact ⟨v, hparse, fun _ hc => Option.some.inj hc ▸ hversion v hparse hread ▸ hlt, hread, hpresent⟩

theorem DeviceTree.visit_sorted (tree : DeviceTree) {path : Name × Name × Name} {keyDir : KeyDir}
    (hdir : tree.bucket.HasDir path keyDir) : (keyDir.visit d none).Pairwise fun x y => x.1.version < y.1.version := by
  have hname : ∀ e ∈ keyDir.readSorted, ∀ x, keyDir.visitEntry d none e = some x →
      e.1 = recordFileName x.1.version := by
    intro e he x hx
    obtain ⟨v, hparse, -, hread, -⟩ := KeyDir.visitEntry_eq_some.mp hx
    obtain ⟨hname, hfiled⟩ := tree.filed hdir (Dir.mem_readSorted.mp he) hparse
    rw [hname, (hfiled hread).1]
  refine List.pairwise_filterMap.mpr ((Dir.readSorted_sorted keyDir).imp_of_mem fun he he' hlt x hx y hy => ?_)
  rw [hname _ he x hx, hname _ he' y hy] at hlt
  exact recordFileName_strictMono.lt_iff_lt.mp hlt

/-! ## The walk -/

def behindCursor (hash : KeyHash) (version : VersionId) (r : MetadataRecord) : Bool :=
  decide (hash < r.keyHash) || (decide (r.keyHash = hash) && decide (version < r.version))

/-- The record lies behind a key directory's name and a version. -/
def behindKeyDir : Name × VersionId → MetadataRecord × Bool → Bool :=
  Dir.behind (fun x => (directoryComponents x.1.keyHash).2.2) fun version x => decide (version < x.1.version)

def behindSecond : Name × Name × VersionId → MetadataRecord × Bool → Bool :=
  Dir.behind (fun x => (directoryComponents x.1.keyHash).2.1) behindKeyDir

def behindFirst : Name × Name × Name × VersionId → MetadataRecord × Bool → Bool :=
  Dir.behind (fun x => (directoryComponents x.1.keyHash).1) behindSecond

theorem behindFirst_eq (hash : KeyHash) (version : VersionId) (x : MetadataRecord × Bool) :
    behindFirst ((directoryComponents hash).1, (directoryComponents hash).2.1, (directoryComponents hash).2.2, version)
    x =
      behindCursor hash version x.1 := by
  rw [Bool.eq_iff_iff]
  simp only [behindFirst, behindSecond, behindKeyDir, Dir.behind_iff, behindCursor, Bool.or_eq_true, Bool.and_eq_true,
    decide_eq_true_eq, components_lt_iff]
  constructor
  · rintro (h1 | ⟨h1, h2 | ⟨h2, h3 | ⟨h3, hv⟩⟩⟩)
    · exact Or.inl (Or.inl h1)
    · exact Or.inl (Or.inr ⟨h1, Or.inl h2⟩)
    · exact Or.inl (Or.inr ⟨h1, Or.inr ⟨h2, h3⟩⟩)
    · exact Or.inr ⟨toHex_strictMono.injective h3, hv⟩
  · rintro ((h1 | ⟨h1, h2 | ⟨h2, h3⟩⟩) | ⟨heq, hv⟩)
    · exact Or.inl h1
    · exact Or.inr ⟨h1, Or.inl h2⟩
    · exact Or.inr ⟨h1, Or.inr ⟨h2, Or.inl h3⟩⟩
    · rw [heq]
      exact Or.inr ⟨rfl, Or.inr ⟨rfl, Or.inr ⟨rfl, hv⟩⟩⟩

theorem behindCursor_of_lt {r r' : MetadataRecord} (h : r.keyHash < r'.keyHash) :
    behindCursor r.keyHash r.version r' = true := by
  simp [behindCursor, h]

section Levels

variable {a b : Name} {first : Dir Name (Dir Name KeyDir)} {second : Dir Name KeyDir}

variable (hfirst : (a, first) ∈ tree.bucket.entries)

include hfirst

theorem mem_walkKeyDirs {x : MetadataRecord × Bool} (hsecond : (b, second) ∈ first.entries)
    (hx : x ∈ walkKeyDirs d none second) : (directoryComponents x.1.keyHash).1 = a ∧
    (directoryComponents x.1.keyHash).2.1 = b := by
  obtain ⟨c, keyDir, hdir, hvisit⟩ := Dir.mem_walk_none.mp hx
  rw [tree.visit_filed (BucketDir.hasDir hfirst hsecond hdir) hvisit]
  exact ⟨rfl, rfl⟩

theorem mem_walkSeconds {x : MetadataRecord × Bool} (hx : x ∈ walkSeconds d none first) :
    (directoryComponents x.1.keyHash).1 = a := by
  obtain ⟨b, second, hsecond, hvisit⟩ := Dir.mem_walk_none.mp hx
  exact (mem_walkKeyDirs hfirst hsecond hvisit).1

theorem walkKeyDirs_some (hsecond : (b, second) ∈ first.entries) (cursor : Name × VersionId) :
    walkKeyDirs d (some cursor) second = (walkKeyDirs d none second).filter (behindKeyDir cursor) := by
  refine Dir.walk_eq_filter (fun c keyDir hkey x hx => ?_) (fun c keyDir hkey version => ?_) cursor
  · rw [tree.visit_filed (BucketDir.hasDir hfirst hsecond hkey) hx]
  · exact tree.visit_some (BucketDir.hasDir hfirst hsecond hkey) version

theorem walkSeconds_some (cursor : Name × Name × VersionId) :
    walkSeconds d (some cursor) first = (walkSeconds d none first).filter (behindSecond cursor) := by
  refine Dir.walk_eq_filter (fun b second hsecond x hx => ?_) (fun b second hsecond rest => ?_) cursor
  · exact (mem_walkKeyDirs hfirst hsecond hx).2
  · exact walkKeyDirs_some hfirst hsecond rest

theorem walkKeyDirs_sorted (hsecond : (b, second) ∈ first.entries) :
    (walkKeyDirs d none second).Pairwise fun x y => behindCursor x.1.keyHash x.1.version y.1 = true := by
  have hpath : ∀ c keyDir, (c, keyDir) ∈ second.entries → ∀ x ∈ keyDir.visit d none,
      directoryComponents x.1.keyHash = (a, b, c) :=
    fun c keyDir hkey x hx => tree.visit_filed (BucketDir.hasDir hfirst hsecond hkey) hx
  refine Dir.walk_pairwise (fun x => (directoryComponents x.1.keyHash).2.2) (fun c keyDir hkey x hx => ?_)
    (fun c keyDir hkey => ?_) fun x _ y _ h => ?_
  · rw [hpath c keyDir hkey x hx]
  · refine (tree.visit_sorted (BucketDir.hasDir hfirst hsecond hkey)).imp_of_mem fun hx hy h => ?_
    have hsame := directoryComponents_injective ((hpath c keyDir hkey _ hx).trans (hpath c keyDir hkey _ hy).symm)
    simp [behindCursor, hsame, h]
  · exact behindCursor_of_lt (lt_of_third h)

theorem walkSeconds_sorted : (walkSeconds d none first).Pairwise fun x y =>
    behindCursor x.1.keyHash x.1.version y.1 = true := by
  refine Dir.walk_pairwise (fun x => (directoryComponents x.1.keyHash).2.1) (fun b second hsecond x hx => ?_)
    (fun b second hsecond => ?_) fun x hx y hy h => ?_
  · exact (mem_walkKeyDirs hfirst hsecond hx).2
  · exact walkKeyDirs_sorted hfirst hsecond
  · exact behindCursor_of_lt (lt_of_second ((mem_walkSeconds hfirst hx).trans (mem_walkSeconds hfirst hy).symm) h)

end Levels

/-- **The walk from a cursor** visits what the whole walk visits behind the cursor. -/
theorem walkRecordsFrom_some (hash : KeyHash) (version : VersionId) :
    walkRecordsFrom d tree (some (hash, version)) = (walkRecordsFrom d tree none).filter fun x =>
    behindCursor hash version x.1 := by
  have hwalk : walkRecordsFrom d tree (some (hash, version)) = (walkRecordsFrom d tree none).filter
      (behindFirst ((directoryComponents hash).1, (directoryComponents hash).2.1,
      (directoryComponents hash).2.2, version)) := by
    unfold walkRecordsFrom
    rw [Option.map_some, Option.map_none]
    refine Dir.walk_eq_filter (fun a first hfirst x hx => ?_) (fun a first hfirst rest => ?_) _
    · exact mem_walkSeconds hfirst hx
    · exact walkSeconds_some hfirst rest
  rw [hwalk]
  exact List.filter_congr fun x _ => behindFirst_eq hash version x

/-- **The records of a walk are in the order of key hash and version.** -/
theorem walkRecordsFrom_sorted : (walkRecordsFrom d tree none).Pairwise fun x y =>
    behindCursor x.1.keyHash x.1.version y.1 = true := by
  unfold walkRecordsFrom
  rw [Option.map_none]
  refine Dir.walk_pairwise (fun x => (directoryComponents x.1.keyHash).1) (fun a first hfirst x hx => ?_)
    (fun a first hfirst => ?_) fun x _ y _ h => ?_
  · exact mem_walkSeconds hfirst hx
  · exact walkSeconds_sorted hfirst
  · exact behindCursor_of_lt (lt_of_first h)

/-! ## Single files -/

def DeviceTree.keyDir (tree : DeviceTree) (kh : KeyHash) : Option KeyDir :=
  ((tree.bucket.get (directoryComponents kh).1).bind fun first =>
    first.get (directoryComponents kh).2.1).bind fun second =>
    second.get (directoryComponents kh).2.2

def DeviceTree.record (tree : DeviceTree) (kh : KeyHash) (v : VersionId) : Option Entry :=
  (tree.keyDir kh).bind fun keyDir => keyDir.get (recordFileName v)

/-- The device has a record that can be read. -/
def DeviceTree.Readable (tree : DeviceTree) (r : MetadataRecord) : Prop :=
  ∃ e, tree.record r.keyHash r.version = some e ∧ e.read = .ok r

theorem DeviceTree.keyDir_eq_some {kh : KeyHash} {keyDir : KeyDir} :
    tree.keyDir kh = some keyDir ↔ tree.bucket.HasDir (directoryComponents kh) keyDir := by
  simp only [DeviceTree.keyDir, Option.bind_eq_some_iff, Dir.get_eq_some, BucketDir.HasDir]
  exact ⟨fun ⟨second, ⟨first, h1, h2⟩, h3⟩ => ⟨first, second, h1, h2, h3⟩, fun ⟨first, second, h1, h2, h3⟩ =>
    ⟨second, ⟨first, h1, h2⟩, h3⟩⟩

/-- **The walk visits exactly the readable records**, each with whether the shard file it lists for the device is
there. -/
theorem mem_walkRecordsFrom {x : MetadataRecord × Bool} : x ∈ walkRecordsFrom d tree none ↔
    ∃ keyDir, tree.keyDir x.1.keyHash = some keyDir ∧ (∃ e, keyDir.get (recordFileName x.1.version) = some e ∧
    e.read = .ok x.1) ∧
      x.2 = keyDir.shardPresent d x.1.version x.1 := by
  simp only [mem_walk_whole, DeviceTree.keyDir_eq_some, KeyDir.mem_visit, Dir.get_eq_some]
  constructor
  · rintro ⟨path, keyDir, hdir, name, entry, v, hmem, hparse, -, hread, hpresent⟩
    obtain ⟨hname, hfiled⟩ := tree.filed hdir hmem hparse
    obtain ⟨rfl, rfl⟩ := hfiled hread
    exact ⟨keyDir, hdir, ⟨entry, hname ▸ hmem, hread⟩, hpresent⟩
  · rintro ⟨keyDir, hdir, ⟨entry, hmem, hread⟩, hpresent⟩
    exact ⟨_, keyDir, hdir, recordFileName x.1.version, entry, x.1.version, hmem, parseRecordFileName_recordFileName _,
      (fun _ hc => nomatch hc), hread, hpresent⟩

theorem walkRecordsFrom_readable {r : MetadataRecord} : r ∈ (walkRecordsFrom d tree none).map Prod.fst ↔
    tree.Readable r := by
  rw [List.mem_map]
  constructor
  · rintro ⟨x, hx, rfl⟩
    obtain ⟨keyDir, hdir, ⟨e, he, hread⟩, -⟩ := mem_walkRecordsFrom.mp hx
    exact ⟨e, by rw [DeviceTree.record, hdir]; exact he, hread⟩
  · rintro ⟨e, he, hread⟩
    obtain ⟨keyDir, hdir, hget⟩ := Option.bind_eq_some_iff.mp he
    exact ⟨(r, keyDir.shardPresent d r.version r), mem_walkRecordsFrom.mpr ⟨keyDir, hdir, ⟨e, hget, hread⟩, rfl⟩, rfl⟩

end Djbod
