import Djbod.Core.Tree
import Djbod.Data.FileSystem

/-!
# Deleting a version, file by file

* `parseShardFileName` : the version and index that a shard file name names;
* `deleteVersion` : the record first, then every shard file, then the key directory if it is empty;
* `deletes_parse`, `not_deletes_temporary` : which names the deletion of a version selects;
* `Purging`, `Spares` : what holds of the device at every moment of a deletion;
* `deleteVersion_only` : a deletion removes the version, record first, and touches nothing else.
-/

namespace Djbod

open Sched FileSys

/-! ## Names -/

/-- A number of eight bits, with or without a plus sign. -/
def parseU8 (text : Name) : Option ℕ :=
  let digits := if text.head? = some '+' then text.tail else text
  if digits = [] ∨ !digits.all Char.isDigit then none
  else
    let n := FixedWidth.value 10 (digits.map fun c => c.toNat - '0'.toNat)
    if n < 256 then some n else none

/-- The version and shard index named by a shard file name, if it is one. -/
def parseShardFileName (name : Name) : Option (VersionId × ℕ) :=
  if shardSuffix.isSuffixOf name then
    let stem := name.take (name.length - shardSuffix.length)
    match stem.span (· ≠ '.') with
    | (_, []) => none
    | (versionText, _ :: indexText) => do
        let version ← fromText versionText
        let index ← parseU8 indexText
        pure (version, index)
  else none

def temporarySuffix : Name := ".tmp".toList

def isShardOf (v : VersionId) (name : Name) : Bool := (toText v ++ ['.']).isPrefixOf name && shardSuffix.isSuffixOf name

def Deletes (v : VersionId) (name : Name) : Prop := name = recordFileName v ∨ isShardOf v name = true

section Names

variable {v w : VersionId} {name : Name}

theorem dot_notMem_toText (v : VersionId) : '.' ∉ toText v := by
  intro h
  obtain ⟨d, hd, heq⟩ := List.mem_map.mp h
  have hlt := FixedWidth.lt_of_mem_digits (by decide) hd
  exact (by decide : ∀ d < 32, alphabet.getD d '0' ≠ '.') d hlt heq

theorem last_of_suffix (suffix : Name) {c : Char} (hc : suffix.getLast? = some c) (h : suffix <:+ name) :
    name.getLast? = some c := by
  obtain ⟨front, rfl⟩ := h
  rw [List.getLast?_append, hc, Option.some_or]

theorem isShardOf_iff : isShardOf v name = true ↔ toText v ++ ['.'] <+: name ∧ shardSuffix <:+ name := by
  rw [isShardOf, Bool.and_eq_true, List.isPrefixOf_iff_prefix, List.isSuffixOf_iff_suffix]

theorem isShardOf_shardFileName (v : VersionId) (index : ℕ) : isShardOf v (shardFileName v index) = true := by
  refine isShardOf_iff.mpr ⟨⟨(toString index).toList ++ shardSuffix, ?_⟩,
    ⟨toText v ++ '.' :: (toString index).toList, rfl⟩⟩
  simp [shardFileName]

theorem not_isShardOf_of_last (suffix : Name) {c : Char} (hc : suffix.getLast? = some c) (hne : c ≠ 'd')
    (h : suffix <:+ name) : ¬isShardOf v name = true := by
  intro hshard
  have hlast := last_of_suffix shardSuffix (c := 'd') rfl (isShardOf_iff.mp hshard).2
  rw [last_of_suffix suffix hc h] at hlast
  exact hne (Option.some.inj hlast)

theorem not_deletes_temporary (h : temporarySuffix <:+ name) : ¬Deletes v name := by
  rintro (rfl | hshard)
  · have hlast := last_of_suffix temporarySuffix (c := 'p') rfl h
    rw [recordFileName, last_of_suffix recordSuffix (c := 'n') rfl ⟨toText v, rfl⟩] at hlast
    cases hlast
  · exact not_isShardOf_of_last temporarySuffix (c := 'p') rfl (by decide) h hshard

theorem takeWhile_dot {text rest : Name} (h : '.' ∉ text) : (text ++ '.' :: rest).takeWhile (· ≠ '.') = text := by
  rw [List.takeWhile_append_of_pos (fun c hc => by simpa using fun heq : c = '.' => h (heq ▸ hc)),
    List.takeWhile_cons_of_neg (by simp), List.append_nil]

theorem parseShardFileName_eq_some {index : ℕ} (h : parseShardFileName name = some (w, index)) :
    ∃ versionText indexText, name = versionText ++ '.' :: (indexText ++ shardSuffix) ∧ '.' ∉ versionText ∧
      fromText versionText = some w ∧ parseU8 indexText = some index := by
  unfold parseShardFileName at h
  split_ifs at h with hsuffix
  obtain ⟨stem, rfl⟩ := List.isSuffixOf_iff_suffix.mp hsuffix
  have hstem : (stem ++ shardSuffix).take ((stem ++ shardSuffix).length - shardSuffix.length) = stem := by
    rw [List.length_append, Nat.add_sub_cancel, List.take_left]
  rw [hstem] at h
  dsimp only at h
  rw [List.span_eq_takeWhile_dropWhile] at h
  have hsplit := List.takeWhile_append_dropWhile (p := fun c => decide (c ≠ '.')) (l := stem)
  cases hrest : stem.dropWhile fun c => decide (c ≠ '.') with
  | nil =>
      rw [hrest] at h
      cases h
  | cons c rest =>
      rw [hrest] at h hsplit
      have hdot : c = '.' := by
        have hhead := List.head?_dropWhile_not (fun c => decide (c ≠ '.')) stem
        rw [hrest] at hhead
        simpa using hhead
      subst hdot
      dsimp only at h
      refine ⟨_, rest, by rw [← List.cons_append, ← List.append_assoc, hsplit], fun hmem => ?_, ?_⟩
      · simpa using List.mem_takeWhile_imp hmem
      · simp only [Option.bind_eq_bind, Option.bind_eq_some_iff, Option.pure_def, Option.some.injEq, Prod.mk.injEq] at h
        obtain ⟨version, hversion, index', hindex, rfl, rfl⟩ := h
        exact ⟨hversion, hindex⟩

/-- A name that is removed and can be read as that of a record or shard file is one of the version. -/
theorem deletes_parse (h : Deletes v name) : (∀ w, parseRecordFileName name = some w → w = v) ∧
    ∀ w index, parseShardFileName name = some (w, index) → w = v := by
  rcases h with rfl | hshard
  · refine ⟨fun w hw => ?_, fun w index hw => ?_⟩
    · rw [parseRecordFileName_recordFileName] at hw
      exact (Option.some.inj hw).symm
    · obtain ⟨versionText, indexText, hname, -⟩ := parseShardFileName_eq_some hw
      have hlast : (recordFileName v).getLast? = some 'd' := last_of_suffix shardSuffix rfl
        ⟨versionText ++ '.' :: indexText, by rw [hname, List.append_assoc, List.cons_append]⟩
      rw [recordFileName, last_of_suffix recordSuffix (c := 'n') rfl ⟨toText v, rfl⟩] at hlast
      cases hlast
  · refine ⟨fun w hw => ?_, fun w index hw => ?_⟩
    · unfold parseRecordFileName at hw
      split_ifs at hw with hsuffix
      exact absurd hshard (not_isShardOf_of_last recordSuffix (c := 'n') rfl (by decide)
        (List.isSuffixOf_iff_suffix.mp hsuffix))
    · obtain ⟨versionText, indexText, hname, hdot, hversion, -⟩ := parseShardFileName_eq_some hw
      obtain ⟨rest, hrest⟩ := (isShardOf_iff.mp hshard).1
      have htext : versionText = toText v := by
        rw [← takeWhile_dot hdot, ← hname, ← hrest, List.append_assoc, List.singleton_append,
          takeWhile_dot (dot_notMem_toText v)]
      rw [htext, fromText_toText] at hversion
      exact (Option.some.inj hversion).symm

end Names

/-! ## Deleting -/

/-- The object directory of a key hash, under the device's bucket. -/
abbrev Path := Name × Name × Name

/-- The files of a device, by the object directory and the name. -/
abbrev DeviceFiles := FileTree Path Name UInt8

namespace Files

/-- Purging what is absent succeeds. -/
def removeIfPresent (dir : Path) (name : Name) : FileProc Path Name Unit := do
  match ← perform (.removeFile dir name) with
  | .ok () => pure ()
  | .error .notFound => pure ()
  | .error e => throw e

/-- Remove the shard files of the version among the names. -/
def removeShards (v : VersionId) (dir : Path) : List Name → FileProc Path Name Unit
  | [] => pure ()
  | name :: names => do
      if isShardOf v name then removeIfPresent dir name
      removeShards v dir names

/-- Remove a version from the device: the record first, then any shard file, then the key directory if it is now
empty. -/
def deleteVersion (kh : KeyHash) (v : VersionId) : FileProc Path Name Unit := do
  let dir := directoryComponents kh
  if !(← perform (.dirExists dir)) then pure ()
  else do
    removeIfPresent dir (recordFileName v)
    match ← perform (.readDir dir) with
    | .error e => throw e
    | .ok names => do
        removeShards v dir names
        match ← perform (.syncDir dir) with
        | .error e => throw e
        | .ok () =>
            match ← perform (.removeDir dir) with
            | .ok () => pure ()
            | .error .notEmpty => pure ()
            | .error e => throw e

end Files

/-- What holds of the device while a version is deleted from the directory. -/
structure Purging (dir : Path) (v : VersionId) (before now : DeviceFiles) : Prop where
  others : ∀ path ≠ dir, now path = before path
  kept : ∀ name, ¬Deletes v name → now.file dir name = before.file dir name
  removed : ∀ name, now.file dir name = before.file dir name ∨ now.file dir name = none
  recordFirst : ∀ name, now.file dir name ≠ before.file dir name → now.file dir (recordFileName v) = none
  absent : before dir = none → now dir = none

namespace Purging

variable {order : ReadOrder Name UInt8} {dir : Path} {v : VersionId} {before now : DeviceFiles}

theorem refl (dir : Path) (v : VersionId) (files : DeviceFiles) : Purging dir v files files where
  others _ _ := rfl
  kept _ _ := rfl
  removed _ := .inl rfl
  recordFirst _ h := absurd rfl h
  absent := id

/-- The removal of a file of the version keeps all this, if the record goes first. -/
theorem removeFile (h : Purging dir v before now) {name : Name} (hname : Deletes v name)
    (hrecord : name = recordFileName v ∨ now.file dir (recordFileName v) = none) :
    Purging dir v before (execFs order (.removeFile dir name) now).2 := by
  have hgone : FileTree.file (execFs order (.removeFile dir name) now).2 dir (recordFileName v) = none := by
    rw [file_removeFile]
    split_ifs with heq
    · rfl
    · exact hrecord.resolve_left fun hn => heq ⟨rfl, hn.symm⟩
  refine ⟨fun path hpath => ?_, fun other hother => ?_, fun other => ?_, fun _ _ => hgone, fun habsent => ?_⟩
  · rw [removeFile_of_ne order now dir path name hpath, h.others path hpath]
  · rw [file_removeFile, if_neg fun heq : dir = dir ∧ other = name => hother (heq.2 ▸ hname), h.kept other hother]
  · rw [file_removeFile]
    split_ifs
    · exact .inr rfl
    · exact h.removed other
  · exact (dir_removeFile order now dir dir name).mpr (h.absent habsent)

theorem removeDir (h : Purging dir v before now) : Purging dir v before (execFs order (.removeDir dir) now).2 where
  others path hpath := by rw [removeDir_of_ne order now dir path hpath, h.others path hpath]
  kept name hname := by rw [file_removeDir, h.kept name hname]
  removed name := by rw [file_removeDir]; exact h.removed name
  recordFirst name hname := by
    rw [file_removeDir] at hname ⊢
    exact h.recordFirst name hname
  absent habsent := by
    rw [dir_removeDir]
    intro name
    rw [FileTree.file, h.absent habsent, Option.bind_none]

end Purging

section Delete

variable {order : ReadOrder Name UInt8} {dir : Path} {v : VersionId} {before now : DeviceFiles}

def NoError (_ : Errno) (_ : DeviceFiles) : Prop := False

theorem meets_removeIfPresent {name : Name} (h : Purging dir v before now) (hname : Deletes v name)
    (hrecord : name = recordFileName v ∨ now.file dir (recordFileName v) = none) :
    Task.Meets (Runs (execFs order)) (Purging dir v before)
      (fun _ files => files = (execFs order (.removeFile dir name) now).2) NoError (Files.removeIfPresent dir name)
      now := by
  unfold Files.removeIfPresent
  refine Task.Meets.bind (meets_perform h (h.removeFile hname hrecord)) ?_
  rintro r files ⟨hr, hfiles⟩ hI
  rcases removeFile_answer order now dir name with heq | heq
  · rw [hr, heq]
    exact Task.meets_pure hI hfiles
  · rw [hr, heq]
    exact Task.meets_pure hI hfiles

/-- What the removal of shard files among the names leaves. -/
structure ShardsRemoved (dir : Path) (v : VersionId) (names : List Name) (now after : DeviceFiles) : Prop where
  file : ∀ name, after.file dir name = if name ∈ names ∧ isShardOf v name = true then none else now.file dir name
  dir : after dir = none ↔ now dir = none

theorem meets_removeShards (h : Purging dir v before now) (hrecord : now.file dir (recordFileName v) = none)
    (names : List Name) : Task.Meets (Runs (execFs order)) (Purging dir v before)
    (fun _ after => ShardsRemoved dir v names now after) NoError
      (Files.removeShards v dir names) now := by
  induction names generalizing now with
  | nil => exact Task.meets_pure h ⟨fun name => by simp, Iff.rfl⟩
  | cons name names ih =>
      unfold Files.removeShards
      by_cases hshard : isShardOf v name = true
      · rw [if_pos hshard]
        refine Task.Meets.bind (meets_removeIfPresent h (.inr hshard) (.inr hrecord)) ?_
        rintro _ files rfl hI
        have hfile := file_removeFile order now dir dir name
        refine Task.Meets.mono (ih hI ?_) (fun _ => id) (fun _ after _ hafter => ⟨fun other => ?_, ?_⟩) fun _ _ _ => id
        · rw [hfile, hrecord, ite_self]
        · rw [hafter.file, hfile]
          by_cases heq : other = name
          · subst heq
            simp [hshard]
          · simp [heq]
        · exact hafter.dir.trans (dir_removeFile order now dir dir name)
      · rw [if_neg hshard]
        refine Task.Meets.mono (ih h hrecord) (fun _ => id)
          (fun _ after _ hafter => ⟨fun other => ?_, hafter.dir⟩) fun _ _ _ => id
        rw [hafter.file]
        by_cases heq : other = name
        · subst heq
          simp [hshard]
        · simp [heq]

/-- What a finished deletion leaves of the directory. -/
structure Gone (dir : Path) (v : VersionId) (after : DeviceFiles) : Prop where
  files : ∀ name, Deletes v name → after.file dir name = none
  dir : after dir = none ↔ ∀ name, after.file dir name = none

theorem meets_deleteVersion (kh : KeyHash) (v : VersionId) (before : DeviceFiles) :
    Task.Meets (Runs (execFs order)) (Purging (directoryComponents kh) v before)
    (fun _ after => Gone (directoryComponents kh) v after)
      NoError (Files.deleteVersion kh v) before := by
  have h := Purging.refl (directoryComponents kh) v before
  unfold Files.deleteVersion
  refine Task.Meets.bind (meets_perform h h) ?_
  rintro _ before ⟨rfl, rfl⟩ h
  cases hdir : before (directoryComponents kh) with
  | none =>
    have hnone : ∀ name, FileTree.file before (directoryComponents kh) name = none := fun name => by
      rw [FileTree.file, hdir, Option.bind_none]
    rw [if_pos (by simp [execFs, hdir])]
    exact Task.meets_pure h ⟨fun name _ => hnone name, iff_of_true hdir hnone⟩
  | some contents =>
    rw [if_neg (by simp [execFs, hdir])]
    refine Task.Meets.bind (meets_removeIfPresent h (.inl rfl) (.inl rfl)) ?_
    rintro _ files rfl h
    generalize hfiles : (execFs order (.removeFile (directoryComponents kh) (recordFileName v)) before).2 = files at h
    have hrecord : files.file (directoryComponents kh) (recordFileName v) = none := by
      rw [← hfiles, file_removeFile, if_pos ⟨rfl, rfl⟩]
    have hsome : files (directoryComponents kh) ≠ none := fun hnone => by
      rw [← hfiles, dir_removeFile, hdir] at hnone
      cases hnone
    obtain ⟨left, hleft⟩ := Option.ne_none_iff_exists'.mp hsome
    refine Task.Meets.bind (meets_perform h (by simpa only [execFs, hleft] using h)) ?_
    rintro r now ⟨rfl, hnow⟩ _
    simp only [execFs, hleft] at hnow ⊢
    subst hnow
    refine Task.Meets.bind (meets_removeShards h hrecord _) ?_
    rintro _ files' hshards h
    have hsome' : files' (directoryComponents kh) ≠ none := fun hnone => hsome (hshards.dir.mp hnone)
    obtain ⟨left', hleft'⟩ := Option.ne_none_iff_exists'.mp hsome'
    have hgone : ∀ name, Deletes v name → files'.file (directoryComponents kh) name = none := by
      rintro name (rfl | hshard)
      · rw [hshards.file, hrecord, ite_self]
      · rw [hshards.file]
        split_ifs with hmem
        · rfl
        · -- A name that was not read was not there.
          rw [FileTree.file, hleft, Option.bind_some, Dir.get_eq_none, ← (order.perm left).mem_iff]
          exact fun hname => hmem ⟨hname, hshard⟩
    refine Task.Meets.bind (meets_perform h h) ?_
    rintro _ files' ⟨rfl, rfl⟩ _
    simp only [execFs, hleft', Option.isSome_some, if_true]
    refine Task.Meets.bind (meets_perform h h.removeDir) ?_
    rintro r after ⟨hr, rfl⟩ hI
    have hend : Gone (directoryComponents kh) v (execFs order (.removeDir (directoryComponents kh)) files').2 := by
      refine ⟨fun name hname => ?_, ?_⟩
      · rw [file_removeDir, hgone name hname]
      · rw [dir_removeDir]
        simp only [file_removeDir]
    rcases removeDir_answer order files' (directoryComponents kh) hsome' with heq | heq
    · rw [hr, heq]
      exact Task.meets_pure hI hend
    · rw [hr, heq]
      exact Task.meets_pure hI hend

theorem eval_deleteVersion (order : ReadOrder Name UInt8) (before : DeviceFiles) (kh : KeyHash) (v : VersionId) :
    ∃ after, (Files.deleteVersion kh v).run.eval (execFs order) before = (.ok (), after) ∧
      Purging (directoryComponents kh) v before after ∧ Gone (directoryComponents kh) v after := by
  have h : Task.Meets (Runs (execFs order)) (Purging (directoryComponents kh) v before)
      (fun _ after => Purging (directoryComponents kh) v before after ∧ Gone (directoryComponents kh) v after) NoError
      (Files.deleteVersion kh v) before :=
    (meets_deleteVersion kh v before).mono (fun _ => id) (fun _ _ => And.intro) fun _ _ _ => id
  have hout := Task.Wp.eval h
  rcases heval : (Files.deleteVersion kh v).run.eval (execFs order) before with ⟨_ | _, after⟩
  · rw [heval] at hout
    exact hout.elim
  · rw [heval] at hout
    exact ⟨after, rfl, hout⟩

end Delete

/-- What the deletion of a version leaves as it was, at a moment of it: the other keys, the temporary files and the
files of other versions; the record is the first to go, and the directory goes only if nothing remains in it. -/
structure Spares (kh : KeyHash) (v : VersionId) (before now : DeviceFiles) : Prop where
  keys : ∀ kh' ≠ kh, now (directoryComponents kh') = before (directoryComponents kh')
  temporary : ∀ name, temporarySuffix <:+ name → now.file (directoryComponents kh) name =
    before.file (directoryComponents kh) name
  versions : ∀ w ≠ v, ∀ name, (parseRecordFileName name = some w ∨ ∃ index, parseShardFileName name = some (w, index)) →
    now.file (directoryComponents kh) name = before.file (directoryComponents kh) name
  recordFirst : ∀ name, now.file (directoryComponents kh) name ≠ before.file (directoryComponents kh) name →
    now.file (directoryComponents kh) (recordFileName v) = none
  dir : now (directoryComponents kh) = none → before (directoryComponents kh) = none ∨
    ∀ name, ¬Deletes v name → before.file (directoryComponents kh) name = none

theorem Purging.spares {kh : KeyHash} {v : VersionId} {before now : DeviceFiles}
    (h : Purging (directoryComponents kh) v before now) : Spares kh v before now where
  keys kh' hne := h.others _ fun heq => hne (directoryComponents_injective heq)
  temporary name hname := h.kept name (not_deletes_temporary hname)
  versions w hne name hname := h.kept name fun hdel =>
    hname.elim (fun hw => hne ((deletes_parse hdel).1 w hw)) fun ⟨index, hw⟩ => hne ((deletes_parse hdel).2 w index hw)
  recordFirst := h.recordFirst
  dir hnone := .inr fun name hname => by rw [← h.kept name hname, FileTree.file, hnone, Option.bind_none]

/-- **Deleting a version touches nothing else.** It ends without an error, with the record and the shard files of every
index gone, and the directory too if it is empty; at every moment of it all else is as it was and the record is gone if
anything is. It may be repeated. -/
theorem deleteVersion_only (order : ReadOrder Name UInt8) (before : DeviceFiles) (kh : KeyHash) (v : VersionId) :
    (∀ n, Spares kh v before ((Files.deleteVersion kh v).run.stop (execFs order) n before)) ∧
    ∃ after, (Files.deleteVersion kh v).run.eval (execFs order) before = (.ok (), after) ∧ Spares kh v before after ∧
      after.file (directoryComponents kh) (recordFileName v) = none ∧
      (∀ index, after.file (directoryComponents kh) (shardFileName v index) = none) ∧
      ((∀ name, after.file (directoryComponents kh) name = none) → after (directoryComponents kh) = none) ∧
      ∃ again, (Files.deleteVersion kh v).run.eval (execFs order) after = (.ok (), again) ∧
        ∀ path name, again.file path name = after.file path name := by
  refine ⟨fun n => (Task.Wp.stop (meets_deleteVersion kh v before) n).spares, ?_⟩
  obtain ⟨after, heval, hpurging, hgone⟩ := eval_deleteVersion order before kh v
  obtain ⟨again, hagain, hpurging', hgone'⟩ := eval_deleteVersion order after kh v
  refine ⟨after, heval, hpurging.spares, hgone.files _ (.inl rfl), fun index =>
    hgone.files _ (.inr (isShardOf_shardFileName v index)), hgone.dir.mpr, again, hagain, fun path name => ?_⟩
  by_cases hpath : path = directoryComponents kh
  · subst hpath
    by_cases hname : Deletes v name
    · rw [hgone.files name hname, hgone'.files name hname]
    · exact hpurging'.kept name hname
  · rw [FileTree.file, FileTree.file, hpurging'.others path hpath]

end Djbod
