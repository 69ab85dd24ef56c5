import Djbod.Data.Directory
import Djbod.Sched.Wp

/-!
# Files in directories

A generic library of programs that work on files, one operation of the file system at a time.

* `FileTree` : the directories that exist, each with its files; `FileTree.file` is the contents of one;
* `FsOp`, `execFs` : operations on them. The order in which the names of a directory are read is a parameter;
* `file_removeFile`, `file_removeDir`, … : what an operation leaves of every file;
* `FileProc` : programs over these operations; `meets_perform` is their rule.
-/

namespace FileSys

open Sched

inductive Errno where
  | notFound
  | notEmpty
deriving DecidableEq

variable {δ ν ω : Type} [DecidableEq δ] [LinearOrder ν]

/-- The directories that exist, with the contents of their files. -/
abbrev FileTree (δ ν ω : Type) := δ → Option (Dir ν (List ω))

def FileTree.file (tree : FileTree δ ν ω) (d : δ) (name : ν) : Option (List ω) := (tree d).bind fun dir => dir.get name

inductive FsOp (δ ν : Type) where
  | dirExists (d : δ)
  | readDir (d : δ)
  | removeFile (d : δ) (name : ν)
  | removeDir (d : δ)
  | syncDir (d : δ)

@[reducible] def FsResp : FsOp δ ν → Type
  | .dirExists _ => Bool
  | .readDir _ => Except Errno (List ν)
  | .removeFile _ _ => Except Errno Unit
  | .removeDir _ => Except Errno Unit
  | .syncDir _ => Except Errno Unit

/-- The order in which the names of a directory are read. -/
structure ReadOrder (ν ω : Type) where
  names : Dir ν (List ω) → List ν
  perm : ∀ dir, (names dir).Perm (dir.entries.map Prod.fst)

def execFs (order : ReadOrder ν ω) : (o : FsOp δ ν) → FileTree δ ν ω → FsResp o × FileTree δ ν ω
  | .dirExists d, tree => ((tree d).isSome, tree)
  | .readDir d, tree =>
      match tree d with
      | none => (.error .notFound, tree)
      | some dir => (.ok (order.names dir), tree)
  | .removeFile d name, tree =>
      match tree d with
      | none => (.error .notFound, tree)
      | some dir =>
          if (dir.get name).isNone then (.error .notFound, tree)
          else (.ok (), Function.update tree d (some (dir.erase name)))
  | .removeDir d, tree =>
      match tree d with
      | none => (.error .notFound, tree)
      | some dir => if dir.entries = [] then (.ok (), Function.update tree d none) else (.error .notEmpty, tree)
  | .syncDir d, tree => (if (tree d).isSome then .ok () else .error .notFound, tree)

section Exec

variable (order : ReadOrder ν ω) (tree : FileTree δ ν ω) (d d' : δ) (name name' : ν)

theorem file_update (dir : Option (Dir ν (List ω))) :
    FileTree.file (Function.update tree d dir) d' name' = if d' = d then dir.bind fun dir =>
    dir.get name' else tree.file d' name' := by
  unfold FileTree.file
  split_ifs with h
  · rw [h, Function.update_self]
  · rw [Function.update_of_ne h]

theorem file_removeFile : (execFs order (.removeFile d name) tree).2.file d' name' =
    if d' = d ∧ name' = name then none else tree.file d' name' := by
  cases hd : tree d with
  | none =>
      have hsame : (execFs order (.removeFile d name) tree).2 = tree := by simp only [execFs, hd]
      rw [hsame]
      split_ifs with h
      · rw [h.1, FileTree.file, hd, Option.bind_none]
      · rfl
  | some dir =>
      have hfile : tree.file d name' = dir.get name' := by rw [FileTree.file, hd, Option.bind_some]
      by_cases hname : (dir.get name).isNone = true
      · have hsame : (execFs order (.removeFile d name) tree).2 = tree := by simp only [execFs, hd, if_pos hname]
        rw [hsame]
        split_ifs with h
        · rw [h.1, h.2] at *
          rw [FileTree.file, hd, Option.bind_some]
          exact Option.isNone_iff_eq_none.mp hname
        · rfl
      · have hnew : (execFs order (.removeFile d name) tree).2 = Function.update tree d (some (dir.erase name)) := by
          simp only [execFs, hd, if_neg hname]
        rw [hnew, file_update, Option.bind_some, Dir.get_erase]
        by_cases h : d' = d
        · rw [if_pos h, h, hfile]
          simp only [true_and]
        · rw [if_neg h, if_neg fun hand => h hand.1]

theorem dir_removeFile : (execFs order (.removeFile d name) tree).2 d' = none ↔ tree d' = none := by
  cases hd : tree d with
  | none => simp only [execFs, hd]
  | some dir =>
      by_cases hname : (dir.get name).isNone = true
      · simp only [execFs, hd, if_pos hname]
      · simp only [execFs, hd, if_neg hname]
        by_cases h : d' = d
        · rw [h, Function.update_self, hd]
          simp only [reduceCtorEq]
        · rw [Function.update_of_ne h]

theorem removeFile_of_ne (h : d' ≠ d) : (execFs order (.removeFile d name) tree).2 d' = tree d' := by
  cases hd : tree d with
  | none => simp only [execFs, hd]
  | some dir =>
      by_cases hname : (dir.get name).isNone = true
      · simp only [execFs, hd, if_pos hname]
      · simp only [execFs, hd, if_neg hname]
        exact Function.update_of_ne h _ _

theorem removeFile_answer : (execFs order (.removeFile d name) tree).1 = .ok () ∨
    (execFs order (.removeFile d name) tree).1 = .error .notFound := by
  cases hd : tree d with
  | none => exact .inr (by simp only [execFs, hd])
  | some dir =>
      by_cases hname : (dir.get name).isNone = true
      · exact .inr (by simp only [execFs, hd, if_pos hname])
      · exact .inl (by simp only [execFs, hd, if_neg hname])

theorem removeDir_of_ne (h : d' ≠ d) : (execFs order (.removeDir d) tree).2 d' = tree d' := by
  cases hd : tree d with
  | none => simp only [execFs, hd]
  | some dir =>
      by_cases hempty : dir.entries = []
      · simp only [execFs, hd, if_pos hempty]
        exact Function.update_of_ne h _ _
      · simp only [execFs, hd, if_neg hempty]

/-- Removing a directory that exists is refused only because it is not empty. -/
theorem removeDir_answer (h : tree d ≠ none) :
    (execFs order (.removeDir d) tree).1 = .ok () ∨ (execFs order (.removeDir d) tree).1 = .error .notEmpty := by
  obtain ⟨dir, hd⟩ := Option.ne_none_iff_exists'.mp h
  by_cases hempty : dir.entries = []
  · exact .inl (by simp only [execFs, hd, if_pos hempty])
  · exact .inr (by simp only [execFs, hd, if_neg hempty])

/-- Removing a directory removes no file: it has to be empty. -/
theorem file_removeDir : (execFs order (.removeDir d) tree).2.file d' name' = tree.file d' name' := by
  cases hd : tree d with
  | none => simp only [execFs, hd]
  | some dir =>
      by_cases hempty : dir.entries = []
      · simp only [execFs, hd, if_pos hempty]
        rw [file_update]
        split_ifs with h
        · have hnone : dir.get name' = none := Dir.get_eq_none.mpr (by rw [hempty]; exact List.not_mem_nil)
          rw [h, FileTree.file, hd, Option.bind_some, hnone, Option.bind_none]
        · rfl
      · simp only [execFs, hd, if_neg hempty]

theorem dir_removeDir : (execFs order (.removeDir d) tree).2 d = none ↔ ∀ name, tree.file d name = none := by
  cases hd : tree d with
  | none => simp only [execFs, FileTree.file, hd, Option.bind_none, implies_true]
  | some dir =>
      have hiff : (∀ name, tree.file d name = none) ↔ dir.entries = [] := by
        simp only [FileTree.file, hd, Option.bind_some, Dir.get_eq_none]
        refine ⟨fun h => ?_, fun h name => by rw [h]; exact List.not_mem_nil⟩
        exact List.map_eq_nil_iff.mp (List.eq_nil_iff_forall_not_mem.mpr h)
      rw [hiff]
      by_cases hempty : dir.entries = []
      · simp [execFs, hd, hempty]
      · simp [execFs, hd, hempty]

end Exec

/-! ## Programs -/

/-- Programs over the operations, which fail with an error of the file system. -/
abbrev FileProc (δ ν : Type) := ExceptT Errno (Task (FsOp δ ν) FsResp)

def perform (o : FsOp δ ν) : FileProc δ ν (FsResp o) := ExceptT.lift (Task.perform o)

section Rules

variable {order : ReadOrder ν ω} {tree : FileTree δ ν ω} {I : FileTree δ ν ω → Prop}

theorem meets_perform {o : FsOp δ ν} {E : Errno → FileTree δ ν ω → Prop} (hI : I tree)
    (hI' : I (execFs order o tree).2) : Task.Meets (Runs (execFs order)) I (fun r after => r = (execFs order o tree).1 ∧
    after = (execFs order o tree).2) E (perform o) tree :=
  Task.Meets.lift (Task.wp_perform hI fun r after hx => by
    obtain ⟨rfl, rfl⟩ := Prod.mk.inj hx
    exact ⟨hI', rfl, rfl⟩)

end Rules

end FileSys
