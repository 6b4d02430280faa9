import Aof.Lib.PosixPath

/-!
# Filesystem references

The resolver of file references (`context/resolvers.ts`).  Reading a file is a parameter; the cause
of an error is left out.
-/

namespace Aof

open PosixPath (Text)

structure FilesystemResolver where
  baseDir : Text

namespace FilesystemResolver

def new (baseDir : Text) : FilesystemResolver := ⟨PosixPath.normalize baseDir⟩

def canResolve (resolver : FilesystemResolver) (ref : Text) : Bool :=
  if ref = [] || PosixPath.isAbsolute ref then false
  else
    let normalized := PosixPath.normalize (PosixPath.join resolver.baseDir ref)
    resolver.baseDir.isPrefixOf normalized

def fullPath (resolver : FilesystemResolver) (ref : Text) : Text :=
  PosixPath.join resolver.baseDir ref

def resolve (resolver : FilesystemResolver) (readFile : Text → Option Text) (ref : Text) :
    Except Text Text :=
  if !resolver.canResolve ref then
    .error ("Cannot resolve reference outside base directory: ".toList ++ ref)
  else
    match readFile (resolver.fullPath ref) with
    | some content => .ok content
    | none => .error ("Failed to read file: ".toList ++ ref)

end FilesystemResolver

end Aof

/-!
## Where a file reference leads

The guard compares texts.  It lets a reference out of the base directory in two cases: to an entry
beside the base whose name continues the name of the base, and further up from a base that is only
steps up.
-/

namespace Aof

open PosixPath

namespace FilesystemResolver

def target (baseDir ref : PosixPath.Text) : Place := (placeOf baseDir).walk (ref.splitOn '/')

variable (baseDir : PosixPath.Text) {ref : PosixPath.Text}

theorem fullPath_eq (href : ref ≠ []) : placeOf ((new baseDir).fullPath ref) = target baseDir ref ∧
      normalize ((new baseDir).fullPath ref) = (new baseDir).fullPath ref := by
  have hjoin : (new baseDir).fullPath ref = normalize (normalize baseDir ++ '/' :: ref) :=
    join_eq (normalize_ne_nil baseDir) href
  constructor
  · rw [hjoin, placeOf_normalize, placeOf_append (normalize_ne_nil baseDir), placeOf_normalize,
      target]
  · rw [hjoin, normalize_normalize]

theorem canResolve_iff (href : ref ≠ []) (hrelative : PosixPath.isAbsolute ref = false) :
    (new baseDir).canResolve ref = true ↔ (placeOf baseDir).text (hasTrailingSeparator baseDir) <+:
        (target baseDir ref).text (hasTrailingSeparator ((new baseDir).fullPath ref)) := by
  obtain ⟨hplace, hnormal⟩ := fullPath_eq baseDir href
  have hguard : (decide (ref = []) || PosixPath.isAbsolute ref) = false := by
    rw [hrelative, decide_eq_false href]
    rfl
  have htext : (target baseDir ref).text
      (hasTrailingSeparator ((new baseDir).fullPath ref)) = (new baseDir).fullPath ref := by
    rw [← hplace, ← normalize_eq, hnormal]
  rw [canResolve, hguard, htext, ← normalize_eq, ← List.isPrefixOf_iff_prefix]
  change (new baseDir).baseDir.isPrefixOf (normalize ((new baseDir).fullPath ref)) = true ↔ _
  rw [hnormal]
  rfl

/-- The file that is read lies within the base directory, if the guard lets the reference pass,
exactly if the reference is empty or absolute or leads to none of the two places outside. -/
theorem canResolve_within_iff (baseDir ref : PosixPath.Text) :
    ((new baseDir).canResolve ref = true →
      (placeOf baseDir).Within (placeOf ((new baseDir).fullPath ref))) ↔
    (ref = [] ∨ PosixPath.isAbsolute ref = true) ∨ ¬(hasTrailingSeparator baseDir = false ∧
        (placeOf baseDir).BesideLonger (target baseDir ref)) ∧
      ¬(placeOf baseDir).AboveUnnamed (target baseDir ref) (hasTrailingSeparator baseDir) := by
  by_cases hguard : ref = [] ∨ PosixPath.isAbsolute ref = true
  · have hrejected : (new baseDir).canResolve ref = false := by
      rw [canResolve, if_pos]
      simpa using hguard
    rw [hrejected]
    exact iff_of_true (fun h => absurd h Bool.false_ne_true) (Or.inl hguard)
  · rw [or_iff_right hguard, ← not_or]
    rw [not_or, Bool.not_eq_true] at hguard
    have hsegments : ∀ segment ∈ ref.splitOn '/', '/' ∉ segment :=
      fun segment hsegment => LineText.not_mem_of_mem_splitOn hsegment
    have hbase := valid_placeOf baseDir
    have hplace : (target baseDir ref).Valid := hbase.walk hsegments
    obtain ⟨hroot, hups⟩ := (placeOf baseDir).walk_frame (ref.splitOn '/')
    rw [← Place.text_prefix_outside_iff hbase hplace hroot hups _
      (hasTrailingSeparator ((new baseDir).fullPath ref)),
      ← canResolve_iff baseDir hguard.1 hguard.2, (fullPath_eq baseDir hguard.1).1, not_and, not_not]

/-- The notes of another task, whose id continues the id of this one, are read. -/
theorem sibling_read :
    let resolver := new "/data/tasks/TASK-1".toList
    let ref := "../TASK-10/notes.md".toList
    resolver.canResolve ref = true ∧
      ¬(placeOf "/data/tasks/TASK-1".toList).Within (placeOf (resolver.fullPath ref)) ∧
      resolver.fullPath ref = "/data/tasks/TASK-10/notes.md".toList := by
  refine ⟨by decide +kernel, fun hwithin => ?_, by decide +kernel⟩
  have hprefix := List.isPrefixOf_iff_prefix.mpr hwithin.names
  exact absurd hprefix (by decide +kernel)

end FilesystemResolver

end Aof
