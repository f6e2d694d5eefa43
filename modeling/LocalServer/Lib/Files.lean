import Mathlib

/-! Regular files, and what `open`, `read` and `write` do with them. Paths that lead
to the same place name the same file. A descriptor knows its place and its offset;
a file only changes by a truncation or by a write to its own place. -/
namespace LocalServer.Files

inductive OpenFlag where
  | creat | excl | wronly | trunc | append
  deriving DecidableEq

/-- The files that exist, with their content, and where the paths lead. -/
structure FileSystem (Path Place Char : Type*) where
  resolve : Path → Place
  files : Place → Option (List Char)

/-- An open file. -/
structure Descriptor (Place : Type*) where
  place : Place
  offset : Nat
  append : Bool
  deriving DecidableEq

/-- A content with one element put at an offset, behind a gap if it ends before. -/
def put {Char : Type*} [Inhabited Char] (content : List Char) (offset : Nat) (c : Char) : List Char :=
  content.takeD offset default ++ c :: content.drop (offset + 1)

theorem put_length {Char : Type*} [Inhabited Char] (content : List Char) (c : Char) :
    put content content.length c = content ++ [c] := by
  have whole : content.takeD content.length default = content := by
    rw [List.takeD_eq_take _ (Nat.le_refl _), List.take_length]
  rw [put, whole, List.drop_of_length_le (Nat.le_succ _)]

namespace FileSystem

variable {Path Place Char : Type*} [DecidableEq Place]

/-- The file a path leads to. -/
def file (fs : FileSystem Path Place Char) (path : Path) : Option (List Char) :=
  fs.files (fs.resolve path)

def set (fs : FileSystem Path Place Char) (place : Place) (content : List Char) :
    FileSystem Path Place Char :=
  { fs with files := Function.update fs.files place (some content) }

/-- `open`, where nothing but the flags and the existence of the file decide. -/
def openFile (fs : FileSystem Path Place Char) (path : Path) (flags : List OpenFlag) :
    Option (FileSystem Path Place Char × Descriptor Place) :=
  let place := fs.resolve path
  let opened := ⟨place, 0, .append ∈ flags⟩
  match fs.files place with
  | none => if .creat ∈ flags then some (fs.set place [], opened) else none
  | some _ =>
    if .creat ∈ flags ∧ .excl ∈ flags then none
    else some (if .trunc ∈ flags then fs.set place [] else fs, opened)

/-- `read` of one element: nothing at the end of the file. -/
def read (fs : FileSystem Path Place Char) (fd : Descriptor Place) :
    Option (Char × Descriptor Place) :=
  ((fs.files fd.place).bind fun content => content[fd.offset]?).map fun c =>
    (c, { fd with offset := fd.offset + 1 })

/-- `write` of one element, with `O_APPEND` at the end of the file. -/
def write [Inhabited Char] (fs : FileSystem Path Place Char) (fd : Descriptor Place) (c : Char) :
    FileSystem Path Place Char × Descriptor Place :=
  let content := (fs.files fd.place).getD []
  let offset := if fd.append then content.length else fd.offset
  (fs.set fd.place (put content offset c), { fd with offset := offset + 1 })

variable {fs fs' : FileSystem Path Place Char} {fd fd' : Descriptor Place} {path : Path}
  {place : Place} {flags : List OpenFlag} {content : List Char} {c : Char}

@[simp] theorem set_resolve : (fs.set place content).resolve = fs.resolve := rfl

@[simp] theorem set_self : (fs.set place content).files place = some content :=
  Function.update_self ..

theorem set_of_ne {other : Place} (apart : other ≠ place) :
    (fs.set place content).files other = fs.files other :=
  Function.update_of_ne apart ..

/-- A file that is opened stands at the place its path leads to, and it is the only
one that can be created or truncated. -/
theorem openFile_spec (opened : fs.openFile path flags = some (fs', fd)) :
    fd = ⟨fs.resolve path, 0, .append ∈ flags⟩ ∧ fs'.resolve = fs.resolve ∧
      (∀ place, place ≠ fs.resolve path → fs'.files place = fs.files place) ∧
      fs'.files (fs.resolve path) =
        some (if .trunc ∈ flags then [] else (fs.files (fs.resolve path)).getD []) := by
  unfold openFile at opened
  cases there : fs.files (fs.resolve path) with
  | none =>
    simp only [there, Option.ite_none_right_eq_some, Option.some.injEq, Prod.mk.injEq] at opened
    obtain ⟨-, rfl, rfl⟩ := opened
    refine ⟨rfl, rfl, fun place apart => set_of_ne apart, ?_⟩
    rw [set_self, Option.getD_none, ite_self]
  | some content =>
    simp only [there, Option.ite_none_left_eq_some, Option.some.injEq, Prod.mk.injEq] at opened
    obtain ⟨-, rfl, rfl⟩ := opened
    rw [Option.getD_some]
    by_cases truncates : OpenFlag.trunc ∈ flags
    · rw [if_pos truncates, if_pos truncates]
      exact ⟨rfl, rfl, fun place apart => set_of_ne apart, set_self⟩
    · rw [if_neg truncates, if_neg truncates]
      exact ⟨rfl, rfl, fun place apart => rfl, there⟩

/-- A file is opened unless it should be new and is not, or is not there and should
not be created. -/
theorem openFile_isSome : (fs.openFile path flags).isSome ↔
    if (fs.file path).isSome then ¬ (.creat ∈ flags ∧ .excl ∈ flags) else .creat ∈ flags := by
  unfold openFile file
  cases there : fs.files (fs.resolve path) with
  | none => by_cases creates : OpenFlag.creat ∈ flags <;> simp [there, creates]
  | some content =>
    by_cases new : OpenFlag.creat ∈ flags ∧ OpenFlag.excl ∈ flags <;> simp [there, new]

variable [Inhabited Char]

@[simp] theorem write_resolve : (fs.write fd c).1.resolve = fs.resolve := rfl

theorem write_of_ne (apart : place ≠ fd.place) : (fs.write fd c).1.files place = fs.files place :=
  set_of_ne apart

/-- A write at the end of the file. -/
theorem write_at_end (there : fs.files fd.place = some content)
    (atEnd : fd.append = true ∨ fd.offset = content.length) :
    fs.write fd c =
      (fs.set fd.place (content ++ [c]), { fd with offset := (content ++ [c]).length }) := by
  have offset : (if fd.append then content.length else fd.offset) = content.length := by
    rcases atEnd with appends | same
    · rw [if_pos appends]
    · rw [same, ite_self]
  simp only [write, there, Option.getD_some, offset, put_length, List.length_append,
    List.length_singleton]

end FileSystem

end LocalServer.Files
