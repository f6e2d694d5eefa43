import Mathlib

/-! The descriptors of a process. A file that is opened gets the lowest number that is
free, so that a number that was closed comes back with the next file. -/
namespace LocalServer.Descriptors

variable {F : Type*}

/-- Where the numbers lead. -/
abbrev Table (F : Type*) := Nat → Option F

def lowest (limit : Nat) (table : Table F) : Option Nat := (List.range limit).find? fun fd => (table fd).isNone

def openFile (limit : Nat) (table : Table F) (file : F) : Option (Nat × Table F) :=
  (lowest limit table).map fun fd => (fd, Function.update table fd (some file))

def close (table : Table F) (fd : Nat) : Table F := Function.update table fd none

def dup2 (limit : Nat) (table : Table F) (old new : Nat) : Option (Table F) :=
  if (table old).isSome ∧ new < limit then some (Function.update table new (table old)) else none

/-- The loop that closes all numbers below the limit. -/
def closeAll (limit : Nat) (table : Table F) : Table F := (List.range limit).foldl close table

/-- The first numbers lead to a file, and the others nowhere. -/
def firsts (file : F) (n : Nat) : Table F := fun fd => if fd < n then some file else none

variable {limit n fd : Nat} {table : Table F} {file other : F}

theorem firsts_of_lt (small : fd < n) : firsts file n fd = some file := if_pos small

theorem firsts_of_le (large : n ≤ fd) : firsts file n fd = none := if_neg (Nat.not_lt.mpr large)

theorem closeAll_eq (inside : ∀ fd, limit ≤ fd → table fd = none) : closeAll limit table = firsts file 0 := by
  have closed (fds : List Nat) (fd : Nat) :
      fds.foldl close table fd = if fd ∈ fds then none else table fd := by
    induction fds using List.reverseRecOn with
    | nil => simp
    | append_singleton fds last ih =>
      rw [List.foldl_append, List.foldl_cons, List.foldl_nil, close]
      by_cases same : fd = last
      · rw [same, Function.update_self, if_pos (by simp)]
      · rw [Function.update_of_ne same, ih]
        simp [same]
  funext fd
  rw [closeAll, closed, firsts_of_le (Nat.zero_le fd)]
  split
  · rfl
  · next outside => exact inside fd (by simpa using outside)

theorem lowest_firsts (room : n < limit) : lowest limit (firsts file n) = some n := by
  rw [lowest, List.find?_range_eq_some]
  refine ⟨by rw [firsts_of_le (Nat.le_refl n)]; rfl, List.mem_range.mpr room, fun fd small => ?_⟩
  rw [firsts_of_lt small]
  rfl

theorem openFile_firsts (room : n < limit) :
    openFile limit (firsts file n) other = some (n, Function.update (firsts file n) n (some other)) := by
  rw [openFile, lowest_firsts room, Option.map_some]

/-- The next number leads to the file too. -/
theorem update_firsts : Function.update (firsts file n) n (some file) = firsts file (n + 1) := by
  funext fd
  rcases lt_trichotomy fd n with small | rfl | large
  · rw [Function.update_of_ne small.ne, firsts_of_lt small, firsts_of_lt (Nat.lt_succ_of_lt small)]
  · rw [Function.update_self, firsts_of_lt (Nat.lt_succ_self fd)]
  · rw [Function.update_of_ne large.ne', firsts_of_le large.le, firsts_of_le large]

/-- A number that leads to the file already, or the next one. -/
theorem dup2_firsts {old new : Nat} (known : old < n) (next : new ≤ n) (room : new < limit) :
    dup2 limit (firsts file n) old new = some (firsts file (max n (new + 1))) := by
  rw [dup2, firsts_of_lt known, if_pos ⟨rfl, room⟩]
  rcases Nat.lt_or_eq_of_le next with small | rfl
  · rw [Nat.max_eq_left small, Function.update_eq_self_iff.mpr (firsts_of_lt small).symm]
  · rw [update_firsts, Nat.max_eq_right (Nat.le_succ new)]

end LocalServer.Descriptors
