import Mathlib

/-! Objects at addresses, and the paths of links between them. A singly linked
list is a path whose cells are distinct; changing a link in the middle moves the
end of the path before it and leaves the cells after it alone. -/
namespace LocalServer.LinkedList

abbrev Addr := Nat

/-- The live objects of one type, by address. -/
def Heap (α : Type*) := Addr → Option α

namespace Heap

variable {α : Type*} {heap : Heap α} {addr other : Addr} {object : α}

/-- Nothing is allocated. -/
def empty : Heap α := fun _ => none

def write (heap : Heap α) (addr : Addr) (object : α) : Heap α :=
  Function.update heap addr (some object)

def free (heap : Heap α) (addr : Addr) : Heap α := Function.update heap addr none

@[simp] theorem write_self : heap.write addr object addr = some object :=
  Function.update_self ..

theorem write_of_ne (apart : other ≠ addr) : heap.write addr object other = heap other :=
  Function.update_of_ne apart ..

@[simp] theorem free_self : heap.free addr addr = none := Function.update_self ..

theorem free_of_ne (apart : other ≠ addr) : heap.free addr other = heap other :=
  Function.update_of_ne apart ..

end Heap

variable {Cell : Type*} {next : Cell → Option Addr} {heap after : Heap Cell}
  {start stop : Option Addr} {addr : Addr} {cell : Cell} {path : List Addr}

/-- The cells met from `start` on, the link out of the last of them being `stop`. -/
def Path (next : Cell → Option Addr) (heap : Heap Cell) :
    Option Addr → List Addr → Option Addr → Prop
  | start, [], stop => start = stop
  | start, addr :: path, stop =>
    start = some addr ∧ ∃ cell, heap addr = some cell ∧ Path next heap (next cell) path stop

theorem path_append {first second : List Addr} :
    Path next heap start (first ++ second) stop ↔
      ∃ middle, Path next heap start first middle ∧ Path next heap middle second stop := by
  induction first generalizing start with
  | nil => simp [Path]
  | cons addr first ih =>
    simp only [List.cons_append, Path, ih]
    constructor
    · rintro ⟨here, cell, found, middle, before, rest⟩
      exact ⟨middle, ⟨here, cell, found, before⟩, rest⟩
    · rintro ⟨middle, ⟨here, cell, found, before⟩, rest⟩
      exact ⟨here, cell, found, middle, before, rest⟩

theorem path_live (linked : Path next heap start path stop) (member : addr ∈ path) :
    ∃ cell, heap addr = some cell := by
  induction path generalizing start with
  | nil => cases member
  | cons first path ih =>
    obtain ⟨-, cell, found, rest⟩ := linked
    rcases List.mem_cons.mp member with rfl | later
    · exact ⟨cell, found⟩
    · exact ih rest later

/-- A path only depends on the cells it meets. -/
theorem path_frame (linked : Path next heap start path stop)
    (same : ∀ addr ∈ path, after addr = heap addr) : Path next after start path stop := by
  induction path generalizing start with
  | nil => exact linked
  | cons first path ih =>
    obtain ⟨here, cell, found, rest⟩ := linked
    exact ⟨here, cell, (same first (by simp)).trans found,
      ih rest fun addr member => same addr (by simp [member])⟩

theorem path_write (linked : Path next heap start path stop) (outside : addr ∉ path) :
    Path next (heap.write addr cell) start path stop :=
  path_frame linked fun _ member => Heap.write_of_ne (ne_of_mem_of_not_mem member outside)

theorem path_free (linked : Path next heap start path stop) (outside : addr ∉ path) :
    Path next (heap.free addr) start path stop :=
  path_frame linked fun _ member => Heap.free_of_ne (ne_of_mem_of_not_mem member outside)

/-- Rewriting the link of the last cell moves the end of the path. -/
theorem path_redirect (linked : Path next heap start (path ++ [addr]) stop)
    (outside : addr ∉ path) :
    Path next (heap.write addr cell) start (path ++ [addr]) (next cell) := by
  obtain ⟨middle, before, here, -⟩ := path_append.mp linked
  exact path_append.mpr ⟨middle, path_write before outside, here, cell, by simp, rfl⟩

/-! ## Paths that end -/

/-- From one cell on there is one path to the end. -/
theorem path_unique {other : List Addr} (linked : Path next heap start path none)
    (also : Path next heap start other none) : path = other := by
  induction path generalizing start other with
  | nil =>
    cases other with
    | nil => rfl
    | cons addr other => cases linked.symm.trans also.1
  | cons addr path ih =>
    obtain ⟨rfl, cell, found, rest⟩ := linked
    cases other with
    | nil => cases also
    | cons addr' other =>
      obtain ⟨here, cell', found', rest'⟩ := also
      obtain rfl := Option.some.inj here
      obtain rfl := Option.some.inj (found.symm.trans found')
      rw [ih rest rest']

/-- A path that ends meets no cell twice. -/
theorem path_nodup (linked : Path next heap start path none) : path.Nodup := by
  induction path generalizing start with
  | nil => exact List.nodup_nil
  | cons addr path ih =>
    have whole := linked
    obtain ⟨rfl, cell, found, rest⟩ := linked
    refine List.nodup_cons.mpr ⟨fun again => ?_, ih rest⟩
    obtain ⟨front, back, rfl⟩ := List.append_of_mem again
    obtain ⟨middle, -, behind⟩ := path_append.mp rest
    obtain rfl := behind.1
    have lengths := congrArg List.length (path_unique whole behind)
    simp only [List.length_cons, List.length_append] at lengths
    omega

/-- A cell without a link is the last of the path. -/
theorem path_last (linked : Path next heap start path none) (member : addr ∈ path)
    (found : heap addr = some cell) (ends : next cell = none) : ∃ front, path = front ++ [addr] := by
  obtain ⟨front, back, rfl⟩ := List.append_of_mem member
  obtain ⟨middle, -, -, cell', found', rest⟩ := path_append.mp linked
  obtain rfl := Option.some.inj (found.symm.trans found')
  rw [ends] at rest
  cases back with
  | nil => exact ⟨front, rfl⟩
  | cons other back => cases rest.1

/-- A new link out of a cell without one is the end of the paths that meet it. -/
theorem path_hang {old : Cell} (linked : Path next heap start path none)
    (found : heap addr = some old) (ends : next old = none) (cell : Cell) :
    Path next (heap.write addr cell) start path (if addr ∈ path then next cell else none) := by
  split
  · next member =>
    obtain ⟨front, rfl⟩ := path_last linked member found ends
    have outside : addr ∉ front := fun again =>
      (List.nodup_append.mp (path_nodup linked)).2.2 _ again _ (List.mem_singleton_self addr) rfl
    exact path_redirect linked outside
  · next outside => exact path_write linked outside

end LocalServer.LinkedList
