import LocalServer.CList
import LocalServer.Lib.Runs

/-! The list as its users see it: a sequence, to which `list_add` appends and from
which `list_remove` takes the first element that compares equal. The cells, the
tail and the size agree with the sequence after every call. -/
namespace LocalServer.ListSequence
open Runs CList LinkedList

variable {V : Type*}

/-! ## The sequence -/

/-- A call: the element to copy, with what `malloc` returns for the cell and for the
copy, or the object to compare with, with the address it lies at. -/
inductive Op (V : Type*) where
  | add (x : V) (cell value : Addr)
  | remove (x : V) (elem : Addr)

inductive Result where
  | pointer (p : Option Addr)
  | status (r : Int)
  deriving DecidableEq

/-- What a call makes of the sequence. -/
def Op.after (compar : V → V → Int) (xs : List V) : Op V → List V
  | .add x _ _ => xs ++ [x]
  | .remove x _ => xs.eraseP fun e => compar x e = 0

/-- What a call returns. -/
def Op.result (compar : V → V → Int) (xs : List V) : Op V → Result
  | .add _ _ value => .pointer (some value)
  | .remove x _ => .status (if xs.any fun e => compar x e = 0 then 1 else 0)

/-- The sequence and the results after some calls on a sequence. -/
def sequence (compar : V → V → Int) : List V → List (Op V) → List V × List Result
  | xs, [] => (xs, [])
  | xs, op :: ops =>
    let (ys, results) := sequence compar (op.after compar xs) ops
    (ys, op.result compar xs :: results)

/-! ## The calls -/

/-- The list and what the calls on it returned so far. -/
structure Calls (V : Type*) where
  list : CList V
  results : List Result

def call (l : CList V) : Op V → Except Fault (CList V × Result)
  | .add x cell value =>
    (listAdd l (some x) false (some cell) (some value)).map fun (l, p) => (l, .pointer p)
  | .remove _ elem => (listRemove l (some elem) false).map fun (l, r) => (l, .status r)

def step (s : Calls V) (op : Op V) : Option (Calls V) :=
  match call s.list op with
  | .ok (l, r) => some ⟨l, s.results ++ [r]⟩
  | .error _ => none

def start (compar : V → V → Int) (values : Heap V) : Calls V := ⟨initList compar values, []⟩

/-- `malloc` returns the address of no live object, and the object to compare with
is where it is said to be. -/
def Ready (s : Calls V) : Op V → Prop
  | .add _ cell value => s.list.cells cell = none ∧ s.list.values value = none
  | .remove x elem => s.list.values elem = some x

/-! ## Refinement -/

variable {compar : V → V → Int} {s : Calls V} {xs : List V} {op : Op V} {ops : List (Op V)}

/-- Between calls the list holds this sequence and its mutex is free. -/
structure Refines (compar : V → V → Int) (s : Calls V) (xs : List V) : Prop where
  holds : ∃ entries, Represents s.list entries ∧ entries.map Entry.content = xs
  mutex : s.list.mutex = 1
  compar : s.list.compar = compar

theorem refines_start (compar : V → V → Int) (values : Heap V) :
    Refines compar (start compar values) [] where
  holds := ⟨[], represents_initList compar values, rfl⟩
  mutex := rfl
  compar := rfl

/-- A call does to the list what it does to the sequence. -/
theorem refines_step (refines : Refines compar s xs) (ready : Ready s op) :
    ∃ s', step s op = some s' ∧ Refines compar s' (op.after compar xs) ∧
      s'.results = s.results ++ [op.result compar xs] := by
  obtain ⟨⟨entries, rep, rfl⟩, mutex, rfl⟩ := refines
  cases op with
  | add x cell value =>
    obtain ⟨freshCell, freshValue⟩ := ready
    obtain ⟨l', added, rep', mutex', compar', -⟩ :=
      listAdd_represents (x := x) rep mutex freshCell freshValue
    have called : call s.list (.add x cell value) = .ok (l', .pointer (some value)) := by
      simp only [call, added, Except.map]
    refine ⟨⟨l', s.results ++ [.pointer (some value)]⟩, by simp only [step, called],
      ⟨⟨_, rep', ?_⟩, mutex', compar'⟩, rfl⟩
    simp [Op.after]
  | remove x elem =>
    obtain ⟨l', r, removed, mutex', compar', outcome⟩ := listRemove_represents rep mutex ready
    have called : call s.list (.remove x elem) = .ok (l', .status r) := by
      simp only [call, removed, Except.map]
    have erased : Op.after s.list.compar (entries.map Entry.content) (.remove x elem) =
        (entries.eraseP fun entry => s.list.compar x entry.content = 0).map Entry.content := by
      rw [Op.after, List.eraseP_map]
      rfl
    have found : (entries.map Entry.content).any (fun e => s.list.compar x e = 0) =
        (entries.find? fun entry => s.list.compar x entry.content = 0).isSome := by
      rw [Bool.eq_iff_iff, List.find?_isSome, List.any_map, List.any_eq_true]
      rfl
    refine ⟨⟨l', s.results ++ [.status r]⟩, by simp only [step, called], ?_⟩
    cases first : entries.find? fun entry => s.list.compar x entry.content = 0 with
    | none =>
      rw [first] at outcome
      obtain ⟨rfl, rep', -⟩ := outcome
      have mismatch := List.find?_eq_none.mp first
      refine ⟨⟨⟨entries, rep', ?_⟩, mutex', compar'⟩, ?_⟩
      · rw [erased, List.eraseP_of_forall_not mismatch]
      · simp [Op.result, found, first]
    | some entry =>
      rw [first] at outcome
      obtain ⟨rfl, -, rep'⟩ := outcome
      refine ⟨⟨⟨_, rep', erased.symm⟩, mutex', compar'⟩, ?_⟩
      simp [Op.result, found, first]

/-- Any number of calls do. -/
theorem refines_run (refines : Refines compar s xs) (ready : Along step Ready s ops) :
    ∃ s', run step s ops = some s' ∧ Refines compar s' (sequence compar xs ops).1 ∧
      s'.results = s.results ++ (sequence compar xs ops).2 := by
  induction ops generalizing s xs with
  | nil => exact ⟨s, rfl, refines, by simp [sequence]⟩
  | cons op ops ih =>
    obtain ⟨middle, stepped, refines', results⟩ := refines_step refines ready.1
    obtain ⟨s', ran, refines'', results'⟩ := ih refines' (ready.2 middle stepped)
    refine ⟨s', run_cons_eq_some.mpr ⟨middle, stepped, ran⟩, refines'', ?_⟩
    rw [results', results, List.append_assoc]
    rfl

/-! ## What the users rely on -/

/-- After any calls on a fresh list the cells from its head on are those of the
sequence, size and tail tell its length and its last cell, the calls returned what
they should, and `list_apply` folds over the sequence. -/
theorem list_refines_sequence {W : Type*} (compar : V → V → Int) (values : Heap V) (ops : List (Op V))
    (ready : Along step Ready (start compar values) ops) :
    ∃ s entries, run step (start compar values) ops = some s ∧
      Represents s.list entries ∧ entries.map Entry.content = (sequence compar [] ops).1 ∧
      s.results = (sequence compar [] ops).2 ∧ s.list.size = (sequence compar [] ops).1.length ∧
      s.list.tail = entries.getLast?.map Entry.cell ∧
      (∀ last ∈ entries.getLast?, s.list.cells last.cell = some ⟨some last.value, none⟩) ∧
      s.list.mutex = 1 ∧
      ∀ (apply : V → Int → W → Int × W) (world : W), listApply s.list (some apply) world =
        .ok ((sequence compar [] ops).1.foldl (fun before x => apply x before.1 before.2) (0, world)) := by
  obtain ⟨s, ran, ⟨⟨entries, rep, content⟩, mutex, -⟩, results⟩ :=
    refines_run (refines_start compar values) ready
  refine ⟨s, entries, ran, rep, content, by simpa [start] using results, ?_, rep.tail, ?_, mutex, ?_⟩
  · rw [rep.size, ← content, List.length_map]
  · intro last isLast
    obtain ⟨init, rfl⟩ := List.getLast?_eq_some_iff.mp isLast
    obtain ⟨next, live⟩ := rep.cell_live (by simp : last ∈ init ++ [last])
    obtain ⟨middle, -, -, cell, live', ends⟩ :=
      path_append.mp (by simpa using rep.path : Path Cell.next s.list.cells s.list.head
        (init.map Entry.cell ++ [last.cell]) none)
    obtain rfl : cell = ⟨some last.value, next⟩ := Option.some.inj (live'.symm.trans live)
    obtain rfl : next = none := ends
    exact live
  · intro apply world
    rw [← content]
    exact listApply_represents rep apply world

instance decidableReady [DecidableEq V] (s : Calls V) : ∀ op, Decidable (Ready s op)
  | .add _ cell value =>
    inferInstanceAs (Decidable (s.list.cells cell = none ∧ s.list.values value = none))
  | .remove x elem => inferInstanceAs (Decidable (s.list.values elem = some x))

/-- Two elements are added, and the first is removed by an equal object that lies
elsewhere. -/
theorem list_refines_sequence_two_added_one_removed : ∃ s,
    run step (start (· - ·) (Heap.empty.write 7 (5 : Int))) [.add 5 0 0, .add 6 1 1, .remove 5 7] =
        some s ∧
      s.list.size = 1 ∧ s.list.mutex = 1 ∧
      s.results = [.pointer (some 0), .pointer (some 1), .status 1] ∧
      listApply s.list (some fun x acc (seen : List Int) => (acc + x, seen ++ [x])) [] =
        .ok (6, [6]) := by
  obtain ⟨s, entries, ran, -, -, results, size, -, -, mutex, folds⟩ :=
    list_refines_sequence (W := List Int) (· - ·) (Heap.empty.write 7 (5 : Int))
      [.add 5 0 0, .add 6 1 1, .remove 5 7] (by decide)
  exact ⟨s, ran, size, mutex, results, folds _ _⟩

end LocalServer.ListSequence
