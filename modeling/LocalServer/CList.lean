import LocalServer.Lib.LinkedList
import LocalServer.ShmQueue

/-! The linked lists of `list.c`, cell by cell. A call runs between its wait on
the list's mutex and its post, so it is one function of the list and of what
`malloc` answers; a read through a pointer to nothing live has no result. -/
namespace LocalServer
open LinkedList ShmQueue

namespace CList

def NULL_ELEM : Int := -1
def SEM_ERROR : Int := -3

/-- `struct clist`. -/
structure Cell where
  value : Option Addr
  next : Option Addr
  deriving DecidableEq

end CList

open CList in
/-- `struct list`, with the cells and the values that lie in memory. -/
structure CList (V : Type*) where
  mutex : Nat
  head : Option Addr
  tail : Option Addr
  size : Nat
  compar : V → V → Int
  cells : Heap Cell
  values : Heap V

namespace CList

/-- Why a call has no result. -/
inductive Fault where
  /-- It waits for a mutex that is taken. -/
  | blocked
  /-- It reads through a pointer that is null or was freed. -/
  | undefined
  /-- Its loop does not end. -/
  | endless
  deriving DecidableEq

variable {V : Type*}

/-- `init_list` once its allocations succeeded. -/
def initList (compar : V → V → Int) (values : Heap V) : CList V where
  mutex := 1
  head := none
  tail := none
  size := 0
  compar := compar
  cells := Heap.empty
  values := values

/-- The object a pointer points to. -/
def deref {α : Type*} (heap : Heap α) (pointer : Option Addr) : Except Fault (Addr × α) :=
  match pointer with
  | none => .error .undefined
  | some addr =>
    match heap addr with
    | none => .error .undefined
    | some object => .ok (addr, object)

/-- `sem_post` on the mutex, with what the call returns when it works and when
it does not. -/
def post {R : Type*} (l : CList V) (r failed : R) : CList V × R :=
  if l.mutex < SEM_VALUE_MAX then ({ l with mutex := l.mutex + 1 }, r) else (l, failed)

/-- The new cell goes behind the tail, or at the head of an empty list. -/
def link (l : CList V) (cell : Addr) : Except Fault (CList V) :=
  if l.size = 0 then .ok { l with head := some cell }
  else
    match deref l.cells l.tail with
    | .error fault => .error fault
    | .ok (last, old) =>
      .ok { l with cells := l.cells.write last { old with next := some cell } }

/-- `list_add`, given whether its wait is interrupted and the addresses that the
two calls of `malloc` return. -/
def listAdd (l : CList V) (elem : Option V) (interrupted : Bool)
    (cellAddr valueAddr : Option Addr) : Except Fault (CList V × Option Addr) :=
  match elem with
  | none => .ok (l, none)
  | some elem =>
    if interrupted then .ok (l, none)
    else if l.mutex = 0 then .error .blocked
    else
      let l := { l with mutex := l.mutex - 1 }
      match cellAddr, valueAddr with
      -- without memory the call returns with the mutex taken
      | none, _ => .ok (l, none)
      | some cell, none => .ok ({ l with cells := l.cells.write cell ⟨none, none⟩ }, none)
      | some cell, some value =>
        match link { l with cells := l.cells.write cell ⟨some value, none⟩
                            values := l.values.write value elem } cell with
        | .error fault => .error fault
        | .ok l =>
          .ok (post { l with tail := some cell, size := l.size + 1 } (some value) none)

/-- Where the loop of `list_remove` stops: the cell before, the cell itself with
its address, the value in it, and the count of the cells looked at. -/
structure Found where
  prev : Option Addr
  addr : Addr
  cell : Cell
  value : Addr
  i : Nat

/-- The loop of `list_remove` from `*cell = cur` on. A list of `n` cells is done
within `n + 1` tests of the loop's condition. -/
def search (l : CList V) (elem : Addr) :
    Nat → Option Addr → Option Addr → Nat → Except Fault (Option Found)
  | 0, _, _, _ => .error .endless
  | fuel + 1, prev, cur, i =>
    match cur with
    | none => .ok none
    | some addr =>
      match deref l.cells (some addr) with
      | .error fault => .error fault
      | .ok (_, cell) =>
        match deref l.values (some elem), deref l.values cell.value with
        | .ok (_, wanted), .ok (value, content) =>
          if l.compar wanted content = 0 then .ok (some ⟨prev, addr, cell, value, i + 1⟩)
          else search l elem fuel (some addr) cell.next (i + 1)
        | _, _ => .error .undefined

/-- The body of the loop's `if`: the tail moves back when the last cell goes, the
link to the cell is bent past it, and the value and the cell are freed. -/
def unlink (l : CList V) (found : Found) : Except Fault (CList V) :=
  let l := { l with tail := if found.i = l.size then found.prev else l.tail }
  let bent : Except Fault (CList V) :=
    match found.prev with
    | none => .ok { l with head := found.cell.next }
    | some _ =>
      match deref l.cells found.prev with
      | .error fault => .error fault
      | .ok (prev, old) =>
        .ok { l with cells := l.cells.write prev { old with next := found.cell.next } }
  match bent with
  | .error fault => .error fault
  | .ok l => .ok { l with values := l.values.free found.value
                          cells := l.cells.free found.addr
                          size := l.size - 1 }

/-- `list_remove`. -/
def listRemove (l : CList V) (elem : Option Addr) (interrupted : Bool) :
    Except Fault (CList V × Int) :=
  match elem with
  | none => .ok (l, NULL_ELEM)
  | some elem =>
    if interrupted then .ok (l, SEM_ERROR)
    else if l.mutex = 0 then .error .blocked
    else
      let l := { l with mutex := l.mutex - 1 }
      match search l elem (l.size + 1) none l.head 0 with
      | .error fault => .error fault
      | .ok none => .ok (post l 0 SEM_ERROR)
      | .ok (some found) =>
        match unlink l found with
        | .error fault => .error fault
        | .ok l => .ok (post l 1 SEM_ERROR)

/-- The loop of `list_apply` from `cell` on. What `apply` does besides its result
it does to the world. -/
def applyFrom {W : Type*} (l : CList V) (apply : V → Int → W → Int × W) :
    Nat → Option Addr → Int → W → Except Fault (Int × W)
  | 0, _, _, _ => .error .endless
  | fuel + 1, cell, acc, world =>
    match cell with
    | none => .ok (acc, world)
    | some addr =>
      match deref l.cells (some addr) with
      | .error fault => .error fault
      | .ok (_, cell) =>
        match deref l.values cell.value with
        | .error fault => .error fault
        | .ok (_, content) =>
          let (acc, world) := apply content acc world
          applyFrom l apply fuel cell.next acc world

/-- `list_apply`, which does not take the mutex. -/
def listApply {W : Type*} (l : CList V) (apply : Option (V → Int → W → Int × W)) (world : W) :
    Except Fault (Int × W) :=
  match apply with
  | none => .ok (NULL_ELEM, world)
  | some apply => applyFrom l apply (l.size + 1) l.head 0 world

/-- The loop of `list_dispose` from `cell` on: the values and the cells are freed. -/
def freeFrom : Nat → Option Addr → Heap Cell → Heap V → Except Fault (Heap Cell × Heap V)
  | 0, _, _, _ => .error .endless
  | fuel + 1, cell, cells, values =>
    match cell with
    | none => .ok (cells, values)
    | some addr =>
      match deref cells (some addr) with
      | .error fault => .error fault
      | .ok (_, cell) =>
        match deref values cell.value with
        | .error fault => .error fault
        | .ok (value, _) => freeFrom fuel cell.next (cells.free addr) (values.free value)

/-- `list_dispose`: what is left in memory and the result. When this is 1 the list
itself is freed too. -/
def listDispose (l : CList V) (interrupted : Bool) : Except Fault ((Heap Cell × Heap V) × Int) :=
  if interrupted then .ok ((l.cells, l.values), SEM_ERROR)
  else if l.mutex = 0 then .error .blocked
  else
    match freeFrom (l.size + 1) l.head l.cells l.values with
    | .error fault => .error fault
    | .ok left => .ok (left, 1)

/-! ## The sequence a list stands for -/

/-- One element of the list, with the addresses of its cell and of its value. -/
structure Entry (V : Type*) where
  cell : Addr
  value : Addr
  content : V

/-- The list holds exactly these elements, in this order. -/
structure Represents (l : CList V) (entries : List (Entry V)) : Prop where
  path : Path Cell.next l.cells l.head (entries.map Entry.cell) none
  points : ∀ entry ∈ entries, (l.cells entry.cell).bind Cell.value = some entry.value
  stored : ∀ entry ∈ entries, l.values entry.value = some entry.content
  cellsApart : (entries.map Entry.cell).Nodup
  valuesApart : (entries.map Entry.value).Nodup
  tail : l.tail = entries.getLast?.map Entry.cell
  size : l.size = entries.length

variable {l l' : CList V} {entries before after : List (Entry V)} {entry : Entry V}
  {cell value elem : Addr} {x : V}

theorem represents_initList (compar : V → V → Int) (values : Heap V) :
    Represents (initList compar values) [] where
  path := rfl
  points := by simp
  stored := by simp
  cellsApart := List.nodup_nil
  valuesApart := List.nodup_nil
  tail := rfl
  size := rfl

theorem Represents.cell_live (rep : Represents l entries) (member : entry ∈ entries) :
    ∃ next, l.cells entry.cell = some ⟨some entry.value, next⟩ := by
  have points := rep.points entry member
  obtain ⟨⟨value, next⟩, found, same⟩ := Option.bind_eq_some_iff.mp points
  exact ⟨next, by rw [found]; simpa using same⟩

theorem deref_some {α : Type*} {heap : Heap α} {addr : Addr} {object : α}
    (found : heap addr = some object) : deref heap (some addr) = .ok (addr, object) := by
  simp [deref, found]

/-- What the list stands for does not depend on its mutex. -/
theorem Represents.of_mutex (rep : Represents l entries) (mutex : Nat) :
    Represents { l with mutex := mutex } entries :=
  ⟨rep.path, rep.points, rep.stored, rep.cellsApart, rep.valuesApart, rep.tail, rep.size⟩

theorem listAdd_taken (taken : l.mutex = 0) {cellAddr valueAddr : Option Addr} :
    listAdd l (some x) false cellAddr valueAddr = .error .blocked := by
  simp [listAdd, taken]

theorem listRemove_taken (taken : l.mutex = 0) :
    listRemove l (some elem) false = .error .blocked := by
  simp [listRemove, taken]

/-- Giving back a mutex that is taken works. -/
theorem post_taken {R : Type*} (taken : l.mutex = 0) (r failed : R) :
    post l r failed = ({ l with mutex := 1 }, r) := by
  simp [post, taken, SEM_VALUE_MAX, INT_MAX]

/-! ## `list_add` appends -/

theorem cell_fresh (rep : Represents l entries) (fresh : l.cells cell = none) :
    cell ∉ entries.map Entry.cell := by
  intro member
  obtain ⟨found, live⟩ := path_live rep.path member
  rw [fresh] at live
  cases live

theorem value_fresh (rep : Represents l entries) (fresh : l.values value = none) :
    value ∉ entries.map Entry.value := by
  intro member
  obtain ⟨entry, among, rfl⟩ := List.mem_map.mp member
  rw [rep.stored entry among] at fresh
  cases fresh

/-- The link to a fresh cell is put behind the last cell, or in the head. -/
theorem link_represents (rep : Represents l entries) (freshCell : l.cells cell = none)
    (freshValue : l.values value = none) :
    ∃ cells head,
      link { l with cells := l.cells.write cell ⟨some value, none⟩
                    values := l.values.write value x } cell =
        .ok { l with head := head, cells := cells, values := l.values.write value x } ∧
      Represents { l with head := head, tail := some cell, size := l.size + 1, cells := cells
                          values := l.values.write value x }
        (entries ++ [⟨cell, value, x⟩]) := by
  have cellOutside := cell_fresh rep freshCell
  have valueOutside := value_fresh rep freshValue
  have stored : ∀ entry ∈ entries ++ [⟨cell, value, x⟩],
      l.values.write value x entry.value = some entry.content := by
    intro entry member
    rcases List.mem_append.mp member with old | new
    · rw [Heap.write_of_ne (ne_of_mem_of_not_mem (List.mem_map_of_mem old) valueOutside)]
      exact rep.stored entry old
    · simp [List.mem_singleton.mp new]
  have cellsApart : ((entries ++ [(⟨cell, value, x⟩ : Entry V)]).map Entry.cell).Nodup := by
    simpa using rep.cellsApart.concat cellOutside
  have valuesApart : ((entries ++ [(⟨cell, value, x⟩ : Entry V)]).map Entry.value).Nodup := by
    simpa using rep.valuesApart.concat valueOutside
  have written : Path Cell.next (l.cells.write cell ⟨some value, none⟩) l.head
      (entries.map Entry.cell) none := path_write rep.path cellOutside
  rcases List.eq_nil_or_concat entries with rfl | ⟨init, last, rfl⟩
  · refine ⟨l.cells.write cell ⟨some value, none⟩, some cell, ?_, ?_, ?_, stored, cellsApart,
      valuesApart, by simp, by simp [rep.size]⟩
    · simp only [link, rep.size, List.length_nil, if_true]
    · exact ⟨rfl, _, Heap.write_self, rfl⟩
    · simp
  · rw [List.concat_eq_append] at *
    have lastMember : last ∈ init ++ [last] := by simp
    obtain ⟨next, live⟩ := rep.cell_live lastMember
    have apart : last.cell ≠ cell :=
      ne_of_mem_of_not_mem (List.mem_map_of_mem lastMember) cellOutside
    have read : l.cells.write cell ⟨some value, none⟩ last.cell = some ⟨some last.value, next⟩ :=
      (Heap.write_of_ne apart).trans live
    have tail : l.tail = some last.cell := by simp [rep.tail]
    have lastOutside : last.cell ∉ init.map Entry.cell := by
      have distinct := rep.cellsApart
      simp only [List.map_append, List.map_cons, List.map_nil] at distinct
      exact fun member => (List.nodup_append.mp distinct).2.2 _ member _ (by simp) rfl
    refine ⟨(l.cells.write cell ⟨some value, none⟩).write last.cell ⟨some last.value, some cell⟩,
      l.head, ?_, ?_, ?_, stored, cellsApart, valuesApart, by simp, by simp [rep.size]⟩
    · have occupied : l.size ≠ 0 := by simp [rep.size]
      simp only [link, occupied, if_false, tail, deref_some read]
    · simp only [List.map_append, List.map_cons, List.map_nil] at written ⊢
      refine path_append.mpr ⟨some cell, path_redirect (by simpa using written) lastOutside, ?_⟩
      refine ⟨rfl, ⟨some value, none⟩, ?_, rfl⟩
      exact (Heap.write_of_ne apart.symm).trans Heap.write_self
    · intro entry member
      rcases List.mem_append.mp member with old | new
      · rcases List.mem_append.mp old with inside | isLast
        · have notLast := ne_of_mem_of_not_mem (List.mem_map_of_mem inside) lastOutside
          have notNew := ne_of_mem_of_not_mem (List.mem_map_of_mem old) cellOutside
          simp only [Heap.write_of_ne notLast, Heap.write_of_ne notNew]
          exact rep.points entry old
        · simp [List.mem_singleton.mp isLast]
      · simp [List.mem_singleton.mp new, Heap.write_of_ne apart.symm]

/-- `list_add` appends a copy of its element and returns where the copy lies. -/
theorem listAdd_represents (rep : Represents l entries) (free : l.mutex = 1)
    (freshCell : l.cells cell = none) (freshValue : l.values value = none) :
    ∃ l', listAdd l (some x) false (some cell) (some value) = .ok (l', some value) ∧
      Represents l' (entries ++ [⟨cell, value, x⟩]) ∧ l'.mutex = 1 ∧ l'.compar = l.compar ∧
      l'.values = l.values.write value x := by
  obtain ⟨cells, head, linked, rep'⟩ :=
    link_represents (x := x) (rep.of_mutex 0) freshCell freshValue
  refine ⟨{ l with mutex := 1, head := head, tail := some cell, size := l.size + 1, cells := cells
                   values := l.values.write value x }, ?_, rep'.of_mutex 1, rfl, rfl, rfl⟩
  simp only [listAdd, free, Bool.false_eq_true, if_false, Nat.one_ne_zero, Nat.sub_self, linked]
  rw [post_taken rfl]

/-- Without memory `list_add` returns NULL: the list is what it was, but for its
mutex, which stays taken. -/
theorem listAdd_without_memory (rep : Represents l entries) (free : l.mutex = 1)
    {cellAddr valueAddr : Option Addr} (short : cellAddr = none ∨ valueAddr = none)
    (fresh : ∀ cell, cellAddr = some cell → l.cells cell = none) :
    ∃ l', listAdd l (some x) false cellAddr valueAddr = .ok (l', none) ∧ Represents l' entries ∧
      l'.mutex = 0 ∧ l'.compar = l.compar ∧ l'.values = l.values := by
  cases cellAddr with
  | none =>
    exact ⟨{ l with mutex := 0 }, by simp [listAdd, free], rep.of_mutex 0, rfl, rfl, rfl⟩
  | some cell =>
    obtain rfl : valueAddr = none := by simpa using short
    have outside := cell_fresh rep (fresh cell rfl)
    refine ⟨{ l with mutex := 0, cells := l.cells.write cell ⟨none, none⟩ },
      by simp [listAdd, free], ⟨path_write rep.path outside, ?_, rep.stored, rep.cellsApart,
        rep.valuesApart, rep.tail, rep.size⟩, rfl, rfl, rfl⟩
    intro entry member
    have apart := ne_of_mem_of_not_mem (List.mem_map_of_mem member) outside
    exact (congrArg (Option.bind · Cell.value) (Heap.write_of_ne apart)).trans
      (rep.points entry member)

/-! ## `list_remove` takes the first match out -/

/-- The loop passes over the elements that do not match, counting them. -/
theorem search_skip (rep : Represents l entries) (found : l.values elem = some x)
    {skipped : List (Entry V)} (among : ∀ entry ∈ skipped, entry ∈ entries)
    (mismatch : ∀ entry ∈ skipped, l.compar x entry.content ≠ 0) {start middle : Option Addr}
    (linked : Path Cell.next l.cells start (skipped.map Entry.cell) middle)
    (before : List (Entry V)) (fuel : Nat) :
    search l elem (fuel + skipped.length) (before.getLast?.map Entry.cell) start before.length =
      search l elem fuel ((before ++ skipped).getLast?.map Entry.cell) middle
        (before ++ skipped).length := by
  induction skipped generalizing before start with
  | nil =>
    obtain rfl : start = middle := linked
    simp
  | cons entry skipped ih =>
    obtain ⟨rfl, cell, live, rest⟩ := linked
    obtain ⟨next, live'⟩ := rep.cell_live (among entry (by simp))
    obtain rfl : cell = ⟨some entry.value, next⟩ := Option.some.inj (live.symm.trans live')
    have stored := rep.stored entry (among entry (by simp))
    have differs := mismatch entry (by simp)
    have later := ih (fun entry member => among entry (by simp [member]))
      (fun entry member => mismatch entry (by simp [member])) rest (before ++ [entry])
    rw [List.length_cons, ← Nat.add_assoc, search]
    simp only [deref_some live, deref_some found, deref_some stored, differs, if_false]
    simpa [Nat.add_assoc, Nat.add_comm 1] using later

/-- Taking one cell out keeps the elements before it and after it. -/
theorem unlink_represents (rep : Represents l (before ++ entry :: after)) {next : Option Addr}
    (live : l.cells entry.cell = some ⟨some entry.value, next⟩) :
    ∃ l', unlink l ⟨before.getLast?.map Entry.cell, entry.cell, ⟨some entry.value, next⟩,
        entry.value, before.length + 1⟩ = .ok l' ∧
      Represents l' (before ++ after) ∧ l'.mutex = l.mutex ∧ l'.compar = l.compar ∧
      l'.values = l.values.free entry.value := by
  have distinctCells := rep.cellsApart
  have distinctValues := rep.valuesApart
  have smaller : List.Sublist (before ++ after) (before ++ entry :: after) :=
    List.Sublist.append_left (List.sublist_cons_self ..) _
  have cellOutside : entry.cell ∉ (before ++ after).map Entry.cell := by
    rw [List.map_append, List.map_cons] at distinctCells
    simpa using (List.nodup_middle.mp distinctCells).notMem
  have valueOutside : entry.value ∉ (before ++ after).map Entry.value := by
    rw [List.map_append, List.map_cons] at distinctValues
    simpa using (List.nodup_middle.mp distinctValues).notMem
  have stored : ∀ other ∈ before ++ after,
      l.values.free entry.value other.value = some other.content := by
    intro other member
    rw [Heap.free_of_ne (ne_of_mem_of_not_mem (List.mem_map_of_mem member) valueOutside)]
    exact rep.stored other (smaller.subset member)
  obtain ⟨middle, first, here, cell, live', rest⟩ :=
    path_append.mp (by simpa using rep.path : Path Cell.next l.cells l.head
      (before.map Entry.cell ++ entry.cell :: after.map Entry.cell) none)
  obtain rfl : cell = ⟨some entry.value, next⟩ := Option.some.inj (live'.symm.trans live)
  have tail : (if before.length + 1 = l.size then before.getLast?.map Entry.cell else l.tail) =
      (before ++ after).getLast?.map Entry.cell := by
    rw [rep.size, rep.tail]
    rcases List.eq_nil_or_concat after with rfl | ⟨init, last, rfl⟩
    · simp
    · simp [List.getLast?_cons]
  have cellsApart : ((before ++ after).map Entry.cell).Nodup :=
    distinctCells.sublist (smaller.map _)
  have valuesApart : ((before ++ after).map Entry.value).Nodup :=
    distinctValues.sublist (smaller.map _)
  have size : l.size - 1 = (before ++ after).length := by simp [rep.size]
  have kept : ∀ other ∈ before ++ after, l.cells.free entry.cell other.cell = l.cells other.cell :=
    fun other member => Heap.free_of_ne (ne_of_mem_of_not_mem (List.mem_map_of_mem member) cellOutside)
  have points : ∀ other ∈ before ++ after,
      (l.cells other.cell).bind Cell.value = some other.value :=
    fun other member => rep.points other (smaller.subset member)
  rcases List.eq_nil_or_concat before with rfl | ⟨init, last, rfl⟩
  · refine ⟨{ l with head := next, tail := _, size := l.size - 1
                     cells := l.cells.free entry.cell, values := l.values.free entry.value },
      rfl, ⟨?_, ?_, stored, cellsApart, valuesApart, tail, size⟩, rfl, rfl, rfl⟩
    · exact path_free rest (by simpa using cellOutside)
    · intro other member
      exact (congrArg (Option.bind · Cell.value) (kept other member)).trans (points other member)
  · rw [List.concat_eq_append] at *
    have lastMember : last ∈ (init ++ [last]) ++ after := by simp
    obtain ⟨old, lastLive⟩ := rep.cell_live (smaller.subset lastMember)
    have lastOutside : last.cell ∉ init.map Entry.cell ++ after.map Entry.cell := by
      simp only [List.map_append, List.map_cons, List.append_assoc, List.singleton_append]
        at cellsApart
      exact (List.nodup_middle.mp cellsApart).notMem
    rw [List.mem_append, not_or] at lastOutside
    have apart : last.cell ≠ entry.cell :=
      ne_of_mem_of_not_mem (List.mem_map_of_mem lastMember) cellOutside
    refine ⟨{ l with tail := ((init ++ [last]) ++ after).getLast?.map Entry.cell
                     size := l.size - 1, values := l.values.free entry.value
                     cells := (l.cells.write last.cell ⟨some last.value, next⟩).free entry.cell },
      ?_, ⟨?_, ?_, stored, cellsApart, valuesApart, rfl, size⟩, rfl, rfl, rfl⟩
    · rw [← tail]
      simp only [unlink, List.getLast?_concat, Option.map_some, deref_some lastLive]
    · rw [List.map_append]
      rw [List.map_append, List.mem_append, not_or] at cellOutside
      refine path_append.mpr ⟨next, path_free ?_ cellOutside.1, path_free ?_ cellOutside.2⟩
      · simp only [List.map_append, List.map_cons, List.map_nil] at first ⊢
        exact path_redirect first lastOutside.1
      · exact path_write rest lastOutside.2
    · intro other member
      have notEntry := ne_of_mem_of_not_mem (List.mem_map_of_mem member) cellOutside
      by_cases isLast : other.cell = last.cell
      · have same : other = last := List.inj_on_of_nodup_map cellsApart member lastMember isLast
        simp [same, Heap.free_of_ne apart]
      · simp only [Heap.free_of_ne notEntry, Heap.write_of_ne isLast]
        exact points other member

/-- `list_remove` takes the first element that compares equal out of the list and
frees it, or changes nothing when there is none. -/
theorem listRemove_represents (rep : Represents l entries) (free : l.mutex = 1)
    (found : l.values elem = some x) :
    ∃ l' r, listRemove l (some elem) false = .ok (l', r) ∧ l'.mutex = 1 ∧ l'.compar = l.compar ∧
      match entries.find? fun entry => l.compar x entry.content = 0 with
      | none => r = 0 ∧ Represents l' entries ∧ l'.values = l.values
      | some entry => r = 1 ∧ l'.values = l.values.free entry.value ∧
        Represents l' (entries.eraseP fun entry => l.compar x entry.content = 0) := by
  have rep' := rep.of_mutex 0
  cases first : entries.find? fun entry => l.compar x entry.content = 0 with
  | none =>
    have mismatch := List.find?_eq_none.mp first
    have ended : search { l with mutex := 0 } elem (l.size + 1) none l.head 0 = .ok none := by
      have skipped := search_skip rep' found (fun entry member => member)
        (by simpa using mismatch) rep.path [] 1
      simpa [rep.size, Nat.add_comm 1, search] using skipped
    refine ⟨{ l with mutex := 1 }, 0, ?_, rfl, rfl, rfl, rep.of_mutex 1, rfl⟩
    simp only [listRemove, free, Bool.false_eq_true, if_false, Nat.one_ne_zero, Nat.sub_self, ended]
    rw [post_taken rfl]
  | some entry =>
    obtain ⟨matched, before, after, rfl, mismatch⟩ := List.find?_eq_some_iff_append.mp first
    have erased : (before ++ entry :: after).eraseP (fun entry => l.compar x entry.content = 0) =
        before ++ after := by
      rw [List.eraseP_append_right _ (by simpa using mismatch), List.eraseP_cons_of_pos (by simpa using matched)]
    have member : entry ∈ before ++ entry :: after := by simp
    obtain ⟨next, live⟩ := rep.cell_live member
    obtain ⟨middle, passed, rfl, -⟩ :=
      path_append.mp (by simpa using rep.path : Path Cell.next l.cells l.head
        (before.map Entry.cell ++ entry.cell :: after.map Entry.cell) none)
    have stopped : search { l with mutex := 0 } elem (l.size + 1) none l.head 0 =
        .ok (some ⟨before.getLast?.map Entry.cell, entry.cell, ⟨some entry.value, next⟩,
          entry.value, before.length + 1⟩) := by
      have skipped := search_skip rep' found (fun entry member => List.mem_append_left _ member)
        (by simpa using mismatch) passed [] (after.length + 1 + 1)
      have fuel : after.length + 1 + 1 + before.length = l.size + 1 := by simp [rep.size]; omega
      rw [fuel] at skipped
      refine skipped.trans ?_
      have zero : l.compar x entry.content = 0 := by simpa using matched
      simp only [search, deref_some live, deref_some found, deref_some (rep.stored entry member),
        zero, if_true, List.nil_append]
    obtain ⟨l', unlinked, rep'', mutex, compar, values⟩ := unlink_represents rep' live
    refine ⟨{ l' with mutex := 1 }, 1, ?_, rfl, compar, rfl, values, ?_⟩
    · simp only [listRemove, free, Bool.false_eq_true, if_false, Nat.one_ne_zero, Nat.sub_self,
        stopped, unlinked]
      rw [post_taken mutex]
    · rw [erased]
      exact rep''.of_mutex 1

/-! ## `list_apply` folds -/

/-- The loop meets the elements once each, in their order. -/
theorem applyFrom_entries {W : Type*} (rep : Represents l entries) (apply : V → Int → W → Int × W)
    {visited : List (Entry V)} (among : ∀ entry ∈ visited, entry ∈ entries) {start : Option Addr}
    (linked : Path Cell.next l.cells start (visited.map Entry.cell) none) (acc : Int) (world : W) :
    applyFrom l apply (visited.length + 1) start acc world =
      .ok ((visited.map Entry.content).foldl (fun before x => apply x before.1 before.2) (acc, world)) := by
  induction visited generalizing start acc world with
  | nil =>
    obtain rfl : start = none := linked
    rfl
  | cons entry visited ih =>
    obtain ⟨rfl, cell, live, rest⟩ := linked
    obtain ⟨next, live'⟩ := rep.cell_live (among entry (by simp))
    obtain rfl : cell = ⟨some entry.value, next⟩ := Option.some.inj (live.symm.trans live')
    have stored := rep.stored entry (among entry (by simp))
    have later := ih (fun entry member => among entry (by simp [member])) rest
    rw [List.length_cons, applyFrom]
    simp only [deref_some live, deref_some stored, later, List.map_cons, List.foldl_cons]

theorem listApply_represents {W : Type*} (rep : Represents l entries)
    (apply : V → Int → W → Int × W) (world : W) :
    listApply l (some apply) world =
      .ok ((entries.map Entry.content).foldl (fun before x => apply x before.1 before.2) (0, world)) := by
  have visited := applyFrom_entries rep apply (fun entry member => member) rep.path 0 world
  rwa [← rep.size] at visited

/-! ## `list_dispose` frees -/

theorem listDispose_taken (taken : l.mutex = 0) : listDispose l false = .error .blocked := by
  simp [listDispose, taken]

/-- The loop frees each cell and each value once. -/
theorem freeFrom_entries {visited : List (Entry V)} {start : Option Addr} {cells : Heap Cell}
    {values : Heap V} (linked : Path Cell.next cells start (visited.map Entry.cell) none)
    (points : ∀ entry ∈ visited, (cells entry.cell).bind Cell.value = some entry.value)
    (stored : ∀ entry ∈ visited, values entry.value = some entry.content)
    (cellsApart : (visited.map Entry.cell).Nodup) (valuesApart : (visited.map Entry.value).Nodup) :
    ∃ left, freeFrom (visited.length + 1) start cells values = .ok left ∧
      (∀ addr, left.1 addr = if addr ∈ visited.map Entry.cell then none else cells addr) ∧
      ∀ addr, left.2 addr = if addr ∈ visited.map Entry.value then none else values addr := by
  induction visited generalizing start cells values with
  | nil =>
    obtain rfl : start = none := linked
    exact ⟨(cells, values), rfl, fun _ => rfl, fun _ => rfl⟩
  | cons entry visited ih =>
    obtain ⟨rfl, cell, live, rest⟩ := linked
    obtain ⟨cellOutside, cellsApart⟩ := List.nodup_cons.mp cellsApart
    obtain ⟨valueOutside, valuesApart⟩ := List.nodup_cons.mp valuesApart
    have pointer : cell.value = some entry.value := by
      simpa [live] using points entry List.mem_cons_self
    have kept : ∀ other ∈ visited, other.cell ≠ entry.cell ∧ other.value ≠ entry.value := fun other member =>
      ⟨ne_of_mem_of_not_mem (List.mem_map_of_mem member) cellOutside,
        ne_of_mem_of_not_mem (List.mem_map_of_mem member) valueOutside⟩
    obtain ⟨left, freed, cellsLeft, valuesLeft⟩ :=
      ih (path_free rest cellOutside)
        (fun other member => by
          rw [Heap.free_of_ne (kept other member).1]
          exact points other (List.mem_cons_of_mem _ member))
        (fun other member => (Heap.free_of_ne (kept other member).2).trans
          (stored other (List.mem_cons_of_mem _ member)))
        cellsApart valuesApart
    refine ⟨left, ?_, fun addr => ?_, fun addr => ?_⟩
    · rw [List.length_cons, freeFrom]
      simp only [deref_some live, pointer, deref_some (stored entry List.mem_cons_self), freed]
    · rw [cellsLeft, List.map_cons]
      by_cases same : addr = entry.cell
      · simp [same]
      · simp [same, Heap.free_of_ne same]
    · rw [valuesLeft, List.map_cons]
      by_cases same : addr = entry.value
      · simp [same]
      · simp [same, Heap.free_of_ne same]

/-- `list_dispose` frees what the list holds, and nothing else. -/
theorem listDispose_represents (rep : Represents l entries) (free : l.mutex = 1) :
    ∃ left, listDispose l false = .ok (left, 1) ∧
      (∀ addr, left.1 addr = if addr ∈ entries.map Entry.cell then none else l.cells addr) ∧
      ∀ addr, left.2 addr = if addr ∈ entries.map Entry.value then none else l.values addr := by
  obtain ⟨left, freed, remains⟩ :=
    freeFrom_entries rep.path rep.points rep.stored rep.cellsApart rep.valuesApart
  rw [← rep.size] at freed
  exact ⟨left, by simp [listDispose, free, freed], remains⟩

end CList

end LocalServer
