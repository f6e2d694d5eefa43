import LocalServer.CList
import LocalServer.Lib.Runs

/-! The list when memory runs out. Without memory `list_add` returns between its wait
and its post, so that the mutex of the list is gone with it: the cells are as they
were, and nobody reaches them again. -/
namespace LocalServer.ListFailures
open Runs CList LinkedList

variable {V : Type*}

/-! ## Calls -/

/-- A call of some session, with whether its wait is interrupted and what `malloc`
returns to it. -/
inductive Call (V : Type*) where
  | add (elem : Option V) (interrupted : Bool) (cell value : Option Addr)
  | remove (elem : Option Addr) (interrupted : Bool)

/-- The list behind a call that returns. -/
def returned {R : Type*} (outcome : Except Fault (CList V × R)) : Option (CList V) :=
  outcome.toOption.map Prod.fst

def step (l : CList V) : Call V → Option (CList V)
  | .add elem interrupted cell value => returned (listAdd l elem interrupted cell value)
  | .remove elem interrupted => returned (listRemove l elem interrupted)

/-- `malloc` returns the address of no live object, and the object to compare with
is live. -/
def Ready (l : CList V) : Call V → Prop
  | .add _ _ cell value => (∀ addr ∈ cell, l.cells addr = none) ∧ ∀ addr ∈ value, l.values addr = none
  | .remove elem _ => ∀ addr ∈ elem, l.values addr ≠ none

instance decidableFree {α : Type*} (heap : Heap α) : DecidablePred fun addr => heap addr = none :=
  fun addr => inferInstanceAs (Decidable (heap addr = none))

instance decidableLive {α : Type*} (heap : Heap α) : DecidablePred fun addr => heap addr ≠ none :=
  fun addr => inferInstanceAs (Decidable (¬ heap addr = none))

instance decidableReady (l : CList V) : (call : Call V) → Decidable (Ready l call)
  | .add _ _ cell value =>
    inferInstanceAs (Decidable ((∀ addr ∈ cell, l.cells addr = none) ∧ ∀ addr ∈ value, l.values addr = none))
  | .remove elem _ => inferInstanceAs (Decidable (∀ addr ∈ elem, l.values addr ≠ none))

/-! ## What is asked of a failed call -/

/-- The next call on the list is served: an element is added, looked for, or the
list is disposed of. -/
structure Proceeds (l : CList V) : Prop where
  add : ∀ x cell value, l.cells cell = none → l.values value = none →
    ∃ l', listAdd l (some x) false (some cell) (some value) = .ok (l', some value)
  remove : ∀ elem, l.values elem ≠ none →
    ∃ l' r, listRemove l (some elem) false = .ok (l', r) ∧ 0 ≤ r
  dispose : ∃ left, listDispose l false = .ok (left, 1)

/-- Every call that waits for the list waits for ever. -/
structure Blocked (l : CList V) : Prop where
  add : ∀ x cell value, listAdd l (some x) false cell value = .error .blocked
  remove : ∀ elem, listRemove l (some elem) false = .error .blocked
  dispose : listDispose l false = .error .blocked

/-- A call has left the list as it was, and usable. -/
structure Intact (before after : CList V) : Prop where
  head : after.head = before.head
  tail : after.tail = before.tail
  size : after.size = before.size
  sequence : ∀ entries, Represents before entries → Represents after entries
  mutex : after.mutex = before.mutex
  proceeds : Proceeds after

variable {l l' before after : CList V} {call : Call V} {cell value : Option Addr} {x : V}

theorem proceeds_of_free {entries : List (Entry V)} (rep : Represents l entries) (free : l.mutex = 1) :
    Proceeds l where
  add x cell value freshCell freshValue := by
    obtain ⟨l', added, -⟩ := listAdd_represents (x := x) rep free freshCell freshValue
    exact ⟨l', added⟩
  remove elem live := by
    obtain ⟨y, found⟩ := Option.ne_none_iff_exists'.mp live
    obtain ⟨l', r, removed, -, -, outcome⟩ := listRemove_represents rep free found
    refine ⟨l', r, removed, ?_⟩
    split at outcome
    · rw [outcome.1]
    · rw [outcome.1]
      decide
  dispose := by
    obtain ⟨left, disposed, -⟩ := listDispose_represents rep free
    exact ⟨left, disposed⟩

theorem blocked_of_taken (taken : l.mutex = 0) : Blocked l where
  add _ _ _ := listAdd_taken taken
  remove _ := listRemove_taken taken
  dispose := listDispose_taken taken

/-! ## Runs of calls -/

/-- Between calls the list holds a sequence, whether its mutex is free or lost. -/
structure Kept (l : CList V) : Prop where
  mutex : l.mutex = 0 ∨ l.mutex = 1
  holds : ∃ entries, Represents l entries

theorem returned_eq_some {R : Type*} {outcome : Except Fault (CList V × R)} :
    returned outcome = some l ↔ ∃ r, outcome = .ok (l, r) := by
  cases outcome with
  | error fault => simp [returned, Except.toOption]
  | ok pair =>
    obtain ⟨after, r⟩ := pair
    simp [returned, Except.toOption, eq_comm]

/-- Where the mutex is lost, only calls that do not get to it return. -/
theorem step_taken (taken : l.mutex = 0) (stepped : step l call = some l') : l' = l := by
  cases call with
  | add elem interrupted cell value =>
    obtain ⟨r, added⟩ := returned_eq_some.mp stepped
    cases elem with
    | none =>
      cases added
      rfl
    | some x =>
      cases interrupted with
      | true =>
        cases added
        rfl
      | false =>
        rw [listAdd_taken taken] at added
        cases added
  | remove elem interrupted =>
    obtain ⟨r, removed⟩ := returned_eq_some.mp stepped
    cases elem with
    | none =>
      cases removed
      rfl
    | some elem =>
      cases interrupted with
      | true =>
        cases removed
        rfl
      | false =>
        rw [listRemove_taken taken] at removed
        cases removed

/-- A `list_add` that got the mutex appends and gives it back, or has no memory and
keeps it. -/
theorem kept_add {entries : List (Entry V)} (rep : Represents l entries) (free : l.mutex = 1)
    (ready : Ready l (.add (some x) false cell value)) {r : Option Addr}
    (added : listAdd l (some x) false cell value = .ok (l', r)) : Kept l' := by
  by_cases short : cell = none ∨ value = none
  · obtain ⟨after, failed, rep', taken, -⟩ := listAdd_without_memory (x := x) rep free short
      fun addr same => ready.1 addr same
    obtain rfl := (Prod.mk.inj (Except.ok.inj (failed.symm.trans added))).1
    exact ⟨.inl taken, _, rep'⟩
  · rw [not_or] at short
    obtain ⟨cellAddr, rfl⟩ := Option.ne_none_iff_exists'.mp short.1
    obtain ⟨valueAddr, rfl⟩ := Option.ne_none_iff_exists'.mp short.2
    obtain ⟨after, appended, rep', free', -⟩ :=
      listAdd_represents (x := x) rep free (ready.1 _ rfl) (ready.2 _ rfl)
    obtain rfl := (Prod.mk.inj (Except.ok.inj (appended.symm.trans added))).1
    exact ⟨.inr free', _, rep'⟩

theorem kept_step (kept : Kept l) (ready : Ready l call) (stepped : step l call = some l') : Kept l' := by
  obtain ⟨taken | free, entries, rep⟩ := kept
  · rw [step_taken taken stepped]
    exact ⟨.inl taken, entries, rep⟩
  · cases call with
    | add elem interrupted cell value =>
      obtain ⟨r, added⟩ := returned_eq_some.mp stepped
      cases elem with
      | none =>
        cases added
        exact ⟨.inr free, entries, rep⟩
      | some x =>
        cases interrupted with
        | true =>
          cases added
          exact ⟨.inr free, entries, rep⟩
        | false => exact kept_add rep free ready added
    | remove elem interrupted =>
      obtain ⟨r, removed⟩ := returned_eq_some.mp stepped
      cases elem with
      | none =>
        cases removed
        exact ⟨.inr free, entries, rep⟩
      | some elem =>
        cases interrupted with
        | true =>
          cases removed
          exact ⟨.inr free, entries, rep⟩
        | false =>
          obtain ⟨y, found⟩ := Option.ne_none_iff_exists'.mp (ready elem rfl)
          obtain ⟨after, _, removed', free', -, outcome⟩ := listRemove_represents rep free found
          obtain rfl := (Prod.mk.inj (Except.ok.inj (removed'.symm.trans removed))).1
          split at outcome
          · exact ⟨.inr free', _, outcome.2.1⟩
          · exact ⟨.inr free', _, outcome.2.2⟩

theorem kept_of_run {compar : V → V → Int} {values : Heap V} {calls : List (Call V)}
    (ready : Along step Ready (initList compar values) calls)
    (ran : run step (initList compar values) calls = some l) : Kept l :=
  run_invariant_along (fun _ _ _ kept ready stepped => kept_step kept ready stepped)
    ⟨.inr rfl, [], represents_initList compar values⟩ ready ran

/-- Once the mutex is lost it stays lost, whatever is called. -/
theorem taken_of_run {calls : List (Call V)} (taken : l.mutex = 0) (ran : run step l calls = some l') :
    l' = l := by
  refine run_invariant (motive := fun state => state = l) (fun state call next same stepped => ?_) rfl ran
  subst same
  exact step_taken taken stepped

/-! ## A failed call -/

/-- Without memory the call changes the mutex, and nothing else of `struct list`. -/
theorem listAdd_short (short : cell = none ∨ value = none)
    (failed : listAdd before (some x) false cell value = .ok (after, none)) :
    before.mutex ≠ 0 ∧ after.mutex = before.mutex - 1 ∧ after.head = before.head ∧
      after.tail = before.tail ∧ after.size = before.size := by
  by_cases taken : before.mutex = 0
  · rw [listAdd_taken taken] at failed
    cases failed
  · simp only [listAdd, Bool.false_eq_true, if_false, taken] at failed
    rcases short with rfl | rfl
    · cases failed
      exact ⟨taken, rfl, rfl, rfl, rfl⟩
    · cases cell with
      | none =>
        cases failed
        exact ⟨taken, rfl, rfl, rfl, rfl⟩
      | some addr =>
        cases failed
        exact ⟨taken, rfl, rfl, rfl, rfl⟩

/-- A `list_add` that finds no memory never leaves the list usable. The sequence, the
head, the tail and the size are as before, but the mutex is lost: before the call every
call is served, and after it none is, in any run that follows. -/
theorem failed_add_never_intact (compar : V → V → Int) (values : Heap V) (past : List (Call V))
    (ready : Along step Ready (initList compar values) past)
    (ran : run step (initList compar values) past = some before)
    (fresh : Ready before (.add (some x) false cell value)) (short : cell = none ∨ value = none)
    (failed : listAdd before (some x) false cell value = .ok (after, none)) :
    Proceeds before ∧ ¬ Intact before after ∧ before.mutex = 1 ∧ after.mutex = 0 ∧
      after.head = before.head ∧ after.tail = before.tail ∧ after.size = before.size ∧
      (∃ entries, Represents before entries ∧ Represents after entries) ∧
      ∀ later final, run step after later = some final → final = after ∧ Blocked final := by
  obtain ⟨mutex, entries, rep⟩ := kept_of_run ready ran
  obtain ⟨waited, lost, head, tail, size⟩ := listAdd_short short failed
  have free : before.mutex = 1 := mutex.resolve_left waited
  have taken : after.mutex = 0 := by rw [lost, free]
  obtain ⟨after', failed', rep', -⟩ := listAdd_without_memory (x := x) rep free short
    fun addr same => fresh.1 addr same
  obtain rfl := (Prod.mk.inj (Except.ok.inj (failed'.symm.trans failed))).1
  refine ⟨proceeds_of_free rep free, fun intact => ?_, free, taken, head, tail, size, ⟨entries, rep, rep'⟩,
    fun later final ran => ?_⟩
  · have same := intact.mutex
    rw [taken, free] at same
    cases same
  · obtain rfl := taken_of_run taken ran
    exact ⟨rfl, blocked_of_taken taken⟩

/-- Two elements are added and one is removed, and then there is no memory for the
copy of a third. -/
def twoAddedOneRemoved : List (Call Int) :=
  [.add (some 5) false (some 0) (some 0), .add (some 6) false (some 1) (some 1), .remove (some 7) false]

theorem failed_add_never_intact_two_added_one_removed : ∃ before after : CList Int,
    run step (initList (· - ·) (Heap.empty.write 7 5)) twoAddedOneRemoved = some before ∧
      listAdd before (some 8) false (some 2) none = .ok (after, none) ∧ after.size = 1 ∧
      ¬ Intact before after ∧ Blocked after := by
  have ready : Along step Ready (initList (· - ·) (Heap.empty.write 7 (5 : Int))) twoAddedOneRemoved := by
    decide
  have ran : ∃ before, run step (initList (· - ·) (Heap.empty.write 7 (5 : Int))) twoAddedOneRemoved =
      some before ∧ Ready before (.add (some 8) false (some 2) none) := ⟨_, rfl, by decide⟩
  obtain ⟨before, ran, fresh⟩ := ran
  obtain ⟨after, failed⟩ : ∃ after, listAdd before (some 8) false (some 2) none = .ok (after, none) := by
    cases ran
    exact ⟨_, rfl⟩
  obtain ⟨-, harmed, -, -, -, -, size, -, onward⟩ :=
    failed_add_never_intact _ _ _ ready ran fresh (.inr rfl) failed
  refine ⟨before, after, ran, failed, ?_, harmed, (onward [] _ rfl).2⟩
  rw [size]
  cases ran
  rfl

/-- `malloc` returns nothing for the first cell of an empty list: no call is served
any more. -/
theorem failed_add_keeps_mutex : ∃ after : CList Int,
    listAdd (initList (· - ·) Heap.empty) (some 5) false none none = .ok (after, none) ∧
      after.mutex = 0 ∧ listAdd after (some 5) false (some 0) (some 0) = .error .blocked ∧
      listDispose after false = .error .blocked ∧
      ¬ Intact (initList (· - ·) Heap.empty) after := by
  refine ⟨_, rfl, rfl, rfl, rfl, fun intact => ?_⟩
  cases intact.mutex

end LocalServer.ListFailures
