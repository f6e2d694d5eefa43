import LocalServer.CList
import LocalServer.Lib.Runs

/-! The server's list of clients and the threads that serve them. Every thread
keeps a pointer into the list, while the list tells its entries apart by pid
alone; the two agree exactly as long as no thread ends in the shadow of an older
one and no thread is missing. -/
namespace LocalServer.ClientList
open Runs ShmQueue CList LinkedList

def NOT_ENOUGH_MEMORY : Int := -1
def THREAD_ERROR : Int := -2

/-- `request_cmp`. -/
def requestCmp (a b : ShmRequest) : Int :=
  if a.pid > b.pid then 1 else if a.pid = b.pid then 0 else -1

/-- A live `handle_request` thread: the pointer it was given and what it pointed to. -/
structure Handler where
  req : Addr
  given : ShmRequest
  deriving DecidableEq

/-- The list, the live threads with the oldest first, and whether the main loop
still accepts connections. -/
structure Server where
  clientList : CList ShmRequest
  handlers : List Handler
  serving : Bool

/-- What the environment answers to `allocate_request_ressources`: the addresses
`malloc` gives to the cell and to the copy of the request, and whether the thread
could be created and detached. -/
structure Allocation where
  cell : Option Addr
  value : Option Addr
  created : Bool
  detached : Bool
  deriving DecidableEq

/-- `allocate_request_ressources`. -/
def allocateRequestRessources (s : Server) (request : ShmRequest) (answers : Allocation) :
    Except Fault (Server × Int) :=
  match listAdd s.clientList (some request) false answers.cell answers.value with
  | .error fault => .error fault
  | .ok (clientList, none) => .ok ({ s with clientList := clientList }, NOT_ENOUGH_MEMORY)
  | .ok (clientList, some r) =>
    if answers.created = false then .ok ({ s with clientList := clientList }, THREAD_ERROR)
    else
      let s := { s with clientList := clientList, handlers := s.handlers ++ [⟨r, request⟩] }
      if answers.detached = false then .ok (s, THREAD_ERROR) else .ok (s, 1)

/-- `malloc` returns the address of no live object. -/
def Allocation.fresh (answers : Allocation) (l : CList ShmRequest) : Bool :=
  answers.cell.all (fun cell => (l.cells cell).isNone) &&
    answers.value.all fun value => (l.values value).isNone

/-- A connection is accepted, or the thread at this place of the list of live
threads reaches its label `remove`. -/
inductive Event where
  | connect (request : ShmRequest) (answers : Allocation)
  | finish (i : Nat)

/-- One event. The main loop returns once a request could not be handled. -/
def step (s : Server) : Event → Option Server
  | .connect request answers =>
    if s.serving ∧ answers.fresh s.clientList then
      match allocateRequestRessources s request answers with
      | .ok (s', r) => some { s' with serving := decide (0 ≤ r) }
      | .error _ => none
    else none
  | .finish i =>
    match s.handlers[i]? with
    | none => none
    | some handler =>
      match listRemove s.clientList (some handler.req) false with
      | .ok (clientList, _) =>
        some { s with clientList := clientList, handlers := s.handlers.eraseIdx i }
      | .error _ => none

/-- `main` has built an empty list. -/
def start : Server := ⟨initList requestCmp Heap.empty, [], true⟩

/-- The list holds one entry for each live thread and no other, and what a live
thread reads through its pointer is still there. -/
def Server.Mirrors (s : Server) : Prop :=
  (∃ entries, Represents s.clientList entries ∧
    (entries.map Entry.value).Perm (s.handlers.map Handler.req)) ∧
  ∀ handler ∈ s.handlers, s.clientList.values handler.req = some handler.given

/-- A thread that ends takes the very entry it was given out of the list. -/
def RemovesOwn (s : Server) (event : Event) (s' : Server) : Prop :=
  match event with
  | .connect .. => True
  | .finish i => ∃ handler entry before after, s.handlers[i]? = some handler ∧
    entry.value = handler.req ∧ Represents s.clientList (before ++ entry :: after) ∧
    Represents s'.clientList (before ++ after)

/-- The list mirrors the threads here, and still does what it should in this step. -/
def MirrorsBefore (s : Server) (event : Event) : Prop :=
  s.Mirrors ∧ ∀ s', step s event = some s' → RemovesOwn s event s'

/-- The connection gets its thread, or not even an entry; the thread that ends is
the oldest of those with its pid. -/
def Unshadowed (s : Server) : Event → Prop
  | .connect _ answers => answers.created = true ∨ answers.cell = none ∨ answers.value = none
  | .finish i => ∀ handler, s.handlers[i]? = some handler →
    ∀ (j : Nat) (older : Handler), j < i → s.handlers[j]? = some older →
      older.given.pid ≠ handler.given.pid

/-! ## The list and the threads in step -/

variable {s s' : Server} {event : Event} {events : List Event} {request : ShmRequest}
  {answers : Allocation} {entries : List (Entry ShmRequest)} {i : Nat}

theorem requestCmp_eq_zero {a b : ShmRequest} : requestCmp a b = 0 ↔ a.pid = b.pid := by
  unfold requestCmp
  split <;> [skip; split] <;> constructor <;> intro <;> omega

/-- The thread an entry was given to. -/
def handlerOf (entry : Entry ShmRequest) : Handler := ⟨entry.value, entry.content⟩

/-- The list and the live threads hold the same records in the same order. -/
structure InStep (s : Server) (entries : List (Entry ShmRequest)) : Prop where
  holds : Represents s.clientList entries
  served : s.handlers = entries.map handlerOf
  mutex : s.clientList.mutex ≤ 1
  compar : s.clientList.compar = requestCmp

theorem inStep_start : InStep start [] where
  holds := represents_initList ..
  served := rfl
  mutex := Nat.le_refl 1
  compar := rfl

theorem InStep.mirrors (agree : InStep s entries) : s.Mirrors := by
  refine ⟨⟨entries, agree.holds, ?_⟩, ?_⟩
  · rw [agree.served, List.map_map]
    exact List.Perm.refl _
  · intro handler member
    rw [agree.served] at member
    obtain ⟨entry, among, rfl⟩ := List.mem_map.mp member
    exact agree.holds.stored entry among

theorem InStep.entry_at (agree : InStep s entries) {handler : Handler}
    (found : s.handlers[i]? = some handler) :
    ∃ entry, entries[i]? = some entry ∧ handlerOf entry = handler := by
  rw [agree.served, List.getElem?_map] at found
  exact Option.map_eq_some_iff.mp found

/-- What a step does: it keeps the list and the threads in step and removes the
right entry, or the list stops mirroring the threads. -/
inductive Effect (s : Server) (event : Event) (s' : Server) : Prop
  | kept (unshadowed : Unshadowed s event) (removed : RemovesOwn s event s')
      (entries : List (Entry ShmRequest)) (agree : InStep s' entries)
  | broken (shadowed : ¬ Unshadowed s event) (lost : ¬ s'.Mirrors)

theorem accepted (agree : InStep s entries)
    (stepped : step s (.connect request answers) = some s') :
    Effect s (.connect request answers) s' := by
  simp only [step] at stepped
  split at stepped
  case isFalse => cases stepped
  case isTrue ready =>
  have freshCell : ∀ cell, answers.cell = some cell → s.clientList.cells cell = none := by
    intro cell given
    simpa [Allocation.fresh, given] using (Bool.and_eq_true_iff.mp ready.2).1
  have freshValue : ∀ value, answers.value = some value → s.clientList.values value = none := by
    intro value given
    simpa [Allocation.fresh, given] using (Bool.and_eq_true_iff.mp ready.2).2
  by_cases taken : s.clientList.mutex = 0
  · simp [allocateRequestRessources, listAdd_taken taken] at stepped
  have free : s.clientList.mutex = 1 := by have := agree.mutex; omega
  by_cases short : answers.cell = none ∨ answers.value = none
  · obtain ⟨l', added, holds, mutex, compar, -⟩ := listAdd_without_memory (x := request) agree.holds
      free short freshCell
    simp only [allocateRequestRessources, added, Option.some.injEq] at stepped
    subst stepped
    exact .kept (.inr short) trivial entries
      ⟨holds, agree.served, by simp [mutex], compar.trans agree.compar⟩
  obtain ⟨cell, cellEq⟩ := Option.ne_none_iff_exists'.mp (not_or.mp short).1
  obtain ⟨value, valueEq⟩ := Option.ne_none_iff_exists'.mp (not_or.mp short).2
  obtain ⟨l', added, holds, mutex, compar, -⟩ := listAdd_represents (x := request) agree.holds free
    (freshCell cell cellEq) (freshValue value valueEq)
  simp only [allocateRequestRessources, cellEq, valueEq, added] at stepped
  by_cases created : answers.created = true
  · simp only [created, Bool.true_eq_false, if_false] at stepped
    have agree' : ∀ serving, InStep ⟨l', s.handlers ++ [⟨value, request⟩], serving⟩
        (entries ++ [⟨cell, value, request⟩]) := fun serving =>
      ⟨holds, by simp [agree.served, handlerOf], by simp [mutex], compar.trans agree.compar⟩
    cases detached : answers.detached <;>
      simp only [detached, if_true, Bool.true_eq_false, if_false, Option.some.injEq] at stepped <;>
      subst stepped <;>
      exact .kept (.inl created) trivial _ (agree' _)
  · rw [Bool.not_eq_true] at created
    simp only [created, if_true, Option.some.injEq] at stepped
    subst stepped
    refine .broken (by simp [Unshadowed, created, cellEq, valueEq]) ?_
    rintro ⟨⟨listed, holds', same⟩, -⟩
    have sizes := holds'.size.symm.trans holds.size
    have counts := same.length_eq
    simp [agree.served] at sizes counts
    omega

/-- The entry that goes is the first with the pid of the thread that ends. -/
theorem finished (agree : InStep s entries) (stepped : step s (.finish i) = some s') :
    Effect s (.finish i) s' := by
  cases at_i : s.handlers[i]? with
  | none => simp [step, at_i] at stepped
  | some handler =>
    obtain ⟨entry, entryAt, rfl⟩ := agree.entry_at at_i
    have stored := agree.holds.stored entry (List.mem_of_getElem? entryAt)
    by_cases taken : s.clientList.mutex = 0
    · simp [step, at_i, listRemove_taken taken] at stepped
    have free : s.clientList.mutex = 1 := by have := agree.mutex; omega
    obtain ⟨l', r, removed, mutex, compar, outcome⟩ :=
      listRemove_represents agree.holds free stored
    have reached : s' = { s with clientList := l', handlers := s.handlers.eraseIdx i } := by
      simpa [step, at_i, handlerOf, removed] using stepped.symm
    simp only [agree.compar, requestCmp_eq_zero] at outcome
    split at outcome
    case _ missing =>
      have mismatch := List.find?_eq_none.mp missing entry (List.mem_of_getElem? entryAt)
      simp at mismatch
    case _ first found =>
    obtain ⟨rfl, values, holds⟩ := outcome
    obtain ⟨same, before, after, rfl, mismatch⟩ := List.find?_eq_some_iff_append.mp found
    have differs : ∀ other ∈ before, entry.content.pid ≠ other.content.pid :=
      fun other member => by simpa using mismatch other member
    rw [List.eraseP_append_right _ (by simpa using mismatch),
      List.eraseP_cons_of_pos (by simpa using same)] at holds
    rcases Nat.lt_trichotomy before.length i with earlier | rfl | later
    · have firstAt : s.handlers[before.length]? = some (handlerOf first) := by
        simp [agree.served]
      refine .broken ?_ fun ⟨_, live⟩ => ?_
      · intro unshadowed
        exact unshadowed _ at_i _ _ earlier firstAt (by simpa [handlerOf, eq_comm] using same)
      · have member : handlerOf first ∈ s'.handlers := by
          rw [reached]
          exact List.mem_eraseIdx_iff_getElem?.mpr ⟨before.length, by omega, firstAt⟩
        have present := live _ member
        simp [reached, values, handlerOf] at present
    · obtain rfl : first = entry := by simpa using entryAt
      refine .kept ?_ ?_ (before ++ after) ⟨by simpa [reached] using holds, ?_, ?_, ?_⟩
      · intro handler found j older before_i olderAt
        obtain ⟨other, otherAt, rfl⟩ := agree.entry_at olderAt
        obtain rfl : handlerOf first = handler := by simpa [at_i] using found
        have member : other ∈ before := by
          rw [List.getElem?_append_left before_i] at otherAt
          exact List.mem_of_getElem? otherAt
        exact (differs other member).symm
      · exact ⟨_, first, before, after, at_i, rfl, agree.holds, by simpa [reached] using holds⟩
      · rw [reached, agree.served]
        simp [List.eraseIdx_append_of_length_le]
      · simp [reached, mutex]
      · simpa [reached] using compar.trans agree.compar
    · have member : entry ∈ before := by
        rw [List.getElem?_append_left later] at entryAt
        exact List.mem_of_getElem? entryAt
      exact absurd rfl (differs entry member)

theorem effect_of_step (agree : InStep s entries) (stepped : step s event = some s') :
    Effect s event s' := by
  cases event with
  | connect request answers => exact accepted agree stepped
  | finish i => exact finished agree stepped

/-! ## Runs -/

/-- **The client list and the threads.** In every run of connections, thread
failures and session ends, the list holds one entry for each live thread and no
other, no live thread's entry is freed and every thread that ends removes its own
entry, exactly when every accepted connection got its thread and no thread ended
while an older one had the same pid. -/
theorem client_list_mirrors_iff {final : Server} (ran : run step start events = some final) :
    (Along step MirrorsBefore start events ∧ final.Mirrors) ↔
      Along step Unshadowed start events := by
  suffices general : ∀ (events : List Event) (s : Server) entries, InStep s entries →
      run step s events = some final →
      ((Along step MirrorsBefore s events ∧ final.Mirrors) ↔ Along step Unshadowed s events) from
    general events start [] inStep_start ran
  intro events
  induction events with
  | nil =>
    intro s entries agree ran
    cases ran
    simp [Along, agree.mirrors]
  | cons event events ih =>
    intro s entries agree ran
    obtain ⟨middle, first, rest⟩ := run_cons_eq_some.mp ran
    cases effect_of_step agree first with
    | kept unshadowed removed entries' agree' =>
      have later := ih middle entries' agree' rest
      simp only [Along, first, Option.some.injEq, forall_eq', unshadowed, true_and, ← later]
      constructor
      · rintro ⟨⟨-, along⟩, ends⟩
        exact ⟨along, ends⟩
      · rintro ⟨along, ends⟩
        refine ⟨⟨⟨agree.mirrors, fun s' reached => ?_⟩, along⟩, ends⟩
        rw [first] at reached
        cases reached
        exact removed
    | broken shadowed lost =>
      simp only [Along, first, Option.some.injEq, forall_eq', shadowed, false_and, iff_false]
      rintro ⟨⟨-, along⟩, ends⟩
      cases events with
      | nil => cases rest; exact lost ends
      | cons _ _ => exact lost along.1.1

/-- A request that carries this pid. -/
def clientOf (pid : Int) : ShmRequest := { zeroRequest with pid := pid }

/-- Two clients connect, and the older one leaves. -/
def olderLeaves : List Event :=
  [.connect (clientOf 7) ⟨some 10, some 20, true, true⟩,
   .connect (clientOf 8) ⟨some 11, some 21, true, true⟩, .finish 0]

theorem client_list_mirrors_iff_older_leaves : ∃ final,
    run step start olderLeaves = some final ∧ final.handlers = [⟨21, clientOf 8⟩] ∧
      Along step MirrorsBefore start olderLeaves ∧ final.Mirrors := by
  have computed : (run step start olderLeaves).map Server.handlers = some [⟨21, clientOf 8⟩] := by
    decide +kernel
  obtain ⟨final, ran, handlers⟩ := Option.map_eq_some_iff.mp computed
  refine ⟨final, ran, handlers, (client_list_mirrors_iff ran).mpr ?_⟩
  refine ⟨.inl rfl, fun _ _ => ⟨.inl rfl, fun _ _ => ⟨?_, fun _ _ => trivial⟩⟩⟩
  intro handler _ j older before
  exact absurd before (Nat.not_lt_zero j)

/-- A client takes over the pid of a dead one and leaves first: the thread still
blocked on the pipes of the dead client loses its entry. -/
def youngerLeaves : List Event :=
  [.connect (clientOf 7) ⟨some 10, some 20, true, true⟩,
   .connect (clientOf 7) ⟨some 11, some 21, true, true⟩, .finish 1]

theorem reused_pid_frees_live_entry : ∃ final,
    run step start youngerLeaves = some final ∧ final.handlers = [⟨20, clientOf 7⟩] ∧
      final.clientList.values 20 = none ∧ ¬ final.Mirrors := by
  have computed : (run step start youngerLeaves).map
      (fun s => (s.handlers, s.clientList.values 20)) = some ([⟨20, clientOf 7⟩], none) := by
    decide +kernel
  obtain ⟨final, ran, same⟩ := Option.map_eq_some_iff.mp computed
  obtain ⟨handlers, freed⟩ := Prod.mk.injEq .. ▸ same
  refine ⟨final, ran, handlers, freed, fun ⟨_, live⟩ => ?_⟩
  have present := live ⟨20, clientOf 7⟩ (by simp [handlers])
  rw [freed] at present
  cases present

end LocalServer.ClientList
