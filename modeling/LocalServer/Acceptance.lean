import LocalServer.ClientList
import LocalServer.Lib.Admission
import LocalServer.ShmQueueSafety

/-! The main loop of the server between the queue and the threads. A request that a
client stored is fetched, put into the list of clients and given to a thread, all of it
inside the critical section of the queue; seen from outside this is a door with a
waiting room before it. -/
namespace LocalServer.Acceptance
open Runs Simulation Admission
open ShmQueue (ServerQueue Submission ShmRequest System Call FetchPc FetchMove Outcome Tokens Content
  initServerQueue INT_MAX SEMAPHORE_ERROR)
open ClientList (Allocation allocateRequestRessources)

/-- The queue with all calls on it, the place that the call of the main thread has among
them as long as `main` is in its loop, and the clients with their threads. -/
structure Acceptor where
  system : System
  main : Option Nat
  server : ClientList.Server

inductive Event where
  | submit (sub : Submission)
  /-- A call of `send_shm_request` takes a step. -/
  | client (i : Nat) (outcome : Outcome)
  /-- The main thread takes a step outside `apply`. -/
  | main (outcome : Outcome)
  /-- The main thread is in `apply`. -/
  | apply (answers : Allocation)
  /-- The thread at this place of the live threads reaches its label `remove`. -/
  | finish (i : Nat)

/-- The call at this place takes a step. -/
def Acceptor.turn (s : Acceptor) (i : Nat) (outcome : Outcome) : Option Acceptor :=
  (ShmQueue.step s.system (.turn i outcome)).map fun system => { s with system := system }

/-- The loop of `main`: behind a call that returned it calls `fetch_shm_request` again,
or it returns. -/
def Acceptor.loop (s : Acceptor) (j : Nat) : Acceptor :=
  match s.system.calls[j]? with
  | some (.fetch (.refused r)) | some (.fetch (.abandoned r)) | some (.fetch (.returned r)) =>
    if r < 0 then { s with main := none }
    else
      { s with
        system := { s.system with calls := s.system.calls ++ [.fetch .waitFull] }
        main := some s.system.calls.length }
  | some (.fetch .crashed) => { s with main := none }
  | _ => s

def step (s : Acceptor) : Event → Option Acceptor
  | .submit sub => (ShmQueue.step s.system (.send sub)).map fun system => { s with system := system }
  | .client i outcome =>
    match s.system.calls[i]? with
    | some (.send _ _) => s.turn i outcome
    | _ => none
  | .main outcome =>
    match s.main with
    | none => none
    | some j =>
      if s.system.calls[j]? = some (.fetch .apply) then none
      else (s.turn j outcome).map (·.loop j)
  | .apply answers =>
    match s.main with
    | none => none
    | some j =>
      if s.system.calls[j]? = some (.fetch .apply) ∧ answers.fresh s.server.clientList then
        match s.system.queue.buffer[s.system.queue.tail]? with
        -- a read outside the buffer
        | none => (s.turn j (.value 0)).map (·.loop j)
        | some request =>
          match allocateRequestRessources s.server request answers with
          | .error _ => none
          | .ok (server, r) =>
            { s with server := { server with serving := decide (0 ≤ r) } }.turn j (.value r)
      else none
  | .finish i => (ClientList.step s.server (.finish i)).map fun server => { s with server := server }

/-- `main` calls `fetch_shm_request` for the first time. -/
def start (queue : ServerQueue) : Acceptor :=
  ⟨⟨queue, [.fetch .waitFull], [], []⟩, some 0, ClientList.start⟩

/-- The waiting room and the door: who was stored and not fetched waits, who has a live
thread is inside, and the door is open while `main` goes on. -/
def Acceptor.view (s : Acceptor) : Service ShmRequest where
  capacity := s.system.queue.nbSlots
  waiting := (s.system.stored.map Submission.request).drop s.system.applied.length
  inside := s.server.handlers.map ClientList.Handler.given
  isOpen := s.server.serving && s.main.isSome

/-- What a step shows at the door. -/
def shows (s : Acceptor) : Event → List (Action ShmRequest)
  | .submit _ => []
  | .client i _ =>
    match s.system.calls[i]? with
    | some (.send sub pc) => if pc = .store then [.arrive sub.request] else []
    | _ => []
  | .main outcome =>
    match step s (.main outcome) with
    | some next => if next.main = none then [.close] else []
    | none => []
  | .apply answers =>
    match s.system.queue.buffer[s.system.queue.tail]? with
    | none => []
    | some request =>
      match allocateRequestRessources s.server request answers with
      | .error _ => []
      | .ok (server, r) =>
        if server.handlers.length = s.server.handlers.length then [.refuse request]
        else [.accept request (decide (0 ≤ r))]
  | .finish i => [.leave i]

/-! ## What keeps the two together -/

/-- Where a call of the main thread may be: it has not come back, and behind `apply` it
carries the result that decides whether `main` goes on. -/
def Fetching (serving : Bool) : FetchPc → Prop
  | .waitFull | .waitMutex | .apply => serving = true
  | .moveTail r | .shrink r | .postMutex r | .postEmpty r => serving = decide (0 ≤ r)
  | .refused _ | .abandoned _ | .returned _ | .crashed => False

/-- The queue is in order, and the main thread is in a call. -/
structure Running (maxSlot : Nat) (s : Acceptor) : Prop where
  queue : Tokens maxSlot s.system ∧ Content maxSlot s.system
  main : ∀ j, s.main = some j →
    ∃ pc, s.system.calls[j]? = some (.fetch pc) ∧ Fetching s.server.serving pc

variable {maxSlot i j : Nat} {s s' : Acceptor} {system : System} {event : Event} {outcome : Outcome}
  {queue : ServerQueue} {answers : Allocation} {request : ShmRequest} {r : Int} {pc pc' : FetchPc}

theorem running_start (bound : maxSlot ≤ INT_MAX) (built : initServerQueue maxSlot = some queue) :
    Running maxSlot (start queue) where
  queue := by
    have first : ShmQueue.step (ShmQueue.start queue) .fetch = some (start queue).system := rfl
    exact ShmQueue.step_invariant bound _ _ _
      ⟨ShmQueue.tokens_start bound built, ShmQueue.content_start bound built⟩ first
  main := by
    rintro j ⟨⟩
    exact ⟨.waitFull, rfl, rfl⟩

/-- `allocate_request_ressources` gives the request a thread, or reports an error. -/
theorem allocate_cases {server server' : ClientList.Server}
    (allocated : allocateRequestRessources server request answers = .ok (server', r)) :
    (server'.handlers = server.handlers ∧ r < 0) ∨
      ∃ req, server'.handlers = server.handlers ++ [⟨req, request⟩] := by
  unfold allocateRequestRessources at allocated
  split at allocated
  · cases allocated
  · cases allocated
    exact .inl ⟨rfl, by decide⟩
  · next clientList req _ =>
    by_cases created : answers.created = false
    · rw [if_pos created] at allocated
      cases allocated
      exact .inl ⟨rfl, by decide⟩
    · rw [if_neg created] at allocated
      dsimp only at allocated
      split at allocated <;> cases allocated <;> exact .inr ⟨req, rfl⟩

theorem turn_eq_some : s.turn i outcome = some s' ↔
    ∃ system, ShmQueue.step s.system (.turn i outcome) = some system ∧ { s with system := system } = s' := by
  rw [Acceptor.turn, Option.map_eq_some_iff]

theorem turn_invariant (bound : maxSlot ≤ INT_MAX) (queue : Tokens maxSlot s.system ∧ Content maxSlot s.system)
    (turned : s.turn i outcome = some s') : Tokens maxSlot s'.system ∧ Content maxSlot s'.system := by
  obtain ⟨system, stepped, rfl⟩ := turn_eq_some.mp turned
  exact ShmQueue.step_invariant bound _ _ _ queue stepped

/-- A step of a call changes the queue and this call. -/
theorem turn_fetch (found : s.system.calls[j]? = some (.fetch pc)) (turned : s.turn j outcome = some s') :
    ∃ queue pc', FetchMove s.system.queue pc queue pc' ∧
      s' = { s with system := { s.system with
        queue := queue
        calls := s.system.calls.set j (.fetch pc')
        applied := if pc = .apply then s.system.applied ++ (s.system.queue.buffer[s.system.queue.tail]?).toList
          else s.system.applied } } := by
  obtain ⟨system, stepped, rfl⟩ := turn_eq_some.mp turned
  simp only [ShmQueue.step, found] at stepped
  obtain ⟨⟨queue, pc'⟩, moved, rfl⟩ := Option.map_eq_some_iff.mp stepped
  exact ⟨queue, pc', ShmQueue.fetchShmRequest_moves moved, rfl⟩

/-! ## The main thread -/

/-- Outside `apply` a call of the main thread goes on, or comes back with an error or
after a request that was served. -/
theorem fetching_move {queue' : ServerQueue} {serving : Bool} (fetching : Fetching serving pc)
    (move : FetchMove queue pc queue' pc') (outside : pc ≠ .apply) :
    Fetching serving pc' ∨ pc' = .crashed ∨
      ∃ r, (pc' = .refused r ∨ pc' = .abandoned r ∨ pc' = .returned r) ∧ (0 ≤ r → serving = true) := by
  cases move with
  | refuse r => exact .inr (.inr ⟨r, .inl rfl, fun _ => fetching⟩)
  | abandon r => exact .inr (.inr ⟨r, .inr (.inl rfl), fun _ => fetching⟩)
  | takeFull | enter | moveTail | shrink | postMutex => exact .inl fetching
  | apply | applyOutside => exact absurd rfl outside
  | divideByZero => exact .inr (.inl rfl)
  | postEmpty => exact .inr (.inr ⟨_, .inr (.inr rfl), fun served => by rw [fetching, decide_eq_true served]⟩)
  | mutexOverflow | emptyOverflow => exact .inr (.inr ⟨SEMAPHORE_ERROR, .inr (.inr rfl), fun served => absurd served (by decide)⟩)

/-- Behind its call `main` is in a call again, and nothing has changed at the door, or
it has left its loop. -/
theorem loop_running (bound : maxSlot ≤ INT_MAX) (queue : Tokens maxSlot s.system ∧ Content maxSlot s.system)
    (here : s.main = some j) (found : s.system.calls[j]? = some (.fetch pc))
    (which : Fetching s.server.serving pc ∨ pc = .crashed ∨
      ∃ r, (pc = .refused r ∨ pc = .abandoned r ∨ pc = .returned r) ∧ (0 ≤ r → s.server.serving = true)) :
    Running maxSlot (s.loop j) ∧
      run Admission.step s.view (if (s.loop j).main = none then [.close] else []) = some (s.loop j).view := by
  have left : Running maxSlot { s with main := none } ∧
      run Admission.step s.view [.close] = some { s with main := none }.view := by
    refine ⟨⟨queue, nofun⟩, ?_⟩
    simp [Admission.step, Acceptor.view]
  rcases which with fetching | rfl | ⟨r, which, served⟩
  · have stays : s.loop j = s := by
      rw [Acceptor.loop, found]
      cases pc <;> first | rfl | exact fetching.elim
    rw [stays, here, if_neg (Option.some_ne_none j)]
    refine ⟨⟨queue, fun k same => ?_⟩, rfl⟩
    obtain rfl : j = k := Option.some.inj (here.symm.trans same)
    exact ⟨pc, found, fetching⟩
  · have ends : s.loop j = { s with main := none } := by rw [Acceptor.loop, found]
    rw [ends, if_pos rfl]
    exact left
  · have goes : s.loop j = if r < 0 then { s with main := none } else
        { s with
          system := { s.system with calls := s.system.calls ++ [.fetch .waitFull] }
          main := some s.system.calls.length } := by
      rcases which with rfl | rfl | rfl <;> rw [Acceptor.loop, found]
    by_cases failed : r < 0
    · rw [goes, if_pos failed, if_pos rfl]
      exact left
    · rw [goes, if_neg failed, if_neg (Option.some_ne_none _)]
      have again : ShmQueue.step s.system .fetch =
          some { s.system with calls := s.system.calls ++ [.fetch .waitFull] } := rfl
      refine ⟨⟨ShmQueue.step_invariant bound _ _ _ queue again, fun k same => ?_⟩, ?_⟩
      · obtain rfl : s.system.calls.length = k := Option.some.inj same
        exact ⟨.waitFull, List.getElem?_concat_length, served (not_lt.mp failed)⟩
      · simp [Acceptor.view, here]

theorem main_step (bound : maxSlot ≤ INT_MAX) (running : Running maxSlot s)
    (stepped : step s (.main outcome) = some s') :
    Running maxSlot s' ∧ run Admission.step s.view (shows s (.main outcome)) = some s'.view := by
  have shown : shows s (.main outcome) = if s'.main = none then [.close] else [] := by rw [shows, stepped]
  rw [shown]
  simp only [step] at stepped
  cases here : s.main with
  | none =>
    rw [here] at stepped
    cases stepped
  | some j =>
    simp only [here] at stepped
    obtain ⟨pc, found, fetching⟩ := running.main j here
    by_cases inside : s.system.calls[j]? = some (.fetch .apply)
    · rw [if_pos inside] at stepped
      cases stepped
    · rw [if_neg inside] at stepped
      obtain ⟨turned, turning, rfl⟩ := Option.map_eq_some_iff.mp stepped
      have outside : pc ≠ .apply := fun same => inside (same ▸ found)
      have kept := turn_invariant bound running.queue turning
      obtain ⟨queue, pc', move, rfl⟩ := turn_fetch found turning
      rw [if_neg outside] at kept ⊢
      have place : (s.system.calls.set j (.fetch pc'))[j]? = some (.fetch pc') := by
        rw [List.getElem?_set_self (List.getElem?_eq_some_iff.mp found).1]
      obtain ⟨running', shown⟩ := loop_running bound kept here place (fetching_move fetching move outside)
      have slots : queue.nbSlots = maxSlot := kept.1.slots
      have sameDoor : s.view = { s with system := { s.system with
          queue := queue, calls := s.system.calls.set j (.fetch pc') } }.view := by
        simp only [Acceptor.view, slots, running.queue.1.slots]
      rw [sameDoor]
      exact ⟨running', shown⟩

/-! ## The clients and `apply` -/

/-- A call that another event moves is not that of the main thread. -/
theorem Running.main_set (running : Running maxSlot s) {call : Call}
    (other : ∀ pc, s.system.calls[i]? ≠ some (.fetch pc)) :
    ∀ j, s.main = some j → ∃ pc, (s.system.calls.set i call)[j]? = some (.fetch pc) ∧
      Fetching s.server.serving pc := by
  intro j here
  obtain ⟨pc, found, fetching⟩ := running.main j here
  refine ⟨pc, ?_, fetching⟩
  rw [List.getElem?_set_ne, found]
  rintro rfl
  exact other pc found

theorem client_step (bound : maxSlot ≤ INT_MAX) (running : Running maxSlot s)
    (stepped : step s (.client i outcome) = some s') :
    Running maxSlot s' ∧ run Admission.step s.view (shows s (.client i outcome)) = some s'.view := by
  simp only [step] at stepped
  split at stepped
  case h_2 => cases stepped
  case h_1 sub pc found =>
  have kept := turn_invariant bound running.queue stepped
  obtain ⟨system, moved, rfl⟩ := turn_eq_some.mp stepped
  simp only [ShmQueue.step, found] at moved
  obtain ⟨⟨queue, pc'⟩, -, rfl⟩ := Option.map_eq_some_iff.mp moved
  have running' : Running maxSlot _ := ⟨kept, running.main_set fun _ there => by cases found.symm.trans there⟩
  refine ⟨running', ?_⟩
  have slots : queue.nbSlots = maxSlot := kept.1.slots
  simp only [shows, found]
  by_cases storing : pc = .store
  · subst storing
    have room := (running.queue.2.store running.queue.1 found).2
    have handed := running.queue.1.window.1
    have waiting : (s.system.stored.map Submission.request).drop s.system.applied.length ++ [sub.request] =
        ((s.system.stored ++ [sub]).map Submission.request).drop s.system.applied.length := by
      rw [List.map_append, List.drop_append_of_le_length (by rw [List.length_map]; omega)]
      rfl
    have free : s.view.waiting.length < s.view.capacity := by
      simp only [Acceptor.view, List.length_drop, List.length_map, running.queue.1.slots]
      omega
    rw [if_pos rfl, run_cons, Admission.step, if_pos free]
    simp only [Acceptor.view, if_true, Option.bind_some, run_nil, waiting, slots, running.queue.1.slots]
  · simp only [if_neg storing, run_nil, Acceptor.view, slots, running.queue.1.slots]

/-- In `apply` the slot at `tail` is the head of the waiting room. -/
theorem first_waiting (queue : Tokens maxSlot system ∧ Content maxSlot system)
    (found : system.calls[j]? = some (.fetch .apply)) :
    ∃ request, system.queue.buffer[system.queue.tail]? = some request ∧
      (system.stored.map Submission.request).drop system.applied.length =
        request :: (system.stored.map Submission.request).drop (system.applied.length + 1) := by
  obtain ⟨request, lookup, order, -⟩ := queue.2.apply queue.1 found
  refine ⟨request, lookup, ?_⟩
  have number : (system.stored.map Submission.request)[system.applied.length]? = some request := by
    rw [← List.getElem?_take_of_lt (Nat.lt_succ_self _), ← order]
    exact List.getElem?_concat_length
  obtain ⟨inside, same⟩ := List.getElem?_eq_some_iff.mp number
  rw [List.drop_eq_getElem_cons inside, same]

theorem apply_step (bound : maxSlot ≤ INT_MAX) (running : Running maxSlot s)
    (stepped : step s (.apply answers) = some s') :
    Running maxSlot s' ∧ run Admission.step s.view (shows s (.apply answers)) = some s'.view := by
  simp only [step] at stepped
  cases here : s.main with
  | none =>
    rw [here] at stepped
    cases stepped
  | some j =>
    simp only [here] at stepped
    split at stepped
    case isFalse => cases stepped
    case isTrue ready =>
    obtain ⟨found, -⟩ := ready
    obtain ⟨request, lookup, waiting⟩ := first_waiting running.queue found
    simp only [lookup] at stepped
    cases allocated : allocateRequestRessources s.server request answers with
    | error fault =>
      simp only [allocated] at stepped
      cases stepped
    | ok outcome =>
      obtain ⟨server, r⟩ := outcome
      simp only [allocated] at stepped
      obtain ⟨system, moved, rfl⟩ := turn_eq_some.mp stepped
      have kept := ShmQueue.step_invariant bound _ _ _ running.queue moved
      have inside := (List.getElem?_eq_some_iff.mp lookup).1
      simp only [ShmQueue.step, found, ShmQueue.fetchShmRequest, if_pos inside, Option.map_some, if_true,
        lookup, Option.toList_some, Option.some.injEq] at moved
      subst moved
      obtain ⟨pc, found', fetching⟩ := running.main j here
      obtain rfl : FetchPc.apply = pc := by
        rw [found] at found'
        simpa using found'
      have isOpen : s.server.serving = true := fetching
      have place : (s.system.calls.set j (.fetch (.moveTail r)))[j]? = some (.fetch (.moveTail r)) := by
        rw [List.getElem?_set_self (List.getElem?_eq_some_iff.mp found).1]
      refine ⟨⟨kept, fun k same => ?_⟩, ?_⟩
      · obtain rfl : j = k := Option.some.inj same
        exact ⟨.moveTail r, place, rfl⟩
      · have handed : (s.system.applied ++ [request]).length = s.system.applied.length + 1 := by simp
        have door : s.view.isOpen = true ∧ s.view.waiting.head? = some request := by
          simp [Acceptor.view, isOpen, here, waiting]
        simp only [shows, lookup, allocated]
        rcases allocate_cases allocated with ⟨same, failed⟩ | ⟨req, more⟩
        · rw [if_pos (by rw [same]), run_cons, Admission.step, if_pos door]
          simp [Acceptor.view, handed, waiting, same, not_le.mpr failed]
        · rw [if_neg (by simp [more]), run_cons, Admission.step, if_pos door]
          simp [Acceptor.view, handed, waiting, more, here]

theorem finish_step (running : Running maxSlot s) (stepped : step s (.finish i) = some s') :
    Running maxSlot s' ∧ run Admission.step s.view (shows s (.finish i)) = some s'.view := by
  obtain ⟨server, finished, rfl⟩ := Option.map_eq_some_iff.mp stepped
  simp only [ClientList.step] at finished
  split at finished
  case h_1 => cases finished
  case h_2 handler live =>
  split at finished
  case h_2 => cases finished
  case h_1 clientList _ _ =>
  cases finished
  have inside := (List.getElem?_eq_some_iff.mp live).1
  refine ⟨⟨running.queue, running.main⟩, ?_⟩
  simp only [shows, run_cons, run_nil, Admission.step, Acceptor.view, List.length_map, if_pos inside, Option.bind_some,
    List.eraseIdx_map]

theorem submit_step (bound : maxSlot ≤ INT_MAX) (running : Running maxSlot s) {sub : Submission}
    (stepped : step s (.submit sub) = some s') :
    Running maxSlot s' ∧ run Admission.step s.view (shows s (.submit sub)) = some s'.view := by
  have called : ShmQueue.step s.system (.send sub) =
      some { s.system with calls := s.system.calls ++ [.send sub .clock] } := rfl
  cases stepped
  refine ⟨⟨ShmQueue.step_invariant bound _ _ _ running.queue called, fun j here => ?_⟩, rfl⟩
  obtain ⟨pc, found, fetching⟩ := running.main j here
  refine ⟨pc, ?_, fetching⟩
  rw [List.getElem?_append_left (List.getElem?_eq_some_iff.mp found).1, found]

/-- Every step of the server and its clients is one at the door, or none. -/
theorem simulates (bound : maxSlot ≤ INT_MAX) :
    Simulates step Admission.step shows fun lower above => Running maxSlot lower ∧ above = lower.view := by
  rintro s event s' above ⟨running, rfl⟩ stepped
  have matched : Running maxSlot s' ∧ run Admission.step s.view (shows s event) = some s'.view := by
    cases event with
    | submit sub => exact submit_step bound running stepped
    | client i outcome => exact client_step bound running stepped
    | main outcome => exact main_step bound running stepped
    | apply answers => exact apply_step bound running stepped
    | finish i => exact finish_step running stepped
  exact ⟨s'.view, matched.2, matched.1, rfl⟩

/-! ## Whole runs -/

theorem loop_stored (s : Acceptor) (j : Nat) : (s.loop j).system.stored = s.system.stored := by
  rw [Acceptor.loop]
  split
  case h_1 | h_2 | h_3 => split <;> rfl
  all_goals rfl

/-- A step of a call stores nothing, unless it is the store of a `send_shm_request`. -/
theorem turn_stored (found : s.system.calls[j]? = some (.fetch pc)) (turned : s.turn j outcome = some s') :
    s'.system.stored = s.system.stored := by
  obtain ⟨queue, pc', -, rfl⟩ := turn_fetch found turned
  rfl

/-- What is stored is what arrives. -/
theorem arrives (running : Running maxSlot s) (stepped : step s event = some s') :
    s'.system.stored.map Submission.request =
      s.system.stored.map Submission.request ++ arrivals (shows s event) := by
  cases event with
  | submit sub =>
    cases stepped
    exact (List.append_nil _).symm
  | client i outcome =>
    simp only [step] at stepped
    split at stepped
    case h_2 => cases stepped
    case h_1 sub pc found =>
    obtain ⟨system, moved, rfl⟩ := turn_eq_some.mp stepped
    simp only [ShmQueue.step, found] at moved
    obtain ⟨⟨queue, pc'⟩, -, rfl⟩ := Option.map_eq_some_iff.mp moved
    simp only [shows, found]
    by_cases storing : pc = .store
    · simp [storing, arrivals]
    · simp [storing, arrivals]
  | main outcome =>
    have none : arrivals (shows s (.main outcome)) = [] := by
      simp only [shows, stepped]
      split <;> rfl
    rw [none, List.append_nil]
    simp only [step] at stepped
    cases here : s.main with
    | none =>
      rw [here] at stepped
      cases stepped
    | some j =>
      simp only [here] at stepped
      obtain ⟨pc, found, -⟩ := running.main j here
      split at stepped
      · cases stepped
      · obtain ⟨turned, turning, rfl⟩ := Option.map_eq_some_iff.mp stepped
        rw [loop_stored, turn_stored found turning]
  | apply answers =>
    simp only [step] at stepped
    cases here : s.main with
    | none =>
      rw [here] at stepped
      cases stepped
    | some j =>
      simp only [here] at stepped
      split at stepped
      case isFalse => cases stepped
      case isTrue ready =>
      obtain ⟨request, lookup, -⟩ := first_waiting running.queue ready.1
      simp only [lookup] at stepped
      cases allocated : allocateRequestRessources s.server request answers with
      | error fault =>
        simp only [allocated] at stepped
        cases stepped
      | ok outcome =>
        simp only [allocated] at stepped
        have none : arrivals (shows s (.apply answers)) = [] := by
          simp only [shows, lookup, allocated]
          split <;> rfl
        rw [none, List.append_nil, turn_stored (by exact ready.1) stepped]
  | finish i =>
    obtain ⟨server, -, rfl⟩ := Option.map_eq_some_iff.mp stepped
    exact (List.append_nil _).symm

theorem arrives_run (bound : maxSlot ≤ INT_MAX) (running : Running maxSlot s) {events : List Event}
    (ran : run step s events = some s') :
    s'.system.stored.map Submission.request =
      s.system.stored.map Submission.request ++ arrivals (trace step shows s events) := by
  induction events generalizing s with
  | nil =>
    cases ran
    exact (List.append_nil _).symm
  | cons event events ih =>
    obtain ⟨middle, first, rest⟩ := run_cons_eq_some.mp ran
    obtain ⟨-, -, running', -⟩ := simulates bound s event middle _ ⟨running, rfl⟩ first
    rw [ih running' rest, arrives running first, trace_cons first, arrivals_append, List.append_assoc]

/-- The connections are let in one at a time and in the order in which they were stored,
each of them once; at most one of them is turned away, and then no other is let in. Who
has a thread was let in, and when `main` has left its loop no other connection ever gets
one. -/
theorem connections_are_admitted_in_order (bound : maxSlot ≤ INT_MAX)
    (built : initServerQueue maxSlot = some queue) {events : List Event}
    (ran : run step (start queue) events = some s) :
    let actions := trace step shows (start queue) events
    run Admission.step (Admission.new maxSlot) actions = some s.view ∧
      s.system.stored.map Submission.request =
        admissions actions ++ refusals actions ++ s.view.waiting ∧
      (s.server.handlers.map ClientList.Handler.given).Sublist (admissions actions) ∧
      (refusals actions).length ≤ 1 ∧
      ∀ later s', s.main = none → run step s later = some s' →
        admissions (trace step shows s later) = [] ∧
          (s'.server.handlers.map ClientList.Handler.given).Sublist
            (s.server.handlers.map ClientList.Handler.given) := by
  intro actions
  have running := running_start bound built
  have capacity : (start queue).view = Admission.new maxSlot := by
    have slots : queue.nbSlots = maxSlot := running.queue.1.slots
    simp [Acceptor.view, start, Admission.new, ClientList.start, slots]
  obtain ⟨running', shown⟩ := (simulates bound).run_view running ran
  rw [capacity] at shown
  have books := books_of_run shown
  have arrived := arrives_run bound running ran
  refine ⟨shown, ?_, books.inside, books.atMostOne, fun later s' ended ranLater => ?_⟩
  · rw [arrived]
    exact books.order
  · obtain ⟨-, shownLater⟩ := (simulates bound).run_view running' ranLater
    have closed : s.view.isOpen = false := by simp [Acceptor.view, ended]
    obtain ⟨-, none, -, inside⟩ := closed_run closed shownLater
    exact ⟨none, inside⟩

/-- A client connects to a queue of one slot and gets its thread. -/
def oneConnection : List Event :=
  .submit (ShmQueue.clientPipes 7) :: List.replicate 8 (.client 1 .ok) ++
    [.main .ok, .main .ok, .apply ⟨some 0, some 0, true, true⟩] ++ List.replicate 4 (.main .ok)

theorem connections_are_admitted_in_order_one : ∃ queue s, initServerQueue 1 = some queue ∧
    run step (start queue) oneConnection = some s ∧
    (s.server.handlers.map ClientList.Handler.given).Sublist
      (admissions (trace step shows (start queue) oneConnection)) ∧
    s.server.handlers.map ClientList.Handler.given = [(ShmQueue.clientPipes 7).request] := by
  obtain ⟨-, -, inside, -⟩ := @connections_are_admitted_in_order 1 _ _ (by decide) rfl oneConnection rfl
  exact ⟨_, _, rfl, rfl, inside, by decide +kernel⟩

end LocalServer.Acceptance
