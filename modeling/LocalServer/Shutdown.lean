import LocalServer.ClientList
import LocalServer.ShmQueueSafety

/-! The shutdown of the server. `sig_free` runs on top of the main thread, wherever
the signal finds it, and takes the semaphores that the main loop takes. What is
interrupted does not go on before the handler returns, and it never does. -/
namespace LocalServer.Shutdown
open Runs
open ShmQueue (ServerQueue Submission SendPc FetchPc Outcome fetchShmRequest sendShmRequest initServerQueue
  SEM_VALUE_MAX INT_MAX)
open ClientList (NOT_ENOUGH_MEMORY THREAD_ERROR)

/-- The program points of `list_add`, after its checks. -/
inductive AddPc where
  | wait | mallocCell | mallocValue | link | post | returned (added : Bool)
  deriving DecidableEq

/-- One step of `list_add`, as far as the semaphore of the list is concerned. -/
def listAdd (mutex : Nat) : AddPc → Outcome → Option (Nat × AddPc)
  | .wait, .ok => if 0 < mutex then some (mutex - 1, .mallocCell) else none
  | .wait, .error => some (mutex, .returned false)
  | .mallocCell, .ok => some (mutex, .mallocValue)
  -- without memory the call returns with the mutex taken
  | .mallocCell, .error | .mallocValue, .error => some (mutex, .returned false)
  | .mallocValue, .ok => some (mutex, .link)
  | .link, .ok => some (mutex, .post)
  | .post, .ok =>
    if mutex < SEM_VALUE_MAX then some (mutex + 1, .returned true) else some (mutex, .returned false)
  | _, _ => none

/-- The main loop: in `fetch_shm_request`, or in the `allocate_request_ressources` that
this applies. -/
inductive MainPc where
  | fetching (pc : FetchPc)
  | adding (pc : AddPc)
  | pthreadCreate | pthreadDetach | ended
  deriving DecidableEq

/-- The program points of `sig_free`, `quiet` before the signal. -/
inductive SigPc where
  | quiet | listApply
  | waitList | freeCells
  | freeParser
  | waitQueue | release
  | exited
  deriving DecidableEq

/-- The program points of the `list_remove` of a `handle_request` thread. -/
inductive RemovePc where
  | wait | unlink | post | returned
  deriving DecidableEq

/-- The two semaphores that guard the queue and the list, whether the main thread holds
them, and all that take them: the main thread with its signal handler, the clients'
calls of `send_shm_request` and the server's other threads. -/
structure Server where
  queue : ServerQueue
  listMutex : Nat
  main : MainPc
  holdsQueue : Bool
  holdsList : Bool
  sig : SigPc
  senders : List (Submission × SendPc)
  removers : List RemovePc
  deriving DecidableEq

inductive Event where
  /-- The main thread takes a step. -/
  | main (outcome : Outcome)
  /-- SIGINT, SIGQUIT or SIGTERM is delivered to the main thread. -/
  | signal
  /-- `sig_free` takes a step. -/
  | sig
  | submit (sub : Submission)
  | sender (i : Nat) (outcome : Outcome)
  | remove
  | remover (i : Nat) (outcome : Outcome)
  deriving DecidableEq

/-- Where the main thread is after a step of `fetch_shm_request`: it goes into `apply`,
and it returns from `main` when the call returned an error. -/
def fetched : FetchPc → MainPc
  | .apply => .adding .wait
  | .refused r | .abandoned r | .returned r => if r < 0 then .ended else .fetching .waitFull
  | .crashed => .ended
  | next => .fetching next

/-- A step of `fetch_shm_request` takes the mutex of the queue, gives it back, or neither. -/
def Server.fetch (s : Server) (pc : FetchPc) (outcome : Outcome) : Option Server :=
  (fetchShmRequest s.queue pc outcome).map fun (queue, next) =>
    { s with queue := queue
             main := fetched next
             holdsQueue := match pc, next with
               | .waitMutex, .apply => true
               | .postMutex _, .postEmpty _ => false
               | _, _ => s.holdsQueue }

/-- A step of the main thread. -/
def Server.mainStep (s : Server) (outcome : Outcome) : Option Server :=
  match s.main, outcome with
  | .fetching pc, outcome => s.fetch pc outcome
  | .adding pc, outcome =>
    match listAdd s.listMutex pc outcome with
    | some (mutex, .returned false) =>
      { s with listMutex := mutex }.fetch .apply (.value NOT_ENOUGH_MEMORY)
    | some (mutex, .returned true) =>
      some { s with listMutex := mutex, main := .pthreadCreate, holdsList := false }
    | some (mutex, next) =>
      some { s with listMutex := mutex, main := .adding next
                    holdsList := pc = .wait || s.holdsList }
    | none => none
  | .pthreadCreate, .ok => some { s with main := .pthreadDetach }
  | .pthreadCreate, .error | .pthreadDetach, .error => s.fetch .apply (.value THREAD_ERROR)
  | .pthreadDetach, .ok => s.fetch .apply (.value 1)
  | _, _ => none

/-- A step of `sig_free`. -/
def Server.sigStep (s : Server) : Option Server :=
  match s.sig with
  | .listApply => some { s with sig := .waitList }
  | .waitList =>
    if 0 < s.listMutex then some { s with listMutex := s.listMutex - 1, sig := .freeCells } else none
  | .freeCells => some { s with sig := .freeParser }
  | .freeParser => some { s with sig := .waitQueue }
  | .waitQueue =>
    if 0 < s.queue.mutex then
      some { s with queue := { s.queue with mutex := s.queue.mutex - 1 }, sig := .release }
    else none
  | .release => some { s with sig := .exited }
  | .quiet | .exited => none

/-- A step of a `list_remove`. -/
def listRemove (mutex : Nat) : RemovePc → Outcome → Option (Nat × RemovePc)
  | .wait, .ok => if 0 < mutex then some (mutex - 1, .unlink) else none
  | .wait, .error => some (mutex, .returned)
  | .unlink, .ok => some (mutex, .post)
  | .post, .ok => if mutex < SEM_VALUE_MAX then some (mutex + 1, .returned) else some (mutex, .returned)
  | _, _ => none

/-- One step. The main thread moves only while no signal has interrupted it. -/
def step (s : Server) : Event → Option Server
  | .main outcome => if s.sig = .quiet then s.mainStep outcome else none
  | .signal => if s.sig = .quiet ∧ s.main ≠ .ended then some { s with sig := .listApply } else none
  | .sig => s.sigStep
  | .submit sub => some { s with senders := s.senders ++ [(sub, .clock)] }
  | .sender i outcome =>
    match s.senders[i]? with
    | some (sub, pc) =>
      (sendShmRequest sub s.queue pc outcome).map fun (queue, next) =>
        { s with queue := queue, senders := s.senders.set i (sub, next) }
    | none => none
  | .remove => some { s with removers := s.removers ++ [.wait] }
  | .remover i outcome =>
    match s.removers[i]? with
    | some pc =>
      (listRemove s.listMutex pc outcome).map fun (mutex, next) =>
        { s with listMutex := mutex, removers := s.removers.set i next }
    | none => none

/-- `main` enters its loop with the queue it has just built and an empty list. -/
def start (queue : ServerQueue) : Server :=
  ⟨queue, 1, .fetching .waitFull, false, false, .quiet, [], []⟩

/-- `sig_free` waits for a semaphore that the thread it interrupted holds. -/
def Server.waitsForItself (s : Server) : Prop :=
  s.sig = .waitList ∧ s.listMutex = 0 ∧ s.holdsList = true ∨
    s.sig = .waitQueue ∧ s.queue.mutex = 0 ∧ s.holdsQueue = true

/-! ## The same `list_add` -/

/-- The answers to the steps of a `list_add` for which `malloc` returns these addresses. -/
def addOutcomes (cell value : Option LinkedList.Addr) : List Outcome :=
  match cell, value with
  | none, _ => [.ok, .error]
  | some _, none => [.ok, .ok, .error]
  | some _, some _ => [.ok, .ok, .ok, .ok, .ok]

theorem mutex_link {V : Type*} {l l' : CList V} {cell : LinkedList.Addr}
    (linked : CList.link l cell = .ok l') : l'.mutex = l.mutex := by
  unfold CList.link at linked
  split at linked
  case isTrue =>
    cases linked
    rfl
  case isFalse =>
    split at linked <;> cases linked
    rfl

/-- What `list_add` does to the semaphore, step by step, is what the whole call does. -/
theorem listAdd_of_call {V : Type*} {l l' : CList V} {elem : V} {cell value r : Option LinkedList.Addr}
    (added : CList.listAdd l (some elem) false cell value = .ok (l', r)) :
    run (fun at' outcome => listAdd at'.1 at'.2 outcome) (l.mutex, .wait) (addOutcomes cell value) =
      some (l'.mutex, .returned r.isSome) := by
  simp only [CList.listAdd, Bool.false_eq_true, if_false] at added
  split at added
  case isTrue => cases added
  case isFalse taken =>
  have free : 0 < l.mutex := Nat.pos_of_ne_zero taken
  cases cell with
  | none =>
    cases added
    simp [addOutcomes, listAdd, free]
  | some cell =>
  cases value with
  | none =>
    cases added
    simp [addOutcomes, listAdd, free]
  | some value =>
    simp only at added
    split at added
    case h_1 => cases added
    case h_2 linked link =>
    have same : linked.mutex = l.mutex - 1 := mutex_link link
    simp only [CList.post, same] at added
    by_cases room : l.mutex - 1 < SEM_VALUE_MAX
    · rw [if_pos room] at added
      cases added
      simp [addOutcomes, listAdd, free, room]
    · rw [if_neg room] at added
      cases added
      simp [addOutcomes, listAdd, free, room]

/-! ## Who holds what -/

/-- The main thread is between its wait on the mutex of the queue and its post of it. -/
def MainPc.inside : MainPc → Nat
  | .fetching pc => (ShmQueue.Call.fetch pc).inside
  | .adding _ | .pthreadCreate | .pthreadDetach => 1
  | .ended => 0

/-- `list_add` is between its wait and its post. -/
def AddPc.inside : AddPc → Bool
  | .mallocCell | .mallocValue | .link | .post => true
  | .wait | .returned _ => false

def RemovePc.inside : RemovePc → Nat
  | .unlink | .post => 1
  | .wait | .returned => 0

/-- A client is inside the critical section of `send_shm_request`. -/
def senderInside (sender : Submission × SendPc) : Nat :=
  (ShmQueue.Call.send sender.1 sender.2).inside

/-- `sig_free` has not taken the mutex of the list. -/
def SigPc.early : SigPc → Prop
  | .quiet | .listApply | .waitList => True
  | _ => False

/-- The books of the two semaphores. -/
structure Accounts (s : Server) : Prop where
  queue : s.queue.mutex + tally senderInside s.senders + s.holdsQueue.toNat ≤ 1
  list : s.sig.early → s.listMutex + tally RemovePc.inside s.removers + s.holdsList.toNat = 1
  mainQueue : s.main ≠ .ended → s.holdsQueue.toNat = s.main.inside
  mainList : ∀ pc, s.main = .adding pc → pc.inside = true → s.holdsList = true

variable {s s' : Server} {event : Event} {events : List Event} {outcome : Outcome} {pc : FetchPc}
  {queue : ServerQueue} {maxSlot : Nat}

theorem accounts_start (built : initServerQueue maxSlot = some queue) : Accounts (start queue) := by
  have mutex : queue.mutex = 1 := by
    unfold initServerQueue at built
    split at built <;> cases built
    rfl
  constructor <;> simp [start, mutex, MainPc.inside, ShmQueue.Call.inside]

theorem inside_fetched {next : FetchPc} (running : fetched next ≠ .ended) :
    (fetched next).inside = (ShmQueue.Call.fetch next).inside := by
  cases next with
  | refused r | abandoned r | returned r =>
    simp only [fetched] at running ⊢
    split
    case isTrue negative => simp [negative] at running
    case isFalse => rfl
  | crashed => exact absurd rfl running
  | _ => rfl

/-- A step of `fetch_shm_request` moves the mutex of the queue between the semaphore
and the main thread, and touches nothing else that is counted. -/
theorem fetch_spec (held : s.holdsQueue.toNat = (ShmQueue.Call.fetch pc).inside)
    (free : s.queue.mutex + s.holdsQueue.toNat ≤ 1) (moved : s.fetch pc outcome = some s') :
    (s'.main ≠ .ended → s'.holdsQueue.toNat = s'.main.inside) ∧
      s'.queue.mutex + s'.holdsQueue.toNat = s.queue.mutex + s.holdsQueue.toNat ∧
      (∀ pc, s'.main = .adding pc → pc = .wait) ∧
      s' = { s with queue := s'.queue, main := s'.main, holdsQueue := s'.holdsQueue } := by
  obtain ⟨⟨queue, next⟩, fetches, rfl⟩ := Option.map_eq_some_iff.mp moved
  have move := ShmQueue.fetchShmRequest_moves fetches
  have room : s.queue.mutex < SEM_VALUE_MAX := by
    simp only [SEM_VALUE_MAX, INT_MAX]
    omega
  refine ⟨fun running => ?_, ?_, ?_, rfl⟩
  · rw [inside_fetched running]
    cases move with
    | mutexOverflow overflow => exact absurd room overflow
    | applyOutside | divideByZero => exact absurd rfl running
    | enter => rfl
    | postMutex => rfl
    | _ => simpa [ShmQueue.Call.inside] using held
  · cases move with
    | mutexOverflow overflow => exact absurd room overflow
    | enter positive =>
      have outside : s.holdsQueue.toNat = 0 := held
      simp only [Bool.toNat_true]
      omega
    | postMutex =>
      have inside : s.holdsQueue.toNat = 1 := held
      simp only [Bool.toNat_false]
      omega
    | _ => rfl
  · intro pc added
    cases next with
    | apply =>
      cases added
      rfl
    | refused r | abandoned r | returned r =>
      simp only [fetched] at added
      split at added <;> cases added
    | _ => cases added

/-- The main thread takes and gives back only what it holds. -/
theorem Accounts.fetch (accounts : Accounts s)
    (held : s.holdsQueue.toNat = (ShmQueue.Call.fetch pc).inside)
    (moved : s.fetch pc outcome = some s') : Accounts s' := by
  have counted := accounts.queue
  obtain ⟨mainQueue, same, entered, shape⟩ := fetch_spec held (by omega) moved
  rw [shape]
  refine ⟨?_, accounts.list, mainQueue, ?_⟩
  · show s'.queue.mutex + tally senderInside s.senders + s'.holdsQueue.toNat ≤ 1
    omega
  · intro pc added inside
    rw [entered pc added] at inside
    cases inside

/-- `apply` returns. -/
theorem Accounts.applied (accounts : Accounts s) (held : s.holdsQueue.toNat = 1)
    (moved : s.fetch .apply outcome = some s') : Accounts s' := by
  have inside : s.holdsQueue.toNat = (ShmQueue.Call.fetch .apply).inside := held
  exact accounts.fetch inside moved

/-- Everything one step of `list_add` can do. -/
inductive AddMove (mutex : Nat) : AddPc → Nat → AddPc → Prop where
  | take (positive : 0 < mutex) : AddMove mutex .wait (mutex - 1) .mallocCell
  | refuse : AddMove mutex .wait mutex (.returned false)
  | work (pc next : AddPc) (here : pc.inside = true) (there : next.inside = true) :
    AddMove mutex pc mutex next
  | keep (pc : AddPc) (here : pc.inside = true) : AddMove mutex pc mutex (.returned false)
  | give (room : mutex < SEM_VALUE_MAX) : AddMove mutex .post (mutex + 1) (.returned true)

theorem listAdd_moves {mutex mutex' : Nat} {pc next : AddPc}
    (moved : listAdd mutex pc outcome = some (mutex', next)) : AddMove mutex pc mutex' next := by
  cases pc with
  | wait =>
    cases outcome <;> simp only [listAdd] at moved
    case ok =>
      split at moved <;> cases moved
      exact .take ‹_›
    case error => cases moved; exact .refuse
    all_goals cases moved
  | mallocCell | mallocValue =>
    cases outcome <;> cases moved
    · exact .work _ _ rfl rfl
    · exact .keep _ rfl
  | link =>
    cases outcome <;> cases moved
    exact .work _ _ rfl rfl
  | post =>
    cases outcome <;> simp only [listAdd] at moved
    case ok =>
      split at moved <;> cases moved
      · exact .give ‹_›
      · exact .keep _ rfl
    all_goals cases moved
  | returned added => cases outcome <;> cases moved

/-- A step inside `list_add`. -/
theorem Accounts.adding (accounts : Accounts s) {pc : AddPc} (here : s.main = .adding pc)
    (moved : s.mainStep outcome = some s') (quiet : s.sig = .quiet) : Accounts s' := by
  have held : s.holdsQueue.toNat = 1 := by simpa [here, MainPc.inside] using accounts.mainQueue
  have listed := accounts.list (by simp [quiet, SigPc.early])
  simp only [Server.mainStep, here] at moved
  cases added : listAdd s.listMutex pc outcome with
  | none => simp [added] at moved
  | some result =>
  obtain ⟨mutex, next⟩ := result
  have move := listAdd_moves added
  rw [added] at moved
  cases move with
  | take positive =>
    cases moved
    refine ⟨accounts.queue, fun _ => ?_, fun _ => held, fun _ _ _ => rfl⟩
    simp only [Bool.decide_true, Bool.true_or, Bool.toNat_true]
    omega
  | refuse => exact accounts.applied held moved
  | keep _ inside => exact accounts.applied held moved
  | work _ _ inside there =>
    have outside : pc ≠ .wait := by
      rintro rfl
      cases inside
    have entered : s' = { s with main := .adding next } := by
      cases next <;> simp [AddPc.inside] at there <;> simpa [outside, eq_comm] using moved
    rw [entered]
    exact ⟨accounts.queue, accounts.list, fun _ => held, fun _ _ _ => accounts.mainList pc here inside⟩
  | give room =>
    cases moved
    have taken : s.holdsList = true := accounts.mainList _ here rfl
    refine ⟨accounts.queue, fun _ => ?_, fun _ => held, nofun⟩
    simp only [taken, Bool.toNat_true, Bool.toNat_false] at listed ⊢
    omega

theorem Accounts.mainStep (accounts : Accounts s) (quiet : s.sig = .quiet)
    (moved : s.mainStep outcome = some s') : Accounts s' := by
  have held := accounts.mainQueue
  cases here : s.main with
  | fetching pc =>
    simp only [Server.mainStep, here] at moved
    exact accounts.fetch (held (by simp [here]) |>.trans (by rw [here]; rfl)) moved
  | adding pc => exact accounts.adding here moved quiet
  | pthreadCreate =>
    cases outcome <;> simp only [Server.mainStep, here] at moved
    case ok =>
      cases moved
      exact ⟨accounts.queue, accounts.list, fun _ => by simpa [here, MainPc.inside] using held, nofun⟩
    case error => exact accounts.applied (by simpa [here, MainPc.inside] using held) moved
    all_goals cases moved
  | pthreadDetach =>
    cases outcome <;> simp only [Server.mainStep, here] at moved
    case ok | error => exact accounts.applied (by simpa [here, MainPc.inside] using held) moved
    all_goals cases moved
  | ended => cases outcome <;> simp [Server.mainStep, here] at moved

/-! ## The signal handler and the others -/

theorem Accounts.sigStep (accounts : Accounts s) (moved : s.sigStep = some s') : Accounts s' := by
  unfold Server.sigStep at moved
  split at moved
  case h_1 here =>
    cases moved
    exact ⟨accounts.queue, fun _ => accounts.list (by simp [here, SigPc.early]), accounts.mainQueue,
      accounts.mainList⟩
  case h_2 =>
    split at moved <;> cases moved
    exact ⟨accounts.queue, nofun, accounts.mainQueue, accounts.mainList⟩
  case h_5 =>
    split at moved <;> cases moved
    refine ⟨?_, nofun, accounts.mainQueue, accounts.mainList⟩
    have counted := accounts.queue
    simp only
    omega
  case h_7 | h_8 => cases moved
  all_goals
    cases moved
    exact ⟨accounts.queue, nofun, accounts.mainQueue, accounts.mainList⟩

/-- A client takes the mutex of the queue only from the semaphore. -/
theorem Accounts.sender (accounts : Accounts s) {i : Nat}
    (stepped : step s (.sender i outcome) = some s') : Accounts s' := by
  simp only [step] at stepped
  split at stepped
  case h_2 => cases stepped
  case h_1 sub pc found =>
  obtain ⟨⟨queue, next⟩, sends, rfl⟩ := Option.map_eq_some_iff.mp stepped
  have move := ShmQueue.sendShmRequest_moves sends
  have moved := tally_set senderInside (sub, next) found
  have counted := accounts.queue
  refine ⟨?_, accounts.list, accounts.mainQueue, accounts.mainList⟩
  cases move with
  | refuse r first =>
    rcases first with rfl | rfl <;> simp only [senderInside, ShmQueue.Call.inside] at moved ⊢ <;> omega
  | _ =>
    simp only [senderInside, ShmQueue.Call.inside] at moved ⊢
    omega

theorem Accounts.remover (accounts : Accounts s) {i : Nat}
    (stepped : step s (.remover i outcome) = some s') : Accounts s' := by
  simp only [step] at stepped
  split at stepped
  case h_2 => cases stepped
  case h_1 pc found =>
  obtain ⟨⟨mutex, next⟩, removes, rfl⟩ := Option.map_eq_some_iff.mp stepped
  have moved := tally_set RemovePc.inside next found
  refine ⟨accounts.queue, fun early => ?_, accounts.mainQueue, accounts.mainList⟩
  have counted := accounts.list early
  cases pc <;> cases outcome <;> simp only [listRemove] at removes
  case wait.ok =>
    split at removes <;> cases removes
    simp only [RemovePc.inside] at moved ⊢
    omega
  case post.ok =>
    have room : s.listMutex < SEM_VALUE_MAX := by
      simp only [SEM_VALUE_MAX, INT_MAX]
      omega
    rw [if_pos room] at removes
    cases removes
    simp only [RemovePc.inside] at moved ⊢
    omega
  case wait.error | unlink.ok =>
    cases removes
    simp only [RemovePc.inside] at moved ⊢
    omega
  all_goals cases removes

theorem accounts_step (accounts : Accounts s) (stepped : step s event = some s') : Accounts s' := by
  cases event with
  | main outcome =>
    simp only [step] at stepped
    split at stepped
    case isTrue quiet => exact accounts.mainStep quiet stepped
    case isFalse => cases stepped
  | signal =>
    simp only [step] at stepped
    split at stepped <;> cases stepped
    next ready =>
      exact ⟨accounts.queue, fun _ => accounts.list (by simp [ready.1, SigPc.early]), accounts.mainQueue,
        accounts.mainList⟩
  | sig => exact accounts.sigStep stepped
  | submit sub =>
    cases stepped
    refine ⟨?_, accounts.list, accounts.mainQueue, accounts.mainList⟩
    simpa [senderInside, ShmQueue.Call.inside] using accounts.queue
  | sender i outcome => exact accounts.sender stepped
  | remove =>
    cases stepped
    refine ⟨accounts.queue, fun early => ?_, accounts.mainQueue, accounts.mainList⟩
    simpa [RemovePc.inside] using accounts.list early
  | remover i outcome => exact accounts.remover stepped

theorem accounts_of_run (built : initServerQueue maxSlot = some queue)
    (ran : run step (start queue) events = some s) : Accounts s :=
  run_invariant (fun _ _ _ => accounts_step) (accounts_start built) ran

/-! ## From the signal on -/

/-- What the interrupted thread holds stays as it was: it does not move any more. -/
theorem held_of_step (interrupted : s.sig ≠ .quiet) (stepped : step s event = some s') :
    s'.sig ≠ .quiet ∧ s'.holdsQueue = s.holdsQueue ∧ s'.holdsList = s.holdsList := by
  cases event with
  | main outcome => simp [step, interrupted] at stepped
  | signal => simp [step, interrupted] at stepped
  | sig =>
    simp only [step, Server.sigStep] at stepped
    split at stepped
    case h_2 | h_5 =>
      split at stepped <;> cases stepped
      exact ⟨nofun, rfl, rfl⟩
    case h_7 | h_8 => cases stepped
    all_goals
      cases stepped
      exact ⟨nofun, rfl, rfl⟩
  | submit sub | remove =>
    cases stepped
    exact ⟨interrupted, rfl, rfl⟩
  | sender i outcome | remover i outcome =>
    simp only [step] at stepped
    split at stepped
    case h_1 =>
      obtain ⟨_, -, rfl⟩ := Option.map_eq_some_iff.mp stepped
      exact ⟨interrupted, rfl, rfl⟩
    case h_2 => cases stepped

theorem held_of_run (interrupted : s.sig ≠ .quiet) (ran : run step s events = some s') :
    s'.holdsQueue = s.holdsQueue ∧ s'.holdsList = s.holdsList := by
  have held := run_invariant (motive := fun t : Server =>
      t.sig ≠ .quiet ∧ t.holdsQueue = s.holdsQueue ∧ t.holdsList = s.holdsList)
    (fun _ _ _ held stepped => by
      obtain ⟨moves, queue, list⟩ := held_of_step held.1 stepped
      exact ⟨moves, queue.trans held.2.1, list.trans held.2.2⟩) ⟨interrupted, rfl, rfl⟩ ran
  exact held.2

/-- A thread inside `list_remove` gives the mutex back in one step or two. -/
theorem post_of_inside (taken : s.listMutex = 0) {i : Nat} {pc : RemovePc}
    (found : s.removers[i]? = some pc) (inside : 0 < pc.inside) :
    ∃ events removers, run step s events = some { s with listMutex := 1, removers := removers } := by
  have posts (t : Server) (taken : t.listMutex = 0) (found : t.removers[i]? = some .post) :
      step t (.remover i .ok) = some { t with listMutex := 1, removers := t.removers.set i .returned } := by
    simp [step, found, listRemove, taken, SEM_VALUE_MAX, INT_MAX]
  cases pc with
  | wait | returned => cases inside
  | post => exact ⟨[.remover i .ok], _, run_cons_eq_some.mpr ⟨_, posts s taken found, rfl⟩⟩
  | unlink =>
    have unlinks : step s (.remover i .ok) = some { s with removers := s.removers.set i .post } := by
      simp [step, found, listRemove]
    have next := posts { s with removers := s.removers.set i .post } taken
      (List.getElem?_set_self (List.getElem?_eq_some_iff.mp found).1)
    exact ⟨[.remover i .ok, .remover i .ok], _,
      run_cons_eq_some.mpr ⟨_, unlinks, run_cons_eq_some.mpr ⟨_, next, rfl⟩⟩⟩

/-- Unless the main thread holds it, the mutex of the list comes free. -/
theorem list_comes_free (accounts : Accounts s) (early : s.sig.early) (unheld : s.holdsList = false) :
    ∃ events removers, run step s events = some { s with listMutex := 1, removers := removers } := by
  have counted := accounts.list early
  simp only [unheld, Bool.toNat_false] at counted
  by_cases free : s.listMutex = 1
  · exact ⟨[], s.removers, by rw [← free]; rfl⟩
  · have busy : 0 < tally RemovePc.inside s.removers := by omega
    obtain ⟨i, pc, found, inside⟩ := exists_of_tally_pos busy
    exact post_of_inside (by omega) found inside

/-- Interrupted with the mutex of the list, the thread waits for itself at once. -/
theorem waits_for_list (accounts : Accounts s) (quiet : s.sig = .quiet) (running : s.main ≠ .ended)
    (held : s.holdsList = true) :
    ∃ s', run step s [.signal, .sig] = some s' ∧ s'.waitsForItself := by
  have counted := accounts.list (by simp [quiet, SigPc.early])
  simp only [held, Bool.toNat_true] at counted
  refine ⟨{ s with sig := .waitList }, by simp [step, quiet, running, Server.sigStep], .inl ⟨rfl, ?_, held⟩⟩
  simp only
  omega

/-- Interrupted with the mutex of the queue alone, it gets past the list. -/
theorem waits_for_queue (accounts : Accounts s) (quiet : s.sig = .quiet) (running : s.main ≠ .ended)
    (unheld : s.holdsList = false) (held : s.holdsQueue = true) :
    ∃ events s', run step s (.signal :: events) = some s' ∧ s'.waitsForItself := by
  have signalled : step s .signal = some { s with sig := .listApply } := by simp [step, quiet, running]
  have after := accounts_step accounts signalled
  obtain ⟨events, removers, freed⟩ := list_comes_free after trivial unheld
  have rest : run step { s with sig := .listApply, listMutex := 1, removers := removers }
      [.sig, .sig, .sig, .sig] =
        some { s with sig := .waitQueue, listMutex := 0, removers := removers } := by
    simp [step, Server.sigStep]
  refine ⟨events ++ [.sig, .sig, .sig, .sig],
    { s with sig := .waitQueue, listMutex := 0, removers := removers },
    run_cons_eq_some.mpr ⟨_, signalled, run_append_eq_some.mpr ⟨_, freed, rest⟩⟩, .inr ⟨rfl, ?_, held⟩⟩
  have counted := accounts.queue
  simp only [held, Bool.toNat_true] at counted ⊢
  omega

/-- **Shutdown does not wait for itself if the signal finds no semaphore taken.** For
every run of the server and every point of it where a signal can be delivered to the
main thread: no run from there on leads `sig_free` to wait for a semaphore that the
interrupted thread holds, if and only if that thread holds neither the mutex of the
queue nor that of the list. -/
theorem never_waits_for_itself_iff (built : initServerQueue maxSlot = some queue)
    (ran : run step (start queue) events = some s) (quiet : s.sig = .quiet) (running : s.main ≠ .ended) :
    (∀ later s', run step s (.signal :: later) = some s' → ¬ s'.waitsForItself) ↔
      s.holdsQueue = false ∧ s.holdsList = false := by
  have accounts := accounts_of_run built ran
  constructor
  · intro never
    have list : s.holdsList = false := by
      by_contra held
      obtain ⟨s', ran, waits⟩ := waits_for_list accounts quiet running (by simpa using held)
      exact never _ s' ran waits
    refine ⟨?_, list⟩
    by_contra held
    obtain ⟨later, s', ran, waits⟩ := waits_for_queue accounts quiet running list (by simpa using held)
    exact never later s' ran waits
  · rintro ⟨queue, list⟩ later s' ran waits
    obtain ⟨interrupted, signalled, rest⟩ := run_cons_eq_some.mp ran
    have shape : interrupted = { s with sig := .listApply } := by
      simpa [step, quiet, running] using signalled.symm
    obtain ⟨keptQueue, keptList⟩ := held_of_run (by simp [shape]) rest
    rcases waits with ⟨-, -, held⟩ | ⟨-, -, held⟩
    · rw [keptList, shape] at held
      simp [list] at held
    · rw [keptQueue, shape] at held
      simp [queue] at held

/-- A client submits its request. -/
def submission : List Event := .submit (ShmQueue.clientPipes 7) :: List.replicate 8 (.sender 0 .ok)

/-- The signal comes before the main thread fetches the request. -/
theorem never_waits_for_itself_iff_idle : ∃ queue s, initServerQueue 4 = some queue ∧
    run step (start queue) submission = some s ∧ s.queue.length = 1 ∧
      ∀ later s', run step s (.signal :: later) = some s' → ¬ s'.waitsForItself :=
  have idle := @never_waits_for_itself_iff _ submission _ 4 rfl rfl rfl nofun
  ⟨_, _, rfl, rfl, rfl, idle.mpr ⟨rfl, rfl⟩⟩

/-- The signal comes while the main thread is in `list_add`, or in what follows it
under the mutex of the queue. -/
theorem signal_in_critical_section : ∃ queue s t, initServerQueue 4 = some queue ∧
    run step (start queue) (submission ++ [.main .ok, .main .ok, .main .ok, .signal, .sig]) = some s ∧
      s.waitsForItself ∧
    run step (start queue) (submission ++ List.replicate 7 (.main .ok) ++ [.signal] ++
        List.replicate 4 .sig) = some t ∧
      t.waitsForItself :=
  ⟨_, _, _, rfl, rfl, .inl ⟨rfl, rfl, rfl⟩, rfl, .inr ⟨rfl, rfl, rfl⟩⟩

end LocalServer.Shutdown
