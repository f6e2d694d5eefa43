import LocalServer.Lib.CString
import LocalServer.Lib.Runs

/-! The connection queue of `connection.c`. A server and its clients share one
`server_queue` through shared memory; a call of `send_shm_request` or of
`fetch_shm_request` is a thread that moves one program point at a time, and the
semaphores decide which of them can move. -/
namespace LocalServer.ShmQueue

def NAME_MAX : Nat := 255
def INT_MAX : Nat := 2 ^ 31 - 1

/-- `sem_post` fails with `EOVERFLOW` past this value, and `sem_init` refuses more. -/
def SEM_VALUE_MAX : Nat := INT_MAX

def SHM_ERROR : Int := -2
def SEMAPHORE_ERROR : Int := -3

/-- `struct shm_request`. -/
structure ShmRequest where
  requestPipe : CharArray (NAME_MAX + 1)
  responsePipe : CharArray (NAME_MAX + 1)
  pid : Int
  uid : Nat
  deriving DecidableEq

/-- What a client passes to `send_shm_request`, with its `getpid` and `getuid`. -/
structure Submission where
  requestPipeName : CString
  responsePipeName : CString
  pid : Int
  uid : Nat
  deriving DecidableEq

/-- The record `send_shm_request` builds on the fly. -/
def Submission.request (sub : Submission) : ShmRequest where
  requestPipe :=
    (CharArray.empty _).strncpy sub.requestPipeName.bytes NAME_MAX (Nat.le_succ _)
  responsePipe :=
    (CharArray.empty _).strncpy sub.responsePipeName.bytes NAME_MAX (Nat.le_succ _)
  pid := sub.pid
  uid := sub.uid

/-- `struct server_queue`, less the descriptor that only its release reads. -/
structure ServerQueue where
  nbSlots : Nat
  mutex : Nat
  empty : Nat
  full : Nat
  length : Nat
  head : Nat
  tail : Nat
  buffer : List ShmRequest
  deriving DecidableEq

/-- A fresh shared memory object is filled with zeros. -/
def zeroRequest : ShmRequest := ⟨CharArray.empty _, CharArray.empty _, 0, 0⟩

/-- `init_server_queue` once the shared memory exists: the slot count becomes an
`unsigned int` for `sem_init`, which may refuse it. -/
def initServerQueue (maxSlot : Nat) : Option ServerQueue :=
  if maxSlot % 2 ^ 32 ≤ SEM_VALUE_MAX then
    some { nbSlots := maxSlot, mutex := 1, empty := maxSlot % 2 ^ 32, full := 0,
           length := 0, head := 0, tail := 0, buffer := List.replicate maxSlot zeroRequest }
  else none

/-- `size_t` addition and subtraction of one wrap around. -/
def sizeSucc (n : Nat) : Nat := (n + 1) % 2 ^ 64
def sizePred : Nat → Nat
  | 0 => 2 ^ 64 - 1
  | n + 1 => n

/-- How the environment answers the call a thread is at. -/
inductive Outcome where
  | ok
  | timeout
  | error
  /-- The value that `apply` returns. -/
  | value (r : Int)
  deriving DecidableEq

/-- The program points of `send_shm_request`. A call that gives up before it has
stored anything is `refused` when it holds no token yet and `abandoned` when its
wait on the mutex failed after the wait on `empty` succeeded. -/
inductive SendPc where
  | clock | waitEmpty | waitMutex | store | moveHead | grow | postMutex | postFull
  | refused (r : Int) | abandoned (r : Int) | returned (r : Int) | crashed
  deriving DecidableEq

/-- The program points of `fetch_shm_request`, after `apply` with its result. -/
inductive FetchPc where
  | waitFull | waitMutex | apply
  | moveTail (r : Int) | shrink (r : Int) | postMutex (r : Int) | postEmpty (r : Int)
  | refused (r : Int) | abandoned (r : Int) | returned (r : Int) | crashed
  deriving DecidableEq

/-- One step of `send_shm_request`. A wait may fail at any time, whatever the
semaphore holds; the remainder by zero and a store outside the buffer crash. -/
def sendShmRequest (sub : Submission) (q : ServerQueue) :
    SendPc → Outcome → Option (ServerQueue × SendPc)
  | .clock, .ok => some (q, .waitEmpty)
  | .clock, .error => some (q, .refused SHM_ERROR)
  | .waitEmpty, .ok =>
    if 0 < q.empty then some ({ q with empty := q.empty - 1 }, .waitMutex) else none
  | .waitEmpty, .timeout => some (q, .refused 0)
  | .waitEmpty, .error => some (q, .refused SEMAPHORE_ERROR)
  | .waitMutex, .ok =>
    if 0 < q.mutex then some ({ q with mutex := q.mutex - 1 }, .store) else none
  -- `empty` has been taken and is not given back on these two returns
  | .waitMutex, .timeout => some (q, .abandoned 0)
  | .waitMutex, .error => some (q, .abandoned SEMAPHORE_ERROR)
  | .store, .ok =>
    if q.head < q.buffer.length then
      some ({ q with buffer := q.buffer.set q.head sub.request }, .moveHead)
    else some (q, .crashed)
  | .moveHead, .ok =>
    if q.nbSlots = 0 then some (q, .crashed)
    else some ({ q with head := sizeSucc q.head % q.nbSlots }, .grow)
  | .grow, .ok => some ({ q with length := sizeSucc q.length }, .postMutex)
  | .postMutex, .ok =>
    if q.mutex < SEM_VALUE_MAX then some ({ q with mutex := q.mutex + 1 }, .postFull)
    else some (q, .returned SEMAPHORE_ERROR)
  | .postFull, .ok =>
    if q.full < SEM_VALUE_MAX then some ({ q with full := q.full + 1 }, .returned 1)
    else some (q, .returned SEMAPHORE_ERROR)
  | _, _ => none

/-- One step of `fetch_shm_request`. Its waits have no timeout; `apply` runs
inside the critical section, on the slot itself. -/
def fetchShmRequest (q : ServerQueue) : FetchPc → Outcome → Option (ServerQueue × FetchPc)
  | .waitFull, .ok =>
    if 0 < q.full then some ({ q with full := q.full - 1 }, .waitMutex) else none
  | .waitFull, .error => some (q, .refused SEMAPHORE_ERROR)
  | .waitMutex, .ok =>
    if 0 < q.mutex then some ({ q with mutex := q.mutex - 1 }, .apply) else none
  | .waitMutex, .error => some (q, .abandoned SEMAPHORE_ERROR)
  | .apply, .value r =>
    if q.tail < q.buffer.length then some (q, .moveTail r) else some (q, .crashed)
  | .moveTail r, .ok =>
    if q.nbSlots = 0 then some (q, .crashed)
    else some ({ q with tail := sizeSucc q.tail % q.nbSlots }, .shrink r)
  | .shrink r, .ok => some ({ q with length := sizePred q.length }, .postMutex r)
  | .postMutex r, .ok =>
    if q.mutex < SEM_VALUE_MAX then some ({ q with mutex := q.mutex + 1 }, .postEmpty r)
    else some (q, .returned SEMAPHORE_ERROR)
  | .postEmpty r, .ok =>
    if q.empty < SEM_VALUE_MAX then some ({ q with empty := q.empty + 1 }, .returned r)
    else some (q, .returned SEMAPHORE_ERROR)
  | _, _ => none

/-- A call in flight, at its program point. -/
inductive Call where
  | send (sub : Submission) (pc : SendPc)
  | fetch (pc : FetchPc)
  deriving DecidableEq

/-- The queue, every call made so far in the order of their starts, and what has
been stored and handed to `apply` since the queue was built. -/
structure System where
  queue : ServerQueue
  calls : List Call
  stored : List Submission
  applied : List ShmRequest
  deriving DecidableEq

/-- A process starts a call, or a call that was started takes its next step. -/
inductive Event where
  | send (sub : Submission)
  | fetch
  | turn (i : Nat) (outcome : Outcome)
  deriving DecidableEq

/-- One event. Any number of processes may start calls, at any time. -/
def step (s : System) : Event → Option System
  | .send sub => some { s with calls := s.calls ++ [.send sub .clock] }
  | .fetch => some { s with calls := s.calls ++ [.fetch .waitFull] }
  | .turn i outcome =>
    match s.calls[i]? with
    | some (.send sub pc) =>
      (sendShmRequest sub s.queue pc outcome).map fun (queue, next) =>
        { s with
          queue := queue
          calls := s.calls.set i (.send sub next)
          stored := if pc = .store then s.stored ++ [sub] else s.stored }
    | some (.fetch pc) =>
      (fetchShmRequest s.queue pc outcome).map fun (queue, next) =>
        { s with
          queue := queue
          calls := s.calls.set i (.fetch next)
          applied := if pc = .apply then s.applied ++ (s.queue.buffer[s.queue.tail]?).toList
            else s.applied }
    | none => none

/-- A system around a queue that `init_server_queue` has just built. -/
def start (queue : ServerQueue) : System := ⟨queue, [], [], []⟩

end LocalServer.ShmQueue
