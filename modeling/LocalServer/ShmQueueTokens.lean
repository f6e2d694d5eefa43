import LocalServer.ShmQueue

/-! Semaphore accounting of the connection queue. What one step of either
operation can do is said once; the three counters are then balanced against the
calls in flight, with the tokens of abandoned calls on the books for ever. -/
namespace LocalServer.ShmQueue
open Runs

/-- Everything one step of `send_shm_request` can do. -/
inductive SendMove (sub : Submission) (q : ServerQueue) : SendPc → ServerQueue → SendPc → Prop where
  | start : SendMove sub q .clock q .waitEmpty
  | refuse (r : Int) (first : pc = .clock ∨ pc = .waitEmpty) : SendMove sub q pc q (.refused r)
  | takeEmpty (positive : 0 < q.empty) :
      SendMove sub q .waitEmpty { q with empty := q.empty - 1 } .waitMutex
  | enter (positive : 0 < q.mutex) :
      SendMove sub q .waitMutex { q with mutex := q.mutex - 1 } .store
  | abandon (r : Int) : SendMove sub q .waitMutex q (.abandoned r)
  | store (inside : q.head < q.buffer.length) :
      SendMove sub q .store { q with buffer := q.buffer.set q.head sub.request } .moveHead
  | moveHead (slots : q.nbSlots ≠ 0) :
      SendMove sub q .moveHead { q with head := sizeSucc q.head % q.nbSlots } .grow
  | grow : SendMove sub q .grow { q with length := sizeSucc q.length } .postMutex
  | postMutex (room : q.mutex < SEM_VALUE_MAX) :
      SendMove sub q .postMutex { q with mutex := q.mutex + 1 } .postFull
  | postFull (room : q.full < SEM_VALUE_MAX) :
      SendMove sub q .postFull { q with full := q.full + 1 } (.returned 1)
  | storeOutside (outside : ¬ q.head < q.buffer.length) : SendMove sub q .store q .crashed
  | divideByZero (none : q.nbSlots = 0) : SendMove sub q .moveHead q .crashed
  | mutexOverflow (full : ¬ q.mutex < SEM_VALUE_MAX) :
      SendMove sub q .postMutex q (.returned SEMAPHORE_ERROR)
  | fullOverflow (full : ¬ q.full < SEM_VALUE_MAX) :
      SendMove sub q .postFull q (.returned SEMAPHORE_ERROR)

/-- Everything one step of `fetch_shm_request` can do. -/
inductive FetchMove (q : ServerQueue) : FetchPc → ServerQueue → FetchPc → Prop where
  | refuse (r : Int) : FetchMove q .waitFull q (.refused r)
  | takeFull (positive : 0 < q.full) :
      FetchMove q .waitFull { q with full := q.full - 1 } .waitMutex
  | enter (positive : 0 < q.mutex) :
      FetchMove q .waitMutex { q with mutex := q.mutex - 1 } .apply
  | abandon (r : Int) : FetchMove q .waitMutex q (.abandoned r)
  | apply (r : Int) (inside : q.tail < q.buffer.length) : FetchMove q .apply q (.moveTail r)
  | moveTail (slots : q.nbSlots ≠ 0) :
      FetchMove q (.moveTail r) { q with tail := sizeSucc q.tail % q.nbSlots } (.shrink r)
  | shrink : FetchMove q (.shrink r) { q with length := sizePred q.length } (.postMutex r)
  | postMutex (room : q.mutex < SEM_VALUE_MAX) :
      FetchMove q (.postMutex r) { q with mutex := q.mutex + 1 } (.postEmpty r)
  | postEmpty (room : q.empty < SEM_VALUE_MAX) :
      FetchMove q (.postEmpty r) { q with empty := q.empty + 1 } (.returned r)
  | applyOutside (outside : ¬ q.tail < q.buffer.length) : FetchMove q .apply q .crashed
  | divideByZero (none : q.nbSlots = 0) : FetchMove q (.moveTail r) q .crashed
  | mutexOverflow (full : ¬ q.mutex < SEM_VALUE_MAX) :
      FetchMove q (.postMutex r) q (.returned SEMAPHORE_ERROR)
  | emptyOverflow (full : ¬ q.empty < SEM_VALUE_MAX) :
      FetchMove q (.postEmpty r) q (.returned SEMAPHORE_ERROR)

theorem sendShmRequest_moves {sub : Submission} {q q' : ServerQueue} {pc pc' : SendPc}
    {outcome : Outcome} (moved : sendShmRequest sub q pc outcome = some (q', pc')) :
    SendMove sub q pc q' pc' := by
  cases pc <;> cases outcome <;> simp only [sendShmRequest] at moved <;>
    first
    | contradiction
    | (cases moved; first | exact .start | exact .refuse _ (by simp) | exact .abandon _ | exact .grow)
    | (split at moved <;> cases moved <;>
        first
        | exact .takeEmpty ‹_› | exact .enter ‹_› | exact .store ‹_› | exact .storeOutside ‹_›
        | exact .moveHead ‹_› | exact .divideByZero ‹_› | exact .postMutex ‹_›
        | exact .mutexOverflow ‹_› | exact .postFull ‹_› | exact .fullOverflow ‹_›)

theorem fetchShmRequest_moves {q q' : ServerQueue} {pc pc' : FetchPc} {outcome : Outcome}
    (moved : fetchShmRequest q pc outcome = some (q', pc')) : FetchMove q pc q' pc' := by
  cases pc <;> cases outcome <;> simp only [fetchShmRequest] at moved <;>
    first
    | contradiction
    | (cases moved; first | exact .refuse _ | exact .abandon _ | exact .shrink)
    | (split at moved <;> cases moved <;>
        first
        | exact .takeFull ‹_› | exact .enter ‹_› | exact .apply _ ‹_› | exact .applyOutside ‹_›
        | exact .moveTail ‹_› | exact .divideByZero ‹_› | exact .postMutex ‹_›
        | exact .mutexOverflow ‹_› | exact .postEmpty ‹_› | exact .emptyOverflow ‹_›)

/-- A step of the system starts a call or moves exactly one. -/
theorem step_cases {s s' : System} {event : Event} (stepped : step s event = some s') :
    (∃ sub, event = .send sub ∧ s' = { s with calls := s.calls ++ [.send sub .clock] }) ∨
    (event = .fetch ∧ s' = { s with calls := s.calls ++ [.fetch .waitFull] }) ∨
    (∃ i outcome sub pc queue pc', event = .turn i outcome ∧
      s.calls[i]? = some (.send sub pc) ∧
      sendShmRequest sub s.queue pc outcome = some (queue, pc') ∧
      s' = { s with
        queue := queue
        calls := s.calls.set i (.send sub pc')
        stored := if pc = .store then s.stored ++ [sub] else s.stored }) ∨
    (∃ i outcome pc queue pc', event = .turn i outcome ∧
      s.calls[i]? = some (.fetch pc) ∧
      fetchShmRequest s.queue pc outcome = some (queue, pc') ∧
      s' = { s with
        queue := queue
        calls := s.calls.set i (.fetch pc')
        applied := if pc = .apply then s.applied ++ (s.queue.buffer[s.queue.tail]?).toList
          else s.applied }) := by
  cases event with
  | send sub => exact .inl ⟨sub, rfl, by simpa [step] using stepped.symm⟩
  | fetch => exact .inr (.inl ⟨rfl, by simpa [step] using stepped.symm⟩)
  | turn i outcome =>
    simp only [step] at stepped
    split at stepped
    · rename_i sub pc found
      obtain ⟨⟨queue, pc'⟩, moved, rfl⟩ := Option.map_eq_some_iff.mp stepped
      exact .inr (.inr (.inl ⟨i, outcome, sub, pc, queue, pc', rfl, found, moved, rfl⟩))
    · rename_i pc found
      obtain ⟨⟨queue, pc'⟩, moved, rfl⟩ := Option.map_eq_some_iff.mp stepped
      exact .inr (.inr (.inr ⟨i, outcome, pc, queue, pc', rfl, found, moved, rfl⟩))
    · cases stepped

/-! ## What the calls in flight hold -/

/-- The call is between its wait on the mutex and its post of it. -/
def Call.inside : Call → Nat
  | .send _ .store | .send _ .moveHead | .send _ .grow | .send _ .postMutex => 1
  | .fetch .apply | .fetch (.moveTail _) | .fetch (.shrink _) | .fetch (.postMutex _) => 1
  | _ => 0

/-- The call has taken a token of `empty` and stored nothing for it. -/
def Call.claimsSlot : Call → Nat
  | .send _ .waitMutex | .send _ .store | .send _ (.abandoned _) => 1
  | _ => 0

/-- The call has handed a request over and not given its slot back yet. -/
def Call.owesEmpty : Call → Nat
  | .fetch (.moveTail _) | .fetch (.shrink _) | .fetch (.postMutex _) | .fetch (.postEmpty _) => 1
  | _ => 0

/-- The call has taken a token of `full` and handed nothing over for it. -/
def Call.claimsItem : Call → Nat
  | .fetch .waitMutex | .fetch .apply | .fetch (.abandoned _) => 1
  | _ => 0

/-- The call has stored a request and not announced it yet. -/
def Call.owesFull : Call → Nat
  | .send _ .moveHead | .send _ .grow | .send _ .postMutex | .send _ .postFull => 1
  | _ => 0

variable {maxSlot i : Nat} {s s' : System} {queue : ServerQueue} {sub : Submission}

/-- The books of the three semaphores. A token of `empty` is free, claimed by a
sender, spent on a live or departing item, or owed; likewise for `full`. -/
structure Tokens (maxSlot : Nat) (s : System) : Prop where
  slots : s.queue.nbSlots = maxSlot
  mutex : s.queue.mutex + tally Call.inside s.calls = 1
  empty : s.queue.empty + tally Call.claimsSlot s.calls + s.stored.length +
    tally Call.owesEmpty s.calls = maxSlot + s.applied.length
  full : s.queue.full + tally Call.claimsItem s.calls + s.applied.length +
    tally Call.owesFull s.calls = s.stored.length
  handed : tally Call.owesEmpty s.calls ≤ s.applied.length

theorem initServerQueue_eq (bound : maxSlot ≤ INT_MAX) :
    initServerQueue maxSlot = some
      { nbSlots := maxSlot, mutex := 1, empty := maxSlot, full := 0, length := 0, head := 0,
        tail := 0, buffer := List.replicate maxSlot zeroRequest } := by
  have small : maxSlot % 2 ^ 32 = maxSlot := Nat.mod_eq_of_lt (by simp only [INT_MAX] at bound; omega)
  rw [initServerQueue, small, SEM_VALUE_MAX, if_pos bound]

theorem tokens_start (bound : maxSlot ≤ INT_MAX)
    (built : initServerQueue maxSlot = some queue) : Tokens maxSlot (start queue) := by
  rw [initServerQueue_eq bound] at built
  cases built
  constructor <;> simp [start]

/-- A post never overflows: its own call holds or owes the token it gives. -/
theorem Tokens.mutex_room (tokens : Tokens maxSlot s) : s.queue.mutex < SEM_VALUE_MAX := by
  have := tokens.mutex
  simp only [SEM_VALUE_MAX, INT_MAX]
  omega

theorem Tokens.full_room (tokens : Tokens maxSlot s) (bound : maxSlot ≤ INT_MAX)
    (found : s.calls[i]? = some (.send sub .postFull)) : s.queue.full < SEM_VALUE_MAX := by
  have owed := le_tally Call.owesFull found
  simp only [Call.owesFull] at owed
  have := tokens.empty
  have := tokens.full
  simp only [SEM_VALUE_MAX]
  omega

theorem Tokens.empty_room (tokens : Tokens maxSlot s) (bound : maxSlot ≤ INT_MAX)
    (found : s.calls[i]? = some (.fetch (.postEmpty r))) : s.queue.empty < SEM_VALUE_MAX := by
  have owed := le_tally Call.owesEmpty found
  simp only [Call.owesEmpty] at owed
  have := tokens.empty
  have := tokens.full
  simp only [SEM_VALUE_MAX]
  omega

/-- The books stay balanced when a sender moves. -/
theorem Tokens.send (tokens : Tokens maxSlot s) (bound : maxSlot ≤ INT_MAX)
    (found : s.calls[i]? = some (.send sub pc)) (move : SendMove sub s.queue pc queue pc')
    (alive : pc' ≠ .crashed) :
    Tokens maxSlot { s with
      queue := queue
      calls := s.calls.set i (.send sub pc')
      stored := if pc = .store then s.stored ++ [sub] else s.stored } := by
  have inside := tally_set Call.inside (.send sub pc') found
  have claimsSlot := tally_set Call.claimsSlot (.send sub pc') found
  have owesEmpty := tally_set Call.owesEmpty (.send sub pc') found
  have claimsItem := tally_set Call.claimsItem (.send sub pc') found
  have owesFull := tally_set Call.owesFull (.send sub pc') found
  have mutexRoom := tokens.mutex_room
  have ⟨slots, mutex, empty, full, handed⟩ := tokens
  cases move with
  | refuse r first =>
    rcases first with rfl | rfl <;>
      simp only [Call.inside, Call.claimsSlot, Call.owesEmpty, Call.claimsItem,
        Call.owesFull] at inside claimsSlot owesEmpty claimsItem owesFull <;>
      constructor <;> simp <;> omega
  | storeOutside | divideByZero => exact absurd rfl alive
  | mutexOverflow overflow => exact absurd mutexRoom overflow
  | fullOverflow overflow => exact absurd (tokens.full_room bound found) overflow
  | _ =>
    simp only [Call.inside, Call.claimsSlot, Call.owesEmpty, Call.claimsItem,
      Call.owesFull] at inside claimsSlot owesEmpty claimsItem owesFull
    constructor <;> simp <;> omega

/-- The books stay balanced when a fetcher moves; the slot it hands over exists. -/
theorem Tokens.fetch (tokens : Tokens maxSlot s) (bound : maxSlot ≤ INT_MAX)
    (found : s.calls[i]? = some (.fetch pc)) (move : FetchMove s.queue pc queue pc')
    (alive : pc' ≠ .crashed) :
    Tokens maxSlot { s with
      queue := queue
      calls := s.calls.set i (.fetch pc')
      applied := if pc = .apply then s.applied ++ (s.queue.buffer[s.queue.tail]?).toList
        else s.applied } := by
  have inside := tally_set Call.inside (.fetch pc') found
  have claimsSlot := tally_set Call.claimsSlot (.fetch pc') found
  have owesEmpty := tally_set Call.owesEmpty (.fetch pc') found
  have claimsItem := tally_set Call.claimsItem (.fetch pc') found
  have owesFull := tally_set Call.owesFull (.fetch pc') found
  have mutexRoom := tokens.mutex_room
  have ⟨slots, mutex, empty, full, handed⟩ := tokens
  cases move with
  | applyOutside | divideByZero => exact absurd rfl alive
  | mutexOverflow overflow => exact absurd mutexRoom overflow
  | emptyOverflow overflow => exact absurd (tokens.empty_room bound found) overflow
  | apply r present =>
    simp only [Call.inside, Call.claimsSlot, Call.owesEmpty, Call.claimsItem,
      Call.owesFull] at inside claimsSlot owesEmpty claimsItem owesFull
    constructor <;> simp [List.getElem?_eq_getElem present] <;> omega
  | _ =>
    simp only [Call.inside, Call.claimsSlot, Call.owesEmpty, Call.claimsItem,
      Call.owesFull] at inside claimsSlot owesEmpty claimsItem owesFull
    constructor <;> simp <;> omega

/-- A call that has not taken its first step holds nothing. -/
theorem Tokens.call (tokens : Tokens maxSlot s) (call : Call)
    (fresh : (∃ sub, call = .send sub .clock) ∨ call = .fetch .waitFull) :
    Tokens maxSlot { s with calls := s.calls ++ [call] } := by
  obtain ⟨slots, mutex, empty, full, handed⟩ := tokens
  rcases fresh with ⟨sub, rfl⟩ | rfl <;> constructor <;>
    simpa [Call.inside, Call.claimsSlot, Call.owesEmpty, Call.claimsItem, Call.owesFull]

end LocalServer.ShmQueue
