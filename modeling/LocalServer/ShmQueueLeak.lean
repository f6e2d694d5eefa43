import LocalServer.ShmQueueSafety

/-! What a call that gives up leaves behind. A wait that fails first leaves
nothing; a wait on the mutex that fails second keeps the token its call took
before, and the counters never agree with the content again. -/
namespace LocalServer.ShmQueue
open Runs

/-- The call returned 0 or an error before it transferred a request. -/
def Call.gaveUp : Call → Bool
  | .send _ (.refused _) | .send _ (.abandoned _) => true
  | .fetch (.refused _) | .fetch (.abandoned _) => true
  | _ => false

/-- The call is over. -/
def Call.finished : Call → Bool
  | .send _ (.refused _) | .send _ (.abandoned _) | .send _ (.returned _) => true
  | .fetch (.refused _) | .fetch (.abandoned _) | .fetch (.returned _) => true
  | _ => false

/-- The call gave up at its second wait. -/
def Call.abandoned : Call → Nat
  | .send _ (.abandoned _) | .fetch (.abandoned _) => 1
  | _ => 0

/-- No call is in progress. -/
def System.Quiet (s : System) : Prop := ∀ call ∈ s.calls, call.finished = true

instance (s : System) : Decidable s.Quiet := inferInstanceAs (Decidable (∀ _ ∈ _, _))

/-- The three counters agree with the content of the queue. -/
structure ServerQueue.Agrees (q : ServerQueue) : Prop where
  mutex : q.mutex = 1
  full : q.full = q.length
  empty : q.empty = q.nbSlots - q.length

/-- The event is a wait on the mutex that times out or fails. -/
def secondWaitFails (s : System) : Event → Bool
  | .turn i outcome =>
    match s.calls[i]? with
    | some (.send _ .waitMutex) | some (.fetch .waitMutex) => outcome != .ok
    | _ => false
  | _ => false

/-- The same run in which call `i` never takes a step. -/
def withoutTurns (i : Nat) (events : List Event) : List Event :=
  events.filter fun event => match event with
    | .turn j _ => j != i
    | _ => true

/-- Had call `i` not been made, the queue would be what it is. -/
def LeavesNoTrace (queue : ServerQueue) (events : List Event) (s : System) (i : Nat) : Prop :=
  ∃ s', run step (start queue) (withoutTurns i events) = some s' ∧ s'.queue = s.queue

variable {maxSlot i : Nat} {s s' : System} {queue : ServerQueue} {sub : Submission} {call : Call}
  {event : Event} {events : List Event}

/-! ## Counters and content in a quiet state -/

/-- Every failed second wait leaves one abandoned call, and nothing else does. -/
theorem abandoned_step (stepped : step s event = some s') :
    tally Call.abandoned s'.calls =
      tally Call.abandoned s.calls + if secondWaitFails s event then 1 else 0 := by
  rcases step_cases stepped with ⟨sub, rfl, rfl⟩ | ⟨rfl, rfl⟩ |
    ⟨i, outcome, sub, pc, queue, pc', rfl, found, moved, rfl⟩ |
    ⟨i, outcome, pc, queue, pc', rfl, found, moved, rfl⟩
  · simp [Call.abandoned, secondWaitFails]
  · simp [Call.abandoned, secondWaitFails]
  · have count := tally_set Call.abandoned (.send sub pc') found
    cases pc <;> cases outcome <;> simp only [sendShmRequest] at moved <;>
      first
      | contradiction
      | (cases moved; simp_all [Call.abandoned, secondWaitFails])
      | (split at moved <;> cases moved <;> simp_all [Call.abandoned, secondWaitFails])
  · have count := tally_set Call.abandoned (.fetch pc') found
    cases pc <;> cases outcome <;> simp only [fetchShmRequest] at moved <;>
      first
      | contradiction
      | (cases moved; simp_all [Call.abandoned, secondWaitFails])
      | (split at moved <;> cases moved <;> simp_all [Call.abandoned, secondWaitFails])

/-- A run has abandoned no call exactly when none of its second waits failed. -/
theorem abandoned_eq_zero_iff (ran : run step s events = some s')
    (clean : tally Call.abandoned s.calls = 0) :
    tally Call.abandoned s'.calls = 0 ↔
      Along step (fun s event => secondWaitFails s event = false) s events := by
  induction events generalizing s with
  | nil => cases ran; simp [Along, clean]
  | cons event events ih =>
    obtain ⟨middle, first, rest⟩ := run_cons_eq_some.mp ran
    have counted := abandoned_step first
    have grows : tally Call.abandoned middle.calls ≤ tally Call.abandoned s'.calls :=
      run_invariant (motive := fun s => tally Call.abandoned middle.calls ≤ tally Call.abandoned s.calls)
        (fun before event after held stepped => by have := abandoned_step stepped; omega)
        (Nat.le_refl _) rest
    cases failed : secondWaitFails s event with
    | true =>
      simp only [failed, if_true] at counted
      simp only [Along, failed, Bool.true_eq_false, false_and, iff_false]
      omega
    | false =>
      simp only [failed, Bool.false_eq_true, if_false] at counted
      have later := ih rest (by omega)
      simp only [Along, failed, true_and, first, Option.some.injEq, forall_eq']
      exact later

/-- In a quiet state the only tokens on the books are those of abandoned calls. -/
theorem Tokens.quiet (tokens : Tokens maxSlot s) (content : Content maxSlot s) (quiet : s.Quiet) :
    s.queue.mutex = 1 ∧
      s.queue.full + tally Call.claimsItem s.calls = s.queue.length ∧
      s.queue.empty + tally Call.claimsSlot s.calls + s.queue.length = maxSlot := by
  have none {weight : Call → Nat} (spent : ∀ call, call.finished = true → weight call = 0) :
      tally weight s.calls = 0 :=
    tally_eq_zero fun call member => spent call (quiet call member)
  have inside : ∀ call : Call, call.finished = true → call.inside = 0 := by
    intro call done
    unfold Call.finished at done
    split at done <;> simp_all [Call.inside]
  have owesEmpty : ∀ call : Call, call.finished = true → call.owesEmpty = 0 := by
    intro call done
    unfold Call.finished at done
    split at done <;> simp_all [Call.owesEmpty]
  have owesFull : ∀ call : Call, call.finished = true → call.owesFull = 0 := by
    intro call done
    unfold Call.finished at done
    split at done <;> simp_all [Call.owesFull]
  have settled := content.settled fun call member => inside call (quiet call member)
  have mutex := tokens.mutex
  have empty := tokens.empty
  have full := tokens.full
  rw [none inside] at mutex
  rw [none owesEmpty] at empty
  rw [none owesFull] at full
  omega

/-- A quiet queue's counters agree with its content exactly when no call was
abandoned: its token is missing for ever. -/
theorem Tokens.agrees_iff (tokens : Tokens maxSlot s) (content : Content maxSlot s)
    (quiet : s.Quiet) : s.queue.Agrees ↔ tally Call.abandoned s.calls = 0 := by
  obtain ⟨mutex, full, empty⟩ := tokens.quiet content quiet
  have kept : tally Call.abandoned s.calls =
      tally Call.claimsSlot s.calls + tally Call.claimsItem s.calls := by
    refine tally_eq_add fun call member => ?_
    have done := quiet call member
    unfold Call.finished at done
    split at done <;> simp_all [Call.abandoned, Call.claimsSlot, Call.claimsItem]
  have bound := content.length_le tokens
  have slots := tokens.slots
  constructor
  · rintro ⟨-, fullAgrees, emptyAgrees⟩
    omega
  · intro clean
    exact ⟨mutex, by omega, by omega⟩

/-! ## Erasing a call that gave up -/

/-- The call has not entered its critical section, and never will once it is over. -/
def Call.early : Call → Bool
  | .send _ .clock | .send _ .waitEmpty | .send _ .waitMutex => true
  | .fetch .waitFull | .fetch .waitMutex => true
  | call => call.gaveUp

/-- Tokens added to the two counting semaphores. -/
def ServerQueue.plus (q : ServerQueue) (empty full : Nat) : ServerQueue :=
  { q with empty := q.empty + empty, full := q.full + full }

/-- The right run is the left one without the steps of call `i`, so it has the
tokens that call still holds. -/
structure Erased (i : Nat) (left right : System) : Prop where
  queue : right.queue = left.queue.plus ((left.calls[i]?).elim 0 Call.claimsSlot)
    ((left.calls[i]?).elim 0 Call.claimsItem)
  stored : right.stored = left.stored
  applied : right.applied = left.applied
  length : right.calls.length = left.calls.length
  others : ∀ j, j ≠ i → right.calls[j]? = left.calls[j]?

/-- Only an early call can give up. -/
theorem early_back (stepped : step s event = some s')
    (early : ∀ call, s'.calls[i]? = some call → call.early = true) :
    ∀ call, s.calls[i]? = some call → call.early = true := by
  intro call found
  rcases step_cases stepped with ⟨sub, rfl, rfl⟩ | ⟨rfl, rfl⟩ |
    ⟨j, outcome, sub, pc, queue, pc', rfl, moving, moved, rfl⟩ |
    ⟨j, outcome, pc, queue, pc', rfl, moving, moved, rfl⟩
  · exact early call (by rw [List.getElem?_append_left (List.getElem?_eq_some_iff.mp found).1, found])
  · exact early call (by rw [List.getElem?_append_left (List.getElem?_eq_some_iff.mp found).1, found])
  · by_cases same : j = i
    · subst same
      have bound := (List.getElem?_eq_some_iff.mp moving).1
      rw [moving] at found
      cases found
      have after := early (.send sub pc') (by rw [List.getElem?_set_self bound])
      cases sendShmRequest_moves moved with
      | refuse r first => rcases first with rfl | rfl <;> rfl
      | _ => first | rfl | simp [Call.early, Call.gaveUp] at after
    · exact early call (by rw [List.getElem?_set_ne same, found])
  · by_cases same : j = i
    · subst same
      have bound := (List.getElem?_eq_some_iff.mp moving).1
      rw [moving] at found
      cases found
      have after := early (.fetch pc') (by rw [List.getElem?_set_self bound])
      cases fetchShmRequest_moves moved with
      | _ => first | rfl | simp [Call.early, Call.gaveUp] at after
    · exact early call (by rw [List.getElem?_set_ne same, found])

/-- More tokens do not disable a step, as long as no post overflows. -/
theorem sendShmRequest_plus {q q' : ServerQueue} {pc pc' : SendPc} {outcome : Outcome}
    {empty full : Nat} (moved : sendShmRequest sub q pc outcome = some (q', pc'))
    (room : pc = .postFull → q.full + full < SEM_VALUE_MAX) :
    sendShmRequest sub (q.plus empty full) pc outcome = some (q'.plus empty full, pc') := by
  cases pc <;> cases outcome <;> simp only [sendShmRequest, ServerQueue.plus] at moved ⊢ <;>
    try first | contradiction | (cases moved; rfl)
  case waitEmpty.ok =>
    split at moved <;> cases moved
    rename_i positive
    simp only [Nat.add_pos_left positive empty, if_true, Nat.sub_add_comm positive]
  case postFull.ok =>
    have fits := room rfl
    rw [if_pos (Nat.lt_of_le_of_lt (Nat.le_add_right _ _) fits)] at moved
    cases moved
    simp only [fits, if_true, Nat.add_right_comm]
  all_goals
    split at moved <;> cases moved <;> simp only [*, if_true, if_false]

theorem fetchShmRequest_plus {q q' : ServerQueue} {pc pc' : FetchPc} {outcome : Outcome}
    {empty full : Nat} (moved : fetchShmRequest q pc outcome = some (q', pc'))
    (room : ∀ r, pc = .postEmpty r → q.empty + empty < SEM_VALUE_MAX) :
    fetchShmRequest (q.plus empty full) pc outcome = some (q'.plus empty full, pc') := by
  cases pc <;> cases outcome <;> simp only [fetchShmRequest, ServerQueue.plus] at moved ⊢ <;>
    try first | contradiction | (cases moved; rfl)
  case waitFull.ok =>
    split at moved <;> cases moved
    rename_i positive
    simp only [Nat.add_pos_left positive full, if_true, Nat.sub_add_comm positive]
  case postEmpty.ok r =>
    have fits := room r rfl
    rw [if_pos (Nat.lt_of_le_of_lt (Nat.le_add_right _ _) fits)] at moved
    cases moved
    simp only [fits, if_true, Nat.add_right_comm]
  all_goals
    split at moved <;> cases moved <;> simp only [*, if_true, if_false]

/-- A step of the erased call is not seen on the right. -/
theorem Erased.hide {left left' right : System} {outcome : Outcome} (erased : Erased i left right)
    (early : ∀ call, left'.calls[i]? = some call → call.early = true)
    (stepped : step left (.turn i outcome) = some left') : Erased i left' right := by
  obtain ⟨queueEq, stored, applied, length, others⟩ := erased
  rcases step_cases stepped with ⟨sub, same, -⟩ | ⟨same, -⟩ |
    ⟨j, outcome, sub, pc, queue, pc', same, moving, moved, rfl⟩ |
    ⟨j, outcome, pc, queue, pc', same, moving, moved, rfl⟩
  · cases same
  · cases same
  · cases same
    have now := List.getElem?_set_self (a := Call.send sub pc') (List.getElem?_eq_some_iff.mp moving).1
    have after := early _ now
    have elsewhere : ∀ j, j ≠ i → right.calls[j]? = (left.calls.set i (.send sub pc'))[j]? :=
      fun j apart => by rw [others j apart, List.getElem?_set_ne (Ne.symm apart)]
    rw [moving] at queueEq
    cases sendShmRequest_moves moved with
    | start => exact ⟨by rw [queueEq, now]; rfl, stored, applied, by simpa using length, elsewhere⟩
    | refuse r first =>
      rcases first with rfl | rfl <;>
        exact ⟨by rw [queueEq, now]; rfl, stored, applied, by simpa using length, elsewhere⟩
    | takeEmpty positive =>
      refine ⟨?_, stored, applied, by simpa using length, elsewhere⟩
      rw [queueEq, now]
      simp [ServerQueue.plus, Call.claimsSlot, Call.claimsItem, Nat.sub_add_cancel positive]
    | abandon r => exact ⟨by rw [queueEq, now]; rfl, stored, applied, by simpa using length, elsewhere⟩
    | _ => simp [Call.early, Call.gaveUp] at after
  · cases same
    have now := List.getElem?_set_self (a := Call.fetch pc') (List.getElem?_eq_some_iff.mp moving).1
    have after := early _ now
    have elsewhere : ∀ j, j ≠ i → right.calls[j]? = (left.calls.set i (.fetch pc'))[j]? :=
      fun j apart => by rw [others j apart, List.getElem?_set_ne (Ne.symm apart)]
    rw [moving] at queueEq
    cases fetchShmRequest_moves moved with
    | refuse r => exact ⟨by rw [queueEq, now]; rfl, stored, applied, by simpa using length, elsewhere⟩
    | takeFull positive =>
      refine ⟨?_, stored, applied, by simpa using length, elsewhere⟩
      rw [queueEq, now]
      simp [ServerQueue.plus, Call.claimsSlot, Call.claimsItem, Nat.sub_add_cancel positive]
    | abandon r => exact ⟨by rw [queueEq, now]; rfl, stored, applied, by simpa using length, elsewhere⟩
    | _ => simp [Call.early, Call.gaveUp] at after

/-- A new call enters both runs in the same place. -/
theorem Erased.append {left right : System} (erased : Erased i left right) (call : Call)
    (fresh : call.claimsSlot = 0 ∧ call.claimsItem = 0) :
    Erased i { left with calls := left.calls ++ [call] }
      { right with calls := right.calls ++ [call] } := by
  obtain ⟨queueEq, stored, applied, length, others⟩ := erased
  have holds {weight : Call → Nat} (none : weight call = 0) :
      ((left.calls ++ [call])[i]?).elim 0 weight = (left.calls[i]?).elim 0 weight := by
    rcases Nat.lt_trichotomy i left.calls.length with before | rfl | after
    · rw [List.getElem?_append_left before]
    · simp [none]
    · rw [List.getElem?_eq_none (by simp; omega), List.getElem?_eq_none (by omega)]
  refine ⟨?_, stored, applied, by simp [length], ?_⟩
  · simpa only [holds fresh.1, holds fresh.2] using queueEq
  · intro j apart
    simp only [List.getElem?_append, length, others j apart]

/-- A step of another call is taken on both sides. -/
theorem Erased.set {left right : System} (erased : Erased i left right) {j : Nat} (apart : j ≠ i)
    (after : Call) {queue : ServerQueue} {stored : List Submission} {applied : List ShmRequest} :
    Erased i { queue := queue, calls := left.calls.set j after, stored := stored, applied := applied }
      { queue := queue.plus ((left.calls[i]?).elim 0 Call.claimsSlot)
          ((left.calls[i]?).elim 0 Call.claimsItem),
        calls := right.calls.set j after, stored := stored, applied := applied } := by
  refine ⟨?_, rfl, rfl, by simp [erased.length], ?_⟩
  · rw [List.getElem?_set_ne apart]
  · intro k other
    simp only [List.getElem?_set, erased.length, erased.others k other]

/-- Every step but those of the erased call is taken on the right as well. -/
theorem Erased.follow {left left' right : System} (erased : Erased i left right)
    (tokens : Tokens maxSlot right) (bound : maxSlot ≤ INT_MAX)
    (other : ∀ outcome, event ≠ .turn i outcome)
    (stepped : step left event = some left') :
    ∃ right', step right event = some right' ∧ Erased i left' right' := by
  have ⟨queueEq, stored, applied, length, others⟩ := erased
  rcases step_cases stepped with ⟨sub, rfl, rfl⟩ | ⟨rfl, rfl⟩ |
    ⟨j, outcome, sub, pc, queue, pc', rfl, moving, moved, rfl⟩ |
    ⟨j, outcome, pc, queue, pc', rfl, moving, moved, rfl⟩
  · exact ⟨_, rfl, erased.append _ ⟨rfl, rfl⟩⟩
  · exact ⟨_, rfl, erased.append _ ⟨rfl, rfl⟩⟩
  · have apart : j ≠ i := fun same => other outcome (by rw [same])
    have found : right.calls[j]? = some (.send sub pc) := by rw [others j apart, moving]
    have room : pc = .postFull → right.queue.full < SEM_VALUE_MAX := fun at_ => by
      subst at_
      exact tokens.full_room bound found
    rw [queueEq] at room
    have followed := @sendShmRequest_plus sub _ _ _ _ _
      ((left.calls[i]?).elim 0 Call.claimsSlot) _ moved room
    rw [← queueEq] at followed
    refine ⟨_, ?_, erased.set apart (.send sub pc')⟩
    simp only [step, found, followed, stored, applied, Option.map_some]
  · have apart : j ≠ i := fun same => other outcome (by rw [same])
    have found : right.calls[j]? = some (.fetch pc) := by rw [others j apart, moving]
    have room : ∀ r, pc = .postEmpty r → right.queue.empty < SEM_VALUE_MAX := fun r at_ => by
      subst at_
      exact tokens.empty_room bound found
    rw [queueEq] at room
    have followed := @fetchShmRequest_plus _ _ _ _ _ _
      ((left.calls[i]?).elim 0 Call.claimsItem) moved room
    rw [← queueEq] at followed
    refine ⟨_, ?_, erased.set apart (.fetch pc')⟩
    have slot : right.queue.buffer[right.queue.tail]? = left.queue.buffer[left.queue.tail]? := by
      rw [queueEq]
      rfl
    simp only [step, found, followed, stored, applied, slot, Option.map_some]

/-- The run without the early call reaches the same queue, plus the call's tokens. -/
theorem run_erased (bound : maxSlot ≤ INT_MAX)
    (built : initServerQueue maxSlot = some queue) (ran : run step (start queue) events = some s)
    (early : ∀ call, s.calls[i]? = some call → call.early = true) :
    ∃ s', run step (start queue) (withoutTurns i events) = some s' ∧ Erased i s s' := by
  refine run_history
    (motive := fun past s => (∀ call, s.calls[i]? = some call → call.early = true) →
      ∃ s', run step (start queue) (withoutTurns i past) = some s' ∧ Erased i s s')
    ?_ ?_ ran early
  · intro past before event after held stepped early
    obtain ⟨right, reached, erased⟩ := held (early_back stepped early)
    obtain ⟨tokens, -⟩ := run_keeps_invariant bound built reached
    by_cases mine : ∃ outcome, event = .turn i outcome
    · obtain ⟨outcome, rfl⟩ := mine
      refine ⟨right, ?_, erased.hide early stepped⟩
      simpa [withoutTurns] using reached
    · have other : ∀ outcome, event ≠ .turn i outcome := fun outcome same => mine ⟨outcome, same⟩
      obtain ⟨right', taken, still⟩ := erased.follow tokens bound other stepped
      have kept : withoutTurns i (past ++ [event]) = withoutTurns i past ++ [event] := by
        cases event with
        | turn j outcome =>
          have apart : j ≠ i := fun same => other outcome (by rw [same])
          simp [withoutTurns, apart]
        | _ => simp [withoutTurns]
      refine ⟨right', ?_, still⟩
      rw [kept]
      exact run_append_eq_some.mpr ⟨right, reached, by simpa using taken⟩
  · intro _
    exact ⟨start queue, rfl, by constructor <;> simp [start, ServerQueue.plus]⟩

theorem Call.abandoned_of_not_gaveUp (call : Call) (going : ¬ call.gaveUp = true) :
    call.abandoned = 0 := by
  unfold Call.abandoned
  split
  · exact absurd rfl going
  · exact absurd rfl going
  · rfl

/-- The token an abandoned call keeps is all that a call that gave up can hold. -/
theorem Call.abandoned_of_gaveUp (call : Call) (gaveUp : call.gaveUp = true) :
    call.abandoned = call.claimsSlot + call.claimsItem := by
  unfold Call.gaveUp at gaveUp
  split at gaveUp <;> first | rfl | cases gaveUp

theorem Call.early_of_gaveUp (call : Call) (gaveUp : call.gaveUp = true) : call.early = true := by
  unfold Call.gaveUp at gaveUp
  split at gaveUp <;> first | rfl | cases gaveUp

/-- A call that gave up leaves no trace exactly when it was not abandoned. -/
theorem leavesNoTrace_iff (bound : maxSlot ≤ INT_MAX)
    (built : initServerQueue maxSlot = some queue) (ran : run step (start queue) events = some s)
    (found : s.calls[i]? = some call) (gaveUp : call.gaveUp = true) :
    LeavesNoTrace queue events s i ↔ call.abandoned = 0 := by
  have early : ∀ other, s.calls[i]? = some other → other.early = true := by
    intro other same
    rw [found] at same
    cases same
    exact call.early_of_gaveUp gaveUp
  obtain ⟨s', reached, erased⟩ := run_erased bound built ran early
  have queueEq := erased.queue
  have kept := call.abandoned_of_gaveUp gaveUp
  simp only [found, Option.elim_some] at queueEq
  constructor
  · rintro ⟨other, same, unchanged⟩
    rw [reached] at same
    cases same
    rw [unchanged] at queueEq
    have empty := congrArg ServerQueue.empty queueEq
    have full := congrArg ServerQueue.full queueEq
    simp only [ServerQueue.plus] at empty full
    omega
  · intro none
    have noSlot : call.claimsSlot = 0 := by omega
    have noItem : call.claimsItem = 0 := by omega
    exact ⟨s', reached, by rw [queueEq, noSlot, noItem]; rfl⟩

/-- **A failed call leaks its slot exactly when its second wait failed.** Every call
that gave up leaves the queue as if it had not been made, and a quiet queue's
counters agree with its content, if and only if no wait on the mutex of the run
timed out or failed. -/
theorem failed_calls_keep_tokens_iff (bound : maxSlot ≤ INT_MAX)
    (built : initServerQueue maxSlot = some queue) (ran : run step (start queue) events = some s) :
    ((∀ (i : Nat) call, s.calls[i]? = some call → call.gaveUp = true →
        LeavesNoTrace queue events s i) ∧ (s.Quiet → s.queue.Agrees)) ↔
      Along step (fun s event => secondWaitFails s event = false) (start queue) events := by
  obtain ⟨tokens, content⟩ := run_keeps_invariant bound built ran
  have fresh : tally Call.abandoned (start queue).calls = 0 := rfl
  rw [← abandoned_eq_zero_iff ran fresh]
  constructor
  · rintro ⟨noTrace, -⟩
    refine tally_eq_zero fun call member => ?_
    obtain ⟨i, found⟩ := List.mem_iff_getElem?.mp member
    by_cases gaveUp : call.gaveUp = true
    · exact (leavesNoTrace_iff bound built ran found gaveUp).mp (noTrace i call found gaveUp)
    · exact call.abandoned_of_not_gaveUp gaveUp
  · intro clean
    refine ⟨fun i call found gaveUp => ?_, fun quiet => (tokens.agrees_iff content quiet).mpr clean⟩
    have := le_tally Call.abandoned found
    exact (leavesNoTrace_iff bound built ran found gaveUp).mpr (by omega)

/-- On two slots the first client is in its critical section when the second one,
which has a token of `empty`, times out on the mutex; then the first one finishes. -/
def leakEvents : List Event :=
  [.send (clientPipes 7), .send (clientPipes 8)] ++ List.replicate 3 (.turn 0 .ok) ++
    [.turn 1 .ok, .turn 1 .ok, .turn 1 .timeout] ++ List.replicate 5 (.turn 0 .ok)

/-- No call is in progress and one request is stored, but neither slot is free. -/
theorem timed_out_client_leaks_slot : ∃ queue s, initServerQueue 2 = some queue ∧
    run step (start queue) leakEvents = some s ∧ s.Quiet ∧
    s.calls[1]? = some (.send (clientPipes 8) (.abandoned 0)) ∧
    s.queue.length = 1 ∧ s.queue.empty = 0 ∧ ¬ s.queue.Agrees :=
  ⟨_, _, rfl, rfl, by decide, rfl, rfl, rfl, fun agrees => absurd agrees.empty (by decide)⟩

/-- One client fills the only slot, another waits for it in vain, and the server fetches the
request. -/
def fullEvents : List Event :=
  [Event.send (clientPipes 7), .send (clientPipes 8), .fetch] ++ List.replicate 8 (Event.turn 0 .ok) ++
    [Event.turn 1 .ok, .turn 1 .timeout, .turn 2 .ok, .turn 2 .ok, .turn 2 (.value 1)] ++
    List.replicate 4 (Event.turn 2 .ok)

theorem failed_calls_keep_tokens_iff_full : ∃ queue s, initServerQueue 1 = some queue ∧
    run step (start queue) fullEvents = some s ∧ s.Quiet ∧
    s.calls[1]? = some (.send (clientPipes 8) (.refused 0)) ∧
    LeavesNoTrace queue fullEvents s 1 ∧ s.queue.Agrees := by
  let queue : ServerQueue := ⟨1, 1, 1, 0, 0, 0, 0, [zeroRequest]⟩
  have built : initServerQueue 1 = some queue := rfl
  have computed : (run step (start queue) fullEvents).map (fun s => (decide s.Quiet, s.calls[1]?)) =
      some (true, some (.send (clientPipes 8) (.refused 0))) := by decide +kernel
  obtain ⟨s, ran, same⟩ := Option.map_eq_some_iff.mp computed
  obtain ⟨quiet, refused⟩ := Prod.mk.inj same
  have quiet := of_decide_eq_true quiet
  have clean : Along step (fun s event => secondWaitFails s event = false) (start queue) fullEvents := by
    decide +kernel
  obtain ⟨noTrace, agrees⟩ := (failed_calls_keep_tokens_iff (by decide) built ran).mpr clean
  exact ⟨queue, s, built, ran, quiet, refused, noTrace 1 _ refused rfl, agrees quiet⟩

end LocalServer.ShmQueue
