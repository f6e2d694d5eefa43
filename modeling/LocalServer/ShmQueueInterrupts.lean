import LocalServer.ShmQueueLeak

/-! Clients that a signal ends in the middle of `send_shm_request`. The handler
`sig_disconnect` exits the process without going back, and what it does to the queue is
to unmap it: the interrupted call stays where it was for ever. -/
namespace LocalServer.ShmQueue
open Runs

/-- The system, and the calls whose process is gone. -/
structure Interrupted where
  system : System
  gone : List Nat
  deriving DecidableEq

inductive Interruption where
  /-- A step of the system. -/
  | works (event : Event)
  /-- A handled signal reaches the client that makes call `i`. -/
  | signal (i : Nat)
  deriving DecidableEq

/-- The call an event moves. -/
def Event.moves : Event → Option Nat
  | .turn i _ => some i
  | _ => none

/-- A call is one of `send_shm_request`. -/
def Call.isSend : Call → Bool
  | .send _ _ => true
  | .fetch _ => false

def interruptStep (s : Interrupted) : Interruption → Option Interrupted
  | .works event =>
    if ∀ i ∈ s.gone, event.moves ≠ some i then
      (step s.system event).map fun system => { s with system := system }
    else none
  | .signal i =>
    if (s.system.calls[i]?).any Call.isSend = true ∧ i ∉ s.gone then some { s with gone := i :: s.gone }
    else none

/-- The places of `send_shm_request` between the wait on `empty` and the post of `full`:
the call holds a token, or the mutex, or has not announced what it stored. -/
def Call.holds : Call → Bool
  | .send _ .waitMutex | .send _ .store | .send _ .moveHead | .send _ .grow | .send _ .postMutex
  | .send _ .postFull => true
  | _ => false

/-- A signal finds its client at another place, and no wait on the mutex times out or fails. -/
def Harmless (s : Interrupted) : Interruption → Prop
  | .works event => secondWaitFails s.system event = false
  | .signal i => ∀ call, s.system.calls[i]? = some call → call.holds = false

instance (s : Interrupted) (event : Interruption) : Decidable (Harmless s event) := by
  unfold Harmless
  split
  · infer_instance
  · next i =>
    exact match s.system.calls[i]? with
      | none => isTrue nofun
      | some call => decidable_of_iff (call.holds = false) (by simp)

/-- Every call that is not interrupted is over. -/
def Interrupted.Settled (s : Interrupted) : Prop :=
  ∀ (i : Nat) call, s.system.calls[i]? = some call → i ∉ s.gone → call.finished = true

/-- What is asked of the queue once clients are gone: the mutex is not left held, and
the counters agree with the content when no other call is in progress. -/
structure Interrupted.Undamaged (s : Interrupted) : Prop where
  released : (∀ (i : Nat) call, s.system.calls[i]? = some call → i ∉ s.gone → call.inside = 0) →
    s.system.queue.mutex = 1
  agrees : s.Settled → s.system.queue.Agrees

variable {maxSlot i : Nat} {s s' : Interrupted} {queue : ServerQueue} {call : Call}
  {event : Interruption} {events : List Interruption}

/-- A call holds something and will not give it back. -/
def Interrupted.Lossy (s : Interrupted) : Prop :=
  0 < tally Call.abandoned s.system.calls ∨
    ∃ (i : Nat) (call : Call), i ∈ s.gone ∧ s.system.calls[i]? = some call ∧ call.holds = true

/-- What a step can do: a client is gone, or the others go on. -/
theorem interruptStep_cases (stepped : interruptStep s event = some s') :
    (∃ i, event = .signal i ∧ (s.system.calls[i]?).any Call.isSend = true ∧ i ∉ s.gone ∧
      s' = { s with gone := i :: s.gone }) ∨
    ∃ move system, event = .works move ∧ (∀ i ∈ s.gone, move.moves ≠ some i) ∧
      step s.system move = some system ∧ s' = { s with system := system } := by
  cases event with
  | signal i =>
    simp only [interruptStep] at stepped
    split at stepped
    · next ready =>
      cases stepped
      exact .inl ⟨i, rfl, ready.1, ready.2, rfl⟩
    · cases stepped
  | works move =>
    simp only [interruptStep] at stepped
    split at stepped
    · next others =>
      obtain ⟨system, moved, rfl⟩ := Option.map_eq_some_iff.mp stepped
      exact .inr ⟨move, system, rfl, others, moved, rfl⟩
    · cases stepped

/-- A call that an event does not move is where it was, or it begins with nothing. -/
theorem unmoved_step {system : System} {move : Event} (gone : move.moves ≠ some i)
    (moved : step s.system move = some system) :
    (∀ call, s.system.calls[i]? = some call → system.calls[i]? = some call) ∧
      ∀ call, system.calls[i]? = some call → s.system.calls[i]? = some call ∨ call.holds = false := by
  have fresh (call : Call) (idle : call.holds = false) :
      (∀ other, s.system.calls[i]? = some other → (s.system.calls ++ [call])[i]? = some other) ∧
        ∀ other, (s.system.calls ++ [call])[i]? = some other →
          s.system.calls[i]? = some other ∨ other.holds = false := by
    refine ⟨fun other found => ?_, fun other found => ?_⟩
    · rwa [List.getElem?_append_left (List.getElem?_eq_some_iff.mp found).1]
    · rcases cases_snoc found with before | ⟨-, rfl⟩
      · exact .inl before
      · exact .inr idle
  have same {j : Nat} {call : Call} (apart : j ≠ i) :
      (∀ other, s.system.calls[i]? = some other → (s.system.calls.set j call)[i]? = some other) ∧
        ∀ other, (s.system.calls.set j call)[i]? = some other →
          s.system.calls[i]? = some other ∨ other.holds = false := by
    rw [List.getElem?_set_ne apart]
    exact ⟨fun _ found => found, fun _ found => .inl found⟩
  rcases step_cases moved with ⟨sub, rfl, rfl⟩ | ⟨rfl, rfl⟩ |
    ⟨j, outcome, sub, pc, queue, pc', rfl, -, -, rfl⟩ |
    ⟨j, outcome, pc, queue, pc', rfl, -, -, rfl⟩
  · exact fresh _ rfl
  · exact fresh _ rfl
  · exact same fun equal => gone (congrArg some equal)
  · exact same fun equal => gone (congrArg some equal)

/-- So it holds something exactly if it did. -/
theorem holds_unmoved {system : System} {move : Event} (gone : move.moves ≠ some i)
    (moved : step s.system move = some system) :
    (∃ call, system.calls[i]? = some call ∧ call.holds = true) ↔
      ∃ call, s.system.calls[i]? = some call ∧ call.holds = true := by
  obtain ⟨stays, was⟩ := unmoved_step gone moved
  constructor
  · rintro ⟨call, found, holds⟩
    rcases was call found with before | idle
    · exact ⟨call, before, holds⟩
    · rw [idle] at holds
      cases holds
  · rintro ⟨call, found, holds⟩
    exact ⟨call, stays call found, holds⟩

/-- What is lost stays lost, and exactly a step that does harm loses something. -/
theorem lossy_step (stepped : interruptStep s event = some s') :
    s'.Lossy ↔ s.Lossy ∨ ¬ Harmless s event := by
  rcases interruptStep_cases stepped with ⟨i, rfl, -, -, rfl⟩ | ⟨move, system, rfl, others, moved, rfl⟩
  · constructor
    · rintro (abandoned | ⟨j, call, member, found, holds⟩)
      · exact .inl (.inl abandoned)
      · rcases List.mem_cons.mp member with rfl | before
        · exact .inr fun harmless => by simp [harmless call found] at holds
        · exact .inl (.inr ⟨j, call, before, found, holds⟩)
    · rintro ((abandoned | ⟨j, call, member, found, holds⟩) | harm)
      · exact .inl abandoned
      · exact .inr ⟨j, call, List.mem_cons_of_mem _ member, found, holds⟩
      · simp only [Harmless, not_forall] at harm
        obtain ⟨call, found, holds⟩ := harm
        exact .inr ⟨i, call, List.mem_cons_self, found, by simpa using holds⟩
  · have abandoned := abandoned_step moved
    have still : (∃ (i : Nat) (call : Call), i ∈ s.gone ∧ system.calls[i]? = some call ∧ call.holds = true) ↔
        ∃ (i : Nat) (call : Call), i ∈ s.gone ∧ s.system.calls[i]? = some call ∧ call.holds = true := by
      constructor
      · rintro ⟨i, call, member, found, holds⟩
        obtain ⟨other, there⟩ := (holds_unmoved (others i member) moved).mp ⟨call, found, holds⟩
        exact ⟨i, other, member, there⟩
      · rintro ⟨i, call, member, found, holds⟩
        obtain ⟨other, there⟩ := (holds_unmoved (others i member) moved).mpr ⟨call, found, holds⟩
        exact ⟨i, other, member, there⟩
    simp only [Interrupted.Lossy, still, Harmless]
    cases fails : secondWaitFails s.system move with
    | true =>
      simp only [fails, if_true] at abandoned
      exact iff_of_true (.inl (by omega)) (.inr (by simp))
    | false =>
      simp only [fails, Bool.false_eq_true, if_false, Nat.add_zero] at abandoned
      simp [abandoned]

/-! ## The books with interrupted calls -/

/-- The books are kept as if the interrupted calls were only slow, and only clients
are interrupted. -/
structure Kept (maxSlot : Nat) (s : Interrupted) : Prop where
  tokens : Tokens maxSlot s.system
  content : Content maxSlot s.system
  sends : ∀ i ∈ s.gone, ∃ call, s.system.calls[i]? = some call ∧ call.isSend = true

theorem kept_step (bound : maxSlot ≤ INT_MAX) (kept : Kept maxSlot s)
    (stepped : interruptStep s event = some s') : Kept maxSlot s' := by
  rcases interruptStep_cases stepped with ⟨i, rfl, sends, -, rfl⟩ | ⟨move, system, rfl, others, moved, rfl⟩
  · refine ⟨kept.tokens, kept.content, fun j member => ?_⟩
    rcases List.mem_cons.mp member with rfl | before
    · exact (Option.any_eq_true _ _).mp sends
    · exact kept.sends j before
  · obtain ⟨tokens, content⟩ := step_invariant bound _ _ _ ⟨kept.tokens, kept.content⟩ moved
    refine ⟨tokens, content, fun i member => ?_⟩
    obtain ⟨call, found, sends⟩ := kept.sends i member
    exact ⟨call, (unmoved_step (others i member) moved).1 call found, sends⟩

/-- A call that is over and kept no token has nothing on the books. -/
theorem Call.clear_of_finished (call : Call) (done : call.finished = true) (kept : call.abandoned = 0) :
    call.inside = 0 ∧ call.claimsSlot = 0 ∧ call.claimsItem = 0 ∧ call.owesFull = 0 ∧
      call.owesEmpty = 0 := by
  unfold Call.finished at done
  split at done <;> first | exact ⟨rfl, rfl, rfl, rfl, rfl⟩ | cases kept | cases done

/-- Nor has one of a client that was interrupted at another place. -/
theorem Call.clear_of_idle (call : Call) (sends : call.isSend = true) (idle : call.holds = false)
    (kept : call.abandoned = 0) :
    call.inside = 0 ∧ call.claimsSlot = 0 ∧ call.claimsItem = 0 ∧ call.owesFull = 0 ∧
      call.owesEmpty = 0 := by
  cases call with
  | fetch pc => cases sends
  | send sub pc =>
    cases pc with
    | abandoned r => cases kept
    | waitMutex | store | moveHead | grow | postMutex | postFull => cases idle
    | _ => exact ⟨rfl, rfl, rfl, rfl, rfl⟩

/-- What a call holds is on the books. -/
theorem Call.holds_counted (call : Call) (holds : call.holds = true) :
    0 < call.inside + call.claimsSlot + call.owesFull := by
  unfold Call.holds at holds
  split at holds <;> simp [Call.inside, Call.claimsSlot, Call.owesFull] at holds ⊢

theorem Call.abandoned_counted (call : Call) : call.abandoned ≤ call.claimsSlot + call.claimsItem := by
  unfold Call.abandoned
  split <;> simp [Call.claimsSlot, Call.claimsItem]

/-- No gone call holds anything and none gave up late. -/
theorem Interrupted.not_lossy (s : Interrupted) :
    ¬ s.Lossy ↔ tally Call.abandoned s.system.calls = 0 ∧
      ∀ i ∈ s.gone, ∀ call, s.system.calls[i]? = some call → call.holds = false := by
  constructor
  · intro sound
    obtain ⟨none, idle⟩ := not_or.mp sound
    refine ⟨Nat.eq_zero_of_not_pos none, fun i member call found => ?_⟩
    by_contra holds
    exact idle ⟨i, call, member, found, by simpa using holds⟩
  · rintro ⟨none, idle⟩ (some | ⟨i, call, member, found, holds⟩)
    · omega
    · rw [idle i member call found] at holds
      cases holds

/-- Where the counters agree nothing is lost. -/
theorem Kept.not_lossy_of_agrees (kept : Kept maxSlot s) (agrees : s.system.queue.Agrees) :
    ¬ s.Lossy := by
  have ⟨slots, mutex, empty, full, handed⟩ := kept.tokens
  have ⟨free, fullAgrees, emptyAgrees⟩ := agrees
  have outside : tally Call.inside s.system.calls = 0 := by omega
  have settled := (kept.content.settled fun call member => by
    obtain ⟨i, found⟩ := List.mem_iff_getElem?.mp member
    have := le_tally Call.inside found
    omega).1
  have short := kept.content.length_le kept.tokens
  have claimsItem : tally Call.claimsItem s.system.calls = 0 := by omega
  have owesFull : tally Call.owesFull s.system.calls = 0 := by omega
  have claimsSlot : tally Call.claimsSlot s.system.calls = 0 := by omega
  rw [Interrupted.not_lossy]
  constructor
  · refine tally_eq_zero fun call member => ?_
    obtain ⟨i, found⟩ := List.mem_iff_getElem?.mp member
    have slot := le_tally Call.claimsSlot found
    have item := le_tally Call.claimsItem found
    have := call.abandoned_counted
    omega
  · intro i _ call found
    by_contra holds
    have counted := call.holds_counted (by simpa using holds)
    have inside := le_tally Call.inside found
    have slot := le_tally Call.claimsSlot found
    have owed := le_tally Call.owesFull found
    omega

/-- Where nothing is lost and all others are done the counters agree. -/
theorem Kept.agrees_of_not_lossy (kept : Kept maxSlot s) (settled : s.Settled) (sound : ¬ s.Lossy) :
    s.system.queue.Agrees := by
  obtain ⟨none, idle⟩ := s.not_lossy.mp sound
  have clear : ∀ call ∈ s.system.calls, call.inside = 0 ∧ call.claimsSlot = 0 ∧ call.claimsItem = 0 ∧
      call.owesFull = 0 ∧ call.owesEmpty = 0 := by
    intro call member
    obtain ⟨i, found⟩ := List.mem_iff_getElem?.mp member
    have spent := le_tally Call.abandoned found
    by_cases gone : i ∈ s.gone
    · obtain ⟨other, same, sends⟩ := kept.sends i gone
      obtain rfl : call = other := Option.some.inj (found.symm.trans same)
      exact call.clear_of_idle sends (idle i gone call found) (by omega)
    · exact call.clear_of_finished (settled i call found gone) (by omega)
  have inside := tally_eq_zero fun call member => (clear call member).1
  have claimsSlot := tally_eq_zero fun call member => (clear call member).2.1
  have claimsItem := tally_eq_zero fun call member => (clear call member).2.2.1
  have owesFull := tally_eq_zero fun call member => (clear call member).2.2.2.1
  have owesEmpty := tally_eq_zero fun call member => (clear call member).2.2.2.2
  have ⟨slots, mutex, empty, full, handed⟩ := kept.tokens
  have length := (kept.content.settled fun call member => (clear call member).1).1
  exact ⟨by omega, by omega, by omega⟩

/-- Where nothing is lost the mutex is free unless somebody is at work with it. -/
theorem Kept.undamaged (kept : Kept maxSlot s) (sound : ¬ s.Lossy) : s.Undamaged where
  released := by
    intro outside
    obtain ⟨none, idle⟩ := s.not_lossy.mp sound
    have inside : tally Call.inside s.system.calls = 0 := tally_eq_zero fun call member => by
      obtain ⟨i, found⟩ := List.mem_iff_getElem?.mp member
      by_cases gone : i ∈ s.gone
      · have spent := le_tally Call.abandoned found
        obtain ⟨other, same, sends⟩ := kept.sends i gone
        obtain rfl : call = other := Option.some.inj (found.symm.trans same)
        exact (call.clear_of_idle sends (idle i gone call found) (by omega)).1
      · exact outside i call found gone
    have mutex := kept.tokens.mutex
    omega
  agrees := fun settled => kept.agrees_of_not_lossy settled sound

/-- The queue has just been built and nobody is gone. -/
def undisturbed (queue : ServerQueue) : Interrupted := ⟨start queue, []⟩

theorem kept_of_run (bound : maxSlot ≤ INT_MAX) (built : initServerQueue maxSlot = some queue)
    (ran : run interruptStep (undisturbed queue) events = some s) : Kept maxSlot s :=
  run_invariant (fun _ _ _ => kept_step bound)
    ⟨tokens_start bound built, content_start bound built, by simp [undisturbed]⟩ ran

/-- **An interrupted client does no damage where it holds nothing.** In every run of any
number of clients and fetchers with any number of interruptions: if every signal finds
its client outside the part from the wait on `empty` to the post of `full`, and no wait
on the mutex fails, then in every state reached the mutex is not left held and the
counters agree with the content when no other call is in progress. If some step is not
like that, the queue is damaged in every state where the other calls are over. -/
theorem interrupted_clients_do_no_damage_iff (bound : maxSlot ≤ INT_MAX)
    (built : initServerQueue maxSlot = some queue)
    (ran : run interruptStep (undisturbed queue) events = some s) :
    (Along interruptStep Harmless (undisturbed queue) events → s.Undamaged) ∧
      (s.Settled → s.Undamaged → Along interruptStep Harmless (undisturbed queue) events) := by
  have kept := kept_of_run bound built ran
  have lossy : s.Lossy ↔ ¬ Along interruptStep Harmless (undisturbed queue) events := by
    have marked := mark_iff_not_along (fun _ _ _ => lossy_step) ran
    have fresh : ¬ (undisturbed queue).Lossy := by
      rw [Interrupted.not_lossy]
      exact ⟨rfl, by simp [undisturbed]⟩
    simpa [fresh] using marked
  constructor
  · intro along
    exact kept.undamaged fun lost => lossy.mp lost along
  · intro settled undamaged
    by_contra harm
    exact kept.not_lossy_of_agrees (undamaged.agrees settled) (lossy.mpr harm)

/-- A signal finds the second client waiting for a slot, while the first one is done. -/
def waitingEvents : List Interruption :=
  [.works (.send (clientPipes 7)), .works (.send (clientPipes 8))] ++
    List.replicate 8 (.works (.turn 0 .ok)) ++ [.works (.turn 1 .ok), .signal 1]

theorem interrupted_clients_do_no_damage_iff_waiting : ∃ queue s, initServerQueue 1 = some queue ∧
    run interruptStep (undisturbed queue) waitingEvents = some s ∧ s.gone = [1] ∧
      s.system.queue.length = 1 ∧ s.Undamaged :=
  have harmless := @interrupted_clients_do_no_damage_iff 1 _ _ waitingEvents (by decide) rfl rfl
  ⟨_, _, rfl, rfl, rfl, rfl, harmless.1 (by decide +kernel)⟩

/-- A signal finds the first client behind its wait on the mutex; nobody gets it any more. -/
def interruptedEvents : List Interruption :=
  .works (.send (clientPipes 7)) :: List.replicate 3 (.works (.turn 0 .ok)) ++ [.signal 0]

theorem interrupted_client_keeps_mutex : ∃ queue s, initServerQueue 2 = some queue ∧
    run interruptStep (undisturbed queue) interruptedEvents = some s ∧ s.gone = [0] ∧
      s.system.queue.mutex = 0 ∧ ¬ s.Undamaged := by
  refine ⟨_, _, rfl, rfl, rfl, rfl, fun undamaged => ?_⟩
  have held := undamaged.released fun i call found gone => by
    cases i with
    | zero => exact absurd List.mem_cons_self gone
    | succ i => cases found
  cases held

end LocalServer.ShmQueue
