import LocalServer.RequestPipe
import LocalServer.Sessions

/-! What `send_request` and `send_response` report. A child does the writing, and
all the caller gets of it is the status that `wait` stores. -/
namespace LocalServer.SendOutcomes
open Runs
open Handler (Request MAX_COMMAND_LENGTH)
open ResponsePipe (Answer Response Sender SIZEOF_SIZE_T PIPE_ERROR MEMORY_ERROR SIG_ERROR sizeBytes
  makeResponse exitStatus sendResult)
open RequestPipe (Requester)
open Sessions (PROC_ERROR)

/-! ## The helpers, call by call -/

/-- `alarm((unsigned int) timeout)` sets an alarm, and does not cancel one. -/
def alarmed (timeout : Int) : Bool := timeout % 2 ^ 32 ≠ 0

/-- One call of the child of `send_request`, with the bytes it writes, whatever the
other end of the pipe does. -/
def requestCall (timeout : Int) (h : Requester) (answer : Answer) : Option (Requester × List Byte) :=
  match h.pc, answer with
  | .sigfillset, .ok => some ({ h with pc := .sigaction }, [])
  | .sigaction, .ok => some ({ h with pc := .open }, [])
  | .sigfillset, .fail | .sigaction, .fail => some (h.exit SIG_ERROR, [])
  | .open, .ok => some ({ h with pc := .write }, [])
  | .write, .count n =>
    if n ≤ h.req.cmd.bytes.length then some ({ h with pc := .close }, h.req.cmd.bytes.take n) else none
  | .close, .ok => some (h.exit 0, [])
  -- the child does not exit: it goes on as if it were the caller
  | .open, .fail | .write, .fail | .close, .fail => some (h.return PIPE_ERROR, [])
  | .open, .expire | .write, .expire | .close, .expire =>
    if alarmed timeout then some (h.exit 1, []) else none
  | _, _ => none

/-- One call of the child of `send_response`. -/
def responseCall (timeout : Int) (s : Sender) (answer : Answer) : Option (Sender × List Byte) :=
  match s.pc, answer with
  | .sigfillset, .ok => some ({ s with pc := .sigaction }, [])
  | .sigaction, .ok => some ({ s with pc := .open }, [])
  | .sigfillset, .fail | .sigaction, .fail => some (s.exit SIG_ERROR, [])
  | .open, .ok => some ({ s with pc := .header }, [])
  | .header, .count n =>
    if n ≤ SIZEOF_SIZE_T then some (s.loop, (sizeBytes s.res.size).take n) else none
  | .body, .count n =>
    if n = 0 then some ({ s with pc := .close }, [])
    else if n ≤ s.res.size - s.total then
      some ((s.count n).loop, (s.res.msg.drop s.total).take n)
    else none
  | .close, .ok => some (s.exit 0, [])
  | .open, .fail | .header, .fail | .body, .fail | .close, .fail => some (s.exit PIPE_ERROR, [])
  | .open, .expire | .header, .expire | .body, .expire | .close, .expire =>
    if alarmed timeout then some (s.exit 1, []) else none
  | _, _ => none

/-- What has become of a child. -/
inductive Fate where
  | running | exited (code : Int)
  /-- It left the function it was forked in. -/
  | returned
  deriving DecidableEq

/-- What the two functions differ in. -/
structure Helper (P : Type) where
  call : P → Answer → Option (P × List Byte)
  fate : P → Fate
  /-- Its next call is `open`, `write` or `close`. -/
  onPipe : P → Bool
  /-- Its next call is `close`. -/
  closing : P → Bool
  /-- The write returns with bytes left that no later one writes. -/
  short : P → Answer → Bool
  /-- What it does when a call on the pipe fails. -/
  failing : Fate

def sendRequest (timeout : Int) : Helper Requester where
  call := requestCall timeout
  fate h := match h.pc with
    | .exited code => .exited code
    | .returned _ => .returned
    | _ => .running
  onPipe h := match h.pc with
    | .open | .write | .close => true
    | _ => false
  closing h := match h.pc with
    | .close => true
    | _ => false
  short h answer := match h.pc, answer with
    | .write, .count n => n < h.req.cmd.bytes.length
    | _, _ => false
  failing := .returned

def sendResponse (timeout : Int) : Helper Sender where
  call := responseCall timeout
  fate s := match s.pc with
    | .exited code => .exited code
    | _ => .running
  onPipe s := match s.pc with
    | .open | .header | .body | .close => true
    | _ => false
  closing s := match s.pc with
    | .close => true
    | _ => false
  -- behind a shorter write of the body comes another one, unless it wrote nothing
  short s answer := match s.pc, answer with
    | .header, .count n => n < SIZEOF_SIZE_T
    | .body, .count n => n = 0 ∧ s.total < s.res.size
    | _, _ => false
  failing := .exited PIPE_ERROR

/-! ## The caller -/

inductive Caller where
  | malloc | fork | wait | returned (r : Int)
  deriving DecidableEq

/-- A call of one of the two functions: the caller, its child, the bytes written, and
what happened to the child: it closed the pipe, the alarm ended it, a call on the
pipe failed. -/
structure Call (P : Type) where
  caller : Caller
  helper : P
  written : List Byte
  closed : Bool
  expired : Bool
  failed : Bool
  deriving DecidableEq

inductive Event where
  /-- The caller makes a call. -/
  | calls (answer : Answer)
  /-- The child makes a call. -/
  | helps (answer : Answer)
  deriving DecidableEq

variable {P : Type}

def step (h : Helper P) (c : Call P) : Event → Option (Call P)
  | .calls answer =>
    match c.caller, answer with
    | .malloc, .ok => some { c with caller := .fork }
    | .malloc, .fail => some { c with caller := .returned MEMORY_ERROR }
    | .fork, .ok => some { c with caller := .wait }
    | .fork, .fail => some { c with caller := .returned PROC_ERROR }
    -- the caller has no other child that its `wait` could collect
    | .wait, .ok =>
      match h.fate c.helper with
      | .exited code => some { c with caller := .returned (sendResult (exitStatus code)) }
      | _ => none
    | _, _ => none
  | .helps answer =>
    if c.caller = .wait then
      (h.call c.helper answer).map fun (helper, chunk) =>
        { c with helper := helper
                 written := c.written ++ chunk
                 closed := c.closed || (h.closing c.helper && answer = .ok)
                 expired := c.expired || answer = .expire
                 failed := c.failed || (h.onPipe c.helper && answer = .fail) }
    else none

/-- A call that begins at this place, with the child as it will be forked. -/
def begin (caller : Caller) (helper : P) : Call P := ⟨caller, helper, [], false, false, false⟩

/-- `send_request` is called. -/
def requested (cmd : List Byte) : Call Requester := begin .fork (.ofCommand cmd)

/-- `send_response` is called. -/
def responded (msg : CString) (maxSize : Int) : Call Sender :=
  begin .malloc ⟨.sigfillset, makeResponse msg maxSize, maxSize, 0⟩

/-- One of the processes has returned. -/
def Call.ended (h : Helper P) (c : Call P) : Prop :=
  (∃ r, c.caller = .returned r) ∨ h.fate c.helper = .returned

/-- Only the caller returns, and what it returns tells what became of the frame. -/
structure Faithful (h : Helper P) (frame : List Byte) (c : Call P) : Prop where
  once : h.fate c.helper ≠ .returned
  delivered : ∀ r, c.caller = .returned r → (r = 1 ↔ c.written = frame ∧ c.closed = true)
  expired : ∀ r, c.caller = .returned r → c.expired = true → r = 0
  failed : ∀ r, c.caller = .returned r → c.failed = true → r < 0

/-- No call on the pipe fails. -/
def Works (h : Helper P) (c : Call P) (event : Event) : Prop :=
  ¬ (h.onPipe c.helper = true ∧ event = .helps .fail)

/-- No write leaves bytes unwritten. -/
def Whole (h : Helper P) (c : Call P) : Event → Prop
  | .helps answer => h.short c.helper answer = false
  | _ => True

instance (h : Helper P) (c : Call P) (event : Event) : Decidable (Works h c event) := by
  unfold Works
  infer_instance

instance (h : Helper P) (c : Call P) (event : Event) : Decidable (Whole h c event) := by
  unfold Whole
  split <;> infer_instance

variable {h : Helper P} {c c' : Call P} {event : Event} {events : List Event} {init : P}
  {frame : List Byte} {good : P → Prop} {due : P → Nat}

/-! ## What the outcome rests on -/

/-- What has become of a child after a call. -/
def Helper.after (h : Helper P) (p : P) (answer : Answer) : Fate :=
  match answer with
  | .expire => .exited 1
  | .fail => if h.onPipe p then h.failing else .exited SIG_ERROR
  | .ok => if h.closing p then .exited 0 else .running
  | .count _ => .running

/-- What one call of a helper does. So many bytes of the frame are due before it and
after it; it writes the next ones, and fewer than come to be due if it is short. -/
structure Advance (h : Helper P) (frame : List Byte) (good : P → Prop) (due : P → Nat) (p : P)
    (answer : Answer) (p' : P) (chunk : List Byte) : Prop where
  keeps : good p'
  running : h.fate p = .running
  fate : h.fate p' = h.after p answer
  next : chunk <+: frame.drop (due p)
  advances : due p + chunk.length ≤ due p'
  loses : h.short p answer = true → due p + chunk.length < due p'
  exact : h.short p answer = false → h.after p answer = .running ∨ h.after p answer = .exited 0 →
    due p' = due p + chunk.length
  /-- The calls that are none of the pipe come before the first byte. -/
  early : answer = .fail → h.onPipe p = false → due p = 0

/-- A helper that writes a frame front to back. -/
structure Writes (h : Helper P) (init : P) (frame : List Byte) (good : P → Prop) (due : P → Nat) :
    Prop where
  init_good : good init
  init_due : due init = 0
  init_running : h.fate init = .running
  failing : h.failing = .exited PIPE_ERROR ∨ h.failing = .returned
  finished : ∀ p, good p → h.fate p = .exited 0 → due p = frame.length
  counts : ∀ p answer, h.short p answer = true → ∃ n, answer = .count n
  advance : ∀ p answer p' chunk, good p → h.call p answer = some (p', chunk) →
    Advance h frame good due p answer p' chunk

/-- What the caller gets for each end of its child. -/
theorem sendResult_zero : sendResult (exitStatus 0) = 1 := rfl

theorem sendResult_alarm : sendResult (exitStatus 1) = 0 := rfl

theorem sendResult_sigError : sendResult (exitStatus SIG_ERROR) = 0 := rfl

/-- A status is never negative, so that the caller takes an error for a timeout. -/
theorem sendResult_pipeError : sendResult (exitStatus PIPE_ERROR) = 0 := rfl

/-- How the child of a call ended, as the call and its result show it. -/
structure Tracked (h : Helper P) (init : P) (good : P → Prop) (due : P → Nat) (c : Call P) : Prop where
  good : good c.helper
  upTo : c.written.length ≤ due c.helper
  fates : h.fate c.helper ∈ [.running, .exited 0, .exited 1, .exited SIG_ERROR, h.failing]
  closed : c.closed = true ↔ h.fate c.helper = .exited 0
  expired : c.expired = true ↔ h.fate c.helper = .exited 1
  failed : c.failed = true ↔ h.fate c.helper = h.failing
  idle : c.caller = .malloc ∨ c.caller = .fork → c.helper = init
  result : ∀ r, c.caller = .returned r → r < 0 ∧ c.helper = init ∨
    ∃ code, h.fate c.helper = .exited code ∧ r = sendResult (exitStatus code)

theorem Writes.tracked_begin (writes : Writes h init frame good due) {caller : Caller}
    (entry : caller = .malloc ∨ caller = .fork) : Tracked h init good due (begin caller init) where
  good := writes.init_good
  upTo := by simp [begin]
  fates := by simp [begin, writes.init_running]
  closed := by simp [begin, writes.init_running]
  expired := by simp [begin, writes.init_running]
  failed := by rcases writes.failing with fails | fails <;> simp [begin, writes.init_running, fails]
  idle := fun _ => rfl
  result := by rcases entry with rfl | rfl <;> simp [begin]

/-- A call of the caller: it has no child yet, or its child has exited. -/
theorem step_calls {answer : Answer} (stepped : step h c (.calls answer) = some c') :
    ∃ caller, c' = { c with caller := caller } ∧
      ((c.caller = .malloc ∨ c.caller = .fork) ∧ (∀ r, caller = .returned r → r < 0) ∨
        caller ≠ .malloc ∧ caller ≠ .fork ∧ ∀ r, caller = .returned r →
          ∃ code, h.fate c.helper = .exited code ∧ r = sendResult (exitStatus code)) := by
  simp only [step] at stepped
  split at stepped
  case h_1 here | h_3 here => exact ⟨_, (Option.some.inj stepped).symm, .inl ⟨by simp [here], nofun⟩⟩
  case h_2 here | h_4 here =>
    refine ⟨_, (Option.some.inj stepped).symm, .inl ⟨by simp [here], ?_⟩⟩
    rintro r ⟨⟩
    decide
  case h_5 =>
    split at stepped
    case h_1 code exited =>
      refine ⟨_, (Option.some.inj stepped).symm, .inr ⟨nofun, nofun, ?_⟩⟩
      rintro r ⟨⟩
      exact ⟨code, exited, rfl⟩
    case h_2 => cases stepped
  case h_6 => cases stepped

/-- A call of the child, while the caller waits for it. -/
theorem step_helps {answer : Answer} (stepped : step h c (.helps answer) = some c') :
    c.caller = .wait ∧ ∃ helper chunk, h.call c.helper answer = some (helper, chunk) ∧
      c' = { c with helper := helper
                    written := c.written ++ chunk
                    closed := c.closed || (h.closing c.helper && answer = .ok)
                    expired := c.expired || answer = .expire
                    failed := c.failed || (h.onPipe c.helper && answer = .fail) } := by
  simp only [step] at stepped
  split at stepped
  case isTrue waits =>
    obtain ⟨⟨helper, chunk⟩, called, rfl⟩ := Option.map_eq_some_iff.mp stepped
    exact ⟨waits, helper, chunk, called, rfl⟩
  case isFalse => cases stepped

/-- A call of the caller leaves what is known of the child. -/
theorem Tracked.calls (tracked : Tracked h init good due c) {answer : Answer}
    (stepped : step h c (.calls answer) = some c') : Tracked h init good due c' := by
  obtain ⟨caller, rfl, place⟩ := step_calls stepped
  refine ⟨tracked.good, tracked.upTo, tracked.fates, tracked.closed, tracked.expired, tracked.failed, ?_, ?_⟩
  · intro early
    rcases place with ⟨before, -⟩ | ⟨later, later', -⟩
    · exact tracked.idle before
    · rcases early with early | early
      · exact absurd early later
      · exact absurd early later'
  · intro r returned
    rcases place with ⟨before, negative⟩ | ⟨-, -, collected⟩
    · exact .inl ⟨negative r returned, tracked.idle before⟩
    · exact .inr (collected r returned)

/-- The ways a child can end are told apart by its last call. -/
structure Helper.Tells (h : Helper P) (p : P) (answer : Answer) : Prop where
  closed : h.after p answer = .exited 0 ↔ h.closing p = true ∧ answer = .ok
  expired : h.after p answer = .exited 1 ↔ answer = .expire
  failed : h.after p answer = h.failing ↔ h.onPipe p = true ∧ answer = .fail
  unready : h.after p answer = .exited SIG_ERROR ↔ h.onPipe p = false ∧ answer = .fail

theorem Helper.tells (fails : h.failing = .exited PIPE_ERROR ∨ h.failing = .returned)
    (p : P) (answer : Answer) : h.Tells p answer := by
  cases answer with
  | ok =>
    by_cases closing : h.closing p <;> rcases fails with fails | fails <;>
      constructor <;> simp [Helper.after, closing, fails, PIPE_ERROR, SIG_ERROR]
  | fail =>
    by_cases pipe : h.onPipe p <;> rcases fails with fails | fails <;>
      constructor <;> simp [Helper.after, pipe, fails, PIPE_ERROR, SIG_ERROR]
  | expire | count =>
    rcases fails with fails | fails <;>
      constructor <;> simp [Helper.after, fails, PIPE_ERROR, SIG_ERROR]

/-- A call of the child that ends it is noted in the call. -/
theorem Tracked.helps (writes : Writes h init frame good due) (tracked : Tracked h init good due c)
    {answer : Answer} (stepped : step h c (.helps answer) = some c') :
    Tracked h init good due c' := by
  obtain ⟨waits, helper, chunk, called, rfl⟩ := step_helps stepped
  have advance := writes.advance _ _ _ _ tracked.good called
  have running := advance.running
  have after := advance.fate
  have failing := writes.failing
  have tells := Helper.tells failing c.helper answer
  refine ⟨advance.keeps, ?_, ?_, ?_, ?_, ?_, ?_, ?_⟩
  · have advances := advance.advances
    have upTo := tracked.upTo
    simp only [List.length_append]
    omega
  · rw [after]
    unfold Helper.after
    split
    · simp
    · split <;> simp
    · split <;> simp
    · simp
  · have before : c.closed = false := by simpa [running] using tracked.closed
    simp [before, after, tells.closed]
  · have before : c.expired = false := by simpa [running] using tracked.expired
    simp [before, after, tells.expired]
  · have before : c.failed = false := by
      rcases failing with fails | fails <;> simpa [running, fails] using tracked.failed
    simp [before, after, tells.failed]
  · rintro (early | early) <;> simp [waits] at early
  · intro r returned
    simp [waits] at returned

theorem Tracked.step (writes : Writes h init frame good due) (tracked : Tracked h init good due c)
    (stepped : step h c event = some c') : Tracked h init good due c' := by
  cases event with
  | calls answer => exact tracked.calls stepped
  | helps answer => exact tracked.helps writes stepped

/-! ## Bytes that are missing, and bytes that are there -/

/-- Fewer bytes are written than there should be. -/
def Lost (h : Helper P) (due : P → Nat) (c : Call P) : Prop :=
  c.written.length < due c.helper ∧ h.fate c.helper ≠ .exited SIG_ERROR

/-- Up to now the frame was written front to back. -/
def Intact (h : Helper P) (frame : List Byte) (due : P → Nat) (c : Call P) : Prop :=
  h.fate c.helper = .running ∨ h.fate c.helper = .exited 0 → c.written = frame.take (due c.helper)

/-- What was left out is never made up for. -/
theorem Lost.step (writes : Writes h init frame good due) (tracked : Tracked h init good due c)
    (lost : Lost h due c) (stepped : step h c event = some c') : Lost h due c' := by
  cases event with
  | calls answer =>
    obtain ⟨caller, rfl, -⟩ := step_calls stepped
    exact lost
  | helps answer =>
    obtain ⟨-, helper, chunk, called, rfl⟩ := step_helps stepped
    have advance := writes.advance _ _ _ _ tracked.good called
    have advances := advance.advances
    have fewer := lost.1
    refine ⟨by simp only [List.length_append]; omega, ?_⟩
    rw [advance.fate]
    intro signal
    obtain ⟨free, failed⟩ := (Helper.tells writes.failing _ _).unready.mp signal
    have none := advance.early failed free
    omega

theorem lost_of_short (writes : Writes h init frame good due) (tracked : Tracked h init good due c)
    (short : ¬ Whole h c event) (stepped : step h c event = some c') : Lost h due c' := by
  cases event with
  | calls answer => exact absurd trivial short
  | helps answer =>
    obtain ⟨-, helper, chunk, called, rfl⟩ := step_helps stepped
    have short : h.short c.helper answer = true := by simpa [Whole] using short
    obtain ⟨n, rfl⟩ := writes.counts _ _ short
    have advance := writes.advance _ _ _ _ tracked.good called
    have loses := advance.loses short
    have upTo := tracked.upTo
    refine ⟨by simp only [List.length_append]; omega, ?_⟩
    rw [advance.fate]
    simp [Helper.after]

theorem Intact.step (writes : Writes h init frame good due) (tracked : Tracked h init good due c)
    (intact : Intact h frame due c) (whole : Whole h c event) (stepped : step h c event = some c') :
    Intact h frame due c' := by
  cases event with
  | calls answer =>
    obtain ⟨caller, rfl, -⟩ := step_calls stepped
    exact intact
  | helps answer =>
    obtain ⟨-, helper, chunk, called, rfl⟩ := step_helps stepped
    have advance := writes.advance _ _ _ _ tracked.good called
    intro well
    rw [advance.fate] at well
    have exact := advance.exact whole well
    have front := List.prefix_iff_eq_take.mp advance.next
    calc c.written ++ chunk
        = frame.take (due c.helper) ++ (frame.drop (due c.helper)).take chunk.length := by
          rw [intact (.inl advance.running), ← front]
      _ = frame.take (due c.helper + chunk.length) := List.take_add.symm
      _ = frame.take (due helper) := by rw [exact]

/-! ## When the outcome is faithful -/

section
variable {caller : Caller} (writes : Writes h init frame good due)
  (entry : caller = .malloc ∨ caller = .fork) (ran : run (step h) (begin caller init) events = some c)
include writes entry ran

theorem tracked_of_run : Tracked h init good due c :=
  run_invariant (fun _ _ _ tracked => tracked.step writes) (writes.tracked_begin entry) ran

theorem intact_of_run (whole : Along (step h) (Whole h) (begin caller init) events) :
    Intact h frame due c := by
  have held := run_invariant_along (motive := fun c => Tracked h init good due c ∧ Intact h frame due c)
    (fun _ _ _ held whole stepped =>
      ⟨held.1.step writes stepped, held.2.step writes held.1 whole stepped⟩)
    ⟨writes.tracked_begin entry, fun _ => by simp [begin, writes.init_due]⟩ whole ran
  exact held.2

theorem lost_of_run (short : ¬ Along (step h) (Whole h) (begin caller init) events) :
    Lost h due c := by
  obtain ⟨past, event, later, before, after, rfl, reached, short, stepped, rest⟩ :=
    split_of_not_along short ran
  have tracked := tracked_of_run writes entry reached
  have held := run_invariant (motive := fun c => Tracked h init good due c ∧ Lost h due c)
    (fun _ _ _ held stepped => ⟨held.1.step writes stepped, held.2.step writes held.1 stepped⟩)
    ⟨tracked.step writes stepped, lost_of_short writes tracked short stepped⟩ rest
  exact held.2

end

/-- A call on the pipe failed if some step of the run says so. -/
theorem failed_iff {caller : Caller} (ran : run (step h) (begin caller init) events = some c) :
    c.failed = true ↔ ¬ Along (step h) (Works h) (begin caller init) events := by
  have marks : ∀ (before : Call P) event after, step h before event = some after →
      (after.failed = true ↔ before.failed = true ∨ ¬ Works h before event) := by
    intro before event after stepped
    cases event with
    | calls answer =>
      obtain ⟨caller, rfl, -⟩ := step_calls stepped
      simp [Works]
    | helps answer =>
      obtain ⟨-, helper, chunk, called, rfl⟩ := step_helps stepped
      simp [Works]
  simpa [begin] using mark_iff_not_along marks ran

/-- The alarm ended the child if some step of the run says so. -/
theorem expired_iff {caller : Caller} (ran : run (step h) (begin caller init) events = some c) :
    c.expired = true ↔ Event.helps .expire ∈ events := by
  have held := run_history (motive := fun past (c : Call P) =>
      c.expired = true ↔ Event.helps .expire ∈ past)
    (fun past before event after held stepped => by
      cases event with
      | calls answer =>
        obtain ⟨caller, rfl, -⟩ := step_calls stepped
        simpa using held
      | helps answer =>
        obtain ⟨-, helper, chunk, called, rfl⟩ := step_helps stepped
        simp [held, @eq_comm _ answer]) (by simp [begin]) ran
  exact held

/-- What a caller can be told when no call on the pipe failed. -/
theorem Tracked.outcomes (tracked : Tracked h init good due c) (unfailed : c.failed ≠ true) {r : Int}
    (returned : c.caller = .returned r) :
    r < 0 ∧ c.helper = init ∨ h.fate c.helper = .exited 0 ∧ r = 1 ∨
      h.fate c.helper = .exited 1 ∧ r = 0 ∨ h.fate c.helper = .exited SIG_ERROR ∧ r = 0 := by
  rcases tracked.result r returned with unborn | ⟨code, exited, value⟩
  · exact .inl unborn
  · have fates := tracked.fates
    simp only [List.mem_cons, List.not_mem_nil, or_false] at fates
    rcases fates with running | well | alarm | signal | fails
    · rw [running] at exited
      cases exited
    · obtain rfl : (0 : Int) = code := Fate.exited.inj (well.symm.trans exited)
      exact .inr (.inl ⟨well, value.trans sendResult_zero⟩)
    · obtain rfl : (1 : Int) = code := Fate.exited.inj (alarm.symm.trans exited)
      exact .inr (.inr (.inl ⟨alarm, value.trans sendResult_alarm⟩))
    · obtain rfl : SIG_ERROR = code := Fate.exited.inj (signal.symm.trans exited)
      exact .inr (.inr (.inr ⟨signal, value.trans sendResult_sigError⟩))
    · exact absurd (tracked.failed.mpr fails) unfailed

/-- When a call on the pipe failed, either both processes return or the error is gone. -/
theorem Tracked.not_faithful (writes : Writes h init frame good due)
    (tracked : Tracked h init good due c) (failed : c.failed = true) (ended : c.ended h) :
    ¬ Faithful h frame c := by
  intro faithful
  obtain ⟨r, returned⟩ := ended.resolve_right faithful.once
  have negative := faithful.failed r returned failed
  have fate := tracked.failed.mp failed
  rcases tracked.result r returned with ⟨-, unborn⟩ | ⟨code, exited, value⟩
  · rw [unborn, writes.init_running] at fate
    rcases writes.failing with fails | fails <;> simp [fails] at fate
  · rw [exited] at fate
    rcases writes.failing with fails | fails <;> rw [fails] at fate
    · obtain rfl : code = PIPE_ERROR := Fate.exited.inj fate
      rw [value, sendResult_pipeError] at negative
      omega
    · cases fate

/-- A run of a helper that writes its frame front to back is reported faithfully exactly
when no call on the pipe fails and, unless the alarm goes off, no write comes short. -/
theorem Writes.faithful_iff (writes : Writes h init frame good due) {caller : Caller}
    (entry : caller = .malloc ∨ caller = .fork)
    (ran : run (SendOutcomes.step h) (begin caller init) events = some c) (ended : c.ended h) :
    Faithful h frame c ↔ Along (SendOutcomes.step h) (Works h) (begin caller init) events ∧
      (Along (SendOutcomes.step h) (Whole h) (begin caller init) events ∨
        Event.helps .expire ∈ events) := by
  have tracked := tracked_of_run writes entry ran
  have failed := failed_iff ran
  have expired := expired_iff ran
  constructor
  · intro faithful
    obtain ⟨r, returned⟩ := ended.resolve_right faithful.once
    have unfailed : c.failed ≠ true := fun noted =>
      tracked.not_faithful writes noted ended faithful
    refine ⟨not_not.mp fun broken => unfailed (failed.mpr broken), ?_⟩
    by_contra broken
    obtain ⟨short, unexpired⟩ := not_or.mp broken
    obtain ⟨fewer, noSignal⟩ := lost_of_run writes entry ran short
    rcases tracked.outcomes unfailed returned with ⟨-, unborn⟩ | ⟨well, one⟩ | ⟨alarm, -⟩ | ⟨signal, -⟩
    · rw [unborn, writes.init_due] at fewer
      omega
    · have written := ((faithful.delivered r returned).mp one).1
      rw [writes.finished _ tracked.good well, written] at fewer
      omega
    · exact unexpired (expired.mp (tracked.expired.mpr alarm))
    · exact noSignal signal
  · rintro ⟨works, whole⟩
    have unfailed : c.failed ≠ true := fun noted => failed.mp noted works
    have once : h.fate c.helper ≠ .returned := by
      intro left
      have fates := tracked.fates
      rw [left] at fates
      exact unfailed (tracked.failed.mpr (by simpa [left] using fates))
    refine ⟨once, ?_, ?_, fun r _ noted => absurd noted unfailed⟩
    · intro r returned
      rcases tracked.outcomes unfailed returned with
        ⟨negative, unborn⟩ | ⟨well, one⟩ | ⟨alarm, zero⟩ | ⟨signal, zero⟩
      · have unclosed : c.closed ≠ true := by simp [tracked.closed, unborn, writes.init_running]
        exact iff_of_false (by omega) fun both => unclosed both.2
      · have intact : Intact h frame due c := by
          refine intact_of_run writes entry ran (whole.resolve_right fun expires => ?_)
          have alarm := tracked.expired.mp (expired.mpr expires)
          rw [well] at alarm
          cases alarm
        have written := intact (.inr well)
        rw [writes.finished _ tracked.good well, List.take_length] at written
        exact iff_of_true one ⟨written, tracked.closed.mpr well⟩
      · have unclosed : c.closed ≠ true := by simp [tracked.closed, alarm]
        exact iff_of_false (by omega) fun both => unclosed both.2
      · have unclosed : c.closed ≠ true := by simp [tracked.closed, signal, SIG_ERROR]
        exact iff_of_false (by omega) fun both => unclosed both.2
    · intro r returned noted
      have alarm := tracked.expired.mp noted
      rcases tracked.outcomes unfailed returned with ⟨-, unborn⟩ | ⟨well, -⟩ | ⟨-, zero⟩ | ⟨-, zero⟩
      · rw [unborn, writes.init_running] at alarm
        cases alarm
      · rw [well] at alarm
        cases alarm
      · exact zero
      · exact zero

/-! ## The two functions -/

/-- The bytes of the record that should be written by now. -/
def requestDue (h : Requester) : Nat :=
  match h.pc with
  | .close | .exited _ | .returned _ => h.req.cmd.bytes.length
  | _ => 0

/-- The bytes of the frame that should be written by now. -/
def responseDue (s : Sender) : Nat :=
  match s.pc with
  | .body => SIZEOF_SIZE_T + min s.total s.res.size
  | .close | .exited _ => SIZEOF_SIZE_T + s.res.size
  | _ => 0

theorem sendRequest_writes (timeout : Int) (cmd : List Byte) :
    Writes (sendRequest timeout) (.ofCommand cmd) (Request.ofCommand cmd).cmd.bytes
      (fun h => h.req = Request.ofCommand cmd) requestDue where
  init_good := rfl
  init_due := rfl
  init_running := rfl
  failing := .inr rfl
  finished := by
    rintro ⟨pc, req⟩ rfl exited
    cases pc <;> simp [sendRequest] at exited
    rfl
  counts := by
    rintro ⟨pc, req⟩ answer short
    cases pc <;> cases answer <;> simp [sendRequest] at short
    exact ⟨_, rfl⟩
  advance := by
    rintro ⟨pc, req⟩ answer p' chunk rfl called
    cases pc <;> cases answer <;> simp [sendRequest, requestCall] at called
    case write.count n =>
      obtain ⟨fits, rfl, rfl⟩ := called
      constructor <;> simp [sendRequest, Helper.after, requestDue, List.take_prefix, fits]
      exact fun all => Nat.le_antisymm all fits
    case sigfillset.fail | sigaction.fail =>
      obtain ⟨rfl, rfl⟩ := called
      constructor <;> simp [sendRequest, Helper.after, requestDue, Requester.exit, SIG_ERROR]
    case close.ok | open.fail | write.fail | close.fail =>
      obtain ⟨rfl, rfl⟩ := called
      constructor <;> simp [sendRequest, Helper.after, requestDue, Requester.exit, Requester.return]
    case open.expire | write.expire | close.expire =>
      obtain ⟨-, rfl, rfl⟩ := called
      constructor <;> simp [sendRequest, Helper.after, requestDue, Requester.exit]
    all_goals
      obtain ⟨rfl, rfl⟩ := called
      constructor <;> simp [sendRequest, Helper.after, requestDue]

theorem frame_length (res : Response) : res.frame.length = SIZEOF_SIZE_T + res.size := by
  rw [Response.frame, List.length_append, ResponsePipe.sizeBytes_length, res.length_eq]

/-- The loop is left only when the body is written. -/
theorem responseDue_loop (s : Sender) (limited : 0 ≤ s.maxSize → s.res.size ≤ s.maxSize.toNat) :
    responseDue s.loop = SIZEOF_SIZE_T + min s.total s.res.size := by
  unfold Sender.loop
  split
  case isTrue => rfl
  case isFalse left =>
    rw [not_or] at left
    have limit := limited (by omega)
    simp only [responseDue]
    omega

theorem fate_loop (timeout : Int) (s : Sender) : (sendResponse timeout).fate s.loop = .running := by
  unfold Sender.loop
  split <;> rfl

theorem size_le_limit (msg : CString) (maxSize : Int) (limited : 0 ≤ maxSize) :
    (makeResponse msg maxSize).size ≤ maxSize.toNat := by
  simp only [makeResponse, ResponsePipe.responseSize, limited, if_true]
  exact Nat.min_le_right _ _

/-- The sender of a response, which counts no byte before it writes one. -/
def Sends (msg : CString) (maxSize : Int) (s : Sender) : Prop :=
  s.res = makeResponse msg maxSize ∧ s.maxSize = maxSize ∧ (responseDue s = 0 → s.total = 0)

theorem Sends.due_loop {msg : CString} {maxSize : Int} {s : Sender} (sends : Sends msg maxSize s) :
    responseDue s.loop = SIZEOF_SIZE_T + min s.total s.res.size := by
  apply responseDue_loop
  rw [sends.1, sends.2.1]
  exact size_le_limit msg maxSize

theorem Sends.loop {msg : CString} {maxSize : Int} {s : Sender} (sends : Sends msg maxSize s) :
    Sends msg maxSize s.loop := by
  refine ⟨sends.1, sends.2.1, fun none => ?_⟩
  rw [sends.due_loop] at none
  simp [SIZEOF_SIZE_T] at none

/-- The header is written, or a part of it. -/
theorem advance_header (timeout : Int) {msg : CString} {maxSize : Int} {s : Sender} {n : Nat}
    (sends : Sends msg maxSize s) (here : s.pc = .header) (fits : n ≤ SIZEOF_SIZE_T) :
    Advance (sendResponse timeout) (makeResponse msg maxSize).frame (Sends msg maxSize) responseDue s
      (.count n) s.loop ((sizeBytes s.res.size).take n) := by
  have none : responseDue s = 0 := by simp [responseDue, here]
  have fresh : s.total = 0 := sends.2.2 none
  have due := sends.due_loop
  rw [fresh, Nat.zero_min] at due
  have length : ((sizeBytes s.res.size).take n).length = n := by
    rw [List.length_take, ResponsePipe.sizeBytes_length, Nat.min_eq_left fits]
  refine ⟨sends.loop, by simp [sendResponse, here], fate_loop timeout s, ?_, ?_, ?_, ?_, nofun⟩
  · rw [none, List.drop_zero, Response.frame, ← sends.1]
    exact (List.take_prefix _ _).trans (List.prefix_append _ _)
  · omega
  · intro short
    have fewer : n < SIZEOF_SIZE_T := by simpa [sendResponse, here] using short
    omega
  · intro whole _
    have all : SIZEOF_SIZE_T ≤ n := by simpa [sendResponse, here] using whole
    omega

/-- A piece of the body is written. -/
theorem advance_body (timeout : Int) {msg : CString} {maxSize : Int} {s : Sender} {n : Nat}
    (sends : Sends msg maxSize s) (here : s.pc = .body) (some : n ≠ 0)
    (fits : n ≤ s.res.size - s.total) :
    Advance (sendResponse timeout) (makeResponse msg maxSize).frame (Sends msg maxSize) responseDue s
      (.count n) (s.count n).loop ((s.res.msg.drop s.total).take n) := by
  have now : responseDue s = SIZEOF_SIZE_T + s.total := by
    simp only [responseDue, here]
    omega
  have counted : Sends msg maxSize (s.count n) :=
    ⟨sends.1, sends.2.1, fun none => by simp [responseDue, Sender.count, here, SIZEOF_SIZE_T] at none⟩
  have due : responseDue (s.count n).loop = SIZEOF_SIZE_T + min (s.total + n) s.res.size :=
    counted.due_loop
  have length : ((s.res.msg.drop s.total).take n).length = n := by
    rw [List.length_take, List.length_drop, s.res.length_eq, Nat.min_eq_left fits]
  refine ⟨counted.loop, by simp [sendResponse, here], fate_loop timeout _, ?_, ?_, ?_, ?_, nofun⟩
  · have past : (sizeBytes s.res.size).drop (SIZEOF_SIZE_T + s.total) = [] :=
      List.drop_eq_nil_of_le (by rw [ResponsePipe.sizeBytes_length]; omega)
    rw [now, Response.frame, List.drop_append, ResponsePipe.sizeBytes_length, ← sends.1, past,
      List.nil_append, Nat.add_sub_cancel_left]
    exact List.take_prefix _ _
  · omega
  · simp [sendResponse, here, some]
  · omega

/-- The loop ends with a write of nothing. -/
theorem advance_end (timeout : Int) {msg : CString} {maxSize : Int} {s : Sender}
    (sends : Sends msg maxSize s) (here : s.pc = .body) :
    Advance (sendResponse timeout) (makeResponse msg maxSize).frame (Sends msg maxSize) responseDue s
      (.count 0) { s with pc := .close } [] := by
  refine ⟨⟨sends.1, sends.2.1, fun none => by simp [responseDue, SIZEOF_SIZE_T] at none⟩,
    by simp [sendResponse, here], rfl, List.nil_prefix, ?_, ?_, ?_, nofun⟩
  · simp [responseDue, here]
  · intro short
    have fewer : s.total < s.res.size := by simpa [sendResponse, here] using short
    simp only [responseDue, here, List.length_nil]
    omega
  · intro whole _
    have all : s.res.size ≤ s.total := by simpa [sendResponse, here] using whole
    simp only [responseDue, here, List.length_nil]
    omega

theorem responseDue_le (s : Sender) : responseDue s ≤ SIZEOF_SIZE_T + s.res.size := by
  unfold responseDue
  split <;> omega

/-- The child ends, with the whole frame written if it ends well. -/
theorem advance_exit (timeout : Int) {msg : CString} {maxSize : Int} {s : Sender} {answer : Answer}
    {code : Int} (sends : Sends msg maxSize s) (running : (sendResponse timeout).fate s = .running)
    (after : (sendResponse timeout).after s answer = .exited code)
    (complete : (sendResponse timeout).short s answer = false)
    (well : code = 0 → responseDue s = SIZEOF_SIZE_T + s.res.size)
    (early : answer = .fail → (sendResponse timeout).onPipe s = false → responseDue s = 0) :
    Advance (sendResponse timeout) (makeResponse msg maxSize).frame (Sends msg maxSize) responseDue s
      answer (s.exit code) [] where
  keeps := ⟨sends.1, sends.2.1, fun none => by simp [responseDue, Sender.exit, SIZEOF_SIZE_T] at none⟩
  running := running
  fate := after.symm
  next := List.nil_prefix
  advances := responseDue_le s
  loses := by simp [complete]
  exact := by
    rw [after]
    rintro - (ended | ended)
    · cases ended
    · exact (well (Fate.exited.inj ended)).symm
  early := early

theorem sendResponse_writes (timeout : Int) (msg : CString) (maxSize : Int) :
    Writes (sendResponse timeout) ⟨.sigfillset, makeResponse msg maxSize, maxSize, 0⟩
      (makeResponse msg maxSize).frame (Sends msg maxSize) responseDue where
  init_good := ⟨rfl, rfl, fun _ => rfl⟩
  init_due := rfl
  init_running := rfl
  failing := .inl rfl
  finished := by
    rintro ⟨pc, res, limit, total⟩ ⟨rfl, -⟩ exited
    rw [frame_length]
    cases pc <;> simp [sendResponse] at exited
    rfl
  counts := by
    rintro ⟨pc, res, limit, total⟩ answer short
    cases pc <;> cases answer <;> simp [sendResponse] at short
    · exact ⟨_, rfl⟩
    · exact ⟨_, rfl⟩
  advance := by
    intro s answer s' chunk sends called
    cases here : s.pc <;> cases answer <;> simp [sendResponse, responseCall, here] at called
    case header.count n =>
      obtain ⟨fits, rfl, rfl⟩ := called
      exact advance_header timeout sends here fits
    case body.count n =>
      split at called
      case isTrue none =>
        obtain ⟨rfl, rfl⟩ := Prod.mk.inj (Option.some.inj called)
        rw [none]
        exact advance_end timeout sends here
      case isFalse some =>
        split at called
        case isTrue fits =>
          obtain ⟨rfl, rfl⟩ := Prod.mk.inj (Option.some.inj called)
          exact advance_body timeout sends here some fits
        case isFalse => cases called
    case sigfillset.fail | sigaction.fail =>
      obtain ⟨rfl, rfl⟩ := called
      apply advance_exit timeout sends <;> simp [sendResponse, Helper.after, responseDue, SIG_ERROR, here]
    case close.ok | open.fail | header.fail | body.fail | close.fail =>
      obtain ⟨rfl, rfl⟩ := called
      apply advance_exit timeout sends <;> simp [sendResponse, Helper.after, responseDue, PIPE_ERROR, here]
    case open.expire | header.expire | body.expire | close.expire =>
      obtain ⟨-, rfl, rfl⟩ := called
      apply advance_exit timeout sends <;> simp [sendResponse, Helper.after, here]
    all_goals
      obtain ⟨rfl, rfl⟩ := called
      have fresh := sends.2.2 (by simp [responseDue, here])
      refine ⟨⟨sends.1, sends.2.1, fun _ => fresh⟩, ?_, ?_, ?_, ?_, ?_, ?_, ?_⟩ <;>
        simp [sendResponse, Helper.after, responseDue, here]

/-! ## The same children, with the pipe -/

/-- A child that waits in `open` has not come back from it. -/
def callOfSender (s : Sender) : Sender :=
  match s.pc with
  | .opening _ => { s with pc := .open }
  | _ => s

def callOfRequester (h : Requester) : Requester :=
  match h.pc with
  | .opening _ => { h with pc := .open }
  | _ => h

theorem callOfSender_loop (s : Sender) : callOfSender s.loop = s.loop := by
  unfold Sender.loop
  split <;> rfl

/-- What the child of `send_response` does at the pipe is one of its calls here, or it
begins to wait in `open`. -/
theorem responseCall_of_pipe {timeout : Int} (alarm : alarmed timeout = true) {s s' : Sender}
    {f f' : Fifo Byte} {answer : Answer} {chunk : List Byte}
    (moved : ResponsePipe.sendResponse s f answer = some (s', f', chunk)) :
    callOfSender s' = callOfSender s ∧ chunk = [] ∨
      ∃ answer, responseCall timeout (callOfSender s) answer = some (callOfSender s', chunk) := by
  obtain ⟨pc, res, maxSize, total⟩ := s
  cases pc <;> cases answer <;> simp [ResponsePipe.sendResponse] at moved
  case open.ok =>
    obtain ⟨rfl, -, rfl⟩ := moved
    exact .inl ⟨rfl, rfl⟩
  case opening.ok =>
    obtain ⟨-, rfl, -, rfl⟩ := moved
    exact .inr ⟨.ok, rfl⟩
  case header.ok =>
    obtain ⟨-, rfl, rfl⟩ := moved
    refine .inr ⟨.count SIZEOF_SIZE_T, ?_⟩
    rw [callOfSender_loop]
    simp [callOfSender, responseCall, List.take_of_length_le (ResponsePipe.sizeBytes_length _).le]
  case body.count n =>
    refine .inr ⟨.count n, ?_⟩
    split at moved
    case isTrue finished =>
      obtain ⟨rfl, -, rfl⟩ := moved
      simp [callOfSender, responseCall, finished.1]
    case isFalse =>
      split at moved
      case isFalse => cases moved
      obtain ⟨some, fits⟩ := ‹0 < n ∧ n ≤ res.size - total›
      obtain ⟨_, -, written⟩ := Option.map_eq_some_iff.mp moved
      obtain ⟨rfl, -, rfl⟩ := by simpa using written
      rw [callOfSender_loop]
      simp [callOfSender, responseCall, fits, Nat.ne_of_gt some]
  case sigfillset.ok | sigaction.ok | close.ok =>
    obtain ⟨rfl, -, rfl⟩ := moved
    exact .inr ⟨.ok, rfl⟩
  case sigfillset.fail | sigaction.fail | open.fail | header.fail | body.fail | close.fail =>
    obtain ⟨rfl, -, rfl⟩ := moved
    exact .inr ⟨.fail, rfl⟩
  all_goals
    obtain ⟨rfl, -, rfl⟩ := moved
    exact .inr ⟨.expire, by simp [responseCall, callOfSender, alarm, Sender.exit]⟩

/-- The same for the child of `send_request`, whose pipe takes whole records. -/
theorem requestCall_of_pipe {timeout : Int} (alarm : alarmed timeout = true) {h h' : Requester}
    {f f' : Fifo Request} {answer : Answer}
    (moved : RequestPipe.sendRequest h f answer = some (h', f')) :
    callOfRequester h' = callOfRequester h ∨ ∃ answer chunk,
      requestCall timeout (callOfRequester h) answer = some (callOfRequester h', chunk) := by
  obtain ⟨pc, req⟩ := h
  cases pc <;> cases answer <;> simp [RequestPipe.sendRequest] at moved
  case open.ok =>
    obtain ⟨rfl, -⟩ := moved
    exact .inl rfl
  case opening.ok =>
    obtain ⟨-, rfl, -⟩ := moved
    exact .inr ⟨.ok, [], rfl⟩
  case write.ok =>
    obtain ⟨-, rfl⟩ := moved
    exact .inr ⟨.count req.cmd.bytes.length, req.cmd.bytes, by simp [requestCall, callOfRequester]⟩
  case sigfillset.ok | sigaction.ok | close.ok =>
    obtain ⟨rfl, -⟩ := moved
    exact .inr ⟨.ok, [], rfl⟩
  case sigfillset.fail | sigaction.fail | open.fail | write.fail | close.fail =>
    obtain ⟨rfl, -⟩ := moved
    exact .inr ⟨.fail, [], rfl⟩
  all_goals
    obtain ⟨rfl, -⟩ := moved
    exact .inr ⟨.expire, [], by simp [requestCall, callOfRequester, alarm, Requester.exit]⟩

/-- **Outcomes reach the caller when no call on the pipe fails and no write is cut.**
Every call of `send_request` and of `send_response` that comes to an end, of a caller that
has no other child, reports faithfully what became of its frame if and only if neither `open` nor a `write` nor
`close` of the child fails and, unless the alarm goes off, no write of the record or of
the header is partial and none of the body returns 0 too early. -/
theorem outcomes_faithful_iff (timeout : Int) :
    (∀ (cmd : List Byte) (events : List Event) (c : Call Requester),
      run (step (sendRequest timeout)) (requested cmd) events = some c → c.ended (sendRequest timeout) →
        (Faithful (sendRequest timeout) (Request.ofCommand cmd).cmd.bytes c ↔
          Along (step (sendRequest timeout)) (Works (sendRequest timeout)) (requested cmd) events ∧
            (Along (step (sendRequest timeout)) (Whole (sendRequest timeout)) (requested cmd) events ∨
              Event.helps .expire ∈ events))) ∧
    ∀ (msg : CString) (maxSize : Int) (events : List Event) (c : Call Sender),
      run (step (sendResponse timeout)) (responded msg maxSize) events = some c →
        c.ended (sendResponse timeout) →
          (Faithful (sendResponse timeout) (makeResponse msg maxSize).frame c ↔
            Along (step (sendResponse timeout)) (Works (sendResponse timeout)) (responded msg maxSize)
                events ∧
              (Along (step (sendResponse timeout)) (Whole (sendResponse timeout))
                  (responded msg maxSize) events ∨ Event.helps .expire ∈ events)) :=
  ⟨fun cmd _ _ ran ended => (sendRequest_writes timeout cmd).faithful_iff (.inr rfl) ran ended,
    fun msg maxSize _ _ ran ended =>
      (sendResponse_writes timeout msg maxSize).faithful_iff (.inl rfl) ran ended⟩

/-- The record is written at once. -/
def requestWritten : List Event :=
  [.calls .ok, .helps .ok, .helps .ok, .helps .ok, .helps (.count 257), .helps .ok, .calls .ok]

/-- The body is written in two pieces. -/
def responseWritten : List Event :=
  [.calls .ok, .calls .ok, .helps .ok, .helps .ok, .helps .ok, .helps (.count 8), .helps (.count 2),
    .helps (.count 1), .helps (.count 0), .helps .ok, .calls .ok]

theorem outcomes_faithful_iff_written :
    (∃ c, run (step (sendRequest 5)) (requested (bytes "pwd")) requestWritten = some c ∧
      c.caller = .returned 1 ∧ Faithful (sendRequest 5) (Request.ofCommand (bytes "pwd")).cmd.bytes c) ∧
    ∃ msg c, msg.bytes = bytes "ok" ∧
      run (step (sendResponse 5)) (responded msg (-1)) responseWritten = some c ∧
        c.caller = .returned 1 ∧ Faithful (sendResponse 5) (makeResponse msg (-1)).frame c := by
  constructor
  · have computed : (run (step (sendRequest 5)) (requested (bytes "pwd")) requestWritten).map
        Call.caller = some (.returned 1) := by decide +kernel
    obtain ⟨c, ran, returned⟩ := Option.map_eq_some_iff.mp computed
    refine ⟨c, ran, returned, ?_⟩
    apply ((outcomes_faithful_iff 5).1 _ _ c ran (.inl ⟨1, returned⟩)).mpr
    exact ⟨by decide +kernel, .inl (by decide +kernel)⟩
  · let msg : CString := ⟨bytes "ok", by decide, by decide⟩
    have computed : (run (step (sendResponse 5)) (responded msg (-1)) responseWritten).map
        Call.caller = some (.returned 1) := by decide +kernel
    obtain ⟨c, ran, returned⟩ := Option.map_eq_some_iff.mp computed
    refine ⟨msg, c, rfl, ran, returned, ?_⟩
    apply ((outcomes_faithful_iff 5).2 msg (-1) _ c ran (.inl ⟨1, returned⟩)).mpr
    exact ⟨by decide +kernel, .inl (by decide +kernel)⟩

/-- `open` fails: the child of `send_request` returns to the caller's code as well, and
`send_response` reports a timeout. -/
theorem failed_open_is_misreported :
    (∃ c, run (step (sendRequest 5)) (requested (bytes "pwd"))
        [.calls .ok, .helps .ok, .helps .ok, .helps .fail] = some c ∧
      c.ended (sendRequest 5) ∧ ¬ Faithful (sendRequest 5) (Request.ofCommand (bytes "pwd")).cmd.bytes c) ∧
    ∃ msg c, msg.bytes = bytes "ok" ∧
      run (step (sendResponse 5)) (responded msg (-1))
          [.calls .ok, .calls .ok, .helps .ok, .helps .ok, .helps .fail, .calls .ok] = some c ∧
        c.caller = .returned 0 ∧ ¬ Faithful (sendResponse 5) (makeResponse msg (-1)).frame c := by
  constructor
  · refine ⟨_, rfl, .inr rfl, fun faithful => faithful.once rfl⟩
  · refine ⟨⟨bytes "ok", by decide, by decide⟩, _, rfl, rfl, rfl, fun faithful => ?_⟩
    have negative := faithful.failed 0 rfl rfl
    omega

end LocalServer.SendOutcomes
