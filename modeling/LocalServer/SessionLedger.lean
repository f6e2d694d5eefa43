import LocalServer.Sessions

/-! What a session takes from the system and gives back: descriptors, the block of
`res_buffer` and those of the responses, and children to wait for. `close` gives a
descriptor back even when it reports an error. -/
namespace LocalServer.SessionLedger
open Runs
open Handler (Session Pc Site Reply)
open ResponsePipe (MEMORY_ERROR sendResult)
open Sessions (PROC_ERROR)

/-- So many descriptors, blocks and children. -/
@[ext]
structure Ledger where
  fds : Nat
  blocks : Nat
  children : Nat
  deriving DecidableEq

instance : Zero Ledger := ⟨⟨0, 0, 0⟩⟩

instance : Add Ledger := ⟨fun a b => ⟨a.fds + b.fds, a.blocks + b.blocks, a.children + b.children⟩⟩

@[simp] theorem zero_fds : (0 : Ledger).fds = 0 := rfl
@[simp] theorem zero_blocks : (0 : Ledger).blocks = 0 := rfl
@[simp] theorem zero_children : (0 : Ledger).children = 0 := rfl
@[simp] theorem add_fds (b c : Ledger) : (b + c).fds = b.fds + c.fds := rfl
@[simp] theorem add_blocks (b c : Ledger) : (b + c).blocks = b.blocks + c.blocks := rfl
@[simp] theorem add_children (b c : Ledger) : (b + c).children = b.children + c.children := rfl

instance : AddCommMonoid Ledger where
  add_assoc _ _ _ := by ext <;> exact Nat.add_assoc ..
  zero_add _ := by ext <;> exact Nat.zero_add _
  add_zero _ := rfl
  add_comm _ _ := by ext <;> exact Nat.add_comm ..
  nsmul := nsmulRec

theorem add_eq_zero_iff {b c : Ledger} : b + c = 0 ↔ b = 0 ∧ c = 0 := by
  simp only [Ledger.ext_iff, add_fds, add_blocks, add_children, zero_fds, zero_blocks, zero_children]
  omega

/-- A session with what the process has open on its behalf; `block` says whether
`res_buffer` points to something. -/
structure Account where
  session : Session
  block : Bool
  open_ : Ledger
  deriving DecidableEq

/-- `free(res_buffer)`. -/
def Account.freed (a : Account) : Account :=
  { a with block := false, open_ := { a.open_ with blocks := a.open_.blocks - a.block.toNat } }

/-- How `send_response` goes. -/
inductive Sending where
  /-- There is no memory for the response. -/
  | noMemory
  /-- `fork` fails, and the block of the response is not freed. -/
  | noFork
  /-- `wait` fails, and the status that it would store stays 0. -/
  | noWait
  /-- The helper has ended with this status. -/
  | waited (status : Int)
  deriving DecidableEq

def Sending.result : Sending → Int
  | .noMemory => MEMORY_ERROR
  | .noFork => PROC_ERROR
  | .noWait => sendResult 0
  | .waited status => sendResult status

/-- What `send_response` does not give back. -/
def Sending.lost : Sending → Ledger
  | .noFork => ⟨0, 1, 0⟩
  | .noWait => ⟨0, 0, 1⟩
  | .noMemory | .waited _ => 0

inductive Event where
  /-- A call of the session's but `send_response`. -/
  | calls (reply : Reply)
  | sends (how : Sending)
  deriving DecidableEq

def Event.reply : Event → Reply
  | .calls reply => reply
  | .sends how => .sent how.result

/-- What the call at hand takes or gives back. -/
def Account.book (a : Account) (event : Event) : Account :=
  let fds n := { a with open_ := { a.open_ with fds := n } }
  match a.session.pc, event with
  | .listenOpen _, .calls .ok => fds (a.open_.fds + 1)
  | .listenClose again, .calls .ok =>
    if again then (fds (a.open_.fds - 1)).freed else fds (a.open_.fds - 1)
  | .listenClose _, .calls .fail | .closeWrite, _ | .closeRead, _ => fds (a.open_.fds - 1)
  | .pipe, .calls .ok => { fds (a.open_.fds + 2) with block := false }
  | .fork, .calls (.forked _) => { a with open_ := { a.open_ with children := a.open_.children + 1 } }
  | .wait, .calls .ok => { a with open_ := { a.open_ with children := a.open_.children - 1 } }
  | .realloc, .calls .ok =>
    { a with block := true, open_ := { a.open_ with blocks := a.open_.blocks + (!a.block).toNat } }
  -- the only pointer to the block is overwritten
  | .realloc, .calls .fail => { a with block := false }
  | .send site, .sends how =>
    let a := { a with open_ := a.open_ + how.lost }
    match site with
    | .response => if how.result < 0 then a.freed else a
    | .listenAgain => a.freed
    | _ => a
  | _, _ => a

def step (a : Account) (event : Event) : Option Account :=
  match a.session.pc, event with
  | .send _, .calls _ => none
  | _, _ => (Handler.step a.session event.reply).map fun session => { a.book event with session := session }

/-- What the session can still give back. -/
def held (pc : Pc) (block : Bool) : Ledger :=
  match pc with
  | .listenOpen again => ⟨0, again.toNat, 0⟩
  | .listenRead again | .listenClose again => ⟨1, again.toNat, 0⟩
  | .fork => ⟨2, 0, 0⟩
  | .closeWrite => ⟨2, 0, 1⟩
  | .wait | .send .closeWrite => ⟨1, 0, 1⟩
  | .realloc => ⟨1, block.toNat, 0⟩
  | .readTube | .closeRead | .send .readTube => ⟨1, 1, 0⟩
  | .send .response | .send .listenAgain => ⟨0, 1, 0⟩
  | .pipe | .send _ | .kill | .remove | .ended => 0

/-- What a step loses for good. -/
def lost (a : Account) (event : Event) : Ledger :=
  match a.session.pc, event with
  | .listenRead _, .calls .fail => ⟨1, 0, 0⟩
  | .fork, .calls .fail => ⟨2, 0, 0⟩
  | .wait, .calls .fail => ⟨0, 0, 1⟩
  | .realloc, .calls .fail => ⟨1, a.block.toNat, 0⟩
  | .closeRead, .calls .fail => ⟨0, 1, 0⟩
  | .send .response, .sends how => if how.result = 0 then ⟨0, 1, 0⟩ + how.lost else how.lost
  | .send _, .sends how => how.lost
  | _, _ => 0

/-- What the steps of a run lose. -/
def losses (a : Account) : List Event → Ledger
  | [] => 0
  | event :: events =>
    match step a event with
    | some next => lost a event + losses next events
    | none => 0

/-- What is known of `res_buffer` at each place. -/
def Account.Consistent (a : Account) : Prop :=
  match a.session.pc with
  | .listenOpen again | .listenRead again | .listenClose again => a.block = again
  | .fork | .closeWrite | .wait | .send .closeWrite => a.block = false
  | .readTube | .closeRead | .send .readTube | .send .response | .send .listenAgain => a.block = true
  | _ => True

/-- A thread that has just been created. -/
def start (buffer : CharArray (Handler.MAX_COMMAND_LENGTH + 1)) : Account :=
  ⟨Handler.start buffer, false, 0⟩

variable {a a' : Account} {event : Event} {events : List Event} {past : Ledger}

theorem loopTest_pc (s : Session) : s.loopTest.pc = .send .goodbye ∨ s.loopTest.pc = .pipe := by
  rw [Session.loopTest]
  split <;> simp

/-- At the test of the loop the session has nothing. -/
theorem held_loopTest (s : Session) (block : Bool) : held s.loopTest.pc block = 0 := by
  rcases loopTest_pc s with here | here <;> rw [here] <;> rfl

theorem consistent_loopTest (s : Session) (there : a.session.pc = s.loopTest.pc) : a.Consistent := by
  rcases loopTest_pc s with here | here <;> rw [Account.Consistent, there, here] <;> trivial

/-- A call of `send_response`. -/
theorem books_sends {how : Sending} (consistent : a.Consistent)
    (even : a.open_ = held a.session.pc a.block + past) (stepped : step a (.sends how) = some a') :
    a'.Consistent ∧ a'.open_ = held a'.session.pc a'.block + (past + lost a (.sends how)) := by
  obtain ⟨⟨pc, reqBuffer, resBuffer, room, n, total, log⟩, block, ledger⟩ := a
  simp only at even
  subst even
  cases pc with
  | send site =>
    cases stepped
    cases site with
    | response =>
      rcases lt_trichotomy how.result 0 with negative | zero | positive
      · have nonzero : how.result ≠ 0 := by omega
        simp_all [Account.Consistent, Account.book, Account.freed, held, lost, Session.afterSend,
          Ledger.ext_iff]
        omega
      · simp_all [Account.Consistent, Account.book, held, lost, Ledger.ext_iff, Session.afterSend]
        omega
      · have nonnegative : ¬ how.result < 0 := by omega
        have nonzero : how.result ≠ 0 := by omega
        simp_all only [Account.Consistent, Account.book, held, lost, Session.afterSend, if_false]
        simp [add_assoc]
    | listenAgain =>
      refine ⟨consistent_loopTest _ rfl, (?_ : _ = held (Session.loopTest _).pc _ + _)⟩
      rw [held_loopTest]
      simp_all [Account.Consistent, Account.book, Account.freed, held, lost, Ledger.ext_iff]
      omega
    | _ =>
      simp_all [Account.Consistent, Account.book, held, lost, Session.afterSend, add_assoc]
  | _ => cases stepped

/-- Any other call. -/
theorem books_calls {reply : Reply} (consistent : a.Consistent)
    (even : a.open_ = held a.session.pc a.block + past) (stepped : step a (.calls reply) = some a') :
    a'.Consistent ∧ a'.open_ = held a'.session.pc a'.block + (past + lost a (.calls reply)) := by
  obtain ⟨⟨pc, reqBuffer, resBuffer, room, n, total, log⟩, block, ledger⟩ := a
  simp only at even
  subst even
  cases pc with
  | send site => cases stepped
  | listenOpen again | listenRead again =>
    cases reply <;> cases stepped <;> cases again <;>
      simp_all [Account.Consistent, Account.book, held, lost, Ledger.ext_iff, Session.listenFailed] <;> omega
  | listenClose again =>
    cases reply with
    | ok =>
      cases stepped
      refine ⟨consistent_loopTest _ rfl, (?_ : _ = held (Session.loopTest _).pc _ + _)⟩
      rw [held_loopTest]
      cases again <;> simp_all [Account.Consistent, Account.book, Account.freed, held, lost]
    | fail =>
      cases stepped
      cases again <;>
        simp_all [Account.Consistent, Account.book, held, lost, Ledger.ext_iff, Session.listenFailed]
    | _ => cases stepped
  | realloc =>
    cases reply <;> cases stepped <;> cases block <;>
      simp [Account.Consistent, Account.book, held, lost, Ledger.ext_iff] <;> omega
  | pipe | fork | closeWrite | wait | closeRead | kill | remove | ended =>
    cases reply <;> cases stepped <;>
      simp_all [Account.Consistent, Account.book, held, lost, Ledger.ext_iff] <;> omega
  | readTube =>
    cases reply with
    | data chunk =>
      obtain ⟨session, moved, rfl⟩ := Option.map_eq_some_iff.mp stepped
      obtain ⟨-, same⟩ := Option.ite_none_right_eq_some.mp moved
      cases same
      simp_all [Account.Consistent, Account.book, held, lost]
    | ok | fail =>
      cases stepped
      simp_all [Account.Consistent, Account.book, held, lost]
    | _ => cases stepped

/-- What is open is what is held and what has been lost. -/
theorem books_step (consistent : a.Consistent) (even : a.open_ = held a.session.pc a.block + past)
    (stepped : step a event = some a') :
    a'.Consistent ∧ a'.open_ = held a'.session.pc a'.block + (past + lost a event) := by
  cases event with
  | sends how => exact books_sends consistent even stepped
  | calls reply => exact books_calls consistent even stepped

theorem books_of_run (consistent : a.Consistent) (even : a.open_ = held a.session.pc a.block + past)
    (ran : run step a events = some a') :
    a'.open_ = held a'.session.pc a'.block + (past + losses a events) := by
  induction events generalizing a past with
  | nil =>
    cases ran
    rw [losses, add_zero]
    exact even
  | cons event events ih =>
    obtain ⟨middle, first, rest⟩ := run_cons_eq_some.mp ran
    obtain ⟨consistent, even⟩ := books_step consistent even first
    rw [ih consistent even rest, losses, first, add_assoc]

/-- Nothing is lost by a run exactly if no step of it loses anything. -/
theorem losses_eq_zero_iff (ran : run step a events = some a') :
    losses a events = 0 ↔ Along step (fun a event => lost a event = 0) a events := by
  induction events generalizing a with
  | nil => simp [losses, Along]
  | cons event events ih =>
    obtain ⟨middle, first, rest⟩ := run_cons_eq_some.mp ran
    rw [losses, first, Along]
    simp only [add_eq_zero_iff, ih rest, first, Option.some.injEq, forall_eq']

/-- A client reads its response too late. -/
def lateReader : List Event :=
  [.calls .ok, .calls (.frame (.ofCommand (bytes "pwd"))), .calls .ok, .calls .ok,
    .calls (.forked ⟨true, true, true⟩), .calls .ok, .calls .ok, .calls .ok, .calls .ok, .calls .ok,
    .sends (.waited 256), .calls .ok, .calls .ok]

end LocalServer.SessionLedger
