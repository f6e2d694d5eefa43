import LocalServer.Handler
import LocalServer.ResponsePipe

/-! How a request travels: the child that `send_request` forks puts one record
into the request pipe, in one piece. -/
namespace LocalServer.RequestPipe
open Handler (Request)
open ResponsePipe (Answer PIPE_ERROR SIG_ERROR)

inductive RequesterPc where
  | sigfillset | sigaction | open
  /-- It waits in `open` for a reader that was not gone before. -/
  | opening (gone : Nat)
  | write | close | exited (code : Int)
  /-- A call on the pipe failed, and the child left `send_request` as if it were
  the parent. -/
  | returned (r : Int)
  deriving DecidableEq

structure Requester where
  pc : RequesterPc
  req : Request
  deriving DecidableEq

def Requester.exit (h : Requester) (code : Int) : Requester := { h with pc := .exited code }

def Requester.return (h : Requester) (r : Int) : Requester := { h with pc := .returned r }

/-- One call of the child. The record is smaller than `PIPE_BUF`, so that it is
written at once; when the process exits its end of the pipe is closed. -/
def sendRequest (h : Requester) (f : Fifo Request) (answer : Answer) :
    Option (Requester × Fifo Request) :=
  match h.pc, answer with
  | .sigfillset, .ok => some ({ h with pc := .sigaction }, f)
  | .sigfillset, .fail => some (h.exit SIG_ERROR, f)
  | .sigaction, .ok => some ({ h with pc := .open }, f)
  | .sigaction, .fail => some (h.exit SIG_ERROR, f)
  | .open, .ok => some ({ h with pc := .opening f.readCloses }, f.joinWrite)
  | .open, .fail => some (h.return PIPE_ERROR, f)
  | .open, .expire => some (h.exit 1, f)
  | .opening gone, .ok => if f.writeOpened gone then some ({ h with pc := .write }, f) else none
  | .write, .ok => (f.write [h.req]).map fun f => ({ h with pc := .close }, f)
  -- the end of the pipe stays open
  | .write, .fail => some (h.return PIPE_ERROR, f)
  | .close, .ok => some (h.exit 0, f.leaveWrite)
  | .close, .fail => some (h.return PIPE_ERROR, f.leaveWrite)
  | .opening _, .expire | .write, .expire | .close, .expire => some (h.exit 1, f.leaveWrite)
  | _, _ => none

/-- The child as `fork` makes it. -/
def Requester.ofCommand (cmd : List Byte) : Requester := ⟨.sigfillset, Request.ofCommand cmd⟩

/-- The child holds the write end, or is about to. -/
def Requester.holds (h : Requester) : Bool :=
  match h.pc with
  | .opening _ | .write | .close => true
  | _ => false

/-- The record is not in the pipe yet. -/
def Requester.early (h : Requester) : Bool :=
  match h.pc with
  | .sigfillset | .sigaction | .open | .opening _ | .write => true
  | _ => false

variable {h h' : Requester} {f f' : Fifo Request} {answer : Answer}

/-- What a call that neither fails nor times out can do. -/
inductive Move (h : Requester) (f : Fifo Request) : Requester → Fifo Request → Prop
  /-- It prepares its alarm. -/
  | prepares (h' : Requester) (same : h'.req = h.req) (before : h.early = true) (early : h'.early = true)
    (free : h.holds = false) (still : h'.holds = false) : Move h f h' f
  | calls (h' : Requester) (same : h'.req = h.req) (before : h.early = true)
    (free : h.holds = false) (there : h'.pc = .opening f.readCloses) : Move h f h' f.joinWrite
  | opens (gone : Nat) (h' : Requester) (same : h'.req = h.req) (here : h.pc = .opening gone)
    (there : h'.pc = .write) (opened : gone < f.readOpens) : Move h f h' f
  | writes (h' : Requester) (f' : Fifo Request) (here : h.pc = .write) (there : h'.pc = .close)
    (wrote : f' = { f with data := f.data ++ [h.req] }) : Move h f h' f'
  | closes (h' : Requester) (here : h.pc = .close) (there : h'.pc = .exited 0) :
    Move h f h' f.leaveWrite

theorem move_of_sendRequest (smooth : answer ≠ .fail ∧ answer ≠ .expire)
    (moved : sendRequest h f answer = some (h', f')) : Move h f h' f' := by
  cases here : h.pc with
  | sigfillset =>
    cases answer <;> simp [sendRequest, here] at moved smooth
    obtain ⟨rfl, rfl⟩ := moved
    exact .prepares _ rfl (by simp [Requester.early, here]) rfl (by simp [Requester.holds, here]) rfl
  | sigaction =>
    cases answer <;> simp [sendRequest, here] at moved smooth
    obtain ⟨rfl, rfl⟩ := moved
    exact .prepares _ rfl (by simp [Requester.early, here]) rfl (by simp [Requester.holds, here]) rfl
  | «open» =>
    cases answer <;> simp [sendRequest, here] at moved smooth
    obtain ⟨rfl, rfl⟩ := moved
    exact .calls _ rfl (by simp [Requester.early, here]) (by simp [Requester.holds, here]) rfl
  | opening gone =>
    cases answer <;> simp [sendRequest, here] at moved smooth
    obtain ⟨opened, rfl, rfl⟩ := moved
    exact .opens gone _ rfl here rfl (by simpa [Fifo.writeOpened] using opened)
  | write =>
    cases answer <;> simp [sendRequest, here] at moved smooth
    obtain ⟨wrote, rfl⟩ := moved
    exact .writes _ _ here rfl (Fifo.write_eq_some.mp wrote).2.2
  | close =>
    cases answer <;> simp [sendRequest, here] at moved smooth
    obtain ⟨rfl, rfl⟩ := moved
    exact .closes _ here rfl
  | exited code => cases answer <;> simp [sendRequest, here] at moved
  | returned r => cases answer <;> simp [sendRequest, here] at moved

/-- The server finds the command in the record. -/
theorem string_ofCommand {cmd : List Byte} (noNul : 0 ∉ cmd)
    (short : cmd.length ≤ Handler.MAX_COMMAND_LENGTH) : (Request.ofCommand cmd).cmd.string = cmd := by
  rw [Request.ofCommand, CharArray.string_strncpy_empty _ (Nat.le_refl _), cstr_eq_self noNul,
    List.take_of_length_le short]

end LocalServer.RequestPipe
