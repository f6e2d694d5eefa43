import LocalServer.Handler
import LocalServer.ResponsePipe

/-! All the sessions of the server in one process. Every `handle_request` thread
forks children, for its commands and for its responses, and `wait` gives a thread
any child of the process that has exited, whichever thread forked it. -/
namespace LocalServer.Sessions
open Runs Handler ResponsePipe

def PROC_ERROR : Int := -7

/-- A child of the server: whether it is the helper of a `send_response`, the status
it exited with, and whether a `wait` has collected it. -/
structure Process where
  helper : Bool
  exit : Option Int
  collected : Bool
  deriving DecidableEq

/-- The child has exited and waits to be collected. -/
def Process.zombie (p : Process) : Bool := p.exit.isSome && !p.collected

/-- A `handle_request` thread, with the helper it waits for in `send_response`. -/
structure Thread where
  session : Session
  call : Option Nat
  deriving DecidableEq

/-- A call of `send_response` that forked this helper returned this value. -/
structure Result where
  thread : Nat
  site : Site
  helper : Nat
  value : Int
  deriving DecidableEq

structure Server where
  threads : List Thread
  children : List Process
  results : List Result
  deriving DecidableEq

/-- How `send_response` gets to its `wait`, or not. -/
inductive Forked where
  | noMemory | noProcess | forked
  deriving DecidableEq

inductive Event where
  | connect (buffer : CharArray (MAX_COMMAND_LENGTH + 1))
  /-- A thread makes a system call that concerns nobody else. -/
  | turn (i : Nat) (reply : Reply)
  /-- A thread forks the child that executes its command. -/
  | fork (i : Nat) (child : Child)
  /-- A thread enters `send_response`. -/
  | call (i : Nat) (outcome : Forked)
  /-- A child exits with this status. -/
  | exits (c : Nat) (status : Int)
  /-- The `wait` of a thread collects a child. -/
  | waits (i : Nat) (c : Nat)
  /-- The `wait` of a thread fails: the process has no child left to wait for. -/
  | waitsNone (i : Nat)
  deriving DecidableEq

/-- The call is neither `fork` nor `wait`, nor does it belong to `send_response`. -/
def unshared (pc : Pc) (reply : Reply) : Bool :=
  match pc, reply with
  | .wait, _ | _, .forked _ | _, .sent _ => false
  | _, _ => true

def Server.setThread (s : Server) (i : Nat) (t : Thread) : Server :=
  { s with threads := s.threads.set i t }

/-- The `wait` of thread `i`, with the status it stores. In `send_response` the
status is 0 before the call and decides what the function returns. -/
def Server.waited (s : Server) (i : Nat) (t : Thread) (status : Option Int) : Option Server :=
  match t.session.pc, t.call with
  | .send site, some h =>
    let value := sendResult (status.getD 0)
    (Handler.step t.session (.sent value)).map fun session =>
      { s.setThread i ⟨session, none⟩ with results := s.results ++ [⟨i, site, h, value⟩] }
  | .wait, none =>
    (Handler.step t.session (if status.isSome then .ok else .fail)).map fun session =>
      s.setThread i ⟨session, none⟩
  | _, _ => none

def step (s : Server) : Event → Option Server
  | .connect buffer => some { s with threads := s.threads ++ [⟨Handler.start buffer, none⟩] }
  | .turn i reply =>
    match s.threads[i]? with
    | none => none
    | some t =>
      if t.call = none ∧ unshared t.session.pc reply then
        (Handler.step t.session reply).map fun session => s.setThread i ⟨session, none⟩
      else none
  | .fork i child =>
    match s.threads[i]? with
    | none => none
    | some t =>
      (Handler.step t.session (.forked child)).map fun session =>
        { s.setThread i ⟨session, t.call⟩ with children := s.children ++ [⟨false, none, false⟩] }
  | .call i outcome =>
    match s.threads[i]? with
    | none => none
    | some t =>
      match t.session.pc, t.call with
      | .send _, none =>
        match outcome with
        | .noMemory =>
          (Handler.step t.session (.sent MEMORY_ERROR)).map fun session =>
            s.setThread i ⟨session, none⟩
        | .noProcess =>
          (Handler.step t.session (.sent PROC_ERROR)).map fun session =>
            s.setThread i ⟨session, none⟩
        | .forked =>
          some { s.setThread i ⟨t.session, some s.children.length⟩ with
                 children := s.children ++ [⟨true, none, false⟩] }
      | _, _ => none
  | .exits c status =>
    match s.children[c]? with
    | none => none
    | some p =>
      if p.exit = none ∧ 0 ≤ status then
        some { s with children := s.children.set c { p with exit := some status } }
      else none
  | .waits i c =>
    match s.threads[i]?, s.children[c]? with
    | some t, some p =>
      if p.zombie then
        { s with children := s.children.set c { p with collected := true } }.waited i t p.exit
      else none
    | _, _ => none
  | .waitsNone i =>
    match s.threads[i]? with
    | none => none
    | some t => if s.children.all Process.collected then s.waited i t none else none

/-- The server has no session yet. -/
def start : Server := ⟨[], [], []⟩

end LocalServer.Sessions
