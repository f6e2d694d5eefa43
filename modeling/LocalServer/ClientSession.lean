import LocalServer.Commands
import LocalServer.RequestPipe

/-! One client and the thread that serves it. The loop of the client, the child of
`send_request`, `handle_request` and the child of `send_response` run beside each
other; they meet in two pipes, whose ends each of them opens and closes anew for
every command. -/
namespace LocalServer.ClientSession
open RequestPipe (Requester sendRequest)
open ResponsePipe

/-- What `fgets` leaves in `s`, the newline taken off. -/
structure Line where
  bytes : List Byte
  noNul : 0 ∉ bytes
  short : bytes.length < Handler.MAX_COMMAND_LENGTH

theorem Line.ext_iff {line line' : Line} : line.bytes = line'.bytes ↔ line = line' := by
  cases line
  cases line'
  simp

instance decidableEqLine (line line' : Line) : Decidable (line = line') :=
  decidable_of_iff (line.bytes = line'.bytes) Line.ext_iff

/-- The command that ends a session. -/
def EXIT : List Byte := bytes "exit"

/-- Where the client's loop is: at the prompt, in the `wait` of `send_request`, in
`listen_response`, or out of the loop. -/
inductive ClientPc where
  | prompt | waits | listens | left
  deriving DecidableEq

/-- A response that the server began to send, and the command it belongs to. -/
structure Sent where
  cmd : List Byte
  res : Response
  deriving DecidableEq

structure State where
  maxSize : Int
  client : ClientPc
  line : Line
  /-- The lines passed to `send_request`. -/
  asked : List Line
  /-- What `res_buffer` pointed to after each `listen_response`. -/
  answers : List (Option (List Byte))
  requester : Option Requester
  requestPipe : Fifo Handler.Request
  server : Handler.Session
  /-- The server waits in `open` for a writer that was not gone before. -/
  joined : Option Nat
  /-- The response pipe, the child of `send_response`, and `listen_response`, whose
  locals are fresh as long as it is not called. -/
  exchange : Exchange
  /-- The server waits for the child of `send_response`. -/
  sending : Bool
  sent : List Sent
  deriving DecidableEq

inductive Event where
  /-- The user types a line. -/
  | types (line : Line)
  /-- A call of the child of `send_request`. -/
  | requests (answer : Answer)
  /-- The client collects this child. -/
  | requested
  /-- A call of `listen_response`. -/
  | listens (answer : Answer)
  /-- `listen_response` has returned; the next one finds this on its stack. -/
  | answered (cell : CharArray SIZEOF_SIZE_T)
  /-- The server calls `open` on the request pipe. -/
  | joins
  /-- `send_response` forks its child. -/
  | forks
  /-- Any other call of `handle_request`. -/
  | serves (reply : Handler.Reply)
  /-- A call of the child of `send_response`. -/
  | sends (answer : Answer)
  deriving DecidableEq

/-- `while (strcmp(s, "exit") != 0)`. -/
def State.loopTest (s : State) : State :=
  { s with client := if s.line.bytes = EXIT then .left else .prompt }

/-- `send_request` is called with the line. -/
def State.ask (s : State) (line : Line) : State :=
  { s with client := .waits, line := line, asked := s.asked ++ [line]
           requester := some (Requester.ofCommand line.bytes) }

/-- `listen_response` returned `r`, and its next call has fresh locals. -/
def State.answer (s : State) (r : Int) (cell : CharArray SIZEOF_SIZE_T) : State :=
  let s' := { s with answers := s.answers ++ [s.exchange.listener.buffer]
                     exchange := { s.exchange with listener := ⟨.open, 0, cell, 0, [], none⟩
                                                   consumed := [] } }
  if r ≤ 0 then { s' with client := .left } else s'.loopTest

/-- `send_response` forks the child that sends this message. -/
def State.fork (s : State) (msg : CString) : State :=
  { s with sending := true
           sent := s.sent ++ [⟨s.server.reqBuffer.string, makeResponse msg s.maxSize⟩]
           exchange := { s.exchange with sender := ⟨.sigfillset, makeResponse msg s.maxSize, s.maxSize, 0⟩
                                         written := [] } }

/-- A call of `handle_request`: those of `listen_request` need the request pipe,
and `send_response` returns when its child can be collected. -/
def serve (s : State) (reply : Handler.Reply) : Option State :=
  match s.server.pc, reply with
  | .listenOpen _, .ok =>
    if ∃ gone ∈ s.joined, s.requestPipe.readOpened gone then
      (Handler.step s.server .ok).map fun server => { s with server := server, joined := none }
    else none
  | .listenOpen _, _ =>
    if s.joined = none then
      (Handler.step s.server reply).map fun server => { s with server := server }
    else none
  | .listenRead _, .frame req =>
    if s.requestPipe.data.head? = some req then
      (Handler.step s.server (.frame req)).map fun server =>
        { s with server := server, requestPipe := s.requestPipe.drop 1 }
    else none
  | .listenRead _, .eof garbage =>
    if s.requestPipe.data = [] ∧ s.requestPipe.abandoned then
      (Handler.step s.server (.eof garbage)).map fun server => { s with server := server }
    else none
  | .listenClose _, _ =>
    (Handler.step s.server reply).map fun server =>
      { s with server := server, requestPipe := s.requestPipe.leaveRead }
  | .send _, .sent r =>
    match s.sending, s.exchange.sender.pc with
    | true, .exited code =>
      if r = sendResult (exitStatus code) then
        (Handler.step s.server (.sent r)).map fun server =>
          { s with server := server, sending := false }
      else none
    | _, _ => none
  | _, _ => (Handler.step s.server reply).map fun server => { s with server := server }

def step (s : State) : Event → Option State
  | .types line =>
    if s.client = .prompt then
      -- a line that is empty or no command is asked for again
      if Commands.isCommandAvailable line.bytes = 0 then some { s with line := line }.loopTest
      else some (s.ask line)
    else none
  | .requests answer =>
    match s.requester with
    | some h =>
      (sendRequest h s.requestPipe answer).map fun (h, pipe) =>
        { s with requester := some h, requestPipe := pipe }
    | none => none
  | .requested =>
    match s.client, s.requester with
    | .waits, some ⟨.exited code, _⟩ =>
      some { s with requester := none
                    client := if sendResult (exitStatus code) ≤ 0 then .left else .listens }
    | _, _ => none
  | .listens answer =>
    if s.client = .listens then
      (ResponsePipe.step s.exchange (.listens answer)).map fun x => { s with exchange := x }
    else none
  | .answered cell =>
    match s.client, s.exchange.listener.pc with
    | .listens, .returned r => some (s.answer r cell)
    | _, _ => none
  | .joins =>
    match s.server.pc, s.joined with
    | .listenOpen _, none =>
      some { s with joined := some s.requestPipe.writeCloses, requestPipe := s.requestPipe.joinRead }
    | _, _ => none
  | .forks =>
    match s.server.pc, s.sending with
    | .send site, false => (CString.of (s.server.message site)).map s.fork
    | _, _ => none
  | .serves reply => serve s reply
  | .sends answer =>
    if s.sending then
      (ResponsePipe.step s.exchange (.sends answer)).map fun x => { s with exchange := x }
    else none

/-- The client is connected and its thread was created; both pipes were just made. -/
def start (maxSize : Int) (requestCapacity responseCapacity : Nat) (line : Line)
    (buffer : CharArray (Handler.MAX_COMMAND_LENGTH + 1)) (cell : CharArray SIZEOF_SIZE_T) : State where
  maxSize := maxSize
  client := .prompt
  line := line
  asked := []
  answers := []
  requester := none
  requestPipe := .new requestCapacity
  server := Handler.start buffer
  joined := none
  exchange := ResponsePipe.start ⟨[], by simp, by decide⟩ maxSize (.new responseCapacity) cell
  sending := false
  sent := []

/-- No call fails, and no timeout or signal ends one. -/
def Event.smooth : Event → Bool
  | .requests answer | .listens answer | .sends answer => answer ≠ .fail && answer ≠ .expire
  | .serves .fail => false
  | .serves (.forked child) => child.executes
  | _ => true

/-! ## What a step can do -/

/-- The server is in `listen_request` and has the pipe open, or is about to. -/
def reading (joined : Option Nat) (server : Handler.Session) : Bool :=
  match server.pc with
  | .listenRead _ | .listenClose _ => true
  | _ => joined.isSome

/-- The server is in a `listen_request` that has not read anything yet. -/
def listening (server : Handler.Session) : Bool :=
  match server.pc with
  | .listenOpen _ | .listenRead _ => true
  | _ => false

/-- The calls of `handle_request` that have to do with no pipe. -/
def inner (server : Handler.Session) : Bool :=
  match server.pc with
  | .listenOpen _ | .listenRead _ | .listenClose _ | .send _ => false
  | _ => true

/-- The steps of a session in which no call fails. -/
inductive Move (s : State) : State → Prop
  | rejects (line : Line) (here : s.client = .prompt)
    (unavailable : Commands.isCommandAvailable line.bytes = 0) : Move s { s with line := line }.loopTest
  | asks (line : Line) (here : s.client = .prompt) : Move s (s.ask line)
  | requests (h h' : Requester) (pipe : Fifo Handler.Request) (here : s.requester = some h)
    (moved : RequestPipe.Move h s.requestPipe h' pipe) :
    Move s { s with requester := some h', requestPipe := pipe }
  | requested (h : Requester) (code : Int) (here : s.client = .waits) (child : s.requester = some h)
    (exited : h.pc = .exited code) :
    Move s { s with requester := none
                    client := if sendResult (exitStatus code) ≤ 0 then .left else .listens }
  | listens (answer : Answer) (x : Exchange) (here : s.client = .listens)
    (smooth : (ResponsePipe.Event.listens answer).smooth = true)
    (stepped : ResponsePipe.step s.exchange (.listens answer) = some x) :
    Move s { s with exchange := x }
  | answered (r : Int) (cell : CharArray SIZEOF_SIZE_T) (here : s.client = .listens)
    (returned : s.exchange.listener.pc = .returned r) : Move s (s.answer r cell)
  | joins (again : Bool) (here : s.server.pc = .listenOpen again) (free : s.joined = none) :
    Move s { s with joined := some s.requestPipe.writeCloses
                    requestPipe := s.requestPipe.joinRead }
  | opens (again : Bool) (gone : Nat) (server : Handler.Session)
    (here : s.server.pc = .listenOpen again) (joined : s.joined = some gone)
    (opened : gone < s.requestPipe.writeOpens)
    (stepped : Handler.step s.server .ok = some server) :
    Move s { s with server := server, joined := none }
  | reads (again : Bool) (req : Handler.Request) (server : Handler.Session)
    (here : s.server.pc = .listenRead again) (oldest : s.requestPipe.data.head? = some req)
    (stepped : Handler.step s.server (.frame req) = some server) :
    Move s { s with server := server, requestPipe := s.requestPipe.drop 1 }
  -- a read of 0 bytes, which only a writer that left without writing explains
  | ends (again : Bool) (s' : State) (here : s.server.pc = .listenRead again)
    (empty : s.requestPipe.data = []) (abandoned : s.requestPipe.abandoned = true) : Move s s'
  | closes (again : Bool) (server : Handler.Session) (here : s.server.pc = .listenClose again)
    (stepped : Handler.step s.server .ok = some server) :
    Move s { s with server := server, requestPipe := s.requestPipe.leaveRead }
  | forks (site : Handler.Site) (msg : CString) (here : s.server.pc = .send site)
    (free : s.sending = false) : Move s (s.fork msg)
  | sends (answer : Answer) (x : Exchange) (here : s.sending = true)
    (smooth : (ResponsePipe.Event.sends answer).smooth = true)
    (stepped : ResponsePipe.step s.exchange (.sends answer) = some x) :
    Move s { s with exchange := x }
  | collects (site : Handler.Site) (code : Int) (server : Handler.Session)
    (here : s.server.pc = .send site) (busy : s.sending = true)
    (exited : s.exchange.sender.pc = .exited code)
    (stepped : Handler.step s.server (.sent (sendResult (exitStatus code))) = some server) :
    Move s { s with server := server, sending := false }
  | works (reply : Handler.Reply) (server : Handler.Session) (here : inner s.server = true)
    (smooth : (Event.serves reply).smooth = true)
    (stepped : Handler.step s.server reply = some server) : Move s { s with server := server }

variable {s s' : State} {event : Event} {reply : Handler.Reply}

theorem move_of_serve (smooth : (Event.serves reply).smooth = true)
    (served : serve s reply = some s') : Move s s' := by
  cases here : s.server.pc with
  | listenOpen again =>
    cases reply with
    | ok =>
      simp only [serve, here, Option.mem_def, Option.ite_none_right_eq_some,
        Option.map_eq_some_iff] at served
      obtain ⟨⟨gone, joined, opened⟩, server, stepped, rfl⟩ := served
      exact .opens again gone server here joined (by simpa [Fifo.readOpened] using opened) stepped
    | fail => cases smooth
    | _ => simp [serve, here, Handler.step] at served
  | listenRead again =>
    cases reply with
    | frame req =>
      simp only [serve, here, Option.ite_none_right_eq_some, Option.map_eq_some_iff] at served
      obtain ⟨oldest, server, stepped, rfl⟩ := served
      exact .reads again req server here oldest stepped
    | eof garbage =>
      simp only [serve, here, Option.ite_none_right_eq_some] at served
      exact .ends again s' here served.1.1 served.1.2
    | fail => cases smooth
    | _ => simp [serve, here, Handler.step] at served
  | listenClose again =>
    cases reply with
    | ok =>
      simp only [serve, here, Option.map_eq_some_iff] at served
      obtain ⟨server, stepped, rfl⟩ := served
      exact .closes again server here stepped
    | fail => cases smooth
    | _ => simp [serve, here, Handler.step] at served
  | send site =>
    cases reply with
    | sent r =>
      simp only [serve, here] at served
      split at served
      case h_2 => cases served
      case h_1 code busy exited =>
      simp only [Option.ite_none_right_eq_some, Option.map_eq_some_iff] at served
      obtain ⟨rfl, server, stepped, rfl⟩ := served
      exact .collects site code server here busy exited stepped
    | _ => simp [serve, here, Handler.step] at served
  | _ =>
    simp only [serve, here, Option.map_eq_some_iff] at served
    obtain ⟨server, stepped, rfl⟩ := served
    exact .works reply server (by simp [inner, here]) smooth stepped

theorem move_of_step (smooth : event.smooth = true) (stepped : step s event = some s') :
    Move s s' := by
  cases event with
  | types line =>
    simp only [step] at stepped
    split at stepped
    case isFalse => cases stepped
    case isTrue here =>
    split at stepped
    · next unavailable => cases stepped; exact .rejects line here unavailable
    · cases stepped; exact .asks line here
  | requests answer =>
    simp only [step] at stepped
    split at stepped
    case h_2 => cases stepped
    case h_1 h here =>
    obtain ⟨⟨h', pipe⟩, moved, rfl⟩ := Option.map_eq_some_iff.mp stepped
    exact .requests h h' pipe here
      (RequestPipe.move_of_sendRequest (by simpa [Event.smooth] using smooth) moved)
  | requested =>
    simp only [step] at stepped
    split at stepped
    case h_2 => cases stepped
    case h_1 code req here child =>
    cases stepped
    exact .requested ⟨.exited code, req⟩ code here child rfl
  | listens answer =>
    simp only [step] at stepped
    split at stepped
    case isFalse => cases stepped
    case isTrue here =>
    obtain ⟨x, moved, rfl⟩ := Option.map_eq_some_iff.mp stepped
    exact .listens answer x here (by cases answer <;> simp_all [Event.smooth, ResponsePipe.Event.smooth])
      moved
  | answered cell =>
    simp only [step] at stepped
    split at stepped
    · next r here returned => cases stepped; exact .answered r cell here returned
    · cases stepped
  | joins =>
    simp only [step] at stepped
    split at stepped
    · next again here free => cases stepped; exact .joins again here free
    · cases stepped
  | forks =>
    simp only [step] at stepped
    split at stepped
    case h_2 => cases stepped
    case h_1 site here free =>
    obtain ⟨msg, -, rfl⟩ := Option.map_eq_some_iff.mp stepped
    exact .forks site msg here free
  | serves reply => exact move_of_serve smooth stepped
  | sends answer =>
    simp only [step] at stepped
    split at stepped
    case isFalse => cases stepped
    case isTrue here =>
    obtain ⟨x, moved, rfl⟩ := Option.map_eq_some_iff.mp stepped
    exact .sends answer x here (by cases answer <;> simp_all [Event.smooth, ResponsePipe.Event.smooth])
      moved

end LocalServer.ClientSession
