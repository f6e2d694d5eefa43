import LocalServer.Lib.CString
import LocalServer.Lib.Fifo
import LocalServer.Lib.Runs

/-! The thread of the server that serves one client, `handle_request`. It moves
from one system call to the next; what the system answers, what the client wrote
into its pipe and what the command printed come in as replies. -/
namespace LocalServer.Handler

def MAX_COMMAND_LENGTH : Nat := 256

/-- `struct request`, what travels on a request pipe. -/
structure Request where
  cmd : CharArray (MAX_COMMAND_LENGTH + 1)
  deriving DecidableEq

/-- The record `send_request` writes for a command. -/
def Request.ofCommand (cmd : List Byte) : Request :=
  ⟨(CharArray.empty _).strncpy cmd MAX_COMMAND_LENGTH (Nat.le_succ _)⟩

/-- The places where `handle_request` calls `send_response`. -/
inductive Site where
  /-- The first `listen_request` failed. -/
  | firstListen
  /-- `fork` failed. -/
  | fork
  /-- The write end of the tube could not be closed. -/
  | closeWrite
  /-- There is no memory for the output of the command. -/
  | realloc
  /-- The tube could not be read. -/
  | readTube
  /-- The output of the command. -/
  | response
  /-- A `listen_request` of the loop failed. -/
  | listenAgain
  /-- The command was `exit`. -/
  | goodbye
  deriving DecidableEq

/-- The system call the thread is at; those of `listen_request` know whether they
belong to the call before the loop or to the one at its end. -/
inductive Pc where
  | listenOpen (again : Bool) | listenRead (again : Bool) | listenClose (again : Bool)
  | pipe | fork | closeWrite | wait | realloc | readTube | closeRead
  | send (site : Site) | kill | remove | ended
  deriving DecidableEq

/-- What an observer of the session sees. -/
inductive Happening where
  /-- A request frame with this command was read. -/
  | received (cmd : List Byte)
  /-- The child passed this string to `exec_cmd`. -/
  | executed (cmd : List Byte)
  /-- `send_response` sent this message. -/
  | responded (msg : List Byte)
  deriving DecidableEq

/-- The locals of `handle_request`, of which `res_buffer` is a block of `room`
bytes, and the happenings so far. -/
structure Session where
  pc : Pc
  reqBuffer : CharArray (MAX_COMMAND_LENGTH + 1)
  resBuffer : List Byte
  room : Nat
  n : Nat
  total : Nat
  log : List Happening
  deriving DecidableEq

/-- Which calls succeed in the child, between `fork` and `exec_cmd`. -/
structure Child where
  dupOut : Bool
  dupErr : Bool
  closed : Bool
  deriving DecidableEq

def Child.executes (child : Child) : Bool := child.dupOut && child.dupErr && child.closed

/-- What the call at hand answers. -/
inductive Reply where
  | ok
  | fail
  /-- `read` on the request pipe returned a whole frame. -/
  | frame (req : Request)
  /-- It returned 0, and the record on the stack holds what lay there. -/
  | eof (garbage : Request)
  | forked (child : Child)
  /-- `read` on the tube returned these bytes. -/
  | data (chunk : List Byte)
  /-- `send_response` returned this value. -/
  | sent (r : Int)
  deriving DecidableEq

/-- The message sent at each place. -/
def Session.message (s : Session) : Site → List Byte
  | .firstListen | .listenAgain => bytes "Erreur lors de la récéption de la requête\n"
  | .fork | .closeWrite | .realloc => bytes "Erreur lors de l'exécution de la commande\n"
  | .readTube => bytes "Erreur lors de la liaison entre la commande et la réponse\n"
  | .response => cstr s.resBuffer
  | .goodbye => bytes "Déconnexion du serveur...\n"

/-- `strncpy(buffer, req.cmd, MAX_COMMAND_LENGTH + 1)`. -/
def Session.copy (s : Session) (req : Request) : CharArray (MAX_COMMAND_LENGTH + 1) :=
  s.reqBuffer.strncpy req.cmd.bytes (MAX_COMMAND_LENGTH + 1) (Nat.le_refl _)

/-- The condition of the loop: `strcmp(req_buffer, "exit") != 0`. -/
def Session.loopTest (s : Session) : Session :=
  { s with pc := if s.reqBuffer.string = bytes "exit" then .send .goodbye else .pipe }

/-- Where a failed `listen_request` leads. -/
def Session.listenFailed (s : Session) (again : Bool) : Session :=
  { s with pc := .send (if again then .listenAgain else .firstListen) }

/-- What follows a call of `send_response` that returned `r`. -/
def Session.afterSend (s : Session) (r : Int) : Site → Session
  | .firstListen | .fork | .realloc | .goodbye => { s with pc := .remove }
  -- these two go on as if nothing had been sent
  | .closeWrite => { s with pc := .wait }
  | .readTube => { s with pc := .closeRead }
  | .response =>
    if r < 0 then { s with pc := .remove }
    else if r = 0 then { s with pc := .kill }
    else { s with pc := .listenOpen true }
  -- the loop goes on with what its buffer held
  | .listenAgain => s.loopTest

/-- The sum and the new block of the reading loop. -/
def Session.accumulate (s : Session) : Session := { s with total := s.total + s.n }

/-- One system call of `handle_request`. -/
def step (s : Session) (reply : Reply) : Option Session :=
  match s.pc, reply with
  | .listenOpen again, .ok => some { s with pc := .listenRead again }
  | .listenOpen again, .fail => some (s.listenFailed again)
  | .listenRead again, .frame req =>
    some { s with pc := .listenClose again, reqBuffer := s.copy req
                  log := s.log ++ [.received req.cmd.string] }
  | .listenRead again, .eof garbage =>
    some { s with pc := .listenClose again, reqBuffer := s.copy garbage }
  | .listenRead again, .fail => some (s.listenFailed again)
  | .listenClose _, .ok => some s.loopTest
  | .listenClose again, .fail => some (s.listenFailed again)
  | .pipe, .ok => some { s with pc := .fork, resBuffer := [], room := 0, n := 0, total := 0 }
  | .pipe, .fail => some { s with pc := .remove }
  | .fork, .forked child =>
    some { s with pc := .closeWrite
                  log := if child.executes then s.log ++ [.executed s.reqBuffer.string] else s.log }
  | .fork, .fail => some { s with pc := .send .fork }
  | .closeWrite, .ok => some { s with pc := .wait }
  | .closeWrite, .fail => some { s with pc := .send .closeWrite }
  -- the result of `wait(NULL)` is not looked at
  | .wait, .ok | .wait, .fail => some { s with pc := .realloc }
  | .realloc, .ok =>
    some { s.accumulate with pc := .readTube, room := s.total + s.n + PIPE_BUF + 1 }
  | .realloc, .fail => some { s.accumulate with pc := .send .realloc }
  | .readTube, .data chunk =>
    if 0 < chunk.length ∧ chunk.length ≤ PIPE_BUF then
      some { s with pc := .realloc, resBuffer := s.resBuffer.take s.total ++ chunk
                    n := chunk.length }
    else none
  | .readTube, .ok => some { s with pc := .closeRead, resBuffer := s.resBuffer.take s.total ++ [0] }
  | .readTube, .fail =>
    some { s with pc := .send .readTube, resBuffer := s.resBuffer.take s.total ++ [0] }
  | .closeRead, .ok => some { s with pc := .send .response }
  | .closeRead, .fail => some { s with pc := .remove }
  | .send site, .sent r =>
    some { s.afterSend r site with
           log := if 0 < r then s.log ++ [.responded (s.message site)] else s.log }
  | .kill, .ok | .kill, .fail => some { s with pc := .remove }
  | .remove, .ok => some { s with pc := .ended }
  | _, _ => none

/-- The thread has been created; its request buffer is not initialised. -/
def start (buffer : CharArray (MAX_COMMAND_LENGTH + 1)) : Session :=
  ⟨.listenOpen false, buffer, [], 0, 0, 0, []⟩

/-- The commands of the request frames read so far. -/
def requests (log : List Happening) : List (List Byte) :=
  log.filterMap fun | .received cmd => some cmd | _ => none

/-- The strings passed to `exec_cmd` so far. -/
def executions (log : List Happening) : List (List Byte) :=
  log.filterMap fun | .executed cmd => some cmd | _ => none

/-- The messages sent so far. -/
def responses (log : List Happening) : List (List Byte) :=
  log.filterMap fun | .responded msg => some msg | _ => none

@[simp] theorem requests_append (first second : List Happening) :
    requests (first ++ second) = requests first ++ requests second := List.filterMap_append

@[simp] theorem executions_append (first second : List Happening) :
    executions (first ++ second) = executions first ++ executions second := List.filterMap_append

@[simp] theorem responses_append (first second : List Happening) :
    responses (first ++ second) = responses first ++ responses second := List.filterMap_append

/-! ## What a step can do -/

/-- The calls between `fork` and the response, which work on one command. -/
def Pc.working : Pc → Bool
  | .closeWrite | .wait | .realloc | .readTube | .closeRead => true
  | _ => false

/-- The steps that nobody sees, by the call they answer. -/
inductive Quiet (s : Session) : Reply → Pc → Prop
  | opened (again : Bool) (here : s.pc = .listenOpen again) : Quiet s .ok (.listenRead again)
  | unopened (again : Bool) (here : s.pc = .listenOpen again) :
    Quiet s .fail (s.listenFailed again).pc
  | unread (again : Bool) (here : s.pc = .listenRead again) :
    Quiet s .fail (s.listenFailed again).pc
  | unclosed (again : Bool) (here : s.pc = .listenClose again) :
    Quiet s .fail (s.listenFailed again).pc
  | listened (again : Bool) (here : s.pc = .listenClose again) : Quiet s .ok s.loopTest.pc
  | piped (here : s.pc = .pipe) : Quiet s .ok .fork
  | unpiped (here : s.pc = .pipe) : Quiet s .fail .remove
  | unforked (here : s.pc = .fork) : Quiet s .fail (.send .fork)
  | works (reply : Reply) (next : Pc) (here : s.pc.working = true) (there : next.working = true) :
    Quiet s reply next
  | unclosedTube (here : s.pc = .closeWrite) : Quiet s .fail (.send .closeWrite)
  | unallocated (here : s.pc = .realloc) : Quiet s .fail (.send .realloc)
  | unreadTube (here : s.pc = .readTube) : Quiet s .fail (.send .readTube)
  | output (here : s.pc = .closeRead) : Quiet s .ok (.send .response)
  | silenced (here : s.pc = .closeRead) : Quiet s .fail .remove
  | killed (reply : Reply) (here : s.pc = .kill) : Quiet s reply .remove
  | removed (here : s.pc = .remove) : Quiet s .ok .ended

/-- What a step can do: read a request, or what lay on the stack in its place,
execute, respond, or none of these. -/
inductive Move (s : Session) : Reply → Session → Prop
  | received (again : Bool) (req : Request) (s' : Session) (here : s.pc = .listenRead again)
    (there : s'.pc = .listenClose again) (buffer : s'.reqBuffer.string = req.cmd.string)
    (log : s'.log = s.log ++ [.received req.cmd.string]) : Move s (.frame req) s'
  | stale (again : Bool) (garbage : Request) (s' : Session) (here : s.pc = .listenRead again)
    (there : s'.pc = .listenClose again) (log : s'.log = s.log) : Move s (.eof garbage) s'
  | forked (child : Child) (s' : Session) (here : s.pc = .fork) (there : s'.pc = .closeWrite)
    (log : s'.log = if child.executes then s.log ++ [.executed s.reqBuffer.string] else s.log) :
    Move s (.forked child) s'
  | sent (site : Site) (r : Int) (s' : Session) (here : s.pc = .send site)
    (there : s'.pc = (s.afterSend r site).pc) (buffer : s'.reqBuffer = s.reqBuffer)
    (log : s'.log = if 0 < r then s.log ++ [.responded (s.message site)] else s.log) :
    Move s (.sent r) s'
  | quiet (reply : Reply) (s' : Session) (move : Quiet s reply s'.pc)
    (buffer : s'.reqBuffer = s.reqBuffer) (log : s'.log = s.log) : Move s reply s'

variable {s s' : Session} {reply : Reply}

theorem string_copy (s : Session) (req : Request) : (s.copy req).string = req.cmd.string :=
  CharArray.string_strncpy_all _ _ req.cmd.length_eq.le

theorem afterSend_reqBuffer (s : Session) (r : Int) (site : Site) :
    (s.afterSend r site).reqBuffer = s.reqBuffer := by
  cases site <;> simp only [Session.afterSend, Session.loopTest]
  split <;> [rfl; split <;> rfl]

theorem move_of_step (stepped : step s reply = some s') : Move s reply s' := by
  unfold step at stepped
  split at stepped
  case h_1 again here => cases stepped; exact .quiet _ _ (.opened again here) rfl rfl
  case h_2 again here => cases stepped; exact .quiet _ _ (.unopened again here) rfl rfl
  case h_3 again req here =>
    cases stepped
    exact .received again req _ here rfl (string_copy s req) rfl
  case h_4 again garbage here => cases stepped; exact .stale again garbage _ here rfl rfl
  case h_5 again here => cases stepped; exact .quiet _ _ (.unread again here) rfl rfl
  case h_6 again here => cases stepped; exact .quiet _ _ (.listened again here) rfl rfl
  case h_7 again here => cases stepped; exact .quiet _ _ (.unclosed again here) rfl rfl
  case h_8 here => cases stepped; exact .quiet _ _ (.piped here) rfl rfl
  case h_9 here => cases stepped; exact .quiet _ _ (.unpiped here) rfl rfl
  case h_10 child here => cases stepped; exact .forked child _ here rfl rfl
  case h_11 here => cases stepped; exact .quiet _ _ (.unforked here) rfl rfl
  case h_13 here => cases stepped; exact .quiet _ _ (.unclosedTube here) rfl rfl
  case h_17 here => cases stepped; exact .quiet _ _ (.unallocated here) rfl rfl
  case h_20 here => cases stepped; exact .quiet _ _ (.unreadTube here) rfl rfl
  case h_21 here => cases stepped; exact .quiet _ _ (.output here) rfl rfl
  case h_22 here => cases stepped; exact .quiet _ _ (.silenced here) rfl rfl
  case h_23 site r here =>
    cases stepped
    exact .sent site r _ here rfl (afterSend_reqBuffer ..) rfl
  case h_24 here => cases stepped; exact .quiet _ _ (.killed _ here) rfl rfl
  case h_25 here => cases stepped; exact .quiet _ _ (.killed _ here) rfl rfl
  case h_26 here => cases stepped; exact .quiet _ _ (.removed here) rfl rfl
  case h_18 chunk here =>
    split at stepped
    · cases stepped; exact .quiet _ _ (.works _ _ (by simp [here, Pc.working]) rfl) rfl rfl
    · cases stepped
  case h_27 => cases stepped
  -- the calls on the tube that succeed
  all_goals
    rename_i here
    cases stepped
    exact .quiet _ _ (.works _ _ (by simp [here, Pc.working]) rfl) rfl rfl

end LocalServer.Handler
