import LocalServer.ClientSession
import LocalServer.ResponseFraming

/-! The phases of a session. The server is at some place of its work on one
command; a request is not there, coming, in the pipe or just taken; a response is
not there, on its way, or was heard while its sender has yet to end. -/
namespace LocalServer.ClientSession
open RequestPipe (Requester)
open Handler (requests executions)
open ResponsePipe

/-! ## The server -/

/-- What the server has done: the commands of the past, and perhaps a part of
what is to be done for the next one. -/
structure Reached (server : Handler.Session) (sent past read executed answered : List (List Byte)) :
    Prop where
  read : requests server.log = past ++ read
  executed : executions server.log = past ++ executed
  answered : sent = past ++ answered

/-- The server's place says how much it did for the command in its buffer. -/
def Serving (server : Handler.Session) (sending : Bool) (sent past : List (List Byte)) : Prop :=
  EXIT ∉ past ∧
  match server.pc with
  | .listenOpen _ | .listenRead _ => Reached server sent past [] [] [] ∧ sending = false
  | .listenClose _ => Reached server sent past [server.reqBuffer.string] [] [] ∧ sending = false
  | .pipe | .fork =>
    Reached server sent past [server.reqBuffer.string] [] [] ∧ sending = false ∧
      server.reqBuffer.string ≠ EXIT
  | .closeWrite | .wait | .realloc | .readTube | .closeRead =>
    Reached server sent past [server.reqBuffer.string] [server.reqBuffer.string] [] ∧
      sending = false ∧ server.reqBuffer.string ≠ EXIT
  | .send .response =>
    Reached server sent past [server.reqBuffer.string] [server.reqBuffer.string]
      (if sending then [server.reqBuffer.string] else []) ∧ server.reqBuffer.string ≠ EXIT
  | .send .goodbye =>
    Reached server sent past [server.reqBuffer.string] []
      (if sending then [server.reqBuffer.string] else []) ∧ server.reqBuffer.string = EXIT
  | .remove | .ended =>
    Reached server sent past [server.reqBuffer.string] [] [server.reqBuffer.string] ∧
      sending = false ∧ server.reqBuffer.string = EXIT
  | _ => False

/-- A request was read whose response is not begun. -/
def owes (server : Handler.Session) (sending : Bool) : Bool :=
  match server.pc with
  | .listenOpen _ | .listenRead _ | .remove | .ended => false
  | .send _ => !sending
  | _ => true

variable {server server' : Handler.Session} {sending : Bool} {sent past : List (List Byte)}

theorem Serving.count (serving : Serving server sending sent past) :
    (requests server.log).length = sent.length + if owes server sending then 1 else 0 := by
  obtain ⟨-, place⟩ := serving
  cases here : server.pc with
  | send site =>
    cases site <;> simp only [here] at place
    all_goals
      obtain ⟨reached, -⟩ := place
      rw [reached.read, reached.answered]
      cases sending <;> simp [owes, here]
  | kill => simp [here] at place
  | _ =>
    simp only [here] at place
    rw [place.1.read, place.1.answered]
    simp [owes, here]

/-- Only `send_response` has a child. -/
theorem Serving.sends (serving : Serving server sending sent past) (busy : sending = true) :
    ∃ site, server.pc = .send site := by
  obtain ⟨-, place⟩ := serving
  cases here : server.pc <;> simp_all

theorem Serving.opens (serving : Serving server sending sent past) {again : Bool}
    (here : server.pc = .listenOpen again) :
    Serving { server with pc := .listenRead again } sending sent past := by
  rw [Serving, here] at serving
  exact ⟨serving.1, ⟨serving.2.1.read, serving.2.1.executed, serving.2.1.answered⟩, serving.2.2⟩

/-- The server has read the record that holds this command. -/
theorem Serving.reads (serving : Serving server sending sent past) {again : Bool}
    (here : server.pc = .listenRead again) (there : server'.pc = .listenClose again)
    {cmd : List Byte} (buffer : server'.reqBuffer.string = cmd)
    (log : server'.log = server.log ++ [.received cmd]) : Serving server' sending sent past := by
  rw [Serving, here] at serving
  obtain ⟨noExit, reached, idle⟩ := serving
  rw [Serving, there]
  refine ⟨noExit, ⟨?_, ?_, reached.answered⟩, idle⟩
  · rw [log, Handler.requests_append, reached.read, buffer, List.append_nil]
    rfl
  · rw [log, Handler.executions_append, reached.executed]
    exact List.append_nil _

theorem Serving.closes (serving : Serving server sending sent past) {again : Bool}
    (here : server.pc = .listenClose again) : Serving server.loopTest sending sent past := by
  rw [Serving, here] at serving
  obtain ⟨noExit, reached, idle⟩ := serving
  refine ⟨noExit, ?_⟩
  by_cases exits : server.reqBuffer.string = EXIT
  · rw [Handler.Session.loopTest, if_pos (by exact exits)]
    subst idle
    exact ⟨⟨reached.read, reached.executed, reached.answered⟩, exits⟩
  · rw [Handler.Session.loopTest, if_neg (by exact exits)]
    exact ⟨⟨reached.read, reached.executed, reached.answered⟩, idle, exits⟩

theorem Serving.forks (serving : Serving server sending sent past) {site : Handler.Site}
    (here : server.pc = .send site) (free : sending = false) :
    Serving server true (sent ++ [server.reqBuffer.string]) past := by
  rw [Serving, here] at serving
  rw [Serving, here]
  obtain ⟨noExit, place⟩ := serving
  refine ⟨noExit, ?_⟩
  cases site <;> simp only [free] at place ⊢
  all_goals
    obtain ⟨reached, which⟩ := place
    exact ⟨⟨reached.read, reached.executed, by simp [reached.answered]⟩, which⟩

/-- The response was sent: either the server listens again or it was the goodbye. -/
theorem Serving.collects (serving : Serving server sending sent past) {site : Handler.Site}
    (here : server.pc = .send site) (busy : sending = true)
    (log : requests server'.log = requests server.log ∧ executions server'.log = executions server.log)
    (there : server'.pc = (server.afterSend 1 site).pc)
    (buffer : server'.reqBuffer = server.reqBuffer) :
    (∃ past, Serving server' false sent past) ∧ (server'.pc = .listenOpen true ∨ server'.pc = .remove) := by
  rw [Serving, here] at serving
  obtain ⟨noExit, place⟩ := serving
  cases site <;> simp only [busy, if_true] at place
  case response =>
    have next : server'.pc = .listenOpen true := by simpa [Handler.Session.afterSend] using there
    obtain ⟨reached, stays⟩ := place
    refine ⟨⟨past ++ [server.reqBuffer.string], ?_⟩, .inl next⟩
    rw [Serving, next]
    refine ⟨by simp [noExit, Ne.symm stays], ⟨?_, ?_, ?_⟩, rfl⟩
    · simp [log.1, reached.read]
    · simp [log.2, reached.executed]
    · simp [reached.answered]
  case goodbye =>
    have next : server'.pc = .remove := by simpa [Handler.Session.afterSend] using there
    obtain ⟨reached, exits⟩ := place
    refine ⟨⟨past, ?_⟩, .inr next⟩
    rw [Serving, next, buffer]
    exact ⟨noExit, ⟨by rw [log.1, reached.read], by rw [log.2, reached.executed], reached.answered⟩,
      rfl, exits⟩

/-- A step that nobody sees leaves what was done as it is. -/
theorem Reached.quiet {read executed answered : List (List Byte)}
    (reached : Reached server sent past read executed answered) (log : server'.log = server.log) :
    Reached server' sent past read executed answered :=
  ⟨by rw [log, reached.read], by rw [log, reached.executed], reached.answered⟩

/-- The calls of the server that no pipe knows of keep what it has read, and lead
to no call of `listen_request`. -/
theorem Serving.works (serving : Serving server sending sent past) {reply : Handler.Reply}
    (here : inner server = true) (smooth : (Event.serves reply).smooth = true)
    (stepped : Handler.step server reply = some server') :
    Serving server' sending sent past ∧ requests server'.log = requests server.log ∧
      reading none server' = false ∧ listening server' = false := by
  obtain ⟨noExit, place⟩ := serving
  cases Handler.move_of_step stepped with
  | received again req s' stands | stale again garbage s' stands | sent site r s' stands =>
    simp [inner, stands] at here
  | forked child s' stands there log =>
    simp only [stands] at place
    obtain ⟨reached, idle, stays⟩ := place
    have buffer : server'.reqBuffer = server.reqBuffer := by
      simp only [Handler.step, stands, Option.some.injEq] at stepped
      rw [← stepped]
    rw [if_pos (by exact smooth)] at log
    refine ⟨?_, ?_, by simp [reading, there], by simp [listening, there]⟩
    · simp only [Serving, there, buffer]
      refine ⟨noExit, ⟨?_, ?_, reached.answered⟩, idle, stays⟩
      · rw [log, Handler.requests_append, reached.read]
        exact List.append_nil _
      · rw [log, Handler.executions_append, reached.executed, List.append_nil]
        rfl
    · rw [log, Handler.requests_append]
      exact List.append_nil _
  | quiet reply s' move buffer log =>
    generalize there : server'.pc = next at move
    refine ⟨⟨noExit, ?_⟩, by rw [log], ?_⟩
    · rw [there, buffer]
      cases move with
      | piped stands =>
        simp only [stands] at place
        exact ⟨place.1.quiet log, place.2⟩
      | works reply next stands works =>
        cases origin : server.pc <;> simp [Handler.Pc.working, origin] at stands
        all_goals
          rw [origin] at place
          cases next <;> simp [Handler.Pc.working] at works
          all_goals exact ⟨place.1.quiet log, place.2⟩
      | output stands =>
        simp only [stands] at place
        obtain ⟨reached, rfl, stays⟩ := place
        exact ⟨reached.quiet log, stays⟩
      | removed stands =>
        simp only [stands] at place
        exact ⟨place.1.quiet log, place.2⟩
      | killed _ stands => simp [stands] at place
      | opened again stands | listened again stands => simp [inner, stands] at here
      | _ => cases smooth
    · cases move with
      | works reply next stands works => cases next <;> simp_all [Handler.Pc.working, reading, listening]
      | opened again stands | listened again stands => simp [inner, stands] at here
      | piped | output | removed | killed => simp [reading, listening, there]
      | _ => cases smooth

/-- The commands of the past were executed. -/
theorem Reached.early {read executed answered : List (List Byte)}
    (reached : Reached server sent past read executed answered) {k : Nat} (early : k < past.length)
    {cmd : List Byte} (found : (requests server.log)[k]? = some cmd) :
    cmd ∈ past ∧ (executions server.log)[k]? = some cmd := by
  rw [reached.read, List.getElem?_append_left early] at found
  rw [reached.executed, List.getElem?_append_left early]
  exact ⟨List.mem_of_getElem? found, found⟩

/-- The command that the server answered last is that in its buffer. -/
theorem Reached.last {read executed : List (List Byte)} {cmd current : List Byte}
    (reached : Reached server sent past read executed [current]) (answered : read = [current])
    {k : Nat} (begun : k < sent.length) (late : ¬ k < past.length)
    (found : (requests server.log)[k]? = some cmd) : k = past.length ∧ cmd = current := by
  have length := congrArg List.length reached.answered
  simp only [List.length_append, List.length_singleton] at length
  have same : k = past.length := by omega
  refine ⟨same, ?_⟩
  rw [reached.read, answered, same, List.getElem?_concat_length] at found
  exact (Option.some.inj found).symm

/-- An answered command ended the server's loop if and only if it is `exit`, and
was executed otherwise. -/
theorem Serving.answered (serving : Serving server sending sent past) {k : Nat}
    (begun : k < sent.length) {cmd : List Byte} (found : (requests server.log)[k]? = some cmd) :
    ((server.pc = .send .goodbye ∨ server.pc = .remove ∨ server.pc = .ended) ∧
        (requests server.log).length = k + 1 ↔ cmd = EXIT) ∧
      (executions server.log)[k]? = if cmd = EXIT then none else some cmd := by
  obtain ⟨noExit, place⟩ := serving
  by_cases early : k < past.length
  · have before : cmd ∈ past ∧ (executions server.log)[k]? = some cmd := by
      cases here : server.pc with
      | send site => cases site <;> simp only [here] at place <;> exact place.1.early early found
      | kill => simp [here] at place
      | _ => simp only [here] at place; exact place.1.early early found
    have stays : cmd ≠ EXIT := fun exits => noExit (exits ▸ before.1)
    refine ⟨⟨?_, fun exits => absurd exits stays⟩, by rw [if_neg stays, before.2]⟩
    rintro ⟨here | here | here, length⟩ <;> simp only [here] at place <;>
      · rw [place.1.read, List.length_append, List.length_singleton] at length
        omega
  · cases here : server.pc with
    | send site =>
      cases site <;> simp only [here] at place
      case response =>
        obtain ⟨reached, stays⟩ := place
        cases sending with
        | false => rw [reached.answered] at begun; simp at begun; omega
        | true =>
          obtain ⟨rfl, rfl⟩ := reached.last rfl begun early found
          rw [reached.executed, if_neg stays, List.getElem?_concat_length]
          exact ⟨⟨fun left => by simp at left, fun exits => absurd exits stays⟩, rfl⟩
      case goodbye =>
        obtain ⟨reached, exits⟩ := place
        cases sending with
        | false => rw [reached.answered] at begun; simp at begun; omega
        | true =>
          obtain ⟨rfl, rfl⟩ := reached.last rfl begun early found
          rw [reached.executed, if_pos exits, reached.read]
          exact ⟨⟨fun _ => exits, fun _ => by simp⟩, by simp⟩
    | remove | ended =>
      simp only [here] at place
      obtain ⟨reached, -, exits⟩ := place
      obtain ⟨rfl, rfl⟩ := reached.last rfl begun early found
      rw [reached.executed, if_pos exits, reached.read]
      exact ⟨⟨fun _ => exits, fun _ => by simp⟩, by simp⟩
    | kill => simp [here] at place
    | _ =>
      simp only [here] at place
      rw [place.1.answered] at begun
      simp at begun
      omega

theorem Reached.ordered {read executed answered : List (List Byte)}
    (reached : Reached server sent past read executed answered) (begun : answered <+: read) :
    sent <+: requests server.log := by
  rw [reached.read, reached.answered, List.prefix_append_right_inj]
  exact begun

/-- The responses begun belong to the first requests. -/
theorem Serving.ordered (serving : Serving server sending sent past) :
    sent <+: requests server.log := by
  obtain ⟨-, place⟩ := serving
  cases here : server.pc with
  | send site =>
    cases site <;> simp only [here] at place
    all_goals exact place.1.ordered (by cases sending <;> simp)
  | kill => simp [here] at place
  | _ => simp only [here] at place; exact place.1.ordered (by simp)

/-! ## The client -/

/-- The lines asked for, `prev` those before the one that the loop is at. -/
def Asking (client : ClientPc) (line : Line) (asked : List Line) (answers : Nat) (prev : List Line) :
    Prop :=
  (∀ line ∈ prev, line.bytes ≠ EXIT) ∧
  match client with
  | .prompt => asked = prev ∧ answers = prev.length
  | .waits | .listens => asked = prev ++ [line] ∧ answers = prev.length
  | .left => asked = prev ++ [line] ∧ answers = prev.length + 1 ∧ line.bytes = EXIT

/-- The client has asked and was not answered yet. -/
def ClientPc.busy (client : ClientPc) : Bool := client = .waits || client = .listens

theorem Asking.count {client : ClientPc} {line : Line} {asked prev : List Line} {answers : Nat}
    (asking : Asking client line asked answers prev) :
    asked.length = answers + if client.busy then 1 else 0 := by
  obtain ⟨-, place⟩ := asking
  cases client <;> simp_all [ClientPc.busy]

/-! ## The request -/

/-- The record is in the pipe, and nothing is left to do but to close it. -/
def late (h : Requester) : Prop := h.pc = .close ∨ h.pc = .exited 0

theorem late.not_early {h : Requester} (done : late h) : h.early = false := by
  rcases done with here | here <;> simp [Requester.early, here]

/-- Where the request of the client's line is. -/
inductive RequestPhase (asked : List Line) (line : Line) (requester : Option Requester)
    (pipe : Fifo Handler.Request) (joined : Option Nat) (server : Handler.Session) : Prop
  /-- There is none, all were read. -/
  | resting (free : requester = none) (empty : pipe.data = [])
    (even : requests server.log = asked.map Line.bytes)
    (unread : ∀ again, server.pc ≠ .listenRead again)
    (gone : ∀ gone, joined = some gone → gone = pipe.writeCloses)
  /-- The child will write it; the server has not opened the pipe, or not without
  the child. -/
  | coming (h : Requester) (child : requester = some h) (early : h.early = true)
    (frame : h.req = Handler.Request.ofCommand line.bytes) (empty : pipe.data = [])
    (next : requests server.log ++ [line.bytes] = asked.map Line.bytes)
    (gone : ∀ gone, joined = some gone → gone = pipe.writeCloses)
    (opening : ∀ gone, h.pc = .opening gone → gone = pipe.readCloses)
    (write : h.pc = .write → reading joined server = true)
    (read : ∀ again, server.pc = .listenRead again → h.holds = true)
  /-- It is in the pipe, and the server is about to read it. -/
  | inside (frame : pipe.data = [Handler.Request.ofCommand line.bytes])
    (next : requests server.log ++ [line.bytes] = asked.map Line.bytes)
    (done : ∀ h, requester = some h → late h)
    (there : joined.isSome = true ∨ ∃ again, server.pc = .listenRead again)
  /-- The server has it, but the child has yet to end. -/
  | taken (h : Requester) (child : requester = some h) (done : late h) (empty : pipe.data = [])
    (even : requests server.log = asked.map Line.bytes) (works : listening server = false)

/-- No more was read than was asked for, and at most one line is not read. -/
theorem RequestPhase.count {asked : List Line} {line : Line} {requester : Option Requester}
    {pipe : Fifo Handler.Request} {joined : Option Nat}
    (phase : RequestPhase asked line requester pipe joined server) :
    requests server.log = asked.map Line.bytes ∧ (requests server.log).length = asked.length ∨
      requests server.log ++ [line.bytes] = asked.map Line.bytes ∧
        (requests server.log).length + 1 = asked.length := by
  cases phase with
  | resting _ _ even | taken _ _ _ _ even => exact .inl ⟨even, by simpa using congrArg List.length even⟩
  | coming _ _ _ _ _ next | inside _ next => exact .inr ⟨next, by simpa using congrArg List.length next⟩

/-- A step of the server that has to do with no request. -/
theorem RequestPhase.works {asked : List Line} {line : Line} {requester : Option Requester}
    {pipe : Fifo Handler.Request} (phase : RequestPhase asked line requester pipe none server)
    (same : requests server'.log = requests server.log) (before : reading none server = false)
    (after : reading none server' = false)
    (idle : requester.isSome = true → requests server.log = asked.map Line.bytes →
      listening server' = false) :
    RequestPhase asked line requester pipe none server' := by
  have unread : ∀ again, server'.pc ≠ .listenRead again := fun again here => by
    simp [reading, here] at after
  cases phase with
  | resting free empty even _ gone => exact .resting free empty (same.trans even) unread gone
  | coming h child early frame empty next gone opening write _ =>
    refine .coming h child early frame empty (by rwa [same]) gone opening (fun writes => ?_)
      fun again here => absurd here (unread again)
    rw [write writes] at before
    cases before
  | inside frame next done there =>
    rcases there with joined | ⟨again, here⟩
    · cases joined
    · simp [reading, here] at before
  | taken h child done empty even _ =>
    exact .taken h child done empty (same.trans even) (idle (by simp [child]) even)

/-! ## The response -/

/-- Where the response to the client's line is. -/
inductive ResponsePhase (answers : Nat) (sent : List Sent) (sending : Bool) (x : Exchange) : Prop
  /-- There is none, and nobody can write one. -/
  | resting (even : sent.length = answers) (idle : sending = false) (empty : x.fifo.data = [])
    (writers : x.fifo.writeOpens = x.fifo.writeCloses)
    (readers : x.fifo.readOpens = x.fifo.readCloses + if x.listener.holds then 1 else 0)
    (listener : x.listener.pc = .open ∨ x.listener.pc = .select)
    (gone : x.listener.pc = .select → x.fifo.writeOpens ≤ x.listener.gone)
    (fresh : x.consumed = [])
  /-- It is on its way. -/
  | moving (prev : List Sent) (last : Sent) (sends : sent = prev ++ [last])
    (ahead : prev.length = answers) (transfer : Transfer last.res x)
    (collected : sending = false → x.sender.pc = .exited 0)
  /-- The client has got it and may go on, but its sender has yet to end. -/
  | closing (res : Response) (old : Listener) (consumed : List Byte)
    (even : sent.length = answers) (busy : sending = true)
    (transfer : Transfer res { x with listener := old, consumed := consumed })
    (heard : old.pc = .returned 1) (listener : x.listener.pc = .open) (fresh : x.consumed = [])

variable {x : Exchange} {answers : Nat}

theorem ResponsePhase.count {sent : List Sent} (phase : ResponsePhase answers sent sending x) :
    answers ≤ sent.length ∧ sent.length ≤ answers + 1 := by
  cases phase with
  | resting even | closing _ _ _ even => omega
  | moving prev last sends ahead => simp [sends]; omega

/-- A response begins while the client has not asked for one or waits in `select`. -/
theorem transfer_fork (msg : CString) (maxSize : Int) (empty : x.fifo.data = [])
    (writers : x.fifo.writeOpens = x.fifo.writeCloses)
    (readers : x.fifo.readOpens = x.fifo.readCloses + if x.listener.holds then 1 else 0)
    (listener : x.listener.pc = .open ∨ x.listener.pc = .select)
    (gone : x.listener.pc = .select → x.fifo.writeOpens ≤ x.listener.gone)
    (fresh : x.consumed = []) :
    Transfer (makeResponse msg maxSize)
      { x with sender := ⟨.sigfillset, makeResponse msg maxSize, maxSize, 0⟩, written := [] } := by
  have begun : x.listener.progress (makeResponse msg maxSize) = 0 := by
    rcases listener with here | here <;> simp [Listener.progress, here]
  refine ⟨?_, ?_, begun.le, rfl, by simp [begun, fresh], by simp [fresh, empty], ?_, ?_, readers, ?_,
    fun _ => rfl, by simp⟩
  · exact (transfer_start msg maxSize (Fifo.quiet_new 0) ⟨List.replicate SIZEOF_SIZE_T 0, rfl⟩).sender
  · rcases listener with here | here <;> simp [Listener.Sound, here]
  · rcases listener with here | here <;> simp [Listener.reads, here]
  · simpa [Sender.holds] using writers
  · intro _ holds
    rcases listener with here | here
    · simp [Listener.holds, here] at holds
    · exact gone here

end LocalServer.ClientSession
