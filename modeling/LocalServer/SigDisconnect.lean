import LocalServer.Lockstep
import LocalServer.SpareReader

/-! A client that a signal interrupts. `sig_disconnect` runs on top of whatever the
loop was at: it sends `exit` and listens, with the two pipes as the loop left them,
and with the children it has. All other signals are blocked until it ends, and it
ends with `exit`, so that the loop does not go on. -/
namespace LocalServer.SigDisconnect
open ClientSession (EXIT ClientPc Line Lockstep ResponsePhase directory exitLine pwdLine transfer_fork)
open RequestPipe (Requester sendRequest)
open ResponsePipe

/-- A session and the handler of its client. From the signal on, the client of the
session is the handler, whose two calls are those of a round of the loop. -/
structure State where
  session : ClientSession.State
  signalled : Bool
  /-- The child of the `send_request` that was interrupted. -/
  stray : Option Requester
  /-- How many records lie in the pipe before that of the handler, if it is there. -/
  ahead : Option Nat
  /-- Which response of the server answers it, once the server has read it. -/
  due : Option Nat
  deriving DecidableEq

inductive Event where
  /-- A step of the loop or the handler, of the server, or of a child of theirs. -/
  | session (event : ClientSession.Event)
  /-- SIGINT, SIGQUIT or SIGTERM; the handler finds this on its stack. -/
  | signal (cell : CharArray SIZEOF_SIZE_T)
  /-- A call of the child that the loop has left behind. -/
  | strays (answer : Answer)
  /-- The `wait` of the handler finds this child. -/
  | collectsStray
  deriving DecidableEq

/-- The next `listen_response` has locals of its own; what is open stays open. -/
def renew (s : ClientSession.State) (cell : CharArray SIZEOF_SIZE_T) : ClientSession.State :=
  { s with exchange := { s.exchange with listener := ⟨.open, 0, cell, 0, [], none⟩, consumed := [] } }

/-- `sig_disconnect` calls `send_request(req_fifo, "exit", ...)`. -/
def State.interrupt (s : State) (cell : CharArray SIZEOF_SIZE_T) : State :=
  { s with signalled := true
           stray := s.session.requester
           session := (renew s.session cell).ask exitLine }

/-- The handler's record is where its child puts it, and moves on with every read. -/
def State.follow (s : State) (event : ClientSession.Event) (session : ClientSession.State) : State :=
  match event with
  | .requests .ok =>
    if s.signalled ∧ s.session.requester.any (·.pc = .write) then
      { s with session := session, ahead := some s.session.requestPipe.data.length }
    else { s with session := session }
  | .serves (.frame _) =>
    match s.ahead with
    | some 0 => { s with session := session, ahead := none, due := some s.session.sent.length }
    | some (n + 1) => { s with session := session, ahead := some n }
    | none => { s with session := session }
  | _ => { s with session := session }

def step (s : State) : Event → Option State
  | .session event => (ClientSession.step s.session event).map (s.follow event)
  | .signal cell =>
    if s.signalled = false ∧ s.session.client ≠ .left then some (s.interrupt cell) else none
  | .strays answer =>
    match s.stray with
    | some h =>
      (sendRequest h s.session.requestPipe answer).map fun (h, pipe) =>
        { s with stray := some h, session := { s.session with requestPipe := pipe } }
    | none => none
  | .collectsStray =>
    match s.session.client, s.stray with
    -- `send_request` takes the status for that of its own child
    | .waits, some ⟨.exited code, _⟩ =>
      some { s with
        stray := none
        session := { s.session with
          client := if sendResult (exitStatus code) ≤ 0 then .left else .listens } }
    | _, _ => none

/-- A session that no signal has interrupted. -/
def State.of (session : ClientSession.State) : State := ⟨session, false, none, none, none⟩

/-- No call fails, and no timeout ends one. -/
def Event.smooth : Event → Bool
  | .session event => event.smooth
  | .strays answer => answer ≠ .fail && answer ≠ .expire
  | _ => true

/-- The client has a request whose response it has not read to the end. -/
def unanswered (s : ClientSession.State) : Bool :=
  match s.client, s.exchange.listener.pc with
  | .prompt, _ | .left, _ => false
  | .waits, _ => true
  | .listens, .malloc => ofBytes s.exchange.listener.cell.bytes ≠ 0
  | .listens, .mallocBuffer | .listens, .close | .listens, .returned _ => false
  | .listens, _ => true

/-- The step of a signal finds no such request. -/
def Calm (s : State) : Event → Prop
  | .signal _ => unanswered s.session = false
  | _ => True

instance decidableCalm (s : State) : ∀ event, Decidable (Calm s event)
  | .signal _ => inferInstanceAs (Decidable (_ = _))
  | .session _ | .strays _ | .collectsStray => isTrue trivial

/-- If the `listen_response` of the handler has returned 1, what it got is what the
server sent in answer to the handler's request. -/
def State.OwnGoodbye (s : State) : Prop :=
  s.signalled = true → s.session.client = .listens → s.session.exchange.listener.pc = .returned 1 →
    ∃ k res, s.due = some k ∧ s.session.sent[k]? = some ⟨EXIT, res⟩ ∧
      s.session.exchange.listener.buffer = some res.msg

/-! ## After the server's loop -/

/-- The server says goodbye or has done so; it will read no more. -/
def finished (server : Handler.Session) : Bool :=
  match server.pc with
  | .send .goodbye | .remove | .ended => true
  | _ => false

section Finished
variable {server server' : Handler.Session} {reply : Handler.Reply} {session session' : ClientSession.State}

theorem finished_step (done : finished server = true)
    (stepped : Handler.step server reply = some server') : finished server' = true := by
  cases here : server.pc with
  | send site =>
    cases site <;> simp [finished, here] at done
    cases reply <;> simp [Handler.step, here, Handler.Session.afterSend] at stepped
    subst stepped
    rfl
  | remove =>
    cases reply <;> simp [Handler.step, here] at stepped
    subst stepped
    rfl
  | ended => cases reply <;> simp [Handler.step, here] at stepped
  | _ => simp [finished, here] at done

/-- The client waits for its child, and the child for a server that is gone. -/
structure Deaf (s : ClientSession.State) : Prop where
  done : finished s.server = true
  free : s.joined = none
  closed : s.requestPipe.readOpens = s.requestPipe.readCloses
  waits : s.client = .waits
  child : ∃ h, s.requester = some h ∧ h.early = true ∧ h.pc ≠ .write ∧
    ∀ gone, h.pc = .opening gone → gone = s.requestPipe.readCloses

theorem Deaf.move (deaf : Deaf session) (move : ClientSession.Move session session') :
    Deaf session' := by
  have done := deaf.done
  have waits := deaf.waits
  cases move with
  | requests h h' pipe here moved =>
    obtain ⟨h₀, child, early, unwritten, opening⟩ := deaf.child
    obtain rfl : h = h₀ := Option.some.inj (here.symm.trans child)
    cases moved with
    | prepares h' same before after free still =>
      refine { deaf with child := ⟨h', rfl, after, fun writes => ?_, fun gone opens => ?_⟩ }
      · simp [Requester.holds, writes] at still
      · simp [Requester.holds, opens] at still
    | calls h' same before free there =>
      refine { deaf with child := ⟨h', rfl, by simp [Requester.early, there], by simp [there], ?_⟩ }
      intro gone opens
      rw [there] at opens
      exact (RequestPipe.RequesterPc.opening.inj opens).symm
    | opens gone h' same stands there opened =>
      have := opening gone stands
      have := deaf.closed
      omega
    | writes h' f' stands => exact absurd stands unwritten
    | closes h' stands => simp [Requester.early, stands] at early
  | requested h code here child exited =>
    obtain ⟨h₀, found, early, -⟩ := deaf.child
    obtain rfl : h = h₀ := Option.some.inj (child.symm.trans found)
    simp [Requester.early, exited] at early
  | forks site msg here free => exact { deaf with }
  | sends answer x here smooth stepped => exact { deaf with }
  | collects site code server here busy exited stepped =>
    exact { deaf with done := finished_step done stepped }
  | works reply server here smooth stepped => exact { deaf with done := finished_step done stepped }
  | rejects | asks | listens | answered => simp_all
  | joins again here | opens again _ _ here | reads again _ _ here | ends again _ here
  | closes again _ here => simp [finished, here] at done

/-! ## The answer on its way -/

/-- The server has begun to answer the handler, and will do nothing after that. -/
structure Answering (k : Nat) (res : Response) (s : ClientSession.State) : Prop where
  done : finished s.server = true
  free : s.joined = none
  sends : ∀ site, s.server.pc = .send site → s.sending = true
  busy : s.client.busy = true
  line : s.line = exitLine
  sent : s.sent[k]? = some ⟨EXIT, res⟩
  made : ∃ msg, res = makeResponse msg s.maxSize
  delivery : Delivery res s.exchange

variable {k : Nat} {res : Response}

theorem Answering.move (answering : Answering k res session)
    (move : ClientSession.Move session session') :
    session'.client = .left ∨ Answering k res session' := by
  have done := answering.done
  have busy := answering.busy
  cases move with
  | rejects line here | asks line here => simp [ClientSession.ClientPc.busy, here] at busy
  | requests h h' pipe here moved => exact .inr { answering with }
  | requested h code here child exited =>
    by_cases failed : sendResult (exitStatus code) ≤ 0
    · exact .inl (by rw [if_pos failed])
    · exact .inr { answering with busy := by rw [if_neg failed]; rfl }
  | listens answer x here smooth stepped =>
    exact .inr { answering with delivery := delivery_step answering.delivery smooth stepped }
  | answered r cell here returned =>
    refine .inl ?_
    unfold ClientSession.State.answer
    split
    · rfl
    · simp [ClientSession.State.loopTest, answering.line, exitLine, EXIT]
  | forks site msg here free =>
    have := answering.sends site here
    simp [free] at this
  | sends answer x here smooth stepped =>
    exact .inr { answering with delivery := delivery_step answering.delivery smooth stepped }
  | collects site code server here busy exited stepped =>
    refine .inr { answering with done := finished_step done stepped, sends := fun site' there => ?_ }
    cases site <;> simp [finished, here] at done
    simp only [Handler.step, here, Option.some.injEq] at stepped
    subst stepped
    simp [Handler.Session.afterSend] at there
  | works reply server here smooth stepped =>
    have after := finished_step done stepped
    refine .inr { answering with done := after, sends := fun site' there => ?_ }
    cases stands : session.server.pc <;> simp [finished, ClientSession.inner, stands] at done here
    case remove =>
      cases reply <;> simp [Handler.step, stands] at stepped
      subst stepped
      cases there
    case ended => cases reply <;> simp [Handler.step, stands] at stepped
  | joins again here | opens again _ _ here | reads again _ _ here | ends again _ here
  | closes again _ here => simp [finished, here] at done

end Finished

/-! ## The session without the signal -/

section Twin
variable {s s' : ClientSession.State} {cell : CharArray SIZEOF_SIZE_T} {spare : Nat}
  {answers : List (Option (List Byte))}

/-- The session as it would be if the loop had got its answers and had closed what
the interrupted reader has open. -/
def twin (s : ClientSession.State) (answers : List (Option (List Byte))) (spare : Nat) :
    ClientSession.State :=
  { s with answers := answers
           exchange := { s.exchange with fifo := s.exchange.fifo.shut spare } }

/-- The loop has come to its next round, or has ended. -/
def heardOut (s : ClientSession.State) (cell : CharArray SIZEOF_SIZE_T)
    (answers : List (Option (List Byte))) (spare : Nat) : ClientSession.State :=
  twin (renew s cell).loopTest answers spare

theorem heardOut_returned (lock : Lockstep s) (here : s.client = .listens) {r : Int}
    (returned : s.exchange.listener.pc = .returned r) : ∃ answers, Lockstep (heardOut s cell answers 0) := by
  have positive : ¬ r ≤ 0 := by
    cases lock.response with
    | resting _ _ _ _ _ listener => rcases listener with opens | selects <;> simp_all
    | closing _ _ _ _ _ _ _ listener => simp [returned] at listener
    | moving before last sends ahead transfer =>
      have sound := transfer.listener
      rw [Listener.Sound, returned] at sound
      omega
  have answered : Lockstep (s.answer r cell) := lock.answered here returned
  rw [ClientSession.State.answer, if_neg positive] at answered
  exact ⟨_, answered⟩

theorem heardOut_close (lock : Lockstep s) (here : s.client = .listens)
    (close : s.exchange.listener.pc = .close) : ∃ answers, Lockstep (heardOut s cell answers 1) := by
  have empty : s.exchange.fifo.data = [] := by
    cases lock.response with
    | resting _ _ empty => exact empty
    | closing _ _ _ _ _ _ _ listener => simp [close] at listener
    | moving before last sends ahead transfer =>
      exact transfer.emptied (by simp [Listener.progress, close])
  have closes : ResponsePipe.step s.exchange (.listens .ok) =
      some { s.exchange with listener := s.exchange.listener.return 1
                             fifo := s.exchange.fifo.leaveRead
                             consumed := s.exchange.consumed ++ [] } := by
    simp [ResponsePipe.step, listenResponse, close]
  obtain ⟨answers, after⟩ : ∃ answers, Lockstep (heardOut _ cell answers 0) :=
    heardOut_returned (lock.listens here rfl closes) here rfl
  rw [Fifo.leaveRead_eq empty] at after
  exact ⟨answers, after⟩

theorem heardOut_mallocBuffer (lock : Lockstep s) (here : s.client = .listens)
    (copies : s.exchange.listener.pc = .mallocBuffer) : ∃ answers, Lockstep (heardOut s cell answers 1) := by
  have stepped : ResponsePipe.step s.exchange (.listens .ok) =
      some { s.exchange with
        listener := { s.exchange.listener with
          pc := .close
          buffer := some (strncpy (List.replicate s.exchange.listener.size 0) s.exchange.listener.msg
            s.exchange.listener.size) }
        consumed := s.exchange.consumed ++ [] } := by
    simp [ResponsePipe.step, listenResponse, copies]
  obtain ⟨answers, after⟩ : ∃ answers, Lockstep (heardOut _ cell answers 1) :=
    heardOut_close (lock.listens here rfl stepped) here rfl
  exact ⟨answers, after⟩

theorem heardOut_malloc (lock : Lockstep s) (here : s.client = .listens)
    (mallocs : s.exchange.listener.pc = .malloc) (nothing : ofBytes s.exchange.listener.cell.bytes = 0) :
    ∃ answers, Lockstep (heardOut s cell answers 1) := by
  have stepped : ResponsePipe.step s.exchange (.listens .ok) =
      some { s.exchange with
        listener := (s.exchange.listener.begin (ofBytes s.exchange.listener.cell.bytes)).loop
        consumed := s.exchange.consumed ++ [] } := by
    simp [ResponsePipe.step, listenResponse, mallocs]
  obtain ⟨answers, after⟩ : ∃ answers, Lockstep (heardOut _ cell answers 1) :=
    heardOut_mallocBuffer (lock.listens here rfl stepped) here (by simp [Listener.loop, Listener.begin, nothing])
  exact ⟨answers, after⟩

/-- At the prompt nothing is unfinished but perhaps the child of the last response. -/
theorem renew_prompt (lock : Lockstep s) (here : s.client = .prompt) : Lockstep (renew s cell) := by
  have unheard := lock.unheard (by simp [here])
  have response : ResponsePhase s.answers.length s.sent s.sending (renew s cell).exchange := by
    cases lock.response with
    | resting even idle empty writers readers =>
      refine .resting even idle empty writers ?_ (.inl rfl) (by simp [renew]) rfl
      simpa [renew, Listener.holds, unheard] using readers
    | moving prev last sends ahead =>
      -- more would be answered than was asked
      have asked := lock.askCount
      have served := lock.serveCount
      have bounds := lock.request.count
      have length : s.sent.length = s.answers.length + 1 := by simp [sends, ahead]
      simp only [ClientPc.busy, here] at asked
      simp at asked
      omega
    | closing res old consumed even busy transfer heard =>
      exact .closing res old consumed even busy transfer heard rfl rfl
  exact { lock with
    response := response
    unheard := fun _ => rfl }

/-- Without an unanswered request, the signal finds the loop at the end of a round. -/
theorem calm_twin (lock : Lockstep s) (stays : s.client ≠ .left) (calm : unanswered s = false) :
    ∃ client answers spare, spare ≤ 1 ∧ Lockstep (twin { renew s cell with client := client } answers spare) ∧
      (client = .prompt ∨ client = .left ∧ s.line.bytes = EXIT) := by
  have after : ∀ answers spare, spare ≤ 1 → Lockstep (heardOut s cell answers spare) →
      ∃ client answers spare, spare ≤ 1 ∧ Lockstep (twin { renew s cell with client := client } answers spare) ∧
        (client = .prompt ∨ client = .left ∧ s.line.bytes = EXIT) := by
    intro answers spare one heard
    refine ⟨_, answers, spare, one, heard, ?_⟩
    by_cases exits : s.line.bytes = EXIT
    · exact .inr ⟨if_pos exits, exits⟩
    · exact .inl (if_neg exits)
  cases here : s.client with
  | prompt =>
    have renewed : Lockstep (renew s cell) := renew_prompt lock here
    exact ⟨s.client, s.answers, 0, by omega, renewed, .inl here⟩
  | waits => simp [unanswered, here] at calm
  | left => exact absurd here stays
  | listens =>
    cases place : s.exchange.listener.pc with
    | malloc =>
      obtain ⟨answers, heard⟩ := heardOut_malloc lock here place (by simpa [unanswered, here, place] using calm)
      exact after answers 1 (by omega) heard
    | mallocBuffer =>
      obtain ⟨answers, heard⟩ := heardOut_mallocBuffer lock here place
      exact after answers 1 (by omega) heard
    | close =>
      obtain ⟨answers, heard⟩ := heardOut_close lock here place
      exact after answers 1 (by omega) heard
    | returned r =>
      obtain ⟨answers, heard⟩ := heardOut_returned lock here place
      exact after answers 0 (by omega) heard
    | _ => simp [unanswered, here, place] at calm

/-- As long as the server does not answer, no response is ahead of the loop's answers. -/
theorem twin_not_ahead (before : s.sent.length = answers.length) {prev : List ClientSession.Sent}
    {last : ClientSession.Sent} (sends : (twin s answers spare).sent = prev ++ [last]) :
    prev.length ≠ (twin s answers spare).answers.length := by
  intro ahead
  have length := congrArg List.length sends
  simp only [twin, List.length_append, List.length_singleton] at length ahead
  omega

/-- Then the reader has nothing to read. -/
theorem twin_waiting (lock : Lockstep (twin s answers spare)) (before : s.sent.length = answers.length) :
    s.exchange.listener.pc = .open ∨ s.exchange.listener.pc = .select := by
  cases lock.response with
  | resting _ _ _ _ _ listener => exact listener
  | moving prev last sends ahead => exact absurd ahead (twin_not_ahead before sends)
  | closing _ _ _ _ _ _ _ listener => exact .inl listener

/-- A move of the session is one of its twin, or the server begins to answer. -/
theorem twin_move (lock : Lockstep (twin s answers spare)) (busy : s.client.busy = true)
    (before : s.sent.length = answers.length) (move : ClientSession.Move s s') :
    (∃ site msg, s.server.pc = .send site ∧ s.sending = false ∧ s' = s.fork msg) ∨
      Lockstep (twin s' answers spare) ∧ s'.client.busy = true ∧ s'.line = s.line ∧ s'.sent = s.sent := by
  have waiting := twin_waiting lock before
  cases move with
  | rejects line here | asks line here => simp [ClientPc.busy, here] at busy
  | requests h h' pipe here moved => exact .inr ⟨lock.requests here moved, busy, rfl, rfl⟩
  | requested h code here child exited =>
    have after := lock.requested here child exited
    refine .inr ⟨after, ?_, rfl, rfl⟩
    by_cases failed : sendResult (exitStatus code) ≤ 0
    · -- it would have left with nothing asked in vain
      have asked := lock.askCount
      have still := after.askCount
      rw [if_pos (by exact busy)] at asked
      simp [failed, ClientPc.busy, twin] at asked still
      omega
    · simp [failed, ClientPc.busy]
  | listens answer x here smooth stepped =>
    have shut : ResponsePipe.step (twin s answers spare).exchange (.listens answer) =
        some { x with fifo := x.fifo.shut spare } := by
      obtain ⟨⟨l', f', chunk⟩, moved, rfl⟩ := Option.map_eq_some_iff.mp stepped
      rcases waiting with opens | selects
      · cases answer <;> simp [listenResponse, opens, ResponsePipe.Event.smooth] at moved smooth
        obtain ⟨rfl, rfl, rfl⟩ := moved
        simp [ResponsePipe.step, twin, listenResponse, opens]
        exact ⟨rfl, rfl⟩
      · cases answer <;> simp [listenResponse, selects, ResponsePipe.Event.smooth] at moved smooth
        obtain ⟨selectable, rfl, rfl, rfl⟩ := moved
        have same : (s.exchange.fifo.shut spare).selectable s.exchange.listener.gone = true := selectable
        simp [ResponsePipe.step, twin, listenResponse, selects, same]
    exact .inr ⟨lock.listens here smooth shut, busy, rfl, rfl⟩
  | answered r cell here returned => rcases waiting with opens | selects <;> simp_all
  | joins again here free => exact .inr ⟨lock.joins here free, busy, rfl, rfl⟩
  | opens again gone server here joined opened stepped =>
    exact .inr ⟨lock.opens here joined opened stepped, busy, rfl, rfl⟩
  | reads again req server here oldest stepped =>
    exact .inr ⟨lock.reads here oldest stepped, busy, rfl, rfl⟩
  | ends again s' here empty abandoned =>
    have opened := lock.not_ended here empty
    rw [show (twin s answers spare).requestPipe.abandoned = true from abandoned] at opened
    cases opened
  | closes again server here stepped => exact .inr ⟨lock.closes here stepped, busy, rfl, rfl⟩
  | forks site msg here free => exact .inl ⟨site, msg, here, free, rfl⟩
  | sends answer x here smooth stepped =>
    cases lock.response with
    | resting _ idle => simp [twin, here] at idle
    | moving prev last sends ahead => exact absurd ahead (twin_not_ahead before sends)
    | closing res old consumed even _ transfer heard =>
      have all : old.progress res = SIZEOF_SIZE_T + res.size := by simp [Listener.progress, heard]
      have sound := transfer.sender
      have behind := transfer.behind
      have bound := sound.progress_le
      have spent : s.exchange.sender.progress = SIZEOF_SIZE_T + s.exchange.sender.res.size := by
        rw [show s.exchange.sender.res = res from sound.1]
        simp only [twin] at behind bound
        omega
      have empty : s.exchange.fifo.data = [] := transfer.emptied all
      have shut : ResponsePipe.step (twin s answers spare).exchange (.sends answer) =
          some { x with fifo := x.fifo.shut spare } := by
        obtain ⟨⟨s', f', chunk⟩, moved, rfl⟩ := Option.map_eq_some_iff.mp stepped
        simp only [ResponsePipe.step, twin, sendResponse_shut empty spent, moved, Option.map_some]
      exact .inr ⟨lock.sends here smooth shut, busy, rfl, rfl⟩
  | collects site code server here working exited stepped =>
    exact .inr ⟨lock.collects here working exited stepped, busy, rfl, rfl⟩
  | works reply server here smooth stepped => exact .inr ⟨lock.works here smooth stepped, busy, rfl, rfl⟩

end Twin

/-! ## The request of the handler -/

/-- The handler has asked, the server does not answer yet; with its record alone in
the pipe, where that is and what answers it are known. -/
structure Going (answers : List (Option (List Byte))) (spare : Nat) (s : State) : Prop where
  lock : Lockstep (twin s.session answers spare)
  one : spare ≤ 1
  busy : s.session.client.busy = true
  line : s.session.line = exitLine
  before : s.session.sent.length = answers.length
  coming : s.session.requestPipe.data ≠ [] → s.ahead = some 0
  read : (Handler.requests s.session.server.log).length = s.session.asked.length →
    s.due = some answers.length

section Going
variable {s : State} {session' : ClientSession.State} {event : ClientSession.Event}
  {answers : List (Option (List Byte))} {spare : Nat} {reply : Handler.Reply}

theorem requests_of_step {server server' : Handler.Session}
    (stepped : Handler.step server reply = some server') (other : ∀ req, reply ≠ .frame req) :
    Handler.requests server'.log = Handler.requests server.log := by
  cases Handler.move_of_step stepped with
  | received again req => exact absurd rfl (other req)
  | stale _ _ _ _ _ log => rw [log]
  | forked _ _ _ _ log | sent _ _ _ _ _ _ log =>
    rw [log]
    split
    · exact (Handler.requests_append ..).trans (List.append_nil _)
    · rfl
  | quiet _ _ _ _ log => rw [log]

/-- A call of `handle_request` is a step of the server, of which the client's loop
sees nothing; it puts nothing into the request pipe. -/
theorem serve_spec {session : ClientSession.State} (served : ClientSession.serve session reply = some session') :
    Handler.step session.server reply = some session'.server ∧ session'.client = session.client ∧
      session'.asked = session.asked ∧
      (session'.requestPipe.data ≠ [] → session.requestPipe.data ≠ []) := by
  unfold ClientSession.serve at served
  split at served
  case h_3 =>
    obtain ⟨-, server, stepped, rfl⟩ := by simpa using served
    exact ⟨stepped, rfl, rfl, fun left empty => left (by simp [Fifo.drop, empty])⟩
  case h_5 =>
    obtain ⟨server, stepped, rfl⟩ := by simpa using served
    exact ⟨stepped, rfl, rfl, fun left empty => left (Fifo.leaveRead_empty empty)⟩
  case h_6 =>
    split at served
    case h_2 => cases served
    case h_1 =>
    obtain ⟨rfl, server, stepped, rfl⟩ := by simpa using served
    exact ⟨stepped, rfl, rfl, id⟩
  case h_7 =>
    obtain ⟨server, stepped, rfl⟩ := by simpa using served
    exact ⟨stepped, rfl, rfl, id⟩
  all_goals
    obtain ⟨-, server, stepped, rfl⟩ := by simpa using served
    exact ⟨stepped, rfl, rfl, id⟩

theorem serve_frame {session : ClientSession.State} {req : Handler.Request}
    (served : ClientSession.serve session (.frame req) = some session') :
    (∃ again, session.server.pc = .listenRead again) ∧ session.requestPipe.data.head? = some req ∧
      ∃ server, session' =
        { session with server := server, requestPipe := session.requestPipe.drop 1 } := by
  cases here : session.server.pc with
  | listenRead again =>
    simp only [ClientSession.serve, here, Option.ite_none_right_eq_some, Option.map_eq_some_iff] at served
    obtain ⟨oldest, server, -, rfl⟩ := served
    exact ⟨⟨again, rfl⟩, oldest, server, rfl⟩
  | _ => simp [ClientSession.serve, here, Handler.step] at served

/-- Beside the session, a step changes only what is known of the record. -/
theorem follow_eq (s : State) (event : ClientSession.Event) (session' : ClientSession.State) :
    ∃ ahead due, s.follow event session' = { s with session := session', ahead := ahead, due := due } := by
  unfold State.follow
  split
  · split <;> exact ⟨_, _, rfl⟩
  · split <;> exact ⟨_, _, rfl⟩
  · exact ⟨_, _, rfl⟩

@[simp] theorem follow_session : (s.follow event session').session = session' := by
  obtain ⟨_, _, same⟩ := follow_eq s event session'
  rw [same]

@[simp] theorem follow_signalled : (s.follow event session').signalled = s.signalled := by
  obtain ⟨_, _, same⟩ := follow_eq s event session'
  rw [same]

@[simp] theorem follow_stray : (s.follow event session').stray = s.stray := by
  obtain ⟨_, _, same⟩ := follow_eq s event session'
  rw [same]

/-- The place of the handler's record stays known through every step. -/
theorem Going.follow (going : Going answers spare s) (signalled : s.signalled = true)
    (smooth : event.smooth = true) (stepped : ClientSession.step s.session event = some session') :
    (session'.requestPipe.data ≠ [] → (s.follow event session').ahead = some 0) ∧
      ((Handler.requests session'.server.log).length = session'.asked.length →
        (s.follow event session').due = some answers.length) := by
  have coming := going.coming
  have read := going.read
  cases event with
  | types line =>
    simp only [ClientSession.step] at stepped
    split at stepped
    case isFalse => cases stepped
    case isTrue here => simpa [ClientPc.busy, here] using going.busy
  | requests answer =>
    simp only [ClientSession.step] at stepped
    split at stepped
    case h_2 => cases stepped
    case h_1 h here =>
    obtain ⟨⟨h', pipe⟩, moved, rfl⟩ := Option.map_eq_some_iff.mp stepped
    have move := RequestPipe.move_of_sendRequest (by simpa [ClientSession.Event.smooth] using smooth) moved
    have ok : answer = .ok := by
      cases answer <;> cases place : h.pc <;> simp_all [sendRequest, ClientSession.Event.smooth]
    subst ok
    by_cases writes : h.pc = .write
    · have empty : s.session.requestPipe.data = [] := by
        cases going.lock.request with
        | resting _ empty | coming _ _ _ _ empty | taken _ _ _ empty => exact empty
        | inside _ _ done => simpa [RequestPipe.Requester.early, writes] using (done h here).not_early
      refine ⟨fun _ => ?_, fun all => ?_⟩
      · simp [State.follow, signalled, here, writes, empty]
      · simpa [State.follow, signalled, here, writes] using read all
    · have same : s.follow (.requests .ok) { s.session with requester := some h', requestPipe := pipe } =
          { s with session := { s.session with requester := some h', requestPipe := pipe } } := by
        simp [State.follow, here, writes]
      rw [same]
      refine ⟨fun filled => coming ?_, read⟩
      cases move with
      | prepares | calls | opens => exact filled
      | writes h' f' stands => exact absurd stands writes
      | closes h' stands =>
        refine fun empty => filled ?_
        rw [Fifo.leaveWrite_eq (.inr empty)]
        exact empty
  | serves reply =>
    by_cases frame : ∃ req, reply = .frame req
    · obtain ⟨req, rfl⟩ := frame
      obtain ⟨-, oldest, server, rfl⟩ := serve_frame stepped
      have there : s.ahead = some 0 := coming fun empty => by simp [empty] at oldest
      have alone : (s.session.requestPipe.drop 1).data = [] := by
        cases going.lock.request with
        | resting _ empty | coming _ _ _ _ empty | taken _ _ _ empty =>
          rw [show s.session.requestPipe.data = [] from empty] at oldest
          cases oldest
        | inside frame =>
          simp [Fifo.drop, show s.session.requestPipe.data = _ from frame]
      refine ⟨fun filled => absurd alone filled, fun _ => ?_⟩
      simp [State.follow, there, going.before]
    · have other : ∀ req, reply ≠ .frame req := fun req same => frame ⟨req, same⟩
      obtain ⟨moved, -, asked, filled⟩ := serve_spec stepped
      have same : s.follow (.serves reply) session' = { s with session := session' } := by
        cases reply <;> first | rfl | exact absurd rfl (other _)
      rw [same]
      refine ⟨fun some => coming (filled some), fun all => read ?_⟩
      rw [← requests_of_step moved other, ← asked]
      exact all
  | requested =>
    simp only [ClientSession.step] at stepped
    split at stepped
    · cases stepped; exact ⟨coming, read⟩
    · cases stepped
  | listens answer | sends answer =>
    simp only [ClientSession.step] at stepped
    split at stepped
    · obtain ⟨x, -, rfl⟩ := Option.map_eq_some_iff.mp stepped
      exact ⟨coming, read⟩
    · cases stepped
  | answered cell =>
    simp only [ClientSession.step] at stepped
    split at stepped
    · cases stepped
      unfold ClientSession.State.answer
      split <;> exact ⟨coming, read⟩
    · cases stepped
  | joins =>
    simp only [ClientSession.step] at stepped
    split at stepped
    · cases stepped; exact ⟨coming, read⟩
    · cases stepped
  | forks =>
    simp only [ClientSession.step] at stepped
    split at stepped
    · obtain ⟨msg, -, rfl⟩ := Option.map_eq_some_iff.mp stepped
      exact ⟨coming, read⟩
    · cases stepped

/-- A response begins, and an interrupted reader may have the pipe open. -/
theorem delivery_fork {x : Exchange} (msg : CString) (maxSize : Int) (one : spare ≤ 1)
    (empty : x.fifo.data = []) (writers : x.fifo.writeOpens = x.fifo.writeCloses)
    (readers : x.fifo.readOpens = x.fifo.readCloses + spare + if x.listener.holds then 1 else 0)
    (listener : x.listener.pc = .open ∨ x.listener.pc = .select)
    (gone : x.listener.pc = .select → x.fifo.writeOpens ≤ x.listener.gone) (fresh : x.consumed = []) :
    Delivery (makeResponse msg maxSize)
      { x with sender := ⟨.sigfillset, makeResponse msg maxSize, maxSize, 0⟩, written := [] } := by
  obtain rfl | rfl : spare = 0 ∨ spare = 1 := by omega
  · exact .own _ 0 rfl (transfer_fork msg maxSize empty writers readers listener gone fresh) (.inl rfl)
  · rcases listener with opens | selects
    · refine .lent x.fifo.writeOpens opens (transfer_fork (x := x.lend x.fifo.writeOpens) msg maxSize empty
        writers ?_ (.inr rfl) (fun _ => Nat.le_refl _) fresh)
      simpa [Exchange.lend, Listener.holds, opens] using readers
    · have begun := transfer_fork (x := { x with fifo := { x.fifo with readOpens := x.fifo.readCloses + 1 } })
        msg maxSize empty writers (by simp [Listener.holds, selects]) (.inr selects) gone fresh
      refine .own _ 1 ?_ begun (.inr (by simp [selects]))
      simp only [Listener.holds, selects, if_true] at readers
      simp [Exchange.widen, Fifo.widen, ← readers]

/-- What the server begins to send is the answer to the handler. -/
theorem Going.forks (going : Going answers spare s) {site : Handler.Site} {msg : CString}
    (here : s.session.server.pc = .send site) (free : s.session.sending = false) :
    (Handler.requests s.session.server.log).length = s.session.asked.length ∧
      Answering answers.length (makeResponse msg s.session.maxSize) (s.session.fork msg) := by
  have lock := going.lock
  obtain ⟨prev, -, asking⟩ := lock.asking
  obtain ⟨past, serving⟩ := lock.serving
  have asked := lock.askCount
  have served := lock.serveCount
  have before := going.before
  rw [if_pos (by exact going.busy)] at asked
  simp only [twin, ClientSession.owes, here, free] at asked served
  simp at served
  -- the last line asked for is the last command read
  have last : Handler.requests s.session.server.log = (prev ++ [exitLine]).map Line.bytes := by
    have lines : s.session.asked = prev ++ [exitLine] := by
      have busy := going.busy
      rw [← going.line]
      cases client : s.session.client <;> simp [ClientPc.busy, client] at busy <;>
        · simp only [twin, client] at asking
          exact asking.1
    rw [← lines]
    rcases lock.request.count with ⟨even, -⟩ | ⟨-, length⟩
    · exact even
    · simp only [twin] at length
      omega
  have command : site = .goodbye ∧ s.session.server.reqBuffer.string = EXIT := by
    have place := serving.2
    have bytes : exitLine.bytes = EXIT := rfl
    cases site <;> simp only [twin, here] at place
    all_goals
      obtain ⟨reached, which⟩ := place
      have read := reached.read
      rw [last, List.map_append, List.map_singleton, bytes] at read
      have same := (List.append_inj' read rfl).2
      simp_all
  obtain ⟨rfl, exits⟩ := command
  refine ⟨by omega, ?_⟩
  have unread : s.session.joined = none := lock.unjoined fun again opens => by simp [twin, here] at opens
  have delivery : Delivery (makeResponse msg s.session.maxSize) (s.session.fork msg).exchange := by
    cases lock.response with
    | resting _ _ empty writers readers listener gone fresh =>
      exact delivery_fork msg _ going.one empty writers readers listener gone fresh
    | moving earlier last sends ahead => exact absurd ahead (twin_not_ahead before sends)
    | closing _ _ _ _ sending => simp [twin, free] at sending
  exact {
    done := by simp [ClientSession.State.fork, finished, here]
    free := unread
    sends := fun _ _ => rfl
    busy := going.busy
    line := going.line
    sent := by simp [ClientSession.State.fork, ← before, exits]
    made := ⟨msg, rfl⟩
    delivery := delivery }

end Going

/-! ## Every run -/

/-- What the handler has come to. -/
inductive Parted (s : State) : Prop
  | left (gone : s.session.client = .left)
  | deaf (deaf : Deaf s.session)
  | going (answers : List (Option (List Byte))) (spare : Nat) (going : Going answers spare s)
  | answering (k : Nat) (res : Response) (due : s.due = some k) (answering : Answering k res s.session)

/-- What holds between any two steps, before the signal and after it. -/
def Orderly (s : State) : Prop :=
  s.stray = none ∧ if s.signalled then Parted s else Lockstep s.session

section Runs
variable {s s' : State} {session' : ClientSession.State} {event : ClientSession.Event}
  {cell : CharArray SIZEOF_SIZE_T}

/-- A server that reads no more does not come to the handler's record. -/
theorem follow_due (done : finished s.session.server = true)
    (stepped : ClientSession.step s.session event = some session') :
    (s.follow event session').due = s.due := by
  unfold State.follow
  split
  · split <;> rfl
  · next req =>
    obtain ⟨⟨again, here⟩, -⟩ := serve_frame stepped
    simp [finished, here] at done
  · rfl

/-- A client that has left does not come back. -/
theorem left_step {session : ClientSession.State} (gone : session.client = .left)
    (stepped : ClientSession.step session event = some session') : session'.client = .left := by
  cases event with
  | types line | listens answer | requested | answered cell => simp [ClientSession.step, gone] at stepped
  | serves reply => rw [(serve_spec stepped).2.1, gone]
  | requests answer | forks | sends answer =>
    simp only [ClientSession.step] at stepped
    split at stepped
    · obtain ⟨_, -, rfl⟩ := Option.map_eq_some_iff.mp stepped
      exact gone
    · cases stepped
  | joins =>
    simp only [ClientSession.step] at stepped
    split at stepped
    · cases stepped
      exact gone
    · cases stepped

/-- What every step of the session preserves once the signal has come. -/
theorem Parted.step (parted : Parted s) (signalled : s.signalled = true)
    (smooth : event.smooth = true) (stepped : ClientSession.step s.session event = some session') :
    Parted (s.follow event session') := by
  have move := ClientSession.move_of_step smooth stepped
  cases parted with
  | left gone => exact .left (by simpa using left_step gone stepped)
  | deaf deaf => exact .deaf (by simpa using deaf.move move)
  | going answers spare going =>
    obtain ⟨coming, read⟩ := going.follow signalled smooth stepped
    rcases twin_move going.lock going.busy going.before move with
      ⟨site, msg, here, free, rfl⟩ | ⟨lock, busy, line, sent⟩
    · obtain ⟨all, answering⟩ := going.forks here free
      exact .answering answers.length _ (read all) (by simpa using answering)
    · exact .going answers spare {
        lock := by simpa using lock
        one := going.one
        busy := by simpa using busy
        line := by simpa [line] using going.line
        before := by simpa [sent] using going.before
        coming := by simpa using coming
        read := by simpa using read }
  | answering k res due answering =>
    rcases answering.move move with gone | after
    · exact .left (by simpa using gone)
    · exact .answering k res (by rw [follow_due answering.done stepped, due]) (by simpa using after)

/-- Between two rounds as many responses were begun as there are answers. -/
theorem sent_of_idle {session : ClientSession.State} (lock : Lockstep session)
    (idle : session.client.busy = false) : session.sent.length = session.answers.length := by
  have asked := lock.askCount
  have served := lock.serveCount
  have bounds := lock.response.count
  have even := congrArg List.length (lock.idle idle).2.2.1
  rw [idle] at asked
  simp only [List.length_map] at even
  simp at asked
  omega

/-- The handler asks a server that has answered everything. -/
theorem parted_prompt {answers : List (Option (List Byte))} {spare : Nat} (one : spare ≤ 1)
    (lock : Lockstep (twin { renew s.session cell with client := .prompt } answers spare)) :
    Parted (s.interrupt cell) := by
  obtain ⟨free, empty, even, -⟩ := lock.idle rfl
  have length := congrArg List.length even
  refine .going answers spare {
    lock := lock.asks rfl
    one := one
    busy := rfl
    line := rfl
    before := sent_of_idle lock rfl
    coming := fun filled => absurd empty filled
    read := fun all => ?_ }
  simp only [twin, renew, List.length_map] at length
  simp only [State.interrupt, ClientSession.State.ask, renew, List.length_append, List.length_singleton] at all
  omega

/-- The handler asks a server that has said goodbye to the loop. -/
theorem parted_left {answers : List (Option (List Byte))} {spare : Nat}
    (lock : Lockstep (twin { renew s.session cell with client := .left } answers spare))
    (exits : s.session.line.bytes = EXIT) : Parted (s.interrupt cell) := by
  obtain ⟨free, empty, even, -⟩ := lock.idle rfl
  have begun := sent_of_idle lock rfl
  obtain ⟨prev, -, asked, count, -⟩ := lock.asking
  simp only [twin, renew] at even begun asked count
  have left : (twin { renew s.session cell with client := .left } answers spare).serverLeft prev.length :=
    (lock.server_leaves (by simp only [twin, renew]; omega)
      (by simp [twin, renew, even, asked])).1.mpr exits
  have done : finished s.session.server = true := by
    rcases left.1 with here | here | here <;> simp only [twin, renew] at here <;> simp [finished, here]
  have unread : s.session.joined = none := lock.unjoined fun again opens => by
    simp only [twin, renew] at opens
    simp [finished, opens] at done
  have readEnd := lock.readEnd
  simp only [twin, renew, unread] at readEnd
  have away : ClientSession.reading none s.session.server = false := by
    cases here : s.session.server.pc <;> simp_all [finished, ClientSession.reading]
  have closed : s.session.requestPipe.readOpens = s.session.requestPipe.readCloses := by
    simpa [away] using readEnd
  exact .deaf {
    done := done
    free := unread
    closed := closed
    waits := rfl
    child := ⟨_, rfl, rfl, by simp [Requester.ofCommand], by simp [Requester.ofCommand]⟩ }

theorem orderly_step {event : Event} (orderly : Orderly s) (smooth : event.smooth = true)
    (calm : Calm s event) (stepped : step s event = some s') : Orderly s' := by
  obtain ⟨stray, place⟩ := orderly
  cases event with
  | session event =>
    obtain ⟨session', moved, rfl⟩ := Option.map_eq_some_iff.mp stepped
    refine ⟨by simpa using stray, ?_⟩
    cases signalled : s.signalled with
    | true =>
      rw [signalled] at place
      simpa [signalled] using Parted.step place signalled smooth moved
    | false =>
      rw [signalled] at place
      simpa [signalled] using
        ClientSession.lockstep_move place (ClientSession.move_of_step smooth moved)
  | signal cell =>
    simp only [step, Option.ite_none_right_eq_some, Option.some.injEq] at stepped
    obtain ⟨⟨quiet, stays⟩, rfl⟩ := stepped
    rw [quiet] at place
    obtain ⟨client, answers, spare, one, lock, which⟩ := calm_twin place stays calm
    refine ⟨?_, ?_⟩
    · rcases which with rfl | ⟨rfl, -⟩ <;> exact (lock.idle rfl).1
    · rcases which with rfl | ⟨rfl, exits⟩
      · exact parted_prompt one lock
      · exact parted_left lock exits
  | strays answer => simp [step, stray] at stepped
  | collectsStray => simp [step, stray] at stepped

theorem Orderly.own (orderly : Orderly s) : s.OwnGoodbye := by
  intro signalled listens returned
  obtain ⟨-, place⟩ := orderly
  rw [signalled] at place
  cases place with
  | left gone => simp [listens] at gone
  | deaf deaf =>
    rw [deaf.waits] at listens
    cases listens
  | going answers spare going =>
    rcases twin_waiting going.lock going.before with opens | selects <;> simp_all
  | answering k res due answering =>
    obtain ⟨msg, rfl⟩ := answering.made
    have got := answering.delivery.returned returned
    rw [ClientSession.received_makeResponse] at got
    exact ⟨k, _, due, answering.sent, got⟩

end Runs

open LocalServer.Runs

/-- **The goodbye is the server's answer to the handler.** Wherever the signal finds a
client that has no unanswered request, and however the steps of the handler, of the
server and of their children are interleaved, when no call fails: what the
`listen_response` of `sig_disconnect` returns 1 with is the response that the server
sent for the record of `sig_disconnect`, also when the loop still has the response
pipe open. -/
theorem goodbye_is_own {maxSize : Int} {requestCapacity responseCapacity : Nat} {line : Line}
    {buffer : CharArray (Handler.MAX_COMMAND_LENGTH + 1)} {cell : CharArray SIZEOF_SIZE_T}
    {events : List Event} {s : State} (smooth : ∀ event ∈ events, event.smooth = true)
    (calm : Along step Calm
      (.of (ClientSession.start maxSize requestCapacity responseCapacity line buffer cell)) events)
    (ran : run step (.of (ClientSession.start maxSize requestCapacity responseCapacity line buffer cell))
      events = some s) : s.OwnGoodbye := by
  have along : Along step (fun s event => event.smooth = true ∧ Calm s event)
      (.of (ClientSession.start maxSize requestCapacity responseCapacity line buffer cell)) events :=
    (along_of_forall fun _ event member => smooth event member).and calm
  have initial : Orderly
      (.of (ClientSession.start maxSize requestCapacity responseCapacity line buffer cell)) :=
    ⟨rfl, ClientSession.lockstep_start ..⟩
  have orderly := run_invariant_along (motive := Orderly)
    (fun _ _ _ orderly meets stepped => orderly_step orderly meets.1 meets.2 stepped) initial along ran
  exact orderly.own

/-- The steps of `sig_disconnect` up to the end of its `send_request`. -/
def exitRequest : List ClientSession.Event := (ClientSession.requestOf exitLine).drop 1

/-- The child of `send_response` has written everything, and the server goes on. -/
def collected : List ClientSession.Event := [.sends (.count 0), .sends .ok, .serves (.sent 1)]

/-- The child sends a short message, whoever reads. -/
def sendsAll (length : Nat) : List ClientSession.Event :=
  [.forks, .sends .ok, .sends .ok, .sends .ok, .sends .ok, .sends .ok, .sends (.count length)] ++ collected

/-- `listen_response` finds it in the pipe. -/
def listensAll (length : Nat) : List ClientSession.Event :=
  [.listens .ok, .listens .ok, .listens .ok, .listens .ok, .listens .ok, .listens (.count length),
   .listens .ok, .listens .ok]

/-- The signal comes when the answer to `pwd` is read but not yet copied; the server
answers before the handler listens. -/
def afterTheAnswer : List Event :=
  (ClientSession.requestOf pwdLine ++ ClientSession.printing directory ++
      (ClientSession.responseOf 6).take 13).map .session ++
    [.signal (.empty _)] ++
    (collected ++ exitRequest ++ sendsAll 28 ++ listensAll 28).map .session

theorem goodbye_is_own_after_the_answer : ∃ s k res,
    run step (.of (ClientSession.start (-1) 1 PIPE_BUF pwdLine (.empty _) (.empty _))) afterTheAnswer = some s ∧
      s.due = some k ∧ s.session.sent[k]? = some ⟨EXIT, res⟩ ∧
      s.session.exchange.listener.buffer = some res.msg := by
  have computed : (run step (.of (ClientSession.start (-1) 1 PIPE_BUF pwdLine (.empty _) (.empty _)))
      afterTheAnswer).map (fun s => (s.signalled, s.session.client, s.session.exchange.listener.pc)) =
        some (true, .listens, .returned 1) := by
    decide +kernel
  obtain ⟨s, ran, same⟩ := Option.map_eq_some_iff.mp computed
  simp only [Prod.mk.injEq] at same
  obtain ⟨signalled, listens, returned⟩ := same
  have smooth : ∀ event ∈ afterTheAnswer, event.smooth = true := by decide
  have calm : Along step Calm (.of (ClientSession.start (-1) 1 PIPE_BUF pwdLine (.empty _) (.empty _)))
      afterTheAnswer := by
    decide +kernel
  obtain ⟨k, res, due, sent, got⟩ := goodbye_is_own smooth calm ran signalled listens returned
  exact ⟨s, k, res, ran, due, sent, got⟩

/-- The signal comes when the answer to `pwd` lies in the pipe. -/
def beforeTheAnswer : List Event :=
  (ClientSession.requestOf pwdLine ++ ClientSession.printing directory ++ [ClientSession.Event.listens .ok] ++
      sendsAll 6).map .session ++
    [.signal (.empty _)] ++ (exitRequest ++ listensAll 6).map .session

/-- The handler takes the answer to `pwd` for its goodbye, which is not sent yet. -/
theorem goodbye_of_earlier_command : ∃ s res,
    run step (.of (ClientSession.start (-1) 1 PIPE_BUF pwdLine (.empty _) (.empty _))) beforeTheAnswer = some s ∧
      (∀ event ∈ beforeTheAnswer, event.smooth = true) ∧ s.session.sent = [⟨bytes "pwd", res⟩] ∧
      s.session.exchange.listener.buffer = some res.msg ∧ ¬ s.OwnGoodbye := by
  have computed : ∃ s ∈ run step (.of (ClientSession.start (-1) 1 PIPE_BUF pwdLine (.empty _) (.empty _)))
      beforeTheAnswer, s.signalled = true ∧ s.session.client = .listens ∧
        s.session.exchange.listener.pc = .returned 1 ∧ s.session.exchange.listener.buffer = some (directory ++ [0]) ∧
        s.due = some 1 ∧
        s.session.sent.map (fun sent => (sent.cmd, sent.res.msg)) = [(bytes "pwd", directory ++ [0])] := by
    decide +kernel
  obtain ⟨s, ran, signalled, listens, returned, buffer, due, sent⟩ := computed
  obtain ⟨⟨cmd, res⟩, only, first⟩ := List.map_eq_singleton_iff.mp sent
  simp only [Prod.mk.injEq] at first
  obtain ⟨rfl, msg⟩ := first
  refine ⟨s, res, ran, by decide, only, by rw [buffer, msg], fun own => ?_⟩
  obtain ⟨k, res', there, answer, -⟩ := own signalled listens returned
  rw [due, Option.some.injEq] at there
  simp [only, ← there] at answer

end LocalServer.SigDisconnect
