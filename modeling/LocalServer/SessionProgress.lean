import LocalServer.Lockstep

/-! A session does not hang, unless a command does: `wait` and the reads of the tube
come back here. However the steps are interleaved, each line and each byte that a
command prints pay for a few calls only, and when nobody can make another one the
user has all the answers and is asked for a line, or both sides have ended. -/
namespace LocalServer.ClientSession
open RequestPipe (Requester sendRequest)
open ResponsePipe Runs

/-- What holds between any two steps of a session whose pipes have room. -/
structure Flowing (s : State) : Prop where
  lock : Lockstep s
  requestRoom : 0 < s.requestPipe.capacity
  responseRoom : PIPE_BUF ≤ s.exchange.fifo.capacity
  /-- The child whose record is in the pipe came after the server had called `open`. -/
  arrived : ∀ gone, s.joined = some gone → s.requestPipe.data ≠ [] → gone < s.requestPipe.writeOpens

variable {s s' : State} {event : Event} {reply : Handler.Reply}

/-! ## The pipes -/

/-- A record stays behind its writer as long as the server waits in the same `open`. -/
theorem Flowing.keeps (flowing : Flowing s) (lock : Lockstep s')
    (requestRoom : s'.requestPipe.capacity = s.requestPipe.capacity)
    (responseRoom : s'.exchange.fifo.capacity = s.exchange.fifo.capacity)
    (joined : ∀ gone, s'.joined = some gone → s.joined = some gone)
    (data : s'.requestPipe.data ≠ [] → s.requestPipe.data ≠ [])
    (writers : s.requestPipe.writeOpens ≤ s'.requestPipe.writeOpens) : Flowing s' where
  lock := lock
  requestRoom := requestRoom ▸ flowing.requestRoom
  responseRoom := responseRoom ▸ flowing.responseRoom
  arrived := fun gone waits some => (flowing.arrived gone (joined gone waits) (data some)).trans_le writers

theorem Flowing.requests (flowing : Flowing s) {h h' : Requester} {pipe : Fifo Handler.Request}
    (here : s.requester = some h) (moved : RequestPipe.Move h s.requestPipe h' pipe) :
    Flowing { s with requester := some h', requestPipe := pipe } := by
  have lock := flowing.lock.requests here moved
  cases moved with
  | prepares | opens => exact flowing.keeps lock rfl rfl (fun _ => id) id (Nat.le_refl _)
  | calls => exact flowing.keeps lock rfl rfl (fun _ => id) id (Nat.le_succ _)
  | closes =>
    exact flowing.keeps lock (by simp [Fifo.leaveWrite]) rfl (fun _ => id)
      (fun some empty => some (Fifo.leaveWrite_empty empty)) (by simp [Fifo.leaveWrite])
  | writes h' f' stands there wrote =>
    subst wrote
    refine ⟨lock, flowing.requestRoom, flowing.responseRoom, fun gone waits _ => ?_⟩
    have writeEnd := flowing.lock.writeEnd
    simp only [here, Option.any_some, Requester.holds, stands, if_true] at writeEnd
    cases flowing.lock.request with
    | resting free => simp [free] at here
    | coming other found _ _ _ _ closed =>
      have := closed gone waits
      show gone < s.requestPipe.writeOpens
      omega
    | inside _ _ done =>
      have := (done h here).not_early
      simp [Requester.early, stands] at this
    | taken other found done =>
      cases Option.some.inj (found.symm.trans here)
      have := done.not_early
      simp [Requester.early, stands] at this

theorem flowing_move (flowing : Flowing s) (move : Move s s') : Flowing s' := by
  have lock := lockstep_move flowing.lock move
  cases move with
  | requests h h' pipe here moved => exact flowing.requests here moved
  | rejects line =>
    refine flowing.keeps lock ?_ ?_ (fun gone => ?_) ?_ ?_ <;> simp [State.loopTest]
  | answered r cell =>
    refine flowing.keeps lock ?_ ?_ (fun gone => ?_) ?_ ?_ <;>
      unfold State.answer State.loopTest <;> split <;> simp
  | listens answer x here smooth stepped | sends answer x here smooth stepped =>
    have same := capacity_run (run_cons_eq_some.mpr ⟨x, stepped, run_nil x⟩)
    exact flowing.keeps lock rfl same (fun _ => id) id (Nat.le_refl _)
  | joins again here free =>
    refine ⟨lock, flowing.requestRoom, flowing.responseRoom, fun gone _ some => absurd ?_ some⟩
    cases flowing.lock.request with
    | resting _ empty | coming _ _ _ _ empty | taken _ _ _ empty => exact empty
    | inside _ _ _ opened => rcases opened with waits | ⟨again, reads⟩ <;> simp_all
  | opens => exact flowing.keeps lock rfl rfl (by simp) id (Nat.le_refl _)
  | reads =>
    refine flowing.keeps lock rfl rfl (fun _ => id) (fun some empty => some ?_) (Nat.le_refl _)
    simp [Fifo.drop, empty]
  | ends again s' here empty abandoned =>
    rw [flowing.lock.not_ended here empty] at abandoned
    cases abandoned
  | closes =>
    exact flowing.keeps lock (by simp [Fifo.leaveRead]) rfl (fun _ => id)
      (fun some empty => some (Fifo.leaveRead_empty empty)) (by simp [Fifo.leaveRead])
  | _ => exact flowing.keeps lock rfl rfl (fun _ => id) id (Nat.le_refl _)

/-! ## Nobody waits for ever -/

/-- No call that neither fails nor times out can be made, until the user types. -/
def Resting (s : State) : Prop :=
  ∀ event, event.smooth = true → (∀ line, event ≠ .types line) → step s event = none

/-- The server waits for the user's next line, or both sides have ended. -/
def Settled (s : State) : Prop :=
  s.client = .prompt ∧ (∃ again, s.server.pc = .listenOpen again) ∧ s.joined.isSome = true ∨
    s.client = .left ∧ s.server.pc = .ended

theorem smooth_sends (answer : Answer) :
    (Event.sends answer).smooth = (ResponsePipe.Event.sends answer).smooth := by cases answer <;> rfl

theorem smooth_listens (answer : Answer) :
    (Event.listens answer).smooth = (ResponsePipe.Event.listens answer).smooth := by cases answer <;> rfl

theorem Resting.sends (resting : Resting s) (busy : s.sending = true) (answer : Answer)
    (smooth : (ResponsePipe.Event.sends answer).smooth = true) :
    sendResponse s.exchange.sender s.exchange.fifo answer = none := by
  have none := resting (.sends answer) ((smooth_sends answer).trans smooth) (by simp)
  simpa [step, busy, ResponsePipe.step] using none

theorem Resting.listens (resting : Resting s) (here : s.client = .listens) (answer : Answer)
    (smooth : (ResponsePipe.Event.listens answer).smooth = true) :
    listenResponse s.exchange.listener s.exchange.fifo answer = none := by
  have none := resting (.listens answer) ((smooth_listens answer).trans smooth) (by simp)
  simpa [step, here, ResponsePipe.step] using none

/-- The server rests only where it waits for somebody else. -/
theorem Resting.server (resting : Resting s) (alive : s.server.pc ≠ .ended) :
    (∃ again, s.server.pc = .listenOpen again) ∨ (∃ again, s.server.pc = .listenRead again) ∨
      ∃ site, s.server.pc = .send site := by
  have ok := resting (.serves .ok) rfl (by simp)
  have forked := resting (.serves (.forked ⟨true, true, true⟩)) rfl (by simp)
  cases here : s.server.pc with
  | listenOpen again => exact .inl ⟨again, rfl⟩
  | listenRead again => exact .inr (.inl ⟨again, rfl⟩)
  | send site => exact .inr (.inr ⟨site, rfl⟩)
  | ended => exact absurd here alive
  | fork => simp [step, serve, here, Handler.step] at forked
  | _ => simp [step, serve, here, Handler.step] at ok

/-- Where nobody can go on, the client has not got the response of the child that the
server waits for: a child that was heard out only has to end. -/
theorem Flowing.sending_ahead (flowing : Flowing s) (resting : Resting s) (busy : s.sending = true) :
    s.sent.length = s.answers.length + 1 := by
  obtain ⟨past, serving⟩ := flowing.lock.serving
  obtain ⟨site, here⟩ := serving.sends busy
  cases flowing.lock.response with
  | resting _ idle => simp [busy] at idle
  | moving prev last sends ahead => simp [sends, ahead]
  | closing res old consumed even _ transfer heard =>
    have all : old.progress res = SIZEOF_SIZE_T + res.size := by simp [Listener.progress, heard]
    obtain ⟨same, -, place⟩ : s.exchange.sender.Sound res := transfer.sender
    have behind : old.progress res ≤ s.exchange.sender.progress := transfer.behind
    rw [all] at behind
    have ok := resting.sends busy .ok rfl
    have none := resting.sends busy (.count 0) rfl
    have collects := resting (.serves (.sent 1)) rfl (by simp)
    cases there : s.exchange.sender.pc with
    | body =>
      simp only [there] at place
      simp only [Sender.progress, there] at behind
      have full : s.exchange.sender.total = res.size := by omega
      simp [sendResponse, there, same, full] at none
    | close => simp [sendResponse, there] at ok
    | exited code =>
      obtain rfl : code = 0 := by simpa [there] using place
      simp [step, serve, here, busy, there, Handler.step, sendResult, exitStatus] at collects
    | _ => simp [Sender.progress, there, SIZEOF_SIZE_T] at behind

/-- The server has ended because it has read `exit`, and listens because it has not. -/
theorem Lockstep.exit_read (lock : Lockstep s) :
    (s.server.pc = .ended → EXIT ∈ Handler.requests s.server.log) ∧
      ∀ again, s.server.pc = .listenOpen again → EXIT ∉ Handler.requests s.server.log := by
  obtain ⟨past, noExit, place⟩ := lock.serving
  refine ⟨fun here => ?_, fun again here => ?_⟩ <;> simp only [here] at place
  · obtain ⟨reached, -, exits⟩ := place
    simp [reached.read, exits]
  · simpa [place.1.read] using noExit

/-- Nobody is stuck in `send_request`: its child opens the pipe with the server,
which is back at its `open` as soon as it owes nothing. -/
theorem Flowing.no_requester (flowing : Flowing s) (resting : Resting s) : s.requester = none := by
  by_contra some
  obtain ⟨h, child⟩ := Option.ne_none_iff_exists'.mp some
  have waits := flowing.lock.waits.mp (by simp [child])
  have ok := resting (.requests .ok) rfl (by simp)
  have collects := resting .requested rfl (by simp)
  have ended (done : late h) : False := by
    rcases done with here | here
    · simp [step, child, sendRequest, here] at ok
    · simp only [step, waits, child] at collects
      obtain ⟨pc, req⟩ := h
      obtain rfl : pc = .exited 0 := here
      cases collects
  cases flowing.lock.request with
  | resting free => exact some free
  | inside _ _ done => exact ended (done h child)
  | taken other found done =>
    cases Option.some.inj (found.symm.trans child)
    exact ended done
  | coming other found early frame empty next closed opening write =>
    cases Option.some.inj (found.symm.trans child)
    have readEnd := flowing.lock.readEnd
    -- the child is in its `open`, and nobody has come to read since
    have away : reading s.joined s.server = false := by
      by_contra reads
      rw [Bool.not_eq_false] at reads
      rw [if_pos reads] at readEnd
      cases here : h.pc with
      | opening gone =>
        have := opening gone here
        simp [step, child, sendRequest, here, Fifo.writeOpened] at ok
        omega
      | write =>
        have room := flowing.requestRoom
        simp [step, child, sendRequest, here, Fifo.write, empty, readEnd] at ok
        omega
      | sigfillset | sigaction | «open» => simp [step, child, sendRequest, here] at ok
      | _ => simp [Requester.early, here] at early
    obtain ⟨idle, even⟩ := flowing.lock.unread next
    by_cases alive : s.server.pc = .ended
    · obtain ⟨prev, noExit, asking⟩ := flowing.lock.asking
      simp only [waits] at asking
      rw [asking.1, List.map_append, List.map_singleton, List.append_cancel_right_eq] at next
      have exits := next ▸ flowing.lock.exit_read.1 alive
      obtain ⟨line, before, same⟩ := List.mem_map.mp exits
      exact noExit line before same
    · rcases resting.server alive with ⟨again, here⟩ | ⟨again, here⟩ | ⟨site, here⟩
      · have joins := resting .joins rfl (by simp)
        cases there : s.joined with
        | none => simp [step, here, there] at joins
        | some gone => simp [reading, here, there] at away
      · simp [reading, here] at away
      · have busy : s.sending = true := by simpa [owes, here] using idle
        have := flowing.sending_ahead resting busy
        omega

/-- What the server sends is a string that memory has room for, if its output is. -/
theorem Lockstep.message_fits (lock : Lockstep s) {site : Handler.Site} (here : s.server.pc = .send site)
    (block : s.server.resBuffer.length < OBJECT_MAX) :
    0 ∉ s.server.message site ∧ (s.server.message site).length < OBJECT_MAX := by
  obtain ⟨past, -, place⟩ := lock.serving
  cases site <;> simp only [here] at place
  case response => exact ⟨zero_not_mem_cstr _, (cstr_length_le _).trans_lt block⟩
  case goodbye =>
    rw [Handler.Session.message]
    decide

/-- Nobody is stuck in `listen_response`. -/
theorem Flowing.not_listening (flowing : Flowing s) (resting : Resting s)
    (block : s.server.resBuffer.length < OBJECT_MAX) : s.client ≠ .listens := by
  intro here
  have free := flowing.no_requester resting
  have answered := resting (.answered (.empty _)) rfl (by simp)
  have asked := flowing.lock.askCount
  have served := flowing.lock.serveCount
  simp only [here, ClientPc.busy] at asked
  simp at asked
  have read : (Handler.requests s.server.log).length = s.asked.length := by
    cases flowing.lock.request with
    | resting _ _ even => simpa using congrArg List.length even
    | coming h found | taken h found => simp [found] at free
    | inside frame _ _ opened =>
      have reads := resting (.serves (.frame (Handler.Request.ofCommand s.line.bytes))) rfl (by simp)
      have opens := resting (.serves .ok) rfl (by simp)
      rcases opened with waits | ⟨again, there⟩
      · obtain ⟨gone, waits⟩ := Option.isSome_iff_exists.mp waits
        obtain ⟨again, there⟩ := flowing.lock.joined (by simp [waits])
        have := flowing.arrived gone waits (by simp [frame])
        simp [step, serve, there, waits, Fifo.readOpened, this, Handler.step] at opens
      · simp [step, serve, there, frame, Handler.step] at reads
  cases flowing.lock.response with
  | resting even idle =>
    have forks := resting .forks rfl (by simp)
    have debt : owes s.server s.sending = true := by
      by_contra none
      rw [if_neg none] at served
      omega
    have alive : s.server.pc ≠ .ended := fun ended => by simp [owes, ended] at debt
    rcases resting.server alive with ⟨again, there⟩ | ⟨again, there⟩ | ⟨site, there⟩
    · simp [owes, there] at debt
    · simp [owes, there] at debt
    · have fits := flowing.lock.message_fits there block
      simp [step, there, idle, CString.of, fits] at forks
  | closing _ _ _ even busy =>
    have := flowing.sending_ahead resting busy
    omega
  | moving prev last sends ahead transfer collected =>
    have stuck : Stuck s.exchange := by
      intro event smooth
      cases event with
      | listens answer => simpa [ResponsePipe.step] using resting.listens here answer smooth
      | sends answer =>
        cases busy : s.sending with
        | true => simpa [ResponsePipe.step] using resting.sends busy answer smooth
        | false => simp [ResponsePipe.step, sendResponse, collected busy]
    have sent := stuck.sender_done transfer flowing.responseRoom
    simp [step, here, stuck.listener_done transfer sent] at answered

/-- A client that is not waiting leaves the server no work but to wait for a line. -/
theorem Flowing.settled (flowing : Flowing s) (resting : Resting s)
    (block : s.server.resBuffer.length < OBJECT_MAX) : Settled s := by
  have idle : s.client.busy = false := by
    have listens := flowing.not_listening resting block
    have waits := flowing.lock.waits.not.mp (by simp [flowing.no_requester resting])
    simp [ClientPc.busy, waits, listens]
  obtain ⟨-, -, even, unread, -⟩ := flowing.lock.idle idle
  obtain ⟨prev, noExit, asking⟩ := flowing.lock.asking
  have asked := flowing.lock.askCount
  have served := flowing.lock.serveCount
  have sent := flowing.lock.response.count.1
  have read := congrArg List.length even
  simp only [idle, Bool.false_eq_true, if_false, List.length_map] at asked read
  have free : s.sending = false := by
    by_contra busy
    have := flowing.sending_ahead resting (by simpa using busy)
    omega
  have place : s.server.pc = .ended ∨ ∃ again, s.server.pc = .listenOpen again := by
    by_cases ended : s.server.pc = .ended
    · exact .inl ended
    · rcases resting.server ended with opens | ⟨again, reads⟩ | ⟨site, here⟩
      · exact .inr opens
      · exact absurd reads (unread again)
      · simp [owes, here, free] at served
        omega
  cases client : s.client with
  | waits | listens => simp [ClientPc.busy, client] at idle
  | prompt =>
    simp only [client] at asking
    rcases place with ended | ⟨again, here⟩
    · have exits := flowing.lock.exit_read.1 ended
      rw [even, asking.1] at exits
      obtain ⟨line, before, same⟩ := List.mem_map.mp exits
      exact absurd same (noExit line before)
    · have joins := resting .joins rfl (by simp)
      refine .inl ⟨client, ⟨again, here⟩, Option.isSome_iff_ne_none.mpr fun none => ?_⟩
      simp [step, here, none] at joins
  | left =>
    simp only [client] at asking
    rcases place with ended | ⟨again, here⟩
    · exact .inr ⟨client, ended⟩
    · have stays := flowing.lock.exit_read.2 again here
      rw [even, asking.1] at stays
      simp [asking.2.2] at stays

theorem Settled.idle (settled : Settled s) : s.client.busy = false := by
  rcases settled with ⟨client, -⟩ | ⟨client, -⟩ <;> simp [ClientPc.busy, client]

theorem Lockstep.settled_free (lock : Lockstep s) (settled : Settled s) : s.sending = false := by
  obtain ⟨past, -, place⟩ := lock.serving
  rcases settled with ⟨-, ⟨again, here⟩, -⟩ | ⟨-, here⟩ <;> simp only [here] at place <;> simp [place]

/-- There nobody can go on. -/
theorem Lockstep.resting (lock : Lockstep s) (settled : Settled s) : Resting s := by
  intro event smooth elsewhere
  have idle := settled.idle
  have notSending := lock.settled_free settled
  obtain ⟨free, -, -, -, gone⟩ := lock.idle idle
  have writeEnd := lock.writeEnd
  simp only [free, Option.any_none, Bool.false_eq_true, if_false, Nat.add_zero] at writeEnd
  have serves : ∀ reply, serve s reply = none := by
    intro reply
    rcases settled with ⟨-, ⟨again, here⟩, joined⟩ | ⟨-, here⟩
    · obtain ⟨since, waits⟩ := Option.isSome_iff_exists.mp joined
      have := gone since waits
      cases reply <;> simp [serve, here, waits, Fifo.readOpened, writeEnd, this]
    · cases reply <;> simp [serve, here, Handler.step]
  have away : s.client ≠ .listens := fun here => by simp [ClientPc.busy, here] at idle
  cases event with
  | types line => exact absurd rfl (elsewhere line)
  | serves reply => exact serves reply
  | joins =>
    rcases settled with ⟨-, ⟨again, here⟩, joined⟩ | ⟨-, here⟩
    · obtain ⟨since, waits⟩ := Option.isSome_iff_exists.mp joined
      simp [step, here, waits]
    · simp [step, here]
  | forks => rcases settled with ⟨-, ⟨again, here⟩, -⟩ | ⟨-, here⟩ <;> simp [step, here]
  | _ => simp [step, free, notSending, away]

/-! ## Nobody goes on for ever -/

/-- How many calls the child of `send_request` has before it, at most. -/
def requesterRank (h : Requester) : Nat :=
  match h.pc with
  | .sigfillset => 6
  | .sigaction => 5
  | .open => 4
  | .opening _ => 3
  | .write => 2
  | .close => 1
  | .exited _ | .returned _ => 0

/-- The response that the client has yet to get; before it is begun, it is as short
as can be. -/
def State.incoming (s : State) : Response :=
  if s.answers.length < s.sent.length then s.exchange.sender.res else ⟨0, [], rfl, by decide⟩

/-- How many calls the client has before it, at most, until it asks its user again. -/
def State.clientRank (s : State) : Nat :=
  match s.client with
  | .prompt | .left => 0
  | .waits => s.requester.elim 0 requesterRank + (s.exchange.listener.rank s.incoming + 2)
  | .listens => s.exchange.listener.rank s.incoming + 1

/-- How many calls the server and its child have before them, at most, until it waits
for a request, when the command prints nothing more. A response that is not begun
counts three calls for each of its bytes, which its reader takes as well. -/
def State.serverRank (s : State) : Nat :=
  match s.server.pc with
  | .listenOpen _ => if s.joined = none then 3 else 2
  | .listenRead _ => 1
  | .listenClose _ => 98
  | .pipe => 26
  | .fork => 3 * s.server.resBuffer.length + 25
  | .closeWrite => 3 * s.server.resBuffer.length + 24
  | .wait => 3 * s.server.resBuffer.length + 23
  | .realloc => 3 * s.server.resBuffer.length + 22
  | .readTube => 3 * s.server.resBuffer.length + 21
  | .closeRead => 3 * s.server.resBuffer.length + 17
  | .send site =>
    if s.sending then s.exchange.sender.rank + 4 else 3 * (s.server.message site).length + 16
  | .kill => 2
  | .remove => 1
  | .ended => 0

/-- How many lines the server has yet to read. -/
def State.unread (s : State) : Nat := s.asked.length - (Handler.requests s.server.log).length

/-- How many calls all of them have before them, at most. -/
def State.rank (s : State) : Nat := s.clientRank + s.serverRank + 98 * s.unread

/-- How many calls an event makes room for: a line those of its round, and the output
of the command those that carry it. -/
def Event.allows : Event → Nat
  | .types _ => 115
  | .serves (.data chunk) => 5 * chunk.length
  | _ => 0

/-- A call of the client's. -/
theorem rank_of_client (less : s'.clientRank + 1 ≤ s.clientRank) (server : s'.serverRank = s.serverRank)
    (unread : s'.unread = s.unread) : s'.rank + 1 ≤ s.rank := by
  rw [State.rank, State.rank, server, unread]
  omega

/-- A call of the server's or of its child's. -/
theorem rank_of_server {n : Nat} (client : s'.clientRank = s.clientRank)
    (less : s'.serverRank + 1 ≤ s.serverRank + n) (unread : s'.unread = s.unread) :
    s'.rank + 1 ≤ s.rank + n := by
  rw [State.rank, State.rank, client, unread]
  omega

theorem rank_sendRequest {h h' : Requester} {f f' : Fifo Handler.Request} {answer : Answer}
    (moved : sendRequest h f answer = some (h', f')) : requesterRank h' < requesterRank h := by
  unfold sendRequest at moved
  split at moved <;>
    simp only [Option.map_eq_some_iff, Option.ite_none_right_eq_some, Option.some.injEq, Prod.mk.injEq,
      reduceCtorEq] at moved <;>
    grind [requesterRank, Requester.exit, Requester.return]

/-- The child keeps its response. -/
theorem res_sendResponse {x x' : Sender} {f f' : Fifo Byte} {answer : Answer} {chunk : List Byte}
    (moved : sendResponse x f answer = some (x', f', chunk)) : x'.res = x.res := by
  unfold sendResponse at moved
  grind [Option.map_eq_some_iff, Sender.exit, Sender.loop, Sender.count]

theorem Lockstep.incoming_idle (lock : Lockstep s) (idle : s.client.busy = false) :
    s.incoming.size = 0 := by
  obtain ⟨-, -, even, -⟩ := lock.idle idle
  have asked := lock.askCount
  have served := lock.serveCount
  have read := congrArg List.length even
  simp only [idle, Bool.false_eq_true, if_false, List.length_map] at asked read
  rw [State.incoming, if_neg (by omega)]

theorem clientRank_idle (idle : s.client.busy = false) : s.clientRank = 0 := by
  unfold State.clientRank
  cases here : s.client <;> simp_all [ClientPc.busy]

theorem loopTest_idle (s : State) : s.loopTest.client.busy = false := by
  unfold State.loopTest
  split <;> rfl

theorem Lockstep.rank_types (lock : Lockstep s) {line : Line} (stepped : step s (.types line) = some s') :
    s'.rank + 1 ≤ s.rank + 115 := by
  simp only [step] at stepped
  split at stepped
  case isFalse => cases stepped
  case isTrue here =>
  split at stepped
  · cases stepped
    have client := clientRank_idle (loopTest_idle { s with line := line })
    show State.clientRank { s with line := line }.loopTest + s.serverRank + 98 * s.unread + 1 ≤ _
    rw [client, State.rank]
    omega
  · cases stepped
    have short := lock.incoming_idle (by simp [ClientPc.busy, here])
    have listener : s.exchange.listener.rank s.incoming = 8 := by
      simp [Listener.rank, lock.unheard (by simp [here]), short]
    have more : (s.ask line).unread ≤ s.unread + 1 := by
      simp only [State.unread, State.ask, List.length_append, List.length_singleton]
      omega
    show 6 + (s.exchange.listener.rank s.incoming + 2) + s.serverRank + 98 * (s.ask line).unread + 1 ≤ _
    rw [listener, State.rank]
    omega

theorem Lockstep.rank_requests (lock : Lockstep s) {answer : Answer}
    (stepped : step s (.requests answer) = some s') : s'.rank + 1 ≤ s.rank := by
  simp only [step] at stepped
  split at stepped
  case h_2 => cases stepped
  case h_1 h child =>
  obtain ⟨⟨h', pipe⟩, moved, rfl⟩ := Option.map_eq_some_iff.mp stepped
  have less := rank_sendRequest moved
  have waits := lock.waits.mp (by simp [child])
  have before : s.clientRank = requesterRank h + (s.exchange.listener.rank s.incoming + 2) := by
    simp [State.clientRank, waits, child]
  have after : State.clientRank { s with requester := some h', requestPipe := pipe } =
      requesterRank h' + (s.exchange.listener.rank s.incoming + 2) := by
    simp only [State.clientRank, waits, Option.elim_some]
    rfl
  exact rank_of_client (by rw [after, before]; omega) rfl rfl

theorem rank_requested (stepped : step s .requested = some s') : s'.rank + 1 ≤ s.rank := by
  simp only [step] at stepped
  split at stepped
  case h_2 => cases stepped
  case h_1 code req here child =>
  cases stepped
  have before : s.clientRank = s.exchange.listener.rank s.incoming + 2 := by
    simp [State.clientRank, here, child, requesterRank]
  have after : State.clientRank { s with
      requester := none
      client := if sendResult (exitStatus code) ≤ 0 then .left else .listens } ≤
        s.exchange.listener.rank s.incoming + 1 := by
    unfold State.clientRank
    split_ifs
    · exact Nat.zero_le _
    · exact Nat.le_refl _
  exact rank_of_client (by omega) rfl rfl

theorem Lockstep.rank_listens (lock : Lockstep s) {answer : Answer}
    (smooth : (Event.listens answer).smooth = true)
    (stepped : step s (.listens answer) = some s') : s'.rank + 1 ≤ s.rank := by
  simp only [step] at stepped
  split at stepped
  case isFalse => cases stepped
  case isTrue here =>
  rw [smooth_listens] at smooth
  obtain ⟨x, moved, rfl⟩ := Option.map_eq_some_iff.mp stepped
  simp only [ResponsePipe.step, Option.map_eq_some_iff] at moved
  obtain ⟨⟨l', f', chunk⟩, moved, rfl⟩ := moved
  have less : l'.rank s.incoming < s.exchange.listener.rank s.incoming := by
    cases lock.response with
    | resting _ _ empty _ _ listener gone =>
      rcases listener with opens | selects
      · cases answer <;> simp [listenResponse, opens, ResponsePipe.Event.smooth] at moved smooth
        obtain ⟨rfl, -, -⟩ := moved
        simp [Listener.rank, opens]
      · cases answer <;> simp [listenResponse, selects, ResponsePipe.Event.smooth] at moved smooth
        obtain ⟨selectable, -⟩ := moved
        have late := gone selects
        simp [Fifo.selectable, empty] at selectable
        omega
    | moving prev last sends ahead transfer =>
      have same : s.incoming = last.res := by
        rw [State.incoming, if_pos (by simp [sends, ahead]), transfer.sender.1]
      rw [same]
      exact ResponsePipe.rank_listens transfer smooth moved
    | closing res old consumed even busy =>
      have := lock.listening_alone here busy
      omega
  have before : s.clientRank = s.exchange.listener.rank s.incoming + 1 := by
    simp [State.clientRank, here]
  have after : State.clientRank { s with exchange := { s.exchange with
      listener := l', fifo := f', consumed := s.exchange.consumed ++ chunk } } =
        l'.rank s.incoming + 1 := by
    simp only [State.clientRank, here]
    rfl
  exact rank_of_client (by rw [after, before]; omega) rfl rfl

theorem rank_answered {cell : CharArray SIZEOF_SIZE_T}
    (stepped : step s (.answered cell) = some s') : s'.rank + 1 ≤ s.rank := by
  simp only [step] at stepped
  split at stepped
  case h_2 => cases stepped
  case h_1 r here returned =>
  cases stepped
  have before : s.clientRank = 1 := by simp [State.clientRank, here, Listener.rank, returned]
  have after : (s.answer r cell).clientRank = 0 := by
    refine clientRank_idle ?_
    unfold State.answer
    split
    · rfl
    · exact loopTest_idle _
  have rest : (s.answer r cell).serverRank = s.serverRank ∧ (s.answer r cell).unread = s.unread := by
    unfold State.answer
    split <;> exact ⟨rfl, rfl⟩
  exact rank_of_client (by rw [after, before]) rest.1 rest.2

theorem rank_joins (stepped : step s .joins = some s') : s'.rank + 1 ≤ s.rank := by
  simp only [step] at stepped
  split at stepped
  case h_2 => cases stepped
  case h_1 again here free =>
  cases stepped
  have before : s.serverRank = 3 := by simp [State.serverRank, here, free]
  have after : State.serverRank { s with
      joined := some s.requestPipe.writeCloses, requestPipe := s.requestPipe.joinRead } = 2 := by
    simp [State.serverRank, here]
  exact rank_of_server (n := 0) rfl (by rw [after, before]) rfl

/-- A reader that has read nothing counts two calls for each byte of the message. -/
theorem rank_of_early (l : Listener) (res res' : Response) (shorter : res.size = 0)
    (early : l.pc = .open ∨ l.pc = .select) : l.rank res' = l.rank res + 2 * res'.size := by
  rcases early with here | here <;> simp [Listener.rank, here, shorter] <;> omega

theorem Lockstep.rank_forks (lock : Lockstep s) (stepped : step s .forks = some s') :
    s'.rank + 1 ≤ s.rank := by
  simp only [step] at stepped
  split at stepped
  case h_2 => cases stepped
  case h_1 site here free =>
  obtain ⟨msg, found, rfl⟩ := Option.map_eq_some_iff.mp stepped
  have string : msg.bytes = s.server.message site := by
    unfold CString.of at found
    split at found
    · cases found; rfl
    · cases found
  have size : (makeResponse msg s.maxSize).size ≤ (s.server.message site).length + 1 := by
    rw [← string]
    show responseSize msg s.maxSize ≤ _
    unfold responseSize
    split <;> omega
  have before : s.serverRank = 3 * (s.server.message site).length + 16 := by
    simp [State.serverRank, here, free]
  have after : (s.fork msg).serverRank = (makeResponse msg s.maxSize).size + 7 + 4 := by
    simp [State.serverRank, State.fork, here, Sender.rank]
  have client : (s.fork msg).clientRank ≤ s.clientRank + 2 * (makeResponse msg s.maxSize).size := by
    cases lock.response with
    | resting even _ _ _ _ listener =>
      have none : s.incoming.size = 0 := by rw [State.incoming, if_neg (by omega)]
      have begun : (s.fork msg).incoming = makeResponse msg s.maxSize := by
        rw [State.incoming, if_pos (by simp [State.fork, even])]
        rfl
      have reader := rank_of_early s.exchange.listener s.incoming (s.fork msg).incoming none listener
      rw [begun] at reader
      unfold State.clientRank
      rw [begun]
      cases client : s.client <;> simp only [State.fork, client, reader] <;> omega
    | moving prev last sends ahead =>
      -- two responses ahead of the client would be one more than it asked for
      have asked := lock.askCount
      have bounds := lock.request.count
      have served : (Handler.requests s.server.log).length = s.sent.length + 1 := by
        simpa [owes, here, free] using lock.serveCount
      have length : s.sent.length = s.answers.length + 1 := by simp [sends, ahead]
      split at asked <;> omega
    | closing _ _ _ _ busy => simp [free] at busy
  have unread : (s.fork msg).unread = s.unread := rfl
  rw [State.rank, State.rank, after, before, unread]
  omega

theorem Lockstep.rank_sends (lock : Lockstep s) {answer : Answer}
    (smooth : (Event.sends answer).smooth = true)
    (stepped : step s (.sends answer) = some s') : s'.rank + 1 ≤ s.rank := by
  simp only [step] at stepped
  split at stepped
  case isFalse => cases stepped
  case isTrue busy =>
  rw [smooth_sends] at smooth
  obtain ⟨x, moved, rfl⟩ := Option.map_eq_some_iff.mp stepped
  simp only [ResponsePipe.step, Option.map_eq_some_iff] at moved
  obtain ⟨⟨s', f', chunk⟩, moved, rfl⟩ := moved
  obtain ⟨past, serving⟩ := lock.serving
  obtain ⟨site, here⟩ := serving.sends busy
  have less := ResponsePipe.rank_sends smooth moved
  have same : State.incoming { s with exchange := { s.exchange with
      sender := s', fifo := f', written := s.exchange.written ++ chunk } } = s.incoming := by
    simp only [State.incoming, res_sendResponse moved]
  have before : s.serverRank = s.exchange.sender.rank + 4 := by
    simp [State.serverRank, here, busy]
  have after : State.serverRank { s with exchange := { s.exchange with
      sender := s', fifo := f', written := s.exchange.written ++ chunk } } = s'.rank + 4 := by
    simp [State.serverRank, here, busy]
  have client : State.clientRank { s with exchange := { s.exchange with
      sender := s', fifo := f', written := s.exchange.written ++ chunk } } = s.clientRank := by
    simp only [State.clientRank, same]
  exact rank_of_server (n := 0) client (by rw [after, before]; omega) rfl

/-- The calls of the server that no pipe knows of. Each byte of the output that it
takes in is sent, written and read later. -/
theorem Lockstep.rank_works (lock : Lockstep s) {server : Handler.Session} (here : inner s.server = true)
    (smooth : (Event.serves reply).smooth = true)
    (stepped : Handler.step s.server reply = some server) :
    State.rank { s with server := server } + 1 ≤ s.rank + (Event.serves reply).allows := by
  obtain ⟨past, serving⟩ := lock.serving
  have unread : State.unread { s with server := server } = s.unread := by
    rw [State.unread, State.unread, (serving.works here smooth stepped).2.1]
  have work : State.serverRank { s with server := server } + 1 ≤
      s.serverRank + (Event.serves reply).allows := by
    obtain ⟨-, place⟩ := serving
    cases stands : s.server.pc with
    | listenOpen again | listenRead again | listenClose again | send site => simp [inner, stands] at here
    | kill => simp [stands] at place
    | ended => cases reply <;> simp [Handler.step, stands] at stepped
    | closeRead =>
      simp only [stands] at place
      cases reply <;> simp [Handler.step, stands, Event.smooth] at stepped smooth
      subst stepped
      have string := cstr_length_le s.server.resBuffer
      simp [State.serverRank, stands, place.2.1, Handler.Session.message, Event.allows]
      omega
    | readTube =>
      cases reply <;> simp [Handler.step, stands, Event.smooth] at stepped smooth
      case ok =>
        subst stepped
        simp [State.serverRank, stands, Event.allows]
        omega
      case data chunk =>
        obtain ⟨some, rfl⟩ := stepped
        have more := some.1
        simp [State.serverRank, stands, Event.allows]
        omega
    | _ =>
      cases reply <;> simp [Handler.step, stands, Event.smooth] at stepped smooth
      subst stepped
      simp [State.serverRank, stands, Event.allows, Handler.Session.accumulate]
  exact rank_of_server rfl work unread

theorem Lockstep.rank_reads (lock : Lockstep s) {again : Bool} {req : Handler.Request}
    {server : Handler.Session} (here : s.server.pc = .listenRead again)
    (oldest : s.requestPipe.data.head? = some req)
    (stepped : Handler.step s.server (.frame req) = some server) :
    State.rank { s with server := server, requestPipe := s.requestPipe.drop 1 } + 1 ≤ s.rank := by
  have pending : (Handler.requests s.server.log).length + 1 = s.asked.length := by
    cases lock.request with
    | resting _ empty | coming _ _ _ _ empty | taken _ _ _ empty => simp [empty] at oldest
    | inside _ next => simpa using congrArg List.length next
  simp only [Handler.step, here, Option.some.injEq] at stepped
  subst stepped
  have before : s.serverRank = 1 ∧ s.unread = 1 := by
    simp [State.serverRank, here, State.unread, ← pending]
  have read : (Handler.requests (s.server.log ++ [.received req.cmd.string])).length = s.asked.length := by
    rw [Handler.requests_append, List.length_append, ← pending]
    rfl
  rw [State.rank, State.rank, before.1, before.2]
  show s.clientRank + 98 + 98 * (s.asked.length -
    (Handler.requests (s.server.log ++ [.received req.cmd.string])).length) + 1 ≤ _
  rw [read]
  omega

theorem Lockstep.rank_closes (lock : Lockstep s) {again : Bool} {server : Handler.Session}
    (here : s.server.pc = .listenClose again) (stepped : Handler.step s.server .ok = some server) :
    State.rank { s with server := server, requestPipe := s.requestPipe.leaveRead } + 1 ≤ s.rank := by
  obtain ⟨past, -, place⟩ := lock.serving
  simp only [here] at place
  simp only [Handler.step, here, Option.some.injEq] at stepped
  subst stepped
  have before : s.serverRank = 98 := by simp [State.serverRank, here]
  have log : s.server.loopTest.log = s.server.log := rfl
  have after : State.serverRank { s with
      server := s.server.loopTest, requestPipe := s.requestPipe.leaveRead } ≤ 97 := by
    have goodbye : (bytes "Déconnexion du serveur...\n").length = 27 := by decide
    unfold Handler.Session.loopTest
    split <;> simp [State.serverRank, place.2, Handler.Session.message, goodbye]
  exact rank_of_server (n := 0) rfl (by rw [before]; omega) rfl

theorem Lockstep.rank_collects (lock : Lockstep s) {site : Handler.Site} {r : Int}
    {server : Handler.Session} (here : s.server.pc = .send site) (busy : s.sending = true)
    (stepped : Handler.step s.server (.sent r) = some server) :
    State.rank { s with server := server, sending := false } + 1 ≤ s.rank := by
  obtain ⟨past, -, place⟩ := lock.serving
  have free : s.joined = none := lock.unjoined fun again opens => by simp [here] at opens
  have before : 4 ≤ s.serverRank := by simp [State.serverRank, here, busy]
  simp only [Handler.step, here, Option.some.injEq] at stepped
  have log : Handler.requests server.log = Handler.requests s.server.log := by
    rw [← stepped]
    show Handler.requests (if 0 < r then s.server.log ++ [.responded (s.server.message site)]
      else s.server.log) = _
    split
    · exact (Handler.requests_append ..).trans (List.append_nil _)
    · rfl
  have after : State.serverRank { s with server := server, sending := false } ≤ 3 := by
    subst stepped
    cases site <;> simp only [here] at place
    · unfold Handler.Session.afterSend
      simp only
      split_ifs <;> simp [State.serverRank, free]
    · simp [State.serverRank, Handler.Session.afterSend]
  have unread : State.unread { s with server := server, sending := false } = s.unread := by
    rw [State.unread, State.unread, log]
  exact rank_of_server (n := 0) rfl (by omega) unread

theorem Lockstep.rank_serves (lock : Lockstep s) (smooth : (Event.serves reply).smooth = true)
    (served : serve s reply = some s') : s'.rank + 1 ≤ s.rank + (Event.serves reply).allows := by
  cases here : s.server.pc with
  | listenOpen again =>
    cases reply with
    | ok =>
      simp only [serve, here, Option.mem_def, Option.ite_none_right_eq_some,
        Option.map_eq_some_iff] at served
      obtain ⟨⟨gone, joined, -⟩, server, stepped, rfl⟩ := served
      simp only [Handler.step, here, Option.some.injEq] at stepped
      subst stepped
      have before : s.serverRank = 2 := by simp [State.serverRank, here, joined]
      exact rank_of_server rfl (by rw [before]; exact Nat.le_refl _) rfl
    | fail => cases smooth
    | _ => simp [serve, here, Handler.step] at served
  | listenRead again =>
    cases reply with
    | frame req =>
      simp only [serve, here, Option.ite_none_right_eq_some, Option.map_eq_some_iff] at served
      obtain ⟨oldest, server, stepped, rfl⟩ := served
      exact lock.rank_reads here oldest stepped
    | eof garbage =>
      simp only [serve, here, Option.ite_none_right_eq_some] at served
      have stays := lock.not_ended here served.1.1
      simp [stays] at served
    | fail => cases smooth
    | _ => simp [serve, here, Handler.step] at served
  | listenClose again =>
    cases reply with
    | ok =>
      simp only [serve, here, Option.map_eq_some_iff] at served
      obtain ⟨server, stepped, rfl⟩ := served
      exact lock.rank_closes here stepped
    | fail => cases smooth
    | _ => simp [serve, here, Handler.step] at served
  | send site =>
    cases reply with
    | sent r =>
      simp only [serve, here] at served
      split at served
      case h_2 => cases served
      case h_1 code busy exited =>
      simp only [Option.ite_none_right_eq_some, Option.map_eq_some_iff] at served
      obtain ⟨-, server, stepped, rfl⟩ := served
      exact lock.rank_collects here busy stepped
    | _ => simp [serve, here, Handler.step] at served
  | _ =>
    simp only [serve, here, Option.map_eq_some_iff] at served
    obtain ⟨server, stepped, rfl⟩ := served
    exact lock.rank_works (by simp [inner, here]) smooth stepped

/-- Every call uses up one of those that were allowed. -/
theorem Lockstep.rank_step (lock : Lockstep s) (smooth : event.smooth = true)
    (stepped : step s event = some s') : s'.rank + 1 ≤ s.rank + event.allows := by
  cases event with
  | types line => exact lock.rank_types stepped
  | requests answer => exact lock.rank_requests stepped
  | requested => exact rank_requested stepped
  | listens answer => exact lock.rank_listens smooth stepped
  | answered cell => exact rank_answered stepped
  | joins => exact rank_joins stepped
  | forks => exact lock.rank_forks stepped
  | serves reply => exact lock.rank_serves smooth stepped
  | sends answer => exact lock.rank_sends smooth stepped

/-! ## Every run -/

theorem flowing_start {maxSize : Int} {requestCapacity responseCapacity : Nat}
    (requestRoom : 0 < requestCapacity) (responseRoom : PIPE_BUF ≤ responseCapacity) (line : Line)
    (buffer : CharArray (Handler.MAX_COMMAND_LENGTH + 1)) (cell : CharArray SIZEOF_SIZE_T) :
    Flowing (start maxSize requestCapacity responseCapacity line buffer cell) where
  lock := lockstep_start ..
  requestRoom := requestRoom
  responseRoom := responseRoom
  arrived := fun _ waits => by cases waits

/-- Along a run the session keeps flowing, and every event is one of the calls that
those before it allowed. -/
theorem flowing_run {maxSize : Int} {requestCapacity responseCapacity : Nat}
    (requestRoom : 0 < requestCapacity) (responseRoom : PIPE_BUF ≤ responseCapacity) {line : Line}
    {buffer : CharArray (Handler.MAX_COMMAND_LENGTH + 1)} {cell : CharArray SIZEOF_SIZE_T}
    {events : List Event} (smooth : ∀ event ∈ events, event.smooth = true)
    (ran : run step (start maxSize requestCapacity responseCapacity line buffer cell) events = some s) :
    Flowing s ∧ events.length + s.rank ≤ 3 + (events.map Event.allows).sum := by
  have along : Along step (fun _ event => event.smooth = true)
      (start maxSize requestCapacity responseCapacity line buffer cell) events :=
    along_of_forall fun _ event member => smooth event member
  have initial : Flowing (start maxSize requestCapacity responseCapacity line buffer cell) ∧
      ([] : List Event).length + 3 ≤ 3 + (([] : List Event).map Event.allows).sum :=
    ⟨flowing_start requestRoom responseRoom line buffer cell, Nat.le_refl _⟩
  have held := run_history_along
    (motive := fun past s => Flowing s ∧ past.length + s.rank ≤ 3 + (past.map Event.allows).sum)
    (fun past before event after held smooth stepped => ?_) initial along ran
  · simpa using held
  · obtain ⟨flowing, calls⟩ := held
    have less := flowing.lock.rank_step smooth stepped
    refine ⟨flowing_move flowing (move_of_step smooth stepped), ?_⟩
    simp only [List.length_append, List.length_singleton, List.map_append, List.map_singleton,
      List.sum_append, List.sum_singleton]
    omega

/-- Where a session has settled every line has its response, in the order of the lines,
and the client has got them all. -/
theorem Lockstep.all_answered (lock : Lockstep s) (settled : Settled s) :
    s.sent.map Sent.cmd = s.asked.map Line.bytes ∧
      s.answers = s.sent.map (fun sent => some (received sent.res)) ∧
      s.requestPipe.data = [] ∧ s.exchange.fifo.data = [] := by
  have idle := settled.idle
  have free := lock.settled_free settled
  obtain ⟨-, empty, even, -⟩ := lock.idle idle
  obtain ⟨past, serving⟩ := lock.serving
  have asked := lock.askCount
  have served := lock.serveCount
  have bounds := lock.response.count
  have read := congrArg List.length even
  simp only [idle, Bool.false_eq_true, if_false, List.length_map] at asked read
  have whole : s.sent.length = s.answers.length := by omega
  refine ⟨?_, lock.got.eq_of_length (by simp [whole]), empty, ?_⟩
  · rw [← even]
    exact serving.ordered.eq_of_length (by simp; omega)
  · cases lock.response with
    | resting _ _ empty => exact empty
    | moving prev last sends ahead =>
      have : s.sent.length = prev.length + 1 := by simp [sends]
      omega
    | closing _ _ _ _ busy => simp [free] at busy

/-- **A session comes to rest.** Whatever the lines typed, whatever the commands print
before they end, and however the steps of both sides are interleaved, when no call
fails, the tube between a command and the handler being no part of this and the handler's
`wait` for the command being taken to return: a run has at most three calls, 115 for each line and five for each byte of
output. Nobody can go on if and only if the client asks for a line and the server waits
for it, or both have ended, as long as memory has room for the output; and then every
line has got its response, and nothing is left in the pipes. -/
theorem sessions_come_to_rest {maxSize : Int} {requestCapacity responseCapacity : Nat}
    (requestRoom : 0 < requestCapacity) (responseRoom : PIPE_BUF ≤ responseCapacity) {line : Line}
    {buffer : CharArray (Handler.MAX_COMMAND_LENGTH + 1)} {cell : CharArray SIZEOF_SIZE_T}
    {events : List Event} (smooth : ∀ event ∈ events, event.smooth = true)
    (ran : run step (start maxSize requestCapacity responseCapacity line buffer cell) events = some s) :
    events.length ≤ 3 + (events.map Event.allows).sum ∧
      (s.server.resBuffer.length < OBJECT_MAX → (Resting s ↔ Settled s)) ∧
      (Settled s → s.sent.map Sent.cmd = s.asked.map Line.bytes ∧
        s.answers = s.sent.map (fun sent => some (received sent.res)) ∧
        s.requestPipe.data = [] ∧ s.exchange.fifo.data = []) := by
  obtain ⟨flowing, calls⟩ := flowing_run requestRoom responseRoom smooth ran
  refine ⟨by omega, fun block => ⟨fun resting => ?_, ?_⟩, flowing.lock.all_answered⟩
  · exact flowing.settled resting block
  · exact flowing.lock.resting

/-- Two lines, and the server removes its client. -/
def pwdAndEnd : List Event := pwdAndExit ++ [.serves .ok]

theorem sessions_come_to_rest_pwd_and_end : ∃ s,
    run step (start (-1) 1 PIPE_BUF pwdLine (.empty _) (.empty _)) pwdAndEnd = some s ∧
      Resting s ∧ s.client = .left ∧ s.sent.map Sent.cmd = [bytes "pwd", bytes "exit"] := by
  have computed : (run step (start (-1) 1 PIPE_BUF pwdLine (.empty _) (.empty _)) pwdAndEnd).map
      (fun s => (s.asked, s.client, s.server.pc, s.server.resBuffer)) =
        some ([pwdLine, exitLine], .left, .ended, directory ++ [0]) := by
    decide +kernel
  obtain ⟨s, ran, same⟩ := Option.map_eq_some_iff.mp computed
  simp only [Prod.mk.injEq] at same
  obtain ⟨asked, left, ended, output⟩ := same
  have settled : Settled s := .inr ⟨left, ended⟩
  obtain ⟨-, rests, answered⟩ := sessions_come_to_rest (by decide) (Nat.le_refl _) (by decide) ran
  have block : s.server.resBuffer.length < OBJECT_MAX := by
    rw [output]
    decide
  refine ⟨s, ran, (rests block).mpr settled, left, ?_⟩
  rw [(answered settled).1, asked]
  rfl

end LocalServer.ClientSession
