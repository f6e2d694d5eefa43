import LocalServer.SessionPhases

/-! Client and server go in step. Each side waits for the other before it can open
a pipe again, so nobody meets an end that is left over from the round before. -/
namespace LocalServer.ClientSession
open RequestPipe (Requester)
open Handler (requests executions)
open ResponsePipe Runs

/-- What holds between any two steps of a session. -/
structure Lockstep (s : State) : Prop where
  asking : ∃ prev, Asking s.client s.line s.asked s.answers.length prev
  serving : ∃ past, Serving s.server s.sending (s.sent.map Sent.cmd) past
  request : RequestPhase s.asked s.line s.requester s.requestPipe s.joined s.server
  response : ResponsePhase s.answers.length s.sent s.sending s.exchange
  got : s.answers <+: s.sent.map fun sent => some (received sent.res)
  made : ∀ sent ∈ s.sent, ∃ msg, sent.res = makeResponse msg s.maxSize
  waits : s.requester.isSome = true ↔ s.client = .waits
  unheard : s.client ≠ .listens → s.exchange.listener.pc = .open
  joined : s.joined.isSome = true → ∃ again, s.server.pc = .listenOpen again
  writeEnd : s.requestPipe.writeOpens =
    s.requestPipe.writeCloses + if s.requester.any Requester.holds then 1 else 0
  readEnd : s.requestPipe.readOpens =
    s.requestPipe.readCloses + if reading s.joined s.server then 1 else 0

variable {s s' : State} {again : Bool}

/-! ## Who can be where -/

theorem Lockstep.askCount (lock : Lockstep s) :
    s.asked.length = s.answers.length + if s.client.busy then 1 else 0 :=
  let ⟨_, asking⟩ := lock.asking
  asking.count

theorem Lockstep.serveCount (lock : Lockstep s) :
    (requests s.server.log).length = s.sent.length + if owes s.server s.sending then 1 else 0 := by
  obtain ⟨past, serving⟩ := lock.serving
  simpa using serving.count

/-- At the prompt, and once it has left, the client's requests are all answered. -/
theorem Lockstep.idle (lock : Lockstep s) (idle : s.client.busy = false) :
    s.requester = none ∧ s.requestPipe.data = [] ∧
      requests s.server.log = s.asked.map Line.bytes ∧
      (∀ again, s.server.pc ≠ .listenRead again) ∧
      ∀ gone, s.joined = some gone → gone = s.requestPipe.writeCloses := by
  have asked := lock.askCount
  have served := lock.serveCount
  have sent := lock.response.count
  have child : s.requester.isSome = true → s.client.busy = true := fun child => by
    simp [ClientPc.busy, lock.waits.mp child]
  simp only [idle, Bool.false_eq_true, if_false] at asked child
  cases lock.request with
  | resting free empty even unread gone => exact ⟨free, empty, even, unread, gone⟩
  | coming h found | taken h found => simp [found] at child
  | inside _ next =>
    have length := congrArg List.length next
    simp only [List.length_append, List.length_singleton, List.length_map] at length
    omega

/-- While a request is not read, the server owes nothing. -/
theorem Lockstep.unread (lock : Lockstep s)
    (next : requests s.server.log ++ [s.line.bytes] = s.asked.map Line.bytes) :
    owes s.server s.sending = false ∧ s.sent.length = s.answers.length := by
  have asked := lock.askCount
  have served := lock.serveCount
  have sent := lock.response.count
  have length := congrArg List.length next
  simp only [List.length_append, List.length_singleton, List.length_map] at length
  split at asked <;> split at served <;> simp_all <;> omega

/-- The server waits in `open` only where it calls it. -/
theorem Lockstep.unjoined (lock : Lockstep s) (elsewhere : ∀ again, s.server.pc ≠ .listenOpen again) :
    s.joined = none := by
  by_contra waiting
  obtain ⟨again, opens⟩ := lock.joined (Option.isSome_iff_ne_none.mpr waiting)
  exact elsewhere again opens

/-! ## The steps of the client -/

theorem Lockstep.rejects (lock : Lockstep s) {line : Line} (here : s.client = .prompt)
    (unavailable : Commands.isCommandAvailable line.bytes = 0) :
    Lockstep { s with line := line }.loopTest := by
  have noExit : line.bytes ≠ EXIT := fun exits => by
    rw [exits] at unavailable
    exact absurd unavailable (by decide +kernel)
  have stays : { s with line := line }.loopTest = { s with line := line, client := .prompt } := by
    rw [State.loopTest, if_neg noExit]
  obtain ⟨prev, asking⟩ := lock.asking
  obtain ⟨free, empty, even, unread, gone⟩ := lock.idle (by simp [ClientPc.busy, here])
  rw [here] at asking
  rw [stays]
  exact { lock with
    asking := ⟨prev, asking⟩
    request := .resting free empty even unread gone
    waits := by simpa [here] using lock.waits
    unheard := fun _ => lock.unheard (by simp [here]) }

theorem Lockstep.asks (lock : Lockstep s) {line : Line} (here : s.client = .prompt) :
    Lockstep (s.ask line) := by
  obtain ⟨prev, asking⟩ := lock.asking
  obtain ⟨free, empty, even, unread, gone⟩ := lock.idle (by simp [ClientPc.busy, here])
  rw [here] at asking
  exact { lock with
    asking := ⟨prev, asking.1, by rw [State.ask, asking.2.1], asking.2.2⟩
    request := .coming _ rfl rfl rfl empty (by simp [State.ask, even]) gone
      (by simp [Requester.ofCommand]) (by simp [Requester.ofCommand])
      fun again reads => absurd reads (unread again)
    waits := by simp [State.ask]
    unheard := fun _ => lock.unheard (by simp [here])
    writeEnd := by simpa [State.ask, free, Requester.holds, Requester.ofCommand] using lock.writeEnd }

theorem Lockstep.requested (lock : Lockstep s) {h : Requester} {code : Int}
    (here : s.client = .waits) (child : s.requester = some h) (exited : h.pc = .exited code) :
    Lockstep { s with requester := none
                      client := if sendResult (exitStatus code) ≤ 0 then .left else .listens } := by
  obtain ⟨prev, asking⟩ := lock.asking
  rw [here] at asking
  have notHeld : h.holds = false := by simp [Requester.holds, exited]
  have zero : late h → code = 0 := fun done => by simpa [late, exited] using done
  have free : ∀ h', s.requester = some h' → h' = h := fun h' found =>
    Option.some.inj (found.symm.trans child)
  have done : code = 0 ∧ RequestPhase s.asked s.line none s.requestPipe s.joined s.server := by
    cases lock.request with
    | resting free => simp [free] at child
    | coming h' found early =>
      rw [free h' found] at early
      simp [Requester.early, exited] at early
    | inside frame next done there =>
      exact ⟨zero (done h child), .inside frame next (by simp) there⟩
    | taken h' found done empty even works =>
      rw [free h' found] at done
      refine ⟨zero done, .resting rfl empty even (fun again reads => ?_) fun gone waits => ?_⟩
      · simp [listening, reads] at works
      · obtain ⟨again, opens⟩ := lock.joined (by simp [waits])
        simp [listening, opens] at works
  obtain ⟨rfl, request⟩ := done
  exact { lock with
    asking := ⟨prev, asking⟩
    request := request
    waits := by simp [sendResult, exitStatus]
    unheard := fun left => absurd rfl left
    writeEnd := by simpa [child, notHeld] using lock.writeEnd }

/-- While a record is coming and the server has opened the pipe, it has not read yet. -/
theorem Lockstep.opened (lock : Lockstep s)
    (next : requests s.server.log ++ [s.line.bytes] = s.asked.map Line.bytes)
    (reads : reading s.joined s.server = true) :
    s.joined.isSome = true ∨ ∃ again, s.server.pc = .listenRead again := by
  have settled := (lock.unread next).1
  cases here : s.server.pc <;> simp_all [reading, owes]

theorem Lockstep.requests (lock : Lockstep s) {h h' : Requester} {pipe : Fifo Handler.Request}
    (here : s.requester = some h) (moved : RequestPipe.Move h s.requestPipe h' pipe) :
    Lockstep { s with requester := some h', requestPipe := pipe } := by
  have writeEnd := lock.writeEnd
  have readEnd := lock.readEnd
  have waits : (some h').isSome = true ↔ s.client = .waits := by simpa [here] using lock.waits
  have only : ∀ h', s.requester = some h' → h' = h := fun h' found =>
    Option.some.inj (found.symm.trans here)
  rw [here, Option.any_some] at writeEnd
  have early : h.early = true → h.req = Handler.Request.ofCommand s.line.bytes ∧
      s.requestPipe.data = [] ∧ Handler.requests s.server.log ++ [s.line.bytes] = s.asked.map Line.bytes ∧
      (∀ gone, s.joined = some gone → gone = s.requestPipe.writeCloses) ∧
      (∀ gone, h.pc = .opening gone → gone = s.requestPipe.readCloses) ∧
      (h.pc = .write → reading s.joined s.server = true) ∧
      ∀ again, s.server.pc = .listenRead again → h.holds = true := by
    intro before
    cases lock.request with
    | resting free => simp [free] at here
    | coming h' found _ frame empty next gone opening write read =>
      cases only h' found
      exact ⟨frame, empty, next, gone, opening, write, read⟩
    | inside frame next done => exact absurd before (by simp [(done h here).not_early])
    | taken h' found done =>
      cases only h' found
      exact absurd before (by simp [done.not_early])
  cases moved with
  | prepares h' same before after free still =>
    obtain ⟨frame, empty, next, gone, -, -, read⟩ := early before
    exact { lock with
      request := .coming h' rfl after (same.trans frame) empty next gone
        (fun gone opens => by simp [Requester.holds, opens] at still)
        (fun writes => by simp [Requester.holds, writes] at still)
        fun again reads => absurd (read again reads) (by simp [free])
      waits := waits
      writeEnd := by simpa [free, still] using writeEnd
      readEnd := readEnd }
  | calls h' same before free there =>
    obtain ⟨frame, empty, next, gone, -⟩ := early before
    have holds : h'.holds = true := by simp [Requester.holds, there]
    exact { lock with
      request := .coming h' rfl (by simp [Requester.early, there]) (same.trans frame) empty next gone
        (fun gone opens => by rw [there] at opens; exact (RequestPipe.RequesterPc.opening.inj opens).symm)
        (by simp [there]) fun _ _ => holds
      waits := waits
      writeEnd := by simpa [Fifo.joinWrite, holds, free] using writeEnd
      readEnd := readEnd }
  | opens gone h' same stands there opened =>
    obtain ⟨frame, empty, next, closed, opening, write, read⟩ :=
      early (by simp [Requester.early, stands])
    have held : reading s.joined s.server = true := by
      by_contra notHeld
      rw [if_neg notHeld, ← opening gone stands] at readEnd
      omega
    exact { lock with
      request := .coming h' rfl (by simp [Requester.early, there]) (same.trans frame) empty next
        closed (by simp [there]) (fun _ => held) fun again reads => by simp [Requester.holds, there]
      waits := waits
      writeEnd := by simpa [Requester.holds, there, stands] using writeEnd
      readEnd := readEnd }
  | writes h' f' stands there wrote =>
    obtain ⟨frame, empty, next, closed, opening, write, read⟩ :=
      early (by simp [Requester.early, stands])
    subst wrote
    exact { lock with
      request := .inside (by simp [empty, frame]) next
        (fun h'' found => by cases found; exact .inl there) (lock.opened next (write stands))
      waits := waits
      writeEnd := by simpa [Requester.holds, there, stands] using writeEnd
      readEnd := readEnd }
  | closes h' stands there =>
    have done : late h' := .inr there
    have request : RequestPhase s.asked s.line (some h') s.requestPipe.leaveWrite s.joined s.server := by
      cases lock.request with
      | resting free => simp [free] at here
      | coming h' found before =>
        cases only h' found
        simp [Requester.early, stands] at before
      | inside frame next _ opened =>
        have held : reading s.joined s.server = true := by
          rcases opened with waiting | ⟨again, reads⟩
          · obtain ⟨again, opens⟩ := lock.joined waiting
            simp [reading, opens, waiting]
          · simp [reading, reads]
        rw [if_pos held] at readEnd
        refine .inside ?_ next (fun h'' found => by cases found; exact done) opened
        rw [← frame]
        exact Fifo.settle_data (.inl (by show s.requestPipe.readOpens ≠ s.requestPipe.readCloses; omega))
      | taken other found _ empty even works =>
        exact .taken h' rfl done (by rw [← empty]; exact Fifo.settle_data (.inr (.inr empty))) even works
    exact { lock with
      request := request
      waits := waits
      writeEnd := by
        simpa [Fifo.leaveWrite, Requester.holds, there, stands] using writeEnd
      readEnd := by simpa [Fifo.leaveWrite] using readEnd }

/-- While the client listens, no response of an earlier round is still being sent. -/
theorem Lockstep.listening_alone (lock : Lockstep s) (here : s.client = .listens)
    (busy : s.sending = true) : s.answers.length < s.sent.length := by
  have asked := lock.askCount
  have served := lock.serveCount
  have bounds := lock.response.count
  obtain ⟨past, serving⟩ := lock.serving
  obtain ⟨site, sends⟩ := serving.sends busy
  have free : s.requester = none := by
    by_contra child
    have := lock.waits.mp (Option.isSome_iff_ne_none.mpr child)
    simp [here] at this
  have read : (Handler.requests s.server.log).length = s.asked.length := by
    cases lock.request with
    | resting _ _ even => simpa using congrArg List.length even
    | coming h found | taken h found => simp [found] at free
    | inside _ _ _ opened =>
      rcases opened with waiting | ⟨again, reads⟩
      · obtain ⟨again, opens⟩ := lock.joined waiting
        simp [sends] at opens
      · simp [sends] at reads
  simp only [ClientPc.busy, here, owes, sends, busy] at asked served
  simp at asked served
  omega

theorem Lockstep.listens (lock : Lockstep s) {answer : Answer} {x : Exchange}
    (here : s.client = .listens) (smooth : (ResponsePipe.Event.listens answer).smooth = true)
    (stepped : ResponsePipe.step s.exchange (.listens answer) = some x) :
    Lockstep { s with exchange := x } := by
  have response : ResponsePhase s.answers.length s.sent s.sending x := by
    cases lock.response with
    | resting even idle empty writers readers listener gone fresh =>
      simp only [ResponsePipe.step, Option.map_eq_some_iff] at stepped
      obtain ⟨⟨l', f', chunk⟩, moved, rfl⟩ := stepped
      rcases listener with opens | selects
      · cases answer <;> simp [listenResponse, opens, ResponsePipe.Event.smooth] at moved smooth
        obtain ⟨rfl, rfl, rfl⟩ := moved
        refine .resting even idle empty writers ?_ (.inr rfl) (fun _ => writers.le) (by simp [fresh])
        simpa [Fifo.joinRead, Listener.holds, opens] using readers
      · -- `select` would have to report a pipe that nobody has written to
        cases answer <;> simp [listenResponse, selects, ResponsePipe.Event.smooth] at moved smooth
        obtain ⟨selectable, -⟩ := moved
        have late := gone selects
        simp [Fifo.selectable, empty] at selectable
        omega
    | moving prev last sends ahead transfer collected =>
      have same : x.sender = s.exchange.sender := by
        simp only [ResponsePipe.step, Option.map_eq_some_iff] at stepped
        obtain ⟨_, -, rfl⟩ := stepped
        rfl
      exact .moving prev last sends ahead (transfer_step transfer smooth stepped)
        fun idle => by rw [same]; exact collected idle
    | closing res old consumed even busy =>
      have := lock.listening_alone here busy
      omega
  exact { lock with
    response := response
    unheard := fun left => absurd here left }

theorem Lockstep.answered (lock : Lockstep s) {r : Int} {cell : CharArray SIZEOF_SIZE_T}
    (here : s.client = .listens) (returned : s.exchange.listener.pc = .returned r) :
    Lockstep (s.answer r cell) := by
  obtain ⟨prev, asking⟩ := lock.asking
  rw [here] at asking
  obtain ⟨noExit, asked, count⟩ := asking
  cases lock.response with
  | resting _ _ _ _ _ listener => rcases listener with opens | selects <;> simp_all
  | closing _ _ _ _ _ _ _ listener => simp [returned] at listener
  | moving before last sends ahead transfer collected =>
    have sound := transfer.listener
    rw [Listener.Sound, returned] at sound
    obtain ⟨rfl, buffer⟩ := sound
    have heard : s.exchange.listener.progress last.res = SIZEOF_SIZE_T + last.res.size := by
      simp [Listener.progress, returned]
    have readers := transfer.readEnd
    have answered : s.answer 1 cell = { s with
        client := if s.line.bytes = EXIT then .left else .prompt
        answers := s.answers ++ [s.exchange.listener.buffer]
        exchange := { s.exchange with listener := ⟨.open, 0, cell, 0, [], none⟩, consumed := [] } } := rfl
    rw [answered]
    refine { lock with asking := ?_, response := ?_, got := ?_, waits := ?_, unheard := fun _ => rfl }
    · by_cases exits : s.line.bytes = EXIT
      · exact ⟨prev, noExit, by rw [if_pos exits]; exact ⟨asked, by simp [count], exits⟩⟩
      · refine ⟨prev ++ [s.line], ?_, by rw [if_neg exits]; exact ⟨asked, by simp [count]⟩⟩
        simpa [or_imp, forall_and] using ⟨noExit, exits⟩
    · have even : s.sent.length = (s.answers ++ [s.exchange.listener.buffer]).length := by
        simp [sends, ahead]
      by_cases busy : s.sending = true
      · exact .closing last.res s.exchange.listener s.exchange.consumed even busy transfer returned rfl rfl
      · have ended := collected (by simpa using busy)
        refine .resting even (by simpa using busy) (transfer.emptied heard) ?_ ?_ (.inl rfl) (by simp) rfl
        · simpa [Sender.holds, ended] using transfer.writeEnd
        · simpa [Listener.holds, returned] using readers
    · rw [sends, List.map_append, buffer]
      have got := lock.got
      rw [sends, List.map_append] at got
      have whole : s.answers = before.map fun sent => some (received sent.res) :=
        (List.prefix_of_prefix_length_le got (List.prefix_append _ _) (by simp [ahead])).eq_of_length
          (by simp [ahead])
      rw [whole]
      simp
    · have free : s.requester.isSome = false := by
        by_contra child
        have := lock.waits.mp (Bool.of_not_eq_false child)
        simp [here] at this
      rw [free]
      split <;> simp

/-! ## The steps of the server -/

theorem Lockstep.joins (lock : Lockstep s) (here : s.server.pc = .listenOpen again)
    (free : s.joined = none) :
    Lockstep { s with joined := some s.requestPipe.writeCloses
                      requestPipe := s.requestPipe.joinRead } := by
  have readEnd := lock.readEnd
  have request : RequestPhase s.asked s.line s.requester s.requestPipe.joinRead
      (some s.requestPipe.writeCloses) s.server := by
    cases lock.request with
    | resting child empty even unread =>
      exact .resting child empty even unread fun gone waits => (Option.some.inj waits).symm
    | coming h child early frame empty next gone opening write read =>
      exact .coming h child early frame empty next (fun gone waits => (Option.some.inj waits).symm)
        opening (fun _ => by simp [reading, here]) read
    | inside _ _ _ opened => rcases opened with waiting | ⟨again, reads⟩ <;> simp_all
    | taken _ _ _ _ _ works => simp [listening, here] at works
  exact { lock with
    request := request
    joined := fun _ => ⟨again, here⟩
    writeEnd := lock.writeEnd
    readEnd := by simpa [Fifo.joinRead, reading, here, free] using readEnd }

theorem Lockstep.opens (lock : Lockstep s) {gone : Nat} {server : Handler.Session}
    (here : s.server.pc = .listenOpen again) (waiting : s.joined = some gone)
    (opened : gone < s.requestPipe.writeOpens) (stepped : Handler.step s.server .ok = some server) :
    Lockstep { s with server := server, joined := none } := by
  simp only [Handler.step, here, Option.some.injEq] at stepped
  subst stepped
  obtain ⟨past, serving⟩ := lock.serving
  have readEnd := lock.readEnd
  have writeEnd := lock.writeEnd
  have request : RequestPhase s.asked s.line s.requester s.requestPipe none
      { s.server with pc := .listenRead again } := by
    cases lock.request with
    | resting child _ _ _ closed =>
      have := closed gone waiting
      simp [child] at writeEnd
      omega
    | coming h child early frame empty next closed opening write =>
      refine .coming h child early frame empty next (by simp) opening (fun _ => rfl) fun _ _ => ?_
      -- the server got through because the child had come
      have := closed gone waiting
      rw [child, Option.any_some] at writeEnd
      by_contra held
      rw [if_neg held] at writeEnd
      omega
    | inside frame next done => exact .inside frame next done (.inr ⟨again, rfl⟩)
    | taken _ _ _ _ _ works => simp [listening, here] at works
  exact { lock with
    serving := ⟨past, serving.opens here⟩
    request := request
    joined := fun some => by cases some
    readEnd := by simpa [reading, here, waiting] using readEnd }

theorem Lockstep.reads (lock : Lockstep s) {req : Handler.Request} {server : Handler.Session}
    (here : s.server.pc = .listenRead again) (oldest : s.requestPipe.data.head? = some req)
    (stepped : Handler.step s.server (.frame req) = some server) :
    Lockstep { s with server := server, requestPipe := s.requestPipe.drop 1 } := by
  obtain ⟨past, serving⟩ := lock.serving
  obtain ⟨prev, asking⟩ := lock.asking
  have readEnd := lock.readEnd
  cases lock.request with
  | resting _ empty | coming _ _ _ _ empty | taken _ _ _ empty => simp [empty] at oldest
  | inside frame next done =>
    have found : Handler.Request.ofCommand s.line.bytes = req := by simpa [frame] using oldest
    subst found
    have string := RequestPipe.string_ofCommand s.line.noNul s.line.short.le
    simp only [Handler.step, here, Option.some.injEq] at stepped
    subst stepped
    have even : Handler.requests (s.server.log ++
        [.received (Handler.Request.ofCommand s.line.bytes).cmd.string]) = s.asked.map Line.bytes := by
      rw [Handler.requests_append, string, ← next]
      rfl
    have empty : (s.requestPipe.drop 1).data = [] := by simp [Fifo.drop, frame]
    have request : RequestPhase s.asked s.line s.requester (s.requestPipe.drop 1) s.joined
        { s.server with
          pc := .listenClose again
          reqBuffer := s.server.copy (Handler.Request.ofCommand s.line.bytes)
          log := s.server.log ++ [.received (Handler.Request.ofCommand s.line.bytes).cmd.string] } := by
      cases child : s.requester with
      | none =>
        refine .resting rfl empty even (by simp) fun gone waiting => ?_
        obtain ⟨again, opens⟩ := lock.joined (by simp [waiting])
        simp [here] at opens
      | some h => exact .taken h rfl (done h child) empty even rfl
    exact { lock with
      serving := ⟨past, serving.reads here rfl (Handler.string_copy ..) rfl⟩
      request := request
      joined := fun waiting => by
        obtain ⟨again, opens⟩ := lock.joined waiting
        simp [here] at opens
      writeEnd := lock.writeEnd
      readEnd := by simpa [Fifo.drop, reading, here] using readEnd }

/-- The server never reads the end of the file: it opens the pipe when the child
of this round has come, and the child stays until its record is in the pipe. -/
theorem Lockstep.not_ended (lock : Lockstep s) (here : s.server.pc = .listenRead again)
    (empty : s.requestPipe.data = []) : s.requestPipe.abandoned = false := by
  have writeEnd := lock.writeEnd
  cases lock.request with
  | resting _ _ _ unread => exact absurd here (unread again)
  | coming h child _ _ _ _ _ _ _ read =>
    rw [child, Option.any_some, if_pos (read again here)] at writeEnd
    simp [Fifo.abandoned, writeEnd]
  | inside frame => simp [frame] at empty
  | taken _ _ _ _ _ works => simp [listening, here] at works

theorem Lockstep.closes (lock : Lockstep s) {server : Handler.Session}
    (here : s.server.pc = .listenClose again) (stepped : Handler.step s.server .ok = some server) :
    Lockstep { s with server := server, requestPipe := s.requestPipe.leaveRead } := by
  simp only [Handler.step, here, Option.some.injEq] at stepped
  subst stepped
  obtain ⟨past, serving⟩ := lock.serving
  have readEnd := lock.readEnd
  have writeEnd := lock.writeEnd
  have next : (∀ again, s.server.loopTest.pc ≠ .listenRead again) ∧
      reading s.joined s.server.loopTest = s.joined.isSome ∧ listening s.server.loopTest = false := by
    unfold Handler.Session.loopTest
    split <;> simp [reading, listening]
  have free : s.joined = none := lock.unjoined fun again opens => by simp [here] at opens
  have unread : Handler.requests s.server.log ++ [s.line.bytes] ≠ s.asked.map Line.bytes :=
    fun next => by simpa [owes, here] using (lock.unread next).1
  have request : RequestPhase s.asked s.line s.requester s.requestPipe.leaveRead s.joined
      s.server.loopTest := by
    cases lock.request with
    | resting child empty even =>
      refine .resting child (Fifo.leaveRead_empty empty) even next.1 fun gone waiting => ?_
      simp [free] at waiting
    | coming h child early frame empty coming => exact absurd coming unread
    | inside frame coming => exact absurd coming unread
    | taken h child done empty even =>
      exact .taken h child done (Fifo.leaveRead_empty empty) even next.2.2
  exact { lock with
    serving := ⟨past, serving.closes here⟩
    request := request
    joined := fun waiting => by simp [free] at waiting
    writeEnd := by simpa [Fifo.leaveRead] using writeEnd
    readEnd := by
      rw [next.2.1, free]
      simpa [Fifo.leaveRead, reading, here] using readEnd }

theorem Lockstep.works (lock : Lockstep s) {reply : Handler.Reply} {server : Handler.Session}
    (here : inner s.server = true) (smooth : (Event.serves reply).smooth = true)
    (stepped : Handler.step s.server reply = some server) : Lockstep { s with server := server } := by
  obtain ⟨past, serving⟩ := lock.serving
  obtain ⟨served, same, after, idle⟩ := serving.works here smooth stepped
  have free : s.joined = none := lock.unjoined fun again opens => by simp [inner, opens] at here
  have before : reading none s.server = false := by
    cases stands : s.server.pc <;> simp_all [inner, reading]
  have readEnd := lock.readEnd
  have request := lock.request
  rw [free] at readEnd request
  exact { lock with
    serving := ⟨past, served⟩
    request := by rw [free]; exact request.works same before after fun _ _ => idle
    joined := fun waiting => by simp [free] at waiting
    readEnd := by rw [free, after, ← before]; exact readEnd }

/-! ## The steps of `send_response` -/

theorem Lockstep.forks (lock : Lockstep s) {site : Handler.Site} {msg : CString}
    (here : s.server.pc = .send site) (free : s.sending = false) : Lockstep (s.fork msg) := by
  obtain ⟨past, serving⟩ := lock.serving
  have asked := lock.askCount
  have served := lock.serveCount
  have bounds := lock.request.count
  have served' : (Handler.requests s.server.log).length = s.sent.length + 1 := by
    simpa [owes, here, free] using served
  have response : ResponsePhase s.answers.length (s.fork msg).sent true (s.fork msg).exchange := by
    cases lock.response with
    | resting even idle empty writers readers listener gone fresh =>
      exact .moving s.sent _ rfl even
        (transfer_fork msg s.maxSize empty writers readers listener gone fresh) (by simp)
    | moving prev last sends ahead =>
      -- two responses ahead of the client would be one more than it asked for
      have length : s.sent.length = s.answers.length + 1 := by simp [sends, ahead]
      split at asked <;> omega
    | closing res old consumed even busy => simp [free] at busy
  exact { lock with
    serving := ⟨past, by simpa [State.fork] using serving.forks here free⟩
    response := response
    got := lock.got.trans (by simp [State.fork])
    made := by
      simp only [State.fork, List.mem_append, List.mem_singleton]
      rintro sent (before | rfl)
      · exact lock.made sent before
      · exact ⟨msg, rfl⟩ }

theorem Lockstep.sends (lock : Lockstep s) {answer : Answer} {x : Exchange}
    (here : s.sending = true) (smooth : (ResponsePipe.Event.sends answer).smooth = true)
    (stepped : ResponsePipe.step s.exchange (.sends answer) = some x) :
    Lockstep { s with exchange := x } := by
  obtain ⟨⟨s', f', chunk⟩, moved, rfl⟩ := Option.map_eq_some_iff.mp stepped
  have response : ResponsePhase s.answers.length s.sent s.sending
      { s.exchange with sender := s', fifo := f', written := s.exchange.written ++ chunk } := by
    cases lock.response with
    | resting _ idle => simp [here] at idle
    | moving prev last sends ahead transfer =>
      exact .moving prev last sends ahead (transfer_step transfer smooth stepped)
        fun idle => by simp [here] at idle
    | closing res old consumed even busy transfer heard listener fresh =>
      -- the child does not know that the client has gone on
      refine .closing res old consumed even busy
        (transfer_step transfer smooth ?_) heard listener fresh
      simp [ResponsePipe.step, moved]
  exact { lock with
    response := response
    unheard := lock.unheard }

/-- As long as the client waits for the child of `send_request`, the child of
`send_response` finds no reader. -/
theorem Lockstep.not_sent (lock : Lockstep s) (child : s.requester.isSome = true)
    (even : Handler.requests s.server.log = s.asked.map Line.bytes)
    {site : Handler.Site} (here : s.server.pc = .send site) (busy : s.sending = true) {code : Int} :
    s.exchange.sender.pc ≠ .exited code := by
  intro exited
  have waits := lock.waits.mp child
  have opens := lock.unheard (by simp [waits])
  have asked := lock.askCount
  have served := lock.serveCount
  have read := congrArg List.length even
  simp only [ClientPc.busy, waits, owes, here, busy, List.length_map] at asked served read
  simp at asked served
  cases lock.response with
  | resting _ idle => simp [busy] at idle
  | moving prev last sends ahead transfer =>
    simpa [Sender.waits, exited] using transfer.unopened opens
  | closing _ _ _ even => omega

theorem Lockstep.collects (lock : Lockstep s) {site : Handler.Site} {code : Int}
    {server : Handler.Session} (here : s.server.pc = .send site) (busy : s.sending = true)
    (exited : s.exchange.sender.pc = .exited code)
    (stepped : Handler.step s.server (.sent (sendResult (exitStatus code))) = some server) :
    Lockstep { s with server := server, sending := false } := by
  have response : code = 0 ∧ ResponsePhase s.answers.length s.sent false s.exchange := by
    cases lock.response with
    | resting _ idle => simp [busy] at idle
    | moving prev last sends ahead transfer =>
      have zero : code = 0 := by simpa [Sender.Sound, exited] using transfer.sender.2.2
      exact ⟨zero, .moving prev last sends ahead transfer fun _ => by rw [exited, zero]⟩
    | closing res old consumed even _ transfer heard listener fresh =>
      have zero : code = 0 := by simpa [Sender.Sound, exited] using transfer.sender.2.2
      have empty := transfer.emptied (by simp [Listener.progress, heard])
      refine ⟨zero, .resting even rfl empty ?_ ?_ (.inl listener) (by simp [listener]) fresh⟩
      · simpa [Sender.holds, exited] using transfer.writeEnd
      · simpa [Listener.holds, heard, listener] using transfer.readEnd
  obtain ⟨rfl, response⟩ := response
  simp only [Handler.step, here, Option.some.injEq] at stepped
  obtain ⟨past, serving⟩ := lock.serving
  have free : s.joined = none := lock.unjoined fun again opens => by simp [here] at opens
  have log : Handler.requests server.log = Handler.requests s.server.log ∧
      executions server.log = executions s.server.log := by
    rw [← stepped]
    constructor
    · exact (Handler.requests_append ..).trans (List.append_nil _)
    · exact (Handler.executions_append ..).trans (List.append_nil _)
  obtain ⟨served, next⟩ := serving.collects here busy log (by rw [← stepped]; rfl)
    (by rw [← stepped]; exact Handler.afterSend_reqBuffer ..)
  have after : reading none server = false := by rcases next with next | next <;> simp [reading, next]
  have readEnd := lock.readEnd
  have request := lock.request
  rw [free] at readEnd request
  have before : reading none s.server = false := by simp [reading, here]
  exact { lock with
    serving := served
    request := by
      rw [free]
      exact request.works log.1 before after fun child even =>
        absurd exited (lock.not_sent child even here busy)
    response := response
    joined := fun waiting => by simp [free] at waiting
    readEnd := by rw [free, after, ← before]; exact readEnd }

/-! ## Every run -/

theorem lockstep_move (lock : Lockstep s) (move : Move s s') : Lockstep s' := by
  cases move with
  | rejects line here unavailable => exact lock.rejects here unavailable
  | asks line here => exact lock.asks here
  | requests h h' pipe here moved => exact lock.requests here moved
  | requested h code here child exited => exact lock.requested here child exited
  | listens answer x here smooth stepped => exact lock.listens here smooth stepped
  | answered r cell here returned => exact lock.answered here returned
  | joins again here free => exact lock.joins here free
  | opens again gone server here waiting opened stepped => exact lock.opens here waiting opened stepped
  | reads again req server here oldest stepped => exact lock.reads here oldest stepped
  | ends again s' here empty abandoned =>
    rw [lock.not_ended here empty] at abandoned
    cases abandoned
  | closes again server here stepped => exact lock.closes here stepped
  | forks site msg here free => exact lock.forks here free
  | sends answer x here smooth stepped => exact lock.sends here smooth stepped
  | collects site code server here busy exited stepped => exact lock.collects here busy exited stepped
  | works reply server here smooth stepped => exact lock.works here smooth stepped

theorem lockstep_start (maxSize : Int) (requestCapacity responseCapacity : Nat) (line : Line)
    (buffer : CharArray (Handler.MAX_COMMAND_LENGTH + 1)) (cell : CharArray SIZEOF_SIZE_T) :
    Lockstep (start maxSize requestCapacity responseCapacity line buffer cell) where
  asking := ⟨[], by simp, rfl, rfl⟩
  serving := ⟨[], by simp, ⟨rfl, rfl, rfl⟩, rfl⟩
  request := .resting rfl rfl rfl (by simp [start, Handler.start]) (by simp [start])
  response := .resting rfl rfl rfl rfl rfl (.inl rfl) (by simp [start, ResponsePipe.start]) rfl
  got := List.nil_prefix
  made := by simp [start]
  waits := by simp [start]
  unheard := fun _ => rfl
  joined := by simp [start]
  writeEnd := rfl
  readEnd := rfl

theorem lockstep_run {maxSize : Int} {requestCapacity responseCapacity : Nat} {line : Line}
    {buffer : CharArray (Handler.MAX_COMMAND_LENGTH + 1)} {cell : CharArray SIZEOF_SIZE_T}
    {events : List Event} (smooth : ∀ event ∈ events, event.smooth = true)
    (ran : run step (start maxSize requestCapacity responseCapacity line buffer cell) events = some s) :
    Lockstep s :=
  have along : Along step (fun _ event => event.smooth = true)
      (start maxSize requestCapacity responseCapacity line buffer cell) events :=
    along_of_forall fun _ event member => smooth event member
  run_invariant_along (fun _ _ _ lock smooth stepped => lockstep_move lock (move_of_step smooth stepped))
    (lockstep_start ..) along ran

/-! ## What a round is -/

/-- The client left its loop on this command. -/
def State.clientLeft (s : State) (k : Nat) : Prop := s.client = .left ∧ s.answers.length = k + 1

/-- The server left its loop on this command. -/
def State.serverLeft (s : State) (k : Nat) : Prop :=
  (s.server.pc = .send .goodbye ∨ s.server.pc = .remove ∨ s.server.pc = .ended) ∧
    (Handler.requests s.server.log).length = k + 1

/-- What arrives is what was sent, also when it was cut. -/
theorem received_makeResponse (msg : CString) (maxSize : Int) :
    received (makeResponse msg maxSize) = (makeResponse msg maxSize).msg := by
  by_cases fits : maxSize < 0 ∨ (msg.bytes.length : Int) < maxSize
  · rw [received_whole fits, (makeResponse_whole fits).2]
  · rw [not_or, not_lt, not_lt] at fits
    rw [received_cut fits.1 fits.2, (makeResponse_cut fits.1 fits.2).2]

variable {k : Nat}

theorem Lockstep.client_leaves (lock : Lockstep s) (completed : k < s.answers.length) {cmd : Line}
    (found : s.asked[k]? = some cmd) :
    (s.clientLeft k ↔ cmd.bytes = EXIT) ∧
      ∀ j < k, ∀ earlier, s.asked[j]? = some earlier → earlier.bytes ≠ EXIT := by
  obtain ⟨prev, noExit, place⟩ := lock.asking
  have early : ∀ j < prev.length, ∀ earlier, s.asked[j]? = some earlier → earlier.bytes ≠ EXIT := by
    intro j before earlier there
    have same : s.asked[j]? = prev[j]? := by
      cases here : s.client <;> simp only [here] at place <;>
        rw [place.1] <;> simp [List.getElem?_append_left before]
    exact noExit earlier (List.mem_of_getElem? (same ▸ there))
  by_cases last : k < prev.length
  · refine ⟨⟨fun left => ?_, fun exits => absurd exits (early k last cmd found)⟩,
      fun j before => early j (before.trans last)⟩
    simp only [left.1] at place
    have := left.2
    omega
  · cases here : s.client <;> simp only [here] at place
    case left =>
      obtain ⟨asked, count, exits⟩ := place
      have last : k = prev.length := by omega
      subst last
      have same : cmd = s.line := by simpa [asked] using found.symm
      exact ⟨⟨fun _ => same ▸ exits, fun _ => ⟨here, count⟩⟩, fun j before => early j before⟩
    all_goals omega

theorem Lockstep.server_leaves (lock : Lockstep s) (begun : k < s.sent.length) {cmd : List Byte}
    (found : (Handler.requests s.server.log)[k]? = some cmd) :
    (s.serverLeft k ↔ cmd = EXIT) ∧
      (executions s.server.log)[k]? = if cmd = EXIT then none else some cmd := by
  obtain ⟨past, serving⟩ := lock.serving
  exact serving.answered (by simpa using begun) found

/-- The responses go to the requests in their order. -/
theorem Lockstep.sent_for (lock : Lockstep s) (begun : k < s.sent.length) :
    (Handler.requests s.server.log)[k]? = s.sent[k]?.map Sent.cmd := by
  obtain ⟨past, serving⟩ := lock.serving
  obtain ⟨rest, whole⟩ := serving.ordered
  rw [← whole, List.getElem?_append_left (by simpa using begun), List.getElem?_map]

/-- The requests are the lines, in their order. -/
theorem Lockstep.read_from (lock : Lockstep s) (read : k < (Handler.requests s.server.log).length) :
    (Handler.requests s.server.log)[k]? = s.asked[k]?.map Line.bytes := by
  rw [← List.getElem?_map]
  rcases lock.request.count with ⟨even, -⟩ | ⟨next, -⟩
  · rw [even]
  · rw [← next, List.getElem?_append_left read]

/-- **Every answer belongs to its command.** Whatever the lines typed, and however
the steps of the client's loop, of `handle_request` and of the two children that
write into the pipes are interleaved, when no call fails: once the client has got
its answer number `k`, the server has read and executed exactly its command
number `k`, the answer is the response that the server sent for it, and both leave
their loops on it if and only if it is `exit`, the first one to be so. -/
theorem sessions_go_in_step {maxSize : Int} {requestCapacity responseCapacity : Nat} {line : Line}
    {buffer : CharArray (Handler.MAX_COMMAND_LENGTH + 1)} {cell : CharArray SIZEOF_SIZE_T}
    {events : List Event} (smooth : ∀ event ∈ events, event.smooth = true)
    (ran : run step (start maxSize requestCapacity responseCapacity line buffer cell) events = some s)
    (completed : k < s.answers.length) :
    ∃ cmd : Line, ∃ msg : CString,
      s.asked[k]? = some cmd ∧ s.sent[k]? = some ⟨cmd.bytes, makeResponse msg s.maxSize⟩ ∧
      s.answers[k]? = some (some (makeResponse msg s.maxSize).msg) ∧
      (Handler.requests s.server.log)[k]? = some cmd.bytes ∧
      (executions s.server.log)[k]? = (if cmd.bytes = EXIT then none else some cmd.bytes) ∧
      (s.clientLeft k ↔ cmd.bytes = EXIT) ∧ (s.serverLeft k ↔ cmd.bytes = EXIT) ∧
      ∀ j < k, ∀ earlier, s.asked[j]? = some earlier → earlier.bytes ≠ EXIT := by
  have lock := lockstep_run smooth ran
  have begun : k < s.sent.length := completed.trans_le lock.response.count.1
  have read : k < (Handler.requests s.server.log).length := by
    have := lock.serveCount
    omega
  obtain ⟨sent, there⟩ : ∃ sent, s.sent[k]? = some sent := ⟨_, List.getElem?_eq_getElem begun⟩
  have request := lock.sent_for begun
  have source := lock.read_from read
  rw [there, Option.map_some] at request
  rw [request] at source
  obtain ⟨cmd, asked, same⟩ := Option.map_eq_some_iff.mp source.symm
  obtain ⟨msg, made⟩ := lock.made sent (List.mem_of_getElem? there)
  obtain ⟨cmd', res⟩ := sent
  obtain rfl : cmd.bytes = cmd' := same
  obtain rfl : res = makeResponse msg s.maxSize := made
  obtain ⟨client, first⟩ := lock.client_leaves completed asked
  obtain ⟨server, executed⟩ := lock.server_leaves begun request
  have got : s.answers[k]? = some (some (makeResponse msg s.maxSize).msg) := by
    obtain ⟨rest, whole⟩ := lock.got
    have same : (s.answers ++ rest)[k]? = s.answers[k]? := List.getElem?_append_left completed
    rw [← same, whole, List.getElem?_map, there, Option.map_some, received_makeResponse]
  exact ⟨cmd, msg, asked, there, got, request, executed, client, server, first⟩

def pwdLine : Line := ⟨bytes "pwd", by decide, by decide⟩

def exitLine : Line := ⟨bytes "exit", by decide, by decide⟩

/-- The request of a line: the server opens the pipe before the child can write. -/
def requestOf (line : Line) : List Event :=
  [.types line, .joins, .requests .ok, .requests .ok, .requests .ok, .serves .ok, .requests .ok,
   .requests .ok, .serves (.frame (.ofCommand line.bytes)), .requests .ok, .serves .ok, .requested]

/-- The response, whose body goes through the pipe in one piece. -/
def responseOf (length : Nat) : List Event :=
  [.listens .ok, .forks, .sends .ok, .sends .ok, .sends .ok, .sends .ok, .sends .ok, .listens .ok,
   .listens .ok, .listens .ok, .sends (.count length), .listens .ok, .listens (.count length),
   .listens .ok, .listens .ok, .answered (.empty _), .sends (.count 0), .sends .ok, .serves (.sent 1)]

/-- The server's work on a command that prints this in one piece. -/
def printing (output : List Byte) : List Event :=
  [.serves .ok, .serves (.forked ⟨true, true, true⟩), .serves .ok, .serves .ok, .serves .ok,
   .serves (.data output), .serves .ok, .serves .ok, .serves .ok]

/-- What `pwd` prints. -/
def directory : List Byte := bytes "/srv\n"

def pwdAndExit : List Event :=
  requestOf pwdLine ++ printing directory ++ responseOf 6 ++ requestOf exitLine ++ responseOf 28

theorem sessions_go_in_step_pwd_and_exit : ∃ s,
    run step (start (-1) 1 PIPE_BUF pwdLine (.empty _) (.empty _)) pwdAndExit = some s ∧
      s.asked = [pwdLine, exitLine] ∧ (executions s.server.log)[0]? = some (bytes "pwd") ∧
      s.clientLeft 1 ∧ s.serverLeft 1 := by
  have computed : (run step (start (-1) 1 PIPE_BUF pwdLine (.empty _) (.empty _)) pwdAndExit).map
      (fun s => (s.asked, s.answers.length)) = some ([pwdLine, exitLine], 2) := by
    decide +kernel
  obtain ⟨s, ran, same⟩ := Option.map_eq_some_iff.mp computed
  obtain ⟨asked, count⟩ := Prod.mk.injEq .. ▸ same
  have smooth : ∀ event ∈ pwdAndExit, event.smooth = true := by decide
  obtain ⟨first, -, found, -, -, -, executed, -⟩ := sessions_go_in_step smooth ran (k := 0) (by omega)
  obtain ⟨second, -, last, -, -, -, -, client, server, -⟩ :=
    sessions_go_in_step smooth ran (k := 1) (by omega)
  obtain rfl : pwdLine = first := by simpa [asked] using found
  obtain rfl : exitLine = second := by simpa [asked] using last
  refine ⟨s, ran, asked, ?_, client.mpr rfl, server.mpr rfl⟩
  rw [executed, if_neg (by decide)]
  rfl

end LocalServer.ClientSession
