import LocalServer.ResponseTransfer

/-! What the client gets of a response. Both loops end, nobody waits for the other
for ever, and the buffer holds the message if, and only if, the limit leaves room
for its terminator. -/
namespace LocalServer.ResponsePipe
open Runs

variable {res : Response} {x x' : Exchange} {answer : Answer} {s : Sender} {l : Listener}

/-! ## Both loops end -/

/-- How many calls the child has before it, at most. -/
def Sender.rank (s : Sender) : Nat :=
  match s.pc with
  | .sigfillset => s.res.size - s.total + 7
  | .sigaction => s.res.size - s.total + 6
  | .open => s.res.size - s.total + 5
  | .opening _ => s.res.size - s.total + 4
  | .header => s.res.size - s.total + 3
  | .body => s.res.size - s.total + 2
  | .close => 1
  | .exited _ => 0

/-- How many calls the reader has before it, at most. -/
def Listener.rank (res : Response) (l : Listener) : Nat :=
  match l.pc with
  | .open => 2 * res.size + 8
  | .select => 2 * res.size + 7
  | .readSize => 2 * res.size + 6
  | .malloc => 2 * res.size + 5
  | .selectBody => 2 * (res.size - l.msg.length) + 4
  | .readBody => 2 * (res.size - l.msg.length) + 3
  | .mallocBuffer => 2
  | .close => 1
  | .returned _ => 0

def Exchange.rank (res : Response) (x : Exchange) : Nat := x.sender.rank + x.listener.rank res

theorem Sender.loop_rank : s.loop.rank ≤ s.res.size - s.total + 2 := by
  unfold Sender.loop
  split <;> simp [Sender.rank]

theorem Listener.loop_rank (res : Response) :
    l.loop.rank res ≤ 2 * (res.size - l.msg.length) + 4 := by
  unfold Listener.loop
  split <;> simp [Listener.rank]

theorem rank_sends {f f' : Fifo Byte} {s' : Sender} {chunk : List Byte}
    (smooth : (Event.sends answer).smooth = true)
    (moved : sendResponse s f answer = some (s', f', chunk)) : s'.rank < s.rank := by
  have entered : s.loop.rank ≤ s.res.size - s.total + 2 := Sender.loop_rank
  cases here : s.pc with
  | header =>
    cases answer <;> simp [sendResponse, here, Event.smooth] at moved smooth
    obtain ⟨-, rfl, -⟩ := moved
    have rank : s.rank = s.res.size - s.total + 3 := by simp [Sender.rank, here]
    omega
  | body =>
    cases answer <;> simp [sendResponse, here, Event.smooth] at moved smooth
    rename_i n
    split at moved
    · simp only [Option.some.injEq, Prod.mk.injEq] at moved
      obtain ⟨rfl, -, -⟩ := moved
      simp [Sender.rank, here]
    · split at moved
      · next some =>
        simp only [Option.map_eq_some_iff, Prod.mk.injEq] at moved
        obtain ⟨f', -, rfl, -, -⟩ := moved
        have again : (s.count n).loop.rank ≤ s.res.size - (s.total + n) + 2 := Sender.loop_rank
        have rank : s.rank = s.res.size - s.total + 2 := by simp [Sender.rank, here]
        omega
      · cases moved
  | close =>
    cases answer <;> simp [sendResponse, here, Event.smooth] at moved smooth
    obtain ⟨rfl, -, -⟩ := moved
    simp [Sender.rank, Sender.exit, here]
  | opening gone =>
    cases answer <;> simp [sendResponse, here, Event.smooth] at moved smooth
    obtain ⟨-, rfl, -, -⟩ := moved
    simp [Sender.rank, here]
  | exited code => cases answer <;> simp [sendResponse, here] at moved
  | _ =>
    cases answer <;> simp [sendResponse, here, Event.smooth] at moved smooth
    obtain ⟨rfl, -, -⟩ := moved
    simp [Sender.rank, here]

theorem rank_listens {f' : Fifo Byte} {l' : Listener} {chunk : List Byte}
    (transfer : Transfer res x) (smooth : (Event.listens answer).smooth = true)
    (moved : listenResponse x.listener x.fifo answer = some (l', f', chunk)) :
    l'.rank res < x.listener.rank res := by
  have sound := transfer.listener
  cases here : x.listener.pc with
  | malloc =>
    cases answer <;> simp [listenResponse, here, Event.smooth] at moved smooth
    obtain ⟨rfl, -, -⟩ := moved
    have entered := Listener.loop_rank (l := x.listener.begin (ofBytes x.listener.cell.bytes)) res
    have rank : x.listener.rank res = 2 * res.size + 5 := by simp [Listener.rank, here]
    have none : (x.listener.begin (ofBytes x.listener.cell.bytes)).msg.length = 0 := rfl
    omega
  | readBody =>
    cases answer <;> simp [listenResponse, here, Event.smooth] at moved smooth
    rename_i n
    have nonempty := transfer.ready (by simp [Listener.reads, here])
    simp only [nonempty, false_and, and_false, if_false] at moved
    split at moved
    case isFalse => cases moved
    case isTrue some =>
    simp only [Option.some.injEq, Prod.mk.injEq] at moved
    obtain ⟨rfl, -, -⟩ := moved
    have again := Listener.loop_rank (l := x.listener.append (x.fifo.data.take n)) res
    have rank : x.listener.rank res = 2 * (res.size - x.listener.msg.length) + 3 := by
      simp [Listener.rank, here]
    have length : (x.listener.append (x.fifo.data.take n)).msg.length = x.listener.msg.length + n := by
      simp [Listener.append, some.2.2]
    rw [Listener.Sound, here] at sound
    omega
  | select | selectBody =>
    cases answer <;> simp [listenResponse, here, Event.smooth] at moved smooth
    obtain ⟨-, rfl, -, -⟩ := moved
    simp [Listener.rank, here]
  | readSize =>
    cases answer <;> simp [listenResponse, here, Event.smooth] at moved smooth
    obtain ⟨-, rfl, -, -⟩ := moved
    simp [Listener.rank, here]
  | returned r => cases answer <;> simp [listenResponse, here] at moved
  | _ =>
    cases answer <;> simp [listenResponse, here, Event.smooth] at moved smooth
    obtain ⟨rfl, -, -⟩ := moved
    simp [Listener.rank, Listener.return, here]

theorem rank_step {event : Event} (transfer : Transfer res x) (smooth : event.smooth = true)
    (stepped : step x event = some x') : x'.rank res < x.rank res := by
  cases event with
  | sends answer =>
    simp only [step, Option.map_eq_some_iff] at stepped
    obtain ⟨_, moved, rfl⟩ := stepped
    exact Nat.add_lt_add_right (rank_sends smooth moved) _
  | listens answer =>
    simp only [step, Option.map_eq_some_iff] at stepped
    obtain ⟨_, moved, rfl⟩ := stepped
    exact Nat.add_lt_add_left (rank_listens transfer smooth moved) _

/-- Along a run the response stays on its way, and every event uses up one call. -/
theorem transfer_run {events : List Event} (transfer : Transfer res x)
    (smooth : ∀ event ∈ events, event.smooth = true) (ran : run step x events = some x') :
    Transfer res x' ∧ events.length + x'.rank res ≤ x.rank res := by
  induction events generalizing x with
  | nil => cases ran; exact ⟨transfer, by simp⟩
  | cons event events ih =>
    obtain ⟨middle, first, rest⟩ := run_cons_eq_some.mp ran
    have here := smooth event (by simp)
    obtain ⟨final, fewer⟩ := ih (transfer_step transfer here first)
      (fun event member => smooth event (by simp [member])) rest
    have less := rank_step transfer here first
    exact ⟨final, by simp only [List.length_cons]; omega⟩

/-! ## Nobody waits for ever -/

theorem capacity_sends {f f' : Fifo Byte} {s' : Sender} {chunk : List Byte}
    (moved : sendResponse s f answer = some (s', f', chunk)) : f'.capacity = f.capacity := by
  have wrote {bytes : List Byte} {g : Fifo Byte} (written : f.write bytes = some g) :
      g.capacity = f.capacity := by
    obtain ⟨-, -, rfl⟩ := Fifo.write_eq_some.mp written
    rfl
  unfold sendResponse at moved
  grind [Option.map_eq_some_iff, Fifo.joinWrite, Fifo.leaveWrite, Fifo.settle_capacity]

theorem capacity_listens {f f' : Fifo Byte} {l' : Listener} {chunk : List Byte}
    (moved : listenResponse l f answer = some (l', f', chunk)) : f'.capacity = f.capacity := by
  unfold listenResponse at moved
  grind [Fifo.joinRead, Fifo.leaveRead, Fifo.drop, Fifo.settle_capacity]

theorem capacity_run {events : List Event} (ran : run step x events = some x') :
    x'.fifo.capacity = x.fifo.capacity := by
  refine run_invariant (motive := fun y => y.fifo.capacity = x.fifo.capacity) ?_ rfl ran
  intro before event after same stepped
  cases event <;> simp only [step, Option.map_eq_some_iff] at stepped <;>
    obtain ⟨⟨_, _, _⟩, moved, rfl⟩ := stepped
  · exact (capacity_sends moved).trans same
  · exact (capacity_listens moved).trans same

/-- No call that neither fails nor times out can be made. -/
def Stuck (x : Exchange) : Prop := ∀ event, event.smooth = true → step x event = none

theorem Stuck.sends (stuck : Stuck x) (answer : Answer)
    (smooth : (Event.sends answer).smooth = true) :
    sendResponse x.sender x.fifo answer = none := by
  simpa [step] using stuck (.sends answer) smooth

theorem Stuck.listens (stuck : Stuck x) (answer : Answer)
    (smooth : (Event.listens answer).smooth = true) :
    listenResponse x.listener x.fifo answer = none := by
  simpa [step] using stuck (.listens answer) smooth

/-- A reader that has something to read is not stuck. -/
theorem Stuck.reader_done (stuck : Stuck x) (transfer : Transfer res x)
    (data : x.fifo.data ≠ []) : ∃ r, x.listener.pc = .returned r := by
  have sound := transfer.listener
  have ok := stuck.listens .ok rfl
  have one := stuck.listens (.count 1) rfl
  have some := List.length_pos_iff.mpr data
  cases here : x.listener.pc with
  | returned r => exact ⟨r, rfl⟩
  | readBody =>
    rw [Listener.Sound, here] at sound
    simp [listenResponse, here, data] at one
    omega
  | _ => simp [listenResponse, here, data, Fifo.selectable] at ok

/-- A reader that has opened the pipe and has not read the whole frame holds it. -/
theorem Transfer.reader_holds (transfer : Transfer res x) (heard : x.sender.waits = false)
    (unfinished : x.listener.progress res < SIZEOF_SIZE_T + res.size) :
    x.fifo.readCloses < x.fifo.readOpens := by
  have readEnd := transfer.readEnd
  cases here : x.listener.pc with
  | «open» => simp [transfer.unopened here] at heard
  | returned r => simp [Listener.progress, here] at unfinished
  | _ => simp [Listener.holds, here] at readEnd; omega

/-- Only two processes that are done are stuck. -/
theorem Stuck.sender_done (stuck : Stuck x) (transfer : Transfer res x)
    (room : PIPE_BUF ≤ x.fifo.capacity) : x.sender.pc = .exited 0 := by
  obtain ⟨same, limit, place⟩ := transfer.sender
  have ok := stuck.sends .ok rfl
  have behind := transfer.behind
  have length := transfer.data_length
  cases here : x.sender.pc with
  | exited code => simp_all
  | opening gone =>
    have begun : x.sender.progress = 0 := by simp [Sender.progress, here]
    have since := transfer.waiting gone here
    have readEnd := transfer.readEnd
    have alone : x.fifo.readOpens ≤ gone := by
      simpa [sendResponse, here, Fifo.writeOpened] using ok
    have silent := stuck.listens .ok rfl
    cases there : x.listener.pc with
    | «open» => simp [listenResponse, there] at silent
    | returned r => simp [Listener.progress, there, SIZEOF_SIZE_T] at behind; omega
    | _ => simp [Listener.holds, there] at readEnd; omega
  | header =>
    have begun : x.sender.progress = 0 := by simp [Sender.progress, here]
    have reader := transfer.reader_holds (by simp [Sender.waits, here])
      (by simp only [SIZEOF_SIZE_T]; omega)
    simp [sendResponse, here, Fifo.write, reader, sizeBytes_length] at ok
    simp only [PIPE_BUF, SIZEOF_SIZE_T] at room ok
    omega
  | body =>
    have bound : x.sender.total ≤ res.size := by simpa [here] using place
    have begun : x.sender.progress = SIZEOF_SIZE_T + x.sender.total := by
      simp [Sender.progress, here]
    have none := stuck.sends (.count 0) rfl
    have one := stuck.sends (.count 1) rfl
    have left : x.sender.total < res.size := by
      simp [sendResponse, here, same] at none
      omega
    by_cases data : x.fifo.data = []
    · have reader := transfer.reader_holds (by simp [Sender.waits, here]) (by omega)
      have some : 1 ≤ res.size - x.sender.total := by omega
      simp [sendResponse, here, same, some, Fifo.write, reader, data] at one
      simp only [PIPE_BUF] at room
      omega
    · obtain ⟨r, done⟩ := stuck.reader_done transfer data
      simp [Listener.progress, done] at behind
      omega
  | _ => simp [sendResponse, here] at ok

theorem Stuck.listener_done (stuck : Stuck x) (transfer : Transfer res x)
    (sent : x.sender.pc = .exited 0) : x.listener.pc = .returned 1 := by
  have sound := transfer.listener
  have ok := stuck.listens .ok rfl
  have length := transfer.data_length
  rw [show x.sender.progress = SIZEOF_SIZE_T + res.size by
    simp [Sender.progress, sent, transfer.sender.1]] at length
  cases here : x.listener.pc with
  | returned r => simp_all [Listener.Sound]
  | «open» | malloc | mallocBuffer | close => simp [listenResponse, here] at ok
  | _ =>
    rw [Listener.Sound, here] at sound
    simp only [Listener.progress, here, SIZEOF_SIZE_T] at length
    have data : x.fifo.data ≠ [] := List.ne_nil_of_length_pos (by omega)
    obtain ⟨r, done⟩ := stuck.reader_done transfer data
    rw [here] at done
    cases done

/-! ## What the client gets -/

/-- The exchange of a message under a limit, as far as a run without failures and
timeouts has brought it. -/
theorem exchange_run {msg : CString} {maxSize : Int} {fifo : Fifo Byte} (quiet : fifo.Quiet)
    (room : PIPE_BUF ≤ fifo.capacity) {cell : CharArray SIZEOF_SIZE_T} {events : List Event}
    (smooth : ∀ event ∈ events, event.smooth = true)
    (ran : run step (start msg maxSize fifo cell) events = some x) :
    Transfer (makeResponse msg maxSize) x ∧
      events.length ≤ 3 * responseSize msg maxSize + 15 ∧
      (Stuck x → x.sender.pc = .exited 0 ∧ x.listener.pc = .returned 1) := by
  obtain ⟨transfer, fewer⟩ := transfer_run (transfer_start msg maxSize quiet cell) smooth ran
  have rank : (start msg maxSize fifo cell).rank (makeResponse msg maxSize) =
      3 * responseSize msg maxSize + 15 := by
    simp [Exchange.rank, start, Sender.rank, Listener.rank, makeResponse]
    omega
  refine ⟨transfer, by omega, fun stuck => ?_⟩
  have sent := stuck.sender_done transfer (by rw [capacity_run ran]; exact room)
  exact ⟨sent, stuck.listener_done transfer sent⟩

theorem Transfer.written_all (transfer : Transfer res x) (sent : x.sender.pc = .exited 0) :
    x.written = res.frame := by
  rw [transfer.written, Sender.progress, sent, transfer.sender.1, frame_take_all]

theorem Transfer.consumed_all (transfer : Transfer res x) (done : x.listener.pc = .returned 1) :
    x.consumed = res.frame ∧ x.fifo.data = [] ∧ x.listener.buffer = some (received res) := by
  have sound := transfer.listener
  have all : x.listener.progress res = SIZEOF_SIZE_T + res.size := by
    simp [Listener.progress, done]
  rw [Listener.Sound, done] at sound
  exact ⟨by rw [transfer.consumed, all, frame_take_all], transfer.emptied all, sound.2⟩

/-- A message within its limit travels with its terminator. -/
theorem makeResponse_whole {msg : CString} {maxSize : Int}
    (fits : maxSize < 0 ∨ (msg.bytes.length : Int) < maxSize) :
    (makeResponse msg maxSize).size = msg.bytes.length + 1 ∧
      (makeResponse msg maxSize).msg = msg.bytes ++ [0] := by
  have size : responseSize msg maxSize = msg.bytes.length + 1 := by
    unfold responseSize
    split <;> omega
  simp only [makeResponse, size]
  exact ⟨trivial, List.take_of_length_le (by simp)⟩

/-- A message beyond its limit loses its terminator. -/
theorem makeResponse_cut {msg : CString} {maxSize : Int} (low : 0 ≤ maxSize)
    (high : maxSize ≤ (msg.bytes.length : Int)) :
    (makeResponse msg maxSize).size = maxSize.toNat ∧
      (makeResponse msg maxSize).msg = msg.bytes.take maxSize.toNat := by
  have size : responseSize msg maxSize = maxSize.toNat := by
    unfold responseSize
    split <;> omega
  simp only [makeResponse, size]
  exact ⟨trivial, List.take_append_of_le_length (by omega)⟩

theorem received_whole {msg : CString} {maxSize : Int}
    (fits : maxSize < 0 ∨ (msg.bytes.length : Int) < maxSize) :
    received (makeResponse msg maxSize) = msg.bytes ++ [0] := by
  obtain ⟨size, body⟩ := makeResponse_whole fits
  rw [received, size, body, strncpy, cstr_append_zero msg.noNul]
  simp

theorem received_cut {msg : CString} {maxSize : Int} (low : 0 ≤ maxSize)
    (high : maxSize ≤ (msg.bytes.length : Int)) :
    received (makeResponse msg maxSize) = msg.bytes.take maxSize.toNat := by
  obtain ⟨size, body⟩ := makeResponse_cut low high
  have noNul : (0 : Byte) ∉ msg.bytes.take maxSize.toNat :=
    fun member => msg.noNul (List.mem_of_mem_take member)
  rw [received, size, body, strncpy, cstr_eq_self noNul]
  have length : (msg.bytes.take maxSize.toNat).length = maxSize.toNat := by
    simp only [List.length_take]
    omega
  simp [List.take_take, length]

/-- **A response arrives as it was sent.** Whatever the message, under no limit or
under one that is greater than its length, and however the writes and the reads are
split and interleaved: a run without failures and timeouts ends, with the child
having exited well and `listen_response` having returned 1; what was written and
what was read is the size and the message with its terminator, the buffer holds the
message, and the pipe is empty. -/
theorem response_round_trip (msg : CString) (maxSize : Int)
    (fits : maxSize < 0 ∨ (msg.bytes.length : Int) < maxSize) (fifo : Fifo Byte)
    (quiet : fifo.Quiet) (room : PIPE_BUF ≤ fifo.capacity) (cell : CharArray SIZEOF_SIZE_T)
    {events : List Event} (smooth : ∀ event ∈ events, event.smooth = true)
    (ran : run step (start msg maxSize fifo cell) events = some x) :
    events.length ≤ 3 * (msg.bytes.length + 1) + 15 ∧
    (Stuck x → x.sender.pc = .exited 0 ∧ x.listener.pc = .returned 1) ∧
    (∀ code, x.sender.pc = .exited code → sendResult (exitStatus code) = 1 ∧
      x.written = sizeBytes (msg.bytes.length + 1) ++ (msg.bytes ++ [0])) ∧
    (∀ r, x.listener.pc = .returned r → r = 1 ∧
      (∃ buffer, x.listener.buffer = some buffer ∧ cstr buffer = msg.bytes) ∧
      x.consumed = sizeBytes (msg.bytes.length + 1) ++ (msg.bytes ++ [0]) ∧ x.fifo.data = []) := by
  obtain ⟨transfer, bound, ends⟩ := exchange_run quiet room smooth ran
  obtain ⟨size, body⟩ := makeResponse_whole fits
  have frame : (makeResponse msg maxSize).frame =
      sizeBytes (msg.bytes.length + 1) ++ (msg.bytes ++ [0]) := by
    rw [Response.frame, size, body]
  have length : responseSize msg maxSize = msg.bytes.length + 1 := size
  refine ⟨by rwa [length] at bound, ends, fun code exited => ?_, fun r returned => ?_⟩
  · have zero : code = 0 := by simpa [Sender.Sound, exited] using transfer.sender.2.2
    subst zero
    exact ⟨rfl, by rw [transfer.written_all exited, frame]⟩
  · have sound := transfer.listener
    rw [Listener.Sound, returned] at sound
    obtain ⟨rfl, -⟩ := sound
    obtain ⟨consumed, empty, buffer⟩ := transfer.consumed_all returned
    rw [received_whole fits] at buffer
    exact ⟨rfl, ⟨_, buffer, cstr_append_zero msg.noNul []⟩, by rw [consumed, frame], empty⟩

/-- The answers to an exchange whose body, of two bytes and a terminator, is written
in two pieces and read in two others. -/
def twoPieces : List Event :=
  [.sends .ok, .sends .ok, .sends .ok, .listens .ok, .sends .ok, .sends .ok, .listens .ok,
   .listens .ok, .listens .ok, .sends (.count 1), .listens .ok, .listens (.count 1),
   .sends (.count 2), .sends (.count 0), .listens .ok, .listens (.count 2), .listens .ok,
   .sends .ok, .listens .ok]

def okMessage : CString := ⟨bytes "ok", by decide, by decide⟩

theorem response_round_trip_two_pieces : ∃ x,
    run step (start okMessage (-1) (.new PIPE_BUF) (.empty _)) twoPieces = some x ∧
      x.sender.pc = .exited 0 ∧ x.written = sizeBytes 3 ++ bytes "ok" ++ [0] ∧
      x.listener.pc = .returned 1 ∧ x.listener.buffer.map cstr = some (bytes "ok") ∧
      x.fifo.data = [] := by
  have computed : (run step (start okMessage (-1) (.new PIPE_BUF) (.empty _)) twoPieces).map
      (fun x => (x.sender.pc, x.listener.pc)) = some (.exited 0, .returned 1) := by
    decide +kernel
  obtain ⟨x, ran, same⟩ := Option.map_eq_some_iff.mp computed
  obtain ⟨exited, returned⟩ := Prod.mk.injEq .. ▸ same
  obtain ⟨-, -, sent, got⟩ := response_round_trip okMessage (-1) (.inl (by decide)) (.new PIPE_BUF)
    (Fifo.quiet_new _) (Nat.le_refl _) (.empty _) (by decide) ran
  obtain ⟨-, ⟨buffer, found, string⟩, -, empty⟩ := got 1 returned
  refine ⟨x, ran, exited, (sent 0 exited).2, returned, ?_, empty⟩
  rw [found, Option.map_some, string]
  rfl

/-- The block holds a terminator, behind a prefix of the message within the limit. -/
def HoldsPrefix (msg : CString) (maxSize : Int) (block : List Byte) : Prop :=
  ∃ string rest, block = string ++ 0 :: rest ∧ string <+: msg.bytes ∧
    (string.length : Int) ≤ maxSize

/-- **A cut response is no string.** Under every limit from 0 to the length of the
message, a run without failures and timeouts ends, and the block that the client
then gets is as large as the limit and holds no terminator at all. -/
theorem cut_response_unterminated (msg : CString) (maxSize : Int) (low : 0 ≤ maxSize)
    (high : maxSize ≤ (msg.bytes.length : Int)) (fifo : Fifo Byte) (quiet : fifo.Quiet)
    (room : PIPE_BUF ≤ fifo.capacity) (cell : CharArray SIZEOF_SIZE_T) {events : List Event}
    (smooth : ∀ event ∈ events, event.smooth = true)
    (ran : run step (start msg maxSize fifo cell) events = some x) :
    (Stuck x → x.listener.pc = .returned 1) ∧
    (x.listener.pc = .returned 1 → ∃ block, x.listener.buffer = some block ∧
      block.length = maxSize.toNat ∧ (0 : Byte) ∉ block ∧ ¬ HoldsPrefix msg maxSize block) := by
  obtain ⟨transfer, -, ends⟩ := exchange_run quiet room smooth ran
  refine ⟨fun stuck => (ends stuck).2, fun returned => ?_⟩
  obtain ⟨-, -, buffer⟩ := transfer.consumed_all returned
  rw [received_cut low high] at buffer
  have noNul : (0 : Byte) ∉ msg.bytes.take maxSize.toNat :=
    fun member => msg.noNul (List.mem_of_mem_take member)
  refine ⟨_, buffer, ?_, noNul, ?_⟩
  · simp only [List.length_take]
    omega
  · rintro ⟨string, rest, same, -, -⟩
    rw [same] at noNul
    simp at noNul

/-- The answers to an exchange whose body is one byte. -/
def onePiece : List Event :=
  [.sends .ok, .sends .ok, .sends .ok, .listens .ok, .sends .ok, .sends .ok, .listens .ok,
   .listens .ok, .listens .ok, .sends (.count 1), .listens .ok, .listens (.count 1), .sends .ok,
   .listens .ok, .listens .ok]

theorem cut_response_unterminated_one_byte : ∃ x,
    run step (start okMessage 1 (.new PIPE_BUF) (.empty _)) onePiece = some x ∧
      x.listener.pc = .returned 1 ∧
      ∃ block, x.listener.buffer = some block ∧ ¬ HoldsPrefix okMessage 1 block := by
  have computed : (run step (start okMessage 1 (.new PIPE_BUF) (.empty _)) onePiece).map
      (fun x => x.listener.pc) = some (.returned 1) := by decide +kernel
  obtain ⟨x, ran, returned⟩ := Option.map_eq_some_iff.mp computed
  obtain ⟨block, buffer, -, -, unterminated⟩ :=
    (cut_response_unterminated okMessage 1 (by decide) (by decide) (.new PIPE_BUF)
      (Fifo.quiet_new _) (Nat.le_refl _) (.empty _) (by decide) ran).2 returned
  exact ⟨x, ran, returned, block, buffer, unterminated⟩

/-- The message `ok` under the limit 1: the client prints a block of one byte, `o`,
and whatever follows it in memory. -/
theorem limit_one_sends_no_string : ∃ x,
    run step (start okMessage 1 (.new PIPE_BUF) (.empty _)) onePiece = some x ∧
      x.listener.pc = .returned 1 ∧ x.listener.buffer = some (bytes "o") ∧
      ¬ HoldsPrefix okMessage 1 (bytes "o") := by
  have computed : (run step (start okMessage 1 (.new PIPE_BUF) (.empty _)) onePiece).map
      (fun x => (x.listener.pc, x.listener.buffer)) = some (.returned 1, some (bytes "o")) := by
    decide +kernel
  obtain ⟨x, ran, same⟩ := Option.map_eq_some_iff.mp computed
  obtain ⟨returned, buffer⟩ := Prod.mk.injEq .. ▸ same
  refine ⟨x, ran, returned, buffer, ?_⟩
  rintro ⟨string, rest, same, -, -⟩
  have member : (0 : Byte) ∈ bytes "o" := by simp [same]
  exact absurd member (by decide)

end LocalServer.ResponsePipe
