import LocalServer.Handler
import LocalServer.SendOutcomes

/-! What a command prints and what the client gets of it. `handle_request` collects
the output in a block that it keeps enlarging, and hands it to `send_response` as a
string. -/
namespace LocalServer.CommandOutput
open Runs
open Handler hiding step start
open ResponsePipe (Answer Sender SIZEOF_SIZE_T sizeBytes sizeBytes_length makeResponse)
open SendOutcomes (Call responded sendResponse Works Whole)

/-- What the reads of the tube returned. -/
def output (replies : List Reply) : List Byte :=
  (replies.filterMap fun | .data chunk => some chunk | _ => none).flatten

@[simp] theorem output_append (first second : List Reply) :
    output (first ++ second) = output first ++ output second := by
  simp [output, List.filterMap_append]

@[simp] theorem output_ok : output [.ok] = [] := rfl

@[simp] theorem output_forked (child : Child) : output [.forked child] = [] := rfl

@[simp] theorem output_data (chunk : List Byte) : output [.data chunk] = chunk :=
  List.flatten_singleton

/-- No call fails before the response is sent. A block is never larger than an object
can be. -/
def Smooth (s : Session) : Reply → Prop
  | .fail | .sent _ => False
  | _ => s.pc = .realloc → s.total + s.n + PIPE_BUF + 1 ≤ OBJECT_MAX

/-- A read of the tube may fill what it asks for, and the terminator that is put there
after the last one lies in the block. -/
def Inside (s : Session) : Reply → Prop
  | .ok => s.pc = .readTube → s.total < s.room
  | _ => s.pc = .readTube → s.total + PIPE_BUF ≤ s.room

instance decidableSmooth (s : Session) : ∀ reply, Decidable (Smooth s reply)
  | .fail | .sent _ => inferInstanceAs (Decidable False)
  | .ok | .frame _ | .eof _ | .forked _ | .data _ => inferInstanceAs (Decidable (_ → _))

/-- The output of a command arrives: it is collected inside the block, and whenever
`send_response` writes its frame without a failure the body is the output with its
terminator. -/
structure Arrives (s : Session) (replies : List Reply) (s' : Session) : Prop where
  inside : Along Handler.step Inside s replies
  collected : s'.resBuffer = output replies ++ [0]
  body : ∀ (msg : CString), msg.bytes = s'.message .response → ∀ timeout events (c : Call Sender),
    run (SendOutcomes.step (sendResponse timeout)) (responded msg (-1)) events = some c →
      c.caller = .returned 1 →
        Along (SendOutcomes.step (sendResponse timeout)) (Works (sendResponse timeout))
          (responded msg (-1)) events →
        Along (SendOutcomes.step (sendResponse timeout)) (Whole (sendResponse timeout))
          (responded msg (-1)) events →
        ∃ header, header.length = SIZEOF_SIZE_T ∧ c.written = header ++ (output replies ++ [0])

/-! ## The reading loop -/

/-- What lies in the block at each place of the loop. -/
def Collects (past : List Reply) (s : Session) : Prop :=
  match s.pc with
  | .pipe => output past = []
  | .fork | .closeWrite | .wait =>
    output past = [] ∧ s.resBuffer = [] ∧ s.n = 0 ∧ s.total = 0
  | .realloc => s.resBuffer = output past ∧ s.total + s.n = (output past).length
  | .readTube => s.resBuffer = output past ∧ s.total = (output past).length ∧
    s.room = s.total + PIPE_BUF + 1 ∧ s.room ≤ OBJECT_MAX
  | .closeRead | .send .response =>
    s.resBuffer = output past ++ [0] ∧ (output past).length + 1 < OBJECT_MAX
  | _ => False

variable {s s' : Session} {past replies : List Reply} {reply : Reply}

theorem collects_step (collects : Collects past s) (smooth : Smooth s reply)
    (stepped : Handler.step s reply = some s') : Collects (past ++ [reply]) s' := by
  cases here : s.pc with
  | pipe | fork | closeWrite | closeRead =>
    cases reply <;> simp [Handler.step, here, Smooth] at stepped smooth
    simp only [Collects, here] at collects
    simpa [Collects, ← stepped] using collects
  | wait =>
    cases reply <;> simp [Handler.step, here, Smooth] at stepped smooth
    simp only [Collects, here] at collects
    obtain ⟨none, buffer, zero, total⟩ := collects
    simp [Collects, ← stepped, none, buffer, zero, total]
  | realloc =>
    cases reply <;> simp [Handler.step, here, Smooth] at stepped smooth
    simp only [Collects, here] at collects
    obtain ⟨buffer, counted⟩ := collects
    subst stepped
    simp only [Collects, Session.accumulate, output_append, output_ok, List.append_nil]
    exact ⟨buffer, counted, trivial, smooth⟩
  | readTube =>
    simp only [Collects, here] at collects
    obtain ⟨buffer, counted, room, fits⟩ := collects
    have kept : s.resBuffer.take s.total = output past := by
      rw [buffer, counted, List.take_length]
    cases reply <;> simp [Handler.step, here, Smooth] at stepped smooth
    case data chunk =>
      obtain ⟨-, rfl⟩ := stepped
      simp only [Collects, kept, output_append, output_data, List.length_append]
      exact ⟨trivial, by rw [counted]⟩
    case ok =>
      subst stepped
      simp only [Collects, kept, output_append, output_ok, List.append_nil, true_and]
      have big : 0 < PIPE_BUF := Nat.succ_pos _
      have below : (output past).length + 1 < s.room := by omega
      exact below.trans_le fits
  | send site => cases reply <;> simp [Handler.step, here, Smooth] at stepped smooth
  | _ => simp [Collects, here] at collects

/-- Every read and the terminator stay inside the block. -/
theorem Collects.inside (collects : Collects past s) : Inside s reply := by
  have bounded (here : s.pc = .readTube) : s.total + PIPE_BUF + 1 = s.room := by
    simp only [Collects, here] at collects
    exact collects.2.2.1.symm
  unfold Inside
  split
  case h_1 =>
    intro here
    have := bounded here
    omega
  case h_2 =>
    intro here
    have := bounded here
    omega

theorem collects_of_run (here : s.pc = .pipe) (smooth : Along Handler.step Smooth s replies)
    (ran : run Handler.step s replies = some s') : Collects replies s' := by
  have initial : Collects [] s := by simp [Collects, here, output]
  simpa using run_history_along (fun _ _ _ _ => collects_step) initial smooth ran

theorem inside_of_run (collects : Collects past s) (smooth : Along Handler.step Smooth s replies)
    (ran : run Handler.step s replies = some s') : Along Handler.step Inside s replies := by
  induction replies generalizing s past with
  | nil => trivial
  | cons reply replies ih =>
    obtain ⟨middle, first, rest⟩ := run_cons_eq_some.mp ran
    refine ⟨collects.inside, fun next reached => ?_⟩
    obtain rfl : middle = next := Option.some.inj (first.symm.trans reached)
    exact ih (collects_step collects smooth.1 first) (smooth.2 middle first) rest

/-! ## The frame -/

/-- `send_response` as it runs when every write is full. -/
def fullWrites (msg : CString) : List SendOutcomes.Event :=
  [.calls .ok, .calls .ok, .helps .ok, .helps .ok, .helps .ok, .helps (.count SIZEOF_SIZE_T),
    .helps (.count (msg.bytes.length + 1)), .helps (.count 0), .helps .ok, .calls .ok]

theorem frame_unlimited (msg : CString) :
    (makeResponse msg (-1)).frame = sizeBytes (msg.bytes.length + 1) ++ (msg.bytes ++ [0]) := by
  have size : ResponsePipe.responseSize msg (-1) = msg.bytes.length + 1 := rfl
  have all : (msg.bytes ++ [0]).take (msg.bytes.length + 1) = msg.bytes ++ [0] :=
    List.take_of_length_le (by simp)
  simp only [ResponsePipe.Response.frame, makeResponse, size, all]

/-- The child is at the body of its frame, of which it has written `total` bytes. -/
def inBody (msg : CString) (total : Nat) (written : List Byte) : Call Sender :=
  ⟨.wait, ⟨.body, makeResponse msg (-1), -1, total⟩, written, false, false, false⟩

/-- Nothing keeps `send_response` from writing its frame. -/
theorem fullWrites_run (timeout : Int) (msg : CString) : ∃ c,
    run (SendOutcomes.step (sendResponse timeout)) (responded msg (-1)) (fullWrites msg) = some c ∧
      c.caller = .returned 1 ∧
      Along (SendOutcomes.step (sendResponse timeout)) (Works (sendResponse timeout))
        (responded msg (-1)) (fullWrites msg) ∧
      Along (SendOutcomes.step (sendResponse timeout)) (Whole (sendResponse timeout))
        (responded msg (-1)) (fullWrites msg) := by
  have size : (makeResponse msg (-1)).size = msg.bytes.length + 1 := rfl
  have works : Along (SendOutcomes.step (sendResponse timeout)) (Works (sendResponse timeout))
      (responded msg (-1)) (fullWrites msg) :=
    along_of_forall fun state event member failing => by simp [fullWrites, failing.2] at member
  have body (before : List Byte) : SendOutcomes.step (sendResponse timeout) (inBody msg 0 before)
      (.helps (.count (msg.bytes.length + 1))) =
        some (inBody msg (msg.bytes.length + 1)
          (before ++ (makeResponse msg (-1)).msg.take (msg.bytes.length + 1))) := by
    simp [SendOutcomes.step, sendResponse, SendOutcomes.responseCall, inBody, size, Sender.loop, Sender.count]
  have last (before : List Byte) : Whole (sendResponse timeout)
      (inBody msg (msg.bytes.length + 1) before) (.helps (.count 0)) := by
    simp [Whole, sendResponse, inBody, size]
  -- the calls around the body do not look at what the child sends
  have closes (before : List Byte) : run (SendOutcomes.step (sendResponse timeout))
        (inBody msg (msg.bytes.length + 1) before) [.helps (.count 0), .helps .ok, .calls .ok] =
          some ⟨.returned 1, ⟨.exited 0, makeResponse msg (-1), -1, msg.bytes.length + 1⟩,
            before ++ [] ++ [], true, false, false⟩ ∧
      Along (SendOutcomes.step (sendResponse timeout)) (Whole (sendResponse timeout))
        (inBody msg (msg.bytes.length + 1) before) [.helps (.count 0), .helps .ok, .calls .ok] :=
    run_along_cons (last before) rfl <| run_along_cons rfl rfl <| run_along_cons trivial rfl ⟨rfl, trivial⟩
  obtain ⟨ran, whole⟩ : run (SendOutcomes.step (sendResponse timeout)) (responded msg (-1))
        (fullWrites msg) = some _ ∧
      Along (SendOutcomes.step (sendResponse timeout)) (Whole (sendResponse timeout))
        (responded msg (-1)) (fullWrites msg) :=
    run_along_cons trivial rfl <| run_along_cons trivial rfl <| run_along_cons rfl rfl <|
    run_along_cons rfl rfl <| run_along_cons rfl rfl <| run_along_cons rfl rfl <|
    run_along_cons rfl (body _) (closes _)
  exact ⟨_, ran, rfl, works, whole⟩

/-- The string in the block is the output up to its first NUL. -/
theorem message_response (collected : s'.resBuffer = output replies ++ [0]) :
    s'.message .response = cstr (output replies ++ [0]) := by
  rw [Session.message, collected]

theorem cstr_output_eq_iff (bytes : List Byte) : cstr (bytes ++ [0]) = bytes ↔ 0 ∉ bytes :=
  ⟨fun same => same ▸ zero_not_mem_cstr _, fun noNul => cstr_append_zero noNul []⟩

/-- What a failure-free `send_response` has written. -/
theorem written_of_run {msg : CString} {timeout : Int} {events : List SendOutcomes.Event}
    {c : Call Sender}
    (ran : run (SendOutcomes.step (sendResponse timeout)) (responded msg (-1)) events = some c)
    (returned : c.caller = .returned 1)
    (works : Along (SendOutcomes.step (sendResponse timeout)) (Works (sendResponse timeout))
      (responded msg (-1)) events)
    (whole : Along (SendOutcomes.step (sendResponse timeout)) (Whole (sendResponse timeout))
      (responded msg (-1)) events) :
    c.written = sizeBytes (msg.bytes.length + 1) ++ (msg.bytes ++ [0]) := by
  have faithful := ((SendOutcomes.sendResponse_writes timeout msg (-1)).faithful_iff (.inl rfl) ran
    (.inl ⟨1, returned⟩)).mpr ⟨works, .inl whole⟩
  rw [← frame_unlimited]
  exact ((faithful.delivered 1 returned).mp rfl).1

/-- An output that arrives holds no NUL. -/
theorem Arrives.noNul (arrives : Arrives s replies s')
    (fits : (output replies).length + 1 < OBJECT_MAX) : 0 ∉ output replies := by
  have short : (cstr (output replies ++ [0])).length < OBJECT_MAX := by
    refine (cstr_length_le _).trans_lt ?_
    rwa [List.length_append, List.length_singleton]
  let msg : CString := ⟨cstr (output replies ++ [0]), zero_not_mem_cstr _, short⟩
  obtain ⟨c, ran, returned, works, whole⟩ := fullWrites_run 0 msg
  obtain ⟨header, length, written⟩ := arrives.body msg (message_response arrives.collected).symm 0 _ c
    ran returned works whole
  rw [written_of_run ran returned works whole] at written
  have bodies := (List.append_inj written (by rw [sizeBytes_length, length])).2
  exact (cstr_output_eq_iff _).mp (List.append_cancel_right bodies)

/-- **The output arrives if it holds no NUL.** In every run of the handler from the
tube of a command to its response in which no call fails, whatever the reads return:
all of them stay inside the block, the chunks are collected in order and the body of
the frame is the whole output with its terminator, if and only if no byte of the output
is 0. -/
theorem output_arrives_iff (here : s.pc = .pipe) (there : s'.pc = .send .response)
    (smooth : Along Handler.step Smooth s replies) (ran : run Handler.step s replies = some s') :
    Arrives s replies s' ↔ 0 ∉ output replies := by
  have held := collects_of_run here smooth ran
  simp only [Collects, there] at held
  obtain ⟨collected, fits⟩ := held
  constructor
  · intro arrives
    exact arrives.noNul fits
  · intro noNul
    have initial : Collects [] s := by simp [Collects, here, output]
    refine ⟨inside_of_run initial smooth ran, collected, ?_⟩
    intro msg same timeout events c ran returned works whole
    rw [message_response collected, (cstr_output_eq_iff _).mpr noNul] at same
    refine ⟨sizeBytes (msg.bytes.length + 1), sizeBytes_length _, ?_⟩
    rw [written_of_run ran returned works whole, same]

/-- The handler, about to make the tube of a command. -/
def atPipe : Session := { Handler.start (.empty _) with pc := .pipe }

/-- The replies for an output that is read in these chunks. -/
def readsOf (chunks : List (List Byte)) : List Reply :=
  [.ok, .forked ⟨true, true, true⟩, .ok, .ok] ++ chunks.flatMap (fun chunk => [.ok, .data chunk]) ++
    [.ok, .ok, .ok]

theorem output_arrives_iff_two_chunks : ∃ s',
    run Handler.step atPipe (readsOf [bytes "/home", bytes "/anna\n"]) = some s' ∧
      Arrives atPipe (readsOf [bytes "/home", bytes "/anna\n"]) s' := by
  have computed : (run Handler.step atPipe (readsOf [bytes "/home", bytes "/anna\n"])).map Session.pc =
      some (.send .response) := by decide +kernel
  obtain ⟨s', ran, there⟩ := Option.map_eq_some_iff.mp computed
  exact ⟨s', ran, (output_arrives_iff rfl there (by decide +kernel) ran).mpr (by decide +kernel)⟩

/-- `ls --zero` in a directory with the files `a` and `b`: the client gets the first name. -/
theorem output_is_cut_at_nul : ∃ s',
    run Handler.step atPipe (readsOf [bytes "a" ++ [0] ++ bytes "b" ++ [0]]) = some s' ∧
      s'.pc = .send .response ∧ s'.message .response = bytes "a" ∧
        Along Handler.step Smooth atPipe (readsOf [bytes "a" ++ [0] ++ bytes "b" ++ [0]]) ∧
          ¬ Arrives atPipe (readsOf [bytes "a" ++ [0] ++ bytes "b" ++ [0]]) s' := by
  have computed : (run Handler.step atPipe (readsOf [bytes "a" ++ [0] ++ bytes "b" ++ [0]])).map
      (fun s' => (s'.pc, s'.message .response)) = some (.send .response, bytes "a") := by decide +kernel
  obtain ⟨s', ran, same⟩ := Option.map_eq_some_iff.mp computed
  obtain ⟨there, message⟩ := Prod.mk.inj same
  refine ⟨s', ran, there, message, by decide +kernel, fun arrives => ?_⟩
  exact arrives.noNul (by decide +kernel) (by decide +kernel)

end LocalServer.CommandOutput
