import LocalServer.ResponsePipe

/-! What arrives of a response. The two loops count on their own, yet the bytes in
the pipe are always those the one has written and the other has not read, so the
reader gets the message that was written, whole, and stops where the writer does. -/
namespace LocalServer.ResponsePipe
open Runs

/-- How many bytes of its frame the child has written. -/
def Sender.progress (s : Sender) : Nat :=
  match s.pc with
  | .body => SIZEOF_SIZE_T + s.total
  | .close | .exited _ => SIZEOF_SIZE_T + s.res.size
  | _ => 0

/-- How many bytes of a frame of this response the reader has read. -/
def Listener.progress (l : Listener) (res : Response) : Nat :=
  match l.pc with
  | .open | .select | .readSize => 0
  | .malloc => SIZEOF_SIZE_T
  | .selectBody | .readBody => SIZEOF_SIZE_T + l.msg.length
  | .mallocBuffer | .close | .returned _ => SIZEOF_SIZE_T + res.size

/-- The child holds the write end, or is about to. -/
def Sender.holds (s : Sender) : Bool :=
  match s.pc with
  | .opening _ | .header | .body | .close => true
  | _ => false

/-- The child has not come to its `open` yet. -/
def Sender.early (s : Sender) : Bool :=
  match s.pc with
  | .sigfillset | .sigaction | .open => true
  | _ => false

/-- No reader was needed so far. -/
def Sender.waits (s : Sender) : Bool :=
  match s.pc with
  | .sigfillset | .sigaction | .open | .opening _ => true
  | _ => false

/-- The reader holds the read end. -/
def Listener.holds (l : Listener) : Bool :=
  match l.pc with
  | .open | .returned _ => false
  | _ => true

/-- What the reader ends up with. -/
def received (res : Response) : List Byte :=
  strncpy (List.replicate res.size 0) res.msg res.size

/-- The locals of the child agree with its place. -/
def Sender.Sound (res : Response) (s : Sender) : Prop :=
  s.res = res ∧ (0 ≤ s.maxSize → (res.size : Int) ≤ s.maxSize) ∧
  match s.pc with
  | .body => s.total ≤ res.size
  | .close => True
  | .exited code => code = 0
  | _ => s.total = 0

/-- The locals of the reader agree with its place. -/
def Listener.Sound (res : Response) (l : Listener) : Prop :=
  match l.pc with
  | .open | .select | .readSize => True
  | .malloc => l.cell.bytes = sizeBytes res.size
  | .selectBody | .readBody =>
    l.size = res.size ∧ l.msg = res.msg.take l.msg.length ∧ l.msg.length < res.size
  | .mallocBuffer => l.size = res.size ∧ l.msg = res.msg
  | .close => l.buffer = some (received res)
  | .returned r => r = 1 ∧ l.buffer = some (received res)

/-- The reader is about to read. -/
def Listener.reads (l : Listener) : Bool :=
  match l.pc with
  | .readSize | .readBody => true
  | _ => false

/-- The response is on its way. -/
structure Transfer (res : Response) (x : Exchange) : Prop where
  sender : x.sender.Sound res
  listener : x.listener.Sound res
  behind : x.listener.progress res ≤ x.sender.progress
  written : x.written = res.frame.take x.sender.progress
  consumed : x.consumed = res.frame.take (x.listener.progress res)
  data : x.written = x.consumed ++ x.fifo.data
  ready : x.listener.reads = true → x.fifo.data ≠ []
  writeEnd : x.fifo.writeOpens = x.fifo.writeCloses + if x.sender.holds then 1 else 0
  readEnd : x.fifo.readOpens = x.fifo.readCloses + if x.listener.holds then 1 else 0
  unheard : x.sender.early = true → x.listener.holds = true → x.fifo.writeOpens ≤ x.listener.gone
  unopened : x.listener.pc = .open → x.sender.waits = true
  waiting : ∀ gone, x.sender.pc = .opening gone →
    gone ≤ x.fifo.readCloses ∧ (x.listener.pc = .open → gone = x.fifo.readCloses)

variable {res : Response} {x x' : Exchange} {answer : Answer} {s : Sender} {l : Listener}

/-! ## The frame, piece by piece -/

theorem frame_length (res : Response) : res.frame.length = SIZEOF_SIZE_T + res.size := by
  simp [Response.frame, sizeBytes_length, res.length_eq]

theorem frame_take_header (res : Response) :
    res.frame.take SIZEOF_SIZE_T = sizeBytes res.size := by
  rw [Response.frame, List.take_append_of_le_length (sizeBytes_length _).ge,
    List.take_of_length_le (sizeBytes_length _).le]

theorem frame_take_body (res : Response) (n : Nat) :
    res.frame.take (SIZEOF_SIZE_T + n) = sizeBytes res.size ++ res.msg.take n := by
  rw [Response.frame, ← sizeBytes_length res.size, List.take_length_add_append]

theorem frame_take_all (res : Response) : res.frame.take (SIZEOF_SIZE_T + res.size) = res.frame :=
  List.take_of_length_le (frame_length res).le

/-- Leaving or entering the loop, the child has written what its total says. -/
theorem Sender.loop_sound (same : s.res = res)
    (limit : 0 ≤ s.maxSize → (res.size : Int) ≤ s.maxSize) (bound : s.total ≤ res.size) :
    s.loop.Sound res ∧ s.loop.progress = SIZEOF_SIZE_T + s.total ∧ s.loop.holds = true ∧
      s.loop.early = false ∧ ∀ gone, s.loop.pc ≠ .opening gone := by
  unfold Sender.loop
  split
  · exact ⟨⟨same, limit, bound⟩, rfl, rfl, rfl, by simp⟩
  · next stops =>
    have full : s.total = res.size := by have := limit (by omega); omega
    exact ⟨⟨same, limit, trivial⟩, by simp [Sender.progress, same, full], rfl, rfl, by simp⟩

theorem Sender.Sound.progress_le (sound : s.Sound res) :
    s.progress ≤ SIZEOF_SIZE_T + res.size := by
  obtain ⟨same, limit, place⟩ := sound
  unfold Sender.progress
  cases here : s.pc <;> simp_all

theorem Listener.progress_le (sound : l.Sound res) :
    l.progress res ≤ SIZEOF_SIZE_T + res.size := by
  unfold Listener.progress
  unfold Listener.Sound at sound
  cases here : l.pc <;> simp only [here] at sound ⊢ <;> omega

/-- What lies in the pipe was written and not read yet. -/
theorem Transfer.data_length (transfer : Transfer res x) :
    x.fifo.data.length = x.sender.progress - x.listener.progress res := by
  have lengths := congrArg List.length transfer.data
  have sent := transfer.sender.progress_le
  have got := Listener.progress_le transfer.listener
  simp only [transfer.written, transfer.consumed, List.length_append, List.length_take,
    frame_length] at lengths
  omega

/-- When the reader has the whole frame, nothing is left in the pipe. -/
theorem Transfer.emptied (transfer : Transfer res x)
    (all : x.listener.progress res = SIZEOF_SIZE_T + res.size) : x.fifo.data = [] := by
  have sent := transfer.sender.progress_le
  exact List.eq_nil_of_length_eq_zero (by rw [transfer.data_length]; omega)

/-- `select` lets the reader go on only when there is something to read: while a
part of the frame is missing, the child has not come yet or is not gone. -/
theorem Transfer.readable (transfer : Transfer res x) (holds : x.listener.holds = true)
    (unfinished : x.listener.progress res < SIZEOF_SIZE_T + res.size)
    (selectable : x.fifo.selectable x.listener.gone = true) : x.fifo.data ≠ [] := by
  intro empty
  have closed : x.listener.gone < x.fifo.writeOpens ∧ x.fifo.writeOpens = x.fifo.writeCloses := by
    simpa [Fifo.selectable, empty, Fifo.abandoned] using selectable
  have missing := transfer.data_length
  rw [empty, List.length_nil] at missing
  have writeEnd := transfer.writeEnd
  by_cases early : x.sender.early = true
  · have := transfer.unheard early holds
    omega
  · cases here : x.sender.pc <;>
      simp [Sender.early, Sender.holds, Sender.progress, transfer.sender.1, here] at early writeEnd missing <;>
      omega

/-- The next bytes of the pipe are the next bytes of the frame. -/
theorem Transfer.take_data (transfer : Transfer res x) {n : Nat} (there : n ≤ x.fifo.data.length) :
    res.frame.take (x.listener.progress res + n) = x.consumed ++ x.fifo.data.take n := by
  have length := transfer.data_length
  have behind := transfer.behind
  have got := Listener.progress_le transfer.listener
  have whole := congrArg (List.take (x.listener.progress res + n)) transfer.data
  have consumed : x.consumed.length = x.listener.progress res := by
    simp only [transfer.consumed, List.length_take, frame_length]
    omega
  rw [← consumed] at whole ⊢
  rw [transfer.written, List.take_take, Nat.min_eq_left (by omega),
    List.take_length_add_append] at whole
  exact whole

/-! ## Steps of the child -/

/-- A step of the child that puts the next bytes of the frame into the pipe. -/
theorem Transfer.sends (transfer : Transfer res x) {s' : Sender} {f' : Fifo Byte}
    {chunk : List Byte} (sound : s'.Sound res)
    (piece : res.frame.take s'.progress = res.frame.take x.sender.progress ++ chunk)
    (forward : x.sender.progress ≤ s'.progress) (data : f'.data = x.fifo.data ++ chunk)
    (writeEnd : f'.writeOpens = f'.writeCloses + if s'.holds then 1 else 0)
    (readers : f'.readOpens = x.fifo.readOpens ∧ f'.readCloses = x.fifo.readCloses)
    (unheard : s'.early = true → x.sender.early = true ∧ f'.writeOpens = x.fifo.writeOpens)
    (unopened : x.listener.pc = .open → s'.waits = true)
    (waiting : ∀ gone, s'.pc = .opening gone → gone = x.fifo.readCloses) :
    Transfer res { x with sender := s', fifo := f', written := x.written ++ chunk } where
  sender := sound
  listener := transfer.listener
  behind := transfer.behind.trans forward
  written := by rw [transfer.written, piece]
  consumed := transfer.consumed
  data := by rw [data, transfer.data, List.append_assoc]
  ready := fun reads => by simpa [data] using fun empty => absurd empty (transfer.ready reads)
  writeEnd := writeEnd
  readEnd := by rw [readers.1, readers.2]; exact transfer.readEnd
  unheard := fun early holds => by
    rw [(unheard early).2]
    exact transfer.unheard (unheard early).1 holds
  unopened := unopened
  waiting := fun gone opening => by
    rw [readers.2]
    exact ⟨(waiting gone opening).le, fun _ => waiting gone opening⟩

/-- The child comes closer to its `open` or through it. -/
theorem Transfer.prepares (transfer : Transfer res x) {s' : Sender} {f' : Fifo Byte}
    (here : x.sender.progress = 0) (sound : s'.Sound res) (there : s'.progress = 0)
    (data : f'.data = x.fifo.data)
    (writeEnd : f'.writeOpens = f'.writeCloses + if s'.holds then 1 else 0)
    (readers : f'.readOpens = x.fifo.readOpens ∧ f'.readCloses = x.fifo.readCloses)
    (unheard : s'.early = true → x.sender.early = true ∧ f'.writeOpens = x.fifo.writeOpens)
    (unopened : x.listener.pc = .open → s'.waits = true)
    (waiting : ∀ gone, s'.pc = .opening gone → gone = x.fifo.readCloses) :
    Transfer res { x with sender := s', fifo := f', written := x.written ++ [] } :=
  transfer.sends sound (by rw [here, there]; simp) (by omega) (by simpa using data) writeEnd readers
    unheard unopened waiting

theorem transfer_sends (transfer : Transfer res x) (smooth : (Event.sends answer).smooth = true)
    (stepped : step x (.sends answer) = some x') : Transfer res x' := by
  simp only [step, Option.map_eq_some_iff] at stepped
  obtain ⟨⟨s', f', chunk⟩, moved, rfl⟩ := stepped
  obtain ⟨same, limit, place⟩ := transfer.sender
  have writeEnd := transfer.writeEnd
  cases here : x.sender.pc with
  | sigfillset =>
    cases answer <;> simp [sendResponse, here, Event.smooth] at moved smooth
    obtain ⟨rfl, rfl, rfl⟩ := moved
    rw [here] at place
    exact transfer.prepares (by simp [Sender.progress, here]) ⟨same, limit, place⟩ rfl rfl
      (by simpa [Sender.holds, here] using writeEnd) ⟨rfl, rfl⟩
      (fun _ => ⟨by simp [Sender.early, here], rfl⟩) (fun _ => rfl) (by simp)
  | sigaction =>
    cases answer <;> simp [sendResponse, here, Event.smooth] at moved smooth
    obtain ⟨rfl, rfl, rfl⟩ := moved
    rw [here] at place
    exact transfer.prepares (by simp [Sender.progress, here]) ⟨same, limit, place⟩ rfl rfl
      (by simpa [Sender.holds, here] using writeEnd) ⟨rfl, rfl⟩
      (fun _ => ⟨by simp [Sender.early, here], rfl⟩) (fun _ => rfl) (by simp)
  | «open» =>
    cases answer <;> simp [sendResponse, here, Event.smooth] at moved smooth
    obtain ⟨rfl, rfl, rfl⟩ := moved
    rw [here] at place
    exact transfer.prepares (by simp [Sender.progress, here]) ⟨same, limit, place⟩ rfl rfl
      (by simpa [Sender.holds, here, Fifo.joinWrite] using writeEnd) ⟨rfl, rfl⟩
      (by simp [Sender.early]) (fun _ => rfl) (by simp)
  | opening gone =>
    cases answer <;> simp [sendResponse, here, Event.smooth] at moved smooth
    obtain ⟨opened, rfl, rfl, rfl⟩ := moved
    rw [here] at place
    refine transfer.prepares (by simp [Sender.progress, here]) ⟨same, limit, place⟩ rfl rfl
      (by simpa [Sender.holds, here] using writeEnd) ⟨rfl, rfl⟩ (by simp [Sender.early])
      (fun unopened => ?_) (by simp)
    -- without a reader `open` would not have returned
    have since := (transfer.waiting gone here).2 unopened
    have readEnd := transfer.readEnd
    simp only [Listener.holds, unopened] at readEnd
    simp [Fifo.writeOpened, readEnd, since] at opened
  | header =>
    cases answer <;> simp [sendResponse, here, Event.smooth] at moved smooth
    obtain ⟨wrote, rfl, rfl⟩ := moved
    obtain ⟨-, -, rfl⟩ := Fifo.write_eq_some.mp wrote
    have none : x.sender.total = 0 := by simpa [here] using place
    obtain ⟨sound, progress, holds, early, notOpening⟩ :=
      Sender.loop_sound same limit (by omega : x.sender.total ≤ res.size)
    have begun : x.sender.progress = 0 := by simp [Sender.progress, here]
    refine transfer.sends sound ?_ (by omega) rfl ?_ ⟨rfl, rfl⟩ (by simp [early])
      (fun unopened => by simpa [Sender.waits, here] using transfer.unopened unopened)
      fun gone opening => absurd opening (notOpening gone)
    · rw [progress, begun, none, same, Nat.add_zero, frame_take_header]
      rfl
    · simp only [holds]
      simpa [Sender.holds, here] using writeEnd
  | body =>
    cases answer <;> simp [sendResponse, here, Event.smooth] at moved smooth
    rename_i n
    have heard : x.listener.pc ≠ .open := fun unopened => by
      simpa [Sender.waits, here] using transfer.unopened unopened
    have bound : x.sender.total ≤ res.size := by simpa [here] using place
    have begun : x.sender.progress = SIZEOF_SIZE_T + x.sender.total := by
      simp [Sender.progress, here]
    split at moved
    · next spent =>
      simp only [Option.some.injEq, Prod.mk.injEq] at moved
      obtain ⟨rfl, rfl, rfl⟩ := moved
      have full : x.sender.total = res.size := by rw [← same]; exact spent.2.symm
      have done : Sender.progress { x.sender with pc := .close } = x.sender.progress := by
        rw [begun, Sender.progress, same, full]
      refine transfer.sends ⟨same, limit, trivial⟩ (by rw [done]; simp) done.ge (by simp) ?_
        ⟨rfl, rfl⟩ (by simp [Sender.early]) (fun unopened => absurd unopened heard) (by simp)
      · simpa [Sender.holds, here] using writeEnd
    · split at moved
      · next some =>
        simp only [Option.map_eq_some_iff, Prod.mk.injEq] at moved
        obtain ⟨f', wrote, rfl, rfl, rfl⟩ := moved
        obtain ⟨-, -, rfl⟩ := Fifo.write_eq_some.mp wrote
        rw [same] at some
        obtain ⟨sound, progress, holds, early, notOpening⟩ :=
          Sender.loop_sound (s := x.sender.count n) same limit
            (by show x.sender.total + n ≤ res.size; omega)
        have total : (x.sender.count n).total = x.sender.total + n := rfl
        have forward : x.sender.progress ≤ (x.sender.count n).loop.progress := by omega
        refine transfer.sends sound ?_ forward rfl ?_ ⟨rfl, rfl⟩ (by simp [early])
          (fun unopened => absurd unopened heard)
          fun gone opening => absurd opening (notOpening gone)
        · rw [progress, total, begun, frame_take_body, frame_take_body, same, List.append_assoc,
            ← List.take_add]
        · simp only [holds]
          simpa [Sender.holds, here] using writeEnd
      · cases moved
  | close =>
    cases answer <;> simp [sendResponse, here, Event.smooth] at moved smooth
    obtain ⟨rfl, rfl, rfl⟩ := moved
    have heard : x.listener.pc ≠ .open := fun unopened => by
      simpa [Sender.waits, here] using transfer.unopened unopened
    have done : (x.sender.exit 0).progress = x.sender.progress := by
      simp [Sender.progress, Sender.exit, here]
    refine transfer.sends ⟨same, limit, rfl⟩ (by simp [done]) done.ge ?_ ?_
      ⟨by simp [Fifo.leaveWrite], by simp [Fifo.leaveWrite]⟩ (by simp [Sender.early, Sender.exit])
      (fun unopened => absurd unopened heard) (by simp [Sender.exit])
    · rw [List.append_nil]
      refine Fifo.settle_data ?_
      by_cases holds : x.listener.holds = true
      · exact .inl (by simp [transfer.readEnd, holds])
      · refine .inr (.inr (transfer.emptied ?_))
        cases there : x.listener.pc <;> simp_all [Listener.holds, Listener.progress]
    · simpa [Sender.holds, Sender.exit, here, Fifo.leaveWrite] using writeEnd
  | exited code => cases answer <;> simp [sendResponse, here] at moved

/-! ## Steps of the reader -/

/-- Leaving or entering the loop, the reader has read what its total says. -/
theorem Listener.loop_sound (size : l.size = res.size) (msg : l.msg = res.msg.take l.msg.length)
    (bound : l.msg.length ≤ res.size) :
    l.loop.Sound res ∧ l.loop.progress res = SIZEOF_SIZE_T + l.msg.length ∧
      l.loop.holds = true ∧ l.loop.reads = false ∧ l.loop.pc ≠ .open ∧ l.loop.gone = l.gone := by
  unfold Listener.loop
  split
  · next goes =>
    exact ⟨⟨size, msg, by show l.msg.length < res.size; omega⟩, rfl, rfl, rfl, by simp, rfl⟩
  · next stops =>
    have full : l.msg.length = res.size := by omega
    refine ⟨⟨size, ?_⟩, by simp [Listener.progress, full], rfl, rfl, by simp, rfl⟩
    rw [msg, full, ← res.length_eq, List.take_length]

/-- A step of the reader that takes the next bytes of the frame out of the pipe. -/
theorem Transfer.listens (transfer : Transfer res x) {l' : Listener} {f' : Fifo Byte}
    {chunk : List Byte} (sound : l'.Sound res)
    (progress : l'.progress res = x.listener.progress res + chunk.length)
    (data : x.fifo.data = chunk ++ f'.data) (ready : l'.reads = true → f'.data ≠ [])
    (readEnd : f'.readOpens = f'.readCloses + if l'.holds then 1 else 0)
    (writers : f'.writeOpens = x.fifo.writeOpens ∧ f'.writeCloses = x.fifo.writeCloses)
    (opened : l'.pc ≠ .open)
    (unheard : x.sender.early = true → l'.holds = true →
      x.fifo.writeOpens ≤ l'.gone ∨ l'.gone = x.listener.gone ∧ x.listener.holds = true)
    (later : x.fifo.readCloses ≤ f'.readCloses) :
    Transfer res { x with listener := l', fifo := f', consumed := x.consumed ++ chunk } := by
  have split := transfer.data
  rw [data, ← List.append_assoc] at split
  have lengths := congrArg List.length (transfer.written.symm.trans split)
  have consumed := congrArg List.length transfer.consumed
  have bound := Listener.progress_le transfer.listener
  simp only [List.length_take, List.length_append, frame_length] at lengths consumed
  have behind : l'.progress res ≤ x.sender.progress := by have := transfer.behind; omega
  refine ⟨transfer.sender, sound, behind, transfer.written, ?_, split, ready, ?_, readEnd, ?_,
    fun unopened => absurd unopened opened, ?_⟩
  · have prefixed := congrArg (List.take (l'.progress res)) split
    rw [transfer.written, List.take_take, Nat.min_eq_left behind] at prefixed
    rw [prefixed, List.take_left' (by simp only [List.length_append]; omega)]
  · rw [writers.1, writers.2]
    exact transfer.writeEnd
  · intro early holds
    rw [writers.1]
    rcases unheard early holds with direct | ⟨same, held⟩
    · exact direct
    · rw [same]
      exact transfer.unheard early held
  · intro gone opening
    exact ⟨(transfer.waiting gone opening).1.trans later, fun unopened => absurd unopened opened⟩

theorem transfer_listens (transfer : Transfer res x)
    (smooth : (Event.listens answer).smooth = true)
    (stepped : step x (.listens answer) = some x') : Transfer res x' := by
  simp only [step, Option.map_eq_some_iff] at stepped
  obtain ⟨⟨l', f', chunk⟩, moved, rfl⟩ := stepped
  have sound := transfer.listener
  have readEnd := transfer.readEnd
  have skip : x.fifo.data = [] ++ x.fifo.data := rfl
  cases here : x.listener.pc with
  | «open» =>
    cases answer <;> simp [listenResponse, here, Event.smooth] at moved smooth
    obtain ⟨rfl, rfl, rfl⟩ := moved
    refine transfer.listens trivial (by simp [Listener.progress, here]) skip
      (by simp [Listener.reads])
      (by simpa [Listener.holds, here, Fifo.joinRead] using readEnd) ⟨rfl, rfl⟩ (by simp)
      (fun early _ => .inl ?_) (Nat.le_refl _)
    have writeEnd := transfer.writeEnd
    cases there : x.sender.pc <;> simp [Sender.early, Sender.holds, there] at early writeEnd <;>
      exact writeEnd.le
  | select =>
    cases answer <;> simp [listenResponse, here, Event.smooth] at moved smooth
    obtain ⟨selectable, rfl, rfl, rfl⟩ := moved
    have holds : x.listener.holds = true := by simp [Listener.holds, here]
    have readable := transfer.readable holds (by simp [Listener.progress, here, SIZEOF_SIZE_T])
      selectable
    exact transfer.listens trivial (by simp [Listener.progress, here]) skip (fun _ => readable)
      (by simpa [Listener.holds, here] using readEnd) ⟨rfl, rfl⟩ (by simp)
      (fun _ _ => .inr ⟨rfl, holds⟩) (Nat.le_refl _)
  | readSize =>
    cases answer <;> simp [listenResponse, here, Event.smooth] at moved smooth
    obtain ⟨-, rfl, rfl, rfl⟩ := moved
    have holds : x.listener.holds = true := by simp [Listener.holds, here]
    have none : x.listener.progress res = 0 := by simp [Listener.progress, here]
    have some := List.length_pos_iff.mpr (transfer.ready (by simp [Listener.reads, here]))
    have length := transfer.data_length
    -- the header was written at once
    have whole : SIZEOF_SIZE_T ≤ x.fifo.data.length := by
      rw [length] at some ⊢
      cases there : x.sender.pc <;> simp [Sender.progress, there, none] at some ⊢
    have header : x.fifo.data.take SIZEOF_SIZE_T = sizeBytes res.size := by
      have pieces := transfer.take_data whole
      rw [none, Nat.zero_add, frame_take_header, transfer.consumed, none] at pieces
      simpa using pieces.symm
    refine transfer.listens ?_ (by simp [Listener.progress, here, whole])
      (List.take_append_drop ..).symm (by simp [Listener.reads])
      (by simpa [Listener.holds, here, Fifo.drop] using readEnd) ⟨rfl, rfl⟩ (by simp)
      (fun _ _ => .inr ⟨rfl, holds⟩) (Nat.le_refl _)
    simp [Listener.Sound, overwrite, header, sizeBytes_length]
  | malloc =>
    cases answer <;> simp [listenResponse, here, Event.smooth] at moved smooth
    obtain ⟨rfl, rfl, rfl⟩ := moved
    rw [Listener.Sound, here] at sound
    have small : res.size < 256 ^ SIZEOF_SIZE_T :=
      res.fits.trans_lt (by norm_num [OBJECT_MAX, SIZEOF_SIZE_T])
    have size : ofBytes x.listener.cell.bytes = res.size := by
      rw [sound, sizeBytes, ofBytes_toBytes small]
    obtain ⟨sound', progress, holds, reads, opened, gone⟩ :=
      Listener.loop_sound (l := x.listener.begin (ofBytes x.listener.cell.bytes)) size rfl
        (Nat.zero_le _)
    refine transfer.listens sound' (by rw [progress]; simp [Listener.progress, here, Listener.begin])
      skip (by simp [reads]) ?_ ⟨rfl, rfl⟩ opened
      (fun _ _ => .inr ⟨gone, by simp [Listener.holds, here]⟩) (Nat.le_refl _)
    simp only [holds]
    simpa [Listener.holds, here] using readEnd
  | selectBody =>
    cases answer <;> simp [listenResponse, here, Event.smooth] at moved smooth
    obtain ⟨selectable, rfl, rfl, rfl⟩ := moved
    have holds : x.listener.holds = true := by simp [Listener.holds, here]
    rw [Listener.Sound, here] at sound
    have readable := transfer.readable holds (by simp [Listener.progress, here, sound.2.2])
      selectable
    exact transfer.listens sound (by simp [Listener.progress, here]) skip (fun _ => readable)
      (by simpa [Listener.holds, here] using readEnd) ⟨rfl, rfl⟩ (by simp)
      (fun _ _ => .inr ⟨rfl, holds⟩) (Nat.le_refl _)
  | readBody =>
    cases answer <;> simp [listenResponse, here, Event.smooth] at moved smooth
    rename_i n
    have nonempty := transfer.ready (by simp [Listener.reads, here])
    simp only [nonempty, false_and, and_false, if_false] at moved
    split at moved
    case isFalse => cases moved
    case isTrue some =>
    simp only [Option.some.injEq, Prod.mk.injEq] at moved
    obtain ⟨rfl, rfl, rfl⟩ := moved
    rw [Listener.Sound, here] at sound
    obtain ⟨size, msg, -⟩ := sound
    have begun : x.listener.progress res = SIZEOF_SIZE_T + x.listener.msg.length := by
      simp [Listener.progress, here]
    have pieces := transfer.take_data some.2.2
    rw [begun, Nat.add_assoc, frame_take_body, transfer.consumed, begun, frame_take_body, ← msg,
      List.append_assoc, List.append_cancel_left_eq] at pieces
    have length : (x.listener.append (x.fifo.data.take n)).msg.length = x.listener.msg.length + n := by
      simp [Listener.append, some.2.2]
    obtain ⟨sound', progress, holds, reads, opened, gone⟩ :=
      Listener.loop_sound (l := x.listener.append (x.fifo.data.take n)) size
        (by rw [length]; exact pieces.symm) (by rw [length]; omega)
    refine transfer.listens sound' (by rw [progress, length, begun]; simp [some.2.2, Nat.add_assoc])
      (List.take_append_drop ..).symm (by simp [reads]) ?_ ⟨rfl, rfl⟩ opened
      (fun _ _ => .inr ⟨gone, by simp [Listener.holds, here]⟩) (Nat.le_refl _)
    simp only [holds]
    simpa [Listener.holds, here, Fifo.drop] using readEnd
  | mallocBuffer =>
    cases answer <;> simp [listenResponse, here, Event.smooth] at moved smooth
    obtain ⟨rfl, rfl, rfl⟩ := moved
    rw [Listener.Sound, here] at sound
    have holds : x.listener.holds = true := by simp [Listener.holds, here]
    refine transfer.listens ?_ (by simp [Listener.progress, here]) skip (by simp [Listener.reads])
      (by simpa [Listener.holds, here] using readEnd) ⟨rfl, rfl⟩ (by simp)
      (fun _ _ => .inr ⟨rfl, holds⟩) (Nat.le_refl _)
    simp only [Listener.Sound, received, sound.1, sound.2]
  | close =>
    cases answer <;> simp [listenResponse, here, Event.smooth] at moved smooth
    obtain ⟨rfl, rfl, rfl⟩ := moved
    rw [Listener.Sound, here] at sound
    have empty := transfer.emptied (by simp [Listener.progress, here])
    refine transfer.listens ⟨rfl, sound⟩ (by simp [Listener.progress, Listener.return, here])
      (by simp [empty, Fifo.leaveRead_empty])
      (by simp [Listener.reads, Listener.return]) ?_
      ⟨by simp [Fifo.leaveRead], by simp [Fifo.leaveRead]⟩ (by simp [Listener.return])
      (by simp [Listener.holds, Listener.return]) (by simp [Fifo.leaveRead])
    simpa [Listener.holds, Listener.return, here, Fifo.leaveRead] using readEnd
  | returned r => cases answer <;> simp [listenResponse, here] at moved

theorem transfer_step {event : Event} (transfer : Transfer res x) (smooth : event.smooth = true)
    (stepped : step x event = some x') : Transfer res x' := by
  cases event with
  | sends answer => exact transfer_sends transfer smooth stepped
  | listens answer => exact transfer_listens transfer smooth stepped

theorem transfer_start (msg : CString) (maxSize : Int) {fifo : Fifo Byte} (quiet : fifo.Quiet)
    (cell : CharArray SIZEOF_SIZE_T) :
    Transfer (makeResponse msg maxSize) (start msg maxSize fifo cell) where
  sender := by
    refine ⟨rfl, fun limited => ?_, rfl⟩
    simp only [makeResponse, responseSize, start] at limited ⊢
    rw [if_pos limited]
    omega
  listener := trivial
  behind := Nat.le_refl _
  written := rfl
  consumed := rfl
  data := by simp [start, quiet.data]
  ready := by simp [start, Listener.reads]
  writeEnd := by simp [start, Sender.holds, quiet.writers]
  readEnd := by simp [start, Listener.holds, quiet.readers]
  unheard := by simp [start, Listener.holds]
  unopened := fun _ => rfl
  waiting := by simp [start]

end LocalServer.ResponsePipe
