import LocalServer.ResponsePipe

/-! What `listen_response` does behind the header, on a pipe into which somebody writes
some chunks before closing it. The header may announce any size, also one that there is
no memory for or that no `read` accepts. -/
namespace LocalServer.ResponseBody
open Runs
open ResponsePipe

/-- The pipe, what is still to be written into it, and `listen_response`. -/
structure Stream where
  fifo : Fifo Byte
  pending : List (List Byte)
  listener : Listener
  deriving DecidableEq

/-- What the system grants: the block of the response, whose size is computed modulo
`2 ^ 64`, the block of the caller's buffer, and reads of some lengths. -/
structure Grants where
  block : Bool
  buffer : Bool
  refused : Nat → Bool
  /-- What is refused stays refused when more is asked for. -/
  more : ∀ {m n}, m ≤ n → refused m = true → refused n = true
  /-- More than `SSIZE_MAX` is never read, so a block whose size has wrapped stays as it is. -/
  wide : ∀ {n}, 2 ^ 63 ≤ n → refused n = true

/-- The next chunk is written, the writer closes the pipe, or `listen_response` makes
a call: a `read`, which transfers `n` bytes if it works, or another one. -/
inductive Event where
  | writes
  | closes
  | calls
  | reads (n : Nat)
  deriving DecidableEq

/-- A call of `listen_response`. -/
def listen (s : Stream) (answer : Answer) : Option Stream :=
  (listenResponse s.listener s.fifo answer).map fun (listener, fifo, _) =>
    { s with listener := listener, fifo := fifo }

/-- How a call other than `read` is answered. -/
def Grants.answer (grants : Grants) (l : Listener) : Answer :=
  match l.pc with
  | .malloc => if grants.block then .ok else .fail
  | .mallocBuffer => if grants.buffer then .ok else .fail
  | _ => .ok

/-- How the `read` of the loop is answered. -/
def Grants.answerRead (grants : Grants) (l : Listener) (n : Nat) : Answer :=
  if grants.refused (l.size - l.msg.length) then .fail else .count n

def step (grants : Grants) (s : Stream) : Event → Option Stream
  | .writes =>
    match s.pending with
    | [] => none
    | chunk :: pending =>
      some { s with pending := pending, fifo := { s.fifo with data := s.fifo.data ++ chunk } }
  | .closes =>
    if s.pending = [] ∧ s.fifo.abandoned = false then some { s with fifo := s.fifo.leaveWrite }
    else none
  | .calls =>
    match s.listener.pc with
    | .readBody => none
    | _ => listen s (grants.answer s.listener)
  | .reads n =>
    match s.listener.pc with
    | .readBody => listen s (grants.answerRead s.listener n)
    | _ => none

/-- The size that a header announces. -/
def announced (header : CharArray SIZEOF_SIZE_T) : Nat := ofBytes header.bytes

/-- The header has been read; both ends of the pipe are open. -/
def start (header : CharArray SIZEOF_SIZE_T) (chunks : List (List Byte)) : Stream where
  fifo := ⟨PIPE_BUF, [], 1, 0, 1, 0⟩
  pending := chunks
  listener := ⟨.malloc, 0, header, 0, [], none⟩

/-- From here on there are no endless runs, and every run that cannot go on has
returned 1 when there were enough bytes, and no positive value otherwise. -/
def Ends (grants : Grants) (header : CharArray SIZEOF_SIZE_T) (chunks : List (List Byte)) : Prop :=
  (∃ most, ∀ events s, run (step grants) (start header chunks) events = some s →
    events.length ≤ most) ∧
  ∀ events s, run (step grants) (start header chunks) events = some s → Stuck (step grants) s →
    ∃ r, s.listener.pc = .returned r ∧
      (announced header ≤ chunks.flatten.length → r = 1) ∧
      (chunks.flatten.length < announced header → r ≤ 0)

/-! ## What a step can do -/

variable {grants : Grants} {header : CharArray SIZEOF_SIZE_T} {length : Nat}
  {chunks : List (List Byte)} {s s' : Stream} {event : Event}

/-- From the block of the response on. -/
def behind : ListenerPc → Bool
  | .malloc | .selectBody | .readBody | .mallocBuffer | .close | .returned _ => true
  | _ => false

inductive Move (grants : Grants) (s : Stream) : Stream → Prop
  | writes (chunk : List Byte) (pending : List (List Byte)) (next : s.pending = chunk :: pending) :
    Move grants s { s with pending := pending, fifo := { s.fifo with data := s.fifo.data ++ chunk } }
  | closes (written : s.pending = []) (held : s.fifo.abandoned = false) :
    Move grants s { s with fifo := s.fifo.leaveWrite }
  | begins (here : s.listener.pc = .malloc) (granted : grants.block = true) :
    Move grants s { s with listener := (s.listener.begin (announced s.listener.cell)).loop }
  | selects (here : s.listener.pc = .selectBody) :
    Move grants s { s with listener := { s.listener with pc := .readBody } }
  | ends (here : s.listener.pc = .readBody) (empty : s.fifo.data = [])
    (abandoned : s.fifo.abandoned = true)
    (accepted : grants.refused (s.listener.size - s.listener.msg.length) = false) :
    Move grants s { s with listener := s.listener.loop }
  | reads (n : Nat) (here : s.listener.pc = .readBody) (some : 0 < n)
    (asked : n ≤ s.listener.size - s.listener.msg.length) (there : n ≤ s.fifo.data.length)
    (accepted : grants.refused (s.listener.size - s.listener.msg.length) = false) :
    Move grants s
      { s with listener := (s.listener.append (s.fifo.data.take n)).loop, fifo := s.fifo.drop n }
  | copies (here : s.listener.pc = .mallocBuffer) (granted : grants.buffer = true)
    (buffer : Option (List Byte)) :
    Move grants s { s with listener := { s.listener with pc := .close, buffer := buffer } }
  | finishes (here : s.listener.pc = .close) :
    Move grants s { s with listener := s.listener.return 1, fifo := s.fifo.leaveRead }
  | noBlock (here : s.listener.pc = .malloc) (refused : grants.block = false) :
    Move grants s { s with listener := s.listener.return MEMORY_ERROR }
  | noRead (here : s.listener.pc = .readBody)
    (refused : grants.refused (s.listener.size - s.listener.msg.length) = true) :
    Move grants s { s with listener := s.listener.return PIPE_ERROR }
  | noBuffer (here : s.listener.pc = .mallocBuffer) (refused : grants.buffer = false) :
    Move grants s { s with listener := s.listener.return MEMORY_ERROR }

theorem move_of_step (place : behind s.listener.pc = true) (stepped : step grants s event = some s') :
    Move grants s s' := by
  cases event with
  | writes =>
    cases next : s.pending with
    | nil => simp [step, next] at stepped
    | cons chunk pending =>
      simp only [step, next, Option.some.injEq] at stepped
      exact stepped ▸ .writes chunk pending next
  | closes =>
    simp only [step, Option.ite_none_right_eq_some, Option.some.injEq] at stepped
    obtain ⟨⟨written, held⟩, rfl⟩ := stepped
    exact .closes written held
  | calls =>
    cases here : s.listener.pc with
    | malloc =>
      cases granted : grants.block <;>
        simp [step, listen, listenResponse, here, Grants.answer, granted] at stepped <;>
        subst stepped
      · exact .noBlock here granted
      · exact .begins here granted
    | selectBody =>
      simp only [step, listen, listenResponse, here, Grants.answer, Option.map_eq_some_iff,
        Option.ite_none_right_eq_some] at stepped
      obtain ⟨_, ⟨-, called⟩, rfl⟩ := stepped
      cases called
      exact .selects here
    | mallocBuffer =>
      cases granted : grants.buffer <;>
        simp [step, listen, listenResponse, here, Grants.answer, granted] at stepped <;>
        subst stepped
      · exact .noBuffer here granted
      · exact .copies here granted _
    | close =>
      simp only [step, listen, listenResponse, here, Grants.answer, Option.map_some,
        Option.some.injEq] at stepped
      exact stepped ▸ .finishes here
    | readBody | returned => simp [step, listen, listenResponse, here, Grants.answer] at stepped
    | _ => simp [behind, here] at place
  | reads n =>
    cases here : s.listener.pc with
    | readBody =>
      simp only [step, listen, here, Grants.answerRead, Option.map_eq_some_iff] at stepped
      obtain ⟨_, called, rfl⟩ := stepped
      cases accepted : grants.refused (s.listener.size - s.listener.msg.length) with
      | true =>
        simp only [accepted, if_true, listenResponse, here, Option.some.injEq] at called
        subst called
        exact .noRead here accepted
      | false =>
        simp only [accepted, Bool.false_eq_true, if_false, listenResponse, here] at called
        split at called
        · next none =>
          cases called
          exact .ends here none.2.1 none.2.2 accepted
        · simp only [Option.ite_none_right_eq_some] at called
          obtain ⟨⟨some, asked, there⟩, called⟩ := called
          cases called
          exact .reads n here some asked there accepted
    | _ => simp [step, here] at stepped

/-! ## What the loop has read -/

/-- Where `listen_response` may be, and what it was granted up to there. -/
def placed (grants : Grants) (size total : Nat) : ListenerPc → Prop
  | .malloc => total = 0
  | .selectBody | .readBody =>
    total < size ∧ grants.block = true ∧ (0 < total → grants.refused size = false)
  | .mallocBuffer =>
    total = size ∧ grants.block = true ∧ (0 < total → grants.refused size = false)
  | .close =>
    total = size ∧ grants.block = true ∧ (0 < total → grants.refused size = false) ∧
      grants.buffer = true
  | _ => False

/-- The size that is asked for, in the header or, once the block is there, in the locals. -/
def sizeOf (l : Listener) : Nat :=
  match l.pc with
  | .malloc => announced l.cell
  | .returned _ => 0
  | _ => l.size

/-- Both processes at work: what is read, written and to be written. -/
structure Reading (grants : Grants) (size length : Nat) (s : Stream) : Prop where
  header : sizeOf s.listener = size
  bytes : s.listener.msg.length + s.fifo.data.length + s.pending.flatten.length = length
  reader : s.fifo.readOpens = 1 ∧ s.fifo.readCloses = 0
  writer : s.fifo.writeOpens = 1 ∧ s.fifo.writeCloses ≤ 1 ∧ s.listener.gone = 0
  last : s.fifo.writeCloses = 1 → s.pending = []
  pc : placed grants size s.listener.msg.length s.listener.pc

/-- All calls of the reader are granted. -/
def Granted (grants : Grants) (size : Nat) : Prop :=
  grants.block = true ∧ grants.buffer = true ∧ (0 < size → grants.refused size = false)

/-- The reader gives up before its loop has read anything. -/
def GivesUp (grants : Grants) (size : Nat) : Prop :=
  grants.block = false ∨ 0 < size ∧ grants.refused size = true

/-- What is returned, and why. -/
def Final (grants : Grants) (size length : Nat) (r : Int) : Prop :=
  r = 1 ∧ size ≤ length ∧ Granted grants size ∨
    r ≤ 0 ∧ (GivesUp grants size ∨ size ≤ length ∧ grants.buffer = false)

/-- They are at work, or `listen_response` has returned. -/
def Reached (grants : Grants) (size length : Nat) (s : Stream) : Prop :=
  Reading grants size length s ∨
    (∃ r, s.listener.pc = .returned r ∧ Final grants size length r) ∧
      s.fifo.writeCloses ≤ s.fifo.writeOpens

variable {size : Nat}

theorem Reading.behind (reading : Reading grants size length s) : behind s.listener.pc = true := by
  have pc := reading.pc
  cases here : s.listener.pc <;> simp [here, placed] at pc <;> rfl

theorem sizeOf_loop (l : Listener) : sizeOf l.loop = l.size := by
  unfold Listener.loop
  by_cases more : l.msg.length < l.size <;> simp [sizeOf, more]

theorem placed_loop (l : Listener) (inside : l.msg.length ≤ l.size) (block : grants.block = true)
    (accepted : 0 < l.msg.length → grants.refused l.size = false) :
    placed grants l.size l.msg.length l.loop.pc := by
  by_cases more : l.msg.length < l.size
  · simpa [Listener.loop, more, placed, block] using accepted
  · have full : l.msg.length = l.size := by omega
    simpa [Listener.loop, full, placed, block] using full ▸ accepted

theorem reading_start (grants : Grants) (header : CharArray SIZEOF_SIZE_T)
    (chunks : List (List Byte)) :
    Reading grants (announced header) chunks.flatten.length (start header chunks) where
  header := rfl
  bytes := by simp [start]
  reader := ⟨rfl, rfl⟩
  writer := ⟨rfl, Nat.zero_le _, rfl⟩
  last := fun closed => by cases closed
  pc := rfl

theorem reading_move (reading : Reading grants size length s) (move : Move grants s s') :
    Reached grants size length s' := by
  obtain ⟨header, bytes, reader, writer, last, pc⟩ := reading
  have ends : s.fifo.writeCloses ≤ s.fifo.writeOpens := by omega
  cases move with
  | writes chunk pending next =>
    rw [next] at bytes
    refine .inl ⟨header, ?_, reader, writer, fun closed => ?_, pc⟩
    · simp only [List.length_append, List.flatten_cons] at bytes ⊢
      omega
    · rw [last closed] at next
      cases next
  | closes written held =>
    have kept : s.fifo.leaveWrite.data = s.fifo.data :=
      Fifo.settle_data (.inl (by show s.fifo.readOpens ≠ s.fifo.readCloses; omega))
    have still : s.fifo.writeOpens ≠ s.fifo.writeCloses := by simpa [Fifo.abandoned] using held
    refine .inl ⟨header, by rw [kept]; exact bytes, ?_, ?_, fun _ => written, pc⟩
    · simpa [Fifo.leaveWrite] using reader
    · simp only [Fifo.leaveWrite, Fifo.settle_writeOpens, Fifo.settle_writeCloses]
      omega
  | begins here granted =>
    have none : s.listener.msg.length = 0 := by simpa [here, placed] using pc
    obtain rfl : announced s.listener.cell = size := by simpa [sizeOf, here] using header
    have start : (s.listener.begin (announced s.listener.cell)).loop.msg.length = 0 := rfl
    refine .inl ⟨sizeOf_loop _, ?_, reader, writer, last, ?_⟩
    · rw [none] at bytes
      exact bytes
    · exact placed_loop (s.listener.begin (announced s.listener.cell)) (Nat.zero_le _) granted
        fun some => by simp [Listener.begin] at some
  | selects here =>
    exact .inl ⟨by simpa [sizeOf, here] using header, bytes, reader, writer, last,
      by simpa [here, placed] using pc⟩
  | ends here empty abandoned accepted =>
    obtain ⟨inside, block, after⟩ := by simpa only [here, placed] using pc
    obtain rfl : s.listener.size = size := by simpa [sizeOf, here] using header
    exact .inl ⟨sizeOf_loop _, bytes, reader, writer, last, placed_loop _ inside.le block after⟩
  | reads n here some asked there accepted =>
    obtain ⟨inside, block, after⟩ := by simpa only [here, placed] using pc
    obtain rfl : s.listener.size = size := by simpa [sizeOf, here] using header
    have taken : (s.fifo.data.take n).length = n := List.length_take_of_le there
    have total : (s.listener.append (s.fifo.data.take n)).msg.length = s.listener.msg.length + n := by
      simp only [Listener.append, List.length_append, taken]
    have whole : grants.refused s.listener.size = false := by
      by_cases begun : 0 < s.listener.msg.length
      · exact after begun
      · rwa [show s.listener.size - s.listener.msg.length = s.listener.size by omega] at accepted
    refine .inl ⟨sizeOf_loop _, ?_, reader, writer, last, ?_⟩
    · change (s.listener.append _).msg.length + (s.fifo.data.drop n).length + s.pending.flatten.length = _
      rw [total, List.length_drop]
      omega
    · refine placed_loop (s.listener.append (s.fifo.data.take n)) ?_ block fun _ => whole
      rw [total]
      show _ ≤ s.listener.size
      omega
  | copies here granted buffer =>
    obtain ⟨all, block, after⟩ := by simpa only [here, placed] using pc
    exact .inl ⟨by simpa [sizeOf, here] using header, bytes, reader, writer, last,
      ⟨all, block, after, granted⟩⟩
  | finishes here =>
    obtain ⟨all, block, after, buffer⟩ := by simpa only [here, placed] using pc
    refine .inr ⟨⟨1, rfl, .inl ⟨rfl, by omega, block, buffer, ?_⟩⟩, ?_⟩
    · rwa [all] at after
    · simp only [Fifo.leaveRead, Fifo.settle_writeOpens, Fifo.settle_writeCloses]
      omega
  | noBlock here refused =>
    exact .inr ⟨⟨_, rfl, .inr ⟨by decide, .inl (.inl refused)⟩⟩, ends⟩
  | noRead here refused =>
    obtain ⟨inside, block, after⟩ := by simpa only [here, placed] using pc
    obtain rfl : s.listener.size = size := by simpa [sizeOf, here] using header
    -- a read of what is left is refused only if that of the whole was
    have whole := grants.more (Nat.sub_le _ s.listener.msg.length) refused
    exact .inr ⟨⟨_, rfl, .inr ⟨by decide, .inl (.inr ⟨by omega, whole⟩)⟩⟩, ends⟩
  | noBuffer here refused =>
    obtain ⟨all, block, after⟩ := by simpa only [here, placed] using pc
    exact .inr ⟨⟨_, rfl, .inr ⟨by decide, .inr ⟨by omega, refused⟩⟩⟩, ends⟩

/-- Behind its return `listen_response` makes no call, and only the writer goes on. -/
theorem returned_step {r : Int} (returned : s.listener.pc = .returned r)
    (stepped : step grants s event = some s') :
    (∃ chunk pending, s.pending = chunk :: pending ∧
      s' = { s with pending := pending, fifo := { s.fifo with data := s.fifo.data ++ chunk } }) ∨
    s.fifo.abandoned = false ∧ s' = { s with fifo := s.fifo.leaveWrite } := by
  cases move_of_step (by simp [behind, returned]) stepped with
  | writes chunk pending next => exact .inl ⟨chunk, pending, next, rfl⟩
  | closes written held => exact .inr ⟨held, rfl⟩
  | begins here | selects here | ends here | reads _ here | copies here | finishes here | noBlock here
  | noRead here | noBuffer here =>
    rw [returned] at here
    cases here

theorem reached_step (reached : Reached grants size length s) (stepped : step grants s event = some s') :
    Reached grants size length s' := by
  rcases reached with reading | ⟨⟨r, returned, final⟩, ends⟩
  · exact reading_move reading (move_of_step reading.behind stepped)
  · rcases returned_step returned stepped with ⟨chunk, pending, -, rfl⟩ | ⟨held, rfl⟩
    · exact .inr ⟨⟨r, returned, final⟩, ends⟩
    · have still : s.fifo.writeOpens ≠ s.fifo.writeCloses := by simpa [Fifo.abandoned] using held
      refine .inr ⟨⟨r, returned, final⟩, ?_⟩
      simp only [Fifo.leaveWrite, Fifo.settle_writeOpens, Fifo.settle_writeCloses]
      omega

/-- As long as the reader has not returned somebody can go on. -/
theorem reading_progress (reading : Reading grants size length s) : ¬ Stuck (step grants) s := by
  obtain ⟨header, bytes, reader, writer, last, pc⟩ := reading
  intro stuck
  have written : s.pending = [] := by
    have disabled := stuck .writes
    cases next : s.pending with
    | nil => rfl
    | cons chunk pending => simp [step, next] at disabled
  have abandoned : s.fifo.abandoned = true := by
    have disabled := stuck .closes
    simpa [step, written] using disabled
  have called := stuck .calls
  cases here : s.listener.pc with
  | malloc =>
    cases granted : grants.block <;>
      simp [step, listen, listenResponse, here, Grants.answer, granted] at called
  | selectBody =>
    have selectable : s.fifo.selectable s.listener.gone = true := by
      simp [Fifo.selectable, abandoned, writer.1, writer.2.2]
    simp [step, listen, listenResponse, here, Grants.answer, selectable] at called
  | readBody =>
    obtain ⟨inside, -⟩ := by simpa only [here, placed] using pc
    obtain rfl : s.listener.size = size := by simpa [sizeOf, here] using header
    have read := fun n => stuck (.reads n)
    simp only [step, here, listen, Grants.answerRead, Option.map_eq_none_iff] at read
    cases accepted : grants.refused (s.listener.size - s.listener.msg.length) with
    | true => simpa [accepted, listenResponse, here] using read 0
    | false =>
      simp only [accepted, Bool.false_eq_true, if_false, listenResponse, here] at read
      by_cases empty : s.fifo.data = []
      · simpa [empty, abandoned] using read 0
      · have some := List.length_pos_of_ne_nil empty
        have room : 1 ≤ s.listener.size - s.listener.msg.length ∧ 1 ≤ s.fifo.data.length := by omega
        simpa [room] using read 1
  | mallocBuffer =>
    cases granted : grants.buffer <;>
      simp [step, listen, listenResponse, here, Grants.answer, granted] at called
  | close => simp [step, listen, listenResponse, here, Grants.answer] at called
  | _ => simp [here, placed] at pc

/-! ## When the loop ends -/

/-- What is left to do before each call. -/
def weight : ListenerPc → Nat
  | .malloc => 4
  | .selectBody => 3
  | .readBody | .mallocBuffer => 2
  | .close => 1
  | _ => 0

def rank (s : Stream) : Nat :=
  s.pending.length + (s.fifo.writeOpens - s.fifo.writeCloses) +
    2 * (sizeOf s.listener - s.listener.msg.length) + weight s.listener.pc

theorem weight_loop (l : Listener) : weight l.loop.pc ≤ 3 := by
  unfold Listener.loop
  split <;> simp [weight]

/-- With enough bytes, or when the reader gives up, no read is of none, and every step
is one towards the end. -/
theorem reached_descent (meets : size ≤ length ∨ GivesUp grants size)
    (reached : Reached grants size length s) (stepped : step grants s event = some s') :
    rank s' < rank s := by
  rcases reached with reading | ⟨⟨r, returned, -⟩, ends⟩
  · have move := move_of_step reading.behind stepped
    obtain ⟨header, bytes, reader, writer, last, pc⟩ := reading
    cases move with
    | writes chunk pending next =>
      simp only [rank, next, List.length_cons]
      omega
    | closes written held =>
      have still : s.fifo.writeOpens ≠ s.fifo.writeCloses := by simpa [Fifo.abandoned] using held
      simp only [rank, Fifo.leaveWrite, Fifo.settle_writeOpens, Fifo.settle_writeCloses]
      omega
    | begins here granted =>
      have most := weight_loop (s.listener.begin (announced s.listener.cell))
      have none : s.listener.msg.length = 0 := by simpa [here, placed] using pc
      have before : rank s = s.pending.length + (s.fifo.writeOpens - s.fifo.writeCloses) +
          2 * announced s.listener.cell + 4 := by
        simp [rank, here, sizeOf, weight, none]
      change s.pending.length + (s.fifo.writeOpens - s.fifo.writeCloses) +
        2 * (sizeOf (s.listener.begin (announced s.listener.cell)).loop - 0) +
        weight (s.listener.begin (announced s.listener.cell)).loop.pc < rank s
      rw [before, sizeOf_loop]
      show _ + 2 * (announced s.listener.cell - 0) + _ < _
      omega
    | selects here => simp [rank, here, sizeOf, weight]
    | ends here empty abandoned accepted =>
      obtain ⟨inside, block, after⟩ := by simpa only [here, placed] using pc
      obtain rfl : s.listener.size = size := by simpa [sizeOf, here] using header
      have closed : s.fifo.writeOpens = s.fifo.writeCloses := by simpa [Fifo.abandoned] using abandoned
      have none := last (by omega)
      simp only [empty, none, List.length_nil, List.flatten_nil] at bytes
      rcases meets with enough | noBlock | ⟨some, refused⟩
      · omega
      · simp [noBlock] at block
      · have unread : s.listener.msg.length = 0 := by
          by_contra begun
          simp [after (by omega)] at refused
        rw [unread, Nat.sub_zero, refused] at accepted
        cases accepted
    | reads n here some asked there accepted =>
      have taken : (s.fifo.data.take n).length = n := List.length_take_of_le there
      have total : (s.listener.append (s.fifo.data.take n)).msg.length = s.listener.msg.length + n := by
        simp only [Listener.append, List.length_append, taken]
      have most := weight_loop (s.listener.append (s.fifo.data.take n))
      have before : rank s = s.pending.length + (s.fifo.writeOpens - s.fifo.writeCloses) +
          2 * (s.listener.size - s.listener.msg.length) + 2 := by
        simp [rank, here, sizeOf, weight]
      change s.pending.length + (s.fifo.writeOpens - s.fifo.writeCloses) +
        2 * (sizeOf (s.listener.append (s.fifo.data.take n)).loop -
          (s.listener.append (s.fifo.data.take n)).msg.length) +
        weight (s.listener.append (s.fifo.data.take n)).loop.pc < rank s
      rw [total, before, sizeOf_loop]
      show _ + 2 * (s.listener.size - _) + _ < _
      omega
    | copies here => simp [rank, here, sizeOf, weight]
    | finishes here => simp [rank, here, sizeOf, weight, Fifo.leaveRead, Listener.return]
    | noBlock here | noRead here | noBuffer here =>
      simp only [rank, here, sizeOf, weight, Listener.return]
      omega
  · rcases returned_step returned stepped with ⟨chunk, pending, next, rfl⟩ | ⟨held, rfl⟩
    · simp only [rank, next, List.length_cons]
      omega
    · have still : s.fifo.writeOpens ≠ s.fifo.writeCloses := by simpa [Fifo.abandoned] using held
      simp only [rank, Fifo.leaveWrite, Fifo.settle_writeOpens, Fifo.settle_writeCloses]
      omega

theorem reached_run (grants : Grants) (header : CharArray SIZEOF_SIZE_T) (chunks : List (List Byte))
    {events : List Event} (ran : run (step grants) (start header chunks) events = some s) :
    Reached grants (announced header) chunks.flatten.length s :=
  run_invariant (fun _ _ _ => reached_step) (.inl (reading_start grants header chunks)) ran

/-- A run that cannot go on has returned. -/
theorem Reached.returned (reached : Reached grants size length s) (stuck : Stuck (step grants) s) :
    ∃ r, s.listener.pc = .returned r ∧ Final grants size length r :=
  (reached.resolve_left fun reading => reading_progress reading stuck).1

/-- **The loop ends, and with the right result, exactly when the writer wrote enough or
the reader gives up before it.** The writer puts at least as many bytes into the pipe
as the header announces and the system grants both blocks and the reads, or it puts
fewer and there is no block for the response or the first read is refused. -/
theorem response_loop_ends_iff (grants : Grants) (header : CharArray SIZEOF_SIZE_T)
    (chunks : List (List Byte)) :
    Ends grants header chunks ↔
      announced header ≤ chunks.flatten.length ∧ Granted grants (announced header) ∨
        chunks.flatten.length < announced header ∧ GivesUp grants (announced header) := by
  constructor
  · rintro ⟨⟨most, bounded⟩, results⟩
    obtain ⟨events, s, ran, stuck⟩ := exists_stuck bounded
    obtain ⟨r, returned, final⟩ := (reached_run grants header chunks ran).returned stuck
    obtain ⟨r', returned', whole, short⟩ := results events s ran stuck
    obtain rfl : r = r' := by simpa using returned.symm.trans returned'
    rcases lt_or_ge chunks.flatten.length (announced header) with fewer | enough
    · rcases final with ⟨-, enough, -⟩ | ⟨-, givesUp | ⟨enough, -⟩⟩
      · omega
      · exact .inr ⟨fewer, givesUp⟩
      · omega
    · rcases final with ⟨-, -, granted⟩ | ⟨low, -⟩
      · exact .inl ⟨enough, granted⟩
      · have := whole enough
        omega
  · intro condition
    have begins : Reached grants (announced header) chunks.flatten.length (start header chunks) :=
      .inl (reading_start grants header chunks)
    refine ⟨⟨rank (start header chunks), fun events s ran => ?_⟩, fun events s ran stuck => ?_⟩
    · have meets : announced header ≤ chunks.flatten.length ∨ GivesUp grants (announced header) :=
        condition.imp And.left And.right
      exact length_le_of_descent (fun _ _ _ reached stepped =>
        ⟨reached_step reached stepped, reached_descent meets reached stepped⟩) begins ran
    · obtain ⟨r, returned, final⟩ := (reached_run grants header chunks ran).returned stuck
      refine ⟨r, returned, fun enough => ?_, fun fewer => ?_⟩
      · rcases condition with ⟨-, block, buffer, accepted⟩ | ⟨fewer, -⟩
        · rcases final with ⟨one, -⟩ | ⟨-, (noBlock | ⟨some, refused⟩) | ⟨-, noBuffer⟩⟩
          · exact one
          · simp [block] at noBlock
          · simp [accepted some] at refused
          · simp [buffer] at noBuffer
        · omega
      · rcases final with ⟨-, enough, -⟩ | ⟨low, -⟩
        · omega
        · exact low

/-- A system with memory for everything, which reads up to `SSIZE_MAX` bytes. -/
def Grants.all : Grants where
  block := true
  buffer := true
  refused n := 2 ^ 63 ≤ n
  more := fun le refused => decide_eq_true (le_trans (of_decide_eq_true refused) le)
  wide := fun le => decide_eq_true le

/-- The header announces two bytes, and one comes. -/
theorem two_announced_one_written : ¬ Ends .all ⟨sizeBytes 2, rfl⟩ [[111]] := by
  have size : announced ⟨sizeBytes 2, rfl⟩ = 2 := by decide
  rw [response_loop_ends_iff, size]
  simp [GivesUp, Grants.all]

end LocalServer.ResponseBody
