import LocalServer.Lib.CString
import LocalServer.Lib.Fifo
import LocalServer.Lib.Runs

/-! How a response travels: the child that `send_response` forks writes a frame
into the response pipe, in pieces of any size, and `listen_response` reads it on
the client's side, in pieces of any size. -/
namespace LocalServer.ResponsePipe

def PIPE_ERROR : Int := -5
def MEMORY_ERROR : Int := -6
def SIG_ERROR : Int := -8

/-- The first `width` bytes of a number, the lowest first. -/
def toBytes : Nat → Nat → List Byte
  | 0, _ => []
  | width + 1, n => UInt8.ofNat (n % 256) :: toBytes width (n / 256)

/-- The number that lies in some bytes. -/
def ofBytes : List Byte → Nat
  | [] => 0
  | byte :: rest => byte.toNat + 256 * ofBytes rest

def SIZEOF_SIZE_T : Nat := 8

/-- A `size_t` as it lies in memory. -/
def sizeBytes (n : Nat) : List Byte := toBytes SIZEOF_SIZE_T n

/-- `struct response`: as many bytes as its size says, in a block that exists. -/
structure Response where
  size : Nat
  msg : List Byte
  length_eq : msg.length = size
  fits : size ≤ OBJECT_MAX

theorem Response.ext_iff {res res' : Response} : res.size = res'.size ∧ res.msg = res'.msg ↔ res = res' := by
  cases res
  cases res'
  simp

instance decidableEqResponse (res res' : Response) : Decidable (res = res') :=
  decidable_of_iff (res.size = res'.size ∧ res.msg = res'.msg) Response.ext_iff

/-- The size of a response: that of the string with its terminator, cut to the limit. -/
def responseSize (msg : CString) (maxSize : Int) : Nat :=
  if 0 ≤ maxSize then min (msg.bytes.length + 1) maxSize.toNat else msg.bytes.length + 1

/-- The response that `send_response` builds. -/
def makeResponse (msg : CString) (maxSize : Int) : Response where
  size := responseSize msg maxSize
  msg := (msg.bytes ++ [0]).take (responseSize msg maxSize)
  length_eq := by
    simp only [responseSize, List.length_take, List.length_append, List.length_singleton]
    split <;> omega
  fits := by
    have := msg.fits
    unfold responseSize
    split <;> omega

/-- What the response looks like on the pipe. -/
def Response.frame (res : Response) : List Byte := sizeBytes res.size ++ res.msg

/-- What a system call answers: it works, it fails, a timeout or the alarm ends
it, or it works and transfers this many bytes. -/
inductive Answer where
  | ok
  | fail
  | expire
  | count (n : Nat)
  deriving DecidableEq

/-! ## The child of `send_response` -/

inductive SenderPc where
  | sigfillset | sigaction | open
  /-- It waits in `open` for a reader that was not gone before. -/
  | opening (gone : Nat)
  | header | body | close | exited (code : Int)
  deriving DecidableEq

structure Sender where
  pc : SenderPc
  res : Response
  maxSize : Int
  total : Nat
  deriving DecidableEq

/-- The condition of the writing loop, before its call of `write`. -/
def Sender.loop (s : Sender) : Sender :=
  { s with pc := if s.maxSize < 0 ∨ (s.total : Int) < s.maxSize then .body else .close }

/-- `total += (size_t) n`. -/
def Sender.count (s : Sender) (n : Nat) : Sender := { s with total := s.total + n }

def Sender.exit (s : Sender) (code : Int) : Sender := { s with pc := .exited code }

/-- One call of the child, with the bytes it puts into the pipe. A write of nothing
returns 0 whoever reads. When the process exits its end of the pipe is closed. -/
def sendResponse (s : Sender) (f : Fifo Byte) (answer : Answer) :
    Option (Sender × Fifo Byte × List Byte) :=
  match s.pc, answer with
  | .sigfillset, .ok => some ({ s with pc := .sigaction }, f, [])
  | .sigfillset, .fail => some (s.exit SIG_ERROR, f, [])
  | .sigaction, .ok => some ({ s with pc := .open }, f, [])
  | .sigaction, .fail => some (s.exit SIG_ERROR, f, [])
  | .open, .ok => some ({ s with pc := .opening f.readCloses }, f.joinWrite, [])
  | .open, .fail => some (s.exit PIPE_ERROR, f, [])
  | .open, .expire => some (s.exit 1, f, [])
  | .opening gone, .ok => if f.writeOpened gone then some ({ s with pc := .header }, f, []) else none
  | .header, .ok =>
    (f.write (sizeBytes s.res.size)).map fun f => (s.loop, f, sizeBytes s.res.size)
  | .header, .fail => some (s.exit PIPE_ERROR, f.leaveWrite, [])
  | .body, .count n =>
    if n = 0 ∧ s.res.size = s.total then some ({ s with pc := .close }, f, [])
    else if 0 < n ∧ n ≤ s.res.size - s.total then
      (f.write ((s.res.msg.drop s.total).take n)).map fun f =>
        ((s.count n).loop, f, (s.res.msg.drop s.total).take n)
    else none
  | .body, .fail => some (s.exit PIPE_ERROR, f.leaveWrite, [])
  | .close, .ok => some (s.exit 0, f.leaveWrite, [])
  | .close, .fail => some (s.exit PIPE_ERROR, f.leaveWrite, [])
  | .opening _, .expire | .header, .expire | .body, .expire | .close, .expire =>
    some (s.exit 1, f.leaveWrite, [])
  | _, _ => none

/-- The status that `wait` stores for a child that called `exit`. -/
def exitStatus (code : Int) : Int := code % 256 * 256

/-- What `send_response` returns for the status `wait` has stored. -/
def sendResult (r : Int) : Int := if r < 0 then r else if 0 < r then 0 else 1

/-! ## `listen_response` -/

inductive ListenerPc where
  | open | select | readSize | malloc | selectBody | readBody | mallocBuffer | close
  | returned (r : Int)
  deriving DecidableEq

/-- The locals of `listen_response`: the `size_t` it reads the header into, the
size found there, the bytes of the message so far, and the buffer it allocates
for its caller. -/
structure Listener where
  pc : ListenerPc
  gone : Nat
  cell : CharArray SIZEOF_SIZE_T
  size : Nat
  msg : List Byte
  buffer : Option (List Byte)
  deriving DecidableEq

/-- `while (total < size)`. -/
def Listener.loop (l : Listener) : Listener :=
  { l with pc := if l.msg.length < l.size then .selectBody else .mallocBuffer }

/-- The bytes of one more `read` lie behind those before. -/
def Listener.append (l : Listener) (chunk : List Byte) : Listener :=
  { l with msg := l.msg ++ chunk }

/-- The header was read. -/
def Listener.begin (l : Listener) (size : Nat) : Listener := { l with size := size, msg := [] }

def Listener.return (l : Listener) (r : Int) : Listener := { l with pc := .returned r }

/-- The first bytes of an array are overwritten. -/
def overwrite {size : Nat} (cell : CharArray size) (got : List Byte) : CharArray size :=
  ⟨(got ++ cell.bytes.drop got.length).take size, by
    simp only [List.length_take, List.length_append, List.length_drop, cell.length_eq]
    omega⟩

/-- One call of `listen_response`, with the bytes it takes out of the pipe. Only
its last call closes the pipe. A read returns 0 when the pipe is empty and all
writers are gone. -/
def listenResponse (l : Listener) (f : Fifo Byte) (answer : Answer) :
    Option (Listener × Fifo Byte × List Byte) :=
  match l.pc, answer with
  | .open, .ok => some ({ l with pc := .select, gone := f.writeCloses }, f.joinRead, [])
  | .open, .fail => some (l.return PIPE_ERROR, f, [])
  | .select, .ok => if f.selectable l.gone then some ({ l with pc := .readSize }, f, []) else none
  | .select, .expire => some (l.return 0, f, [])
  | .select, .fail => some (l.return PIPE_ERROR, f, [])
  | .readSize, .ok =>
    if f.data ≠ [] ∨ f.abandoned then
      some ({ l with pc := .malloc, cell := overwrite l.cell (f.data.take SIZEOF_SIZE_T) },
        f.drop SIZEOF_SIZE_T, f.data.take SIZEOF_SIZE_T)
    else none
  | .readSize, .fail => some (l.return PIPE_ERROR, f, [])
  | .malloc, .ok => some ((l.begin (ofBytes l.cell.bytes)).loop, f, [])
  | .malloc, .fail => some (l.return MEMORY_ERROR, f, [])
  | .selectBody, .ok =>
    if f.selectable l.gone then some ({ l with pc := .readBody }, f, []) else none
  | .selectBody, .expire => some (l.return 0, f, [])
  | .selectBody, .fail => some (l.return PIPE_ERROR, f, [])
  | .readBody, .count n =>
    if n = 0 ∧ f.data = [] ∧ f.abandoned then some (l.loop, f, [])
    else if 0 < n ∧ n ≤ l.size - l.msg.length ∧ n ≤ f.data.length then
      some ((l.append (f.data.take n)).loop, f.drop n, f.data.take n)
    else none
  | .readBody, .fail => some (l.return PIPE_ERROR, f, [])
  -- `strncpy` writes every byte of the new block
  | .mallocBuffer, .ok =>
    some ({ l with pc := .close
                   buffer := some (strncpy (List.replicate l.size 0) l.msg l.size) }, f, [])
  | .mallocBuffer, .fail => some (l.return MEMORY_ERROR, f, [])
  | .close, .ok => some (l.return 1, f.leaveRead, [])
  | .close, .fail => some (l.return PIPE_ERROR, f.leaveRead, [])
  | _, _ => none

/-! ## Both at work -/

/-- The two processes, the pipe between them, and every byte put into it and taken
out of it. -/
structure Exchange where
  fifo : Fifo Byte
  sender : Sender
  listener : Listener
  written : List Byte
  consumed : List Byte
  deriving DecidableEq

inductive Event where
  | sends (answer : Answer)
  | listens (answer : Answer)
  deriving DecidableEq

def step (x : Exchange) : Event → Option Exchange
  | .sends answer =>
    (sendResponse x.sender x.fifo answer).map fun (sender, fifo, chunk) =>
      { x with sender := sender, fifo := fifo, written := x.written ++ chunk }
  | .listens answer =>
    (listenResponse x.listener x.fifo answer).map fun (listener, fifo, chunk) =>
      { x with listener := listener, fifo := fifo, consumed := x.consumed ++ chunk }

/-- `send_response` has forked its child and `listen_response` is called. -/
def start (msg : CString) (maxSize : Int) (fifo : Fifo Byte) (cell : CharArray SIZEOF_SIZE_T) :
    Exchange where
  fifo := fifo
  sender := ⟨.sigfillset, makeResponse msg maxSize, maxSize, 0⟩
  listener := ⟨.open, 0, cell, 0, [], none⟩
  written := []
  consumed := []

/-- The call neither fails nor times out. -/
def Event.smooth : Event → Bool
  | .sends .fail | .sends .expire | .listens .fail | .listens .expire => false
  | _ => true

/-! ## Numbers on the pipe -/

theorem toBytes_length (width n : Nat) : (toBytes width n).length = width := by
  induction width generalizing n with
  | zero => rfl
  | succ width ih => simp [toBytes, ih]

theorem sizeBytes_length (n : Nat) : (sizeBytes n).length = SIZEOF_SIZE_T := toBytes_length ..

theorem ofBytes_toBytes {width n : Nat} (fits : n < 256 ^ width) :
    ofBytes (toBytes width n) = n := by
  induction width generalizing n with
  | zero => simp at fits; simp [toBytes, ofBytes, fits]
  | succ width ih =>
    have smaller : n / 256 < 256 ^ width := by
      rw [Nat.div_lt_iff_lt_mul (by decide)]
      rwa [pow_succ] at fits
    have low : (UInt8.ofNat (n % 256)).toNat = n % 256 := by simp
    rw [toBytes, ofBytes, ih smaller, low, Nat.mod_add_div]

end LocalServer.ResponsePipe
