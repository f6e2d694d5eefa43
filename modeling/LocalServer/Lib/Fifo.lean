import Mathlib

/-! A named pipe. Its ends are opened and closed anew by processes that come and
go; the pipe counts every open and every close of either end, so that an open that
blocks can tell whether the other end was opened since, even if it is closed again
by now. What nobody has read is lost when the last end is closed. -/
namespace LocalServer

/-- Up to this size a write is atomic; every pipe holds as much. -/
def PIPE_BUF : Nat := 4096

/-- A named pipe with the items in it. -/
structure Fifo (α : Type*) where
  capacity : Nat
  data : List α
  readOpens : Nat
  readCloses : Nat
  writeOpens : Nat
  writeCloses : Nat
  deriving DecidableEq

namespace Fifo

variable {α : Type*} {f f' : Fifo α} {chunk : List α}

/-- Nobody holds an end and nothing is in the pipe. -/
structure Quiet (f : Fifo α) : Prop where
  data : f.data = []
  readers : f.readOpens = f.readCloses
  writers : f.writeOpens = f.writeCloses

/-- A pipe that was just made. -/
def new (capacity : Nat) : Fifo α := ⟨capacity, [], 0, 0, 0, 0⟩

theorem quiet_new (capacity : Nat) : (new capacity : Fifo α).Quiet := ⟨rfl, rfl, rfl⟩

/-- The call of `open` for reading; with `O_NONBLOCK` it returns at once. -/
def joinRead (f : Fifo α) : Fifo α := { f with readOpens := f.readOpens + 1 }

/-- The call of `open` for writing. -/
def joinWrite (f : Fifo α) : Fifo α := { f with writeOpens := f.writeOpens + 1 }

/-- A blocking `open` for reading returns once there is a writer that was not gone
when it was called. -/
def readOpened (f : Fifo α) (gone : Nat) : Bool := gone < f.writeOpens

/-- A blocking `open` for writing returns once there is a reader that was not gone
when it was called. -/
def writeOpened (f : Fifo α) (gone : Nat) : Bool := gone < f.readOpens

/-- No process holds the write end. -/
def abandoned (f : Fifo α) : Bool := f.writeOpens = f.writeCloses

/-- `select` reports the read end readable: there is data, or a writer has come
since the reader opened and all writers are gone. -/
def selectable (f : Fifo α) (gone : Nat) : Bool :=
  f.data ≠ [] || (gone < f.writeOpens && f.abandoned)

/-- A write of a chunk that fits, while somebody reads. -/
def write (f : Fifo α) (chunk : List α) : Option (Fifo α) :=
  if f.readCloses < f.readOpens ∧ f.data.length + chunk.length ≤ f.capacity then
    some { f with data := f.data ++ chunk }
  else none

/-- A read takes the oldest items. -/
def drop (f : Fifo α) (n : Nat) : Fifo α := { f with data := f.data.drop n }

/-- The pipe loses its data with its last end. -/
def settle (f : Fifo α) : Fifo α :=
  if f.readOpens = f.readCloses ∧ f.writeOpens = f.writeCloses then { f with data := [] } else f

def leaveRead (f : Fifo α) : Fifo α := { f with readCloses := f.readCloses + 1 }.settle

def leaveWrite (f : Fifo α) : Fifo α := { f with writeCloses := f.writeCloses + 1 }.settle

theorem write_eq_some : f.write chunk = some f' ↔
    f.readCloses < f.readOpens ∧ f.data.length + chunk.length ≤ f.capacity ∧
      f' = { f with data := f.data ++ chunk } := by
  unfold write
  split
  · next room => simp [room, eq_comm]
  · next full => simpa using fun reader fits => absurd ⟨reader, fits⟩ full

@[simp] theorem settle_readOpens : f.settle.readOpens = f.readOpens := by
  unfold settle; split <;> rfl

@[simp] theorem settle_readCloses : f.settle.readCloses = f.readCloses := by
  unfold settle; split <;> rfl

@[simp] theorem settle_writeOpens : f.settle.writeOpens = f.writeOpens := by
  unfold settle; split <;> rfl

@[simp] theorem settle_writeCloses : f.settle.writeCloses = f.writeCloses := by
  unfold settle; split <;> rfl

@[simp] theorem settle_capacity : f.settle.capacity = f.capacity := by
  unfold settle; split <;> rfl

/-- As long as an end is held, or nothing is in the pipe, nothing is lost. -/
theorem settle_data (kept : f.readOpens ≠ f.readCloses ∨ f.writeOpens ≠ f.writeCloses ∨ f.data = []) :
    f.settle.data = f.data := by
  unfold settle
  split
  · next closed => simp_all
  · rfl

theorem leaveRead_empty (empty : f.data = []) : f.leaveRead.data = [] := by
  unfold leaveRead settle
  split <;> simp [empty]

theorem leaveWrite_empty (empty : f.data = []) : f.leaveWrite.data = [] := by
  unfold leaveWrite settle
  split <;> simp [empty]

end Fifo

end LocalServer
