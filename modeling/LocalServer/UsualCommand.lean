import LocalServer.CommandOutput
import LocalServer.CommandTube
import LocalServer.ExecCommand

/-! A usual command. `exec_cmd` forks once more for it, and its `switch` waits for the
program in a case that never comes: the child returns at once. So the handler's `wait`
is over while the program still writes, and the handler reads the tube until the program
has closed it.

Two things are left out. The program asks nothing: its standard input is the server's, and
one that reads it, as `rm -i` does, would wait there. And there is one session only: the
tube is not closed on `exec`, so what another thread forks meanwhile holds its write end
too, and the handler would find the end of the file when that has gone as well. -/
namespace LocalServer.UsualCommand
open Runs
open Handler (Session Reply)
open Commands (Execution execCmd arguments_words isCommandAvailable TYPES EXEC_ERROR)
open CommandOutput (Collects collects_step output output_append Smooth)

/-- What the child prints when `exec_cmd` returns an error. -/
def EXEC_FAILED : List Byte := bytes "Erreur lors de l'exécution de la commande.\n"

/-- The child that calls `exec_cmd`: before the `fork` in it, behind it with what it has
still to write, or gone. -/
inductive ChildPc where
  | atFork
  | writes (left : List Byte)
  | gone
  deriving DecidableEq

/-- The handler, its child and the program, with the bytes in the tube. The program has
still to write what `program` holds, and `prints` is all that the command prints. -/
structure Trio where
  session : Session
  capacity : Nat
  tube : List Byte
  child : ChildPc
  program : Option (List Byte)
  prints : List Byte
  deriving DecidableEq

inductive Event where
  /-- The `fork` of `exec_cmd` works, and the child returns from `exec_cmd`. -/
  | forks
  | forkFails
  | childWrites (n : Nat)
  | childExits
  | programWrites (n : Nat)
  | programExits
  /-- The handler makes a call. -/
  | turn (reply : Reply)
  deriving DecidableEq

/-- What the handler's next call can return: no call fails, and a read waits as long as
the child or the program could write, which alone hold the write end of the tube. -/
def answers (s : Trio) (reply : Reply) : Prop :=
  match s.session.pc, reply with
  | .closeWrite, .ok | .closeRead, .ok => True
  | .wait, .ok => s.child = .gone
  | .realloc, .ok => s.session.total + s.session.n + PIPE_BUF + 1 ≤ OBJECT_MAX
  | .readTube, .data chunk => chunk ≠ [] ∧ chunk.length ≤ PIPE_BUF ∧ chunk = s.tube.take chunk.length
  | .readTube, .ok => s.tube = [] ∧ s.child = .gone ∧ s.program = none
  | _, _ => False

instance (s : Trio) (reply : Reply) : Decidable (answers s reply) := by
  unfold answers
  generalize s.session.pc = pc
  cases_type* Handler.Site Handler.Pc Reply <;> infer_instance

/-- So many bytes of what is left go into the tube. -/
def Trio.writes (s : Trio) (left : List Byte) (n : Nat) : Option (List Byte × List Byte) :=
  if 0 < n ∧ n ≤ left.length ∧ s.tube.length + n ≤ s.capacity then
    some (s.tube ++ left.take n, left.drop n)
  else none

def step (s : Trio) : Event → Option Trio
  | .forks =>
    match s.child, execCmd s.session.reqBuffer.string true with
    | .atFork, .ok (.usual _) => some { s with child := .writes [], program := some s.prints }
    | _, _ => none
  | .forkFails =>
    match s.child, execCmd s.session.reqBuffer.string false with
    | .atFork, .ok (.nothing r) =>
      let left := if r < 0 then EXEC_FAILED else []
      some { s with child := .writes left, prints := left }
    | _, _ => none
  | .childWrites n =>
    match s.child with
    | .writes left => (s.writes left n).map fun (tube, left) => { s with tube := tube, child := .writes left }
    | _ => none
  | .childExits => if s.child = .writes [] then some { s with child := .gone } else none
  | .programWrites n =>
    match s.program with
    | some left => (s.writes left n).map fun (tube, left) => { s with tube := tube, program := some left }
    | none => none
  | .programExits => if s.program = some [] then some { s with program := none } else none
  | .turn reply =>
    if answers s reply then
      (Handler.step s.session reply).map fun session =>
        { s with session := session, tube := s.tube.drop (CommandTube.taken reply) }
    else none

/-- The handler has forked the child that executes its command; the program would print
this. -/
def forked (session : Session) (capacity : Nat) (prints : List Byte) : Trio :=
  ⟨{ session with pc := .closeWrite }, capacity, [], .atFork, none, prints⟩

/-- What the calls of the handler have returned. -/
def replies (events : List Event) : List Reply :=
  events.filterMap fun | .turn reply => some reply | _ => none

@[simp] theorem replies_append (first second : List Event) :
    replies (first ++ second) = replies first ++ replies second :=
  List.filterMap_append

@[simp] theorem replies_singleton (event : Event) :
    replies [event] = match event with | .turn reply => [reply] | _ => [] := by
  cases event <;> rfl

/-! ## What is on its way -/

/-- What the child has still to write. -/
def ChildPc.left : ChildPc → List Byte
  | .writes left => left
  | .atFork | .gone => []

/-- What has been read, what lies in the tube and what has yet to be written make up
what the command prints. -/
structure Carries (past : List Reply) (s : Trio) : Prop where
  collects : Collects past s.session
  whole : s.child ≠ .atFork → output past ++ (s.tube ++ (s.child.left ++ s.program.getD [])) = s.prints
  working : s.session.pc.working = true ∨ s.session.pc = .send .response
  waits : s.child ≠ .gone → s.session.pc = .closeWrite ∨ s.session.pc = .wait
  fork : s.child = .atFork → s.tube = [] ∧ s.program = none
  apart : s.child.left = [] ∨ s.program = none
  room : s.tube.length + s.child.left.length ≤ s.capacity
  holds : PIPE_BUF ≤ s.capacity
  fits : s.prints.length + PIPE_BUF + 1 ≤ OBJECT_MAX
  usual : TYPES[isCommandAvailable s.session.reqBuffer.string]? = some .usualCmd
  done : s.session.pc = .closeRead ∨ s.session.pc = .send .response → s.tube = [] ∧ s.program = none

variable {s s' : Trio} {past : List Reply} {event : Event} {events : List Event} {reply : Reply}
  {session : Session} {capacity n : Nat} {prints left tube : List Byte}

theorem execCmd_usual {cmd : List Byte} (noNul : 0 ∉ cmd) (fits : cmd.length < OBJECT_MAX)
    (usual : TYPES[isCommandAvailable cmd]? = some .usualCmd) :
    (∃ a, execCmd cmd true = .ok (.usual a)) ∧ execCmd cmd false = .ok (.nothing EXEC_ERROR) := by
  obtain ⟨a, cut, -⟩ := arguments_words ⟨cmd, noNul, fits⟩
  have known : isCommandAvailable cmd ≠ 0 := by
    intro zero
    rw [zero] at usual
    exact absurd usual (by decide)
  exact ⟨⟨a, by simp only [execCmd, known, if_false, cut, usual, if_true]⟩,
    by simp only [execCmd, known, if_false, cut, usual, Bool.false_eq_true]⟩

theorem execFailed_length : EXEC_FAILED.length ≤ PIPE_BUF := by decide +kernel

theorem command_noNul (session : Session) : 0 ∉ session.reqBuffer.string := zero_not_mem_cstr _

/-- The command of a session is short. -/
theorem command_fits (session : Session) : session.reqBuffer.string.length < OBJECT_MAX := by
  have short := cstr_length_le session.reqBuffer.bytes
  rw [session.reqBuffer.length_eq] at short
  exact short.trans_lt (by decide)

theorem writes_eq_some {next : List Byte × List Byte} : s.writes left n = some next ↔
    (0 < n ∧ n ≤ left.length ∧ s.tube.length + n ≤ s.capacity) ∧ (s.tube ++ left.take n, left.drop n) = next := by
  rw [Trio.writes]
  split
  case isTrue may => simp [may]
  case isFalse may => simp [may]

theorem smooth_of_answers (answered : answers s reply) : Smooth s.session reply := by
  unfold answers at answered
  split at answered <;> first | contradiction | simp_all [Smooth]

/-- The places that a call of the handler leads to. -/
theorem turn_cases {next : Session} (answered : answers s reply)
    (moved : Handler.step s.session reply = some next) : next.reqBuffer = s.session.reqBuffer ∧
      (s.session.pc = .closeWrite ∧ next.pc = .wait ∧ CommandTube.taken reply = 0 ∨
      s.session.pc = .wait ∧ next.pc = .realloc ∧ CommandTube.taken reply = 0 ∧ s.child = .gone ∨
      s.session.pc = .realloc ∧ next.pc = .readTube ∧ CommandTube.taken reply = 0 ∨
      s.session.pc = .readTube ∧ next.pc = .realloc ∧
        (∃ chunk, reply = .data chunk ∧ chunk ≠ [] ∧ chunk = s.tube.take chunk.length) ∨
      s.session.pc = .readTube ∧ next.pc = .closeRead ∧ reply = .ok ∧ s.tube = [] ∧ s.program = none ∨
      s.session.pc = .closeRead ∧ next.pc = .send .response ∧ CommandTube.taken reply = 0) := by
  unfold answers at answered
  split at answered
  case h_1 here =>
    simp only [Handler.step, here, Option.some.injEq] at moved
    subst moved
    exact ⟨rfl, .inl ⟨here, rfl, rfl⟩⟩
  case h_2 here =>
    simp only [Handler.step, here, Option.some.injEq] at moved
    subst moved
    exact ⟨rfl, .inr (.inr (.inr (.inr (.inr ⟨here, rfl, rfl⟩))))⟩
  case h_3 here =>
    simp only [Handler.step, here, Option.some.injEq] at moved
    subst moved
    exact ⟨rfl, .inr (.inl ⟨here, rfl, rfl, answered⟩)⟩
  case h_4 here =>
    simp only [Handler.step, here, Option.some.injEq] at moved
    subst moved
    exact ⟨rfl, .inr (.inr (.inl ⟨here, rfl, rfl⟩))⟩
  case h_5 chunk here =>
    simp only [Handler.step, here, List.length_pos_of_ne_nil answered.1, answered.2.1, and_self, if_true,
      Option.some.injEq] at moved
    subst moved
    exact ⟨rfl, .inr (.inr (.inr (.inl ⟨here, rfl, chunk, rfl, answered.1, answered.2.2⟩)))⟩
  case h_6 here =>
    simp only [Handler.step, here, Option.some.injEq] at moved
    subst moved
    exact ⟨rfl, .inr (.inr (.inr (.inr (.inl ⟨here, rfl, rfl, answered.1, answered.2.2⟩))))⟩
  case h_7 => exact answered.elim

/-- What a read takes out of the tube is what it returns. -/
theorem taken_output (answered : answers s reply) :
    output [reply] ++ s.tube.drop (CommandTube.taken reply) = s.tube := by
  unfold answers at answered
  split at answered
  case h_5 chunk _ =>
    have front := answered.2.2
    rw [CommandOutput.output_data, CommandTube.taken]
    nth_rewrite 1 [front]
    exact List.take_append_drop ..
  case h_7 => exact answered.elim
  all_goals rfl

theorem Carries.turn (carries : Carries past s) (stepped : step s (.turn reply) = some s') :
    Carries (past ++ [reply]) s' := by
  simp only [step] at stepped
  split at stepped
  case isFalse => cases stepped
  case isTrue answered =>
  obtain ⟨next, moved, rfl⟩ := Option.map_eq_some_iff.mp stepped
  obtain ⟨sameBuffer, moves⟩ := turn_cases answered moved
  refine ⟨collects_step carries.collects (smooth_of_answers answered) moved, fun forked => ?_, ?_, fun alive => ?_,
    fun unforked => ?_, carries.apart, ?_, carries.holds, carries.fits, sameBuffer ▸ carries.usual, fun ended => ?_⟩
  · rw [output_append, List.append_assoc, ← List.append_assoc (output [reply]), taken_output answered]
    exact carries.whole forked
  · rcases moves with ⟨-, there, -⟩ | ⟨-, there, -⟩ | ⟨-, there, -⟩ | ⟨-, there, -⟩ | ⟨-, there, -⟩ | ⟨-, there, -⟩ <;>
      simp [there, Handler.Pc.working]
  · -- the handler leaves these two places by the `wait` only
    rcases moves with ⟨-, there, -⟩ | ⟨-, -, -, gone⟩ | moves
    · exact .inr there
    · exact absurd gone alive
    · have before := carries.waits alive
      rcases moves with ⟨here, -⟩ | ⟨here, -⟩ | ⟨here, -⟩ | ⟨here, -⟩ <;> simp [here] at before
  · obtain ⟨tube, program⟩ := carries.fork unforked
    exact ⟨by simp [tube], program⟩
  · have room := carries.room
    simp only [List.length_drop]
    omega
  · have empty : s.tube = [] ∧ s.program = none := by
      rcases moves with ⟨-, there, -⟩ | ⟨-, there, -⟩ | ⟨-, there, -⟩ | ⟨-, there, -⟩ | ⟨-, -, -, tube, program⟩ |
        ⟨here, -⟩
      · simp [there] at ended
      · simp [there] at ended
      · simp [there] at ended
      · simp [there] at ended
      · exact ⟨tube, program⟩
      · exact carries.done (.inl here)
    exact ⟨by simp [empty.1], empty.2⟩

/-- Before the handler reads, nothing has been read. -/
theorem Carries.unread (carries : Carries past s) (alive : s.child ≠ .gone) : output past = [] := by
  have collects := carries.collects
  rcases carries.waits alive with here | here
  · simp only [Collects, here] at collects
    exact collects.1
  · simp only [Collects, here] at collects
    exact collects.1

theorem Carries.notDone (carries : Carries past s) (alive : s.child ≠ .gone) :
    ¬ (s.session.pc = .closeRead ∨ s.session.pc = .send .response) := by
  rcases carries.waits alive with here | here <;> simp [here]

/-- Behind its `fork` the child has nothing to write but the message of a failure. -/
theorem Carries.forked (carries : Carries past s) (child : s.child = .atFork) {text : List Byte}
    {program : Option (List Byte)} (left : List Byte) (whole : left ++ program.getD [] = text)
    (apart : left = [] ∨ program = none) (short : left.length ≤ PIPE_BUF)
    (fits : text.length + PIPE_BUF + 1 ≤ OBJECT_MAX) :
    Carries past { s with child := .writes left, program := program, prints := text } := by
  have alive : s.child ≠ .gone := by rw [child]; exact nofun
  obtain ⟨tube, -⟩ := carries.fork child
  exact {
    collects := carries.collects
    whole := fun _ => by
      rw [carries.unread alive, tube]
      exact whole
    working := carries.working
    waits := fun _ => carries.waits alive
    fork := nofun
    apart := apart
    room := by
      rw [tube, List.length_nil, Nat.zero_add]
      exact short.trans carries.holds
    holds := carries.holds
    fits := fits
    usual := carries.usual
    done := fun ended => absurd ended (carries.notDone alive) }

theorem Carries.childWrites (carries : Carries past s) (child : s.child = .writes left)
    (may : 0 < n ∧ n ≤ left.length ∧ s.tube.length + n ≤ s.capacity) :
    Carries past { s with tube := s.tube ++ left.take n, child := .writes (left.drop n) } := by
  have alive : s.child ≠ .gone := by rw [child]; exact nofun
  have room := carries.room
  have whole := carries.whole (by rw [child]; exact nofun)
  have none : s.program = none := by
    have apart := carries.apart
    rw [child] at apart
    rcases apart with (rfl : left = []) | none
    · have short := may.2.1
      rw [List.length_nil] at short
      omega
    · exact none
  rw [child] at room whole
  simp only [ChildPc.left] at room whole
  exact {
    collects := carries.collects
    whole := fun _ => by
      rw [← whole]
      simp only [ChildPc.left, List.append_assoc]
      rw [← List.append_assoc (left.take n), List.take_append_drop]
    working := carries.working
    waits := fun _ => carries.waits alive
    fork := nofun
    apart := .inr none
    room := by
      simp only [ChildPc.left, List.length_append, List.length_take, List.length_drop]
      omega
    holds := carries.holds
    fits := carries.fits
    usual := carries.usual
    done := fun ended => absurd ended (carries.notDone alive) }

theorem Carries.childExits (carries : Carries past s) (child : s.child = .writes []) :
    Carries past { s with child := .gone } := by
  have whole := carries.whole (by rw [child]; exact nofun)
  have room := carries.room
  rw [child] at whole room
  exact { carries with
    whole := fun _ => whole
    waits := fun alive => absurd rfl alive
    fork := nofun
    apart := .inl rfl
    room := room }

theorem Carries.programWrites (carries : Carries past s) (program : s.program = some left)
    (may : 0 < n ∧ n ≤ left.length ∧ s.tube.length + n ≤ s.capacity) :
    Carries past { s with tube := s.tube ++ left.take n, program := some (left.drop n) } := by
  have silent : s.child.left = [] := carries.apart.resolve_right (by rw [program]; exact nofun)
  have forked : s.child ≠ .atFork := fun child => by
    rw [(carries.fork child).2] at program
    cases program
  have whole := carries.whole forked
  rw [silent, program] at whole
  exact { carries with
    whole := fun _ => by
      rw [← whole, silent]
      simp only [List.nil_append, Option.getD_some, List.append_assoc, List.take_append_drop]
    fork := fun child => absurd child forked
    apart := .inl silent
    room := by
      simp only [silent, List.length_append, List.length_take, List.length_nil]
      omega
    done := fun ended => by
      have none := (carries.done ended).2
      rw [program] at none
      cases none }

theorem Carries.programExits (carries : Carries past s) (program : s.program = some []) :
    Carries past { s with program := none } := by
  have forked : s.child ≠ .atFork := fun child => by
    rw [(carries.fork child).2] at program
    cases program
  have whole := carries.whole forked
  rw [program] at whole
  exact { carries with
    whole := fun _ => whole
    fork := fun child => absurd child forked
    apart := .inr rfl
    done := fun ended => ⟨(carries.done ended).1, rfl⟩ }

/-- Whatever moves, what the command prints is on its way to the response. -/
theorem Carries.step (carries : Carries past s) (stepped : step s event = some s') :
    Carries (past ++ replies [event]) s' := by
  cases event with
  | turn reply => exact carries.turn stepped
  | forks =>
    simp only [UsualCommand.step] at stepped
    split at stepped
    case h_2 => cases stepped
    case h_1 child _ =>
    cases stepped
    have carried : Carries past { s with child := .writes [], program := some s.prints } :=
      carries.forked child [] rfl (.inl rfl) (Nat.zero_le _) carries.fits
    simpa using carried
  | forkFails =>
    simp only [UsualCommand.step] at stepped
    split at stepped
    case h_2 => cases stepped
    case h_1 r child returned =>
    cases stepped
    obtain rfl : r = EXEC_ERROR := by
      have failed := (execCmd_usual (command_noNul _) (command_fits _) carries.usual).2
      rw [failed] at returned
      cases returned
      rfl
    have none := (carries.fork child).2
    have carried : Carries past { s with child := .writes EXEC_FAILED, prints := EXEC_FAILED } :=
      carries.forked child EXEC_FAILED (by rw [none]; exact List.append_nil _) (.inr none) execFailed_length
        (by decide +kernel)
    simpa [EXEC_ERROR] using carried
  | childWrites n =>
    simp only [UsualCommand.step] at stepped
    split at stepped
    case h_2 => cases stepped
    case h_1 left child =>
    obtain ⟨⟨tube, rest⟩, wrote, rfl⟩ := Option.map_eq_some_iff.mp stepped
    obtain ⟨may, same⟩ := writes_eq_some.mp wrote
    cases same
    simpa using carries.childWrites child may
  | childExits =>
    simp only [UsualCommand.step] at stepped
    split at stepped
    case isFalse => cases stepped
    case isTrue child =>
    cases stepped
    simpa using carries.childExits child
  | programWrites n =>
    simp only [UsualCommand.step] at stepped
    split at stepped
    case h_2 => cases stepped
    case h_1 left program =>
    obtain ⟨⟨tube, rest⟩, wrote, rfl⟩ := Option.map_eq_some_iff.mp stepped
    obtain ⟨may, same⟩ := writes_eq_some.mp wrote
    cases same
    simpa using carries.programWrites program may
  | programExits =>
    simp only [UsualCommand.step] at stepped
    split at stepped
    case isFalse => cases stepped
    case isTrue program =>
    cases stepped
    simpa using carries.programExits program

/-! ## The end -/

/-- What the calls of the handler still need at most, without the bytes it reads. -/
def ahead : Handler.Pc → Nat
  | .closeWrite => 5
  | .wait => 4
  | .realloc => 3
  | .readTube => 2
  | .closeRead => 1
  | _ => 0

/-- Every step lowers this: a byte costs three, one for the write and two for the read of
it. -/
def Trio.rank (s : Trio) : Nat :=
  ahead s.session.pc + 2 * s.tube.length +
    (match s.child with
      | .atFork => 3 * (s.prints.length + EXEC_FAILED.length) + 3
      | .writes left => 3 * left.length + 1
      | .gone => 0) +
    (match s.program with
      | some left => 3 * left.length + 1
      | none => 0)

theorem Carries.descent (carries : Carries past s) (stepped : UsualCommand.step s event = some s') :
    s'.rank < s.rank := by
  cases event with
  | turn reply =>
    simp only [UsualCommand.step] at stepped
    split at stepped
    case isFalse => cases stepped
    case isTrue answered =>
    obtain ⟨next, moved, rfl⟩ := Option.map_eq_some_iff.mp stepped
    have drop : (s.tube.drop (CommandTube.taken reply)).length ≤ s.tube.length := by simp
    obtain ⟨-, ⟨here, there, -⟩ | ⟨here, there, -⟩ | ⟨here, there, -⟩ | ⟨here, there, chunk, rfl, some, front⟩ |
      ⟨here, there, -⟩ | ⟨here, there, -⟩⟩ := turn_cases answered moved
    case inr.inr.inr.inl =>
      -- a read that finds something goes back to the allocation
      have size : chunk.length ≤ s.tube.length := by
        have := congrArg List.length front
        rw [List.length_take] at this
        omega
      have positive := List.length_pos_of_ne_nil some
      simp only [Trio.rank, here, there, ahead, CommandTube.taken, List.length_drop]
      omega
    all_goals
      simp only [Trio.rank, here, there, ahead]
      omega
  | forks =>
    simp only [UsualCommand.step] at stepped
    split at stepped
    case h_2 => cases stepped
    case h_1 child _ =>
    cases stepped
    simp only [Trio.rank, child, (carries.fork child).2, List.length_nil]
    omega
  | forkFails =>
    simp only [UsualCommand.step] at stepped
    split at stepped
    case h_2 => cases stepped
    case h_1 r child _ =>
    cases stepped
    have left : (if r < 0 then EXEC_FAILED else []).length ≤ EXEC_FAILED.length := by split <;> simp
    simp only [Trio.rank, child, (carries.fork child).2]
    omega
  | childWrites n =>
    simp only [UsualCommand.step] at stepped
    split at stepped
    case h_2 => cases stepped
    case h_1 left child =>
    obtain ⟨⟨tube, rest⟩, wrote, rfl⟩ := Option.map_eq_some_iff.mp stepped
    obtain ⟨may, same⟩ := writes_eq_some.mp wrote
    cases same
    simp only [Trio.rank, child, List.length_append, List.length_take, List.length_drop]
    omega
  | childExits =>
    simp only [UsualCommand.step] at stepped
    split at stepped
    case isFalse => cases stepped
    case isTrue child =>
    cases stepped
    simp only [Trio.rank, child]
    omega
  | programWrites n =>
    simp only [UsualCommand.step] at stepped
    split at stepped
    case h_2 => cases stepped
    case h_1 left program =>
    obtain ⟨⟨tube, rest⟩, wrote, rfl⟩ := Option.map_eq_some_iff.mp stepped
    obtain ⟨may, same⟩ := writes_eq_some.mp wrote
    cases same
    simp only [Trio.rank, program, List.length_append, List.length_take, List.length_drop]
    omega
  | programExits =>
    simp only [UsualCommand.step] at stepped
    split at stepped
    case isFalse => cases stepped
    case isTrue program =>
    cases stepped
    simp only [Trio.rank, program]
    omega

/-- A process with something to write can write it, where the tube has room. -/
theorem writes_one (room : s.tube.length < s.capacity) (byte : Byte) (rest : List Byte) :
    (s.writes (byte :: rest) 1).isSome := by
  have may : 0 < 1 ∧ 1 ≤ (byte :: rest).length ∧ s.tube.length + 1 ≤ s.capacity := ⟨Nat.one_pos, by simp, room⟩
  rw [Trio.writes, if_pos may]
  rfl

/-- The child always can go on: what it writes fits into the tube. -/
theorem Carries.child_progress (carries : Carries past s) (alive : s.child ≠ .gone) :
    ¬ Stuck UsualCommand.step s := by
  intro stuck
  cases child : s.child with
  | gone => exact alive child
  | atFork =>
    obtain ⟨a, works⟩ := (execCmd_usual (command_noNul _) (command_fits _) carries.usual).1
    simpa [UsualCommand.step, child, works] using stuck .forks
  | writes left =>
    cases left with
    | nil => simpa [UsualCommand.step, child] using stuck .childExits
    | cons byte rest =>
      have room := carries.room
      simp only [child, ChildPc.left, List.length_cons] at room
      have free : s.tube.length < s.capacity := by omega
      have wrote := writes_one free byte rest
      have never := stuck (.childWrites 1)
      simp only [UsualCommand.step, child, Option.map_eq_none_iff] at never
      simp [never] at wrote

/-- Until the response somebody can go on: the handler reads what fills the tube. -/
theorem Carries.progress (carries : Carries past s) (unsent : s.session.pc ≠ .send .response) :
    ¬ Stuck UsualCommand.step s := by
  by_cases alive : s.child ≠ .gone
  · exact carries.child_progress alive
  rw [ne_eq, not_not] at alive
  intro stuck
  have ok := stuck (.turn .ok)
  have working := carries.working.resolve_right unsent
  have collects := carries.collects
  have whole := carries.whole (by rw [alive]; exact nofun)
  cases here : s.session.pc with
  | closeWrite | wait | closeRead => simp [UsualCommand.step, answers, here, alive, Handler.step] at ok
  | realloc =>
    simp only [Collects, here] at collects
    have printed := congrArg List.length whole
    simp only [List.length_append] at printed
    have fits := carries.fits
    have room : s.session.total + s.session.n + PIPE_BUF + 1 ≤ OBJECT_MAX := by omega
    simp [UsualCommand.step, answers, here, room, Handler.step] at ok
  | readTube =>
    cases content : s.tube with
    | cons byte rest =>
      have reads := stuck (.turn (.data [byte]))
      simp [UsualCommand.step, answers, here, content, Handler.step, PIPE_BUF] at reads
    | nil =>
      cases program : s.program with
      | none => simp [UsualCommand.step, answers, here, alive, content, program, Handler.step] at ok
      | some left =>
        cases left with
        | nil => simpa [UsualCommand.step, program] using stuck .programExits
        | cons byte rest =>
          have holds := carries.holds
          have free : s.tube.length < s.capacity := by
            rw [content]
            exact (Nat.succ_pos _).trans_le holds
          have wrote := writes_one free byte rest
          have never := stuck (.programWrites 1)
          simp only [UsualCommand.step, program, Option.map_eq_none_iff] at never
          simp [never] at wrote
  | _ => simp [here, Handler.Pc.working] at working

/-- Once the response is due nobody has anything left to do. -/
theorem Carries.ended (carries : Carries past s) (here : s.session.pc = .send .response) :
    Stuck UsualCommand.step s := by
  have gone : s.child = .gone := by
    by_contra alive
    exact carries.notDone alive (.inr here)
  have none := (carries.done (.inr here)).2
  intro event
  cases event with
  | turn reply => cases reply <;> simp [UsualCommand.step, answers, here]
  | _ => simp [UsualCommand.step, gone, none]

theorem prints_step (carries : Carries past s) (stepped : UsualCommand.step s event = some s') :
    s'.prints = if event = .forkFails then EXEC_FAILED else s.prints := by
  cases event with
  | forkFails =>
    simp only [UsualCommand.step] at stepped
    split at stepped
    case h_2 => cases stepped
    case h_1 r child returned =>
    cases stepped
    have failed := (execCmd_usual (command_noNul _) (command_fits _) carries.usual).2
    rw [failed] at returned
    cases returned
    simp [EXEC_ERROR]
  | forks =>
    simp only [UsualCommand.step] at stepped
    split at stepped <;> cases stepped
    rfl
  | turn reply =>
    simp only [UsualCommand.step] at stepped
    split at stepped
    case isFalse => cases stepped
    case isTrue =>
    obtain ⟨next, -, rfl⟩ := Option.map_eq_some_iff.mp stepped
    rfl
  | childExits | programExits =>
    simp only [UsualCommand.step] at stepped
    split at stepped <;> cases stepped
    rfl
  | childWrites n | programWrites n =>
    simp only [UsualCommand.step] at stepped
    split at stepped
    case h_2 => cases stepped
    case h_1 =>
    obtain ⟨next, -, rfl⟩ := Option.map_eq_some_iff.mp stepped
    rfl

theorem carries_forked (fresh : session.resBuffer = [] ∧ session.n = 0 ∧ session.total = 0)
    (usual : TYPES[isCommandAvailable session.reqBuffer.string]? = some .usualCmd)
    (holds : PIPE_BUF ≤ capacity) (fits : prints.length + PIPE_BUF + 1 ≤ OBJECT_MAX) :
    Carries [] (forked session capacity prints) where
  collects := ⟨rfl, fresh⟩
  whole := fun child => absurd rfl child
  working := .inl rfl
  waits := fun _ => .inl rfl
  fork := fun _ => ⟨rfl, rfl⟩
  apart := .inl rfl
  room := Nat.zero_le _
  holds := holds
  fits := fits
  usual := usual
  done := by rintro (here | here) <;> cases here

/-- A session that has read `pwd`. -/
def pwd : Session :=
  { CommandTube.firstCommand with reqBuffer := (Handler.Request.ofCommand (bytes "pwd")).cmd }

/-- The program writes in two parts while the handler reads. -/
def pwdEvents : List Event :=
  [.forks, .childExits, .turn .ok, .programWrites 2, .turn .ok, .turn .ok, .turn (.data (bytes "/s")),
    .programWrites 3, .programExits, .turn .ok, .turn (.data (bytes "rv\n")), .turn .ok, .turn .ok, .turn .ok]

end LocalServer.UsualCommand
