import LocalServer.Handler

/-! The handler and the child that executes a custom command, with the tube between
them. The handler waits for the child before it reads, so that nobody empties the
tube while the child fills it. -/
namespace LocalServer.CommandTube
open Runs
open Handler (Session Reply)

/-- The two processes and the bytes in the tube. The child has still to write what is
`left`; it is gone when nothing is there any more. -/
structure Pair where
  session : Session
  capacity : Nat
  tube : List Byte
  left : Option (List Byte)
  deriving DecidableEq

inductive Event where
  /-- The child's `write` puts so many bytes into the tube. -/
  | writes (n : Nat)
  /-- The child has written everything and exits, which closes its end of the tube. -/
  | exits
  /-- The handler makes a call. -/
  | turn (reply : Reply)
  deriving DecidableEq

/-- What the handler's next call can return. No call fails; it waits for a child that
lives, and for bytes as long as somebody could write some. -/
def answers (s : Pair) (reply : Reply) : Prop :=
  match s.session.pc, reply with
  | .closeWrite, .ok | .realloc, .ok | .closeRead, .ok => True
  | .wait, .ok => s.left = none
  | .readTube, .data chunk => chunk ≠ [] ∧ chunk = s.tube.take chunk.length
  | .readTube, .ok => s.tube = [] ∧ s.left = none
  | .send .response, .sent _ => True
  | _, _ => False

instance (s : Pair) (reply : Reply) : Decidable (answers s reply) := by
  unfold answers
  generalize s.session.pc = pc
  cases_type* Handler.Site Handler.Pc Reply <;> infer_instance

/-- What a read takes out of the tube. -/
def taken : Reply → Nat
  | .data chunk => chunk.length
  | _ => 0

def step (s : Pair) : Event → Option Pair
  | .writes n =>
    match s.left with
    | some left =>
      if 0 < n ∧ n ≤ left.length ∧ s.tube.length + n ≤ s.capacity then
        some { s with tube := s.tube ++ left.take n, left := some (left.drop n) }
      else none
    | none => none
  | .exits => if s.left = some [] then some { s with left := none } else none
  | .turn reply =>
    if answers s reply then
      (Handler.step s.session reply).map fun session =>
        { s with session := session, tube := s.tube.drop (taken reply) }
    else none

/-- The child has been forked and is about to write the output of its command. -/
def forked (session : Session) (capacity : Nat) (output : List Byte) : Pair :=
  ⟨{ session with pc := .closeWrite }, capacity, [], some output⟩

/-- The handler has not sent the response yet. -/
def Pair.unsent (s : Pair) : Prop := s.session.pc.working = true ∨ s.session.pc = .send .response

/-- The processes never wait for each other. -/
def NeverStuck (session : Session) (capacity : Nat) (output : List Byte) : Prop :=
  ∀ events s, run step (forked session capacity output) events = some s → s.unsent → ¬ Stuck step s

/-! ## An output that fits -/

/-- The output fits into what is free of the tube, and the handler reads it only when
the child is gone. -/
structure Fits (s : Pair) : Prop where
  room : ∀ left, s.left = some left → s.tube.length + left.length ≤ s.capacity
  gone : s.session.pc ≠ .closeWrite → s.session.pc ≠ .wait → s.left = none

variable {s s' : Pair} {event : Event} {session : Session} {capacity : Nat} {output : List Byte}

theorem fits_forked (short : output.length ≤ capacity) : Fits (forked session capacity output) where
  room := by
    rintro left ⟨⟩
    simpa [forked] using short
  gone := by simp [forked]

/-- The handler leaves the two calls before the loop only by the `wait`. -/
theorem gone_of_turn {reply : Reply} {next : Session} (answered : answers s reply)
    (fits : Fits s) (moved : Handler.step s.session reply = some next) (waited : next.pc ≠ .wait) :
    s.left = none := by
  by_cases before : s.session.pc = .closeWrite
  · cases reply <;> simp [answers, before] at answered
    simp only [Handler.step, before, Option.some.injEq] at moved
    exact absurd (by rw [← moved]) waited
  · by_cases waits : s.session.pc = .wait
    · cases reply <;> simp [answers, waits] at answered
      exact answered
    · exact fits.gone before waits

theorem fits_step (fits : Fits s) (stepped : step s event = some s') : Fits s' := by
  cases event with
  | writes n =>
    simp only [step] at stepped
    split at stepped
    case h_2 => cases stepped
    case h_1 left found =>
    split at stepped
    case isFalse => cases stepped
    case isTrue writable =>
    cases stepped
    have room := fits.room left found
    refine ⟨?_, fun started waited => ?_⟩
    · rintro rest ⟨⟩
      simp only [List.length_append, List.length_take, List.length_drop]
      omega
    · have none := fits.gone started waited
      rw [found] at none
      cases none
  | exits =>
    simp only [step] at stepped
    split at stepped
    case isFalse => cases stepped
    case isTrue =>
    cases stepped
    exact ⟨nofun, fun _ _ => rfl⟩
  | turn reply =>
    simp only [step] at stepped
    split at stepped
    case isFalse => cases stepped
    case isTrue answered =>
    obtain ⟨next, moved, rfl⟩ := Option.map_eq_some_iff.mp stepped
    have gone := gone_of_turn answered fits moved
    refine ⟨fun left found => ?_, fun _ waited => gone waited⟩
    have room := fits.room left found
    simp only [List.length_drop]
    omega

/-- A child that has not exited can go on as long as the tube takes its output. -/
theorem Fits.child_progress (fits : Fits s) {left : List Byte} (found : s.left = some left) :
    ¬ Stuck step s := by
  intro stuck
  cases left with
  | nil => simpa [step, found] using stuck .exits
  | cons byte rest =>
    have room := fits.room _ found
    rw [List.length_cons] at room
    have full := stuck (.writes 1)
    simp [step, found] at full
    omega

/-- Where the output fits somebody can always go on. -/
theorem Fits.progress (fits : Fits s) (unsent : s.unsent) : ¬ Stuck step s := by
  cases alive : s.left with
  | some left => exact fits.child_progress alive
  | none =>
    intro stuck
    have ok := stuck (.turn .ok)
    cases here : s.session.pc with
    | closeWrite | wait | realloc | closeRead => simp [step, answers, here, alive, Handler.step] at ok
    | readTube =>
      cases content : s.tube with
      | nil => simp [step, answers, here, alive, content, Handler.step] at ok
      | cons byte rest =>
        have reads := stuck (.turn (.data [byte]))
        simp [step, answers, here, content, Handler.step, PIPE_BUF] at reads
    | send site =>
      cases site with
      | response =>
        have sends := stuck (.turn (.sent 1))
        simp [step, answers, here, Handler.step] at sends
      | _ => simp [Pair.unsent, here, Handler.Pc.working] at unsent
    | _ => simp [Pair.unsent, here, Handler.Pc.working] at unsent

/-! ## An output that does not fit -/

/-- The handler waits for a child that waits for room in the tube. -/
theorem stuck_of_full (waits : s.session.pc = .wait) {left : List Byte} (alive : s.left = some left)
    (more : left ≠ []) (full : s.capacity ≤ s.tube.length) : Stuck step s := by
  intro event
  cases event with
  | writes n =>
    simp only [step, alive]
    rw [if_neg (by omega)]
  | exits => simp [step, alive, more]
  | turn reply =>
    simp only [step]
    rw [if_neg]
    cases reply <;> simp [answers, waits, alive]

/-- The child fills the tube and the handler begins to wait. -/
theorem stuck_of_long (session : Session) (holds : 1 ≤ capacity) (long : capacity < output.length) :
    ∃ events s, run step (forked session capacity output) events = some s ∧ s.unsent ∧
      Stuck step s := by
  refine ⟨[.writes capacity, .turn .ok], ⟨{ session with pc := .wait }, capacity,
    output.take capacity, some (output.drop capacity)⟩, ?_, ?_, ?_⟩
  · have fits : 0 < capacity ∧ capacity ≤ output.length := ⟨holds, long.le⟩
    simp [step, forked, fits, answers, Handler.step, taken]
  · exact .inl rfl
  · refine stuck_of_full rfl rfl ?_ ?_
    · simpa using long
    · simp only [List.length_take]
      omega

/-- **The handler never gets stuck if the output fits into the tube.** For every tube,
every output of a command and every order in which the child and the handler move:
no state is reachable in which neither can go on and the response is not sent, if and
only if the tube can hold the whole output. -/
theorem never_stuck_iff (session : Session) {capacity : Nat} (holds : 1 ≤ capacity) (output : List Byte) :
    NeverStuck session capacity output ↔ output.length ≤ capacity := by
  constructor
  · intro never
    by_contra long
    obtain ⟨events, s, ran, unsent, stuck⟩ := stuck_of_long session holds (Nat.lt_of_not_le long)
    exact never events s ran unsent stuck
  · intro short events s ran unsent
    have fits := run_invariant (fun _ _ _ => fits_step) (fits_forked short) ran
    exact Fits.progress fits unsent

/-- A session at its first command. -/
def firstCommand : Session := Handler.start (.empty _)

theorem never_stuck_iff_help : NeverStuck firstCommand 65536 (bytes "Liste des commandes") :=
  (never_stuck_iff firstCommand (by decide) _).mpr (by decide)

/-- `lsl` in a directory whose listing is longer than the 64 KiB of a tube. -/
theorem long_listing_gets_stuck : ¬ NeverStuck firstCommand 65536 (List.replicate 65537 0x61) := by
  intro never
  have long : 65536 < (List.replicate 65537 (0x61 : Byte)).length := by
    rw [List.length_replicate]
    omega
  obtain ⟨events, s, ran, unsent, stuck⟩ := stuck_of_long firstCommand (Nat.succ_pos _) long
  exact never events s ran unsent stuck

end LocalServer.CommandTube
