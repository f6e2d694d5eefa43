import LocalServer.Handler

/-! Which requests a session answers. A response belongs to the request before it;
one that is missing or that comes on top shifts every later answer by one on the
client, which counts them. -/
namespace LocalServer.Handler
open Runs

/-- Complete rounds: each request is followed, before the next one, by at most one
execution of its command and by exactly one response. -/
inductive Rounds : List Happening → Prop
  | none : Rounds []
  | refused (log : List Happening) (cmd msg : List Byte) (rounds : Rounds log) :
    Rounds (log ++ [.received cmd, .responded msg])
  | answered (log : List Happening) (cmd msg : List Byte) (rounds : Rounds log) :
    Rounds (log ++ [.received cmd, .executed cmd, .responded msg])

/-- The begin of a round whose response is still to come. -/
inductive Pending : List Happening → Prop
  | read (log : List Happening) (cmd : List Byte) (rounds : Rounds log) :
    Pending (log ++ [.received cmd])
  | run (log : List Happening) (cmd : List Byte) (rounds : Rounds log) :
    Pending (log ++ [.received cmd, .executed cmd])

/-- Every request has its one response, but for the last one as long as the
session goes on. -/
def Paired (s : Session) : Prop :=
  Rounds s.log ∨ s.pc ≠ .ended ∧ Pending s.log

/-- `send_response` succeeds. -/
def Delivers (_ : Session) : Reply → Prop
  | .sent r => r = 1
  | _ => True

instance decidableDelivers (s : Session) : ∀ reply, Decidable (Delivers s reply)
  | .sent _ => inferInstanceAs (Decidable (_ = _))
  | .ok | .fail | .frame _ | .eof _ | .forked _ | .data _ => isTrue trivial

/-- None of the calls fails after which the handler sends no response or two of
them, and none of those that read a request before it was read. -/
def AnswersOnce (s : Session) (reply : Reply) : Prop :=
  match s.pc, reply with
  | .listenOpen _, .fail | .listenRead _, .fail | .listenRead _, .eof _ => False
  | .listenClose true, .fail => False
  | .pipe, .fail | .closeWrite, .fail | .readTube, .fail | .closeRead, .fail => False
  | _, _ => True

instance (s : Session) (reply : Reply) : Decidable (AnswersOnce s reply) := by
  unfold AnswersOnce
  generalize s.pc = pc
  cases_type* Bool Pc Reply <;> infer_instance

/-! ## The rounds follow the program -/

/-- What the log looks like at each place of the program. -/
inductive Phase where
  | idle | holding | running | lost
  deriving DecidableEq

def Pc.phase : Pc → Phase
  | .listenOpen _ | .listenRead _ | .remove | .ended => .idle
  | .listenClose _ | .pipe | .fork | .send .fork | .send .goodbye | .send .firstListen => .holding
  | .closeWrite | .wait | .realloc | .readTube | .closeRead
  | .send .realloc | .send .response => .running
  | .send .closeWrite | .send .readTube | .send .listenAgain | .kill => .lost

/-- The log agrees with the place of the program. -/
def Agrees (s : Session) : Prop :=
  match s.pc.phase with
  | .idle => Rounds s.log
  | .holding => ∃ log, Rounds log ∧ s.log = log ++ [.received s.reqBuffer.string]
  | .running => Pending s.log
  | .lost => False

variable {s s' : Session} {reply : Reply} {replies : List Reply}
  {buffer : CharArray (MAX_COMMAND_LENGTH + 1)} {final : Session}

theorem Agrees.paired (agree : Agrees s) : Paired s := by
  unfold Agrees at agree
  cases phase : s.pc.phase with
  | idle => rw [phase] at agree; exact .inl agree
  | holding =>
    rw [phase] at agree
    obtain ⟨log, rounds, same⟩ := agree
    exact .inr ⟨fun ended => by simp [ended, Pc.phase] at phase, same ▸ .read _ _ rounds⟩
  | running =>
    rw [phase] at agree
    exact .inr ⟨fun ended => by simp [ended, Pc.phase] at phase, agree⟩
  | lost => rw [phase] at agree; exact agree.elim

theorem Pending.responded {log : List Happening} (pending : Pending log) (msg : List Byte) :
    Rounds (log ++ [.responded msg]) := by
  cases pending with
  | read log cmd rounds => simpa using Rounds.refused log cmd msg rounds
  | run log cmd rounds => simpa using Rounds.answered log cmd msg rounds

theorem phase_of_working {pc : Pc} (works : pc.working = true) : pc.phase = .running := by
  cases pc with
  | closeWrite | wait | realloc | readTube | closeRead => rfl
  | _ => cases works

/-- Unseen steps stay in their phase. -/
theorem phase_of_quiet {pc : Pc} (move : Quiet s reply pc) (once : AnswersOnce s reply)
    (sound : s.pc.phase ≠ .lost) : pc.phase = s.pc.phase := by
  cases move with
  | opened _ here | piped here | unforked here | unallocated here | output here | removed here =>
    rw [here]; rfl
  | unclosed again here =>
    cases again with
    | false => rw [here]; rfl
    | true => simp [AnswersOnce, here] at once
  | listened again here =>
    rw [here, Session.loopTest]
    split <;> rfl
  | works _ _ here there => rw [phase_of_working here, phase_of_working there]
  | killed _ here => simp [here, Pc.phase] at sound
  | unopened _ here | unread _ here | unpiped here | unclosedTube here | unreadTube here
  | silenced here => simp [AnswersOnce, here] at once

theorem agrees_step (agree : Agrees s) (delivers : Delivers s reply) (once : AnswersOnce s reply)
    (stepped : step s reply = some s') : Agrees s' := by
  have sound : s.pc.phase ≠ .lost := fun lost => by simp [Agrees, lost] at agree
  cases move_of_step stepped with
  | received again req _ here there buffer log =>
    have rounds : Rounds s.log := by simpa [Agrees, here, Pc.phase] using agree
    simp only [Agrees, there, Pc.phase, buffer, log]
    exact ⟨s.log, rounds, rfl⟩
  | stale again garbage _ here there log => simp [AnswersOnce, here] at once
  | forked child _ here there log =>
    obtain ⟨before, rounds, same⟩ : ∃ before, Rounds before ∧
        s.log = before ++ [.received s.reqBuffer.string] := by
      simpa [Agrees, here, Pc.phase] using agree
    simp only [Agrees, there, Pc.phase, log, same]
    by_cases executes : child.executes = true
    · rw [if_pos executes, List.append_assoc]
      exact .run _ _ rounds
    · rw [if_neg executes]
      exact .read _ _ rounds
  | sent site r _ here there buffer log =>
    obtain rfl : r = 1 := delivers
    have pending : Pending s.log := by
      cases site <;> simp only [Agrees, here, Pc.phase] at agree <;>
        first
        | exact agree
        | exact agree.elim
        | (obtain ⟨before, rounds, same⟩ := agree; exact same ▸ .read _ _ rounds)
    have idle : s'.pc.phase = .idle := by
      rw [there]
      cases site <;> first | rfl | (simp [here, Pc.phase] at sound)
    simp only [Agrees, idle, log, Int.zero_lt_one, if_true]
    exact pending.responded _
  | quiet _ _ move buffer log =>
    simpa only [Agrees, phase_of_quiet move once sound, buffer, log] using agree

/-! ## Counting -/

theorem Rounds.counts {log : List Happening} (rounds : Rounds log) :
    (responses log).length = (requests log).length := by
  induction rounds with
  | none => rfl
  | refused log cmd msg _ ih | answered log cmd msg _ ih =>
    simp only [responses_append, requests_append, List.length_append, ih]
    rfl

theorem Pending.counts {log : List Happening} (pending : Pending log) :
    (responses log).length + 1 = (requests log).length := by
  cases pending with
  | read log cmd rounds | run log cmd rounds =>
    simp only [responses_append, requests_append, List.length_append, rounds.counts]
    rfl

theorem Paired.counts (paired : Paired s) :
    (responses s.log).length ≤ (requests s.log).length := by
  rcases paired with rounds | ⟨-, pending⟩
  · exact rounds.counts.le
  · have := pending.counts
    omega

/-! ## Runs -/

/-- **One response for each request.** In every run in which `send_response`
succeeds and no call fails that the handler answers with no response or with one
too many, the session is a sequence of rounds of one request, at most one
execution of its command and one response, the last of which is complete when the
session ends. -/
theorem requests_are_answered_once (delivers : Along step Delivers (start buffer) replies)
    (once : Along step AnswersOnce (start buffer) replies)
    (ran : run step (start buffer) replies = some final) : Paired final := by
  have initial : Agrees (start buffer) := Rounds.none
  exact (run_invariant_along (fun _ _ _ held met => agrees_step held met.1 met.2) initial
    (delivers.and once) ran).paired

/-- A session of one command and `exit`, in which the system does what is asked. -/
def oneCommandAndExit : List Reply :=
  [.ok, .frame (.ofCommand (bytes "help")), .ok, .ok, .forked ⟨true, true, true⟩, .ok, .ok,
   .ok, .data (bytes "list"), .ok, .ok, .ok, .sent 1,
   .ok, .frame (.ofCommand (bytes "exit")), .ok, .sent 1, .ok]

theorem requests_are_answered_once_command_and_exit : ∃ final,
    run step (start (.empty _)) oneCommandAndExit = some final ∧
      final.log = [.received (bytes "help"), .executed (bytes "help"), .responded (bytes "list"),
        .received (bytes "exit"), .responded (bytes "Déconnexion du serveur...\n")] ∧
      Paired final := by
  have computed : (run step (start (.empty _)) oneCommandAndExit).map Session.log =
      some [.received (bytes "help"), .executed (bytes "help"), .responded (bytes "list"),
        .received (bytes "exit"), .responded (bytes "Déconnexion du serveur...\n")] := by
    decide +kernel
  obtain ⟨final, ran, log⟩ := Option.map_eq_some_iff.mp computed
  exact ⟨final, ran, log,
    requests_are_answered_once (by decide +kernel) (by decide +kernel) ran⟩

/-- The tube cannot be read: the client gets an error text and then a response. -/
theorem unreadable_tube_responds_twice : ∃ final,
    run step (start (.empty _))
        [.ok, .frame (.ofCommand (bytes "help")), .ok, .ok, .forked ⟨true, true, true⟩, .ok, .ok,
         .ok, .fail, .sent 1, .ok, .sent 1] = some final ∧
      (requests final.log).length = 1 ∧ (responses final.log).length = 2 ∧ ¬ Paired final := by
  have computed : (run step (start (.empty _))
      [.ok, .frame (.ofCommand (bytes "help")), .ok, .ok, .forked ⟨true, true, true⟩, .ok, .ok,
       .ok, .fail, .sent 1, .ok, .sent 1]).map
        (fun s => ((requests s.log).length, (responses s.log).length)) = some (1, 2) := by
    decide +kernel
  obtain ⟨final, ran, same⟩ := Option.map_eq_some_iff.mp computed
  obtain ⟨received, sent⟩ := Prod.mk.injEq .. ▸ same
  refine ⟨final, ran, received, sent, fun paired => ?_⟩
  have counts := paired.counts
  omega

end LocalServer.Handler
