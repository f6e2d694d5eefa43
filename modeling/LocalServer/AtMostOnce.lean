import LocalServer.Handler

/-! Which commands a session executes. Its request buffer survives from round to
round, and a command is executed again when the buffer was not filled anew. -/
namespace LocalServer.Handler
open Runs

/-- Here the buffer holds the last request, and its command was not executed yet. -/
def Pc.fresh : Pc → Bool
  | .listenClose _ | .pipe | .fork | .send .listenAgain => true
  | _ => false

/-- The loop's `listen_request` neither fails before it has filled the buffer nor
meets the end of the pipe. -/
def Refilled (s : Session) (reply : Reply) : Prop :=
  match s.pc, reply with
  | .listenOpen true, .fail | .listenRead true, .fail => False
  | .listenRead _, .eof _ => False
  | _, _ => True

instance (s : Session) (reply : Reply) : Decidable (Refilled s reply) := by
  unfold Refilled
  generalize s.pc = pc
  cases_type* Bool Pc Reply <;> infer_instance

/-- The executed commands are received ones, and a fresh buffer holds one more. -/
def ExecutesRequests (s : Session) : Prop :=
  if s.pc.fresh then
    ∃ answered, requests s.log = answered ++ [s.reqBuffer.string] ∧
      (executions s.log).Sublist answered
  else (executions s.log).Sublist (requests s.log)

variable {s s' : Session} {reply : Reply} {replies : List Reply}
  {buffer : CharArray (MAX_COMMAND_LENGTH + 1)} {final : Session}

theorem ExecutesRequests.sublist (held : ExecutesRequests s) :
    (executions s.log).Sublist (requests s.log) := by
  unfold ExecutesRequests at held
  split at held
  · obtain ⟨answered, received, executed⟩ := held
    rw [received]
    exact executed.trans (List.sublist_append_left ..)
  · exact held

/-- A step that neither reads a request nor executes one keeps the account, unless
it makes a spent buffer fresh. -/
theorem ExecutesRequests.carry (held : ExecutesRequests s)
    (received : requests s'.log = requests s.log) (executed : executions s'.log = executions s.log)
    (buffer : s'.reqBuffer = s.reqBuffer) (fresh : s'.pc.fresh = true → s.pc.fresh = true) :
    ExecutesRequests s' := by
  by_cases isFresh : s'.pc.fresh = true
  · simpa only [ExecutesRequests, isFresh, fresh isFresh, if_true, received, executed, buffer]
      using held
  · rw [ExecutesRequests, if_neg isFresh, received, executed]
    exact held.sublist

/-- Without a failure before the buffer is filled, no unseen step makes it fresh. -/
theorem fresh_of_quiet {pc : Pc} (move : Quiet s reply pc) (refilled : Refilled s reply)
    (fresh : pc.fresh = true) : s.pc.fresh = true := by
  cases move with
  | unopened again here => cases again <;> simp_all [Refilled, Session.listenFailed, Pc.fresh]
  | unread again here => cases again <;> simp_all [Refilled, Session.listenFailed, Pc.fresh]
  | works _ _ here there => cases pc <;> simp_all [Pc.working, Pc.fresh]
  | unclosed _ here | listened _ here | piped here => rw [here]; rfl
  | _ => simp [Pc.fresh] at fresh

theorem fresh_of_sent {site : Site} {r : Int} (here : s.pc = .send site)
    (fresh : (s.afterSend r site).pc.fresh = true) : s.pc.fresh = true := by
  cases site with
  | listenAgain => rw [here]; rfl
  | response =>
    simp only [Session.afterSend] at fresh
    split at fresh <;> [skip; split at fresh] <;> simp [Pc.fresh] at fresh
  | _ => simp [Session.afterSend, Pc.fresh] at fresh

theorem executesRequests_step (held : ExecutesRequests s) (refilled : Refilled s reply)
    (stepped : step s reply = some s') : ExecutesRequests s' := by
  cases move_of_step stepped with
  | received again req _ here there buffer log =>
    have spent : (executions s.log).Sublist (requests s.log) := held.sublist
    rw [ExecutesRequests, if_pos (by rw [there]; rfl), log, buffer]
    exact ⟨requests s.log, by simp [requests], by simpa [executions] using spent⟩
  | stale again garbage _ here there log => simp [Refilled, here] at refilled
  | forked child _ here there log =>
    obtain ⟨answered, received, executed⟩ : ∃ answered,
        requests s.log = answered ++ [s.reqBuffer.string] ∧
          (executions s.log).Sublist answered := by
      simpa [ExecutesRequests, here, Pc.fresh] using held
    rw [ExecutesRequests, if_neg (by simp [there, Pc.fresh]), log]
    by_cases executes : child.executes = true
    · rw [if_pos executes, executions_append, requests_append, received]
      exact (executed.append_right _).trans (List.sublist_append_left ..)
    · rw [if_neg executes]
      exact held.sublist
  | sent site r _ here there buffer log =>
    refine held.carry ?_ ?_ buffer fun fresh => fresh_of_sent here (there ▸ fresh)
    · rw [log]
      split <;> simp [requests]
    · rw [log]
      split <;> simp [executions]
  | quiet _ _ move buffer log =>
    exact held.carry (by rw [log]) (by rw [log]) buffer (fresh_of_quiet move refilled)

/-- **No command is executed more often than it was received.** In every run in
which the loop's `listen_request` neither fails before it has filled the buffer
nor reads the end of the pipe, the strings passed to `exec_cmd` are the commands
of distinct request frames, in the order in which they were read. -/
theorem executions_are_requests (along : Along step Refilled (start buffer) replies)
    (ran : run step (start buffer) replies = some final) :
    (executions final.log).Sublist (requests final.log) := by
  have initial : ExecutesRequests (start buffer) := List.Sublist.refl []
  exact (run_invariant_along (fun _ _ _ => executesRequests_step) initial along ran).sublist

/-- The answers to a session of one command, up to the response. -/
def oneCommand (cmd output : List Byte) : List Reply :=
  [.ok, .frame (.ofCommand cmd), .ok, .ok, .forked ⟨true, true, true⟩, .ok, .ok,
   .ok, .data output, .ok, .ok, .ok, .sent 1]

theorem executions_are_requests_one_command : ∃ final,
    run step (start (.empty _)) (oneCommand (bytes "rm a") (bytes "ok")) = some final ∧
      executions final.log = [bytes "rm a"] ∧
      (executions final.log).Sublist (requests final.log) := by
  have computed : (run step (start (.empty _)) (oneCommand (bytes "rm a") (bytes "ok"))).map
      (fun s => executions s.log) = some [bytes "rm a"] := by decide +kernel
  obtain ⟨final, ran, executed⟩ := Option.map_eq_some_iff.mp computed
  exact ⟨final, ran, executed, executions_are_requests (by decide +kernel) ran⟩

/-- The client dies after its command and its pipe is gone: `listen_request` fails
in the loop, which executes the command again, and again. -/
theorem failed_listen_repeats_command : ∃ final,
    run step (start (.empty _)) (oneCommand (bytes "rm a") (bytes "ok") ++
        [.fail, .sent 1, .ok, .forked ⟨true, true, true⟩]) = some final ∧
      executions final.log = [bytes "rm a", bytes "rm a"] ∧
      requests final.log = [bytes "rm a"] ∧
      ¬ (executions final.log).Sublist (requests final.log) := by
  have computed : (run step (start (.empty _)) (oneCommand (bytes "rm a") (bytes "ok") ++
      [.fail, .sent 1, .ok, .forked ⟨true, true, true⟩])).map
      (fun s => (executions s.log, requests s.log)) =
        some ([bytes "rm a", bytes "rm a"], [bytes "rm a"]) := by decide +kernel
  obtain ⟨final, ran, same⟩ := Option.map_eq_some_iff.mp computed
  obtain ⟨executed, received⟩ := Prod.mk.injEq .. ▸ same
  refine ⟨final, ran, executed, received, fun sublist => ?_⟩
  have shorter := sublist.length_le
  simp [executed, received] at shorter

end LocalServer.Handler
