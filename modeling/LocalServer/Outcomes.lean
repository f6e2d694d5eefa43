import LocalServer.Sessions

/-! Whose outcome a session sees. Collecting a child by `wait` tells a thread
nothing about its own child, unless no child of anybody else can be collected at
that moment. -/
namespace LocalServer.Sessions
open Runs Handler ResponsePipe

/-- The response sent in this call timed out: its helper was ended by the alarm. -/
def TimedOut (s : Server) (result : Result) : Prop :=
  s.children[result.helper]?.bind Process.exit = some (exitStatus 1)

/-- What `send_response` returns is decided by the status of its own helper, a client
is signalled only if its own response timed out, and one that timed out does not
count as delivered. -/
structure OwnOutcomes (s : Server) : Prop where
  own : ∀ result ∈ s.results, ∃ (p : Process) (status : Int),
    s.children[result.helper]? = some p ∧ p.exit = some status ∧ result.value = sendResult status
  signalled : ∀ (i : Nat) (t : Thread), s.threads[i]? = some t → t.session.pc = .kill →
    ∃ result ∈ s.results, result.thread = i ∧ result.site = .response ∧ TimedOut s result
  delivered : ∀ result ∈ s.results, TimedOut s result → result.value ≠ 1

/-- The thread may collect this child: in `send_response` its own helper, elsewhere
any child that is not the helper of somebody. -/
def Thread.awaits (t : Thread) (c : Nat) (p : Process) : Bool :=
  match t.call with
  | some h => c = h
  | none => !p.helper

/-- When a thread waits, no other session's child that could decide the outcome of a
response has exited uncollected; and a helper only exits when its frame is written
or when its alarm goes off. -/
def Undisturbed (s : Server) : Event → Prop
  | .waits i _ => ∀ t ∈ s.threads[i]?, ∀ c < s.children.length, ∀ p ∈ s.children[c]?,
    p.zombie = true → t.awaits c p = true
  | .exits c status => ∀ p ∈ s.children[c]?, p.helper = true →
    status = exitStatus 0 ∨ status = exitStatus 1
  | _ => True

instance (s : Server) (event : Event) : Decidable (Undisturbed s event) := by
  unfold Undisturbed
  split <;> infer_instance

/-- Every call has its own helper, which nobody has collected. -/
structure Owned (s : Server) : Prop where
  own : ∀ result ∈ s.results, ∃ (p : Process) (status : Int),
    s.children[result.helper]? = some p ∧ p.exit = some status ∧ p.helper = true ∧
      result.value = sendResult status
  pending : ∀ (i : Nat) (t : Thread) (h : Nat), s.threads[i]? = some t → t.call = some h →
    ∃ p : Process, s.children[h]? = some p ∧ p.helper = true ∧ p.collected = false
  apart : ∀ (i j : Nat) (t u : Thread) (h : Nat), s.threads[i]? = some t → s.threads[j]? = some u →
    t.call = some h → u.call = some h → i = j
  sending : ∀ (i : Nat) (t : Thread) (h : Nat), s.threads[i]? = some t → t.call = some h →
    ∃ site, t.session.pc = .send site
  statuses : ∀ (c : Nat) (p : Process) (status : Int), s.children[c]? = some p → p.helper = true →
    p.exit = some status → status = exitStatus 0 ∨ status = exitStatus 1
  signalled : ∀ (i : Nat) (t : Thread), s.threads[i]? = some t → t.session.pc = .kill →
    ∃ result ∈ s.results, result.thread = i ∧ result.site = .response ∧ result.value = 0

variable {s s' : Server} {event : Event} {t : Thread} {i : Nat} {session session' : Session}
  {reply : Reply}

theorem owned_start : Owned start := by
  constructor <;> simp [start]

/-- Own statuses decide: 0 was delivered, the alarm's status was not. -/
theorem Owned.outcomes (owned : Owned s) : OwnOutcomes s where
  own := fun result member => by
    obtain ⟨p, status, found, exited, -, value⟩ := owned.own result member
    exact ⟨p, status, found, exited, value⟩
  signalled := fun i t found killed => by
    obtain ⟨result, member, thread, site, zero⟩ := owned.signalled i t found killed
    obtain ⟨p, status, child, exited, helper, value⟩ := owned.own result member
    refine ⟨result, member, thread, site, ?_⟩
    rw [TimedOut, child, Option.bind_some, exited]
    rcases owned.statuses _ p status child helper exited with rfl | rfl
    · rw [zero] at value
      exact absurd value (by decide)
    · rfl
  delivered := fun result member timedOut => by
    obtain ⟨p, status, child, exited, -, value⟩ := owned.own result member
    rw [TimedOut, child, Option.bind_some, exited] at timedOut
    obtain rfl : status = exitStatus 1 := Option.some.inj timedOut
    rw [value]
    decide

/-- Only a response that returned 0 leads to the signal. -/
theorem kill_of_step (stepped : Handler.step session reply = some session')
    (killed : session'.pc = .kill) : session.pc = .send .response ∧ reply = .sent 0 := by
  cases move_of_step stepped with
  | received again req _ here there | stale again garbage _ here there | forked child _ here there =>
    rw [there] at killed
    cases killed
  | sent site r _ here there =>
    rw [there] at killed
    cases site with
    | response =>
      simp only [Session.afterSend] at killed
      split at killed
      · cases killed
      · split at killed
        · next zero => exact ⟨here, congrArg _ zero⟩
        · cases killed
    | listenAgain =>
      simp only [Session.afterSend, Session.loopTest] at killed
      split at killed <;> cases killed
    | _ => cases killed
  | quiet _ _ move =>
    rw [killed] at move
    generalize atKill : Pc.kill = pc at move
    cases move with
    | works _ _ _ there => subst atKill; cases there
    | listened _ _ => simp only [Session.loopTest] at atKill; split at atKill <;> cases atKill
    | _ => cases atKill

/-! ## One step -/

/-- Threads move on or come in, but no more of them wait for a helper. -/
theorem Owned.rethread (owned : Owned s) {threads : List Thread}
    (still : ∀ (j : Nat) (u : Thread) (h : Nat), threads[j]? = some u → u.call = some h →
      s.threads[j]? = some u)
    (signalled : ∀ (j : Nat) (u : Thread), threads[j]? = some u → u.session.pc = .kill →
      ∃ result ∈ s.results, result.thread = j ∧ result.site = .response ∧ result.value = 0) :
    Owned { s with threads := threads } where
  own := owned.own
  pending := fun j u h found call => owned.pending j u h (still j u h found call) call
  apart := fun j k u v h foundJ foundK callJ callK =>
    owned.apart j k u v h (still j u h foundJ callJ) (still k v h foundK callK) callJ callK
  sending := fun j u h found call => owned.sending j u h (still j u h found call) call
  statuses := owned.statuses
  signalled := signalled

theorem call_of_set {threads : List Thread} {j h : Nat} {u : Thread}
    (found : (threads.set i ⟨session', none⟩)[j]? = some u) (call : u.call = some h) :
    threads[j]? = some u := by
  rcases cases_set found with ⟨-, rfl⟩ | ⟨-, before⟩
  · cases call
  · exact before

/-- A thread moves on, to anything but the signal, and waits for no helper. -/
theorem Owned.advance (owned : Owned s) (quiet : session'.pc ≠ .kill) :
    Owned (s.setThread i ⟨session', none⟩) := by
  refine owned.rethread (fun j u h found call => call_of_set found call) fun j u found killed => ?_
  rcases cases_set found with ⟨-, rfl⟩ | ⟨-, before⟩
  · exact absurd killed quiet
  · exact owned.signalled j u before killed

/-- Children come in, exit or are collected, but no helper that is waited for. -/
theorem Owned.recast (owned : Owned s) {children : List Process}
    (kept : ∀ (c : Nat) (p : Process), s.children[c]? = some p → ∃ p' : Process,
      children[c]? = some p' ∧ p'.helper = p.helper ∧
        ∀ status, p.exit = some status → p'.exit = some status)
    (uncollected : ∀ (j : Nat) (u : Thread) (h : Nat) (p p' : Process), s.threads[j]? = some u →
      u.call = some h → s.children[h]? = some p → children[h]? = some p' →
        p'.collected = p.collected)
    (statuses : ∀ (c : Nat) (p : Process) (status : Int), children[c]? = some p →
      p.helper = true → p.exit = some status → status = exitStatus 0 ∨ status = exitStatus 1) :
    Owned { s with children := children } where
  own := fun result member => by
    obtain ⟨p, status, found, exited, helper, value⟩ := owned.own result member
    obtain ⟨p', found', same, exits⟩ := kept _ p found
    exact ⟨p', status, found', exits status exited, same.trans helper, value⟩
  pending := fun j u h found call => by
    obtain ⟨p, child, helper, waiting⟩ := owned.pending j u h found call
    obtain ⟨p', child', same, -⟩ := kept h p child
    exact ⟨p', child', same.trans helper, (uncollected j u h p p' found call child child').trans waiting⟩
  apart := owned.apart
  sending := owned.sending
  statuses := statuses
  signalled := owned.signalled

/-- A child that was just forked. -/
theorem Owned.spawn (owned : Owned s) (helper : Bool) :
    Owned { s with children := s.children ++ [⟨helper, none, false⟩] } := by
  have old {c : Nat} {p : Process} (found : s.children[c]? = some p) :
      (s.children ++ [⟨helper, none, false⟩])[c]? = some p := by
    rwa [List.getElem?_append_left (List.getElem?_eq_some_iff.mp found).1]
  refine owned.recast (fun c p found => ⟨p, old found, rfl, fun _ exited => exited⟩) ?_ ?_
  · intro j u h p p' found call child child'
    obtain rfl : p = p' := Option.some.inj ((old child).symm.trans child')
    rfl
  · intro c p status found isHelper exited
    rcases cases_snoc found with before | ⟨-, rfl⟩
    · exact owned.statuses c p status before isHelper exited
    · cases exited

theorem owned_call (owned : Owned s) (found : s.threads[i]? = some t) {site : Site}
    (here : t.session.pc = .send site) :
    Owned { s.setThread i ⟨t.session, some s.children.length⟩ with
            children := s.children ++ [⟨true, none, false⟩] } := by
  have spawned := owned.spawn true
  have fresh {j : Nat} {u : Thread} {h : Nat} (other : s.threads[j]? = some u)
      (call : u.call = some h) : h ≠ s.children.length := by
    obtain ⟨p, child, -⟩ := owned.pending j u h other call
    have := (List.getElem?_eq_some_iff.mp child).1
    omega
  refine ⟨spawned.own, ?_, ?_, ?_, spawned.statuses, ?_⟩
  · intro j u h foundJ call
    rcases cases_set foundJ with ⟨-, rfl⟩ | ⟨-, before⟩
    · obtain rfl : s.children.length = h := Option.some.inj call
      exact ⟨⟨true, none, false⟩, by simp, rfl, rfl⟩
    · exact spawned.pending j u h before call
  · intro j k u v h foundJ foundK callJ callK
    rcases cases_set foundJ with ⟨rfl, rfl⟩ | ⟨-, beforeJ⟩ <;>
      rcases cases_set foundK with ⟨rfl, rfl⟩ | ⟨-, beforeK⟩
    · rfl
    · exact absurd (Option.some.inj callJ).symm (fresh beforeK callK)
    · exact absurd (Option.some.inj callK).symm (fresh beforeJ callJ)
    · exact owned.apart j k u v h beforeJ beforeK callJ callK
  · intro j u h foundJ call
    rcases cases_set foundJ with ⟨-, rfl⟩ | ⟨-, before⟩
    · exact ⟨site, here⟩
    · exact owned.sending j u h before call
  · intro j u foundJ killed
    rcases cases_set foundJ with ⟨-, rfl⟩ | ⟨-, before⟩
    · rw [here] at killed
      cases killed
    · exact owned.signalled j u before killed

/-- One child changes, and keeps its status if it has one. -/
theorem Owned.replace (owned : Owned s) {c : Nat} {p p' : Process} (found : s.children[c]? = some p)
    (helper : p'.helper = p.helper) (exits : ∀ status, p.exit = some status → p'.exit = some status)
    (uncollected : ∀ (j : Nat) (u : Thread), s.threads[j]? = some u → u.call = some c →
      p'.collected = p.collected)
    (statuses : p'.helper = true → ∀ status, p'.exit = some status →
      status = exitStatus 0 ∨ status = exitStatus 1) :
    Owned { s with children := s.children.set c p' } := by
  have bound := (List.getElem?_eq_some_iff.mp found).1
  refine owned.recast ?_ ?_ ?_
  · intro d q child
    by_cases same : d = c
    · subst same
      obtain rfl : p = q := Option.some.inj (found.symm.trans child)
      exact ⟨p', List.getElem?_set_self bound, helper, exits⟩
    · exact ⟨q, by rwa [List.getElem?_set_ne (Ne.symm same)], rfl, fun _ exited => exited⟩
  · intro j u h q q' foundJ call child child'
    rcases cases_set child' with ⟨rfl, rfl⟩ | ⟨-, before⟩
    · obtain rfl : p = q := Option.some.inj (found.symm.trans child)
      exact uncollected j u foundJ call
    · obtain rfl : q = q' := Option.some.inj (child.symm.trans before)
      rfl
  · intro d q status child isHelper exited
    rcases cases_set child with ⟨rfl, rfl⟩ | ⟨-, before⟩
    · exact statuses isHelper status exited
    · exact owned.statuses d q status before isHelper exited

theorem owned_exits (owned : Owned s) {c : Nat} {p : Process} {status : Int}
    (found : s.children[c]? = some p) (running : p.exit = none)
    (prompt : p.helper = true → status = exitStatus 0 ∨ status = exitStatus 1) :
    Owned { s with children := s.children.set c { p with exit := some status } } := by
  refine owned.replace found rfl (fun _ exited => by simp [running] at exited) (fun _ _ _ _ => rfl) ?_
  intro helper status' exited
  obtain rfl : status = status' := Option.some.inj exited
  exact prompt helper

/-- Collecting a child that nobody waits for in `send_response`. -/
theorem owned_collect (owned : Owned s) {c : Nat} {p : Process} (found : s.children[c]? = some p)
    (free : ∀ (j : Nat) (u : Thread), s.threads[j]? = some u → u.call ≠ some c) :
    Owned { s with children := s.children.set c { p with collected := true } } :=
  owned.replace found rfl (fun _ exited => exited)
    (fun j u foundJ call => absurd call (free j u foundJ))
    fun helper status exited => owned.statuses c p status found helper exited

/-- A call returns what the status of its own helper says. -/
theorem Owned.report (owned : Owned s) (result : Result) {p : Process} {status : Int}
    (child : s.children[result.helper]? = some p) (exited : p.exit = some status)
    (helper : p.helper = true) (value : result.value = sendResult status)
    (signal : session'.pc = .kill →
      result.thread = i ∧ result.site = .response ∧ result.value = 0) :
    Owned { s.setThread i ⟨session', none⟩ with results := s.results ++ [result] } := by
  have reported : Owned { s with results := s.results ++ [result] } := { owned with
    own := fun other member => by
      rcases List.mem_append.mp member with old | new
      · exact owned.own other old
      · obtain rfl : other = result := List.mem_singleton.mp new
        exact ⟨p, status, child, exited, helper, value⟩
    signalled := fun j u found killed => by
      obtain ⟨other, member, rest⟩ := owned.signalled j u found killed
      exact ⟨other, List.mem_append_left _ member, rest⟩ }
  refine reported.rethread (fun j u h found call => call_of_set found call) fun j u found killed => ?_
  rcases cases_set found with ⟨rfl, rfl⟩ | ⟨-, before⟩
  · exact ⟨result, by simp, signal killed⟩
  · exact reported.signalled j u before killed

/-- The `wait` of a `send_response` collects its own helper. -/
theorem owned_result (owned : Owned s) (found : s.threads[i]? = some t) {c : Nat}
    (call : t.call = some c) {site : Site} (here : t.session.pc = .send site) {p : Process}
    (child : s.children[c]? = some p) {status : Int} (exited : p.exit = some status)
    (moved : Handler.step t.session (.sent (sendResult status)) = some session') :
    Owned { s.setThread i ⟨session', none⟩ with
            children := s.children.set c { p with collected := true }
            results := s.results ++ [⟨i, site, c, sendResult status⟩] } := by
  obtain ⟨q, child', helper, -⟩ := owned.pending i t c found call
  obtain rfl : p = q := Option.some.inj (child.symm.trans child')
  have bound := (List.getElem?_eq_some_iff.mp child).1
  have idle : Owned (s.setThread i ⟨t.session, none⟩) := owned.advance (by simp [here])
  have collected := owned_collect (c := c) idle child fun j u foundJ callJ => by
    rcases cases_set foundJ with ⟨-, rfl⟩ | ⟨other, before⟩
    · cases callJ
    · exact other (owned.apart j i u t c before found callJ call)
  have reported := collected.report (i := i) ⟨i, site, c, sendResult status⟩
    (List.getElem?_set_self bound) exited helper rfl fun killed : session'.pc = .kill => by
      obtain ⟨atResponse, zero⟩ := kill_of_step moved killed
      rw [here] at atResponse
      exact ⟨rfl, Pc.send.inj atResponse, Reply.sent.inj zero⟩
  simpa [Server.setThread] using reported

theorem owned_connect (owned : Owned s) (buffer : CharArray (MAX_COMMAND_LENGTH + 1)) :
    Owned { s with threads := s.threads ++ [⟨Handler.start buffer, none⟩] } := by
  refine owned.rethread (fun j u h found call => ?_) fun j u found killed => ?_
  · rcases cases_snoc found with before | ⟨-, rfl⟩
    · exact before
    · cases call
  · rcases cases_snoc found with before | ⟨-, rfl⟩
    · exact owned.signalled j u before killed
    · cases killed

theorem owned_waits (owned : Owned s) {c : Nat} (undisturbed : Undisturbed s (.waits i c))
    (stepped : step s (.waits i c) = some s') : Owned s' := by
  simp only [step] at stepped
  split at stepped
  case h_2 => cases stepped
  case h_1 t p found child =>
  split at stepped
  case isFalse => cases stepped
  case isTrue zombie =>
  have bound := (List.getElem?_eq_some_iff.mp child).1
  have awaited := undisturbed t found c bound p child zombie
  obtain ⟨exits, waiting⟩ : p.exit.isSome = true ∧ p.collected = false := by
    simpa [Process.zombie] using zombie
  obtain ⟨status, exited⟩ := Option.isSome_iff_exists.mp exits
  unfold Server.waited at stepped
  split at stepped
  case h_1 site h here call =>
    obtain rfl : c = h := by simpa [Thread.awaits, call] using awaited
    obtain ⟨session', moved, rfl⟩ := Option.map_eq_some_iff.mp stepped
    rw [exited] at moved
    simpa only [Server.setThread, exited, Option.getD_some] using
      owned_result owned found call here child exited moved
  case h_2 here call =>
    obtain ⟨session', moved, rfl⟩ := Option.map_eq_some_iff.mp stepped
    have helper : p.helper = false := by simpa [Thread.awaits, call] using awaited
    have collected := owned_collect owned child fun j u foundJ callJ => by
      obtain ⟨q, child', isHelper, -⟩ := owned.pending j u c foundJ callJ
      obtain rfl : p = q := Option.some.inj (child.symm.trans child')
      rw [helper] at isHelper
      cases isHelper
    refine collected.advance fun killed => ?_
    rw [(kill_of_step moved killed).1] at here
    cases here
  case h_3 => cases stepped

theorem owned_step (owned : Owned s) (undisturbed : Undisturbed s event)
    (stepped : step s event = some s') : Owned s' := by
  cases event with
  | connect buffer =>
    cases stepped
    exact owned_connect owned buffer
  | turn i reply =>
    simp only [step] at stepped
    split at stepped
    case h_1 => cases stepped
    case h_2 t found =>
    split at stepped
    case isFalse => cases stepped
    case isTrue alone =>
    obtain ⟨session', moved, rfl⟩ := Option.map_eq_some_iff.mp stepped
    refine owned.advance fun killed => ?_
    obtain ⟨here, sent⟩ := kill_of_step moved killed
    simp [here, sent, unshared] at alone
  | fork i child =>
    simp only [step] at stepped
    split at stepped
    case h_1 => cases stepped
    case h_2 t found =>
    obtain ⟨session', moved, rfl⟩ := Option.map_eq_some_iff.mp stepped
    have idle : t.call = none := by
      by_contra busy
      obtain ⟨h, call⟩ := Option.ne_none_iff_exists'.mp busy
      obtain ⟨site, here⟩ := owned.sending i t h found call
      simp [Handler.step, here] at moved
    rw [idle]
    refine (owned.advance fun killed => ?_).spawn false
    cases (kill_of_step moved killed).2
  | call i outcome =>
    simp only [step] at stepped
    split at stepped
    case h_1 => cases stepped
    case h_2 t found =>
    split at stepped
    case h_2 => cases stepped
    case h_1 site here call =>
    cases outcome with
    | noMemory | noProcess =>
      obtain ⟨session', moved, rfl⟩ := Option.map_eq_some_iff.mp stepped
      refine owned.advance fun killed => ?_
      cases Reply.sent.inj (kill_of_step moved killed).2
    | forked =>
      cases stepped
      exact owned_call owned found here
  | exits c status =>
    simp only [step] at stepped
    split at stepped
    case h_1 => cases stepped
    case h_2 p child =>
    split at stepped
    case isFalse => cases stepped
    case isTrue running =>
    cases stepped
    exact owned_exits owned child running.1 (undisturbed p child)
  | waits i c => exact owned_waits owned undisturbed stepped
  | waitsNone i =>
    simp only [step] at stepped
    split at stepped
    case h_1 => cases stepped
    case h_2 t found =>
    split at stepped
    case isFalse => cases stepped
    case isTrue none =>
    unfold Server.waited at stepped
    split at stepped
    case h_1 site h here call =>
      obtain ⟨p, child, -, waiting⟩ := owned.pending i t h found call
      have gone := List.all_eq_true.mp none p (List.mem_of_getElem? child)
      rw [waiting] at gone
      cases gone
    case h_2 here call =>
      obtain ⟨session', moved, rfl⟩ := Option.map_eq_some_iff.mp stepped
      refine owned.advance fun killed => ?_
      rw [(kill_of_step moved killed).1] at here
      cases here
    case h_3 => cases stepped

/-- **Each session sees its own outcome.** In every run of any number of sessions in
which, whenever a thread waits, no child that decides another session's response has
exited uncollected, and helpers exit well or by their alarm: every call of
`send_response` returns what its own helper's status says, a client is signalled
only if its own response timed out, and a response that timed out is never taken
for delivered. -/
theorem sessions_see_own_outcomes {events : List Event}
    (undisturbed : Along step Undisturbed start events) (ran : run step start events = some s) :
    OwnOutcomes s :=
  (run_invariant_along (fun _ _ _ => owned_step) owned_start undisturbed ran).outcomes

/-- The way of thread `i` to its first response, its command being child `c`. -/
def toResponse (i c : Nat) : List Event :=
  [.connect (.empty _), .turn i .ok, .turn i (.frame (.ofCommand (bytes "help"))), .turn i .ok,
   .turn i .ok, .fork i ⟨true, true, true⟩, .turn i .ok, .exits c 0, .waits i c, .turn i .ok,
   .turn i .ok, .turn i .ok, .call i .forked]

/-- Two sessions wait for their helpers. That of the first times out and is collected before
that of the second exits. -/
def inTurn : List Event :=
  toResponse 0 0 ++ toResponse 1 2 ++
    [.exits 1 (exitStatus 1), .waits 0 1, .exits 3 (exitStatus 0), .waits 1 3]

theorem sessions_see_own_outcomes_in_turn : ∃ s, run step start inTurn = some s ∧
    s.results = [⟨0, .response, 1, 0⟩, ⟨1, .response, 3, 1⟩] ∧ OwnOutcomes s := by
  have computed : (run step start inTurn).map Server.results =
      some [⟨0, .response, 1, 0⟩, ⟨1, .response, 3, 1⟩] := by decide +kernel
  obtain ⟨s, ran, results⟩ := Option.map_eq_some_iff.mp computed
  exact ⟨s, ran, results, sessions_see_own_outcomes (by decide +kernel) ran⟩

/-- Both sessions wait when the helper of the first times out, and the second collects it.
Its own helper, which is well, is left to the first. -/
def crossed : List Event :=
  toResponse 0 0 ++ toResponse 1 2 ++
    [.exits 1 (exitStatus 1), .waits 1 1, .exits 3 (exitStatus 0), .waits 0 3]

theorem waits_cross_outcomes : ∃ s, run step start crossed = some s ∧
    s.results = [⟨1, .response, 3, 0⟩, ⟨0, .response, 1, 1⟩] ∧
      s.children.map Process.exit =
        [some 0, some (exitStatus 1), some 0, some (exitStatus 0)] ∧
      s.threads.map (fun t => t.session.pc) = [.listenOpen true, .kill] ∧ ¬ OwnOutcomes s := by
  have computed : (run step start crossed).map
      (fun s => (s.results, s.children.map Process.exit, s.threads.map fun t => t.session.pc)) =
        some ([⟨1, .response, 3, 0⟩, ⟨0, .response, 1, 1⟩],
          [some 0, some (exitStatus 1), some 0, some (exitStatus 0)], [.listenOpen true, .kill]) := by
    decide +kernel
  obtain ⟨s, ran, same⟩ := Option.map_eq_some_iff.mp computed
  simp only [Prod.mk.injEq] at same
  obtain ⟨results, exits, pcs⟩ := same
  refine ⟨s, ran, results, exits, pcs, fun outcomes => ?_⟩
  have timedOut : TimedOut s ⟨0, .response, 1, 1⟩ := by
    have exited := congrArg (fun statuses : List (Option Int) => statuses[1]?) exits
    rw [List.getElem?_map] at exited
    obtain ⟨p, child, alarm⟩ := Option.map_eq_some_iff.mp exited
    rw [TimedOut, child, Option.bind_some, alarm]
  exact outcomes.delivered _ (by simp [results]) timedOut rfl

end LocalServer.Sessions
