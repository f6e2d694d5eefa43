import LocalServer.Configuration
import LocalServer.Lib.Exclusive
import LocalServer.Lib.Simulation

/-! The pipes of the clients. A client makes the two pipes that bear its process number
and removes them when it goes, by the way of `main` or by that of `sig_disconnect`. What
it leaves behind lies in the way of the next client with the same number.

The helpers that `send_request` forks have no part in this: each is taken to come to its
`exit` there, and not to return into `main` or to be interrupted. That leaves out two things
that the helper of `sig_disconnect` can do: hang in its `open`, as `SIGALRM` is blocked in the
handler, and return when the `open` fails, to go on as a second client. -/
namespace LocalServer.ClientPipes
open Runs

inductive Kind where
  | request | response
  deriving DecidableEq

/-- The names that `main` prints into `request_pipe` and `response_pipe`. -/
def pipeName (kind : Kind) (pid : Nat) : List Byte :=
  (match kind with
    | .request => bytes "./tmp/pipe_requete_"
    | .response => bytes "./tmp/pipe_reponse_") ++ Yml.digits pid

/-- A client that leaves: whether in `sig_disconnect`, whether `server_q` is mapped, and
which of `req_fifo` and `res_fifo` it knows. -/
structure Leaving where
  signalled : Bool
  mapped : Bool
  request : Bool
  response : Bool
  deriving DecidableEq

/-- The calls of `main` up to the exchange with the server, and those at the end of it
and of `sig_disconnect`. -/
inductive Place where
  /-- The configuration and the actions of the signals. -/
  | config
  | connect
  | makeRequest
  /-- The pipe is made and `req_fifo` does not point to it yet. -/
  | keepRequest
  | makeResponse
  | keepResponse
  | working
  | disconnect (l : Leaving)
  | closeRequest (l : Leaving)
  | closeResponse (l : Leaving)
  | gone
  deriving DecidableEq

structure Client where
  pid : Nat
  place : Place
  deriving DecidableEq

/-- What lies in `request_pipe` and in `response_pipe`. -/
def Client.pipe (client : Client) (kind : Kind) : List Byte := pipeName kind client.pid

/-- The names that exist, and all clients there have been. -/
structure System where
  files : List Byte → Bool
  clients : List Client

inductive Event where
  /-- A client is started with this number, which no living process has. -/
  | starts (pid : Nat)
  /-- The next call of a client works or fails. -/
  | calls (k : Nat) (works : Bool)
  /-- A client gets a signal that it handles. -/
  | signal (k : Nat)
  /-- A client is killed. -/
  | dies (k : Nat)
  deriving DecidableEq

/-- Where a call leads that leaves the files alone; the others are in `call`. -/
def Place.next (works : Bool) : Place → Option Place
  | .config => some (if works then .connect else .gone)
  | .connect => some (if works then .makeRequest else .gone)
  | .keepRequest => if works then some .makeResponse else none
  | .keepResponse => if works then some .working else none
  -- for whatever reason the loop ends
  | .working => some (.disconnect ⟨false, true, true, true⟩)
  | .disconnect l =>
    -- `nb_slots` is read through the pointer
    if l.mapped then some (.closeRequest { l with mapped := !works }) else some .gone
  | .makeRequest | .makeResponse => if works then none else some .gone
  | .closeRequest l => if works then none else some (.closeResponse l)
  | .closeResponse _ => if works then none else some .gone
  | .gone => none

def System.setClient (s : System) (k : Nat) (client : Client) (place : Place) : System :=
  { s with clients := s.clients.set k { client with place := place } }

def System.setFile (s : System) (name : List Byte) (present : Bool) : System :=
  { s with files := Function.update s.files name present }

/-- A call of a client. -/
def call (s : System) (k : Nat) (client : Client) (works : Bool) : Option System :=
  match client.place, works with
  | .makeRequest, true =>
    if s.files (client.pipe .request) then none
    else some ((s.setClient k client .keepRequest).setFile (client.pipe .request) true)
  | .makeResponse, true =>
    if s.files (client.pipe .response) then none
    else some ((s.setClient k client .keepResponse).setFile (client.pipe .response) true)
  | .closeRequest l, true =>
    if l.request ∧ s.files (client.pipe .request) then
      some ((s.setClient k client (.closeResponse { l with request := false })).setFile (client.pipe .request) false)
    else none
  | .closeResponse l, true =>
    if l.response ∧ s.files (client.pipe .response) then
      some ((s.setClient k client .gone).setFile (client.pipe .response) false)
    else none
  | place, _ => (place.next works).map (s.setClient k client)

/-- Where a signal leads. All signals are blocked in `sig_disconnect`, and before the
actions are set it ends the process. -/
def Place.signalled : Place → Option Place
  | .config => some .gone
  | .connect => some (.disconnect ⟨true, false, false, false⟩)
  | .makeRequest | .keepRequest => some (.disconnect ⟨true, true, false, false⟩)
  | .makeResponse | .keepResponse => some (.disconnect ⟨true, true, true, false⟩)
  | .working => some (.disconnect ⟨true, true, true, true⟩)
  | .disconnect l | .closeRequest l | .closeResponse l =>
    if l.signalled then none else some (.disconnect { l with signalled := true })
  | .gone => none

def step (s : System) : Event → Option System
  | .starts pid =>
    if ∀ client ∈ s.clients, client.pid = pid → client.place = .gone then
      some { s with clients := s.clients ++ [⟨pid, .config⟩] }
    else none
  | .calls k works => s.clients[k]?.bind fun client => call s k client works
  | .signal k => s.clients[k]?.bind fun client => client.place.signalled.map (s.setClient k client)
  | .dies k => s.clients[k]?.map fun client => s.setClient k client .gone

/-- No client has run yet. -/
def empty : System := ⟨fun _ => false, []⟩

/-! ## Who will remove a pipe -/

/-- The client has made the pipe and still may remove it. -/
def Place.holds (kind : Kind) : Place → Bool
  | .keepRequest | .makeResponse => kind = .request
  | .keepResponse | .working => true
  | .disconnect l => l.mapped && (match kind with | .request => l.request | .response => l.response)
  | .closeRequest l => match kind with | .request => l.request | .response => l.response
  -- a signal would still lead back to `close_request_fifo`
  | .closeResponse l =>
    match kind with
    | .request => !l.signalled && l.mapped && l.request
    | .response => l.response
  | .config | .connect | .makeRequest | .gone => false

/-- What an event does to the pipe of this kind and number. -/
def shows (kind : Kind) (pid : Nat) (s : System) (event : Event) : List (Exclusive.Action Nat) :=
  match event with
  | .starts _ => []
  | .calls k _ | .signal k | .dies k =>
    match s.clients[k]?, step s event with
    | some client, some next =>
      let after := (next.clients[k]?.map fun c => c.place.holds kind).getD false
      if client.pid ≠ pid then []
      else if client.place.holds kind then
        if after then [] else if next.files (pipeName kind pid) then [.abandon k] else [.remove k]
      else if after then [.create k] else []
    | _, _ => []

/-! ## One registry for each name -/

variable {s s' : System} {event : Event} {events : List Event} {k pid : Nat} {kind : Kind}
  {client : Client} {place : Place}

theorem pipeName_inj {kind' : Kind} {pid' : Nat} (same : pipeName kind pid = pipeName kind' pid') :
    kind = kind' ∧ pid = pid' := by
  have lengths : (bytes "./tmp/pipe_requete_").length = (bytes "./tmp/pipe_reponse_").length := by decide
  have apart : bytes "./tmp/pipe_requete_" ≠ bytes "./tmp/pipe_reponse_" := by decide
  have number (same : Yml.digits pid = Yml.digits pid') : pid = pid' := by
    rw [← Yml.magnitude_digits pid, same, Yml.magnitude_digits]
  cases kind <;> cases kind'
  · exact ⟨rfl, number (List.append_cancel_left same)⟩
  · exact absurd (List.append_inj same lengths).1 apart
  · exact absurd (List.append_inj same lengths.symm).1 apart.symm
  · exact ⟨rfl, number (List.append_cancel_left same)⟩

/-- What a client can do to the files when it moves. -/
inductive Moving (s : System) (client : Client) : Place → (List Byte → Bool) → Prop
  | made (kind : Kind) (place : Place) (absent : s.files (pipeName kind client.pid) = false)
    (before : client.place.holds kind = false) (after : place.holds kind = true)
    (other : ∀ kind' ≠ kind, place.holds kind' = true → client.place.holds kind' = true) :
    Moving s client place (Function.update s.files (pipeName kind client.pid) true)
  | removed (kind : Kind) (place : Place) (before : client.place.holds kind = true)
    (after : place.holds kind = false)
    (other : ∀ kind' ≠ kind, place.holds kind' = true → client.place.holds kind' = true) :
    Moving s client place (Function.update s.files (pipeName kind client.pid) false)
  | moved (place : Place) (held : ∀ kind, place.holds kind = true → client.place.holds kind = true) :
    Moving s client place s.files

theorem holds_of_next {works : Bool} (next : client.place.next works = some place)
    (held : place.holds kind = true) : client.place.holds kind = true := by
  cases here : client.place with
  | disconnect l =>
    rw [here, Place.next] at next
    split at next
    · next mapped =>
      cases next
      cases kind <;> simpa [Place.holds, mapped] using held
    · cases next
      cases held
  | closeRequest l =>
    rw [here, Place.next] at next
    split at next
    · cases next
    · cases next
      cases kind <;> simp_all [Place.holds]
  | closeResponse l =>
    rw [here, Place.next] at next
    split at next <;> cases next
    cases held
  | config | connect | makeRequest | keepRequest | makeResponse | keepResponse | working | gone =>
    rw [here, Place.next] at next
    cases works <;> cases next <;> cases kind <;> first | rfl | cases held

theorem holds_of_signalled (signalled : client.place.signalled = some place)
    (held : place.holds kind = true) : client.place.holds kind = true := by
  cases here : client.place with
  | disconnect l | closeRequest l | closeResponse l =>
    rw [here, Place.signalled] at signalled
    split at signalled <;> cases signalled
    cases kind <;> simp_all [Place.holds]
  | config | connect | makeRequest | keepRequest | makeResponse | keepResponse | working | gone =>
    rw [here, Place.signalled] at signalled
    cases signalled <;> cases kind <;> first | rfl | cases held

theorem moving_of_call {works : Bool} (called : call s k client works = some s') :
    ∃ place files, Moving s client place files ∧ s' = ⟨files, s.clients.set k { client with place := place }⟩ := by
  unfold call at called
  split at called
  case h_1 here =>
    split at called
    case isTrue => cases called
    case isFalse absent =>
    cases called
    refine ⟨_, _, .made .request .keepRequest (Bool.eq_false_of_not_eq_true absent) (by rw [here]; rfl) rfl ?_, rfl⟩
    rintro (_ | _) apart held
    · exact absurd rfl apart
    · cases held
  case h_2 here =>
    split at called
    case isTrue => cases called
    case isFalse absent =>
    cases called
    refine ⟨_, _, .made .response .keepResponse (Bool.eq_false_of_not_eq_true absent) (by rw [here]; rfl) rfl ?_, rfl⟩
    rintro (_ | _) apart held
    · rw [here]
      rfl
    · exact absurd rfl apart
  case h_3 l here =>
    split at called
    case isFalse => cases called
    case isTrue knows =>
    cases called
    refine ⟨_, _, .removed .request _ (by rw [here]; exact knows.1) (by simp [Place.holds]) ?_, rfl⟩
    rintro (_ | _) apart held
    · exact absurd rfl apart
    · rw [here]
      exact held
  case h_4 l here =>
    split at called
    case isFalse => cases called
    case isTrue knows =>
    cases called
    refine ⟨_, _, .removed .response _ (by rw [here]; exact knows.1) rfl ?_, rfl⟩
    rintro (_ | _) apart held
    · cases held
    · exact absurd rfl apart
  case h_5 place =>
    obtain ⟨place, next, rfl⟩ := Option.map_eq_some_iff.mp called
    exact ⟨place, _, .moved place fun kind => holds_of_next next, rfl⟩

/-- An event starts a client or lets one move. -/
inductive Move (s : System) : Event → System → Prop
  | starts (pid : Nat) (alone : ∀ client ∈ s.clients, client.pid = pid → client.place = .gone) :
    Move s (.starts pid) { s with clients := s.clients ++ [⟨pid, .config⟩] }
  | moves (event : Event) (k : Nat) (client : Client) (place : Place) (files : List Byte → Bool)
    (found : s.clients[k]? = some client) (moving : Moving s client place files)
    (living : place ≠ .gone → client.place ≠ .gone)
    (who : (∃ works, event = .calls k works) ∨ event = .signal k ∨ event = .dies k) :
    Move s event ⟨files, s.clients.set k { client with place := place }⟩

theorem move_of_step (stepped : step s event = some s') : Move s event s' := by
  cases event with
  | starts pid =>
    simp only [step] at stepped
    split at stepped
    case isFalse => cases stepped
    case isTrue alone =>
    cases stepped
    exact .starts pid alone
  | calls k works =>
    obtain ⟨client, found, called⟩ := Option.bind_eq_some_iff.mp stepped
    obtain ⟨place, files, moving, rfl⟩ := moving_of_call called
    refine .moves _ k client place files found moving (fun _ gone => ?_) (.inl ⟨works, rfl⟩)
    cases works <;> simp [call, gone, Place.next] at called
  | signal k =>
    obtain ⟨client, found, moved⟩ := Option.bind_eq_some_iff.mp stepped
    obtain ⟨place, signalled, rfl⟩ := Option.map_eq_some_iff.mp moved
    refine .moves _ k client place _ found (.moved place fun kind => holds_of_signalled signalled)
      (fun _ gone => ?_) (.inr (.inl rfl))
    rw [gone] at signalled
    cases signalled
  | dies k =>
    obtain ⟨client, found, rfl⟩ := Option.map_eq_some_iff.mp stepped
    exact .moves _ k client .gone _ found (.moved .gone fun _ => nofun) (absurd rfl) (.inr (.inr rfl))

/-- A pipe comes when a client begins to hold it, and goes at most when it ceases to. -/
theorem Moving.file {files : List Byte → Bool} (moving : Moving s client place files) (kind : Kind) :
    (client.place.holds kind = false → place.holds kind = true →
      s.files (client.pipe kind) = false ∧ files (client.pipe kind) = true) ∧
    (client.place.holds kind = place.holds kind → files (client.pipe kind) = s.files (client.pipe kind)) := by
  have elsewhere {kind' : Kind} (apart : kind ≠ kind') (present : Bool) :
      Function.update s.files (pipeName kind' client.pid) present (client.pipe kind) = s.files (client.pipe kind) :=
    Function.update_of_ne (fun same => apart (pipeName_inj same).1) ..
  cases moving with
  | made kind' _ absent before after other =>
    by_cases same : kind = kind'
    · subst same
      refine ⟨fun _ _ => ⟨absent, Function.update_self ..⟩, fun kept => ?_⟩
      rw [before, after] at kept
      cases kept
    · refine ⟨fun idle holds => ?_, fun _ => elsewhere same true⟩
      rw [other kind same holds] at idle
      cases idle
  | removed kind' _ before after other =>
    by_cases same : kind = kind'
    · subst same
      refine ⟨fun idle => ?_, fun kept => ?_⟩
      · rw [before] at idle
        cases idle
      · rw [before, after] at kept
        cases kept
    · refine ⟨fun idle holds => ?_, fun _ => elsewhere same false⟩
      rw [other kind same holds] at idle
      cases idle
  | moved _ held =>
    refine ⟨fun idle holds => ?_, fun _ => rfl⟩
    rw [held kind holds] at idle
    cases idle

/-- The pipes of the other numbers stay as they are. -/
theorem Moving.file_ne {files : List Byte → Bool} (moving : Moving s client place files) (apart : client.pid ≠ pid) :
    files (pipeName kind pid) = s.files (pipeName kind pid) := by
  have elsewhere (kind' : Kind) : pipeName kind pid ≠ pipeName kind' client.pid :=
    fun same => apart (pipeName_inj same).2.symm
  cases moving with
  | made kind' | removed kind' => exact Function.update_of_ne (elsewhere kind') ..
  | moved => rfl

/-- The clients agree with the registry of a name. -/
structure Registered (kind : Kind) (pid : Nat) (s : System) (r : Exclusive.Registry Nat) : Prop where
  proper : r.Proper
  taken : r.taken = s.files (pipeName kind pid)
  holder : ∀ (k : Nat) client, s.clients[k]? = some client →
    (client.pid = pid ∧ client.place.holds kind = true ↔ r.holder = some k)
  present : ∀ k, r.holder = some k → k < s.clients.length

/-- The registry follows the client that moves. -/
theorem Registered.set {r r' : Exclusive.Registry Nat} {files : List Byte → Bool}
    (registered : Registered kind pid s r) (found : s.clients[k]? = some client) (proper : r'.Proper)
    (taken : r'.taken = files (pipeName kind pid))
    (own : client.pid = pid ∧ place.holds kind = true ↔ r'.holder = some k)
    (others : ∀ i ≠ k, r'.holder = some i ↔ r.holder = some i) :
    Registered kind pid ⟨files, s.clients.set k { client with place := place }⟩ r' where
  proper := proper
  taken := taken
  holder := by
    intro i other there
    rcases cases_set there with ⟨rfl, rfl⟩ | ⟨apart, before⟩
    · exact own
    · rw [others i apart]
      exact registered.holder i other before
  present := by
    intro i holds
    rw [List.length_set]
    by_cases same : i = k
    · rw [same]
      exact (List.getElem?_eq_some_iff.mp found).1
    · exact registered.present i ((others i same).mp holds)

theorem registered_simulates (kind : Kind) (pid : Nat) :
    Simulation.Simulates step Exclusive.step (shows kind pid) (Registered kind pid) := by
  intro s event s' r registered stepped
  cases move_of_step stepped with
  | starts pid' alone =>
    refine ⟨r, rfl, registered.proper, registered.taken, fun i other there => ?_, fun i holds => ?_⟩
    · rcases cases_snoc there with before | ⟨rfl, rfl⟩
      · exact registered.holder i other before
      · have absent : r.holder ≠ some s.clients.length := fun holds =>
          absurd (registered.present _ holds) (Nat.lt_irrefl _)
        simp [Place.holds, absent]
    · rw [List.length_append]
      exact Nat.lt_add_right _ (registered.present i holds)
  | moves _ k client place files found moving living who =>
    have there : (s.clients.set k { client with place := place })[k]? = some { client with place := place } := by
      simp [(List.getElem?_eq_some_iff.mp found).1]
    have shown : shows kind pid s event =
        if client.pid ≠ pid then []
        else if client.place.holds kind then
          if place.holds kind then [] else if files (pipeName kind pid) then [.abandon k] else [.remove k]
        else if place.holds kind then [.create k] else [] := by
      rcases who with ⟨works, rfl⟩ | rfl | rfl <;> simp only [shows, found, stepped, there, Option.map_some, Option.getD_some]
    rw [shown]
    have held := registered.holder k client found
    by_cases mine : client.pid = pid
    case neg =>
      rw [if_pos mine]
      refine ⟨r, rfl, registered.set found registered.proper ?_ ?_ fun _ _ => Iff.rfl⟩
      · rw [registered.taken, moving.file_ne mine]
      · rw [← held]
        simp [mine]
    case pos =>
    rw [if_neg (not_not.mpr mine)]
    obtain ⟨made, stays⟩ := moving.file kind
    rw [Client.pipe, mine] at made stays
    cases before : client.place.holds kind <;> cases after : place.holds kind
    · rw [if_neg nofun, if_neg nofun]
      refine ⟨r, rfl, registered.set found registered.proper ?_ ?_ fun _ _ => Iff.rfl⟩
      · rw [registered.taken, stays (before.trans after.symm)]
      · rw [← held, before, after]
    · obtain ⟨absent, present⟩ := made before after
      have untaken : r.taken = false := registered.taken.trans absent
      have nobody : r.holder = none := by
        by_contra held
        rw [registered.proper held] at untaken
        cases untaken
      rw [if_neg nofun, if_pos rfl]
      refine ⟨⟨true, some k⟩, by simp [run, Exclusive.step, untaken], ?_⟩
      refine registered.set found (fun _ => rfl) present.symm (by simp [mine, after]) fun i apart => ?_
      simp [nobody, Ne.symm apart]
    · have holder := held.mp ⟨mine, before⟩
      rw [if_pos rfl, if_neg nofun]
      split
      case isTrue present =>
        refine ⟨⟨r.taken, none⟩, by simp [run, Exclusive.step, holder], ?_⟩
        refine registered.set found (fun held => absurd rfl held) ?_ (by simp [after]) fun i apart => ?_
        · rw [registered.proper (by rw [holder]; exact Option.some_ne_none k)]
          exact present.symm
        · simp [holder, Ne.symm apart]
      case isFalse absent =>
        refine ⟨⟨false, none⟩, by simp [run, Exclusive.step, holder], ?_⟩
        refine registered.set found (fun held => absurd rfl held) ?_ (by simp [after]) fun i apart => ?_
        · exact (Bool.eq_false_of_not_eq_true absent).symm
        · simp [holder, Ne.symm apart]
    · rw [if_pos rfl, if_pos rfl]
      refine ⟨r, rfl, registered.set found registered.proper ?_ ?_ fun _ _ => Iff.rfl⟩
      · rw [registered.taken, stays (before.trans after.symm)]
      · rw [← held, before, after]

theorem registered_empty : Registered kind pid empty Exclusive.free where
  proper := Exclusive.proper_free
  taken := rfl
  holder := nofun
  present := nofun

/-! ## A number that comes again -/

/-- The event leaves no pipe of this kind and number behind. -/
def Keeps (kind : Kind) (pid : Nat) (s : System) (event : Event) : Prop :=
  ∀ action ∈ shows kind pid s event, action.abandons = false

instance (kind : Kind) (pid : Nat) (s : System) (event : Event) : Decidable (Keeps kind pid s event) := by
  unfold Keeps
  infer_instance

/-- A client with this number can come to its exchange with the server. -/
def CanWork (pid : Nat) (s : System) : Prop :=
  ∃ (later : List Event) (s' : System) (k : Nat),
    run step s later = some s' ∧ s'.clients[k]? = some ⟨pid, .working⟩

theorem CanWork.of_step (stepped : step s event = some s') (later : CanWork pid s') : CanWork pid s := by
  obtain ⟨events, final, k, ran, there⟩ := later
  exact ⟨event :: events, final, k, run_cons_eq_some.mpr ⟨s', stepped, ran⟩, there⟩

/-- At most one living client has the number. -/
def Alone (pid : Nat) (s : System) (k : Nat) : Prop :=
  ∀ (i : Nat) client, s.clients[i]? = some client → client.pid = pid → client.place = .gone ∨ i = k

/-- No other client has the number, and the pipes that exist are those it holds. -/
structure Ready (s : System) (k pid : Nat) (place : Place) : Prop where
  found : s.clients[k]? = some ⟨pid, place⟩
  alone : Alone pid s k
  pipes : ∀ kind, s.files (pipeName kind pid) = place.holds kind

theorem Alone.set {files : List Byte → Bool} (alone : Alone pid s k) (client : Client) :
    Alone pid ⟨files, s.clients.set k client⟩ k := by
  intro i other there mine
  rcases cases_set there with ⟨rfl, -⟩ | ⟨-, before⟩
  · exact .inr rfl
  · exact alone i other before mine

theorem Ready.onward {place' : Place} {files : List Byte → Bool} (ready : Ready s k pid place)
    (stepped : step s event = some ⟨files, s.clients.set k ⟨pid, place'⟩⟩)
    (pipes : ∀ kind, files (pipeName kind pid) = place'.holds kind)
    (later : ∀ t, Ready t k pid place' → CanWork pid t) : CanWork pid s := by
  refine .of_step stepped (later _ ⟨?_, ready.alone.set _, pipes⟩)
  exact List.getElem?_set_self (List.getElem?_eq_some_iff.mp ready.found).1

theorem Ready.calls (ready : Ready s k pid place) (works : Bool) (called : call s k ⟨pid, place⟩ works = some s') :
    step s (.calls k works) = some s' := by
  rw [step, ready.found, Option.bind_some, called]

/-- One pipe comes or goes with the place that holds it. -/
theorem pipes_update (pipes : ∀ kind, s.files (pipeName kind pid) = place.holds kind) {present : Bool} {place' : Place}
    (own : place'.holds kind = present) (other : ∀ kind' ≠ kind, place'.holds kind' = place.holds kind') (kind' : Kind) :
    Function.update s.files (pipeName kind pid) present (pipeName kind' pid) = place'.holds kind' := by
  by_cases same : kind' = kind
  · rw [same, own, Function.update_self]
  · rw [Function.update_of_ne fun names => same (pipeName_inj names).1, pipes, other kind' same]

/-- A client that is alone only has to go on. -/
theorem canWork_of_keepResponse (ready : Ready s k pid .keepResponse) : CanWork pid s :=
  ready.onward (ready.calls true rfl) ready.pipes fun t ready => ⟨[], t, k, rfl, ready.found⟩

theorem canWork_of_makeResponse (ready : Ready s k pid .makeResponse) : CanWork pid s := by
  have called : call s k ⟨pid, .makeResponse⟩ true =
      some ((s.setClient k ⟨pid, .makeResponse⟩ .keepResponse).setFile (pipeName .response pid) true) :=
    if_neg (by rw [Client.pipe, ready.pipes]; decide)
  refine ready.onward (ready.calls true called) (pipes_update ready.pipes rfl ?_) fun t => canWork_of_keepResponse
  rintro (_ | _) apart
  · rfl
  · exact absurd rfl apart

theorem canWork_of_makeRequest (ready : Ready s k pid .makeRequest) : CanWork pid s := by
  have called : call s k ⟨pid, .makeRequest⟩ true =
      some ((s.setClient k ⟨pid, .makeRequest⟩ .keepRequest).setFile (pipeName .request pid) true) :=
    if_neg (by rw [Client.pipe, ready.pipes]; decide)
  refine ready.onward (ready.calls true called) (pipes_update ready.pipes rfl ?_) fun t ready =>
    ready.onward (ready.calls true rfl) ready.pipes fun t => canWork_of_makeResponse
  rintro (_ | _) apart
  · exact absurd rfl apart
  · rfl

theorem canWork_of_config (ready : Ready s k pid .config) : CanWork pid s :=
  ready.onward (ready.calls true rfl) ready.pipes fun _ ready =>
    ready.onward (ready.calls true rfl) ready.pipes fun _ => canWork_of_makeRequest

/-- Where nobody has the number and neither pipe exists, a client can start. -/
theorem canWork_of_gone (gone : ∀ client ∈ s.clients, client.pid = pid → client.place = .gone)
    (absent : ∀ kind, s.files (pipeName kind pid) = false) : CanWork pid s := by
  have started : step s (.starts pid) = some { s with clients := s.clients ++ [⟨pid, .config⟩] } := if_pos gone
  refine .of_step started (canWork_of_config (k := s.clients.length) ⟨?_, ?_, absent⟩)
  · exact List.getElem?_concat_length
  · intro i other there mine
    rcases cases_snoc there with before | ⟨rfl, -⟩
    · exact .inl (gone other (List.mem_of_getElem? before) mine)
    · exact .inr rfl

theorem Ready.leaves (ready : Ready s k pid .gone) : CanWork pid s := by
  refine canWork_of_gone (fun client member mine => ?_) ready.pipes
  obtain ⟨i, there⟩ := List.getElem?_of_mem member
  rcases ready.alone i client there mine with gone | rfl
  · exact gone
  · rw [ready.found] at there
    cases there
    rfl

variable {l : Leaving}

/-- A client that leaves removes the pipes it holds and makes room for another one. -/
theorem canWork_of_closeResponse (ready : Ready s k pid (.closeResponse l))
    (forgot : Place.holds .request (.closeResponse l) = false) : CanWork pid s := by
  cases knows : l.response with
  | true =>
    have called : call s k ⟨pid, .closeResponse l⟩ true =
        some ((s.setClient k ⟨pid, .closeResponse l⟩ .gone).setFile (pipeName .response pid) false) :=
      if_pos ⟨knows, by rw [Client.pipe, ready.pipes]; exact knows⟩
    refine ready.onward (ready.calls true called) (pipes_update ready.pipes rfl ?_) fun t => Ready.leaves
    rintro (_ | _) apart
    · exact forgot.symm
    · exact absurd rfl apart
  | false =>
    refine ready.onward (ready.calls false rfl) (fun kind => ?_) fun t => Ready.leaves
    rw [ready.pipes]
    cases kind
    · exact forgot
    · exact knows

theorem canWork_of_closeRequest (ready : Ready s k pid (.closeRequest l)) : CanWork pid s := by
  cases knows : l.request with
  | true =>
    have called : call s k ⟨pid, .closeRequest l⟩ true =
        some ((s.setClient k ⟨pid, .closeRequest l⟩ (.closeResponse { l with request := false })).setFile
          (pipeName .request pid) false) :=
      if_pos ⟨knows, by rw [Client.pipe, ready.pipes]; exact knows⟩
    refine ready.onward (ready.calls true called) (pipes_update ready.pipes (by simp [Place.holds]) ?_) fun t ready =>
      canWork_of_closeResponse ready (by simp [Place.holds])
    rintro (_ | _) apart
    · exact absurd rfl apart
    · rfl
  | false =>
    refine ready.onward (ready.calls false rfl) (fun kind => ?_) fun t ready =>
      canWork_of_closeResponse ready (by simp [Place.holds, knows])
    rw [ready.pipes]
    cases kind <;> simp [Place.holds, knows]

theorem canWork_of_disconnect (ready : Ready s k pid (.disconnect l)) : CanWork pid s := by
  cases mapped : l.mapped with
  | true =>
    have called : call s k ⟨pid, .disconnect l⟩ true =
        some (s.setClient k ⟨pid, .disconnect l⟩ (.closeRequest { l with mapped := false })) := by
      simp [call, Place.next, mapped]
    refine ready.onward (ready.calls true called) (fun kind => ?_) fun t => canWork_of_closeRequest
    rw [ready.pipes]
    cases kind <;> simp [Place.holds, mapped]
  | false =>
    have called : call s k ⟨pid, .disconnect l⟩ true = some (s.setClient k ⟨pid, .disconnect l⟩ .gone) := by
      simp [call, Place.next, mapped]
    refine ready.onward (ready.calls true called) (fun kind => ?_) fun t => Ready.leaves
    rw [ready.pipes]
    simp [Place.holds, mapped]

theorem canWork_of_ready (ready : Ready s k pid place) : CanWork pid s := by
  cases place with
  | config => exact canWork_of_config ready
  | connect =>
    exact ready.onward (ready.calls true rfl) ready.pipes fun _ => canWork_of_makeRequest
  | makeRequest => exact canWork_of_makeRequest ready
  | keepRequest =>
    exact ready.onward (ready.calls true rfl) ready.pipes fun _ => canWork_of_makeResponse
  | makeResponse => exact canWork_of_makeResponse ready
  | keepResponse => exact canWork_of_keepResponse ready
  | working => exact ⟨[], s, k, rfl, ready.found⟩
  | disconnect l => exact canWork_of_disconnect ready
  | closeRequest l => exact canWork_of_closeRequest ready
  | closeResponse l =>
    cases forgot : Place.holds .request (.closeResponse l) with
    | true =>
      -- the request pipe is not removed unless a signal comes now
      obtain ⟨⟨unsignalled, mapped⟩, knows⟩ : (l.signalled = false ∧ l.mapped = true) ∧ l.request = true := by
        simpa [Place.holds] using forgot
      have stepped : step s (.signal k) =
          some (s.setClient k ⟨pid, .closeResponse l⟩ (.disconnect { l with signalled := true })) := by
        simp [step, ready.found, Place.signalled, unsignalled]
      refine ready.onward stepped (fun kind => ?_) fun t => canWork_of_disconnect
      rw [ready.pipes]
      cases kind <;> simp [Place.holds, unsignalled, mapped]
    | false => exact canWork_of_closeResponse ready forgot
  | gone => exact ready.leaves

/-- Two living clients never have the same number. -/
def Apart (s : System) : Prop :=
  ∀ (i k : Nat) other client, s.clients[i]? = some other → s.clients[k]? = some client →
    other.pid = client.pid → other.place ≠ .gone → client.place ≠ .gone → i = k

theorem apart_step (apart : Apart s) (stepped : step s event = some s') : Apart s' := by
  intro i k other client first second same alive living
  cases move_of_step stepped with
  | starts pid alone =>
    rcases cases_snoc first with first | ⟨rfl, rfl⟩ <;> rcases cases_snoc second with second | ⟨rfl, rfl⟩
    · exact apart i k other client first second same alive living
    · exact absurd (alone other (List.mem_of_getElem? first) same) alive
    · exact absurd (alone client (List.mem_of_getElem? second) same.symm) living
    · rfl
  | moves _ m before place files found moving lived who =>
    rcases cases_set first with ⟨rfl, rfl⟩ | ⟨-, first'⟩ <;> rcases cases_set second with ⟨rfl, rfl⟩ | ⟨-, second'⟩
    · rfl
    · exact apart i k before client found second' same (lived alive) living
    · exact apart i k other before first' found same alive (lived living)
    · exact apart i k other client first' second' same alive living

theorem apart_of_run (ran : run step empty events = some s) : Apart s := by
  refine run_invariant (fun _ _ _ => apart_step) ?_ ran
  intro i k other client first
  cases first

/-- A pipe that was not left behind has a living client. -/
theorem Registered.holds_of_taken {r : Exclusive.Registry Nat} (registered : Registered kind pid s r)
    (kept : ¬ r.Abandoned) (present : s.files (pipeName kind pid) = true) :
    ∃ (j : Nat) (client : Client), s.clients[j]? = some client ∧ r.holder = some j ∧
      client.pid = pid ∧ client.place.holds kind = true := by
  rw [← registered.taken] at present
  obtain ⟨j, holder⟩ := Option.ne_none_iff_exists'.mp fun nobody => kept ⟨present, nobody⟩
  have found := List.getElem?_eq_getElem (registered.present j holder)
  exact ⟨j, _, found, holder, (registered.holder j _ found).mpr holder⟩

/-- The pipe of a client that is alone is there exactly while it holds it. -/
theorem Registered.pipe_eq {r : Exclusive.Registry Nat} (registered : Registered kind pid s r)
    (kept : ¬ r.Abandoned) (alone : Alone pid s k) (found : s.clients[k]? = some ⟨pid, place⟩) :
    s.files (pipeName kind pid) = place.holds kind := by
  have own := registered.holder k _ found
  rw [Bool.eq_iff_iff]
  constructor
  · intro present
    obtain ⟨j, client, there, holder, same, holds⟩ := registered.holds_of_taken kept present
    rcases alone j _ there same with gone | rfl
    · rw [gone] at holds
      cases holds
    · exact (own.mpr holder).2
  · intro holds
    rw [← registered.taken]
    exact registered.proper (by rw [own.mp ⟨rfl, holds⟩]; exact nofun)

/-- **A process number serves again unless a client left a pipe behind.** In every run of
any number of clients, whatever calls fail, whatever signals come and wherever a client is
killed: a client with this number can still come to its exchange with the server if and
only if every earlier one has removed each pipe it made, or still may. -/
theorem a_number_can_be_used_iff (ran : run step empty events = some s) :
    CanWork pid s ↔ ∀ kind, Along step (Keeps kind pid) empty events := by
  have kept (kind : Kind) : ∃ r, Registered kind pid s r ∧
      (Along step (Keeps kind pid) empty events ↔ ¬ r.Abandoned) := by
    obtain ⟨r, actions, registered⟩ := (registered_simulates kind pid).run registered_empty ran
    refine ⟨r, registered, ?_⟩
    rw [show Along step (Keeps kind pid) empty events ↔ _ from Simulation.along_iff_trace ran,
      (Exclusive.abandoned_iff actions).2]
    simp
  constructor
  · rintro ⟨later, s', k, ran', found⟩ kind
    obtain ⟨r, registered, iff⟩ := kept kind
    rw [iff]
    intro left
    obtain ⟨r', actions', registered'⟩ := (registered_simulates kind pid).run registered ran'
    obtain rfl := left.still actions'
    have held := (registered'.holder k _ found).mp ⟨rfl, by cases kind <;> rfl⟩
    rw [left.2] at held
    cases held
  · intro keeps
    by_cases gone : ∀ client ∈ s.clients, client.pid = pid → client.place = .gone
    case pos =>
      refine canWork_of_gone gone fun kind => ?_
      obtain ⟨r, registered, iff⟩ := kept kind
      by_contra present
      obtain ⟨j, client, found, -, mine, holds⟩ :=
        registered.holds_of_taken (iff.mp (keeps kind)) (Bool.eq_true_of_not_eq_false present)
      rw [gone client (List.mem_of_getElem? found) mine] at holds
      cases holds
    case neg =>
      simp only [not_forall] at gone
      obtain ⟨client, member, rfl, living⟩ := gone
      obtain ⟨k, found⟩ := List.getElem?_of_mem member
      have alone : Alone client.pid s k := fun i other there same =>
        or_iff_not_imp_left.mpr fun alive => apart_of_run ran i k other client there found same alive living
      refine canWork_of_ready (k := k) ⟨found, alone, fun kind => ?_⟩
      obtain ⟨r, registered, iff⟩ := kept kind
      exact registered.pipe_eq (iff.mp (keeps kind)) alone found

/-- A client is killed while it works, and the next one with its number cannot make its pipes. -/
def killed : List Event :=
  [.starts 7, .calls 0 true, .calls 0 true, .calls 0 true, .calls 0 true, .dies 0]

theorem a_number_can_be_used_iff_killed : ∃ s, run step empty killed = some s ∧ ¬ CanWork 7 s := by
  obtain ⟨s, ran⟩ := Option.isSome_iff_exists.mp
    (show (run step empty killed).isSome = true by decide)
  exact ⟨s, ran, fun can => absurd ((a_number_can_be_used_iff ran).mp can .request) (by decide)⟩

end LocalServer.ClientPipes
