import LocalServer.Lib.Exclusive
import LocalServer.Lib.Simulation

/-! The life of the shared memory: servers that create it, give it back or leave it
behind, and clients that connect to it at any moment, its creation included. The `sem_wait`
of `free_server_queue` is taken to return: a client that is killed while it has the mutex
would keep it waiting for ever. -/
namespace LocalServer.ShmLifecycle
open Runs

def SIZEOF_SERVER_QUEUE : Nat := 136
def SIZEOF_SHM_REQUEST : Nat := 520
def PAGE_SIZE : Nat := 4096

/-- `(size_t) n`. -/
def sizeT (n : Int) : Nat := (n % 2 ^ 64).toNat

/-- `(off_t) n`. -/
def offT (n : Nat) : Int := if n < 2 ^ 63 then n else n - 2 ^ 64

/-- `sizeof(server_queue) + sizeof(shm_request) * max_slot`, a `size_t`. -/
def queueSize (maxSlot : Nat) : Nat := (SIZEOF_SERVER_QUEUE + SIZEOF_SHM_REQUEST * maxSlot) % 2 ^ 64

/-- What a mapping of so many bytes gives access to. -/
def pages (length : Nat) : Nat := (length + PAGE_SIZE - 1) / PAGE_SIZE * PAGE_SIZE

/-- A shared memory object. All its bytes are 0 at first, so is `nb_slots`. -/
structure Object where
  size : Nat
  nbSlots : Nat
  deriving DecidableEq

inductive ServerPc where
  /-- The calls of `init_server_queue`. -/
  | shmOpen | truncate | map | initMutex | initEmpty | initFull | storeSlots
  /-- The main loop. -/
  | running
  /-- The calls of `free_server_queue`. -/
  | waitMutex | close | unmap | unlink
  /-- Behind the label `err`. -/
  | errClose | errUnlink
  | ended
  deriving DecidableEq

/-- A server process with the configured number of slots. -/
structure Server where
  pc : ServerPc
  nbSlots : Int
  object : Option Nat
  deriving DecidableEq

inductive ClientPc where
  /-- The calls of `connect`. -/
  | shmOpen | mapHeader | readSlots | unmapHeader | mapAll | close
  | connected
  /-- It read behind the end of the object, which is empty. -/
  | crashed
  | ended
  deriving DecidableEq

/-- A client process, with the `nb_slots` it has read and the bytes it has mapped. -/
structure Client where
  pc : ClientPc
  object : Option Nat
  nbSlots : Nat
  mapped : Nat
  deriving DecidableEq

/-- What `SHM_NAME` leads to, all objects ever made, and the processes. -/
structure System where
  name : Option Nat
  objects : List Object
  servers : List Server
  clients : List Client
  deriving DecidableEq

inductive Event where
  /-- A server is started with so many slots. -/
  | starts (nbSlots : Int)
  /-- The next call of a server works or fails. -/
  | serves (j : Nat) (works : Bool)
  /-- `sig_free` comes to `free_server_queue`. -/
  | stops (j : Nat)
  /-- The process of a server ends at the place where it is. -/
  | leaves (j : Nat)
  | arrives
  /-- The next call of a client works or fails. -/
  | calls (k : Nat) (works : Bool)
  /-- The process of a client ends at the place where it is. -/
  | goes (k : Nat)
  deriving DecidableEq

def System.setServer (s : System) (j : Nat) (server : Server) : System :=
  { s with servers := s.servers.set j server }

def System.setClient (s : System) (k : Nat) (client : Client) : System :=
  { s with clients := s.clients.set k client }

def System.setObject (s : System) (object : Option Nat) (change : Object → Object) : System :=
  { s with objects := match object with
      | some i => s.objects.modify i change
      | none => s.objects }

/-- `shm_unlink(SHM_NAME)`. -/
def System.unlinked (s : System) : System := { s with name := none }

/-- A call of `init_server_queue` or `free_server_queue`. -/
def serve (s : System) (j : Nat) (server : Server) (works : Bool) : Option System :=
  let goTo pc := s.setServer j { server with pc := pc }
  match server.pc, works with
  | .shmOpen, true =>
    if s.name = none then
      some { s.setServer j { server with pc := .truncate, object := some s.objects.length } with
             name := some s.objects.length, objects := s.objects ++ [⟨0, 0⟩] }
    else none
  | .shmOpen, false => some (goTo .ended)
  | .truncate, true =>
    let size := queueSize (sizeT server.nbSlots)
    if 0 ≤ offT size then some ((goTo .map).setObject server.object fun o => { o with size := size }) else none
  | .truncate, false | .map, false => some (goTo .errClose)
  | .map, true => some (goTo .initMutex)
  | .initMutex, true => some (goTo .initEmpty)
  | .initEmpty, true => some (goTo .initFull)
  | .initFull, true => some (goTo .storeSlots)
  -- a failed `sem_init` returns without going to `err`
  | .initMutex, false | .initEmpty, false | .initFull, false => some (goTo .ended)
  | .storeSlots, true =>
    some ((goTo .running).setObject server.object fun o => { o with nbSlots := sizeT server.nbSlots })
  | .waitMutex, true => some (goTo .close)
  | .close, true => some (goTo .unmap)
  | .unmap, true => some (goTo .unlink)
  | .unlink, true | .errUnlink, true => if s.name = none then none else some (goTo .ended).unlinked
  | .waitMutex, false | .close, false | .unmap, false | .unlink, false | .errUnlink, false => some (goTo .ended)
  | .errClose, _ => some (goTo .errUnlink)
  | .storeSlots, false | .running, _ | .ended, _ => none

/-- A call of `connect`, or the `munmap` of `disconnect`. -/
def call (s : System) (k : Nat) (client : Client) (works : Bool) : Option System :=
  let goTo pc := s.setClient k { client with pc := pc }
  match client.pc, works with
  | .shmOpen, true =>
    match s.name with
    | some i => some (s.setClient k { client with pc := .mapHeader, object := some i })
    | none => none
  | .mapHeader, true => some (goTo .readSlots)
  | .readSlots, true =>
    match client.object.bind (s.objects[·]?) with
    | some object =>
      if object.size = 0 then some (goTo .crashed)
      else some (s.setClient k { client with pc := .unmapHeader, nbSlots := object.nbSlots })
    | none => none
  | .unmapHeader, true => some (goTo .mapAll)
  | .mapAll, true =>
    some (s.setClient k { client with pc := .close, mapped := pages (queueSize client.nbSlots) })
  | .close, true => some (goTo .connected)
  | .shmOpen, false | .mapHeader, false | .unmapHeader, false | .mapAll, false | .close, false => some (goTo .ended)
  | .connected, _ => some (goTo .ended)
  | .readSlots, false | .crashed, _ | .ended, _ => none

/-- An `int`. -/
def isInt (n : Int) : Prop := -2 ^ 31 ≤ n ∧ n < 2 ^ 31

instance (n : Int) : Decidable (isInt n) := inferInstanceAs (Decidable (_ ∧ _))

def step (s : System) : Event → Option System
  | .starts nbSlots =>
    if isInt nbSlots then some { s with servers := s.servers ++ [⟨.shmOpen, nbSlots, none⟩] } else none
  | .serves j works => s.servers[j]?.bind fun server => serve s j server works
  | .stops j => s.servers[j]?.bind fun server =>
    if server.pc = .running then some (s.setServer j { server with pc := .waitMutex }) else none
  | .leaves j => s.servers[j]?.map fun server => s.setServer j { server with pc := .ended }
  | .arrives => some { s with clients := s.clients ++ [⟨.shmOpen, none, 0, 0⟩] }
  | .calls k works => s.clients[k]?.bind fun client => call s k client works
  | .goes k => s.clients[k]?.map fun client => s.setClient k { client with pc := .ended }

/-- No server has run yet. -/
def empty : System := ⟨none, [], [], []⟩

/-! ## Who holds the name -/

/-- The server has created an object and not given up the name. -/
def Server.holds (server : Server) : Bool :=
  match server.pc with
  | .shmOpen | .ended => false
  | _ => true

/-- What an event does to the name. -/
def shows (s : System) (event : Event) : List (Exclusive.Action Nat) :=
  match event with
  | .serves j works =>
    match (s.servers[j]?.map Server.pc), works with
    | some .shmOpen, true => [.create j]
    | some .unlink, true | some .errUnlink, true => [.remove j]
    | some .initMutex, false | some .initEmpty, false | some .initFull, false | some .waitMutex, false
    | some .close, false | some .unmap, false | some .unlink, false | some .errUnlink, false => [.abandon j]
    | _, _ => []
  | .leaves j => if (s.servers[j]?.map Server.holds) = some true then [.abandon j] else []
  | _ => []

/-! ## What a call of a server can do -/

/-- How far the server is with its object. -/
inductive Stage where
  /-- There is nothing in it. -/
  | fresh
  /-- It has its size, and `nb_slots` is still 0. -/
  | sized
  | done
  deriving DecidableEq

def ServerPc.stage : ServerPc → Stage
  | .truncate => .fresh
  | .map | .initMutex | .initEmpty | .initFull | .storeSlots => .sized
  | _ => .done

/-- A call of the server `j` that turns its state into `server'`, and what becomes of the
name, the objects and the holder. -/
inductive Serving (s : System) (j : Nat) (server : Server) :
    Server → Option Nat → List Object → List (Exclusive.Action Nat) → Prop
  | created (here : server.pc = .shmOpen) (free : s.name = none) :
    Serving s j server ⟨.truncate, server.nbSlots, some s.objects.length⟩ (some s.objects.length)
      (s.objects ++ [⟨0, 0⟩]) [.create j]
  | refused (idle : server.holds = false) : Serving s j server { server with pc := .ended } s.name s.objects []
  | sized (here : server.pc = .truncate) (fits : 0 ≤ offT (queueSize (sizeT server.nbSlots))) :
    Serving s j server { server with pc := .map } s.name
      (s.setObject server.object fun o => { o with size := queueSize (sizeT server.nbSlots) }).objects []
  | stored (here : server.pc = .storeSlots) :
    Serving s j server { server with pc := .running } s.name
      (s.setObject server.object fun o => { o with nbSlots := sizeT server.nbSlots }).objects []
  | moved (pc : ServerPc) (holds : server.holds = true) (goesOn : Server.holds { server with pc := pc } = true)
    (stage : pc.stage = server.pc.stage ∨ pc.stage = .done) :
    Serving s j server { server with pc := pc } s.name s.objects []
  | removed (holds : server.holds = true) (named : s.name ≠ none) :
    Serving s j server { server with pc := .ended } none s.objects [.remove j]
  | abandoned (holds : server.holds = true) :
    Serving s j server { server with pc := .ended } s.name s.objects [.abandon j]

/-- What a client has done so far. -/
inductive ClientStage where
  | start | opened | read | mapped | over
  deriving DecidableEq

def ClientPc.stage : ClientPc → ClientStage
  | .shmOpen => .start
  | .mapHeader | .readSlots => .opened
  | .unmapHeader | .mapAll => .read
  | .close | .connected => .mapped
  | .crashed | .ended => .over

/-- A call of a client that turns its state into `client'`. -/
inductive Calling (s : System) (client : Client) : Client → Prop
  | opened (i : Nat) (here : client.pc = .shmOpen) (named : s.name = some i) :
    Calling s client { client with pc := .mapHeader, object := some i }
  | read (i : Nat) (object : Object) (here : client.pc = .readSlots) (maps : client.object = some i)
    (found : s.objects[i]? = some object) (filled : object.size ≠ 0) :
    Calling s client { client with pc := .unmapHeader, nbSlots := object.nbSlots }
  | mapped (here : client.pc = .mapAll) :
    Calling s client { client with pc := .close, mapped := pages (queueSize client.nbSlots) }
  | moved (pc : ClientPc) (stage : pc.stage = client.pc.stage ∧ client.pc ≠ .readSlots ∨ pc.stage = .over) :
    Calling s client { client with pc := pc }

/-- An event starts a process or lets one move. -/
inductive Move (s : System) : List (Exclusive.Action Nat) → System → Prop
  | starts (nbSlots : Int) (int : isInt nbSlots) :
    Move s [] { s with servers := s.servers ++ [⟨.shmOpen, nbSlots, none⟩] }
  | serves (j : Nat) (server server' : Server) (name : Option Nat) (objects : List Object)
    (actions : List (Exclusive.Action Nat)) (found : s.servers[j]? = some server)
    (serving : Serving s j server server' name objects actions) :
    Move s actions ⟨name, objects, s.servers.set j server', s.clients⟩
  | arrives : Move s [] { s with clients := s.clients ++ [⟨.shmOpen, none, 0, 0⟩] }
  | calls (k : Nat) (client client' : Client) (found : s.clients[k]? = some client)
    (calling : Calling s client client') : Move s [] (s.setClient k client')

variable {s s' : System} {event : Event} {events : List Event} {j k : Nat} {server server' : Server}
  {client client' : Client}

theorem serving_of_serve {works : Bool} (found : s.servers[j]? = some server)
    (served : serve s j server works = some s') : ∃ server' name objects,
      Serving s j server server' name objects (shows s (.serves j works)) ∧
        s' = ⟨name, objects, s.servers.set j server', s.clients⟩ := by
  cases here : server.pc <;> cases works <;> simp only [serve, here] at served <;>
    simp only [shows, found, Option.map_some, here]
  case shmOpen.true =>
    split at served <;> cases served
    case isTrue free => exact ⟨_, _, _, .created here free, rfl⟩
  case shmOpen.false =>
    cases served
    exact ⟨_, _, _, .refused (by simp [Server.holds, here]), rfl⟩
  case truncate.true =>
    split at served <;> cases served
    case isTrue fits => exact ⟨_, _, _, .sized here fits, rfl⟩
  case unlink.true | errUnlink.true =>
    split at served
    case isTrue => cases served
    case isFalse named =>
    cases served
    exact ⟨_, _, _, .removed (by simp [Server.holds, here]) named, rfl⟩
  case initMutex.false | initEmpty.false | initFull.false | waitMutex.false | close.false | unmap.false |
      unlink.false | errUnlink.false =>
    cases served
    exact ⟨_, _, _, .abandoned (by simp [Server.holds, here]), rfl⟩
  case storeSlots.true =>
    cases served
    exact ⟨_, _, _, .stored here, rfl⟩
  case storeSlots.false | running.true | running.false | ended.true | ended.false => cases served
  -- the other calls lead to the next one, or to the label `err`
  all_goals
    cases served
    exact ⟨_, _, _, .moved _ (by simp [Server.holds, here]) rfl (by simp [here, ServerPc.stage]), rfl⟩

theorem calling_of_call {works : Bool} (called : call s k client works = some s') :
    ∃ client', Calling s client client' ∧ s' = s.setClient k client' := by
  cases here : client.pc <;> cases works <;> simp only [call, here] at called
  case shmOpen.true =>
    split at called
    case h_2 => cases called
    case h_1 i named =>
    cases called
    exact ⟨_, .opened i here named, rfl⟩
  case readSlots.true =>
    split at called
    case h_2 => cases called
    case h_1 object found =>
    obtain ⟨i, maps, found⟩ := Option.bind_eq_some_iff.mp found
    split at called
    case isTrue =>
      cases called
      exact ⟨_, .moved .crashed (.inr rfl), rfl⟩
    case isFalse filled =>
      cases called
      exact ⟨_, .read i object here maps found filled, rfl⟩
  case mapAll.true =>
    cases called
    exact ⟨_, .mapped here, rfl⟩
  case readSlots.false | crashed.true | crashed.false | ended.true | ended.false => cases called
  all_goals
    cases called
    exact ⟨_, .moved _ (by simp [here, ClientPc.stage]), rfl⟩

theorem move_of_step (stepped : step s event = some s') : Move s (shows s event) s' := by
  cases event with
  | starts nbSlots =>
    simp only [step] at stepped
    split at stepped
    case isFalse => cases stepped
    case isTrue int =>
    cases stepped
    exact .starts nbSlots int
  | serves j works =>
    obtain ⟨server, found, served⟩ := Option.bind_eq_some_iff.mp stepped
    obtain ⟨server', name, objects, serving, rfl⟩ := serving_of_serve found served
    exact .serves j server server' name objects _ found serving
  | stops j =>
    obtain ⟨server, found, served⟩ := Option.bind_eq_some_iff.mp stepped
    split at served
    case isFalse => cases served
    case isTrue here =>
    cases served
    exact .serves j server _ _ _ _ found
      (.moved .waitMutex (by simp [Server.holds, here]) rfl (.inr rfl))
  | leaves j =>
    obtain ⟨server, found, rfl⟩ := Option.map_eq_some_iff.mp stepped
    cases holds : server.holds with
    | false =>
      have shown : shows s (.leaves j) = [] := by simp [shows, found, holds]
      rw [shown]
      exact .serves j server _ _ _ _ found (.refused holds)
    | true =>
      have shown : shows s (.leaves j) = [.abandon j] := by simp [shows, found, holds]
      rw [shown]
      exact .serves j server _ _ _ _ found (.abandoned holds)
  | arrives =>
    cases stepped
    exact .arrives
  | calls k works =>
    obtain ⟨client, found, called⟩ := Option.bind_eq_some_iff.mp stepped
    obtain ⟨client', calling, rfl⟩ := calling_of_call called
    exact .calls k client client' found calling
  | goes k =>
    obtain ⟨client, found, rfl⟩ := Option.map_eq_some_iff.mp stepped
    exact .calls k client _ found (.moved .ended (.inr rfl))

/-! ## One holder -/

/-- The processes agree with the registry of the name. -/
structure Registered (s : System) (r : Exclusive.Registry Nat) : Prop where
  proper : r.Proper
  taken : r.taken = s.name.isSome
  holder : ∀ (j : Nat) server, s.servers[j]? = some server → (server.holds = true ↔ r.holder = some j)
  present : ∀ j, r.holder = some j → j < s.servers.length
  object : ∀ (j : Nat) server, s.servers[j]? = some server → server.holds = true → server.object = s.name

/-- Only the holder's own entry changes with what it does to the name. -/
theorem Registered.set {r r' : Exclusive.Registry Nat} {name : Option Nat} {objects : List Object}
    (registered : Registered s r) (found : s.servers[j]? = some server) (proper : r'.Proper) (taken : r'.taken = name.isSome)
    (own : server'.holds = true ↔ r'.holder = some j) (same : server'.holds = true → server'.object = name)
    (others : ∀ i ≠ j, r'.holder = some i ↔ r.holder = some i) (kept : name = s.name ∨ ∀ i ≠ j, r.holder ≠ some i) :
    Registered ⟨name, objects, s.servers.set j server', s.clients⟩ r' where
  proper := proper
  taken := taken
  holder := by
    intro i other found'
    rcases cases_set found' with ⟨rfl, rfl⟩ | ⟨apart, found'⟩
    · exact own
    · rw [others i apart]
      exact registered.holder i other found'
  present := by
    intro i holds
    rw [List.length_set]
    by_cases same : i = j
    · rw [same]
      exact (List.getElem?_eq_some_iff.mp found).1
    · exact registered.present i ((others i same).mp holds)
  object := by
    intro i other there holds
    rcases cases_set there with ⟨rfl, rfl⟩ | ⟨apart, before⟩
    · exact same holds
    · rcases kept with kept | alone
      · exact (registered.object i other before holds).trans kept.symm
      · exact absurd ((registered.holder i other before).mp holds) (alone i apart)

theorem registered_simulates : Simulation.Simulates step Exclusive.step shows Registered := by
  intro s event s' r registered stepped
  have move := move_of_step stepped
  generalize shows s event = actions at move
  cases move with
  | starts nbSlots int =>
    refine ⟨r, rfl, registered.proper, registered.taken, fun i other found => ?_, fun i holds => ?_, fun i other found holds => ?_⟩
    · rcases cases_snoc found with found | ⟨rfl, rfl⟩
      · exact registered.holder i other found
      · have absent : r.holder ≠ some s.servers.length := fun holds =>
          absurd (registered.present _ holds) (Nat.lt_irrefl _)
        simp [Server.holds, absent]
    · rw [List.length_append]
      exact Nat.lt_add_right _ (registered.present i holds)
    · rcases cases_snoc found with found | ⟨rfl, rfl⟩
      · exact registered.object i other found holds
      · cases holds
  | arrives => exact ⟨r, rfl, registered.proper, registered.taken, registered.holder, registered.present, registered.object⟩
  | calls k client client' found calling =>
    exact ⟨r, rfl, registered.proper, registered.taken, registered.holder, registered.present, registered.object⟩
  | serves j server server' name objects actions found serving =>
    have held := registered.holder j server found
    cases serving with
    | created here free =>
      have untaken : r.taken = false := by rw [registered.taken, free]; rfl
      have idle : server.holds = false := by simp [Server.holds, here]
      have nobody : ∀ i, r.holder ≠ some i := by
        intro i holds
        have taken := registered.proper (by rw [holds]; exact nofun)
        rw [untaken] at taken
        cases taken
      refine ⟨⟨true, some j⟩, by simp [run, Exclusive.step, untaken], ?_⟩
      refine registered.set found (fun _ => rfl) rfl (by simp [Server.holds]) (fun _ => rfl) (fun i apart => ?_) (.inr fun i _ => nobody i)
      simp [nobody i, Ne.symm apart]
    | refused idle =>
      refine ⟨r, rfl, registered.set found registered.proper registered.taken ?_ (by rintro ⟨⟩) (fun _ _ => Iff.rfl) (.inl rfl)⟩
      rw [← held, idle]
      simp [Server.holds]
    | sized here fits =>
      refine ⟨r, rfl, registered.set found registered.proper registered.taken ?_ ?_ (fun _ _ => Iff.rfl) (.inl rfl)⟩
      · rw [← held]
        simp [Server.holds, here]
      · intro _
        exact registered.object j server found (by simp [Server.holds, here])
    | stored here =>
      refine ⟨r, rfl, registered.set found registered.proper registered.taken ?_ ?_ (fun _ _ => Iff.rfl) (.inl rfl)⟩
      · rw [← held]
        simp [Server.holds, here]
      · intro _
        exact registered.object j server found (by simp [Server.holds, here])
    | moved pc holds goesOn stage =>
      refine ⟨r, rfl, registered.set found registered.proper registered.taken ?_ ?_ (fun _ _ => Iff.rfl) (.inl rfl)⟩
      · rw [← held, goesOn, holds]
      · intro _
        exact registered.object j server found holds
    | removed holds named =>
      have holder := held.mp holds
      refine ⟨⟨false, none⟩, by simp [run, Exclusive.step, holder], ?_⟩
      refine registered.set found (fun held => absurd rfl held) rfl (by simp [Server.holds]) (by rintro ⟨⟩) (fun i apart => ?_) (.inr fun i apart => ?_)
      · simp [holder, Ne.symm apart]
      · simp [holder, Ne.symm apart]
    | abandoned holds =>
      have holder := held.mp holds
      refine ⟨⟨r.taken, none⟩, by simp [run, Exclusive.step, holder], ?_⟩
      refine registered.set found (fun held => absurd rfl held) registered.taken (by simp [Server.holds]) (by rintro ⟨⟩) (fun i apart => ?_) (.inl rfl)
      simp [holder, Ne.symm apart]

theorem registered_empty : Registered empty Exclusive.free where
  proper := Exclusive.proper_free
  taken := rfl
  holder := nofun
  present := nofun
  object := nofun

/-! ## Starting again -/

/-- The server frees the name before it goes. -/
def Keeps (s : System) (event : Event) : Prop :=
  ∀ action ∈ shows s event, action.abandons = false

instance (s : System) (event : Event) : Decidable (Keeps s event) := by
  unfold Keeps
  infer_instance

/-- Some server can come to its main loop. -/
def CanRun (s : System) : Prop :=
  ∃ (later : List Event) (s' : System) (j : Nat) (server : Server),
    run step s later = some s' ∧ s'.servers[j]? = some server ∧ server.pc = .running

theorem CanRun.of_step (stepped : step s event = some s') (later : CanRun s') : CanRun s := by
  obtain ⟨events, final, j, server, ran, there⟩ := later
  exact ⟨event :: events, final, j, server, run_cons_eq_some.mpr ⟨s', stepped, ran⟩, there⟩

theorem CanRun.of_serve (found : s.servers[j]? = some server) (works : Bool)
    (served : serve s j server works = some s') (later : CanRun s') : CanRun s := by
  have stepped : step s (.serves j works) = some s' := by simp [step, found, served]
  exact .of_step stepped later

theorem set_found (found : s.servers[j]? = some server) (server' : Server) :
    (s.setServer j server').servers[j]? = some server' := by
  simp [System.setServer, (List.getElem?_eq_some_iff.mp found).1]

/-- A call that only leads to the next one. -/
theorem CanRun.of_next {pc : ServerPc} (found : s.servers[j]? = some server) (works : Bool)
    (served : serve s j server works = some (s.setServer j { server with pc := pc }))
    (onward : ∀ t server', t.name = s.name → t.servers[j]? = some server' → server'.pc = pc → CanRun t) :
    CanRun s :=
  .of_serve found works served (onward _ _ rfl (set_found found _) rfl)

/-- A server that has its memory only has to go on. -/
theorem canRun_of_sized (found : s.servers[j]? = some server) (sized : server.pc.stage = .sized) :
    CanRun s := by
  have storeSlots : ∀ (t : System) (server : Server), t.servers[j]? = some server → server.pc = .storeSlots →
      CanRun t := by
    intro t server found here
    have served : serve t j server true = some ((t.setServer j { server with pc := .running }).setObject
        server.object fun o => { o with nbSlots := sizeT server.nbSlots }) := by simp only [serve, here]
    exact .of_serve found true served ⟨[], _, j, _, rfl, set_found found _, rfl⟩
  have initFull : ∀ (t : System) (server : Server), t.servers[j]? = some server → server.pc = .initFull →
      CanRun t := by
    intro t server found here
    exact .of_next found true (by simp only [serve, here]) fun t server _ => storeSlots t server
  have initEmpty : ∀ (t : System) (server : Server), t.servers[j]? = some server → server.pc = .initEmpty →
      CanRun t := by
    intro t server found here
    exact .of_next found true (by simp only [serve, here]) fun t server _ => initFull t server
  have initMutex : ∀ (t : System) (server : Server), t.servers[j]? = some server → server.pc = .initMutex →
      CanRun t := by
    intro t server found here
    exact .of_next found true (by simp only [serve, here]) fun t server _ => initEmpty t server
  cases here : server.pc <;> simp [here, ServerPc.stage] at sized
  case map =>
    exact .of_next found true (by simp only [serve, here]) fun t server _ => initMutex t server
  case initMutex => exact initMutex s server found here
  case initEmpty => exact initEmpty s server found here
  case initFull => exact initFull s server found here
  case storeSlots => exact storeSlots s server found here

/-- Where the name is free a server with one slot can start. -/
theorem canRun_of_free (free : s.name = none) : CanRun s := by
  let j := s.servers.length
  let fresh : Server := ⟨.shmOpen, 1, none⟩
  let opened : Server := ⟨.truncate, 1, some s.objects.length⟩
  let t : System := { s with servers := s.servers ++ [fresh] }
  have started : step s (.starts 1) = some t := by rw [step, if_pos (by decide)]
  have first : t.servers[j]? = some fresh := by simp [t, j]
  let u : System := { t.setServer j opened with
    name := some s.objects.length, objects := s.objects ++ [⟨0, 0⟩] }
  have opens : serve t j fresh true = some u := by
    simp only [serve, fresh]
    rw [if_pos free]
  have second : u.servers[j]? = some opened := set_found first opened
  have sizes : serve u j opened true = some ((u.setServer j ⟨.map, 1, opened.object⟩).setObject opened.object
      fun o => { o with size := queueSize (sizeT 1) }) := by
    simp only [serve, opened]
    rw [if_pos (by decide)]
  exact .of_step started (.of_serve first true opens (.of_serve second true sizes
    (canRun_of_sized (set_found second ⟨.map, 1, opened.object⟩) rfl)))

/-- A server that holds the name can run, or make room for another one. -/
theorem canRun_of_holds (found : s.servers[j]? = some server) (holds : server.holds = true)
    (named : s.name ≠ none) : CanRun s := by
  have errUnlink : ∀ (t : System) (server : Server), t.name = s.name → t.servers[j]? = some server →
      server.pc = .errUnlink → CanRun t := by
    intro t server same found here
    have served : serve t j server true = some (t.setServer j { server with pc := .ended }).unlinked := by
      simp only [serve, here, same, if_neg named]
    exact .of_serve found true served (canRun_of_free rfl)
  have errClose : ∀ (t : System) (server : Server), t.name = s.name → t.servers[j]? = some server →
      server.pc = .errClose → CanRun t := by
    intro t server same found here
    exact .of_next found true (by simp only [serve, here]) fun t server further =>
      errUnlink t server (further.trans same)
  have unlink : ∀ (t : System) (server : Server), t.name = s.name → t.servers[j]? = some server →
      server.pc = .unlink → CanRun t := by
    intro t server same found here
    have served : serve t j server true = some (t.setServer j { server with pc := .ended }).unlinked := by
      simp only [serve, here, same, if_neg named]
    exact .of_serve found true served (canRun_of_free rfl)
  have unmap : ∀ (t : System) (server : Server), t.name = s.name → t.servers[j]? = some server →
      server.pc = .unmap → CanRun t := by
    intro t server same found here
    exact .of_next found true (by simp only [serve, here]) fun t server further =>
      unlink t server (further.trans same)
  have close : ∀ (t : System) (server : Server), t.name = s.name → t.servers[j]? = some server →
      server.pc = .close → CanRun t := by
    intro t server same found here
    exact .of_next found true (by simp only [serve, here]) fun t server further =>
      unmap t server (further.trans same)
  cases here : server.pc with
  | shmOpen | ended => simp [Server.holds, here] at holds
  | truncate => exact .of_next found false (by simp only [serve, here]) errClose
  | map | initMutex | initEmpty | initFull | storeSlots =>
    exact canRun_of_sized found (by rw [here]; rfl)
  | running => exact ⟨[], s, j, server, rfl, found, here⟩
  | waitMutex => exact .of_next found true (by simp only [serve, here]) close
  | close => exact close s server rfl found here
  | unmap => exact unmap s server rfl found here
  | unlink => exact unlink s server rfl found here
  | errClose => exact errClose s server rfl found here
  | errUnlink => exact errUnlink s server rfl found here

/-- **The server can start again unless one has left the queue behind.** In every run of
any number of servers and clients, whatever calls fail and wherever a process ends, but for
a client that dies with the mutex and blocks `free_server_queue`: some server can still come
to its main loop if and only if every server that had created the shared memory has also
removed it, or still may. A failed `ftruncate` or `mmap` removes it, a failed `sem_init` or
an end of the process before `shm_unlink` does not. -/
theorem a_server_can_run_iff (ran : run step empty events = some s) :
    CanRun s ↔ Along step Keeps empty events := by
  obtain ⟨r, actions, registered⟩ := registered_simulates.run registered_empty ran
  obtain ⟨proper, abandoned⟩ := Exclusive.abandoned_iff actions
  have kept : Along step Keeps empty events ↔ ¬ r.Abandoned := by
    rw [show Along step Keeps empty events ↔ _ from Simulation.along_iff_trace ran, abandoned]
    simp
  rw [kept]
  constructor
  · rintro ⟨later, s', j, server, ran', found, here⟩ left
    obtain ⟨r', actions', registered'⟩ := registered_simulates.run registered ran'
    obtain rfl := left.still actions'
    have held := (registered'.holder j server found).mp (by simp [Server.holds, here])
    rw [left.2] at held
    cases held
  · intro present
    cases taken : r.taken with
    | false =>
      rw [registered.taken, Option.isSome_eq_false_iff, Option.isNone_iff_eq_none] at taken
      exact canRun_of_free taken
    | true =>
      obtain ⟨j, holder⟩ := Option.ne_none_iff_exists'.mp fun nobody => present ⟨taken, nobody⟩
      have found := List.getElem?_eq_getElem (registered.present j holder)
      refine canRun_of_holds found ((registered.holder j _ found).mpr holder) ?_
      rwa [registered.taken, Option.isSome_iff_ne_none] at taken

/-- The `sem_init` of a server fails, and its object stays. -/
def leftBehind : List Event :=
  [.starts 10, .serves 0 true, .serves 0 true, .serves 0 true, .serves 0 false]

theorem a_server_can_run_iff_left : ∃ s, run step empty leftBehind = some s ∧ ¬ CanRun s := by
  obtain ⟨s, ran⟩ := Option.isSome_iff_exists.mp
    (show (run step empty leftBehind).isSome = true by decide)
  exact ⟨s, ran, fun can => absurd ((a_server_can_run_iff ran).mp can) (by decide)⟩

end LocalServer.ShmLifecycle
