import LocalServer.ShmLifecycle

/-! What lies in the shared memory and what a client maps of it. A client learns the
number of slots from the memory itself, which its server may still be filling. -/
namespace LocalServer.ShmLifecycle
open Runs

variable {s s' : System} {event : Event} {events : List Event} {j k : Nat} {server server' : Server}
  {client client' : Client}

/-- The slots an object has been made for, as a number that fits an `int`. -/
structure Object.Made (o : Object) (n : Nat) : Prop where
  small : n < 2 ^ 31
  size : o.size = SIZEOF_SERVER_QUEUE + SIZEOF_SHM_REQUEST * n
  stored : o.nbSlots = 0 ∨ o.nbSlots = n

theorem lt_of_offT {m : Nat} (small : m < 2 ^ 64) (fits : 0 ≤ offT m) : m < 2 ^ 63 := by
  by_contra big
  rw [offT, if_neg big] at fits
  omega

/-- The size does not overflow, and a negative number of slots makes it negative. -/
theorem queueSize_int {n : Int} (int : isInt n) (fits : 0 ≤ offT (queueSize (sizeT n))) :
    ∃ m : Nat, n = m ∧ m < 2 ^ 31 ∧ sizeT n = m ∧
      queueSize (sizeT n) = SIZEOF_SERVER_QUEUE + SIZEOF_SHM_REQUEST * m := by
  obtain ⟨low, high⟩ := int
  have below := lt_of_offT (Nat.mod_lt _ (by decide)) fits
  simp only [queueSize, sizeT, SIZEOF_SERVER_QUEUE, SIZEOF_SHM_REQUEST] at below ⊢
  obtain ⟨m, rfl⟩ : ∃ m : Nat, n = m := by
    refine ⟨n.toNat, ?_⟩
    by_contra negative
    obtain ⟨k, wrapped, positive, small⟩ : ∃ k : Nat, (n % 2 ^ 64).toNat = 2 ^ 64 - k ∧ 0 < k ∧ k ≤ 2 ^ 31 :=
      ⟨n.natAbs, by omega, by omega, by omega⟩
    have size : (136 + 520 * (2 ^ 64 - k)) % 2 ^ 64 = 2 ^ 64 + 136 - 520 * k := by omega
    rw [wrapped, size] at below
    omega
  exact ⟨m, rfl, by omega, by omega, by omega⟩

/-- What a server has put into its object. -/
def Server.wrote (server : Server) (o : Object) : Prop :=
  match server.pc.stage with
  | .fresh => o = ⟨0, 0⟩
  | .sized => ∃ n : Nat, server.nbSlots = n ∧ o.nbSlots = 0 ∧ o.Made n
  | .done => o = ⟨0, 0⟩ ∨ ∃ n, o.Made n

/-- What a client has found in its object. -/
def Client.knows (client : Client) (o : Object) : Prop :=
  match client.pc.stage with
  | .read | .mapped => o.size ≠ 0 ∧ (client.nbSlots = 0 ∨ client.nbSlots = o.nbSlots)
  | .start | .opened | .over => True

/-- What is in an object is not changed any more. -/
structure Object.Keeps (o o' : Object) : Prop where
  size : o.size ≠ 0 → o'.size = o.size
  nbSlots : o.nbSlots ≠ 0 → o'.nbSlots = o.nbSlots

/-- Every object belongs to one server, which alone writes its size and its number of
slots. -/
structure Sound (s : System) : Prop where
  int : ∀ (j : Nat) server, s.servers[j]? = some server → isInt server.nbSlots
  unopened : ∀ (j : Nat) server, s.servers[j]? = some server → server.pc = .shmOpen → server.object = none
  owns : ∀ (j : Nat) server i, s.servers[j]? = some server → server.object = some i →
    ∃ o, s.objects[i]? = some o ∧ server.wrote o
  opened : ∀ (j : Nat) server, s.servers[j]? = some server → server.holds = true → server.object ≠ none
  alone : ∀ (j k : Nat) server other i, s.servers[j]? = some server → s.servers[k]? = some other →
    server.object = some i → other.object = some i → j = k
  owned : ∀ i < s.objects.length, ∃ (j : Nat) (server : Server), s.servers[j]? = some server ∧ server.object = some i
  named : ∀ i, s.name = some i → i < s.objects.length
  client : ∀ (k : Nat) client, s.clients[k]? = some client → client.pc.stage ≠ .start → client.pc.stage ≠ .over →
    ∃ i o, client.object = some i ∧ s.objects[i]? = some o ∧ client.knows o
  mapped : ∀ (k : Nat) client, s.clients[k]? = some client → client.pc.stage = .mapped →
    client.mapped = pages (queueSize client.nbSlots)

theorem Client.knows.of_keeps {o o' : Object} (knows : client.knows o) (keeps : o.Keeps o') : client.knows o' := by
  unfold Client.knows at knows ⊢
  split at knows
  case h_3 | h_4 | h_5 => trivial
  all_goals
    obtain ⟨filled, reads⟩ := knows
    refine ⟨by rwa [keeps.size filled], ?_⟩
    by_cases zero : client.nbSlots = 0
    · exact .inl zero
    · have same := reads.resolve_left zero
      exact .inr (by rw [keeps.nbSlots (same ▸ zero), same])

/-- A server changes nothing but its own entry and its own object. -/
theorem Sound.set {name : Option Nat} {objects : List Object} (sound : Sound s)
    (found : s.servers[j]? = some server) (slots : server'.nbSlots = server.nbSlots)
    (same : server'.object = server.object) (begun : server'.pc ≠ .shmOpen)
    (held : server'.holds = true → server.holds = true)
    (length : objects.length = s.objects.length) (named : ∀ i, name = some i → s.name = some i)
    (others : ∀ i, server.object ≠ some i → objects[i]? = s.objects[i]?)
    (own : ∀ i o, server.object = some i → s.objects[i]? = some o → server.wrote o →
      ∃ o', objects[i]? = some o' ∧ server'.wrote o' ∧ o.Keeps o') :
    Sound ⟨name, objects, s.servers.set j server', s.clients⟩ where
  int := by
    intro i other there
    rcases cases_set there with ⟨rfl, rfl⟩ | ⟨-, before⟩
    · rw [slots]
      exact sound.int _ _ found
    · exact sound.int i other before
  unopened := by
    intro i other there here
    rcases cases_set there with ⟨rfl, rfl⟩ | ⟨-, before⟩
    · exact absurd here begun
    · exact sound.unopened i other before here
  owns := by
    intro k other i there object
    rcases cases_set there with ⟨rfl, rfl⟩ | ⟨apart, before⟩
    · rw [same] at object
      obtain ⟨o, present, wrote⟩ := sound.owns _ _ i found object
      obtain ⟨o', present', wrote', -⟩ := own i o object present wrote
      exact ⟨o', present', wrote'⟩
    · obtain ⟨o, present, wrote⟩ := sound.owns k other i before object
      refine ⟨o, ?_, wrote⟩
      rw [others i fun mine => apart (sound.alone k j other server i before found object mine)]
      exact present
  opened := by
    intro i other there holds
    rcases cases_set there with ⟨rfl, rfl⟩ | ⟨-, before⟩
    · rw [same]
      exact sound.opened _ _ found (held holds)
    · exact sound.opened i other before holds
  alone := by
    intro a b first second i atA atB mine yours
    rcases cases_set atA with ⟨rfl, rfl⟩ | ⟨apartA, beforeA⟩ <;>
      rcases cases_set atB with ⟨rfl, rfl⟩ | ⟨apartB, beforeB⟩
    · rfl
    · exact sound.alone _ _ server second i found beforeB (same ▸ mine) yours
    · exact sound.alone _ _ first server i beforeA found mine (same ▸ yours)
    · exact sound.alone a b first second i beforeA beforeB mine yours
  owned := by
    intro i inside
    obtain ⟨k, other, there, object⟩ := sound.owned i (length ▸ inside)
    by_cases mine : k = j
    · subst mine
      rw [found] at there
      cases there
      exact ⟨k, server', by simp [(List.getElem?_eq_some_iff.mp found).1], same.trans object⟩
    · exact ⟨k, other, by rwa [List.getElem?_set_ne (Ne.symm mine)], object⟩
  named := by
    intro i leads
    rw [length]
    exact sound.named i (named i leads)
  client := by
    intro k client there started lives
    obtain ⟨i, o, object, present, knows⟩ := sound.client k client there started lives
    by_cases mine : server.object = some i
    · obtain ⟨o₁, present₁, wrote⟩ := sound.owns j server i found mine
      rw [present] at present₁
      cases present₁
      obtain ⟨o', present', -, keeps⟩ := own i o mine present wrote
      exact ⟨i, o', object, present', knows.of_keeps keeps⟩
    · exact ⟨i, o, object, (others i mine).trans present, knows⟩
  mapped := sound.mapped

/-- The same when the objects stay as they are. -/
theorem Sound.setPc {name : Option Nat} {pc : ServerPc} (sound : Sound s)
    (found : s.servers[j]? = some server) (begun : pc ≠ .shmOpen)
    (held : Server.holds { server with pc := pc } = true → server.holds = true)
    (stage : pc.stage = server.pc.stage ∨ pc.stage = .done) (named : ∀ i, name = some i → s.name = some i) :
    Sound ⟨name, s.objects, s.servers.set j { server with pc := pc }, s.clients⟩ := by
  refine sound.set found rfl rfl begun held rfl named (fun _ _ => rfl) fun i o _ present wrote =>
    ⟨o, present, ?_, fun _ => rfl, fun _ => rfl⟩
  unfold Server.wrote at wrote ⊢
  rcases stage with same | done
  · simpa only [same] using wrote
  · simp only [done]
    split at wrote
    · exact .inl wrote
    · obtain ⟨n, -, -, made⟩ := wrote
      exact .inr ⟨n, made⟩
    · exact wrote

theorem setObject_getElem? {i : Nat} (change : Object → Object) (object : Option Nat) :
    (s.setObject object change).objects[i]? =
      if object = some i then (s.objects[i]?).map change else s.objects[i]? := by
  cases object with
  | none => simp [System.setObject]
  | some k => by_cases same : k = i <;> simp [System.setObject, same]

/-- A server makes an object that nobody has had before. -/
theorem Sound.create (sound : Sound s) (found : s.servers[j]? = some server) (here : server.pc = .shmOpen) :
    Sound ⟨some s.objects.length, s.objects ++ [⟨0, 0⟩],
      s.servers.set j ⟨.truncate, server.nbSlots, some s.objects.length⟩, s.clients⟩ := by
  have inside {i : Nat} {o : Object} (present : s.objects[i]? = some o) : i < s.objects.length :=
    (List.getElem?_eq_some_iff.mp present).1
  have kept {i : Nat} {o : Object} (present : s.objects[i]? = some o) :
      (s.objects ++ [⟨0, 0⟩])[i]? = some o := by
    rwa [List.getElem?_append_left (inside present)]
  have owned {k i : Nat} {other : Server} (there : s.servers[k]? = some other) (object : other.object = some i) :
      i ≠ s.objects.length := by
    obtain ⟨o, present, -⟩ := sound.owns k other i there object
    exact (inside present).ne
  constructor
  case int =>
    intro i other there
    rcases cases_set there with ⟨rfl, rfl⟩ | ⟨-, before⟩
    · exact sound.int _ server found
    · exact sound.int i other before
  case unopened =>
    intro i other there here
    rcases cases_set there with ⟨rfl, rfl⟩ | ⟨-, before⟩
    · cases here
    · exact sound.unopened i other before here
  case owns =>
    intro k other i there object
    rcases cases_set there with ⟨rfl, rfl⟩ | ⟨-, before⟩
    · cases object
      exact ⟨⟨0, 0⟩, by simp, rfl⟩
    · obtain ⟨o, present, wrote⟩ := sound.owns k other i before object
      exact ⟨o, kept present, wrote⟩
  case opened =>
    intro i other there holds
    rcases cases_set there with ⟨rfl, rfl⟩ | ⟨-, before⟩
    · exact nofun
    · exact sound.opened i other before holds
  case alone =>
    intro a b first second i atA atB mine yours
    rcases cases_set atA with ⟨rfl, rfl⟩ | ⟨-, beforeA⟩ <;> rcases cases_set atB with ⟨rfl, rfl⟩ | ⟨-, beforeB⟩
    · rfl
    · cases mine
      exact absurd rfl (owned beforeB yours)
    · cases yours
      exact absurd rfl (owned beforeA mine)
    · exact sound.alone a b first second i beforeA beforeB mine yours
  case owned =>
    intro i below
    rw [List.length_append] at below
    by_cases new : i = s.objects.length
    · subst new
      exact ⟨j, _, by simp [(List.getElem?_eq_some_iff.mp found).1]; rfl, rfl⟩
    · obtain ⟨k, other, there, object⟩ := sound.owned i (by simp at below; omega)
      have apart : j ≠ k := by
        rintro rfl
        rw [found] at there
        cases there
        rw [sound.unopened j server found here] at object
        cases object
      exact ⟨k, other, by rwa [List.getElem?_set_ne apart], object⟩
  case named =>
    rintro i ⟨⟩
    simp
  case client =>
    intro k client there started lives
    obtain ⟨i, o, object, present, knows⟩ := sound.client k client there started lives
    exact ⟨i, o, object, kept present, knows⟩
  case mapped => exact sound.mapped

theorem Sound.serves {name : Option Nat} {objects : List Object} {actions : List (Exclusive.Action Nat)}
    (sound : Sound s) (found : s.servers[j]? = some server)
    (serving : Serving s j server server' name objects actions) :
    Sound ⟨name, objects, s.servers.set j server', s.clients⟩ := by
  cases serving with
  | created here free => exact sound.create found here
  | refused idle => exact sound.setPc found nofun nofun (.inr rfl) fun _ => id
  | moved pc holds goesOn stage =>
    refine sound.setPc found ?_ (fun _ => holds) stage fun _ => id
    rintro rfl
    cases goesOn
  | removed holds named => exact sound.setPc found nofun nofun (.inr rfl) nofun
  | abandoned holds => exact sound.setPc found nofun nofun (.inr rfl) fun _ => id
  | sized here fits =>
    refine sound.set found rfl rfl (by rintro ⟨⟩) (fun _ => by simp [Server.holds, here]) ?_ (fun _ => id) (fun i apart => ?_)
      fun i o object present wrote => ?_
    · cases server.object <;> simp [System.setObject]
    · rw [setObject_getElem?, if_neg apart]
    · simp only [Server.wrote, here, ServerPc.stage] at wrote
      subst wrote
      obtain ⟨m, slots, small, -, size⟩ := queueSize_int (sound.int j server found) fits
      rw [setObject_getElem?, if_pos object, present]
      exact ⟨_, rfl, ⟨m, slots, rfl, small, size, .inl rfl⟩, fun set => absurd rfl set, fun set => absurd rfl set⟩
  | stored here =>
    refine sound.set found rfl rfl (by rintro ⟨⟩) (fun _ => by simp [Server.holds, here]) ?_ (fun _ => id) (fun i apart => ?_)
      fun i o object present wrote => ?_
    · cases server.object <;> simp [System.setObject]
    · rw [setObject_getElem?, if_neg apart]
    · simp only [Server.wrote, here, ServerPc.stage] at wrote
      obtain ⟨m, slots, unset, made⟩ := wrote
      rw [setObject_getElem?, if_pos object, present]
      have stores : sizeT server.nbSlots = m := by
        have small := made.small
        rw [sizeT, slots]
        omega
      exact ⟨_, rfl, .inr ⟨m, made.small, made.size, .inr stores⟩, fun _ => rfl, fun set => absurd unset set⟩

theorem Sound.calls (sound : Sound s) (found : s.clients[k]? = some client) (calling : Calling s client client') :
    Sound (s.setClient k client') := by
  have clients (started : client'.pc.stage ≠ .start → client'.pc.stage ≠ .over →
      ∃ i o, client'.object = some i ∧ s.objects[i]? = some o ∧ client'.knows o) (mapped : client'.pc.stage = .mapped → client'.mapped = pages (queueSize client'.nbSlots)) :
      Sound (s.setClient k client') := by
    refine { sound with client := fun i other there => ?_, mapped := fun i other there => ?_ }
    all_goals rcases cases_set there with ⟨rfl, rfl⟩ | ⟨-, before⟩
    · exact started
    · exact sound.client i other before
    · exact mapped
    · exact sound.mapped i other before
  cases calling with
  | opened i here named =>
    exact clients (fun _ _ => ⟨i, _, rfl, List.getElem?_eq_getElem (sound.named i named), trivial⟩) nofun
  | read i object here maps present filled =>
    exact clients (fun _ _ => ⟨i, object, maps, present, filled, .inr rfl⟩) nofun
  | mapped here =>
    obtain ⟨i, o, object, present, knows⟩ :=
      sound.client k client found (by rw [here]; exact nofun) (by rw [here]; exact nofun)
    refine clients (fun _ _ => ⟨i, o, object, present, ?_⟩) fun _ => rfl
    simpa only [Client.knows, here, ClientPc.stage] using knows
  | moved pc stage =>
    rcases stage with ⟨same, -⟩ | gone
    · refine clients (fun started lives => ?_) fun mapped => sound.mapped k client found (same ▸ mapped)
      obtain ⟨i, o, object, present, knows⟩ := sound.client k client found (same ▸ started) (same ▸ lives)
      exact ⟨i, o, object, present, by simpa only [Client.knows, same] using knows⟩
    · exact clients (fun _ lives => absurd gone lives) fun mapped => absurd (gone.symm.trans mapped) (by decide)

/-- A new server has nothing yet. -/
theorem Sound.starts {n : Int} (sound : Sound s) (int : isInt n) :
    Sound { s with servers := s.servers ++ [⟨.shmOpen, n, none⟩] } := by
  refine { sound with
    int := fun i other there => ?_, unopened := fun i other there here => ?_
    owns := fun k other i there object => ?_, opened := fun i other there holds => ?_
    alone := fun a b first second i atA atB mine yours => ?_, owned := fun i inside => ?_ }
  · rcases cases_snoc there with before | ⟨-, rfl⟩
    · exact sound.int i other before
    · exact int
  · rcases cases_snoc there with before | ⟨-, rfl⟩
    · exact sound.unopened i other before here
    · rfl
  · rcases cases_snoc there with before | ⟨-, rfl⟩
    · exact sound.owns k other i before object
    · cases object
  · rcases cases_snoc there with before | ⟨-, rfl⟩
    · exact sound.opened i other before holds
    · cases holds
  · rcases cases_snoc atA with beforeA | ⟨-, rfl⟩
    · rcases cases_snoc atB with beforeB | ⟨-, rfl⟩
      · exact sound.alone a b first second i beforeA beforeB mine yours
      · cases yours
    · cases mine
  · obtain ⟨k, other, there, object⟩ := sound.owned i inside
    exact ⟨k, other, by rwa [List.getElem?_append_left (List.getElem?_eq_some_iff.mp there).1], object⟩

theorem Sound.arrives (sound : Sound s) :
    Sound { s with clients := s.clients ++ [⟨.shmOpen, none, 0, 0⟩] } := by
  refine { sound with client := fun i other there started => ?_, mapped := fun i other there mapped => ?_ }
  all_goals rcases cases_snoc there with before | ⟨-, rfl⟩
  · exact sound.client i other before started
  · exact absurd rfl started
  · exact sound.mapped i other before mapped
  · cases mapped

theorem sound_step (sound : Sound s) (stepped : step s event = some s') : Sound s' := by
  have move := move_of_step stepped
  generalize shows s event = actions at move
  cases move with
  | starts nbSlots int => exact sound.starts int
  | serves j server server' name objects actions found serving => exact sound.serves found serving
  | arrives => exact sound.arrives
  | calls k client client' found calling => exact sound.calls found calling

theorem sound_of_run (ran : run step empty events = some s) : Sound s := by
  have initial : Sound empty :=
    ⟨nofun, nofun, nofun, nofun, nofun, fun i inside => absurd inside (Nat.not_lt_zero i), nofun, nofun, nofun⟩
  exact run_invariant (fun _ _ _ => sound_step) initial ran

theorem Sound.made {i : Nat} {o : Object} (sound : Sound s) (present : s.objects[i]? = some o) :
    o = ⟨0, 0⟩ ∨ ∃ n, o.Made n := by
  obtain ⟨j, server, found, object⟩ := sound.owned i (List.getElem?_eq_some_iff.mp present).1
  obtain ⟨o', same, wrote⟩ := sound.owns j server i found object
  rw [present] at same
  cases same
  unfold Server.wrote at wrote
  split at wrote
  · exact .inl wrote
  · obtain ⟨n, -, -, made⟩ := wrote
    exact .inr ⟨n, made⟩
  · exact wrote

/-- **Servers do not touch each other's memory.** In every run of any number of servers and
clients at most one server holds a queue, and the name leads to its object, so that a
`shm_unlink` takes away nobody else's; every object ever made has exactly one server, has its
size before the number of slots is in it, and is as large as the layout says for a number of
slots that is an `int`. -/
theorem servers_are_apart (ran : run step empty events = some s) :
    (∀ (j : Nat) server, s.servers[j]? = some server → server.holds = true →
      server.object = s.name ∧ s.name ≠ none ∧
        ∀ (k : Nat) other, s.servers[k]? = some other → other.holds = true → k = j) ∧
    (∀ i < s.objects.length, ∃! j : Nat, (s.servers[j]?).bind Server.object = some i) ∧
    ∀ o ∈ s.objects, o = ⟨0, 0⟩ ∨ ∃ n, o.Made n := by
  have sound := sound_of_run ran
  obtain ⟨r, actions, registered⟩ := registered_simulates.run registered_empty ran
  refine ⟨fun j server found holds => ?_, fun i inside => ?_, fun o member => ?_⟩
  · have same := registered.object j server found holds
    refine ⟨same, same ▸ sound.opened j server found holds, fun k other there held => ?_⟩
    have first := (registered.holder j server found).mp holds
    rw [(registered.holder k other there).mp held] at first
    exact Option.some.inj first
  · obtain ⟨j, server, found, object⟩ := sound.owned i inside
    refine ⟨j, by simp [found, object], fun k owns => ?_⟩
    obtain ⟨other, there, mine⟩ := Option.bind_eq_some_iff.mp owns
    exact sound.alone k j other server i there found mine object
  · obtain ⟨i, present⟩ := List.mem_iff_getElem?.mp member
    exact sound.made present

/-- Two servers one behind the other, the second while the first still runs. -/
def twoServers : List Event :=
  .starts 2 :: List.replicate 7 (.serves 0 true) ++ [.starts 2, .serves 1 false]

theorem servers_are_apart_two : ∃ s, run step empty twoServers = some s ∧ s.name = some 0 ∧
    ∀ o ∈ s.objects, o = ⟨0, 0⟩ ∨ ∃ n, o.Made n := by
  obtain ⟨s, ran, named⟩ := Option.map_eq_some_iff.mp
    (show (run step empty twoServers).map System.name = some (some 0) by decide)
  exact ⟨s, ran, named, (servers_are_apart ran).2.2⟩

/-! ## A client that comes early -/

/-- The client reads `nb_slots` before the server has stored it. -/
def readsEarly (k : Nat) (s : System) (event : Event) : Bool :=
  event = .calls k true && s.clients[k]?.any fun client =>
    client.pc = .readSlots && (client.object.bind (s.objects[·]?)).any fun o => o.nbSlots = 0

/-- The client is not over. -/
def Lives (k : Nat) (s : System) : Prop :=
  ∀ client, s.clients[k]? = some client → client.pc.stage ≠ .over

/-- The client has found no slots. -/
def FoundNone (k : Nat) (s : System) : Prop :=
  ∃ client, s.clients[k]? = some client ∧ (client.pc.stage = .read ∨ client.pc.stage = .mapped) ∧ client.nbSlots = 0

theorem clients_of_serves {works : Bool} (stepped : step s (.serves j works) = some s') :
    s'.clients = s.clients := by
  obtain ⟨server, found, served⟩ := Option.bind_eq_some_iff.mp stepped
  obtain ⟨server', name, objects, -, rfl⟩ := serving_of_serve found served
  rfl

/-- Only the events of the client itself matter to what it has found. -/
theorem foundNone_of_same (same : s'.clients[k]? = s.clients[k]?) (early : readsEarly k s event = false) :
    FoundNone k s' ↔ FoundNone k s ∨ ¬ readsEarly k s event = false := by
  simp [FoundNone, same, early]

/-- The client that moves is found as it is now. -/
theorem foundNone_set (found : s.clients[k]? = some client) : FoundNone k (s.setClient k client') ↔
    (client'.pc.stage = .read ∨ client'.pc.stage = .mapped) ∧ client'.nbSlots = 0 := by
  have present : (s.setClient k client').clients[k]? = some client' := by
    simp [System.setClient, (List.getElem?_eq_some_iff.mp found).1]
  simp [FoundNone, present]

theorem foundNone_iff (found : s.clients[k]? = some client) : FoundNone k s ↔
    (client.pc.stage = .read ∨ client.pc.stage = .mapped) ∧ client.nbSlots = 0 := by
  simp [FoundNone, found]

theorem readsEarly_iff (found : s.clients[k]? = some client) {works : Bool} :
    readsEarly k s (.calls k works) = true ↔ works = true ∧ client.pc = .readSlots ∧
      ∃ o, (∃ i, client.object = some i ∧ s.objects[i]? = some o) ∧ o.nbSlots = 0 := by
  cases works <;> simp [readsEarly, found, Option.any_eq_true, Option.bind_eq_some_iff]

theorem foundNone_calling {works : Bool} (found : s.clients[k]? = some client)
    (calling : Calling s client client') (lives : client'.pc.stage ≠ .over)
    (may : client.pc = .readSlots → works = true) :
    FoundNone k (s.setClient k client') ↔
      FoundNone k s ∨ ¬ readsEarly k s (.calls k works) = false := by
  rw [Bool.not_eq_false, foundNone_set found, foundNone_iff found, readsEarly_iff found]
  cases calling with
  | opened i here named => simp [here, ClientPc.stage]
  | read i object here maps present filled => simp [here, may here, ClientPc.stage, maps, present]
  | mapped here => simp [here, ClientPc.stage]
  | moved pc stage =>
    obtain ⟨same, elsewhere⟩ := stage.resolve_right lives
    simp [same, elsewhere]

theorem clients_set_ne {i : Nat} (apart : i ≠ k) : (s.setClient i client').clients[k]? = s.clients[k]? := by
  simp [System.setClient, List.getElem?_set_ne apart]

theorem lives_back (stepped : step s event = some s') (lives : Lives k s') : Lives k s := by
  intro client found gone
  have move := move_of_step stepped
  generalize shows s event = actions at move
  cases move with
  | starts n int => exact lives client found gone
  | serves j server server' name objects actions there serving => exact lives client found gone
  | arrives =>
    refine lives client ?_ gone
    exact (List.getElem?_append_left (List.getElem?_eq_some_iff.mp found).1).trans found
  | calls i before after there calling =>
    by_cases same : i = k
    · subst same
      rw [there] at found
      cases found
      refine lives after (by simp [System.setClient, (List.getElem?_eq_some_iff.mp there).1]) ?_
      cases calling with
      | opened i here named | read i object here maps present filled | mapped here =>
        rw [here] at gone
        cases gone
      | moved pc stage =>
        rcases stage with ⟨same, -⟩ | there
        · exact same.trans gone
        · exact there
    · exact lives client ((clients_set_ne same).trans found) gone

theorem foundNone_step (stepped : step s event = some s') (lives : Lives k s') :
    FoundNone k s' ↔ FoundNone k s ∨ ¬ readsEarly k s event = false := by
  have other (event : Event) (apart : event ≠ .calls k true) : readsEarly k s event = false := by
    simp [readsEarly, apart]
  cases event with
  | starts n =>
    simp only [step] at stepped
    split at stepped <;> cases stepped
    exact foundNone_of_same rfl (other _ (by rintro ⟨⟩))
  | serves j works =>
    exact foundNone_of_same (by rw [clients_of_serves stepped]) (other _ (by rintro ⟨⟩))
  | stops j =>
    obtain ⟨server, -, moved⟩ := Option.bind_eq_some_iff.mp stepped
    split at moved <;> cases moved
    exact foundNone_of_same rfl (other _ (by rintro ⟨⟩))
  | leaves j =>
    obtain ⟨server, -, rfl⟩ := Option.map_eq_some_iff.mp stepped
    exact foundNone_of_same rfl (other _ (by rintro ⟨⟩))
  | arrives =>
    cases stepped
    rw [other .arrives (by rintro ⟨⟩)]
    simp only [not_true, or_false, FoundNone]
    constructor
    · rintro ⟨client, there, stage, none⟩
      rcases cases_snoc there with before | ⟨-, rfl⟩
      · exact ⟨client, before, stage, none⟩
      · rcases stage with stage | stage <;> cases stage
    · rintro ⟨client, there, stage, none⟩
      exact ⟨client, by rwa [List.getElem?_append_left (List.getElem?_eq_some_iff.mp there).1], stage, none⟩
  | goes i =>
    obtain ⟨client, found, rfl⟩ := Option.map_eq_some_iff.mp stepped
    by_cases same : i = k
    · subst same
      exact absurd rfl (lives _ (by simp [System.setClient, (List.getElem?_eq_some_iff.mp found).1]; rfl))
    · exact foundNone_of_same (clients_set_ne same) (other _ (by rintro ⟨⟩))
  | calls i works =>
    obtain ⟨client, found, called⟩ := Option.bind_eq_some_iff.mp stepped
    obtain ⟨client', calling, rfl⟩ := calling_of_call called
    by_cases same : i = k
    · subst same
      have there := lives client' (by simp [System.setClient, (List.getElem?_eq_some_iff.mp found).1])
      refine foundNone_calling found calling there fun here => ?_
      cases works
      · simp [call, here] at called
      · rfl
    · exact foundNone_of_same (clients_set_ne same) (other _ (by simp [same]))

theorem pages_header : pages (queueSize 0) = PAGE_SIZE := by decide

/-- The pages of a whole queue hold it. -/
theorem le_pages (length : Nat) : length ≤ pages length := by
  simp only [pages, PAGE_SIZE]
  omega

/-- **A client maps the whole queue unless it comes too early.** In every run and for every
client that has connected, its mapping covers the object of the server if and only if it
read `nb_slots` when the server had stored it, or the queue with its at most 7 slots lies in
the one page that it has mapped anyway. -/
theorem mapping_covers_iff (ran : run step empty events = some s) (found : s.clients[k]? = some client)
    (here : client.pc = .connected) : ∃ i o n, client.object = some i ∧ s.objects[i]? = some o ∧ o.Made n ∧
      (o.size ≤ client.mapped ↔
        n ≤ 7 ∨ Along step (fun s event => readsEarly k s event = false) empty events) := by
  have sound := sound_of_run ran
  have stage : client.pc.stage = .mapped := by rw [here]; rfl
  obtain ⟨i, o, object, present, knows⟩ :=
    sound.client k client found (by rw [stage]; exact nofun) (by rw [stage]; exact nofun)
  simp only [Client.knows, stage] at knows
  obtain ⟨filled, reads⟩ := knows
  obtain ⟨n, made⟩ : ∃ n, o.Made n := by
    refine (sound.made present).resolve_left ?_
    rintro rfl
    exact filled rfl
  refine ⟨i, o, n, object, present, made, ?_⟩
  have lives : Lives k s := by
    intro other there
    rw [found] at there
    cases there
    rw [stage]
    exact nofun
  have marked := (mark_iff_not_along_alive (fun _ _ _ => lives_back) (fun _ _ _ => foundNone_step) lives ran).2
  have initial : ¬ FoundNone k empty := by rintro ⟨client, found, -⟩; cases found
  have size := made.size
  rw [foundNone_iff found] at marked
  simp only [stage, or_true, true_and, initial, false_or] at marked
  rw [sound.mapped k client found stage]
  by_cases none : client.nbSlots = 0
  · have early := marked.mp none
    simp only [none, pages_header, early, or_false, size, SIZEOF_SERVER_QUEUE, SIZEOF_SHM_REQUEST, PAGE_SIZE]
    omega
  · have along := not_not.mp (mt marked.mpr none)
    simp only [along, or_true, iff_true]
    have all : client.nbSlots = n := by
      have same := reads.resolve_left none
      exact same.trans (made.stored.resolve_left (same ▸ none))
    have exact_ : queueSize n = o.size := by
      have small := made.small
      simp only [size, queueSize, SIZEOF_SERVER_QUEUE, SIZEOF_SHM_REQUEST]
      omega
    rw [all, exact_]
    exact le_pages _

/-- A client connects while the server with ten slots is between its `ftruncate` and the
store of `nb_slots`. -/
def earlyClient : List Event :=
  [.starts 10, .serves 0 true, .serves 0 true, .arrives] ++ List.replicate 6 (.calls 0 true) ++
    List.replicate 5 (.serves 0 true)

theorem mapping_covers_iff_early : ∃ s, run step empty earlyClient = some s ∧
    ∃ client, s.clients[0]? = some client ∧ client.pc = .connected ∧
      ∃ (i : Nat) (o : Object), client.object = some i ∧ s.objects[i]? = some o ∧ ¬ o.size ≤ client.mapped := by
  have computed : (run step empty earlyClient).map (fun s => s.clients[0]?.map Client.pc) =
      some (some .connected) := by decide
  obtain ⟨s, ran, there⟩ := Option.map_eq_some_iff.mp computed
  obtain ⟨client, found, here⟩ := Option.map_eq_some_iff.mp there
  obtain ⟨i, o, n, object, present, made, covers⟩ := mapping_covers_iff ran found here
  refine ⟨s, ran, client, found, here, i, o, object, present, fun covered => ?_⟩
  rcases covers.mp covered with short | along
  · have sized : (run step empty earlyClient).map (fun s => s.objects.map Object.size) = some [5336] := by decide
    rw [ran] at sized
    have large : o.size ∈ s.objects.map Object.size :=
      List.mem_map_of_mem (List.mem_of_getElem? present)
    rw [Option.map_some, Option.some.injEq] at sized
    rw [sized, List.mem_singleton, made.size, SIZEOF_SERVER_QUEUE, SIZEOF_SHM_REQUEST] at large
    omega
  · exact absurd along (by decide)

end LocalServer.ShmLifecycle
