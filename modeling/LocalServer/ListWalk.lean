import LocalServer.ClientList

/-! The walk of `sig_free` over the list of clients. `list_apply` does not take the mutex
of the list, so the threads that end remove and free their cells while the walk stands on
one of them. A removal is one step here: between its writes the walk meets what it would
meet before all of them or after. -/
namespace LocalServer.ListWalk
open Runs CList LinkedList
open ClientList (Server Handler InStep Effect handlerOf effect_of_step)
open ShmQueue (ShmRequest)

/-- Where `list_apply` stands: at the test of its loop, behind the call of `apply` with
the link of this cell still to read, at its end, or at a read of freed memory. -/
inductive Place where
  | test (cell : Option Addr)
  | next (cell : Addr)
  | done
  | crashed
  deriving DecidableEq

/-- The server under `sig_free`, the clients that were sent a signal with what `kill`
said, and `acc`. -/
structure Walk where
  server : Server
  place : Place
  kills : List (ShmRequest × Bool)
  acc : Int

inductive Event where
  /-- The walk takes a step; its `kill` may fail. -/
  | turn (killed : Bool)
  /-- The thread at this place of the live threads reaches its label `remove`. -/
  | finish (i : Nat)

/-- `free_online_clients`. -/
def freeOnlineClients (killed : Bool) (acc : Int) : Int :=
  let acc := if killed then acc else -1
  if acc < 0 then -1 else 1

def step (w : Walk) : Event → Option Walk
  | .turn killed =>
    match w.place with
    | .test none => some { w with place := .done }
    | .test (some addr) =>
      match deref w.server.clientList.cells (some addr) with
      | .error _ => some { w with place := .crashed }
      | .ok (_, cell) =>
        match deref w.server.clientList.values cell.value with
        | .error _ => some { w with place := .crashed }
        | .ok (_, req) =>
          some
            { w with
              place := .next addr
              kills := w.kills ++ [(req, killed)]
              acc := freeOnlineClients killed w.acc }
    | .next addr =>
      match deref w.server.clientList.cells (some addr) with
      | .error _ => some { w with place := .crashed }
      | .ok (_, cell) => some { w with place := .test cell.next }
    | .done | .crashed => none
  | .finish i => (ClientList.step w.server (.finish i)).map fun server => { w with server := server }

/-- A signal interrupts the main loop and `sig_free` calls `list_apply`. -/
def interrupted (s : Server) : Walk := ⟨s, .test s.clientList.head, [], 0⟩

/-- The walk stands on this cell. -/
def Place.on (addr : Addr) : Place → Prop
  | .test (some cell) => cell = addr
  | .next cell => cell = addr
  | .test none | .done | .crashed => False

/-- The thread that ends is not the one whose entry the walk stands on. -/
def Elsewhere (w : Walk) : Event → Prop
  | .turn _ => True
  | .finish i => ∀ handler addr cell, w.server.handlers[i]? = some handler → w.place.on addr →
    w.server.clientList.cells addr = some cell → cell.value ≠ some handler.req

/-- The thread that ends is the oldest of those with its pid. -/
def Unshadowed (w : Walk) : Event → Prop
  | .turn _ => True
  | .finish i => ClientList.Unshadowed w.server (.finish i)

/-- How many steps the walk has left when this many entries are ahead. -/
def Place.turns (ahead : Nat) : Place → Nat
  | .test _ => 2 * ahead + 1
  | .next _ => 2 * ahead + 2
  | .done | .crashed => 0

theorem Place.turns_mono (place : Place) {m n : Nat} (fewer : m ≤ n) : place.turns m ≤ place.turns n := by
  cases place <;> simp only [Place.turns] <;> omega

/-- The walk never waits. -/
theorem turn_possible (w : Walk) (killed : Bool) (under : w.place ≠ .done) (safe : w.place ≠ .crashed) :
    (step w (.turn killed)).isSome = true := by
  simp only [step]
  cases here : w.place with
  | test cell =>
    cases cell with
    | none => rfl
    | some addr =>
      simp only
      split
      · rfl
      · split <;> rfl
  | next addr =>
    simp only
    split <;> rfl
  | done => exact absurd here under
  | crashed => exact absurd here safe

/-! ## What the walk has met -/

variable {V : Type*} {l : CList V} {entries first second : List (Entry V)}

/-- A list stands for one sequence only. -/
theorem represents_unique (rep : Represents l first) (also : Represents l second) : first = second := by
  have cells := path_unique rep.path also.path
  apply List.ext_getElem?
  intro i
  have same := congrArg (·[i]?) cells
  simp only [List.getElem?_map] at same
  cases atFirst : first[i]? with
  | none =>
    rw [atFirst] at same
    exact (Option.map_eq_none_iff.mp same.symm).symm
  | some one =>
    rw [atFirst] at same
    obtain ⟨other, atSecond, cell⟩ := Option.map_eq_some_iff.mp same.symm
    have value := rep.points one (List.mem_of_getElem? atFirst)
    rw [← cell, also.points other (List.mem_of_getElem? atSecond), Option.some.injEq] at value
    have content := rep.stored one (List.mem_of_getElem? atFirst)
    rw [← value, also.stored other (List.mem_of_getElem? atSecond), Option.some.injEq] at content
    rw [atSecond]
    cases one
    cases other
    simp_all

/-- Behind the cells that were passed lies the first of those ahead. -/
theorem next_of_passed {front ahead : List (Entry V)} {entry : Entry V}
    (rep : Represents l (front ++ [entry] ++ ahead)) : ∃ cell, l.cells entry.cell = some cell ∧
      cell.value = some entry.value ∧ cell.next = ahead.head?.map Entry.cell := by
  have path := rep.path
  rw [List.map_append, List.map_append, List.append_assoc] at path
  obtain ⟨-, -, here, cell, live, rest⟩ := path_append.mp path
  obtain ⟨next, live'⟩ := rep.cell_live (show entry ∈ front ++ [entry] ++ ahead by simp)
  obtain rfl : cell = ⟨some entry.value, next⟩ := Option.some.inj (live.symm.trans live')
  refine ⟨_, live, rfl, ?_⟩
  cases ahead with
  | nil => exact rest
  | cons entry ahead => exact rest.1

variable {w w' : Walk} {event : Event} {events : List Event} {handlers : List Handler}
  {visited passed ahead : List (Entry ShmRequest)}

/-- The entries in the list are those passed, all of which were visited, and those ahead. -/
structure Walking (handlers : List Handler) (w : Walk) (visited passed ahead : List (Entry ShmRequest)) : Prop where
  agree : InStep w.server (passed ++ ahead)
  place : w.place = .test (ahead.head?.map Entry.cell) ∨
    (∃ front entry, passed = front ++ [entry] ∧ w.place = .next entry.cell) ∨ w.place = .done ∧ ahead = []
  met : passed.Sublist visited
  order : ((visited ++ ahead).map handlerOf).Sublist handlers
  kills : w.kills.map Prod.fst = visited.map Entry.content
  acc : w.acc = if w.kills = [] then 0 else if ∀ kill ∈ w.kills, kill.2 = true then 1 else -1

/-- `acc` ends up negative exactly if some `kill` failed. -/
theorem freeOnlineClients_snoc {kills : List (ShmRequest × Bool)} {acc : Int}
    (before : acc = if kills = [] then 0 else if ∀ kill ∈ kills, kill.2 = true then 1 else -1)
    (req : ShmRequest) (killed : Bool) : freeOnlineClients killed acc =
      if kills ++ [(req, killed)] = [] then 0
      else if ∀ kill ∈ kills ++ [(req, killed)], kill.2 = true then 1 else -1 := by
  have all : (∀ kill ∈ kills ++ [(req, killed)], kill.2 = true) ↔
      (∀ kill ∈ kills, kill.2 = true) ∧ killed = true := by
    simp only [List.forall_mem_append, List.forall_mem_singleton]
  rw [if_neg (by simp)]
  simp only [all]
  subst before
  by_cases none : kills = []
  · cases killed <;> simp [none, freeOnlineClients]
  · rw [if_neg none]
    by_cases worked : ∀ kill ∈ kills, kill.2 = true
    · rw [if_pos worked]
      cases killed with
      | false =>
        rw [if_neg (fun both => Bool.false_ne_true both.2)]
        rfl
      | true =>
        rw [if_pos ⟨worked, rfl⟩]
        rfl
    · rw [if_neg worked, if_neg (fun both => worked both.1)]
      cases killed <;> rfl

theorem Walking.turn {killed : Bool} (walking : Walking handlers w visited passed ahead)
    (stepped : step w (.turn killed) = some w') :
    ∃ visited passed ahead', Walking handlers w' visited passed ahead' ∧
      w'.place.turns ahead'.length < w.place.turns ahead.length ∧ w'.server = w.server := by
  simp only [step] at stepped
  rcases walking.place with here | ⟨front, entry, rfl, here⟩ | ⟨here, -⟩
  · rw [here] at stepped
    cases ahead with
    | nil =>
      cases stepped
      refine ⟨visited, passed, [], ⟨walking.agree, .inr (.inr ⟨rfl, rfl⟩), walking.met, walking.order,
        walking.kills, walking.acc⟩, ?_, rfl⟩
      simp [here, Place.turns]
    | cons entry ahead =>
      have member : entry ∈ passed ++ entry :: ahead := by simp
      obtain ⟨next, live⟩ := walking.agree.holds.cell_live member
      have stored := walking.agree.holds.stored entry member
      simp only [List.head?_cons, Option.map_some, deref_some live, deref_some stored, Option.some.injEq] at stepped
      subst stepped
      refine ⟨visited ++ [entry], passed ++ [entry], ahead, ⟨by simpa using walking.agree,
        .inr (.inl ⟨passed, entry, rfl, rfl⟩), walking.met.append (List.Sublist.refl _),
        by simpa using walking.order, by simp [walking.kills], ?_⟩, ?_, rfl⟩
      · exact freeOnlineClients_snoc walking.acc entry.content killed
      · simp only [here, Place.turns, List.length_cons]
        omega
  · obtain ⟨cell, live, -, next⟩ := next_of_passed walking.agree.holds
    rw [here] at stepped
    simp only [deref_some live, Option.some.injEq] at stepped
    subst stepped
    refine ⟨visited, _, ahead, ⟨walking.agree, .inl (by rw [next]), walking.met, walking.order, walking.kills,
      walking.acc⟩, ?_, rfl⟩
    simp [here, Place.turns]
  · rw [here] at stepped
    cases stepped

/-- An entry ahead goes, which is not the one to be visited next. -/
theorem Walking.dropAhead {server : Server} {mid after : List (Entry ShmRequest)} {entry : Entry ShmRequest}
    (walking : Walking handlers w visited passed (mid ++ entry :: after))
    (apart : ¬ w.place.on entry.cell) (agree : InStep server (passed ++ (mid ++ after))) :
    Walking handlers { w with server := server } visited passed (mid ++ after) where
  agree := agree
  place := by
    rcases walking.place with here | before | ⟨-, ended⟩
    · cases mid with
      | nil => exact absurd (by rw [here]; rfl) apart
      | cons first mid => exact .inl here
    · exact .inr (.inl before)
    · simp at ended
  met := walking.met
  order := by
    refine List.Sublist.trans (List.Sublist.map _ ?_) walking.order
    exact (List.Sublist.refl _).append ((List.Sublist.refl _).append (List.sublist_cons_self ..))
  kills := walking.kills
  acc := walking.acc

/-- An entry that was passed goes, which is not the one whose link is still to be read. -/
theorem Walking.dropPassed {server : Server} {before mid : List (Entry ShmRequest)} {entry : Entry ShmRequest}
    (walking : Walking handlers w visited (before ++ entry :: mid) ahead)
    (apart : ¬ w.place.on entry.cell) (agree : InStep server (before ++ mid ++ ahead)) :
    Walking handlers { w with server := server } visited (before ++ mid) ahead where
  agree := agree
  place := by
    rcases walking.place with here | ⟨front, last, same, here⟩ | ended
    · exact .inl here
    · rcases List.eq_nil_or_concat mid with rfl | ⟨mid, last', rfl⟩
      · obtain ⟨-, rfl⟩ := List.append_inj' same rfl |>.imp_right List.singleton_inj.mp
        exact absurd (by rw [here]; rfl) apart
      · have lasts : [last'] = [last] := by
          rw [List.concat_eq_append, ← List.cons_append, ← List.append_assoc] at same
          exact (List.append_inj' same rfl).2
        obtain rfl := List.singleton_inj.mp lasts
        exact .inr (.inl ⟨before ++ mid, last', by simp, here⟩)
    · exact .inr (.inr ended)
  met := ((List.Sublist.refl _).append (List.sublist_cons_self ..)).trans walking.met
  order := walking.order
  kills := walking.kills
  acc := walking.acc

theorem Walking.finish {i : Nat} (walking : Walking handlers w visited passed ahead)
    (unshadowed : Unshadowed w (.finish i)) (elsewhere : Elsewhere w (.finish i)) (stepped : step w (.finish i) = some w') :
    ∃ visited passed ahead', Walking handlers w' visited passed ahead' ∧ ahead'.length ≤ ahead.length := by
  obtain ⟨server, finished, rfl⟩ := Option.map_eq_some_iff.mp stepped
  cases effect_of_step walking.agree finished with
  | broken shadowed _ => exact absurd unshadowed shadowed
  | kept _ removed entries' agree' =>
    obtain ⟨handler, entry, before, after, found, own, rep, rep'⟩ := removed
    obtain rfl := represents_unique agree'.holds rep'
    have apart : ¬ w.place.on entry.cell := by
      intro stands
      obtain ⟨next, live⟩ := rep.cell_live (show entry ∈ before ++ entry :: after by simp)
      exact elsewhere handler entry.cell _ found stands live (congrArg some own)
    rcases List.append_eq_append_iff.mp (represents_unique walking.agree.holds rep) with
      ⟨mid, rfl, rfl⟩ | ⟨mid, rfl, rest⟩
    · exact ⟨visited, passed, _, walking.dropAhead apart (by simpa using agree'), by simp⟩
    · cases mid with
      | nil =>
        obtain rfl : entry :: after = ahead := rest
        have walking' : Walking handlers w visited before ([] ++ entry :: after) := by simpa using walking
        exact ⟨visited, before, _, walking'.dropAhead apart agree', by simp⟩
      | cons first mid =>
        obtain ⟨rfl, rfl⟩ := List.cons.inj rest
        exact ⟨visited, _, ahead, walking.dropPassed apart (by simpa using agree'), Nat.le_refl _⟩

/-- A thread that ends is one live thread less, and the walk stays where it is. -/
theorem finish_step {i : Nat} (stepped : step w (.finish i) = some w') :
    w'.place = w.place ∧ w'.server.handlers.length + 1 = w.server.handlers.length := by
  obtain ⟨server, finished, rfl⟩ := Option.map_eq_some_iff.mp stepped
  refine ⟨rfl, ?_⟩
  simp only [ClientList.step] at finished
  split at finished
  case h_1 => cases finished
  case h_2 handler found =>
  split at finished
  case h_2 => cases finished
  case h_1 =>
  cases finished
  have inside := (List.getElem?_eq_some_iff.mp found).1
  show (w.server.handlers.eraseIdx i).length + 1 = _
  rw [List.length_eraseIdx_of_lt inside]
  omega

/-- A step of the walk is one less of those that are left, or a thread ends. -/
theorem walking_step (walking : Walking handlers w visited passed ahead) (unshadowed : Unshadowed w event)
    (elsewhere : Elsewhere w event) (stepped : step w event = some w') :
    ∃ visited passed ahead', Walking handlers w' visited passed ahead' ∧
      w'.place.turns ahead'.length + w'.server.handlers.length <
        w.place.turns ahead.length + w.server.handlers.length := by
  cases event with
  | turn killed =>
    obtain ⟨visited, passed, ahead', walking', fewer, same⟩ := walking.turn stepped
    exact ⟨visited, passed, ahead', walking', by rw [same]; omega⟩
  | finish i =>
    obtain ⟨visited, passed, ahead', walking', fewer⟩ := walking.finish unshadowed elsewhere stepped
    obtain ⟨same, ended⟩ := finish_step stepped
    have less := w.place.turns_mono fewer
    exact ⟨visited, passed, ahead', walking', by rw [same]; omega⟩

theorem walking_interrupted {s : Server} {entries : List (Entry ShmRequest)} (agree : InStep s entries) :
    Walking s.handlers (interrupted s) [] [] entries where
  agree := agree
  place := by
    refine .inl (congrArg Place.test ?_)
    have path := agree.holds.path
    cases entries with
    | nil => exact path
    | cons entry entries => exact path.1
  met := List.Sublist.refl _
  order := by rw [agree.served, List.nil_append]
  kills := rfl
  acc := rfl

/-! ## A freed cell -/

variable {l' : CList V} {elem : Addr} {r : Int}

theorem search_among {fuel : Nat} {prev cur : Option Addr} {i : Nat} {found : Found} {path : List Addr}
    (linked : Path Cell.next l.cells cur path none) (searched : search l elem fuel prev cur i = .ok (some found)) :
    found.addr ∈ path ∧ l.cells found.addr = some found.cell := by
  induction path generalizing fuel prev cur i with
  | nil =>
    obtain rfl : cur = none := linked
    cases fuel <;> cases searched
  | cons addr path ih =>
    obtain ⟨rfl, cell, live, rest⟩ := linked
    cases fuel with
    | zero => cases searched
    | succ fuel =>
      simp only [search, deref_some live] at searched
      split at searched
      case h_2 => cases searched
      case h_1 =>
      split at searched
      case isTrue =>
        cases searched
        exact ⟨List.mem_cons_self, live⟩
      case isFalse =>
        obtain ⟨among, present⟩ := ih rest searched
        exact ⟨List.mem_cons_of_mem _ among, present⟩

theorem deref_eq_ok {α : Type*} {heap : Heap α} {pointer : Option Addr} {addr : Addr} {object : α}
    (read : deref heap pointer = .ok (addr, object)) : heap addr = some object := by
  unfold deref at read
  split at read
  case h_1 => cases read
  case h_2 addr' =>
    split at read
    · cases read
    · next found =>
      cases read
      exact found

/-- Taking a cell out frees it, and brings no other back. -/
theorem unlink_cells {found : Found} (unlinked : unlink l found = .ok l') :
    l'.cells found.addr = none ∧ ∀ addr, l.cells addr = none → l'.cells addr = none := by
  have freed {heap : Heap Cell} {addr : Addr} (dead : heap addr = none) : heap.free found.addr addr = none := by
    by_cases same : addr = found.addr
    · rw [same, Heap.free_self]
    · rw [Heap.free_of_ne same, dead]
  unfold unlink at unlinked
  cases prev : found.prev with
  | none =>
    simp only [prev] at unlinked
    cases unlinked
    exact ⟨Heap.free_self, fun addr dead => freed dead⟩
  | some before =>
    simp only [prev] at unlinked
    cases read : deref l.cells (some before) with
    | error fault =>
      simp only [read] at unlinked
      cases unlinked
    | ok result =>
      obtain ⟨addr, old⟩ := result
      simp only [read] at unlinked
      cases unlinked
      refine ⟨Heap.free_self, fun other dead => freed ?_⟩
      have apart : other ≠ addr := by
        rintro rfl
        rw [deref_eq_ok read] at dead
        cases dead
      exact (Heap.write_of_ne apart).trans dead

theorem post_list {R : Type*} {r failed r' : R} (posted : post l r failed = (l', r')) :
    ∃ mutex, l' = { l with mutex := mutex } := by
  unfold post at posted
  split at posted <;> cases posted
  · exact ⟨_, rfl⟩
  · exact ⟨l.mutex, rfl⟩

theorem listRemove_dead {addr : Addr} (removed : listRemove l (some elem) false = .ok (l', r))
    (dead : l.cells addr = none) : l'.cells addr = none := by
  simp only [listRemove, Bool.false_eq_true, if_false] at removed
  split at removed
  case isTrue => cases removed
  case isFalse =>
  split at removed
  case h_1 => cases removed
  case h_2 =>
    obtain ⟨mutex, rfl⟩ := post_list (Except.ok.inj removed)
    exact dead
  case h_3 found searched =>
  split at removed
  case h_1 => cases removed
  case h_2 l₁ unlinked =>
  obtain ⟨mutex, rfl⟩ := post_list (Except.ok.inj removed)
  exact (unlink_cells unlinked).2 addr dead

theorem listRemove_frees (rep : Represents l entries) (removed : listRemove l (some elem) false = .ok (l', r)) :
    Represents l' entries ∨ ∃ entry ∈ entries, l'.cells entry.cell = none := by
  simp only [listRemove, Bool.false_eq_true, if_false] at removed
  split at removed
  case isTrue => cases removed
  case isFalse =>
  split at removed
  case h_1 => cases removed
  case h_2 =>
    obtain ⟨mutex, rfl⟩ := post_list (Except.ok.inj removed)
    exact .inl (rep.of_mutex mutex)
  case h_3 found searched =>
  split at removed
  case h_1 => cases removed
  case h_2 l₁ unlinked =>
  obtain ⟨mutex, rfl⟩ := post_list (Except.ok.inj removed)
  obtain ⟨entry, member, here⟩ := List.mem_map.mp (search_among (rep.of_mutex _).path searched).1
  exact .inr ⟨entry, member, here ▸ (unlink_cells unlinked).1⟩

/-! ## The walk and the threads -/

/-- The walk stands on a cell that has been freed, or has met one. -/
def Lost (w : Walk) : Prop :=
  w.place = .crashed ∨ ∃ addr, w.place.on addr ∧ w.server.clientList.cells addr = none

theorem finish_removes {s s' : Server} {i : Nat} (finished : ClientList.step s (.finish i) = some s') :
    ∃ handler r, s.handlers[i]? = some handler ∧
      listRemove s.clientList (some handler.req) false = .ok (s'.clientList, r) := by
  simp only [ClientList.step] at finished
  split at finished
  case h_1 => cases finished
  case h_2 handler found =>
  split at finished
  case h_2 => cases finished
  case h_1 clientList r removed =>
  cases finished
  exact ⟨handler, r, found, removed⟩

/-- The walk stands on a cell of the list. -/
theorem Walking.stands {addr : Addr} (walking : Walking handlers w visited passed ahead)
    (stands : w.place.on addr) : ∃ entry ∈ passed ++ ahead, entry.cell = addr := by
  rcases walking.place with here | ⟨front, entry, rfl, here⟩ | ⟨here, -⟩
  · rw [here] at stands
    cases ahead with
    | nil => exact stands.elim
    | cons entry ahead => exact ⟨entry, by simp, stands⟩
  · rw [here] at stands
    exact ⟨entry, by simp, stands⟩
  · rw [here] at stands
    exact stands.elim

/-- The cell that a removal takes out is freed. -/
theorem cell_freed {s s' : Server} {i : Nat} {before after : List (Entry ShmRequest)} {entry : Entry ShmRequest}
    (rep : Represents s.clientList (before ++ entry :: after)) (rep' : Represents s'.clientList (before ++ after))
    (finished : ClientList.step s (.finish i) = some s') : s'.clientList.cells entry.cell = none := by
  obtain ⟨handler, r, -, removed⟩ := finish_removes finished
  rcases listRemove_frees rep removed with same | ⟨other, member, freed⟩
  · have lengths := congrArg List.length (represents_unique same rep')
    simp at lengths
  · rcases List.mem_append.mp member with early | late
    · obtain ⟨next, live⟩ := rep'.cell_live (List.mem_append_left _ early)
      rw [freed] at live
      cases live
    · rcases List.mem_cons.mp late with rfl | late
      · exact freed
      · obtain ⟨next, live⟩ := rep'.cell_live (List.mem_append_right _ late)
        rw [freed] at live
        cases live

/-- The cell of the thread that ends is freed when the walk stands on it. -/
theorem Walking.lost {i : Nat} (walking : Walking handlers w visited passed ahead)
    (unshadowed : Unshadowed w (.finish i)) (touched : ¬ Elsewhere w (.finish i))
    (stepped : step w (.finish i) = some w') : Lost w' := by
  obtain ⟨server, finished, rfl⟩ := Option.map_eq_some_iff.mp stepped
  simp only [Elsewhere, not_forall, ne_eq, not_not] at touched
  obtain ⟨handler, addr, cell, found, stands, live, value⟩ := touched
  cases effect_of_step walking.agree finished with
  | broken shadowed _ => exact absurd unshadowed shadowed
  | kept _ removed entries' agree' =>
    obtain ⟨handler', entry, before, after, found', own, rep, rep'⟩ := removed
    obtain rfl : handler = handler' := Option.some.inj (found.symm.trans found')
    obtain ⟨here, member, rfl⟩ := walking.stands stands
    rw [represents_unique walking.agree.holds rep] at member
    have points := rep.points here member
    rw [live, Option.bind_some, value, Option.some.injEq, ← own] at points
    obtain rfl : entry = here := List.inj_on_of_nodup_map rep.valuesApart (by simp) member points
    exact .inr ⟨_, stands, cell_freed rep rep' finished⟩

/-- Nothing helps a walk that is lost: its next step is its last one. -/
theorem lost_step (lost : Lost w) (stepped : step w event = some w') :
    Lost w' ∧ w'.place.turns 0 + w'.server.handlers.length < w.place.turns 0 + w.server.handlers.length := by
  cases event with
  | turn killed =>
    rcases lost with here | ⟨addr, stands, dead⟩
    · simp [step, here] at stepped
    · have fault : deref w.server.clientList.cells (some addr) = .error .undefined := by simp [deref, dead]
      cases here : w.place with
      | test cell =>
        cases cell with
        | none => simp [here, Place.on] at stands
        | some cell =>
          obtain rfl : cell = addr := by simpa [here, Place.on] using stands
          simp only [step, here, fault, Option.some.injEq] at stepped
          subst stepped
          exact ⟨.inl rfl, by simp [Place.turns]⟩
      | next cell =>
        obtain rfl : cell = addr := by simpa [here, Place.on] using stands
        simp only [step, here, fault, Option.some.injEq] at stepped
        subst stepped
        exact ⟨.inl rfl, by simp [Place.turns]⟩
      | done | crashed => simp [here, Place.on] at stands
  | finish i =>
    obtain ⟨same, ended⟩ := finish_step stepped
    refine ⟨?_, by rw [same]; omega⟩
    obtain ⟨server, finished, rfl⟩ := Option.map_eq_some_iff.mp stepped
    obtain ⟨handler, r, -, removed⟩ := finish_removes finished
    rcases lost with here | ⟨addr, stands, dead⟩
    · exact .inl here
    · exact .inr ⟨addr, stands, listRemove_dead removed dead⟩

theorem lost_run (lost : Lost w) (ran : run step w events = some w') :
    Lost w' ∧ events.length ≤ w.place.turns 0 + w.server.handlers.length :=
  ⟨run_invariant (fun _ _ _ lost stepped => (lost_step lost stepped).1) lost ran,
    @length_le_of_descent Walk Event step Lost (fun w => w.place.turns 0 + w.server.handlers.length)
      (fun _ _ _ => lost_step) _ _ _ lost ran⟩

theorem done_not_lost (ended : w.place = .done) : ¬ Lost w := by
  rintro (crashed | ⟨addr, stands, -⟩)
  · rw [ended] at crashed
    cases crashed
  · rw [ended] at stands
    exact stands

/-- A run keeps the walk in step with the list as long as no thread ends where it stands,
and it is no longer than the walk and the threads allow. -/
theorem walking_or_lost (walking : Walking handlers w visited passed ahead)
    (unshadowed : Along step Unshadowed w events) (ran : run step w events = some w') :
    (Along step Elsewhere w events ∧ (∃ visited passed ahead, Walking handlers w' visited passed ahead) ∨
      ¬ Along step Elsewhere w events ∧ Lost w') ∧
      events.length ≤ w.place.turns ahead.length + w.server.handlers.length := by
  induction events generalizing w visited passed ahead with
  | nil =>
    cases ran
    exact ⟨.inl ⟨trivial, visited, passed, ahead, walking⟩, Nat.zero_le _⟩
  | cons event events ih =>
    obtain ⟨middle, first, rest⟩ := run_cons_eq_some.mp ran
    have onward : (∀ next, step w event = some next → Along step Elsewhere next events) ↔
        Along step Elsewhere middle events :=
      ⟨fun along => along middle first, fun along _ reached => Option.some.inj (first.symm.trans reached) ▸ along⟩
    rw [Along, onward]
    by_cases elsewhere : Elsewhere w event
    · obtain ⟨visited, passed, ahead', walking', fewer⟩ := walking_step walking unshadowed.1 elsewhere first
      obtain ⟨which, bound⟩ := ih walking' (unshadowed.2 middle first) rest
      refine ⟨?_, by rw [List.length_cons]; omega⟩
      rcases which with ⟨along, walks⟩ | ⟨broken, lost⟩
      · exact .inl ⟨⟨elsewhere, along⟩, walks⟩
      · exact .inr ⟨fun both => broken both.2, lost⟩
    · cases event with
      | turn killed => exact absurd trivial elsewhere
      | finish i =>
        obtain ⟨lost, bound⟩ := lost_run (walking.lost unshadowed.1 elsewhere first) rest
        obtain ⟨same, ended⟩ := finish_step first
        refine ⟨.inr ⟨fun both => elsewhere both.1, lost⟩, ?_⟩
        have less := w.place.turns_mono (Nat.zero_le ahead.length)
        rw [same] at bound
        rw [List.length_cons]
        omega

theorem inStep_of_run {past : List ClientList.Event} {s : Server}
    (ran : run ClientList.step ClientList.start past = some s)
    (unshadowed : Along ClientList.step ClientList.Unshadowed ClientList.start past) :
    ∃ entries, InStep s entries := by
  refine run_invariant_along (motive := fun s => ∃ entries, InStep s entries) ?_ ⟨[], ClientList.inStep_start⟩
    unshadowed ran
  rintro before event after ⟨entries, agree⟩ unshadowed stepped
  cases effect_of_step agree stepped with
  | kept _ _ entries' agree' => exact ⟨entries', agree'⟩
  | broken shadowed _ => exact absurd unshadowed shadowed

/-- **Who is told that the server stops.** A signal interrupts the main loop after any run
of connections and session ends, and `sig_free` walks over the list while threads go on
ending, none in the shadow of an older one with its pid. A run has three steps at most for
each client and one more, and the walk can take its next step until it is at its end or has
read a freed cell. It comes to its end exactly if no thread ended while the walk stood on
its entry; then no client was sent two signals, every client whose thread still lives was
sent one, and the result is negative exactly if one of the `kill` failed. -/
theorem walk_reaches_everyone_iff {past : List ClientList.Event} {s : Server}
    (served : run ClientList.step ClientList.start past = some s)
    (mirrored : Along ClientList.step ClientList.Unshadowed ClientList.start past)
    (ran : run step (interrupted s) events = some w)
    (unshadowed : Along step Unshadowed (interrupted s) events) :
    events.length ≤ 3 * s.handlers.length + 1 ∧
      (w.place ≠ .done → w.place ≠ .crashed → ∀ killed, (step w (.turn killed)).isSome = true) ∧
      (w.place = .done ∨ w.place = .crashed →
        (w.place = .done ↔ Along step Elsewhere (interrupted s) events)) ∧
      (w.place = .done → ∃ visited, visited.Sublist s.handlers ∧ w.server.handlers.Sublist visited ∧
        w.kills.map Prod.fst = visited.map Handler.given ∧
        w.acc = if w.kills = [] then 0 else if ∀ kill ∈ w.kills, kill.2 = true then 1 else -1) := by
  obtain ⟨entries, agree⟩ := inStep_of_run served mirrored
  obtain ⟨which, bound⟩ := walking_or_lost (walking_interrupted agree) unshadowed ran
  have length : s.handlers.length = entries.length := by rw [agree.served, List.length_map]
  refine ⟨?_, fun under safe killed => turn_possible w killed under safe, ?_⟩
  · have most : events.length ≤ 2 * entries.length + 1 + s.handlers.length := bound
    omega
  rcases which with ⟨along, visited, passed, ahead, walking⟩ | ⟨broken, lost⟩
  · have ended (finished : w.place = .done ∨ w.place = .crashed) : w.place = .done ∧ ahead = [] := by
      rcases walking.place with here | ⟨_, _, -, here⟩ | both
      · simp [here] at finished
      · simp [here] at finished
      · exact both
    refine ⟨fun finished => iff_of_true (ended finished).1 along, fun done => ?_⟩
    obtain ⟨-, rfl⟩ := ended (.inl done)
    refine ⟨visited.map handlerOf, ?_, ?_, ?_, walking.acc⟩
    · simpa using walking.order
    · have handlers := walking.agree.served
      rw [List.append_nil] at handlers
      rw [handlers]
      exact walking.met.map handlerOf
    · rw [walking.kills, List.map_map]
      rfl
  · have crashed : w.place ≠ .done := fun ended => done_not_lost ended lost
    exact ⟨fun _ => iff_of_false crashed broken, fun ended => absurd ended crashed⟩

/-- Two clients are connected. -/
def twoClients : List ClientList.Event :=
  [.connect (ClientList.clientOf 7) ⟨some 10, some 20, true, true⟩,
   .connect (ClientList.clientOf 8) ⟨some 11, some 21, true, true⟩]

/-- The older thread ends when the walk is already at the younger one. -/
def lateEnd : List Event := [.turn true, .turn true, .finish 0, .turn true, .turn true, .turn true]

theorem walk_reaches_everyone_iff_late : ∃ s w, run ClientList.step ClientList.start twoClients = some s ∧
    run step (interrupted s) lateEnd = some w ∧ w.place = .done ∧
      ∃ visited, visited.Sublist s.handlers ∧ w.server.handlers.Sublist visited := by
  have computed : ((run ClientList.step ClientList.start twoClients).bind fun s =>
      run step (interrupted s) lateEnd).map Walk.place = some .done := by decide +kernel
  obtain ⟨w, both, ended⟩ := Option.map_eq_some_iff.mp computed
  obtain ⟨s, served, ran⟩ := Option.bind_eq_some_iff.mp both
  have mirrored : Along ClientList.step ClientList.Unshadowed ClientList.start twoClients :=
    ⟨.inl rfl, fun _ _ => ⟨.inl rfl, fun _ _ => trivial⟩⟩
  have unshadowed : Along step Unshadowed (interrupted s) lateEnd := by
    refine ⟨trivial, fun _ _ => ⟨trivial, fun _ _ => ⟨fun handler _ j older early => ?_, fun _ _ =>
      ⟨trivial, fun _ _ => ⟨trivial, fun _ _ => ⟨trivial, fun _ _ => trivial⟩⟩⟩⟩⟩⟩
    exact absurd early (Nat.not_lt_zero j)
  obtain ⟨-, -, -, told⟩ := walk_reaches_everyone_iff served mirrored ran unshadowed
  obtain ⟨visited, among, all, -⟩ := told ended
  exact ⟨s, w, served, ran, ended, visited, among, all⟩

end LocalServer.ListWalk
