import LocalServer.Lib.Simulation

/-! A service that lets its visitors in one at a time. They wait in a room of bounded
size, are let in from its front or turned away there, and leave when they like; once
the door is closed nobody comes in any more. -/
namespace LocalServer.Admission
open Runs

variable {α : Type*}

/-- Those who wait and those who are inside, both in the order of their arrival. -/
@[ext]
structure Service (α : Type*) where
  capacity : Nat
  waiting : List α
  inside : List α
  isOpen : Bool
  deriving DecidableEq

inductive Action (α : Type*) where
  | arrive (x : α)
  /-- The first of the waiting room is let in; the door may close behind him. -/
  | accept (x : α) (staysOpen : Bool)
  /-- He is turned away, and the door closes. -/
  | refuse (x : α)
  | close
  /-- The visitor at this place leaves. -/
  | leave (i : Nat)
  deriving DecidableEq

variable [DecidableEq α]

def step (s : Service α) : Action α → Option (Service α)
  | .arrive x =>
    if s.waiting.length < s.capacity then some { s with waiting := s.waiting ++ [x] } else none
  | .accept x staysOpen =>
    if s.isOpen ∧ s.waiting.head? = some x then
      some { s with waiting := s.waiting.tail, inside := s.inside ++ [x], isOpen := staysOpen }
    else none
  | .refuse x =>
    if s.isOpen ∧ s.waiting.head? = some x then
      some { s with waiting := s.waiting.tail, isOpen := false }
    else none
  | .close => some { s with isOpen := false }
  | .leave i => if i < s.inside.length then some { s with inside := s.inside.eraseIdx i } else none

/-- An empty service with an open door. -/
def new (capacity : Nat) : Service α := ⟨capacity, [], [], true⟩

/-- Those who arrived, those who were let in, and those who were turned away. -/
def arrivals (actions : List (Action α)) : List α :=
  actions.filterMap fun | .arrive x => some x | _ => none

def admissions (actions : List (Action α)) : List α :=
  actions.filterMap fun | .accept x _ => some x | _ => none

def refusals (actions : List (Action α)) : List α :=
  actions.filterMap fun | .refuse x => some x | _ => none

omit [DecidableEq α] in
@[simp] theorem arrivals_append (first second : List (Action α)) :
    arrivals (first ++ second) = arrivals first ++ arrivals second := List.filterMap_append

omit [DecidableEq α] in
@[simp] theorem admissions_append (first second : List (Action α)) :
    admissions (first ++ second) = admissions first ++ admissions second := List.filterMap_append

omit [DecidableEq α] in
@[simp] theorem refusals_append (first second : List (Action α)) :
    refusals (first ++ second) = refusals first ++ refusals second := List.filterMap_append

/-- The books of a service: who arrived was let in, turned away or still waits, in
this order, and who is inside was let in. -/
structure Books (past : List (Action α)) (s : Service α) : Prop where
  order : arrivals past = admissions past ++ refusals past ++ s.waiting
  room : s.waiting.length ≤ s.capacity
  inside : s.inside.Sublist (admissions past)
  once : s.isOpen = true → refusals past = []
  atMostOne : (refusals past).length ≤ 1

variable {s s' : Service α} {past : List (Action α)} {action : Action α} {actions : List (Action α)}

omit [DecidableEq α] in
theorem books_new (capacity : Nat) : Books (α := α) [] (new capacity) :=
  ⟨rfl, Nat.zero_le _, List.Sublist.refl _, fun _ => rfl, Nat.zero_le _⟩

omit [DecidableEq α] in
theorem eq_cons_of_head {x : α} {xs : List α} (first : xs.head? = some x) : xs = x :: xs.tail :=
  (List.cons_head?_tail (Option.mem_def.mpr first)).symm

theorem Books.step (books : Books past s) (stepped : Admission.step s action = some s') :
    Books (past ++ [action]) s' := by
  obtain ⟨order, room, inside, once, atMostOne⟩ := books
  cases action with
  | arrive x =>
    simp only [Admission.step] at stepped
    split at stepped
    case isFalse => cases stepped
    case isTrue free =>
    cases stepped
    refine ⟨?_, by simpa using free, ?_, fun isOpen => ?_, ?_⟩
    · rw [arrivals_append, admissions_append, refusals_append]
      change arrivals past ++ [x] = admissions past ++ [] ++ (refusals past ++ []) ++ (s.waiting ++ [x])
      rw [List.append_nil, List.append_nil, ← List.append_assoc, ← order]
    · rw [admissions_append]
      exact inside.trans (List.sublist_append_left ..)
    · rw [refusals_append, once isOpen]
      rfl
    · rw [refusals_append]
      simpa [refusals] using atMostOne
  | accept x staysOpen =>
    simp only [Admission.step] at stepped
    split at stepped
    case isFalse => cases stepped
    case isTrue first =>
    cases stepped
    have none := once first.1
    rw [eq_cons_of_head first.2] at order room
    refine ⟨?_, (Nat.le_succ _).trans room, ?_, fun _ => ?_, ?_⟩
    · rw [arrivals_append, admissions_append, refusals_append, none]
      change arrivals past ++ [] = admissions past ++ [x] ++ ([] ++ []) ++ s.waiting.tail
      rw [order, none]
      simp
    · rw [admissions_append]
      exact inside.append (List.Sublist.refl [x])
    · rw [refusals_append, none]
      rfl
    · rw [refusals_append, none]
      exact Nat.zero_le 1
  | refuse x =>
    simp only [Admission.step] at stepped
    split at stepped
    case isFalse => cases stepped
    case isTrue first =>
    cases stepped
    have none := once first.1
    rw [eq_cons_of_head first.2] at order room
    refine ⟨?_, (Nat.le_succ _).trans room, ?_, nofun, ?_⟩
    · rw [arrivals_append, admissions_append, refusals_append, none]
      change arrivals past ++ [] = admissions past ++ [] ++ ([] ++ [x]) ++ s.waiting.tail
      rw [order, none]
      simp
    · rw [admissions_append]
      exact inside.trans (List.sublist_append_left ..)
    · rw [refusals_append, none]
      exact Nat.le_refl 1
  | close =>
    cases stepped
    refine ⟨?_, room, ?_, nofun, ?_⟩
    · rw [arrivals_append, admissions_append, refusals_append]
      change arrivals past ++ [] = admissions past ++ [] ++ (refusals past ++ []) ++ s.waiting
      rw [List.append_nil, List.append_nil, List.append_nil, order]
    · rw [admissions_append]
      exact inside.trans (List.sublist_append_left ..)
    · rw [refusals_append]
      simpa [refusals] using atMostOne
  | leave i =>
    simp only [Admission.step] at stepped
    split at stepped
    case isFalse => cases stepped
    case isTrue =>
    cases stepped
    refine ⟨?_, room, ?_, fun isOpen => ?_, ?_⟩
    · rw [arrivals_append, admissions_append, refusals_append]
      change arrivals past ++ [] = admissions past ++ [] ++ (refusals past ++ []) ++ s.waiting
      rw [List.append_nil, List.append_nil, List.append_nil, order]
    · rw [admissions_append]
      exact ((List.eraseIdx_sublist _ _).trans inside).trans (List.sublist_append_left ..)
    · rw [refusals_append, once isOpen]
      rfl
    · rw [refusals_append]
      simpa [refusals] using atMostOne

theorem books_of_run {capacity : Nat} (ran : run step (new capacity) actions = some s) : Books actions s :=
  run_history (fun _ _ _ _ books stepped => books.step stepped) (books_new capacity) ran

/-- Behind a closed door nobody is let in or turned away. -/
theorem closed_step (closed : s.isOpen = false) (stepped : step s action = some s') :
    s'.isOpen = false ∧ admissions [action] = [] ∧ refusals [action] = [] ∧ s'.inside.Sublist s.inside := by
  cases action with
  | arrive x =>
    simp only [step] at stepped
    split at stepped <;> cases stepped
    exact ⟨closed, rfl, rfl, List.Sublist.refl _⟩
  | accept x staysOpen | refuse x => simp [step, closed] at stepped
  | close =>
    cases stepped
    exact ⟨rfl, rfl, rfl, List.Sublist.refl _⟩
  | leave i =>
    simp only [step] at stepped
    split at stepped <;> cases stepped
    exact ⟨closed, rfl, rfl, List.eraseIdx_sublist ..⟩

theorem closed_run (closed : s.isOpen = false) (ran : run step s actions = some s') :
    s'.isOpen = false ∧ admissions actions = [] ∧ refusals actions = [] ∧ s'.inside.Sublist s.inside := by
  refine run_history (motive := fun past state => state.isOpen = false ∧ admissions past = [] ∧
    refusals past = [] ∧ state.inside.Sublist s.inside) (fun past before action after held stepped => ?_)
    ⟨closed, rfl, rfl, List.Sublist.refl _⟩ ran
  obtain ⟨shut, noAdmission, noRefusal, inside⟩ := held
  obtain ⟨still, none, none', fewer⟩ := closed_step shut stepped
  rw [admissions_append, refusals_append, noAdmission, noRefusal, none, none']
  exact ⟨still, rfl, rfl, fewer.trans inside⟩

end LocalServer.Admission
