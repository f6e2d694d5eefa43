import Mathlib

/-! Runs of a partial step function. A run replays a list of events; it exists
when every step is enabled in the state where it is taken. The threads of a
concurrent system are kept in a list and counted with a weight, so that an
accounting invariant only looks at the thread that moves. -/
namespace LocalServer.Runs

variable {S E : Type*} {step : S → E → Option S}

/-- The state reached by the events, when each of them is enabled in turn. -/
def run (step : S → E → Option S) : S → List E → Option S
  | state, [] => some state
  | state, event :: events => (step state event).bind fun next => run step next events

@[simp] theorem run_nil (state : S) : run step state [] = some state := rfl

@[simp] theorem run_cons (state : S) (event : E) (events : List E) :
    run step state (event :: events) = (step state event).bind (run step · events) := rfl

theorem run_cons_eq_some {state final : S} {event : E} {events : List E} :
    run step state (event :: events) = some final ↔
      ∃ middle, step state event = some middle ∧ run step middle events = some final := by
  simp [Option.bind_eq_some_iff]

theorem run_append (state : S) (first second : List E) :
    run step state (first ++ second) = (run step state first).bind (run step · second) := by
  induction first generalizing state with
  | nil => rfl
  | cons event first ih => simp [ih, Option.bind_assoc]

theorem run_append_eq_some {state final : S} {first second : List E} :
    run step state (first ++ second) = some final ↔
      ∃ middle, run step state first = some middle ∧ run step middle second = some final := by
  rw [run_append, Option.bind_eq_some_iff]

/-- What every step preserves holds at the end of every run. -/
theorem run_invariant {motive : S → Prop}
    (preserved : ∀ before event after, motive before → step before event = some after → motive after)
    {start final : S} {events : List E} (initial : motive start)
    (ran : run step start events = some final) : motive final := by
  induction events generalizing start with
  | nil => cases ran; exact initial
  | cons event events ih =>
    obtain ⟨middle, first, rest⟩ := run_cons_eq_some.mp ran
    exact ih (preserved start event middle initial first) rest

/-- Every step of the run meets a condition on the state it is taken in. -/
def Along (step : S → E → Option S) (condition : S → E → Prop) : S → List E → Prop
  | _, [] => True
  | state, event :: events =>
    condition state event ∧ ∀ next, step state event = some next → Along step condition next events

/-- A condition on the steps alone can be checked beforehand. -/
theorem along_of_forall {condition : S → E → Prop} {start : S} {events : List E}
    (met : ∀ state, ∀ event ∈ events, condition state event) : Along step condition start events := by
  induction events generalizing start with
  | nil => trivial
  | cons event events ih =>
    exact ⟨met start event (by simp), fun _ _ => ih fun state event member => met state event (by simp [member])⟩

/-- A run whose steps meet a condition, put together from its first step and the rest. -/
theorem run_along_cons {condition : S → E → Prop} {state next final : S} {event : E} {events : List E}
    (met : condition state event) (stepped : step state event = some next)
    (rest : run step next events = some final ∧ Along step condition next events) :
    run step state (event :: events) = some final ∧ Along step condition state (event :: events) := by
  refine ⟨run_cons_eq_some.mpr ⟨next, stepped, rest.1⟩, met, ?_⟩
  intro other reached
  obtain rfl : next = other := Option.some.inj (stepped.symm.trans reached)
  exact rest.2

theorem Along.and {first second : S → E → Prop} {state : S} {events : List E}
    (left : Along step first state events) (right : Along step second state events) :
    Along step (fun state event => first state event ∧ second state event) state events := by
  induction events generalizing state with
  | nil => trivial
  | cons event events ih =>
    exact ⟨⟨left.1, right.1⟩, fun next reached => ih (left.2 next reached) (right.2 next reached)⟩

/-- What every step meeting a condition preserves, of the events taken so far and the state. -/
theorem run_history_along {motive : List E → S → Prop} {condition : S → E → Prop}
    (preserved : ∀ past before event after, motive past before → condition before event →
      step before event = some after → motive (past ++ [event]) after)
    {start final : S} {past events : List E} (initial : motive past start)
    (along : Along step condition start events)
    (ran : run step start events = some final) : motive (past ++ events) final := by
  induction events generalizing start past with
  | nil => cases ran; simpa using initial
  | cons event events ih =>
    obtain ⟨middle, first, rest⟩ := run_cons_eq_some.mp ran
    simpa using ih (preserved past start event middle initial along.1 first)
      (along.2 middle first) rest

/-- The same for what every step preserves. -/
theorem run_history {motive : List E → S → Prop}
    (preserved : ∀ past before event after, motive past before → step before event = some after →
      motive (past ++ [event]) after)
    {start final : S} {events : List E} (initial : motive [] start)
    (ran : run step start events = some final) : motive events final := by
  have along : Along step (fun _ _ => True) start events := along_of_forall fun _ _ _ => trivial
  have held := run_history_along (fun past before event after held _ stepped =>
    preserved past before event after held stepped) initial along ran
  simpa using held

/-- Whether a given run meets a condition can be computed. -/
instance decidableAlong (step : S → E → Option S) (condition : S → E → Prop)
    [∀ state event, Decidable (condition state event)] :
    ∀ state events, Decidable (Along step condition state events)
  | _, [] => isTrue trivial
  | state, event :: events =>
    haveI : Decidable (∀ next, step state event = some next → Along step condition next events) :=
      match step state event with
      | none => isTrue fun _ reached => nomatch reached
      | some next =>
        haveI := decidableAlong step condition next events
        decidable_of_iff (Along step condition next events)
          ⟨fun along _ reached => Option.some.inj reached ▸ along, fun along => along next rfl⟩
    inferInstanceAs (Decidable (_ ∧ _))

/-- An invariant that only the steps meeting the condition preserve. -/
theorem run_invariant_along {motive : S → Prop} {condition : S → E → Prop}
    (preserved : ∀ before event after, motive before → condition before event →
      step before event = some after → motive after)
    {start final : S} {events : List E} (initial : motive start)
    (along : Along step condition start events)
    (ran : run step start events = some final) : motive final := by
  induction events generalizing start with
  | nil => cases ran; exact initial
  | cons event events ih =>
    obtain ⟨middle, first, rest⟩ := run_cons_eq_some.mp ran
    exact ih (preserved start event middle initial along.1 first) (along.2 middle first) rest

/-- A run that breaks a condition has a first part that leads to the step that breaks it. -/
theorem split_of_not_along {condition : S → E → Prop} {start final : S} {events : List E}
    (broken : ¬ Along step condition start events) (ran : run step start events = some final) :
    ∃ past event later before after, events = past ++ event :: later ∧
      run step start past = some before ∧ ¬ condition before event ∧
      step before event = some after ∧ run step after later = some final := by
  induction events generalizing start with
  | nil => exact absurd trivial broken
  | cons event events ih =>
    obtain ⟨middle, first, rest⟩ := run_cons_eq_some.mp ran
    by_cases met : condition start event
    · have further : ¬ Along step condition middle events := by
        intro along
        apply broken
        refine ⟨met, ?_⟩
        intro next reached
        obtain rfl : middle = next := Option.some.inj (first.symm.trans reached)
        exact along
      obtain ⟨past, later', events', before, after, rfl, reached, rest⟩ := ih further rest
      exact ⟨event :: past, later', events', before, after, rfl,
        run_cons_eq_some.mpr ⟨middle, first, reached⟩, rest⟩
    · exact ⟨[], event, events, start, middle, rfl, rfl, met, first, rest⟩

/-- A mark that exactly the steps breaking a condition set tells whether a run met it. -/
theorem mark_iff_not_along {mark : S → Prop} {condition : S → E → Prop}
    (marks : ∀ before event after, step before event = some after →
      (mark after ↔ mark before ∨ ¬ condition before event))
    {start final : S} {events : List E} (ran : run step start events = some final) :
    mark final ↔ mark start ∨ ¬ Along step condition start events := by
  induction events generalizing start with
  | nil =>
    cases ran
    simp [Along]
  | cons event events ih =>
    obtain ⟨middle, first, rest⟩ := run_cons_eq_some.mp ran
    have onward : (∀ next, step start event = some next → Along step condition next events) ↔
        Along step condition middle events :=
      ⟨fun along => along middle first, fun along _ reached => Option.some.inj (first.symm.trans reached) ▸ along⟩
    rw [ih rest, marks start event middle first, Along, onward]
    tauto

/-- The same for a mark that is only kept as long as something lives, which it then did
from the start. -/
theorem mark_iff_not_along_alive {mark alive : S → Prop} {condition : S → E → Prop}
    (lived : ∀ before event after, step before event = some after → alive after → alive before)
    (marks : ∀ before event after, step before event = some after → alive after →
      (mark after ↔ mark before ∨ ¬ condition before event))
    {start final : S} {events : List E} (lives : alive final) (ran : run step start events = some final) :
    alive start ∧ (mark final ↔ mark start ∨ ¬ Along step condition start events) := by
  induction events generalizing start with
  | nil =>
    cases ran
    exact ⟨lives, by simp [Along]⟩
  | cons event events ih =>
    obtain ⟨middle, first, rest⟩ := run_cons_eq_some.mp ran
    obtain ⟨living, marked⟩ := ih rest
    have onward : (∀ next, step start event = some next → Along step condition next events) ↔
        Along step condition middle events :=
      ⟨fun along => along middle first, fun along _ reached => Option.some.inj (first.symm.trans reached) ▸ along⟩
    refine ⟨lived start event middle first living, ?_⟩
    rw [marked, marks start event middle first living, Along, onward]
    tauto

/-! ## Runs that end -/

/-- No event is enabled. -/
def Stuck (step : S → E → Option S) (state : S) : Prop := ∀ event, step state event = none

/-- No run is longer than a rank that every step lowers. -/
theorem length_le_of_descent {motive : S → Prop} {rank : S → Nat}
    (preserved : ∀ before event after, motive before → step before event = some after →
      motive after ∧ rank after < rank before)
    {start final : S} {events : List E} (initial : motive start)
    (ran : run step start events = some final) : events.length ≤ rank start := by
  induction events generalizing start with
  | nil => exact Nat.zero_le _
  | cons event events ih =>
    obtain ⟨middle, first, rest⟩ := run_cons_eq_some.mp ran
    obtain ⟨held, lower⟩ := preserved start event middle initial first
    exact (Nat.succ_le_succ (ih held rest)).trans lower

/-- Where there always is a next step there are runs of every length. -/
theorem long_of_progress {motive : S → Prop}
    (preserved : ∀ before event after, motive before → step before event = some after → motive after)
    (progress : ∀ state, motive state → ¬ Stuck step state) {start : S} (initial : motive start)
    (n : Nat) : ∃ events final, events.length = n ∧ run step start events = some final := by
  induction n generalizing start with
  | zero => exact ⟨[], start, rfl, rfl⟩
  | succ n ih =>
    obtain ⟨event, enabled⟩ := not_forall.mp (progress start initial)
    obtain ⟨next, stepped⟩ := Option.ne_none_iff_exists'.mp enabled
    obtain ⟨events, final, length, ran⟩ := ih (preserved start event next initial stepped)
    exact ⟨event :: events, final, by rw [List.length_cons, length],
      run_cons_eq_some.mpr ⟨next, stepped, ran⟩⟩

/-- Where there are no endless runs one of them comes to an end. -/
theorem exists_stuck {start : S} {most : Nat}
    (bounded : ∀ events final, run step start events = some final → events.length ≤ most) :
    ∃ events final, run step start events = some final ∧ Stuck step final := by
  by_contra endless
  have progress : ∀ state, (∃ events, run step start events = some state) → ¬ Stuck step state :=
    fun state ⟨events, ran⟩ stuck => endless ⟨events, state, ran, stuck⟩
  have goes : ∀ before event after, (∃ events, run step start events = some before) →
      step before event = some after → ∃ events, run step start events = some after :=
    fun before event after ⟨events, ran⟩ stepped => ⟨events ++ [event],
      run_append_eq_some.mpr ⟨before, ran, run_cons_eq_some.mpr ⟨after, stepped, rfl⟩⟩⟩
  obtain ⟨events, final, length, ran⟩ := long_of_progress goes progress ⟨[], rfl⟩ (most + 1)
  have bound := bounded events final ran
  omega

/-! ## Counting threads -/

variable {T : Type*}

/-- The sum of the weights of the threads. -/
def tally (weight : T → Nat) (threads : List T) : Nat := (threads.map weight).sum

@[simp] theorem tally_nil (weight : T → Nat) : tally weight [] = 0 := rfl

@[simp] theorem tally_cons (weight : T → Nat) (thread : T) (threads : List T) :
    tally weight (thread :: threads) = weight thread + tally weight threads := by
  simp [tally]

@[simp] theorem tally_append (weight : T → Nat) (first second : List T) :
    tally weight (first ++ second) = tally weight first + tally weight second := by
  simp [tally]

/-- Moving one thread changes a tally by that thread's weight alone. -/
theorem tally_set (weight : T → Nat) {threads : List T} {i : Nat} {before : T} (after : T)
    (found : threads[i]? = some before) :
    tally weight (threads.set i after) + weight before = tally weight threads + weight after := by
  induction threads generalizing i with
  | nil => simp at found
  | cons thread threads ih =>
    cases i with
    | zero => simp at found; subst found; simp; omega
    | succ i =>
      have rest := ih (by simpa using found)
      simp only [List.set_cons_succ, tally_cons]
      omega

theorem le_tally (weight : T → Nat) {threads : List T} {i : Nat} {thread : T}
    (found : threads[i]? = some thread) : weight thread ≤ tally weight threads := by
  induction threads generalizing i with
  | nil => simp at found
  | cons head threads ih =>
    cases i with
    | zero => simp at found; subst found; simp
    | succ i =>
      have rest := ih (by simpa using found)
      simp only [tally_cons]
      omega

theorem tally_eq_zero {weight : T → Nat} {threads : List T}
    (idle : ∀ thread ∈ threads, weight thread = 0) : tally weight threads = 0 := by
  induction threads with
  | nil => rfl
  | cons thread threads ih =>
    have head := idle thread (by simp)
    have rest := ih fun other member => idle other (by simp [member])
    simp only [tally_cons]
    omega

theorem exists_of_tally_pos {weight : T → Nat} {threads : List T} (busy : 0 < tally weight threads) :
    ∃ (i : Nat) (thread : T), threads[i]? = some thread ∧ 0 < weight thread := by
  by_contra none
  refine busy.ne' (tally_eq_zero fun thread member => ?_)
  obtain ⟨i, found⟩ := List.mem_iff_getElem?.mp member
  by_contra positive
  exact none ⟨i, thread, found, Nat.pos_of_ne_zero positive⟩

theorem tally_eq_add {whole first second : T → Nat} {threads : List T}
    (split : ∀ thread ∈ threads, whole thread = first thread + second thread) :
    tally whole threads = tally first threads + tally second threads := by
  induction threads with
  | nil => rfl
  | cons thread threads ih =>
    have head := split thread (by simp)
    have rest := ih fun other member => split other (by simp [member])
    simp only [tally_cons]
    omega

theorem tally_le_tally {first second : T → Nat} (threads : List T)
    (below : ∀ thread, first thread ≤ second thread) :
    tally first threads ≤ tally second threads := by
  induction threads with
  | nil => simp
  | cons thread threads ih => simp only [tally_cons]; have := below thread; omega

/-- A thread that carries a whole tally alone carries every smaller one alone. -/
theorem tally_alone {whole part : T → Nat} {threads : List T} {i : Nat} {thread : T}
    (below : ∀ thread, part thread ≤ whole thread) (found : threads[i]? = some thread)
    (alone : tally whole threads = whole thread) : tally part threads = part thread := by
  induction threads generalizing i with
  | nil => simp at found
  | cons head threads ih =>
    have smaller := tally_le_tally threads below
    have here := below head
    cases i with
    | zero =>
      simp only [List.getElem?_cons_zero, Option.some.injEq] at found
      subst found
      simp only [tally_cons] at alone ⊢
      omega
    | succ i =>
      have found : threads[i]? = some thread := by simpa using found
      have inRest := le_tally whole found
      simp only [tally_cons] at alone ⊢
      have rest := ih found (by omega)
      omega

/-! ## Lists in which one element changes or comes in -/

theorem cases_set {xs : List T} {i j : Nat} {x y : T}
    (found : (xs.set i x)[j]? = some y) : j = i ∧ y = x ∨ j ≠ i ∧ xs[j]? = some y := by
  by_cases same : j = i
  · subst same
    rw [List.getElem?_set_self'] at found
    obtain ⟨_, _, rfl⟩ := Option.map_eq_some_iff.mp found
    exact .inl ⟨rfl, rfl⟩
  · rw [List.getElem?_set_ne (Ne.symm same)] at found
    exact .inr ⟨same, found⟩

theorem cases_snoc {xs : List T} {j : Nat} {x y : T}
    (found : (xs ++ [x])[j]? = some y) : xs[j]? = some y ∨ j = xs.length ∧ y = x := by
  by_cases inside : j < xs.length
  · exact .inl (by rwa [List.getElem?_append_left inside] at found)
  · rw [List.getElem?_append_right (by omega)] at found
    have last : j - xs.length = 0 := by
      by_contra beyond
      rw [List.getElem?_eq_none (by simp; omega)] at found
      cases found
    refine .inr ⟨by omega, ?_⟩
    rw [last] at found
    simpa using found.symm

end LocalServer.Runs
