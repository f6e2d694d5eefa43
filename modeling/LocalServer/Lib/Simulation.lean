import LocalServer.Lib.Runs

/-! Refinement between two partial step functions. Every step of the lower system is
answered by a run of the upper one, often an empty run, that leads to a related
state; what holds along the runs of the upper system then holds of what the lower
one shows of itself. -/
namespace LocalServer.Simulation
open Runs

variable {S E T A B U : Type*} {step : S → E → Option S} {upper : T → A → Option T}
  {top : U → B → Option U} {shows : S → E → List A} {rel : S → T → Prop}

/-- What a run of the lower system shows: the actions of its steps, one behind the other. -/
def trace (step : S → E → Option S) (shows : S → E → List A) : S → List E → List A
  | _, [] => []
  | state, event :: events =>
    match step state event with
    | none => []
    | some next => shows state event ++ trace step shows next events

theorem trace_cons {state next : S} {event : E} (stepped : step state event = some next) (events : List E) :
    trace step shows state (event :: events) = shows state event ++ trace step shows next events := by
  rw [trace, stepped]

/-- A condition on what the steps of a run show is one on its trace. -/
theorem along_iff_trace {condition : A → Prop} {start final : S} {events : List E}
    (ran : Runs.run step start events = some final) :
    Along step (fun state event => ∀ action ∈ shows state event, condition action) start events ↔
      ∀ action ∈ trace step shows start events, condition action := by
  induction events generalizing start with
  | nil => simp [Along, trace]
  | cons event events ih =>
    obtain ⟨middle, first, rest⟩ := run_cons_eq_some.mp ran
    have onward : (∀ next, step start event = some next → Along step _ next events) ↔ _ :=
      ⟨fun along => (ih rest).mp (along middle first), fun met next reached =>
        Option.some.inj (first.symm.trans reached) ▸ (ih rest).mpr met⟩
    rw [trace_cons first, Along, onward]
    simp only [List.mem_append, or_imp, forall_and]

/-- The actions that a step shows lead from related states to related states. -/
def Simulates (step : S → E → Option S) (upper : T → A → Option T) (shows : S → E → List A)
    (rel : S → T → Prop) : Prop :=
  ∀ lower event next above, rel lower above → step lower event = some next →
    ∃ above', run upper above (shows lower event) = some above' ∧ rel next above'

/-- Runs are simulated as their steps are. -/
theorem Simulates.run (simulates : Simulates step upper shows rel) {start final : S} {above : T}
    {events : List E} (related : rel start above) (ran : Runs.run step start events = some final) :
    ∃ above', Runs.run upper above (trace step shows start events) = some above' ∧ rel final above' := by
  induction events generalizing start above with
  | nil =>
    cases ran
    exact ⟨above, rfl, related⟩
  | cons event events ih =>
    obtain ⟨middle, first, rest⟩ := run_cons_eq_some.mp ran
    obtain ⟨between, shown, related⟩ := simulates start event middle above related first
    obtain ⟨above', later, related⟩ := ih related rest
    rw [trace_cons first]
    exact ⟨above', run_append_eq_some.mpr ⟨between, shown, later⟩, related⟩

/-- A relation that names the upper state is a view of the lower one. -/
theorem Simulates.run_view {view : S → T} {inv : S → Prop}
    (simulates : Simulates step upper shows fun lower above => inv lower ∧ above = view lower)
    {start final : S} {events : List E} (initial : inv start)
    (ran : Runs.run step start events = some final) :
    inv final ∧ Runs.run upper (view start) (trace step shows start events) = some (view final) := by
  obtain ⟨above, shown, held, rfl⟩ := simulates.run ⟨initial, rfl⟩ ran
  exact ⟨held, shown⟩

end LocalServer.Simulation
