import LocalServer.Lib.Runs

/-! A name that is created exclusively. Whoever creates it holds it, and frees it by
removing it; who goes without that leaves the name behind, and nobody can create it
again. -/
namespace LocalServer.Exclusive
open Runs

variable {I : Type*}

/-- Where the name leads and who holds it. -/
structure Registry (I : Type*) where
  taken : Bool
  holder : Option I
  deriving DecidableEq

inductive Action (I : Type*) where
  | create (who : I)
  | remove (who : I)
  /-- The holder goes and the name stays. -/
  | abandon (who : I)
  deriving DecidableEq

def Action.abandons : Action I → Bool
  | .abandon _ => true
  | .create _ | .remove _ => false

def step [DecidableEq I] (r : Registry I) : Action I → Option (Registry I)
  | .create who => if r.taken then none else some ⟨true, some who⟩
  | .remove who => if r.holder = some who then some ⟨false, none⟩ else none
  | .abandon who => if r.holder = some who then some { r with holder := none } else none

/-- Nobody has created the name yet. -/
def free : Registry I := ⟨false, none⟩

/-- The name is there and nobody holds it. -/
def Registry.Abandoned (r : Registry I) : Prop := r.taken = true ∧ r.holder = none

/-- Who holds a name has created it. -/
def Registry.Proper (r : Registry I) : Prop := r.holder ≠ none → r.taken = true

theorem proper_free : (free : Registry I).Proper := fun held => absurd rfl held

variable [DecidableEq I] {r r' : Registry I} {action : Action I} {actions : List (Action I)}

theorem proper_step (stepped : step r action = some r') : r'.Proper := by
  cases action with
  | create who =>
    simp only [step] at stepped
    split at stepped <;> cases stepped
    exact fun _ => rfl
  | remove who =>
    simp only [step] at stepped
    split at stepped <;> cases stepped
    exact fun held => absurd rfl held
  | abandon who =>
    simp only [step] at stepped
    split at stepped <;> cases stepped
    exact fun held => absurd rfl held

/-- Nothing ever happens to an abandoned name. -/
theorem Registry.Abandoned.stuck (abandoned : r.Abandoned) : Stuck step r := by
  intro action
  cases action <;> simp [step, abandoned.1, abandoned.2]

theorem Registry.Abandoned.still (abandoned : r.Abandoned) (ran : run step r actions = some r') : r' = r := by
  cases actions with
  | nil =>
    cases ran
    rfl
  | cons action actions =>
    obtain ⟨middle, first, -⟩ := run_cons_eq_some.mp ran
    rw [abandoned.stuck action] at first
    cases first

/-- A step leads to an abandoned name exactly if its holder goes. -/
theorem abandoned_step_iff (proper : r.Proper) (stepped : step r action = some r') :
    r'.Abandoned ↔ action.abandons = true := by
  cases action with
  | create who =>
    simp only [step] at stepped
    split at stepped <;> cases stepped
    simp [Registry.Abandoned, Action.abandons]
  | remove who =>
    simp only [step] at stepped
    split at stepped <;> cases stepped
    simp [Registry.Abandoned, Action.abandons]
  | abandon who =>
    simp only [step] at stepped
    split at stepped
    case isFalse => cases stepped
    case isTrue holds =>
    cases stepped
    have taken := proper (by rw [holds]; exact nofun)
    simp [Registry.Abandoned, Action.abandons, taken]

/-- A name is abandoned exactly if one of its holders has gone. -/
theorem abandoned_iff (ran : run step free actions = some r) :
    r.Proper ∧ (r.Abandoned ↔ ∃ action ∈ actions, action.abandons = true) := by
  refine run_history (motive := fun past r => Registry.Proper r ∧
    (r.Abandoned ↔ ∃ action ∈ past, action.abandons = true)) ?_ ⟨proper_free, ?_⟩ ran
  · rintro past before action after ⟨proper, counted⟩ stepped
    refine ⟨proper_step stepped, ?_⟩
    have going : ¬ before.Abandoned := fun abandoned => by
      rw [abandoned.stuck action] at stepped
      cases stepped
    rw [counted] at going
    rw [abandoned_step_iff proper stepped]
    constructor
    · exact fun goes => ⟨action, by simp, goes⟩
    · rintro ⟨other, member, goes⟩
      rcases List.mem_append.mp member with before | last
      · exact absurd ⟨other, before, goes⟩ going
      · rwa [List.mem_singleton.mp last] at goes
  · simp [Registry.Abandoned, free]

end LocalServer.Exclusive
