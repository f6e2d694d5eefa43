import LocalServer.Lib.Matches
import LocalServer.YmlReadings

/-! The bound on the rounds of `reg_apply_func`, a third of the length of the text. A
match of either pattern has a key, a colon and a value, so that the text ends before
the rounds do. -/
namespace LocalServer.Yml
open Regex
open CList (Fault)

variable {value : Regex Byte} {word : List Byte} {C : Type*} {reg : Regex Byte}

/-- The function is called with each match and the cursor that it was found from, and
the accumulator goes through. -/
def callEach (func : C → List Byte → Match → Int → Except Fault (C × Int))
    (found : List (List Byte × Match)) (context : C) (acc : Int) : Except Fault (C × Int) :=
  found.foldlM (fun (context, acc) (cursor, found) => func context cursor found acc) (context, acc)

/-- The loop calls the function for what its searches find. -/
theorem applyMatches_calls (func : C → List Byte → Match → Int → Except Fault (C × Int)) (n : Nat)
    (cursor : List Byte) (context : C) (acc : Int) :
    applyMatches reg func n cursor context acc = callEach func (collect reg n cursor).1 context acc := by
  induction n generalizing cursor context acc with
  | zero => rfl
  | succ n ih =>
    rw [applyMatches, collect]
    cases reg.exec cursor with
    | none => rfl
    | some found =>
      simp only [callEach, List.foldlM_cons]
      cases func context cursor found acc with
      | error fault => rfl
      | ok next => exact ih (cursor.drop found.eo) next.1 next.2

/-- The ends of lines make a match longer only. -/
theorem three_le_match (solid : Solid value) (word : List Byte) (reads : Reads (keyed value) word) :
    3 ≤ word.length := by
  obtain ⟨_, _, parsed⟩ := reads
  obtain ⟨setting, ends, _, _, rfl, -, bareParsed, -⟩ := parses_keyed_iff.mp parsed
  have three := three_le_length solid ⟨_, _, bareParsed⟩
  rw [List.length_append]
  omega

theorem three_le_patterns (either : reg = YML_INT_REGEX ∨ reg = YML_STRING_REGEX) :
    ∀ word, Reads reg word → 3 ≤ word.length := by
  rcases either with rfl | rfl
  · exact three_le_match intPattern.solid
  · exact three_le_match stringPattern.solid

/-- The bound on the rounds hides no match: a compiled pattern gives the function
every successive match of the text, once and in order, and the cursor ends where the
last of them does, inside the text. -/
theorem match_cap_hides_none (either : reg = YML_INT_REGEX ∨ reg = YML_STRING_REGEX) (str : List Byte)
    (func : C → List Byte → Match → Int → Except Fault (C × Int)) (context : C) (acc : Int)
    (compiled : Bool) :
    Successive reg str (allMatches reg str) (unmatched reg str) ∧
      (∀ found rest, Successive reg str found rest →
        found.map place = (allMatches reg str).map place ∧ rest = unmatched reg str) ∧
      (∃ front, str = front ++ unmatched reg str ∧
        front.length = ((allMatches reg str).map fun one => one.2.eo).sum) ∧
      regApplyFunc str reg func context acc compiled =
        if compiled then callEach func (allMatches reg str) context acc else .ok (context, -1) := by
  have three := three_le_patterns either
  have successive := successive_all three (by decide) str
  refine ⟨successive, fun found rest other => other.unique successive, successive.reach, ?_⟩
  rw [regApplyFunc, applyMatches_calls, collect_all three (by decide)]

/-- A function that writes down where the keys and the values are. -/
def noteMatch (seen : List (Option Capture × Option Capture)) (_ : List Byte) (found : Match) (acc : Int) :
    Except Fault (List (Option Capture × Option Capture) × Int) :=
  .ok (seen ++ [(found.group? KEY_GROUP, found.group? VALUE_GROUP)], acc + 1)

/-- Three settings of three characters each, as many as there are rounds. -/
theorem match_cap_hides_none_tight :
    regApplyFunc (bytes "a:1b:2c:3") YML_INT_REGEX noteMatch [] 0 true =
        .ok (List.replicate 3 (some ⟨KEY_GROUP, 0, 1⟩, some ⟨VALUE_GROUP, 2, 3⟩), 3) ∧
      unmatched YML_INT_REGEX (bytes "a:1b:2c:3") = [] := by
  obtain ⟨-, -, -, calls⟩ :=
    match_cap_hides_none (.inl rfl) (bytes "a:1b:2c:3") noteMatch [] 0 true
  rw [calls]
  decide +kernel

end LocalServer.Yml
