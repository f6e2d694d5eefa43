import LocalServer.ExecCommand

/-! What a custom command is called with. `exec_cmd` hands it the array of the arguments and
their number; the strings they point to are the words of the command. -/
namespace LocalServer.Commands
open CList (Fault)
open Words

/-- The strings that `argv` points to. -/
def Arguments.argv (a : Arguments) : List (List Byte) := (a.tokens.take a.argc).filterMap a.string

/-- What `exec_cmd` hands to a function. -/
structure Handed (cmd : List Byte) (argv : List (List Byte)) : Prop where
  words : argv = words SPACE cmd
  called : argv ≠ []
  solid : ∀ arg ∈ argv, arg ≠ [] ∧ SPACE ∉ arg ∧ 0 ∉ arg ∧ arg.length ≤ cmd.length

/-- The function of a custom command is called with its words. -/
theorem handed_of_custom {cmd : CString} {forks : Bool} {f : Function} {a : Arguments}
    (called : execCmd cmd.bytes forks = .ok (.custom f a)) : Handed cmd.bytes a.argv := by
  obtain ⟨b, split, -, -, strings, -⟩ := arguments_words cmd
  have available : isCommandAvailable cmd.bytes ≠ 0 := by
    intro zero
    rw [execCmd, zero] at called
    cases called
  have same : a = b := by
    simp only [execCmd, available, if_false, split] at called
    split at called
    · cases called
    · cases forks <;> cases called
    · split at called <;> cases called
      rfl
  subst same
  have argv : a.argv = words SPACE cmd.bytes := by
    have mapped := congrArg (List.filterMap id) strings
    rwa [List.filterMap_map, List.filterMap_map, Function.id_comp, Function.id_comp, List.filterMap_some] at mapped
  refine ⟨argv, fun none => ?_, fun arg member => ?_⟩
  · rcases isCommandAvailable_words cmd.bytes with ⟨name, first, -⟩ | ⟨-, zero⟩
    · rw [← argv, none] at first
      cases first
    · exact available zero
  · rw [argv] at member
    obtain ⟨nonempty, solid, part⟩ := mem_words member
    exact ⟨nonempty, solid, fun nul => cmd.noNul (part.subset nul), part.length_le⟩

/-- An argument that is there. -/
theorem Handed.second {cmd : List Byte} {argv : List (List Byte)} (handed : Handed cmd argv) (many : 2 ≤ argv.length) :
    argv.getD 1 [] ≠ [] ∧ 0 ∉ argv.getD 1 [] ∧ (argv.getD 1 []).length ≤ cmd.length := by
  have there : argv.getD 1 [] ∈ argv := by
    rw [List.getD_eq_getElem _ _ many]
    exact List.getElem_mem many
  obtain ⟨nonempty, -, noNul, short⟩ := handed.solid _ there
  exact ⟨nonempty, noNul, short⟩

end LocalServer.Commands
