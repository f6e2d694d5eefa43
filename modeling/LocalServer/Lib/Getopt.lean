import Mathlib

/-! The options of an argument vector, as POSIX `getopt` finds them: letters behind
a dash, several of which may share one argument, and values that stand behind their
letter or in the next argument. -/
namespace LocalServer.Getopt

variable {Char Flag Value : Type*}

/-- What one call of `getopt` finds. -/
inductive Opt (Char Flag Value : Type*) where
  | flag (letter : Flag)
  | value (letter : Value) (optarg : List Char)
  /-- No option has this letter. -/
  | unknown (optopt : Char)
  /-- The arguments end before the value of this option. -/
  | missing (optopt : Value)
  deriving DecidableEq

/-- The letters of one argument, `optstring` telling the flags from the options with
a value. The last of them may wait for the next argument. -/
def letters (optstring : Char → Option (Flag ⊕ Value)) :
    List Char → List (Opt Char Flag Value) × Option Value
  | [] => ([], none)
  | c :: rest =>
    match optstring c with
    | none => let (found, waits) := letters optstring rest; (.unknown c :: found, waits)
    | some (.inl letter) => let (found, waits) := letters optstring rest; (.flag letter :: found, waits)
    | some (.inr letter) =>
      match rest with
      | [] => ([], some letter)
      | _ => ([.value letter rest], none)

variable [DecidableEq Char]

/-- What the calls of `getopt` find in the arguments behind the name of the program,
up to the first operand or up to two dashes. -/
def getopt (dash : Char) (optstring : Char → Option (Flag ⊕ Value)) :
    List (List Char) → List (Opt Char Flag Value)
  | (d :: c :: word) :: args =>
    if d ≠ dash ∨ c = dash ∧ word = [] then []
    else
      match letters optstring (c :: word), args with
      | (found, none), args => found ++ getopt dash optstring args
      | (found, some letter), [] => found ++ [.missing letter]
      | (found, some letter), optarg :: args =>
        found ++ .value letter optarg :: getopt dash optstring args
  | _ => []

/-! ## Where the values come from -/

variable {optstring : Char → Option (Flag ⊕ Value)} {letter : Value} {optarg word : List Char}

omit [DecidableEq Char] in
/-- A value in the argument of its letter is the end of that argument. -/
theorem mem_letters (member : Opt.value letter optarg ∈ (letters optstring word).1) : optarg <:+ word := by
  induction word with
  | nil => cases member
  | cons c rest ih =>
    rw [letters] at member
    split at member
    · exact (ih ((List.mem_cons.mp member).resolve_left nofun)).trans (List.suffix_cons c rest)
    · exact (ih ((List.mem_cons.mp member).resolve_left nofun)).trans (List.suffix_cons c rest)
    · split at member
      · cases member
      · cases List.mem_singleton.mp member
        exact List.suffix_cons c _

/-- Every value is the end of an argument. -/
theorem mem_getopt {dash : Char} {args : List (List Char)}
    (member : Opt.value letter optarg ∈ getopt dash optstring args) : ∃ arg ∈ args, optarg <:+ arg := by
  -- what an argument holds itself
  have inside {d c : Char} {word : List Char} {found : List (Opt Char Flag Value)} {waits : Option Value}
      (read : letters optstring (c :: word) = (found, waits)) (here : Opt.value letter optarg ∈ found) :
      optarg <:+ d :: c :: word := by
    have own : Opt.value letter optarg ∈ (letters optstring (c :: word)).1 := by rwa [read]
    exact (mem_letters own).trans (List.suffix_cons d _)
  fun_induction getopt dash optstring args with
  | case1 | case5 => cases member
  | case2 d c word _ found args read ih =>
    rcases List.mem_append.mp member with here | later
    · exact ⟨_, List.mem_cons_self, inside read here⟩
    · obtain ⟨arg, among, ends⟩ := ih later
      exact ⟨arg, List.mem_cons_of_mem _ among, ends⟩
  | case3 d c word _ found waits read =>
    rcases List.mem_append.mp member with here | last
    · exact ⟨_, List.mem_cons_self, inside read here⟩
    · cases List.mem_singleton.mp last
  | case4 d c word _ found waits _ args read ih =>
    rcases List.mem_append.mp member with here | later
    · exact ⟨_, List.mem_cons_self, inside read here⟩
    · rcases List.mem_cons.mp later with same | later
      · cases same
        exact ⟨optarg, List.mem_cons_of_mem _ List.mem_cons_self, List.suffix_rfl⟩
      · obtain ⟨arg, among, ends⟩ := ih later
        exact ⟨arg, List.mem_cons_of_mem _ (List.mem_cons_of_mem _ among), ends⟩

end LocalServer.Getopt
