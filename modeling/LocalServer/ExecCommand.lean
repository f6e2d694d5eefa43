import LocalServer.CList
import LocalServer.Commands
import LocalServer.Lib.Words

/-! How a command is taken apart and dispatched. The name is looked up with
`strtok`, the arguments are cut out with `strtok_r`, which puts its terminators into
the very copy that the arguments point into; both find the same words. -/
namespace LocalServer.Commands
open CList (Fault)
open Words

def INVALID_COMMAND : Int := -1
def EXEC_ERROR : Int := -2

/-! ## `strtok_r` -/

/-- `strspn(s, " ")`. -/
def strspn (s : List Byte) : Nat := (s.takeWhile (· = SPACE)).length

/-- `strcspn(s, " ")`. -/
def strcspn (s : List Byte) : Nat := (s.takeWhile fun c => c ≠ SPACE ∧ c ≠ 0).length

/-- `strtok_r(s, " ", &saved)`: the memory after it, the new `saved`, and the token.
Past the end of the memory nothing can be read. -/
def strtokR (memory : List Byte) (s : Nat) : Option (List Byte × Nat × Option Nat) :=
  let start := s + strspn (memory.drop s)
  match memory[start]? with
  | none => none
  | some c =>
    if c = 0 then some (memory, start, none)
    else
      let stop := start + strcspn (memory.drop start)
      match memory[stop]? with
      | none => none
      | some c =>
        if c = 0 then some (memory, stop, some start)
        else some (memory.set stop 0, stop + 1, some start)

/-! ## `exec_cmd` -/

/-- An element of `char *tokens[]`, which is not initialised; a pointer is an offset
into the copy of the command. -/
inductive Slot where
  | garbage
  | null
  | pointer (p : Nat)
  deriving DecidableEq

/-- The copy of the command, the array of its arguments, and `i` behind the loop. -/
structure Arguments where
  copy : List Byte
  tokens : List Slot
  argc : Nat
  deriving DecidableEq

/-- The string an element points to. -/
def Arguments.string (a : Arguments) : Slot → Option (List Byte)
  | .pointer p => some (cstr (a.copy.drop p))
  | _ => none

/-- The loop of `exec_cmd`, and the terminator behind it. -/
def collect : Nat → List Byte → Nat → List Slot → Nat → Except Fault Arguments
  | 0, _, _, _, _ => .error .endless
  | fuel + 1, copy, cmdP, tokens, i =>
    match strtokR copy cmdP with
    | none => .error .undefined
    | some (copy, cmdP, token) =>
      if tokens.length ≤ i then .error .undefined
      else
        match token with
        | none => .ok ⟨copy, tokens.set i .null, i⟩
        | some p => collect fuel copy cmdP (tokens.set i (.pointer p)) (i + 1)

/-- The arguments of a command; both arrays have `strlen(cmd) + 1` elements. -/
def arguments (cmd : List Byte) : Except Fault Arguments :=
  collect (cmd.length + 1) (cmd ++ [0]) 0 (List.replicate (cmd.length + 1) .garbage) 0

inductive CmdType where
  | invalidCmd | usualCmd | customCmd
  deriving DecidableEq

inductive Function where
  | execHelp | execInfo | execCcp | execLsl | execUinfo
  deriving DecidableEq

def TYPES : List CmdType :=
  [.invalidCmd, .usualCmd, .usualCmd, .usualCmd, .usualCmd, .usualCmd, .usualCmd, .usualCmd,
   .customCmd, .customCmd, .customCmd, .customCmd, .customCmd]

def FUNCTIONS : List (Option Function) :=
  [none, none, none, none, none, none, none, none,
   some .execHelp, some .execInfo, some .execCcp, some .execLsl, some .execUinfo]

/-- What `exec_cmd` does with a command. -/
inductive Execution where
  /-- Nothing is executed, and the call returns `r`. -/
  | nothing (r : Int)
  /-- A child calls `execvp(tokens[0], tokens)`. -/
  | usual (a : Arguments)
  /-- `f(shm_req, argc, tokens)` is called. -/
  | custom (f : Function) (a : Arguments)
  deriving DecidableEq

/-- `exec_cmd`, given whether its `fork` works. -/
def execCmd (cmd : List Byte) (forks : Bool) : Except Fault Execution :=
  let cmdId := isCommandAvailable cmd
  if cmdId = 0 then .ok (.nothing INVALID_COMMAND)
  else
    match arguments cmd with
    | .error fault => .error fault
    | .ok a =>
      match TYPES[cmdId]? with
      | none => .error .undefined
      | some .usualCmd => if forks then .ok (.usual a) else .ok (.nothing EXEC_ERROR)
      | some _ =>
        match FUNCTIONS[cmdId]? with
        | some (some f) => .ok (.custom f a)
        | _ => .error .undefined

/-! ## One call of `strtok_r` -/

variable {before gap run rest : List Byte}

theorem strspn_gap (blank : ∀ c ∈ gap, c = SPACE) {c : Byte} (solid : c ≠ SPACE) (rest : List Byte) :
    strspn (gap ++ c :: rest) = gap.length := by
  have all : ∀ d ∈ gap, decide (d = SPACE) = true := fun d member => by simpa using blank d member
  rw [strspn, List.takeWhile_append_of_pos all, List.takeWhile_cons_of_neg (by simpa using solid),
    List.append_nil]

theorem strcspn_run (solid : SPACE ∉ run) (noNul : 0 ∉ run) {c : Byte} (stops : c = SPACE ∨ c = 0)
    (rest : List Byte) : strcspn (run ++ c :: rest) = run.length := by
  have all : ∀ d ∈ run, decide (d ≠ SPACE ∧ d ≠ 0) = true := fun d member => by
    simpa using ⟨ne_of_mem_of_not_mem member solid, ne_of_mem_of_not_mem member noNul⟩
  rw [strcspn, List.takeWhile_append_of_pos all, List.takeWhile_cons_of_neg, List.append_nil]
  rcases stops with rfl | rfl <;> simp

/-- Before the terminator there is nothing but spaces. -/
theorem strtokR_end (before : List Byte) (blank : ∀ c ∈ gap, c = SPACE) :
    strtokR (before ++ (gap ++ [0])) before.length =
      some (before ++ (gap ++ [0]), before.length + gap.length, none) := by
  have skipped : strspn (gap ++ [0]) = gap.length := strspn_gap blank (by decide) []
  have here : (before ++ (gap ++ [0]))[before.length + gap.length]? = some 0 := by
    rw [← List.append_assoc, ← List.length_append, List.getElem?_concat_length]
  simp only [strtokR, List.drop_left, skipped, here, if_true]

/-- A word is found, with what ends it. -/
theorem strtokR_run (before : List Byte) (blank : ∀ c ∈ gap, c = SPACE) (nonempty : run ≠ [])
    (solid : SPACE ∉ run) (noNul : 0 ∉ run) {c : Byte} (stops : c = SPACE ∨ c = 0) (rest : List Byte) :
    strtokR (before ++ (gap ++ (run ++ c :: rest))) before.length =
      if c = 0 then some (before ++ (gap ++ (run ++ c :: rest)),
        (before ++ (gap ++ run)).length, some (before ++ gap).length)
      else some (before ++ (gap ++ (run ++ 0 :: rest)),
        (before ++ (gap ++ (run ++ [0]))).length, some (before ++ gap).length) := by
  obtain ⟨d, later, rfl⟩ := List.exists_cons_of_ne_nil nonempty
  have notSpace : d ≠ SPACE := ne_of_mem_of_not_mem (by simp) solid
  have notNul : d ≠ 0 := ne_of_mem_of_not_mem (by simp) noNul
  have skipped : strspn (gap ++ (d :: later ++ c :: rest)) = gap.length :=
    strspn_gap blank notSpace _
  have passed : strcspn (d :: later ++ c :: rest) = (d :: later).length :=
    strcspn_run solid noNul stops rest
  have start : before.length + gap.length = (before ++ gap).length := List.length_append.symm
  have stop : (before ++ gap).length + (d :: later).length = (before ++ (gap ++ d :: later)).length := by
    simp only [List.length_append]
    omega
  have first : (before ++ (gap ++ (d :: later ++ c :: rest)))[(before ++ gap).length]? = some d := by
    rw [← List.append_assoc, List.getElem?_append_right (Nat.le_refl _), Nat.sub_self]
    rfl
  have whole : before ++ (gap ++ (d :: later ++ c :: rest)) = before ++ (gap ++ d :: later) ++ c :: rest := by
    simp
  have last : (before ++ (gap ++ (d :: later ++ c :: rest)))[(before ++ (gap ++ d :: later)).length]? =
      some c := by
    rw [whole, List.getElem?_append_right (Nat.le_refl _), Nat.sub_self]
    rfl
  have rest' : (before ++ (gap ++ (d :: later ++ c :: rest))).drop (before ++ gap).length =
      d :: later ++ c :: rest := by
    rw [← List.append_assoc, List.drop_left]
  have cut : (before ++ (gap ++ (d :: later ++ c :: rest))).set (before ++ (gap ++ d :: later)).length 0 =
      before ++ (gap ++ (d :: later ++ 0 :: rest)) := by
    rw [whole, List.set_append_right _ _ (Nat.le_refl _), Nat.sub_self, List.set_cons_zero]
    simp
  have behind : (before ++ (gap ++ d :: later)).length + 1 =
      (before ++ (gap ++ (d :: later ++ [0]))).length := by
    simp only [List.length_append, List.length_cons, List.length_nil]
    omega
  simp only [strtokR, List.drop_left, skipped, start, first, notNul, if_false, rest', passed, stop,
    last, cut, behind]

/-! ## The arguments are the words -/

variable {tokens : List Slot} {i fuel : Nat} {copy : List Byte}

/-- The array after a call, with the arguments of the command in their places. -/
def filled (tokens : List Slot) (i : Nat) (pointers : List Nat) : List Slot :=
  tokens.take i ++ (pointers.map .pointer ++ .null :: tokens.drop (i + pointers.length + 1))

theorem filled_set (inside : i < tokens.length) (p : Nat) (pointers : List Nat) :
    filled (tokens.set i (.pointer p)) (i + 1) pointers = filled tokens i (p :: pointers) := by
  have shift : i + (pointers.length + 1) + 1 = i + 1 + pointers.length + 1 := by omega
  have front : (tokens.set i (.pointer p)).take (i + 1) = tokens.take i ++ [.pointer p] := by
    rw [List.take_set, List.take_succ_eq_append_getElem inside,
      List.set_append_right _ _ (by simp), List.length_take_of_le inside.le, Nat.sub_self]
    rfl
  rw [filled, filled, front, List.drop_set_of_lt (by omega), List.length_cons, shift]
  simp

theorem collect_token {cmdP saved p : Nat} {copy' : List Byte}
    (found : strtokR copy cmdP = some (copy', saved, some p)) (inside : i < tokens.length) :
    collect (fuel + 1) copy cmdP tokens i =
      collect fuel copy' saved (tokens.set i (.pointer p)) (i + 1) := by
  simp only [collect, found, if_neg (not_le.mpr inside)]

theorem collect_end (before : List Byte) (blank : ∀ c ∈ gap, c = SPACE) (inside : i < tokens.length) :
    collect (fuel + 1) (before ++ (gap ++ [0])) before.length tokens i =
      .ok ⟨before ++ (gap ++ [0]), filled tokens i [], i⟩ := by
  simp only [collect, strtokR_end before blank, if_neg (not_le.mpr inside)]
  rw [List.set_eq_take_append_cons_drop, if_pos inside]
  rfl

/-- The loop stores one pointer for each word, and what they point to are the words.
What lies before the text is not touched any more. -/
theorem collect_words (before : List Byte) (noNul : 0 ∉ rest) (enough : (words SPACE rest).length < fuel)
    (room : i + (words SPACE rest).length < tokens.length) :
    ∃ tail pointers, collect fuel (before ++ (rest ++ [0])) before.length tokens i =
        .ok ⟨before ++ tail, filled tokens i pointers, i + pointers.length⟩ ∧
      pointers.map (fun p => cstr ((before ++ tail).drop p)) = words SPACE rest := by
  induction fuel generalizing before rest tokens i with
  | zero => cases enough
  | succ fuel ih =>
    have inside : i < tokens.length := by omega
    rcases cut SPACE rest with blank | ⟨gap, run, blank, nonempty, solid, rfl | ⟨later, rfl⟩⟩
    · have none : words SPACE rest = [] := by simpa using words_gap blank []
      exact ⟨rest ++ [0], [], collect_end before blank inside, none.symm⟩
    · -- the last word, which the terminator of the text ends
      have noNul : 0 ∉ run := fun member => noNul (List.mem_append_right _ member)
      have one : words SPACE (gap ++ run) = [run] := by
        rw [words_gap blank, words_run nonempty solid]
      rw [one, List.length_singleton] at enough room
      obtain ⟨fuel, rfl⟩ : ∃ n, fuel = n + 1 := ⟨fuel - 1, by omega⟩
      have found := strtokR_run before blank nonempty solid noNul (.inr rfl) []
      rw [if_pos rfl] at found
      have whole : before ++ (gap ++ (run ++ [0])) = before ++ (gap ++ run) ++ ([] ++ [0]) := by simp
      have room' : i + 1 < (tokens.set i (.pointer (before ++ gap).length)).length := by
        simpa using room
      refine ⟨gap ++ (run ++ [0]), [(before ++ gap).length], ?_, ?_⟩
      · rw [List.append_assoc, collect_token found inside, whole,
          collect_end _ (List.forall_mem_nil _) room', filled_set inside]
        rfl
      · rw [one, List.map_singleton, ← List.append_assoc before, List.drop_left,
          cstr_append_zero noNul]
    · have noNul : 0 ∉ run ∧ 0 ∉ later := by
        simp only [List.mem_append, List.mem_cons, not_or] at noNul
        exact ⟨noNul.2.1, noNul.2.2.2⟩
      have more : words SPACE (gap ++ (run ++ SPACE :: later)) = run :: words SPACE later := by
        rw [words_gap blank, words_run_separator nonempty solid]
      rw [more, List.length_cons] at enough room
      have found := strtokR_run before blank nonempty solid noNul.1 (.inl rfl) (later ++ [0])
      rw [if_neg (by decide)] at found
      have whole : before ++ (gap ++ (run ++ SPACE :: later) ++ [0]) =
          before ++ (gap ++ (run ++ SPACE :: (later ++ [0]))) := by simp
      have whole' : before ++ (gap ++ (run ++ 0 :: (later ++ [0]))) =
          before ++ (gap ++ (run ++ [0])) ++ (later ++ [0]) := by simp
      have room' : i + 1 + (words SPACE later).length <
          (tokens.set i (.pointer (before ++ gap).length)).length := by
        rw [List.length_set]
        omega
      obtain ⟨tail, pointers, collected, strings⟩ :=
        ih (before ++ (gap ++ (run ++ [0]))) noNul.2 (Nat.lt_of_succ_lt_succ enough) room'
      refine ⟨gap ++ (run ++ [0]) ++ tail, (before ++ gap).length :: pointers, ?_, ?_⟩
      · rw [whole, collect_token found inside, whole', collected, filled_set inside,
          List.length_cons, List.append_assoc before, Nat.add_assoc i 1, Nat.add_comm 1]
      · have first : cstr ((before ++ (gap ++ (run ++ [0]) ++ tail)).drop (before ++ gap).length) = run := by
          have split : before ++ (gap ++ (run ++ [0]) ++ tail) = before ++ gap ++ (run ++ 0 :: tail) := by
            simp
          rw [split, List.drop_left, cstr_append_zero noNul.1]
        rw [more, List.map_cons, first, ← strings, List.append_assoc before]

theorem filled_zero {pointers : List Nat} (room : pointers.length < tokens.length) :
    (filled tokens 0 pointers).length = tokens.length ∧
      (filled tokens 0 pointers).take pointers.length = pointers.map .pointer ∧
      (filled tokens 0 pointers)[pointers.length]? = some .null := by
  have shape : filled tokens 0 pointers =
      pointers.map .pointer ++ .null :: tokens.drop (pointers.length + 1) := by
    simp [filled]
  have length : (pointers.map Slot.pointer).length = pointers.length := List.length_map ..
  refine ⟨?_, ?_, ?_⟩
  · rw [shape, List.length_append, List.length_cons, length, List.length_drop]
    omega
  · rw [shape, ← length, List.take_left]
  · rw [shape, ← length, List.getElem?_append_right (Nat.le_refl _), Nat.sub_self]
    rfl

/-- The arguments of a command are its words. -/
theorem arguments_words (cmd : CString) : ∃ a, arguments cmd.bytes = .ok a ∧
    a.tokens.length = cmd.bytes.length + 1 ∧ a.argc = (words SPACE cmd.bytes).length ∧
    (a.tokens.take a.argc).map a.string = (words SPACE cmd.bytes).map some ∧
    a.tokens[a.argc]? = some .null := by
  have few := length_words_le SPACE cmd.bytes
  have room : 0 + (words SPACE cmd.bytes).length <
      (List.replicate (cmd.bytes.length + 1) Slot.garbage).length := by
    rw [List.length_replicate]
    omega
  obtain ⟨copy, pointers, collected, strings⟩ :=
    collect_words [] cmd.noNul (Nat.lt_succ_of_le few) room
  have count : pointers.length = (words SPACE cmd.bytes).length := by rw [← strings, List.length_map]
  rw [Nat.zero_add, ← count] at room
  obtain ⟨length, stored, null⟩ := filled_zero room
  rw [List.length_replicate] at length
  refine ⟨_, collected, length, (Nat.zero_add _).trans count, ?_, by rw [Nat.zero_add]; exact null⟩
  rw [Nat.zero_add, stored, ← strings, List.map_map, List.map_map]
  rfl

/-! ## The name is the first word -/

theorem strtok_run (blank : ∀ c ∈ gap, c = SPACE) (nonempty : run ≠ []) (solid : SPACE ∉ run)
    (stops : ∀ c ∈ rest.head?, c = SPACE) : strtok (gap ++ (run ++ rest)) = some run := by
  obtain ⟨d, later, rfl⟩ := List.exists_cons_of_ne_nil nonempty
  have notSpace : d ≠ SPACE := ne_of_mem_of_not_mem (by simp) solid
  have skipped : (gap ++ (d :: later ++ rest)).dropWhile (· = SPACE) = d :: later ++ rest := by
    rw [List.dropWhile_append_of_pos fun c member => by simpa using blank c member,
      List.cons_append, List.dropWhile_cons_of_neg (by simpa using notSpace)]
  have taken : (d :: later ++ rest).takeWhile (· ≠ SPACE) = d :: later := by
    rw [List.takeWhile_append_of_pos fun c member => by
      simpa using ne_of_mem_of_not_mem member solid]
    cases rest with
    | nil => simp
    | cons c rest =>
      obtain rfl : c = SPACE := stops c rfl
      simp
  rw [strtok, skipped, taken]

theorem strtok_words (s : List Byte) : strtok s = (words SPACE s).head? := by
  rcases cut SPACE s with blank | ⟨gap, run, blank, nonempty, solid, rfl | ⟨later, rfl⟩⟩
  · have none : words SPACE s = [] := by simpa using words_gap blank []
    have nothing : s.dropWhile (· = SPACE) = [] :=
      List.dropWhile_eq_nil_iff.mpr fun c member => by simpa using blank c member
    rw [none, strtok, nothing]
    rfl
  · have ends : ∀ c ∈ ([] : List Byte).head?, c = SPACE := by simp
    have found := strtok_run blank nonempty solid ends
    rw [List.append_nil] at found
    rw [found, words_gap blank, words_run nonempty solid]
    rfl
  · rw [strtok_run blank nonempty solid (by simp), words_gap blank, words_run_separator nonempty solid]
    rfl

/-- A command is available when its first word is a name, and then it is known by
the place of this name. -/
theorem isCommandAvailable_words (cmd : List Byte) :
    (∃ name ∈ (words SPACE cmd).head?, name ∈ COMMANDS.map bytes ∧ 0 < isCommandAvailable cmd ∧
      (COMMANDS.map bytes)[isCommandAvailable cmd - 1]? = some name) ∨
    (∀ name ∈ (words SPACE cmd).head?, name ∉ COMMANDS.map bytes) ∧ isCommandAvailable cmd = 0 := by
  rw [isCommandAvailable, strtok_words]
  cases first : (words SPACE cmd).head? with
  | none => exact .inr ⟨by simp, rfl⟩
  | some name =>
    by_cases among : name ∈ COMMANDS.map bytes
    · refine .inl ⟨name, rfl, among, ?_⟩
      simp only [if_pos among, Nat.add_sub_cancel, Nat.succ_pos, true_and]
      exact List.getElem?_idxOf among
    · refine .inr ⟨fun other same => ?_, by simp only [if_neg among]⟩
      rwa [← Option.some.inj same]

/-- The tables have an entry for each name, and a function for each custom command. -/
theorem tables_complete {cmdId : Nat} (known : 0 < cmdId) (last : cmdId - 1 < COMMANDS.length) :
    TYPES[cmdId]? = some .usualCmd ∨
      TYPES[cmdId]? = some .customCmd ∧ ∃ f, FUNCTIONS[cmdId]? = some (some f) := by
  have last : cmdId - 1 < 12 := last
  obtain ⟨n, rfl⟩ : ∃ n, cmdId = n + 1 := ⟨cmdId - 1, by omega⟩
  have last : n < 12 := last
  interval_cases n <;> simp [TYPES, FUNCTIONS]

/-- The check and the split agree: a command is available exactly when its first
word is a name, its arguments are then all its words, and it is dispatched by the
entry of that name; nothing else is executed. -/
theorem dispatch_agrees_with_arguments (cmd : CString) (forks : Bool) :
    (0 < isCommandAvailable cmd.bytes ↔
      ∃ name ∈ (words SPACE cmd.bytes).head?, name ∈ COMMANDS.map bytes) ∧
    (0 < isCommandAvailable cmd.bytes → ∃ a name, arguments cmd.bytes = .ok a ∧
      a.tokens.length = cmd.bytes.length + 1 ∧ a.argc ≤ cmd.bytes.length ∧
      a.argc = (words SPACE cmd.bytes).length ∧ 1 ≤ a.argc ∧
      (a.tokens.take a.argc).map a.string = (words SPACE cmd.bytes).map some ∧
      a.tokens[a.argc]? = some .null ∧ a.tokens[0]?.bind a.string = some name ∧
      (COMMANDS.map bytes)[isCommandAvailable cmd.bytes - 1]? = some name ∧
      (TYPES[isCommandAvailable cmd.bytes]? = some .usualCmd ∧
          execCmd cmd.bytes forks = .ok (if forks then .usual a else .nothing EXEC_ERROR) ∨
        TYPES[isCommandAvailable cmd.bytes]? = some .customCmd ∧
          ∃ f, FUNCTIONS[isCommandAvailable cmd.bytes]? = some (some f) ∧
            execCmd cmd.bytes forks = .ok (.custom f a))) ∧
    (isCommandAvailable cmd.bytes = 0 → execCmd cmd.bytes forks = .ok (.nothing INVALID_COMMAND)) := by
  rcases isCommandAvailable_words cmd.bytes with ⟨name, first, among, known, entry⟩ | ⟨unknown, zero⟩
  · refine ⟨⟨fun _ => ⟨name, first, among⟩, fun _ => known⟩, fun _ => ?_, fun zero => by omega⟩
    obtain ⟨a, cut, length, argc, strings, null⟩ := arguments_words cmd
    obtain ⟨later, whole⟩ : ∃ later, words SPACE cmd.bytes = name :: later := by
      cases ws : words SPACE cmd.bytes with
      | nil => simp [ws] at first
      | cons word later => exact ⟨later, by simpa [ws] using first⟩
    have some : 1 ≤ a.argc := by simp [argc, whole]
    have few : a.argc ≤ cmd.bytes.length := argc ▸ length_words_le SPACE cmd.bytes
    have nameFound : a.tokens[0]?.bind a.string = .some name := by
      have head := congrArg (·[0]?) strings
      simp only [List.getElem?_map, List.getElem?_take_of_lt some, whole, List.getElem?_cons_zero,
        Option.map_some] at head
      cases slot : a.tokens[0]? with
      | none => simp [slot] at head
      | some pointer => simpa [slot] using head
    refine ⟨a, name, cut, length, few, argc, some, strings, null, nameFound, entry, ?_⟩
    have place : isCommandAvailable cmd.bytes - 1 < COMMANDS.length := by
      have inside := (List.getElem?_eq_some_iff.mp entry).1
      simpa using inside
    have unequal : isCommandAvailable cmd.bytes ≠ 0 := known.ne'
    rcases tables_complete known place with usual | ⟨custom, f, function⟩
    · refine .inl ⟨usual, ?_⟩
      simp only [execCmd, unequal, if_false, cut, usual]
      split <;> rfl
    · refine .inr ⟨custom, f, function, ?_⟩
      simp only [execCmd, unequal, if_false, cut, custom, function]
  · refine ⟨⟨fun known => by omega, fun ⟨name, first, among⟩ => absurd among (unknown name first)⟩,
      fun known => by omega, fun zero => ?_⟩
    simp only [execCmd, zero, if_true]

end LocalServer.Commands
