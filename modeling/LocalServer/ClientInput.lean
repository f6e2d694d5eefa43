import LocalServer.ClientSession
import LocalServer.CList
import LocalServer.Lib.Words

/-! What the client makes of its standard input. `fgets` hands it pieces of at most
255 bytes, and it takes the last byte off each of them, whether or not that is the
end of a line. -/
namespace LocalServer.ClientInput
open CList (Fault)
open ClientSession (EXIT)
open Commands Handler RequestPipe Words

def NEWLINE : Byte := 10

/-- At most `n` bytes are taken, and none behind a newline. -/
def readLine : Nat → List Byte → List Byte × List Byte
  | 0, input => ([], input)
  | _ + 1, [] => ([], [])
  | n + 1, c :: input =>
    if c = NEWLINE then ([c], input)
    else
      let (got, rest) := readLine n input
      (c :: got, rest)

/-- `fgets(s, n, stdin)`: what it stores before the terminator, and the rest of the
input. At the end of the input it returns NULL. -/
def fgets (n : Nat) (input : List Byte) : Option (List Byte × List Byte) :=
  if input = [] then none else some (readLine (n - 1) input)

/-- A string that the loop looked up, and the request it was sent as, if it was. -/
structure Checked where
  cmd : List Byte
  request : Option Request
  deriving DecidableEq

/-- What `send_request` and `listen_response` return for one command. -/
structure Outcome where
  sent : Int
  heard : Int

/-- The loop of the client's `main`. The strings it looks up, in their order. -/
def commandLoop : Nat → List Byte → (Nat → Outcome) → Except Fault (List Checked)
  | 0, _, _ => .error .endless
  | fuel + 1, input, outcomes =>
    match fgets MAX_COMMAND_LENGTH input with
    -- at the end of the input it says goodbye
    | none => .ok []
    | some (piece, input) =>
      if (cstr piece).length = 0 then .error .undefined
      else
        -- `s[strlen(s) - 1] = '\\0'`
        let s := (cstr piece).dropLast
        if s = [] then commandLoop fuel input outcomes
        else if isCommandAvailable s = 0 then
          if s = EXIT then .ok [⟨s, none⟩]
          else (commandLoop fuel input outcomes).map (⟨s, none⟩ :: ·)
        else
          let checked := ⟨s, some (Request.ofCommand s)⟩
          if (outcomes 0).sent ≤ 0 ∨ (outcomes 0).heard ≤ 0 ∨ s = EXIT then .ok [checked]
          else (commandLoop fuel input fun n => outcomes (n + 1)).map (checked :: ·)

/-- The lines that end with a newline, and what comes behind the last of them. -/
def ended (input : List Byte) : List (List Byte) := (input.splitOn NEWLINE).dropLast

def unended (input : List Byte) : List Byte := (input.splitOn NEWLINE).getLastD []

/-- The loop ends. What it looks up are the lines of the input from the first on,
blank ones left out, and each that is a command is what the server finds in its
request. -/
def WholeLines (input : List Byte) (outcomes : Nat → Outcome) : Prop :=
  ∃ checked, commandLoop (input.length + 1) input outcomes = .ok checked ∧
    checked.map Checked.cmd <+: words NEWLINE input ∧
    ∀ c ∈ checked, (c.request.isSome ↔ 0 < isCommandAvailable c.cmd) ∧
      ∀ req ∈ c.request, req.cmd.string = c.cmd

/-- Before an `exit` every line leaves room for its newline in 255 bytes, and
without an `exit` at most one byte comes behind the last newline. -/
def Fits (input : List Byte) : Prop :=
  (∀ line ∈ (ended input).takeWhile (· ≠ EXIT), line.length ≤ MAX_COMMAND_LENGTH - 2) ∧
    (EXIT ∉ ended input → (unended input).length ≤ 1)

instance decidableFits (input : List Byte) : Decidable (Fits input) :=
  inferInstanceAs (Decidable ((∀ line ∈ (ended input).takeWhile (· ≠ EXIT),
    line.length ≤ MAX_COMMAND_LENGTH - 2) ∧ (EXIT ∉ ended input → (unended input).length ≤ 1)))

/-! ## Lines and pieces -/

variable {line rest input : List Byte} {outcomes : Nat → Outcome} {fuel : Nat}

theorem ended_line (solid : NEWLINE ∉ line) (rest : List Byte) :
    ended (line ++ NEWLINE :: rest) = line :: ended rest := by
  rw [ended, List.splitOn_append_cons_self_of_not_mem solid,
    List.dropLast_cons_of_ne_nil (List.splitOn_ne_nil NEWLINE rest), ended]

theorem unended_line (solid : NEWLINE ∉ line) (rest : List Byte) :
    unended (line ++ NEWLINE :: rest) = unended rest := by
  rw [unended, List.splitOn_append_cons_self_of_not_mem solid, unended]
  cases lines : rest.splitOn NEWLINE with
  | nil => exact absurd lines (List.splitOn_ne_nil NEWLINE rest)
  | cons line lines => simp [List.getLastD_eq_getLast?]

theorem ended_last (solid : NEWLINE ∉ line) : ended line = [] ∧ unended line = line := by
  rw [ended, unended, List.splitOn_eq_singleton solid]
  exact ⟨rfl, rfl⟩

theorem fits_line (solid : NEWLINE ∉ line) : Fits (line ++ NEWLINE :: rest) ↔
    line = EXIT ∨ line.length ≤ MAX_COMMAND_LENGTH - 2 ∧ Fits rest := by
  rw [Fits, ended_line solid, unended_line solid]
  by_cases leaves : line = EXIT
  · simp [leaves]
  · simp [leaves, Fits, Ne.symm leaves, and_assoc]

theorem fits_last (solid : NEWLINE ∉ line) : Fits line ↔ line.length ≤ 1 := by
  simp [Fits, ended_last solid]

theorem readLine_line (solid : NEWLINE ∉ line) {n : Nat} (room : line.length < n) (rest : List Byte) :
    readLine n (line ++ NEWLINE :: rest) = (line ++ [NEWLINE], rest) := by
  induction line generalizing n with
  | nil =>
    obtain ⟨n, rfl⟩ : ∃ m, n = m + 1 := ⟨n - 1, by simp at room; omega⟩
    simp [readLine]
  | cons c line ih =>
    obtain ⟨n, rfl⟩ : ∃ m, n = m + 1 := ⟨n - 1, by simp at room; omega⟩
    have other : c ≠ NEWLINE := fun same => solid (by simp [same])
    have later := ih (fun member => solid (by simp [member])) (Nat.lt_of_succ_lt_succ room)
    simp only [List.cons_append, readLine, if_neg other, later]

theorem readLine_solid (solid : NEWLINE ∉ line) (n : Nat) (full : n ≤ line.length ∨ rest = []) :
    readLine n (line ++ rest) = (line.take n, line.drop n ++ rest) := by
  induction line generalizing n with
  | nil =>
    cases n with
    | zero => rfl
    | succ n =>
      obtain rfl : rest = [] := by simpa using full
      rfl
  | cons c line ih =>
    cases n with
    | zero => rfl
    | succ n =>
      have other : c ≠ NEWLINE := fun same => solid (by simp [same])
      have later := ih (fun member => solid (by simp [member])) n
        (full.imp_left Nat.le_of_succ_le_succ)
      simp only [List.cons_append, readLine, if_neg other, later, List.take_succ_cons,
        List.drop_succ_cons]

/-- A line that leaves room for its newline is read with it. -/
theorem fgets_line (solid : NEWLINE ∉ line) (short : line.length ≤ MAX_COMMAND_LENGTH - 2)
    (rest : List Byte) :
    fgets MAX_COMMAND_LENGTH (line ++ NEWLINE :: rest) = some (line ++ [NEWLINE], rest) := by
  have room : line.length < MAX_COMMAND_LENGTH - 1 := by
    simp only [MAX_COMMAND_LENGTH] at short ⊢
    omega
  rw [fgets, if_neg (by simp), readLine_line solid room]

/-- Of a longer one, or of what comes behind the last newline, 255 bytes are. -/
theorem fgets_solid (solid : NEWLINE ∉ line) (nonempty : line ≠ [])
    (full : MAX_COMMAND_LENGTH - 1 ≤ line.length ∨ rest = []) :
    fgets MAX_COMMAND_LENGTH (line ++ rest) =
      some (line.take (MAX_COMMAND_LENGTH - 1), line.drop (MAX_COMMAND_LENGTH - 1) ++ rest) := by
  rw [fgets, if_neg (by simp [nonempty]), readLine_solid solid _ full]

theorem fgets_last (solid : NEWLINE ∉ line) (nonempty : line ≠ [])
    (short : line.length ≤ MAX_COMMAND_LENGTH - 1) :
    fgets MAX_COMMAND_LENGTH line = some (line, []) := by
  have read := fgets_solid solid nonempty (.inr (rfl : ([] : List Byte) = []))
  rwa [List.append_nil, List.append_nil, List.take_of_length_le short,
    List.drop_of_length_le short] at read

/-! ## One round of the loop -/

variable {piece : List Byte} {checked : List Checked}

/-- The string that is looked up is the piece without its last byte. -/
theorem commandLoop_piece (read : fgets MAX_COMMAND_LENGTH input = some (piece, rest))
    (noNul : 0 ∉ piece) (nonempty : piece ≠ []) : commandLoop (fuel + 1) input outcomes =
      if piece.dropLast = [] then commandLoop fuel rest outcomes
      else if isCommandAvailable piece.dropLast = 0 then
        if piece.dropLast = EXIT then .ok [⟨piece.dropLast, none⟩]
        else (commandLoop fuel rest outcomes).map (⟨piece.dropLast, none⟩ :: ·)
      else if (outcomes 0).sent ≤ 0 ∨ (outcomes 0).heard ≤ 0 ∨ piece.dropLast = EXIT then
        .ok [⟨piece.dropLast, some (Request.ofCommand piece.dropLast)⟩]
      else (commandLoop fuel rest fun n => outcomes (n + 1)).map
        (⟨piece.dropLast, some (Request.ofCommand piece.dropLast)⟩ :: ·) := by
  have some : piece.length ≠ 0 := by simpa using nonempty
  simp only [commandLoop, read, cstr_eq_self noNul, if_neg some]

theorem map_cons_ok {r : Except Fault (List Checked)} {c : Checked}
    (ran : r.map (c :: ·) = .ok checked) : ∃ later, r = .ok later ∧ checked = c :: later := by
  cases r with
  | error fault => cases ran
  | ok later =>
    cases ran
    exact ⟨later, rfl, rfl⟩

/-- Unless it is empty it is the first to be looked up. -/
theorem commandLoop_head (read : fgets MAX_COMMAND_LENGTH input = some (piece, rest))
    (noNul : 0 ∉ piece) (some : piece.dropLast ≠ [])
    (ran : commandLoop (fuel + 1) input outcomes = .ok checked) :
    ∃ c later, checked = c :: later ∧ c.cmd = piece.dropLast := by
  have nonempty : piece ≠ [] := fun empty => some (by rw [empty]; rfl)
  rw [commandLoop_piece read noNul nonempty, if_neg some] at ran
  split at ran
  · split at ran
    · cases ran
      exact ⟨_, [], rfl, rfl⟩
    · obtain ⟨later, -, rfl⟩ := map_cons_ok ran
      exact ⟨_, later, rfl, rfl⟩
  · split at ran
    · cases ran
      exact ⟨_, [], rfl, rfl⟩
    · obtain ⟨later, -, rfl⟩ := map_cons_ok ran
      exact ⟨_, later, rfl, rfl⟩

/-! ## When the lines stay whole -/

/-- What `WholeLines` says of one string. -/
def Checked.Faithful (c : Checked) : Prop :=
  (c.request.isSome ↔ 0 < isCommandAvailable c.cmd) ∧ ∀ req ∈ c.request, req.cmd.string = c.cmd

theorem words_line (solid : NEWLINE ∉ line) (rest : List Byte) :
    words NEWLINE (line ++ NEWLINE :: rest) =
      if line = [] then words NEWLINE rest else line :: words NEWLINE rest := by
  split
  · next empty => rw [empty, List.nil_append, words_separator]
  · next nonempty => exact words_run_separator nonempty solid rest

theorem faithful_unknown (unknown : isCommandAvailable line = 0) : Checked.Faithful ⟨line, none⟩ :=
  ⟨by simp [unknown], fun req found => by cases found⟩

theorem faithful_sent (known : isCommandAvailable line ≠ 0) (noNul : 0 ∉ line)
    (short : line.length ≤ MAX_COMMAND_LENGTH - 2) :
    Checked.Faithful ⟨line, some (Request.ofCommand line)⟩ := by
  refine ⟨by simpa using Nat.pos_of_ne_zero known, fun req found => ?_⟩
  obtain rfl : Request.ofCommand line = req := by simpa using found
  exact string_ofCommand noNul (short.trans (Nat.sub_le ..))

theorem exit_known : isCommandAvailable EXIT ≠ 0 := by decide +kernel

theorem fits_loop (outcomes : Nat → Outcome) (noNul : 0 ∉ input) (enough : input.length < fuel)
    (fits : Fits input) : ∃ checked, commandLoop fuel input outcomes = .ok checked ∧
      checked.map Checked.cmd <+: words NEWLINE input ∧ ∀ c ∈ checked, c.Faithful := by
  induction fuel generalizing input outcomes with
  | zero => cases enough
  | succ fuel ih =>
    by_cases more : NEWLINE ∈ input
    · obtain ⟨line, rest, rfl, solid⟩ := List.eq_append_cons_of_mem more
      have fits := (fits_line solid).mp fits
      have short : line.length ≤ MAX_COMMAND_LENGTH - 2 := by
        rcases fits with rfl | ⟨short, -⟩
        · decide
        · exact short
      simp only [List.mem_append, List.mem_cons, not_or] at noNul
      have noNul' : 0 ∉ line ++ [NEWLINE] := by simpa using ⟨noNul.1, noNul.2.1⟩
      have shorter : rest.length < fuel := by
        simp only [List.length_append, List.length_cons] at enough
        omega
      have later (outcomes : Nat → Outcome) (stays : line ≠ EXIT) :=
        ih outcomes noNul.2.2 shorter (fits.resolve_left stays).2
      rw [commandLoop_piece (fgets_line solid short rest) noNul' (by simp), List.dropLast_concat,
        words_line solid]
      by_cases empty : line = []
      · rw [if_pos empty, if_pos empty]
        exact later outcomes (by rw [empty]; decide)
      rw [if_neg empty, if_neg empty]
      by_cases unknown : isCommandAvailable line = 0
      · have stays : line ≠ EXIT := fun leaves => exit_known (leaves ▸ unknown)
        obtain ⟨checked, ran, isPrefix, faithful⟩ := later outcomes stays
        rw [if_pos unknown, if_neg stays, ran]
        exact ⟨_, rfl, (List.prefix_cons_inj line).mpr isPrefix,
          List.forall_mem_cons.mpr ⟨faithful_unknown unknown, faithful⟩⟩
      · have sent := faithful_sent unknown noNul.1 short
        rw [if_neg unknown]
        by_cases stops : (outcomes 0).sent ≤ 0 ∨ (outcomes 0).heard ≤ 0 ∨ line = EXIT
        · rw [if_pos stops]
          exact ⟨_, rfl, ⟨_, rfl⟩, by simpa using sent⟩
        · have stays : line ≠ EXIT := fun leaves => stops (.inr (.inr leaves))
          obtain ⟨checked, ran, isPrefix, faithful⟩ := later (fun n => outcomes (n + 1)) stays
          rw [if_neg stops, ran]
          exact ⟨_, rfl, (List.prefix_cons_inj line).mpr isPrefix,
            List.forall_mem_cons.mpr ⟨sent, faithful⟩⟩
    · -- at most one byte is left, and it is taken for the newline
      have one := (fits_last more).mp fits
      by_cases empty : input = []
      · subst empty
        exact ⟨[], rfl, List.nil_prefix, by simp⟩
      have enough : 0 < fuel := (List.length_pos_of_ne_nil empty).trans_le (Nat.le_of_lt_succ enough)
      obtain ⟨fuel, rfl⟩ : ∃ n, fuel = n + 1 := ⟨fuel - 1, by omega⟩
      have nothing : input.dropLast = [] := by
        rw [← List.length_eq_zero_iff, List.length_dropLast]
        omega
      rw [commandLoop_piece (fgets_last more empty (one.trans (by decide))) noNul empty, if_pos nothing]
      exact ⟨[], rfl, List.nil_prefix, by simp⟩

/-- A line that is cut short is looked up, and it is no line of the input. -/
theorem cut_not_split (noNul : 0 ∉ line) (solid : NEWLINE ∉ line) (long : 2 ≤ line.length)
    (full : MAX_COMMAND_LENGTH - 1 ≤ line.length ∨ rest = [])
    (first : ∃ later, words NEWLINE (line ++ rest) = line :: later)
    (ran : commandLoop (fuel + 1) (line ++ rest) outcomes = .ok checked) :
    ¬ checked.map Checked.cmd <+: words NEWLINE (line ++ rest) := by
  have nonempty : line ≠ [] := by
    rintro rfl
    cases long
  have shorter : (line.take (MAX_COMMAND_LENGTH - 1)).dropLast.length =
      min (MAX_COMMAND_LENGTH - 1) line.length - 1 := by
    rw [List.length_dropLast, List.length_take]
  have some : (line.take (MAX_COMMAND_LENGTH - 1)).dropLast ≠ [] := by
    rw [← List.length_pos_iff, shorter]
    simp only [MAX_COMMAND_LENGTH]
    omega
  obtain ⟨c, later, rfl, cut⟩ := commandLoop_head (fgets_solid solid nonempty full)
    (fun member => noNul (List.mem_of_mem_take member)) some ran
  obtain ⟨others, whole⟩ := first
  intro isPrefix
  rw [whole, List.map_cons, List.cons_prefix_cons, cut] at isPrefix
  have same := congrArg List.length isPrefix.1
  rw [shorter] at same
  omega

/-- All commands are sent and answered. -/
def granted : Nat → Outcome := fun _ => ⟨1, 1⟩

theorem fits_of_prefix (noNul : 0 ∉ input) (enough : input.length < fuel)
    (ran : commandLoop fuel input granted = .ok checked)
    (isPrefix : checked.map Checked.cmd <+: words NEWLINE input) : Fits input := by
  induction fuel generalizing input checked with
  | zero => cases enough
  | succ fuel ih =>
    by_cases more : NEWLINE ∈ input
    · obtain ⟨line, rest, rfl, solid⟩ := List.eq_append_cons_of_mem more
      rw [fits_line solid]
      simp only [List.mem_append, List.mem_cons, not_or] at noNul
      by_cases short : line.length ≤ MAX_COMMAND_LENGTH - 2
      · have noNul' : 0 ∉ line ++ [NEWLINE] := by simpa using ⟨noNul.1, noNul.2.1⟩
        have shorter : rest.length < fuel := by
          simp only [List.length_append, List.length_cons] at enough
          omega
        rw [commandLoop_piece (fgets_line solid short rest) noNul' (by simp), List.dropLast_concat] at ran
        rw [words_line solid] at isPrefix
        by_cases leaves : line = EXIT
        · exact .inl leaves
        refine .inr ⟨short, ?_⟩
        by_cases empty : line = []
        · rw [if_pos empty] at ran isPrefix
          exact ih noNul.2.2 shorter ran isPrefix
        rw [if_neg empty] at ran isPrefix
        have goesOn : ¬ ((granted 0).sent ≤ 0 ∨ (granted 0).heard ≤ 0 ∨ line = EXIT) := by
          simp [granted, leaves]
        obtain ⟨c, later, ran', rfl, cmd⟩ : ∃ c later, commandLoop fuel rest granted = .ok later ∧
            checked = c :: later ∧ c.cmd = line := by
          by_cases unknown : isCommandAvailable line = 0
          · rw [if_pos unknown, if_neg leaves] at ran
            obtain ⟨later, ran', rfl⟩ := map_cons_ok ran
            exact ⟨_, later, ran', rfl, rfl⟩
          · rw [if_neg unknown, if_neg goesOn] at ran
            obtain ⟨later, ran', rfl⟩ := map_cons_ok ran
            exact ⟨_, later, ran', rfl, rfl⟩
        rw [List.map_cons, cmd, List.prefix_cons_inj] at isPrefix
        exact ih noNul.2.2 shorter ran' isPrefix
      · have long : MAX_COMMAND_LENGTH - 1 ≤ line.length := by
          simp only [MAX_COMMAND_LENGTH] at short ⊢
          omega
        have many : 2 ≤ line.length := (by decide : 2 ≤ MAX_COMMAND_LENGTH - 1).trans long
        have nonempty : line ≠ [] := by
          rintro rfl
          cases many
        exact absurd isPrefix (cut_not_split noNul.1 solid many (.inl long)
          ⟨_, words_run_separator nonempty solid rest⟩ ran)
    · rw [fits_last more]
      by_contra long
      have many : 2 ≤ input.length := not_le.mp long
      have nonempty : input ≠ [] := by
        rintro rfl
        cases many
      rw [← List.append_nil input] at ran isPrefix
      refine cut_not_split noNul more many (.inr rfl) ⟨[], ?_⟩ ran isPrefix
      rw [List.append_nil, words_run nonempty more]

/-- Whatever becomes of the commands, the client looks up and sends whole lines,
exactly when every line that can be reached fits with its newline into a piece and
hardly anything comes behind the last newline. -/
theorem commands_are_lines_iff (noNul : 0 ∉ input) :
    (∀ outcomes, WholeLines input outcomes) ↔ Fits input := by
  constructor
  · intro whole
    obtain ⟨checked, ran, isPrefix, -⟩ := whole granted
    exact fits_of_prefix noNul (Nat.lt_succ_self _) ran isPrefix
  · intro fits outcomes
    exact fits_loop outcomes noNul (Nat.lt_succ_self _) fits

theorem commands_are_lines_iff_pwd : Fits (bytes "pwd\n\nexit\n") ∧
    ∀ outcomes, WholeLines (bytes "pwd\n\nexit\n") outcomes := by
  have fits : Fits (bytes "pwd\n\nexit\n") := by decide +kernel
  exact ⟨fits, (commands_are_lines_iff (by decide +kernel)).mpr fits⟩

/-- The last line lacks its newline, and another file is removed. -/
theorem last_byte_is_lost : ¬ ∀ outcomes, WholeLines (bytes "rm ab") outcomes := by
  intro whole
  obtain ⟨checked, ran, isPrefix, -⟩ := whole granted
  have fits := fits_of_prefix (by decide +kernel) (Nat.lt_succ_self _) ran isPrefix
  exact absurd fits (by decide +kernel)

end LocalServer.ClientInput
