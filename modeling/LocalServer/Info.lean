import LocalServer.ClientInput
import LocalServer.Configuration
import LocalServer.CustomCommand
import LocalServer.Lib.Raw

/-! The command `info`, which shows what `/proc` says about a process. The number of the
process goes through an array with room for seven bytes, and the lines of two files
through one with room for 255. -/
namespace LocalServer.Info
open ClientInput Commands Raw
open Yml (decimal digits)

def PID_NB_NUMBER : Nat := 7
def LINE_MAX_LENGTH : Nat := 255

/-- What is in the array `pid`. -/
def pidArray (requestPid : Int) (argv : List (List Byte)) : Option Raw :=
  let pid := uninit (PID_NB_NUMBER + 1)
  if argv.length < 2 then pid.put ((decimal requestPid).take (PID_NB_NUMBER - 1) ++ [0])
  else pid.strncpy (argv.getD 1 []) PID_NB_NUMBER

/-- `sprintf(str, "/proc/%s/...", pid)`, into the memory that was taken for it. -/
def procPath (pid : List Byte) (entry : String) : Option (List Byte) :=
  let str := uninit ((bytes "/proc//").length + (bytes entry).length + 1 + pid.length)
  (str.put (bytes "/proc/" ++ pid ++ bytes "/" ++ bytes entry ++ [0])).bind string

/-- `fgets(line, LINE_MAX_LENGTH, file)`, with the rest of the file and what is printed at
its end. The array is there in any case, so that the test `line == NULL` never holds. -/
def readInto (line : Raw) (file : List Byte) : Option (Raw × List Byte × List Byte) :=
  match fgets LINE_MAX_LENGTH file with
  | none => some (line, file, bytes "Une erreur est survenue lors de la lecture du fichier\n")
  | some (piece, rest) => (line.put (piece ++ [0])).map fun line => (line, rest, [])

/-- `fprintf(stdout, "[%s] %s", pid, line)`. -/
def shown (pid text : List Byte) : List Byte := bytes "[" ++ pid ++ bytes "] " ++ text

/-- The loop over the lines of `status`, with the indices it still comes to. -/
def statusLoop (pid : List Byte) : List Nat → Raw → List Byte → Option (List Byte)
  | [], _, _ => some []
  | i :: later, line, status => do
    let (line, status, warning) ← readInto line status
    let text ← if i = 2 ∨ i = 3 ∨ i = 6 then line.string.map (shown pid) else some []
    let rest ← statusLoop pid later line status
    return warning ++ text ++ rest

def header (pid : List Byte) : List Byte :=
  bytes "----- Caractéristiques du programme " ++ pid ++ bytes " -----\n"

/-- What `exec_info` prints behind the header, and what it returns. -/
def showFiles (pid : List Byte) (memory : Bool × Bool) (files : List Byte → Option (List Byte)) :
    Option (List Byte × Int) := do
  if ¬ memory.1 then return (bytes "Pas assez d'espace mémoire\n", EXEC_ERROR)
  let str ← procPath pid "cmdline"
  match files str with
  | none => return (bytes "Impossible d'ouvrir le fichier cmdline\n", EXEC_ERROR)
  | some cmd =>
    let (line, _, warning) ← readInto (uninit (LINE_MAX_LENGTH + 1)) cmd
    let command ← line.string
    let out := warning ++ bytes "[" ++ pid ++ bytes "] Command : " ++ command ++ bytes "\n"
    if ¬ memory.2 then return (out ++ bytes "Pas assez d'espace mémoire\n", EXEC_ERROR)
    let str ← procPath pid "status"
    match files str with
    | none => return (out ++ bytes "Impossible d'ouvrir le fichier status\n", EXEC_ERROR)
    | some status =>
      let lines ← statusLoop pid (List.range 7) line status
      return (out ++ lines, 1)

/-- `exec_info`, given which of its calls of `malloc` succeed and what the files hold. There
is no result where it reads what was never written. -/
def execInfo (requestPid : Int) (argv : List (List Byte)) (memory : Bool × Bool)
    (files : List Byte → Option (List Byte)) : Option (List Byte × Int) := do
  let pid ← (← pidArray requestPid argv).string
  let (text, r) ← showFiles pid memory files
  return (header pid ++ text, r)

/-! ## What it is for -/

/-- The process that is asked for. -/
def asked (requestPid : Int) (argv : List (List Byte)) : List Byte :=
  if argv.length < 2 then decimal requestPid else argv.getD 1 []

/-- The files of a process: its arguments, each with its terminator, and lines of which
seven are at the front. There is a first argument, as a thread of the kernel has none, and
what is read from the files fits into the array in one piece. -/
structure Process where
  program : List Byte
  arguments : List Byte
  lines : List (List Byte)
  rest : List Byte
  short : program.length < LINE_MAX_LENGTH - 1 ∧ NEWLINE ∉ program ∧ 0 ∉ program
  seven : lines.length = 7
  solid : ∀ line ∈ lines, line.length < LINE_MAX_LENGTH - 1 ∧ NEWLINE ∉ line ∧ 0 ∉ line

/-- What lies in `/proc` under a name. -/
structure Process.In (process : Process) (files : List Byte → Option (List Byte)) (name : List Byte) : Prop where
  cmdline : files (bytes "/proc/" ++ name ++ bytes "/" ++ bytes "cmdline") = some (process.program ++ 0 :: process.arguments)
  status : files (bytes "/proc/" ++ name ++ bytes "/" ++ bytes "status") =
    some (process.lines.flatMap (· ++ [NEWLINE]) ++ process.rest)

/-- The program of the process and the third, fourth and seventh line of its status. -/
def Process.report (process : Process) (name : List Byte) : List Byte :=
  header name ++ (bytes "[" ++ name ++ bytes "] Command : " ++ process.program ++ bytes "\n" ++
    [2, 3, 6].flatMap fun i => shown name (process.lines.getD i [] ++ [NEWLINE]))

/-! ## One process -/

variable {pid name line rest out : List Byte} {argv : List (List Byte)} {requestPid : Int} {array : Raw}
  {memory : Bool × Bool} {files : List Byte → Option (List Byte)} {process : Process} {r : Int}

/-- The memory that is taken for a path is what it needs. -/
theorem procPath_eq (noNul : 0 ∉ pid) {entry : String} (noNul' : 0 ∉ bytes entry) :
    procPath pid entry = some (bytes "/proc/" ++ pid ++ bytes "/" ++ bytes entry) := by
  have room : (bytes "/proc/" ++ pid ++ bytes "/" ++ bytes entry ++ [0]).length ≤
      (uninit ((bytes "/proc//").length + (bytes entry).length + 1 + pid.length)).length := by
    have front : (bytes "/proc/").length + (bytes "/").length = (bytes "/proc//").length := by decide
    simp only [uninit, List.length_append, List.length_replicate, List.length_singleton]
    omega
  have noNul : 0 ∉ bytes "/proc/" ++ pid ++ bytes "/" ++ bytes entry := by
    have front : (0 : Byte) ∉ bytes "/proc/" ∧ (0 : Byte) ∉ bytes "/" := by decide
    simp [front, noNul, noNul']
  have written := put_of_le room
  rw [procPath, written]
  exact string_put noNul [] written

/-- A line that fits is read with its newline. -/
theorem readInto_line (size : array.length = LINE_MAX_LENGTH + 1) (short : line.length < LINE_MAX_LENGTH - 1)
    (solid : NEWLINE ∉ line) (noNul : 0 ∉ line) (rest : List Byte) :
    ∃ array', readInto array (line ++ NEWLINE :: rest) = some (array', rest, []) ∧
      array'.string = some (line ++ [NEWLINE]) ∧ array'.length = LINE_MAX_LENGTH + 1 := by
  have got : fgets LINE_MAX_LENGTH (line ++ NEWLINE :: rest) = some (line ++ [NEWLINE], rest) := by
    rw [fgets, if_neg (by simp), readLine_line solid short]
  have room : (line ++ [NEWLINE] ++ [0]).length ≤ array.length := by
    rw [size]
    simp only [List.length_append, List.length_singleton]
    unfold LINE_MAX_LENGTH at short ⊢
    omega
  have noNul : 0 ∉ line ++ [NEWLINE] := by
    have apart : (0 : Byte) ≠ NEWLINE := by decide
    simp [noNul, apart]
  have written := put_of_le room
  refine ⟨_, ?_, string_put noNul [] written, (put_length written).trans size⟩
  simp only [readInto, got, written, Option.map_some]

theorem readLine_length (n : Nat) (file : List Byte) : (readLine n file).1.length ≤ n := by
  induction n generalizing file with
  | zero => exact Nat.le_refl 0
  | succ n ih =>
    cases file with
    | nil => exact Nat.zero_le _
    | cons c file =>
      rw [readLine]
      split
      · exact Nat.succ_le_succ (Nat.zero_le n)
      · exact Nat.succ_le_succ (ih file)

/-- What fits before the first newline is read with what comes behind it. -/
theorem readLine_append (solid : NEWLINE ∉ line) {n : Nat} (rest : List Byte) :
    readLine (line.length + n) (line ++ rest) = (line ++ (readLine n rest).1, (readLine n rest).2) := by
  induction line with
  | nil => rw [List.length_nil, Nat.zero_add, List.nil_append, List.nil_append]
  | cons c line ih =>
    have other : c ≠ NEWLINE := fun same => solid (same ▸ List.mem_cons_self)
    rw [List.length_cons, Nat.succ_add, List.cons_append, readLine, if_neg other,
      ih fun member => solid (List.mem_cons_of_mem c member), List.cons_append]

/-- The string that is read from `cmdline` ends behind the program. -/
theorem readInto_program (process : Process) :
    ∃ array' behind, readInto (uninit (LINE_MAX_LENGTH + 1)) (process.program ++ 0 :: process.arguments) =
        some (array', behind, []) ∧
      array'.string = some process.program ∧ array'.length = LINE_MAX_LENGTH + 1 := by
  obtain ⟨short, solid, noNul⟩ := process.short
  obtain ⟨n, room⟩ : ∃ n, LINE_MAX_LENGTH - 1 = process.program.length + (n + 1) := Nat.exists_eq_add_of_lt short
  obtain ⟨behind, file, read⟩ : ∃ behind file,
      readLine (LINE_MAX_LENGTH - 1) (process.program ++ 0 :: process.arguments) = (process.program ++ 0 :: behind, file) := by
    rw [room, readLine_append solid]
    exact ⟨(readLine n process.arguments).1, (readLine n process.arguments).2, rfl⟩
  have length := readLine_length (LINE_MAX_LENGTH - 1) (process.program ++ 0 :: process.arguments)
  rw [read] at length
  have got : fgets LINE_MAX_LENGTH (process.program ++ 0 :: process.arguments) =
      some (process.program ++ 0 :: behind, file) := by
    rw [fgets, if_neg (by simp), read]
  have fits : (process.program ++ 0 :: behind ++ [0]).length ≤ (uninit (LINE_MAX_LENGTH + 1)).length := by
    rw [List.length_append, uninit, List.length_replicate]
    exact Nat.succ_le_succ (length.trans (Nat.sub_le _ 1))
  obtain ⟨array', written⟩ : ∃ array', (uninit (LINE_MAX_LENGTH + 1)).put (process.program ++ 0 :: behind ++ [0]) =
      some array' := ⟨_, put_of_le fits⟩
  have holds : array'.string = some process.program := by
    rw [List.append_assoc] at written
    exact string_put noNul _ written
  refine ⟨array', file, ?_, holds, (put_length written).trans (List.length_replicate ..)⟩
  simp only [readInto, got, written, Option.map_some]

theorem statusLoop_lines (pid : List Byte) {lines : List (List Byte)}
    (solid : ∀ line ∈ lines, line.length < LINE_MAX_LENGTH - 1 ∧ NEWLINE ∉ line ∧ 0 ∉ line)
    (size : array.length = LINE_MAX_LENGTH + 1) (first : Nat) (rest : List Byte) :
    statusLoop pid (List.range' first lines.length) array (lines.flatMap (· ++ [NEWLINE]) ++ rest) =
      some ((lines.zipIdx first).flatMap fun line =>
        if line.2 = 2 ∨ line.2 = 3 ∨ line.2 = 6 then shown pid (line.1 ++ [NEWLINE]) else []) := by
  induction lines generalizing array first with
  | nil => rfl
  | cons line lines ih =>
    obtain ⟨short, whole, noNul⟩ := solid line List.mem_cons_self
    obtain ⟨array', read, holds, size'⟩ := readInto_line size short whole noNul
      (lines.flatMap (· ++ [NEWLINE]) ++ rest)
    have onward := ih (fun other member => solid other (List.mem_cons_of_mem _ member)) size' (first + 1)
    have file : (line :: lines).flatMap (· ++ [NEWLINE]) ++ rest =
        line ++ NEWLINE :: (lines.flatMap (· ++ [NEWLINE]) ++ rest) := by simp
    rw [List.length_cons, List.range'_succ, file, statusLoop, read, List.zipIdx_cons, List.flatMap_cons]
    by_cases kept : first = 2 ∨ first = 3 ∨ first = 6
    · simp [kept, holds, onward]
    · simp [kept, onward]

/-- Where the array `pid` holds the name of a process, its report is printed. -/
theorem execInfo_report (held : (pidArray requestPid argv).bind string = some name) (noNul : 0 ∉ name)
    (there : process.In files name) :
    execInfo requestPid argv (true, true) files = some (process.report name, 1) := by
  obtain ⟨array, pid, holds⟩ := Option.bind_eq_some_iff.mp held
  have cmdline := procPath_eq noNul (show 0 ∉ bytes "cmdline" by decide)
  have status := procPath_eq noNul (show 0 ∉ bytes "status" by decide)
  obtain ⟨line, behind, read, command, size⟩ := readInto_program process
  have lines := statusLoop_lines name process.solid size 0 process.rest
  rw [process.seven, ← List.range_eq_range'] at lines
  have kept : ((process.lines.zipIdx 0).flatMap fun line =>
      if line.2 = 2 ∨ line.2 = 3 ∨ line.2 = 6 then shown name (line.1 ++ [NEWLINE]) else []) =
      [2, 3, 6].flatMap fun i => shown name (process.lines.getD i [] ++ [NEWLINE]) := by
    have seven := process.seven
    match process.lines, seven with
    | [_, _, _, _, _, _, _], _ => simp
  rw [kept] at lines
  have showed : showFiles name (true, true) files = some (bytes "[" ++ name ++ bytes "] Command : " ++
      process.program ++ bytes "\n" ++ [2, 3, 6].flatMap fun i => shown name (process.lines.getD i [] ++ [NEWLINE]), 1) := by
    simp only [showFiles, cmdline, status, Option.bind_eq_bind, Option.bind_some, there.cmdline, there.status, read,
      command, lines]
    rfl
  simp only [execInfo, pid, holds, showed, Option.bind_eq_bind, Option.bind_some]
  rfl

/-- What is printed begins with the name that the array `pid` holds. -/
theorem header_prefix (ran : execInfo requestPid argv memory files = some (out, r)) :
    ∃ pid, (pidArray requestPid argv).bind string = some pid ∧ header pid <+: out := by
  obtain ⟨array, held, ran⟩ := Option.bind_eq_some_iff.mp ran
  obtain ⟨pid, holds, ran⟩ := Option.bind_eq_some_iff.mp ran
  obtain ⟨⟨text, r'⟩, -, ran⟩ := Option.bind_eq_some_iff.mp ran
  cases ran
  exact ⟨pid, Option.bind_eq_some_iff.mpr ⟨array, held, holds⟩, text, rfl⟩

/-- A header has one name. -/
theorem header_inj (here : header pid <+: out) (there : header name <+: out) (solid : SPACE ∉ pid)
    (solid' : SPACE ∉ name) : pid = name := by
  obtain ⟨tail, rfl⟩ := here
  obtain ⟨tail', same⟩ := there
  simp only [header, List.append_assoc, List.append_cancel_left_eq] at same
  have space : bytes " -----\n" = SPACE :: bytes "-----\n" := by decide
  rw [space, List.cons_append, List.cons_append] at same
  have cut {text : List Byte} (solid : SPACE ∉ text) (behind : List Byte) :
      (text ++ SPACE :: behind).takeWhile (· ≠ SPACE) = text := by
    rw [List.takeWhile_append_of_pos fun c member => by simpa using ne_of_mem_of_not_mem member solid]
    simp
  rw [← cut solid, ← same, cut solid']

/-! ## Which process it shows -/

/-- A number has at most as many digits as the power of ten that is larger. -/
theorem digits_length_le_iff (n k : Nat) : (digits n).length ≤ k + 1 ↔ n < 10 ^ (k + 1) := by
  unfold digits
  split
  · next zero => simp [zero]
  · rw [List.length_map, List.length_reverse, Nat.digits_length_le_iff (by decide)]

theorem decimal_natCast (n : Nat) : decimal n = digits n := by
  rw [Yml.decimal, if_neg (by omega), List.nil_append, Int.natAbs_natCast]

theorem not_mem_digits {c : Byte} (other : Yml.isDigit c = false) (n : Nat) : c ∉ digits n := fun member =>
  Bool.false_ne_true (other.symm.trans (Yml.digits_isDigit n c member))

/-- Without an argument the array holds six digits at most. -/
theorem pidArray_caller (few : argv.length < 2) (n : Nat) :
    (pidArray n argv).bind string = some ((digits n).take (PID_NB_NUMBER - 1)) := by
  have fits : ((decimal (n : Int)).take (PID_NB_NUMBER - 1) ++ [0]).length ≤ (uninit (PID_NB_NUMBER + 1)).length := by
    rw [List.length_append, List.length_take, List.length_singleton, uninit, List.length_replicate]
    unfold PID_NB_NUMBER
    omega
  have written := put_of_le fits
  rw [pidArray, if_pos few, written, Option.bind_some, string_put _ [] written, decimal_natCast]
  rw [decimal_natCast]
  exact fun member => not_mem_digits (by decide) n (List.mem_of_mem_take member)

/-- With one it holds the argument, or no string at all. -/
theorem pidArray_argument (many : ¬ argv.length < 2) (noNul : 0 ∉ argv.getD 1 []) :
    (pidArray requestPid argv).bind string =
      if (argv.getD 1 []).length < PID_NB_NUMBER then some (argv.getD 1 []) else none := by
  have fits : ((cstr (argv.getD 1 [])).take PID_NB_NUMBER ++
      List.replicate (PID_NB_NUMBER - (cstr (argv.getD 1 [])).length) 0).length ≤ (uninit (PID_NB_NUMBER + 1)).length := by
    rw [List.length_append, List.length_take, List.length_replicate, uninit, List.length_replicate]
    omega
  obtain ⟨array, copied⟩ : ∃ array, (uninit (PID_NB_NUMBER + 1)).strncpy (argv.getD 1 []) PID_NB_NUMBER = some array :=
    ⟨_, put_of_le fits⟩
  rw [pidArray, if_neg many, copied, Option.bind_some]
  split
  · next short => exact string_strncpy_short noNul short copied
  · next full => exact string_strncpy_full noNul (Nat.le_of_not_lt full) copied

/-- **`info` shows the process that it is asked for unless its name is too long.** With the
files of that process in `/proc`, its first argument and the first seven lines of its status
having at most 253 bytes and the argument no newline, the report on it is sure to be printed
if and only if the number of the caller has at most six digits, or the argument of the
command at most six bytes. With seven it depends on the byte behind them, which is not set. -/
theorem info_reports_iff (requestPid : Nat) (cmd : CString) (forks : Bool) (a : Arguments)
    (files : List Byte → Option (List Byte)) (process : Process)
    (called : execCmd cmd.bytes forks = .ok (.custom .execInfo a)) (there : process.In files (asked requestPid a.argv)) :
    execInfo requestPid a.argv (true, true) files = some (process.report (asked requestPid a.argv), 1) ↔
      if a.argv.length < 2 then requestPid < 10 ^ 6 else (a.argv.getD 1 []).length < PID_NB_NUMBER := by
  have handed := handed_of_custom called
  generalize a.argv = argv at there handed ⊢
  by_cases few : argv.length < 2
  · rw [asked, if_pos few, decimal_natCast] at there ⊢
    rw [if_pos few, ← digits_length_le_iff requestPid 5]
    have held := pidArray_caller few requestPid
    constructor
    · intro shows
      obtain ⟨pid, holds, front⟩ := header_prefix shows
      obtain rfl := Option.some.inj (held.symm.trans holds)
      have own : header (digits requestPid) <+: process.report (digits requestPid) := ⟨_, rfl⟩
      have same := header_inj front own (fun member => not_mem_digits (by decide) _ (List.mem_of_mem_take member))
        (not_mem_digits (by decide) _)
      rw [← same]
      exact List.length_take_le ..
    · intro short
      refine execInfo_report ?_ (not_mem_digits (by decide) _) there
      exact held.trans (congrArg some (List.take_of_length_le short))
  · rw [asked, if_neg few] at there ⊢
    rw [if_neg few]
    have noNul := (handed.second (Nat.le_of_not_lt few)).2.1
    have held : (pidArray requestPid argv).bind string = _ := pidArray_argument few noNul
    constructor
    · intro shows
      obtain ⟨pid, holds, -⟩ := header_prefix shows
      by_contra full
      rw [held, if_neg full] at holds
      cases holds
    · intro short
      exact execInfo_report (held.trans (if_pos short)) noNul there

/-- A shell. -/
def shell : Process where
  program := bytes "sh"
  arguments := bytes "-c"
  lines := List.replicate 7 (bytes "Pid:")
  rest := []
  short := by decide
  seven := by decide
  solid := by decide

/-- The files of the shell with a number of seven digits. -/
def shellFiles (path : List Byte) : Option (List Byte) :=
  if path = bytes "/proc/4194303/cmdline" then some (bytes "sh" ++ 0 :: bytes "-c")
  else if path = bytes "/proc/4194303/status" then some (shell.lines.flatMap (· ++ [NEWLINE]))
  else none

theorem info_reports_iff_seven : ∃ a, execCmd (bytes "info") true = .ok (.custom .execInfo a) ∧
    execInfo 4194303 a.argv (true, true) shellFiles ≠ some (shell.report (asked 4194303 a.argv), 1) := by
  let cmd : CString := ⟨bytes "info", by decide, by decide⟩
  let a : Arguments := ⟨bytes "info" ++ [0], [.pointer 0, .null, .garbage, .garbage, .garbage], 1⟩
  have called : execCmd cmd.bytes true = .ok (.custom .execInfo a) := by decide +kernel
  have there : shell.In shellFiles (asked (4194303 : Nat) a.argv) := ⟨by decide +kernel, by decide +kernel⟩
  refine ⟨a, called, fun shows => ?_⟩
  exact absurd ((info_reports_iff 4194303 cmd true a _ shell called there).mp shows) (by decide +kernel)

/-- The process that is shown instead has the first six of the seven digits. -/
theorem info_shows_tenth {n : Nat} (few : argv.length < 2) (low : 10 ^ 6 ≤ n) (high : n < 10 ^ 7)
    (there : process.In files (digits (n / 10))) :
    execInfo n argv (true, true) files = some (process.report (digits (n / 10)), 1) := by
  refine execInfo_report ?_ (not_mem_digits (by decide) _) there
  have tenth : digits n = digits (n / 10) ++ [UInt8.ofNat (48 + n % 10)] := by
    rw [digits, digits, if_neg (by omega), if_neg (by omega), Nat.digits_of_two_le_of_pos (by decide) (by omega)]
    simp
  have six : (digits (n / 10)).length = PID_NB_NUMBER - 1 := by
    have most := (digits_length_le_iff (n / 10) 5).mpr (by omega)
    have least := (digits_length_le_iff (n / 10) 4).not.mpr (by omega)
    unfold PID_NB_NUMBER
    omega
  rw [pidArray_caller few, tenth, ← six, List.take_left]

/-! ## How much it prints -/

variable {file behind warning lines status text : List Byte}

/-- A call of `fgets` leaves the array its size, and complains in one line. -/
theorem readInto_length (read : readInto array file = some (array', behind, warning)) :
    array'.length = array.length ∧ warning.length ≤ 54 := by
  rw [readInto] at read
  split at read
  · cases read
    exact ⟨rfl, by decide⟩
  · obtain ⟨written, put, same⟩ := Option.map_eq_some_iff.mp read
    cases same
    exact ⟨put_length put, Nat.zero_le _⟩

/-- What one line of a file can take: the complaint, the name in brackets and the string
in the array. -/
def lineRoom (pid : List Byte) : Nat := 54 + ((bytes "[] ").length + pid.length + LINE_MAX_LENGTH)

theorem statusLoop_length {later : List Nat} (size : array.length = LINE_MAX_LENGTH + 1)
    (ran : statusLoop pid later array status = some lines) : lines.length ≤ later.length * lineRoom pid := by
  induction later generalizing array status lines with
  | nil =>
    cases ran
    exact Nat.zero_le _
  | cons i later ih =>
    obtain ⟨⟨array', behind, warning⟩, read, ran⟩ := Option.bind_eq_some_iff.mp ran
    obtain ⟨kept, short⟩ := readInto_length read
    obtain ⟨text, fits, others, onward, rfl⟩ :
        ∃ text, text.length ≤ (bytes "[] ").length + pid.length + LINE_MAX_LENGTH ∧
          ∃ others, statusLoop pid later array' behind = some others ∧ warning ++ text ++ others = lines := by
      dsimp only at ran
      split at ran
      · obtain ⟨text, printed, ran⟩ := Option.bind_eq_some_iff.mp ran
        obtain ⟨line, held, rfl⟩ := Option.map_eq_some_iff.mp printed
        obtain ⟨others, onward, same⟩ := Option.bind_eq_some_iff.mp ran
        refine ⟨_, ?_, others, onward, Option.some.inj same⟩
        have bound := string_length held
        have brackets : (bytes "[").length + (bytes "] ").length = (bytes "[] ").length := by decide
        simp only [shown, List.length_append]
        omega
      · obtain ⟨others, onward, same⟩ := Option.bind_eq_some_iff.mp ((Option.bind_some ..).symm.trans ran)
        exact ⟨[], Nat.zero_le _, others, onward, Option.some.inj same⟩
    have few := ih (kept.trans size) onward
    rw [List.length_append, List.length_append, List.length_cons, Nat.succ_mul]
    unfold lineRoom at few ⊢
    omega

/-- The two files take as much as their lines, and what is printed when one of them is
missing takes less. -/
theorem showFiles_length (ran : showFiles pid memory files = some (text, r)) :
    text.length ≤ 8 * lineRoom pid + 64 := by
  unfold showFiles at ran
  split at ran
  · cases ran
    exact (show (bytes "Pas assez d'espace mémoire\n").length ≤ 64 by decide).trans (Nat.le_add_left ..)
  · obtain ⟨str, -, ran⟩ := Option.bind_eq_some_iff.mp ran
    split at ran
    · cases ran
      exact (show (bytes "Impossible d'ouvrir le fichier cmdline\n").length ≤ 64 by decide).trans (Nat.le_add_left ..)
    · obtain ⟨⟨line, behind, warning⟩, read, ran⟩ := Option.bind_eq_some_iff.mp ran
      obtain ⟨command, held, ran⟩ := Option.bind_eq_some_iff.mp ran
      obtain ⟨kept, short⟩ := readInto_length read
      have size : line.length = LINE_MAX_LENGTH + 1 := kept.trans (List.length_replicate ..)
      have string := string_length held
      have first : (warning ++ bytes "[" ++ pid ++ bytes "] Command : " ++ command ++ bytes "\n").length ≤
          lineRoom pid + 11 := by
        have brackets : (bytes "[").length + (bytes "] Command : ").length + (bytes "\n").length =
            (bytes "[] ").length + 11 := by decide
        simp only [List.length_append]
        unfold lineRoom
        omega
      dsimp only at ran
      generalize warning ++ bytes "[" ++ pid ++ bytes "] Command : " ++ command ++ bytes "\n" = printed at first ran
      have memoryText : (bytes "Pas assez d'espace mémoire\n").length ≤ 53 := by decide
      have statusText : (bytes "Impossible d'ouvrir le fichier status\n").length ≤ 53 := by decide
      split at ran
      · cases ran
        rw [List.length_append]
        omega
      · obtain ⟨str, -, ran⟩ := Option.bind_eq_some_iff.mp ran
        split at ran
        · cases ran
          rw [List.length_append]
          omega
        · obtain ⟨lines, loop, ran⟩ := Option.bind_eq_some_iff.mp ran
          cases ran
          have others := statusLoop_length size loop
          rw [List.length_range] at others
          rw [List.length_append]
          omega

/-- The array `pid` has room for seven bytes and their terminator. -/
theorem pidArray_length (held : (pidArray requestPid argv).bind string = some pid) : pid.length ≤ PID_NB_NUMBER := by
  obtain ⟨array, made, held⟩ := Option.bind_eq_some_iff.mp held
  have size : array.length = PID_NB_NUMBER + 1 := by
    rw [pidArray] at made
    split at made <;> exact (put_length made).trans (List.length_replicate ..)
  exact Nat.le_of_lt_succ ((string_length held).trans_eq size)

theorem execInfo_length (ran : execInfo requestPid argv memory files = some (out, r)) : out.length ≤ 3400 := by
  obtain ⟨array, made, ran⟩ := Option.bind_eq_some_iff.mp ran
  obtain ⟨pid, held, ran⟩ := Option.bind_eq_some_iff.mp ran
  obtain ⟨⟨text, r'⟩, showed, same⟩ := Option.bind_eq_some_iff.mp ran
  cases same
  have name := pidArray_length (Option.bind_eq_some_iff.mpr ⟨array, made, held⟩)
  have room := showFiles_length showed
  have front : (bytes "----- Caractéristiques du programme ").length + (bytes " -----\n").length = 44 := by decide
  have brackets : (bytes "[] ").length = 3 := by decide
  simp only [header, List.length_append]
  unfold lineRoom LINE_MAX_LENGTH at room
  unfold PID_NB_NUMBER at name
  omega

end LocalServer.Info
