import LocalServer.CcpArguments
import LocalServer.CommandTube
import LocalServer.Info
import LocalServer.UsualCommand

/-! What the children of custom commands write. Nobody empties the tube before such a child
has exited, so that it matters how much this is. -/
namespace LocalServer.CustomOutput
open Ccp Commands Getopt
open CommandTube (NeverStuck)
open Handler (Session MAX_COMMAND_LENGTH)
open Info (execInfo)
open ShmQueue (ShmRequest)
open UsualCommand (EXEC_FAILED)

/-! ## The commands `help` and `uinfo` -/

def printCommands : List Byte :=
  ["Liste des commandes usuelles disponibles :\n",
   "    - \x1b[0;36mls ...\x1b[0m : Toutes les variantes de ls.\n",
   "    - \x1b[0;36mps ...\x1b[0m : Toutes les variantes de ps.\n",
   "    - \x1b[0;36mpwd ... \x1b[0m : Toutes les variantes de pwd.\n",
   "    - \x1b[0;36mrm ... \x1b[0m : Toutes les variantes de rm.\n",
   "    - \x1b[0;36mmkdir ... \x1b[0m : Toutes les variantes de mkdir.\n",
   "    - \x1b[0;36mtouch ... \x1b[0m : Toutes les variantes de touch.\n",
   "    - \x1b[0;36mexit\x1b[0m : Permet de se déconnecter du serveur.\n\n",
   "Liste des commandes personnalisées disponibles :\n",
   "    - \x1b[0;36minfo <PID>\x1b[0m : Affiche sur la sortie standard les ",
   "informations concernant le processus de numéro PID.\n",
   "    - \x1b[0;36mccp -f <src> -d <dest> -[v|a|b|e]\x1b[0m : Copie src ",
   "dans le fichier dest. -v permet de vérifier si le fichier existe déjà, ",
   "-a permet de copier en mode ajout, -b et -e permettent respectivement ",
   "de définir un offset de début et de fin.\n",
   "    - \x1b[0;36mlsl\x1b[0m : Commande raccourcie de ls -ali.\n",
   "    - \x1b[0;36muinfo\x1b[0m : Vos informations utilisateurs.\n"].flatMap bytes

/-- `exec_help`: what it prints, and what it returns. -/
def execHelp : List Byte × Int := (printCommands, 1)

/-- `struct passwd`, as far as it is printed. -/
structure Passwd where
  pwName : List Byte
  pwUid : Nat
  pwGid : Nat
  pwDir : List Byte
  pwShell : List Byte

/-- `%d` for an unsigned number of 32 bits. -/
def signed (n : Nat) : List Byte := Yml.decimal ((n : Int).bmod (2 ^ 32))

def Passwd.text (result : Passwd) : List Byte :=
  bytes "Nom d'utilisateur : " ++ result.pwName ++ bytes "\nUID : " ++ signed result.pwUid ++
    bytes "\nGID : " ++ signed result.pwGid ++ bytes "\nRépertoire home : " ++ result.pwDir ++
    bytes "\nShell : " ++ result.pwShell ++ bytes "\n"

/-- `exec_uinfo`. A user who is not found is printed all the same, through a null pointer. -/
def execUinfo (shmReq : ShmRequest) (getpwuid : Nat → Option Passwd) : Option (List Byte × Int) :=
  (getpwuid shmReq.uid).map fun result => (result.text, 1)

/-! ## The child -/

/-- What the child writes whose command printed this and returned `r`. Standard error is not
buffered. -/
def childWrites (stderr stdout : List Byte) (r : Int) : List Byte :=
  stderr ++ (if r < 0 then EXEC_FAILED else []) ++ stdout

/-- What a child can write that executes a custom command other than `lsl`. The files of
`ccp` are regular ones: with `/dev/stdout` as its destination it would write them into the
tube, and it would wait in the `open` of a FIFO. -/
inductive Writes (shmReq : ShmRequest) (getpwuid : Nat → Option Passwd) :
    Function → List (List Byte) → List Byte → Prop
  | help {argv : List (List Byte)} :
    Writes shmReq getpwuid .execHelp argv (childWrites [] execHelp.1 execHelp.2)
  | info {argv : List (List Byte)} (memory : Bool × Bool) (files : List Byte → Option (List Byte)) (out : List Byte)
    (r : Int) (ran : execInfo shmReq.pid argv memory files = some (out, r)) :
    Writes shmReq getpwuid .execInfo argv (childWrites [] out r)
  | ccp {Place : Type} [DecidableEq Place] {argv : List (List Byte)} (fs : Files Place) (answers : Ccp.Answers)
    (fuel : Nat) (outcome : Ccp.Outcome Place) (ran : execCcp fs argv answers fuel = .ok outcome) :
    Writes shmReq getpwuid .execCcp argv (childWrites outcome.stderr [] outcome.value)
  | uinfo {argv : List (List Byte)} (text : List Byte) (r : Int) (ran : execUinfo shmReq getpwuid = some (text, r)) :
    Writes shmReq getpwuid .execUinfo argv (childWrites [] text r)

/-! ## How much it is -/

variable {n : Nat} {argv : List (List Byte)} {o : Variables} {complaint : Complaint} {opts : List CcpOption}

theorem strtol_range (s : List Byte) : -2 ^ 63 ≤ Yml.strtol s ∧ Yml.strtol s < 2 ^ 63 := by
  unfold Yml.strtol
  split
  · decide
  · dsimp only
    split_ifs <;> omega

/-- A `long` is printed in twenty bytes. -/
theorem decimal_length {z : Int} (low : -2 ^ 63 ≤ z) (high : z < 2 ^ 63) : (Yml.decimal z).length ≤ 20 := by
  have digits := (Info.digits_length_le_iff z.natAbs 18).mpr (by omega)
  rw [Yml.decimal, List.length_append]
  split
  · rw [List.length_singleton]
    omega
  · rw [List.length_nil]
    omega

/-- What is complained about before a file is opened does not name it. -/
theorem readOption_complaint {opt : CcpOption} (refused : readOption o opt = .error complaint) :
    complaint.text.length ≤ 64 := by
  cases opt with
  | flag letter => cases letter <;> cases refused
  | value letter optarg =>
    cases letter with
    | f | d => cases refused
    | b | e =>
      rw [readOption] at refused
      split at refused
      · cases refused
        decide
      · cases refused
  | missing optopt =>
    cases refused
    cases optopt <;> decide
  | unknown optopt =>
    cases refused
    rw [Complaint.text]
    split
    · have around : (bytes "Unknown option `-").length + (bytes "'.\n").length ≤ 63 := by decide
      rw [List.length_append, List.length_append, List.length_singleton]
      omega
    · decide

theorem readOptions_complaint (refused : readOptions o opts = .error complaint) : complaint.text.length ≤ 64 := by
  induction opts generalizing o with
  | nil => cases refused
  | cons opt opts ih =>
    rw [readOptions] at refused
    split at refused
    · next first =>
      cases refused
      exact readOption_complaint first
    · exact ih refused

theorem readArguments_complaint (refused : readArguments argv = .error complaint) : complaint.text.length ≤ 64 := by
  rw [readArguments] at refused
  split at refused
  · cases refused
    decide
  · exact readOptions_complaint refused

/-- The line of `getopt` has the name of the command and a letter. -/
theorem getoptText_length (short : ∀ arg ∈ argv, arg.length ≤ n) :
    (complaint.getoptText argv).length ≤ n + 64 := by
  have name : (argv.headD []).length ≤ n := by
    cases argv with
    | nil => exact Nat.zero_le n
    | cons command arguments => exact short command List.mem_cons_self
  cases complaint with
  | noValue optopt =>
    have around : (bytes ": option requires an argument -- '").length + (bytes "'\n").length ≤ 63 := by decide
    simp only [Complaint.getoptText, List.length_append, List.length_singleton]
    omega
  | unknownOption optopt =>
    have around : (bytes ": invalid option -- '").length + (bytes "'\n").length ≤ 63 := by decide
    simp only [Complaint.getoptText, List.length_append, List.length_singleton]
    omega
  | _ => exact Nat.zero_le _

/-- A name that the options give is as long as an argument at most. -/
theorem given_length {letter : Letter} {optarg : List Byte} (short : ∀ arg ∈ argv, arg.length ≤ n)
    (found : given letter (options argv) = some optarg) : optarg.length ≤ n := by
  obtain ⟨arg, among, ends⟩ := mem_getopt (mem_of_given found)
  exact ends.length_le.trans (short arg (List.mem_of_mem_tail among))

variable {Place : Type} [DecidableEq Place] {fs : Files Place} {answers : Ccp.Answers} {fuel : Nat} {outcome : Ccp.Outcome Place}

omit [DecidableEq Place] in
theorem finish_stderr (opened : List (List Byte)) (result : Files Place × Int) : (finish opened result).stderr.length ≤ 64 := by
  obtain ⟨fs, ccpR⟩ := result
  rw [finish]
  split
  · rw [giveUp]
    split
    · exact (show (Complaint.text .readError).length ≤ 64 by decide)
    · exact (show (Complaint.text .writeError).length ≤ 64 by decide)
  · exact Nat.zero_le _

theorem openAndCopy_stderr (src : ∀ srcFile, o.srcFile = some srcFile → srcFile.length ≤ n)
    (dest : ∀ destFile, o.destFile = some destFile → destFile.length ≤ n) (low : -2 ^ 63 ≤ o.bvalue)
    (high : o.bvalue < 2 ^ 63) (ran : openAndCopy fs o answers fuel = .ok outcome) : outcome.stderr.length ≤ n + 64 := by
  have named {file : List Byte} (short : file.length ≤ n) : (Complaint.cannotOpen file).text.length ≤ n + 64 := by
    have around : (bytes "Cannot open ").length + (bytes ".\n").length ≤ 64 := by decide
    rw [Complaint.text, List.length_append, List.length_append]
    omega
  rw [openAndCopy] at ran
  split at ran
  · cases ran
  · next srcFile given =>
    split at ran
    · cases ran
      exact named (src srcFile given)
    · split at ran
      · cases ran
        have number := decimal_length low high
        have front : (bytes "Cannot seek file to value ").length ≤ 44 := by decide
        rw [giveUp, Complaint.text, List.length_append]
        omega
      · split at ran
        · cases ran
        · next destFile given =>
          split at ran
          · cases ran
            exact named (dest destFile given)
          · obtain ⟨result, -, rfl⟩ := map_eq_ok_iff.mp ran
            exact (finish_stderr _ result).trans (Nat.le_add_left ..)

theorem execCcp_stderr (short : ∀ arg ∈ argv, arg.length ≤ n) (ran : execCcp fs argv answers fuel = .ok outcome) :
    outcome.stderr.length ≤ n + 128 := by
  rw [execCcp] at ran
  split at ran
  · next complaint refused =>
    cases ran
    have own := readArguments_complaint refused
    have before : (complaint.getoptText argv).length ≤ n + 64 := getoptText_length short
    rw [List.length_append]
    omega
  · next o accepted =>
    obtain ⟨-, -, rfl⟩ := readArguments_ok_iff.mp accepted
    have range : -2 ^ 63 ≤ (given .b (options argv)).elim 0 atol ∧ (given .b (options argv)).elim 0 atol < 2 ^ 63 := by
      cases given .b (options argv) with
      | none => decide
      | some optarg => exact strtol_range optarg
    have bound := openAndCopy_stderr (fun _ => given_length short) (fun _ => given_length short) range.1 range.2 ran
    omega

end LocalServer.CustomOutput
