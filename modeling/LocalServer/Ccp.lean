import LocalServer.Configuration
import LocalServer.ExecCommand
import LocalServer.Lib.Files
import LocalServer.Lib.Getopt

/-! The command `ccp`: its options are read one after the other, each of them checked
against those before it, and then one file is copied into another byte by byte. -/
namespace LocalServer.Ccp
open CList (Fault)
open Commands (EXEC_ERROR)
open Files Getopt

/-! ## The options -/

def DASH : Byte := 45

/-- The options without a value: `-v` and `-a`. -/
inductive Flag where
  | v | a
  deriving DecidableEq

/-- The options with a value: `-f`, `-d`, `-b` and `-e`. -/
inductive Letter where
  | f | d | b | e
  deriving DecidableEq

def Letter.byte : Letter → Byte
  | .f => 102
  | .d => 100
  | .b => 98
  | .e => 101

/-- `"f:d:vab:e:"`. -/
def optstring (c : Byte) : Option (Flag ⊕ Letter) :=
  if c = 118 then some (.inl .v)
  else if c = 97 then some (.inl .a)
  else if c = Letter.f.byte then some (.inr .f)
  else if c = Letter.d.byte then some (.inr .d)
  else if c = Letter.b.byte then some (.inr .b)
  else if c = Letter.e.byte then some (.inr .e)
  else none

abbrev CcpOption := Opt Byte Flag Letter

/-- The options of an argument vector, without the name of the command. -/
def options (argv : List (List Byte)) : List CcpOption := getopt DASH optstring argv.tail

/-- `atol`. -/
def atol (s : List Byte) : Int := Yml.strtol s

/-- The variables of `exec_ccp` that the options set. The two names are not
initialised. -/
structure Variables where
  srcFile : Option (List Byte)
  destFile : Option (List Byte)
  srcMode : List OpenFlag
  destMode : List OpenFlag
  bvalue : Int
  evalue : Int
  deriving DecidableEq

def Variables.init : Variables := ⟨none, none, [], [.trunc], 0, -1⟩

/-- `isprint`. -/
def isprint (c : Byte) : Bool := 32 ≤ c && c ≤ 126

/-- Why `exec_ccp` gives up. -/
inductive Complaint where
  | noArguments
  | badStart
  | badEnd
  | noValue (optopt : Letter)
  | unknownOption (optopt : Byte)
  | cannotOpen (file : List Byte)
  | cannotSeek (bvalue : Int)
  | readError
  | writeError
  deriving DecidableEq

/-- What `exec_ccp` prints on `stderr` before it gives up. -/
def Complaint.text : Complaint → List Byte
  | .noArguments => bytes "Arguments manquants, tapez help pour plus d'information\n"
  | .badStart => bytes "Value of -b must be positive.\n"
  | .badEnd => bytes "Value of -e must be positive and greater than -b.\n"
  | .noValue optopt => bytes "Option -" ++ [optopt.byte] ++ bytes " need value.\n"
  | .unknownOption optopt =>
    if isprint optopt then bytes "Unknown option `-" ++ [optopt] ++ bytes "'.\n"
    else bytes "Unknown option, use -h for help"
  | .cannotOpen file => bytes "Cannot open " ++ file ++ bytes ".\n"
  | .cannotSeek bvalue => bytes "Cannot seek file to value " ++ Yml.decimal bvalue
  | .readError => bytes "Read error.\n"
  | .writeError => bytes "Write error.\n"

/-- What `getopt` has printed before, as nobody clears `opterr`. -/
def Complaint.getoptText (argv : List (List Byte)) : Complaint → List Byte
  | .noValue optopt =>
    argv.headD [] ++ bytes ": option requires an argument -- '" ++ [optopt.byte] ++ bytes "'\n"
  | .unknownOption optopt => argv.headD [] ++ bytes ": invalid option -- '" ++ [optopt] ++ bytes "'\n"
  | _ => []

/-- The `switch` of `exec_ccp`. Its `default` has no case, as `getopt` finds no other
letters. -/
def readOption (o : Variables) : CcpOption → Except Complaint Variables
  | .value .f optarg => .ok { o with srcFile := some optarg }
  | .value .d optarg => .ok { o with destFile := some optarg }
  | .flag .v => .ok { o with srcMode := [.excl] }
  | .flag .a => .ok { o with destMode := [.append] }
  | .value .b optarg =>
    if atol optarg < 0 then .error .badStart else .ok { o with bvalue := atol optarg }
  | .value .e optarg =>
    if atol optarg < o.bvalue then .error .badEnd else .ok { o with evalue := atol optarg }
  | .missing optopt => .error (.noValue optopt)
  | .unknown optopt => .error (.unknownOption optopt)

/-- The loop over the options. -/
def readOptions : Variables → List CcpOption → Except Complaint Variables
  | o, [] => .ok o
  | o, opt :: opts =>
    match readOption o opt with
    | .error complaint => .error complaint
    | .ok o => readOptions o opts

/-- What `exec_ccp` does before it opens a file. -/
def readArguments (argv : List (List Byte)) : Except Complaint Variables :=
  if argv.length = 1 then .error .noArguments else readOptions .init (options argv)

/-! ## The copy -/

def READ_ERROR : Int := -1
def WRITE_ERROR : Int := -2

variable {Place : Type*} [DecidableEq Place]

/-- The files, named by strings. -/
abbrev Files (Place : Type*) := FileSystem (List Byte) Place Byte

/-- Which calls of one round of the loop work. -/
structure Round where
  tells : Bool
  reads : Bool
  writes : Bool

/-- Which calls of `exec_ccp` work. -/
structure Answers where
  srcOpens : Bool
  seeks : Bool
  destOpens : Bool
  rounds : Nat → Round

/-- `TELL`. -/
def tell (fd : Descriptor Place) (works : Bool) : Int := if works then fd.offset else -1

/-- `ccp`, which reads from the one file and writes into the other. -/
def ccp (fs : Files Place) (src dest : Descriptor Place) (max : Int) (rounds : Nat → Round) :
    Nat → Except Fault (Files Place × Int)
  | 0 => .error .endless
  | fuel + 1 =>
    if max = -1 ∨ tell dest (rounds 0).tells ≠ max then
      if (rounds 0).reads = false then .ok (fs, READ_ERROR)
      else
        match fs.read src with
        | none => .ok (fs, 0)
        | some (buffer, src) =>
          if (rounds 0).writes = false then .ok (fs, WRITE_ERROR)
          else
            ccp (fs.write dest buffer).1 src (fs.write dest buffer).2 max (fun n => rounds (n + 1)) fuel
    else .ok (fs, 0)

/-- What a call of `exec_ccp` leaves: the files, the value it returns, what has been
printed on `stderr`, and the files it has called `open` for. -/
structure Outcome (Place : Type*) where
  files : Files Place
  value : Int
  stderr : List Byte
  opened : List (List Byte)

/-- `exec_ccp` gives up. -/
def giveUp (fs : Files Place) (complaint : Complaint) (opened : List (List Byte)) : Outcome Place :=
  ⟨fs, EXEC_ERROR, complaint.text, opened⟩

/-- `open`, which can also fail. -/
def tryOpen (fs : Files Place) (file : List Byte) (flags : List OpenFlag) (works : Bool) :
    Option (Files Place × Descriptor Place) :=
  if works then fs.openFile file flags else none

/-- `exec_ccp` behind the copy. -/
def finish (opened : List (List Byte)) : Files Place × Int → Outcome Place
  | (fs, ccpR) =>
    if ccpR ≠ 0 then giveUp fs (if ccpR = READ_ERROR then .readError else .writeError) opened
    else ⟨fs, 1, [], opened⟩

/-- `exec_ccp` behind the loop over the options. -/
def openAndCopy (fs : Files Place) (o : Variables) (answers : Answers) (fuel : Nat) :
    Except Fault (Outcome Place) :=
  match o.srcFile with
  | none => .error .undefined
  | some srcFile =>
    match tryOpen fs srcFile (.creat :: o.srcMode) answers.srcOpens with
    | none => .ok (giveUp fs (.cannotOpen srcFile) [srcFile])
    | some (fs, srcFd) =>
      if answers.seeks = false ∨ o.bvalue < 0 then .ok (giveUp fs (.cannotSeek o.bvalue) [srcFile])
      else
        match o.destFile with
        | none => .error .undefined
        | some destFile =>
          match tryOpen fs destFile (.creat :: .wronly :: o.destMode) answers.destOpens with
          | none => .ok (giveUp fs (.cannotOpen destFile) [srcFile, destFile])
          | some (fs, destFd) =>
            (ccp fs { srcFd with offset := o.bvalue.toNat } destFd o.evalue answers.rounds fuel).map
              (finish [srcFile, destFile])

/-- `exec_ccp`. -/
def execCcp (fs : Files Place) (argv : List (List Byte)) (answers : Answers) (fuel : Nat) :
    Except Fault (Outcome Place) :=
  match readArguments argv with
  | .error complaint =>
    .ok { giveUp fs complaint [] with stderr := complaint.getoptText argv ++ complaint.text }
  | .ok o => openAndCopy fs o answers fuel

theorem map_eq_ok_iff {α β : Type*} {f : α → β} {result : Except Fault α} {b : β} :
    result.map f = .ok b ↔ ∃ a, result = .ok a ∧ f a = b := by
  cases result <;> simp [Except.map]

theorem map_eq_error_iff {α β : Type*} {f : α → β} {result : Except Fault α} {fault : Fault} :
    result.map f = .error fault ↔ result = .error fault := by
  cases result <;> simp [Except.map]

omit [DecidableEq Place] in
@[simp] theorem finish_opened (opened : List (List Byte)) (result : Files Place × Int) :
    (finish opened result).opened = opened := by
  obtain ⟨fs, ccpR⟩ := result
  rw [finish]
  split <;> rfl

omit [DecidableEq Place] in
@[simp] theorem finish_files (opened : List (List Byte)) (result : Files Place × Int) :
    (finish opened result).files = result.1 := by
  obtain ⟨fs, ccpR⟩ := result
  rw [finish]
  split <;> rfl

/-! ## What a call can do -/

/-- How a call with both names goes: it gives up at one of the three calls before the
copy, or it copies. -/
inductive Course (fs : Files Place) (o : Variables) (answers : Answers) (fuel : Nat)
    (srcFile destFile : List Byte) : Except Fault (Outcome Place) → Prop
  | noSource (closed : tryOpen fs srcFile (.creat :: o.srcMode) answers.srcOpens = none) :
    Course fs o answers fuel srcFile destFile (.ok (giveUp fs (.cannotOpen srcFile) [srcFile]))
  | noStart (fs₁ : Files Place) (srcFd : Descriptor Place)
    (source : tryOpen fs srcFile (.creat :: o.srcMode) answers.srcOpens = some (fs₁, srcFd))
    (fails : answers.seeks = false ∨ o.bvalue < 0) :
    Course fs o answers fuel srcFile destFile (.ok (giveUp fs₁ (.cannotSeek o.bvalue) [srcFile]))
  | noDest (fs₁ : Files Place) (srcFd : Descriptor Place)
    (source : tryOpen fs srcFile (.creat :: o.srcMode) answers.srcOpens = some (fs₁, srcFd))
    (closed : tryOpen fs₁ destFile (.creat :: .wronly :: o.destMode) answers.destOpens = none) :
    Course fs o answers fuel srcFile destFile
      (.ok (giveUp fs₁ (.cannotOpen destFile) [srcFile, destFile]))
  | copies (fs₁ fs₂ : Files Place) (srcFd destFd : Descriptor Place)
    (source : tryOpen fs srcFile (.creat :: o.srcMode) answers.srcOpens = some (fs₁, srcFd))
    (seeks : answers.seeks = true ∧ 0 ≤ o.bvalue)
    (dest : tryOpen fs₁ destFile (.creat :: .wronly :: o.destMode) answers.destOpens =
      some (fs₂, destFd)) :
    Course fs o answers fuel srcFile destFile
      ((ccp fs₂ { srcFd with offset := o.bvalue.toNat } destFd o.evalue answers.rounds fuel).map
        (finish [srcFile, destFile]))

variable {o : Variables} {srcFile destFile : List Byte}

theorem course (fs : Files Place) (answers : Answers) (fuel : Nat) (src : o.srcFile = some srcFile)
    (dest : o.destFile = some destFile) :
    Course fs o answers fuel srcFile destFile (openAndCopy fs o answers fuel) := by
  simp only [openAndCopy, src, dest]
  cases source : tryOpen fs srcFile (.creat :: o.srcMode) answers.srcOpens with
  | none => exact .noSource source
  | some opened =>
    obtain ⟨fs₁, srcFd⟩ := opened
    by_cases fails : answers.seeks = false ∨ o.bvalue < 0
    · simp only [fails, if_true]
      exact .noStart fs₁ srcFd source fails
    · have seeks : answers.seeks = true ∧ 0 ≤ o.bvalue := by simpa using fails
      simp only [fails, if_false]
      cases dest : tryOpen fs₁ destFile (.creat :: .wronly :: o.destMode) answers.destOpens with
      | none => exact .noDest fs₁ srcFd source dest
      | some opened =>
        obtain ⟨fs₂, destFd⟩ := opened
        exact .copies fs₁ fs₂ srcFd destFd source seeks dest

end LocalServer.Ccp
