import LocalServer.CommandTube
import LocalServer.Configuration
import LocalServer.CustomCommand
import LocalServer.RequestPipe
import LocalServer.Strmode

/-! The command `lsl`, which lists a directory. The name of the directory is built in an
array that is not set before, and each file is looked up by its name once more when its
line is printed. -/
namespace LocalServer.Listing
open Commands Handler RequestPipe ShmQueue Strmode
open Yml (digits)

def PATH_MAX : Nat := 4096
def FILE_NOT_FOUND : Int := -1
def PRINT_ERROR : Int := -2
def COLOR_SIZE : Nat := 9
def SLASH : Byte := 47

/-! ## One file -/

/-- What `lstat` finds, with the names that belong to the owner and to the group and with
what `strftime` makes of the time, which is nothing if there is no room for it. -/
structure Stats where
  ino : Nat
  mode : UInt32
  nlink : Nat
  user : Option (List Byte)
  group : Option (List Byte)
  size : Nat
  date : List Byte

/-- The string of `get_color`, in an array that it fits. -/
def getColor (t : Byte) : List Byte :=
  if t = FileType.dir.char then bytes "\x1b[1;34m"
  else if t = FileType.lnk.char then bytes "\x1b[1;36m"
  else if t = FileType.blk.char ∨ t = FileType.chr.char ∨ t = FileType.fifo.char then bytes "\x1b[1;33m"
  else if t = FileType.sock.char then bytes "\x1b[1;45m"
  else []

theorem getColor_fits (t : Byte) : (getColor t).length ≤ COLOR_SIZE := by
  unfold getColor
  split_ifs <;> decide

/-- `%-8s` and the like. -/
def padded (width : Nat) (text : List Byte) : List Byte := text ++ List.replicate (width - text.length) SPACE

/-- `tolower`. -/
def tolower (c : Byte) : Byte := if 65 ≤ c ∧ c ≤ 90 then c + 32 else c

/-- `print_file_info`, given what lies in the array for the mode: what it prints, and what
it returns. There is no result where it reads the name of nobody. -/
def printFileInfo (filepath : List Byte) (stats : Option Stats) (stack : CharArray (MODE_STR_LENGTH + 1)) :
    Option (List Byte × Int) :=
  match stats with
  | none => some ([], FILE_NOT_FOUND)
  | some stats =>
    let mode := strmode stats.mode stack.bytes (MODE_STR_LENGTH + 1)
    let warning := if mode.2 ≠ 0 then bytes "Warning : Mode tronqué\n" else []
    if stats.date = [] then
      some (warning ++ bytes "Erreur : Impossible d'écrire la date de dernière modification\n", PRINT_ERROR)
    else
      match stats.user, stats.group with
      | some user, some group =>
        let columns := [padded 8 (digits stats.ino), cstr mode.1, padded 4 (digits stats.nlink), padded 8 user,
          padded 8 group, padded 10 (digits stats.size), stats.date.modifyHead tolower]
        some (warning ++ columns.flatMap (· ++ [SPACE]) ++ getColor (mode.1.getD 0 0) ++ filepath ++ bytes "\x1b[0m\n", 0)
      | _, _ => none

/-! ## The directory -/

/-- What the calls to the system find: the entries of a directory in the order of `readdir`,
the files by their names, whether the lookup of a file leaves `errno` set, what lies in the
array for its mode, and whether `readdir` fails at the end and `closedir` works. -/
structure World where
  opendir : List Byte → Option (List (List Byte))
  lstat : List Byte → Option Stats
  errs : List Byte → Bool
  stack : List Byte → CharArray (MODE_STR_LENGTH + 1)
  readFails : Bool
  closes : Bool

/-- `strcat(dst, src)`, into an array that has the room for it. -/
def strcat (dst src : List Byte) : Option (List Byte) :=
  let text := cstr dst ++ cstr src
  if text.length < dst.length then some (text ++ 0 :: dst.drop (text.length + 1)) else none

/-- What is in `dir_path`, or nothing if the path is found too long. The outer result is
missing where a byte in front of the argument is read or one behind the array written. -/
def dirPath (argv : List (List Byte)) (stack : CharArray (PATH_MAX + 1)) : Option (Option (List Byte)) :=
  let arg := argv.getD 1 []
  if argv.length = 1 then some (some (cstr (strncpy stack.bytes (bytes ".") PATH_MAX)))
  else
    match arg.getLast? with
    | none => none
    | some last =>
      if last = SLASH then some (some (cstr (strncpy stack.bytes arg (PATH_MAX + 1))))
      else
        match strcat (strncpy stack.bytes arg PATH_MAX) [SLASH] with
        | none => none
        | some path => some (if path.getD PATH_MAX 0 ≠ 0 then none else some (cstr path))

def isDot (name : List Byte) : Bool := name = bytes "." ∨ name = bytes ".."

/-- The loop over the entries, with what is in front of their names and whether `errno` is set. -/
def listEntries (world : World) (front : List Byte) : List (List Byte) → Bool → Option (List Byte × Int)
  | [], errno => some ([], if errno ∨ world.readFails then EXEC_ERROR else 1)
  | name :: entries, errno =>
    if isDot name then listEntries world front entries errno
    else
      let fullname := front ++ name.take (PATH_MAX + 1)
      if PATH_MAX + 1 < fullname.length then some (bytes "Erreur : Chemin invalide\n", EXEC_ERROR)
      else
        match printFileInfo fullname (world.lstat fullname) (world.stack fullname) with
        | none => none
        | some (text, r) =>
          if r = FILE_NOT_FOUND then
            some (text ++ bytes "Erreur : Fichier innatendu " ++ fullname ++ bytes "\n", EXEC_ERROR)
          else (listEntries world front entries (errno || world.errs fullname)).map fun (rest, r) => (text ++ rest, r)

/-- `exec_lsl`: what it prints on its standard output, and what it returns. -/
def execLsl (argv : List (List Byte)) (stack : CharArray (PATH_MAX + 1)) (world : World) : Option (List Byte × Int) :=
  match dirPath argv stack with
  | none => none
  | some none => some (bytes "Erreur : Le chemin spécifié est trop long\n", EXEC_ERROR)
  | some (some dir) =>
    match world.opendir dir with
    | none => some ([], EXEC_ERROR)
    | some entries =>
      (listEntries world (if 1 < argv.length then dir else []) entries false).map fun (text, r) =>
        (text, if world.closes then r else EXEC_ERROR)

/-! ## What it is for -/

/-- The directory that is meant. -/
def directory (argv : List (List Byte)) : List Byte :=
  if argv.length = 1 then bytes "."
  else if (argv.getD 1 []).getLast? = some SLASH then argv.getD 1 [] else argv.getD 1 [] ++ [SLASH]

/-- What stands in front of the names. -/
def front (argv : List (List Byte)) : List Byte := if 1 < argv.length then directory argv else []

def visible (entries : List (List Byte)) : List (List Byte) := entries.filter fun name => ¬ isDot name

/-- The line of a file that is there. -/
def World.line (world : World) (path : List Byte) : List Byte :=
  match printFileInfo path (world.lstat path) (world.stack path) with
  | none => []
  | some (text, _) => text

/-- The file is there, its owner and its group have names, and looking them up leaves `errno` alone. -/
structure World.Shows (world : World) (path : List Byte) : Prop where
  there : (world.lstat path).isSome = true
  known : (printFileInfo path (world.lstat path) (world.stack path)).isSome = true
  quiet : world.errs path = false

/-! ## The path -/

variable {src dst text out : List Byte} {n : Nat} {argv entries : List (List Byte)} {stack : CharArray (PATH_MAX + 1)}
  {world : World} {path arg : List Byte} {stats : Option Stats} {r : Int}

/-- A copy that leaves room for the terminator is the string. -/
theorem cstr_strncpy (noNul : 0 ∉ src) (short : src.length < n) (dst : List Byte) : cstr (strncpy dst src n) = src := by
  obtain ⟨k, padding⟩ : ∃ k, n - src.length = k + 1 := ⟨n - src.length - 1, by omega⟩
  rw [strncpy, cstr_eq_self noNul, List.take_of_length_le short.le, padding, List.replicate_succ, List.append_assoc,
    List.cons_append, cstr_append_zero noNul]

/-- It leaves what lies behind its `n` bytes. -/
theorem strncpy_getD {k : Nat} (behind : n ≤ k) : (strncpy dst src n).getD k 0 = dst.getD k 0 := by
  have front : ((cstr src).take n ++ List.replicate (n - (cstr src).length) 0).length = n := by
    rw [List.length_append, List.length_take, List.length_replicate]
    omega
  rw [List.getD_eq_getElem?_getD, List.getD_eq_getElem?_getD, strncpy, List.getElem?_append_right (by rwa [front]), front,
    List.getElem?_drop, Nat.add_sub_cancel' behind]

theorem dirPath_alone (alone : argv.length = 1) : dirPath argv stack = some (some (bytes ".")) := by
  have dot : cstr (strncpy stack.bytes (bytes ".") PATH_MAX) = bytes "." := cstr_strncpy (by decide) (by decide) _
  simp only [dirPath, alone, if_true, dot]

theorem dirPath_slash (many : argv.length ≠ 1) (ends : (argv.getD 1 []).getLast? = some SLASH) (noNul : 0 ∉ argv.getD 1 [])
    (short : (argv.getD 1 []).length ≤ MAX_COMMAND_LENGTH) : dirPath argv stack = some (some (argv.getD 1 [])) := by
  have same : cstr (strncpy stack.bytes (argv.getD 1 []) (PATH_MAX + 1)) = argv.getD 1 [] :=
    cstr_strncpy noNul (short.trans_lt (by decide)) _
  simp only [dirPath, many, if_false, ends, if_true, same]

/-- A string that goes behind another one leaves the rest of the array alone. -/
theorem strcat_of_lt (room : (cstr dst).length + src.length < dst.length) (noNul : 0 ∉ src) {k : Nat}
    (behind : (cstr dst).length + src.length < k) :
    ∃ path, strcat dst src = some path ∧ cstr path = cstr dst ++ src ∧ path.getD k 0 = dst.getD k 0 := by
  have text : cstr dst ++ cstr src = cstr dst ++ src := by rw [cstr_eq_self noNul]
  have length : (cstr dst ++ src).length = (cstr dst).length + src.length := List.length_append
  have noNul' : 0 ∉ cstr dst ++ src := by simp [noNul, zero_not_mem_cstr]
  refine ⟨_, by rw [strcat, text, if_pos (by rw [length]; exact room)], cstr_append_zero noNul' _, ?_⟩
  obtain ⟨d, rfl⟩ := Nat.exists_eq_add_of_lt behind
  rw [List.getD_eq_getElem?_getD, List.getD_eq_getElem?_getD, List.getElem?_append_right (by omega), length]
  have index : (cstr dst).length + src.length + d + 1 - ((cstr dst).length + src.length) = d + 1 := by omega
  rw [index, List.getElem?_cons_succ, List.getElem?_drop]
  congr 2
  omega

/-- The test behind `strcat` looks at the last byte of the array, which no short path reaches. -/
theorem dirPath_bare {last : Byte} (many : argv.length ≠ 1) (ends : (argv.getD 1 []).getLast? = some last)
    (other : last ≠ SLASH) (noNul : 0 ∉ argv.getD 1 []) (short : (argv.getD 1 []).length ≤ MAX_COMMAND_LENGTH) :
    dirPath argv stack =
      some (if stack.bytes.getD PATH_MAX 0 ≠ 0 then none else some (argv.getD 1 [] ++ [SLASH])) := by
  have copied : cstr (strncpy stack.bytes (argv.getD 1 []) PATH_MAX) = argv.getD 1 [] :=
    cstr_strncpy noNul (short.trans_lt (by decide)) _
  have size : (strncpy stack.bytes (argv.getD 1 []) PATH_MAX).length = PATH_MAX + 1 := by
    rw [strncpy_length _ _ (by rw [stack.length_eq]; exact Nat.le_succ _), stack.length_eq]
  have reach : (argv.getD 1 []).length + 1 < PATH_MAX := (Nat.succ_le_succ short).trans_lt (by decide)
  have room : (cstr (strncpy stack.bytes (argv.getD 1 []) PATH_MAX)).length + [SLASH].length <
      (strncpy stack.bytes (argv.getD 1 []) PATH_MAX).length := by
    rw [copied, size]
    exact Nat.lt_succ_of_lt reach
  have behind : (cstr (strncpy stack.bytes (argv.getD 1 []) PATH_MAX)).length + [SLASH].length < PATH_MAX := by
    rw [copied]
    exact reach
  obtain ⟨path, appended, string, kept⟩ := strcat_of_lt room (by decide) behind
  rw [strncpy_getD (Nat.le_refl PATH_MAX)] at kept
  rw [copied] at string
  simp only [dirPath, many, if_false, ends, other, appended, string, kept]

/-! ## The entries -/

theorem printFileInfo_missing {mode : CharArray (MODE_STR_LENGTH + 1)} (printed : printFileInfo path stats mode = some (text, r)) :
    r = FILE_NOT_FOUND ↔ stats = none := by
  cases stats with
  | none =>
    cases printed
    exact iff_of_true rfl rfl
  | some stats =>
    refine iff_of_false ?_ nofun
    simp only [printFileInfo] at printed
    split at printed
    · cases printed
      decide
    · split at printed
      · cases printed
        decide
      · cases printed

/-- The loop comes to its end with success exactly if all files can be shown and nothing
has set `errno`, and has then printed their lines. -/
theorem listEntries_iff (front : List Byte) (short : ∀ name ∈ entries, front.length + name.length ≤ PATH_MAX + 1) (errno : Bool) :
    listEntries world front entries errno = some (out, 1) ↔
      errno = false ∧ world.readFails = false ∧ (∀ name ∈ visible entries, world.Shows (front ++ name)) ∧
        out = (visible entries).flatMap fun name => world.line (front ++ name) := by
  induction entries generalizing errno out with
  | nil =>
    have none : visible ([] : List (List Byte)) = [] := rfl
    rw [listEntries, none, List.flatMap_nil]
    cases errno <;> cases world.readFails <;> simp [EXEC_ERROR, eq_comm]
  | cons name entries ih =>
    have later := fun other member => short other (List.mem_cons_of_mem name member)
    by_cases dot : isDot name = true
    · have hidden : visible (name :: entries) = visible entries := by simp [visible, dot]
      rw [listEntries, if_pos dot, hidden, ih later]
    · have seen : visible (name :: entries) = name :: visible entries := by simp [visible, dot]
      have fits := short name List.mem_cons_self
      have whole : name.take (PATH_MAX + 1) = name := List.take_of_length_le (by omega)
      have inside : ¬ PATH_MAX + 1 < (front ++ name).length := by
        rw [List.length_append]
        omega
      rw [listEntries, if_neg dot, whole, if_neg inside, seen, List.forall_mem_cons, List.flatMap_cons]
      cases printed : printFileInfo (front ++ name) (world.lstat (front ++ name)) (world.stack (front ++ name)) with
      | none =>
        refine iff_of_false nofun ?_
        rintro ⟨-, -, ⟨shows, -⟩, -⟩
        have known := shows.known
        rw [printed] at known
        cases known
      | some result =>
        obtain ⟨text, r⟩ := result
        have missing := printFileInfo_missing printed
        have line : world.line (front ++ name) = text := by rw [World.line, printed]
        dsimp only
        by_cases gone : r = FILE_NOT_FOUND
        · rw [if_pos gone]
          refine iff_of_false (by simp [EXEC_ERROR]) ?_
          rintro ⟨-, -, ⟨shows, -⟩, -⟩
          have there := shows.there
          rw [missing.mp gone] at there
          cases there
        · rw [if_neg gone, line]
          have there : (world.lstat (front ++ name)).isSome = true :=
            Option.isSome_iff_ne_none.mpr fun none => gone (missing.mpr none)
          have shows : world.Shows (front ++ name) ↔ world.errs (front ++ name) = false :=
            ⟨World.Shows.quiet, fun quiet => ⟨there, by rw [printed]; rfl, quiet⟩⟩
          rw [shows, Option.map_eq_some_iff]
          constructor
          · rintro ⟨⟨rest, r'⟩, listed, same⟩
            obtain ⟨rfl, rfl⟩ := Prod.mk.inj same
            obtain ⟨quiet, reads, all, rfl⟩ := (ih later (errno || world.errs (front ++ name))).mp listed
            rw [Bool.or_eq_false_iff] at quiet
            exact ⟨quiet.1, reads, ⟨quiet.2, all⟩, rfl⟩
          · rintro ⟨quiet, reads, ⟨quiet', all⟩, rfl⟩
            exact ⟨(_, 1), (ih later (errno || world.errs (front ++ name))).mpr
              ⟨by rw [quiet, quiet']; rfl, reads, all, rfl⟩, rfl⟩

/-- A directory with one file. -/
def oneFile : World where
  opendir _ := some [bytes ".", bytes "..", bytes "a"]
  lstat _ := some ⟨7, 0o100644, 1, some (bytes "u"), some (bytes "g"), 3, bytes "Jan.  01 10:00"⟩
  errs _ := false
  stack _ := CharArray.empty _
  readFails := false
  closes := true

/-- An array with this byte at its end. -/
def endingIn (c : Byte) : CharArray (PATH_MAX + 1) := ⟨List.replicate PATH_MAX 0 ++ [c], by simp⟩

theorem endingIn_last (c : Byte) : (endingIn c).bytes.getD PATH_MAX 0 = c := by
  rw [endingIn, List.getD_eq_getElem?_getD, List.getElem?_append_right (by simp)]
  simp

/-- No line takes less: its columns of fixed width with the spaces behind them and its end, or
what is printed instead of the date. The mode and the name come on top of it. -/
def LINE_MIN_LENGTH : Nat := 51

theorem le_padded (width : Nat) (text : List Byte) : width ≤ (padded width text).length := by
  rw [padded, List.length_append, List.length_replicate]
  omega

theorem printFileInfo_length {mode : CharArray (MODE_STR_LENGTH + 1)} (there : r ≠ FILE_NOT_FOUND)
    (printed : printFileInfo path stats mode = some (text, r)) : LINE_MIN_LENGTH ≤ text.length := by
  cases stats with
  | none =>
    cases printed
    exact absurd rfl there
  | some stats =>
    simp only [printFileInfo] at printed
    split at printed
    · cases printed
      rw [List.length_append]
      exact (show LINE_MIN_LENGTH ≤ (bytes "Erreur : Impossible d'écrire la date de dernière modification\n").length
        by decide).trans (Nat.le_add_left ..)
    · next dated =>
      split at printed
      · next user group _ _ =>
        cases printed
        have date : 1 ≤ (stats.date.modifyHead tolower).length := by
          rw [List.length_modifyHead]
          exact List.length_pos_iff.mpr dated
        have ends : (bytes "\x1b[0m\n").length = 5 := by decide
        have ino := le_padded 8 (digits stats.ino)
        have nlink := le_padded 4 (digits stats.nlink)
        have userRoom := le_padded 8 user
        have groupRoom := le_padded 8 group
        have size := le_padded 10 (digits stats.size)
        simp only [List.length_append, List.flatMap_cons, List.flatMap_nil, List.length_cons, List.length_nil, ends]
        unfold LINE_MIN_LENGTH
        omega
      · cases printed

theorem listEntries_length (front : List Byte) (errno : Bool) (listed : listEntries world front entries errno = some (out, 1)) :
    LINE_MIN_LENGTH * (visible entries).length ≤ out.length := by
  induction entries generalizing errno out with
  | nil => exact Nat.zero_le _
  | cons name entries ih =>
    rw [listEntries] at listed
    by_cases dot : isDot name = true
    · have hidden : visible (name :: entries) = visible entries := by simp [visible, dot]
      rw [if_pos dot] at listed
      rw [hidden]
      exact ih errno listed
    · have seen : visible (name :: entries) = name :: visible entries := by simp [visible, dot]
      rw [if_neg dot] at listed
      dsimp only at listed
      split at listed
      · cases listed
      · split at listed
        · cases listed
        · next text r printed =>
          split at listed
          · cases listed
          · next there =>
            obtain ⟨⟨rest, r'⟩, onward, same⟩ := Option.map_eq_some_iff.mp listed
            cases same
            have least := printFileInfo_length there printed
            have others := ih _ onward
            rw [seen, List.length_cons, List.length_append, Nat.mul_succ, Nat.add_comm]
            exact Nat.add_le_add least others

/-- **`lsl` blocks the handler in a large directory.** Whatever files the directory holds,
as soon as it lists so many that 51 bytes for each, which every line has, would not fit into
the tube, the handler and the child can come to wait for each other. -/
theorem lsl_sticks_of_large (session : Session) {capacity : Nat} (holds : 1 ≤ capacity) {dir : List Byte}
    (meant : dirPath argv stack = some (some dir)) (opens : world.opendir dir = some entries)
    (listed : execLsl argv stack world = some (out, 1))
    (large : capacity < LINE_MIN_LENGTH * (visible entries).length) : ¬ CommandTube.NeverStuck session capacity out := by
  intro never
  rw [execLsl, meant] at listed
  dsimp only at listed
  rw [opens] at listed
  obtain ⟨⟨text, r⟩, ran, same⟩ := Option.map_eq_some_iff.mp listed
  obtain ⟨rfl, success⟩ := Prod.mk.inj same
  have one : r = 1 := by
    split at success
    · exact success
    · cases success
  rw [one] at ran
  obtain ⟨events, s, moved, unsent, stuck⟩ :=
    CommandTube.stuck_of_long session holds (large.trans_le (listEntries_length _ _ ran))
  exact never events s moved unsent stuck

/-- A directory with 81 files. -/
def manyNames : List (List Byte) := (List.range 81).map fun i => [UInt8.ofNat (65 + i)]

def manyFiles : World := { oneFile with opendir := fun _ => some manyNames }

theorem lsl_sticks_of_large_page : ∃ out, execLsl [bytes "lsl"] (endingIn 0) manyFiles = some (out, 1) ∧
    ¬ CommandTube.NeverStuck CommandTube.firstCommand PIPE_BUF out := by
  have meant : dirPath [bytes "lsl"] (endingIn 0) = some (some (bytes ".")) := dirPath_alone rfl
  obtain ⟨out, ran⟩ : ∃ out, listEntries manyFiles [] manyNames false = some (out, 1) :=
    ⟨_, (listEntries_iff [] (by decide +kernel) false).mpr ⟨rfl, rfl, fun _ _ => ⟨rfl, rfl, rfl⟩, rfl⟩⟩
  have listed : execLsl [bytes "lsl"] (endingIn 0) manyFiles = some (out, 1) := by
    rw [execLsl, meant]
    exact Option.map_eq_some_iff.mpr ⟨(out, 1), ran, rfl⟩
  exact ⟨out, listed, lsl_sticks_of_large _ (by decide) meant rfl listed (by decide +kernel)⟩

end LocalServer.Listing
