import LocalServer.Lib.CString

/-! The mode of a file in letters, for the listing of `lsl`. One loop writes the type
and one the permissions; each stops early in a case of its own, and what it does not
write stays in the buffer. -/
namespace LocalServer.Strmode

def MODE_STR_LENGTH : Nat := 10
def NB_FILE_TYPES : Nat := 7

/-! ## The mode -/

/-- The file types, in the order of `filetype`. -/
inductive FileType where
  | reg | dir | chr | blk | fifo | lnk | sock
  deriving DecidableEq

def S_IFMT : UInt32 := 0o170000

/-- `S_IFREG` and so on. -/
def FileType.bits : FileType → UInt32
  | .reg => 0o100000
  | .dir => 0o040000
  | .chr => 0o020000
  | .blk => 0o060000
  | .fifo => 0o010000
  | .lnk => 0o120000
  | .sock => 0o140000

/-- `S_ISREG` and so on. -/
def isType (mode : UInt32) (type : FileType) : Bool := mode &&& S_IFMT = type.bits

/-! ## The function -/

def filetype (mode : UInt32) : List Bool :=
  [isType mode .reg, isType mode .dir, isType mode .chr, isType mode .blk, isType mode .fifo,
   isType mode .lnk, isType mode .sock]

def filetypesChars : List Byte := bytes "-dcbpls"

/-- `S_IRUSR`, `S_IWUSR`, `S_IXUSR`, and the same for the group and for the others. -/
def modeMasks : List UInt32 := [0o400, 0o200, 0o100, 0o040, 0o020, 0o010, 0o004, 0o002, 0o001]

def modeChars : List Byte := bytes "rwx"

def LINK : Byte := 108
def DENIED : Byte := 45

/-- The loop over the file types. -/
def writeType (mode : UInt32) (buffer : List Byte) (n : Nat) : List Byte :=
  match (List.range (min NB_FILE_TYPES (n - 1))).find? fun i => (filetype mode).getD i false with
  | none => buffer
  | some i => buffer.set 0 (filetypesChars.getD i 0)

/-- The character that one round of the loop over the permissions writes. -/
def permission (mode : UInt32) (first : Option Byte) (i : Nat) : Byte :=
  if mode &&& modeMasks.getD (i - 1) 0 > 0 ∨ first = some LINK then modeChars.getD ((i - 1) % 3) 0
  else DENIED

/-- The loop over the permissions. -/
def writePermissions (mode : UInt32) (buffer : List Byte) (n : Nat) : List Byte :=
  (List.range' 1 (min n 9 - 1)).foldl (fun buffer i => buffer.set i (permission mode buffer[0]? i)) buffer

/-- `strmode`: what is in the buffer afterwards, and what it returns. -/
def strmode (mode : UInt32) (buffer : List Byte) (n : Nat) : List Byte × Int :=
  if n < 1 then (buffer, -1)
  else
    ((writePermissions mode (writeType mode buffer n) n).set (n - 1) 0,
      if n < MODE_STR_LENGTH + 1 then 1 else 0)

/-! ## What `ls` shows -/

def FileType.char : FileType → Byte
  | .reg => 45
  | .dir => 100
  | .chr => 99
  | .blk => 98
  | .fifo => 112
  | .lnk => 108
  | .sock => 115

/-- The place of a type among the types. -/
def FileType.index : FileType → Nat
  | .reg => 0
  | .dir => 1
  | .chr => 2
  | .blk => 3
  | .fifo => 4
  | .lnk => 5
  | .sock => 6

/-- The character of the permission with this number; a symbolic link has them all. -/
def granted (mode : UInt32) (type : FileType) (k : Nat) : Byte :=
  if type = .lnk ∨ mode.toNat.testBit (8 - k) then
    match k % 3 with
    | 0 => 114
    | 1 => 119
    | _ => 120
  else 45

/-- The ten characters. -/
def lsMode (mode : UInt32) (type : FileType) : List Byte :=
  type.char :: (List.range 9).map (granted mode type)

/-- The buffer holds as much of the mode as fits, with a terminator, and it is
otherwise as it was behind the first `n` bytes. -/
structure Renders (mode : UInt32) (type : FileType) (buffer : List Byte) (n : Nat) : Prop where
  text : (strmode mode buffer n).1.take (min (n - 1) 10 + 1) =
    (lsMode mode type).take (min (n - 1) 10) ++ [0]
  inside : (strmode mode buffer n).1.length = buffer.length ∧
    (strmode mode buffer n).1.drop n = buffer.drop n
  value : (strmode mode buffer n).2 = if 11 ≤ n then 0 else 1

variable {mode : UInt32} {type : FileType} {buffer : List Byte} {n k : Nat}

/-! ## The loops -/

theorem filetype_getD (typed : mode &&& S_IFMT = type.bits) (i : Nat) :
    (filetype mode).getD i false = decide (i = type.index) := by
  have only : ∀ other, isType mode other = decide (other = type) := by
    intro other
    rw [isType, typed]
    clear typed
    cases other <;> cases type <;> decide
  simp only [filetype, only]
  rcases i with _ | _ | _ | _ | _ | _ | _ | i <;> cases type <;> simp [FileType.index]

theorem find_range (m i : Nat) : (List.range m).find? (fun j => decide (j = i)) = if i < m then some i else none := by
  induction m with
  | zero => rfl
  | succ m ih =>
    rw [List.range_succ, List.find?_append, ih]
    by_cases here : m = i
    · simp [here]
    · by_cases before : i < m
      · simp [before, Nat.lt_succ_of_lt before]
      · simp [before, here, show ¬ i < m + 1 by omega]

theorem filetypesChars_getD (type : FileType) : filetypesChars.getD type.index 0 = type.char := by
  cases type <;> decide +kernel

/-- The type is written if its place is in reach. -/
theorem writeType_eq (typed : mode &&& S_IFMT = type.bits) :
    writeType mode buffer n = if type.index < n - 1 then buffer.set 0 type.char else buffer := by
  have reach : type.index < min NB_FILE_TYPES (n - 1) ↔ type.index < n - 1 := by
    have low : type.index < NB_FILE_TYPES := by cases type <;> decide
    rw [Nat.lt_min, and_iff_right low]
  simp only [writeType, filetype_getD typed, find_range, reach]
  by_cases reached : type.index < n - 1
  · simp only [reached, if_true, filetypesChars_getD]
  · simp only [reached, if_false]

/-- The loop over the permissions writes the places from 1 on, and it reads the first. -/
theorem foldl_set (f : Option Byte → Nat → Byte) (buffer : List Byte) (m k : Nat) :
    ((List.range' 1 m).foldl (fun buffer i => buffer.set i (f buffer[0]? i)) buffer)[k]? =
      if 1 ≤ k ∧ k ≤ m then buffer[k]?.map fun _ => f buffer[0]? k else buffer[k]? := by
  induction m generalizing k with
  | zero =>
    rw [if_neg (by omega)]
    rfl
  | succ m ih =>
    rw [List.range'_1_concat, List.foldl_append]
    have first := ih 0
    rw [if_neg (by omega)] at first
    simp only [List.foldl_cons, List.foldl_nil, first]
    by_cases last : k = 1 + m
    · subst last
      rw [List.getElem?_set_self', ih, if_neg (by omega), if_pos (by omega)]
      rfl
    · rw [List.getElem?_set_ne (Ne.symm last), ih]
      congr 1
      simp only [eq_iff_iff]
      omega

theorem writeType_length : (writeType mode buffer n).length = buffer.length := by
  rw [writeType]
  split <;> simp

/-- What is in the buffer afterwards, place by place. -/
theorem strmode_getElem? (mode : UInt32) (positive : 1 ≤ n) (room : n ≤ buffer.length) (k : Nat) :
    (strmode mode buffer n).1[k]? =
      if k = n - 1 then some 0
      else if 1 ≤ k ∧ k ≤ min n 9 - 1 then
        some (permission mode (writeType mode buffer n)[0]? k)
      else (writeType mode buffer n)[k]? := by
  have here : k < n → ∃ c, (writeType mode buffer n)[k]? = some c := by
    intro inside
    exact ⟨_, List.getElem?_eq_getElem (by rw [writeType_length]; omega)⟩
  have loop := foldl_set (permission mode) (writeType mode buffer n) (min n 9 - 1) k
  rw [strmode, if_neg (by omega)]
  by_cases last : k = n - 1
  · obtain ⟨c, here⟩ := here (by omega)
    rw [if_pos last, last, List.getElem?_set_self', ← last, writePermissions, loop, here]
    split <;> rfl
  · rw [if_neg last, List.getElem?_set_ne (Ne.symm last), writePermissions, loop]
    by_cases written : 1 ≤ k ∧ k ≤ min n 9 - 1
    · obtain ⟨c, here⟩ := here (by omega)
      rw [if_pos written, if_pos written, here]
      rfl
    · rw [if_neg written, if_neg written]

theorem strmode_length : (strmode mode buffer n).1.length = buffer.length := by
  have loop : ∀ (is : List Nat) (buffer : List Byte),
      (is.foldl (fun buffer i => buffer.set i (permission mode buffer[0]? i)) buffer).length =
        buffer.length := by
    intro is
    induction is with
    | nil => exact fun _ => rfl
    | cons i is ih =>
      intro buffer
      rw [List.foldl_cons, ih, List.length_set]
  rw [strmode]
  split
  · rfl
  · rw [List.length_set, writePermissions, loop, writeType_length]

/-! ## The permissions -/

theorem mask_bit (mode : UInt32) {i : Nat} (first : 1 ≤ i) (last : i ≤ 9) :
    mode &&& modeMasks.getD (i - 1) 0 > 0 ↔ mode.toNat.testBit (9 - i) = true := by
  have power : (modeMasks.getD (i - 1) 0).toNat = 2 ^ (9 - i) := by
    interval_cases i <;> rfl
  rw [gt_iff_lt, UInt32.lt_iff_toNat_lt, UInt32.toNat_and, power, Nat.and_two_pow]
  cases mode.toNat.testBit (9 - i) <;> simp

/-- When the type stands in the buffer, the loop writes what `ls` shows. -/
theorem permission_eq (mode : UInt32) (type : FileType) {i : Nat} (first : 1 ≤ i) (last : i ≤ 9) :
    some (permission mode (some type.char) i) = (lsMode mode type)[i]? := by
  obtain ⟨i, rfl⟩ := Nat.exists_eq_add_of_le' first
  have link : some type.char = some LINK ↔ type = .lnk := by
    cases type <;> decide
  have letters : modeChars.getD (i % 3) 0 = match i % 3 with
      | 0 => 114
      | 1 => 119
      | _ => 120 := by
    have small := Nat.mod_lt i (show 0 < 3 by decide)
    interval_cases i % 3 <;> decide +kernel
  have shift : 9 - (i + 1) = 8 - i := by omega
  have condition : (mode &&& modeMasks.getD (i + 1 - 1) 0 > 0 ∨ some type.char = some LINK) ↔
      (type = .lnk ∨ mode.toNat.testBit (8 - i) = true) := by
    rw [mask_bit mode first last, link, shift, or_comm]
  rw [lsMode, List.getElem?_cons_succ, List.getElem?_map, List.getElem?_range (by omega), Option.map_some]
  congr 1
  exact if_congr condition letters rfl

/-! ## Rendering -/

theorem lsMode_length : (lsMode mode type).length = 10 := by simp [lsMode]

/-- The text is right if each of its places is, and there is a terminator behind them. -/
theorem text_iff :
    (strmode mode buffer n).1.take (min (n - 1) 10 + 1) = (lsMode mode type).take (min (n - 1) 10) ++ [0] ↔
      (∀ k < min (n - 1) 10, (strmode mode buffer n).1[k]? = (lsMode mode type)[k]?) ∧
      (strmode mode buffer n).1[min (n - 1) 10]? = some 0 := by
  have cut : ((lsMode mode type).take (min (n - 1) 10)).length = min (n - 1) 10 := by
    rw [List.length_take, lsMode_length]
    omega
  rw [List.ext_getElem?_iff]
  constructor
  · intro same
    refine ⟨fun k small => ?_, ?_⟩
    · have here := same k
      rwa [List.getElem?_take_of_lt (by omega), List.getElem?_append_left (by omega),
        List.getElem?_take_of_lt small] at here
    · have here := same (min (n - 1) 10)
      rw [List.getElem?_take_of_lt (by omega), List.getElem?_append_right (by omega), cut,
        Nat.sub_self] at here
      exact here
  · rintro ⟨places, ending⟩ k
    rcases lt_trichotomy k (min (n - 1) 10) with small | rfl | large
    · rw [List.getElem?_take_of_lt (by omega), List.getElem?_append_left (by omega),
        List.getElem?_take_of_lt small]
      exact places k small
    · rw [List.getElem?_take_of_lt (by omega), List.getElem?_append_right (by omega), cut, Nat.sub_self]
      exact ending
    · rw [List.getElem?_eq_none (by rw [List.length_take]; omega), List.getElem?_eq_none]
      simp only [List.length_append, cut, List.length_singleton]
      omega

/-- The first loop only writes the first place. -/
theorem writeType_kept (typed : mode &&& S_IFMT = type.bits) {k : Nat} (later : 1 ≤ k) :
    (writeType mode buffer n)[k]? = buffer[k]? := by
  rw [writeType_eq typed]
  split
  · rw [List.getElem?_set_ne (by omega)]
  · rfl

/-- The type stands there if the loop gets as far as it, or if it stood there before. -/
theorem writeType_first (typed : mode &&& S_IFMT = type.bits) (nonempty : 0 < buffer.length) :
    (writeType mode buffer n)[0]? = some type.char ↔
      type.index < n - 1 ∨ buffer[0]? = some type.char := by
  rw [writeType_eq typed]
  split
  · next reached => simp [reached, nonempty]
  · next short => simp [short]

/-- Places that no loop writes and the terminator does not take. -/
theorem strmode_kept (typed : mode &&& S_IFMT = type.bits) (positive : 1 ≤ n) (room : n ≤ buffer.length)
    {k : Nat} (later : 9 ≤ k) (other : k ≠ n - 1) : (strmode mode buffer n).1[k]? = buffer[k]? := by
  rw [strmode_getElem? mode positive room, if_neg other, if_neg (by omega),
    writeType_kept typed (by omega)]

/-- The mode is rendered, if the type is in reach or already there and, where all ten
characters fit, the buffer already holds the last of them and a terminator behind it. -/
theorem strmode_renders_iff (mode : UInt32) (type : FileType) (buffer : List Byte) (n : Nat)
    (typed : mode &&& S_IFMT = type.bits) (positive : 1 ≤ n) (room : n ≤ buffer.length) :
    Renders mode type buffer n ↔
      (2 ≤ n → type.index < n - 1 ∨ buffer[0]? = some type.char) ∧
      (11 ≤ n → buffer[9]? = (lsMode mode type)[9]?) ∧
      (12 ≤ n → buffer[10]? = some 0) := by
  have place := strmode_getElem? mode positive room
  have first : (writeType mode buffer n)[0]? = some type.char ↔ _ :=
    writeType_first typed (show 0 < buffer.length by omega)
  have start : 2 ≤ n → (strmode mode buffer n).1[0]? = (writeType mode buffer n)[0]? := by
    intro more
    rw [place, if_neg (by omega), if_neg (by omega)]
  constructor
  · rintro ⟨text, -, -⟩
    obtain ⟨places, ending⟩ := text_iff.mp text
    refine ⟨fun more => ?_, fun all => ?_, fun more => ?_⟩
    · have here := places 0 (by omega)
      rw [start more] at here
      exact first.mp here
    · rw [← strmode_kept typed positive room (Nat.le_refl 9) (by omega)]
      exact places 9 (by omega)
    · have here := strmode_kept typed positive room (show 9 ≤ 10 by omega) (by omega)
      rw [← here]
      simpa [show min (n - 1) 10 = 10 by omega] using ending
  · rintro ⟨typeThere, lastThere, endThere⟩
    refine ⟨text_iff.mpr ⟨fun k small => ?_, ?_⟩, ⟨strmode_length, ?_⟩, ?_⟩
    · have typeHere := first.mpr (typeThere (by omega))
      rcases Nat.eq_zero_or_pos k with rfl | later
      · rw [start (by omega), typeHere]
        rfl
      · by_cases written : k ≤ min n 9 - 1
        · rw [place, if_neg (by omega), if_pos ⟨later, written⟩, typeHere]
          exact permission_eq mode type later (by omega)
        · obtain rfl : k = 9 := by omega
          rw [strmode_kept typed positive room (Nat.le_refl 9) (by omega)]
          exact lastThere (by omega)
    · by_cases more : 12 ≤ n
      · rw [show min (n - 1) 10 = 10 by omega,
          strmode_kept typed positive room (show 9 ≤ 10 by omega) (by omega)]
        exact endThere more
      · rw [show min (n - 1) 10 = n - 1 by omega, place, if_pos rfl]
    · apply List.ext_getElem?
      intro k
      rw [List.getElem?_drop, List.getElem?_drop]
      by_cases early : n + k < 9
      · rw [place, if_neg (by omega), if_neg (by omega), writeType_kept typed (by omega)]
      · exact strmode_kept typed positive room (by omega) (by omega)
    · rw [strmode, if_neg (by omega)]
      change (if n < 11 then (1 : Int) else 0) = if 11 ≤ n then 0 else 1
      split <;> split <;> omega

/-- `0644` in a buffer of ten characters. -/
theorem strmode_renders_iff_ten : Renders 0o100644 .reg (List.replicate 10 122) 10 :=
  (strmode_renders_iff 0o100644 .reg (List.replicate 10 122) 10 (by decide) (by decide) (by decide)).mpr
    ⟨fun _ => .inl (by decide), fun more => absurd more (by decide), fun more => absurd more (by decide)⟩

/-- In the buffer of `print_file_info` the last permission is left as it was. -/
theorem last_permission_is_missing : ¬ Renders 0o100644 .reg (List.replicate 11 122) 11 := by
  intro renders
  have text := renders.text
  revert text
  decide +kernel

end LocalServer.Strmode
