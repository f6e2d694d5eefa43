import LocalServer.Lib.CString
import LocalServer.Lib.Regex

/-! The two patterns of the configuration parser. They differ in the value only:
a key, a colon between white space, the value, and the ends of lines behind it. A
text that begins with a key can be read in one way. -/
namespace LocalServer.Yml
open Regex

def KEY_GROUP : Nat := 1
def VALUE_GROUP : Nat := 2

/-! ## Characters -/

def CR : Byte := 13
def LF : Byte := 10
def SPACE : Byte := 32
def QUOTE : Byte := 34
def MINUS : Byte := 45
def COLON : Byte := 58
def UNDERSCORE : Byte := 95

def between (low high c : Byte) : Bool := low ≤ c && c ≤ high

/-- `[a-z]`. -/
def isLower (c : Byte) : Bool := between 97 122 c

/-- `[0-9]`. -/
def isDigit (c : Byte) : Bool := between 48 57 c

/-- `\s`. -/
def isSpace (c : Byte) : Bool := c = SPACE || between 9 13 c

def toLower (c : Byte) : Byte := if between 65 90 c then c + 32 else c

def toUpper (c : Byte) : Byte := if isLower c then c - 32 else c

/-- What `REG_ICASE` makes of a class. -/
def REG_ICASE (chars : Byte → Bool) (c : Byte) : Bool :=
  chars c || chars (toLower c) || chars (toUpper c)

/-- `[a-z0-9_]`. -/
def isKey : Byte → Bool := REG_ICASE fun c => isLower c || isDigit c || c = UNDERSCORE

/-- `[a-z0-9_ ]`. -/
def isWord : Byte → Bool := REG_ICASE fun c => isLower c || isDigit c || c = UNDERSCORE || c = SPACE

/-- One character. -/
def literal (c : Byte) : Regex Byte := .char (· = c)

/-- `(\r?\n)*`. -/
def lineEnds : Regex Byte := .star (.group 3 (.seq (.opt (literal CR)) (literal LF)))

/-- `([a-z0-9_]+)\s*:\s*`, the value, `(\r?\n)*`. -/
def keyed (value : Regex Byte) : Regex Byte :=
  .seq (.group KEY_GROUP (.plus (.char isKey)))
    (.seq (.star (.char isSpace))
      (.seq (literal COLON)
        (.seq (.star (.char isSpace))
          (.seq value lineEnds))))

/-- `(-?[0-9]+)`. -/
def intValue : Regex Byte :=
  .group VALUE_GROUP (.seq (.opt (literal MINUS)) (.plus (.char isDigit)))

/-- `"([a-z0-9_ ]+)"`. -/
def stringValue : Regex Byte :=
  .seq (literal QUOTE) (.seq (.group VALUE_GROUP (.plus (.char isWord))) (literal QUOTE))

/-- `([a-z0-9_]+)\s*:\s*(-?[0-9]+)(\r?\n)*`. -/
def YML_INT_REGEX : Regex Byte := keyed intValue

/-- `([a-z0-9_]+)\s*:\s*"([a-z0-9_ ]+)"(\r?\n)*`. -/
def YML_STRING_REGEX : Regex Byte := keyed stringValue

/-- The classes that the patterns use one after the other do not meet. -/
theorem key_apart (c : Byte) (key : isKey c = true) :
    isSpace c = false ∧ c ≠ COLON ∧ c ≠ QUOTE ∧ c ≠ MINUS ∧ c ≠ CR ∧ c ≠ LF ∧ c ≠ 0 := by
  revert c
  decide +kernel

theorem digit_key (c : Byte) (digit : isDigit c = true) : isKey c = true := by
  revert c
  decide +kernel

theorem word_cases (c : Byte) (word : isWord c = true) : isKey c = true ∨ c = SPACE := by
  revert c
  decide +kernel

@[simp] theorem isKey_marks : isKey COLON = false ∧ isKey SPACE = false ∧ isKey QUOTE = false ∧
    isKey MINUS = false ∧ isKey LF = false := by
  decide +kernel

@[simp] theorem isSpace_marks : isSpace COLON = false ∧ isSpace QUOTE = false ∧
    isSpace MINUS = false ∧ isSpace SPACE = true ∧ isSpace LF = true := by
  decide

@[simp] theorem marks_apart : QUOTE ≠ MINUS ∧ QUOTE ≠ COLON ∧ QUOTE ≠ CR ∧ QUOTE ≠ LF ∧
    MINUS ≠ CR ∧ MINUS ≠ LF := by
  decide

@[simp] theorem isDigit_quote : isDigit QUOTE = false := rfl

/-! ## The way a setting is read -/

variable {value : Regex Byte} {pos : Nat} {word rest text : List Byte} {groups : List Capture}

/-- What holds of the words that a value matches: they begin with no white space. -/
def Solid (value : Regex Byte) : Prop :=
  ∀ pos word groups, Parses value pos word groups → ∃ c later, word = c :: later ∧ isSpace c = false

theorem lineEnds_chars (parsed : Parses lineEnds pos word groups) :
    (∀ c ∈ word, c = CR ∨ c = LF) ∧ ∀ capture ∈ groups, capture.group = 3 := by
  refine parses_star (fun pos word groups parsed => ?_) parsed
  obtain ⟨inner, rfl, body⟩ := parses_group_iff.mp parsed
  obtain ⟨u, v, first, second, rfl, rfl, left, right⟩ := parses_seq_iff.mp body
  obtain ⟨⟨c, line, rfl⟩, rfl⟩ := parses_char_iff.mp right
  have line : c = LF := by simpa using line
  rcases parses_opt_iff.mp left with ⟨rfl, rfl⟩ | taken
  · simp [line]
  · obtain ⟨⟨d, before, rfl⟩, rfl⟩ := parses_char_iff.mp taken
    have before : d = CR := by simpa using before
    simp [line, before]

/-- A pattern up to its value. -/
def bare (value : Regex Byte) : Regex Byte :=
  .seq (.group KEY_GROUP (.plus (.char isKey)))
    (.seq (.star (.char isSpace)) (.seq (literal COLON) (.seq (.star (.char isSpace)) value)))

/-- The parts of a setting. -/
theorem parses_bare (parsed : Parses (bare value) pos word groups) :
    ∃ key gap gap' v inner, word = key ++ (gap ++ COLON :: (gap' ++ v)) ∧ key ≠ [] ∧
      (∀ c ∈ key, isKey c = true) ∧ (∀ c ∈ gap, isSpace c = true) ∧ (∀ c ∈ gap', isSpace c = true) ∧
      Parses value (pos + key.length + gap.length + 1 + gap'.length) v inner ∧
      groups = ⟨KEY_GROUP, pos, pos + key.length⟩ :: inner := by
  obtain ⟨key, w₁, first, g₁, rfl, rfl, left, parsed⟩ := parses_seq_iff.mp parsed
  obtain ⟨gap, w₂, second, g₂, rfl, rfl, spaces, parsed⟩ := parses_seq_iff.mp parsed
  obtain ⟨colon, w₃, third, g₃, rfl, rfl, mark, parsed⟩ := parses_seq_iff.mp parsed
  obtain ⟨gap', v, fourth, inner, rfl, rfl, spaces', found⟩ := parses_seq_iff.mp parsed
  obtain ⟨none, rfl, body⟩ := parses_group_iff.mp left
  obtain ⟨nonempty, members, rfl⟩ := parses_plus_char_iff.mp body
  obtain ⟨blank, rfl⟩ := parses_star_char_iff.mp spaces
  obtain ⟨blank', rfl⟩ := parses_star_char_iff.mp spaces'
  obtain ⟨⟨c, isColon, rfl⟩, rfl⟩ := parses_char_iff.mp mark
  obtain rfl : c = COLON := by simpa using isColon
  exact ⟨key, gap, gap', v, inner, by simp, nonempty, members, blank, blank', found, by simp⟩

/-- A match of a pattern is one up to the value, and ends of lines. -/
theorem parses_keyed_iff : Parses (keyed value) pos word groups ↔
    ∃ setting ends first last, word = setting ++ ends ∧ groups = first ++ last ∧
      Parses (bare value) pos setting first ∧ Parses lineEnds (pos + setting.length) ends last := by
  rw [← parses_seq_iff, bare, parses_seq_assoc]
  refine parses_seq_congr fun pos word groups => ?_
  rw [parses_seq_assoc]
  refine parses_seq_congr fun pos word groups => ?_
  rw [parses_seq_assoc]
  refine parses_seq_congr fun pos word groups => ?_
  rw [parses_seq_assoc]

/-- The parts of a match of a setting. -/
theorem parses_keyed (parsed : Parses (keyed value) pos word groups) :
    ∃ key gap gap' v ends inner outer,
      word = key ++ (gap ++ COLON :: (gap' ++ (v ++ ends))) ∧ key ≠ [] ∧ (∀ c ∈ key, isKey c = true) ∧
      (∀ c ∈ gap, isSpace c = true) ∧ (∀ c ∈ gap', isSpace c = true) ∧
      Parses value (pos + key.length + gap.length + 1 + gap'.length) v inner ∧
      (∀ c ∈ ends, c = CR ∨ c = LF) ∧
      groups = ⟨KEY_GROUP, pos, pos + key.length⟩ :: (inner ++ outer) ∧
      ∀ capture ∈ outer, capture.group = 3 := by
  obtain ⟨_, ends, _, outer, rfl, rfl, setting, tail⟩ := parses_keyed_iff.mp parsed
  obtain ⟨key, gap, gap', v, inner, rfl, nonempty, members, blank, blank', found, rfl⟩ :=
    parses_bare setting
  obtain ⟨chars, numbers⟩ := lineEnds_chars tail
  exact ⟨key, gap, gap', v, ends, inner, outer, by simp, nonempty, members, blank, blank', found, chars,
    rfl, numbers⟩

/-- A setting begins with a character of a key. -/
theorem silent_of_not_key {c : Byte} (outside : isKey c = false) : Silent (keyed value) (c :: rest) := by
  rintro pos word after groups same parsed
  obtain ⟨key, gap, gap', v, ends, inner, outer, rfl, nonempty, members, -⟩ := parses_keyed parsed
  obtain ⟨d, later, rfl⟩ := List.exists_cons_of_ne_nil nonempty
  obtain ⟨rfl, -⟩ := List.cons.inj same
  simp [outside] at members

theorem silent_nil : Silent (keyed value) [] := by
  rintro pos word after groups same parsed
  obtain ⟨key, gap, gap', v, ends, inner, outer, rfl, nonempty, -⟩ := parses_keyed parsed
  simp at same

theorem parted {key gap rest' : List Byte} (same : key ++ (gap ++ COLON :: rest') = text)
    (members : ∀ c ∈ key, isKey c = true) (blank : ∀ c ∈ gap, isSpace c = true) {key' gap' tail : List Byte}
    (parts : text = key' ++ (gap' ++ tail)) (members' : ∀ c ∈ key', isKey c = true)
    (blank' : ∀ c ∈ gap', isSpace c = true)
    (stops : ∀ c ∈ tail.head?, isSpace c = false ∧ (gap' = [] → isKey c = false)) :
    key = key' ∧ gap = gap' ∧ tail = COLON :: rest' := by
  have space_apart : ∀ c, isSpace c = true → isKey c = false := fun c space => by
    by_contra key
    simp [(key_apart c (by simpa using key)).1] at space
  have ends : ∀ c ∈ (gap ++ COLON :: rest').head?, isKey c = false := by
    cases gap with
    | nil => simp
    | cons d gap => simpa using space_apart d (blank d (by simp))
  have ends' : ∀ c ∈ (gap' ++ tail).head?, isKey c = false := by
    cases gap' with
    | nil => exact fun c first => (stops c first).2 rfl
    | cons d gap' => simpa using space_apart d (blank' d (by simp))
  obtain ⟨rfl, same⟩ := cut_unique (same.trans parts) members ends members' ends'
  have colon : ∀ c ∈ (COLON :: rest').head?, isSpace c = false := by simp
  obtain ⟨rfl, behind⟩ := cut_unique same blank colon blank' fun c first => (stops c first).1
  exact ⟨rfl, rfl, behind.symm⟩

/-- Behind the key and white space there has to be a colon. -/
theorem silent_of_no_colon {key gap tail : List Byte} (members : ∀ c ∈ key, isKey c = true)
    (blank : ∀ c ∈ gap, isSpace c = true)
    (stops : ∀ c ∈ tail.head?, isSpace c = false ∧ c ≠ COLON ∧ (gap = [] → isKey c = false)) :
    Silent (keyed value) (key ++ (gap ++ tail)) := by
  rintro pos word after groups same parsed
  obtain ⟨key', gap', gap₂, v, ends, inner, outer, rfl, -, members', blank', -⟩ := parses_keyed parsed
  have parts : key' ++ (gap' ++ COLON :: (gap₂ ++ (v ++ ends) ++ after)) = key ++ (gap ++ tail) := by
    rw [same]
    simp
  obtain ⟨-, -, colon⟩ := parted parts members' blank' rfl members blank fun c first =>
    ⟨(stops c first).1, (stops c first).2.2⟩
  exact (stops COLON (by simp [colon])).2.1 rfl

/-- The parts of a match, where the text begins with a key, a colon, a space and
something that is no space. -/
theorem parses_line (solid : Solid value) {key tail : List Byte} (members : ∀ c ∈ key, isKey c = true)
    (stops : ∀ c ∈ tail.head?, isSpace c = false) (same : key ++ COLON :: SPACE :: tail = word ++ rest)
    (parsed : Parses (keyed value) pos word groups) :
    ∃ v ends inner outer, word = key ++ COLON :: SPACE :: (v ++ ends) ∧ tail = v ++ (ends ++ rest) ∧
      Parses value (pos + key.length + 2) v inner ∧ (∀ c ∈ ends, c = CR ∨ c = LF) ∧
      groups = ⟨KEY_GROUP, pos, pos + key.length⟩ :: (inner ++ outer) ∧
      ∀ capture ∈ outer, capture.group = 3 := by
  obtain ⟨key', gap, gap', v, ends, inner, outer, rfl, -, members', blank, blank', found, chars, all,
    numbers⟩ := parses_keyed parsed
  have parts : key' ++ (gap ++ COLON :: (gap' ++ (v ++ ends) ++ rest)) =
      key ++ ([] ++ COLON :: SPACE :: tail) := by
    rw [List.nil_append, same]
    simp
  obtain ⟨rfl, rfl, behind⟩ := parted parts members' blank rfl members (by simp)
    (by simp)
  obtain ⟨c, later, rfl, first⟩ := solid _ _ _ found
  have tails : gap' ++ (c :: later ++ ends ++ rest) = [SPACE] ++ tail := by
    simpa using (List.cons.inj behind).2.symm
  obtain ⟨rfl, split⟩ := cut_unique tails blank' (by simpa using first) (by simp) stops
  exact ⟨c :: later, ends, inner, outer, by simp, by simp [← split], by simpa using found, chars, all,
    numbers⟩

/-- A value of another kind is not read. -/
theorem silent_of_value (solid : Solid value) {key tail : List Byte}
    (members : ∀ c ∈ key, isKey c = true) (stops : ∀ c ∈ tail.head?, isSpace c = false)
    (silent : Silent value tail) : Silent (keyed value) (key ++ COLON :: SPACE :: tail) := by
  rintro pos word after groups same parsed
  obtain ⟨v, ends, inner, outer, rfl, parts, found, -⟩ := parses_line solid members stops same parsed
  exact silent _ v (ends ++ after) inner parts found

/-! ## The two kinds of values -/

/-- What the values of both kinds have in common: no white space before them, no
end of a line in them, and one group, all of the value but for the quotes. -/
structure ValuePattern (value : Regex Byte) (quotes : Nat) : Prop where
  solid : Solid value
  inside : ∀ pos word groups, Parses value pos word groups → ∀ c ∈ word, c ≠ CR ∧ c ≠ LF
  groups : ∀ pos word groups, Parses value pos word groups →
    groups = [⟨VALUE_GROUP, pos + quotes, pos + word.length - quotes⟩]

theorem parses_intValue (parsed : Parses intValue pos word groups) :
    ∃ sign digits, word = sign ++ digits ∧ (sign = [] ∨ sign = [MINUS]) ∧ digits ≠ [] ∧
      (∀ c ∈ digits, isDigit c = true) ∧ groups = [⟨VALUE_GROUP, pos, pos + word.length⟩] := by
  obtain ⟨inner, rfl, body⟩ := parses_group_iff.mp parsed
  obtain ⟨sign, digits, first, second, rfl, rfl, left, right⟩ := parses_seq_iff.mp body
  obtain ⟨nonempty, members, rfl⟩ := parses_plus_char_iff.mp right
  rcases parses_opt_iff.mp left with ⟨rfl, rfl⟩ | taken
  · exact ⟨[], digits, rfl, .inl rfl, nonempty, members, rfl⟩
  · obtain ⟨⟨c, minus, rfl⟩, rfl⟩ := parses_char_iff.mp taken
    obtain rfl : c = MINUS := by simpa using minus
    exact ⟨[MINUS], digits, rfl, .inr rfl, nonempty, members, rfl⟩

theorem parses_stringValue (parsed : Parses stringValue pos word groups) :
    ∃ string, word = QUOTE :: (string ++ [QUOTE]) ∧ string ≠ [] ∧ (∀ c ∈ string, isWord c = true) ∧
      groups = [⟨VALUE_GROUP, pos + 1, pos + 1 + string.length⟩] := by
  obtain ⟨opening, w, first, second, rfl, rfl, left, parsed⟩ := parses_seq_iff.mp parsed
  obtain ⟨string, closing, third, fourth, rfl, rfl, middle, right⟩ := parses_seq_iff.mp parsed
  obtain ⟨⟨c, quote, rfl⟩, rfl⟩ := parses_char_iff.mp left
  obtain ⟨⟨d, quote', rfl⟩, rfl⟩ := parses_char_iff.mp right
  obtain ⟨inner, rfl, body⟩ := parses_group_iff.mp middle
  obtain ⟨nonempty, members, rfl⟩ := parses_plus_char_iff.mp body
  obtain rfl : c = QUOTE := by simpa using quote
  obtain rfl : d = QUOTE := by simpa using quote'
  exact ⟨string, rfl, nonempty, members, rfl⟩

theorem intPattern : ValuePattern intValue 0 where
  solid := by
    intro pos word groups parsed
    obtain ⟨sign, digits, rfl, signs, nonempty, members, -⟩ := parses_intValue parsed
    obtain ⟨d, digits, rfl⟩ := List.exists_cons_of_ne_nil nonempty
    rcases signs with rfl | rfl
    · exact ⟨d, digits, rfl, (key_apart d (digit_key d (members d (by simp)))).1⟩
    · exact ⟨MINUS, d :: digits, rfl, by simp⟩
  inside := by
    intro pos word groups parsed c member
    obtain ⟨sign, digits, rfl, signs, -, members, -⟩ := parses_intValue parsed
    rcases List.mem_append.mp member with first | later
    · rcases signs with rfl | rfl
      · cases first
      · rw [List.mem_singleton.mp first]
        simp
    · obtain ⟨-, -, -, -, cr, lf, -⟩ := key_apart c (digit_key c (members c later))
      exact ⟨cr, lf⟩
  groups := by
    intro pos word groups parsed
    obtain ⟨sign, digits, -, -, -, -, rfl⟩ := parses_intValue parsed
    rfl

theorem word_apart (c : Byte) (word : isWord c = true) :
    c ≠ COLON ∧ c ≠ QUOTE ∧ c ≠ CR ∧ c ≠ LF ∧ c ≠ 0 := by
  rcases word_cases c word with key | rfl
  · obtain ⟨-, colon, quote, -, cr, lf, zero⟩ := key_apart c key
    exact ⟨colon, quote, cr, lf, zero⟩
  · decide +kernel

theorem stringPattern : ValuePattern stringValue 1 where
  solid := by
    intro pos word groups parsed
    obtain ⟨string, rfl, -⟩ := parses_stringValue parsed
    exact ⟨QUOTE, _, rfl, by simp⟩
  inside := by
    intro pos word groups parsed c member
    obtain ⟨string, rfl, -, members, -⟩ := parses_stringValue parsed
    simp only [List.mem_cons, List.mem_append, List.not_mem_nil, or_false] at member
    rcases member with rfl | inside | rfl
    · simp
    · obtain ⟨-, -, cr, lf, -⟩ := word_apart c (members c inside)
      exact ⟨cr, lf⟩
    · simp
  groups := by
    intro pos word groups parsed
    obtain ⟨string, rfl, -, -, rfl⟩ := parses_stringValue parsed
    simp only [List.length_cons, List.length_append, List.length_nil]
    rw [show pos + (string.length + (0 + 1) + 1) - 1 = pos + 1 + string.length by omega]

/-- A string is no integer, and nothing but a string begins with a quote. -/
theorem silent_int : Silent intValue (QUOTE :: rest) := by
  intro pos word after groups same parsed
  obtain ⟨sign, digits, rfl, signs, nonempty, members, -⟩ := parses_intValue parsed
  obtain ⟨d, digits, rfl⟩ := List.exists_cons_of_ne_nil nonempty
  rcases signs with rfl | rfl
  · obtain ⟨rfl, -⟩ := List.cons.inj same
    exact absurd (members QUOTE (by simp)) (by simp)
  · exact absurd (List.cons.inj same).1 (by simp)

theorem silent_string {c : Byte} (other : c ≠ QUOTE) : Silent stringValue (c :: rest) := by
  intro pos word after groups same parsed
  obtain ⟨string, rfl, -⟩ := parses_stringValue parsed
  exact other (List.cons.inj same).1

theorem intValue_parses {sign digits : List Byte} (signs : sign = [] ∨ sign = [MINUS])
    (nonempty : digits ≠ []) (members : ∀ c ∈ digits, isDigit c = true) :
    ∃ groups, Parses intValue pos (sign ++ digits) groups := by
  refine ⟨_, .group VALUE_GROUP _ pos _ _ (.seq _ _ pos sign digits [] [] ?_
    (parses_plus_char_iff.mpr ⟨nonempty, members, rfl⟩))⟩
  rcases signs with rfl | rfl
  · exact .optNone _ pos
  · exact .optSome _ pos _ _ (.char _ pos MINUS (by simp))

theorem stringValue_parses {string : List Byte} (nonempty : string ≠ [])
    (members : ∀ c ∈ string, isWord c = true) :
    ∃ groups, Parses stringValue pos (QUOTE :: (string ++ [QUOTE])) groups := by
  have body : Parses (.plus (.char isWord)) (pos + 1) string [] :=
    parses_plus_char_iff.mpr ⟨nonempty, members, rfl⟩
  exact ⟨_, .seq _ _ pos [QUOTE] _ _ _ (.char _ pos QUOTE (by simp))
    (.seq _ _ _ string [QUOTE] _ _ (.group VALUE_GROUP _ _ _ _ body) (.char _ _ QUOTE (by simp)))⟩

/-! ## A line of a file -/

/-- A key and the text of its value, on a line of their own. -/
def line (key val : List Byte) : List Byte := key ++ COLON :: SPACE :: (val ++ [LF])

theorem line_length (key val : List Byte) : (line key val).length = key.length + val.length + 3 := by
  simp only [line, List.length_append, List.length_cons, List.length_nil]
  omega

theorem line_append (key val rest : List Byte) :
    line key val ++ rest = key ++ COLON :: SPACE :: (val ++ LF :: rest) := by
  simp [line]

variable {key val : List Byte} {quotes : Nat}

theorem keyed_parses (nonempty : key ≠ []) (members : ∀ c ∈ key, isKey c = true)
    (reads : ∃ groups, Parses value (pos + key.length + 2) val groups) :
    ∃ groups, Parses (keyed value) pos (line key val) groups := by
  obtain ⟨groups, reads⟩ := reads
  have ending : Parses lineEnds (pos + key.length + 2 + val.length) [LF] _ :=
    .starCons _ _ [LF] [] _ _ (by simp)
      (.group 3 _ _ _ _ (.seq _ _ _ [] [LF] _ _ (.optNone _ _) (.char _ _ LF (by simp)))) (.starNil _ _)
  have name : Parses (.group KEY_GROUP (.plus (.char isKey))) pos key _ :=
    .group KEY_GROUP _ pos key [] (parses_plus_char_iff.mpr ⟨nonempty, members, rfl⟩)
  exact ⟨_, .seq _ _ pos key _ _ _ name (.seq _ _ _ [] _ _ _ (.starNil _ _)
    (.seq _ _ _ [COLON] _ _ _ (.char _ _ COLON (by simp))
      (.seq _ _ _ [SPACE] _ _ _
        (parses_star_char_iff.mpr ⟨by simp, rfl⟩)
        (.seq _ _ _ val [LF] _ _ reads ending))))⟩

/-- A value that is followed by as many ends of lines as can be is the whole value. -/
theorem value_whole {v ends after : List Byte} (inside : ∀ c ∈ val, c ≠ CR ∧ c ≠ LF)
    (inside' : ∀ c ∈ v, c ≠ CR ∧ c ≠ LF) (chars : ∀ c ∈ ends, c = CR ∨ c = LF)
    (clean : ∀ c ∈ rest.head?, c ≠ CR ∧ c ≠ LF) (same : val ++ LF :: rest = v ++ (ends ++ after))
    (enough : val.length < v.length + ends.length) : v = val ∧ ends = [LF] := by
  cases ends with
  | nil =>
    have beyond : val.length < v.length := by simpa using enough
    have there := congrArg (·[val.length]?) same
    simp only [List.getElem?_append_right (Nat.le_refl _), Nat.sub_self, List.getElem?_cons_zero,
      List.getElem?_append_left beyond] at there
    exact absurd rfl (inside' LF (List.mem_of_getElem? there.symm)).2
  | cons e ends =>
    have marks : ∀ c, c ≠ CR ∧ c ≠ LF → (c ≠ CR && c ≠ LF) = true := fun c apart => by simp [apart]
    have stop : (e ≠ CR && e ≠ LF) = false := by
      rcases chars e (by simp) with rfl | rfl <;> simp
    obtain ⟨rfl, behind⟩ := cut_unique same (fun c member => marks c (inside c member)) (by simp)
      (fun c member => marks c (inside' c member)) (by simpa using stop)
    obtain ⟨rfl, rfl⟩ := List.cons.inj behind
    cases ends with
    | nil => exact ⟨rfl, rfl⟩
    | cons d ends =>
      have outside := clean d (by simp)
      rcases chars d (by simp) with rfl | rfl <;> simp at outside

/-- The key and the value are the groups 1 and 2, whatever the third has matched. -/
theorem groups_named (so eo : Nat) {key val : Capture} {outer : List Capture}
    (first : key.group = KEY_GROUP) (second : val.group = VALUE_GROUP)
    (numbers : ∀ capture ∈ outer, capture.group = 3) :
    (⟨so, eo, key :: val :: outer⟩ : Match).group? KEY_GROUP = some key ∧
      (⟨so, eo, key :: val :: outer⟩ : Match).group? VALUE_GROUP = some val := by
  have other : outer.filter (fun capture => capture.group = KEY_GROUP) = [] ∧
      outer.filter (fun capture => capture.group = VALUE_GROUP) = [] := by
    constructor <;> refine List.filter_eq_nil_iff.mpr fun capture member => ?_
    · simp [numbers capture member, KEY_GROUP]
    · simp [numbers capture member, VALUE_GROUP]
  constructor
  · simp only [Match.group?, List.filter_cons, first, second, other.1]
    simp [KEY_GROUP, VALUE_GROUP]
  · simp only [Match.group?, List.filter_cons, first, second, other.2]
    simp [KEY_GROUP, VALUE_GROUP]

/-- A line that the pattern can read is read as a whole, and no further. -/
theorem search_line (pos : Nat) (pattern : ValuePattern value quotes) (nonempty : key ≠ [])
    (members : ∀ c ∈ key, isKey c = true) (reads : ∀ pos, ∃ groups, Parses value pos val groups)
    (clean : ∀ c ∈ rest.head?, c ≠ CR ∧ c ≠ LF) :
    ∃ m, search (keyed value) pos (line key val ++ rest) = some m ∧
      m.eo = pos + (line key val).length ∧
      m.group? KEY_GROUP = some ⟨KEY_GROUP, pos, pos + key.length⟩ ∧
      m.group? VALUE_GROUP = some ⟨VALUE_GROUP, pos + key.length + 2 + quotes,
        pos + key.length + 2 + val.length - quotes⟩ := by
  obtain ⟨groups, whole⟩ := keyed_parses nonempty members (reads (pos + key.length + 2))
  obtain ⟨n, groups, longest, found⟩ := search_stops whole rest
  obtain ⟨word, after, same, length, parsed⟩ := longest.parses
  have enough := longest.longest _ rest _ rfl whole
  obtain ⟨_, solid⟩ := reads pos
  have inside := pattern.inside pos _ _ solid
  obtain ⟨c, later, starts, first⟩ := pattern.solid pos _ _ solid
  rw [line_append] at same
  obtain ⟨v, ends, inner, outer, rfl, tail, body, chars, rfl, numbers⟩ :=
    parses_line pattern.solid members (by simpa [starts] using first) same parsed
  rw [line_length, ← length] at enough
  simp only [List.length_append, List.length_cons] at enough
  obtain ⟨rfl, rfl⟩ := value_whole inside (pattern.inside _ _ _ body) chars clean tail (by omega)
  rw [pattern.groups _ _ _ body] at found
  exact ⟨_, found, by rw [← length]; rfl, (groups_named _ _ rfl rfl numbers).1,
    (groups_named _ _ rfl rfl numbers).2⟩

/-- A line of the other kind is passed over: no match begins in it. -/
theorem search_skips (pattern : ValuePattern value quotes) (members : ∀ c ∈ key, isKey c = true)
    (starts : ∃ c later, val = c :: later ∧ isSpace c = false)
    (other : Silent value (val ++ LF :: rest))
    (inside : ∀ before c after, val = before ++ c :: after →
      Silent (keyed value) (c :: after ++ LF :: rest)) :
    search (keyed value) pos (line key val ++ rest) =
      search (keyed value) (pos + (line key val).length) rest := by
  obtain ⟨c, later, starts, first⟩ := starts
  have mark : ∀ c, c ∈ [COLON, SPACE, LF] → isKey c = false := by simp
  have split : line key val ++ rest = key ++ ([COLON, SPACE] ++ (val ++ ([LF] ++ rest))) := by
    simp [line]
  have passed : ∀ pos, search (keyed value) pos (val ++ ([LF] ++ rest)) =
      search (keyed value) (pos + val.length) ([LF] ++ rest) := fun pos => search_append inside
  rw [split, search_append, search_append, passed, search_append]
  · congr 1
    simp only [line_length, List.length_cons, List.length_nil]
    omega
  · intro before c after same
    obtain rfl : c = LF := by
      cases before <;> simp_all
    exact silent_of_not_key (mark LF (by simp))
  · intro before c after same
    have among : c ∈ [COLON, SPACE] := by rw [same]; simp
    exact silent_of_not_key (mark c (List.mem_append_left [LF] among))
  · intro before d after same
    have suffix : ∀ c ∈ d :: after, isKey c = true := fun c member => members c (by
      rw [same]; exact List.mem_append_right _ member)
    exact silent_of_value pattern.solid suffix (by simpa [starts] using first) other

/-- An integer is no key of a setting, as no colon follows it. -/
theorem int_inside {sign digits : List Byte} (signs : sign = [] ∨ sign = [MINUS])
    (members : ∀ c ∈ digits, isDigit c = true) (clean : ∀ c ∈ rest.head?, isKey c = true)
    {before after : List Byte} {c : Byte} (same : sign ++ digits = before ++ c :: after) :
    Silent (keyed value) (c :: after ++ LF :: rest) := by
  have stops : ∀ c ∈ rest.head?, isSpace c = false ∧ c ≠ COLON ∧ ([LF] = [] → isKey c = false) :=
    fun c first =>
      let apart := key_apart c (clean c first)
      ⟨apart.1, apart.2.1, by simp⟩
  have digit : (∀ d ∈ c :: after, isDigit d = true) →
      Silent (keyed value) (c :: after ++ LF :: rest) := fun all =>
    silent_of_no_colon (fun d member => digit_key d (all d member)) (by simp) stops
  have suffix : ∀ before, digits = before ++ c :: after →
      Silent (keyed value) (c :: after ++ LF :: rest) := fun before among =>
    digit fun d member => members d (among ▸ List.mem_append_right _ member)
  rcases signs with rfl | rfl
  · exact suffix before same
  · cases before with
    | nil =>
      obtain ⟨rfl, rfl⟩ := List.cons.inj same
      exact silent_of_not_key (by simp)
    | cons b before => exact suffix before (List.cons.inj same).2

/-- The words of a string, up to its closing quote, are no key of a setting. -/
theorem silent_of_words {words : List Byte} (members : ∀ c ∈ words, isWord c = true) :
    Silent (keyed value) (words ++ QUOTE :: rest) := by
  let behind := words.dropWhile isKey
  have split : words ++ QUOTE :: rest = words.takeWhile isKey ++
      (behind.takeWhile isSpace ++ (behind.dropWhile isSpace ++ QUOTE :: rest)) := by
    rw [← List.append_assoc (behind.takeWhile isSpace), List.takeWhile_append_dropWhile,
      ← List.append_assoc, List.takeWhile_append_dropWhile]
  rw [split]
  refine silent_of_no_colon (fun c => List.mem_takeWhile_imp) (fun c => List.mem_takeWhile_imp) ?_
  intro c first
  cases next : behind.dropWhile isSpace with
  | nil =>
    obtain rfl : QUOTE = c := by simpa [next] using first
    simp
  | cons d later =>
    obtain rfl : d = c := by simpa [next] using first
    have solid : isSpace d = false := by
      simpa [next] using List.head?_dropWhile_not isSpace behind
    have among : d ∈ words := (List.dropWhile_suffix _).mem ((List.dropWhile_suffix _).mem
      (by rw [next]; exact List.mem_cons_self))
    refine ⟨solid, (word_apart d (members d among)).1, fun no => ?_⟩
    have whole : behind = d :: later := by
      rw [← next, ← List.nil_append (behind.dropWhile isSpace), ← no, List.takeWhile_append_dropWhile]
    simpa [behind, whole] using List.head?_dropWhile_not isKey words

/-- Nothing in a string is the key of a setting: no colon follows a word of it. -/
theorem string_inside {string : List Byte} (members : ∀ c ∈ string, isWord c = true)
    {before after : List Byte} {c : Byte} (same : QUOTE :: (string ++ [QUOTE]) = before ++ c :: after) :
    Silent (keyed value) (c :: after ++ LF :: rest) := by
  cases before with
  | nil =>
    obtain ⟨rfl, -⟩ := List.cons.inj same
    exact silent_of_not_key (by simp)
  | cons b before =>
    have same : string ++ [QUOTE] = before ++ c :: after := (List.cons.inj same).2
    rcases List.eq_nil_or_concat after with rfl | ⟨init, last, rfl⟩
    · obtain ⟨-, closing⟩ := List.append_inj' same rfl
      obtain ⟨rfl, -⟩ := List.cons.inj closing
      exact silent_of_not_key (by simp)
    · rw [List.concat_eq_append, ← List.cons_append, ← List.append_assoc] at same
      obtain ⟨rfl, closing⟩ := List.append_inj' same rfl
      obtain ⟨rfl, -⟩ := List.cons.inj closing
      have words : ∀ d ∈ c :: init, isWord d = true := fun d member =>
        members d (List.mem_append_right _ member)
      simpa using silent_of_words words

end LocalServer.Yml
