import LocalServer.YmlInit
import LocalServer.YmlReadings

/-! Texts with a line that begins with `#`. To the patterns this character is like
any other that no setting has: it ends what stands before it, and what stands behind
it is read as if the text began there. -/
namespace LocalServer.Yml
open LinkedList Regex
open CList (Fault)

def HASH : Byte := 35

/-- No class of the patterns has a `#`. -/
@[simp] theorem hash_apart : isKey HASH = false ∧ isWord HASH = false ∧ isDigit HASH = false ∧
    isSpace HASH = false ∧ HASH ≠ COLON ∧ HASH ≠ QUOTE ∧ HASH ≠ MINUS := by
  decide +kernel

/-! ## Texts in parts -/

variable {value : Regex Byte} {quotes : Nat} {acc : Int} {word before blanks after : List Byte}

/-- A value has no `#`, and no white space at its end. -/
structure Framed (value : Regex Byte) : Prop where
  hash : ∀ pos word groups, Parses value pos word groups → HASH ∉ word
  last : ∀ pos word groups, Parses value pos word groups →
    ∃ init c, word = init ++ [c] ∧ isSpace c = false

theorem framed_int : Framed intValue where
  hash := by
    intro pos word groups parsed member
    obtain ⟨sign, digits, rfl, signs, -, members, -⟩ := parses_intValue parsed
    rcases List.mem_append.mp member with first | later
    · rcases signs with rfl | rfl <;> simp at first
    · simpa using members HASH later
  last := by
    intro pos word groups parsed
    obtain ⟨sign, digits, rfl, -, nonempty, members, -⟩ := parses_intValue parsed
    obtain ⟨init, d, rfl⟩ := (List.eq_nil_or_concat digits).resolve_left nonempty
    rw [List.concat_eq_append] at members ⊢
    exact ⟨sign ++ init, d, by simp, (key_apart d (digit_key d (members d (by simp)))).1⟩

theorem framed_string : Framed stringValue where
  hash := by
    intro pos word groups parsed member
    obtain ⟨string, rfl, -, members, -⟩ := parses_stringValue parsed
    have inside : HASH ∈ string := by simpa using member
    simpa using members HASH inside
  last := by
    intro pos word groups parsed
    obtain ⟨string, rfl, -⟩ := parses_stringValue parsed
    exact ⟨QUOTE :: string, QUOTE, rfl, by simp⟩

theorem hash_not_mem (framed : Framed value) (reads : Reads (bare value) word) : HASH ∉ word := by
  obtain ⟨_, _, parsed⟩ := reads
  obtain ⟨key, gap, gap', v, inner, rfl, -, members, blank, blank', found, -⟩ := parses_bare parsed
  intro member
  simp only [List.mem_append, List.mem_cons] at member
  rcases member with inKey | inGap | isColon | inGap' | inValue
  · simpa using members HASH inKey
  · simpa using blank HASH inGap
  · simp at isColon
  · simpa using blank' HASH inGap'
  · exact framed.hash _ _ _ found inValue

/-- No word ends in white space. -/
theorem word_last (framed : Framed value) (reads : Reads (bare value) word) :
    ∃ init c, word = init ++ [c] ∧ isSpace c = false := by
  obtain ⟨_, _, parsed⟩ := reads
  obtain ⟨key, gap, gap', v, inner, rfl, -, -, -, -, found, -⟩ := parses_bare parsed
  obtain ⟨init, c, rfl, solid⟩ := framed.last _ _ _ found
  exact ⟨key ++ (gap ++ COLON :: (gap' ++ init)), c, by simp, solid⟩

/-- A text of whole lines knows all its words: what crosses its end is not completed
in it. -/
theorem joins_lines (pattern : ValuePattern value quotes)
    (whole : before = [] ∨ ∃ lines, before = lines ++ [LF]) (after : List Byte) :
    Joins (bare value) before after := by
  intro front part tail split crosses nonempty reads x word y has within
  have completed : Completed part := has ▸ (completed_of_reads pattern.solid within).append x y
  rcases List.eq_nil_or_concat part with rfl | ⟨init, c, rfl⟩
  · obtain ⟨x, y, impossible, -⟩ := completed
    simp at impossible
  · rw [List.concat_eq_append] at split reads completed
    rcases whole with rfl | ⟨lines, rfl⟩
    · simp at split
    · rw [← List.append_assoc] at split
      obtain ⟨-, last⟩ := List.append_inj' split rfl
      obtain rfl : LF = c := (List.cons.inj last).1
      rw [List.append_assoc] at reads
      exact not_completed_of_cut pattern reads (.inr rfl) completed

/-- White space at the end of a text holds no word, and ends none. -/
theorem scans_blanks (framed : Framed value) (white : ∀ c ∈ blanks, isSpace c = true)
    {found : List (List Byte)} {rest : List Byte} (scans : Scans (bare value) before found rest) :
    Scans (bare value) (before ++ blanks) found (rest ++ blanks) := by
  have inside : ∀ {part other more : List Byte}, Reads (bare value) other → part ++ blanks = other ++ more →
      ∃ gap, part = other ++ gap := by
    intro part other more reads same
    rcases List.append_eq_append_iff.mp same with ⟨gap, rfl, behind⟩ | ⟨gap, within, -⟩
    · rcases List.eq_nil_or_concat gap with rfl | ⟨init, c, rfl⟩
      · exact ⟨[], by simp⟩
      · obtain ⟨_, d, last, solid⟩ := word_last framed reads
        rw [List.concat_eq_append] at behind last
        rw [← List.append_assoc] at last
        obtain ⟨-, ends⟩ := List.append_inj' last rfl
        obtain rfl : c = d := (List.cons.inj ends).1
        have space := white c (by rw [behind]; simp)
        rw [solid] at space
        cases space
    · exact ⟨gap, within⟩
  have joins : Joins (bare value) before blanks := by
    intro front part tail split crosses nonempty reads
    obtain ⟨more, same⟩ := crosses
    obtain ⟨gap, whole⟩ := inside reads (show part ++ blanks = part ++ tail ++ more by rw [← same]; simp)
    have lengths := congrArg List.length whole
    rw [List.append_assoc, List.length_append, List.length_append] at lengths
    exact absurd (List.length_eq_zero_iff.mp (by omega)) nonempty
  have silent : Nowhere (bare value) (rest ++ blanks) [] := by
    refine nowhere_append.mpr ⟨fun front c last split => ?_,
      nowhere_of_not_key fun c member => space_not_key c (white c member)⟩
    rw [silent_iff]
    intro other more same reads
    obtain ⟨gap, within⟩ := inside reads (show (c :: last) ++ blanks = other ++ more by rw [← same]; simp)
    exact silent_iff.mp (scans.leftover_nowhere front c last split) other gap (by rw [← within]; simp) reads
  have joined := scans.append joins (.stop _ silent)
  rwa [List.append_nil] at joined

/-- What is left of a text when its words are read, and may go on in the next. -/
def unfinished (value : Regex Byte) (text : List Byte) : List Byte := leftover (bare value) text

theorem readings_join (pattern : ValuePattern value quotes)
    (whole : before = [] ∨ ∃ lines, before = lines ++ [LF]) (acc : Int) (after : List Byte) :
    readings value quotes acc (before ++ after) =
      readings value quotes acc before ++ readings value quotes acc (unfinished value before ++ after) := by
  have proper := bare_proper pattern.solid
  have joined := (scans_words proper before).append (joins_lines pattern whole after) (scans_words proper _)
  rw [readings, (joined.words_eq proper).1, List.map_append]
  rfl

theorem readings_hash (pattern : ValuePattern value quotes) (framed : Framed value)
    (white : ∀ c ∈ blanks, isSpace c = true) (acc : Int) (before behind : List Byte) :
    readings value quotes acc (before ++ (blanks ++ HASH :: behind)) =
      readings value quotes acc before ++ readings value quotes acc behind := by
  have proper := bare_proper pattern.solid
  obtain ⟨rest, parted⟩ := (scans_blanks framed white (scans_words proper before)).barrier proper
    (fun word => hash_not_mem framed) (scans_words proper behind)
  rw [← List.append_assoc, readings, (parted.words_eq proper).1, List.map_append]
  rfl

/-! ## Comments -/

/-- A text with a line whose first character other than white space is `#`. -/
structure Commented where
  before : List Byte
  blanks : List Byte
  remark : List Byte
  ending : List Byte
  after : List Byte
  whole : before = [] ∨ ∃ lines, before = lines ++ [LF]
  white : ∀ c ∈ blanks, isSpace c = true ∧ c ≠ LF
  inside : LF ∉ remark
  ends : ending = [LF] ∨ (ending = [] ∧ after = [])

namespace Commented

/-- What stands behind the `#`. -/
def behind (commented : Commented) : List Byte := commented.remark ++ (commented.ending ++ commented.after)

def text (commented : Commented) : List Byte :=
  commented.before ++ (commented.blanks ++ HASH :: commented.behind)

/-- The text without the line. -/
def deleted (commented : Commented) : List Byte := commented.before ++ commented.after

/-- What stands behind the line, with what the lines before it leave unfinished. -/
def joined (commented : Commented) (value : Regex Byte) : List Byte :=
  unfinished value commented.before ++ commented.after

theorem deleted_sublist (commented : Commented) : commented.deleted.Sublist commented.text := by
  have tail : commented.after.Sublist (commented.blanks ++ HASH :: commented.behind) := by
    refine List.IsSuffix.sublist ⟨commented.blanks ++ HASH :: (commented.remark ++ commented.ending), ?_⟩
    simp [behind]
  exact (List.Sublist.refl commented.before).append tail

/-! A pass reads the lines before, and then what stands behind. -/

theorem ints_text (commented : Commented) :
    ints commented.text = ints commented.before ++ ints commented.behind :=
  readings_hash intPattern framed_int (fun c member => (commented.white c member).1) _ _ _

theorem strings_text (commented : Commented) :
    strings commented.text = strings commented.before ++ strings commented.behind :=
  readings_hash stringPattern framed_string (fun c member => (commented.white c member).1) _ _ _

theorem ints_deleted (commented : Commented) :
    ints commented.deleted = ints commented.before ++ ints (commented.joined intValue) :=
  readings_join intPattern commented.whole _ _

theorem strings_deleted (commented : Commented) :
    strings commented.deleted = strings commented.before ++ strings (commented.joined stringValue) :=
  readings_join stringPattern commented.whole _ _

end Commented

/-- The value that `get` finds for a key among readings that were inserted in turn. -/
def firstValue (key : List Byte) (pairs : List (List Byte × List Byte)) : Option (List Byte) :=
  (pairs.find? (·.1 = key)).map Prod.snd

/-- The readings that the line adds, and those that it keeps apart, decide nothing:
for a key that the lines before it set to no integer, the first value is the same
whether the text begins anew behind the `#` or goes on behind the line. -/
def Harmless (commented : Commented) : Prop :=
  ∀ key, firstValue key (ints commented.before) = none →
    firstValue key (ints commented.behind ++ (strings commented.before ++ strings commented.behind)) =
      firstValue key (ints (commented.joined intValue) ++
        (strings commented.before ++ strings (commented.joined stringValue)))

variable {commented : Commented} {parser parser' : Parser} {fuel : Nat}

theorem firstValue_append (key : List Byte) (first second : List (List Byte × List Byte)) :
    firstValue key (first ++ second) = (firstValue key first).or (firstValue key second) := by
  simp only [firstValue, List.find?_append]
  cases first.find? (·.1 = key) <;> rfl

/-- What is read first decides, and else what is read behind it. -/
theorem firstValue_common (key : List Byte) (first second third : List (List Byte × List Byte)) :
    firstValue key (first ++ second) = firstValue key (first ++ third) ↔
      (firstValue key first = none → firstValue key second = firstValue key third) := by
  rw [firstValue_append, firstValue_append]
  cases firstValue key first with
  | none => simp
  | some v => simp

theorem readings_few (text : List Byte) {fuel : Nat} (enough : text.length < fuel) :
    (ints text ++ strings text).length < fuel := by
  have numbers : (ints text).length ≤ text.length / 3 := readings_length intPattern.solid text
  have words : (strings text).length ≤ text.length / 3 := readings_length stringPattern.solid text
  rw [List.length_append]
  omega

/-- Two maps answer all lookups alike when the first values of all keys are the same. -/
theorem get_eq_iff {map map' : HashMap} {content content' : List (List Byte × List Byte)}
    (stands : StandsFor map content) (stands' : StandsFor map' content') (enough : content.length < fuel)
    (enough' : content'.length < fuel) (key : List Byte) :
    get map key fuel = get map' key fuel ↔ firstValue key content = firstValue key content' := by
  rw [get_finds stands enough, get_finds stands' enough', firstValue, firstValue]
  cases content.find? (·.1 = key) <;> cases content'.find? (·.1 = key) <;> simp

/-- Two executions with one result, after which all lookups answer alike. -/
def Indifferent (parser parser' : Parser) (fuel : Nat) : Prop :=
  ∃ after after' r, execParser parser .granted fuel = .ok (after, r) ∧
    execParser parser' .granted fuel = .ok (after', r) ∧
    ∀ key, get after.memory.map key fuel = get after'.memory.map key fuel

/-- Two texts configure alike when the first values of all keys are the same. -/
theorem indifferent_iff (ready : parser.mutex = 1) (ready' : parser'.mutex = 1)
    (fresh : parser.executed = false) (fresh' : parser'.executed = false)
    (empty : ∀ i, parser.memory.map.elems i = none) (empty' : ∀ i, parser'.memory.map.elems i = none)
    (plenty : Plenty parser.memory) (plenty' : Plenty parser'.memory)
    (enough : parser.content.bytes.length < fuel) (enough' : parser'.content.bytes.length < fuel) :
    Indifferent parser parser' fuel ↔ ∀ key,
      firstValue key (ints parser.content.bytes ++ strings parser.content.bytes) =
        firstValue key (ints parser'.content.bytes ++ strings parser'.content.bytes) := by
  obtain ⟨after, executed, stands⟩ := execParser_reads empty plenty (by omega) fresh enough.le
  obtain ⟨after', executed', stands'⟩ := execParser_reads empty' plenty' (by omega) fresh' enough'.le
  have lookups := get_eq_iff stands stands' (readings_few _ enough) (readings_few _ enough')
  constructor
  · rintro ⟨_, _, r, ran, ran', same⟩ key
    obtain ⟨rfl, -⟩ := Prod.mk.inj (Except.ok.inj (executed.symm.trans ran))
    obtain ⟨rfl, -⟩ := Prod.mk.inj (Except.ok.inj (executed'.symm.trans ran'))
    exact (lookups key).mp (same key)
  · intro same
    exact ⟨after, after', 1, executed, executed', fun key => (lookups key).mpr (same key)⟩

/-- A line that begins with `#` can be deleted exactly when it is harmless, as both texts
are read. -/
theorem comment_deletable_iff (commented : Commented) (parser parser' : Parser) (fuel : Nat)
    {path path' : Option (List Byte)} {startup startup' : Startup} {cells cells' : Heap Elem}
    {blocks blocks' : Heap (List Byte)} {supply supply' : Nat → Blocks}
    (created : initYmlParser path startup cells blocks supply = .ok parser)
    (created' : initYmlParser path' startup' cells' blocks' supply' = .ok parser')
    (loaded : parser.content.bytes = commented.text) (loaded' : parser'.content.bytes = commented.deleted)
    (empty : ∀ i, parser.memory.map.elems i = none) (empty' : ∀ i, parser'.memory.map.elems i = none)
    (plenty : Plenty parser.memory) (plenty' : Plenty parser'.memory)
    (enough : commented.text.length < fuel) :
    Indifferent parser parser' fuel ↔ Harmless commented := by
  obtain ⟨ready, fresh, -⟩ := initYmlParser_ok created
  obtain ⟨ready', fresh', -⟩ := initYmlParser_ok created'
  have shorter := commented.deleted_sublist.length_le
  rw [indifferent_iff ready ready' fresh fresh' empty empty' plenty plenty' (by rw [loaded]; exact enough)
    (by rw [loaded']; omega), loaded, loaded']
  refine forall_congr' fun key => ?_
  rw [commented.ints_text, commented.strings_text, commented.ints_deleted, commented.strings_deleted,
    List.append_assoc, List.append_assoc]
  exact firstValue_common key _ _ _

/-- Where both patterns read the same behind the `#` as without the line, it is
harmless. -/
theorem harmless_of_same (numbers : ints commented.behind = ints (commented.joined intValue))
    (words : strings commented.behind = strings (commented.joined stringValue)) : Harmless commented := by
  intro key _
  rw [numbers, words]

/-- Nothing that could be a setting begins in the comment, and the lines before it
leave nothing that the lines behind it would complete. -/
structure Quiet (commented : Commented) (value : Regex Byte) : Prop where
  remark : Nowhere (bare value) (commented.remark ++ commented.ending) commented.after
  gap : Nowhere (bare value) (unfinished value commented.before) commented.after

theorem Quiet.same (pattern : ValuePattern value quotes) (quiet : Quiet commented value) (acc : Int) :
    readings value quotes acc commented.behind = readings value quotes acc (commented.joined value) := by
  rw [Commented.behind, ← List.append_assoc, readings_skip pattern.solid quiet.remark, Commented.joined,
    readings_skip pattern.solid quiet.gap]

theorem harmless_of_quiet (numbers : Quiet commented intValue) (words : Quiet commented stringValue) :
    Harmless commented :=
  harmless_of_same (numbers.same intPattern _) (words.same stringPattern _)

instance decidableQuiet (commented : Commented) (value : Regex Byte) : Decidable (Quiet commented value) :=
  decidable_of_iff (Nowhere (bare value) (commented.remark ++ commented.ending) commented.after ∧
    Nowhere (bare value) (unfinished value commented.before) commented.after)
    ⟨fun ⟨remark, gap⟩ => ⟨remark, gap⟩, fun quiet => ⟨quiet.remark, quiet.gap⟩⟩

/-- **A line that begins with `#` can be deleted when no setting begins in it** and when
the lines before it end in nothing that those behind it complete to a setting, by
either pattern. -/
theorem quiet_comment_is_deletable (commented : Commented) (parser parser' : Parser) (fuel : Nat)
    {path path' : Option (List Byte)} {startup startup' : Startup} {cells cells' : Heap Elem}
    {blocks blocks' : Heap (List Byte)} {supply supply' : Nat → Blocks}
    (created : initYmlParser path startup cells blocks supply = .ok parser)
    (created' : initYmlParser path' startup' cells' blocks' supply' = .ok parser')
    (loaded : parser.content.bytes = commented.text) (loaded' : parser'.content.bytes = commented.deleted)
    (empty : ∀ i, parser.memory.map.elems i = none) (empty' : ∀ i, parser'.memory.map.elems i = none)
    (plenty : Plenty parser.memory) (plenty' : Plenty parser'.memory)
    (enough : commented.text.length < fuel)
    (numbers : Quiet commented intValue) (words : Quiet commented stringValue) :
    Indifferent parser parser' fuel := by
  rw [comment_deletable_iff commented parser parser' fuel created created' loaded loaded' empty empty'
    plenty plenty' enough]
  exact harmless_of_quiet numbers words

/-- The line `# note` between two settings. -/
def note : Commented where
  before := bytes "a: 1\n"
  blanks := [SPACE]
  remark := bytes " note"
  ending := [LF]
  after := bytes "b: \"x\"\n"
  whole := .inr ⟨bytes "a: 1", by decide +kernel⟩
  white := by decide +kernel
  inside := by decide +kernel
  ends := .inl rfl

theorem quiet_comment_is_deletable_note : ∃ parser parser' : Parser,
    parser.content.bytes = bytes "a: 1\n # note\nb: \"x\"\n" ∧
      parser'.content.bytes = bytes "a: 1\nb: \"x\"\n" ∧ Indifferent parser parser' 22 := by
  let text : CString := ⟨note.text, by decide +kernel, by decide +kernel⟩
  let rest : CString := ⟨note.deleted, by decide +kernel, by decide +kernel⟩
  have created := freshParser_created (bytes "c.yml") text
  have created' := freshParser_created (bytes "c.yml") rest
  refine ⟨freshParser text, freshParser rest, by decide +kernel, by decide +kernel, ?_⟩
  exact quiet_comment_is_deletable note _ _ 22 created created' rfl rfl (fun _ => rfl) (fun _ => rfl)
    plenty_freshMemory plenty_freshMemory (by decide +kernel) (by decide +kernel) (by decide +kernel)

/-- The line `# slots: 5`. -/
def slotsRemark : Commented where
  before := []
  blanks := []
  remark := bytes " slots: 5"
  ending := [LF]
  after := []
  whole := .inl rfl
  white := by simp
  inside := by decide +kernel
  ends := .inl rfl

/-- A setting in a comment is read like any other. -/
theorem comment_configures : ∃ parser parser',
    initYmlParser (some (bytes "c.yml")) (.granted slotsRemark.text fun _ => none) (fun _ => none)
        (fun _ => none) freshMemory.supply = .ok parser ∧
      initYmlParser (some (bytes "c.yml")) (.granted slotsRemark.deleted fun _ => none) (fun _ => none)
        (fun _ => none) freshMemory.supply = .ok parser' ∧ ¬ Indifferent parser parser' 12 := by
  let text : CString := ⟨slotsRemark.text, by decide +kernel, by decide +kernel⟩
  refine ⟨_, _, freshParser_created _ text, freshParser_created _ ⟨[], by simp, by decide⟩, ?_⟩
  rw [indifferent_iff rfl rfl rfl rfl (fun _ => rfl) (fun _ => rfl) plenty_freshMemory plenty_freshMemory
    (show slotsRemark.text.length < 12 by decide +kernel) (show [].length < 12 by decide)]
  intro same
  have slots := same (bytes "slots")
  revert slots
  decide +kernel

end LocalServer.Yml
