import LocalServer.YmlParser

/-! A configuration that is written, parsed and asked for. Each pass reads the
lines of its own kind, whole and in their order, and passes over the others. -/
namespace LocalServer.Yml
open LinkedList Regex

/-! ## Integers in decimal -/

/-- A number in decimal. -/
def digits (n : Nat) : List Byte :=
  if n = 0 then [48] else (Nat.digits 10 n).reverse.map fun d => UInt8.ofNat (48 + d)

/-- What `%d` prints. -/
def decimal (n : Int) : List Byte := (if n < 0 then [MINUS] else []) ++ digits n.natAbs

theorem digit_of_lt {d : Nat} (small : d < 10) :
    isDigit (UInt8.ofNat (48 + d)) = true ∧ (UInt8.ofNat (48 + d)).toNat - 48 = d := by
  interval_cases d <;> decide

theorem digits_isDigit (n : Nat) : ∀ c ∈ digits n, isDigit c = true := by
  intro c member
  unfold digits at member
  split at member
  · rw [List.mem_singleton.mp member]
    decide
  · simp only [List.mem_map, List.mem_reverse] at member
    obtain ⟨d, among, rfl⟩ := member
    exact (digit_of_lt (Nat.digits_lt_base Nat.one_lt_ofNat among)).1

theorem digits_ne_nil (n : Nat) : digits n ≠ [] := by
  unfold digits
  split
  · simp
  · next nonzero => simpa using Nat.digits_ne_nil_iff_ne_zero.mpr nonzero

/-- Reading the digits from the front gives the number back. -/
theorem magnitude_digits (n : Nat) : magnitude (digits n) = n := by
  have fold : ∀ ds : List Nat, (∀ d ∈ ds, d < 10) →
      magnitude (ds.reverse.map fun d => UInt8.ofNat (48 + d)) = Nat.ofDigits 10 ds := by
    intro ds small
    induction ds with
    | nil => rfl
    | cons d ds ih =>
      have tail := ih fun d member => small d (by simp [member])
      unfold magnitude at tail ⊢
      rw [List.reverse_cons, List.map_append, List.foldl_append, tail, Nat.ofDigits_cons]
      simp only [List.map_cons, List.map_nil, List.foldl_cons, List.foldl_nil,
        (digit_of_lt (small d (by simp))).2]
      omega
  unfold digits
  split
  · next zero => rw [zero]; rfl
  · rw [fold _ fun d member => Nat.digits_lt_base Nat.one_lt_ofNat member, Nat.ofDigits_digits]

/-- `atoi` reads what `%d` prints. -/
theorem atoi_decimal {n : Int} (low : -2 ^ 31 ≤ n) (high : n < 2 ^ 31) : atoi (decimal n) = n := by
  have whole : (digits n.natAbs).takeWhile isDigit = digits n.natAbs :=
    List.takeWhile_eq_self_iff.mpr (digits_isDigit _)
  have read : strtol (decimal n) = n := by
    by_cases negative : n < 0
    · have shape : decimal n = MINUS :: digits n.natAbs := by rw [decimal, if_pos negative]; rfl
      have solid : (MINUS :: digits n.natAbs).dropWhile isSpace = MINUS :: digits n.natAbs := by
        rw [List.dropWhile_cons_of_neg (by simp)]
      rw [shape, strtol, solid]
      simp only [if_true, whole, magnitude_digits]
      omega
    · have shape : decimal n = digits n.natAbs := by rw [decimal, if_neg negative]; rfl
      obtain ⟨c, rest, first⟩ := List.exists_cons_of_ne_nil (digits_ne_nil n.natAbs)
      have digit : isDigit c = true := digits_isDigit n.natAbs c (by simp [first])
      obtain ⟨space, -, -, minus, -⟩ := key_apart c (digit_key c digit)
      have solid : (c :: rest).dropWhile isSpace = c :: rest := by
        rw [List.dropWhile_cons_of_neg (by simp [space])]
      have plus : c ≠ PLUS := fun same => by rw [same] at digit; exact absurd digit (by decide)
      rw [shape, strtol, first, solid]
      simp only [minus, plus, if_false, ← first, whole, magnitude_digits]
      omega
  rw [atoi, read]
  exact Int.bmod_eq_of_le (by omega) (by omega)

theorem bytesInt_intBytes {n : Int} (low : -2 ^ 31 ≤ n) (high : n < 2 ^ 31) :
    bytesInt (intBytes n) = n := by
  have size : (256 : Nat) ^ SIZEOF_INT = 2 ^ 32 := by norm_num [SIZEOF_INT]
  have small : (n % 2 ^ 32).toNat < 256 ^ SIZEOF_INT := by
    rw [size]
    omega
  have back : (ResponsePipe.ofBytes (intBytes n) : Int) = n % 2 ^ 32 := by
    rw [intBytes, ResponsePipe.ofBytes_toBytes small]
    exact Int.toNat_of_nonneg (Int.emod_nonneg _ (by norm_num))
  unfold bytesInt
  rw [back]
  calc (n % 2 ^ 32 : Int).bmod (2 ^ 32) = n.bmod (2 ^ 32) := Int.emod_bmod n (2 ^ 32)
    _ = n := Int.bmod_eq_of_le (by omega) (by omega)

/-! ## Settings -/

/-- `[A-Za-z0-9_]`. -/
def isName (c : Byte) : Bool := between 65 90 c || between 97 122 c || between 48 57 c || c = UNDERSCORE

/-- `[A-Za-z0-9_ ]`. -/
def isText (c : Byte) : Bool := isName c || c = SPACE

/-- With `REG_ICASE` the classes of the patterns are these. -/
theorem name_key (c : Byte) (name : isName c = true) : isKey c = true := by
  revert c
  decide +kernel

theorem text_word (c : Byte) (text : isText c = true) : isWord c = true := by
  revert c
  decide +kernel

inductive Value where
  | int (n : Int) (low : -2 ^ 31 ≤ n) (high : n < 2 ^ 31)
  | string (s : List Byte) (nonempty : s ≠ []) (chars : ∀ c ∈ s, isText c = true)

/-- The value as it is written in a file. -/
def Value.text : Value → List Byte
  | .int n _ _ => decimal n
  | .string s _ _ => QUOTE :: (s ++ [QUOTE])

/-- The value as it is kept in the map. -/
def Value.kept : Value → List Byte
  | .int n _ _ => intBytes n
  | .string s _ _ => s ++ [0]

/-- A buffer that this value was copied into: it holds the `int`, or the string
with its terminator. -/
def Value.Delivered : Value → List Byte → Prop
  | .int n _ _, buffer => buffer.length = SIZEOF_INT ∧ bytesInt buffer = n
  | .string s _ _, buffer => buffer = s ++ [0]

theorem Value.delivered (value : Value) : value.Delivered value.kept := by
  cases value with
  | int n low high => exact ⟨ResponsePipe.toBytes_length .., bytesInt_intBytes low high⟩
  | string s => rfl

def Value.isInt : Value → Bool
  | .int _ _ _ => true
  | .string _ _ _ => false

structure Setting where
  key : List Byte
  nonempty : key ≠ []
  chars : ∀ c ∈ key, isName c = true
  value : Value

def Setting.line (setting : Setting) : List Byte := Yml.line setting.key setting.value.text

/-- The text of a file with these settings. -/
def render (settings : List Setting) : List Byte := settings.flatMap Setting.line

/-- What the map keeps of a setting. -/
def Setting.pair (setting : Setting) : List Byte × List Byte := (setting.key, setting.value.kept)

variable {settings : List Setting}

theorem Setting.keys (setting : Setting) : ∀ c ∈ setting.key, isKey c = true :=
  fun c member => name_key c (setting.chars c member)

theorem Setting.noNul (setting : Setting) : 0 ∉ setting.key := fun member =>
  (key_apart 0 (setting.keys 0 member)).2.2.2.2.2.2 rfl

/-- What follows a line is the key of the next, or nothing. -/
theorem render_head : ∀ c ∈ (render settings).head?, isKey c = true := by
  cases settings with
  | nil => simp [render]
  | cons setting settings =>
    obtain ⟨c, key, first⟩ := List.exists_cons_of_ne_nil setting.nonempty
    have member := setting.keys c (by simp [first])
    simpa [render, Setting.line, line, first] using member

theorem render_append (first second : List Setting) :
    render (first ++ second) = render first ++ render second := List.flatMap_append

theorem render_cons (setting : Setting) (settings : List Setting) :
    render (setting :: settings) = setting.line ++ render settings := rfl

/-! ## What a pass finds -/

/-- A pass and the settings that are its own. -/
structure Kind (value : Regex Byte) (quotes : Nat) (acc : Int) (mine : Setting → Bool) : Prop where
  pattern : ValuePattern value quotes
  running : 0 ≤ acc
  reads : ∀ setting, mine setting = true → ∀ pos, ∃ groups, Parses value pos setting.value.text groups
  skips : ∀ setting, mine setting = false → ∀ pos settings,
    search (keyed value) pos (setting.line ++ render settings) =
      search (keyed value) (pos + setting.line.length) (render settings)
  converts : ∀ setting, mine setting = true →
    let inner := (setting.value.text.drop quotes).take (setting.value.text.length - quotes - quotes)
    (if acc = YML_INT_TYPE then intBytes (atoi inner) else inner ++ [0]) = setting.value.kept

theorem decimal_parts (n : Int) :
    ∃ sign, decimal n = sign ++ digits n.natAbs ∧ (sign = [] ∨ sign = [MINUS]) := by
  refine ⟨_, rfl, ?_⟩
  split
  · exact .inr rfl
  · exact .inl rfl

theorem decimal_head (n : Int) :
    ∃ c later, decimal n = c :: later ∧ isSpace c = false ∧ c ≠ QUOTE := by
  obtain ⟨sign, parts, rfl | rfl⟩ := decimal_parts n
  · obtain ⟨c, later, first⟩ := List.exists_cons_of_ne_nil (digits_ne_nil n.natAbs)
    obtain ⟨space, -, quote, -⟩ := key_apart c (digit_key c (digits_isDigit n.natAbs c (by simp [first])))
    exact ⟨c, later, by rw [parts, first]; rfl, space, quote⟩
  · exact ⟨MINUS, _, parts, by simp, marks_apart.1.symm⟩

theorem intKind : Kind intValue 0 YML_INT_TYPE fun setting => setting.value.isInt where
  pattern := intPattern
  running := by decide
  reads := by
    intro setting mine pos
    cases shape : setting.value with
    | string => simp [shape, Value.isInt] at mine
    | int n low high =>
      obtain ⟨sign, parts, signs⟩ := decimal_parts n
      rw [Value.text, parts]
      exact intValue_parses signs (digits_ne_nil _) (digits_isDigit _)
  skips := by
    intro setting other pos settings
    cases shape : setting.value with
    | int => simp [shape, Value.isInt] at other
    | string s nonempty chars =>
      rw [Setting.line, shape, Value.text]
      exact search_skips intPattern setting.keys ⟨QUOTE, _, rfl, by simp⟩ silent_int
        fun before c after same => string_inside (fun c member => text_word c (chars c member)) same
  converts := by
    intro setting mine
    cases shape : setting.value with
    | string => simp [shape, Value.isInt] at mine
    | int n low high =>
      simp only [Value.text, Value.kept, List.drop_zero, Nat.sub_zero, List.take_length, if_true,
        atoi_decimal low high]

theorem stringKind : Kind stringValue 1 YML_STRING_TYPE fun setting => !setting.value.isInt where
  pattern := stringPattern
  running := by decide
  reads := by
    intro setting mine pos
    cases shape : setting.value with
    | int => simp [shape, Value.isInt] at mine
    | string s nonempty chars =>
      exact stringValue_parses nonempty fun c member => text_word c (chars c member)
  skips := by
    intro setting other pos settings
    cases shape : setting.value with
    | string => simp [shape, Value.isInt] at other
    | int n low high =>
      obtain ⟨sign, parts, signs⟩ := decimal_parts n
      obtain ⟨c, later, starts, solid, other⟩ := decimal_head n
      rw [parts] at starts
      rw [Setting.line, shape, Value.text, parts]
      exact search_skips stringPattern setting.keys ⟨c, later, starts, solid⟩
        (by rw [starts]; exact silent_string other)
        fun before c after same => int_inside signs (digits_isDigit _) render_head same
  converts := by
    intro setting mine
    cases shape : setting.value with
    | int => simp [shape, Value.isInt] at mine
    | string s nonempty chars =>
      simp [Value.text, Value.kept, YML_STRING_TYPE, YML_INT_TYPE]

/-! ## A pass over a file -/

/-- `malloc` does not fail, and what it returns is not in use. -/
structure Plenty (memory : Memory) : Prop where
  found : ∀ n, ∃ cell key value garbage,
    memory.supply n = ⟨some cell, some key, some value, garbage⟩ ∧ Free memory.map cell key value
  cells : ∀ m n, m ≠ n → (memory.supply m).cell ≠ (memory.supply n).cell
  keys : ∀ m n, m ≠ n → (memory.supply m).key ≠ (memory.supply n).key
  values : ∀ m n, m ≠ n → (memory.supply m).value ≠ (memory.supply n).value
  apart : ∀ m n, (memory.supply m).key ≠ (memory.supply n).value

variable {value : Regex Byte} {quotes : Nat} {acc : Int} {mine : Setting → Bool} {memory : Memory}
  {content : List (List Byte × List Byte)} {fuel : Nat} {setting : Setting}

/-- An insertion of a setting leaves enough to go on. -/
theorem Plenty.insert (plenty : Plenty memory) (stands : StandsFor memory.map content)
    {key : List Byte} (noNul : 0 ∉ key) (kept : List Byte) (enough : content.length ≤ fuel) :
    ∃ map, hashmapInsert memory.map key kept (memory.supply 0) fuel = .ok (map, 1) ∧
      StandsFor map (content ++ [(key, kept)]) ∧ Plenty ⟨map, fun n => memory.supply (n + 1)⟩ := by
  obtain ⟨cell, keyAddr, valueAddr, garbage, first, free⟩ := plenty.found 0
  obtain ⟨map, inserted, stands', cells, blocks⟩ :=
    hashmapInsert_appends stands noNul kept free garbage enough
  refine ⟨map, by rw [first]; exact inserted, stands', fun n => ?_, fun m n other =>
    plenty.cells _ _ (by omega), fun m n other => plenty.keys _ _ (by omega),
    fun m n other => plenty.values _ _ (by omega), fun m n => plenty.apart _ _⟩
  obtain ⟨cell', keyAddr', valueAddr', garbage', later, free'⟩ := plenty.found (n + 1)
  have cellApart := plenty.cells (n + 1) 0 (by omega)
  have keyApart := plenty.keys (n + 1) 0 (by omega)
  have valueApart := plenty.values (n + 1) 0 (by omega)
  have keyValue := plenty.apart (n + 1) 0
  have valueKey := plenty.apart 0 (n + 1)
  simp only [first, later, ne_eq, Option.some.injEq] at cellApart keyApart valueApart keyValue valueKey
  refine ⟨cell', keyAddr', valueAddr', garbage', later, cells _ cellApart free'.cell, ?_, ?_, free'.apart⟩
  · rw [blocks _ keyApart keyValue]
    exact free'.key
  · rw [blocks _ (Ne.symm valueKey) valueApart]
    exact free'.value

/-- The match of a line gives its key and its value to the map. -/
theorem Kind.inserts (kind : Kind value quotes acc mine) (own : mine setting = true)
    (plenty : Plenty memory) (stands : StandsFor memory.map content) (enough : content.length ≤ fuel)
    (before : List Byte) (settings : List Setting) :
    ∃ found memory', search (keyed value) before.length (setting.line ++ render settings) = some found ∧
      found.eo = before.length + setting.line.length ∧
      insertKeysValues fuel memory (before ++ (setting.line ++ render settings)) found acc =
        .ok (memory', acc) ∧
      StandsFor memory'.map (content ++ [setting.pair]) ∧ Plenty memory' := by
  have clean : ∀ c ∈ (render settings).head?, c ≠ CR ∧ c ≠ LF := fun c first =>
    let apart := key_apart c (render_head c first)
    ⟨apart.2.2.2.2.1, apart.2.2.2.2.2.1⟩
  obtain ⟨found, searched, eo, key, val⟩ := search_line before.length kind.pattern
    setting.nonempty setting.keys (kind.reads setting own) clean
  obtain ⟨map, inserted, stands', plenty'⟩ := plenty.insert stands setting.noNul setting.value.kept enough
  refine ⟨found, ⟨map, fun n => memory.supply (n + 1)⟩, searched, eo, ?_, stands', plenty'⟩
  have keySlice : slice (before ++ (setting.line ++ render settings))
      ⟨KEY_GROUP, before.length, before.length + setting.key.length⟩ = setting.key := by
    rw [slice, List.drop_left, Nat.add_sub_cancel_left, Setting.line, line, List.append_assoc,
      List.take_left]
  have valueSlice : slice (before ++ (setting.line ++ render settings))
      ⟨VALUE_GROUP, before.length + setting.key.length + 2 + quotes,
        before.length + setting.key.length + 2 + setting.value.text.length - quotes⟩ =
      unquoted quotes setting.value.text := by
    have split : before ++ (setting.line ++ render settings) =
        (before ++ setting.key ++ [COLON, SPACE]) ++ (setting.value.text ++ LF :: render settings) := by
      simp [Setting.line, line]
    have start : before.length + setting.key.length + 2 = (before ++ setting.key ++ [COLON, SPACE]).length := by
      simp only [List.length_append, List.length_cons, List.length_nil]
    rw [split, start]
    exact slice_value ..
  have running : ¬ acc < 0 := not_lt.mpr kind.running
  have converts : (if acc = YML_INT_TYPE then intBytes (atoi (unquoted quotes setting.value.text))
      else unquoted quotes setting.value.text ++ [0]) = setting.value.kept := kind.converts setting own
  simp only [insertKeysValues, running, if_false, key, val, keySlice, valueSlice, converts, inserted]
  rfl

/-- Lines of the other kind are passed over. -/
theorem Kind.search_skipped (kind : Kind value quotes acc mine) {skipped : List Setting}
    (others : ∀ setting ∈ skipped, mine setting = false) (pos : Nat) (settings : List Setting) :
    search (keyed value) pos (render (skipped ++ settings)) =
      search (keyed value) (pos + (render skipped).length) (render settings) := by
  induction skipped generalizing pos with
  | nil => rfl
  | cons setting skipped ih =>
    have rest := ih (fun setting member => others setting (by simp [member])) (pos + setting.line.length)
    rw [List.cons_append, render_cons, kind.skips setting (others setting (by simp)), rest, render_cons,
      List.length_append, Nat.add_assoc]

/-- A pass puts its own settings into the map, in their order. It may begin behind
the last of them, with lines that it passes over. -/
theorem Kind.pass (kind : Kind value quotes acc mine) {skipped : List Setting}
    (others : ∀ setting ∈ skipped, mine setting = false) (plenty : Plenty memory)
    (stands : StandsFor memory.map content) (enough : content.length + (settings.filter mine).length ≤ fuel)
    {n : Nat} (most : settings.length ≤ n) :
    ∃ memory', applyMatches (keyed value) (insertKeysValues fuel) n (render (skipped ++ settings))
        memory acc = .ok (memory', acc) ∧
      StandsFor memory'.map (content ++ (settings.filter mine).map Setting.pair) ∧ Plenty memory' := by
  induction settings generalizing skipped memory content n with
  | nil =>
    have none : (keyed value).exec (render (skipped ++ [])) = none := by
      rw [exec, kind.search_skipped others]
      exact search_nil silent_nil
    refine ⟨memory, ?_, by simpa using stands, plenty⟩
    cases n with
    | zero => rfl
    | succ n => simp only [applyMatches, none]
  | cons setting settings ih =>
    rw [List.length_cons] at most
    cases own : mine setting with
    | false =>
      have others' : ∀ other ∈ skipped ++ [setting], mine other = false := by
        intro other member
        rcases List.mem_append.mp member with before | last
        · exact others other before
        · rw [List.mem_singleton.mp last, own]
      have dropped : (setting :: settings).filter mine = settings.filter mine :=
        List.filter_cons_of_neg (by simp [own])
      rw [dropped] at enough ⊢
      rw [← List.singleton_append, ← List.append_assoc]
      exact ih others' plenty stands enough (Nat.le_of_succ_le most)
    | true =>
      obtain ⟨n, rfl⟩ : ∃ m, n = m + 1 := ⟨n - 1, by omega⟩
      obtain ⟨found, memory', searched, eo, inserted, stands', plenty'⟩ :=
        kind.inserts own plenty stands (Nat.le_of_add_right_le enough) (render skipped) settings
      have matched : (keyed value).exec (render (skipped ++ setting :: settings)) = some found := by
        rw [exec, kind.search_skipped others, Nat.zero_add, render_cons, searched]
      have behind : (render (skipped ++ setting :: settings)).drop found.eo = render settings := by
        rw [eo, render_append, render_cons, List.drop_length_add_append, List.drop_left]
      rw [← render_cons, ← render_append] at inserted
      have taken : (setting :: settings).filter mine = setting :: settings.filter mine :=
        List.filter_cons_of_pos own
      rw [taken, List.length_cons] at enough
      have room : (content ++ [setting.pair]).length + (settings.filter mine).length ≤ fuel := by
        rw [List.length_append, List.length_singleton]
        omega
      obtain ⟨memory'', passed, stands'', plenty''⟩ :=
        ih (List.forall_mem_nil _) plenty' stands' room (Nat.le_of_succ_le_succ most)
      refine ⟨memory'', ?_, by simpa [taken] using stands'', plenty''⟩
      simp only [applyMatches, matched, inserted, behind]
      exact passed

/-! ## The whole way -/

theorem decimal_ne_nil (n : Int) : decimal n ≠ [] := by
  obtain ⟨c, later, first, -⟩ := decimal_head n
  simp [first]

theorem Value.text_ne_nil (value : Value) : value.text ≠ [] := by
  cases value with
  | int n low high => exact decimal_ne_nil n
  | string s => exact List.cons_ne_nil _ _

/-- A line takes five bytes at least, so that the loop of a pass does not end
before the text. -/
theorem enough_matches (settings : List Setting) : settings.length ≤ (render settings).length / 3 := by
  have five : 5 * settings.length ≤ (render settings).length := by
    induction settings with
    | nil => simp
    | cons setting settings ih =>
      have key := List.length_pos_of_ne_nil setting.nonempty
      have text := List.length_pos_of_ne_nil setting.value.text_ne_nil
      rw [render_cons, List.length_append, List.length_cons, Setting.line, line_length]
      omega
  omega

theorem find_setting {stored : List Setting} (distinct : (stored.map Setting.key).Nodup)
    (member : setting ∈ stored) : stored.find? (·.key = setting.key) = some setting := by
  cases first : stored.find? (·.key = setting.key) with
  | none => simpa using List.find?_eq_none.mp first setting member
  | some other =>
    have same : other.key = setting.key := by simpa using List.find?_some first
    rw [List.inj_on_of_nodup_map distinct (List.mem_of_find?_eq_some first) member same]

/-- All calls to the system do what they are for. -/
def Answers.granted : Answers where
  interrupted := false
  intCompiled := true
  stringCompiled := true
  posted := true

/-- Both passes over the text of a file end well, and the map then holds its
settings, the integers first. -/
theorem execParser_stores {parser : Parser} (text : parser.content.bytes = render settings)
    (empty : ∀ i, parser.memory.map.elems i = none) (plenty : Plenty parser.memory)
    (ready : 0 < parser.mutex) (fresh : parser.executed = false) (enough : settings.length ≤ fuel) :
    ∃ parser', execParser parser .granted fuel = .ok (parser', 1) ∧
      StandsFor parser'.memory.map ((settings.filter (·.value.isInt) ++
        settings.filter (!·.value.isInt)).map Setting.pair) := by
  have both := (List.filter_append_perm (fun setting : Setting => setting.value.isInt) settings).length_eq
  rw [List.length_append] at both
  have most := enough_matches settings
  obtain ⟨ints, intPass, standsInts, plentyInts⟩ := intKind.pass (List.forall_mem_nil _) plenty
    (standsFor_empty empty) (show [].length + _ ≤ fuel by rw [List.length_nil]; omega) most
  obtain ⟨all, stringPass, stands, -⟩ := stringKind.pass (List.forall_mem_nil _) plentyInts
    standsInts (show _ ≤ fuel by simp only [List.length_append, List.length_map, List.length_nil]; omega) most
  rw [List.nil_append, ← text] at intPass stringPass
  refine ⟨{ parser with memory := all, executed := true, mutex := parser.mutex - 1 + 1 }, ?_, by
    simpa using stands⟩
  have waits : parser.mutex ≠ 0 := Nat.ne_of_gt ready
  have readInts : regApplyFunc parser.content.bytes YML_INT_REGEX (insertKeysValues fuel) parser.memory
      YML_INT_TYPE true = .ok (ints, YML_INT_TYPE) := intPass
  have readStrings : regApplyFunc parser.content.bytes YML_STRING_REGEX (insertKeysValues fuel) ints
      YML_STRING_TYPE true = .ok (all, YML_STRING_TYPE) := stringPass
  simp only [execParser, Answers.granted, Bool.false_eq_true, waits, fresh, if_false, if_true, readInts,
    readStrings, not_lt.mpr intKind.running, not_lt.mpr stringKind.running]

/-- A file that is written from settings with distinct keys is read back: each key
has its value, and there are no others, whatever chains the keys share. -/
theorem configuration_round_trip (settings : List Setting)
    (distinct : (settings.map Setting.key).Nodup) (parser : Parser)
    (text : parser.content.bytes = render settings)
    (empty : ∀ i, parser.memory.map.elems i = none) (plenty : Plenty parser.memory)
    (ready : 0 < parser.mutex) (fresh : parser.executed = false) (enough : settings.length < fuel) :
    ∃ parser', execParser parser .granted fuel = .ok (parser', 1) ∧
      (∀ setting ∈ settings, ∃ buffer, get parser'.memory.map setting.key fuel = .ok (1, buffer) ∧
        setting.value.Delivered buffer) ∧
      ∀ key, key ∉ settings.map Setting.key → get parser'.memory.map key fuel = .ok (0, []) := by
  obtain ⟨parser', executed, stands⟩ := execParser_stores text empty plenty ready fresh enough.le
  generalize content : settings.filter (·.value.isInt) ++ settings.filter (!·.value.isInt) = stored at stands
  have same : stored.Perm settings := content ▸ List.filter_append_perm _ _
  have distinct' : (stored.map Setting.key).Nodup := (same.map Setting.key).nodup_iff.mpr distinct
  have finds := get_finds stands (show _ < fuel by rw [List.length_map, same.length_eq]; exact enough)
  refine ⟨parser', executed, fun setting member => ⟨setting.value.kept, ?_, setting.value.delivered⟩,
    fun key outside => ?_⟩
  · have first : (stored.map Setting.pair).find? (·.1 = setting.key) = some setting.pair := by
      rw [List.find?_map]
      exact congrArg (Option.map _) (find_setting distinct' (same.mem_iff.mpr member))
    rw [finds, first]
    rfl
  · have nowhere : (stored.map Setting.pair).find? (·.1 = key) = none := by
      rw [List.find?_eq_none]
      intro pair among
      obtain ⟨setting, member, rfl⟩ := List.mem_map.mp among
      have other : setting.key ≠ key := fun found =>
        outside (found ▸ List.mem_map_of_mem (same.mem_iff.mp member))
      exact fun same => other (of_decide_eq_true same)
    rw [finds, nowhere]

/-- Fresh memory, in which each insertion takes the next addresses. -/
def freshMemory : Memory where
  map := ⟨fun _ => none, fun _ => none, fun _ => none⟩
  supply n := ⟨some n, some (2 * n), some (2 * n + 1), ⟨none, none, 0, none⟩⟩

theorem plenty_freshMemory : Plenty freshMemory where
  found n := ⟨n, 2 * n, 2 * n + 1, _, rfl, rfl, rfl, rfl, Nat.ne_of_lt (Nat.lt_succ_self _)⟩
  cells m n other := by simpa [freshMemory] using other
  keys m n other := by simpa [freshMemory] using other
  values m n other := by simpa [freshMemory] using other
  apart m n := by
    have parity : 2 * m ≠ 2 * n + 1 := by omega
    simpa [freshMemory] using parity

/-- Two settings whose keys have one hash. -/
def neighbours : List Setting :=
  [⟨bytes "aj", by decide +kernel, by decide +kernel, .int (-5) (by decide) (by decide)⟩,
   ⟨bytes "bE", by decide +kernel, by decide +kernel,
    .string (bytes "x y") (by decide +kernel) (by decide +kernel)⟩]

theorem configuration_round_trip_neighbours : ∃ parser parser' : Parser,
    parser.content.bytes = bytes "aj: -5\nbE: \"x y\"\n" ∧ bucket (bytes "aj") = bucket (bytes "bE") ∧
      execParser parser .granted 3 = .ok (parser', 1) ∧
      (∃ buffer, get parser'.memory.map (bytes "aj") 3 = .ok (1, buffer) ∧ bytesInt buffer = -5) ∧
      get parser'.memory.map (bytes "bE") 3 = .ok (1, bytes "x y" ++ [0]) ∧
      get parser'.memory.map (bytes "c") 3 = .ok (0, []) := by
  have written : bytes "aj: -5\nbE: \"x y\"\n" = render neighbours := by decide +kernel
  let parser : Parser :=
    ⟨1, ⟨bytes "aj: -5\nbE: \"x y\"\n", by decide +kernel, by decide +kernel⟩, freshMemory, false⟩
  obtain ⟨parser', executed, finds, others⟩ := configuration_round_trip neighbours (by decide +kernel) parser
    written (fun _ => rfl) plenty_freshMemory (by decide) rfl (show neighbours.length < 3 by decide)
  obtain ⟨buffer, number, -, five⟩ := finds _ List.mem_cons_self
  obtain ⟨_, string, rfl⟩ := finds _ (List.mem_cons_of_mem _ List.mem_cons_self)
  exact ⟨parser, parser', rfl, by decide +kernel, executed, ⟨buffer, number, five⟩, string,
    others _ (by decide +kernel)⟩

end LocalServer.Yml
