import LocalServer.Configuration
import LocalServer.Lib.Scan

/-! What a pass reads in any text. The ends of lines behind a value decide nothing,
so that a pass reads the words of the pattern without them, from the left to the
right; each is one insertion. -/
namespace LocalServer.Yml
open Regex

variable {value : Regex Byte} {quotes : Nat} {acc : Int} {pos : Nat}
  {word text before after part x y : List Byte} {groups : List Capture}

/-! ## Words -/

/-- There is a colon, and something behind it that is no white space. -/
def Completed (text : List Byte) : Prop :=
  ∃ x y, text = x ++ COLON :: y ∧ ∃ c ∈ y, isSpace c = false

theorem Completed.append (completed : Completed text) (before after : List Byte) :
    Completed (before ++ (text ++ after)) := by
  obtain ⟨x, y, rfl, c, member, solid⟩ := completed
  exact ⟨before ++ x, y ++ after, by simp, c, List.mem_append_left after member, solid⟩

theorem completed_of_reads (solid : Solid value) (reads : Reads (bare value) word) : Completed word := by
  obtain ⟨_, _, parsed⟩ := reads
  obtain ⟨key, gap, gap', v, inner, rfl, -, -, -, -, found, -⟩ := parses_bare parsed
  obtain ⟨c, later, rfl, first⟩ := solid _ _ _ found
  exact ⟨key ++ gap, gap' ++ c :: later, by simp, c, by simp, first⟩

/-- A text with one colon is cut there in one way. -/
theorem split_unique {a b x y : List Byte} {c : Byte} (left : c ∉ a) (right : c ∉ b)
    (same : a ++ c :: b = x ++ c :: y) : a = x ∧ b = y := by
  have lengths : a.length = x.length := by
    rcases List.append_eq_append_iff.mp same with ⟨z, rfl, behind⟩ | ⟨z, rfl, behind⟩
    · cases z with
      | nil => simp
      | cons d z =>
        have later := (List.cons.inj behind).2
        exact absurd (by simp [later]) right
    · cases z with
      | nil => simp
      | cons d z =>
        have here := (List.cons.inj behind).1
        exact absurd (by simp [here]) left
  obtain ⟨rfl, behind⟩ := List.append_inj same lengths
  exact ⟨rfl, (List.cons.inj behind).2⟩

/-- White space of lines is before the value: up to there nothing is completed. -/
theorem not_completed_of_cut (pattern : ValuePattern value quotes) {e : Byte}
    (reads : Reads (bare value) (x ++ e :: y)) (isEnd : e = CR ∨ e = LF) : ¬ Completed (x ++ [e]) := by
  obtain ⟨_, _, parsed⟩ := reads
  obtain ⟨key, gap, gap', v, inner, split, -, members, blank, blank', found, -⟩ := parses_bare parsed
  have outside : e ∉ v := by
    intro member
    obtain ⟨cr, lf⟩ := pattern.inside _ _ _ found e member
    exact isEnd.elim cr lf
  -- what stands before the value
  obtain ⟨more, front⟩ : ∃ more, key ++ gap ++ COLON :: gap' = x ++ [e] ++ more := by
    have split : (key ++ gap ++ COLON :: gap') ++ v = x ++ e :: y := by rw [split]; simp
    rcases List.append_eq_append_iff.mp split with ⟨gone, rfl, behind⟩ | ⟨rest, same, behind⟩
    · exact absurd (by rw [behind]; simp) outside
    · cases rest with
      | nil => exact absurd (by rw [← List.nil_append v, ← behind]; simp) outside
      | cons d rest =>
        obtain ⟨rfl, -⟩ := List.cons.inj behind
        exact ⟨rest, by rw [same]; simp⟩
  rintro ⟨x', y', cut, c, member, solid⟩
  have colon : COLON ∉ key ++ gap := by
    intro among
    rcases List.mem_append.mp among with inKey | inGap
    · simpa using members COLON inKey
    · simpa using blank COLON inGap
  have colon' : COLON ∉ gap' := by
    intro among
    simpa using blank' COLON among
  have same : key ++ gap ++ COLON :: gap' = x' ++ COLON :: (y' ++ more) := by
    rw [front, cut]
    simp
  obtain ⟨-, rfl⟩ := split_unique colon colon' same
  have white := blank' c (List.mem_append_left more member)
  rw [solid] at white
  cases white

/-! ## Readings -/

/-- The value of a word, as it is written. -/
def written (word : List Byte) : List Byte :=
  ((word.dropWhile (· ≠ COLON)).drop 1).dropWhile isSpace

/-- What is stored for the text of a value. -/
def convert (acc : Int) (text : List Byte) : List Byte :=
  if acc = YML_INT_TYPE then intBytes (atoi text) else text ++ [0]

/-- The key and the value that a word stands for. -/
def reading (quotes : Nat) (acc : Int) (word : List Byte) : List Byte × List Byte :=
  (word.takeWhile isKey, convert acc (unquoted quotes (written word)))

/-- What a pass reads in a text, in its order. -/
def readings (value : Regex Byte) (quotes : Nat) (acc : Int) (text : List Byte) :
    List (List Byte × List Byte) :=
  (words (bare value) text).map (reading quotes acc)

def ints : List Byte → List (List Byte × List Byte) := readings intValue 0 YML_INT_TYPE

def strings : List Byte → List (List Byte × List Byte) := readings stringValue 1 YML_STRING_TYPE

theorem space_not_key (c : Byte) (space : isSpace c = true) : isKey c = false := by
  by_contra key
  simp [(key_apart c (by simpa using key)).1] at space

/-- The parts of a word are the ones that were matched. -/
theorem word_parts {key gap gap' v : List Byte} (solid : ∃ c later, v = c :: later ∧ isSpace c = false)
    (members : ∀ c ∈ key, isKey c = true) (blank : ∀ c ∈ gap, isSpace c = true)
    (blank' : ∀ c ∈ gap', isSpace c = true) :
    (key ++ (gap ++ COLON :: (gap' ++ v))).takeWhile isKey = key ∧
      written (key ++ (gap ++ COLON :: (gap' ++ v))) = v := by
  obtain ⟨c, later, rfl, first⟩ := solid
  constructor
  · rw [List.takeWhile_append_of_pos members]
    cases gap with
    | nil => simp
    | cons d gap => simp [space_not_key d (blank d (by simp))]
  · have front : ∀ c ∈ key ++ gap, decide (c ≠ COLON) = true := by
      intro c member
      rcases List.mem_append.mp member with inKey | inGap
      · simpa using (key_apart c (members c inKey)).2.1
      · have space := blank c inGap
        simp only [decide_eq_true_eq]
        rintro rfl
        simp at space
    rw [written, ← List.append_assoc, List.dropWhile_append_of_pos front]
    simp only [List.dropWhile_cons, ne_eq, not_true_eq_false, decide_false, Bool.false_eq_true, if_false,
      List.drop_succ_cons, List.drop_zero]
    rw [List.dropWhile_append_of_pos blank', List.dropWhile_cons_of_neg (by simp [first])]

theorem silent_keyed (silent : Silent (bare value) text) : Silent (keyed value) text := by
  intro pos word rest groups same parsed
  obtain ⟨setting, ends, first, last, rfl, -, parsed, -⟩ := parses_keyed_iff.mp parsed
  exact silent pos setting (ends ++ rest) first (by rw [same, List.append_assoc]) parsed

/-- A search for the whole pattern passes over what holds no word. -/
theorem search_nowhere (nowhere : Nowhere (bare value) before after) :
    search (keyed value) pos (before ++ after) = search (keyed value) (pos + before.length) after :=
  search_append fun front c last split => silent_keyed (nowhere front c last split)

/-- The whole pattern matches the first word, and the ends of lines behind it. -/
theorem exec_word (pattern : ValuePattern value quotes) (first : First (bare value) before word after) :
    ∃ ends behind inner outer, after = ends ++ behind ∧ (∀ c ∈ ends, c = CR ∨ c = LF) ∧
      Parses (bare value) before.length word inner ∧ (∀ capture ∈ outer, capture.group = 3) ∧
      (keyed value).exec (before ++ (word ++ after)) =
        some ⟨before.length, before.length + (word ++ ends).length, inner ++ outer⟩ := by
  obtain ⟨_, _, here⟩ := first.reads
  obtain ⟨groups, here⟩ := here.move before.length
  have whole : Parses (keyed value) before.length word groups :=
    parses_keyed_iff.mpr ⟨word, [], groups, [], by simp, by simp, here, .starNil _ _⟩
  obtain ⟨n, groups, longest, found⟩ := search_stops whole after
  obtain ⟨taken, behind, same, rfl, parsed⟩ := longest.parses
  have reach := longest.longest word after _ rfl whole
  obtain ⟨setting, ends, inner, outer, rfl, rfl, read, tail⟩ := parses_keyed_iff.mp parsed
  obtain ⟨marks, numbers⟩ := lineEnds_chars tail
  rw [List.append_assoc] at same
  have short := first.longest setting (ends ++ behind) same ⟨_, _, read⟩
  have completed := completed_of_reads pattern.solid ⟨_, _, read⟩
  -- no shorter word, as ends of lines do not stand in a word
  have lengths : word.length = setting.length := by
    rcases List.append_eq_append_iff.mp same with ⟨gap, longer, -⟩ | ⟨gap, longer, later⟩
    · rw [longer, List.length_append] at short ⊢
      omega
    · cases gap with
      | nil => rw [longer, List.append_nil]
      | cons e gap =>
        cases ends with
        | nil =>
          rw [longer] at reach
          simp at reach
        | cons d ends =>
          obtain ⟨rfl, -⟩ := List.cons.inj later
          have cut : Reads (bare value) (setting ++ d :: gap) := longer ▸ first.reads
          exact absurd (completed.append [] [d]) (not_completed_of_cut pattern cut (marks d (by simp)))
  obtain ⟨rfl, rfl⟩ := List.append_inj same lengths
  refine ⟨ends, behind, inner, outer, rfl, marks, read, numbers, ?_⟩
  rw [exec, search_nowhere first.nowhere, Nat.zero_add, found]

/-- The groups of this match are the key and the value of the word. -/
theorem exec_first (pattern : ValuePattern value quotes) (first : First (bare value) before word after) :
    ∃ found key val ends behind, (keyed value).exec (before ++ (word ++ after)) = some found ∧
      found.group? KEY_GROUP = some key ∧ found.group? VALUE_GROUP = some val ∧
      slice (before ++ (word ++ after)) key = word.takeWhile isKey ∧
      slice (before ++ (word ++ after)) val = unquoted quotes (written word) ∧
      after = ends ++ behind ∧ (∀ c ∈ ends, c = CR ∨ c = LF) ∧
      (before ++ (word ++ after)).drop found.eo = behind := by
  obtain ⟨ends, behind, inner, outer, rfl, marks, parsed, numbers, found⟩ := exec_word pattern first
  obtain ⟨key, gap, gap', v, captures, rfl, -, members, blank, blank', read, rfl⟩ := parses_bare parsed
  obtain ⟨keyPart, valuePart⟩ := word_parts (pattern.solid _ _ _ read) members blank blank'
  rw [pattern.groups _ _ _ read] at found
  refine ⟨_, ⟨KEY_GROUP, before.length, before.length + key.length⟩, ⟨VALUE_GROUP,
    before.length + key.length + gap.length + 1 + gap'.length + quotes,
    before.length + key.length + gap.length + 1 + gap'.length + v.length - quotes⟩, ends, behind, found,
    (groups_named _ _ rfl rfl numbers).1, (groups_named _ _ rfl rfl numbers).2, ?_, ?_, rfl, marks, ?_⟩
  · rw [keyPart, slice, List.drop_left, Nat.add_sub_cancel_left, List.append_assoc, List.take_left]
  · rw [valuePart]
    have front : before ++ (key ++ (gap ++ COLON :: (gap' ++ v)) ++ (ends ++ behind)) =
        (before ++ key ++ gap ++ [COLON] ++ gap') ++ (v ++ (ends ++ behind)) := by simp
    have start : (before ++ key ++ gap ++ [COLON] ++ gap').length =
        before.length + key.length + gap.length + 1 + gap'.length := by
      simp only [List.length_append, List.length_singleton]
    rw [front, ← start]
    exact slice_value _ v (ends ++ behind) quotes
  · have reach : before ++ (key ++ (gap ++ COLON :: (gap' ++ v)) ++ (ends ++ behind)) =
        before ++ ((key ++ (gap ++ COLON :: (gap' ++ v)) ++ ends) ++ behind) := by simp
    rw [reach, List.drop_length_add_append, List.drop_left]

/-- A word is three characters at least: a key, a colon and a value. -/
theorem three_le_length (solid : Solid value) (reads : Reads (bare value) word) : 3 ≤ word.length := by
  obtain ⟨_, _, parsed⟩ := reads
  obtain ⟨key, gap, gap', v, inner, rfl, nonempty, -, -, -, read, -⟩ := parses_bare parsed
  obtain ⟨c, later, rfl, -⟩ := solid _ _ _ read
  have some := List.length_pos_of_ne_nil nonempty
  simp only [List.length_append, List.length_cons]
  omega

theorem bare_proper (solid : Solid value) : ¬ Reads (bare value) [] := by
  intro reads
  have three := three_le_length solid reads
  simp at three

/-- The loop of a pass has rounds enough. -/
theorem readings_length (solid : Solid value) (text : List Byte) :
    (readings value quotes acc text).length ≤ text.length / 3 := by
  have taken := (scans_words (bare_proper solid) text).length fun word => three_le_length solid
  rw [readings, List.length_map]
  omega

theorem reading_noNul (word : List Byte) : 0 ∉ (reading quotes acc word).1 := by
  intro member
  have key := List.mem_takeWhile_imp member
  exact absurd key (by decide +kernel)

/-- A word begins with a character of a key. -/
theorem nowhere_of_not_key (outside : ∀ c ∈ before, isKey c = false) : Nowhere (bare value) before after := by
  intro front c last split
  rw [silent_iff]
  rintro word rest same ⟨_, _, parsed⟩
  obtain ⟨key, gap, gap', v, inner, rfl, nonempty, members, -⟩ := parses_bare parsed
  obtain ⟨d, key, rfl⟩ := List.exists_cons_of_ne_nil nonempty
  obtain ⟨rfl, -⟩ := List.cons.inj same
  have mark := outside c (by rw [split]; simp)
  rw [members c (by simp)] at mark
  cases mark

/-- Ends of lines hold no word. -/
theorem nowhere_ends {ends : List Byte} (marks : ∀ c ∈ ends, c = CR ∨ c = LF) :
    Nowhere (bare value) ends after := by
  refine nowhere_of_not_key fun c member => ?_
  rcases marks c member with rfl | rfl <;> decide +kernel

theorem readings_skip (solid : Solid value) (nowhere : Nowhere (bare value) before after) :
    readings value quotes acc (before ++ after) = readings value quotes acc after := by
  obtain ⟨rest, skipped⟩ := (scans_words (bare_proper solid) after).skip nowhere
  rw [readings, (skipped.words_eq (bare_proper solid)).1]
  rfl

/-- A text has no word, or a first one and what is read behind it. -/
theorem readings_cases (solid : Solid value) (quotes : Nat) (acc : Int) (text : List Byte) :
    (Nowhere (bare value) text [] ∧ readings value quotes acc text = []) ∨
      ∃ before word after, text = before ++ (word ++ after) ∧ First (bare value) before word after ∧
        readings value quotes acc text = reading quotes acc word :: readings value quotes acc after := by
  have scans := scans_words (bare_proper solid) text
  rw [readings]
  generalize words (bare value) text = found, leftover (bare value) text = rest at scans
  cases scans with
  | stop _ nowhere => exact .inl ⟨nowhere, rfl⟩
  | step before word after later _ first scans =>
    refine .inr ⟨before, word, after, rfl, first, ?_⟩
    rw [readings, (scans.words_eq (bare_proper solid)).1]
    rfl

/-! ## A pass -/

variable {memory : Memory} {content : List (List Byte × List Byte)} {fuel : Nat}

/-- One round of a pass: nothing is found and nothing is read, or the first reading
is inserted and the rest is read behind the match. -/
theorem round_cases (pattern : ValuePattern value quotes) (running : 0 ≤ acc) (text : List Byte) :
    ((keyed value).exec text = none ∧ readings value quotes acc text = []) ∨
      ∃ found first rest, (keyed value).exec text = some found ∧
        readings value quotes acc text = first :: rest ∧
        readings value quotes acc (text.drop found.eo) = rest ∧ 0 ∉ first.1 ∧
        ∀ fuel memory, insertKeysValues fuel memory text found acc =
          (hashmapInsert memory.map first.1 first.2 (memory.supply 0) fuel).map fun (map, r) =>
            (⟨map, fun n => memory.supply (n + 1)⟩, if r < 0 then -1 else acc) := by
  rcases readings_cases pattern.solid quotes acc text with ⟨nowhere, none⟩ |
    ⟨before, word, after, rfl, first, whole⟩
  · refine .inl ⟨?_, none⟩
    have passed : search (keyed value) 0 (text ++ []) = search (keyed value) (0 + text.length) [] :=
      search_nowhere nowhere
    rw [List.append_nil] at passed
    rw [exec, passed]
    exact search_nil (silent_nil)
  · obtain ⟨found, key, val, ends, behind, executed, keyGroup, valueGroup, keySlice, valueSlice, rfl,
      marks, rest⟩ := exec_first pattern first
    rw [readings_skip pattern.solid (nowhere_ends marks)] at whole
    refine .inr ⟨found, _, _, executed, whole, by rw [rest], reading_noNul word, fun fuel memory => ?_⟩
    have continues : ¬ acc < 0 := not_lt.mpr running
    simp only [insertKeysValues, continues, if_false, keyGroup, valueGroup, keySlice, valueSlice, reading,
      convert]
    cases hashmapInsert memory.map (word.takeWhile isKey) _ (memory.supply 0) fuel <;> rfl

/-- A pass puts what it reads into the map. -/
theorem pass_reads (pattern : ValuePattern value quotes) (running : 0 ≤ acc) (plenty : Plenty memory)
    (stands : StandsFor memory.map content)
    (enough : content.length + (readings value quotes acc text).length ≤ fuel) {n : Nat}
    (most : (readings value quotes acc text).length ≤ n) :
    ∃ memory', applyMatches (keyed value) (insertKeysValues fuel) n text memory acc =
        .ok (memory', acc) ∧
      StandsFor memory'.map (content ++ readings value quotes acc text) ∧ Plenty memory' := by
  induction n generalizing text memory content with
  | zero =>
    have none := List.length_eq_zero_iff.mp (Nat.le_zero.mp most)
    exact ⟨memory, rfl, by rwa [none, List.append_nil], plenty⟩
  | succ n ih =>
    rcases round_cases pattern running text with ⟨found, none⟩ |
      ⟨found, first, rest, executed, whole, behind, noNul, inserts⟩
    · refine ⟨memory, ?_, by rwa [none, List.append_nil], plenty⟩
      simp only [applyMatches, found]
    · rw [whole, List.length_cons] at enough most
      obtain ⟨map, inserted, stands', plenty'⟩ :=
        plenty.insert stands noNul first.2 (show content.length ≤ fuel by omega)
      have room : (content ++ [first]).length + (readings value quotes acc (text.drop found.eo)).length ≤
          fuel := by
        rw [behind, List.length_append, List.length_singleton]
        omega
      obtain ⟨memory', passed, stands'', plenty''⟩ := ih plenty' stands' room (by rw [behind]; omega)
      refine ⟨memory', ?_, by rw [whole]; simpa [behind] using stands'', plenty''⟩
      simp only [applyMatches, executed, inserts, inserted, Except.map]
      exact passed

/-- Both passes over any text end well, and the map then holds what they read, the
integers first. -/
theorem execParser_reads {parser : Parser} (empty : ∀ i, parser.memory.map.elems i = none)
    (plenty : Plenty parser.memory) (ready : 0 < parser.mutex) (fresh : parser.executed = false)
    (enough : parser.content.bytes.length ≤ fuel) :
    ∃ parser', execParser parser .granted fuel = .ok (parser', 1) ∧
      StandsFor parser'.memory.map (ints parser.content.bytes ++ strings parser.content.bytes) := by
  generalize written : parser.content.bytes = text at enough
  have most : (ints text).length ≤ text.length / 3 := readings_length intPattern.solid text
  have most' : (strings text).length ≤ text.length / 3 := readings_length stringPattern.solid text
  obtain ⟨first, intPass, standsInts, plentyInts⟩ := pass_reads intPattern intKind.running plenty
    (standsFor_empty empty) (show [].length + (ints text).length ≤ fuel by simp only [List.length_nil]; omega)
    most
  rw [List.nil_append] at standsInts
  obtain ⟨all, stringPass, stands, -⟩ := pass_reads stringPattern stringKind.running plentyInts standsInts
    (show (ints text).length + (strings text).length ≤ fuel by omega) most'
  refine ⟨{ parser with memory := all, executed := true, mutex := parser.mutex - 1 + 1 }, ?_, stands⟩
  have waits : parser.mutex ≠ 0 := Nat.ne_of_gt ready
  have readInts : regApplyFunc text YML_INT_REGEX (insertKeysValues fuel) parser.memory YML_INT_TYPE true =
      .ok (first, YML_INT_TYPE) := intPass
  have readStrings : regApplyFunc text YML_STRING_REGEX (insertKeysValues fuel) first YML_STRING_TYPE true =
      .ok (all, YML_STRING_TYPE) := stringPass
  simp only [execParser, Answers.granted, Bool.false_eq_true, waits, fresh, if_false, if_true, written,
    readInts, readStrings, not_lt.mpr intKind.running, not_lt.mpr stringKind.running]

end LocalServer.Yml
