import LocalServer.Lib.Regex

/-! Scanning a text with an expression: the first match, then the first behind it,
and so on. The words that are found are a matter of the language of the expression
alone. They can be found part by part where no match crosses from one part into the
next that the first part does not know. -/
namespace LocalServer.Regex

variable {α : Type*} {r : Regex α} {pos : Nat} {text word before after rest : List α}
  {groups : List Capture}

/-! ## Words -/

/-- The word is in the language of the expression. -/
def Reads (r : Regex α) (word : List α) : Prop := ∃ pos groups, Parses r pos word groups

/-- What is matched at one offset is matched at every other. -/
theorem Parses.move (parsed : Parses r pos word groups) (other : Nat) :
    ∃ groups, Parses r other word groups := by
  induction parsed generalizing other with
  | char chars _ c member => exact ⟨[], .char chars other c member⟩
  | seq r s _ u v _ _ _ _ left right =>
    obtain ⟨first, left⟩ := left other
    obtain ⟨second, right⟩ := right (other + u.length)
    exact ⟨first ++ second, .seq r s other u v first second left right⟩
  | starNil r _ => exact ⟨[], .starNil r other⟩
  | starCons r _ u v _ _ nonempty _ _ head tail =>
    obtain ⟨first, head⟩ := head other
    obtain ⟨second, tail⟩ := tail (other + u.length)
    exact ⟨first ++ second, .starCons r other u v first second nonempty head tail⟩
  | optNone r _ => exact ⟨[], .optNone r other⟩
  | optSome r _ w _ _ body =>
    obtain ⟨groups, body⟩ := body other
    exact ⟨groups, .optSome r other w groups body⟩
  | group n r _ w _ _ body =>
    obtain ⟨groups, body⟩ := body other
    exact ⟨_, .group n r other w groups body⟩

theorem silent_iff : Silent r text ↔ ∀ word rest, text = word ++ rest → ¬ Reads r word := by
  constructor
  · rintro silent word rest same ⟨pos, groups, parsed⟩
    exact silent pos word rest groups same parsed
  · intro silent pos word rest groups same parsed
    exact silent word rest same ⟨pos, groups, parsed⟩

/-- Where nothing matches, the matcher finds no prefix. -/
theorem silent_iff_prefixes : Silent r text ↔ (r.prefixes 0 text).isEmpty = true := by
  rw [List.isEmpty_iff]
  refine ⟨prefixes_silent, fun none => silent_iff.mpr ?_⟩
  rintro word rest rfl ⟨_, _, parsed⟩
  obtain ⟨groups, parsed⟩ := parsed.move 0
  have listed := prefixes_complete parsed rest
  simp [none] at listed

instance : Decidable (Silent r text) := decidable_of_iff _ silent_iff_prefixes.symm

/-- No match begins in the first text when the second stands behind it. -/
def Nowhere (r : Regex α) (before text : List α) : Prop :=
  ∀ first c last, before = first ++ c :: last → Silent r (c :: last ++ text)

theorem nowhere_nil (r : Regex α) (text : List α) : Nowhere r [] text := by
  intro first c last impossible
  cases first <;> cases impossible

theorem nowhere_cons {c : α} :
    Nowhere r (c :: before) text ↔ Silent r (c :: before ++ text) ∧ Nowhere r before text := by
  constructor
  · intro nowhere
    exact ⟨nowhere [] c before rfl, fun first d last same => nowhere (c :: first) d last (by rw [same]; rfl)⟩
  · rintro ⟨here, later⟩ first d last same
    cases first with
    | nil =>
      obtain ⟨rfl, rfl⟩ := List.cons.inj same
      exact here
    | cons e first => exact later first d last (List.cons.inj same).2

instance decidableNowhere (r : Regex α) : ∀ before text, Decidable (Nowhere r before text)
  | [], text => isTrue (nowhere_nil r text)
  | _ :: before, text =>
    haveI := decidableNowhere r before text
    decidable_of_iff _ nowhere_cons.symm

theorem nowhere_append {first second : List α} :
    Nowhere r (first ++ second) text ↔ Nowhere r first (second ++ text) ∧ Nowhere r second text := by
  constructor
  · intro nowhere
    refine ⟨fun front c last same => ?_, fun front c last same => ?_⟩
    · have silent := nowhere front c (last ++ second) (by rw [same]; simp)
      simpa using silent
    · exact nowhere (first ++ front) c last (by rw [same, List.append_assoc])
  · rintro ⟨left, right⟩ front c last same
    rcases List.append_eq_append_iff.mp same with ⟨middle, rfl, behind⟩ | ⟨middle, rfl, behind⟩
    · exact right middle c last behind
    · cases middle with
      | nil => exact right [] c last behind.symm
      | cons d middle =>
        obtain ⟨rfl, rfl⟩ := List.cons.inj behind
        simpa using left front c middle rfl

/-- The first match of a text, and the longest there. -/
structure First (r : Regex α) (before word after : List α) : Prop where
  reads : Reads r word
  nowhere : Nowhere r before (word ++ after)
  longest : ∀ other rest, word ++ after = other ++ rest → Reads r other → other.length ≤ word.length

/-- A text has one first match. -/
theorem First.unique {before' word' after' : List α} (first : First r before word after)
    (second : First r before' word' after')
    (same : before ++ (word ++ after) = before' ++ (word' ++ after')) :
    before = before' ∧ word = word' ∧ after = after' := by
  have starts : before = before' ∧ word ++ after = word' ++ after' := by
    rcases List.append_eq_append_iff.mp same with ⟨gap, rfl, behind⟩ | ⟨gap, rfl, behind⟩
    · cases gap with
      | nil => exact ⟨(List.append_nil before).symm, behind⟩
      | cons c gap =>
        exact absurd first.reads (silent_iff.mp (second.nowhere before c gap rfl) word after behind.symm)
    · cases gap with
      | nil => exact ⟨List.append_nil before', behind.symm⟩
      | cons c gap =>
        exact absurd second.reads (silent_iff.mp (first.nowhere before' c gap rfl) word' after' behind.symm)
  obtain ⟨rfl, behind⟩ := starts
  have lengths : word.length = word'.length :=
    Nat.le_antisymm (second.longest word after behind.symm first.reads)
      (first.longest word' after' behind second.reads)
  obtain ⟨rfl, rfl⟩ := List.append_inj behind lengths
  exact ⟨rfl, rfl, rfl⟩

/-! ## Searches -/

/-- Where some word is matched, the search stops with the longest. -/
theorem search_here (heard : ¬ Silent r text) (pos : Nat) : ∃ word after groups,
    text = word ++ after ∧ First r [] word after ∧ Parses r pos word groups ∧
      search r pos text = some ⟨pos, pos + word.length, groups⟩ := by
  rw [silent_iff] at heard
  push Not at heard
  obtain ⟨some, rest, rfl, _, _, parsed⟩ := heard
  obtain ⟨groups, parsed⟩ := parsed.move pos
  obtain ⟨n, groups, longest, found⟩ := search_stops parsed rest
  obtain ⟨word, after, same, rfl, parsed⟩ := longest.parses
  refine ⟨word, after, groups, same, ⟨⟨pos, groups, parsed⟩, nowhere_nil r _, ?_⟩, parsed, found⟩
  rintro other behind split ⟨_, _, read⟩
  obtain ⟨groups, read⟩ := read.move pos
  exact longest.longest other behind groups (same.trans split) read

/-- A search finds the first match of the text, or nothing anywhere in it. -/
theorem search_cases (r : Regex α) (pos : Nat) (text : List α) :
    (search r pos text = none ∧ Nowhere r text [] ∧ ¬ Reads r []) ∨
      ∃ before word after groups, text = before ++ (word ++ after) ∧ First r before word after ∧
        Parses r (pos + before.length) word groups ∧
        search r pos text = some ⟨pos + before.length, pos + before.length + word.length, groups⟩ := by
  induction text generalizing pos with
  | nil =>
    by_cases silent : Silent r ([] : List α)
    · exact .inl ⟨search_nil silent, nowhere_nil r [], silent_iff.mp silent [] [] rfl⟩
    · obtain ⟨word, after, groups, same, first, parsed, found⟩ := search_here silent pos
      exact .inr ⟨[], word, after, groups, same, first, parsed, found⟩
  | cons c text ih =>
    by_cases silent : Silent r (c :: text)
    · rw [search_cons silent]
      have passed : ∀ {before later : List α}, text = before ++ later → Nowhere r before later →
          Nowhere r (c :: before) later := by
        rintro before later rfl nowhere
        exact nowhere_cons.mpr ⟨silent, nowhere⟩
      rcases ih (pos + 1) with ⟨found, nowhere, empty⟩ |
        ⟨before, word, after, groups, same, first, parsed, found⟩
      · exact .inl ⟨found, passed (List.append_nil text).symm nowhere, empty⟩
      · have place : pos + 1 + before.length = pos + (c :: before).length := by
          rw [List.length_cons, Nat.add_assoc, Nat.add_comm 1]
        refine .inr ⟨c :: before, word, after, groups, by rw [same]; rfl,
          ⟨first.reads, passed same first.nowhere, first.longest⟩, place ▸ parsed, ?_⟩
        rw [found, List.length_cons]
        simp only [Option.some.injEq, Match.mk.injEq, and_true]
        omega
    · obtain ⟨word, after, groups, same, first, parsed, found⟩ := search_here silent pos
      exact .inr ⟨[], word, after, groups, same, first, parsed, found⟩

/-- A search finds nothing, or the first match, behind which the text goes on. -/
theorem exec_cases (r : Regex α) (text : List α) :
    (r.exec text = none ∧ Nowhere r text [] ∧ ¬ Reads r []) ∨
      ∃ before word after groups, text = before ++ (word ++ after) ∧ First r before word after ∧
        Parses r before.length word groups ∧
        r.exec text = some ⟨before.length, before.length + word.length, groups⟩ ∧
        text.drop (before.length + word.length) = after := by
  rcases search_cases r 0 text with nothing | ⟨before, word, after, groups, rfl, first, parsed, found⟩
  · exact .inl nothing
  · rw [Nat.zero_add] at parsed found
    refine .inr ⟨before, word, after, groups, rfl, first, parsed, found, ?_⟩
    rw [List.drop_length_add_append, List.drop_left]

/-! ## Scans -/

/-- The words of a text, and what is left behind the last of them. -/
inductive Scans (r : Regex α) : List α → List (List α) → List α → Prop
  | stop (text : List α) (nowhere : Nowhere r text []) : Scans r text [] text
  | step (before word after : List α) (words : List (List α)) (rest : List α)
    (first : First r before word after) (scans : Scans r after words rest) :
    Scans r (before ++ (word ++ after)) (word :: words) rest

/-- A scan that finds at most so many words. -/
def scan (r : Regex α) : Nat → List α → List (List α) × List α
  | 0, text => ([], text)
  | n + 1, text =>
    match r.exec text with
    | none => ([], text)
    | some found =>
      let (words, rest) := scan r n (text.drop found.eo)
      ((text.drop found.so).take (found.eo - found.so) :: words, rest)

/-- The words of a text. -/
def words (r : Regex α) (text : List α) : List (List α) := (scan r text.length text).1

/-- What is left of a text behind its last word. -/
def leftover (r : Regex α) (text : List α) : List α := (scan r text.length text).2

theorem scan_scans (proper : ¬ Reads r []) {n : Nat} (enough : text.length ≤ n) :
    Scans r text (scan r n text).1 (scan r n text).2 := by
  induction n generalizing text with
  | zero =>
    obtain rfl : text = [] := List.length_eq_zero_iff.mp (Nat.le_zero.mp enough)
    exact .stop [] (nowhere_nil r [])
  | succ n ih =>
    rcases exec_cases r text with ⟨nothing, nowhere, -⟩ |
      ⟨before, word, after, groups, rfl, first, -, found, behind⟩
    · rw [scan, nothing]
      exact .stop text nowhere
    · have nonempty : word ≠ [] := fun none => proper (none ▸ first.reads)
      have some := List.length_pos_of_ne_nil nonempty
      have here : ((before ++ (word ++ after)).drop before.length).take
          (before.length + word.length - before.length) = word := by
        rw [List.drop_left, Nat.add_sub_cancel_left, List.take_left]
      simp only [scan, found, behind, here]
      refine .step before word after _ _ first (ih ?_)
      simp only [List.length_append] at enough
      omega

theorem scans_words (proper : ¬ Reads r []) (text : List α) :
    Scans r text (words r text) (leftover r text) := scan_scans proper (Nat.le_refl _)

/-- A text with a word in it is not silent. -/
theorem Nowhere.not_reads (nowhere : Nowhere r (before ++ (word ++ after)) []) (proper : ¬ Reads r []) :
    ¬ Reads r word := by
  intro reads
  cases word with
  | nil => exact proper reads
  | cons c word =>
    have silent := nowhere before c (word ++ after) rfl
    exact silent_iff.mp silent (c :: word) after (by simp) reads

/-- A text is scanned in one way. -/
theorem Scans.unique (proper : ¬ Reads r []) {first second : List (List α)} {left right : List α}
    (scans : Scans r text first left) (other : Scans r text second right) :
    first = second ∧ left = right := by
  induction scans generalizing second right with
  | stop text nowhere =>
    cases other with
    | stop => exact ⟨rfl, rfl⟩
    | step before word after words rest found => exact absurd found.reads (nowhere.not_reads proper)
  | step before word after words rest found scans ih =>
    generalize same : before ++ (word ++ after) = whole at other
    cases other with
    | stop _ nowhere =>
      subst same
      exact absurd found.reads (nowhere.not_reads proper)
    | step before' word' after' words' rest' found' scans' =>
      obtain ⟨rfl, rfl, rfl⟩ := found.unique found' same
      obtain ⟨rfl, rfl⟩ := ih scans'
      exact ⟨rfl, rfl⟩

theorem Scans.words_eq (proper : ¬ Reads r []) {words' : List (List α)} (scans : Scans r text words' rest) :
    words r text = words' ∧ leftover r text = rest := (scans_words proper text).unique proper scans

/-- Words of some length each take that much of the text. -/
theorem Scans.length {k : Nat} (long : ∀ word, Reads r word → k ≤ word.length) {found : List (List α)}
    (scans : Scans r text found rest) : k * found.length ≤ text.length := by
  induction scans with
  | stop => simp
  | step before word after words rest first _ ih =>
    have here := long word first.reads
    simp only [List.length_append, List.length_cons, Nat.mul_add, Nat.mul_one]
    omega

/-! ## Texts in parts -/

/-- What no match begins in does not change the words. -/
theorem Scans.skip (nowhere : Nowhere r before text) {found : List (List α)}
    (scans : Scans r text found rest) : ∃ rest', Scans r (before ++ text) found rest' := by
  cases scans with
  | stop _ silent =>
    have whole : Nowhere r (before ++ text) [] := nowhere_append.mpr ⟨by simpa using nowhere, silent⟩
    exact ⟨_, .stop _ whole⟩
  | step gap word after words _ first scans =>
    rw [← List.append_assoc]
    exact ⟨rest, .step (before ++ gap) word after words rest
      ⟨first.reads, nowhere_append.mpr ⟨nowhere, first.nowhere⟩, first.longest⟩ scans⟩

/-- Where a match crosses from the first text into the second, no word of the first
begins in it. -/
def Joins (r : Regex α) (text second : List α) : Prop :=
  ∀ front part tail, text = front ++ part → tail <+: second → tail ≠ [] → Reads r (part ++ tail) →
    ∀ x word y, part = x ++ (word ++ y) → ¬ Reads r word

/-- What begins before a word of the first text ends in the first text. -/
theorem Joins.inside {second front part other more x y : List α} (joins : Joins r text second)
    (split : text = front ++ part) (has : part = x ++ (word ++ y)) (read : Reads r word)
    (same : part ++ second = other ++ more) (reads : Reads r other) : ∃ more', part = other ++ more' := by
  rcases List.append_eq_append_iff.mp same with ⟨tail, rfl, beyond⟩ | ⟨gap, within, -⟩
  · by_cases none : tail = []
    · exact ⟨[], by rw [none]; simp⟩
    · have crosses : tail <+: second := ⟨more, beyond.symm⟩
      exact absurd read (joins front part tail split crosses none reads x word y has)
  · exact ⟨gap, within⟩

theorem Joins.later {second first : List α} (joins : Joins r (first ++ text) second) :
    Joins r text second := by
  intro front part tail split
  exact joins (first ++ front) part tail (by rw [split, List.append_assoc])

/-- The words of two texts joined are those of the first, and those of what is left
of it together with the second. -/
theorem Scans.append {second : List α} (joins : Joins r text second) {found later : List (List α)}
    {rest' : List α} (scans : Scans r text found rest) (behind : Scans r (rest ++ second) later rest') :
    Scans r (text ++ second) (found ++ later) rest' := by
  induction scans with
  | stop => exact behind
  | step before word after words rest first scans ih =>
    have further := ih (joins.later.later) behind
    have whole : First r before word (after ++ second) := by
      refine ⟨first.reads, ?_, ?_⟩
      · intro front c last split
        rw [silent_iff]
        intro other more same reads
        obtain ⟨more', within⟩ := joins.inside
          (show _ = front ++ (c :: last ++ (word ++ after)) by rw [split]; simp) rfl first.reads
          (by simpa using same) reads
        exact silent_iff.mp (first.nowhere front c last split) other more' within reads
      · intro other more same reads
        obtain ⟨more', within⟩ := joins.inside (rfl : _ = before ++ (word ++ after))
          (List.nil_append _).symm first.reads (by simpa using same) reads
        exact first.longest other more' within reads
    rw [List.append_assoc, List.append_assoc]
    exact .step before word (after ++ second) _ rest' whole further

/-- No word is left over. -/
theorem Scans.leftover_nowhere {found : List (List α)} (scans : Scans r text found rest) :
    Nowhere r rest [] := by
  induction scans with
  | stop text nowhere => exact nowhere
  | step before word after words rest first _ ih => exact ih

/-- A word without a certain character ends before it. -/
theorem word_before {c : α} {front more behind : List α} (without : c ∉ word)
    (same : front ++ c :: behind = word ++ more) : ∃ gap, front = word ++ gap := by
  rcases List.append_eq_append_iff.mp same with ⟨gap, rfl, beyond⟩ | ⟨gap, within, -⟩
  · cases gap with
    | nil => exact ⟨[], by simp⟩
    | cons d gap =>
      obtain ⟨rfl, -⟩ := List.cons.inj beyond
      simp at without
  · exact ⟨gap, within⟩

/-- A character that no word has parts a text. -/
theorem Scans.barrier {c : α} {second : List α} (proper : ¬ Reads r [])
    (outside : ∀ word, Reads r word → c ∉ word) {found later : List (List α)} {rest' : List α}
    (scans : Scans r text found rest) (behind : Scans r second later rest') :
    ∃ rest'', Scans r (text ++ c :: second) (found ++ later) rest'' := by
  have joins : Joins r text (c :: second) := by
    intro front part tail split crosses nonempty reads
    obtain ⟨more, same⟩ := crosses
    cases tail with
    | nil => exact absurd rfl nonempty
    | cons d tail =>
      obtain ⟨rfl, -⟩ := List.cons.inj same
      exact absurd (by simp) (outside _ reads)
  have mark : Nowhere r [c] second := by
    intro front d last same
    rw [silent_iff]
    intro word more split reads
    obtain ⟨rfl, rfl, rfl⟩ : front = [] ∧ c = d ∧ last = [] := by
      cases front with
      | nil => simpa using same
      | cons => simp at same
    obtain ⟨gap, none⟩ := word_before (outside word reads) (show [] ++ c :: second = word ++ more from split)
    have empty : word = [] := (List.append_eq_nil_iff.mp none.symm).1
    exact proper (empty ▸ reads)
  have silent : Nowhere r rest (c :: second) := by
    intro front d last same
    rw [silent_iff]
    intro word more split reads
    obtain ⟨gap, within⟩ := word_before (outside word reads) (show (d :: last) ++ c :: second = word ++ more from split)
    have quiet := scans.leftover_nowhere front d last same
    exact silent_iff.mp quiet word gap (by simpa using within) reads
  obtain ⟨rest'', behind'⟩ := behind.skip (nowhere_append.mpr ⟨silent, mark⟩)
  rw [List.append_assoc, List.singleton_append] at behind'
  exact ⟨rest'', scans.append joins behind'⟩

end LocalServer.Regex
