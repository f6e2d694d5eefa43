import LocalServer.Lib.Scan

/-! The matches of an expression in a text, one behind the other. Each is searched
from the end of the one before it, so that matches of some length leave a bound on
their number; a loop that stops at the bound has met them all. -/
namespace LocalServer.Regex

variable {α : Type*} {r : Regex α} {text rest : List α} {found : List (List α × Match)} {k n : Nat}

/-- The successive matches in a text, each with the text that it was searched in, and
what is left when there is no other. -/
inductive Successive (r : Regex α) : List α → List (List α × Match) → List α → Prop
  | stop (text : List α) (nowhere : Nowhere r text []) (empty : ¬ Reads r []) : Successive r text [] text
  | step (before word after : List α) (groups : List Capture) (found : List (List α × Match))
    (rest : List α) (first : First r before word after) (parsed : Parses r before.length word groups)
    (later : Successive r after found rest) :
    Successive r (before ++ (word ++ after))
      ((before ++ (word ++ after), ⟨before.length, before.length + word.length, groups⟩) :: found) rest

/-- The matches that so many searches find. -/
def collect (r : Regex α) : Nat → List α → List (List α × Match) × List α
  | 0, text => ([], text)
  | n + 1, text =>
    match r.exec text with
    | none => ([], text)
    | some found =>
      let (later, rest) := collect r n (text.drop found.eo)
      ((text, found) :: later, rest)

/-- All matches in a text. -/
def allMatches (r : Regex α) (text : List α) : List (List α × Match) := (collect r text.length text).1

/-- What is left behind the last match. -/
def unmatched (r : Regex α) (text : List α) : List α := (collect r text.length text).2

/-- A first match of `k` characters leaves room for one match less. -/
theorem First.room {before word after : List α} (first : First r before word after)
    (long : ∀ word, Reads r word → k ≤ word.length) (positive : 0 < k) :
    after.length / k + 1 ≤ (before ++ (word ++ after)).length / k := by
  have fits := long word first.reads
  have shorter : after.length + k ≤ (before ++ (word ++ after)).length := by
    simp only [List.length_append]
    omega
  calc after.length / k + 1 = (after.length + k) / k := (Nat.add_div_right _ positive).symm
    _ ≤ (before ++ (word ++ after)).length / k := Nat.div_le_div_right shorter

/-- With room for every match the searches find all of them. -/
theorem collect_successive (long : ∀ word, Reads r word → k ≤ word.length) (positive : 0 < k)
    (enough : text.length / k ≤ n) : Successive r text (collect r n text).1 (collect r n text).2 := by
  induction n generalizing text with
  | zero =>
    rcases exec_cases r text with ⟨-, nowhere, empty⟩ | ⟨before, word, after, groups, rfl, first, -⟩
    · exact .stop text nowhere empty
    · exact absurd ((first.room long positive).trans enough) (Nat.not_succ_le_zero _)
  | succ n ih =>
    rcases exec_cases r text with ⟨nothing, nowhere, empty⟩ |
      ⟨before, word, after, groups, rfl, first, parsed, executed, behind⟩
    · rw [collect, nothing]
      exact .stop text nowhere empty
    · simp only [collect, executed, behind]
      have fewer : after.length / k ≤ n := Nat.le_of_succ_le_succ ((first.room long positive).trans enough)
      exact .step before word after groups _ _ first parsed (ih fewer)

/-- One search more finds nothing more. -/
theorem collect_succ (long : ∀ word, Reads r word → k ≤ word.length) (positive : 0 < k)
    (enough : text.length / k ≤ n) : collect r (n + 1) text = collect r n text := by
  induction n generalizing text with
  | zero =>
    rcases exec_cases r text with ⟨nothing, -⟩ | ⟨before, word, after, groups, rfl, first, -⟩
    · simp only [collect, nothing]
    · exact absurd ((first.room long positive).trans enough) (Nat.not_succ_le_zero _)
  | succ n ih =>
    rw [collect]
    conv_rhs => rw [collect]
    rcases exec_cases r text with ⟨nothing, -⟩ |
      ⟨before, word, after, groups, rfl, first, -, executed, behind⟩
    · rw [nothing]
    · have fewer : after.length / k ≤ n := Nat.le_of_succ_le_succ ((first.room long positive).trans enough)
      simp only [executed, behind, ih fewer]

theorem collect_more (long : ∀ word, Reads r word → k ≤ word.length) (positive : 0 < k)
    (enough : text.length / k ≤ n) {m : Nat} (more : n ≤ m) : collect r m text = collect r n text := by
  induction m, more using Nat.le_induction with
  | base => rfl
  | succ m more ih => rw [collect_succ long positive (enough.trans more), ih]

/-- As many searches as there is room for matches find all of them. -/
theorem collect_all (long : ∀ word, Reads r word → k ≤ word.length) (positive : 0 < k) (text : List α) :
    collect r (text.length / k) text = (allMatches r text, unmatched r text) :=
  (collect_more long positive (Nat.le_refl _) (Nat.div_le_self _ k)).symm

theorem successive_all (long : ∀ word, Reads r word → k ≤ word.length) (positive : 0 < k) (text : List α) :
    Successive r text (allMatches r text) (unmatched r text) :=
  collect_successive long positive (Nat.div_le_self _ k)

/-- The ends of the matches, each counted from the end of the one before, lead to
what is left. -/
theorem Successive.reach (successive : Successive r text found rest) :
    ∃ front, text = front ++ rest ∧ front.length = (found.map fun one => one.2.eo).sum := by
  induction successive with
  | stop text => exact ⟨[], rfl, rfl⟩
  | step before word after groups found rest first parsed later ih =>
    obtain ⟨front, rfl, length⟩ := ih
    refine ⟨before ++ (word ++ front), by simp, ?_⟩
    simp only [List.length_append, List.map_cons, List.sum_cons, length, Nat.add_assoc]

/-- Where a match lies, in the text that it was searched in. -/
def place (one : List α × Match) : List α × Nat × Nat := (one.1, one.2.so, one.2.eo)

/-- The successive matches of a text lie at the same places, however they were found. -/
theorem Successive.unique {found' : List (List α × Match)} {rest' : List α}
    (successive : Successive r text found rest) (other : Successive r text found' rest') :
    found.map place = found'.map place ∧ rest = rest' := by
  induction successive generalizing found' rest' with
  | stop text nowhere empty =>
    cases other with
    | stop => exact ⟨rfl, rfl⟩
    | step before word after groups found rest first => exact absurd first.reads (nowhere.not_reads empty)
  | step before word after groups found rest first parsed later ih =>
    generalize same : before ++ (word ++ after) = whole at other
    cases other with
    | stop _ nowhere empty =>
      subst same
      exact absurd first.reads (nowhere.not_reads empty)
    | step before' word' after' groups' found' rest' first' parsed' later' =>
      obtain ⟨rfl, rfl, rfl⟩ := first.unique first' same
      obtain ⟨places, rfl⟩ := ih later'
      exact ⟨by rw [List.map_cons, List.map_cons, places]; rfl, rfl⟩

end LocalServer.Regex
