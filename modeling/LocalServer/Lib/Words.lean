import Mathlib

/-! The words of a text: the longest runs of other elements than a separator. -/
namespace LocalServer.Words

variable {α : Type*} [DecidableEq α] {sep : α} {gap run rest xs ys : List α}

/-- The words, in their order. -/
def words (sep : α) (xs : List α) : List (List α) := (xs.splitOn sep).filter (· ≠ [])

@[simp] theorem words_nil : words sep [] = [] := rfl

theorem words_append_separator (xs ys : List α) :
    words sep (xs ++ sep :: ys) = words sep xs ++ words sep ys := by
  simp only [words, List.splitOn_append_cons_self, List.filter_append]

@[simp] theorem words_separator (rest : List α) : words sep (sep :: rest) = words sep rest :=
  words_append_separator [] rest

theorem words_gap (blank : ∀ c ∈ gap, c = sep) (rest : List α) :
    words sep (gap ++ rest) = words sep rest := by
  induction gap with
  | nil => rfl
  | cons c gap ih =>
    obtain rfl : c = sep := blank c (by simp)
    rw [List.cons_append, words_separator, ih fun d member => blank d (by simp [member])]

theorem words_run (nonempty : run ≠ []) (solid : sep ∉ run) : words sep run = [run] := by
  rw [words, List.splitOn_eq_singleton solid]
  simp [nonempty]

theorem words_run_separator (nonempty : run ≠ []) (solid : sep ∉ run) (rest : List α) :
    words sep (run ++ sep :: rest) = run :: words sep rest := by
  rw [words_append_separator, words_run nonempty solid, List.singleton_append]

/-- A text is blank, or it has a first word, behind which it ends or goes on with a
separator. -/
theorem cut (sep : α) (xs : List α) :
    (∀ c ∈ xs, c = sep) ∨ ∃ gap run, (∀ c ∈ gap, c = sep) ∧ run ≠ [] ∧ sep ∉ run ∧
      (xs = gap ++ run ∨ ∃ rest, xs = gap ++ (run ++ sep :: rest)) := by
  have split : xs = xs.takeWhile (· = sep) ++ xs.dropWhile (· = sep) :=
    List.takeWhile_append_dropWhile.symm
  have blank : ∀ c ∈ xs.takeWhile (· = sep), c = sep := fun c member => by
    simpa using List.mem_takeWhile_imp member
  generalize xs.takeWhile (· = sep) = gap at split blank
  cases behind : xs.dropWhile (· = sep) with
  | nil =>
    rw [behind, List.append_nil] at split
    exact .inl (split ▸ blank)
  | cons c later =>
    have first : c ≠ sep := by
      simpa [behind] using List.head?_dropWhile_not (fun c => decide (c = sep)) xs
    have parts : c :: later =
        (c :: later).takeWhile (· ≠ sep) ++ (c :: later).dropWhile (· ≠ sep) :=
      List.takeWhile_append_dropWhile.symm
    refine .inr ⟨gap, (c :: later).takeWhile (· ≠ sep), blank, ?_, ?_, ?_⟩
    · simp [first]
    · intro member
      simpa using List.mem_takeWhile_imp member
    · cases tail : (c :: later).dropWhile (· ≠ sep) with
      | nil => exact .inl (by rw [tail, List.append_nil] at parts; rw [split, behind, ← parts])
      | cons d rest =>
        have stops := List.head?_dropWhile_not (fun c => decide (c ≠ sep)) (c :: later)
        rw [tail] at stops
        obtain rfl : d = sep := by simpa using stops
        exact .inr ⟨rest, by rw [tail] at parts; rw [← parts, split, behind]⟩

/-- Words are not empty, so that there are not more of them than elements. -/
theorem length_words_le (sep : α) (xs : List α) : (words sep xs).length ≤ xs.length := by
  induction size : xs.length using Nat.strong_induction_on generalizing xs with
  | _ n ih =>
    rcases cut sep xs with blank | ⟨gap, run, blank, nonempty, solid, rfl | ⟨rest, rfl⟩⟩
    · have none := words_gap blank []
      rw [List.append_nil] at none
      simp [none]
    · have some := List.length_pos_of_ne_nil nonempty
      rw [words_gap blank, words_run nonempty solid]
      simp only [List.length_append, List.length_singleton] at size ⊢
      omega
    · have shorter : rest.length < n := by
        simp only [List.length_append, List.length_cons] at size
        omega
      have later := ih rest.length shorter rest rfl
      rw [words_gap blank, words_run_separator nonempty solid, List.length_cons]
      exact (Nat.succ_le_succ later).trans shorter

/-- A word is a part of the text without a separator. -/
theorem mem_words {word : List α} (member : word ∈ words sep xs) : word ≠ [] ∧ sep ∉ word ∧ word.Sublist xs := by
  induction size : xs.length using Nat.strong_induction_on generalizing xs with
  | _ n ih =>
    rcases cut sep xs with blank | ⟨gap, run, blank, nonempty, solid, rfl | ⟨rest, rfl⟩⟩
    · have none := words_gap blank []
      rw [List.append_nil] at none
      rw [none] at member
      cases member
    · rw [words_gap blank, words_run nonempty solid, List.mem_singleton] at member
      rw [member]
      exact ⟨nonempty, solid, List.sublist_append_right gap run⟩
    · rw [words_gap blank, words_run_separator nonempty solid] at member
      rcases List.mem_cons.mp member with rfl | later
      · exact ⟨nonempty, solid, (List.sublist_append_left ..).trans (List.sublist_append_right ..)⟩
      · have shorter : rest.length < n := by
          simp only [List.length_append, List.length_cons] at size
          omega
        obtain ⟨nonempty', solid', part⟩ := ih rest.length shorter later rfl
        refine ⟨nonempty', solid', part.trans ?_⟩
        exact (List.sublist_cons_self sep rest).trans ((List.sublist_append_right ..).trans (List.sublist_append_right ..))

end LocalServer.Words
