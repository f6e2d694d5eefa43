import Mathlib

/-! Regular expressions with groups, and what it means to search a text with one:
the match begins as far left as it can and is then as long as it can be. A parse is
a derivation, so that a proof about a pattern takes parses apart; the search lists
the parses of every prefix and keeps the longest. -/
namespace LocalServer

inductive Regex (α : Type*) where
  /-- One character of a class. -/
  | char (chars : α → Bool)
  | seq (first second : Regex α)
  | star (body : Regex α)
  | opt (body : Regex α)
  | group (n : Nat) (body : Regex α)

namespace Regex

variable {α : Type*}

/-- One or more. -/
def plus (body : Regex α) : Regex α := .seq body (.star body)

/-- What a group matched, by the offsets in the text. -/
structure Capture where
  group : Nat
  so : Nat
  eo : Nat
  deriving DecidableEq

/-- The expression matches a word that lies at an offset, its groups matching in
this order. -/
inductive Parses : Regex α → Nat → List α → List Capture → Prop
  | char (chars : α → Bool) (pos : Nat) (c : α) (member : chars c = true) :
    Parses (.char chars) pos [c] []
  | seq (r s : Regex α) (pos : Nat) (u v : List α) (first second : List Capture)
    (left : Parses r pos u first) (right : Parses s (pos + u.length) v second) :
    Parses (.seq r s) pos (u ++ v) (first ++ second)
  | starNil (r : Regex α) (pos : Nat) : Parses (.star r) pos [] []
  | starCons (r : Regex α) (pos : Nat) (u v : List α) (first second : List Capture)
    (nonempty : u ≠ []) (head : Parses r pos u first)
    (tail : Parses (.star r) (pos + u.length) v second) :
    Parses (.star r) pos (u ++ v) (first ++ second)
  | optNone (r : Regex α) (pos : Nat) : Parses (.opt r) pos [] []
  | optSome (r : Regex α) (pos : Nat) (w : List α) (groups : List Capture)
    (body : Parses r pos w groups) : Parses (.opt r) pos w groups
  | group (n : Nat) (r : Regex α) (pos : Nat) (w : List α) (groups : List Capture)
    (body : Parses r pos w groups) :
    Parses (.group n r) pos w (groups ++ [⟨n, pos, pos + w.length⟩])

/-- The lengths of the prefixes that a repetition matches, the longest way first;
each round takes something, so there are no more rounds than characters. -/
def rounds (body : Nat → List α → List (Nat × List Capture)) :
    Nat → Nat → List α → List (Nat × List Capture)
  | 0, _, _ => [(0, [])]
  | fuel + 1, pos, text =>
    (((body pos text).filter fun found => 0 < found.1).flatMap fun (m, first) =>
      (rounds body fuel (pos + m) (text.drop m)).map fun (n, second) => (m + n, first ++ second))
    ++ [(0, [])]

/-- The lengths of the prefixes of a text that the expression matches, what comes
first in the expression taking the longest it can first. -/
def prefixes : Regex α → Nat → List α → List (Nat × List Capture)
  | .char chars, _, text =>
    match text with
    | [] => []
    | c :: _ => if chars c then [(1, [])] else []
  | .seq r s, pos, text =>
    (prefixes r pos text).flatMap fun (m, first) =>
      (prefixes s (pos + m) (text.drop m)).map fun (n, second) => (m + n, first ++ second)
  | .star r, pos, text => rounds (prefixes r) text.length pos text
  | .opt r, pos, text => prefixes r pos text ++ [(0, [])]
  | .group n r, pos, text =>
    (prefixes r pos text).map fun (m, groups) => (m, groups ++ [⟨n, pos, pos + m⟩])

/-- A match, by its offsets and those of the groups. -/
structure Match where
  so : Nat
  eo : Nat
  groups : List Capture
  deriving DecidableEq

/-- Where a group matched last. -/
def Match.group? (m : Match) (n : Nat) : Option Capture :=
  (m.groups.filter fun capture => capture.group = n).getLast?

/-- The first match in a text that lies at an offset. -/
def search (r : Regex α) (pos : Nat) (text : List α) : Option Match :=
  match (r.prefixes pos text).argmax Prod.fst with
  | some (n, groups) => some ⟨pos, pos + n, groups⟩
  | none =>
    match text with
    | [] => none
    | _ :: rest => search r (pos + 1) rest

/-- `regexec`. -/
def exec (r : Regex α) (text : List α) : Option Match := search r 0 text

variable {r s : Regex α} {pos : Nat} {text word rest : List α} {groups : List Capture}

/-! ## The listed prefixes are those that parse -/

theorem rounds_sound {body : Nat → List α → List (Nat × List Capture)}
    (sound : ∀ pos text found, found ∈ body pos text →
      ∃ word rest, text = word ++ rest ∧ word.length = found.1 ∧ Parses r pos word found.2)
    {fuel : Nat} {found : Nat × List Capture} (listed : found ∈ rounds body fuel pos text) :
    ∃ word rest, text = word ++ rest ∧ word.length = found.1 ∧ Parses (.star r) pos word found.2 := by
  induction fuel generalizing pos text found with
  | zero =>
    obtain rfl : found = (0, []) := by simpa [rounds] using listed
    exact ⟨[], text, rfl, rfl, .starNil r pos⟩
  | succ fuel ih =>
    simp only [rounds, List.mem_append, List.mem_flatMap, List.mem_filter, List.mem_map,
      List.mem_singleton] at listed
    rcases listed with ⟨⟨m, first⟩, ⟨head, some⟩, ⟨n, second⟩, tail, rfl⟩ | rfl
    · obtain ⟨u, later, rfl, length, parsed⟩ := sound _ _ _ head
      simp only at length
      subst length
      rw [List.drop_left] at tail
      obtain ⟨v, rest, rfl, rfl, parsed'⟩ := ih tail
      refine ⟨u ++ v, rest, by simp, by simp, .starCons r pos u v first second ?_ parsed parsed'⟩
      rintro rfl
      simp at some
    · exact ⟨[], text, rfl, rfl, .starNil r pos⟩

theorem prefixes_sound {found : Nat × List Capture} (listed : found ∈ r.prefixes pos text) :
    ∃ word rest, text = word ++ rest ∧ word.length = found.1 ∧ Parses r pos word found.2 := by
  induction r generalizing pos text found with
  | char chars =>
    cases text with
    | nil => simp [prefixes] at listed
    | cons c rest =>
      simp only [prefixes, List.mem_ite_nil_right, List.mem_singleton] at listed
      obtain ⟨member, rfl⟩ := listed
      exact ⟨[c], rest, rfl, rfl, .char chars pos c member⟩
  | seq r s ihr ihs =>
    simp only [prefixes, List.mem_flatMap, List.mem_map] at listed
    obtain ⟨⟨m, first⟩, left, ⟨n, second⟩, right, rfl⟩ := listed
    obtain ⟨u, later, rfl, length, parsed⟩ := ihr left
    simp only at length
    subst length
    rw [List.drop_left] at right
    obtain ⟨v, rest, rfl, rfl, parsed'⟩ := ihs right
    exact ⟨u ++ v, rest, by simp, by simp, .seq r s pos u v first second parsed parsed'⟩
  | star r ih => exact rounds_sound (fun _ _ _ => ih) listed
  | opt r ih =>
    simp only [prefixes, List.mem_append, List.mem_singleton] at listed
    rcases listed with taken | rfl
    · obtain ⟨w, rest, same, length, parsed⟩ := ih taken
      exact ⟨w, rest, same, length, .optSome r pos w _ parsed⟩
    · exact ⟨[], text, rfl, rfl, .optNone r pos⟩
  | group n r ih =>
    simp only [prefixes, List.mem_map] at listed
    obtain ⟨⟨m, groups⟩, taken, rfl⟩ := listed
    obtain ⟨w, rest, same, length, parsed⟩ := ih taken
    simp only at length
    subst length
    exact ⟨w, rest, same, rfl, .group n r pos w groups parsed⟩

theorem rounds_complete {body : Nat → List α → List (Nat × List Capture)}
    (complete : ∀ pos word groups rest, Parses r pos word groups →
      (word.length, groups) ∈ body pos (word ++ rest))
    (parsed : Parses (.star r) pos word groups) (rest : List α) {fuel : Nat}
    (enough : word.length ≤ fuel) :
    (word.length, groups) ∈ rounds body fuel pos (word ++ rest) := by
  generalize same : Regex.star r = whole at parsed
  induction parsed generalizing fuel with
  | starNil r' pos =>
    cases fuel <;> simp [rounds]
  | starCons r' pos u v first second nonempty head tail _ ih =>
    cases same
    have some : 0 < u.length := List.length_pos_iff.mpr nonempty
    cases fuel with
    | zero => simp only [List.length_append] at enough; omega
    | succ fuel =>
      have shorter : v.length ≤ fuel := by simp only [List.length_append] at enough; omega
      have later := ih shorter rfl
      simp only [rounds, List.mem_append, List.mem_flatMap, List.mem_filter, List.mem_map]
      refine .inl ⟨(u.length, first), ⟨?_, by simpa using some⟩, (v.length, second), ?_, by simp⟩
      · rw [List.append_assoc]
        exact complete pos u first (v ++ rest) head
      · simpa using later
  | _ => cases same

theorem prefixes_complete (parsed : Parses r pos word groups) (rest : List α) :
    (word.length, groups) ∈ r.prefixes pos (word ++ rest) := by
  induction r generalizing pos word groups rest with
  | char chars =>
    cases parsed with
    | char _ _ c member => simp [prefixes, member]
  | seq r s ihr ihs =>
    cases parsed with
    | seq _ _ _ u v first second left right =>
      simp only [prefixes, List.mem_flatMap, List.mem_map]
      refine ⟨(u.length, first), ?_, (v.length, second), ?_, by simp⟩
      · rw [List.append_assoc]
        exact ihr left (v ++ rest)
      · simpa using ihs right rest
  | star r ih =>
    exact rounds_complete (fun _ _ _ rest parsed => ih parsed rest) parsed rest (by simp)
  | opt r ih =>
    simp only [prefixes, List.mem_append, List.mem_singleton]
    cases parsed with
    | optNone => exact .inr rfl
    | optSome _ _ _ _ body => exact .inl (ih body rest)
  | group n r ih =>
    cases parsed with
    | group _ _ _ _ groups body =>
      simp only [prefixes, List.mem_map]
      exact ⟨(word.length, groups), ih body rest, rfl⟩

/-! ## Taking parses apart -/

@[simp] theorem parses_char_iff {chars : α → Bool} :
    Parses (.char chars) pos word groups ↔ (∃ c, chars c = true ∧ word = [c]) ∧ groups = [] := by
  constructor
  · rintro ⟨⟩
    exact ⟨⟨_, ‹_›, rfl⟩, rfl⟩
  · rintro ⟨⟨c, member, rfl⟩, rfl⟩
    exact .char chars pos c member

theorem parses_seq_iff : Parses (.seq r s) pos word groups ↔ ∃ u v first second,
    word = u ++ v ∧ groups = first ++ second ∧ Parses r pos u first ∧
      Parses s (pos + u.length) v second := by
  constructor
  · rintro ⟨⟩
    exact ⟨_, _, _, _, rfl, rfl, ‹_›, ‹_›⟩
  · rintro ⟨u, v, first, second, rfl, rfl, left, right⟩
    exact .seq r s pos u v first second left right

theorem parses_seq_congr {s' : Regex α}
    (same : ∀ pos word groups, Parses s pos word groups ↔ Parses s' pos word groups) :
    Parses (.seq r s) pos word groups ↔ Parses (.seq r s') pos word groups := by
  simp only [parses_seq_iff, same]

theorem parses_seq_assoc {t : Regex α} :
    Parses (.seq (.seq r s) t) pos word groups ↔ Parses (.seq r (.seq s t)) pos word groups := by
  constructor
  · intro parsed
    obtain ⟨_, w, _, last, rfl, rfl, front, right⟩ := parses_seq_iff.mp parsed
    obtain ⟨u, v, first, second, rfl, rfl, left, middle⟩ := parses_seq_iff.mp front
    rw [List.length_append, ← Nat.add_assoc] at right
    rw [List.append_assoc, List.append_assoc]
    exact .seq _ _ _ u (v ++ w) first _ left (.seq _ _ _ v w second last middle right)
  · intro parsed
    obtain ⟨u, _, first, _, rfl, rfl, left, tail⟩ := parses_seq_iff.mp parsed
    obtain ⟨v, w, second, last, rfl, rfl, middle, right⟩ := parses_seq_iff.mp tail
    rw [Nat.add_assoc, ← List.length_append] at right
    rw [← List.append_assoc, ← List.append_assoc]
    exact .seq _ _ _ (u ++ v) w _ last (.seq _ _ _ u v first second left middle) right

theorem parses_group_iff {n : Nat} : Parses (.group n r) pos word groups ↔
    ∃ inner, groups = inner ++ [⟨n, pos, pos + word.length⟩] ∧ Parses r pos word inner := by
  constructor
  · rintro ⟨⟩
    exact ⟨_, rfl, ‹_›⟩
  · rintro ⟨inner, rfl, body⟩
    exact .group n r pos word inner body

theorem parses_opt_iff : Parses (.opt r) pos word groups ↔
    word = [] ∧ groups = [] ∨ Parses r pos word groups := by
  constructor
  · intro parsed
    cases parsed with
    | optNone => exact .inl ⟨rfl, rfl⟩
    | optSome _ _ _ _ body => exact .inr body
  · rintro (⟨rfl, rfl⟩ | body)
    · exact .optNone r pos
    · exact .optSome r pos word groups body

/-- What holds of every round holds of a repetition, word by word and group by group. -/
theorem parses_star {members : α → Prop} {captures : Capture → Prop}
    (round : ∀ pos word groups, Parses r pos word groups →
      (∀ c ∈ word, members c) ∧ ∀ capture ∈ groups, captures capture)
    (parsed : Parses (.star r) pos word groups) :
    (∀ c ∈ word, members c) ∧ ∀ capture ∈ groups, captures capture := by
  generalize same : Regex.star r = whole at parsed
  induction parsed with
  | starNil => simp
  | starCons _ pos u v first second _ head _ _ ih =>
    cases same
    obtain ⟨here, captures⟩ := round pos u first head
    obtain ⟨later, captures'⟩ := ih rfl
    simp only [List.mem_append]
    exact ⟨fun c member => member.elim (here c) (later c),
      fun capture member => member.elim (captures capture) (captures' capture)⟩
  | _ => cases same

theorem parses_star_char_iff {chars : α → Bool} :
    Parses (.star (.char chars)) pos word groups ↔ (∀ c ∈ word, chars c = true) ∧ groups = [] := by
  constructor
  · intro parsed
    have all : (∀ c ∈ word, chars c = true) ∧ ∀ capture ∈ groups, False :=
      parses_star (by simp +contextual) parsed
    exact ⟨all.1, List.eq_nil_iff_forall_not_mem.mpr all.2⟩
  · rintro ⟨members, rfl⟩
    induction word generalizing pos with
    | nil => exact .starNil _ pos
    | cons c word ih =>
      exact .starCons _ pos [c] word [] [] (by simp) (.char chars pos c (members c (by simp)))
        (ih fun other later => members other (by simp [later]))

theorem parses_plus_char_iff {chars : α → Bool} :
    Parses (.plus (.char chars)) pos word groups ↔
      word ≠ [] ∧ (∀ c ∈ word, chars c = true) ∧ groups = [] := by
  rw [plus, parses_seq_iff]
  constructor
  · rintro ⟨u, v, first, second, rfl, rfl, left, right⟩
    obtain ⟨⟨c, member, rfl⟩, rfl⟩ := parses_char_iff.mp left
    obtain ⟨members, rfl⟩ := parses_star_char_iff.mp right
    exact ⟨by simp, by simpa using ⟨member, members⟩, rfl⟩
  · rintro ⟨nonempty, members, rfl⟩
    obtain ⟨c, rest, rfl⟩ := List.exists_cons_of_ne_nil nonempty
    exact ⟨[c], rest, [], [], rfl, rfl, .char chars pos c (members c (by simp)),
      parses_star_char_iff.mpr ⟨fun other later => members other (by simp [later]), rfl⟩⟩

/-- A word of one class ends where the text leaves the class. -/
theorem cut_unique {chars : α → Bool} {u v x y : List α} (same : u ++ x = v ++ y)
    (left : ∀ c ∈ u, chars c = true) (leaves : ∀ c ∈ x.head?, chars c = false)
    (right : ∀ c ∈ v, chars c = true) (leaves' : ∀ c ∈ y.head?, chars c = false) : u = v ∧ x = y := by
  have stops : ∀ {w z : List α}, (∀ c ∈ w, chars c = true) → (∀ c ∈ z.head?, chars c = false) →
      (w ++ z).takeWhile chars = w := by
    intro w z all out
    rw [List.takeWhile_append_of_pos all]
    cases z with
    | nil => simp
    | cons d z => simp [out d (by simp)]
  have first := stops left leaves
  rw [same, stops right leaves'] at first
  subst first
  exact ⟨rfl, List.append_cancel_left same⟩

/-! ## The match is the leftmost and the longest -/

/-- No prefix of the text is matched, wherever the text lies. -/
def Silent (r : Regex α) (text : List α) : Prop :=
  ∀ pos word rest groups, text = word ++ rest → ¬ Parses r pos word groups

/-- The expression matches a prefix of the text in the longest way it can. -/
structure Longest (r : Regex α) (pos : Nat) (text : List α) (n : Nat) (groups : List Capture) :
    Prop where
  parses : ∃ word rest, text = word ++ rest ∧ word.length = n ∧ Parses r pos word groups
  longest : ∀ word rest groups, text = word ++ rest → Parses r pos word groups → word.length ≤ n

theorem prefixes_silent (silent : Silent r text) : r.prefixes pos text = [] := by
  refine List.eq_nil_iff_forall_not_mem.mpr fun found listed => ?_
  obtain ⟨word, rest, same, -, parsed⟩ := prefixes_sound listed
  exact silent pos word rest _ same parsed

theorem search_nil (silent : Silent r ([] : List α)) : search r pos [] = none := by
  rw [search, prefixes_silent silent]
  rfl

theorem search_cons {c : α} (silent : Silent r (c :: text)) :
    search r pos (c :: text) = search r (pos + 1) text := by
  rw [search, prefixes_silent silent]
  rfl

/-- The search passes over a word at no place of which a match begins. -/
theorem search_append (silent : ∀ before c after, word = before ++ c :: after →
    Silent r (c :: after ++ rest)) : search r pos (word ++ rest) = search r (pos + word.length) rest := by
  induction word generalizing pos with
  | nil => rfl
  | cons c word ih =>
    have here : Silent r (c :: (word ++ rest)) := silent [] c word rfl
    rw [List.cons_append, search_cons here, ih]
    · rw [List.length_cons, Nat.add_assoc, Nat.add_comm 1]
    · intro before c' after same
      exact silent (c :: before) c' after (by rw [same]; rfl)

/-- Where there is a match, the search stops with the longest. -/
theorem search_stops (parsed : Parses r pos word groups) (rest : List α) :
    ∃ n groups, Longest r pos (word ++ rest) n groups ∧
      search r pos (word ++ rest) = some ⟨pos, pos + n, groups⟩ := by
  have listed := prefixes_complete parsed rest
  cases best : (r.prefixes pos (word ++ rest)).argmax Prod.fst with
  | none =>
    rw [List.argmax_eq_none.mp best] at listed
    cases listed
  | some found =>
    refine ⟨found.1, found.2, ⟨prefixes_sound (List.argmax_mem best), ?_⟩, by rw [search.eq_def, best]⟩
    intro other rest' groups' same parsed'
    have among := prefixes_complete parsed' rest'
    rw [← same] at among
    exact List.le_of_mem_argmax among best

end Regex

end LocalServer
