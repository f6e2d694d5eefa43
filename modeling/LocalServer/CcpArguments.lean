import LocalServer.Ccp

/-! What `ccp` makes of its arguments. The loop keeps the last value of every option,
and it compares `-e` with the `-b` before it only: the order decides, and what is
missing stays uninitialised. -/
namespace LocalServer.Ccp
open CList (Fault)
open Commands (EXEC_ERROR)
open Files Getopt

/-- The values of the options with a letter, in their order. -/
def values (letter : Letter) (opts : List CcpOption) : List (List Byte) :=
  opts.filterMap fun
    | .value other optarg => if other = letter then some optarg else none
    | _ => none

/-- The value of the last option with a letter. -/
def given (letter : Letter) (opts : List CcpOption) : Option (List Byte) := (values letter opts).getLast?

/-- The variables that some options leave. -/
def final (opts : List CcpOption) : Variables where
  srcFile := given .f opts
  destFile := given .d opts
  srcMode := if .flag .v ∈ opts then [.excl] else []
  destMode := if .flag .a ∈ opts then [.append] else [.trunc]
  bvalue := (given .b opts).elim 0 atol
  evalue := (given .e opts).elim (-1) atol

/-- The loop goes on behind this option, having read those before it. -/
def Fits (before : List CcpOption) : CcpOption → Prop
  | .unknown _ | .missing _ => False
  | .value .b optarg => 0 ≤ atol optarg
  | .value .e optarg => (final before).bvalue ≤ atol optarg
  | _ => True

/-- One of the options ends the loop. -/
def Refused (opts : List CcpOption) : Prop :=
  ∃ before opt after, opts = before ++ opt :: after ∧ ¬ Fits before opt

/-- Both names are given, and the range is none that ends before it begins. -/
structure Complete (opts : List CcpOption) : Prop where
  src : (given .f opts).isSome
  dest : (given .d opts).isSome
  ordered : ∀ optarg ∈ given .e opts, (final opts).bvalue ≤ atol optarg

/-- Arguments that are refused, or that are all there and in order. -/
def Sound (argv : List (List Byte)) : Prop :=
  argv.length = 1 ∨ Refused (options argv) ∨ Complete (options argv)

/-- The letter of an option. -/
def letter? : CcpOption → Option (Flag ⊕ Letter)
  | .flag letter => some (.inl letter)
  | .value letter _ | .missing letter => some (.inr letter)
  | .unknown _ => none

/-- The same options in another order, each at most once. -/
def Reordered (argv argv' : List (List Byte)) : Prop :=
  (options argv).Perm (options argv') ∧ ((options argv).filterMap letter?).Nodup

variable {opts opts' : List CcpOption} {opt : CcpOption} {letter : Letter} {optarg : List Byte}
  {o : Variables} {argv argv' : List (List Byte)}

/-! ## The loop -/

theorem readOptions_append (o : Variables) (opts opts' : List CcpOption) :
    readOptions o (opts ++ opts') = (readOptions o opts).bind fun o => readOptions o opts' := by
  induction opts generalizing o with
  | nil => rfl
  | cons opt opts ih =>
    simp only [List.cons_append, readOptions]
    cases readOption o opt with
    | error complaint => rfl
    | ok o => exact ih o

theorem values_append (letter : Letter) (opts opts' : List CcpOption) :
    values letter (opts ++ opts') = values letter opts ++ values letter opts' := List.filterMap_append

/-- One round of the loop. -/
theorem readOption_final : readOption (final opts) opt = .ok o ↔
    Fits opts opt ∧ o = final (opts ++ [opt]) := by
  cases opt with
  | unknown c => simp [readOption, Fits]
  | missing letter => simp [readOption, Fits]
  | flag letter => cases letter <;> simp [readOption, Fits, final, given, values, eq_comm]
  | value letter optarg =>
    cases letter with
    | f | d => simp [readOption, Fits, final, given, values, eq_comm]
    | b =>
      by_cases negative : atol optarg < 0
      · simp [readOption, Fits, negative]
      · simp [readOption, Fits, negative, final, given, values, eq_comm, not_lt.mp negative]
    | e =>
      by_cases below : atol optarg < (final opts).bvalue
      · simp [readOption, Fits, below]
      · simp only [readOption, Fits, below, if_false, not_lt.mp below, true_and]
        simp [final, given, values, eq_comm]

theorem refused_snoc : Refused (opts ++ [opt]) ↔ Refused opts ∨ ¬ Fits opts opt := by
  constructor
  · rintro ⟨before, other, after, same, misfit⟩
    rcases List.eq_nil_or_concat after with rfl | ⟨after, last, rfl⟩
    · obtain ⟨rfl, last⟩ := List.append_inj' same rfl
      obtain ⟨rfl, -⟩ := List.cons.inj last
      exact .inr misfit
    · rw [List.concat_eq_append, ← List.cons_append, ← List.append_assoc] at same
      obtain ⟨rfl, -⟩ := List.append_inj' same rfl
      exact .inl ⟨before, other, after, rfl, misfit⟩
  · rintro (⟨before, other, after, rfl, misfit⟩ | misfit)
    · exact ⟨before, other, after ++ [opt], by simp, misfit⟩
    · exact ⟨opts, opt, [], rfl, misfit⟩

theorem readOptions_ok_iff : readOptions .init opts = .ok o ↔ ¬ Refused opts ∧ o = final opts := by
  induction opts using List.reverseRecOn generalizing o with
  | nil =>
    have fits : ¬ Refused [] := by
      rintro ⟨before, opt, after, same, -⟩
      simp at same
    simp [readOptions, fits, final, given, values, Variables.init, eq_comm]
  | append_singleton opts opt ih =>
    rw [readOptions_append, refused_snoc, not_or, not_not, and_assoc]
    have last : ∀ o, readOptions o [opt] = readOption o opt := fun o => by
      simp only [readOptions]
      cases readOption o opt <;> rfl
    simp only [last]
    cases loop : readOptions .init opts with
    | error complaint =>
      have refused : Refused opts := by
        by_contra fits
        have := ih.mpr ⟨fits, rfl⟩
        rw [loop] at this
        cases this
      simp [refused, Except.bind]
    | ok middle =>
      obtain ⟨fits, rfl⟩ := ih.mp loop
      simp only [Except.bind, fits, not_false_eq_true, true_and]
      exact readOption_final

theorem fits_of_accepted {before after : List CcpOption}
    (accepted : ¬ Refused (before ++ opt :: after)) : Fits before opt := by
  by_contra misfit
  exact accepted ⟨before, opt, after, rfl, misfit⟩

theorem mem_values : optarg ∈ values letter opts ↔ .value letter optarg ∈ opts := by
  rw [values, List.mem_filterMap]
  constructor
  · rintro ⟨opt, member, found⟩
    cases opt with
    | value other optarg' =>
      simp only [Option.ite_none_right_eq_some, Option.some.injEq] at found
      obtain ⟨rfl, rfl⟩ := found
      exact member
    | _ => cases found
  · intro member
    exact ⟨_, member, by simp⟩

theorem mem_of_given (found : given letter opts = some optarg) : .value letter optarg ∈ opts :=
  mem_values.mp (List.mem_of_getLast? found)

/-- The start that the loop leaves is not negative. -/
theorem start_nonneg (accepted : ¬ Refused opts) : 0 ≤ (final opts).bvalue := by
  cases start : given .b opts with
  | none => simp [final, start]
  | some optarg =>
    obtain ⟨before, after, rfl⟩ := List.append_of_mem (mem_of_given start)
    have fits : 0 ≤ atol optarg := fits_of_accepted accepted
    simpa [final, start] using fits

/-- Nor is the end, if there is one. -/
theorem end_nonneg (accepted : ¬ Refused opts) : (final opts).evalue = -1 ∨ 0 ≤ (final opts).evalue := by
  cases ends : given .e opts with
  | none => simp [final, ends]
  | some optarg =>
    obtain ⟨before, after, rfl⟩ := List.append_of_mem (mem_of_given ends)
    have fits : (final before).bvalue ≤ atol optarg := fits_of_accepted accepted
    have accepted' : ¬ Refused before := by
      rintro ⟨first, opt, later, rfl, misfit⟩
      exact accepted ⟨first, opt, later ++ .value .e optarg :: after, by simp, misfit⟩
    right
    simpa [final, ends] using (start_nonneg accepted').trans fits

/-! ## The order of the options -/

theorem values_eq_nil (none : .inr letter ∉ opts.filterMap letter?) : values letter opts = [] := by
  refine List.filterMap_eq_nil_iff.mpr fun opt member => ?_
  cases opt with
  | value other optarg =>
    have apart : other ≠ letter := by
      rintro rfl
      exact none (List.mem_filterMap.mpr ⟨_, member, rfl⟩)
    simp [apart]
  | _ => rfl

/-- An option that is there once is the last of its kind. -/
theorem given_of_mem (once : (opts.filterMap letter?).Nodup) (member : .value letter optarg ∈ opts) :
    given letter opts = some optarg := by
  obtain ⟨before, after, rfl⟩ := List.append_of_mem member
  have first : (Opt.value letter optarg :: after).filterMap letter? =
      .inr letter :: after.filterMap letter? := rfl
  rw [List.filterMap_append, first, List.nodup_append, List.nodup_cons] at once
  obtain ⟨-, ⟨later, -⟩, -⟩ := once
  have last : values letter (.value letter optarg :: after) = optarg :: values letter after :=
    List.filterMap_cons_some (by simp)
  rw [given, values_append, last, values_eq_nil later]
  simp

theorem given_eq_some_iff (once : (opts.filterMap letter?).Nodup) :
    given letter opts = some optarg ↔ .value letter optarg ∈ opts := by
  constructor
  · intro found
    exact mem_of_given found
  · exact given_of_mem once

theorem final_perm (once : (opts.filterMap letter?).Nodup) (same : opts.Perm opts') :
    final opts = final opts' := by
  have once' : (opts'.filterMap letter?).Nodup := (same.filterMap letter?).nodup_iff.mp once
  have given_eq : ∀ letter, given letter opts = given letter opts' := by
    intro letter
    ext optarg
    rw [given_eq_some_iff once, given_eq_some_iff once', same.mem_iff]
  simp only [final, given_eq, same.mem_iff]

/-- In whatever order complete options come, they are refused in none or in each. -/
theorem Complete.accepted (complete : Complete opts) (once : (opts.filterMap letter?).Nodup)
    (same : opts.Perm opts') (accepted : ¬ Refused opts) : ¬ Refused opts' := by
  rintro ⟨before, opt, after, rfl, misfit⟩
  have member : opt ∈ opts := same.mem_iff.mpr (by simp)
  obtain ⟨before', after', split⟩ := List.append_of_mem member
  have fits : Fits before' opt := by
    rw [split] at accepted
    exact fits_of_accepted accepted
  apply misfit
  cases opt with
  | unknown c => exact fits
  | missing letter => exact fits
  | flag letter => trivial
  | value letter optarg =>
    cases letter with
    | f => trivial
    | d => trivial
    | b => exact fits
    | e =>
      have ordered := complete.ordered optarg (given_of_mem once member)
      have below : (final before).bvalue ≤ (final opts).bvalue := by
        cases start : given .b before with
        | none =>
          have zero : (final before).bvalue = 0 := by simp [final, start]
          rw [zero]
          exact start_nonneg accepted
        | some optarg' =>
          have among : .value .b optarg' ∈ opts :=
            same.mem_iff.mpr (List.mem_append_left _ (mem_of_given start))
          simp [final, start, given_of_mem once among]
      exact below.trans ordered

/-! ## What is accepted -/

theorem readArguments_ok_iff : readArguments argv = .ok o ↔
    argv.length ≠ 1 ∧ ¬ Refused (options argv) ∧ o = final (options argv) := by
  rw [readArguments]
  by_cases alone : argv.length = 1
  · simp [alone]
  · simp [alone, readOptions_ok_iff]

variable (Place : Type*) [DecidableEq Place]

/-- The call returns `EXEC_ERROR` before it opens a file. -/
def Rejects (argv : List (List Byte)) : Prop :=
  ∀ (fs : Files Place) answers fuel, ∃ outcome, execCcp fs argv answers fuel = .ok outcome ∧
    outcome.value = EXEC_ERROR ∧ outcome.opened = [] ∧ outcome.files = fs

/-- The call goes on to open files, with these variables. -/
def Accepts (argv : List (List Byte)) (o : Variables) : Prop := readArguments argv = .ok o

/-- The call rejects its arguments, or it opens no other files than those that `-f`
and `-d` name and its range is a range. -/
def Checked (argv : List (List Byte)) : Prop :=
  Rejects Place argv ∨ ∃ o srcFile destFile, Accepts argv o ∧
    given .f (options argv) = some srcFile ∧ o.srcFile = some srcFile ∧
    given .d (options argv) = some destFile ∧ o.destFile = some destFile ∧
    0 ≤ o.bvalue ∧ ((given .e (options argv)).isSome → o.bvalue ≤ o.evalue) ∧
    ∀ (fs : Files Place) answers fuel outcome, execCcp fs argv answers fuel = .ok outcome →
      outcome.opened <+: [srcFile, destFile]

/-- Both calls reject their arguments, or both go on in the same way. -/
def Agree (argv argv' : List (List Byte)) : Prop :=
  Rejects Place argv ∧ Rejects Place argv' ∨ ∃ o, Accepts argv o ∧ Accepts argv' o

variable {Place}

theorem rejects_of_error (refused : ∀ o, readArguments argv ≠ .ok o) : Rejects Place argv := by
  intro fs answers fuel
  cases read : readArguments argv with
  | ok o => exact absurd read (refused o)
  | error complaint =>
    refine ⟨{ giveUp fs complaint [] with stderr := complaint.getoptText argv ++ complaint.text }, ?_, rfl, rfl, rfl⟩
    simp only [execCcp, read]

/-- A call that has accepted its arguments opens a file. -/
theorem not_rejects (fs : Files Place) (accepts : Accepts argv o) : ¬ Rejects Place argv := by
  intro rejects
  obtain ⟨outcome, called, -, unopened, -⟩ :=
    rejects fs ⟨false, false, false, fun _ => ⟨false, false, false⟩⟩ 0
  rw [Accepts] at accepts
  simp only [execCcp, accepts, openAndCopy, tryOpen] at called
  cases name : o.srcFile with
  | none => simp [name] at called
  | some srcFile =>
    simp only [name, Bool.false_eq_true, if_false, Except.ok.injEq] at called
    rw [← called] at unopened
    cases unopened

theorem sound_of_checked (fs : Files Place) (checked : Checked Place argv) : Sound argv := by
  by_cases alone : argv.length = 1
  · exact .inl alone
  by_cases refused : Refused (options argv)
  · exact .inr (.inl refused)
  have accepts : Accepts argv (final (options argv)) := readArguments_ok_iff.mpr ⟨alone, refused, rfl⟩
  obtain rejects | ⟨o, srcFile, destFile, accepts', src, -, dest, -, -, ordered, -⟩ := checked
  · exact absurd rejects (not_rejects fs accepts)
  · obtain rfl := (readArguments_ok_iff.mp accepts').2.2
    refine .inr (.inr ⟨by simp [src], by simp [dest], ?_⟩)
    intro optarg last
    have last : given .e (options argv) = some optarg := last
    simpa [final, last] using ordered (by simp [last])

theorem opened_prefix {fs : Files Place} {answers : Answers} {fuel : Nat} {outcome : Outcome Place}
    {srcFile destFile : List Byte} (src : o.srcFile = some srcFile) (dest : o.destFile = some destFile)
    (called : openAndCopy fs o answers fuel = .ok outcome) : outcome.opened <+: [srcFile, destFile] := by
  have went := course fs answers fuel src dest
  rw [called] at went
  generalize result : Except.ok outcome = whole at went
  cases went with
  | noSource => cases result; simp [giveUp]
  | noStart => cases result; simp [giveUp]
  | noDest => cases result; simp [giveUp]
  | copies =>
    obtain ⟨result, -, rfl⟩ := map_eq_ok_iff.mp result.symm
    simp

theorem checked_of_sound (sound : Sound argv) : Checked Place argv := by
  by_cases accepted : argv.length ≠ 1 ∧ ¬ Refused (options argv)
  · have complete : Complete (options argv) := by
      rcases sound with alone | refused | complete
      · exact absurd alone accepted.1
      · exact absurd refused accepted.2
      · exact complete
    obtain ⟨srcFile, src⟩ := Option.isSome_iff_exists.mp complete.src
    obtain ⟨destFile, dest⟩ := Option.isSome_iff_exists.mp complete.dest
    have read := readArguments_ok_iff.mpr ⟨accepted.1, accepted.2, rfl⟩
    refine .inr ⟨_, srcFile, destFile, read, src, src, dest, dest, start_nonneg accepted.2, ?_, ?_⟩
    · intro ends
      obtain ⟨optarg, last⟩ := Option.isSome_iff_exists.mp ends
      simpa [final, last] using complete.ordered optarg last
    · intro fs answers fuel outcome called
      simp only [execCcp, read] at called
      exact opened_prefix src dest called
  · left
    apply rejects_of_error
    intro o read
    obtain ⟨many, fits, -⟩ := readArguments_ok_iff.mp read
    exact accepted ⟨many, fits⟩

theorem Reordered.symm (reordered : Reordered argv argv') : Reordered argv' argv :=
  ⟨reordered.1.symm, (reordered.1.filterMap letter?).nodup_iff.mp reordered.2⟩

theorem accepts_reordered (sound : Sound argv) (sound' : Sound argv') (reordered : Reordered argv argv')
    (accepts : Accepts argv o) : Accepts argv' o := by
  obtain ⟨many, accepted, rfl⟩ := readArguments_ok_iff.mp accepts
  have complete : Complete (options argv) := by
    rcases sound with alone | refused | complete
    · exact absurd alone many
    · exact absurd refused accepted
    · exact complete
  have accepted' := complete.accepted reordered.2 reordered.1 accepted
  refine readArguments_ok_iff.mpr ⟨?_, accepted', final_perm reordered.2 reordered.1⟩
  intro alone
  -- without arguments there are no options, and no names
  obtain ⟨name, rfl⟩ := List.length_eq_one_iff.mp alone
  have none : options argv = [] := reordered.1.eq_nil
  simpa [none, given, values] using complete.src

theorem agree_of_sound (sound : Sound argv) (sound' : Sound argv') (reordered : Reordered argv argv') :
    Agree Place argv argv' := by
  by_cases accepted : ∃ o, Accepts argv o
  · obtain ⟨o, accepts⟩ := accepted
    exact .inr ⟨o, accepts, accepts_reordered sound sound' reordered accepts⟩
  · refine .inl ⟨rejects_of_error fun o accepts => accepted ⟨o, accepts⟩, rejects_of_error fun o accepts => ?_⟩
    exact accepted ⟨o, accepts_reordered sound' sound reordered.symm accepts⟩

/-- **Arguments are checked, in whatever order they come, if those that are not
refused name both files and give a range.** -/
theorem arguments_checked_iff [Inhabited Place] (argv argv' : List (List Byte)) :
    (Checked Place argv ∧ Checked Place argv' ∧ (Reordered argv argv' → Agree Place argv argv')) ↔
      Sound argv ∧ Sound argv' := by
  let fs : Files Place := ⟨fun _ => default, fun _ => none⟩
  constructor
  · rintro ⟨checked, checked', -⟩
    exact ⟨sound_of_checked fs checked, sound_of_checked fs checked'⟩
  · rintro ⟨sound, sound'⟩
    exact ⟨checked_of_sound sound, checked_of_sound sound', agree_of_sound sound sound'⟩

/-- Options that come in this order, and in the order in which their range is not checked. -/
def startFirst : List (List Byte) := ["ccp", "-f", "s", "-d", "t", "-b", "5", "-e", "3"].map bytes

def endFirst : List (List Byte) := ["ccp", "-f", "s", "-d", "t", "-e", "3", "-b", "5"].map bytes

theorem end_before_start_is_accepted : ¬ Checked (List Byte) endFirst ∧
    Reordered startFirst endFirst ∧ ¬ Agree (List Byte) startFirst endFirst := by
  have accepted : readArguments endFirst =
      .ok ⟨some (bytes "s"), some (bytes "t"), [], [.trunc], 5, 3⟩ := by decide +kernel
  have refused : readArguments startFirst = .error .badEnd := by decide +kernel
  let fs : Files (List Byte) := ⟨id, fun _ => none⟩
  refine ⟨?_, ⟨by decide +kernel, by decide +kernel⟩, ?_⟩
  · rintro (rejects | ⟨o, srcFile, destFile, accepts, -, -, -, -, -, ordered, -⟩)
    · exact not_rejects fs accepted rejects
    · obtain rfl := Except.ok.inj (accepted.symm.trans accepts)
      exact absurd (ordered (by decide +kernel)) (by decide)
  · rintro (⟨-, rejects⟩ | ⟨o, accepts, -⟩)
    · exact not_rejects fs accepted rejects
    · cases refused.symm.trans accepts

end LocalServer.Ccp
