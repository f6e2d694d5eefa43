import LocalServer.CcpArguments

/-! Which files `ccp` touches. Writing it only touches the destination, but the source
is opened with `O_CREAT`: one that is not there is created, and the copy goes on. -/
namespace LocalServer.Ccp
open CList (Fault)
open Commands (EXEC_ERROR)
open Files

variable {Place : Type*} [DecidableEq Place] {fs fs' fs₁ : Files Place} {src dest fd : Descriptor Place}
  {place : Place} {max r : Int} {rounds : Nat → Round} {fuel : Nat} {o : Variables} {answers : Answers}
  {file srcFile destFile : List Byte} {flags : List OpenFlag} {works : Bool} {outcome : Outcome Place}
  {argv : List (List Byte)} {opts : List CcpOption}

/-- The copy writes to its destination only. -/
theorem ccp_frame (copied : ccp fs src dest max rounds fuel = .ok (fs', r)) (apart : place ≠ dest.place) :
    fs'.files place = fs.files place := by
  fun_induction ccp fs src dest max rounds fuel with
  | case1 => cases copied
  | case2 => cases copied; rfl
  | case3 => cases copied; rfl
  | case4 => cases copied; rfl
  | case5 fs src dest rounds fuel goes reads buffer src' found writes ih =>
    rw [ih copied apart]
    exact FileSystem.write_of_ne apart
  | case6 => cases copied; rfl

theorem tryOpen_spec (opened : tryOpen fs file flags works = some (fs', fd)) :
    fd = ⟨fs.resolve file, 0, .append ∈ flags⟩ ∧ fs'.resolve = fs.resolve ∧
      (∀ place, place ≠ fs.resolve file → fs'.files place = fs.files place) ∧
      fs'.files (fs.resolve file) =
        some (if .trunc ∈ flags then [] else (fs.files (fs.resolve file)).getD []) := by
  rw [tryOpen] at opened
  obtain ⟨-, opened⟩ := Option.ite_none_right_eq_some.mp opened
  exact FileSystem.openFile_spec opened

theorem srcMode_final (opts : List CcpOption) :
    (Ccp.final opts).srcMode = [.excl] ∨ (Ccp.final opts).srcMode = [] := by
  rw [Ccp.final]
  split <;> simp

theorem destMode_final (opts : List CcpOption) :
    (Ccp.final opts).destMode = [.append] ∨ (Ccp.final opts).destMode = [.trunc] := by
  simp only [Ccp.final]
  split <;> simp

/-- A source that exists is opened and left as it is. -/
theorem source_kept (there : (fs.file srcFile).isSome) (final : o = final opts)
    (opened : tryOpen fs srcFile (.creat :: o.srcMode) works = some (fs₁, fd)) :
    fs₁.files = fs.files := by
  obtain ⟨-, -, others, here⟩ := tryOpen_spec opened
  have kept : OpenFlag.trunc ∉ .creat :: o.srcMode := by
    rcases srcMode_final opts with mode | mode <;> simp [final, mode]
  obtain ⟨content, found⟩ := Option.isSome_iff_exists.mp there
  have found : fs.files (fs.resolve srcFile) = some content := found
  funext place
  by_cases same : place = fs.resolve srcFile
  · rw [same, here, if_neg kept, found, Option.getD_some]
  · exact others place same

/-- With a source that exists, nothing but the destination is touched. -/
theorem others_kept (there : (fs.file srcFile).isSome) (final : o = final opts)
    (source : o.srcFile = some srcFile) (named : o.destFile = some destFile)
    (called : openAndCopy fs o answers fuel = .ok outcome) (apart : place ≠ fs.resolve destFile) :
    outcome.files.files place = fs.files place := by
  have went := course fs answers fuel source named
  rw [called] at went
  generalize result : Except.ok outcome = whole at went
  cases went with
  | noSource => cases result; rfl
  | noStart fs₁ srcFd opened =>
    cases result
    exact congrFun (source_kept there final opened) place
  | noDest fs₁ srcFd opened =>
    cases result
    exact congrFun (source_kept there final opened) place
  | copies fs₁ fs₂ srcFd destFd opened seeks opened' =>
    obtain ⟨⟨fs₃, ccpR⟩, copied, rfl⟩ := map_eq_ok_iff.mp result.symm
    obtain ⟨-, resolve, -⟩ := tryOpen_spec opened
    obtain ⟨rfl, -, others, -⟩ := tryOpen_spec opened'
    rw [resolve] at others copied
    calc (finish [srcFile, destFile] (fs₃, ccpR)).files.files place
        = fs₃.files place := by rw [finish_files]
      _ = fs₂.files place := ccp_frame copied apart
      _ = fs₁.files place := others place apart
      _ = fs.files place := congrFun (source_kept there final opened) place

/-- Every call works. -/
def Answers.granted : Answers := ⟨true, true, true, fun _ => ⟨true, true, true⟩⟩

theorem granted_works (n : Nat) : Answers.granted.rounds n = ⟨true, true, true⟩ := rfl

theorem granted_opens (possible : if (fs.file file).isSome then .excl ∉ flags else .creat ∈ flags) :
    tryOpen fs file flags true ≠ none := by
  rw [tryOpen, if_pos rfl]
  apply Option.isSome_iff_ne_none.mp
  rw [FileSystem.openFile_isSome]
  by_cases there : (fs.file file).isSome
  · rw [if_pos there] at possible ⊢
    exact fun new => possible new.2
  · rw [if_neg there] at possible ⊢
    exact possible

theorem ccp_of_no_more (ended : fs.read src = none) (reads : (rounds 0).reads = true) :
    ccp fs src dest max rounds (fuel + 1) = .ok (fs, 0) := by
  simp [ccp, ended, reads]

/-- When every call works, both files are opened and the copy begins. -/
theorem granted_course (fs : Files Place) (accepts : Accepts argv o) (source : o.srcFile = some srcFile)
    (named : o.destFile = some destFile) (possible : (fs.file srcFile).isSome → .excl ∉ o.srcMode) :
    ∃ fs₁ fs₂ srcFd destFd, tryOpen fs srcFile (.creat :: o.srcMode) true = some (fs₁, srcFd) ∧
      tryOpen fs₁ destFile (.creat :: .wronly :: o.destMode) true = some (fs₂, destFd) ∧
      ∀ fuel, execCcp fs argv .granted fuel =
        (ccp fs₂ { srcFd with offset := o.bvalue.toNat } destFd o.evalue Answers.granted.rounds fuel).map
          (finish [srcFile, destFile]) := by
  obtain ⟨-, accepted, final⟩ := readArguments_ok_iff.mp accepts
  have start : ¬ o.bvalue < 0 := by
    rw [final]
    exact not_lt.mpr (start_nonneg accepted)
  have opens : tryOpen fs srcFile (.creat :: o.srcMode) true ≠ none := by
    apply granted_opens
    split
    · next there => simpa using possible there
    · simp
  obtain ⟨⟨fs₁, srcFd⟩, opened⟩ := Option.ne_none_iff_exists'.mp opens
  have opens' : tryOpen fs₁ destFile (.creat :: .wronly :: o.destMode) true ≠ none := by
    apply granted_opens
    split
    · rcases destMode_final (options argv) with mode | mode <;> simp [final, mode]
    · simp
  obtain ⟨⟨fs₂, destFd⟩, opened'⟩ := Option.ne_none_iff_exists'.mp opens'
  refine ⟨fs₁, fs₂, srcFd, destFd, opened, opened', fun fuel => ?_⟩
  rw [Accepts] at accepts
  simp only [execCcp, accepts, openAndCopy, source, named, Answers.granted, opened, opened', start,
    Bool.true_eq_false, or_false, if_false]

/-- A source that is not there is created, and it is empty when the copy begins. -/
theorem created_empty {fs₂ : Files Place} {srcFd destFd : Descriptor Place} {works' : Bool}
    {mode mode' : List OpenFlag} (missing : fs.file srcFile = none)
    (source : tryOpen fs srcFile mode works = some (fs₁, srcFd))
    (dest : tryOpen fs₁ destFile mode' works' = some (fs₂, destFd)) (offset : Nat) :
    fs₂.read { srcFd with offset := offset } = none := by
  obtain ⟨rfl, -, -, created⟩ := tryOpen_spec source
  obtain ⟨rfl, -, others, content⟩ := tryOpen_spec dest
  have missing : fs.files (fs.resolve srcFile) = none := missing
  rw [missing, Option.getD_none, ite_self] at created
  have empty : fs₂.files (fs.resolve srcFile) = some [] := by
    by_cases same : fs.resolve srcFile = fs₁.resolve destFile
    · rw [same, content, ← same, created, Option.getD_some, ite_self]
    · rw [others _ same, created]
  simp [FileSystem.read, empty]

/-- The copy of a source that was not there succeeds. -/
theorem missing_source_succeeds (accepts : Accepts argv o) (source : o.srcFile = some srcFile)
    (named : o.destFile = some destFile) (missing : fs.file srcFile = none) :
    ∃ outcome, execCcp fs argv .granted 1 = .ok outcome ∧ outcome.value = 1 := by
  obtain ⟨fs₁, fs₂, srcFd, destFd, opened, opened', called⟩ :=
    granted_course fs accepts source named (by simp [missing])
  have ended := created_empty missing opened opened' o.bvalue.toNat
  exact ⟨_, by rw [called, ccp_of_no_more ended rfl]; rfl, rfl⟩

/-- Whatever calls fail, no file but the destination changes; and without a source
the call fails and the destination does not change either. -/
def TouchesDestinationOnly (fs : Files Place) (argv : List (List Byte)) (srcFile destFile : List Byte) :
    Prop :=
  ∀ answers fuel outcome, execCcp fs argv answers fuel = .ok outcome →
    (∀ place, place ≠ fs.resolve destFile → outcome.files.files place = fs.files place) ∧
    (fs.file srcFile = none →
      outcome.value = EXEC_ERROR ∧ outcome.files.files (fs.resolve destFile) = fs.file destFile)

/-- **Only the destination is touched, if the arguments are refused or there is a source.** A
missing source is one that can be created. -/
theorem touches_destination_only_iff (fs : Files Place) (argv : List (List Byte))
    (source : given .f (options argv) = some srcFile) (named : given .d (options argv) = some destFile) :
    TouchesDestinationOnly fs argv srcFile destFile ↔
      Refused (options argv) ∨ (fs.file srcFile).isSome := by
  have many : argv.length ≠ 1 := by
    intro alone
    obtain ⟨name, rfl⟩ := List.length_eq_one_iff.mp alone
    cases source
  constructor
  · intro only
    by_contra neither
    obtain ⟨accepted, missing⟩ := not_or.mp neither
    have missing : fs.file srcFile = none := by simpa using missing
    obtain ⟨outcome, called, succeeds⟩ := missing_source_succeeds
      (readArguments_ok_iff.mpr ⟨many, accepted, rfl⟩) source named missing
    have fails := ((only _ _ _ called).2 missing).1
    rw [succeeds] at fails
    cases fails
  · intro condition answers fuel outcome called
    by_cases refused : Refused (options argv)
    · obtain ⟨outcome', called', value, -, kept⟩ := rejects_of_error
        (fun o read => (readArguments_ok_iff.mp read).2.1 refused) fs answers fuel
      obtain rfl := Except.ok.inj (called.symm.trans called')
      rw [kept]
      exact ⟨fun place _ => rfl, fun _ => ⟨value, rfl⟩⟩
    · have there := condition.resolve_left refused
      have read := readArguments_ok_iff.mpr ⟨many, refused, rfl⟩
      have called : openAndCopy fs (final (options argv)) answers fuel = .ok outcome := by
        simpa only [execCcp, read] using called
      refine ⟨fun place other => others_kept there rfl source named called other, fun missing => ?_⟩
      simp [missing] at there

/-- A copy of `s` into `t`. -/
def plainCopy : List (List Byte) := ["ccp", "-f", "s", "-d", "t"].map bytes

def onlyFile (name content : List Byte) : Files (List Byte) :=
  ⟨id, fun place => if place = name then some content else none⟩

theorem onlyFile_file (name content : List Byte) : (onlyFile name content).file name = some content := by
  simp [onlyFile, FileSystem.file]

theorem touches_destination_only_iff_plain :
    TouchesDestinationOnly (onlyFile (bytes "s") (bytes "abc")) plainCopy (bytes "s") (bytes "t") := by
  refine (touches_destination_only_iff _ plainCopy ?_ ?_).mpr (.inr rfl)
  · decide +kernel
  · decide +kernel

/-- The source `s` is not there: the call creates it, truncates `t` and returns 1. -/
theorem missing_source_is_created :
    ¬ TouchesDestinationOnly (onlyFile (bytes "t") (bytes "abc")) plainCopy (bytes "s") (bytes "t") := by
  intro only
  have missing : (onlyFile (bytes "t") (bytes "abc")).file (bytes "s") = none := by decide +kernel
  have read : readArguments plainCopy =
      .ok ⟨some (bytes "s"), some (bytes "t"), [], [.trunc], 0, -1⟩ := by decide +kernel
  obtain ⟨outcome, called, succeeds⟩ := missing_source_succeeds read rfl rfl missing
  have fails := ((only _ _ _ called).2 missing).1
  rw [succeeds] at fails
  cases fails

end LocalServer.Ccp
