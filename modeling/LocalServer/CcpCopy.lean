import LocalServer.CcpFrame

/-! What `ccp` copies, and when it stops. The loop compares the end of the range with
the offset in the destination, which counts what was written and, in append mode, what
was there before; and a file that is appended to itself grows as fast as it is read. -/
namespace LocalServer.Ccp
open CList (Fault)
open Commands (EXEC_ERROR)
open Files

variable {Place : Type*} [DecidableEq Place] {fs fs' : Files Place} {src dest : Descriptor Place}
  {max r : Int} {rounds : Nat → Round} {fuel : Nat} {o : Variables} {answers : Answers}
  {srcFile destFile : List Byte} {outcome : Outcome Place} {argv : List (List Byte)}
  {s d content : List Byte}

/-- `TELL` works, as `lseek` on a regular file does. -/
def Tells (rounds : Nat → Round) : Prop := ∀ n, (rounds n).tells = true

/-- How many bytes are copied, when the offset in the destination is that of its end
and so many bytes are left in the source. -/
def amount (max : Int) (offset left : Nat) : Nat :=
  if (offset : Int) ≤ max then min (max - offset).toNat left else left

/-- How many bytes are copied in append mode, in which the offset is 0 before the
first byte is written and behind the end afterwards. -/
def appendAmount (max : Int) (size left : Nat) : Nat :=
  if max = 0 ∨ left = 0 then 0 else 1 + amount max (size + 1) (left - 1)

theorem amount_succ {offset : Nat} (goes : max = -1 ∨ (offset : Int) ≠ max) (left : Nat) :
    amount max offset (left + 1) = amount max (offset + 1) left + 1 := by
  rw [amount, amount]
  split <;> split <;> omega

omit [DecidableEq Place] in
theorem read_eq (there : fs.files src.place = some s) :
    fs.read src = s[src.offset]?.map fun c => (c, { src with offset := src.offset + 1 }) := by
  simp [FileSystem.read, there]

omit [DecidableEq Place] in
theorem read_at_end (there : fs.files src.place = some s) (ended : s.length ≤ src.offset) :
    fs.read src = none := by
  rw [read_eq there, List.getElem?_eq_none ended]
  rfl

omit [DecidableEq Place] in
/-- What a read finds is the first of the bytes that are left. -/
theorem drop_of_read {buffer : Byte} {src' : Descriptor Place} (there : fs.files src.place = some s)
    (found : fs.read src = some (buffer, src')) :
    src' = { src with offset := src.offset + 1 } ∧ s.drop src.offset = buffer :: s.drop (src.offset + 1) ∧
      s.length - src.offset = s.length - (src.offset + 1) + 1 := by
  rw [read_eq there, Option.map_eq_some_iff] at found
  obtain ⟨c, first, same⟩ := found
  obtain ⟨rfl, rfl⟩ := Prod.mk.inj same
  obtain ⟨inside, here⟩ := List.getElem?_eq_some_iff.mp first
  refine ⟨rfl, ?_, by omega⟩
  rw [List.drop_eq_getElem_cons inside, here]

/-- One file is copied to the end of another. -/
theorem ccp_copies (copied : ccp fs src dest max rounds fuel = .ok (fs', 0)) (tells : Tells rounds)
    (there : fs.files src.place = some s) (here : fs.files dest.place = some content)
    (apart : src.place ≠ dest.place) (atEnd : dest.offset = content.length) :
    fs'.files dest.place =
      some (content ++ (s.drop src.offset).take (amount max content.length (s.length - src.offset))) := by
  fun_induction ccp fs src dest max rounds fuel generalizing content with
  | case1 => cases copied
  | case2 => simp [READ_ERROR] at copied
  | case3 fs src dest rounds fuel goes reads ended =>
    cases copied
    rw [read_eq there, Option.map_eq_none_iff, List.getElem?_eq_none_iff] at ended
    rw [List.drop_of_length_le ended, List.take_nil, List.append_nil, here]
  | case4 => simp [WRITE_ERROR] at copied
  | case5 fs src dest rounds fuel goes reads buffer src' found writes ih =>
    obtain ⟨rfl, first, left⟩ := drop_of_read there found
    rw [FileSystem.write_at_end here (.inr atEnd)] at ih copied
    have result := ih copied (fun n => tells (n + 1)) ((FileSystem.set_of_ne apart).trans there)
      FileSystem.set_self apart rfl
    rw [tell, if_pos (tells 0), atEnd] at goes
    rw [result, first, left, amount_succ goes, List.take_succ_cons, List.length_append,
      List.length_singleton]
    simp
  | case6 fs src dest rounds fuel stops =>
    cases copied
    simp only [tell, tells 0, if_true, not_or, not_not, atEnd] at stops
    have none : amount max content.length (s.length - src.offset) = 0 := by
      rw [amount, if_pos stops.2.le]
      omega
    rw [none, List.take_zero, List.append_nil, here]

/-- In append mode the first byte is written behind what was there. -/
theorem ccp_appends (copied : ccp fs src dest max rounds fuel = .ok (fs', 0)) (tells : Tells rounds)
    (there : fs.files src.place = some s) (here : fs.files dest.place = some d)
    (apart : src.place ≠ dest.place) (append : dest.append = true) (start : dest.offset = 0) :
    fs'.files dest.place =
      some (d ++ (s.drop src.offset).take (appendAmount max d.length (s.length - src.offset))) := by
  revert copied
  fun_cases ccp fs src dest max rounds fuel with
  | case1 => simp
  | case2 => simp [READ_ERROR]
  | case3 fuel goes reads ended =>
    rintro ⟨⟩
    rw [read_eq there, Option.map_eq_none_iff, List.getElem?_eq_none_iff] at ended
    rw [List.drop_of_length_le ended, List.take_nil, List.append_nil, here]
  | case4 => simp [WRITE_ERROR]
  | case5 fuel goes reads buffer src' found writes =>
    intro copied
    obtain ⟨rfl, first, left⟩ := drop_of_read there found
    rw [FileSystem.write_at_end here (.inl append)] at copied
    have result := ccp_copies copied (fun n => tells (n + 1)) ((FileSystem.set_of_ne apart).trans there)
      FileSystem.set_self apart rfl
    rw [tell, if_pos (tells 0), start] at goes
    have some : ¬ (max = 0 ∨ s.length - src.offset = 0) := by omega
    rw [result, first, appendAmount, if_neg some, left, Nat.add_comm 1, List.take_succ_cons,
      List.length_append, List.length_singleton, Nat.add_sub_cancel]
    simp
  | case6 fuel stops =>
    rintro ⟨⟩
    simp only [tell, tells 0, if_true, not_or, not_not, start] at stops
    have none : max = 0 := by omega
    rw [appendAmount, if_pos (.inl none), List.take_zero, List.append_nil, here]

/-! ## The end of the loop -/

/-- With nothing to read the loop ends in its first round. -/
theorem ends_at_once (ended : fs.read src = none) :
    ccp fs src dest max rounds (fuel + 1) ≠ .error .endless := by
  simp only [ccp, ended]
  split_ifs <;> simp

/-- From one file into another there are no more rounds than bytes. -/
theorem ends_apart (there : fs.files src.place = some s) (apart : src.place ≠ dest.place)
    (enough : s.length - src.offset < fuel) : ccp fs src dest max rounds fuel ≠ .error .endless := by
  fun_induction ccp fs src dest max rounds fuel with
  | case1 => simp at enough
  | case2 => simp
  | case3 => simp
  | case4 => simp
  | case5 fs src dest rounds fuel goes reads buffer src' found writes ih =>
    obtain ⟨rfl, -, left⟩ := drop_of_read there found
    exact ih ((FileSystem.set_of_ne apart).trans there) apart (by simp only; omega)
  | case6 => simp

/-- The offset behind what was appended reaches the end of a range that lies behind
the file. -/
theorem ends_behind (tells : Tells rounds) (here : fs.files dest.place = some content)
    (append : dest.append = true) (offset : dest.offset = content.length) (before : content.length ≤ max)
    (enough : (max - content.length).toNat < fuel) :
    ccp fs src dest max rounds fuel ≠ .error .endless := by
  fun_induction ccp fs src dest max rounds fuel generalizing content with
  | case1 => simp at enough
  | case2 => simp
  | case3 => simp
  | case4 => simp
  | case5 fs src dest rounds fuel goes reads buffer src' found writes ih =>
    rw [tell, if_pos (tells 0), offset] at goes
    have longer : (content ++ [buffer]).length = content.length + 1 := by simp
    rw [FileSystem.write_at_end here (.inl append)] at ih ⊢
    exact ih (fun n => tells (n + 1)) FileSystem.set_self append rfl (by omega) (by omega)
  | case6 => simp

/-- So does the offset 0 in front of it. -/
theorem ends_from_start (tells : Tells rounds) (here : fs.files dest.place = some content)
    (append : dest.append = true) (offset : dest.offset = 0) (stops : max = 0 ∨ content.length < max)
    (enough : max.toNat < fuel) : ccp fs src dest max rounds fuel ≠ .error .endless := by
  fun_cases ccp fs src dest max rounds fuel with
  | case1 => simp at enough
  | case2 => simp
  | case3 => simp
  | case4 => simp
  | case5 fuel goes reads buffer src' found writes =>
    rw [tell, if_pos (tells 0), offset] at goes
    have longer : (content ++ [buffer]).length = content.length + 1 := by simp
    rw [FileSystem.write_at_end here (.inl append)]
    exact ends_behind (fun n => tells (n + 1)) FileSystem.set_self append rfl (by omega) (by omega)
  | case6 => simp

/-- A file that is appended to itself, and that the range does not end behind. -/
structure Chases (fs : Files Place) (src dest : Descriptor Place) (max : Int) : Prop where
  same : src.place = dest.place
  append : dest.append = true
  ahead : ∃ content, fs.files dest.place = some content ∧ src.offset < content.length ∧
    (max = -1 ∨ (dest.offset : Int) ≠ max ∧ max ≤ content.length)

/-- It grows with every byte that is read. -/
theorem endless_of_chases (chases : Chases fs src dest max) (works : ∀ n, rounds n = ⟨true, true, true⟩) :
    ccp fs src dest max rounds fuel = .error .endless := by
  induction fuel generalizing fs src dest rounds with
  | zero => rfl
  | succ fuel ih =>
    obtain ⟨same, append, content, here, ahead, beyond⟩ := chases
    have goes : max = -1 ∨ tell dest true ≠ max := beyond.imp_right And.left
    have read : fs.read src = some (content[src.offset], { src with offset := src.offset + 1 }) := by
      rw [read_eq (by rw [same]; exact here), List.getElem?_eq_getElem ahead]
      rfl
    rw [ccp, works 0, if_pos goes, if_neg (by simp), read]
    simp only [Bool.true_eq_false, if_false]
    rw [FileSystem.write_at_end here (.inl append)]
    refine ih ⟨same, append, _, FileSystem.set_self, ?_, ?_⟩ fun n => works (n + 1)
    · simp only [List.length_append, List.length_singleton]
      omega
    · simp only [List.length_append, List.length_singleton]
      omega

/-! ## The range -/

/-- What a call with these variables should add to the destination. -/
def range (o : Variables) (s : List Byte) : List Byte :=
  if o.evalue = -1 then s.drop o.bvalue.toNat else (s.take o.evalue.toNat).drop o.bvalue.toNat

/-- Whenever the call returns 1 the range has been copied. -/
def CopiesRange (fs : Files Place) (argv : List (List Byte)) (o : Variables) (s : List Byte)
    (destFile : List Byte) : Prop :=
  ∀ answers fuel outcome, Tells answers.rounds → execCcp fs argv answers fuel = .ok outcome →
    outcome.value = 1 → outcome.files.files (fs.resolve destFile) =
      some ((if .append ∈ o.destMode then (fs.file destFile).getD [] else []) ++ range o s)

/-- There is no end, or the offset in the destination meets it where the range ends. -/
def MeetsEnd (o : Variables) (sourceSize destSize : Nat) : Prop :=
  o.evalue = -1 ∨
  if .append ∈ o.destMode then
    o.evalue = 0 ∨
    sourceSize ≤ o.evalue ∧
      (o.evalue ≤ destSize ∨ destSize + (sourceSize - o.bvalue.toNat : Nat) ≤ o.evalue) ∨
    o.evalue < sourceSize ∧ destSize = o.bvalue ∧ o.bvalue < o.evalue
  else o.bvalue = 0 ∨ sourceSize ≤ o.evalue

/-- How many bytes are copied. -/
def copiedSize (o : Variables) (sourceSize destSize : Nat) : Nat :=
  let left := sourceSize - o.bvalue.toNat
  if .append ∈ o.destMode then appendAmount o.evalue destSize left else amount o.evalue 0 left

theorem copied_range_iff (start : 0 ≤ o.bvalue) (ends : o.evalue = -1 ∨ o.bvalue ≤ o.evalue) (size : Nat) :
    (s.drop o.bvalue.toNat).take (copiedSize o s.length size) = range o s ↔
      MeetsEnd o s.length size := by
  have cut : range o s = (s.drop o.bvalue.toNat).take
      (if o.evalue = -1 then s.length - o.bvalue.toNat else (o.evalue - o.bvalue).toNat) := by
    rw [range]
    split
    · rw [List.take_of_length_le (by simp)]
    · rw [List.drop_take]
      congr 1
      omega
  rw [cut, List.take_eq_take_iff, List.length_drop, MeetsEnd, copiedSize]
  by_cases appends : OpenFlag.append ∈ o.destMode
  · simp only [appends, if_true, appendAmount, amount]
    split_ifs <;> omega
  · simp only [appends, if_false, amount]
    split_ifs <;> omega

/-! ## Calls -/

/-- A call that is to copy one file that exists into another. -/
structure Copying (fs : Files Place) (argv : List (List Byte)) (o : Variables)
    (srcFile destFile s : List Byte) : Prop where
  accepts : Accepts argv o
  source : o.srcFile = some srcFile
  named : o.destFile = some destFile
  there : fs.file srcFile = some s
  apart : fs.resolve srcFile ≠ fs.resolve destFile

/-- What the two calls of `open` leave. -/
theorem opened_files {fs₁ fs₂ : Files Place} {srcFd destFd : Descriptor Place} {works works' : Bool}
    (accepts : Accepts argv o) (there : fs.file srcFile = some s)
    (source : tryOpen fs srcFile (.creat :: o.srcMode) works = some (fs₁, srcFd))
    (dest : tryOpen fs₁ destFile (.creat :: .wronly :: o.destMode) works' = some (fs₂, destFd)) :
    srcFd.place = fs.resolve srcFile ∧
      destFd = ⟨fs.resolve destFile, 0, .append ∈ o.destMode⟩ ∧
      fs₂.files (fs.resolve destFile) =
        some (if .append ∈ o.destMode then (fs.file destFile).getD [] else []) ∧
      ∀ place, place ≠ fs.resolve destFile → fs₂.files place = fs.files place := by
  obtain ⟨-, -, final⟩ := readArguments_ok_iff.mp accepts
  have kept := source_kept (by simp [there]) final source
  obtain ⟨rfl, resolve, -⟩ := tryOpen_spec source
  obtain ⟨rfl, -, others, here⟩ := tryOpen_spec dest
  rw [resolve, kept] at here
  rw [resolve, kept] at others
  refine ⟨rfl, by simp [resolve], ?_, others⟩
  rw [here]
  rcases destMode_final (options argv) with mode | mode <;> simp [final, mode, FileSystem.file]

/-- What a call that returns 1 has added to the destination. -/
theorem copied_of_success (copying : Copying fs argv o srcFile destFile s) (tells : Tells answers.rounds)
    (called : execCcp fs argv answers fuel = .ok outcome) (success : outcome.value = 1) :
    outcome.files.files (fs.resolve destFile) =
      some ((if .append ∈ o.destMode then (fs.file destFile).getD [] else []) ++
        (s.drop o.bvalue.toNat).take
          (copiedSize o s.length ((fs.file destFile).getD []).length)) := by
  obtain ⟨accepts, source, named, there, apart⟩ := copying
  have went := course fs answers fuel source named
  have called : openAndCopy fs o answers fuel = .ok outcome := by
    rw [Accepts] at accepts
    simpa only [execCcp, accepts] using called
  rw [called] at went
  generalize result : Except.ok outcome = whole at went
  cases went with
  | noSource => cases result; cases success
  | noStart => cases result; cases success
  | noDest => cases result; cases success
  | copies fs₁ fs₂ srcFd destFd opened seeks opened' =>
    obtain ⟨⟨fs₃, ccpR⟩, copied, rfl⟩ := map_eq_ok_iff.mp result.symm
    obtain ⟨place, rfl, here, others⟩ := opened_files accepts there opened opened'
    have there : fs₂.files srcFd.place = some s := by
      rw [place, others _ apart]
      exact there
    have apart : srcFd.place ≠ fs.resolve destFile := by rwa [place]
    obtain rfl : ccpR = 0 := by
      by_contra failed
      simp [finish, failed, giveUp, EXEC_ERROR] at success
    rw [finish_files]
    by_cases appends : OpenFlag.append ∈ o.destMode
    · simp only [appends, if_true, copiedSize] at here ⊢
      exact ccp_appends copied tells there here apart (by simp [appends]) rfl
    · simp only [appends, if_false, copiedSize] at here ⊢
      exact ccp_copies copied tells there here apart rfl

/-- With `O_EXCL` a source that exists is not opened. -/
theorem exclusive_closed {works : Bool} (there : fs.file srcFile = some s) (exclusive : .excl ∈ o.srcMode) :
    tryOpen fs srcFile (.creat :: o.srcMode) works = none := by
  have closed : ¬ (fs.openFile srcFile (.creat :: o.srcMode)).isSome := by
    rw [FileSystem.openFile_isSome, there]
    simp [exclusive]
  rw [tryOpen]
  split
  · simpa using closed
  · rfl

theorem exclusive_fails (copying : Copying fs argv o srcFile destFile s) (exclusive : .excl ∈ o.srcMode)
    (called : execCcp fs argv answers fuel = .ok outcome) : outcome.value ≠ 1 := by
  obtain ⟨accepts, source, named, there, -⟩ := copying
  rw [Accepts] at accepts
  simp only [execCcp, accepts, openAndCopy, source, exclusive_closed there exclusive, Except.ok.injEq] at called
  rw [← called]
  exact (by decide : EXEC_ERROR ≠ 1)

/-- When every call works, a loop that ends has copied. -/
theorem granted_copies (works : ∀ n, rounds n = ⟨true, true, true⟩)
    (ends : ccp fs src dest max rounds fuel ≠ .error .endless) :
    ∃ fs', ccp fs src dest max rounds fuel = .ok (fs', 0) := by
  fun_induction ccp fs src dest max rounds fuel with
  | case1 => exact absurd rfl ends
  | case2 fs src dest rounds fuel goes fails => simp [works 0] at fails
  | case3 fs => exact ⟨fs, rfl⟩
  | case4 fs src dest rounds fuel goes reads buffer src' found fails => simp [works 0] at fails
  | case5 fs src dest rounds fuel goes reads buffer src' found writes ih =>
    exact ih (fun n => works (n + 1)) ends
  | case6 fs => exact ⟨fs, rfl⟩

theorem start_of_accepts (accepts : Accepts argv o) : 0 ≤ o.bvalue := by
  obtain ⟨-, accepted, rfl⟩ := readArguments_ok_iff.mp accepts
  exact start_nonneg accepted

/-- **The range is copied, if nothing is copied at all or the offset in the destination
meets its end.** -/
theorem copies_range_iff (copying : Copying fs argv o srcFile destFile s)
    (ends : o.evalue = -1 ∨ o.bvalue ≤ o.evalue) :
    CopiesRange fs argv o s destFile ↔
      .excl ∈ o.srcMode ∨ MeetsEnd o s.length ((fs.file destFile).getD []).length := by
  have start := start_of_accepts copying.accepts
  constructor
  · intro copies
    by_contra neither
    obtain ⟨shared, misses⟩ := not_or.mp neither
    obtain ⟨fs₁, fs₂, srcFd, destFd, opened, opened', called⟩ :=
      granted_course fs copying.accepts copying.source copying.named fun _ => shared
    obtain ⟨place, rfl, -, others⟩ := opened_files copying.accepts copying.there opened opened'
    have there : fs₂.files srcFd.place = some s := by
      rw [place, others _ copying.apart]
      exact copying.there
    have apart : srcFd.place ≠ fs.resolve destFile := place ▸ copying.apart
    have enough : s.length - o.bvalue.toNat < s.length + 1 := by omega
    have ends' : ccp fs₂ { srcFd with offset := o.bvalue.toNat }
        ⟨fs.resolve destFile, 0, .append ∈ o.destMode⟩ o.evalue Answers.granted.rounds (s.length + 1) ≠
          .error .endless := ends_apart there apart enough
    obtain ⟨fs₃, copied⟩ := granted_copies granted_works ends'
    have called := called (s.length + 1)
    rw [copied] at called
    have right := copies _ _ _ (fun _ => rfl) called rfl
    rw [copied_of_success copying (fun _ => rfl) called rfl] at right
    exact misses ((copied_range_iff start ends _).mp
      (List.append_cancel_left (Option.some.inj right)))
  · intro condition answers fuel outcome tells called success
    have meets := condition.resolve_left fun exclusive =>
      exclusive_fails copying exclusive called success
    rw [copied_of_success copying tells called success, (copied_range_iff start ends _).mpr meets]

/-- The range from 2 to 4 of a source. -/
def middleCopy : List (List Byte) := ["ccp", "-f", "s", "-d", "t", "-b", "2", "-e", "4"].map bytes

def middle : Variables := ⟨some (bytes "s"), some (bytes "t"), [], [.trunc], 2, 4⟩

theorem copying_middle (s : List Byte) :
    Copying (onlyFile (bytes "s") s) middleCopy middle (bytes "s") (bytes "t") s where
  accepts := by rw [Accepts]; decide +kernel
  source := rfl
  named := rfl
  there := onlyFile_file ..
  apart := by
    have apart : bytes "s" ≠ bytes "t" := by decide +kernel
    exact apart

/-- The source ends where the range does. -/
theorem copies_range_iff_whole_rest :
    CopiesRange (onlyFile (bytes "s") (bytes "abcd")) middleCopy middle (bytes "abcd") (bytes "t") :=
  (copies_range_iff (copying_middle (bytes "abcd")) (by decide)).mpr
    (.inr (.inr (.inr (by decide +kernel))))

/-- Four bytes are copied and not two, as the loop stops at offset 4 in the destination. -/
theorem offset_counts_from_destination :
    ¬ CopiesRange (onlyFile (bytes "s") (bytes "abcdef")) middleCopy middle (bytes "abcdef") (bytes "t") := by
  intro copies
  have ran : (execCcp (onlyFile (bytes "s") (bytes "abcdef")) middleCopy .granted 5).toOption.map
      (fun outcome => (outcome.value, outcome.files.files (bytes "t"))) =
        some (1, some (bytes "cdef")) := by
    decide +kernel
  cases called : execCcp (onlyFile (bytes "s") (bytes "abcdef")) middleCopy .granted 5 with
  | error fault => simp [called, Except.toOption] at ran
  | ok outcome =>
    simp only [called, Except.toOption, Option.map_some, Option.some.injEq, Prod.mk.injEq] at ran
    have right := copies _ _ _ (fun _ => rfl) called ran.1
    rw [show (onlyFile (bytes "s") (bytes "abcdef")).resolve (bytes "t") = bytes "t" from rfl, ran.2] at right
    revert right
    decide +kernel

/-! ## The end of a call -/

/-- Whatever calls fail, the call comes to its end. -/
def Ends (fs : Files Place) (argv : List (List Byte)) : Prop :=
  ∀ answers, Tells answers.rounds → ∃ fuel, execCcp fs argv answers fuel ≠ .error .endless

/-- A file is to be appended to itself, with a byte to read and no end behind it. -/
structure AppendsToItself (fs : Files Place) (argv : List (List Byte)) (o : Variables)
    (srcFile destFile s : List Byte) : Prop where
  accepts : Accepts argv o
  source : o.srcFile = some srcFile
  named : o.destFile = some destFile
  shared : .excl ∉ o.srcMode
  append : .append ∈ o.destMode
  same : fs.resolve srcFile = fs.resolve destFile
  there : fs.file srcFile = some s
  ahead : o.bvalue < s.length
  noEnd : o.evalue = -1 ∨ 0 < o.evalue ∧ o.evalue ≤ s.length

theorem endless_of_appends (appends : AppendsToItself fs argv o srcFile destFile s) (fuel : Nat) :
    execCcp fs argv .granted fuel = .error .endless := by
  obtain ⟨fs₁, fs₂, srcFd, destFd, opened, opened', called⟩ :=
    granted_course fs appends.accepts appends.source appends.named fun _ => appends.shared
  obtain ⟨place, rfl, here, -⟩ := opened_files appends.accepts appends.there opened opened'
  have start := start_of_accepts appends.accepts
  have content : (fs.file destFile).getD [] = s := by
    have there : fs.files (fs.resolve srcFile) = some s := appends.there
    rw [FileSystem.file, ← appends.same, there]
    rfl
  rw [if_pos appends.append, content] at here
  have ahead := appends.ahead
  have noEnd := appends.noEnd
  have chases : Chases fs₂ { srcFd with offset := o.bvalue.toNat }
      ⟨fs.resolve destFile, 0, .append ∈ o.destMode⟩ o.evalue := by
    refine ⟨place.trans appends.same, by simp [appends.append], s, here, ?_, ?_⟩
    · simp only
      omega
    · simp only
      omega
  rw [called, endless_of_chases chases granted_works]
  rfl

theorem ends_opened {fs₁ fs₂ : Files Place} {srcFd destFd : Descriptor Place} {works works' : Bool}
    (never : ¬ ∃ o srcFile destFile s, AppendsToItself fs argv o srcFile destFile s)
    (accepts : Accepts argv o) (source : o.srcFile = some srcFile) (named : o.destFile = some destFile)
    (tells : Tells rounds)
    (opened : tryOpen fs srcFile (.creat :: o.srcMode) works = some (fs₁, srcFd))
    (opened' : tryOpen fs₁ destFile (.creat :: .wronly :: o.destMode) works' = some (fs₂, destFd)) :
    ccp fs₂ { srcFd with offset := o.bvalue.toNat } destFd o.evalue rounds
      (((fs.file srcFile).getD []).length + o.evalue.toNat + 1) ≠ .error .endless := by
  cases there : fs.file srcFile with
  | none => exact ends_at_once (created_empty there opened opened' _)
  | some s =>
    obtain ⟨place, rfl, here, others⟩ := opened_files accepts there opened opened'
    rw [Option.getD_some]
    by_cases apart : fs.resolve srcFile = fs.resolve destFile
    · have content : fs.file destFile = some s := by rw [FileSystem.file, ← apart]; exact there
      rw [content, Option.getD_some] at here
      have reads : fs₂.files srcFd.place = some (if .append ∈ o.destMode then s else []) := by
        rw [place, apart, here]
      by_cases append : OpenFlag.append ∈ o.destMode
      · rw [if_pos append] at here reads
        by_cases ahead : o.bvalue.toNat < s.length
        · have shared : OpenFlag.excl ∉ o.srcMode := by
            intro exclusive
            rw [exclusive_closed there exclusive] at opened
            cases opened
          have stops : ¬ (o.evalue = -1 ∨ 0 < o.evalue ∧ o.evalue ≤ s.length) := by
            intro noEnd
            exact never ⟨o, srcFile, destFile, s, accepts, source, named, shared, append, apart, there,
              by omega, noEnd⟩
          obtain ⟨-, accepted, final⟩ := readArguments_ok_iff.mp accepts
          have ends := end_nonneg accepted
          rw [← final] at ends
          exact ends_from_start tells here (by simp [append]) rfl (by omega) (by omega)
        · apply ends_at_once
          exact read_at_end reads (not_lt.mp ahead)
      · -- the truncation has left nothing to read
        rw [if_neg append] at reads
        apply ends_at_once
        exact read_at_end reads (Nat.zero_le _)
    · exact ends_apart (by rw [place, others _ apart]; exact there) (by simpa [place] using apart)
        (by simp only; omega)

/-- **The copy comes to its end, unless a file is appended to itself with nothing to stop it.**
All files are regular ones: `/dev/zero` has no end. -/
theorem copy_ends_iff (fs : Files Place) (argv : List (List Byte)) :
    Ends fs argv ↔ ¬ ∃ o srcFile destFile s, AppendsToItself fs argv o srcFile destFile s := by
  constructor
  · rintro ends ⟨o, srcFile, destFile, s, appends⟩
    obtain ⟨fuel, ended⟩ := ends .granted fun _ => rfl
    exact ended (endless_of_appends appends fuel)
  · intro never answers tells
    cases read : readArguments argv with
    | error complaint => exact ⟨0, by simp [execCcp, read]⟩
    | ok o =>
      simp only [execCcp, read]
      cases source : o.srcFile with
      | none => exact ⟨0, by simp [openAndCopy, source]⟩
      | some srcFile =>
        cases named : o.destFile with
        | none => exact ⟨0, by simp only [openAndCopy, source, named]; split <;> simp; split <;> simp⟩
        | some destFile =>
          let fuel := ((fs.file srcFile).getD []).length + o.evalue.toNat + 1
          have went := course fs answers fuel source named
          refine ⟨fuel, fun endless => ?_⟩
          rw [endless] at went
          generalize result : Except.error Fault.endless = whole at went
          cases went with
          | noSource => cases result
          | noStart => cases result
          | noDest => cases result
          | copies fs₁ fs₂ srcFd destFd opened seeks opened' =>
            exact ends_opened never read source named tells opened opened'
              (map_eq_error_iff.mp result.symm)

/-- `s` is appended to itself. -/
def selfCopy : List (List Byte) := ["ccp", "-f", "s", "-d", "s", "-a"].map bytes

theorem file_chases_itself : ¬ Ends (onlyFile (bytes "s") (bytes "x")) selfCopy := by
  intro ends
  obtain ⟨fuel, ended⟩ := ends .granted fun _ => rfl
  have accepts : Accepts selfCopy ⟨some (bytes "s"), some (bytes "s"), [], [.append], 0, -1⟩ := by
    rw [Accepts]
    decide +kernel
  exact ended (endless_of_appends ⟨accepts, rfl, rfl, by simp, by simp, rfl, onlyFile_file ..,
    by decide +kernel, .inl rfl⟩ fuel)

end LocalServer.Ccp
