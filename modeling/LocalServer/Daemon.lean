import LocalServer.Lib.Descriptors

/-! A server that becomes a daemon. `skeleton_dameon` forks twice and moves the standard
descriptors away, and `main` goes on with what it left, whatever it returned. -/
namespace LocalServer.Daemon
open Descriptors

/-- What a descriptor leads to. -/
inductive File where
  | devNull
  /-- The memory that the server shares with the clients. -/
  | sharedMemory
  | other (n : Nat)
  deriving DecidableEq

/-- A process, with its descriptors, whether it left the session of its parent, whether it
leads one, and whether `umask` was called. -/
structure Process where
  files : Table File
  session : Bool
  leader : Bool
  masked : Bool

/-- How the calls of `skeleton_dameon` end. -/
structure Answers where
  fork : Bool
  setsid : Bool
  forkAgain : Bool
  openOut : Bool
  openErr : Bool
  dupOut : Bool
  dupErr : Bool
  deriving DecidableEq

/-- How the function ends in a process. -/
inductive Ending where
  | exits
  | returns (r : Int)
  deriving DecidableEq

def STDOUT_FILENO : Nat := 1
def STDERR_FILENO : Nat := 2

/-- `open("/dev/null", O_RDWR)`, with the number that it returns, if any. -/
def openNull (limit : Nat) (works : Bool) (files : Table File) : Option Nat × Table File :=
  match works, openFile limit files .devNull with
  | true, some (fd, files) => (some fd, files)
  | _, _ => (none, files)

/-- `dup2(fd, new)`, where `fd` may be -1. -/
def duplicate (limit : Nat) (works : Bool) (files : Table File) (fd : Option Nat) (new : Nat) : Option (Table File) :=
  match works, fd with
  | true, some fd => dup2 limit files fd new
  | _, _ => none

/-- The innermost process. -/
def detach (limit : Nat) (answers : Answers) (process : Process) : Process × Ending :=
  let closed := closeAll limit process.files
  let (myStdout, files) := openNull limit answers.openOut closed
  let (myStderr, files) := openNull limit answers.openErr files
  let process := { process with masked := true, files := files }
  match duplicate limit answers.dupOut files myStdout STDOUT_FILENO with
  | none => (process, .returns (-1))
  | some files =>
    match duplicate limit answers.dupErr files myStderr STDERR_FILENO with
    | none => ({ process with files := files }, .returns (-1))
    | some files => ({ process with files := files }, .returns 1)

/-- `skeleton_dameon`: the processes there are then, the first one in front. -/
def skeletonDameon (limit : Nat) (answers : Answers) (process : Process) : List (Process × Ending) :=
  if ¬ answers.fork then [(process, .returns (-1))]
  else
    let child := { process with leader := false }
    (process, .exits) ::
      if ¬ answers.setsid then [(child, .returns (-1))]
      else
        let leader := { child with session := true, leader := true }
        if ¬ answers.forkAgain then [(leader, .returns (-1))]
        else [(leader, .exits), detach limit answers { leader with leader := false }]

/-- The processes in which `main` goes on, with what it does not look at. -/
def goesOn (processes : List (Process × Ending)) : List (Process × Int) :=
  processes.filterMap fun (process, ending) =>
    match ending with
    | .exits => none
    | .returns r => some (process, r)

/-- `shm_open` in `init_server_queue`. -/
def shmOpen (limit : Nat) (process : Process) : Option (Nat × Table File) :=
  openFile limit process.files .sharedMemory

/-! ## The innermost process -/

/-- No call failed. -/
def Answers.AllWork (answers : Answers) : Prop :=
  answers.fork = true ∧ answers.setsid = true ∧ answers.forkAgain = true ∧ answers.openOut = true ∧
    answers.openErr = true ∧ answers.dupOut = true ∧ answers.dupErr = true

instance (answers : Answers) : Decidable answers.AllWork := inferInstanceAs (Decidable (_ ∧ _))

/-- The calls that make the processes worked. -/
def Answers.Apart (answers : Answers) : Prop :=
  answers.fork = true ∧ answers.setsid = true ∧ answers.forkAgain = true

instance (answers : Answers) : Decidable answers.Apart := inferInstanceAs (Decidable (_ ∧ _))

variable {limit n : Nat} {answers : Answers} {process : Process}

theorem openNull_firsts (room : n < limit) (works : Bool) :
    openNull limit works (firsts .devNull n) =
      if works then (some n, firsts .devNull (n + 1)) else (none, firsts .devNull n) := by
  cases works with
  | false => rfl
  | true => simp only [openNull, openFile_firsts room, update_firsts, if_true]

/-- The descriptors that are open afterwards are the first ones and lead to `/dev/null`;
they are three exactly if nothing failed. -/
theorem detach_firsts (room : 3 < limit) (inside : ∀ fd, limit ≤ fd → process.files fd = none) :
    ∃ n r, n ≤ 3 ∧ detach limit answers process =
        ({ process with masked := true, files := firsts .devNull n }, .returns r) ∧
      (r = 1 ↔ n = 3) ∧
      (r = 1 ↔ answers.openOut = true ∧ answers.openErr = true ∧ answers.dupOut = true ∧ answers.dupErr = true) := by
  have closed : closeAll limit process.files = firsts .devNull 0 := closeAll_eq inside
  have first := openNull_firsts (show 0 < limit by omega) answers.openOut
  have second := openNull_firsts (show 1 < limit by omega) answers.openErr
  have onlyErr := openNull_firsts (show 0 < limit by omega) answers.openErr
  have toOut : ∀ n, 1 ≤ n → n ≤ 2 → dup2 limit (firsts File.devNull n) 0 STDOUT_FILENO = some (firsts .devNull 2) := by
    intro n low high
    rw [dup2_firsts low (show STDOUT_FILENO ≤ n from low) (show 1 < limit by omega)]
    rw [show max n (STDOUT_FILENO + 1) = 2 from Nat.max_eq_right high]
  have toErr : dup2 limit (firsts File.devNull 2) 1 STDERR_FILENO = some (firsts .devNull 3) :=
    dup2_firsts (by decide) (by decide) (show 2 < limit by omega)
  cases out : answers.openOut with
  | false =>
    -- `dup2` gets -1, and the next file will be standard output
    rw [out, if_neg nofun] at first
    cases err : answers.openErr with
    | false =>
      refine ⟨0, -1, by decide, ?_, by decide, by simp⟩
      cases dup : answers.dupOut <;> simp only [detach, closed, out, err, openNull, dup, duplicate]
    | true =>
      rw [err, if_pos rfl] at onlyErr
      refine ⟨1, -1, by decide, ?_, by decide, by simp⟩
      cases dup : answers.dupOut <;> simp only [detach, closed, out, first, err, onlyErr, dup, duplicate]
  | true =>
    rw [out, if_pos rfl] at first
    cases dup : answers.dupOut with
    | false =>
      cases err : answers.openErr with
      | false =>
        rw [err, if_neg nofun] at second
        refine ⟨1, -1, by decide, ?_, by decide, by simp⟩
        simp only [detach, closed, out, first, err, second, dup, duplicate]
      | true =>
        rw [err, if_pos rfl] at second
        refine ⟨2, -1, by decide, ?_, by decide, by simp⟩
        simp only [detach, closed, out, first, err, second, dup, duplicate]
    | true =>
      cases err : answers.openErr with
      | false =>
        rw [err, if_neg nofun] at second
        refine ⟨2, -1, by decide, ?_, by decide, by simp⟩
        cases dup' : answers.dupErr <;>
          simp only [detach, closed, out, first, err, second, dup, dup', duplicate, toOut 1 (by decide) (by decide)]
      | true =>
        rw [err, if_pos rfl] at second
        cases dup' : answers.dupErr with
        | false =>
          refine ⟨2, -1, by decide, ?_, by decide, by simp⟩
          simp only [detach, closed, out, first, err, second, dup, dup', duplicate, toOut 2 (by decide) (by decide)]
        | true =>
          refine ⟨3, 1, by decide, ?_, by decide, by simp⟩
          simp only [detach, closed, out, first, err, second, dup, dup', duplicate, toOut 2 (by decide) (by decide), toErr]

/-! ## The server -/

/-- **One process goes on, and it has let go of the terminal exactly if no call failed.**
With all open descriptors below the limit, which may have been lowered since: whichever calls
of `skeleton_dameon` fail, `main` goes on in exactly one process. If none fails, its first three descriptors lead to `/dev/null` and it has no other. If the processes
were made and a later call fails, the shared memory becomes one of the standard descriptors. -/
theorem daemon_is_detached_iff (limit : Nat) (answers : Answers) (process : Process) (room : 3 < limit)
    (inside : ∀ fd, limit ≤ fd → process.files fd = none) :
    ∃ server r, goesOn (skeletonDameon limit answers process) = [(server, r)] ∧ (r = 1 ↔ answers.AllWork) ∧
      (r = 1 → server = ⟨firsts .devNull 3, true, false, true⟩) ∧
      (answers.Apart → ∃ n files, shmOpen limit server = some (n, files) ∧ (r = 1 ↔ STDERR_FILENO < n)) := by
  cases fork : answers.fork with
  | false =>
    refine ⟨process, -1, by simp [skeletonDameon, fork, goesOn], ?_, fun same => absurd same (by decide), fun apart => ?_⟩
    · exact iff_of_false (by decide) fun all => Bool.false_ne_true (fork.symm.trans all.1)
    · exact absurd (fork.symm.trans apart.1) Bool.false_ne_true
  | true =>
  cases setsid : answers.setsid with
  | false =>
    refine ⟨{ process with leader := false }, -1, by simp [skeletonDameon, fork, setsid, goesOn], ?_, fun same => absurd same (by decide), fun apart => ?_⟩
    · exact iff_of_false (by decide) fun all => Bool.false_ne_true (setsid.symm.trans all.2.1)
    · exact absurd (setsid.symm.trans apart.2.1) Bool.false_ne_true
  | true =>
  cases again : answers.forkAgain with
  | false =>
    refine ⟨{ process with session := true, leader := true }, -1,
      by simp [skeletonDameon, fork, setsid, again, goesOn], ?_, fun same => absurd same (by decide), fun apart => ?_⟩
    · exact iff_of_false (by decide) fun all => Bool.false_ne_true (again.symm.trans all.2.2.1)
    · exact absurd (again.symm.trans apart.2.2) Bool.false_ne_true
  | true =>
    obtain ⟨n, r, few, ends, three, works⟩ :=
      @detach_firsts limit answers { process with session := true, leader := false } room inside
    refine ⟨⟨firsts .devNull n, true, false, true⟩, r, ?_, ?_, ?_, fun _ => ⟨n, _, openFile_firsts (by omega), ?_⟩⟩
    · simp only [skeletonDameon, fork, setsid, again, not_true_eq_false, if_false, ends]
      rfl
    · simp [works, Answers.AllWork, fork, setsid, again]
    · intro success
      rw [three.mp success]
    · rw [three, STDERR_FILENO]
      omega

/-- `/dev/null` is opened once only. -/
def openedOnce : Answers := ⟨true, true, true, false, true, true, true⟩

theorem daemon_is_detached_iff_once : ∃ server r n files,
    goesOn (skeletonDameon 1024 openedOnce ⟨firsts (.other 0) 3, false, true, false⟩) = [(server, r)] ∧ r ≠ 1 ∧
      shmOpen 1024 server = some (n, files) ∧ n ≤ STDERR_FILENO := by
  obtain ⟨server, r, one, works, -, next⟩ := daemon_is_detached_iff 1024 openedOnce
    ⟨firsts (.other 0) 3, false, true, false⟩ (by decide) fun fd large => firsts_of_le (by omega)
  obtain ⟨n, files, opened, outside⟩ := next (by decide)
  have failed : r ≠ 1 := fun success => absurd (works.mp success) (by decide)
  exact ⟨server, r, n, files, one, failed, opened, Nat.le_of_not_lt fun large => failed (outside.mpr large)⟩

end LocalServer.Daemon
