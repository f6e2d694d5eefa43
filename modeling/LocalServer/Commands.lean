import LocalServer.Lib.CString

/-! Which commands there are. A command is known by its first word, the words
being separated by spaces. -/
namespace LocalServer.Commands

/-- The byte of a space, which separates the words of a command. -/
def SPACE : Byte := 32

/-- The names behind the `NULL` that stands first in `COMMANDS`. -/
def COMMANDS : List String :=
  ["ls", "ps", "pwd", "rm", "touch", "mkdir", "exit", "help", "info", "ccp", "lsl", "uinfo"]

/-- The first call of `strtok(s, " ")`: the first word, if there is one. -/
def strtok (s : List Byte) : Option (List Byte) :=
  match (s.dropWhile (· = SPACE)).takeWhile (· ≠ SPACE) with
  | [] => none
  | word => some word

/-- The index of a command's first word in `COMMANDS`, or 0. -/
def isCommandAvailable (cmd : List Byte) : Nat :=
  match strtok cmd with
  | none => 0
  | some word =>
    let names := COMMANDS.map bytes
    if word ∈ names then names.idxOf word + 1 else 0

example : isCommandAvailable (bytes "exit now") = 7 := by decide +kernel

end LocalServer.Commands
