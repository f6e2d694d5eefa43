import LocalServer.ResponsePipe
import LocalServer.YmlHashMap
import LocalServer.YmlPatterns

/-! The configuration parser: one pass over the text for the integers and one for
the strings, each of which puts what its pattern matches into the hash map. -/
namespace LocalServer.Yml
open LinkedList Regex
open CList (Fault)

def YML_SEM_ERROR : Int := -5
def YML_ALREADY_EXECUTED : Int := -6

def YML_INT_TYPE : Int := 1
def YML_STRING_TYPE : Int := 2

/-! ## Integers -/

def PLUS : Byte := 43

/-- The number that some digits stand for. -/
def magnitude (digits : List Byte) : Nat := digits.foldl (fun n c => 10 * n + (c.toNat - 48)) 0

/-- `strtol` in base 10: the range is that of a `long`. -/
def strtol (s : List Byte) : Int :=
  let clamp (n : Int) : Int := max (-2 ^ 63) (min n (2 ^ 63 - 1))
  match s.dropWhile isSpace with
  | [] => 0
  | c :: rest =>
    if c = MINUS then clamp (-magnitude (rest.takeWhile isDigit))
    else if c = PLUS then clamp (magnitude (rest.takeWhile isDigit))
    else clamp (magnitude ((c :: rest).takeWhile isDigit))

/-- `atoi`: the low half of what `strtol` finds. -/
def atoi (s : List Byte) : Int := (strtol s).bmod (2 ^ 32)

def SIZEOF_INT : Nat := 4

/-- An `int` as it lies in memory. -/
def intBytes (n : Int) : List Byte := ResponsePipe.toBytes SIZEOF_INT (n % 2 ^ 32).toNat

/-- The `int` that lies in some bytes. -/
def bytesInt (memory : List Byte) : Int := (ResponsePipe.ofBytes memory : Int).bmod (2 ^ 32)

/-! ## The passes -/

/-- The hash map, and what the calls of `malloc` will return. -/
structure Memory where
  map : HashMap
  supply : Nat → Blocks

/-- The bytes of a group. -/
def slice (str : List Byte) (capture : Capture) : List Byte :=
  (str.drop capture.so).take (capture.eo - capture.so)

/-- A value without its quotes. -/
def unquoted (quotes : Nat) (v : List Byte) : List Byte := (v.drop quotes).take (v.length - quotes - quotes)

theorem slice_value (front v behind : List Byte) (quotes : Nat) :
    slice (front ++ (v ++ behind))
      ⟨VALUE_GROUP, front.length + quotes, front.length + v.length - quotes⟩ = unquoted quotes v := by
  have length : front.length + v.length - quotes - (front.length + quotes) =
      v.length - quotes - quotes := by omega
  change ((front ++ (v ++ behind)).drop (front.length + quotes)).take
    (front.length + v.length - quotes - (front.length + quotes)) = _
  rw [length, unquoted, List.drop_length_add_append, List.drop_append,
    List.take_append_of_le_length (by rw [List.length_drop]; omega)]

/-- `insert_keys_values`; a group that has no part in a match has no offset. -/
def insertKeysValues (fuel : Nat) (memory : Memory) (str : List Byte) (found : Match) (acc : Int) :
    Except Fault (Memory × Int) :=
  if acc < 0 then .ok (memory, acc)
  else
    match found.group? KEY_GROUP, found.group? VALUE_GROUP with
    | some key, some value =>
      let converted :=
        if acc = YML_INT_TYPE then intBytes (atoi (slice str value)) else slice str value ++ [0]
      match hashmapInsert memory.map (slice str key) converted (memory.supply 0) fuel with
      | .error fault => .error fault
      | .ok (map, r) =>
        .ok (⟨map, fun n => memory.supply (n + 1)⟩, if r < 0 then -1 else acc)
    | _, _ => .error .undefined

/-- The loop of `reg_apply_func`, with the matches it may still make. -/
def applyMatches {C : Type*} (reg : Regex Byte)
    (func : C → List Byte → Match → Int → Except Fault (C × Int)) :
    Nat → List Byte → C → Int → Except Fault (C × Int)
  | 0, _, context, acc => .ok (context, acc)
  | n + 1, cursor, context, acc =>
    match reg.exec cursor with
    | none => .ok (context, acc)
    | some found =>
      match func context cursor found acc with
      | .error fault => .error fault
      | .ok (context, acc) => applyMatches reg func n (cursor.drop found.eo) context acc

/-- `reg_apply_func`, given whether the pattern is compiled. -/
def regApplyFunc {C : Type*} (str : List Byte) (reg : Regex Byte)
    (func : C → List Byte → Match → Int → Except Fault (C × Int)) (context : C) (acc : Int)
    (compiled : Bool) : Except Fault (C × Int) :=
  if compiled then applyMatches reg func (str.length / 3) str context acc else .ok (context, -1)

/-- `struct yml_parser`. -/
structure Parser where
  mutex : Nat
  content : CString
  memory : Memory
  executed : Bool

/-- How the calls of `exec_parser` to the system end: the wait is interrupted, the
patterns are compiled, the post works. -/
structure Answers where
  interrupted : Bool
  intCompiled : Bool
  stringCompiled : Bool
  posted : Bool

/-- `exec_parser`. -/
def execParser (parser : Parser) (answers : Answers) (fuel : Nat) : Except Fault (Parser × Int) :=
  if answers.interrupted then .ok (parser, YML_SEM_ERROR)
  else if parser.mutex = 0 then .error .blocked
  else
    let parser := { parser with mutex := parser.mutex - 1 }
    if parser.executed then .ok (parser, YML_ALREADY_EXECUTED)
    else
      match regApplyFunc parser.content.bytes YML_INT_REGEX (insertKeysValues fuel) parser.memory
          YML_INT_TYPE answers.intCompiled with
      | .error fault => .error fault
      | .ok (memory, r) =>
        if r < 0 then .ok ({ parser with memory := memory }, -1)
        else
          match regApplyFunc parser.content.bytes YML_STRING_REGEX (insertKeysValues fuel) memory
              YML_STRING_TYPE answers.stringCompiled with
          | .error fault => .error fault
          | .ok (memory, r) =>
            if r < 0 then .ok ({ parser with memory := memory }, -1)
            else if answers.posted then
              .ok ({ parser with memory := memory, executed := true, mutex := parser.mutex + 1 }, 1)
            else .ok ({ parser with memory := memory, executed := true }, YML_SEM_ERROR)

end LocalServer.Yml
