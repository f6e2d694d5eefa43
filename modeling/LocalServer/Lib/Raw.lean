import LocalServer.Lib.CString

/-! Arrays of `char` that are not set when they are made. A string is read up to its NUL
and has to be written that far; what is written has to lie inside the array. -/
namespace LocalServer

/-- The bytes of an array, those that were never written being `none`. -/
abbrev Raw := List (Option Byte)

namespace Raw

def uninit (size : Nat) : Raw := List.replicate size none

/-- Bytes are written at the front. -/
def put (array : Raw) (text : List Byte) : Option Raw :=
  if text.length ≤ array.length then some (text.map some ++ array.drop text.length) else none

/-- The string at the front. -/
def string : Raw → Option (List Byte)
  | some c :: array => if c = 0 then some [] else (string array).map (c :: ·)
  | _ => none

/-- `strncpy(array, src, n)`. -/
def strncpy (array : Raw) (src : List Byte) (n : Nat) : Option Raw :=
  put array ((cstr src).take n ++ List.replicate (n - (cstr src).length) 0)

/-- `strcat(array, src)`. -/
def strcat (array : Raw) (src : List Byte) : Option Raw :=
  array.string.bind fun text => put array (text ++ cstr src ++ [0])

variable {array array' : Raw} {text src : List Byte} {size n : Nat}

theorem put_of_le (room : text.length ≤ array.length) :
    put array text = some (text.map some ++ array.drop text.length) := if_pos room

theorem put_length (put : array.put text = some array') : array'.length = array.length := by
  unfold Raw.put at put
  split at put
  · next room =>
    cases put
    rw [List.length_append, List.length_map, List.length_drop]
    omega
  · cases put

/-- A string is read through the bytes before its end. -/
theorem string_append (noNul : 0 ∉ text) (array : Raw) :
    string (text.map some ++ array) = array.string.map (text ++ ·) := by
  induction text with
  | nil => simp
  | cons c text ih =>
    have here : c ≠ 0 := fun same => noNul (same ▸ List.mem_cons_self)
    rw [List.map_cons, List.cons_append, string, if_neg here, ih fun member => noNul (List.mem_cons_of_mem c member),
      Option.map_map]
    rfl

/-- A string that was written with its terminator is read back. -/
theorem string_put (noNul : 0 ∉ text) (rest : List Byte) (put : array.put (text ++ 0 :: rest) = some array') :
    array'.string = some text := by
  unfold Raw.put at put
  split at put
  · cases put
    rw [List.map_append, List.append_assoc, string_append noNul]
    simp [string]
  · cases put

/-- A string and its terminator lie in the array. -/
theorem string_length (read : array.string = some text) : text.length < array.length := by
  induction array generalizing text with
  | nil => cases read
  | cons byte array ih =>
    cases byte with
    | none => cases read
    | some c =>
      rw [string] at read
      split at read
      · cases read
        exact Nat.succ_pos _
      · obtain ⟨rest, held, rfl⟩ := Option.map_eq_some_iff.mp read
        exact Nat.succ_lt_succ (ih held)

/-- A copy that filled its bytes has no terminator. -/
theorem string_strncpy_full (noNul : 0 ∉ src) (full : n ≤ src.length) (copied : (uninit size).strncpy src n = some array') :
    array'.string = none := by
  rw [strncpy, cstr_eq_self noNul, Nat.sub_eq_zero_of_le full, List.replicate_zero, List.append_nil, put] at copied
  split at copied
  · cases copied
    rw [string_append fun member => noNul (List.mem_of_mem_take member), uninit, List.drop_replicate]
    cases size - (src.take n).length <;> rfl
  · cases copied

/-- A copy that is shorter has one. -/
theorem string_strncpy_short (noNul : 0 ∉ src) (short : src.length < n)
    (copied : array.strncpy src n = some array') : array'.string = some src := by
  obtain ⟨k, padding⟩ : ∃ k, n - src.length = k + 1 := ⟨n - src.length - 1, by omega⟩
  rw [strncpy, cstr_eq_self noNul, List.take_of_length_le short.le, padding, List.replicate_succ] at copied
  exact string_put noNul _ copied

end Raw
end LocalServer
