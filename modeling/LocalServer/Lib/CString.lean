import Mathlib

/-! C strings and the arrays of `char` they are kept in. A string is the bytes
before its terminating NUL; an array has a fixed size that no operation here
changes, so a copy that would leave the array cannot be written down. -/
namespace LocalServer

abbrev Byte := UInt8

/-- The bytes of a literal, without the terminator the compiler adds. -/
def bytes (literal : String) : List Byte := literal.toUTF8.data.toList

/-- The largest size of a C object, `PTRDIFF_MAX`. -/
def OBJECT_MAX : Nat := 2 ^ 63 - 1

/-- A C string: no NUL before its end, and an object that holds it exists. -/
structure CString where
  bytes : List Byte
  noNul : 0 ∉ bytes
  fits : bytes.length < OBJECT_MAX
  deriving DecidableEq

/-- The string with these bytes, if there can be one. -/
def CString.of (bytes : List Byte) : Option CString :=
  if h : 0 ∉ bytes ∧ bytes.length < OBJECT_MAX then some ⟨bytes, h.1, h.2⟩ else none

/-- The string that starts at the first of these bytes. -/
def cstr (memory : List Byte) : List Byte := memory.takeWhile (· ≠ 0)

theorem zero_not_mem_cstr (memory : List Byte) : (0 : Byte) ∉ cstr memory := by
  intro member
  simpa using List.mem_takeWhile_imp member

theorem cstr_length_le (memory : List Byte) : (cstr memory).length ≤ memory.length :=
  (List.takeWhile_prefix _).length_le

theorem cstr_eq_self {memory : List Byte} (noNul : 0 ∉ memory) : cstr memory = memory := by
  refine List.takeWhile_eq_self_iff.mpr fun byte member => ?_
  simpa using ne_of_mem_of_not_mem member noNul

/-- A string followed by its terminator reads back as itself. -/
theorem cstr_append_zero {string : List Byte} (noNul : 0 ∉ string) (rest : List Byte) :
    cstr (string ++ 0 :: rest) = string := by
  have kept : ∀ byte ∈ string, decide (byte ≠ 0) = true :=
    fun byte member => by simpa using ne_of_mem_of_not_mem member noNul
  rw [cstr, List.takeWhile_append_of_pos kept]
  simp

/-- `strncpy(dst, src, n)`: at most `n` bytes of the string, then zeros up to `n`. -/
def strncpy (dst src : List Byte) (n : Nat) : List Byte :=
  (cstr src).take n ++ List.replicate (n - (cstr src).length) 0 ++ dst.drop n

theorem strncpy_length (dst src : List Byte) {n : Nat} (room : n ≤ dst.length) :
    (strncpy dst src n).length = dst.length := by
  simp only [strncpy, List.length_append, List.length_take, List.length_replicate,
    List.length_drop]
  omega

/-- An array of `size` chars. -/
structure CharArray (size : Nat) where
  bytes : List Byte
  length_eq : bytes.length = size
  deriving DecidableEq

namespace CharArray

variable {size : Nat}

/-- `char a[size] = ""`: every byte is zero. -/
def empty (size : Nat) : CharArray size := ⟨List.replicate size 0, by simp⟩

/-- `strncpy` into an array that has the room for it. -/
def strncpy (dst : CharArray size) (src : List Byte) (n : Nat) (room : n ≤ size) :
    CharArray size :=
  ⟨LocalServer.strncpy dst.bytes src n, by
    rw [strncpy_length _ _ (by rw [dst.length_eq]; exact room), dst.length_eq]⟩

/-- The string an array holds. -/
def string (array : CharArray size) : List Byte := cstr array.bytes

/-- An empty array filled by `strncpy` with one byte to spare holds the string
cut to the `n` bytes asked for. -/
theorem string_strncpy_empty (src : List Byte) {n : Nat} (room : n + 1 ≤ size) :
    ((empty size).strncpy src n (by omega)).string = (cstr src).take n := by
  have noNul : (0 : Byte) ∉ (cstr src).take n :=
    fun member => zero_not_mem_cstr src (List.mem_of_mem_take member)
  have padding : List.replicate (n - (cstr src).length) (0 : Byte) ++
      List.replicate (size - n) 0 = 0 :: List.replicate (n - (cstr src).length + (size - n) - 1) 0 := by
    rw [List.replicate_append_replicate, ← List.replicate_succ]
    congr 1
    omega
  simp only [string, strncpy, LocalServer.strncpy, empty, List.drop_replicate,
    List.append_assoc, padding]
  exact cstr_append_zero noNul _

/-- `strncpy` over the whole of an array replaces the string in it. -/
theorem string_strncpy_all (dst : CharArray size) (src : List Byte) (fits : src.length ≤ size) :
    (dst.strncpy src size (Nat.le_refl _)).string = cstr src := by
  have short := (cstr_length_le src).trans fits
  have noNul : (0 : Byte) ∉ (cstr src).take size :=
    fun member => zero_not_mem_cstr src (List.mem_of_mem_take member)
  simp only [string, strncpy, LocalServer.strncpy, List.drop_of_length_le dst.length_eq.le,
    List.append_nil]
  rw [List.take_of_length_le short] at noNul ⊢
  cases size - (cstr src).length with
  | zero => simpa using cstr_eq_self noNul
  | succ padding => rw [List.replicate_succ, cstr_append_zero noNul]

end CharArray

end LocalServer
