import Mathlib.Data.List.TakeWhile
import FizzDns.Foundation.Bytes

/-!
# C strings

A C string is the part of a character buffer before its first NUL, so the type
carries the absence of NUL as a field. Comparison folds ASCII case with `tolower`
in the C locale, byte by byte; bytes above 127 are left alone.
-/

namespace FizzDns

/-- `tolower` in the C locale. -/
def tolower (byte : UInt8) : UInt8 :=
  if 65 ≤ byte ∧ byte ≤ 90 then byte + 32 else byte

/-- Lower case has no lower case but itself. -/
@[simp] theorem tolower_tolower (byte : UInt8) : tolower (tolower byte) = tolower byte := by
  unfold tolower
  grind

/-- Only the terminator becomes one. -/
@[simp] theorem tolower_eq_zero (byte : UInt8) : tolower byte = 0 ↔ byte = 0 := by
  unfold tolower
  grind

/-- Only a dot becomes one. -/
@[simp] theorem tolower_eq_dot (byte : UInt8) : tolower byte = 46 ↔ byte = 46 := by
  unfold tolower
  grind

/-- A text with its ASCII letters folded to lower case. -/
def foldCase (text : Bytes) : Bytes :=
  text.map tolower

@[simp] theorem foldCase_nil : foldCase [] = [] := rfl

@[simp] theorem foldCase_cons (head : UInt8) (tail : Bytes) :
    foldCase (head :: tail) = tolower head :: foldCase tail := rfl

/-- Two texts are folded one after the other. -/
@[simp] theorem foldCase_append (left right : Bytes) :
    foldCase (left ++ right) = foldCase left ++ foldCase right :=
  List.map_append

/-- Folding does not change the length. -/
@[simp] theorem length_foldCase (text : Bytes) : (foldCase text).length = text.length :=
  List.length_map _

/-- Folding twice is folding once. -/
@[simp] theorem foldCase_foldCase (text : Bytes) : foldCase (foldCase text) = foldCase text := by
  simp [foldCase, Function.comp_def]

@[simp] theorem foldCase_eq_nil (text : Bytes) : foldCase text = [] ↔ text = [] :=
  List.map_eq_nil_iff

/-- A text is in lower case when each of its characters is. -/
theorem foldCase_eq_self_iff (text : Bytes) :
    foldCase text = text ↔ ∀ byte ∈ text, tolower byte = byte := by
  induction text with
  | nil => simp
  | cons head tail ih => simp [ih]

/-- The characters of a C string: no NUL among them, the terminator not counted. -/
structure CString where
  chars : Bytes
  nulFree : 0 ∉ chars
  deriving DecidableEq

namespace CString

@[ext] theorem ext {left right : CString} (same : left.chars = right.chars) : left = right := by
  cases left
  cases right
  cases same
  rfl

/-- The string with no characters. -/
def empty : CString := ⟨[], by simp⟩

/-- The string a C function sees in a buffer that ends with a NUL after `buffer`:
everything before the first NUL. -/
def ofBuffer (buffer : Bytes) : CString where
  chars := buffer.takeWhile (· ≠ 0)
  nulFree := by
    intro member
    simpa using List.mem_takeWhile_imp member

/-- A buffer without NUL is its own string. -/
theorem ofBuffer_chars_of_nulFree {buffer : Bytes} (clean : 0 ∉ buffer) :
    (ofBuffer buffer).chars = buffer := by
  apply List.takeWhile_eq_self_iff.mpr
  intro byte member
  have : byte ≠ 0 := fun zero => clean (zero ▸ member)
  simpa using this

/-- A string is no longer than the buffer that it is read from. -/
theorem length_ofBuffer_le (buffer : Bytes) : (ofBuffer buffer).chars.length ≤ buffer.length :=
  (List.takeWhile_sublist _).length_le

/-- `snprintf(buffer, size, "%s", text)`: the copy is cut to `size - 1` characters. -/
def snprintf (size : Nat) (text : CString) : CString where
  chars := text.chars.take (size - 1)
  nulFree := fun member => text.nulFree (List.mem_of_mem_take member)

/-- What fits is copied as a whole. -/
@[simp] theorem snprintf_of_fits {size : Nat} {text : CString}
    (fits : text.chars.length ≤ size - 1) : text.snprintf size = text := by
  ext1
  exact List.take_of_length_le fits

/-- What is copied leaves room for the terminator. -/
theorem length_snprintf_le (size : Nat) (text : CString) :
    (text.snprintf size).chars.length ≤ size - 1 := by
  simp only [snprintf, List.length_take]
  omega

end CString

end FizzDns
