/-
# C strings

The strings that kernel code works on end at their first zero byte.  `CString` is the bytes before
it, so that a string cannot hold a zero, and the functions here are the ones of `string.h` and the
loops over characters that are written out in place.
-/
import Mathlib.Data.List.TakeWhile
import Os161.Lib.Bytes

namespace Os161

open List

/-- A C string: the bytes before its terminating zero. -/
def CString : Type := {s : List Byte // (0 : Byte) ∉ s}

/-- The string in a character array: the bytes before the first zero, if there is one. -/
def cString (l : List Byte) : CString :=
  ⟨l.takeWhile (· ≠ 0), fun h => by simpa using List.mem_takeWhile_imp h⟩

theorem cString_append_zero (a b : List Byte) : cString (a ++ 0 :: b) = cString a := by
  refine Subtype.ext ?_
  induction a with
  | nil => simp [cString]
  | cons c a ih =>
    simp only [cString, cons_append, takeWhile_cons] at ih ⊢
    rw [ih]

theorem cString_append_replicate (s : CString) (k : Nat) :
    cString (s.1 ++ replicate k 0) = s := by
  have hall : ∀ c ∈ s.1, decide (c ≠ 0) = true := fun c hc =>
    decide_eq_true fun h0 => s.2 (h0 ▸ hc)
  refine Subtype.ext (Eq.trans (takeWhile_append_of_pos hall) ?_)
  rw [takeWhile_replicate]
  simp

theorem cString_val (s : CString) : cString s.1 = s := by
  simpa using cString_append_replicate s 0

namespace CString

instance : DecidableEq CString :=
  inferInstanceAs (DecidableEq {s : List Byte // (0 : Byte) ∉ s})

/-- `strlen`. -/
def strlen (s : CString) : Nat := s.1.length

/-- The string cut off before position `n`. -/
def take (n : Nat) (s : CString) : CString := ⟨s.1.take n, fun h => s.2 (List.mem_of_mem_take h)⟩

/-- The string from position `n` on. -/
def drop (n : Nat) (s : CString) : CString := ⟨s.1.drop n, fun h => s.2 (List.mem_of_mem_drop h)⟩

/-- The string without the copies of `c` that it begins with. -/
def skip (c : Byte) (s : CString) : CString :=
  ⟨s.1.dropWhile (· = c), fun h => s.2 ((List.dropWhile_sublist _).mem h)⟩

/-- `strcat`. -/
def append (s t : CString) : CString :=
  ⟨s.1 ++ t.1, fun h => (List.mem_append.mp h).elim s.2 t.2⟩

end CString

end Os161
