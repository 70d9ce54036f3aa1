/-
# Blocks of bytes

A disk sector, a bitmap page and an on-disk structure are all a fixed number of bytes that
different code reads in different ways: as raw bytes, as a window into which some bytes are
copied, or as an array of 32-bit words.  This file fixes the three readings.

* `byte`, `slice` and `splice`: single bytes, a window read out, a window overwritten.
* `word` and `ofWords`: the big-endian words of a block, and the block with given words.
  `word_ofWords` is the round trip; it is exact up to the word size, as a C store is.
-/
import Mathlib.Data.BitVec

namespace Os161

open List

/-- One byte. -/
abbrev Byte := BitVec 8

instance : LawfulBEq Byte := inferInstance

/-- A block of `n` bytes. -/
abbrev Bytes (n : Nat) := Fin n → Byte

namespace Bytes

variable {n : Nat}

/-! ## 1. Windows -/

/-- The byte at position `i`; zero past the end. -/
def byte (b : Bytes n) (i : Nat) : Byte := if h : i < n then b ⟨i, h⟩ else 0

/-- The `len` bytes from position `skip` on. -/
def slice (b : Bytes n) (skip len : Nat) : List Byte :=
  (List.range len).map fun k => b.byte (skip + k)

/-- The block with the bytes from position `skip` on overwritten by `data`. -/
def splice (b : Bytes n) (skip : Nat) (data : List Byte) : Bytes n := fun i =>
  if skip ≤ i.val then (data[i.val - skip]?).getD (b i) else b i

/-- The block that holds the given list, padded with zeros or cut. -/
def ofList (l : List Byte) : Bytes n := fun i => (l[i.val]?).getD 0

/-- All bytes of a block. -/
def toList (b : Bytes n) : List Byte := b.slice 0 n

variable {b : Bytes n} {i skip k : Nat} {data : List Byte} {w : Nat → Nat}

theorem byte_of_lt (h : i < n) : b.byte i = b ⟨i, h⟩ := dif_pos h

@[simp] theorem byte_fin (b : Bytes n) (i : Fin n) : b.byte i.val = b i := byte_of_lt i.isLt

@[simp] theorem byte_zero (i : Nat) : byte (0 : Bytes n) i = 0 := by
  unfold byte
  split <;> rfl

@[simp] theorem length_slice (b : Bytes n) (skip len : Nat) : (b.slice skip len).length = len := by
  simp [slice]

theorem getElem?_slice {len : Nat} (h : k < len) :
    (b.slice skip len)[k]? = some (b.byte (skip + k)) := by
  simp [slice, h]

@[simp] theorem length_toList (b : Bytes n) : b.toList.length = n := length_slice _ _ _

/-- A byte of a spliced block: the new one inside the window, the old one outside. -/
theorem byte_splice (hi : i < n) : (b.splice skip data).byte i =
      if skip ≤ i ∧ i < skip + data.length then (data[i - skip]?).getD 0 else b.byte i := by
  rw [byte_of_lt hi, byte_of_lt hi, splice]
  by_cases h1 : skip ≤ i
  · rw [if_pos h1]
    by_cases h2 : i < skip + data.length
    · have h3 : i - skip < data.length := by omega
      rw [if_pos ⟨h1, h2⟩, getElem?_eq_getElem h3]
      rfl
    · have h3 : data.length ≤ i - skip := by omega
      rw [if_neg (fun h => h2 h.2), getElem?_eq_none h3]
      rfl
  · rw [if_neg h1, if_neg (fun h => h1 h.1)]

@[simp] theorem ofList_toList (b : Bytes n) : ofList b.toList = b := by
  funext i
  rw [ofList, toList, getElem?_slice i.isLt, Nat.zero_add, byte_fin]
  rfl

theorem toList_ofList {l : List Byte} (h : l.length ≤ n) :
    (ofList l : Bytes n).toList = l ++ replicate (n - l.length) 0 := by
  refine ext_getElem (by simp [h]) fun k hk _ => ?_
  have hk' : k < n := by simpa using hk
  simp only [toList, slice, getElem_map, getElem_range, Nat.zero_add, byte_of_lt hk',
    ofList]
  by_cases hkl : k < l.length
  · rw [getElem_append_left hkl, getElem?_eq_getElem hkl, Option.getD_some]
  · rw [getElem_append_right (Nat.le_of_not_lt hkl), getElem_replicate,
      getElem?_eq_none (Nat.le_of_not_lt hkl), Option.getD_none]

theorem splice_all (h : data.length = n) : b.splice 0 data = ofList data := by
  funext i
  have hi : i.val < data.length := h ▸ i.isLt
  simp [splice, ofList, getElem?_eq_getElem hi]

theorem splice_slice (b : Bytes n) (skip len : Nat) : b.splice skip (b.slice skip len) = b := by
  refine funext fun i => ?_
  unfold splice
  by_cases h1 : skip ≤ i.val
  · rw [if_pos h1]
    by_cases h2 : i.val - skip < len
    · rw [getElem?_slice h2, Nat.add_sub_cancel' h1, byte_fin]
      rfl
    · rw [getElem?_eq_none (by rw [length_slice]; omega)]
      rfl
  · rw [if_neg h1]

/-! ## 2. Big-endian words -/

/-- The `k`-th 32-bit word. -/
def word (b : Bytes n) (k : Nat) : Nat :=
  (b.byte (4 * k)).toNat * 16777216 + (b.byte (4 * k + 1)).toNat * 65536
    + (b.byte (4 * k + 2)).toNat * 256 + (b.byte (4 * k + 3)).toNat

/-- The block with the given words. -/
def ofWords (w : Nat → Nat) : Bytes n := fun i =>
  BitVec.ofNat 8 (w (i.val / 4) / 256 ^ (3 - i.val % 4))

@[simp] theorem word_zero (k : Nat) : word (0 : Bytes n) k = 0 := by simp [word]

theorem word_lt (b : Bytes n) (k : Nat) : b.word k < 4294967296 := by
  unfold word
  omega

theorem byte_ofWords {j : Nat} (hj : j < 4) (h : 4 * k + j < n) :
    ((ofWords w : Bytes n).byte (4 * k + j)).toNat = w k / 256 ^ (3 - j) % 256 := by
  have h1 : (4 * k + j) / 4 = k := by omega
  have h2 : (4 * k + j) % 4 = j := by omega
  rw [byte_of_lt h]
  simp only [ofWords, h1, h2, BitVec.toNat_ofNat]

/-- **The round trip.**  Storing a word keeps its low 32 bits. -/
theorem word_ofWords (h : 4 * k + 3 < n) : (ofWords w : Bytes n).word k = w k % 4294967296 := by
  have e0 := byte_ofWords (n := n) (w := w) (k := k) (j := 0) (by omega) (by omega)
  have e1 := byte_ofWords (n := n) (w := w) (k := k) (j := 1) (by omega) (by omega)
  have e2 := byte_ofWords (n := n) (w := w) (k := k) (j := 2) (by omega) (by omega)
  have e3 := byte_ofWords (n := n) (w := w) (k := k) (j := 3) (by omega) h
  simp only [Nat.add_zero] at e0
  unfold word
  omega

end Bytes

end Os161
