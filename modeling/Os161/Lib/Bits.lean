/-
# Arrays of bits kept in words

A set of numbers is often kept as an array of words of `w` bits each: number `i` is bit `i % w` of
word `i / w`.  The code that does so tests, sets and clears a bit by a mask, and looks for a clear
bit in a word that is not full.  Here is that those are membership, insertion and removal.
-/
import Mathlib.Tactic.Common

namespace Os161

open Function

variable {w : Nat} {v : Nat → BitVec w} {x : BitVec w} {i j k : Nat}

/-- Bit `i` of the array. -/
def wordBit (v : Nat → BitVec w) (i : Nat) : Bool := (v (i / w)).getLsbD (i % w)

theorem and_twoPow_ne_zero (hk : k < w) : x &&& BitVec.twoPow w k ≠ 0 ↔ x.getLsbD k = true := by
  rw [BitVec.and_twoPow]
  cases h : x.getLsbD k with
  | false => simp
  | true =>
    simp only [if_true, iff_true]
    intro h0
    have h1 : (BitVec.twoPow w k).getLsbD k = true := by
      rw [BitVec.getLsbD_twoPow]
      simp [hk]
    rw [h0] at h1
    simp at h1

/-- Two numbers with the same word and the same place in it are the same. -/
theorem eq_of_div_mod (hd : i / w = j / w) (hm : i % w = j % w) : i = j := by
  rw [← Nat.div_add_mod i w, ← Nat.div_add_mod j w, hd, hm]

theorem wordBit_set (hw : 0 < w) :
    wordBit (update v (i / w) (v (i / w) ||| BitVec.twoPow w (i % w))) j = true ↔
      j = i ∨ wordBit v j = true := by
  have hmod : i % w < w := Nat.mod_lt _ hw
  unfold wordBit
  by_cases hd : j / w = i / w
  · simp only [hd, update_self, BitVec.getLsbD_or, BitVec.getLsbD_twoPow, Bool.or_eq_true,
      Bool.and_eq_true, decide_eq_true_eq, hmod, true_and]
    constructor
    · rintro (h | h)
      · exact .inr h
      · exact .inl (eq_of_div_mod hd h.symm)
    · rintro (h | h)
      · exact .inr (by rw [h])
      · exact .inl h
  · simp only [update_of_ne hd]
    constructor
    · exact .inr
    · rintro (h | h)
      · exact absurd (congrArg (· / w) h) hd
      · exact h

theorem wordBit_clear (hw : 0 < w) :
    wordBit (update v (i / w) (v (i / w) &&& ~~~ BitVec.twoPow w (i % w))) j = true ↔
      j ≠ i ∧ wordBit v j = true := by
  have hmod : i % w < w := Nat.mod_lt _ hw
  have hmod' : j % w < w := Nat.mod_lt _ hw
  unfold wordBit
  by_cases hd : j / w = i / w
  · simp only [hd, update_self, BitVec.getLsbD_and, BitVec.getLsbD_not,
      BitVec.getLsbD_twoPow, Bool.and_eq_true, Bool.not_eq_true', hmod, hmod', decide_true,
      Bool.true_and, decide_eq_false_iff_not]
    constructor
    · rintro ⟨h1, h2⟩
      exact ⟨fun h => h2 (by rw [h]), h1⟩
    · rintro ⟨h1, h2⟩
      exact ⟨h2, fun h => h1 (eq_of_div_mod hd h.symm)⟩
  · simp only [update_of_ne hd]
    constructor
    · exact fun h => ⟨fun h' => hd (by rw [h']), h⟩
    · exact fun h => h.2

theorem find_clear_bit_of_ne (h : x ≠ BitVec.allOnes w) :
    ∃ k, (List.range w).find? (fun k => decide (x &&& BitVec.twoPow w k = 0)) = some k := by
  cases hf : (List.range w).find? (fun k => decide (x &&& BitVec.twoPow w k = 0)) with
  | some k => exact ⟨k, rfl⟩
  | none =>
    exfalso
    apply h
    apply BitVec.eq_of_getLsbD_eq
    intro k hk
    have := List.find?_eq_none.mp hf k (List.mem_range.mpr hk)
    rw [(and_twoPow_ne_zero hk).mp (by simpa using this), BitVec.getLsbD_allOnes]
    simp [hk]

end Os161
