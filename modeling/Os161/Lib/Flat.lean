/-
# Byte arrays that grow

The contents of a file, seen from outside, are one array of bytes.  It can be overwritten at any
offset, past its end too, and it can be cut or extended to any length; bytes nobody has written
are zero.  These are the two operations here, with the one fact each is used by: what the byte at
a given position is afterwards.
-/
import Os161.Lib.Bytes

namespace Os161

open List

namespace Flat

variable {l l' data : List Byte} {n off k : Nat}

/-- The byte at position `k`; zero past the end. -/
def byteAt (l : List Byte) (k : Nat) : Byte := (l[k]?).getD 0

/-- The array of length `n` with the given bytes. -/
def tabulate (n : Nat) (f : Nat → Byte) : List Byte := (List.range n).map f

/-- The array with `data` written at `off`; it grows as far as that needs. -/
def overwrite (l : List Byte) (off : Nat) (data : List Byte) : List Byte :=
  tabulate (max l.length (off + data.length)) fun k =>
    if off ≤ k ∧ k < off + data.length then byteAt data (k - off) else byteAt l k

/-- The array cut or extended to length `n`. -/
def resize (l : List Byte) (n : Nat) : List Byte := tabulate n (byteAt l)

/-- The `len` bytes from `off` on, as far as there are any. -/
def window (l : List Byte) (off len : Nat) : List Byte := (l.drop off).take len

@[simp] theorem length_tabulate (f : Nat → Byte) : (tabulate n f).length = n := by simp [tabulate]

theorem byteAt_tabulate (f : Nat → Byte) : byteAt (tabulate n f) k = if k < n then f k else 0 := by
  by_cases h : k < n <;> simp [byteAt, tabulate, h]

theorem getElem_eq_byteAt (h : k < l.length) : l[k] = byteAt l k := by
  simp [byteAt, h]

theorem byteAt_take (h : k < n) : byteAt (l.take n) k = byteAt l k := by
  simp [byteAt, h]

theorem byteAt_drop : byteAt (l.drop n) k = byteAt l (n + k) := by
  simp [byteAt]

theorem ext (hlen : l.length = l'.length) (h : ∀ k < l.length, byteAt l k = byteAt l' k) :
    l = l' := by
  refine ext_getElem hlen fun k hk hk' => ?_
  rw [getElem_eq_byteAt hk, getElem_eq_byteAt hk']
  exact h k hk

variable {f g : Nat → Byte}

theorem tabulate_congr (h : ∀ k < n, f k = g k) : tabulate n f = tabulate n g :=
  map_congr_left fun k hk => h k (mem_range.mp hk)

theorem tabulate_add (m : Nat) (f : Nat → Byte) :
    tabulate (n + m) f = tabulate n f ++ tabulate m fun k => f (n + k) := by
  simp [tabulate, range_add, Function.comp_def]

theorem window_tabulate (f : Nat → Byte) (len : Nat) :
    window (tabulate n f) off len = tabulate (min len (n - off)) fun k => f (off + k) := by
  refine ext (by simp [window]) fun k hk => ?_
  have hk : k < min len (n - off) := by simpa [window] using hk
  rw [window, byteAt_take (by omega), byteAt_drop, byteAt_tabulate, byteAt_tabulate,
    if_pos (by omega), if_pos hk]

theorem byteAt_overwrite (hlo : off ≤ k) (hhi : k < off + data.length) :
    byteAt (overwrite l off data) k = byteAt data (k - off) := by
  rw [overwrite, byteAt_tabulate, if_pos (by omega), if_pos ⟨hlo, hhi⟩]

/-- The array with the first `n` bytes of `data` written, as bytes and a size. -/
theorem overwrite_eq {sz : Nat} (hn : n ≤ data.length)
    (hblank : ∀ pos, sz ≤ pos → pos < off → f pos = 0)
    (hg : ∀ pos, g pos = if off ≤ pos ∧ pos < off + n then byteAt data (pos - off) else f pos) :
    tabulate (max sz (off + n)) g = overwrite (tabulate sz f) off (data.take n) := by
  have hlen : (data.take n).length = n := by
    rw [length_take]
    omega
  rw [overwrite, length_tabulate, hlen]
  refine tabulate_congr fun pos hpos => ?_
  rw [hg, byteAt_tabulate]
  by_cases hin : off ≤ pos ∧ pos < off + n
  · rw [if_pos hin, if_pos hin, byteAt_take (by omega)]
  · rw [if_neg hin, if_neg hin]
    by_cases hsz : pos < sz
    · rw [if_pos hsz]
    · rw [if_neg hsz, hblank pos (by omega) (by omega)]

end Flat

end Os161
