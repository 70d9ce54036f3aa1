/-
# `memcpy` and `memmove` of `common/libc/string`

Both copy by words if the two addresses and the length allow it, and by bytes if not; `memcpy`
runs forwards, and `memmove` leaves the case of a destination below the source to it.  An
overlap is harmless as long as a loop never reads what it has already written, and the two
directions are the two cases of that (`Mem.move_append`).  The ranges do not wrap around, so
addresses are plain numbers.
-/
import Os161.Lib.Memory

namespace Os161

open Function

/-- `*d = *s` for pointers to `char`. -/
def copyByte (m : Mem) (d s : Nat) : Mem := update m d (m s)

/-- `*d = *s` for pointers to `long`. -/
def copyLong (m : Mem) (d s : Nat) : Mem := m.setWord d (m.word s)

/-- `for (i=0; i<n; i++) d[i] = s[i]`, for elements of `size` bytes. -/
def copyForwards (copy : Mem → Nat → Nat → Mem) (size d s n : Nat) (m : Mem) : Mem :=
  (List.range n).foldl (fun m i => copy m (d + size * i) (s + size * i)) m

/-- `for (i=n; i>0; i--) d[i-1] = s[i-1]`. -/
def copyBackwards (copy : Mem → Nat → Nat → Mem) (size d s : Nat) : Nat → Mem → Mem
  | 0, m => m
  | i + 1, m => copyBackwards copy size d s i (copy m (d + size * i) (s + size * i))

/-- `memcpy`: the result and the memory. -/
def memcpy (dst src len : Nat) (m : Mem) : Nat × Mem :=
  if dst % 4 = 0 ∧ src % 4 = 0 ∧ len % 4 = 0 then
    (dst, copyForwards copyLong 4 dst src (len / 4) m)
  else (dst, copyForwards copyByte 1 dst src len m)

/-- `memmove`. -/
def memmove (dst src len : Nat) (m : Mem) : Nat × Mem :=
  if dst < src then memcpy dst src len m
  else if dst % 4 = 0 ∧ src % 4 = 0 ∧ len % 4 = 0 then
    (dst, copyBackwards copyLong 4 dst src (len / 4) m)
  else (dst, copyBackwards copyByte 1 dst src len m)

variable {m : Mem} {d s a k size n : Nat} {copy : Mem → Nat → Nat → Mem}

theorem copyByte_eq : copyByte m d s = m.move d s 1 := by
  funext b
  simp only [copyByte, update_apply, Mem.move]
  grind

theorem copyLong_eq : copyLong m d s = m.move d s 4 := by
  have byte {v : Nat} {x : Byte} (h : v % 256 = x.toNat) : BitVec.ofNat 8 v = x :=
    BitVec.eq_of_toNat_eq h
  have h2 := (m (s + 2)).isLt
  have h3 := (m (s + 3)).isLt
  have e0 : BitVec.ofNat 8 (m.word s / 16777216) = m s := byte (by rw [Mem.word]; omega)
  have e1 : BitVec.ofNat 8 (m.word s / 65536) = m (s + 1) := byte (by rw [Mem.word]; omega)
  have e2 : BitVec.ofNat 8 (m.word s / 256) = m (s + 2) := byte (by rw [Mem.word]; omega)
  have e3 : BitVec.ofNat 8 (m.word s) = m (s + 3) := byte (by rw [Mem.word]; omega)
  funext b
  simp only [copyLong, Mem.setWord, Mem.move, e0, e1, e2, e3]
  grind

/-- The front and then the back, if the front does not fall on the source of the back. -/
theorem Mem.move_append (h : d ≤ s ∨ s + (a + k) ≤ d) :
    (m.move d s a).move (d + a) (s + a) k = m.move d s (a + k) := by
  funext b
  grind [Mem.move]

/-- The back and then the front, if the back does not fall on the source of the front. -/
theorem Mem.move_append_back (h : s ≤ d) :
    (m.move (d + a) (s + a) k).move d s a = m.move d s (a + k) := by
  funext b
  grind [Mem.move]

theorem copyForwards_eq (hcopy : ∀ m d s, copy m d s = m.move d s size) :
    ∀ n, d ≤ s ∨ s + size * n ≤ d → copyForwards copy size d s n m = m.move d s (size * n)
  | 0, _ => by
    funext b
    simp [copyForwards, Mem.move]
  | n + 1, h => by
    rw [Nat.mul_succ] at h ⊢
    have ih : (List.range n).foldl _ m = _ := copyForwards_eq hcopy n (by omega)
    rw [copyForwards, List.range_succ, List.foldl_append, ih, List.foldl_cons, List.foldl_nil,
      hcopy, Mem.move_append h]

theorem copyBackwards_eq (hcopy : ∀ m d s, copy m d s = m.move d s size) (h : s ≤ d) :
    ∀ n m, copyBackwards copy size d s n m = m.move d s (size * n)
  | 0, m => by
    funext b
    simp [copyBackwards, Mem.move]
  | n + 1, m => by
    rw [copyBackwards, copyBackwards_eq hcopy h n, hcopy, Mem.move_append_back h, Nat.mul_succ]

/-- Where `memcpy` may be used: the ranges do not overlap, or the destination is below. -/
theorem memcpy_eq (dst src len : Nat) (m : Mem) (h : dst ≤ src ∨ src + len ≤ dst) :
    memcpy dst src len m = (dst, m.move dst src len) := by
  unfold memcpy
  split_ifs with hal
  · have hlen : 4 * (len / 4) = len := by omega
    rw [copyForwards_eq (fun _ _ _ => copyLong_eq) _ (by rwa [hlen]), hlen]
  · rw [copyForwards_eq (fun _ _ _ => copyByte_eq) _ (by rwa [Nat.one_mul]), Nat.one_mul]

theorem memmove_eq (dst src len : Nat) (m : Mem) :
    memmove dst src len m = (dst, m.move dst src len) := by
  unfold memmove
  split_ifs with hbelow hal
  · exact memcpy_eq dst src len m (.inl hbelow.le)
  · rw [copyBackwards_eq (fun _ _ _ => copyLong_eq) (Nat.not_lt.mp hbelow),
      show 4 * (len / 4) = len by omega]
  · rw [copyBackwards_eq (fun _ _ _ => copyByte_eq) (Nat.not_lt.mp hbelow), Nat.one_mul]

/-- The bytes of the source are at the destination, and nothing else has changed. -/
def Mem.Copied (dst src len : Nat) (m m' : Mem) : Prop :=
  (∀ k < len, m' (dst + k) = m (src + k)) ∧ SameOutside dst (dst + len) m m'

/-- **Block copies are exact.**  `memmove` for any two ranges, `memcpy` for ranges that do not
overlap and for a destination below the source. -/
theorem block_copies_exact (dst src len : Nat) (m : Mem) :
    Mem.Copied dst src len m (memmove dst src len m).2 ∧
      (dst ≤ src ∨ src + len ≤ dst → Mem.Copied dst src len m (memcpy dst src len m).2) := by
  have hmove : Mem.Copied dst src len m (m.move dst src len) :=
    ⟨fun k hk => Mem.move_add hk, Mem.sameOutside_move m dst src len⟩
  refine ⟨?_, fun h => ?_⟩
  · rw [memmove_eq]
    exact hmove
  · rw [memcpy_eq dst src len m h]
    exact hmove

/-- Eight bytes, to one byte further down, and as words to one word further up. -/
theorem block_copies_exact_overlap :
    Mem.Copied 1024 1025 8 (BitVec.ofNat 8) (memcpy 1024 1025 8 (BitVec.ofNat 8)).2 ∧
      Mem.Copied 1028 1024 8 (BitVec.ofNat 8) (memmove 1028 1024 8 (BitVec.ofNat 8)).2 :=
  ⟨(block_copies_exact 1024 1025 8 _).2 (by decide), (block_copies_exact 1028 1024 8 _).1⟩

end Os161
