/-
# Byte-addressed memory

Memory is a function from addresses to bytes.  Programs read and write it in 32-bit words, most
significant byte first, and clear ranges of it.  The lemmas are the ones a proof about data
structures in memory needs: a word that was written is read back, and a write changes nothing
outside its window (`SameOutside`).
-/
import Os161.Lib.Bytes

namespace Os161

open List

/-- Memory. -/
abbrev Mem := Nat → Byte

namespace Mem

variable {m m' m'' : Mem} {a b lo hi v : Nat}

/-- The word at address `a`. -/
def word (m : Mem) (a : Nat) : Nat :=
  (m a).toNat * 16777216 + (m (a + 1)).toNat * 65536 + (m (a + 2)).toNat * 256 + (m (a + 3)).toNat

/-- The memory with the word `v` at address `a`. -/
def setWord (m : Mem) (a v : Nat) : Mem := fun b =>
  if b = a then BitVec.ofNat 8 (v / 16777216)
  else if b = a + 1 then BitVec.ofNat 8 (v / 65536)
  else if b = a + 2 then BitVec.ofNat 8 (v / 256)
  else if b = a + 3 then BitVec.ofNat 8 v
  else m b

/-- The memory with the `n` words from address `a` on set to `v`. -/
def fillWords (m : Mem) (a v : Nat) : Nat → Mem
  | 0 => m
  | n + 1 => (fillWords m a v n).setWord (a + 4 * n) v

/-- The memory with the `n` bytes from address `a` on set to zero. -/
def clear (m : Mem) (a n : Nat) : Mem := fun b => if a ≤ b ∧ b < a + n then 0 else m b

/-- The memory with the `n` bytes from address `src` on copied to address `dst`. -/
def move (m : Mem) (dst src n : Nat) : Mem := fun b =>
  if dst ≤ b ∧ b < dst + n then m (src + (b - dst)) else m b

/-- Outside of `[lo, hi)` the two memories are the same. -/
def SameOutside (lo hi : Nat) (m m' : Mem) : Prop := ∀ a, a < lo ∨ hi ≤ a → m' a = m a

theorem SameOutside.refl (lo hi : Nat) (m : Mem) : SameOutside lo hi m m := fun _ _ => rfl

theorem SameOutside.trans (h : SameOutside lo hi m m') (h' : SameOutside lo hi m' m'') :
    SameOutside lo hi m m'' := fun a ha => (h' a ha).trans (h a ha)

theorem SameOutside.mono {lo' hi' : Nat} (h : SameOutside lo hi m m') (hlo : lo' ≤ lo)
    (hhi : hi ≤ hi') : SameOutside lo' hi' m m' := fun a ha =>
  h a (ha.imp (fun h => lt_of_lt_of_le h hlo) hhi.trans)

theorem word_lt (m : Mem) (a : Nat) : m.word a < 4294967296 := by
  unfold word
  omega

/-- What is written is read back, ... -/
theorem word_setWord (hv : v < 4294967296) : (m.setWord a v).word a = v := by
  simp only [word, setWord, if_true, if_neg (show a + 1 ≠ a by omega),
    if_neg (show a + 2 ≠ a by omega), if_neg (show a + 2 ≠ a + 1 by omega),
    if_neg (show a + 3 ≠ a by omega), if_neg (show a + 3 ≠ a + 1 by omega),
    if_neg (show a + 3 ≠ a + 2 by omega), BitVec.toNat_ofNat]
  omega

/-- ... and nothing else is changed. -/
theorem sameOutside_setWord (m : Mem) (a v : Nat) : SameOutside a (a + 4) m (m.setWord a v) := by
  intro b hb
  have h0 : b ≠ a := by omega
  have h1 : b ≠ a + 1 := by omega
  have h2 : b ≠ a + 2 := by omega
  have h3 : b ≠ a + 3 := by omega
  simp [setWord, h0, h1, h2, h3]

theorem word_congr (h : ∀ b, a ≤ b → b < a + 4 → m' b = m b) : m'.word a = m.word a := by
  have h0 := h a (by omega) (by omega)
  have h1 := h (a + 1) (by omega) (by omega)
  have h2 := h (a + 2) (by omega) (by omega)
  have h3 := h (a + 3) (by omega) (by omega)
  unfold Mem.word
  rw [h0, h1, h2, h3]

theorem SameOutside.word (h : SameOutside lo hi m m') (ha : a + 4 ≤ lo ∨ hi ≤ a) :
    m'.word a = m.word a := word_congr fun b _ _ => h b (by omega)

theorem word_setWord_of_disjoint (hab : b + 4 ≤ a ∨ a + 4 ≤ b) :
    (m.setWord a v).word b = m.word b := (sameOutside_setWord m a v).word hab

theorem sameOutside_fillWords (m : Mem) (a v : Nat) : ∀ n,
    SameOutside a (a + 4 * n) m (m.fillWords a v n)
  | 0 => .refl _ _ m
  | n + 1 => by
    have ih := sameOutside_fillWords m a v n
    refine (ih.mono le_rfl (by omega)).trans ?_
    exact (sameOutside_setWord _ _ v).mono (by omega) (by omega)

/-- Several ranges are cleared, each given by its first address and its length. -/
def clearAll (m : Mem) (rs : List (Nat × Nat)) : Mem := rs.foldl (fun m r => m.clear r.1 r.2) m

/-- Several ranges are copied, each given by where to, where from and how much. -/
def moveAll (m : Mem) (cs : List (Nat × Nat × Nat)) : Mem :=
  cs.foldl (fun m c => m.move c.1 c.2.1 c.2.2) m

theorem clearAll_cons (m : Mem) (r : Nat × Nat) (rs : List (Nat × Nat)) :
    m.clearAll (r :: rs) = (m.clear r.1 r.2).clearAll rs := rfl

theorem moveAll_cons (m : Mem) (c : Nat × Nat × Nat) (cs : List (Nat × Nat × Nat)) :
    m.moveAll (c :: cs) = (m.move c.1 c.2.1 c.2.2).moveAll cs := rfl

theorem sameOutside_clear (m : Mem) (a n : Nat) : SameOutside a (a + n) m (m.clear a n) := by
  intro b hb
  exact if_neg (by omega)

theorem sameOutside_move (m : Mem) (dst src n : Nat) :
    SameOutside dst (dst + n) m (m.move dst src n) := by
  intro b hb
  exact if_neg (by omega)

variable {k : Nat} {rs : List (Nat × Nat)} {cs : List (Nat × Nat × Nat)}

theorem move_add {dst src n : Nat} (hk : k < n) : m.move dst src n (dst + k) = m (src + k) := by
  unfold move
  rw [if_pos (by omega), Nat.add_sub_cancel_left]

theorem clearAll_of_outside (hb : ∀ r ∈ rs, b < r.1 ∨ r.1 + r.2 ≤ b) : m.clearAll rs b = m b := by
  induction rs generalizing m with
  | nil => rfl
  | cons r rs ih =>
    rw [clearAll_cons, ih fun r' hr' => hb r' (mem_cons_of_mem _ hr')]
    exact sameOutside_clear m r.1 r.2 b (hb r mem_cons_self)

theorem clearAll_of_zero (hb : m b = 0) : m.clearAll rs b = 0 := by
  induction rs generalizing m with
  | nil => exact hb
  | cons r rs ih =>
    rw [clearAll_cons]
    refine ih ?_
    unfold clear
    split_ifs
    · rfl
    · exact hb

theorem clearAll_of_mem {r : Nat × Nat} (hr : r ∈ rs) (hb : r.1 ≤ b ∧ b < r.1 + r.2) :
    m.clearAll rs b = 0 := by
  induction rs generalizing m with
  | nil => cases hr
  | cons r' rs ih =>
    rw [clearAll_cons]
    rcases mem_cons.mp hr with rfl | hr
    · exact clearAll_of_zero (if_pos hb)
    · exact ih hr

theorem moveAll_of_outside (hb : ∀ c ∈ cs, b < c.1 ∨ c.1 + c.2.2 ≤ b) : m.moveAll cs b = m b := by
  induction cs generalizing m with
  | nil => rfl
  | cons c cs ih =>
    rw [moveAll_cons, ih fun c' hc' => hb c' (mem_cons_of_mem _ hc')]
    exact sameOutside_move m c.1 c.2.1 c.2.2 b (hb c mem_cons_self)

/-- **Copies to ranges that have nothing in common**, with each other or with a source, are all
there in the end. -/
theorem moveAll_add (hdst : cs.Pairwise fun c c' => c.1 + c.2.2 ≤ c'.1 ∨ c'.1 + c'.2.2 ≤ c.1)
    (hsrc : ∀ c ∈ cs, ∀ c' ∈ cs, c.2.1 + c.2.2 ≤ c'.1 ∨ c'.1 + c'.2.2 ≤ c.2.1) {c : Nat × Nat × Nat}
    (hc : c ∈ cs) (hk : k < c.2.2) : m.moveAll cs (c.1 + k) = m (c.2.1 + k) := by
  induction cs generalizing m with
  | nil => cases hc
  | cons c' cs ih =>
    obtain ⟨hhead, htail⟩ := pairwise_cons.mp hdst
    rw [moveAll_cons]
    rcases mem_cons.mp hc with rfl | hmem
    · -- The later copies are elsewhere.
      rw [moveAll_of_outside, move_add hk]
      intro d hd
      have := hhead d hd
      omega
    · rw [ih htail (fun d hd d' hd' => hsrc d (mem_cons_of_mem _ hd) d'
        (mem_cons_of_mem _ hd')) hmem]
      -- The first copy does not touch the source.
      refine sameOutside_move m c'.1 c'.2.1 c'.2.2 _ ?_
      have := hsrc c hc c' mem_cons_self
      omega

end Mem

end Os161
