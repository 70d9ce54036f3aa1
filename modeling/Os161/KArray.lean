/-
# `kern/lib/array.c`: arrays that grow

An array keeps its elements in one block and doubles its capacity until the elements fit.  The
arithmetic is that of 32-bit numbers: both the doubling and the size of the block in bytes can wrap
around.  `array_setsize_sound_iff` says for which capacities and sizes they do; below that an array
is a list (`array_is_list`).  `kmalloc` may fail at any time, and what is in a new block is
arbitrary.
-/
import Mathlib.Tactic.Ring
import Os161.Lib.Run
import Os161.Uio

namespace Os161

open Function List

variable {ν : Type}

/-- `struct array`, with the size of the block at `v` in bytes. -/
structure KArray (ν : Type) where
  v : Nat → ν
  block : Nat
  num : Nat
  max : Nat

/-- What `kmalloc` returns for a size: nothing, or a block with some contents. -/
abbrev BlockFor (ν : Type) := Nat → Option (Nat → ν)

/-- The loop of `array_setsize`. -/
def growLoop (num : Nat) : Nat → Nat → Option Nat
  | 0, _ => none
  | fuel + 1, newmax =>
    if num > newmax then growLoop num fuel (if newmax ≠ 0 then newmax * 2 % 2 ^ 32 else 4)
    else some newmax

/-- `array_setsize`; a call whose loop needs more rounds than `fuel` does not come back. -/
def arraySetsize (fuel : Nat) (kmalloc : BlockFor ν) (num : Nat) : Prog Errno (KArray ν) Unit := do
  let a ← get
  if num > a.max then
    match growLoop num fuel a.max with
    | none => halt
    | some newmax =>
      match kmalloc (newmax * 4 % 2 ^ 32) with
      | none => fail .enomem
      | some newptr =>
        modify fun a => ⟨fun i => if i < a.num then a.v i else newptr i, newmax * 4 % 2 ^ 32, num,
          newmax⟩
  else modify fun a => { a with num }

/-! ## 1. Where growth is sound -/

/-- `array_setsize` comes back: with `ENOMEM` and the array as it was, or with a block that has room
for `num` pointers. -/
def KArray.SetsizeSound (num : Nat) (a : KArray ν) : Prop :=
  ∀ kmalloc, ∃ fuel, Wp False (arraySetsize fuel kmalloc num) (fun _ a' => 4 * num ≤ a'.block)
    (fun e a' => e = .enomem ∧ a' = a) a

variable {num newmax fuel : Nat} {a : KArray ν}

/-- The capacity that is doubled; an array without any starts with 4. -/
def growStart (max : Nat) : Nat := if max = 0 then 4 else max

theorem growLoop_le : ∀ {fuel m : Nat}, growLoop num fuel m = some newmax → num ≤ newmax
  | fuel + 1, m, h => by
    rw [growLoop] at h
    split at h
    · exact growLoop_le h
    · cases h
      omega

section

variable (hnum : num < 2 ^ 30)

include hnum

/-- Below `2 ^ 30` the doubling does not wrap around, and the loop stops when it can. -/
theorem growLoop_eq_some : ∀ {fuel m : Nat}, 0 < m → growLoop num fuel m = some newmax →
    ∃ j, newmax = m * 2 ^ j ∧ (j = 0 ∨ newmax < 2 * num)
  | fuel + 1, m, hm, h => by
    rw [growLoop, if_pos hm.ne'] at h
    split at h
    · rw [Nat.mod_eq_of_lt (by omega)] at h
      obtain ⟨j, hj, hsmall⟩ := growLoop_eq_some (by omega) h
      refine ⟨j + 1, hj.trans (by ring), .inr ?_⟩
      rcases hsmall with rfl | hsmall
      · omega
      · exact hsmall
    · cases h
      exact ⟨0, (Nat.mul_one _).symm, .inl rfl⟩

theorem growLoop_start (h : growLoop num fuel a.max = some newmax) (hlt : a.max < num) :
    ∃ j, newmax = growStart a.max * 2 ^ j ∧ (j = 0 ∨ newmax < 2 * num) := by
  unfold growStart
  split_ifs with h0
  · cases fuel with
    | zero => cases h
    | succ fuel =>
      rw [growLoop, if_pos hlt, if_neg (not_not.mpr h0)] at h
      exact growLoop_eq_some hnum (by decide) h
  · exact growLoop_eq_some hnum (Nat.pos_of_ne_zero h0) h

theorem growLoop_isSome : ∀ {k fuel m : Nat}, 0 < m → num ≤ m * 2 ^ k → k < fuel →
    (growLoop num fuel m).isSome
  | 0, fuel + 1, m, _, hle, _ => by
    rw [growLoop, if_neg (by omega)]
    rfl
  | k + 1, fuel + 1, m, hm, hle, hk => by
    rw [growLoop, if_pos hm.ne']
    split
    · rw [Nat.mod_eq_of_lt (by omega)]
      exact growLoop_isSome (k := k) (by omega) (hle.trans_eq (by ring)) (by omega)
    · rfl

/-- **The loop comes to the first doubling that is enough.** -/
theorem growLoop_spec {k : Nat} (hle : num ≤ growStart a.max * 2 ^ k) (hlt : a.max < num) :
    ∃ newmax, growLoop num (k + 2) a.max = some newmax ∧ num ≤ newmax ∧
      newmax ≤ growStart a.max * 2 ^ k ∧ (newmax = 4 ∨ newmax < 2 * num) := by
  have hsome : (growLoop num (k + 2) a.max).isSome := by
    unfold growStart at hle
    split_ifs at hle with h0
    · rw [growLoop, if_pos hlt, if_neg (not_not.mpr h0)]
      exact growLoop_isSome hnum (by decide) hle k.lt_succ_self
    · exact growLoop_isSome hnum (Nat.pos_of_ne_zero h0) hle (by omega)
  obtain ⟨newmax, hg⟩ := Option.isSome_iff_exists.mp hsome
  obtain ⟨j, rfl, hj⟩ := growLoop_start hnum hg hlt
  refine ⟨_, hg, growLoop_le hg, ?_, ?_⟩
  · -- one doubling less would have been enough
    refine Nat.mul_le_mul_left _ (Nat.pow_le_pow_right Nat.two_pos (Nat.not_lt.mp fun hkj => ?_))
    have hmore : growStart a.max * (2 ^ k * 2) ≤ growStart a.max * 2 ^ j := by
      rw [← pow_succ]
      exact Nat.mul_le_mul_left _ (Nat.pow_le_pow_right Nat.two_pos hkj)
    rw [← Nat.mul_assoc] at hmore
    omega
  · refine hj.elim (fun h0 => ?_) .inr
    rw [h0, growStart, pow_zero, Nat.mul_one]
    split_ifs <;> omega

end

/-- The array has to grow to `num` elements, and `kmalloc` has no block for them. -/
def KArray.NoBlock (kmalloc : BlockFor ν) (num : Nat) (a : KArray ν) : Prop :=
  a.max < num ∧ ∃ newmax ≥ num, kmalloc (newmax * 4) = none

/-- What `array_setsize` does where the loop comes to a capacity below `2 ^ 30`. -/
theorem arraySetsize_spec (kmalloc : BlockFor ν) (hblock : 4 * a.max ≤ a.block)
    (h : a.max < num → ∃ newmax, growLoop num fuel a.max = some newmax ∧ num ≤ newmax ∧
      newmax < 2 ^ 30) :
    Wp False (arraySetsize fuel kmalloc num) (fun _ a' => a'.num = num ∧ num ≤ a'.max ∧
      4 * a'.max ≤ a'.block ∧ ∀ i < a.num, a'.v i = a.v i)
      (fun e a' => e = .enomem ∧ a' = a ∧ a.NoBlock kmalloc num) a := by
  rw [arraySetsize, wp_bind, wp_get]
  split_ifs with hnum
  · obtain ⟨newmax, hg, hle, hlt⟩ := h hnum
    rw [hg]
    dsimp only
    rw [Nat.mod_eq_of_lt (by omega)]
    split
    · next hfail => exact wp_fail.mpr ⟨rfl, rfl, hnum, newmax, hle, hfail⟩
    · refine wp_modify.mpr ⟨rfl, hle, ?_, fun i hi => if_pos hi⟩
      dsimp only
      omega
  · exact wp_modify.mpr ⟨rfl, Nat.not_lt.mp hnum, hblock, fun _ _ => rfl⟩

theorem KArray.SetsizeSound.block (h : a.SetsizeSound num) (hnum : a.max < num) :
    ∃ fuel newmax, growLoop num fuel a.max = some newmax ∧ 4 * num ≤ newmax * 4 % 2 ^ 32 := by
  obtain ⟨fuel, h⟩ := h fun _ => some a.v
  rw [arraySetsize, wp_bind, wp_get, if_pos hnum] at h
  cases hg : growLoop num fuel a.max with
  | none =>
    rw [hg] at h
    exact (wp_halt.mp h).elim
  | some newmax =>
    rw [hg] at h
    exact ⟨fuel, newmax, hg, wp_modify.mp h⟩

/-- **Where growth is sound.**  The array has room already, or the capacity, doubled some number of
times, is enough and still below `2 ^ 30`. -/
theorem array_setsize_sound_iff (hblock : 4 * a.max ≤ a.block) : a.SetsizeSound num ↔
    num ≤ a.max ∨ ∃ k, num ≤ growStart a.max * 2 ^ k ∧ growStart a.max * 2 ^ k < 2 ^ 30 := by
  by_cases hnum : num ≤ a.max
  · refine iff_of_true (fun kmalloc => ⟨0, ?_⟩) (.inl hnum)
    exact (arraySetsize_spec kmalloc hblock (by omega)).imp (fun _ a' h => by omega)
      fun _ _ h => ⟨h.1, h.2.1⟩
  constructor
  · intro h
    obtain ⟨fuel, newmax, hg, hsize⟩ := h.block (by omega)
    have hle := growLoop_le hg
    obtain ⟨j, hj, hsmall⟩ := growLoop_start (by omega) hg (by omega)
    refine .inr ⟨j, hj ▸ hle, hj ▸ ?_⟩
    rcases hsmall with rfl | hsmall
    · unfold growStart at hj
      split_ifs at hj <;> omega
    · omega
  · intro h kmalloc
    obtain ⟨k, hle, hlt⟩ := h.resolve_left hnum
    obtain ⟨newmax, hg, hle', hsmall, -⟩ := growLoop_spec (hle.trans_lt hlt) hle (by omega)
    refine ⟨k + 2, (arraySetsize_spec kmalloc hblock fun _ => ?_).imp (fun _ a' h => by omega)
      fun _ _ h => ⟨h.1, h.2.1⟩⟩
    exact ⟨newmax, hg, hle', hsmall.trans_lt hlt⟩

/-- `array_init`. -/
def arrayInit [Inhabited ν] : KArray ν := ⟨fun _ => default, 0, 0, 0⟩

theorem array_setsize_sound_hundred : (arrayInit : KArray Nat).SetsizeSound 100 :=
  (array_setsize_sound_iff le_rfl).mpr (.inr ⟨5, by decide, by decide⟩)

/-- For `2 ^ 30` elements the block has no bytes at all. -/
theorem array_setsize_wraps : ¬ (arrayInit : KArray Nat).SetsizeSound (2 ^ 30) ∧
    ∃ a', arraySetsize 31 (fun _ => some id) (2 ^ 30) arrayInit = some (.ok (), a') ∧
      a'.num = 2 ^ 30 ∧ a'.block = 0 := by
  refine ⟨fun h => ?_, _, rfl, rfl, rfl⟩
  obtain ⟨fuel, newmax, -, hsize⟩ := h.block (by decide)
  omega

/-! ## 2. An array is a list -/

/-- `array_set`. -/
def arraySet (index : Nat) (val : ν) : Prog Errno (KArray ν) Unit := do
  let a ← get
  assert (index < a.num)
  modify fun a => { a with v := update a.v index val }

/-- `array_add`; the loop of `array_setsize` has time for every capacity there is. -/
def arrayAdd (kmalloc : BlockFor ν) (val : ν) : Prog Errno (KArray ν) Nat := do
  let a ← get
  arraySetsize 31 kmalloc (a.num + 1)
  modify fun b => { b with v := update b.v a.num val }
  pure a.num

/-- `array_remove`. -/
def arrayRemove (index : Nat) : Prog Errno (KArray ν) Unit := do
  let a ← get
  assert (a.num ≤ a.max)
  assert (index < a.num)
  modify fun a => { a with
    v := fun i => if index ≤ i ∧ i < a.num - 1 then a.v (i + 1) else a.v i, num := a.num - 1 }

inductive ArrayCall (ν : Type)
  | add (kmalloc : BlockFor ν) (val : ν)
  | set (index : Nat) (val : ν)
  | setsize (kmalloc : BlockFor ν) (num : Nat)
  | remove (index : Nat)

def arrayCall : ArrayCall ν → Prog Errno (KArray ν) Unit
  | .add kmalloc val => do
    let _ ← arrayAdd kmalloc val
    pure ()
  | .set index val => arraySet index val
  | .setsize kmalloc num => arraySetsize 31 kmalloc num
  | .remove index => arrayRemove index

/-- Indices are in range, and there are fewer than `2 ^ 29` elements. -/
def ArrayCall.Legal : ArrayCall ν → KArray ν → Prop
  | .add _ _, a => a.num + 1 < 2 ^ 29
  | .set index _, a | .remove index, a => index < a.num
  | .setsize _ num, _ => num < 2 ^ 29

/-- What the call does to the list of the elements; new elements are arbitrary. -/
def ArrayCall.OnList : ArrayCall ν → List ν → List ν → Prop
  | .add _ val, l, l' => l' = l ++ [val]
  | .set index val, l, l' => l' = l.set index val
  | .setsize _ num, l, l' => l'.length = num ∧ l'.take l.length = l.take num
  | .remove index, l, l' => l' = l.eraseIdx index

/-- The call has to make the array larger, and `kmalloc` fails. -/
def ArrayCall.NoBlock : ArrayCall ν → KArray ν → Prop
  | .add kmalloc _, a => a.NoBlock kmalloc (a.num + 1)
  | .setsize kmalloc num, a => a.NoBlock kmalloc num
  | .set _ _, _ | .remove _, _ => False

/-- The elements, as `array_num` and `array_get` show them. -/
def KArray.elements (a : KArray ν) : List ν := (range a.num).map a.v

/-- There is room for the elements, and a block for the room. -/
structure KArray.Wf (a : KArray ν) : Prop where
  num : a.num ≤ a.max
  block : 4 * a.max ≤ a.block

theorem arraySetsize_wf (kmalloc : BlockFor ν) (h : a.Wf) (hnum : num < 2 ^ 29) :
    Wp False (arraySetsize 31 kmalloc num)
      (fun _ a' => a'.Wf ∧ a'.num = num ∧ ∀ i < a.num, a'.v i = a.v i)
      (fun e a' => e = .enomem ∧ a' = a ∧ a.NoBlock kmalloc num) a := by
  refine (arraySetsize_spec kmalloc h.block fun hmax => ?_).post
    fun _ a' ha => ⟨⟨ha.1.trans_le ha.2.1, ha.2.2.1⟩, ha.1, ha.2.2.2⟩
  have hstart : 0 < growStart a.max := by
    unfold growStart
    split_ifs <;> omega
  obtain ⟨newmax, hg, hle, -, hsmall⟩ := growLoop_spec (k := 29) (by omega) (by omega) hmax
  exact ⟨newmax, hg, hle, by omega⟩

theorem arrayCall_onList (op : ArrayCall ν) (h : a.Wf) (hl : op.Legal a) :
    Wp False (arrayCall op) (fun _ a' => a'.Wf ∧ op.OnList a.elements a'.elements)
      (fun e a' => e = .enomem ∧ a' = a ∧ op.NoBlock a) a := by
  cases op with
  | add kmalloc val =>
    simp only [arrayCall, arrayAdd, wp_bind, wp_get, wp_modify, wp_pure]
    refine (arraySetsize_wf kmalloc h hl).post fun _ a' ha => ?_
    obtain ⟨hwf, hnum, hv⟩ := ha
    refine ⟨⟨hwf.num, hwf.block⟩, ext_getElem? fun i => ?_⟩
    simp only [KArray.elements, hnum]
    grind
  | set index val =>
    have hl : index < a.num := hl
    simp only [arrayCall, arraySet, wp_bind, wp_get, wp_assert_of hl, wp_modify]
    refine ⟨⟨h.num, h.block⟩, ext_getElem? fun i => ?_⟩
    simp only [KArray.elements]
    grind
  | setsize kmalloc num =>
    refine (arraySetsize_wf kmalloc h hl).post fun _ a' ha => ?_
    obtain ⟨hwf, hnum, hv⟩ := ha
    refine ⟨hwf, by simp [KArray.elements, hnum], ext_getElem? fun i => ?_⟩
    simp only [KArray.elements, hnum]
    grind
  | remove index =>
    have hl : index < a.num := hl
    simp only [arrayCall, arrayRemove, wp_bind, wp_get, wp_assert_of h.num, wp_assert_of hl,
      wp_modify]
    refine ⟨⟨(Nat.sub_le _ _).trans h.num, h.block⟩, ext_getElem? fun i => ?_⟩
    simp only [KArray.elements]
    grind

/-- **An array is a list.**  After any calls, a call comes back; it does to the elements what it is
for, or, if the array has to grow and there is no block for it, it returns `ENOMEM` and leaves
everything as it was. -/
theorem array_is_list [Inhabited ν] (h : Run arrayCall ArrayCall.Legal arrayInit a)
    (op : ArrayCall ν) (hl : op.Legal a) :
    Wp False (arrayCall op) (fun _ a' => op.OnList a.elements a'.elements)
      (fun e a' => e = .enomem ∧ a' = a ∧ op.NoBlock a) a := by
  have hinit : (arrayInit : KArray ν).Wf := ⟨le_rfl, le_rfl⟩
  have hwf : a.Wf := h.invariant (fun op a hl ha => (arrayCall_onList op ha hl).imp
    (fun _ _ h' => h'.1) fun _ _ h' => h'.2.1 ▸ ha) hinit
  exact (arrayCall_onList op hwf hl).post fun _ _ h' => h'.2

/-- Two elements are added and the first one is removed. -/
theorem array_is_list_add : ∃ a : KArray Nat, Run arrayCall ArrayCall.Legal arrayInit a ∧
    a.elements = [7, 8] ∧
    Wp False (arrayCall (.remove 0)) (fun _ a' => a'.elements = [8]) (fun _ _ => False) a := by
  have h1 : Run arrayCall ArrayCall.Legal arrayInit _ := Run.refl.step
    (show (ArrayCall.add (fun _ => some id) 7).Legal _ from (by decide : 0 + 1 < 2 ^ 29)) rfl
  have h2 := h1.step
    (show (ArrayCall.add (fun _ => some id) 8).Legal _ from (by decide : 1 + 1 < 2 ^ 29)) rfl
  exact ⟨_, h2, rfl, (array_is_list h2 (.remove 0) (by decide : 0 < 2)).imp (fun _ _ h => h)
    fun _ _ h => h.2.2⟩

end Os161
