/-
# `kern/lib/bitmap.c`: the array of bits behind the free block map

The bits live in bytes (`WORD_TYPE` is `unsigned char`) so that the map can be written to disk
as it is.  The model keeps the bytes; a reader of the map only ever sees `isset`, and
`isset_set`/`isset_clear` say that the three accessors treat it as a set of indices.
-/
import Os161.Lib.Bits
import Os161.Lib.Run
import Os161.Uio

namespace Os161

open Function List

/-- `struct bitmap`: `v` is the storage, of which the first `nbits` bits are meant. -/
structure Bitmap where
  nbits : Nat
  v : Nat → Byte

namespace Bitmap

/-- The mask of `bitmap_translate`. -/
def mask (offset : Nat) : Byte := BitVec.twoPow 8 offset

/-- `bitmap_isset`. -/
def isset (b : Bitmap) (index : Nat) : Bool := b.v (index / 8) &&& mask (index % 8) ≠ 0

/-- The map with bit `index` set. -/
def set (b : Bitmap) (index : Nat) : Bitmap :=
  { b with v := update b.v (index / 8) (b.v (index / 8) ||| mask (index % 8)) }

/-- The map with bit `index` cleared. -/
def clear (b : Bitmap) (index : Nat) : Bitmap :=
  { b with v := update b.v (index / 8) (b.v (index / 8) &&& ~~~ mask (index % 8)) }

end Bitmap

/-- `bitmap_create`: all bits clear but the leftover ones in the last word. -/
def bitmapCreate (nbits : Nat) : Bitmap :=
  (List.range' nbits ((nbits + 7) / 8 * 8 - nbits)).foldl Bitmap.set ⟨nbits, fun _ => 0⟩

/-- The outer loop of `bitmap_alloc`, over the words still to be looked at. -/
def bitmapAllocLoop : List Nat → Prog Errno Bitmap Nat
  | [] => fail .enospc
  | ix :: rest => do
    let b ← get
    if b.v ix ≠ 0xff then
      match (List.range 8).find? fun offset => b.v ix &&& Bitmap.mask offset = 0 with
      | none => halt
      | some offset =>
        modify fun b => b.set (ix * 8 + offset)
        assert (ix * 8 + offset < b.nbits)
        pure (ix * 8 + offset)
    else bitmapAllocLoop rest

/-- `bitmap_alloc`: the first clear bit, which is set. -/
def bitmapAlloc : Prog Errno Bitmap Nat := do
  let b ← get
  bitmapAllocLoop (List.range ((b.nbits + 7) / 8))

/-- `bitmap_mark`. -/
def Bitmap.bitmapMark (index : Nat) : Prog Errno Bitmap Unit := do
  let b ← get
  assert (index < b.nbits)
  assert (b.isset index = false)
  modify fun b => b.set index

/-- `bitmap_unmark`. -/
def bitmapUnmark (index : Nat) : Prog Errno Bitmap Unit := do
  let b ← get
  assert (index < b.nbits)
  assert (b.isset index = true)
  modify fun b => b.clear index

/-! ## 1. The bits are a set -/

namespace Bitmap

variable {b : Bitmap} {i j k : Nat}

theorem and_mask_ne_zero {w : Byte} (hk : k < 8) : w &&& mask k ≠ 0 ↔ w.getLsbD k = true :=
  and_twoPow_ne_zero hk

theorem isset_iff : b.isset i = true ↔ (b.v (i / 8)).getLsbD (i % 8) = true := by
  unfold isset
  rw [decide_eq_true_iff]
  exact and_mask_ne_zero (Nat.mod_lt _ (by decide))

theorem isset_set : (b.set i).isset j = true ↔ j = i ∨ b.isset j = true := by
  rw [isset_iff, isset_iff]
  exact wordBit_set (by decide)

theorem isset_clear : (b.clear i).isset j = true ↔ j ≠ i ∧ b.isset j = true := by
  rw [isset_iff, isset_iff]
  exact wordBit_clear (by decide)

theorem getLsbD_full : ∀ k < 8, (0xff : Byte).getLsbD k = true := by decide

theorem isset_byte {y : Nat} (hy : y < 8) : b.isset (8 * k + y) = (b.v k).getLsbD y := by
  rw [Bool.eq_iff_iff, isset_iff, show (8 * k + y) / 8 = k by omega,
    show (8 * k + y) % 8 = y by omega]

end Bitmap

/-! ## 2. `bitmap_create`, `bitmap_alloc` and `bitmap_unmark` -/

theorem bitmapCreate_of_words {nbits : Nat} (h : nbits % 8 = 0) :
    bitmapCreate nbits = ⟨nbits, fun _ => 0⟩ := by
  have h0 : (nbits + 7) / 8 * 8 - nbits = 0 := by omega
  rw [bitmapCreate, h0]
  rfl

variable {p : Prop} {b : Bitmap}

/-- The bits behind the last one are set, as far as there are words. -/
def Bitmap.Padded (b : Bitmap) : Prop :=
  ∀ i, b.nbits ≤ i → i < (b.nbits + 7) / 8 * 8 → b.isset i = true

/-- The loop hands out the first clear bit, or finds every word it looks at full. -/
theorem bitmapAllocLoop_spec (hp : ¬ b.Padded → p) : ∀ (m k : Nat), k + m = (b.nbits + 7) / 8 →
    (∀ i < k * 8, b.isset i = true) → Wp p (bitmapAllocLoop (range' k m))
      (fun index b' => index < b.nbits ∧ b.isset index = false ∧
        (∀ i < index, b.isset i = true) ∧ b' = b.set index)
      (fun e b' => e = .enospc ∧ b' = b ∧ ∀ i < b.nbits, b.isset i = true) b
  | 0, k, hk, hset => by
    rw [range'_zero, bitmapAllocLoop, wp_fail]
    exact ⟨rfl, rfl, fun i hi => hset i (by omega)⟩
  | m + 1, ix, hk, hset => by
    rw [range'_succ, bitmapAllocLoop, wp_bind, wp_get]
    by_cases hw : b.v ix ≠ 0xff
    · rw [if_pos hw]
      obtain ⟨offset, hf⟩ : ∃ o, (range 8).find? (fun o => b.v ix &&& Bitmap.mask o = 0) = some o :=
        find_clear_bit_of_ne hw
      obtain ⟨hclear, hmem, hbefore⟩ := find?_range_eq_some.mp hf
      have ho := mem_range.mp hmem
      have hbit (o : Nat) (h : o < 8) :
          b.isset (ix * 8 + o) = true ↔ b.v ix &&& Bitmap.mask o ≠ 0 := by
        rw [Nat.mul_comm, Bitmap.isset_byte h, Bitmap.and_mask_ne_zero h]
      have hclear : b.isset (ix * 8 + offset) = false := by
        rw [Bool.eq_false_iff, Ne, hbit offset ho]
        simpa using hclear
      rw [hf]
      simp only [wp_bind, wp_modify, wp_assert, wp_pure]
      refine ⟨fun hlt => ⟨hlt, hclear, fun i hi => ?_, trivial⟩, fun hlt => hp fun hpad => ?_⟩
      · by_cases hi8 : i < ix * 8
        · exact hset i hi8
        · -- the inner loop has seen the bits before it
          obtain ⟨o, rfl⟩ := Nat.exists_eq_add_of_le (Nat.not_lt.mp hi8)
          rw [hbit o (by omega)]
          simpa using hbefore o (by omega)
      · have := hpad _ (Nat.not_lt.mp hlt) (by omega)
        rw [hclear] at this
        cases this
    · rw [if_neg hw]
      refine bitmapAllocLoop_spec hp m (ix + 1) (by omega) fun i hi => ?_
      by_cases hi8 : i < ix * 8
      · exact hset i hi8
      · obtain ⟨o, rfl⟩ := Nat.exists_eq_add_of_le (Nat.not_lt.mp hi8)
        rw [Nat.mul_comm, Bitmap.isset_byte (by omega), not_not.mp hw]
        exact Bitmap.getLsbD_full o (by omega)

/-- **`bitmap_alloc`** sets the first clear bit, or reports `ENOSPC` when there is none. -/
theorem bitmapAlloc_least (hp : ¬ b.Padded → p) : Wp p bitmapAlloc
      (fun index b' => index < b.nbits ∧ b.isset index = false ∧
        (∀ i < index, b.isset i = true) ∧ b' = b.set index)
      (fun e b' => e = .enospc ∧ b' = b ∧ ∀ i < b.nbits, b.isset i = true) b := by
  rw [bitmapAlloc, wp_bind, wp_get, range_eq_range']
  exact bitmapAllocLoop_spec hp _ 0 (Nat.zero_add _) nofun

/-- Only on a map that is not made of whole words can an assertion fire. -/
theorem bitmapAlloc_wp (h8 : b.nbits % 8 ≠ 0 → p) : Wp p bitmapAlloc
      (fun index b' => index < b.nbits ∧ b.isset index = false ∧ b' = b.set index)
      (fun e b' => e = .enospc ∧ b' = b ∧ ∀ i < b.nbits, b.isset i = true) b := by
  refine (bitmapAlloc_least fun hno => h8 fun h => hno fun i hle hlt => ?_).post
    fun _ _ h => ⟨h.1, h.2.1, h.2.2.2⟩
  omega

/-! ## 3. Any calls -/

inductive BitmapCall
  | alloc
  | mark (index : Nat)
  | unmark (index : Nat)

/-- A call, and beside the map the set of what has been marked or allocated and not unmarked
since. -/
def bitmapCall : BitmapCall → Prog Errno (Bitmap × Finset Nat) Unit
  | .alloc => do
    let index ← onFst bitmapAlloc
    modify fun s => (s.1, insert index s.2)
  | .mark index => do
    onFst (Bitmap.bitmapMark index)
    modify fun s => (s.1, insert index s.2)
  | .unmark index => do
    onFst (bitmapUnmark index)
    modify fun s => (s.1, s.2.erase index)

/-- The map has the bits of the set, and those behind the last one. -/
structure Bitmap.Shows (nbits : Nat) (s : Bitmap × Finset Nat) : Prop where
  nbits : s.1.nbits = nbits
  padded : s.1.Padded
  bits (i : Nat) : i < s.1.nbits → (s.1.isset i = true ↔ i ∈ s.2)

variable {nbits : Nat} {s : Bitmap × Finset Nat}

theorem Bitmap.Shows.set (h : Bitmap.Shows nbits s) (index : Nat) :
    Bitmap.Shows nbits (s.1.set index, insert index s.2) := by
  refine ⟨h.nbits, fun i hle hlt => isset_set.mpr (.inr (h.padded i hle hlt)), fun i hi => ?_⟩
  rw [isset_set, h.bits i hi, Finset.mem_insert]

theorem Bitmap.Shows.clear (h : Bitmap.Shows nbits s) {index : Nat} (hi : index < s.1.nbits) :
    Bitmap.Shows nbits (s.1.clear index, s.2.erase index) := by
  refine ⟨h.nbits, fun i hle hlt => isset_clear.mpr ⟨?_, h.padded i hle hlt⟩, fun i hi => ?_⟩
  · exact (Nat.lt_of_lt_of_le hi hle).ne'
  · rw [isset_clear, h.bits i hi, Finset.mem_erase]

theorem isset_foldl (l : List Nat) (i : Nat) :
    (l.foldl Bitmap.set b).isset i = true ↔ i ∈ l ∨ b.isset i = true := by
  induction l generalizing b with
  | nil => simp
  | cons j l ih => rw [foldl_cons, ih, Bitmap.isset_set, mem_cons, or_assoc, or_left_comm]

theorem bitmapCreate_shows (nbits : Nat) : Bitmap.Shows nbits (bitmapCreate nbits, ∅) := by
  have hn (l : List Nat) (b : Bitmap) : (l.foldl Bitmap.set b).nbits = b.nbits := by
    induction l generalizing b with
    | nil => rfl
    | cons j l ih => exact ih _
  have hn : (bitmapCreate nbits).nbits = nbits := hn _ _
  have hb (i : Nat) : (bitmapCreate nbits).isset i = true ↔
      nbits ≤ i ∧ i < nbits + ((nbits + 7) / 8 * 8 - nbits) := by
    rw [bitmapCreate, isset_foldl, mem_range'_1]
    simp [Bitmap.isset]
  refine ⟨hn, fun i hle hlt => (hb i).mpr ?_, fun i hi => ?_⟩
  · rw [hn] at hle hlt
    omega
  · simp only [hb, Finset.notMem_empty, iff_false]
    exact fun h => (hn ▸ hi).not_ge h.1

theorem bitmapCall_shows (h : Bitmap.Shows nbits s) (op : BitmapCall) :
    Wp True (bitmapCall op) (fun _ => Bitmap.Shows nbits) (fun _ => Bitmap.Shows nbits) s := by
  cases op with
  | alloc =>
    refine wp_bind.mpr (wp_onFst.mpr ((bitmapAlloc_least fun _ => True.intro).imp ?_ ?_))
    · rintro index _ ⟨-, -, -, rfl⟩
      exact wp_modify.mpr (h.set index)
    · rintro _ _ ⟨-, rfl, -⟩
      exact h
  | mark index =>
    unfold bitmapCall Bitmap.bitmapMark
    simp only [wp_bind, wp_onFst, wp_get, wp_assert, wp_modify]
    exact ⟨fun _ => ⟨fun _ => h.set index, fun _ => True.intro⟩, fun _ => True.intro⟩
  | unmark index =>
    unfold bitmapCall bitmapUnmark
    simp only [wp_bind, wp_onFst, wp_get, wp_assert, wp_modify]
    exact ⟨fun hi => ⟨fun _ => h.clear hi, fun _ => True.intro⟩, fun _ => True.intro⟩

end Os161
