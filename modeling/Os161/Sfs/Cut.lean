/-
# What `sfs_truncate` cuts off

This file asks what a truncation that RETURNS 0 has done to the block map of the file, in any state
of the volume whatever (`truncate_givenUp` in `Sfs/Truncate.lean`): if a block it frees is not
marked, or is freed twice, an assertion fires and the call does not return.

The cut is not exact.  With `blocklen` blocks to keep, the first loop drops the direct blocks from
`blocklen` on, but the second loop drops only the entries PAST `blocklen`, and it is not entered
at all for `blocklen ≥ 142`.  So block `blocklen` survives if it is behind the indirect block, and
an indirect block that maps nothing survives a truncation to 142 or 143 blocks.
`truncate_exact_iff` says that these are the only two exceptions.
-/
import Os161.Sfs.Truncate

namespace Os161

open Classical SfsFs

/-! ## The exact cut -/

/-- The disk block that block `fileblock` of the file at `v` is mapped to, 0 for none. -/
def SfsFs.mapped (fs : SfsFs) (v fileblock : Nat) : Nat :=
  match dataSlot fileblock with
  | some r => fs.slotAt v r
  | none => 0

/-- `ceil(len / 512)`. -/
def blocksOf (len : Nat) : Nat := (len + 511) / 512

/-- Exactly the tail is gone: the map of the file ends at `len`, is the old one in front of it, and
the blocks newly unmarked are those that the tail was mapped to, and the indirect block if nothing
is mapped through it any more. -/
structure CutExact (v len : Nat) (fs fs' : SfsFs) : Prop where
  size : (fs'.heap v).svI.sfiSize = len
  cut : ∀ fb, blocksOf len ≤ fb → fs'.mapped v fb = 0
  kept : ∀ fb, fb < blocksOf len → fs'.mapped v fb = fs.mapped v fb
  freed : ∀ b, (fs.sfsFreemap.isset b = true ∧ fs'.sfsFreemap.isset b = false) ↔
    (∃ fb, blocksOf len ≤ fb ∧ fs.mapped v fb ≠ 0 ∧ fs.mapped v fb = b) ∨
      (fs.slotAt v .indirect ≠ 0 ∧ fs.slotAt v .indirect = b ∧
        ∀ fb, 15 ≤ fb → fb < blocksOf len → fs.mapped v fb = 0)

section Exact

variable {fs fs' : SfsFs} {v len : Nat}

theorem SfsFs.mapped_direct (fs : SfsFs) (v : Nat) (k : Fin 15) :
    fs.mapped v k.val = fs.slotAt v (.direct k) := by
  simp [mapped, dataSlot]

theorem SfsFs.mapped_entry (fs : SfsFs) (v : Nat) (k : Fin 128) :
    fs.mapped v (15 + k.val) = fs.slotAt v (.entry k) := by
  have h : ¬ 15 + k.val < 15 := by omega
  simp [mapped, dataSlot, h]

theorem SfsFs.mapped_big (fs : SfsFs) (v : Nat) {fb : Nat} (h : 143 ≤ fb) : fs.mapped v fb = 0 := by
  have h1 : ¬ fb < 15 := by omega
  have h2 : ¬ fb - 15 < 128 := by omega
  simp [mapped, dataSlot, h1, h2]

theorem fileblock_cases {P : Nat → Prop} (hdir : ∀ k : Fin 15, P k.val)
    (hent : ∀ k : Fin 128, P (15 + k.val)) (hbig : ∀ fb, 143 ≤ fb → P fb) (fb : Nat) : P fb := by
  by_cases h1 : fb < 15
  · exact hdir ⟨fb, h1⟩
  by_cases h2 : fb - 15 < 128
  · have := hent ⟨fb - 15, h2⟩
    rwa [show 15 + (fb - 15) = fb by omega] at this
  · exact hbig fb (by omega)

/-- The block map afterwards: the comparison is strict behind the direct blocks. -/
theorem GivenUp.mapped {bl : Nat} (h : GivenUp v (cutDrops fs v bl) fs fs') :
    ∀ fb, fs'.mapped v fb =
      if (fb < 15 ∧ bl ≤ fb) ∨ (15 ≤ fb ∧ bl < fb) then 0 else fs.mapped v fb := by
  refine fileblock_cases (fun k => ?_) (fun k => ?_) (fun fb hfb => ?_)
  · rw [mapped_direct, mapped_direct, h.slot]
    exact if_congr (show bl ≤ k.val ↔ _ by omega) rfl rfl
  · rw [mapped_entry, mapped_entry, h.slot]
    exact if_congr (show bl < 15 + k.val ↔ _ by omega) rfl rfl
  · rw [mapped_big _ _ hfb, mapped_big _ _ hfb, ite_self]

theorem GivenUp.freed_iff {D : Slot → Prop} (h : GivenUp v D fs fs') (b : Nat) :
    (fs.sfsFreemap.isset b = true ∧ fs'.sfsFreemap.isset b = false) ↔
      ∃ r, D r ∧ fs.slotAt v r ≠ 0 ∧ fs.slotAt v r = b := by
  rw [← Bool.not_eq_true, h.freed.marks]
  constructor
  · rintro ⟨hb, hnot⟩
    by_contra hno
    exact hnot ⟨hb, fun r hr h0 he => hno ⟨r, hr, h0, he⟩⟩
  · rintro ⟨r, hr, h0, rfl⟩
    exact ⟨h.freed.used r hr h0, fun hall => hall.2 r hr h0 rfl⟩

/-- The two exceptions are ruled out: block `ceil(len / 512)` is not mapped through the indirect
block, and a cut too far out for the second half does not leave an indirect block that maps
nothing. -/
structure CutClean (fs : SfsFs) (v len : Nat) : Prop where
  edge : 15 ≤ blocksOf len → fs.mapped v (blocksOf len) = 0
  indirect : 142 ≤ blocksOf len → fs.slotAt v .indirect = 0 ∨
    ∃ fb, 15 ≤ fb ∧ fb < blocksOf len ∧ fs.mapped v fb ≠ 0

theorem CutClean.drops_iff (h : CutClean fs v len) (b : Nat) :
    (∃ r, cutDrops fs v (blocksOf len) r ∧ fs.slotAt v r ≠ 0 ∧ fs.slotAt v r = b) ↔
      (∃ fb, blocksOf len ≤ fb ∧ fs.mapped v fb ≠ 0 ∧ fs.mapped v fb = b) ∨
        (fs.slotAt v .indirect ≠ 0 ∧ fs.slotAt v .indirect = b ∧
          ∀ fb, 15 ≤ fb → fb < blocksOf len → fs.mapped v fb = 0) := by
  constructor
  · rintro ⟨r, hr, h0, hb⟩
    cases r with
    | direct k =>
      rw [← mapped_direct] at h0 hb
      exact .inl ⟨k.val, hr, h0, hb⟩
    | entry k =>
      rw [← mapped_entry] at h0 hb
      exact .inl ⟨15 + k.val, Nat.le_of_lt hr, h0, hb⟩
    | indirect =>
      refine .inr ⟨h0, hb, fun fb h15 hlt => ?_⟩
      induction fb using fileblock_cases with
      | hdir k => exact absurd k.isLt (Nat.not_lt.mpr h15)
      | hent k =>
        rw [mapped_entry]
        exact (hr.2 k).resolve_left (Nat.lt_asymm hlt)
      | hbig fb hfb => exact mapped_big _ _ hfb
  · rintro (⟨fb, hle, h0, hb⟩ | ⟨h0, hb, hall⟩)
    · induction fb using fileblock_cases with
      | hdir k =>
        rw [mapped_direct] at h0 hb
        exact ⟨.direct k, hle, h0, hb⟩
      | hent k =>
        have hne : blocksOf len ≠ 15 + k.val := fun he => by
          have := h.edge (by omega)
          rw [he] at this
          exact h0 this
        rw [mapped_entry] at h0 hb
        exact ⟨.entry k, Nat.lt_of_le_of_ne hle hne, h0, hb⟩
      | hbig fb hfb => exact absurd (mapped_big _ _ hfb) h0
    · refine ⟨.indirect, ⟨?_, fun k => ?_⟩, h0, hb⟩
      · by_contra hbig
        rcases h.indirect (Nat.le_of_not_lt hbig) with hz | ⟨fb, h15, hlt, hne⟩
        · exact h0 hz
        · exact hne (hall fb h15 hlt)
      · by_cases hk : blocksOf len < 15 + k.val
        · exact .inl hk
        · rw [← mapped_entry]
          rcases Nat.lt_or_eq_of_le (Nat.le_of_not_lt hk) with hlt | he
          · exact .inr (hall _ (Nat.le_add_right _ _) hlt)
          · exact .inr (he ▸ h.edge (by omega))

/-- **When a truncation is exact.**  In any state of the volume, with a device that does not fail,
`sfs_truncate` to a length up to the maximum, once it returns 0, has cut off exactly the tail IF
AND ONLY IF block `ceil(len / 512)` was not mapped through the indirect block, and, for 142 blocks
or more, the indirect block is absent or still maps something. -/
theorem truncate_exact_iff (hd : fs.sfsDevice.Reliable) (hfits : (fs.heap v).svI.Fits)
    (hlen : len ≤ 73216) (hrun : sfsTruncate v len fs = some (.ok (), fs')) :
    CutExact v len fs fs' ↔ CutClean fs v len := by
  have hlt : len < 4294967296 := Nat.lt_of_le_of_lt hlen (by decide)
  obtain ⟨h, hsize, -⟩ := (truncate_givenUp hd (fun hp => absurd trivial hp) hfits.indirect
    (len : Int)).of_ok hrun
  rw [truncBlocklen_nat hlt] at h
  rw [u32OfInt_nat hlt] at hsize
  have h : GivenUp v (cutDrops fs v (blocksOf len)) fs fs' := h
  constructor
  · intro he
    constructor
    · intro h15
      have := he.cut _ (le_refl _)
      rwa [h.mapped, if_neg (by omega)] at this
    · -- so far out nothing at all is given up
      intro h142
      have hno : ∀ r, ¬ cutDrops fs v (blocksOf len) r := by
        rintro (k | k | k) hr
        · have hr : blocksOf len ≤ k.val := hr
          omega
        · exact absurd hr.1 (by omega)
        · have hr : blocksOf len < 15 + k.val := hr
          omega
      by_contra hcon
      rw [not_or] at hcon
      obtain ⟨hid, hnone⟩ := hcon
      obtain ⟨r, hr, -⟩ := (h.freed_iff _).mp ((he.freed (fs.slotAt v .indirect)).mpr
        (.inr ⟨hid, rfl, fun fb h15 hfb => not_not.mp fun h0 => hnone ⟨fb, h15, hfb, h0⟩⟩))
      exact hno r hr
  · intro hc
    refine ⟨hsize, fun fb hfb => ?_, fun fb hfb => ?_, fun b => ?_⟩
    · rw [h.mapped]
      split_ifs with hcut
      · rfl
      · obtain rfl : fb = blocksOf len := by omega
        exact hc.edge (by omega)
    · rw [h.mapped, if_neg (by omega)]
    · rw [h.freed_iff, hc.drops_iff]

/-- A volume of 32 blocks, none of them free, on which every word is 3, and on it a file with the
given direct blocks and indirect block. -/
def cutVolume (direct : Fin 15 → Nat) (indirect : Nat) : SfsFs where
  sfsSuper := ⟨sfsMagic, 32, 0⟩
  sfsSuperdirty := false
  sfsDevice := ⟨32, by decide, fun _ => Bytes.ofWords fun _ => 3, fun _ => true, []⟩
  sfsVnodes := [0]
  sfsFreemap := ⟨4096, fun _ => 0xff⟩
  sfsFreemapdirty := false
  sfsRcache := fun _ => ⟨0, -1, -1⟩
  heap := fun _ => ⟨vnodeInit, ⟨73216, .file, 1, direct, indirect⟩, 4, false⟩
  nextVnode := 1
  kmallocOk := fun _ => true
  random := fun _ => 0

/-- Cutting a file that has only direct blocks. -/
theorem truncate_exact_direct :
    ∃ fs', sfsTruncate 0 1000 (cutVolume (fun k => 10 + k.val) 0) = some (.ok (), fs') ∧
      (CutExact 0 1000 (cutVolume (fun k => 10 + k.val) 0) fs' ↔
        CutClean (cutVolume (fun k => 10 + k.val) 0) 0 1000) := by
  obtain ⟨fs', hrun, -⟩ := Prog.exists_of_map (m := sfsTruncate 0 1000) (r := .ok ())
    (s := cutVolume (fun k => 10 + k.val) 0) (f := fun _ => ()) (b := ()) (by decide +kernel)
  refine ⟨fs', hrun, truncate_exact_iff (fun _ => rfl)
    ⟨by decide, by decide, fun k => ?_, by decide⟩ (by decide) hrun⟩
  show 10 + k.val < 4294967296
  omega

/-- Cutting a file to 142 blocks, 72704 bytes, leaves block 142 mapped. -/
theorem truncate_keeps_edge :
    ∃ fs', sfsTruncate 0 72704 (cutVolume (fun _ => 0) 2) = some (.ok (), fs') ∧
      ¬ CutExact 0 72704 (cutVolume (fun _ => 0) 2) fs' := by
  obtain ⟨fs', hrun, hmap⟩ := Prog.exists_of_map (m := sfsTruncate 0 72704) (r := .ok ())
    (s := cutVolume (fun _ => 0) 2) (b := (2, 3))
    (f := fun fs' => ((fs'.heap 0).svI.sfiIndirect, (fs'.disk 2).word 127)) (by decide +kernel)
  obtain ⟨hind, hword⟩ := Prod.mk.inj hmap
  refine ⟨fs', hrun, fun he => ?_⟩
  have hcut : fs'.mapped 0 (15 + (127 : Fin 128).val) = 0 := he.cut 142 (by decide)
  rw [SfsFs.mapped_entry, SfsFs.slotAt, SfsInode.ref, hind, if_neg (by decide)] at hcut
  exact absurd (hword.symm.trans hcut) (by decide)

end Exact

end Os161
