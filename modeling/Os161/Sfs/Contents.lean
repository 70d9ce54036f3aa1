/-
# The contents of files

Seen from outside, a volume maps every file to an array of bytes: `sfs_write` overwrites a window
of it, `sfs_truncate` cuts or extends it, and `sfs_read` hands out a window (`Lib/Flat.lean`).  The
code implements the array with blocks, a cache that whole-block transfers bypass, and a truncation
that touches neither the cache nor the rest of the last block.  So it is only right as long as
nothing hangs on these three.  `Clean` is the condition on the state before a transfer under which
it does what the array does:

* no piece that goes through the cache has to replace a slot (a replaced slot keeps its old tag);
* no whole block of the transfer is in the cache, unless a read finds the slot and the disk equal;
* for a write that has to add blocks to the file, no slot has kept the tag of a block of the file
  that is free by now.

A write past the end, and a truncation that extends the file, must in addition find zeros in the
bytes that they expose (`Blank`).  This file shows that under these conditions each of the three
calls does to the array of its file what it should, and leaves the arrays of the others alone.
-/
import Os161.Lib.Flat
import Os161.Sfs.View

namespace Os161

open List SfsFs Uio Flat

open Classical Function

/-! ## 1. The arrays -/

namespace SfsFs

/-- The size of file `i`. -/
def size (fs : SfsFs) (i : Nat) : Nat := (fs.inode i).sfiSize

/-- The array of bytes that file `i` is. -/
def contents (fs : SfsFs) (i : Nat) : List Byte := Flat.tabulate (fs.size i) (fs.fileByte i)

end SfsFs

/-! ## 2. The condition -/

/-- The blocks of a transfer that it does not fill. -/
def partialBlocks (off len : Nat) : Finset Nat :=
  (if off % 512 ≠ 0 then {off / 512} else ∅) ∪
    (if (off + len) % 512 ≠ 0 ∧ 0 < len then {(off + len) / 512} else ∅)

/-- A piece in this block of file `i` takes a slot of the cache. -/
def NeedsSlot (fs : SfsFs) (i : Nat) (rw : UioRw) (fb : Nat) : Prop :=
  if fs.dataRef i fb = 0 then rw = .write else slotOf fs.sfsRcache i (fs.dataRef i fb) = none

/-- The slots that a transfer takes. -/
noncomputable def slotsNeeded (fs : SfsFs) (i : Nat) (rw : UioRw) (off len : Nat) : Nat :=
  ((partialBlocks off len).filter (NeedsSlot fs i rw)).card

/-- The slots that are free. -/
noncomputable def slotsFree (fs : SfsFs) : Nat :=
  (Finset.univ.filter fun s => (fs.sfsRcache s).inodeNo = -1).card

/-- The blocks that a transfer reaches. -/
def Touches (off len fb : Nat) : Prop := off / 512 ≤ fb ∧ fb * 512 < off + len

/-- **The cache does not get in the way** of a transfer of `len` bytes at `off`. -/
structure Clean (fs : SfsFs) (i : Nat) (rw : UioRw) (off len : Nat) : Prop where
  slots : slotsNeeded fs i rw off len ≤ slotsFree fs
  whole : ∀ fb, off ≤ fb * 512 → fb * 512 + 512 ≤ off + len → fs.dataRef i fb ≠ 0 →
    slotOf fs.sfsRcache i (fs.dataRef i fb) = none ∨
      (rw = .read ∧ fs.blockView i (fs.dataRef i fb) = fs.disk (fs.dataRef i fb))
  stale : rw = .write → (∃ fb, Touches off len fb ∧ fs.dataRef i fb = 0) → NoStale fs i

/-- The bytes between two positions of a file are zero. -/
def Blank (fs : SfsFs) (i lo hi : Nat) : Prop := ∀ pos, lo ≤ pos → pos < hi → fs.fileByte i pos = 0

section Pieces

variable {t : Prop} {fs fs' fs₁ : SfsFs} {files : Set Nat} {i b fb off len n l skip : Nat}
  {rw : UioRw} {s : Fin 64}

theorem IsPartial.mem (h : IsPartial off len n l skip) :
    (off + n) / 512 ∈ partialBlocks off len := by
  have hpos := h.pos
  rw [partialBlocks, Finset.mem_union]
  rcases h.ends with ⟨rfl, hskip⟩ | ⟨rfl, hl, hl', he⟩
  · left
    rw [if_pos (by omega), Finset.mem_singleton]
    rfl
  · right
    rw [if_pos ⟨by omega, by omega⟩, Finset.mem_singleton]
    omega

theorem IsPartial.touches (h : IsPartial off len n l skip) : Touches off len ((off + n) / 512) := by
  have hpos := h.pos
  refine ⟨Nat.div_le_div_right (by omega), ?_⟩
  rcases h.ends with ⟨rfl, hskip, -⟩ | ⟨rfl, hl, hl', he⟩ <;> omega

theorem not_whole_of_mem (h : fb ∈ partialBlocks off len) :
    ¬ (off ≤ fb * 512 ∧ fb * 512 + 512 ≤ off + len) := by
  rw [partialBlocks, Finset.mem_union] at h
  rcases h with h | h
  · by_cases hc : off % 512 ≠ 0
    · rw [if_pos hc, Finset.mem_singleton] at h
      omega
    · rw [if_neg hc] at h
      exact absurd h (Finset.notMem_empty _)
  · by_cases hc : (off + len) % 512 ≠ 0 ∧ 0 < len
    · rw [if_pos hc, Finset.mem_singleton] at h
      omega
    · rw [if_neg hc] at h
      exact absurd h (Finset.notMem_empty _)

/-- There is a free slot for every piece that needs one, so none is replaced. -/
theorem Clean.freeSlot_ne_none (h : Clean fs i rw off len) (hmem : fb ∈ partialBlocks off len)
    (hneed : NeedsSlot fs i rw fb) : freeSlot fs.sfsRcache ≠ none := by
  intro hnone
  have hpos : 0 < slotsNeeded fs i rw off len :=
    Finset.card_pos.mpr ⟨fb, Finset.mem_filter.mpr ⟨hmem, hneed⟩⟩
  have hzero : slotsFree fs = 0 := by
    rw [slotsFree, Finset.card_eq_zero, Finset.filter_eq_empty_iff]
    exact fun s _ => freeSlot_eq_none.mp hnone s
  have := h.slots
  omega

theorem slotsNeeded_congr (h : ∀ fb, NeedsSlot fs' i rw fb ↔ NeedsSlot fs i rw fb) :
    slotsNeeded fs' i rw off len = slotsNeeded fs i rw off len := by
  rw [slotsNeeded, slotsNeeded, Finset.filter_congr fun fb _ => h fb]

/-- The slots that a transfer takes depend on the cache and on the blocks at its ends. -/
theorem slotsNeeded_le (hrc : fs'.sfsRcache = fs.sfsRcache)
    (hd : ∀ fb ∈ partialBlocks off len, fs'.dataRef i fb = fs.dataRef i fb) {rw' : UioRw}
    (hrw : rw' = .write → rw = .write) (h : slotsNeeded fs i rw off len ≤ slotsFree fs) :
    slotsNeeded fs' i rw' off len ≤ slotsFree fs' := by
  have hf : slotsFree fs' = slotsFree fs := by rw [slotsFree, slotsFree, hrc]
  rw [hf]
  refine (Finset.card_le_card fun fb hfb => ?_).trans h
  obtain ⟨hmem, hneed⟩ := Finset.mem_filter.mp hfb
  refine Finset.mem_filter.mpr ⟨hmem, ?_⟩
  rw [NeedsSlot, hd fb hmem, hrc] at hneed
  rw [NeedsSlot]
  split_ifs at hneed ⊢
  · exact hrw hneed
  · exact hneed

/-- Adding blocks to the file leaves the condition alone: they are not in the cache. -/
theorem Clean.grows (h : Clean fs i .write off len) (hg : Grows files fs fs₁ i)
    (hw1 : Wf t fs₁ files) (hi : i ∈ files) (hst : NoStale fs i) : Clean fs₁ i .write off len := by
  have hneed : ∀ fb, NeedsSlot fs₁ i .write fb ↔ NeedsSlot fs i .write fb := by
    intro fb
    rw [NeedsSlot, NeedsSlot]
    by_cases h0 : fs.dataRef i fb = 0
    · rw [if_pos h0]
      by_cases h1 : fs₁.dataRef i fb = 0
      · rw [if_pos h1]
      · rw [if_neg h1]
        exact iff_of_true (hg.fresh_slot hw1 hi hst h0 h1).1 rfl
    · rw [if_neg h0, hg.dataRef hi h0, if_neg h0, hg.frame.rcache]
  refine ⟨?_, fun fb hlo hhi h1 => .inl ?_, fun _ _ s b hb htag => ?_⟩
  · have hf : slotsFree fs₁ = slotsFree fs := by rw [slotsFree, slotsFree, hg.frame.rcache]
    rw [slotsNeeded_congr hneed, hf]
    exact h.slots
  · by_cases h0 : fs.dataRef i fb = 0
    · exact (hg.fresh_slot hw1 hi hst h0 h1).1
    · rw [hg.dataRef hi h0, hg.frame.rcache]
      exact (h.whole fb hlo hhi h0).resolve_right fun hr => absurd hr.1 (by decide)
  · rw [hg.frame.nblocks] at hb
    rw [hg.frame.rcache] at htag
    exact hg.marks b (hst s b hb htag)

theorem Clean.store (h : Clean fs i .write off len) (hw : Wf t fs files) (hi : i ∈ files)
    (h0 : fs.dataRef i fb ≠ 0) (data : Sector) :
    Clean (fs.store (fs.dataRef i fb) data) i .write off len := by
  have hd : ∀ fb', (fs.store (fs.dataRef i fb) data).dataRef i fb' = fs.dataRef i fb' :=
    dataRef_congr fun r => hw.store_refAt hi h0 data hi r
  have hrc : (fs.store (fs.dataRef i fb) data).sfsRcache = fs.sfsRcache := rfl
  refine ⟨?_, fun fb' hlo hhi h1 => .inl ?_, fun hwr hex => h.stale hwr ?_⟩
  · have hn : ∀ fb', NeedsSlot (fs.store (fs.dataRef i fb) data) i .write fb' ↔
        NeedsSlot fs i .write fb' := fun fb' => by simp only [NeedsSlot, hd, hrc]
    rw [slotsNeeded_congr hn]
    exact h.slots
  · rw [hd] at h1 ⊢
    exact (h.whole fb' hlo hhi h1).resolve_right fun hr => absurd hr.1 (by decide)
  · simpa only [hd] using hex

/-- A hit leaves the condition alone: the tags stay, and a read leaves the slot as it is. -/
theorem Clean.hit (h : Clean fs i rw off len) {u : Uio} {iov : List Byte} (hrw : u.uioRw = rw)
    (s : Fin 64) : Clean (fs.hit u iov skip l s) i rw off len := by
  have hslot : ∀ b, slotOf (fs.hit u iov skip l s).sfsRcache i b = slotOf fs.sfsRcache i b :=
    fun b => slotOf_update Iff.rfl
  have hd : ∀ fb, (fs.hit u iov skip l s).dataRef i fb = fs.dataRef i fb := fun _ => rfl
  have hino : ∀ s', ((fs.hit u iov skip l s).sfsRcache s').inodeNo = (fs.sfsRcache s').inodeNo := by
    intro s'
    by_cases hs : s' = s
    · subst hs
      simp [SfsFs.hit]
    · simp [SfsFs.hit, update_of_ne hs]
  refine ⟨?_, fun fb hlo hhi h0 => ?_, fun hwr hex s' b hb htag => ?_⟩
  · have hf : slotsFree (fs.hit u iov skip l s) = slotsFree fs := by
      simp only [slotsFree, hino]
    have hn : ∀ fb, NeedsSlot (fs.hit u iov skip l s) i rw fb ↔ NeedsSlot fs i rw fb :=
      fun fb => by simp only [NeedsSlot, hd, hslot]
    rw [slotsNeeded_congr hn, hf]
    exact h.slots
  · rw [hslot]
    refine (h.whole fb hlo hhi h0).imp_right fun hw => ⟨hw.1, ?_⟩
    have hsame : fs.hit u iov skip l s = fs := by
      rw [SfsFs.hit, Uio.patch, hrw, hw.1]
      simp [SfsFs.setSlot]
    rw [hsame]
    exact hw.2
  · refine h.stale hwr hex s' b hb ?_
    by_cases hs : s' = s
    · subst hs
      simpa [SfsFs.hit, SfsBufferCache.Tagged] using htag
    · simpa [SfsFs.hit, update_of_ne hs] using htag

theorem Clean.fill (h : Clean fs i rw off len) (hw : Wf t fs files) (hi : i ∈ files)
    (h0 : fs.dataRef i fb ≠ 0) (hmem : fb ∈ partialBlocks off len)
    (hno : slotOf fs.sfsRcache i (fs.dataRef i fb) = none) (hs : freeSlot fs.sfsRcache = some s)
    {c : SfsBufferCache} (hc : c.Tagged i (fs.dataRef i fb)) :
    Clean (fs.setSlot s c) i rw off len := by
  have hfree := free_of_freeSlot hs
  have hilt := hw.ino_lt hi
  have hblt := hw.dataRef_lt_int hi h0
  have hd : ∀ fb', (fs.setSlot s c).dataRef i fb' = fs.dataRef i fb' := fun _ => rfl
  -- the tag is that of no other block of the file
  have hother : ∀ fb', fb' ≠ fb → fs.dataRef i fb' ≠ 0 → slotOf (fs.setSlot s c).sfsRcache i
        (fs.dataRef i fb') = slotOf fs.sfsRcache i (fs.dataRef i fb') := by
    intro fb' hne h1
    refine slotOf_update ⟨fun htag => ?_, fun htag => absurd hfree (htag.not_free hilt)⟩
    have hinj := htag.inj hc hilt hilt (hw.dataRef_lt_int hi h1) hblt
    exact absurd (hw.dataRef_inj hi hi h1 hinj.2).2 hne
  have hself : slotOf (fs.setSlot s c).sfsRcache i (fs.dataRef i fb) ≠ none := by
    rw [Ne, slotOf_eq_none]
    intro hall
    exact hall s (by simpa using hc)
  refine ⟨?_, fun fb' hlo hhi h1 => ?_, fun hwr hex s' b hb htag => ?_⟩
  · -- one slot less is free, and one less is needed
    have hlt : slotsNeeded (fs.setSlot s c) i rw off len < slotsNeeded fs i rw off len := by
      refine Finset.card_lt_card ⟨fun fb' hm => ?_, fun hsub => ?_⟩
      · obtain ⟨hm, hneed⟩ := Finset.mem_filter.mp hm
        refine Finset.mem_filter.mpr ⟨hm, ?_⟩
        rw [NeedsSlot, hd] at hneed
        rw [NeedsSlot]
        by_cases h1 : fs.dataRef i fb' = 0
        · rwa [if_pos h1] at hneed ⊢
        · rw [if_neg h1] at hneed ⊢
          by_cases hfb : fb' = fb
          · subst hfb
            exact hno
          · rwa [hother fb' hfb h1] at hneed
      · have hin := hsub (Finset.mem_filter.mpr ⟨hmem, by rw [NeedsSlot, if_neg h0]; exact hno⟩)
        have hneed := (Finset.mem_filter.mp hin).2
        rw [NeedsSlot, hd, if_neg h0] at hneed
        exact hself hneed
    have hcard : slotsFree (fs.setSlot s c) + 1 = slotsFree fs := by
      have herase : (Finset.univ.filter fun s' => ((fs.setSlot s c).sfsRcache s').inodeNo = -1) =
          (Finset.univ.filter fun s' => (fs.sfsRcache s').inodeNo = -1).erase s := by
        ext s'
        simp only [Finset.mem_filter, Finset.mem_univ, true_and, Finset.mem_erase]
        by_cases hs' : s' = s
        · subst hs'
          simpa using hc.not_free hilt
        · simp [hs']
      rw [slotsFree, slotsFree, herase]
      exact Finset.card_erase_add_one (Finset.mem_filter.mpr ⟨Finset.mem_univ s, hfree⟩)
    have := h.slots
    omega
  · have hne : fb' ≠ fb := by
      rintro rfl
      exact not_whole_of_mem hmem ⟨hlo, hhi⟩
    rw [hd] at h1 ⊢
    rw [hother fb' hne h1]
    refine (h.whole fb' hlo hhi h1).imp_right fun ⟨hr, hv⟩ => ⟨hr, ?_⟩
    rw [blockView, hother fb' hne h1]
    rw [blockView] at hv
    cases hslot : slotOf fs.sfsRcache i (fs.dataRef i fb') with
    | none => rfl
    | some s' =>
      rw [hslot] at hv
      have hs' : s' ≠ s := by
        rintro rfl
        exact (tagged_of_slotOf hslot).not_free hilt hfree
      simpa [update_of_ne hs'] using hv
  · by_cases hs' : s' = s
    · subst hs'
      have htag' : c.Tagged i b := by simpa using htag
      obtain ⟨-, rfl⟩ := htag'.inj hc hilt hilt (hw.lt_int hb) hblt
      obtain ⟨r, -, -, hri⟩ := dataSlot_of_dataRef h0
      rw [← hri] at h0 ⊢
      exact hw.ref_isset hi h0
    · refine h.stale hwr hex s' b hb ?_
      simpa [update_of_ne hs'] using htag

end Pieces

/-! ## 3. A transfer -/

/-- How much of the first `n` bytes of a transfer has been written. -/
def written : UioRw → Nat → Nat
  | .read, _ => 0
  | .write, n => n

/-- **The volume after `n` bytes of a transfer**: the bytes written so far are in file `i`, and
everything else is as it was at the start, in `fs₀`. -/
structure Transfer (t : Prop) (files : Set Nat) (fs₀ : SfsFs) (i : Nat) (rw : UioRw)
    (off len : Nat) (data : List Byte) (n : Nat) (fs : SfsFs) : Prop where
  wf : Wf t fs files
  vnodes : fs.sfsVnodes = fs₀.sfsVnodes
  ino : ∀ w, (fs.heap w).svIno = (fs₀.heap w).svIno
  same : ∀ j ∈ files, (fs₀.inode j).SameMeta (fs.inode j)
  byte : ∀ j ∈ files, ∀ pos, fs.fileByte j pos =
    if j = i ∧ off ≤ pos ∧ pos < off + written rw n then Flat.byteAt data (pos - off)
    else fs₀.fileByte j pos
  clean : Clean fs i rw off len

/-- The uio after `n` bytes of a transfer with file `i`. -/
def transferUio (fs₀ : SfsFs) (i : Nat) (u : Uio) (n : Nat) : Uio :=
  u.advance n (u.outOf (Flat.tabulate n fun k => fs₀.fileByte i (u.uioOffset + k)))

section Transfers

variable {t : Prop} {fs₀ fs fs' : SfsFs} {files : Set Nat} {i fb off len n l skip v : Nat}
  {rw : UioRw} {data : List Byte} {u : Uio}

theorem transferUio_stream (hlen : u.uioResid = len) :
    Stream (transferUio fs₀ i u) u.uioOffset len :=
  ⟨fun _ => rfl, fun _ => by rw [transferUio, advance_resid, hlen]⟩

theorem transferUio_advance (fs₀ : SfsFs) (out : List Byte) (hout : u.uioRw = .read →
      out = tabulate l fun k => fs₀.fileByte i (u.uioOffset + (n + k))) :
    (transferUio fs₀ i u n).advance l ((transferUio fs₀ i u n).outOf out) =
      transferUio fs₀ i u (n + l) := by
  have ho : (transferUio fs₀ i u n).outOf out = u.outOf out := rfl
  rw [ho, transferUio, transferUio, advance_advance]
  congr 1
  unfold outOf
  cases hrw : u.uioRw with
  | write => rfl
  | read =>
    rw [hout hrw]
    exact (tabulate_add _ _).symm

theorem SfsFs.slice_fileBlock (hpos : off + n = fb * 512 + skip) (hin : skip + l ≤ 512) :
    (fs.fileBlock i fb).slice skip l = tabulate l fun k => fs.fileByte i (off + (n + k)) := by
  refine tabulate_congr fun k hk => ?_
  have h1 : (off + (n + k)) / 512 = fb := by omega
  have h2 : (off + (n + k)) % 512 = skip + k := by omega
  rw [fileByte, h1, h2]

variable {j : Nat}

theorem Patched.fileByte_read {iov : List Byte} (hrw : u.uioRw = .read)
    (hp : Patched files fs fs' i fb (u.patch iov skip l (fs.fileBlock i fb))) (hj : j ∈ files)
    (pos : Nat) : fs'.fileByte j pos = fs.fileByte j pos := by
  rw [fileByte, fileByte, hp j hj, patch, hrw]
  by_cases hc : j = i ∧ pos / 512 = fb
  · rw [if_pos hc, hc.1, hc.2]
  · rw [if_neg hc]

section

variable (hpos : off + n = fb * 512 + skip) (hin : skip + l ≤ 512) (hdata : n + l ≤ data.length)
  (hp : Patched files fs fs' i fb (u.patch (data.drop n) skip l (fs.fileBlock i fb)))
  (hj : j ∈ files) (pos : Nat)

include hpos hin hdata hp hj

theorem Patched.fileByte_write (hrw : u.uioRw = .write) :
    fs'.fileByte j pos = if j = i ∧ off + n ≤ pos ∧ pos < off + n + l
      then byteAt data (pos - off) else fs.fileByte j pos := by
  have htake : ((data.drop n).take l).length = l := by
    rw [length_take, length_drop]
    omega
  have hlt : pos % 512 < 512 := Nat.mod_lt _ (by decide)
  rw [fileByte, hp j hj]
  by_cases hc : j = i ∧ pos / 512 = fb
  · obtain ⟨rfl, hfb⟩ := hc
    rw [if_pos ⟨rfl, hfb⟩, patch, hrw]
    rw [Bytes.byte_splice hlt, htake]
    by_cases hwin : skip ≤ pos % 512 ∧ pos % 512 < skip + l
    · rw [if_pos hwin, if_pos ⟨rfl, by omega, by omega⟩]
      show byteAt _ _ = _
      have hk : n + (pos % 512 - skip) = pos - off := by omega
      rw [byteAt_take (by omega), byteAt_drop, hk]
    · rw [if_neg hwin, if_neg (by omega), fileByte, hfb]
  · rw [if_neg hc, if_neg, fileByte]
    rintro ⟨rfl, h1, h2⟩
    exact hc ⟨rfl, by omega⟩

/-- **A patched block extends what has been written.** -/
theorem Transfer.byte_patched (h : Transfer t files fs₀ i rw off len data n fs)
    (hrw : u.uioRw = rw) : fs'.fileByte j pos =
      if j = i ∧ off ≤ pos ∧ pos < off + written rw (n + l) then byteAt data (pos - off)
      else fs₀.fileByte j pos := by
  have hold := h.byte j hj pos
  cases rw with
  | read => exact (hp.fileByte_read hrw hj pos).trans hold
  | write =>
    rw [hp.fileByte_write hpos hin hdata hj pos hrw, hold]
    show (if _ then _ else if j = i ∧ off ≤ pos ∧ pos < off + n then _ else _) =
      if j = i ∧ off ≤ pos ∧ pos < off + (n + l) then _ else _
    split_ifs <;> first | rfl | (exfalso; omega)

end

variable {fs₁ : SfsFs} {b : Nat} {e : Errno} {iov out : List Byte}

theorem Transfer.size (h : Transfer t files fs₀ i rw off len data n fs) (hj : j ∈ files) :
    fs.size j = fs₀.size j := (h.same j hj).1

theorem Transfer.grows (h : Transfer t files fs₀ i .write off len data n fs)
    (hg : Grows files fs fs₁ i) (hw1 : Wf t fs₁ files) (hi : i ∈ files) (hst : NoStale fs i) :
    Transfer t files fs₀ i .write off len data n fs₁ where
  wf := hw1
  vnodes := hg.frame.vnodes.trans h.vnodes
  ino := fun w => (hg.frame.ino w).trans (h.ino w)
  same := fun j hj => (h.same j hj).trans (hg.same j hj)
  byte := fun j hj pos => by
    rw [fileByte, hg.fileBlock hw1 hi hst hj]
    exact h.byte j hj pos
  clean := h.clean.grows hg hw1 hi hst

section

variable (h : Transfer t files fs₀ i rw off len data n fs)

include h

theorem Transfer.bmapOk (hi : i ∈ files)
    (ht : Touches off len fb) (hok : BmapOk t files fs i fb (decide (rw = .write)) b fs₁) :
    Transfer t files fs₀ i rw off len data n fs₁ := by
  by_cases h0 : fs.dataRef i fb = 0
  · cases rw with
    | read => exact hok.still (.inl rfl) ▸ h
    | write => exact h.grows hok.grows hok.wf hi (h.clean.stale rfl ⟨fb, ht, h0⟩)
  · exact hok.still (.inr h0) ▸ h

theorem Transfer.bmapErr (hi : i ∈ files)
    (ht : Touches off len fb) (herr : BmapErr t files fs i fb (decide (rw = .write)) e fs₁) :
    Transfer t files fs₀ i rw off len data n fs₁ := by
  rcases herr.reason with ⟨-, -, rfl⟩ | ⟨-, hd, -, h0, -⟩
  · exact h
  · cases rw with
    | read => exact absurd hd (by decide)
    | write => exact h.grows herr.grows herr.wf hi (h.clean.stale rfl ⟨fb, ht, h0⟩)

/-- **A piece through the cache**, without replacement. -/
theorem Transfer.cacheStep (hi : i ∈ files)
    (hpart : IsPartial off len n l skip) (hrw : u.uioRw = rw) (hdata : n + l ≤ data.length)
    (h0 : fs.dataRef i ((off + n) / 512) ≠ 0)
    (hstep : CacheStep u (data.drop n) skip l i (fs.dataRef i ((off + n) / 512)) fs fs' out) :
    Transfer t files fs₀ i rw off len data (n + l) fs' ∧
      out = (fs.fileBlock i ((off + n) / 512)).slice skip l := by
  have hmem := hpart.mem
  have hpos : off + n = (off + n) / 512 * 512 + skip := by
    have := hpart.pos
    omega
  have hbyte := fun (hp : Patched files fs fs' i ((off + n) / 512) _) j (hj : j ∈ files) pos =>
    h.byte_patched hpos hpart.inside hdata hp hj pos hrw
  rw [fileBlock_of_ne h0]
  cases hstep with
  | @hit s hs =>
    refine ⟨⟨h.wf.setSlot _ _, h.vnodes, h.ino, h.same, hbyte (patched_hit h.wf hi h0 hs),
      h.clean.hit hrw s⟩, ?_⟩
    rw [blockView_of_some hs]
  | @fill s hno hs =>
    refine ⟨⟨h.wf.setSlot _ _, h.vnodes, h.ino, h.same,
      hbyte (patched_fill h.wf hi h0 hno hs), h.clean.fill h.wf hi h0 hmem hno hs ⟨rfl, rfl⟩⟩, ?_⟩
    rw [blockView_of_none hno]
  | replace hno hfull =>
    exact absurd hfull (h.clean.freeSlot_ne_none hmem (by rw [NeedsSlot, if_neg h0]; exact hno))

end

/-- What a transfer with a loaded vnode and a kernel uio is made with. -/
structure Setup (fs₀ : SfsFs) (v : Nat) (u : Uio) (data : List Byte) : Prop where
  vnode : v ∈ fs₀.sfsVnodes
  kernel : u.Kernel data
  covers : u.uioResid ≤ data.length
  bound : u.uioOffset + u.uioResid < 4294967296

theorem Setup.kernel_at (hs : Setup fs₀ v u data) (n : Nat) :
    (transferUio fs₀ i u n).Kernel (data.drop n) := hs.kernel.advance n _

theorem Transfer.vnode_mem (h : Transfer t files fs₀ i rw off len data n fs)
    (hs : Setup fs₀ v u data) : v ∈ fs.sfsVnodes := h.vnodes ▸ hs.vnode

/-- Why a transfer can fail: a write on a full volume, or a transfer past the largest file. -/
def IoFails (u : Uio) (e : Errno) : Prop :=
  (e = .enospc ∧ u.uioRw = .write) ∨ (e = .efbig ∧ 143 * 512 < u.uioOffset + u.uioResid)

theorem BmapErr.ioFails (h : BmapErr t files fs i ((u.uioOffset + n) / 512)
    (decide (u.uioRw = .write)) e fs') (hle : n ≤ u.uioResid)
    (hn : n < u.uioResid ∨ (u.uioOffset + n) % 512 ≠ 0) : IoFails u e := by
  rcases h.reason with ⟨he, hfb, -⟩ | ⟨he, hd, -⟩
  · exact .inr ⟨he, by omega⟩
  · exact .inl ⟨he, by simpa using hd⟩

variable (hs : Setup fs₀ v u data) (hino : (fs₀.heap v).svIno = i) (hmem : i ∈ files)

include hs hino hmem

theorem Transfer.partialio (h : Transfer t files fs₀ i u.uioRw u.uioOffset u.uioResid data n fs)
    (hpart : IsPartial u.uioOffset u.uioResid n l skip) :
    Wp False (sfsPartialio v skip l)
      (fun _ st => Transfer t files fs₀ i u.uioRw u.uioOffset u.uioResid data
          (n + l) st.1 ∧ st.2 = transferUio fs₀ i u (n + l))
      (fun e st => BmapErr t files fs i ((u.uioOffset + n) / 512)
          (decide (u.uioRw = .write)) e st.1 ∧ st.2 = transferUio fs₀ i u n)
      (fs, transferUio fs₀ i u n) := by
  have hi : (fs.heap v).svIno = i := (h.ino v).trans hino
  have hcov := hs.covers
  have hbound := hs.bound
  have hle := hpart.le
  have hpos : u.uioOffset + n = (u.uioOffset + n) / 512 * 512 + skip := by
    have := hpart.pos
    omega
  have hoff : (transferUio fs₀ i u n).uioOffset = u.uioOffset + n := rfl
  have hrw : (transferUio fs₀ i u n).uioRw = u.uioRw := rfl
  -- what a read hands out is what the file had at the start
  have hout : ∀ {B : Sector} {fs' : SfsFs},
      Transfer t files fs₀ i u.uioRw u.uioOffset u.uioResid data n fs' →
      B = fs'.fileBlock i ((u.uioOffset + n) / 512) → u.uioRw = .read →
      B.slice skip l = tabulate l fun k => fs₀.fileByte i (u.uioOffset + (n + k)) := by
    intro B fs' h' hB hread
    rw [hB, slice_fileBlock hpos hpart.inside]
    refine tabulate_congr fun k _ => ?_
    rw [h'.byte _ hmem, hread, if_neg (by simp only [written]; omega)]
  refine wp_partialio h.wf (h.vnode_mem hs) (hs.kernel_at n) ?_ ?_ hpart.inside ?_ ?_ ?_ ?_ ?_
  · rw [length_drop]
    omega
  · rw [transferUio, advance_resid]
    omega
  · omega
  · intro b fs₁ hb hok hno hfull
    rw [hi, hoff, hrw] at hok
    rw [hi] at hno
    have h1 := h.bmapOk hmem hpart.touches hok
    refine absurd (hok.grows.frame.rcache ▸ hfull) (h1.clean.freeSlot_ne_none hpart.mem ?_)
    rw [NeedsSlot, if_neg (hok.block ▸ hb), ← hok.block, hok.grows.frame.rcache]
    exact hno
  · intro e fs' herr
    rw [hi, hoff, hrw] at herr
    exact ⟨herr, rfl⟩
  · intro hread hzero
    rw [hi, hoff] at hzero
    rw [hrw] at hread
    refine ⟨⟨h.wf, h.vnodes, h.ino, h.same, ?_, h.clean⟩, ?_⟩
    · intro j hj pos
      rw [h.byte j hj pos, hread]
      rfl
    · have hz : replicate l (0 : Byte) = (0 : Sector).slice skip l := by
        simp [Bytes.slice, map_const']
      have hadv := transferUio_advance (u := u) fs₀ _
        (hout (B := 0) h (fileBlock_of_zero hzero).symm)
      rw [← hadv, hz, outOf, hrw, hread]
  · intro b fs₁ fs' out hb hok hstep
    rw [hi, hoff, hrw] at hok
    rw [hi, hok.block] at hstep
    have h1 := h.bmapOk hmem hpart.touches hok
    obtain ⟨h', hout'⟩ := h1.cacheStep hmem hpart hrw (by omega) (hok.block ▸ hb) hstep
    refine ⟨h', ?_⟩
    subst hout'
    exact transferUio_advance fs₀ _ (hout h1 rfl)

theorem transfer_partialRule : PartialRule False v u.uioOffset u.uioResid (transferUio fs₀ i u)
    (Transfer t files fs₀ i u.uioRw u.uioOffset u.uioResid data)
    (fun n e fs => IoFails u e ∧
      Transfer t files fs₀ i u.uioRw u.uioOffset u.uioResid data n fs) := by
  intro n l skip fs h hpart
  refine (h.partialio hs hino hmem hpart).imp (fun _ _ h' => h') ?_
  rintro e st ⟨herr, hu⟩
  have hle := hpart.le
  refine ⟨⟨herr.ioFails (by omega) ?_, h.bmapErr hmem hpart.touches herr⟩, hu⟩
  rcases hpart.ends with ⟨-, hskip, -⟩ | ⟨-, hl, -, -⟩
  · exact .inr (hpart.pos ▸ hskip)
  · exact .inl (by omega)

theorem transfer_block : BlockRule False v u.uioOffset u.uioResid (transferUio fs₀ i u)
    (Transfer t files fs₀ i u.uioRw u.uioOffset u.uioResid data)
    (fun n e fs => IoFails u e ∧
      Transfer t files fs₀ i u.uioRw u.uioOffset u.uioResid data n fs) := by
  intro n fs h hal hle
  have hi : (fs.heap v).svIno = i := (h.ino v).trans hino
  have hcov := hs.covers
  have hbound := hs.bound
  obtain ⟨fb, hfb⟩ : ∃ fb, (u.uioOffset + n) / 512 = fb := ⟨_, rfl⟩
  have hpos : u.uioOffset + n = fb * 512 + 0 := by omega
  have htouch : Touches u.uioOffset u.uioResid fb :=
    ⟨hfb ▸ Nat.div_le_div_right (by omega), by omega⟩
  have hoff : (transferUio fs₀ i u n).uioOffset = u.uioOffset + n := rfl
  have hrw : (transferUio fs₀ i u n).uioRw = u.uioRw := rfl
  -- a whole block that is not in the cache, or is there as on disk
  have hview {fs'} (hc : Clean fs' i u.uioRw u.uioOffset u.uioResid) :=
    hc.whole fb (by omega) (by omega)
  have hread : u.uioRw = .read → ∀ out, out = (fs.fileBlock i fb).slice 0 512 →
      Transfer t files fs₀ i u.uioRw u.uioOffset u.uioResid data (n + 512) fs ∧
        (transferUio fs₀ i u n).advance 512 out = transferUio fs₀ i u (n + 512) := by
    intro hr out ho
    refine ⟨⟨h.wf, h.vnodes, h.ino, h.same, ?_, h.clean⟩, ?_⟩
    · intro j hj pos
      rw [h.byte j hj pos, hr]
      rfl
    · rw [slice_fileBlock hpos (by omega)] at ho
      have hadv := transferUio_advance (u := u) (l := 512) fs₀ out (fun _ => by
          rw [ho]
          refine tabulate_congr fun k _ => ?_
          rw [h.byte _ hmem, hr, if_neg (by simp only [written]; omega)])
      rw [← hadv, outOf, hrw, hr]
  refine wp_blockio h.wf (h.vnode_mem hs) (hs.kernel_at n) ?_ ?_ ?_ ?_ ?_ ?_ ?_
  · rw [length_drop]
    omega
  · rw [transferUio, advance_resid]
    omega
  · omega
  · intro e fs' herr
    rw [hi, hoff, hrw, hfb] at herr
    exact ⟨⟨(hfb ▸ herr).ioFails (by omega) (.inl (by omega)), h.bmapErr hmem htouch herr⟩, rfl⟩
  · intro hr hzero
    rw [hi, hoff, hfb] at hzero
    refine hread hr _ ?_
    rw [fileBlock_of_zero hzero]
    simp [Bytes.slice, map_const']
  · intro b hr hb0 hb
    rw [hi, hoff, hfb] at hb
    refine hread hr _ ?_
    rw [fileBlock_of_ne (hb ▸ hb0), hb]
    rcases hview h.clean (hb ▸ hb0) with hno | ⟨-, heq⟩
    · rw [blockView_of_none hno]
      rfl
    · rw [heq]
      rfl
  · intro b fs₁ hwr hb0 hok
    rw [hi, hoff, hfb] at hok
    have hwr : u.uioRw = .write := hwr
    have h1 := h.bmapOk hmem htouch (by simpa [hwr] using hok)
    have h0 := hok.block ▸ hb0
    have hno := (hview h1.clean h0).resolve_right fun hr => absurd (hwr.symm.trans hr.1) (by decide)
    have hblk : (Bytes.ofList ((data.drop n).take 512) : Sector) = u.patch (data.drop n) 0 512
          (fs₁.fileBlock i fb) := by
      rw [patch, hwr]
      refine (Bytes.splice_all ?_).symm
      rw [length_take, length_drop]
      show min 512 _ = 512
      omega
    have hp := patched_store h1.wf hmem h0 (u.patch (data.drop n) 0 512 (fs₁.fileBlock i fb)) hno
    rw [hblk, hok.block]
    refine ⟨⟨h1.wf.storeData hmem h0 _, h1.vnodes, h1.ino, fun j hj => ?_, fun j hj pos => ?_,
      ?_⟩, ?_⟩
    · rw [h1.wf.store_inode hmem h0 _ hj]
      exact h1.same j hj
    · exact h1.byte_patched hpos (by omega) (by omega) hp hj pos rfl
    · have hc := h1.clean
      rw [hwr] at hc ⊢
      exact hc.store h1.wf hmem h0 _
    · have hadv := transferUio_advance (i := i) (n := n) (l := 512) fs₀ []
        fun hr => absurd (hwr.symm.trans hr) (by decide)
      rw [← hadv, outOf, hrw, hwr]

end Transfers

/-! ## 4. Writing and reading -/

section Io

variable {t : Prop} {fs fs' : SfsFs} {files : Set Nat} {v i n : Nat} {u : Uio} {data : List Byte}

theorem Wf.setSize (hw : Wf t fs files) (hv : v ∈ fs.sfsVnodes) (sz : Nat) (hsz : sz < 4294967296) :
    Wf t (fs.setInode v { (fs.heap v).svI with sfiSize := sz }) files ∧
      (∀ j pos, (fs.setInode v { (fs.heap v).svI with sfiSize := sz }).fileByte j pos =
        fs.fileByte j pos) ∧
      (∀ j off len rw, slotsNeeded fs j rw off len ≤ slotsFree fs →
        slotsNeeded (fs.setInode v { (fs.heap v).svI with sfiSize := sz }) j rw off len ≤
          slotsFree (fs.setInode v { (fs.heap v).svI with sfiSize := sz })) ∧
      ∀ j, (fs.setInode v { (fs.heap v).svI with sfiSize := sz }).size j =
        if j = (fs.heap v).svIno then sz else fs.size j := by
  have hfits := hw.fits _ (hw.table.ino_mem v hv)
  rw [hw.table.inode hv] at hfits
  have hd := fun j => dataRef_congr (fun r => hw.refAt_setMeta hv
    (n := { (fs.heap v).svI with sfiSize := sz }) rfl rfl j r)
  refine ⟨hw.setMeta hv rfl rfl { hfits with size := hsz } rfl,
    fun j pos => ?_, fun j off len rw h => ?_, fun j => ?_⟩
  · rw [fileByte, fileByte, fileBlock, hd]
    rfl
  · have hrc : (fs.setInode v { (fs.heap v).svI with sfiSize := sz }).sfsRcache =
      fs.sfsRcache := rfl
    exact slotsNeeded_le hrc (fun fb _ => hd j fb) (fun hrw => hrw) h
  · rw [size, hw.table.inode_setInode hv]
    by_cases hj : j = (fs.heap v).svIno
    · rw [if_pos hj, if_pos hj]
    · rw [if_neg hj, if_neg hj]
      rfl

theorem Transfer.start {rw : UioRw} (hw : Wf t fs files)
    (hc : Clean fs i rw u.uioOffset u.uioResid) :
    Transfer t files fs i rw u.uioOffset u.uioResid data 0 fs := by
  refine ⟨hw, rfl, fun _ => rfl, fun _ _ => .refl _, fun j _ pos => (if_neg ?_).symm, hc⟩
  have h0 : written rw 0 = 0 := by cases rw <;> rfl
  omega

theorem transferUio_zero (i : Nat) : transferUio fs i u 0 = u := by
  have hout : u.outOf (tabulate 0 fun k => fs.fileByte i (u.uioOffset + k)) = [] := by
    unfold outOf
    cases u.uioRw <;> rfl
  rw [transferUio, hout, advance_zero]

/-- **The volume after a write** of the first `n` bytes of `data` at the offset of the uio. -/
structure Wrote (t : Prop) (files : Set Nat) (fs : SfsFs) (i : Nat) (u : Uio) (data : List Byte)
    (n : Nat) (st : SfsFs × Uio) : Prop where
  wf : Wf t st.1 files
  vnodes : st.1.sfsVnodes = fs.sfsVnodes
  ino : ∀ w, (st.1.heap w).svIno = (fs.heap w).svIno
  moved : u.uioResid = st.2.uioResid + n
  contents : ∀ j ∈ files, st.1.contents j =
    if j = i then Flat.overwrite (fs.contents i) u.uioOffset (data.take n) else fs.contents j
  type : ∀ j ∈ files, (st.1.inode j).sfiType = (fs.inode j).sfiType
  slots : slotsNeeded st.1 i .write u.uioOffset u.uioResid ≤ slotsFree st.1

variable (hs : Setup fs v u data) (hino : (fs.heap v).svIno = i)

include hs hino

/-- The adjustment of the length makes the transfer a write of the array. -/
theorem Transfer.wrote (hmem : i ∈ files) (hn : n ≤ u.uioResid)
    (hblank : Blank fs i (fs.size i) u.uioOffset)
    (h : Transfer t files fs i .write u.uioOffset u.uioResid data n fs') :
    Wrote t files fs i u data n (fs'.extend v (u.uioOffset + n), transferUio fs i u n) := by
  have hv' := h.vnode_mem hs
  have hi : (fs'.heap v).svIno = i := (h.ino v).trans hino
  have hbound := hs.bound
  have hcov := hs.covers
  have hsize : (fs'.heap v).svI.sfiSize = fs.size i := by
    rw [← h.size hmem, SfsFs.size, ← hi, h.wf.table.inode hv']
  have hmoved : u.uioResid = (transferUio fs i u n).uioResid + n := by
    rw [transferUio, Uio.advance_resid]
    omega
  have hu : u32 (u.uioOffset + n) = u.uioOffset + n := u32_of_lt (by omega)
  obtain ⟨hwf, hbyte, hslots, hsz⟩ := h.wf.setSize hv' (u.uioOffset + n) (by omega)
  -- both branches of the adjustment are a size and the bytes of the transfer
  have hcont : ∀ fs'' : SfsFs, (∀ j pos, fs''.fileByte j pos = fs'.fileByte j pos) →
      (∀ j ∈ files, fs''.size j = if j = i
        then max (fs.size i) (u.uioOffset + n) else fs.size j) →
      ∀ j ∈ files, fs''.contents j = if j = i
        then Flat.overwrite (fs.contents i) u.uioOffset (data.take n)
        else fs.contents j := by
    intro fs'' hb hz j hj
    rw [SfsFs.contents, hz j hj]
    by_cases hji : j = i
    · subst hji
      rw [if_pos rfl, if_pos rfl]
      refine Flat.overwrite_eq (by omega) hblank fun pos => ?_
      rw [hb, h.byte _ hj]
      simp only [written, true_and]
    · rw [if_neg hji, if_neg hji]
      refine Flat.tabulate_congr fun pos _ => ?_
      rw [hb, h.byte j hj, if_neg fun hh => hji hh.1]
  rw [SfsFs.extend, hu]
  by_cases hlt : (fs'.heap v).svI.sfiSize < u.uioOffset + n
  · rw [if_pos hlt]
    refine ⟨hwf, h.vnodes, fun w => ?_, hmoved, hcont _ hbyte fun j hj => ?_, fun j hj => ?_,
      hslots _ _ _ _ h.clean.slots⟩
    · exact ((Frame.setInode fs' v _).ino w).trans (h.ino w)
    · rw [hsz, hi]
      by_cases hji : j = i
      · rw [if_pos hji, if_pos hji]
        omega
      · rw [if_neg hji, if_neg hji]
        exact h.size hj
    · rw [h.wf.table.inode_setInode hv']
      split_ifs with hji
      · rw [← h.wf.table.inode hv', ← hji]
        exact (h.same j hj).2.1
      · exact (h.same j hj).2.1
  · rw [if_neg hlt]
    refine ⟨h.wf, h.vnodes, h.ino, hmoved, hcont _ (fun _ _ => rfl) (fun j hj => ?_),
      fun j hj => (h.same j hj).2.1, h.clean.slots⟩
    rw [h.size hj]
    by_cases hji : j = i
    · rw [if_pos hji, hji]
      omega
    · rw [if_neg hji]

section

variable (hw : Wf t fs files) (hrw : u.uioRw = .write)
  (hc : Clean fs i .write u.uioOffset u.uioResid) (hblank : Blank fs i (fs.size i) u.uioOffset)

include hw hrw hc hblank

/-- **`sfs_write` overwrites the array**, with as many bytes as it moved. -/
theorem sfsWrite_contents : Wp False (sfsWrite v) (fun _ => Wrote t files fs i u data u.uioResid)
      (fun e st => IoFails u e ∧ ∃ n, Wrote t files fs i u data n st) (fs, u) := by
  have hmem := hino ▸ hw.table.ino_mem v hs.vnode
  have hbody := wp_ioBody (transferUio_stream rfl) (transfer_partialRule (t := t) hs hino hmem)
    (transfer_block hs hino hmem) (.start hw (hrw.symm ▸ hc))
  rw [transferUio_zero] at hbody
  refine wp_write hrw (hbody.imp ?_ ?_)
  · rintro _ ⟨fs', u'⟩ ⟨h, hu'⟩
    obtain rfl : u' = _ := hu'
    rw [hrw] at h
    exact ⟨hrw, h.wrote hs hino hmem le_rfl hblank⟩
  · rintro e ⟨fs', u'⟩ ⟨n, hn, ⟨hfail, h⟩, hu'⟩
    obtain rfl : u' = _ := hu'
    rw [hrw] at h
    exact ⟨hrw, hfail, n, h.wrote hs hino hmem hn hblank⟩

/-- A write inside one of the direct blocks, from inside the block on, does not fail as long as
there is a free block. -/
theorem sfsWrite_short (hin : u.uioOffset % 512 ≠ 0) (hpos : 0 < u.uioResid)
    (hone : u.uioOffset % 512 + u.uioResid ≤ 512) (hdirect : u.uioOffset / 512 < 15) {b : Nat}
    (hb : b < fs.nblocks) (hfree : fs.sfsFreemap.isset b = false) :
    Wp False (sfsWrite v) (fun _ => Wrote t files fs i u data u.uioResid)
      (fun _ _ => False) (fs, u) := by
  have hmem := hino ▸ hw.table.ino_mem v hs.vnode
  have hbody := wp_ioBody (p := False) (v := v)
    (show Stream (transferUio fs i u) _ _ from transferUio_stream rfl)
    (I := fun n fs' => (n = 0 → fs' = fs) ∧
      Transfer t files fs i u.uioRw u.uioOffset u.uioResid data n fs')
    (F := fun _ _ _ => False) ?_ ?_ ⟨fun _ => rfl, Transfer.start hw (hrw.symm ▸ hc)⟩
  · rw [transferUio_zero] at hbody
    refine wp_write hrw (hbody.imp ?_ ?_)
    · rintro _ ⟨fs', u'⟩ ⟨⟨-, h⟩, hu'⟩
      obtain rfl : u' = _ := hu'
      rw [hrw] at h
      exact ⟨hrw, h.wrote hs hino hmem le_rfl hblank⟩
    · rintro e st ⟨n, -, hf, -⟩
      exact hf.elim
  · -- the first piece is the only one
    rintro n l skip fs' ⟨hn, h⟩ hpart
    have hn0 : n = 0 := by
      have := hpart.pos
      rcases hpart.ends with ⟨h0, -⟩ | ⟨h1, h2, h3, h4⟩ <;> omega
    obtain rfl : fs' = fs := hn hn0
    subst hn0
    refine (h.partialio hs hino hmem hpart).imp ?_ ?_
    · rintro _ st ⟨h', hu'⟩
      have hl : 0 < l := by
        have := hpart.pos
        rcases hpart.ends with ⟨-, -, hl⟩ | ⟨-, hl, -⟩ <;> omega
      exact ⟨⟨fun h0 => by omega, h'⟩, hu'⟩
    · rintro e st ⟨herr, -⟩
      exfalso
      rcases herr.reason with ⟨-, hbig, -⟩ | ⟨-, -, -, -, hstill, hfull⟩
      · omega
      · have hsame := hstill (by rwa [Nat.add_zero])
        have := hfull b hb
        rw [hsame, hfree] at this
        exact absurd this (by decide)
  · intro n fs' _ _ hle
    omega

end

/-- **The volume and the uio after a read**: no file has changed, and the bytes handed out are a
window of the array. -/
structure DidRead (t : Prop) (files : Set Nat) (fs : SfsFs) (i : Nat) (u : Uio)
    (st : SfsFs × Uio) : Prop where
  wf : Wf t st.1 files
  vnodes : st.1.sfsVnodes = fs.sfsVnodes
  ino : ∀ w, (st.1.heap w).svIno = (fs.heap w).svIno
  contents : ∀ j ∈ files, st.1.contents j = fs.contents j
  moved : st.2.uioMoved = u.uioMoved ++ Flat.window (fs.contents i) u.uioOffset u.uioResid

omit hs hino in
theorem Transfer.contents_read {off len : Nat}
    (h : Transfer t files fs i .read off len data n fs') {j : Nat} (hj : j ∈ files) :
    fs'.contents j = fs.contents j := by
  rw [contents, h.size hj]
  refine tabulate_congr fun pos _ => ?_
  rw [h.byte j hj, if_neg (by simp only [written]; omega)]

/-- **`sfs_read` hands out a window of the array**, as far as the file reaches. -/
theorem sfsRead_contents (hw : Wf t fs files) (hrw : u.uioRw = .read)
    (hc : Clean fs i .read u.uioOffset (min u.uioResid (fs.size i - u.uioOffset)))
    (hmax : u.uioOffset + u.uioResid ≤ 143 * 512) :
    Wp False (sfsRead v) (fun _ => DidRead t files fs i u) (fun _ _ => False) (fs, u) := by
  have hmem := hino ▸ hw.table.ino_mem v hs.vnode
  have hsize : (fs.heap v).svI.sfiSize = fs.size i := by
    rw [size, ← hino, hw.table.inode hs.vnode]
  have hwin : window (fs.contents i) u.uioOffset u.uioResid =
      tabulate (min u.uioResid (fs.size i - u.uioOffset))
        fun k => fs.fileByte i (u.uioOffset + k) := window_tabulate _ _
  by_cases heof : (fs.heap v).svI.sfiSize ≤ u.uioOffset
  · refine wp_read_eof hrw heof ⟨hw, rfl, fun _ => rfl, fun _ _ => rfl, ?_⟩
    have h0 : fs.size i - u.uioOffset = 0 := by omega
    rw [hwin, h0, Nat.min_zero]
    exact (append_nil _).symm
  · rw [← hsize] at hc hwin
    have hs' : Setup fs v { u with
        uioResid := min u.uioResid ((fs.heap v).svI.sfiSize - u.uioOffset) } data :=
      ⟨hs.vnode, ⟨hs.kernel.iov, hs.kernel.seg⟩, (min_le_left _ _).trans hs.covers,
        lt_of_le_of_lt (Nat.add_le_add_left (min_le_left _ _) _) hs.bound⟩
    have hbody := wp_ioBody (transferUio_stream rfl) (transfer_partialRule (t := t) hs' hino hmem)
      (transfer_block hs' hino hmem) (.start hw (hrw.symm ▸ hc))
    rw [transferUio_zero] at hbody
    refine wp_read hrw (by omega) (hbody.imp ?_ ?_)
    · rintro _ ⟨fs', u'⟩ ⟨h, hu'⟩
      obtain rfl : u' = _ := hu'
      have h' := h
      rw [show ({ u with uioResid := _ } : Uio).uioRw = .read from hrw] at h'
      refine ⟨hrw, h.wf, h.vnodes, h.ino, fun j hj => h'.contents_read hj, ?_⟩
      rw [hwin]
      show u.uioMoved ++ outOf _ _ = _
      rw [outOf, show ({ u with uioResid := _ } : Uio).uioRw = .read from hrw]
    · rintro e ⟨fs', u'⟩ ⟨n, hn, ⟨hfail, h⟩, hu'⟩
      rcases hfail with ⟨-, hwr⟩ | ⟨-, hbig⟩
      · exact absurd (hrw.symm.trans hwr) (by decide)
      · have hbig : 143 * 512 < u.uioOffset +
          min u.uioResid ((fs.heap v).svI.sfiSize - u.uioOffset) := hbig
        omega

end Io

/-! ## 5. Truncating -/

section Truncating

variable {t : Prop} {fs fs' : SfsFs} {files : Set Nat} {v i j len : Nat} {z : Int} {fb : Nat}

section

variable (h : Truncated files fs fs' i z) (hj : j ∈ files) (hkeep : j ≠ i ∨ fb < truncBlocklen z)

include h hj hkeep

/-- A truncation leaves the blocks in front of the end alone, and other files. -/
theorem Truncated.dataRef : fs'.dataRef j fb = fs.dataRef j fb := by
  have hnot : ∀ r, dataSlot fb = some r → ¬ (j = i ∧ truncDrops fs i (truncBlocklen z) r) := by
    rintro r hr ⟨hji, hdrop⟩
    have hlt := hkeep.resolve_left (not_not.mpr hji)
    unfold dataSlot at hr
    split at hr
    · cases hr
      exact absurd hdrop (Nat.not_le_of_lt hlt)
    · split at hr
      · cases hr
        have hdrop : truncBlocklen z < 15 + (fb - 15) := hdrop
        omega
      · exact absurd hr (by simp)
  unfold SfsFs.dataRef
  cases hr : dataSlot fb with
  | none => rfl
  | some r => exact (h.ref j hj r).trans (if_neg (hnot r hr))

theorem Truncated.fileBlock : fs'.fileBlock j fb = fs.fileBlock j fb := by
  have hd := h.dataRef hj hkeep
  by_cases h0 : fs.dataRef j fb = 0
  · rw [fileBlock_of_zero h0, fileBlock_of_zero (hd.trans h0)]
  · obtain ⟨r, -, hne, hri⟩ := dataSlot_of_dataRef (hd.symm ▸ h0 : fs'.dataRef j fb ≠ 0)
    have hdisk := h.data j hj r hne (by rw [hri, hd]; exact h0)
    rw [hri, hd] at hdisk
    rw [fileBlock_of_ne h0, fileBlock_of_ne (hd.symm ▸ h0), hd, blockView,
      blockView, h.frame.rcache, hdisk]

end

theorem Truncated.fileByte (h : Truncated files fs fs' i len) (hlen : len < 4294967296)
    (hj : j ∈ files) {pos : Nat} (hkeep : j ≠ i ∨ pos < (len + 511) / 512 * 512) :
    fs'.fileByte j pos = fs.fileByte j pos := by
  rw [SfsFs.fileByte, SfsFs.fileByte, h.fileBlock hj]
  refine hkeep.imp_right fun hpos => ?_
  rw [truncBlocklen_nat hlen]
  omega

/-- **`sfs_truncate` cuts or extends the array**, if what it exposes is blank. -/
theorem Truncated.contents (h : Truncated files fs fs' i len) (hlen : len < 4294967296)
    (hblank : Blank fs i (fs.size i) len) (hj : j ∈ files) :
    fs'.contents j = if j = i then Flat.resize (fs.contents i) len else fs.contents j := by
  have hsize := h.size j hj
  rw [u32OfInt_nat hlen] at hsize
  rw [SfsFs.contents, SfsFs.size, hsize]
  by_cases hji : j = i
  · subst hji
    rw [if_pos rfl, if_pos rfl]
    refine Flat.tabulate_congr fun pos hpos => ?_
    rw [h.fileByte hlen hj (.inr (by omega)), SfsFs.contents, Flat.byteAt_tabulate]
    by_cases hlt : pos < fs.size j
    · rw [if_pos hlt]
    · rw [if_neg hlt, hblank pos (by omega) hpos]
  · rw [if_neg hji, if_neg hji]
    exact Flat.tabulate_congr fun pos _ => h.fileByte hlen hj (.inl hji)

end Truncating

end Os161
