/-
# Is the buffer cache transparent?

A cache should not be seen.  `sfs_partialio` would do the same if it read the block from the disk,
moved the bytes, and wrote it back (`sfsPartialioUncached`).  Here the two are run side by side, on
two copies of a volume, with the same uios (`PartialOp.call`).

They do the same as long as no slot is replaced.  When the cache is full, the code writes a random
slot back, reads the new block into it, and LEAVES THE TAG: from then on the slot hands out the new
block under the name of the old one.  `Twin.victims` is the set of slots to which that has happened.
It is not in the code; it is what the condition is about.  A read is safe if no such slot has the
tag of its block, and `partialio_transparent` says that in every run every safe read, and every
write, transfers the same bytes on both sides.

The condition is needed: `victim_is_read` fills the cache with 64 blocks of a file, reads one more,
and then reads the first block again.
-/
import Os161.Mksfs
import Os161.Sfs.Live

namespace Os161

open Function

/-! ## 1. Two volumes -/

/-- `sfs_partialio` without the cache. -/
def sfsPartialioUncached (v skipstart len : Nat) : SfsIo Unit := do
  let uio ← theUio
  assert (skipstart + len ≤ sectSize)
  let fileblock := u32 (uio.uioOffset / sectSize)
  let diskblock ← onFst (sfsBmap v fileblock (decide (uio.uioRw = .write)))
  if diskblock = 0 then do
    assert (uio.uioRw = .read)
    uiomoveIobuf 0 diskblock skipstart len
  else do
    let iobuf ← onFst (onDevice (sfsRblock diskblock))
    uiomoveIobuf iobuf diskblock skipstart len

/-- A volume with a cache, a copy of it without, and the slots that have been replaced. -/
structure Twin where
  cached : SfsFs
  plain : SfsFs
  victims : Set (Fin 64)

/-- A call of `sfs_partialio`. -/
structure PartialOp where
  v : Nat
  skipstart : Nat
  len : Nat
  uio : Uio

open PartialOp

namespace PartialOp

variable (op : PartialOp)

/-- The inode the call is for. -/
def ino (fs : SfsFs) : Nat := (fs.heap op.v).svIno

/-- The block of the file the call is for. -/
def fileblock : Nat := op.uio.uioOffset / 512

/-- The disk block the call is for. -/
def block (fs : SfsFs) : Nat := fs.dataRef (op.ino fs) op.fileblock

/-- The slot that the call replaces, if it does. -/
def replaced (fs : SfsFs) : Set (Fin 64) :=
  {s | s = fs.victim ∧ slotOf fs.sfsRcache (op.ino fs) (op.block fs) = none ∧
    freeSlot fs.sfsRcache = none}

/-- The call, on both volumes.  It returns the two uios. -/
def call : Prog Errno Twin (Uio × Uio) := do
  modify fun s => { s with victims := s.victims ∪ op.replaced s.cached }
  let (_, uio) ← zoom Twin.cached (fun s fs => { s with cached := fs })
    (withLocal op.uio (sfsPartialio op.v op.skipstart op.len))
  let (_, uio') ← zoom Twin.plain (fun s fs => { s with plain := fs })
    (withLocal op.uio (sfsPartialioUncached op.v op.skipstart op.len))
  pure (uio, uio')

/-- The calls that may be made: any part of any block that a loaded file has, with a uio over a
kernel buffer that is large enough. -/
structure Legal (s : Twin) : Prop where
  vnode : op.v ∈ s.cached.sfsVnodes
  seg : op.uio.uioSegflg = .sys
  iov : ∃ iov, op.uio.uioIov = [iov] ∧ op.len ≤ iov.length
  resid : op.len ≤ op.uio.uioResid
  inside : op.skipstart + op.len ≤ 512
  offset : op.uio.uioOffset < 4294967296
  mapped : op.block s.cached ≠ 0

/-- **The condition**: a read does not find its block in a slot that has been replaced. -/
def Safe (s : Twin) : Prop :=
  op.uio.uioRw = .read →
    ∀ sl ∈ s.victims, ¬ (s.cached.sfsRcache sl).Tagged (op.ino s.cached) (op.block s.cached)

end PartialOp

/-! ## 2. One call -/

section Call

open Classical

variable {t p : Prop} {fs fs' : SfsFs} {files : Set Nat} {v i j b fb : Nat} {u : Uio}
  {iov out : List Byte} {skip len : Nat}

/-- The volume after a transfer with block `b` on disk. -/
def SfsFs.direct (fs : SfsFs) (u : Uio) (iov : List Byte) (skip len b : Nat) : SfsFs :=
  match u.uioRw with
  | .read => fs
  | .write => fs.store b ((fs.disk b).splice skip (iov.take len))

variable {Q : Unit → SfsFs × Uio → Prop} {E : Errno → SfsFs × Uio → Prop}

variable (hw : Wf t fs files) (hv : v ∈ fs.sfsVnodes) (hk : u.Kernel iov)
  (hiov : len ≤ iov.length) (hr : len ≤ u.uioResid) (hskip : skip + len ≤ 512)
  (hoff : u.uioOffset < 4294967296) (h0 : fs.dataRef (fs.heap v).svIno (u.uioOffset / 512) ≠ 0)

include hw hv hk hiov hr hskip hoff h0

theorem wp_uncached (hQ : Q () (fs.direct u iov skip len (fs.dataRef (fs.heap v).svIno
      (u.uioOffset / 512)), u.advance len (u.outOf ((fs.disk (fs.dataRef (fs.heap v).svIno
      (u.uioOffset / 512))).slice skip len)))) :
    Wp False (sfsPartialioUncached v skip len) Q E (fs, u) := by
  have hb := hw.block_lt (hw.dataRef_lt (hw.table.ino_mem v hv) h0)
  simp only [sfsPartialioUncached, theUio, wp_bind, wp_get, wp_pure, wp_assert, wp_onFst,
    u32_fileblock hoff]
  refine ⟨fun _ => ?_, fun h => h hskip⟩
  refine (sfsBmap_mapped hw hv h0 _).post_ok ?_
  rintro b _ ⟨rfl, rfl⟩
  simp only [if_neg h0, wp_bind, wp_onFst]
  refine wp_rblock hw.reliable hb ?_
  refine wp_uiomoveIobuf hk hiov hr hw.reliable hb ?_ ?_ <;>
  · intro hrw
    rw [SfsFs.direct, Uio.outOf, hrw] at hQ
    exact hQ

/-- `sfs_partialio` on a block that the file has, with live tags: one way through the cache. -/
theorem wp_partialio_mapped (hl : Live fs files)
    (hQ : ∀ fs' out, CacheStep u iov skip len (fs.heap v).svIno
      (fs.dataRef (fs.heap v).svIno (u.uioOffset / 512)) fs fs' out →
      Q () (fs', u.advance len (u.outOf out))) :
    Wp False (sfsPartialio v skip len) Q E (fs, u) := by
  refine wp_partialio hw hv hk hiov hr hskip hoff ?_ ?_ ?_ ?_
  · intro b fs₁ _ _ _ hfull
    obtain ⟨i, hi, fb, hd, -, he⟩ := hl.flush hw hfull
    rw [he]
    exact hw.block_lt (hw.dataRef_lt hi hd)
  · exact fun e fs' herr => absurd herr.dataRef_eq_zero h0
  · exact fun _ hz => absurd hz h0
  · intro b fs₁ fs' out _ hok hstep
    obtain rfl := hok.still (.inr h0)
    rw [hok.block] at hstep
    exact hQ fs' out hstep

end Call

open SfsFs

/-! ## 3. What a step does to the files -/

section Views

open Classical

variable {t : Prop} {fs fs' : SfsFs} {files : Set Nat} {i j b fb fb' : Nat} {u : Uio}
  {iov out : List Byte} {skip len : Nat}

variable {s : Fin 64} {b' : Nat}

theorem SfsFs.blockView_setSlot_of_ne {X : Sector} (hne : ¬ (fs.sfsRcache s).Tagged j b) :
    (fs.setSlot s { fs.sfsRcache s with cache := X }).blockView j b = fs.blockView j b := by
  rw [blockView_setSlot, if_neg fun hs => hne (tagged_of_slotOf hs)]

/-- The write-back of a victim changes the disk where its tag says. -/
theorem Live.disk_flush (hl : Live fs files) (hw : Wf t fs files)
    (hfull : freeSlot fs.sfsRcache = none) (hj : j ∈ files) (hz : fs.dataRef j fb ≠ 0)
    (hne : ¬ (fs.sfsRcache fs.victim).Tagged j (fs.dataRef j fb)) :
    fs.flush.disk (fs.dataRef j fb) = fs.disk (fs.dataRef j fb) := by
  obtain ⟨i, hi, fb', h0, htag, hb⟩ := hl.flush hw hfull
  have hother : fs.dataRef j fb ≠ fs.dataRef i fb' := by
    intro he
    obtain ⟨rfl, rfl⟩ := hw.dataRef_inj hj hi hz he
    exact hne htag
  rw [SfsFs.flush, hb, SfsFs.disk_store, update_of_ne hother]
  rfl

theorem SfsFs.tagged_evicted :
    ((fs.evicted b).sfsRcache s).Tagged j b' ↔ (fs.sfsRcache s).Tagged j b' := by
  by_cases he : s = fs.victim
  · subst he
    simp [evicted, SfsBufferCache.Tagged]
  · have : (fs.evicted b).sfsRcache s = fs.sfsRcache s := update_of_ne he _ _
    rw [this]

/-- **A replacement spoils the block that the victim is tagged with, and no other.** -/
theorem Live.fileBlock_evicted (hl : Live fs files) (hw : Wf t fs files)
    (hfull : freeSlot fs.sfsRcache = none) (hj : j ∈ files)
    (hne : ¬ (fs.sfsRcache fs.victim).Tagged j (fs.dataRef j fb)) :
    (fs.evicted b).fileBlock j fb = fs.fileBlock j fb := by
  have hd : (fs.evicted b).dataRef j fb = fs.dataRef j fb :=
    (DataStep.evicted hw hl hfull b).dataRef hj fb
  by_cases hz : fs.dataRef j fb = 0
  · rw [fileBlock_of_zero hz, fileBlock_of_zero (hd.trans hz)]
  · rw [fileBlock_of_ne hz, fileBlock_of_ne (hd.symm ▸ hz), hd]
    have hview : (fs.evicted b).blockView j (fs.dataRef j fb) =
        fs.flush.blockView j (fs.dataRef j fb) :=
      blockView_setSlot_of_ne (show ¬ (fs.flush.sfsRcache fs.victim).Tagged _ _ from hne)
    rw [hview, blockView, hl.disk_flush hw hfull hj hz hne]
    rfl

section

variable (hl : Live fs files) (hw : Wf t fs files) (hi : i ∈ files) (h0 : fs.dataRef i fb ≠ 0)
  (hstep : CacheStep u iov skip len i (fs.dataRef i fb) fs fs' out)

include hl hw hi h0 hstep

/-- What a way through the cache makes of the files, but for the block that a replaced slot is
tagged with. -/
theorem CacheStep.fileBlock (hj : j ∈ files)
    (hne : slotOf fs.sfsRcache i (fs.dataRef i fb) = none → freeSlot fs.sfsRcache = none →
      ¬ (fs.sfsRcache fs.victim).Tagged j (fs.dataRef j fb')) :
    fs'.fileBlock j fb' = if j = i ∧ fb' = fb then u.patch iov skip len (fs.fileBlock i fb)
      else fs.fileBlock j fb' := by
  cases hstep with
  | hit hs => exact SfsFs.patched_hit hw hi h0 hs j hj fb'
  | fill hno hs => exact SfsFs.patched_fill hw hi h0 hno hs j hj fb'
  | replace hno hfull =>
    have hself : ¬ (fs.sfsRcache fs.victim).Tagged i (fs.dataRef i fb) := slotOf_eq_none.mp hno _
    have hevict := hl.fileBlock_evicted (b := fs.dataRef i fb) hw hfull hj (hne hno hfull)
    rw [SfsFs.replace, Uio.patch]
    cases u.uioRw with
    | read =>
      rw [hevict]
      split_ifs with hc
      · rw [hc.1, hc.2]
      · rfl
    | write =>
      have hkeep := DataStep.evicted hw hl hfull (fs.dataRef i fb)
      have hd := hkeep.dataRef hi fb
      have hno' : slotOf (fs.evicted (fs.dataRef i fb)).sfsRcache i
          ((fs.evicted (fs.dataRef i fb)).dataRef i fb) = none := by
        rw [hd, ← hno]
        exact slotOf_update Iff.rfl
      have h0' : (fs.evicted (fs.dataRef i fb)).dataRef i fb ≠ 0 := by rwa [hd]
      have hp := SfsFs.patched_store hkeep.wf hi h0'
        ((fs.flush.disk (fs.dataRef i fb)).splice skip (iov.take len)) hno' j hj fb'
      rw [hd, hevict, hl.disk_flush hw hfull hi h0 hself] at hp
      rw [SfsFs.fileBlock_of_ne h0, SfsFs.blockView_of_none hno]
      rw [hl.disk_flush hw hfull hi h0 hself]
      exact hp

theorem CacheStep.out_eq : out = (fs.fileBlock i fb).slice skip len := by
  rw [fileBlock_of_ne h0]
  cases hstep with
  | hit hs => rw [blockView_of_some hs]
  | fill hno hs => rw [blockView_of_none hno]
  | replace hno hfull =>
    rw [blockView_of_none hno, hl.disk_flush hw hfull hi h0 (slotOf_eq_none.mp hno _)]

end

theorem CacheStep.tagged (hstep : CacheStep u iov skip len i b fs fs' out) {sl : Fin 64}
    (hj : j < 2147483648) (htag : (fs.sfsRcache sl).Tagged j b') :
    (fs'.sfsRcache sl).Tagged j b' := by
  cases hstep with
  | @hit s hs =>
    by_cases he : sl = s
    · subst he
      simpa [SfsFs.hit, SfsBufferCache.Tagged] using htag
    · simpa [SfsFs.hit, update_of_ne he] using htag
  | @fill s hno hs =>
    have he : sl ≠ s := by
      rintro rfl
      exact htag.not_free hj (free_of_freeSlot hs)
    simpa [SfsFs.fill, update_of_ne he] using htag
  | replace hno hfull =>
    have hev : ((fs.evicted b).sfsRcache sl).Tagged j b' := SfsFs.tagged_evicted.mpr htag
    rw [SfsFs.replace]
    cases u.uioRw with
    | read => exact hev
    | write => exact hev

theorem SfsFs.fileBlock_direct (hw : Wf t fs files) (hfree : ∀ s, (fs.sfsRcache s).inodeNo = -1)
    (hi : i ∈ files) (h0 : fs.dataRef i fb ≠ 0) (hj : j ∈ files) :
    (fs.direct u iov skip len (fs.dataRef i fb)).fileBlock j fb' =
      if j = i ∧ fb' = fb then u.patch iov skip len (fs.fileBlock i fb)
      else fs.fileBlock j fb' := by
  have hno : slotOf fs.sfsRcache i (fs.dataRef i fb) = none :=
    slotOf_eq_none.mpr fun s htag => htag.not_free (hw.ino_lt hi) (hfree s)
  rw [direct, Uio.patch, fileBlock_of_ne h0, blockView_of_none hno]
  cases u.uioRw with
  | read =>
    split_ifs with hc
    · rw [hc.1, hc.2, fileBlock_of_ne h0, blockView_of_none hno]
    · rfl
  | write => exact patched_store hw hi h0 _ hno j hj fb'

end Views

open CacheStep

/-! ## 4. Runs -/

section Runs

open Classical

variable {t : Prop} {fs fs' : SfsFs} {files : Set Nat} {op : PartialOp} {s : Twin}
  {iov out : List Byte}

/-- No replaced slot has the tag of this block. -/
def Twin.Good (s : Twin) (j fb : Nat) : Prop :=
  ∀ sl ∈ s.victims, ¬ (s.cached.sfsRcache sl).Tagged j (s.cached.dataRef j fb)

/-- **The two volumes agree** on every file block that is not in a replaced slot. -/
structure Twins (t : Prop) (files : Set Nat) (s : Twin) : Prop where
  wf : Wf t s.cached files
  live : Live s.cached files
  plain_wf : Wf t s.plain files
  plain_free : ∀ sl, (s.plain.sfsRcache sl).inodeNo = -1
  vnodes : s.plain.sfsVnodes = s.cached.sfsVnodes
  heap : s.plain.heap = s.cached.heap
  ref : ∀ j ∈ files, ∀ r, s.plain.refAt j r = s.cached.refAt j r
  view : ∀ j ∈ files, ∀ fb, s.Good j fb → s.cached.fileBlock j fb = s.plain.fileBlock j fb

theorem Twins.start (hw : Wf t fs files) (hfree : ∀ s, (fs.sfsRcache s).inodeNo = -1) :
    Twins t files ⟨fs, fs, ∅⟩ :=
  ⟨hw, Live.of_free hfree, hw, hfree, rfl, rfl, fun _ _ _ => rfl, fun _ _ _ _ => rfl⟩

theorem Twins.dataRef (h : Twins t files s) {j : Nat} (hj : j ∈ files) (fb : Nat) :
    s.plain.dataRef j fb = s.cached.dataRef j fb := dataRef_congr (h.ref j hj) fb

/-- The state after a call that went a given way through the cache. -/
def PartialOp.after (op : PartialOp) (s : Twin) (iov : List Byte) (fs' : SfsFs) : Twin where
  cached := fs'
  plain := s.plain.direct op.uio iov op.skipstart op.len (op.block s.cached)
  victims := s.victims ∪ op.replaced s.cached

section

variable (h : Twins t files s)

include h

/-- **What a call does** on the two volumes. -/
theorem PartialOp.call_spec (hl : op.Legal s) (hk : op.uio.Kernel iov)
    (hiov : op.len ≤ iov.length) :
    Wp False op.call
      (fun r s' => ∃ fs' out, CacheStep op.uio iov op.skipstart op.len (op.ino s.cached)
          (op.block s.cached) s.cached fs' out ∧ s' = op.after s iov fs' ∧
        r = (op.uio.advance op.len (op.uio.outOf out), op.uio.advance op.len (op.uio.outOf
          ((s.plain.disk (op.block s.cached)).slice op.skipstart op.len))))
      (fun _ _ => False) s := by
  have hino : (s.plain.heap op.v).svIno = op.ino s.cached := by rw [h.heap]; rfl
  have hblock : s.plain.dataRef (op.ino s.cached) (op.uio.uioOffset / 512) = op.block s.cached :=
    h.dataRef (h.wf.table.ino_mem _ hl.vnode) _
  simp only [call, wp_bind, wp_modify, wp_zoom, wp_withLocal, wp_pure]
  refine wp_partialio_mapped h.wf hl.vnode hk hiov hl.resid hl.inside hl.offset hl.mapped h.live ?_
  intro fs' out hstep
  refine wp_uncached h.plain_wf (h.vnodes.symm ▸ hl.vnode) hk hiov hl.resid hl.inside hl.offset
    ?_ ?_
  · rw [hino, hblock]
    exact hl.mapped
  · rw [hino, hblock]
    exact ⟨fs', out, hstep, rfl, rfl⟩

/-- The way through the cache keeps the two volumes together, also if the call was not safe. -/
theorem Twins.after (hl : op.Legal s)
    (hstep : CacheStep op.uio iov op.skipstart op.len (op.ino s.cached) (op.block s.cached)
      s.cached fs' out) : Twins t files (op.after s iov fs') := by
  have hi : op.ino s.cached ∈ files := h.wf.table.ino_mem _ hl.vnode
  have hkeep := keeps h.wf h.live hi hl.mapped hstep
  have hblock : s.plain.dataRef (op.ino s.cached) op.fileblock = op.block s.cached :=
    h.dataRef hi _
  have hmapped : s.plain.dataRef (op.ino s.cached) op.fileblock ≠ 0 := hblock.symm ▸ hl.mapped
  have hdirect : DataStep t files s.plain
      (s.plain.direct op.uio iov op.skipstart op.len (op.block s.cached)) := by
    rw [direct, ← hblock]
    cases op.uio.uioRw with
    | read => exact .refl h.plain_wf (.of_free h.plain_free)
    | write => exact .store h.plain_wf (.of_free h.plain_free) hi hmapped _
  have hfree : (s.plain.direct op.uio iov op.skipstart op.len (op.block s.cached)).sfsRcache =
      s.plain.sfsRcache := by
    rw [direct]
    cases op.uio.uioRw <;> rfl
  refine
    { wf := hkeep.wf
      live := hkeep.live
      plain_wf := hdirect.wf
      plain_free := fun sl => by
        show ((direct _ _ _ _ _ _).sfsRcache sl).inodeNo = -1
        rw [hfree]
        exact h.plain_free sl
      vnodes := hdirect.vnodes.trans (h.vnodes.trans hkeep.vnodes.symm)
      heap := hdirect.heap.trans (h.heap.trans hkeep.heap.symm)
      ref := fun j hj r => (hdirect.ref j hj r).trans ((h.ref j hj r).trans (hkeep.ref j hj r).symm)
      view := fun j hj fb hgood => ?_ }
  -- what is good afterwards was good before, since tags are never taken away
  have hgood_of : ∀ fb', (op.after s iov fs').Good j fb' → s.Good j fb' := by
    intro fb' hg sl hsl htag
    refine hg sl (.inl hsl) ?_
    show (fs'.sfsRcache sl).Tagged j (fs'.dataRef j fb')
    rw [hkeep.dataRef hj]
    exact hstep.tagged (h.wf.ino_lt hj) htag
  have hne : slotOf s.cached.sfsRcache (op.ino s.cached) (op.block s.cached) = none →
      freeSlot s.cached.sfsRcache = none →
      ¬ (s.cached.sfsRcache s.cached.victim).Tagged j (s.cached.dataRef j fb) := by
    intro hno hfull htag
    refine hgood s.cached.victim (.inr ⟨rfl, hno, hfull⟩) ?_
    show (fs'.sfsRcache _).Tagged j (fs'.dataRef j fb)
    rw [hkeep.dataRef hj]
    exact hstep.tagged (h.wf.ino_lt hj) htag
  have hcached := fileBlock h.live h.wf hi hl.mapped hstep hj hne
  have hplain : (s.plain.direct op.uio iov op.skipstart op.len
      (s.plain.dataRef (op.ino s.cached) op.fileblock)).fileBlock j fb = _ :=
    fileBlock_direct h.plain_wf h.plain_free hi hmapped hj
  rw [hblock] at hplain
  show fs'.fileBlock j fb = (direct _ _ _ _ _ _).fileBlock j fb
  rw [hcached, hplain]
  have hold := h.view j hj fb (hgood_of fb hgood)
  split_ifs with hc
  · rw [← hc.1, ← hc.2, hold]
  · exact hold

/-- **Every call keeps the two volumes together**, safe or not. -/
theorem Twins.call (hl : op.Legal s) :
    Wp False op.call (fun _ => Twins t files) (fun _ => Twins t files) s := by
  obtain ⟨iov, hiov, hlen⟩ := hl.iov
  refine (call_spec h hl ⟨hiov, hl.seg⟩ hlen).post_ok ?_
  rintro r s' ⟨fs', out, hstep, rfl, -⟩
  exact h.after hl hstep

theorem Twins.same (hl : op.Legal s) (hsafe : op.Safe s) :
    Wp False op.call (fun r _ => r.1 = r.2) (fun _ _ => False) s := by
  obtain ⟨iov, hiov, hlen⟩ := hl.iov
  have hi : op.ino s.cached ∈ files := h.wf.table.ino_mem _ hl.vnode
  refine (call_spec h hl ⟨hiov, hl.seg⟩ hlen).post ?_
  rintro r s' ⟨fs', out, hstep, rfl, rfl⟩
  have hout := out_eq h.live h.wf hi hl.mapped hstep
  cases hrw : op.uio.uioRw with
  | write => simp only [Uio.outOf, hrw]
  | read =>
    have hview := h.view _ hi op.fileblock (hsafe hrw)
    have hblock : s.plain.dataRef (op.ino s.cached) op.fileblock = op.block s.cached :=
      h.dataRef hi _
    have hno : slotOf s.plain.sfsRcache (op.ino s.cached) (op.block s.cached) = none :=
      slotOf_eq_none.mpr fun sl htag => htag.not_free (h.wf.ino_lt hi) (h.plain_free sl)
    rw [fileBlock_of_ne (hblock.symm ▸ hl.mapped : s.plain.dataRef _ _ ≠ 0), hblock,
      blockView_of_none hno] at hview
    have hout' : out = (s.cached.fileBlock (op.ino s.cached) op.fileblock).slice _ _ := hout
    rw [hout', hview]

end

/-- **The cache is transparent** but for replaced slots: after any run of calls from an empty cache,
with any victims, a call that is not a read of a block in a replaced slot transfers the same bytes
as it does without the cache. -/
theorem partialio_transparent (hw : Wf t fs files) (hfree : ∀ sl, (fs.sfsRcache sl).inodeNo = -1)
    (hrun : Run PartialOp.call PartialOp.Legal ⟨fs, fs, ∅⟩ s) (hl : op.Legal s)
    (hsafe : op.Safe s) : ∃ uio s', op.call s = some (.ok (uio, uio), s') := by
  have h : Twins t files s := hrun.invariant (fun _ _ hl' hi => hi.call hl') (.start hw hfree)
  obtain ⟨⟨uio, uio'⟩, s', hcall, he⟩ := (h.same hl hsafe).exists_ok
  obtain rfl : uio = uio' := he
  exact ⟨uio, s', hcall⟩

end Runs

/-! ## 5. A victim that is read -/

section Full

open Classical

variable {fs fs' : SfsFs} {files : Set Nat} {v k n : Nat} {s : Twin}

/-- A file that has its first `n` blocks, all of them blank, on a volume with an empty cache. -/
structure MappedFile (fs : SfsFs) (files : Set Nat) (v n : Nat) : Prop where
  wf : Wf True fs files
  vnode : v ∈ fs.sfsVnodes
  cache : ∀ s, (fs.sfsRcache s).inodeNo = -1
  nblocks : fs.nblocks = 512
  only : ∀ i ∈ files, i = (fs.heap v).svIno ∨ i = sfsRootLocation
  random : fs.random = fun _ => 0
  mapped : ∀ k < n, fs.dataRef (fs.heap v).svIno k ≠ 0
  blank : ∀ k, fs.fileBlock (fs.heap v).svIno k = 0

theorem MappedFile.succ (h : MappedFile fs files v n) (hn : n < 143) :
    ∃ fs', MappedFile fs' files v (n + 1) := by
  have hmem := h.wf.table.ino_mem v h.vnode
  obtain ⟨b, fs', -, hok⟩ := (h.wf.bmap_ok h.vnode h.nblocks h.only hn).exists_ok
  have hfr := hok.grows.frame
  have hi : (fs'.heap v).svIno = (fs.heap v).svIno := hfr.ino v
  refine ⟨fs', hok.wf, hfr.vnodes.symm ▸ h.vnode, fun s => by rw [hfr.rcache]; exact h.cache s,
    hfr.nblocks.trans h.nblocks, fun i => hi.symm ▸ h.only i, hfr.random.trans h.random, ?_, ?_⟩
  · intro k hk
    rw [hi]
    by_cases hkn : k = n
    · rw [hkn, ← hok.block]
      exact hok.mapped rfl
    · rw [hok.grows.dataRef hmem (h.mapped k (by omega))]
      exact h.mapped k (by omega)
  · intro k
    rw [hi, hok.grows.fileBlock hok.wf hmem ?_ hmem]
    · exact h.blank k
    · exact fun s b _ htag => absurd (h.cache s) (htag.not_free (h.wf.ino_lt hmem))

theorem exists_mappedFile : ∀ n ≤ 143, ∃ fs files v, MappedFile fs files v n
  | 0, _ => by
    obtain ⟨-, -, -, v, fs, files, -, -, -, h, hr⟩ := fresh_file fun _ => 0
    exact ⟨fs, files, v, h.wf, h.vnode, h.cache, h.nblocks, h.only, hr,
      fun k hk => absurd hk (Nat.not_lt_zero k), fun k => fileBlock_of_zero (h.dataRef_eq k)⟩
  | n + 1, hn => by
    obtain ⟨fs, files, v, h⟩ := exists_mappedFile n (by omega)
    obtain ⟨fs', h'⟩ := h.succ (by omega)
    exact ⟨fs', files, v, h'⟩

/-- A call for the first byte of block `k`, with a buffer of one byte. -/
def oneByte (v k : Nat) (x : Byte) (rw : UioRw) : PartialOp := ⟨v, 0, 1, uioKinit [x] (k * 512) rw⟩

/-- The cache after a byte has been written to each of the first `k` blocks. -/
structure Filled (files : Set Nat) (v : Nat) (s : Twin) (k : Nat) : Prop where
  twins : Twins True files s
  vnode : v ∈ s.cached.sfsVnodes
  mapped : ∀ m < 65, s.cached.dataRef (s.cached.heap v).svIno m ≠ 0
  tag : ∀ sl : Fin 64, sl.val < k → (s.cached.sfsRcache sl).Tagged (s.cached.heap v).svIno
    (s.cached.dataRef (s.cached.heap v).svIno sl.val)
  free : ∀ sl : Fin 64, k ≤ sl.val → (s.cached.sfsRcache sl).inodeNo = -1
  random : s.cached.random = fun _ => 0
  blank : s.cached.disk (s.cached.dataRef (s.cached.heap v).svIno 64) = 0
  written : ∀ m < k, (s.plain.disk (s.cached.dataRef (s.cached.heap v).svIno m)).byte 0 = 65
  victims : s.victims = ∅

theorem MappedFile.filled (h : MappedFile fs files v 65) : Filled files v ⟨fs, fs, ∅⟩ 0 := by
  refine ⟨.start h.wf h.cache, h.vnode, h.mapped, fun _ hk => absurd hk (Nat.not_lt_zero _),
    fun sl _ => h.cache sl, h.random, ?_, fun _ hk => absurd hk (Nat.not_lt_zero _), rfl⟩
  have hb := h.blank 64
  rw [fileBlock_of_ne (h.mapped 64 (by decide)), blockView_of_none] at hb
  · exact hb
  · exact slotOf_eq_none.mpr fun s htag =>
      htag.not_free (h.wf.ino_lt (h.wf.table.ino_mem v h.vnode)) (h.cache s)

theorem oneByte_block (v k : Nat) (x : Byte) (rw : UioRw) (fs : SfsFs) :
    (oneByte v k x rw).block fs = fs.dataRef (fs.heap v).svIno k := by
  show fs.dataRef _ (k * 512 / 512) = _
  rw [Nat.mul_div_cancel _ (by decide)]
  rfl

theorem oneByte_legal {x : Byte} {rw : UioRw} {m : Nat} (hv : v ∈ s.cached.sfsVnodes) (hm : m < 65)
    (h0 : (oneByte v m x rw).block s.cached ≠ 0) : (oneByte v m x rw).Legal s := by
  refine ⟨hv, rfl, ⟨[x], rfl, le_rfl⟩, le_rfl, Nat.le_of_ble_eq_true rfl, ?_, h0⟩
  show m * 512 < 4294967296
  omega

namespace Filled

variable {x : Byte} {rw : UioRw} {m : Nat} (h : Filled files v s k)

include h

theorem mem : (s.cached.heap v).svIno ∈ files := h.twins.wf.table.ino_mem v h.vnode

theorem legal (hm : m < 65) : (oneByte v m x rw).Legal s :=
  oneByte_legal h.vnode hm (by rw [oneByte_block]; exact h.mapped m hm)

theorem slot_eq {sl : Fin 64} (hm : m < 65) (htag : (s.cached.sfsRcache sl).Tagged
    (s.cached.heap v).svIno (s.cached.dataRef (s.cached.heap v).svIno m)) : sl.val = m ∧ m < k := by
  have hw := h.twins.wf
  have hlt : sl.val < k := by
    by_contra hge
    exact htag.not_free (hw.ino_lt h.mem) (h.free sl (by omega))
  have hsl := h.mapped sl.val (by omega)
  have hinj := htag.inj (h.tag sl hlt) (hw.ino_lt h.mem) (hw.ino_lt h.mem)
    (hw.dataRef_lt_int h.mem (h.mapped m hm)) (hw.dataRef_lt_int h.mem hsl)
  have := (hw.dataRef_inj h.mem h.mem (h.mapped m hm) hinj.2).2
  omega

theorem succ (hk : k < 64) :
    ∃ r s', (oneByte v k 65 .write).call s = some (.ok r, s') ∧ Filled files v s' (k + 1) := by
  have hl : (oneByte v k 65 .write).Legal s := h.legal (by omega)
  have hiov : (oneByte v k 65 .write).uio.Kernel [65] := ⟨rfl, rfl⟩
  obtain ⟨r, s', hcall, fs', out, hstep, rfl, -⟩ :=
    (call_spec h.twins hl hiov le_rfl).exists_ok
  refine ⟨r, _, hcall, ?_⟩
  have hafter := h.twins.after hl hstep
  rw [oneByte_block] at hstep
  cases hstep with
  | hit hs =>
    have := h.slot_eq (by omega) (tagged_of_slotOf hs)
    omega
  | replace hno hfull => exact absurd (h.free ⟨k, hk⟩ le_rfl) (freeSlot_eq_none.mp hfull _)
  | @fill sl hno hs =>
    have hsl : freeSlot s.cached.sfsRcache = some ⟨k, hk⟩ := by
      refine freeSlot_eq_some (h.free _ le_rfl) fun s' hs' => ?_
      exact (h.tag s' hs').not_free (h.twins.wf.ino_lt h.mem)
    obtain rfl : sl = ⟨k, hk⟩ := Option.some.inj (hs.symm.trans hsl)
    refine ⟨hafter, h.vnode, h.mapped, fun sl hlt => ?_, fun sl hge => ?_, h.random, h.blank,
      fun m hm => ?_, ?_⟩
    · by_cases he : sl = ⟨k, hk⟩
      · subst he
        rw [after, sfsRcache_fill_self]
        exact ⟨rfl, rfl⟩
      · rw [after, sfsRcache_fill_of_ne _ _ _ _ _ _ _ he]
        refine h.tag sl ?_
        have : sl.val ≠ k := fun hv => he (Fin.ext hv)
        omega
    · have he : sl ≠ ⟨k, hk⟩ := by
        rintro rfl
        exact absurd hge (by simp)
      rw [after, sfsRcache_fill_of_ne _ _ _ _ _ _ _ he]
      exact h.free sl (by omega)
    · show (update s.plain.disk _ _ (s.cached.dataRef (s.cached.heap v).svIno m)).byte 0 = 65
      rw [oneByte_block]
      rcases Nat.lt_succ_iff_lt_or_eq.mp hm with hm | rfl
      · have hne := h.mapped m (by omega)
        rw [update_of_ne fun he => hm.ne (h.twins.wf.dataRef_inj h.mem h.mem hne he).2]
        exact h.written m hm
      · rw [update_self, Bytes.byte_splice (by decide)]
        rfl
    · rw [after, h.victims, Set.empty_union]
      exact Set.eq_empty_of_forall_notMem fun s' hs' => by simp [replaced, hsl] at hs'

end Filled

/-- One more block is read, and the first slot is replaced. -/
theorem Filled.evict (h : Filled files v s 64) :
    ∃ r s', (oneByte v 64 0 .read).call s = some (.ok r, s') ∧ Twins True files s' ∧
      s'.cached = s.cached.evicted (s.cached.dataRef (s.cached.heap v).svIno 64) ∧
      s'.plain = s.plain ∧ s'.victims = {0} ∧
      ∀ m < 65, (oneByte v m 0 .read).Legal s' ∧ (oneByte v m 0 .read).ino s'.cached =
        (s.cached.heap v).svIno ∧ (oneByte v m 0 .read).block s'.cached =
          s.cached.dataRef (s.cached.heap v).svIno m := by
  have hl : (oneByte v 64 0 .read).Legal s := h.legal (by decide)
  have hiov : (oneByte v 64 0 .read).uio.Kernel [0] := ⟨rfl, rfl⟩
  have hw := h.twins.wf
  have hfull : freeSlot s.cached.sfsRcache = none := freeSlot_eq_none.mpr fun sl =>
    (h.tag sl (Fin.isLt sl)).not_free (hw.ino_lt h.mem)
  have hno : slotOf s.cached.sfsRcache (s.cached.heap v).svIno
      (s.cached.dataRef (s.cached.heap v).svIno 64) = none :=
    slotOf_eq_none.mpr fun sl htag => absurd (h.slot_eq (by decide) htag).2 (by decide)
  obtain ⟨r, s', hcall, fs', out, hstep, rfl, -⟩ :=
    (call_spec h.twins hl hiov le_rfl).exists_ok
  have hafter := h.twins.after hl hstep
  have hv := keeps hw h.twins.live h.mem hl.mapped hstep
  have hblock : ∀ m, (oneByte v m 0 .read).block fs' =
      s.cached.dataRef (s.cached.heap v).svIno m := fun m => by
    rw [oneByte_block, hv.heap, hv.dataRef h.mem]
  have hall : ∀ m < 65, (oneByte v m 0 .read).Legal ((oneByte v 64 0 .read).after s [0] fs') ∧
      (oneByte v m 0 .read).ino fs' = (s.cached.heap v).svIno ∧ _ := fun m hm =>
    ⟨oneByte_legal (hv.vnodes.symm ▸ h.vnode) hm ((hblock m).symm ▸ h.mapped m hm),
      by rw [PartialOp.ino, hv.heap]; rfl, hblock m⟩
  rw [oneByte_block] at hstep
  cases hstep with
  | hit hs => exact absurd (hs.symm.trans hno) (by simp)
  | fill _ hs => exact absurd (hs.symm.trans hfull) (by simp)
  | replace =>
    refine ⟨r, _, hcall, hafter, rfl, rfl, ?_, hall⟩
    have hvictim : s.cached.victim = 0 := Fin.ext (by simp [SfsFs.victim, h.random])
    rw [after, h.victims, Set.empty_union, replaced, oneByte_block, hvictim]
    exact Set.ext fun sl => and_iff_left ⟨hno, hfull⟩

/-- The cache is filled by a call for each of the first 64 blocks. -/
theorem MappedFile.fill (h : MappedFile fs files v 65) : ∀ k ≤ 64, ∃ s,
    Run call PartialOp.Legal ⟨fs, fs, ∅⟩ s ∧ Filled files v s k
  | 0, _ => ⟨_, .refl, h.filled⟩
  | k + 1, hk => by
    obtain ⟨s, hrun, hf⟩ := h.fill k (by omega)
    obtain ⟨r, s', hcall, hf'⟩ := hf.succ hk
    exact ⟨s', hrun.step (hf.legal (by omega)) hcall, hf'⟩

/-- Blocks are written until the cache is full, the slot of the first one is replaced, and the
second one is read back. -/
theorem cached_read_transparent : ∃ fs files v s u s', MappedFile fs files v 65 ∧
    Run PartialOp.call PartialOp.Legal ⟨fs, fs, ∅⟩ s ∧ s.victims = {0} ∧
    (oneByte v 1 0 .read).call s = some (.ok (u, u), s') ∧ u.uioMoved = [65] := by
  obtain ⟨fs, files, v, h⟩ := exists_mappedFile 65 (by decide)
  obtain ⟨s, hrun, hf⟩ := h.fill 64 le_rfl
  obtain ⟨r, s', hcall, htw, hev, hplain, hvic, hall⟩ := hf.evict
  obtain ⟨hl, hino, hblock⟩ := hall 1 (by decide)
  have hsafe : (oneByte v 1 0 .read).Safe s' := by
    intro _ sl hsl htag
    rw [hvic, Set.mem_singleton_iff] at hsl
    rw [hino, hblock, hev, SfsFs.tagged_evicted, hsl] at htag
    exact absurd (hf.slot_eq (by decide) htag).1 (by decide)
  have hrun' := hrun.step (hf.legal (by decide)) hcall
  obtain ⟨u, s'', hcall'⟩ := partialio_transparent h.wf h.cache hrun' hl hsafe
  refine ⟨fs, files, v, s', u, s'', h, hrun', hvic, hcall', ?_⟩
  obtain ⟨_, _, _, _, hr⟩ := (PartialOp.call_spec htw hl ⟨rfl, rfl⟩ le_rfl).of_ok hcall'
  rw [(Prod.mk.inj hr).2, hblock, hplain]
  show [] ++ [(s.plain.disk _).byte 0] = [65]
  rw [hf.written 1 (by decide)]
  rfl

/-- **A victim is read.**  64 blocks of a file are written, one more is read, and then the first is
read: the cache hands out the byte of another block, and the disk has the byte that was
written. -/
theorem victim_is_read : ∃ fs files v s u u' s', Wf True fs files ∧
    (∀ sl, (fs.sfsRcache sl).inodeNo = -1) ∧
    Run PartialOp.call PartialOp.Legal ⟨fs, fs, ∅⟩ s ∧ (oneByte v 0 0 .read).Legal s ∧
    (oneByte v 0 0 .read).call s = some (.ok (u, u'), s') ∧
    u.uioMoved = [0] ∧ u'.uioMoved = [65] := by
  obtain ⟨fs, files, v, h⟩ := exists_mappedFile 65 (by decide)
  obtain ⟨s, hrun, hf⟩ := h.fill 64 le_rfl
  obtain ⟨r, s', hcall, htw, hev, hplain, -, hall⟩ := hf.evict
  obtain ⟨hl, hino, hblock⟩ := hall 0 (by decide)
  have hw := hf.twins.wf
  have hfull : freeSlot s.cached.sfsRcache = none := freeSlot_eq_none.mpr fun sl =>
    (hf.tag sl (Fin.isLt sl)).not_free (hw.ino_lt hf.mem)
  set b := s.cached.dataRef (s.cached.heap v).svIno 64 with hb
  have hvictim : s.cached.victim = 0 := Fin.ext (by simp [SfsFs.victim, hf.random])
  have hiov : (oneByte v 0 0 .read).uio.Kernel [0] := ⟨rfl, rfl⟩
  obtain ⟨⟨u, u'⟩, s'', hcall', fs'', out, hcs, -, hr⟩ :=
    (PartialOp.call_spec htw hl hiov le_rfl).exists_ok
  rw [hblock, hplain] at hr
  obtain ⟨rfl, rfl⟩ := Prod.mk.inj hr
  refine ⟨fs, files, v, s', _, _, s'', h.wf, h.cache,
    hrun.step (hf.legal (by decide)) hcall, hl, hcall', ?_, ?_⟩
  · -- the slot with the tag of block 0 is slot 0, and it holds block 64
    rw [hino, hblock, hev] at hcs
    have hslot : ∀ sl, ((s.cached.evicted b).sfsRcache sl).Tagged (s.cached.heap v).svIno
        (s.cached.dataRef (s.cached.heap v).svIno 0) ↔ sl = 0 := by
      intro sl
      rw [SfsFs.tagged_evicted]
      exact ⟨fun htag => Fin.ext (hf.slot_eq (by decide) htag).1,
        fun he => he ▸ hf.tag 0 (by decide)⟩
    have hcache : ((s.cached.evicted b).sfsRcache 0).cache = 0 := by
      have hzero := hf.blank
      have hne : ¬ (s.cached.sfsRcache s.cached.victim).Tagged (s.cached.heap v).svIno b :=
        fun htag => absurd (hf.slot_eq (by decide) htag).2 (by decide)
      rw [← hf.twins.live.disk_flush hw hfull hf.mem (hf.mapped 64 (by decide)) hne] at hzero
      rw [← hvictim, SfsFs.evicted, SfsFs.sfsRcache_setSlot, update_self]
      exact hzero
    have hno : slotOf (s.cached.evicted b).sfsRcache (s.cached.heap v).svIno
        (s.cached.dataRef (s.cached.heap v).svIno 0) = some 0 :=
      slotOf_of_unique ((hslot 0).mpr rfl) fun sl htag => (hslot sl).mp htag
    cases hcs with
    | fill hnone _ => exact absurd (hno.symm.trans hnone) (by simp)
    | replace hnone _ => exact absurd (hno.symm.trans hnone) (by simp)
    | @hit sl hs =>
      obtain rfl : sl = 0 := Option.some.inj (hs.symm.trans hno)
      show [] ++ [(((s.cached.evicted b).sfsRcache 0).cache).byte 0] = [0]
      rw [hcache, Bytes.byte_zero]
      rfl
  · show [] ++ [(s.plain.disk _).byte 0] = [65]
    rw [hf.written 0 (by decide)]
    rfl

end Full

end Os161
