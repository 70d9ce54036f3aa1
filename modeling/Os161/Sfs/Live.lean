/-
# The tags of the buffer cache

A slot of the cache says by its two tags which block of which inode it stands for.  The search
believes the tags, and so does the write-back of a slot that is replaced: it stores the slot on
whatever disk block the tag names.  So the tags have to be LIVE: every slot is free, or is tagged
with an inode that exists and a block that belongs to it now.

This file has the half of that which the transfers contribute.  Whatever way a piece takes through
the cache, it leaves the tags live, and all that it changes is slots and data blocks
(`CacheStep.keeps`).  That the contents of a slot are right as well is not claimed here, and after
a replacement it is not true.
-/
import Os161.Sfs.View

namespace Os161

open Classical

/-! ## 1. Live tags -/

/-- Every slot is free or has the tag of a block that one of the files has. -/
def Live (fs : SfsFs) (files : Set Nat) : Prop :=
  ∀ s, (fs.sfsRcache s).inodeNo = -1 ∨
    ∃ i ∈ files, ∃ fb, fs.dataRef i fb ≠ 0 ∧ (fs.sfsRcache s).Tagged i (fs.dataRef i fb)

section Live

variable {t : Prop} {fs fs' fs₁ : SfsFs} {files : Set Nat} {i j b fb v skip len : Nat} {s : Fin 64}
  {u : Uio} {iov out : List Byte}

theorem Live.of_free (h : ∀ s, (fs.sfsRcache s).inodeNo = -1) : Live fs files := fun s =>
    Or.inl (h s)

theorem Live.of_keep (h : Live fs files) (hrc : fs'.sfsRcache = fs.sfsRcache)
    (hd : ∀ i ∈ files, ∀ fb, fs.dataRef i fb ≠ 0 → fs'.dataRef i fb = fs.dataRef i fb) :
    Live fs' files := by
  intro s
  rw [hrc]
  refine (h s).imp_right ?_
  rintro ⟨i, hi, fb, h0, htag⟩
  have he := hd i hi fb h0
  exact ⟨i, hi, fb, he.symm ▸ h0, he.symm ▸ htag⟩

theorem Live.setContent (h : Live fs files) (X : Sector) :
    Live (fs.setSlot s { fs.sfsRcache s with cache := X }) files := by
  intro s'
  by_cases hs : s' = s
  · subst hs
    simpa [SfsBufferCache.Tagged] using h s'
  · simpa [Function.update_of_ne hs] using h s'

theorem Live.newTag (h : Live fs files) (hi : i ∈ files) (h0 : fs.dataRef i fb ≠ 0) (X : Sector) :
    Live (fs.setSlot s ⟨X, intOfU32 i, intOfU32 (fs.dataRef i fb)⟩) files := by
  intro s'
  by_cases hs : s' = s
  · subst hs
    exact Or.inr ⟨i, hi, fb, h0, by simp [SfsBufferCache.Tagged]⟩
  · simpa [Function.update_of_ne hs] using h s'

/-! ## 2. The write-back of the victim -/

theorem u32OfInt_intOfU32 (h : b < 2147483648) : u32OfInt (intOfU32 b) = b := by
  rw [intOfU32_of_lt h, u32OfInt]
  omega

theorem Wf.nextRandom (hw : Wf t fs files) : Wf t fs.nextRandom files :=
  hw.other _ _ _

/-- **A victim with a live tag is written back to a data block**, the one its tag names. -/
theorem Live.flush (h : Live fs files) (hw : Wf t fs files) (hfull : freeSlot fs.sfsRcache = none) :
    ∃ i ∈ files, ∃ fb, fs.dataRef i fb ≠ 0 ∧ (fs.sfsRcache fs.victim).Tagged i (fs.dataRef i fb) ∧
      u32OfInt (fs.sfsRcache fs.victim).blockNo = fs.dataRef i fb := by
  rcases h fs.victim with hfree | ⟨i, hi, fb, h0, htag⟩
  · exact absurd hfree (freeSlot_eq_none.mp hfull _)
  · refine ⟨i, hi, fb, h0, htag, ?_⟩
    rw [htag.2, u32OfInt_intOfU32 (hw.dataRef_lt_int hi h0)]

/-- What a piece of a transfer can change: slots of the cache, data blocks, and the values that
`random` has left. -/
structure DataStep (t : Prop) (files : Set Nat) (fs fs' : SfsFs) : Prop where
  wf : Wf t fs' files
  live : Live fs' files
  vnodes : fs'.sfsVnodes = fs.sfsVnodes
  heap : fs'.heap = fs.heap
  nextVnode : fs'.nextVnode = fs.nextVnode
  kmallocOk : fs'.kmallocOk = fs.kmallocOk
  super : fs'.sfsSuper = fs.sfsSuper
  freemap : fs'.sfsFreemap = fs.sfsFreemap
  inode : ∀ j ∈ files, fs'.inode j = fs.inode j
  ref : ∀ j ∈ files, ∀ r, fs'.refAt j r = fs.refAt j r

namespace DataStep

section

variable (hw : Wf t fs files) (h : Live fs files)

include hw h

theorem refl : DataStep t files fs fs :=
  ⟨hw, h, rfl, rfl, rfl, rfl, rfl, rfl, fun _ _ => rfl, fun _ _ _ => rfl⟩

theorem setContent (X : Sector) :
    DataStep t files fs (fs.setSlot s { fs.sfsRcache s with cache := X }) :=
  ⟨hw.setSlot _ _, h.setContent X, rfl, rfl, rfl, rfl, rfl, rfl, fun _ _ => rfl, fun _ _ _ => rfl⟩

theorem newTag (hi : i ∈ files) (h0 : fs.dataRef i fb ≠ 0) (X : Sector) :
    DataStep t files fs (fs.setSlot s ⟨X, intOfU32 i, intOfU32 (fs.dataRef i fb)⟩) :=
  ⟨hw.setSlot _ _, h.newTag hi h0 X, rfl, rfl, rfl, rfl, rfl, rfl, fun _ _ => rfl, fun _ _ _ => rfl⟩

theorem nextRandom : DataStep t files fs fs.nextRandom :=
  ⟨hw.nextRandom, h, rfl, rfl, rfl, rfl, rfl, rfl, fun _ _ => rfl, fun _ _ _ => rfl⟩

theorem store (hi : i ∈ files) (h0 : fs.dataRef i fb ≠ 0)
    (X : Sector) : DataStep t files fs (fs.store (fs.dataRef i fb) X) :=
  ⟨hw.storeData hi h0 X, h.of_keep rfl fun _ hj _ _ =>
      SfsFs.dataRef_congr (fun r => hw.store_refAt hi h0 X hj r) _,
    rfl, rfl, rfl, rfl, rfl, rfl, fun _ hj => hw.store_inode hi h0 X hj,
    fun _ hj r => hw.store_refAt hi h0 X hj r⟩

end

theorem trans {fs'' : SfsFs} (h : DataStep t files fs fs') (h' : DataStep t files fs' fs'') :
    DataStep t files fs fs'' where
  wf := h'.wf
  live := h'.live
  vnodes := h'.vnodes.trans h.vnodes
  heap := h'.heap.trans h.heap
  nextVnode := h'.nextVnode.trans h.nextVnode
  kmallocOk := h'.kmallocOk.trans h.kmallocOk
  super := h'.super.trans h.super
  freemap := h'.freemap.trans h.freemap
  inode := fun j hj => (h'.inode j hj).trans (h.inode j hj)
  ref := fun j hj r => (h'.ref j hj r).trans (h.ref j hj r)

theorem dataRef (h : DataStep t files fs fs') (hj : j ∈ files) (fb : Nat) :
    fs'.dataRef j fb = fs.dataRef j fb := SfsFs.dataRef_congr (h.ref j hj) fb

end DataStep

theorem DataStep.flush (hw : Wf t fs files) (h : Live fs files)
    (hfull : freeSlot fs.sfsRcache = none) : DataStep t files fs fs.flush := by
  obtain ⟨i, hi, fb, h0, -, hb⟩ := h.flush hw hfull
  rw [SfsFs.flush, hb]
  exact (DataStep.nextRandom hw h).trans (DataStep.store hw.nextRandom h hi h0 _)

theorem DataStep.evicted (hw : Wf t fs files) (h : Live fs files)
    (hfull : freeSlot fs.sfsRcache = none) (b : Nat) : DataStep t files fs (fs.evicted b) := by
  have hflush := DataStep.flush hw h hfull
  exact hflush.trans (DataStep.setContent hflush.wf hflush.live _)

/-- **Every way through the cache keeps the tags live.** -/
theorem CacheStep.keeps (hw : Wf t fs files) (h : Live fs files) (hi : i ∈ files)
    (h0 : fs.dataRef i fb ≠ 0)
    (hstep : CacheStep u iov skip len i (fs.dataRef i fb) fs fs' out) :
    DataStep t files fs fs' := by
  cases hstep with
  | hit hs => exact DataStep.setContent hw h _
  | fill hno hs => exact DataStep.newTag hw h hi h0 _
  | replace hno hfull =>
    have hevict := DataStep.evicted hw h hfull (fs.dataRef i fb)
    rw [SfsFs.replace]
    cases u.uioRw with
    | read => exact hevict
    | write =>
      have hd := hevict.dataRef hi fb
      refine hevict.trans ?_
      have h0' : (fs.evicted (fs.dataRef i fb)).dataRef i fb ≠ 0 := by rwa [hd]
      have hstore := DataStep.store hevict.wf hevict.live hi h0'
        ((fs.flush.disk (fs.dataRef i fb)).splice skip (iov.take len))
      rw [hd] at hstore
      exact hstore

end Live

end Os161
