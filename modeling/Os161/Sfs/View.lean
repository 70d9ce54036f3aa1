/-
# What a file holds

The bytes of a file are those of the disk blocks it refers to, except that a block in the buffer
cache is read from its slot: `blockView`.  A block that the file does not have is zeros.  So the
contents of a file depend on its references, on the disk AND on the cache, and every piece of a
transfer changes one of the three.  This file says how each kind of change shows up in
`fileBlock`, block by block.

Nothing is said here about the end of the file; bytes past it are part of `fileBlock` too.
-/
import Os161.Sfs.File

namespace Os161

open Classical Function SfsFs

/-! ## 1. The view -/

namespace SfsFs

/-- Disk block `b`, as a transfer with inode `i` sees it. -/
def blockView (fs : SfsFs) (i b : Nat) : Sector :=
  match slotOf fs.sfsRcache i b with
  | some s => (fs.sfsRcache s).cache
  | none => fs.disk b

/-- Block `fileblock` of file `i`. -/
def fileBlock (fs : SfsFs) (i fileblock : Nat) : Sector :=
  if fs.dataRef i fileblock = 0 then 0 else fs.blockView i (fs.dataRef i fileblock)

/-- The byte at a position of file `i`. -/
def fileByte (fs : SfsFs) (i pos : Nat) : Byte := (fs.fileBlock i (pos / 512)).byte (pos % 512)

end SfsFs

section View

variable {t : Prop} {fs fs' fs₁ : SfsFs} {files : Set Nat} {i j b fb fb' : Nat} {s : Fin 64}

theorem SfsFs.fileBlock_of_zero (h : fs.dataRef i fb = 0) : fs.fileBlock i fb = 0 := if_pos h

theorem SfsFs.fileBlock_of_ne (h : fs.dataRef i fb ≠ 0) :
    fs.fileBlock i fb = fs.blockView i (fs.dataRef i fb) := if_neg h

theorem SfsFs.blockView_of_some (h : slotOf fs.sfsRcache i b = some s) :
    fs.blockView i b = (fs.sfsRcache s).cache := by rw [blockView, h]

theorem SfsFs.blockView_of_none (h : slotOf fs.sfsRcache i b = none) :
    fs.blockView i b = fs.disk b := by rw [blockView, h]

theorem dataSlot_inj {r : Slot} (h : dataSlot fb = some r) (h' : dataSlot fb' = some r) :
    fb = fb' := by
  unfold dataSlot at h h'
  split at h <;> split at h'
  · cases h
    simpa using h'.symm
  · cases h
    split at h' <;> simp at h'
  · cases h'
    split at h <;> simp at h
  · split at h <;> split at h' <;> simp at h h'
    cases h
    simp at h'
    omega

theorem SfsFs.dataRef_congr (h : ∀ r, fs'.refAt i r = fs.refAt i r) (fb : Nat) :
    fs'.dataRef i fb = fs.dataRef i fb := by
  unfold dataRef
  cases dataSlot fb with
  | none => rfl
  | some r => exact h r

theorem Wf.dataRef_inj (hw : Wf t fs files) (hi : i ∈ files) (hj : j ∈ files)
    (h0 : fs.dataRef i fb ≠ 0) (he : fs.dataRef i fb = fs.dataRef j fb') : i = j ∧ fb = fb' := by
  obtain ⟨r, hr, -, hri⟩ := dataSlot_of_dataRef h0
  obtain ⟨q, hq, -, hqj⟩ := dataSlot_of_dataRef (he ▸ h0)
  obtain ⟨hij, hrq⟩ := hw.ref_inj hi hj (hri ▸ h0) (by rw [hri, hqj, he])
  exact ⟨hij, dataSlot_inj hr (hrq ▸ hq)⟩

/-! ## 2. Tags -/

theorem intOfU32_of_lt {n : Nat} (h : n < 2147483648) : intOfU32 n = n := if_pos h

variable {c : SfsBufferCache} {b' : Nat} {rc : Fin 64 → SfsBufferCache}

theorem SfsBufferCache.Tagged.inj (h : c.Tagged i b) (h' : c.Tagged j b') (hi : i < 2147483648)
    (hj : j < 2147483648) (hb : b < 2147483648) (hb' : b' < 2147483648) : i = j ∧ b = b' := by
  have h1 := h.1.symm.trans h'.1
  have h2 := h.2.symm.trans h'.2
  rw [intOfU32_of_lt hi, intOfU32_of_lt hj] at h1
  rw [intOfU32_of_lt hb, intOfU32_of_lt hb'] at h2
  exact ⟨Int.ofNat.inj h1, Int.ofNat.inj h2⟩

theorem SfsBufferCache.Tagged.not_free (h : c.Tagged i b) (hi : i < 2147483648) :
    c.inodeNo ≠ -1 := by
  rw [h.1, intOfU32_of_lt hi]
  omega

theorem Wf.lt_int (hw : Wf t fs files) (hb : b < fs.nblocks) : b < 2147483648 :=
  lt_of_lt_of_le hb (hw.nblocks_small.trans (by decide))

theorem Wf.ino_lt (hw : Wf t fs files) (hi : i ∈ files) : i < 2147483648 :=
  hw.lt_int (hw.file_lt i hi)

theorem Wf.dataRef_lt_int (hw : Wf t fs files) (hi : i ∈ files) (h : fs.dataRef i fb ≠ 0) :
    fs.dataRef i fb < 2147483648 := hw.lt_int (hw.dataRef_lt hi h)

theorem slotOf_of_unique (hs : (rc s).Tagged i b) (huniq : ∀ s', (rc s').Tagged i b → s' = s) :
    slotOf rc i b = some s := by
  cases h : slotOf rc i b with
  | none => exact absurd hs (slotOf_eq_none.mp h s)
  | some s' => rw [huniq s' (tagged_of_slotOf h)]

/-- The search does not see a change of a slot that keeps it from the tag, or to it. -/
theorem slotOf_update (h : c.Tagged i b ↔ (rc s).Tagged i b) :
    slotOf (update rc s c) i b = slotOf rc i b := by
  unfold slotOf
  congr
  funext s'
  by_cases hs : s' = s
  · subst hs
    simp [h]
  · rw [update_of_ne hs]

/-! ## 3. Changes of the cache -/

@[simp] theorem SfsFs.sfsRcache_setSlot (c : SfsBufferCache) :
    (fs.setSlot s c).sfsRcache = update fs.sfsRcache s c := rfl

@[simp] theorem SfsFs.disk_setSlot (c : SfsBufferCache) : (fs.setSlot s c).disk = fs.disk := rfl

@[simp] theorem SfsFs.dataRef_setSlot (c : SfsBufferCache) :
    (fs.setSlot s c).dataRef i fb = fs.dataRef i fb := rfl

theorem SfsFs.blockView_setSlot (X : Sector) :
    (fs.setSlot s { fs.sfsRcache s with cache := X }).blockView j b =
      if slotOf fs.sfsRcache j b = some s then X else fs.blockView j b := by
  have hslot : slotOf (fs.setSlot s { fs.sfsRcache s with cache := X }).sfsRcache j b =
      slotOf fs.sfsRcache j b := slotOf_update Iff.rfl
  rw [blockView, hslot, blockView]
  cases h : slotOf fs.sfsRcache j b with
  | none => simp [setSlot, disk]
  | some s' =>
    by_cases hs : s' = s
    · subst hs
      simp [setSlot]
    · have hne : ¬ (some s' = some s) := by simpa using hs
      rw [if_neg hne]
      simp [setSlot, update_of_ne hs]

theorem SfsFs.blockView_newSlot (hfree : (fs.sfsRcache s).inodeNo = -1)
    (hno : slotOf fs.sfsRcache i b = none) (hc : c.Tagged i b) (hi : i < 2147483648)
    (hb : b < 2147483648) (hj : j < 2147483648) (hb' : b' < 2147483648) :
    (fs.setSlot s c).blockView j b' = if j = i ∧ b' = b then c.cache else fs.blockView j b' := by
  by_cases hjb : j = i ∧ b' = b
  · obtain ⟨rfl, rfl⟩ := hjb
    have hslot : slotOf (fs.setSlot s c).sfsRcache j b' = some s := by
      refine slotOf_of_unique ?_ fun s' htag => ?_
      · simpa [setSlot] using hc
      · by_contra hne
        rw [sfsRcache_setSlot, update_of_ne hne] at htag
        exact slotOf_eq_none.mp hno s' htag
    rw [blockView_of_some hslot, if_pos ⟨rfl, rfl⟩]
    simp [setSlot]
  · have hslot : slotOf (fs.setSlot s c).sfsRcache j b' = slotOf fs.sfsRcache j b' := by
      refine slotOf_update ⟨fun h => ?_, fun h => absurd hfree (h.not_free hj)⟩
      exact absurd (h.inj hc hj hi hb' hb) hjb
    rw [if_neg hjb, blockView, hslot, blockView]
    cases h : slotOf fs.sfsRcache j b' with
    | none => rfl
    | some s' =>
      have hne : s' ≠ s := by
        rintro rfl
        exact (tagged_of_slotOf h).not_free hj hfree
      simp [setSlot, update_of_ne hne]

/-- File blocks after a change of one of them. -/
def Patched (files : Set Nat) (fs fs' : SfsFs) (i fb : Nat) (B : Sector) : Prop :=
  ∀ j ∈ files, ∀ fb', fs'.fileBlock j fb' = if j = i ∧ fb' = fb then B else fs.fileBlock j fb'

/-- A change of the view of one disk block is a change of one file block. -/
theorem Patched.of_view (h0 : fs.dataRef i fb ≠ 0) {B : Sector}
    (href : ∀ j ∈ files, ∀ r, fs'.refAt j r = fs.refAt j r)
    (hself : fs'.blockView i (fs.dataRef i fb) = B)
    (hview : ∀ j ∈ files, ∀ fb', fs.dataRef j fb' ≠ 0 → ¬ (j = i ∧ fb' = fb) →
      fs'.blockView j (fs.dataRef j fb') = fs.blockView j (fs.dataRef j fb')) :
    Patched files fs fs' i fb B := by
  intro j hj fb'
  have hd := dataRef_congr (href j hj) fb'
  by_cases hz : fs.dataRef j fb' = 0
  · have hne : ¬ (j = i ∧ fb' = fb) := by
      rintro ⟨rfl, rfl⟩
      exact h0 hz
    rw [if_neg hne, fileBlock_of_zero hz, fileBlock_of_zero (hd.trans hz)]
  · rw [fileBlock_of_ne (hd ▸ hz), hd]
    by_cases hjf : j = i ∧ fb' = fb
    · obtain ⟨rfl, rfl⟩ := hjf
      rw [if_pos ⟨rfl, rfl⟩, hself]
    · rw [if_neg hjf, fileBlock_of_ne hz, hview j hj fb' hz hjf]

variable {u : Uio} {iov : List Byte} {skip len : Nat}

section

variable (hw : Wf t fs files)

include hw

theorem SfsFs.patched_hit (hi : i ∈ files) (h0 : fs.dataRef i fb ≠ 0)
    (hs : slotOf fs.sfsRcache i (fs.dataRef i fb) = some s) :
    Patched files fs (fs.hit u iov skip len s) i fb (u.patch iov skip len (fs.fileBlock i fb)) := by
  refine Patched.of_view h0 (fun _ _ _ => rfl) ?_ ?_
  · rw [hit, blockView_setSlot, if_pos hs, fileBlock_of_ne h0, blockView_of_some hs]
  · intro j hj fb' hz hne
    rw [hit, blockView_setSlot, if_neg]
    intro hs'
    have hinj := (tagged_of_slotOf hs').inj (tagged_of_slotOf hs) (hw.ino_lt hj) (hw.ino_lt hi)
      (hw.dataRef_lt_int hj hz) (hw.dataRef_lt_int hi h0)
    exact hne (hw.dataRef_inj hj hi hz hinj.2)

theorem SfsFs.patched_fill (hi : i ∈ files) (h0 : fs.dataRef i fb ≠ 0)
    (hno : slotOf fs.sfsRcache i (fs.dataRef i fb) = none) (hs : freeSlot fs.sfsRcache = some s) :
    Patched files fs (fs.fill u iov skip len i (fs.dataRef i fb) s) i fb
      (u.patch iov skip len (fs.fileBlock i fb)) := by
  have hview := fun j (hj : j ∈ files) fb' (hz : fs.dataRef j fb' ≠ 0) =>
    blockView_newSlot (free_of_freeSlot hs) hno
      (c := ⟨u.patch iov skip len (fs.disk (fs.dataRef i fb)), intOfU32 i,
        intOfU32 (fs.dataRef i fb)⟩) ⟨rfl, rfl⟩ (hw.ino_lt hi) (hw.dataRef_lt_int hi h0)
      (hw.ino_lt hj) (hw.dataRef_lt_int hj hz)
  refine Patched.of_view h0 (fun _ _ _ => rfl) ?_ ?_
  · rw [fill, hview i hi fb h0, if_pos ⟨rfl, rfl⟩, fileBlock_of_ne h0, blockView_of_none hno]
  · intro j hj fb' hz hne
    rw [fill, hview j hj fb' hz, if_neg]
    rintro ⟨rfl, he⟩
    exact hne (hw.dataRef_inj hj hi hz he)

theorem Wf.setSlot (s : Fin 64) (c : SfsBufferCache) : Wf t (fs.setSlot s c) files :=
  hw.other _ _ _

/-! ## 4. Changes of the disk -/

variable (hi : i ∈ files) (h0 : fs.dataRef i fb ≠ 0) (data : Sector)

include hi h0

theorem Wf.store_refAt (hj : j ∈ files) (r : Slot) :
    (fs.store (fs.dataRef i fb) data).refAt j r = fs.refAt j r := by
  obtain ⟨q, -, hq, hqi⟩ := dataSlot_of_dataRef h0
  rw [← hqi] at h0 ⊢
  have hne : j ≠ fs.refAt i q := fun he => hw.ref_not_mem hi h0 (he ▸ hj)
  refine refAt_congr (inode_store data hne) (fun hid => ?_) r
  rw [disk_store, update_of_ne]
  intro he
  exact hq (hw.ref_inj hj hi hid he).2.symm

theorem Wf.store_inode (hj : j ∈ files) :
    (fs.store (fs.dataRef i fb) data).inode j = fs.inode j := by
  obtain ⟨q, -, -, hqi⟩ := dataSlot_of_dataRef h0
  rw [← hqi] at h0 ⊢
  exact inode_store data fun he => hw.ref_not_mem hi h0 (he ▸ hj)

theorem Wf.storeData : Wf t (fs.store (fs.dataRef i fb) data) files := by
  have hfr := Frame.store fs (fs.dataRef i fb) data
  have hin := fun j => hw.store_inode hi h0 data (j := j)
  have hledger : (fs.store (fs.dataRef i fb) data).ledger files = fs.ledger files := by
    refine Ledger.ext rfl rfl (funext fun ⟨j, r⟩ => ?_)
    by_cases hj : j ∈ files
    · rw [ledger_ref hj, ledger_ref hj, hw.store_refAt hi h0 data hj]
    · exact (if_neg hj).trans (if_neg hj).symm
  obtain ⟨q, -, -, hqi⟩ := dataSlot_of_dataRef h0
  have hq0 : fs.refAt i q ≠ 0 := hqi ▸ h0
  have hdisk : ∀ c, c ≠ fs.dataRef i fb → (fs.store (fs.dataRef i fb) data).disk c = fs.disk c :=
    fun c hc => by rw [disk_store, update_of_ne hc]
  refine hw.of_frame hfr rfl (fun _ _ h => h) (hdisk 0 h0.symm)
    (Or.inr ⟨rfl, rfl, fun c hc => hdisk c ?_⟩) ?_ (fun j hj => by rw [hin j hj])
    (fun j hj => by rw [hin j hj]; exact hw.fits j hj) ?_ ?_
  · rintro rfl
    exact hw.ref_not_map hi hq0 (hqi ▸ hc)
  · intro v hv hclean
    rw [hdisk]
    · exact hw.backed.inode v hv hclean
    · intro he
      exact hw.ref_not_mem hi hq0 (hqi ▸ he ▸ hw.table.ino_mem v hv)
  · rw [hledger]
    exact hw.sound
  · rw [hledger]
    exact hw.tight

theorem SfsFs.patched_store (hno : slotOf fs.sfsRcache i (fs.dataRef i fb) = none) :
    Patched files fs (fs.store (fs.dataRef i fb) data) i fb data := by
  refine Patched.of_view h0 (fun j hj r => hw.store_refAt hi h0 data hj r) ?_ ?_
  · have hslot : slotOf (fs.store (fs.dataRef i fb) data).sfsRcache i (fs.dataRef i fb) = none :=
      hno
    rw [blockView_of_none hslot, disk_store, update_self]
  · intro j hj fb' hz hne
    have hb : fs.dataRef j fb' ≠ fs.dataRef i fb := fun he => hne (hw.dataRef_inj hj hi hz he)
    have hrc : (fs.store (fs.dataRef i fb) data).sfsRcache = fs.sfsRcache := rfl
    rw [blockView, blockView, hrc, disk_store, update_of_ne hb]

end

/-- No slot has kept the tag of a block of file `i` that is free now. -/
def NoStale (fs : SfsFs) (i : Nat) : Prop :=
  ∀ s b, b < fs.nblocks → (fs.sfsRcache s).Tagged i b → fs.sfsFreemap.isset b = true

section

variable (hg : Grows files fs fs₁ i)

include hg

theorem Grows.fresh_slot (hw1 : Wf t fs₁ files) (hi : i ∈ files)
    (hst : NoStale fs i) (h0 : fs.dataRef i fb = 0) (h1 : fs₁.dataRef i fb ≠ 0) :
    slotOf fs₁.sfsRcache i (fs₁.dataRef i fb) = none ∧ fs₁.disk (fs₁.dataRef i fb) = 0 := by
  obtain ⟨r, hr, hne, hri⟩ := dataSlot_of_dataRef h1
  have hr0 : fs.refAt i r = 0 := by
    rw [dataRef, hr] at h0
    exact h0
  obtain ⟨hfree, hclear⟩ := hg.fresh i hi r hr0 (hri ▸ h1)
  rw [← hri]
  refine ⟨slotOf_eq_none.mpr fun s htag => ?_, hclear hne⟩
  have hlt : fs₁.refAt i r < fs.nblocks := hg.frame.nblocks ▸ hw1.ref_lt hi (hri ▸ h1)
  rw [hg.frame.rcache] at htag
  rw [hst s _ hlt htag] at hfree
  exact absurd hfree (by decide)

theorem Grows.dataRef (hj : j ∈ files) (h0 : fs.dataRef j fb ≠ 0) :
    fs₁.dataRef j fb = fs.dataRef j fb := by
  obtain ⟨r, hr, -, hri⟩ := SfsFs.dataSlot_of_dataRef h0
  rw [SfsFs.dataRef, hr]
  exact (hg.keep j hj r (hri ▸ h0)).trans hri

/-- **Mapping a block changes no file**, unless the cache has kept a slot for the new block. -/
theorem Grows.fileBlock (hw1 : Wf t fs₁ files) (hi : i ∈ files)
    (hst : NoStale fs i) (hj : j ∈ files) (fb : Nat) :
    fs₁.fileBlock j fb = fs.fileBlock j fb := by
  by_cases h0 : fs.dataRef j fb = 0
  · rw [fileBlock_of_zero h0]
    by_cases h1 : fs₁.dataRef j fb = 0
    · exact fileBlock_of_zero h1
    · by_cases hji : j = i
      · subst hji
        obtain ⟨hslot, hdisk⟩ := hg.fresh_slot hw1 hi hst h0 h1
        rw [fileBlock_of_ne h1, blockView_of_none hslot, hdisk]
      · exact absurd ((dataRef_congr (hg.other j hj hji) fb).trans h0) h1
  · have hd := hg.dataRef hj h0
    obtain ⟨r, -, hne, hri⟩ := dataSlot_of_dataRef h0
    rw [fileBlock_of_ne h0, fileBlock_of_ne (hd ▸ h0), hd, blockView,
      blockView, hg.frame.rcache, ← hri, hg.data j hj r hne (hri ▸ h0)]

end

end View

end Os161
