/-
# `sfs_bmap`: mapping, and allocating on the way

`sfs_bmap` with `doalloc` can allocate up to two blocks, an indirect block and a data block, and
can run out of space between them.  Each allocation that reaches a slot is one `GrowStep`: a free
block is marked, cleared, and entered in a slot that was empty.  A `GrowStep` keeps the volume
well formed, so the call does, wherever it stops.

`Grows` is what a caller has to know about the volume after the call: every reference there was
is still there, what is new was free before and reads as zeros, and no data block of any file
was written.
-/
import Os161.Sfs.Volume

namespace Os161

open Function SfsFs SfsInode

/-! ## 1. One allocation -/

/-- Two inodes that differ at most in their references. -/
def SfsInode.SameMeta (n n' : SfsInode) : Prop :=
  n'.sfiSize = n.sfiSize ∧ n'.sfiType = n.sfiType ∧ n'.sfiLinkcount = n.sfiLinkcount

theorem SfsInode.SameMeta.refl (n : SfsInode) : n.SameMeta n := ⟨rfl, rfl, rfl⟩

theorem SfsInode.SameMeta.trans {n n' n'' : SfsInode} (h : n.SameMeta n') (h' : n'.SameMeta n'') :
    n.SameMeta n'' :=
  ⟨h'.1.trans h.1, h'.2.1.trans h.2.1, h'.2.2.trans h.2.2⟩

/-- The free block `b` becomes the block in the empty slot `r` of inode `i`. -/
structure GrowStep (files : Set Nat) (fs fs' : SfsFs) (i : Nat) (r : Slot) (b : Nat) : Prop where
  frame : Frame fs fs'
  mem : i ∈ files
  lt : b < fs.nblocks
  free : fs.sfsFreemap.isset b = false
  freemap : fs'.sfsFreemap = fs.sfsFreemap.set b
  dirty : fs'.sfsFreemapdirty = true
  empty : fs.refAt i r = 0
  ref : ∀ j ∈ files, ∀ q, fs'.refAt j q = if j = i ∧ q = r then b else fs.refAt j q
  zero : fs'.disk 0 = fs.disk 0
  inode : ∀ v ∈ fs.sfsVnodes, (fs'.heap v).svDirty = false →
    decodeInode (fs'.disk (fs.heap v).svIno) = (fs'.heap v).svI
  same : ∀ j ∈ files, (fs.inode j).SameMeta (fs'.inode j)
  fits : ∀ j ∈ files, (fs'.inode j).Fits
  cleared : r ≠ .indirect → fs'.disk b = 0
  data : ∀ j ∈ files, ∀ q, q ≠ .indirect → fs.refAt j q ≠ 0 →
    fs'.disk (fs.refAt j q) = fs.disk (fs.refAt j q)

/-- The volume has grown: file `i` has got new references, none was changed, and no data was
written. -/
structure Grows (files : Set Nat) (fs fs' : SfsFs) (i : Nat) : Prop where
  frame : Frame fs fs'
  other : ∀ j ∈ files, j ≠ i → ∀ r, fs'.refAt j r = fs.refAt j r
  same : ∀ i ∈ files, (fs.inode i).SameMeta (fs'.inode i)
  keep : ∀ i ∈ files, ∀ r, fs.refAt i r ≠ 0 → fs'.refAt i r = fs.refAt i r
  fresh : ∀ i ∈ files, ∀ r, fs.refAt i r = 0 → fs'.refAt i r ≠ 0 →
    fs.sfsFreemap.isset (fs'.refAt i r) = false ∧ (r ≠ .indirect → fs'.disk (fs'.refAt i r) = 0)
  data : ∀ i ∈ files, ∀ r, r ≠ .indirect → fs.refAt i r ≠ 0 →
    fs'.disk (fs.refAt i r) = fs.disk (fs.refAt i r)
  marks : ∀ b, fs.sfsFreemap.isset b = true → fs'.sfsFreemap.isset b = true

section Grow

variable {t : Prop} {fs fs' fs'' : SfsFs} {files : Set Nat} {i b v : Nat} {r : Slot}

theorem Grows.refl (files : Set Nat) (fs : SfsFs) (i : Nat) : Grows files fs fs i where
  frame := .refl fs
  other := fun _ _ _ _ => rfl
  same := fun _ _ => .refl _
  keep := fun _ _ _ _ => rfl
  fresh := fun _ _ _ h0 h => absurd h0 h
  data := fun _ _ _ _ _ => rfl
  marks := fun _ h => h

theorem Grows.trans (h : Grows files fs fs' i) (h' : Grows files fs' fs'' i) :
    Grows files fs fs'' i where
  frame := h.frame.trans h'.frame
  other := fun j hj hne r => (h'.other j hj hne r).trans (h.other j hj hne r)
  same := fun i hi => by
    obtain ⟨h1, h2, h3⟩ := h.same i hi
    obtain ⟨h1', h2', h3'⟩ := h'.same i hi
    exact ⟨h1'.trans h1, h2'.trans h2, h3'.trans h3⟩
  keep := fun i hi r h0 => by
    have hk := h.keep i hi r h0
    rw [h'.keep i hi r (hk ▸ h0), hk]
  fresh := fun i hi r h0 h2 => by
    by_cases h1 : fs'.refAt i r = 0
    · -- new in the second step: what is free then was free before
      obtain ⟨hfree, hclear⟩ := h'.fresh i hi r h1 h2
      refine ⟨?_, hclear⟩
      cases hs : fs.sfsFreemap.isset (fs''.refAt i r) with
      | false => rfl
      | true =>
        rw [h.marks _ hs] at hfree
        exact hfree
    · -- new in the first step: the second one does not write it
      obtain ⟨hfree, hclear⟩ := h.fresh i hi r h0 h1
      have hk := h'.keep i hi r h1
      refine ⟨hk ▸ hfree, fun hr => ?_⟩
      rw [hk, h'.data i hi r hr h1, hclear hr]
  data := fun i hi r hr h0 => by
    have hk := h.keep i hi r h0
    rw [← h.data i hi r hr h0, ← hk]
    exact h'.data i hi r hr (hk ▸ h0)
  marks := fun b hb => h'.marks b (h.marks b hb)

namespace GrowStep

variable (h : GrowStep files fs fs' i r b)

include h

theorem ledger : fs'.ledger files = (fs.ledger files).grow (i, r) b := by
  refine Ledger.ext ?_ ?_ ?_
  · ext c
    show (fs'.nblocks ≤ c ∨ fs'.sfsFreemap.isset c = true) ↔
      (c = b ∨ fs.nblocks ≤ c ∨ fs.sfsFreemap.isset c = true)
    rw [h.frame.nblocks, h.freemap, Bitmap.isset_set]
    exact or_left_comm
  · ext c
    show (c = 0 ∨ IsMapBlock fs'.nblocks c ∨ fs'.nblocks ≤ c ∨ c ∈ files) ↔ _
    rw [h.frame.nblocks]
    rfl
  · funext ⟨j, q⟩
    by_cases hj : j ∈ files
    · rw [SfsFs.ledger_ref hj, h.ref j hj]
      by_cases hs : j = i ∧ q = r
      · rw [if_pos hs, hs.1, hs.2, Ledger.grow_ref_self]
      · rw [if_neg hs, Ledger.grow_ref_of_ne (by simpa using hs), SfsFs.ledger_ref hj]
    · have hne : (j, q) ≠ (i, r) := fun he => hj (by rw [(Prod.mk.inj he).1]; exact h.mem)
      rw [Ledger.grow_ref_of_ne hne]
      simp [SfsFs.ledger, hj]

theorem wf (hw : Wf t fs files) : Wf t fs' files := by
  refine hw.of_frame h.frame (by rw [h.freemap]; rfl) ?_ h.zero (.inl h.dirty) h.inode
    (fun j hj => (h.same j hj).2.1) h.fits ?_ ?_
  · intro c _ hc
    rw [h.freemap]
    exact Bitmap.isset_set.mpr (.inr hc)
  · rw [h.ledger]
    exact hw.sound.grow (Wf.free_notMem h.lt h.free)
  · intro ht
    rw [h.ledger]
    refine (hw.tight ht).grow ?_ hw.sound.zero_fixed
    rw [ledger_ref h.mem]
    exact h.empty

theorem grows : Grows files fs fs' i where
  frame := h.frame
  other := fun j hj hne q => by rw [h.ref j hj, if_neg fun he => hne he.1]
  same := h.same
  keep := fun j hj q h0 => by
    rw [h.ref j hj, if_neg]
    rintro ⟨rfl, rfl⟩
    exact h0 h.empty
  fresh := fun j hj q h0 h1 => by
    rw [h.ref j hj] at h1 ⊢
    by_cases hs : j = i ∧ q = r
    · rw [if_pos hs, hs.2]
      exact ⟨h.free, h.cleared⟩
    · rw [if_neg hs] at h1
      exact absurd h0 h1
  data := h.data
  marks := fun c hc => by
    rw [h.freemap]
    exact Bitmap.isset_set.mpr (.inr hc)

end GrowStep

theorem growStep_inode (hw : Wf t fs files) (hv : v ∈ fs.sfsVnodes) (hb : b < fs.nblocks)
    (hf : fs.sfsFreemap.isset b = false) {n : SfsInode} (hfits : (fs.heap v).svI.Fits → n.Fits)
    (hsame : (fs.heap v).svI.SameMeta n) (h0 : (fs.heap v).svI.ref fs.disk r = 0)
    (href : ∀ q, n.ref (update fs.disk b 0) q =
      if q = r then b else (fs.heap v).svI.ref fs.disk q) :
    GrowStep files fs ((fs.alloc b).setInode v n) (fs.heap v).svIno r b := by
  have hfr : Frame fs (fs.alloc b) := Frame.alloc fs b
  have hmem := hw.table.ino_mem v hv
  have hinode := hw.table.inode hv
  have hin : ∀ j, ((fs.alloc b).setInode v n).inode j =
      if j = (fs.heap v).svIno then n else (fs.alloc b).inode j :=
    (hfr.table hw.table).inode_setInode hv n
  have hdisk : ((fs.alloc b).setInode v n).disk = update fs.disk b 0 := rfl
  refine ⟨hfr.trans (.setInode _ v n), hmem, hb, hf, rfl, rfl, by rw [refAt, hinode, h0],
    ?_, ?_, ?_, ?_, ?_, ?_, ?_⟩
  · intro j hj q
    by_cases hji : j = (fs.heap v).svIno
    · rw [refAt, hin, if_pos hji, hdisk, href, hji, refAt, hinode]
      simp
    · rw [if_neg (fun hs => hji hs.1), ← hw.alloc_refAt hb hf hj q, refAt, hin, if_neg hji]
      rfl
  · rw [hdisk, update_of_ne (hw.free_ne_zero hb hf).symm]
  · intro w hwm hclean
    have hne : w ≠ v := by
      rintro rfl
      exact absurd hclean (by simp)
    have hwb : (fs.heap w).svIno ≠ b := fun he =>
      hw.free_not_file hb hf (he ▸ hw.table.ino_mem w hwm)
    rw [heap_setInode_of_ne n hne] at hclean ⊢
    rw [hdisk, update_of_ne hwb]
    exact hw.backed.inode w hwm hclean
  · intro j hj
    rw [hin]
    by_cases hji : j = (fs.heap v).svIno
    · rw [if_pos hji, hji, hinode]
      exact hsame
    · rw [if_neg hji, hw.alloc_inode hb hf hj]
      exact .refl _
  · intro j hj
    rw [hin]
    by_cases hji : j = (fs.heap v).svIno
    · rw [if_pos hji]
      exact hfits (hinode ▸ hw.fits _ hmem)
    · rw [if_neg hji, hw.alloc_inode hb hf hj]
      exact hw.fits j hj
  · intro _
    rw [hdisk, update_self]
  · intro j hj q _ _
    rw [hdisk, update_of_ne (hw.free_ne_ref hb hf hj q)]

/-- An entry of the indirect block takes the block; the indirect block is written back. -/
theorem growStep_entry (hw : Wf t fs files) (hi : i ∈ files) (hb : b < fs.nblocks)
    (hf : fs.sfsFreemap.isset b = false) (hid : fs.refAt i .indirect ≠ 0) {k : Fin 128}
    (h0 : fs.refAt i (.entry k) = 0) {idbuf : Nat → Nat}
    (hbuf : ∀ j < 128, idbuf j = (fs.disk (fs.refAt i .indirect)).word j) :
    GrowStep files fs ((fs.alloc b).store (fs.refAt i .indirect)
      (Bytes.ofWords (update idbuf k.val b))) i (.entry k) b := by
  set idblock := fs.refAt i .indirect with hidb
  set fs' := (fs.alloc b).store idblock (Bytes.ofWords (update idbuf k.val b)) with hfs'
  have hidf : idblock ∉ files := hw.ref_not_mem hi hid
  have hidne : b ≠ idblock := (hw.free_ne_ref hb hf hi .indirect).symm
  have hdisk : ∀ c, c ≠ idblock → c ≠ b → fs'.disk c = fs.disk c := by
    intro c h1 h2
    rw [hfs', disk_store, update_of_ne h1]
    exact update_of_ne h2 _ _
  have hin : ∀ j ∈ files, fs'.inode j = fs.inode j := by
    intro j hj
    have hne : j ≠ idblock := fun he => hidf (he ▸ hj)
    rw [hfs', inode_store _ hne, hw.alloc_inode hb hf hj]
  -- the words of the indirect block as it is now
  have hword : ∀ j : Fin 128, (fs'.disk idblock).word j.val =
      if j = k then b else (fs.disk idblock).word j.val := by
    intro j
    have hlt : 4 * j.val + 3 < 512 := by omega
    have hbn := hw.nblocks_lt
    rw [hfs', disk_store, update_self, Bytes.word_ofWords hlt]
    by_cases hjk : j = k
    · rw [if_pos hjk, hjk, update_self]
      exact Nat.mod_eq_of_lt (by omega)
    · rw [if_neg hjk, update_of_ne (fun he => hjk (Fin.ext he)), hbuf j.val j.isLt]
      exact Nat.mod_eq_of_lt (Bytes.word_lt _ _)
  refine ⟨(Frame.alloc fs b).trans (.store _ _ _), hi, hb, hf, rfl, rfl, h0, ?_, ?_, ?_, ?_, ?_,
    ?_, ?_⟩
  · intro j hj q
    by_cases hji : j = i
    · subst hji
      have hid' : (fs.inode j).sfiIndirect = idblock := rfl
      rw [refAt, hin j hj]
      cases q with
      | direct q => simp [refAt, ref]
      | indirect => simp [refAt, ref]
      | entry q =>
        have hold : fs.refAt j (.entry q) = (fs.disk idblock).word q.val := by
          simp only [refAt, ref, hid', if_neg hid]
        simp only [ref, hid', if_neg hid, hword, hold, Slot.entry.injEq, true_and]
    · rw [if_neg (fun hs => hji hs.1)]
      refine refAt_congr (hin j hj) (fun hne => ?_) q
      refine hdisk _ (fun he => ?_) (hw.free_ne_ref hb hf hj .indirect)
      exact hji (hw.ref_inj hj hi hne (he.trans hidb)).1
  · exact hdisk 0 hid.symm (hw.free_ne_zero hb hf).symm
  · intro w hwm hclean
    have hwf := hw.table.ino_mem w hwm
    rw [hdisk _ (fun he => hidf (he ▸ hwf)) (fun he => hw.free_not_file hb hf (he ▸ hwf))]
    exact hw.backed.inode w hwm hclean
  · intro j hj
    rw [hin j hj]
    exact .refl _
  · intro j hj
    rw [hin j hj]
    exact hw.fits j hj
  · intro _
    rw [hfs', disk_store, update_of_ne hidne]
    exact update_self _ _ _
  · intro j hj q hq hne
    refine hdisk _ (fun he => hq ?_) (hw.free_ne_ref hb hf hj q)
    exact (hw.ref_inj hj hi hne (he.trans hidb)).2

end Grow

/-! ## 2. Block I/O and allocation on a well-formed volume -/

section Specs

variable {t p : Prop} {fs : SfsFs} {files : Set Nat} {v b : Nat} {E : Errno → SfsFs → Prop}

theorem wp_wblock {data : Sector} (hd : fs.sfsDevice.Reliable) (hb : b < fs.sfsDevice.dBlocks)
    {Q : Unit → SfsFs → Prop} (hQ : Q () (fs.store b data)) :
    Wp p (onDevice (sfsWblock data b)) Q E fs := by
  rw [onDevice, wp_zoom]
  refine (sfsWblock_reliable hd hb).post_ok ?_
  rintro _ _ rfl
  exact hQ

theorem Wf.block_lt (hw : Wf t fs files) (hb : b < fs.nblocks) : b < fs.sfsDevice.dBlocks :=
  lt_of_lt_of_le hb hw.nblocks_le

theorem wp_rblock (hd : fs.sfsDevice.Reliable) (hb : b < fs.sfsDevice.dBlocks)
    {Q : Sector → SfsFs → Prop} (hQ : Q (fs.disk b) fs) : Wp p (onDevice (sfsRblock b)) Q E fs := by
  rw [onDevice, wp_zoom]
  refine (sfsRblock_reliable hd hb).post_ok ?_
  rintro _ _ ⟨rfl, rfl⟩
  exact hQ

/-- `sfs_balloc` needs only a free map of whole words with nothing free past the end of the
volume. -/
theorem wp_sfsBalloc (hd : fs.sfsDevice.Reliable) (hle : fs.nblocks ≤ fs.sfsDevice.dBlocks)
    (h8 : fs.sfsFreemap.nbits % 8 = 0)
    (hbeyond : ∀ b, fs.nblocks ≤ b → b < fs.sfsFreemap.nbits → fs.sfsFreemap.isset b = true) :
    Wp False sfsBalloc
      (fun b fs' => b < fs.nblocks ∧ fs.sfsFreemap.isset b = false ∧ fs' = fs.alloc b)
      (fun e fs' => e = .enospc ∧ fs' = fs ∧
        ∀ b < fs.sfsFreemap.nbits, fs.sfsFreemap.isset b = true) fs := by
  rw [sfsBalloc, wp_bind, onFreemap, wp_zoom]
  refine (bitmapAlloc_wp (absurd h8)).imp ?_ ?_
  · rintro b _ ⟨hlt, hfree, rfl⟩
    have hb : b < fs.nblocks := by
      by_contra hn
      rw [hbeyond b (by omega) hlt] at hfree
      exact absurd hfree (by decide)
    simp only [wp_bind, wp_modify, wp_get, wp_assert, sfsClearblock]
    refine ⟨fun _ => ?_, fun hn => hn hb⟩
    refine wp_wblock ?_ ?_ ?_
    · exact hd
    · exact lt_of_lt_of_le hb hle
    · exact wp_pure.mpr ⟨hb, hfree, rfl⟩
  · rintro _ _ ⟨rfl, rfl, hall⟩
    exact ⟨rfl, rfl, hall⟩

/-- **`sfs_balloc`** hands out a free block of the volume, marked and cleared, or reports
`ENOSPC` and changes nothing. -/
theorem sfsBalloc_spec (hw : Wf t fs files) : Wp False sfsBalloc
      (fun b fs' => b < fs.nblocks ∧ fs.sfsFreemap.isset b = false ∧ fs' = fs.alloc b)
      (fun e fs' => e = .enospc ∧ fs' = fs ∧
        ∀ b < fs.nblocks, fs.sfsFreemap.isset b = true) fs := by
  have h8 : fs.sfsFreemap.nbits % 8 = 0 := hw.nbits ▸ sfsBitmapsize_mod _
  refine (wp_sfsBalloc hw.reliable hw.nblocks_le h8 hw.beyond).imp (fun _ _ h => h) ?_
  rintro _ _ ⟨rfl, rfl, hall⟩
  exact ⟨rfl, rfl, fun b hb => hall b (lt_of_lt_of_le hb hw.nblocks_le_nbits)⟩

theorem sfsCheckUsed_spec (hlt : b ≠ 0 → b < fs.nblocks)
    (hset : b ≠ 0 → fs.sfsFreemap.isset b = true) :
    Wp False (sfsCheckUsed b) (fun _ fs' => fs' = fs) (fun _ _ => False) fs := by
  rw [sfsCheckUsed, wp_ite]
  refine ⟨fun h0 => ?_, fun _ => wp_pure.mpr rfl⟩
  simp only [sfsBused, wp_bind, wp_get, wp_assert, wp_pure]
  exact ⟨fun _ => ⟨fun _ => trivial, fun hn => hn (hset h0)⟩, fun hn => hn (hlt h0)⟩

end Specs

/-! ## 3. `sfs_bmap` -/

/-- What a successful `sfs_bmap` of block `fileblock` of file `i` gives. -/
structure BmapOk (t : Prop) (files : Set Nat) (fs : SfsFs) (i fileblock : Nat) (doalloc : Bool)
    (b : Nat) (fs' : SfsFs) : Prop where
  wf : Wf t fs' files
  grows : Grows files fs fs' i
  block : b = fs'.dataRef i fileblock
  mapped : doalloc = true → b ≠ 0
  still : doalloc = false ∨ fs.dataRef i fileblock ≠ 0 → fs' = fs

/-- What a failed `sfs_bmap` leaves: the block was past the largest file, or was to be allocated
and the disk is full. -/
structure BmapErr (t : Prop) (files : Set Nat) (fs : SfsFs) (i fileblock : Nat) (doalloc : Bool)
    (e : Errno) (fs' : SfsFs) : Prop where
  wf : Wf t fs' files
  grows : Grows files fs fs' i
  reason : (e = .efbig ∧ 143 ≤ fileblock ∧ fs' = fs) ∨
    (e = .enospc ∧ doalloc = true ∧ fileblock < 143 ∧ fs.dataRef i fileblock = 0 ∧
      (fileblock < 15 → fs' = fs) ∧ ∀ b < fs.nblocks, fs'.sfsFreemap.isset b = true)

section Bmap

variable {t : Prop} {fs : SfsFs} {files : Set Nat} {v : Nat}

theorem SfsFs.dataRef_direct (i : Nat) (k : Fin 15) :
    fs.dataRef i k.val = fs.refAt i (.direct k) := by
  simp [dataRef, dataSlot]

theorem SfsFs.dataRef_entry (i : Nat) (k : Fin 128) :
    fs.dataRef i (15 + k.val) = fs.refAt i (.entry k) := by
  have h : ¬ 15 + k.val < 15 := by omega
  simp [dataRef, dataSlot, h]

variable {i fileblock b : Nat}

theorem SfsFs.dataSlot_of_dataRef (h : fs.dataRef i fileblock ≠ 0) :
    ∃ r, dataSlot fileblock = some r ∧ r ≠ .indirect ∧ fs.refAt i r = fs.dataRef i fileblock := by
  unfold dataRef at h ⊢
  cases hr : dataSlot fileblock with
  | none => simp [hr] at h
  | some r =>
    refine ⟨r, rfl, ?_, rfl⟩
    rintro rfl
    unfold dataSlot at hr
    split at hr
    · simp at hr
    · split at hr <;> simp at hr

section

variable (hw : Wf t fs files)

include hw

theorem Wf.dataRef_lt (hi : i ∈ files) (h : fs.dataRef i fileblock ≠ 0) :
    fs.dataRef i fileblock < fs.nblocks := by
  obtain ⟨r, -, -, hr⟩ := dataSlot_of_dataRef h
  rw [← hr] at h ⊢
  exact hw.ref_lt hi h

theorem Wf.refAt_vnode (hv : v ∈ fs.sfsVnodes) (r : Slot) :
    fs.refAt (fs.heap v).svIno r = (fs.heap v).svI.ref fs.disk r := by
  rw [refAt, hw.table.inode hv]

theorem Wf.checkUsed (hi : i ∈ files) {r : Slot} (hb : b = fs.refAt i r) :
    Wp False (sfsCheckUsed b) (fun _ fs' => fs' = fs) (fun _ _ => False) fs :=
  sfsCheckUsed_spec (fun h0 => hb ▸ hw.ref_lt hi (hb ▸ h0))
    (fun h0 => hb ▸ hw.ref_isset hi (hb ▸ h0))

section

variable (hv : v ∈ fs.sfsVnodes)

include hv

theorem growStep_direct {k : Fin 15} (hb : b < fs.nblocks) (hf : fs.sfsFreemap.isset b = false)
    (h0 : (fs.heap v).svI.sfiDirect k = 0) :
    GrowStep files fs ((fs.alloc b).setInode v { (fs.heap v).svI with
      sfiDirect := update (fs.heap v).svI.sfiDirect k b }) (fs.heap v).svIno
      (.direct k) b := by
  refine growStep_inode hw hv hb hf
    (fun hfits => { hfits with direct := fun q => ?_ })
    ⟨rfl, rfl, rfl⟩ h0 (fun q => ?_)
  · have hbn := hw.nblocks_lt
    show update (fs.heap v).svI.sfiDirect k b q < _
    by_cases hq : q = k
    · rw [hq, update_self]
      omega
    · rw [update_of_ne hq]
      exact hfits.direct q
  · cases q with
    | direct q =>
      by_cases hq : q = k
      · simp [ref, hq]
      · rw [if_neg (by simpa using hq)]
        simp [ref, update_of_ne hq]
    | indirect =>
      rw [if_neg (by simp)]
      rfl
    | entry q =>
      have hne : (fs.heap v).svI.sfiIndirect ≠ b := by
        have := hw.free_ne_ref hb hf (hw.table.ino_mem v hv) .indirect
        rw [hw.refAt_vnode hv] at this
        exact this
      rw [if_neg (by simp)]
      simp only [ref, update_of_ne hne]

theorem growStep_indirect (hb : b < fs.nblocks)
    (hf : fs.sfsFreemap.isset b = false) (h0 : (fs.heap v).svI.sfiIndirect = 0) :
    GrowStep files fs ((fs.alloc b).setInode v { (fs.heap v).svI with sfiIndirect := b })
      (fs.heap v).svIno .indirect b := by
  refine growStep_inode hw hv hb hf (fun hfits => { hfits with indirect := ?_ })
    ⟨rfl, rfl, rfl⟩ h0 (fun q => ?_)
  · exact lt_trans hb hw.nblocks_lt
  · cases q with
    | direct q =>
      rw [if_neg (by simp)]
      rfl
    | indirect => simp [ref]
    | entry q =>
      rw [if_neg (by simp)]
      simp [ref, h0]

theorem sfsBmapDirect_spec (k : Fin 15) (doalloc : Bool) :
    Wp False (sfsBmapDirect v k doalloc) (BmapOk t files fs (fs.heap v).svIno k.val doalloc)
      (BmapErr t files fs (fs.heap v).svIno k.val doalloc) fs := by
  have hmem := hw.table.ino_mem v hv
  have hblock : (fs.heap v).svI.sfiDirect k = fs.refAt (fs.heap v).svIno (.direct k) :=
    (hw.refAt_vnode hv (.direct k)).symm
  have hdr : fs.dataRef (fs.heap v).svIno k.val = fs.refAt (fs.heap v).svIno (.direct k) :=
    dataRef_direct (fs.heap v).svIno k
  simp only [sfsBmapDirect, vnodeAt, wp_bind, wp_get, wp_pure]
  by_cases hal : (fs.heap v).svI.sfiDirect k = 0 ∧ doalloc = true
  · simp only [if_pos hal, wp_bind, modifyInode, wp_modify, wp_pure]
    refine (sfsBalloc_spec hw).imp ?_ ?_
    · rintro b _ ⟨hb, hf, rfl⟩
      have hstep := growStep_direct hw hv hb hf hal.1
      have href : b = _ := ((hstep.ref _ hmem (.direct k)).trans (if_pos ⟨rfl, rfl⟩)).symm
      refine ((hstep.wf hw).checkUsed hmem href).post_ok ?_
      rintro _ _ rfl
      refine ⟨hstep.wf hw, hstep.grows, by rw [dataRef_direct]; exact href,
        fun _ => hw.free_ne_zero hb hf, ?_⟩
      rintro (hno | hne)
      · rw [hal.2] at hno
        exact absurd hno (by decide)
      · exact absurd (hdr.trans (hblock ▸ hal.1)) hne
    · rintro _ _ ⟨rfl, rfl, hfull⟩
      exact ⟨hw, .refl _ _ _, .inr ⟨rfl, hal.2, by omega, hdr.trans (hblock ▸ hal.1),
        fun _ => rfl, hfull⟩⟩
  · simp only [if_neg hal, wp_bind, wp_pure]
    refine (hw.checkUsed hmem hblock).post_ok ?_
    rintro _ _ rfl
    exact ⟨hw, .refl _ _ _, hblock.trans hdr.symm, fun hd h0 => hal ⟨h0, hd⟩, fun _ => rfl⟩

theorem sfsBmapIdbuf_spec : Wp False (sfsBmapIdbuf v)
      (fun x fs' => Wf t fs' files ∧ Grows files fs fs' (fs.heap v).svIno ∧
        x.1 = fs'.refAt (fs.heap v).svIno .indirect ∧ x.1 ≠ 0 ∧
        (∀ j < 128, x.2 j = (fs'.disk x.1).word j) ∧
        (fs.refAt (fs.heap v).svIno .indirect ≠ 0 → fs' = fs))
      (fun e fs' => e = .enospc ∧ fs' = fs ∧ fs.refAt (fs.heap v).svIno .indirect = 0 ∧
        ∀ b < fs.nblocks, fs.sfsFreemap.isset b = true) fs := by
  have hmem := hw.table.ino_mem v hv
  have hid : (fs.heap v).svI.sfiIndirect = fs.refAt (fs.heap v).svIno .indirect :=
    (hw.refAt_vnode hv .indirect).symm
  simp only [sfsBmapIdbuf, vnodeAt, wp_bind, wp_get, wp_pure]
  by_cases h0 : (fs.heap v).svI.sfiIndirect = 0
  · simp only [if_pos h0, wp_bind, modifyInode, wp_modify, wp_pure]
    refine (sfsBalloc_spec hw).imp ?_ ?_
    · rintro b _ ⟨hb, hf, rfl⟩
      have hstep := growStep_indirect hw hv hb hf h0
      have href : b = _ := ((hstep.ref _ hmem .indirect).trans (if_pos ⟨rfl, rfl⟩)).symm
      refine ⟨hstep.wf hw, hstep.grows, href, hw.free_ne_zero hb hf, fun j _ => ?_,
        fun hne => absurd (hid ▸ h0) hne⟩
      show 0 = (update fs.disk b 0 b).word j
      rw [update_self, Bytes.word_zero]
    · rintro _ _ ⟨rfl, rfl, hfull⟩
      exact ⟨rfl, rfl, hid ▸ h0, hfull⟩
  · simp only [if_neg h0, wp_bind, wp_pure]
    refine wp_rblock hw.reliable (hw.block_lt (hid ▸ hw.ref_lt hmem (hid ▸ h0))) ?_
    exact ⟨hw, .refl _ _ _, hid, h0, fun _ _ => rfl, fun _ => rfl⟩

theorem sfsBmapIndirect_spec (k : Fin 128) (doalloc : Bool) :
    Wp False (sfsBmapIndirect v k.val doalloc)
      (BmapOk t files fs (fs.heap v).svIno (15 + k.val) doalloc)
      (BmapErr t files fs (fs.heap v).svIno (15 + k.val) doalloc) fs := by
  have hmem := hw.table.ino_mem v hv
  have hid : (fs.heap v).svI.sfiIndirect = fs.refAt (fs.heap v).svIno .indirect :=
    (hw.refAt_vnode hv .indirect).symm
  have hdr : ∀ fs : SfsFs, ∀ i, fs.dataRef i (15 + k.val) = fs.refAt i (.entry k) :=
    fun fs i => fs.dataRef_entry i k
  simp only [sfsBmapIndirect, vnodeAt, wp_bind, wp_get, wp_pure]
  by_cases hnone : (fs.heap v).svI.sfiIndirect = 0 ∧ doalloc = false
  · have hempty := refAt_entry_of_indirect (hid ▸ hnone.1) k
    simp only [if_pos hnone, wp_pure]
    exact ⟨hw, .refl _ _ _, by rw [hdr, hempty], fun hd =>
      absurd (hd.symm.trans hnone.2) (by decide),
      fun _ => rfl⟩
  simp only [if_neg hnone, wp_bind]
  refine (sfsBmapIdbuf_spec hw hv).imp ?_ ?_
  · rintro ⟨idblock, idbuf⟩ fs₁ ⟨hw1, hg1, hidb, hid0, hbuf, hstill1⟩
    simp only at hidb hid0 hbuf
    have hid1 : fs₁.refAt (fs.heap v).svIno .indirect ≠ 0 := hidb ▸ hid0
    have hent : idbuf k.val = fs₁.refAt (fs.heap v).svIno (.entry k) := by
      rw [hbuf k.val k.isLt, hidb]
      exact (if_neg hid1).symm
    -- with the entry there, or nothing to allocate, the indirect block was there as well
    have hstill : doalloc = false ∨ fs.dataRef (fs.heap v).svIno (15 + k.val) ≠ 0 → fs₁ = fs := by
      intro hor
      refine hstill1 fun hz => ?_
      rcases hor with hd | hne
      · exact hnone ⟨hid.trans hz, hd⟩
      · exact hne (by rw [hdr, refAt_entry_of_indirect hz])
    by_cases hal : idbuf k.val = 0 ∧ doalloc = true
    · simp only [if_pos hal, wp_bind, wp_pure]
      refine (sfsBalloc_spec hw1).imp ?_ ?_
      · rintro b _ ⟨hb, hf, rfl⟩
        have hstep := growStep_entry hw1 hmem hb hf hid1 (hent ▸ hal.1) (hidb ▸ hbuf)
        have href : b = _ := ((hstep.ref _ hmem (.entry k)).trans (if_pos ⟨rfl, rfl⟩)).symm
        have hlt : idblock < fs₁.nblocks := hidb ▸ hw1.ref_lt hmem hid1
        have hal1 : (fs₁.alloc b).sfsDevice.Reliable := hw1.reliable
        refine wp_wblock hal1 (hw1.block_lt hlt) ?_
        rw [hidb]
        refine ((hstep.wf hw1).checkUsed hmem href).post_ok ?_
        rintro _ _ rfl
        refine ⟨hstep.wf hw1, hg1.trans hstep.grows, by rw [hdr]; exact href,
          fun _ => hw1.free_ne_zero hb hf, fun hor => ?_⟩
        rcases hor with hd | hne
        · exact absurd (hd.symm.trans hal.2) (by decide)
        · rw [hdr] at hne
          have hkeep := hg1.keep _ hmem (.entry k) hne
          exact absurd (hkeep.symm.trans (hent.symm.trans hal.1)) hne
      · rintro _ _ ⟨rfl, rfl, hfull⟩
        refine ⟨hw1, hg1, .inr ⟨rfl, hal.2, by omega, ?_, fun h => absurd h (by omega),
          hg1.frame.nblocks ▸ hfull⟩⟩
        rw [hdr]
        by_contra hne
        exact hne ((hg1.keep _ hmem (.entry k) hne).symm.trans (hent.symm.trans hal.1))
    · simp only [if_neg hal, wp_bind, wp_pure]
      refine (hw1.checkUsed hmem hent).post_ok ?_
      rintro _ _ rfl
      exact ⟨hw1, hg1, by rw [hdr]; exact hent, fun hd h0 => hal ⟨h0, hd⟩, hstill⟩
  · rintro _ _ ⟨rfl, rfl, h0, hfull⟩
    have hd : doalloc = true := by
      cases doalloc with
      | true => rfl
      | false => exact absurd ⟨hid.trans h0, rfl⟩ hnone
    exact ⟨hw, .refl _ _ _, .inr ⟨rfl, hd, by omega, by
      rw [hdr, refAt_entry_of_indirect h0], fun _ => rfl, hfull⟩⟩

/-- **`sfs_bmap`** never stops the machine on a well-formed volume, keeps it well formed whatever
it returns, and on success returns the block that the file now has there. -/
theorem sfsBmap_spec (fileblock : Nat) (doalloc : Bool) :
    Wp False (sfsBmap v fileblock doalloc) (BmapOk t files fs (fs.heap v).svIno fileblock doalloc)
      (BmapErr t files fs (fs.heap v).svIno fileblock doalloc) fs := by
  rw [sfsBmap]
  by_cases hdir : fileblock < 15
  · rw [dif_pos hdir]
    exact sfsBmapDirect_spec hw hv ⟨fileblock, hdir⟩ doalloc
  · rw [dif_neg hdir]
    by_cases hbig : (fileblock - 15) / 128 > 0
    · rw [if_pos hbig, wp_fail]
      exact ⟨hw, .refl _ _ _, .inl ⟨rfl, by omega, rfl⟩⟩
    · rw [if_neg hbig]
      have hk : (fileblock - 15) % 128 < 128 := Nat.mod_lt _ (by decide)
      have he : 15 + (fileblock - 15) % 128 = fileblock := by omega
      have := sfsBmapIndirect_spec hw hv ⟨(fileblock - 15) % 128, hk⟩ doalloc
      rwa [he] at this

end

end

theorem BmapErr.dataRef_eq_zero {doalloc : Bool} {e : Errno} {fs' : SfsFs}
    (h : BmapErr t files fs i fileblock doalloc e fs') : fs.dataRef i fileblock = 0 := by
  rcases h.reason with ⟨-, hbig, -⟩ | ⟨-, -, -, hz, -⟩
  · rw [dataRef, dataSlot, dif_neg (by omega), dif_neg (by omega)]
  · exact hz

theorem sfsBmap_mapped (hw : Wf t fs files) (hv : v ∈ fs.sfsVnodes)
    (h0 : fs.dataRef (fs.heap v).svIno fileblock ≠ 0) (doalloc : Bool) :
    Wp False (sfsBmap v fileblock doalloc)
      (fun b fs' => fs' = fs ∧ b = fs.dataRef (fs.heap v).svIno fileblock)
      (fun _ _ => False) fs := by
  refine (sfsBmap_spec hw hv fileblock doalloc).imp ?_ ?_
  · intro b fs' hok
    obtain rfl := hok.still (.inr h0)
    exact ⟨rfl, hok.block⟩
  · exact fun e fs' herr => h0 herr.dataRef_eq_zero

end Bmap

end Os161
