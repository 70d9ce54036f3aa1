/-
# What `sfs_sync` leaves on the disk

`sfs_sync` writes the inodes of the vnodes that are dirty, and the free map if it is.  From then on
the structures in memory are no more than copies: a mount that has NOTHING but the disk finds the
same inodes, the same free blocks and the same blocks behind every file (`sync_durable`).

What it does NOT write is `sfs_rcache`.  A block that a slot has changed is lost; every other block
is found with its contents.
-/
import Os161.Mksfs
import Os161.Sfs.View

namespace Os161

open List SfsFs

section

variable {t p : Prop} {fs fs' : SfsFs} {files : Set Nat}

/-- The disk has what a read of the block returns: no slot of the cache is newer. -/
def OnDisk (fs : SfsFs) (i fb : Nat) : Prop :=
  fs.dataRef i fb ≠ 0 → fs.blockView i (fs.dataRef i fb) = fs.disk (fs.dataRef i fb)

/-- `fs'` has the files of `fs` and the same free blocks.  A block of a file has the contents it had
exactly if they were on the disk. -/
structure SameFiles (files : Set Nat) (fs fs' : SfsFs) : Prop where
  super : fs'.sfsSuper = fs.sfsSuper
  free : ∀ b < fs.nblocks, fs'.sfsFreemap.isset b = fs.sfsFreemap.isset b
  inode : ∀ i ∈ files, fs'.inode i = fs.inode i
  ref : ∀ i ∈ files, ∀ r, fs'.refAt i r = fs.refAt i r
  data : ∀ i ∈ files, ∀ fb, fs'.fileBlock i fb = fs.fileBlock i fb ↔ OnDisk fs i fb

/-- An empty cache shows the disk. -/
theorem fileBlock_iff_onDisk {i : Nat} (hi : i < 2147483648)
    (hc : ∀ s, (fs'.sfsRcache s).inodeNo = -1)
    (href : ∀ r, fs'.refAt i r = fs.refAt i r)
    (hdisk : ∀ r, fs.refAt i r ≠ 0 → fs'.disk (fs.refAt i r) = fs.disk (fs.refAt i r)) (fb : Nat) :
    fs'.fileBlock i fb = fs.fileBlock i fb ↔ OnDisk fs i fb := by
  have hsame := dataRef_congr href fb
  by_cases h0 : fs.dataRef i fb = 0
  · rw [fileBlock_of_zero (hsame.trans h0), fileBlock_of_zero h0]
    exact iff_of_true rfl fun hne => absurd h0 hne
  · have hno : slotOf fs'.sfsRcache i (fs.dataRef i fb) = none :=
      slotOf_eq_none.mpr fun s htag => htag.not_free hi (hc s)
    have hd : fs'.disk (fs.dataRef i fb) = fs.disk (fs.dataRef i fb) := by
      cases hr : dataSlot fb with
      | none => exact absurd (by rw [dataRef, hr]) h0
      | some r =>
        have he : fs.dataRef i fb = fs.refAt i r := by rw [dataRef, hr]
        rw [he] at h0 ⊢
        exact hdisk r h0
    rw [fileBlock_of_ne (hsame.symm ▸ h0), fileBlock_of_ne h0, hsame, blockView_of_none hno, hd]
    exact ⟨fun h _ => h.symm, fun h => (h h0).symm⟩

/-- Whoever mounts the disk `d` gets the files of `fs`, unless there is no memory for it. -/
def Durable (files : Set Nat) (fs : SfsFs) (d : Lhd) : Prop :=
  ∀ mem, mem.sfsDevice = d →
    Wp False sfsDomount (fun _ => SameFiles files fs) (fun e _ => NoMemory mem e) mem

/-- The loop over the vnodes, with those of `rest` still to be written. -/
structure Flushed (t : Prop) (files : Set Nat) (fs : SfsFs) (rest : List Nat) (fs' : SfsFs) :
    Prop where
  wf : Wf t fs' files
  frame : Frame fs fs'
  freemap : fs'.sfsFreemap = fs.sfsFreemap
  inode : ∀ i, fs'.inode i = fs.inode i
  disk : ∀ b ∉ files, fs'.disk b = fs.disk b
  todo : ∀ v ∈ rest, v ∈ fs'.sfsVnodes
  clean : ∀ v ∈ fs'.sfsVnodes, v ∉ rest → (fs'.heap v).svDirty = false

theorem Flushed.next {v : Nat} {rest : List Nat} (h : Flushed t files fs (v :: rest) fs') :
    Wp p (sfsSyncInode v) (fun _ => Flushed t files fs rest) (fun _ _ => False) fs' := by
  have hv := h.todo v mem_cons_self
  refine (sfsSyncInode_spec h.wf hv).post fun _ fs₁ hs => ?_
  have hvn := hs.frame.vnodes
  refine ⟨hs.wf h.wf hv, h.frame.trans hs.frame, hs.freemap.trans h.freemap,
    fun i => (hs.inode hv i).trans (h.inode i), fun b hb => ?_, fun w hw => ?_,
    fun w hw hrest => ?_⟩
  · rw [hs.disk b fun he => hb (he ▸ h.wf.table.ino_mem v hv), h.disk b hb]
  · exact hvn ▸ h.todo w (mem_cons_of_mem v hw)
  · by_cases hwv : w = v
    · rw [hwv, hs.self]
    · rw [hs.other w hwv]
      exact h.clean w (hvn ▸ hw) fun hmem => (mem_cons.mp hmem).elim hwv hrest

/-- A volume without dirty vnodes is durable on a disk that its map was written to. -/
theorem Flushed.durable (h : Flushed t files fs [] fs') (hw : Wf t fs files) {d : Lhd}
    (hm : MapSaved fs'.sfsFreemap (sfsBitblocks fs'.nblocks) fs'.sfsDevice [] d) :
    Durable files fs d := by
  rintro mem rfl
  rw [h.freemap, h.frame.nblocks] at hm
  have hsuper : mountSuper (mem.disk sfsSbLocation) = fs.sfsSuper := by
    rw [← h.frame.super, ← h.wf.backed.super]
    exact congrArg mountSuper (hm.other 0 fun hmap => absurd hmap.1 (by decide))
  have hn : (decodeSuper (mem.disk sfsSbLocation)).spNblocks = fs.nblocks := by
    have hs := congrArg SfsSuper.spNblocks hsuper
    exact hs
  refine (sfsDomount_spec ?_ ?_ ?_).post ?_
  · exact fun k => by rw [hm.outcome]; exact h.wf.reliable k
  · exact (congrArg SfsSuper.spMagic hsuper).trans hw.backed.magic
  · rw [hn, hm.dBlocks, h.frame.dBlocks]
    exact hw.map_fits.trans hw.nblocks_le
  rintro _ _ ⟨k, rfl⟩
  have hdisk : ∀ i ∈ files, ∀ r, fs.refAt i r ≠ 0 →
      (mem.mounted k).disk (fs.refAt i r) = fs.disk (fs.refAt i r) := fun i hi r h0 =>
    (hm.other _ (hw.ref_not_map hi h0)).trans (h.disk _ (hw.ref_not_mem hi h0))
  have hinode : ∀ i ∈ files, (mem.mounted k).inode i = fs.inode i := by
    intro i hi
    have hnone : (mem.mounted k).vnodeOf i = none := rfl
    rw [inode_of_none hnone, ← h.inode i]
    have hdisk : (mem.mounted k).disk i = fs'.disk i := hm.other i (hw.file_not_map i hi)
    rw [hdisk]
    -- a vnode that is not dirty says what its block says
    cases hv : fs'.vnodeOf i with
    | none => exact (inode_of_none hv).symm
    | some v =>
      obtain ⟨hmem, rfl⟩ := vnodeOf_eq_some hv
      rw [h.wf.table.inode hmem]
      exact h.wf.backed.inode v hmem (h.clean v hmem not_mem_nil)
  have href : ∀ i ∈ files, ∀ r, (mem.mounted k).refAt i r = fs.refAt i r := fun i hi =>
    refAt_congr (hinode i hi) (hdisk i hi .indirect)
  refine ⟨hsuper, fun b hb => ?_, hinode, href, fun i hi =>
    fileBlock_iff_onDisk (hw.ino_lt hi) (fun _ => rfl) (href i hi) (hdisk i hi)⟩
  show (mapOnDisk mem.disk _).isset b = _
  rw [hn]
  exact isset_mapOnDisk (fun j hj => hm.saved j hj not_mem_nil)
    (hw.nbits ▸ hb.trans_le hw.nblocks_le_nbits)

/-- **`sfs_mapio` writes the whole map**, and nothing else. -/
theorem sfsMapio_write_spec (hw : Wf t fs files) : Wp p (sfsMapio .write)
      (fun _ fs' => ∃ d, fs' = { fs with sfsDevice := d } ∧
        MapSaved fs.sfsFreemap (sfsBitblocks fs.nblocks) fs.sfsDevice [] d)
      (fun _ _ => False) fs := by
  rw [sfsMapio, wp_bind, wp_get]
  refine wp_forEach (fun rest fs' => ∃ d, fs' = { fs with sfsDevice := d } ∧
    MapSaved fs.sfsFreemap (sfsBitblocks fs.nblocks) fs.sfsDevice rest d) ?_ _ fs
    ⟨_, rfl, .start _ _ _⟩
  rintro j rest _ ⟨d, rfl, h⟩
  have hj := h.todo j mem_cons_self
  have hfit := hw.map_fits
  have hle := hw.nblocks_le
  have hdb := h.dBlocks
  rw [wp_bind, wp_get]
  refine wp_wblock ?_ ?_ ⟨_, rfl, h.next⟩
  · exact fun n => by rw [h.outcome]; exact hw.reliable n
  · show sfsMapLocation + j < d.dBlocks
    omega

/-- **`sfs_sync` makes a volume durable**, but for what is only in the cache. -/
theorem sync_durable (hw : Wf t fs files) :
    Wp False sfsSync (fun _ fs' => Durable files fs fs'.sfsDevice) (fun _ _ => False) fs := by
  rw [sfsSync, wp_bind, wp_get, wp_bind]
  refine (wp_forEach (Flushed t files fs) (fun v rest fs' h => ?_) fs.sfsVnodes fs
    ⟨hw, .refl fs, rfl, fun _ => rfl, fun _ _ => rfl, fun _ => id,
      fun _ hv hn => absurd hv hn⟩).post ?_
  · rw [wp_bind, wp_attempt]
    exact h.next.imp (fun _ _ h => wp_pure.mpr h) fun _ _ => False.elim
  intro _ fs₁ h
  have hsuper := h.wf.backed.superdirty
  rw [wp_bind, wp_get]
  cases hd : fs₁.sfsFreemapdirty with
  | true =>
    rw [if_pos rfl, wp_bind]
    refine (sfsMapio_write_spec h.wf).post ?_
    rintro _ _ ⟨d, rfl, hm⟩
    rw [wp_bind, wp_modify, wp_bind, wp_get, if_neg (by rw [hsuper]; decide), wp_pure]
    exact h.durable hw hm
  | false =>
    rw [if_neg (by decide), wp_bind, wp_get, if_neg (by rw [hsuper]; decide), wp_pure]
    -- a map that is not written is on the disk already
    refine h.durable hw ⟨rfl, rfl, nofun, fun _ _ => rfl, fun j hj _ => funext fun k => ?_⟩
    have hbyte := h.wf.backed.freemap hd j hj k k.isLt
    rwa [Bytes.byte_fin] at hbyte

end

/-- A file has just been made, and its inode is in memory only. -/
theorem sync_durable_fresh : ∃ fs files v, FreshFile fs files v ∧ (fs.heap v).svDirty = true ∧
    Wp False sfsSync (fun _ fs' => Durable files fs fs'.sfsDevice) (fun _ _ => False) fs := by
  obtain ⟨-, -, -, v, fs, files, -, -, -, h, -⟩ := fresh_file id
  exact ⟨fs, files, v, h, h.dirty, sync_durable h.wf⟩

end Os161
