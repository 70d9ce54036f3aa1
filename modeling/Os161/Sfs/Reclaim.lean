/-
# `sfs_reclaim` and `vnode_decref`

`sfs_reclaim` is called when the last reference to a vnode may be gone.  If it is not, the call
only consumes the reference that `vnode_decref` handed over.  If it is, the inode is written to its
block and the vnode leaves the table, which changes nothing about the object; and if the object has
no links, it is erased before: a truncation to 0 empties its slots, and its inode block is freed.

A DIRECTORY with no links is never erased: its `VOP_TRUNCATE` is `EISDIR`, and `sfs_reclaim` returns
that error before it does anything.
-/
import Os161.Sfs.Object

namespace Os161

/-! ## 1. The code -/

/-- `VOP_TRUNCATE` on an SFS vnode: the table of a directory has `ISDIR` there. -/
def vopTruncate (v : Nat) (len : Int) : Sfs Unit := do
  let sv ← vnodeAt v
  if sv.svI.sfiType = .dir then fail .eisdir else sfsTruncate v len

/-- `sfs_reclaim`. -/
def sfsReclaim (v : Nat) : Sfs Unit := do
  let sv ← vnodeAt v
  if sv.svV.vnRefcount ≠ 1 then do
    -- consume the reference VOP_DECREF gave us
    assert (1 < sv.svV.vnRefcount)
    modify fun fs => fs.setVnode v { fs.heap v with
        svV := { (fs.heap v).svV with vnRefcount := (fs.heap v).svV.vnRefcount - 1 } }
    fail .ebusy
  else do
    if sv.svI.sfiLinkcount = 0 then vopTruncate v 0
    sfsSyncInode v
    let sv ← vnodeAt v
    if sv.svI.sfiLinkcount = 0 then sfsBfree sv.svIno
    let fs ← get
    assert (v ∈ fs.sfsVnodes)
    modify fun fs => { fs with sfsVnodes := fs.sfsVnodes.erase v }
    onVnode v vnodeCleanup

/-- `vnode_decref` on an SFS vnode, both halves: whatever `VOP_RECLAIM` returns is dropped. -/
def vopDecref (v : Nat) : Sfs Unit := do
  let doIt ← onVnode v vnodeDecref
  if doIt then do
    let _ ← attempt (sfsReclaim v)

/-! ## 2. Writing an inode back -/

open Classical Function SfsFs

section Sync

variable {t p : Prop} {fs fs' : SfsFs} {files : Set Nat} {v : Nat}

/-- The vnode at `v` has been written to its block. -/
structure Synced (fs fs' : SfsFs) (v : Nat) : Prop where
  frame : Frame fs fs'
  self : fs'.heap v = { fs.heap v with svDirty := false }
  other : ∀ w, w ≠ v → fs'.heap w = fs.heap w
  block : decodeInode (fs'.disk (fs.heap v).svIno) = (fs.heap v).svI
  disk : ∀ b, b ≠ (fs.heap v).svIno → fs'.disk b = fs.disk b
  freemap : fs'.sfsFreemap = fs.sfsFreemap
  freemapdirty : fs'.sfsFreemapdirty = fs.sfsFreemapdirty

section

variable (h : Synced fs fs' v)

include h

theorem Synced.svI (w : Nat) : (fs'.heap w).svI = (fs.heap w).svI := by
  by_cases hw : w = v
  · rw [hw, h.self]
  · rw [h.other w hw]

/-- No inode says anything else than before, ... -/
theorem Synced.inode (hv : v ∈ fs.sfsVnodes) (i : Nat) : fs'.inode i = fs.inode i := by
  rw [SfsFs.inode, SfsFs.inode, h.frame.vnodeOf i]
  cases hvo : fs.vnodeOf i with
  | some w => exact h.svI w
  | none =>
    have hne : i ≠ (fs.heap v).svIno := fun he => SfsFs.vnodeOf_eq_none.mp hvo v hv he.symm
    rw [h.disk i hne]

/-- ... and no slot refers to anything else. -/
theorem Synced.refAt (hw : Wf t fs files) (hv : v ∈ fs.sfsVnodes) {i : Nat}
    (hi : i ∈ files) (r : Slot) : fs'.refAt i r = fs.refAt i r := by
  refine refAt_congr (h.inode hv i) (fun h0 => h.disk _ fun he => ?_) r
  exact hw.ref_not_mem hi h0 (he ▸ hw.table.ino_mem v hv)

theorem Synced.wf (hw : Wf t fs files) (hv : v ∈ fs.sfsVnodes) : Wf t fs' files := by
  have hmem := hw.table.ino_mem v hv
  have hledger : fs'.ledger files = fs.ledger files := by
    refine Ledger.ext ?_ ?_ (funext fun ⟨j, r⟩ => ?_)
    · simp only [ledger, h.frame.nblocks, h.freemap]
    · simp only [ledger, h.frame.nblocks]
    · by_cases hj : j ∈ files
      · rw [ledger_ref hj, ledger_ref hj, h.refAt hw hv hj]
      · simp [ledger, hj]
  refine hw.of_frame h.frame (by rw [h.freemap]) (fun b _ hb => by rwa [h.freemap]) ?_ ?_ ?_ ?_ ?_
    (hledger ▸ hw.sound) (hledger ▸ hw.tight)
  · exact h.disk 0 (hw.file_pos _ hmem).symm
  · refine .inr ⟨h.freemap, h.freemapdirty, fun b hb => h.disk b fun he => ?_⟩
    exact hw.file_not_map _ hmem (he ▸ hb)
  · intro w hwm hclean
    by_cases hwv : w = v
    · rw [hwv, h.self]
      exact h.block
    · have hne : (fs.heap w).svIno ≠ (fs.heap v).svIno := fun he =>
        hwv (hw.table.ino_inj w hwm v hv he)
      rw [h.other w hwv] at hclean ⊢
      rw [h.disk _ hne]
      exact hw.backed.inode w hwm hclean
  · exact fun i _ => by rw [h.inode hv]
  · exact fun i hi => by rw [h.inode hv]; exact hw.fits i hi

end

/-- **`sfs_sync_inode`.** -/
theorem sfsSyncInode_spec (hw : Wf t fs files) (hv : v ∈ fs.sfsVnodes) :
    Wp p (sfsSyncInode v) (fun _ fs' => Synced fs fs' v) (fun _ _ => False) fs := by
  have hmem := hw.table.ino_mem v hv
  have hfits := hw.fits _ hmem
  rw [hw.table.inode hv] at hfits
  simp only [sfsSyncInode, vnodeAt, wp_bind, wp_get, wp_pure]
  by_cases hd : (fs.heap v).svDirty = true
  · simp only [hd, if_true, wp_bind]
    refine wp_wblock hw.reliable (hw.block_lt (hw.file_lt _ hmem)) ?_
    rw [wp_modify]
    refine ⟨(Frame.store fs _ _).trans (.setVnode _ v rfl rfl), ?_, ?_, ?_, ?_, rfl, rfl⟩
    · simp [setVnode, store]
    · intro w hwv
      simp [setVnode, store, hwv]
    · show decodeInode (update fs.disk _ _ _) = _
      rw [update_self, decodeInode_encodeInode hfits]
    · exact fun b hb => update_of_ne hb _ _
  · have hc : (fs.heap v).svDirty = false := by simpa using hd
    simp only [hc, Bool.false_eq_true, if_false, wp_pure]
    refine ⟨.refl fs, ?_, fun _ _ => rfl, hw.backed.inode v hv hc, fun _ _ => rfl, rfl, rfl⟩
    rw [← hc]

end Sync

/-! ## 3. Leaving the table -/

section Evict

variable {t p : Prop} {fs fs' : SfsFs} {files : Set Nat} {v : Nat}

/-- The volume without the vnode at `v`. -/
def SfsFs.evict (fs : SfsFs) (v : Nat) : SfsFs :=
  { fs with sfsVnodes := fs.sfsVnodes.erase v }.setCount v ⟨0, 0⟩

theorem Table.mem_evict (h : Table fs files) {w : Nat} :
    w ∈ (fs.evict v).sfsVnodes ↔ w ≠ v ∧ w ∈ fs.sfsVnodes := h.nodup.mem_erase_iff

theorem SfsFs.heap_evict {w : Nat} (h : w ≠ v) : (fs.evict v).heap w = fs.heap w := by
  rw [evict, heap_setCount, if_neg h]

theorem Table.evict (h : Table fs files) (hv : v ∈ fs.sfsVnodes) :
    Table (fs.evict v) {i | i ∈ files ∧ i ≠ (fs.heap v).svIno} where
  nodup := h.nodup.erase v
  fresh := fun w hw => h.fresh w (h.mem_evict.mp hw).2
  ino_inj := fun w hw x hx he => by
    obtain ⟨hwv, hw⟩ := h.mem_evict.mp hw
    obtain ⟨hxv, hx⟩ := h.mem_evict.mp hx
    rw [heap_evict hwv, heap_evict hxv] at he
    exact h.ino_inj w hw x hx he
  ino_mem := fun w hw => by
    obtain ⟨hwv, hw⟩ := h.mem_evict.mp hw
    rw [heap_evict hwv]
    exact ⟨h.ino_mem w hw, fun he => hwv (h.ino_inj w hw v hv he)⟩
  refcount_pos := fun w hw => by
    obtain ⟨hwv, hw⟩ := h.mem_evict.mp hw
    rw [heap_evict hwv]
    exact h.refcount_pos w hw

/-- The inodes without the vnode at `v`: its inode is now the one in its block. -/
theorem Table.inode_evict (h : Table fs files) (hv : v ∈ fs.sfsVnodes) (i : Nat) :
    (fs.evict v).inode i =
      if i = (fs.heap v).svIno then decodeInode (fs.disk i) else fs.inode i := by
  by_cases hi : i = (fs.heap v).svIno
  · have hnone : (fs.evict v).vnodeOf i = none := by
      refine vnodeOf_eq_none.mpr fun w hw he => ?_
      obtain ⟨hwv, hw⟩ := h.mem_evict.mp hw
      rw [heap_evict hwv, hi] at he
      exact hwv (h.ino_inj w hw v hv he)
    rw [if_pos hi, inode_of_none hnone]
    rfl
  · rw [if_neg hi]
    cases hvo : fs.vnodeOf i with
    | none =>
      have hnone : (fs.evict v).vnodeOf i = none := by
        refine vnodeOf_eq_none.mpr fun w hw => ?_
        obtain ⟨hwv, hw⟩ := h.mem_evict.mp hw
        rw [heap_evict hwv]
        exact vnodeOf_eq_none.mp hvo w hw
      rw [inode_of_none hnone, inode_of_none hvo]
      rfl
    | some w =>
      obtain ⟨hw, hino⟩ := vnodeOf_eq_some hvo
      have hwv : w ≠ v := fun he => hi (by rw [← hino, he])
      have hin := (h.evict hv).inode (h.mem_evict.mpr ⟨hwv, hw⟩)
      rw [heap_evict hwv, hino] at hin
      rw [hin, ← hino, h.inode hw]

/-- **A clean vnode may leave the table**: the volume is as it was. -/
theorem Wf.evict (hw : Wf t fs files) (hv : v ∈ fs.sfsVnodes)
    (hclean : (fs.heap v).svDirty = false) :
    Wf t (fs.evict v) files ∧ ∀ i, (fs.evict v).inode i = fs.inode i := by
  have hin : ∀ i, (fs.evict v).inode i = fs.inode i := by
    intro i
    rw [hw.table.inode_evict hv]
    split
    · next h => rw [h, hw.table.inode hv, hw.backed.inode v hv hclean]
    · rfl
  have htab := hw.table.evict hv
  refine ⟨Wf.retable hw hin { htab with
    ino_mem := fun w hwm => (htab.ino_mem w hwm).1 } fun w hwm hc => ?_, hin⟩
  obtain ⟨hwv, hwm⟩ := hw.table.mem_evict.mp hwm
  rw [heap_evict hwv] at hc ⊢
  exact hw.backed.inode w hwm hc

/-- **Erasing an object** whose slots are all empty: its inode block is freed and its vnode leaves
the table. -/
theorem Wf.erase (hw : Wf t fs files) (hv : v ∈ fs.sfsVnodes)
    (hempty : ∀ r, fs.refAt (fs.heap v).svIno r = 0) :
    Wf t ((fs.withFreemap (fs.sfsFreemap.clear (fs.heap v).svIno)).evict v)
        {i | i ∈ files ∧ i ≠ (fs.heap v).svIno} ∧
      ∀ i, i ≠ (fs.heap v).svIno →
        ((fs.withFreemap (fs.sfsFreemap.clear (fs.heap v).svIno)).evict v).inode i =
          fs.inode i := by
  set ino := (fs.heap v).svIno with hino
  set fs' := (fs.withFreemap (fs.sfsFreemap.clear ino)).evict v with hfs'
  have hmem := hw.table.ino_mem v hv
  have htab : Table (fs.withFreemap (fs.sfsFreemap.clear ino)) files :=
    (Frame.withFreemap fs _).table hw.table
  have hin : ∀ i, i ≠ ino → fs'.inode i = fs.inode i := by
    intro i hi
    have := htab.inode_evict hv i
    rw [this]
    exact if_neg hi
  have hledger : fs'.ledger {i | i ∈ files ∧ i ≠ ino} = (fs.ledger files).expel ino := by
    refine Ledger.ext ?_ ?_ ?_
    · ext c
      show (fs.nblocks ≤ c ∨ (fs.sfsFreemap.clear ino).isset c = true) ↔
        ((fs.nblocks ≤ c ∨ fs.sfsFreemap.isset c = true) ∧ c ≠ ino)
      have := hw.file_lt ino hmem
      rw [Bitmap.isset_clear]
      constructor
      · rintro (h | ⟨hne, h⟩)
        · exact ⟨.inl h, by omega⟩
        · exact ⟨.inr h, hne⟩
      · rintro ⟨h | h, hne⟩
        · exact .inl h
        · exact .inr ⟨hne, h⟩
    · ext c
      show (c = 0 ∨ IsMapBlock fs.nblocks c ∨ fs.nblocks ≤ c ∨ (c ∈ files ∧ c ≠ ino)) ↔
        ((c = 0 ∨ IsMapBlock fs.nblocks c ∨ fs.nblocks ≤ c ∨ c ∈ files) ∧ c ≠ ino)
      have h1 := hw.file_lt ino hmem
      have h2 := hw.file_pos ino hmem
      have h3 := hw.file_not_map ino hmem
      constructor
      · rintro (h | h | h | ⟨h, hne⟩)
        · exact ⟨.inl h, by omega⟩
        · exact ⟨.inr (.inl h), fun he => h3 (he ▸ h)⟩
        · exact ⟨.inr (.inr (.inl h)), by omega⟩
        · exact ⟨.inr (.inr (.inr h)), hne⟩
      · rintro ⟨h | h | h | h, hne⟩
        · exact .inl h
        · exact .inr (.inl h)
        · exact .inr (.inr (.inl h))
        · exact .inr (.inr (.inr ⟨h, hne⟩))
    · funext ⟨j, r⟩
      show _ = (fs.ledger files).ref (j, r)
      by_cases hj : j ∈ files
      · by_cases hji : j = ino
        · rw [ledger_ref hj, hji, hempty]
          simp [ledger]
        · rw [ledger_ref hj, ledger_ref (show j ∈ {i | i ∈ files ∧ i ≠ ino} from ⟨hj, hji⟩),
            refAt, hin j hji]
          rfl
      · simp [ledger, hj]
  have hdirty : fs'.sfsFreemapdirty = true := rfl
  refine ⟨⟨hw.reliable, hw.nblocks_le, hw.nblocks_small, hw.map_fits, hw.nbits, ?_, htab.evict hv,
    ⟨hw.backed.super, hw.backed.magic, hw.backed.superdirty,
      fun hc => absurd (hdirty.symm.trans hc) (by decide), ?_⟩,
    fun i hi => hw.file_lt i hi.1, fun i hi => hw.file_pos i hi.1,
    fun i hi => hw.file_not_map i hi.1, ?_, ?_, ?_, ?_⟩, hin⟩
  · intro c hc hlt
    have hne : c ≠ ino := by
      have h1 := hw.file_lt ino hmem
      have h2 : fs.nblocks ≤ c := hc
      omega
    exact Bitmap.isset_clear.mpr ⟨hne, hw.beyond c hc hlt⟩
  · intro w hwm hc
    obtain ⟨hwv, hwm⟩ := htab.mem_evict.mp hwm
    rw [heap_evict hwv] at hc ⊢
    exact hw.backed.inode w hwm hc
  · intro i hi
    rw [hin i hi.2]
    exact hw.typed i hi.1
  · intro i hi
    rw [hin i hi.2]
    exact hw.fits i hi.1
  · rw [hledger]
    exact hw.sound.expel (.inr (.inr (.inr hmem))) (hw.file_pos ino hmem)
  · intro ht
    rw [hledger]
    exact (hw.tight ht).expel ino

end Evict

/-! ## 4. `sfs_reclaim` -/

section Reclaim

variable {t p : Prop} {fs fs' fs'' : SfsFs} {files : Set Nat} {v : Nat}

/-- The vnode at `v` has left the table; the other vnodes and the cache are as they were. -/
structure Gone (fs fs' : SfsFs) (v : Nat) : Prop where
  vnodes : fs'.sfsVnodes = fs.sfsVnodes.erase v
  ino : ∀ w, w ≠ v → (fs'.heap w).svIno = (fs.heap w).svIno
  count : ∀ w, w ≠ v → (fs'.heap w).svV = (fs.heap w).svV
  super : fs'.sfsSuper = fs.sfsSuper
  rcache : fs'.sfsRcache = fs.sfsRcache
  nextVnode : fs'.nextVnode = fs.nextVnode
  kmallocOk : fs'.kmallocOk = fs.kmallocOk
  random : fs'.random = fs.random

theorem Frame.gone (h : Frame fs fs') : Gone fs (fs'.evict v) v where
  __ := h
  vnodes := by
    rw [← h.vnodes]
    rfl
  ino := fun w hw => by rw [heap_evict hw, h.ino]
  count := fun w hw => by rw [heap_evict hw, h.count]

/-- An object with links, reclaimed: its inode is in its block and says what it said. -/
structure Unloaded (t : Prop) (files : Set Nat) (fs fs' : SfsFs) (v : Nat) : Prop where
  gone : Gone fs fs' v
  wf : Wf t fs' files
  inode : ∀ i, fs'.inode i = fs.inode i
  disk : ∀ b, b ≠ (fs.heap v).svIno → fs'.disk b = fs.disk b
  freemap : fs'.sfsFreemap = fs.sfsFreemap

/-- An object without links, reclaimed: it is no more, and all its blocks are free. -/
structure Erased (t : Prop) (files : Set Nat) (fs fs' : SfsFs) (v : Nat) : Prop where
  gone : Gone fs fs' v
  file : (fs.inode (fs.heap v).svIno).sfiType ≠ .dir
  wf : Wf t fs' {i | i ∈ files ∧ i ≠ (fs.heap v).svIno}
  same : ∀ i ∈ files, i ≠ (fs.heap v).svIno → (fs.inode i).SameMeta (fs'.inode i)
  ref : ∀ i ∈ files, i ≠ (fs.heap v).svIno → ∀ r, fs'.refAt i r = fs.refAt i r
  data : ∀ i ∈ files, i ≠ (fs.heap v).svIno → ∀ r, r ≠ .indirect → fs.refAt i r ≠ 0 →
    fs'.disk (fs.refAt i r) = fs.disk (fs.refAt i r)
  marks : ∀ b, fs'.sfsFreemap.isset b = true ↔ fs.sfsFreemap.isset b = true ∧
    b ≠ (fs.heap v).svIno ∧ ∀ r, fs.refAt (fs.heap v).svIno r ≠ 0 → fs.refAt (fs.heap v).svIno r ≠ b

theorem truncDrops_zero (i : Nat) (r : Slot) : truncDrops fs i (truncBlocklen 0) r := by
  have h0 : truncBlocklen 0 = 0 := by decide
  cases r with
  | direct k => exact Nat.zero_le _
  | indirect => exact ⟨by decide, fun k => .inl (by omega)⟩
  | entry k => exact (by omega : 0 < 15 + k.val)

/-- The end of `sfs_reclaim`: the vnode leaves the table, unless somebody has it open. -/
theorem wp_leaveTable {Q : Unit → SfsFs → Prop} {E : Errno → SfsFs → Prop} (hv : v ∈ fs.sfsVnodes)
    (hrc : (fs.heap v).svV.vnRefcount = 1) (hopen : (fs.heap v).svV.vnOpencount ≠ 0 → p)
    (hQ : Q () (fs.evict v)) :
    Wp p (do
      let fs ← get
      assert (v ∈ fs.sfsVnodes)
      modify fun fs => { fs with sfsVnodes := fs.sfsVnodes.erase v }
      onVnode v vnodeCleanup) Q E fs := by
  simp only [onVnode, vnodeCleanup, wp_bind, wp_get, wp_assert, wp_modify, wp_zoom]
  exact ⟨fun _ => ⟨fun _ => ⟨fun _ => hQ, hopen⟩, fun h => absurd hrc h⟩, fun h => absurd hv h⟩

variable (hw : Wf t fs files) (hv : v ∈ fs.sfsVnodes)

include hw hv

theorem Synced.unloaded (h : Synced fs fs' v) : Unloaded t files fs (fs'.evict v) v := by
  have hev := (h.wf hw hv).evict (h.frame.vnodes ▸ hv) (by rw [h.self])
  exact ⟨h.frame.gone, hev.1, fun i => (hev.2 i).trans (h.inode hv i), h.disk, h.freemap⟩

theorem Truncated.erased (h : Truncated files fs fs' (fs.heap v).svIno 0)
    (hw' : Wf t fs' files) (hs : Synced fs' fs'' v)
    (hfile : (fs.inode (fs.heap v).svIno).sfiType ≠ .dir) :
    Erased t files fs ((fs''.withFreemap (fs''.sfsFreemap.clear (fs.heap v).svIno)).evict v) v := by
  set ino := (fs.heap v).svIno with hino
  have hmem := hw.table.ino_mem v hv
  have hv' : v ∈ fs'.sfsVnodes := h.frame.vnodes ▸ hv
  have hv'' : v ∈ fs''.sfsVnodes := hs.frame.vnodes ▸ hv'
  have hi' : (fs'.heap v).svIno = ino := h.frame.ino v
  have hi'' : (fs''.heap v).svIno = ino := (hs.frame.ino v).trans hi'
  have hw'' : Wf t fs'' files := hs.wf hw' hv'
  have href' : ∀ i ∈ files, i ≠ ino → ∀ r, fs'.refAt i r = fs.refAt i r := by
    intro i hi hne r
    rw [h.ref i hi, if_neg fun hc => hne hc.1]
  have hempty : ∀ r, fs''.refAt (fs''.heap v).svIno r = 0 := by
    intro r
    rw [hi'', hs.refAt hw' hv' hmem, h.ref _ hmem, if_pos ⟨rfl, truncDrops_zero _ r⟩]
  obtain ⟨hwe, hine⟩ := hw''.erase hv'' hempty
  rw [hi''] at hwe hine
  have hinode : ∀ i, i ≠ ino → _ := fun i hne => (hine i hne).trans (hs.inode hv' i)
  have hrefe : ∀ i ∈ files, i ≠ ino → ∀ r, refAt
      ((fs''.withFreemap (fs''.sfsFreemap.clear ino)).evict v) i r = fs.refAt i r := by
    intro i hi hne r
    rw [← href' i hi hne, ← hs.refAt hw' hv' hi, refAt, hine i hne]
    rfl
  refine ⟨?_, hfile, hwe, ?_, hrefe, ?_, ?_⟩
  · exact ((h.frame.trans hs.frame).trans (.withFreemap _ _)).gone
  · intro i hi hne
    rw [hinode i hne]
    exact ⟨by rw [h.size i hi, if_neg hne], h.type i hi, h.linkcount i hi⟩
  · intro i hi hne r hr h0
    have hk := href' i hi hne r
    have hb : fs.refAt i r ≠ ino := fun he => hw.ref_not_mem hi h0 (he ▸ hmem)
    have hdata := h.data i hi r hr (hk ▸ h0)
    rw [hk] at hdata
    rw [← hdata, ← hs.disk _ (hi'.symm ▸ hb)]
    rfl
  · intro b
    show (fs''.sfsFreemap.clear ino).isset b = true ↔ _
    rw [Bitmap.isset_clear, hs.freemap, h.marks]
    constructor
    · rintro ⟨hne, hb, hall⟩
      exact ⟨hb, hne, fun r => hall r (truncDrops_zero _ r)⟩
    · rintro ⟨hb, hne, hall⟩
      exact ⟨hne, hb, fun r _ => hall r⟩

/-- **`sfs_reclaim`.**  It stops the machine only if it is about to destroy an open vnode. -/
theorem sfsReclaim_spec : Wp ((fs.heap v).svV.vnOpencount ≠ 0) (sfsReclaim v)
      (fun _ fs' => (fs.heap v).svV.vnRefcount = 1 ∧
        (((fs.heap v).svI.sfiLinkcount ≠ 0 ∧ Unloaded t files fs fs' v) ∨
          ((fs.heap v).svI.sfiLinkcount = 0 ∧ Erased t files fs fs' v)))
      (fun e fs' =>
        (e = .ebusy ∧ 1 < (fs.heap v).svV.vnRefcount ∧ fs' = fs.setCount v
          { (fs.heap v).svV with vnRefcount := (fs.heap v).svV.vnRefcount - 1 }) ∨
        (e = .eisdir ∧ (fs.heap v).svV.vnRefcount = 1 ∧ (fs.heap v).svI.sfiLinkcount = 0 ∧
          (fs.heap v).svI.sfiType = .dir ∧ fs' = fs)) fs := by
  have hmem := hw.table.ino_mem v hv
  rw [sfsReclaim]
  simp only [vnodeAt, wp_bind, wp_get, wp_pure]
  by_cases hrc : (fs.heap v).svV.vnRefcount ≠ 1
  · have hgt : 1 < (fs.heap v).svV.vnRefcount := by
      have := hw.table.refcount_pos v hv
      omega
    simp only [if_pos hrc, wp_bind, wp_assert, wp_modify, wp_fail]
    exact ⟨fun _ => .inl ⟨trivial, hgt, rfl⟩, fun h => absurd hgt h⟩
  have hrc1 : (fs.heap v).svV.vnRefcount = 1 := not_not.mp hrc
  rw [if_neg hrc]
  by_cases hlc : (fs.heap v).svI.sfiLinkcount = 0
  · -- no links: erase the object
    simp only [hlc, if_true, vopTruncate, vnodeAt, wp_bind, wp_get, wp_pure]
    by_cases hdir : (fs.heap v).svI.sfiType = .dir
    · rw [if_pos hdir, wp_fail]
      exact .inr ⟨rfl, hrc1, trivial, hdir, rfl⟩
    rw [if_neg hdir]
    refine (sfsTruncate_spec hw hv 0).weaken.post_ok ?_
    rintro _ fs₁ ⟨hw1, htr⟩
    have hv1 : v ∈ fs₁.sfsVnodes := htr.frame.vnodes ▸ hv
    refine (sfsSyncInode_spec hw1 hv1).post_ok ?_
    intro _ fs₂ hs
    have hv2 : v ∈ fs₂.sfsVnodes := hs.frame.vnodes ▸ hv1
    have hi2 : (fs₂.heap v).svIno = (fs.heap v).svIno := (hs.frame.ino v).trans (htr.frame.ino v)
    have hc2 : (fs₂.heap v).svV = (fs.heap v).svV := (hs.frame.count v).trans (htr.frame.count v)
    have hlc2 : (fs₂.heap v).svI.sfiLinkcount = 0 := by
      have hl := htr.linkcount _ hmem
      rw [hw.table.inode hv, ← htr.frame.ino v, hw1.table.inode hv1, ← hs.svI v] at hl
      exact hl.trans hlc
    rw [if_pos hlc2, hi2]
    refine (sfsBfree_spec ?_ ?_).weaken.bind_ok ?_
    · exact lt_of_lt_of_le ((hs.wf hw1 hv1).file_lt _ hmem) (hs.wf hw1 hv1).nblocks_le_nbits
    · exact (hs.wf hw1 hv1).file_isset hmem
    rintro _ _ rfl
    refine wp_leaveTable hv2 (by rw [← hc2] at hrc1; exact hrc1) (fun h => hc2 ▸ h) ?_
    refine ⟨hrc1, .inr ⟨trivial, htr.erased hw hv hw1 hs ?_⟩⟩
    rw [hw.table.inode hv]
    exact hdir
  · -- links: the inode goes back to its block
    simp only [if_neg hlc, wp_bind, wp_get, wp_pure]
    refine (sfsSyncInode_spec hw hv).post_ok ?_
    intro _ fs₁ hs
    have hc1 : (fs₁.heap v).svV = (fs.heap v).svV := hs.frame.count v
    have hlc1 : (fs₁.heap v).svI.sfiLinkcount ≠ 0 := by rwa [hs.svI v]
    rw [if_neg hlc1]
    refine wp_leaveTable (hs.frame.vnodes ▸ hv) (by rw [hc1, hrc1]) (fun h => hc1 ▸ h) ?_
    exact ⟨hrc1, .inl ⟨hlc, hs.unloaded hw hv⟩⟩

/-- **`vnode_decref`** on a vnode of the table: one reference less, or a reclaim. -/
theorem vopDecref_spec :
    Wp ((fs.heap v).svV.vnRefcount = 1 ∧ (fs.heap v).svV.vnOpencount ≠ 0) (vopDecref v)
      (fun _ fs' =>
        (1 < (fs.heap v).svV.vnRefcount ∧ fs' = fs.setCount v
          { (fs.heap v).svV with vnRefcount := (fs.heap v).svV.vnRefcount - 1 }) ∨
        ((fs.heap v).svV.vnRefcount = 1 ∧
          (((fs.heap v).svI.sfiLinkcount ≠ 0 ∧ Unloaded t files fs fs' v) ∨
          ((fs.heap v).svI.sfiLinkcount = 0 ∧ Erased t files fs fs' v) ∨
          ((fs.heap v).svI.sfiLinkcount = 0 ∧ (fs.heap v).svI.sfiType = .dir ∧ fs' = fs))))
      (fun _ _ => False) fs := by
  have hpos := hw.table.refcount_pos v hv
  simp only [vopDecref, onVnode, vnodeDecref, wp_bind, wp_zoom, wp_get, wp_assert_of hpos]
  by_cases hgt : 1 < (fs.heap v).svV.vnRefcount
  · rw [if_pos hgt]
    simp only [wp_bind, wp_modify, wp_pure]
    rw [if_neg Bool.false_ne_true, wp_pure]
    exact .inl ⟨hgt, rfl⟩
  · have hsame : fs.setVnode v { fs.heap v with svV := (fs.heap v).svV } = fs := by
      simp [setVnode]
    rw [if_neg hgt, wp_pure, if_pos rfl, hsame, wp_bind, wp_attempt]
    have hlast : (fs.heap v).svV.vnRefcount = 1 := by omega
    refine (sfsReclaim_spec hw hv).mono (fun ho => ⟨hlast, ho⟩) ?_ ?_
    · rintro _ fs' ⟨hone, hkeep | herase⟩
      · exact wp_pure.mpr (.inr ⟨hone, .inl hkeep⟩)
      · exact wp_pure.mpr (.inr ⟨hone, .inr (.inl herase)⟩)
    · rintro e fs' (⟨-, hgt', -⟩ | ⟨-, hone, hlc, hdir, hfs⟩)
      · exact absurd hgt' hgt
      · exact wp_pure.mpr (.inr ⟨hone, .inr (.inr ⟨hlc, hdir, hfs⟩)⟩)

end Reclaim

end Os161
