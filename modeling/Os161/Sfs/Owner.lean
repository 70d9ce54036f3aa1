/-
# Who owns a block

Every block of a volume is the superblock, a block of the free map, the inode of an object, in the
hands of exactly one slot of exactly one object, or free.  The free map is only a summary of this,
kept up to date by hand in `sfs_makeobj`, `sfs_bmap`, `sfs_truncate` and `sfs_reclaim`.  This file
runs these calls in any order, on a volume that `mksfs` has made, and proves that the summary is
exact in every state (`Owned`), and that none of the assertions about it ever fires.

The objects that exist are recorded next to the volume: `sfs_makeobj` creates one, and a
`sfs_reclaim` that finds the link count at zero ends one.
-/
import Os161.Mksfs

namespace Os161

/-! ## 1. The calls -/

/-- The calls that move blocks about. -/
inductive OwnerOp
  | makeobj (type : SfsType)
  | loadvnode (ino : Nat)
  | bmap (v fileblock : Nat)
  | truncate (v : Nat) (len : Int)
  | reclaim (v : Nat)

/-- A call, and what it does to the record of existing objects. -/
def OwnerOp.call : OwnerOp → Prog Errno (SfsFs × Set Nat) Unit
  | .makeobj type => do
    let v ← onFst (sfsMakeobj type)
    modify fun s => (s.1, {i | i = (s.1.heap v).svIno ∨ i ∈ s.2})
  | .loadvnode ino => do
    let _ ← onFst (sfsLoadvnode ino .inval)
    pure ()
  | .bmap v fileblock => do
    let _ ← onFst (sfsBmap v fileblock true)
    pure ()
  | .truncate v len => onFst (sfsTruncate v len)
  | .reclaim v => do
    let s ← get
    onFst (sfsReclaim v)
    modify fun s' => (s'.1, {i | i ∈ s'.2 ∧ i ≠ (s.1.heap v).svIno})

/-- When a call may be made: on loaded vnodes, and a reclaim on an object without links. -/
def OwnerOp.Legal : OwnerOp → SfsFs × Set Nat → Prop
  | .makeobj type, _ => type = .file ∨ type = .dir
  | .loadvnode ino, s => ino ∈ s.2
  | .bmap v _, s => v ∈ s.1.sfsVnodes
  | .truncate v _, s => v ∈ s.1.sfsVnodes
  | .reclaim v, s => v ∈ s.1.sfsVnodes ∧ (s.1.heap v).svI.sfiLinkcount = 0

/-! ## 2. What is claimed -/

/-- **The free map is exact.**  `files` are the objects that exist. -/
structure Owned (fs : SfsFs) (files : Set Nat) : Prop where
  marked : ∀ b < fs.nblocks, fs.sfsFreemap.isset b = true ↔
    b = sfsSbLocation ∨ IsMapBlock fs.nblocks b ∨ b ∈ files ∨
      ∃! s : Nat × Slot, s.1 ∈ files ∧ fs.refAt s.1 s.2 = b
  once : ∀ i ∈ files, ∀ j ∈ files, ∀ r q, fs.refAt i r ≠ 0 → fs.refAt i r = fs.refAt j q →
    i = j ∧ r = q
  apart : ∀ i ∈ files, ∀ r, fs.refAt i r ≠ 0 → fs.refAt i r < fs.nblocks ∧
    ¬ IsMapBlock fs.nblocks (fs.refAt i r) ∧ fs.refAt i r ∉ files

open Classical Function

variable {fs fs' : SfsFs} {files : Set Nat}

theorem Wf.owned (h : Wf True fs files) : Owned fs files where
  marked := by
    intro b hb
    constructor
    · intro hm
      rcases h.tight trivial b hb (.inr hm) with hfix | ⟨⟨i, r⟩, hr⟩
      · rcases hfix with h0 | h0 | h0 | h0
        · exact .inl h0
        · exact .inr (.inl h0)
        · exact absurd hb (Nat.not_lt_of_le h0)
        · exact .inr (.inr (.inl h0))
      · by_cases hb0 : b = 0
        · exact .inl hb0
        have hi : i ∈ files := by
          by_contra hi
          exact hb0 (hr.symm.trans (if_neg hi))
        rw [SfsFs.ledger_ref hi] at hr
        refine .inr (.inr (.inr ⟨(i, r), ⟨hi, hr⟩, ?_⟩))
        rintro ⟨j, q⟩ ⟨hj, hq⟩
        obtain ⟨rfl, rfl⟩ := h.ref_inj hi hj (by rw [hr]; exact hb0) (hr.trans hq.symm)
        rfl
    · rintro (rfl | hmap | hmem | ⟨⟨i, r⟩, ⟨hi, hr⟩, -⟩)
      · exact (h.sound.fixed_marked 0 (.inl rfl)).resolve_left (Nat.not_le_of_lt hb)
      · exact (h.sound.fixed_marked b (.inr (.inl hmap))).resolve_left (Nat.not_le_of_lt hb)
      · exact h.file_isset hmem
      · by_cases hb0 : b = 0
        · subst hb0
          exact (h.sound.fixed_marked 0 (.inl rfl)).resolve_left (Nat.not_le_of_lt hb)
        · subst hr
          exact h.ref_isset hi hb0
  once := fun i hi j hj r q h0 he => h.ref_inj hi hj h0 he
  apart := fun i hi r h0 => ⟨h.ref_lt hi h0, h.ref_not_map hi h0, h.ref_not_mem hi h0⟩

/-! ## 3. Every call keeps it -/

/-- The state between calls: a well-formed volume, memory enough, and no file open. -/
structure OwnerInv (s : SfsFs × Set Nat) : Prop where
  wf : Wf True s.1 s.2
  mem : ∀ n, s.1.kmallocOk n = true
  closed : ∀ v ∈ s.1.sfsVnodes, (s.1.heap v).svV.vnOpencount = 0

theorem OwnerInv.of_frame (h : OwnerInv (fs, files)) (hw : Wf True fs' files)
    (hfr : Frame fs fs') : OwnerInv (fs', files) where
  wf := hw
  mem := fun n => by
    rw [hfr.kmallocOk]
    exact h.mem n
  closed := fun v hv => by
    rw [hfr.count]
    exact h.closed v (hfr.vnodes ▸ hv)

theorem OwnerInv.setCount (h : OwnerInv (fs, files)) {v : Nat} {vn : Vnode}
    (hpos : 0 < vn.vnRefcount) (hopen : vn.vnOpencount = 0) :
    OwnerInv (fs.setCount v vn, files) where
  wf := h.wf.setCount hpos
  mem := h.mem
  closed := fun w hw => by
    rw [SfsFs.heap_setCount]
    by_cases hwv : w = v
    · rw [if_pos hwv]
      exact hopen
    · rw [if_neg hwv]
      exact h.closed w hw

theorem OwnerInv.insertVnode (h : OwnerInv (fs, files)) {files' : Set Nat} {sv : SfsVnode}
    (hfs : fs'.kmallocOk = fs.kmallocOk) (hvn : fs'.sfsVnodes = fs.sfsVnodes)
    (hheap : fs'.heap = fs.heap) (k : Nat)
    (hw : Wf True ((fs'.burn k).insertVnode sv) files') (hsv : sv.svV = vnodeInit) :
    OwnerInv ((fs'.burn k).insertVnode sv, files') where
  wf := hw
  mem := fun n => by
    show fs'.kmallocOk (n + k) = true
    rw [hfs]
    exact h.mem _
  closed := fun w hmem => by
    show (update fs'.heap fs'.nextVnode sv w).svV.vnOpencount = 0
    by_cases hwv : w = fs'.nextVnode
    · rw [hwv, update_self, hsv]
      rfl
    · rw [update_of_ne hwv, hheap]
      refine h.closed w ?_
      rw [← hvn]
      exact (SfsFs.mem_insertVnode.mp hmem).resolve_right hwv

/-- **Every legal call keeps the invariant**, whatever it returns, and stops at no assertion. -/
theorem OwnerOp.call_spec {op : OwnerOp} {s : SfsFs × Set Nat} (hl : op.Legal s)
    (h : OwnerInv s) : Wp False op.call (fun _ => OwnerInv) (fun _ => OwnerInv) s := by
  obtain ⟨fs, files⟩ := s
  have hw : Wf True fs files := h.wf
  cases op with
  | makeobj type =>
    rw [OwnerOp.call, wp_bind, wp_onFst]
    refine (sfsMakeobj_spec hw hl).imp ?_ ?_
    · rintro v fs' ⟨rfl, -, b, k, hb, hfree, rfl⟩
      rw [wp_modify]
      have hino : ((fs.create b type k).heap fs.nextVnode).svIno = b := by
        exact congrArg SfsVnode.svIno (((fs.alloc b).burn k).heap_insertVnode_self _)
      simp only [hino]
      have hkm : (fs.alloc b).kmallocOk = fs.kmallocOk := rfl
      exact h.insertVnode hkm rfl rfl k (hw.create hb hfree hl k).1 rfl
    · rintro e fs' (⟨-, rfl, -⟩ | ⟨-, hm, -⟩)
      · exact h
      · exact absurd (fun n _ => h.mem n) hm
  | loadvnode ino =>
    rw [OwnerOp.call, wp_bind, wp_onFst]
    refine (sfsLoadvnode_spec hw hl).imp ?_ ?_
    · intro v fs' hload
      rw [wp_pure]
      have hw' := (hload.wf hw hl).1
      cases hload with
      | hit hv hino => exact h.setCount (Nat.succ_pos _) (h.closed v hv)
      | miss hnone k => exact h.insertVnode rfl rfl rfl k hw' rfl
    · rintro e fs' ⟨-, -, -, -, n, hn⟩
      exact absurd (h.mem n) (by simp [hn])
  | bmap v fileblock =>
    rw [OwnerOp.call, wp_bind, wp_onFst]
    exact (sfsBmap_spec hw hl fileblock true).imp
      (fun _ _ h' => wp_pure.mpr (h.of_frame h'.wf h'.grows.frame))
      (fun _ _ h' => h.of_frame h'.wf h'.grows.frame)
  | truncate v len =>
    rw [OwnerOp.call, wp_onFst]
    exact (sfsTruncate_spec hw hl len).imp (fun _ _ h' => h.of_frame h'.1 h'.2.frame)
      (fun _ _ h' => h'.elim)
  | reclaim v =>
    obtain ⟨hv, hlc⟩ := hl
    have hclosed : (fs.heap v).svV.vnOpencount = 0 := h.closed v hv
    rw [OwnerOp.call, wp_bind, wp_get, wp_bind, wp_onFst]
    refine (sfsReclaim_spec hw hv).mono (fun h0 => h0 hclosed) ?_ ?_
    · rintro _ fs' ⟨-, ⟨hlc', -⟩ | ⟨-, her⟩⟩
      · exact absurd hlc hlc'
      · rw [wp_modify]
        refine ⟨her.wf, fun n => ?_, fun w hmem => ?_⟩
        · rw [her.gone.kmallocOk]
          exact h.mem n
        · have hmem : w ∈ fs.sfsVnodes.erase v := her.gone.vnodes ▸ hmem
          obtain ⟨hwv, hmem⟩ := hw.table.nodup.mem_erase_iff.mp hmem
          rw [her.gone.count w hwv]
          exact h.closed w hmem
    · rintro e fs' (⟨-, hgt, rfl⟩ | ⟨-, -, -, -, rfl⟩)
      · exact h.setCount (Nat.sub_pos_of_lt hgt) hclosed
      · exact h

/-! ## 4. Every run keeps it -/

/-- **Block ownership.**  On a volume made by `mksfs`, with a device that does not fail and memory
enough, the free map is exact in every state that the calls can lead to, and no call stops at an
assertion.  (A disk of more than 2^32 - 4096 blocks gets no map at all, since the size of the map
is rounded up in 32 bits; `hmap` leaves it out.) -/
theorem blocks_owned {d d' : Lhd} {m : Bitmap} {volname : CString} {fs₀ fs : SfsFs}
    {s : SfsFs × Set Nat} (hd : d.Reliable) (hmap : 0 < sfsBitblocks d.dBlocks)
    (hmk : mksfs volname (d, bitbuf) = some (.ok (), (d', m))) (hdev : fs₀.sfsDevice = d')
    (hmem : ∀ n, fs₀.kmallocOk n = true) (hmount : sfsDomount fs₀ = some (.ok (), fs))
    (hrun : Run OwnerOp.call OwnerOp.Legal (fs, {sfsRootLocation}) s) :
    Owned s.1 s.2 ∧ ∀ op : OwnerOp, op.Legal s → op.call s ≠ none := by
  obtain ⟨hform, -, hout⟩ := (mksfs_spec volname hmap).of_ok hmk
  subst hdev
  have hrel : fs₀.sfsDevice.Reliable := fun n => by rw [hout]; exact hd n
  obtain ⟨k, rfl⟩ := hform.mount hrel hmount
  have hinv : OwnerInv (fs₀.mounted k, {sfsRootLocation}) :=
    ⟨hform.wf hrel k, fun n => hmem _, fun v hv => absurd hv (by simp [SfsFs.mounted])⟩
  have hs : OwnerInv s := hrun.invariant (fun _ _ hl hi => OwnerOp.call_spec hl hi) hinv
  exact ⟨hs.wf.owned, fun op hl => (OwnerOp.call_spec hl hs).run_ne_none⟩

/-- A file is made on a fresh volume, gets a block, loses it again, and is reclaimed. -/
theorem blankDisk_owned : ∃ d m fs s₀ v s₁ s₂ r s₃,
    mksfs noName (blankDisk, bitbuf) = some (.ok (), (d, m)) ∧
    sfsDomount (blankSfs d fun _ => 0) = some (.ok (), fs) ∧
    (OwnerOp.makeobj .file).call (fs, {sfsRootLocation}) = some (.ok (), s₀) ∧
    (OwnerOp.bmap v 0).call s₀ = some (.ok (), s₁) ∧ s₁.1.dataRef (s₁.1.heap v).svIno 0 ≠ 0 ∧
    (OwnerOp.truncate v 0).call s₁ = some (.ok (), s₂) ∧
    (OwnerOp.reclaim v).call s₂ = some (r, s₃) ∧ Owned s₃.1 s₃.2 := by
  obtain ⟨d, m, fs, v, fs₀, files, hmk, hmount, hobj, h, -⟩ := fresh_file fun _ => 0
  have hmem := h.wf.table.ino_mem v h.vnode
  have h0 : (OwnerOp.makeobj .file).call (fs, {sfsRootLocation}) = some (.ok (),
      (fs₀, {i | i = (fs₀.heap v).svIno ∨ i ∈ ({sfsRootLocation} : Set Nat)})) := by
    simp [OwnerOp.call, onFst, zoom, hobj, Bind.bind, Prog.bind, modify]
  have h1 : Wp False (OwnerOp.bmap v 0).call
      (fun _ s' => ∃ b, BmapOk True files fs₀ (fs₀.heap v).svIno 0 true b s'.1)
      (fun _ _ => False)
      (fs₀, {i | i = (fs₀.heap v).svIno ∨ i ∈ ({sfsRootLocation} : Set Nat)}) := by
    rw [OwnerOp.call, wp_bind, wp_onFst]
    exact (h.wf.bmap_ok h.vnode h.nblocks h.only (by decide)).post fun b _ hok =>
      wp_pure.mpr ⟨b, hok⟩
  obtain ⟨_, s₁, hc1, b, hok⟩ := h1.exists_ok
  have hv1 : v ∈ s₁.1.sfsVnodes := hok.grows.frame.vnodes.symm ▸ h.vnode
  have h2 : Wp False (OwnerOp.truncate v 0).call (fun _ s' => Wf True s'.1 files ∧
      Truncated files s₁.1 s'.1 (s₁.1.heap v).svIno 0) (fun _ _ => False) s₁ := by
    rw [OwnerOp.call, wp_onFst]
    exact sfsTruncate_spec hok.wf hv1 0
  obtain ⟨_, s₂, hc2, hw2, htr⟩ := h2.exists_ok
  have hi1 : (s₁.1.heap v).svIno = (fs₀.heap v).svIno := hok.grows.frame.ino v
  have hlegal : (OwnerOp.reclaim v).Legal s₂ := by
    have hv2 : v ∈ s₂.1.sfsVnodes := htr.frame.vnodes.symm ▸ hv1
    have hi2 : (s₂.1.heap v).svIno = (fs₀.heap v).svIno := (htr.frame.ino v).trans hi1
    refine ⟨hv2, ?_⟩
    rw [← hw2.table.inode hv2, hi2, htr.linkcount _ hmem, (hok.grows.same _ hmem).2.2,
      h.wf.table.inode h.vnode, h.inode]
    rfl
  have hrun : Run OwnerOp.call OwnerOp.Legal (fs, {sfsRootLocation}) s₂ :=
    ((Run.refl.andThen (.makeobj .file) (.inl rfl) h0).andThen (.bmap v 0) h.vnode hc1).andThen
      (.truncate v 0) hv1 hc2
  have howned : ∀ s, Run OwnerOp.call OwnerOp.Legal (fs, {sfsRootLocation}) s → _ := fun s =>
    blocks_owned (d := blankDisk) (s := s) (fun _ => rfl) (by decide) hmk rfl (fun _ => rfl) hmount
  obtain ⟨⟨r, s₃⟩, hc3⟩ := Option.ne_none_iff_exists'.mp ((howned s₂ hrun).2 _ hlegal)
  exact ⟨d, m, fs, _, v, s₁, s₂, r, s₃, hmk, hmount, h0, hc1,
    by rw [hi1, ← hok.block]; exact hok.mapped rfl, hc2, hc3,
    (howned s₃ (hrun.andThen _ hlegal hc3)).1⟩

end Os161
