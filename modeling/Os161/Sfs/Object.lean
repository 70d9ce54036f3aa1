/-
# Objects of a volume: `sfs_loadvnode` and `sfs_makeobj`

`sfs_loadvnode` brings an inode from its block into the table of loaded vnodes, or takes another
reference to the vnode that is there.  Neither changes what any inode says.

`sfs_makeobj` makes an object: it allocates a block for the inode and loads a vnode for it with
the type it is told.  The new object enrolls its inode block in the ledger.  If the vnode cannot be
had for lack of memory, the block stays marked and belongs to nothing.
-/
import Mathlib.Data.List.Find
import Os161.Sfs.Truncate

namespace Os161

open Function List SfsFs Ledger

/-! ## 1. The code -/

/-- The search of `sfs_loadvnode` through the table.  Every vnode it passes must be in an
allocated block. -/
def sfsLoadvnodeScan (ino : Nat) : List Nat → Sfs (Option Nat)
  | [] => pure none
  | v :: vs => do
    let sv ← vnodeAt v
    let used ← sfsBused sv.svIno
    assert (used = true)
    if sv.svIno = ino then pure (some v) else sfsLoadvnodeScan ino vs

/-- The volume with a new vnode in the table. -/
def SfsFs.insertVnode (fs : SfsFs) (sv : SfsVnode) : SfsFs :=
  { fs with
    sfsVnodes := fs.sfsVnodes ++ [fs.nextVnode]
    heap := update fs.heap fs.nextVnode sv
    nextVnode := fs.nextVnode + 1 }

/-- The vnode that `sfs_loadvnode` fills in.  FORCETYPE is set if we're creating a new file,
because the block on disk will have been zeroed out. -/
def sfsNewVnode (n : SfsInode) (ino : Nat) (forcetype : SfsType) : SfsVnode :=
  if forcetype ≠ .inval then ⟨vnodeInit, { n with sfiType := forcetype }, ino, true⟩
  else ⟨vnodeInit, n, ino, false⟩

/-- The second half of `sfs_loadvnode`: the inode is not in memory. -/
def sfsLoadvnodeMiss (ino : Nat) (forcetype : SfsType) : Sfs Nat := do
  let mem ← kmalloc
  if mem = false then fail .enomem
  else do
    let used ← sfsBused ino
    assert (used = true)
    let buf ← onDevice (sfsRblock ino)
    let n := decodeInode buf
    assert (forcetype = .inval ∨ n.sfiType = .inval)
    let sv := sfsNewVnode n ino forcetype
    assert (sv.svI.sfiType = .file ∨ sv.svI.sfiType = .dir)
    -- the locks of `VOP_INIT`, and `vnodearray_add`
    let init ← kmalloc
    if init = false then fail .enomem
    else do
      let add ← kmalloc
      if add = false then fail .enomem
      else do
        let fs ← get
        modify fun fs => fs.insertVnode sv
        pure fs.nextVnode

/-- `sfs_loadvnode`. -/
def sfsLoadvnode (ino : Nat) (forcetype : SfsType) : Sfs Nat := do
  let fs ← get
  match ← sfsLoadvnodeScan ino fs.sfsVnodes with
  | some v => do
    assert (forcetype = .inval)
    modify fun fs => fs.setVnode v { fs.heap v with svV := vnodeIncref (fs.heap v).svV }
    pure v
  | none => sfsLoadvnodeMiss ino forcetype

/-- `sfs_makeobj`. -/
def sfsMakeobj (type : SfsType) : Sfs Nat := do
  let ino ← sfsBalloc
  sfsLoadvnode ino type

/-! ## 2. Loading -/

open Classical

section Loading

variable {t p : Prop} {fs fs' : SfsFs} {files : Set Nat} {v ino : Nat}

/-- The volume after `k` more allocations of memory. -/
def SfsFs.burn (fs : SfsFs) (k : Nat) : SfsFs :=
  { fs with kmallocOk := fun n => fs.kmallocOk (n + k) }

theorem wp_kmalloc {Q : Bool → SfsFs → Prop} {E : Errno → SfsFs → Prop} :
    Wp p kmalloc Q E fs ↔ Q (fs.kmallocOk 0) (fs.burn 1) := by
  simp [kmalloc, burn]

theorem SfsFs.burn_burn (k l : Nat) : (fs.burn k).burn l = fs.burn (l + k) := by
  simp [burn, Nat.add_assoc]

theorem Wf.burn (hw : Wf t fs files) (k : Nat) : Wf t (fs.burn k) files :=
  hw.other _ _ _

theorem sfsLoadvnodeScan_spec (hbit : ∀ v ∈ fs.sfsVnodes, (fs.heap v).svIno < fs.nblocks ∧
    fs.sfsFreemap.isset (fs.heap v).svIno = true) : ∀ vs : List Nat, (∀ v ∈ vs, v ∈ fs.sfsVnodes) →
    Wp False (sfsLoadvnodeScan ino vs)
      (fun r fs' => fs' = fs ∧ r = vs.find? fun v => (fs.heap v).svIno = ino)
      (fun _ _ => False) fs
  | [], _ => by
    rw [sfsLoadvnodeScan, wp_pure]
    exact ⟨rfl, rfl⟩
  | v :: vs, hsub => by
    obtain ⟨hlt, hset⟩ := hbit v (hsub v (by simp))
    simp only [sfsLoadvnodeScan, vnodeAt, sfsBused, wp_bind, wp_get, wp_pure, wp_assert]
    refine ⟨fun _ => ⟨fun _ => ?_, fun hn => hn hset⟩, fun hn => hn hlt⟩
    by_cases hv : (fs.heap v).svIno = ino
    · rw [if_pos hv, wp_pure]
      exact ⟨rfl, by simp [hv]⟩
    · rw [if_neg hv]
      refine (sfsLoadvnodeScan_spec hbit vs fun w hw => hsub w (by simp [hw])).post ?_
      rintro r _ ⟨rfl, rfl⟩
      exact ⟨rfl, by simp [hv]⟩

theorem Wf.scan (hw : Wf t fs files) (ino : Nat) :
    Wp False (sfsLoadvnodeScan ino fs.sfsVnodes) (fun r fs' => fs' = fs ∧ r = fs.vnodeOf ino)
      (fun _ _ => False) fs :=
  sfsLoadvnodeScan_spec (fun v hv => ⟨hw.file_lt _ (hw.table.ino_mem v hv),
    hw.file_isset (hw.table.ino_mem v hv)⟩) _ fun _ hv => hv

/-- The reference count of a loaded vnode changes. -/
def SfsFs.setCount (fs : SfsFs) (v : Nat) (vn : Vnode) : SfsFs :=
  fs.setVnode v { fs.heap v with svV := vn }

theorem SfsFs.heap_setCount (v w : Nat) (vn : Vnode) :
    (fs.setCount v vn).heap w = if w = v then { fs.heap v with svV := vn } else fs.heap w := by
  by_cases h : w = v
  · subst h
    simp [setCount, setVnode]
  · simp [setCount, setVnode, h]

@[simp] theorem SfsFs.svIno_setCount (v w : Nat) (vn : Vnode) :
    ((fs.setCount v vn).heap w).svIno = (fs.heap w).svIno := by
  rw [heap_setCount]
  split
  · next h => rw [h]
  · rfl

@[simp] theorem SfsFs.svI_setCount (v w : Nat) (vn : Vnode) :
    ((fs.setCount v vn).heap w).svI = (fs.heap w).svI := by
  rw [heap_setCount]
  split
  · next h => rw [h]
  · rfl

@[simp] theorem SfsFs.svDirty_setCount (v w : Nat) (vn : Vnode) :
    ((fs.setCount v vn).heap w).svDirty = (fs.heap w).svDirty := by
  rw [heap_setCount]
  split
  · next h => rw [h]
  · rfl

@[simp] theorem SfsFs.inode_setCount (v i : Nat) (vn : Vnode) :
    (fs.setCount v vn).inode i = fs.inode i := by
  have hv : (fs.setCount v vn).vnodeOf i = fs.vnodeOf i := by
    simp only [vnodeOf, svIno_setCount]
    rfl
  rw [inode, inode, hv]
  cases fs.vnodeOf i with
  | none => rfl
  | some w => exact svI_setCount v w vn

@[simp] theorem SfsFs.refAt_setCount (v i : Nat) (vn : Vnode) (r : Slot) :
    (fs.setCount v vn).refAt i r = fs.refAt i r := by
  rw [refAt, inode_setCount]
  rfl

theorem Wf.setCount (hw : Wf t fs files) {vn : Vnode} (hpos : 0 < vn.vnRefcount) :
    Wf t (fs.setCount v vn) files := by
  refine Wf.retable hw (fun i => inode_setCount v i vn) ?_ ?_
  · refine ⟨hw.table.nodup, hw.table.fresh, ?_, ?_, fun w hwm => ?_⟩
    · simp only [svIno_setCount]
      exact hw.table.ino_inj
    · simp only [svIno_setCount]
      exact hw.table.ino_mem
    · rw [heap_setCount]
      split
      · exact hpos
      · exact hw.table.refcount_pos w hwm
  · simp only [svIno_setCount, svI_setCount, svDirty_setCount]
    exact hw.backed.inode

theorem Table.heap_insertVnode (h : Table fs files) (sv : SfsVnode) (hv : v ∈ fs.sfsVnodes) :
    (fs.insertVnode sv).heap v = fs.heap v := by
  have := h.fresh v hv
  exact update_of_ne (by omega) _ _

@[simp] theorem SfsFs.heap_insertVnode_self (fs : SfsFs) (sv : SfsVnode) :
    (fs.insertVnode sv).heap fs.nextVnode = sv := update_self _ _ _

variable {sv : SfsVnode}

theorem SfsFs.mem_insertVnode {w : Nat} :
    w ∈ (fs.insertVnode sv).sfsVnodes ↔ w ∈ fs.sfsVnodes ∨ w = fs.nextVnode := by
  simp [insertVnode]

theorem Table.inode_insertVnode (h : Table fs files) (hnone : fs.vnodeOf sv.svIno = none)
    (j : Nat) :
    (fs.insertVnode sv).inode j = if j = sv.svIno then sv.svI else fs.inode j := by
  have hvo : (fs.insertVnode sv).vnodeOf j =
      (fs.vnodeOf j).or (if j = sv.svIno then some fs.nextVnode else none) := by
    have hold : fs.sfsVnodes.find? (fun v => ((fs.insertVnode sv).heap v).svIno = j) =
        fs.vnodeOf j := by
      refine find?_congr fun v hv => ?_
      simp only [h.heap_insertVnode sv hv]
    rw [SfsFs.vnodeOf, show (fs.insertVnode sv).sfsVnodes = fs.sfsVnodes ++ [fs.nextVnode] from rfl,
      find?_append, hold, find?_singleton, SfsFs.heap_insertVnode_self]
    by_cases hj : j = sv.svIno
    · simp [hj]
    · simp [hj, Ne.symm hj]
  rw [SfsFs.inode, hvo]
  by_cases hj : j = sv.svIno
  · rw [if_pos hj, if_pos hj, hj, hnone]
    simp
  · rw [if_neg hj, if_neg hj, Option.or_none, SfsFs.inode]
    cases hw : fs.vnodeOf j with
    | none => rfl
    | some w =>
      show ((fs.insertVnode sv).heap w).svI = _
      rw [h.heap_insertVnode sv (SfsFs.vnodeOf_eq_some hw).1]

theorem Table.insertVnode (h : Table fs files) (hnone : fs.vnodeOf sv.svIno = none)
    {files' : Set Nat} (hsub : ∀ i ∈ files, i ∈ files') (hmem : sv.svIno ∈ files')
    (hpos : 0 < sv.svV.vnRefcount) : Table (fs.insertVnode sv) files' := by
  have hino := vnodeOf_eq_none.mp hnone
  refine ⟨?_, ?_, ?_, ?_, ?_⟩
  · refine nodup_append.mpr ⟨h.nodup, nodup_singleton _, fun a ha b hb => ?_⟩
    have := h.fresh a ha
    rw [mem_singleton.mp hb]
    omega
  · intro w hw
    show w < fs.nextVnode + 1
    rcases mem_insertVnode.mp hw with hw | rfl
    · have := h.fresh w hw
      omega
    · omega
  · intro w hw x hx he
    rcases mem_insertVnode.mp hw with hw | rfl <;>
      rcases mem_insertVnode.mp hx with hx | rfl
    · rw [h.heap_insertVnode sv hw, h.heap_insertVnode sv hx] at he
      exact h.ino_inj w hw x hx he
    · rw [h.heap_insertVnode sv hw, heap_insertVnode_self] at he
      exact absurd he (hino w hw)
    · rw [h.heap_insertVnode sv hx, heap_insertVnode_self] at he
      exact absurd he.symm (hino x hx)
    · rfl
  · intro w hw
    rcases mem_insertVnode.mp hw with hw | rfl
    · rw [h.heap_insertVnode sv hw]
      exact hsub _ (h.ino_mem w hw)
    · rw [heap_insertVnode_self]
      exact hmem
  · intro w hw
    rcases mem_insertVnode.mp hw with hw | rfl
    · rw [h.heap_insertVnode sv hw]
      exact h.refcount_pos w hw
    · rw [heap_insertVnode_self]
      exact hpos

/-- **Loading the inode of an existing object** from its block changes nothing but the table. -/
theorem Wf.insertVnode (hw : Wf t fs files) (hi : ino ∈ files) (hnone : fs.vnodeOf ino = none) :
    Wf t (fs.insertVnode ⟨vnodeInit, decodeInode (fs.disk ino), ino, false⟩) files ∧
      ∀ j, (fs.insertVnode ⟨vnodeInit, decodeInode (fs.disk ino), ino, false⟩).inode j =
        fs.inode j := by
  set sv : SfsVnode := ⟨vnodeInit, decodeInode (fs.disk ino), ino, false⟩ with hsv
  have hin : ∀ j, (fs.insertVnode sv).inode j = fs.inode j := by
    intro j
    rw [hw.table.inode_insertVnode hnone]
    split
    · next h =>
      have hj : j = ino := h
      rw [hj, inode_of_none hnone]
    · rfl
  refine ⟨Wf.retable hw hin (hw.table.insertVnode hnone (fun _ h => h) hi Nat.one_pos)
    fun w hwm hclean => ?_, hin⟩
  rcases mem_insertVnode.mp hwm with hwm | rfl
  · rw [hw.table.heap_insertVnode sv hwm] at hclean ⊢
    exact hw.backed.inode w hwm hclean
  · rw [heap_insertVnode_self]
    rfl

/-- What a successful `sfs_loadvnode` of an existing object does: a hit takes a reference, a miss
adds a vnode with the inode in its block. -/
inductive Loads (fs : SfsFs) (ino : Nat) : Nat → SfsFs → Prop
  | hit {v : Nat} (hv : v ∈ fs.sfsVnodes) (hino : (fs.heap v).svIno = ino) :
    Loads fs ino v (fs.setCount v (vnodeIncref (fs.heap v).svV))
  | miss (hnone : fs.vnodeOf ino = none) (k : Nat) : Loads fs ino fs.nextVnode
      ((fs.burn k).insertVnode ⟨vnodeInit, decodeInode (fs.disk ino), ino, false⟩)

/-- The three allocations that a new vnode takes succeed. -/
def SfsFs.HasMemory (fs : SfsFs) : Prop := ∀ n < 3, fs.kmallocOk n = true

theorem SfsFs.not_hasMemory {n : Nat} (hn : n < 3) (h : fs.kmallocOk n = false) :
    ¬ fs.HasMemory := fun hm => by simp [hm n hn] at h

theorem SfsFs.exists_of_not_hasMemory (h : ¬ fs.HasMemory) : ∃ n, fs.kmallocOk n = false := by
  by_contra hno
  exact h fun n _ => by simpa using not_exists.mp hno n

/-- The second half of `sfs_loadvnode`, on a marked block that holds a suitable inode. -/
theorem sfsLoadvnodeMiss_spec {forcetype : SfsType} (hd : fs.sfsDevice.Reliable)
    (hlt : ino < fs.nblocks) (hdb : ino < fs.sfsDevice.dBlocks)
    (hset : fs.sfsFreemap.isset ino = true)
    (hforce : forcetype = .inval ∨ (decodeInode (fs.disk ino)).sfiType = .inval)
    (htype : (sfsNewVnode (decodeInode (fs.disk ino)) ino forcetype).svI.sfiType = .file ∨
      (sfsNewVnode (decodeInode (fs.disk ino)) ino forcetype).svI.sfiType = .dir) :
    Wp False (sfsLoadvnodeMiss ino forcetype)
      (fun v fs' => v = fs.nextVnode ∧ fs.HasMemory ∧ ∃ k, fs' = (fs.burn k).insertVnode
        (sfsNewVnode (decodeInode (fs.disk ino)) ino forcetype))
      (fun e fs' => e = .enomem ∧ ¬ fs.HasMemory ∧ ∃ k, fs' = fs.burn k) fs := by
  rw [sfsLoadvnodeMiss, wp_bind, wp_kmalloc]
  by_cases h0 : fs.kmallocOk 0 = false
  · rw [if_pos h0, wp_fail]
    exact ⟨rfl, not_hasMemory (by decide) h0, 1, rfl⟩
  rw [if_neg h0]
  simp only [sfsBused, wp_bind, wp_get, wp_pure, wp_assert]
  refine ⟨fun _ => ⟨fun _ => ?_, fun hn => hn hset⟩, fun hn => hn hlt⟩
  refine wp_rblock ?_ ?_ ?_
  · exact hd
  · exact hdb
  refine ⟨fun _ => ⟨fun _ => ?_, fun hn => hn htype⟩, fun hn => hn hforce⟩
  rw [wp_kmalloc]
  by_cases h1 : (fs.burn 1).kmallocOk 0 = false
  · rw [if_pos h1, wp_fail]
    exact ⟨rfl, not_hasMemory (n := 1) (by decide) h1, 2, rfl⟩
  rw [if_neg h1, wp_bind, wp_kmalloc]
  by_cases h2 : ((fs.burn 1).burn 1).kmallocOk 0 = false
  · rw [if_pos h2, wp_fail]
    exact ⟨rfl, not_hasMemory (n := 2) (by decide) h2, 3, rfl⟩
  rw [if_neg h2, wp_bind, wp_get, wp_bind, wp_modify, wp_pure]
  refine ⟨rfl, fun n hn => ?_, 3, rfl⟩
  obtain _ | _ | _ | n := n
  · exact eq_true_of_ne_false h0
  · exact eq_true_of_ne_false h1
  · exact eq_true_of_ne_false h2
  · omega

/-- **`sfs_loadvnode`** of an existing object. -/
theorem sfsLoadvnode_spec (hw : Wf t fs files) (hi : ino ∈ files) :
    Wp False (sfsLoadvnode ino .inval) (fun v fs' => Loads fs ino v fs')
      (fun e fs' => e = .enomem ∧ fs.vnodeOf ino = none ∧
        ∃ k, fs' = fs.burn k ∧ ∃ n, fs.kmallocOk n = false) fs := by
  rw [sfsLoadvnode, wp_bind, wp_get]
  refine (hw.scan ino).bind_ok ?_
  rintro _ fs' ⟨hfs', rfl⟩
  rw [hfs']
  cases hr : fs.vnodeOf ino with
  | some v =>
    obtain ⟨hv, hino⟩ := vnodeOf_eq_some hr
    simp only [wp_bind, wp_assert, wp_modify, wp_pure]
    exact ⟨fun _ => Loads.hit hv hino, fun h => h trivial⟩
  | none =>
    have htype := hw.typed ino hi
    rw [inode_of_none hr] at htype
    refine (sfsLoadvnodeMiss_spec hw.reliable (hw.file_lt ino hi) (hw.block_lt (hw.file_lt ino hi))
      (hw.file_isset hi) (.inl rfl) htype).imp ?_ ?_
    · rintro _ _ ⟨rfl, -, k, rfl⟩
      exact Loads.miss hr k
    · rintro _ _ ⟨rfl, hm, k, rfl⟩
      exact ⟨rfl, rfl, k, rfl, exists_of_not_hasMemory hm⟩

theorem Loads.wf (h : Loads fs ino v fs') (hw : Wf t fs files) (hi : ino ∈ files) :
    Wf t fs' files ∧ ∀ j, fs'.inode j = fs.inode j := by
  cases h with
  | hit hv hino => exact ⟨hw.setCount (Nat.succ_pos _), fun j => by simp⟩
  | miss hnone k => exact (hw.burn k).insertVnode hi hnone

theorem Loads.mem (h : Loads fs ino v fs') : v ∈ fs'.sfsVnodes := by
  cases h with
  | hit hv hino => exact hv
  | miss hnone k => exact mem_insertVnode.mpr (.inr rfl)

end Loading

/-! ## 3. Making an object -/

section Making

variable {t : Prop} {fs fs' : SfsFs} {files : Set Nat} {b : Nat}

/-- The volume with a new object of type `type` in the free block `b`. -/
def SfsFs.create (fs : SfsFs) (b : Nat) (type : SfsType) (k : Nat) : SfsFs :=
  ((fs.alloc b).burn k).insertVnode ⟨vnodeInit, { emptyInode with sfiType := type }, b, true⟩

variable {type : SfsType}

/-- A new object enrolls its inode block; the other objects are as they were. -/
theorem Wf.create (hw : Wf t fs files) (hb : b < fs.nblocks) (hf : fs.sfsFreemap.isset b = false)
    (htype : type = .file ∨ type = .dir) (k : Nat) :
    Wf t (fs.create b type k) {i | i = b ∨ i ∈ files} ∧
      (∀ i ∈ files, (fs.create b type k).inode i = fs.inode i ∧
        ∀ r, (fs.create b type k).refAt i r = fs.refAt i r) ∧
      (fs.create b type k).inode b = { emptyInode with sfiType := type } := by
  set sv : SfsVnode := ⟨vnodeInit, { emptyInode with sfiType := type }, b, true⟩ with hsv
  have hbf : b ∉ files := hw.free_not_file hb hf
  have hfr : Frame fs (fs.alloc b) := Frame.alloc fs b
  have htab : Table ((fs.alloc b).burn k) files :=
    have h := hfr.table hw.table
    { h with }
  have hnone : ((fs.alloc b).burn k).vnodeOf b = none := by
    refine vnodeOf_eq_none.mpr fun v hv he => hbf ?_
    exact he ▸ htab.ino_mem v hv
  have hin : ∀ j, (fs.create b type k).inode j =
      if j = b then sv.svI else (fs.alloc b).inode j := htab.inode_insertVnode hnone
  have hinode : ∀ i ∈ files, (fs.create b type k).inode i = fs.inode i := by
    intro i hi
    have hib : i ≠ b := fun he => hbf (he ▸ hi)
    rw [hin, if_neg hib, hw.alloc_inode hb hf hi]
  have href : ∀ i ∈ files, ∀ r, (fs.create b type k).refAt i r = fs.refAt i r := by
    intro i hi r
    rw [← hw.alloc_refAt hb hf hi r, refAt, hinode i hi, refAt, hw.alloc_inode hb hf hi]
    rfl
  have hnew : (fs.create b type k).inode b = sv.svI := by rw [hin, if_pos rfl]
  have hledger : (fs.create b type k).ledger {i | i = b ∨ i ∈ files} =
      (fs.ledger files).enroll b := by
    refine Ledger.ext ?_ ?_ ?_
    · ext c
      show (fs.nblocks ≤ c ∨ (fs.sfsFreemap.set b).isset c = true) ↔
        (c = b ∨ fs.nblocks ≤ c ∨ fs.sfsFreemap.isset c = true)
      rw [Bitmap.isset_set]
      exact or_left_comm
    · ext c
      show (c = 0 ∨ IsMapBlock fs.nblocks c ∨ fs.nblocks ≤ c ∨ c = b ∨ c ∈ files) ↔
        (c = b ∨ c = 0 ∨ IsMapBlock fs.nblocks c ∨ fs.nblocks ≤ c ∨ c ∈ files)
      grind
    · ext ⟨j, r⟩
      by_cases hj : j ∈ files
      · simp only [ledger, Ledger.enroll, Set.mem_ofPred_eq, hj, or_true, if_true, href j hj]
      · by_cases hjb : j = b
        · have hz : (fs.create b type k).refAt b r = 0 := by
            rw [refAt, hnew]
            cases r <;> simp [SfsInode.ref, hsv, emptyInode]
          simp only [ledger, Ledger.enroll, Set.mem_ofPred_eq, hjb, true_or, if_true, hz]
          simp [hbf]
        · simp only [ledger, Ledger.enroll, Set.mem_ofPred_eq, hj, hjb, or_self, if_false]
  refine ⟨⟨hw.reliable, hw.nblocks_le, hw.nblocks_small, hw.map_fits, hw.nbits, ?_,
    htab.insertVnode hnone (fun _ h => .inr h) (.inl rfl) Nat.one_pos, ?_, ?_, ?_, ?_, ?_, ?_,
    ?_, ?_⟩, fun i hi => ⟨hinode i hi, href i hi⟩, hnew⟩
  · exact fun c hc hlt => Bitmap.isset_set.mpr (.inr (hw.beyond c hc hlt))
  · have hdisk : ∀ c, c ≠ b → (fs.create b type k).disk c = fs.disk c :=
      fun c hc => update_of_ne hc _ _
    have hdirty : (fs.create b type k).sfsFreemapdirty = true := rfl
    refine ⟨?_, hw.backed.magic, hw.backed.superdirty,
      fun hclean => absurd (hdirty.symm.trans hclean) (by decide), ?_⟩
    · rw [hdisk 0 (hw.free_ne_zero hb hf).symm]
      exact hw.backed.super
    · intro w hwm hclean
      rcases mem_insertVnode.mp hwm with hwm | rfl
      · have hheap : (fs.create b type k).heap w = fs.heap w := htab.heap_insertVnode sv hwm
        rw [hheap] at hclean ⊢
        rw [hdisk _ fun he => hbf (he ▸ hw.table.ino_mem w hwm)]
        exact hw.backed.inode w hwm hclean
      · have hheap : (fs.create b type k).heap ((fs.alloc b).burn k).nextVnode = sv :=
          heap_insertVnode_self _ sv
        rw [hheap] at hclean
        exact absurd hclean (by simp [hsv])
  · rintro i (rfl | hi)
    · exact hb
    · exact hw.file_lt i hi
  · rintro i (rfl | hi)
    · exact hw.free_ne_zero hb hf
    · exact hw.file_pos i hi
  · rintro i (rfl | hi)
    · exact hw.free_not_map hb hf
    · exact hw.file_not_map i hi
  · rintro i (rfl | hi)
    · rw [hnew]
      exact htype
    · rw [hinode i hi]
      exact hw.typed i hi
  · rintro i (rfl | hi)
    · rw [hnew]
      exact ⟨Nat.succ_pos _, Nat.succ_pos _, fun _ => Nat.succ_pos _, Nat.succ_pos _⟩
    · rw [hinode i hi]
      exact hw.fits i hi
  · rw [hledger]
    exact hw.sound.enroll (Wf.free_notMem hb hf)
  · intro ht
    rw [hledger]
    exact (hw.tight ht).enroll b

/-- A block that is allocated and then forgotten: the volume is sound, but no longer tight. -/
theorem Wf.leak (hw : Wf t fs files) (hb : b < fs.nblocks) (hf : fs.sfsFreemap.isset b = false) :
    Wf False (fs.alloc b) files := by
  have hledger : (fs.alloc b).ledger files = { fs.ledger files with
      marked := {c | c = b ∨ c ∈ (fs.ledger files).marked} } := by
    refine Ledger.ext ?_ rfl ?_
    · ext c
      show (fs.nblocks ≤ c ∨ (fs.sfsFreemap.set b).isset c = true) ↔
        (c = b ∨ fs.nblocks ≤ c ∨ fs.sfsFreemap.isset c = true)
      rw [Bitmap.isset_set]
      exact or_left_comm
    · funext ⟨j, r⟩
      by_cases hj : j ∈ files
      · simp only [ledger, hj, if_true, hw.alloc_refAt hb hf hj]
      · simp only [ledger, hj, if_false]
  have hw' : Wf False fs files := { hw with tight := False.elim }
  refine hw'.of_frame (Frame.alloc fs b) rfl ?_ ?_ (.inl rfl) ?_ ?_ ?_ ?_ False.elim
  · exact fun c _ hc => Bitmap.isset_set.mpr (.inr hc)
  · exact update_of_ne (hw.free_ne_zero hb hf).symm _ _
  · intro w hwm hclean
    have hne : (fs.heap w).svIno ≠ b := fun he => hw.free_not_file hb hf
      (he ▸ hw.table.ino_mem w hwm)
    have hdisk : (fs.alloc b).disk (fs.heap w).svIno = fs.disk (fs.heap w).svIno :=
      update_of_ne hne _ _
    rw [hdisk]
    exact hw.backed.inode w hwm hclean
  · exact fun i hi => by rw [hw.alloc_inode hb hf hi]
  · exact fun i hi => by rw [hw.alloc_inode hb hf hi]; exact hw.fits i hi
  · rw [hledger]
    exact hw.sound.mark b

/-- **`sfs_makeobj`** makes an empty object in a free block.  If it cannot get the memory for a
vnode, it forgets the block it allocated. -/
theorem sfsMakeobj_spec (hw : Wf t fs files) (htype : type = .file ∨ type = .dir) :
    Wp False (sfsMakeobj type)
      (fun v fs' => v = fs.nextVnode ∧ fs.HasMemory ∧ ∃ b k, b < fs.nblocks ∧
        fs.sfsFreemap.isset b = false ∧ fs' = fs.create b type k)
      (fun e fs' => (e = .enospc ∧ fs' = fs ∧ ∀ b < fs.nblocks, fs.sfsFreemap.isset b = true) ∨
        (e = .enomem ∧ ¬ fs.HasMemory ∧ ∃ b k, b < fs.nblocks ∧
          fs.sfsFreemap.isset b = false ∧ fs' = (fs.alloc b).burn k)) fs := by
  have hinval : type ≠ .inval := by
    rcases htype with rfl | rfl <;> decide
  rw [sfsMakeobj, wp_bind]
  refine (sfsBalloc_spec hw).imp ?_ (fun _ _ h => .inl h)
  rintro b _ ⟨hb, hf, rfl⟩
  have hwl := hw.leak hb hf
  have hset : (fs.alloc b).sfsFreemap.isset b = true := Bitmap.isset_set.mpr (.inl rfl)
  have hnone : (fs.alloc b).vnodeOf b = none := vnodeOf_eq_none.mpr fun v hv he =>
    hw.free_not_file hb hf (he ▸ hw.table.ino_mem v hv)
  have hdec : decodeInode ((fs.alloc b).disk b) = emptyInode := by
    rw [show (fs.alloc b).disk b = 0 from update_self _ _ _, decodeInode_zero]
  have hnew : sfsNewVnode emptyInode b type =
      ⟨vnodeInit, { emptyInode with sfiType := type }, b, true⟩ := if_pos hinval
  rw [sfsLoadvnode, wp_bind, wp_get]
  refine (hwl.scan b).bind_ok ?_
  rintro r fs₁ ⟨hfs1, hr⟩
  rw [hfs1, hr, hnone]
  refine (sfsLoadvnodeMiss_spec hwl.reliable hb (hwl.block_lt hb) hset (.inr (by rw [hdec]; rfl))
    (by rw [hdec, hnew]; exact htype)).imp ?_ ?_
  · rintro v fs' ⟨rfl, hm, k, rfl⟩
    rw [hdec, hnew]
    exact ⟨rfl, hm, b, k, hb, hf, rfl⟩
  · rintro e fs' ⟨rfl, hm, k, rfl⟩
    exact .inr ⟨rfl, hm, b, k, hb, hf, rfl⟩

end Making

end Os161
