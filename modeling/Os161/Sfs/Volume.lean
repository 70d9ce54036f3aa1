/-
# The invariant of a mounted volume

The state of a volume is spread over four places that have to agree: the free map, the inodes
(in a loaded vnode if there is one, in their disk block otherwise), the indirect blocks on disk,
and the table of loaded vnodes.  `SfsFs.inode` and `SfsFs.refAt` read the current truth out of
them, `SfsFs.ledger` lays it out as a ledger of blocks (`Lib/Ledger.lean`), and `Wf` says that
everything agrees.

`files` is the set of existing objects, by inode number.  It is not in the code: it is the
record of what was created and not yet erased that the code's bookkeeping has to match.

Every call of the file system changes the volume by a few kinds of small change.  Sections 4
and 5 prove, once for each, that it keeps `Wf`; the specifications of the calls are then put
together from these.
-/
import Os161.Lib.Ledger
import Os161.Sfs.Fs

namespace Os161

open Classical Function SfsFs

/-! ## 1. Reading the volume -/

/-- The places of an inode that can refer to a block. -/
inductive Slot
  | direct (k : Fin 15)
  | indirect
  | entry (k : Fin 128)
  deriving DecidableEq

/-- What a slot of an inode refers to, given the disk its indirect block is on. -/
def SfsInode.ref (n : SfsInode) (disk : Nat → Sector) : Slot → Nat
  | .direct k => n.sfiDirect k
  | .indirect => n.sfiIndirect
  | .entry k => if n.sfiIndirect = 0 then 0 else (disk n.sfiIndirect).word k.val

theorem SfsInode.ref_entry_of_zero {n : SfsInode} {disk : Nat → Sector} {k : Fin 128}
    (h : n.sfiIndirect = 0) : n.ref disk (.entry k) = 0 := if_pos h

/-- The slot behind block `fileblock` of a file. -/
def dataSlot (fileblock : Nat) : Option Slot :=
  if h : fileblock < 15 then some (.direct ⟨fileblock, h⟩)
  else if h : fileblock - 15 < 128 then some (.entry ⟨fileblock - 15, h⟩)
  else none

namespace SfsFs

/-- The loaded vnode of inode `i`. -/
def vnodeOf (fs : SfsFs) (i : Nat) : Option Nat :=
  fs.sfsVnodes.find? fun v => (fs.heap v).svIno = i

/-- Inode `i` as it is now. -/
def inode (fs : SfsFs) (i : Nat) : SfsInode :=
  match fs.vnodeOf i with
  | some v => (fs.heap v).svI
  | none => decodeInode (fs.disk i)

/-- The block that slot `r` of inode `i` refers to, 0 for none. -/
def refAt (fs : SfsFs) (i : Nat) (r : Slot) : Nat := (fs.inode i).ref fs.disk r

/-- The disk block of block `fileblock` of file `i`, 0 for none. -/
def dataRef (fs : SfsFs) (i fileblock : Nat) : Nat :=
  match dataSlot fileblock with
  | some r => fs.refAt i r
  | none => 0

/-- The volume as a ledger.  The bits past the end of the volume belong to no block. -/
noncomputable def ledger (fs : SfsFs) (files : Set Nat) : Ledger (Nat × Slot) where
  marked := {b | fs.nblocks ≤ b ∨ fs.sfsFreemap.isset b = true}
  fixed := {b | b = 0 ∨ IsMapBlock fs.nblocks b ∨ fs.nblocks ≤ b ∨ b ∈ files}
  ref := fun s => if s.1 ∈ files then fs.refAt s.1 s.2 else 0

end SfsFs

/-! ## 2. The invariant -/

/-- The table of loaded vnodes. -/
structure Table (fs : SfsFs) (files : Set Nat) : Prop where
  nodup : fs.sfsVnodes.Nodup
  fresh : ∀ v ∈ fs.sfsVnodes, v < fs.nextVnode
  ino_inj : ∀ v ∈ fs.sfsVnodes, ∀ w ∈ fs.sfsVnodes, (fs.heap v).svIno = (fs.heap w).svIno → v = w
  ino_mem : ∀ v ∈ fs.sfsVnodes, (fs.heap v).svIno ∈ files
  refcount_pos : ∀ v ∈ fs.sfsVnodes, 0 < (fs.heap v).svV.vnRefcount

/-- Mounting ensures null termination of the volume name. -/
def terminateVolname (s : SfsSuper) : SfsSuper :=
  { s with spVolname := fun k => if k.val = sfsVolnameSize - 1 then 0 else s.spVolname k }

/-- What mounting makes of the superblock. -/
def mountSuper (b : Sector) : SfsSuper := terminateVolname (decodeSuper b)

/-- The disk agrees with memory wherever memory is not marked dirty. -/
structure Backed (fs : SfsFs) : Prop where
  super : mountSuper (fs.disk 0) = fs.sfsSuper
  magic : fs.sfsSuper.spMagic = sfsMagic
  superdirty : fs.sfsSuperdirty = false
  freemap : fs.sfsFreemapdirty = false → ∀ j < sfsBitblocks fs.nblocks, ∀ k < sectSize,
    (fs.disk (sfsMapLocation + j)).byte k = fs.sfsFreemap.v (j * sectSize + k)
  inode : ∀ v ∈ fs.sfsVnodes, (fs.heap v).svDirty = false →
    decodeInode (fs.disk (fs.heap v).svIno) = (fs.heap v).svI

/-- **A well-formed volume** on a device that does not fail, whose objects are `files`.  With
`tight`, no block is marked in use without being accounted for. -/
structure Wf (tight : Prop) (fs : SfsFs) (files : Set Nat) : Prop where
  reliable : fs.sfsDevice.Reliable
  nblocks_le : fs.nblocks ≤ fs.sfsDevice.dBlocks
  nblocks_small : fs.nblocks ≤ 8388608
  map_fits : sfsMapLocation + sfsBitblocks fs.nblocks ≤ fs.nblocks
  nbits : fs.sfsFreemap.nbits = sfsBitmapsize fs.nblocks
  beyond : ∀ b, fs.nblocks ≤ b → b < fs.sfsFreemap.nbits → fs.sfsFreemap.isset b = true
  table : Table fs files
  backed : Backed fs
  file_lt : ∀ i ∈ files, i < fs.nblocks
  file_pos : ∀ i ∈ files, i ≠ 0
  file_not_map : ∀ i ∈ files, ¬ IsMapBlock fs.nblocks i
  typed : ∀ i ∈ files, (fs.inode i).sfiType = .file ∨ (fs.inode i).sfiType = .dir
  fits : ∀ i ∈ files, (fs.inode i).Fits
  sound : (fs.ledger files).Sound
  tight : tight → (fs.ledger files).Tight fs.nblocks

/-! ## 3. What the invariant says about blocks -/

section Reading

variable {t : Prop} {fs : SfsFs} {files : Set Nat}

/-- It says nothing about the cache, nor about what `kmalloc` and `random` are going to return. -/
theorem Wf.other (hw : Wf t fs files) (cache : Fin bufferSize → SfsBufferCache) (ok : Nat → Bool)
    (random : Nat → Nat) :
    Wf t { fs with sfsRcache := cache, kmallocOk := ok, random := random } files :=
  { hw with table := { hw.table with }, backed := { hw.backed with } }

variable {v i : Nat}

theorem SfsFs.vnodeOf_eq_some (h : fs.vnodeOf i = some v) :
    v ∈ fs.sfsVnodes ∧ (fs.heap v).svIno = i :=
  ⟨List.mem_of_find?_eq_some h, by simpa using List.find?_some h⟩

theorem SfsFs.vnodeOf_eq_none :
    fs.vnodeOf i = none ↔ ∀ v ∈ fs.sfsVnodes, (fs.heap v).svIno ≠ i := by
  simp [vnodeOf, List.find?_eq_none]

/-- The table may be any other one that says the same of every inode, and nothing of a clean one
that its block does not say. -/
theorem Wf.retable {vs : List Nat} {heap : Nat → SfsVnode} {next : Nat}
    (hw : Wf t { fs with sfsVnodes := vs, heap := heap, nextVnode := next } files)
    (hin : ∀ i, fs.inode i =
      inode { fs with sfsVnodes := vs, heap := heap, nextVnode := next } i)
    (htab : Table fs files) (hclean : ∀ v ∈ fs.sfsVnodes, (fs.heap v).svDirty = false →
      decodeInode (fs.disk (fs.heap v).svIno) = (fs.heap v).svI) : Wf t fs files := by
  have hledger : ledger { fs with sfsVnodes := vs, heap := heap, nextVnode := next } files =
      fs.ledger files := by
    refine Ledger.ext rfl rfl (funext fun s => ?_)
    simp only [ledger, refAt, hin]
    rfl
  exact { hw with
    table := htab
    backed := { hw.backed with inode := hclean }
    typed := by simpa only [hin] using hw.typed
    fits := by simpa only [hin] using hw.fits
    sound := hledger ▸ hw.sound
    tight := hledger ▸ hw.tight }

theorem SfsFs.inode_of_none (h : fs.vnodeOf i = none) : fs.inode i = decodeInode (fs.disk i) := by
  rw [inode, h]

theorem Table.vnodeOf (h : Table fs files) (hv : v ∈ fs.sfsVnodes) :
    fs.vnodeOf (fs.heap v).svIno = some v := by
  cases hf : fs.vnodeOf (fs.heap v).svIno with
  | none => exact absurd rfl (vnodeOf_eq_none.mp hf v hv)
  | some w =>
    obtain ⟨hw, hi⟩ := vnodeOf_eq_some hf
    rw [h.ino_inj w hw v hv hi]

theorem Table.inode (h : Table fs files) (hv : v ∈ fs.sfsVnodes) :
    fs.inode (fs.heap v).svIno = (fs.heap v).svI := by
  rw [SfsFs.inode, h.vnodeOf hv]

theorem SfsFs.ledger_ref (hi : i ∈ files) (r : Slot) :
    (fs.ledger files).ref (i, r) = fs.refAt i r := if_pos hi

namespace Wf

variable (h : Wf t fs files)

include h

theorem nblocks_lt : fs.nblocks < 4294967296 := lt_of_le_of_lt h.nblocks_small (by decide)

theorem nblocks_le_nbits : fs.nblocks ≤ fs.sfsFreemap.nbits :=
  h.nbits ▸ le_sfsBitmapsize h.nblocks_small

theorem file_isset (hi : i ∈ files) : fs.sfsFreemap.isset i = true := by
  rcases h.sound.fixed_marked i (.inr (.inr (.inr hi))) with hn | hs
  · exact absurd (h.file_lt i hi) (by omega)
  · exact hs

variable {r : Slot} {b : Nat}

section

variable (hi : i ∈ files)

include hi

theorem ref_inj {j : Nat} (hj : j ∈ files) {q : Slot} (h0 : fs.refAt i r ≠ 0)
    (he : fs.refAt i r = fs.refAt j q) : i = j ∧ r = q := by
  have := h.sound.inj (i, r) (j, q)
  rw [ledger_ref hi, ledger_ref hj] at this
  exact Prod.mk.injEq .. ▸ this h0 he

variable (h0 : fs.refAt i r ≠ 0)

include h0

theorem ref_not_fixed : fs.refAt i r ∉ (fs.ledger files).fixed := by
  have := h.sound.ref_not_fixed (i, r)
  rw [ledger_ref hi] at this
  exact this h0

theorem ref_lt : fs.refAt i r < fs.nblocks := by
  have := h.ref_not_fixed hi h0
  by_contra hn
  exact this (.inr (.inr (.inl (by omega))))

theorem ref_isset : fs.sfsFreemap.isset (fs.refAt i r) = true := by
  have hm := h.sound.ref_marked (i, r)
  rw [ledger_ref hi] at hm
  rcases hm h0 with hn | hs
  · exact absurd (h.ref_lt hi h0) (by omega)
  · exact hs

theorem ref_not_mem : fs.refAt i r ∉ files :=
  fun hm => h.ref_not_fixed hi h0 (.inr (.inr (.inr hm)))

theorem ref_not_map : ¬ IsMapBlock fs.nblocks (fs.refAt i r) :=
  fun hm => h.ref_not_fixed hi h0 (.inr (.inl hm))

end

variable (hb : b < fs.nblocks) (hf : fs.sfsFreemap.isset b = false)

include hb hf

omit h in
theorem free_notMem : b ∉ (fs.ledger files).marked := by
  rintro (hn | hs)
  · omega
  · rw [hf] at hs
    exact absurd hs (by decide)

theorem free_ne_ref (hi : i ∈ files) (r : Slot) : fs.refAt i r ≠ b :=
  ledger_ref hi r ▸ h.sound.ref_ne (free_notMem hb hf) (i, r)

theorem free_not_fixed : b ∉ (fs.ledger files).fixed :=
  fun hm => free_notMem hb hf (h.sound.fixed_marked b hm)

theorem free_ne_zero : b ≠ 0 := fun h0 => h.free_not_fixed hb hf (.inl h0)

theorem free_not_map : ¬ IsMapBlock fs.nblocks b :=
  fun hm => h.free_not_fixed hb hf (.inr (.inl hm))

theorem free_not_file : b ∉ files :=
  fun hm => h.free_not_fixed hb hf (.inr (.inr (.inr hm)))

end Wf

end Reading

/-! ## 4. Changes that leave the table and the cache alone -/

/-- `fs'` differs from `fs` at most in the disk, the free map and the inodes. -/
structure Frame (fs fs' : SfsFs) : Prop where
  super : fs'.sfsSuper = fs.sfsSuper
  superdirty : fs'.sfsSuperdirty = fs.sfsSuperdirty
  dBlocks : fs'.sfsDevice.dBlocks = fs.sfsDevice.dBlocks
  outcome : fs'.sfsDevice.outcome = fs.sfsDevice.outcome
  vnodes : fs'.sfsVnodes = fs.sfsVnodes
  rcache : fs'.sfsRcache = fs.sfsRcache
  nextVnode : fs'.nextVnode = fs.nextVnode
  kmallocOk : fs'.kmallocOk = fs.kmallocOk
  random : fs'.random = fs.random
  ino : ∀ w, (fs'.heap w).svIno = (fs.heap w).svIno
  count : ∀ w, (fs'.heap w).svV = (fs.heap w).svV

namespace Frame

variable {fs fs' fs'' : SfsFs} {files : Set Nat}

theorem refl (fs : SfsFs) : Frame fs fs :=
  ⟨rfl, rfl, rfl, rfl, rfl, rfl, rfl, rfl, rfl, fun _ => rfl, fun _ => rfl⟩

theorem trans (h : Frame fs fs') (h' : Frame fs' fs'') : Frame fs fs'' where
  super := h'.super.trans h.super
  superdirty := h'.superdirty.trans h.superdirty
  dBlocks := h'.dBlocks.trans h.dBlocks
  outcome := h'.outcome.trans h.outcome
  vnodes := h'.vnodes.trans h.vnodes
  rcache := h'.rcache.trans h.rcache
  nextVnode := h'.nextVnode.trans h.nextVnode
  kmallocOk := h'.kmallocOk.trans h.kmallocOk
  random := h'.random.trans h.random
  ino := fun w => (h'.ino w).trans (h.ino w)
  count := fun w => (h'.count w).trans (h.count w)

theorem store (fs : SfsFs) (b : Nat) (data : Sector) : Frame fs (fs.store b data) :=
  ⟨rfl, rfl, rfl, rfl, rfl, rfl, rfl, rfl, rfl, fun _ => rfl, fun _ => rfl⟩

theorem mark (fs : SfsFs) (b : Nat) : Frame fs (fs.mark b) :=
  ⟨rfl, rfl, rfl, rfl, rfl, rfl, rfl, rfl, rfl, fun _ => rfl, fun _ => rfl⟩

theorem setVnode (fs : SfsFs) (v : Nat) {sv : SfsVnode} (hi : sv.svIno = (fs.heap v).svIno)
    (hc : sv.svV = (fs.heap v).svV) : Frame fs (fs.setVnode v sv) := by
  refine ⟨rfl, rfl, rfl, rfl, rfl, rfl, rfl, rfl, rfl, fun w => ?_, fun w => ?_⟩ <;>
  · by_cases hw : w = v
    · subst hw
      simp [SfsFs.setVnode, hi, hc]
    · simp [SfsFs.setVnode, update_of_ne hw]

theorem setInode (fs : SfsFs) (v : Nat) (n : SfsInode) : Frame fs (fs.setInode v n) :=
  setVnode fs v rfl rfl

theorem nblocks (h : Frame fs fs') : fs'.nblocks = fs.nblocks := by
  rw [SfsFs.nblocks, h.super, SfsFs.nblocks]

theorem vnodeOf (h : Frame fs fs') (i : Nat) : fs'.vnodeOf i = fs.vnodeOf i := by
  simp only [SfsFs.vnodeOf, h.vnodes, h.ino]

theorem table (h : Frame fs fs') (ht : Table fs files) : Table fs' files := by
  refine ⟨?_, ?_, ?_, ?_, ?_⟩
  · rw [h.vnodes]
    exact ht.nodup
  · rw [h.vnodes, h.nextVnode]
    exact ht.fresh
  · simp only [h.vnodes, h.ino]
    exact ht.ino_inj
  · simp only [h.vnodes, h.ino]
    exact ht.ino_mem
  · simp only [h.vnodes, h.count]
    exact ht.refcount_pos

end Frame

section Changes

variable {t : Prop} {fs fs' : SfsFs} {files : Set Nat}

@[simp] theorem SfsFs.disk_store (b : Nat) (data : Sector) :
    (fs.store b data).disk = update fs.disk b data := rfl

@[simp] theorem SfsFs.heap_setInode_self (v : Nat) (n : SfsInode) :
    (fs.setInode v n).heap v = { fs.heap v with svI := n, svDirty := true } := by
  simp [setInode, setVnode]

variable {v i : Nat}

theorem SfsFs.heap_setInode_of_ne {w : Nat} (n : SfsInode) (h : w ≠ v) :
    (fs.setInode v n).heap w = fs.heap w := by
  simp [setInode, setVnode, update_of_ne h]

/-- A write to a block that is not the inode block of `i` leaves inode `i` alone. -/
theorem SfsFs.inode_store {b : Nat} (data : Sector) (h : i ≠ b) :
    (fs.store b data).inode i = fs.inode i := by
  have hv : (fs.store b data).vnodeOf i = fs.vnodeOf i := rfl
  rw [inode, inode, hv]
  cases fs.vnodeOf i with
  | some v => rfl
  | none =>
    rw [disk_store, update_of_ne h]

theorem Table.inode_setInode (h : Table fs files) (hv : v ∈ fs.sfsVnodes) (n : SfsInode) (i : Nat) :
    (fs.setInode v n).inode i = if i = (fs.heap v).svIno then n else fs.inode i := by
  have hvo := (Frame.setInode fs v n).vnodeOf i
  rw [SfsFs.inode, hvo]
  by_cases hi : i = (fs.heap v).svIno
  · rw [if_pos hi, hi, h.vnodeOf hv]
    simp
  · rw [if_neg hi, SfsFs.inode]
    cases hw : fs.vnodeOf i with
    | none => rfl
    | some w =>
      have hne : w ≠ v := fun hwv => hi (by rw [← (SfsFs.vnodeOf_eq_some hw).2, hwv])
      show ((fs.setInode v n).heap w).svI = _
      rw [SfsFs.heap_setInode_of_ne n hne]

/-- The references of an inode that did not change, with an indirect block that did not. -/
theorem SfsFs.refAt_congr (hi : fs'.inode i = fs.inode i) (hd : fs.refAt i .indirect ≠ 0 →
      fs'.disk (fs.refAt i .indirect) = fs.disk (fs.refAt i .indirect))
    (r : Slot) : fs'.refAt i r = fs.refAt i r := by
  rw [refAt, refAt, hi]
  cases r with
  | direct k => rfl
  | indirect => rfl
  | entry k =>
    by_cases h0 : (fs.inode i).sfiIndirect = 0
    · simp [SfsInode.ref, h0]
    · have hd' : fs'.disk (fs.inode i).sfiIndirect = fs.disk (fs.inode i).sfiIndirect := hd h0
      simp only [SfsInode.ref, if_neg h0, hd']

theorem SfsFs.refAt_entry_of_indirect (h : fs.refAt i .indirect = 0) (k : Fin 128) :
    fs.refAt i (.entry k) = 0 := SfsInode.ref_entry_of_zero h

/-- The volume with block `b` marked and cleared. -/
def SfsFs.alloc (fs : SfsFs) (b : Nat) : SfsFs := (fs.mark b).store b 0

theorem Frame.alloc (fs : SfsFs) (b : Nat) : Frame fs (fs.alloc b) :=
  (Frame.mark fs b).trans (Frame.store _ b 0)

namespace Wf

variable (h : Wf t fs files)

include h

variable {b : Nat}

/-- Allocating a block that was free touches no inode, ... -/
theorem alloc_inode (hb : b < fs.nblocks) (hf : fs.sfsFreemap.isset b = false) (hi : i ∈ files) :
    (fs.alloc b).inode i = fs.inode i := by
  have hne : i ≠ b := fun hib => h.free_not_file hb hf (hib ▸ hi)
  exact inode_store 0 hne

/-- ... and no reference. -/
theorem alloc_refAt (hb : b < fs.nblocks) (hf : fs.sfsFreemap.isset b = false) (hi : i ∈ files)
    (r : Slot) : (fs.alloc b).refAt i r = fs.refAt i r := by
  refine refAt_congr (h.alloc_inode hb hf hi) (fun _ => ?_) r
  show update fs.disk b 0 _ = _
  rw [update_of_ne (h.free_ne_ref hb hf hi .indirect)]

/-- **Change of a volume within a frame.**  What has to be checked when the disk, the free map
and the inodes change. -/
theorem of_frame (hfr : Frame fs fs') (hbits : fs'.sfsFreemap.nbits = fs.sfsFreemap.nbits)
    (hbeyond : ∀ b, fs.nblocks ≤ b → fs.sfsFreemap.isset b = true → fs'.sfsFreemap.isset b = true)
    (hzero : fs'.disk 0 = fs.disk 0)
    (hmap : fs'.sfsFreemapdirty = true ∨ (fs'.sfsFreemap = fs.sfsFreemap ∧
      fs'.sfsFreemapdirty = fs.sfsFreemapdirty ∧
      ∀ b, IsMapBlock fs.nblocks b → fs'.disk b = fs.disk b))
    (hinode : ∀ v ∈ fs.sfsVnodes, (fs'.heap v).svDirty = false →
      decodeInode (fs'.disk (fs.heap v).svIno) = (fs'.heap v).svI)
    (htyped : ∀ i ∈ files, (fs'.inode i).sfiType = (fs.inode i).sfiType)
    (hfits : ∀ i ∈ files, (fs'.inode i).Fits)
    (hsound : (fs'.ledger files).Sound)
    (htight : t → (fs'.ledger files).Tight fs.nblocks) : Wf t fs' files where
  reliable := fun n => by rw [hfr.outcome]; exact h.reliable n
  nblocks_le := by rw [hfr.nblocks, hfr.dBlocks]; exact h.nblocks_le
  nblocks_small := by rw [hfr.nblocks]; exact h.nblocks_small
  map_fits := by rw [hfr.nblocks]; exact h.map_fits
  nbits := by rw [hfr.nblocks, hbits]; exact h.nbits
  beyond := by
    rw [hfr.nblocks, hbits]
    exact fun b hb hlt => hbeyond b hb (h.beyond b hb hlt)
  table := hfr.table h.table
  backed := by
    refine ⟨by rw [hzero, hfr.super]; exact h.backed.super, by rw [hfr.super]; exact h.backed.magic,
      by rw [hfr.superdirty]; exact h.backed.superdirty, ?_, ?_⟩
    · intro hclean j hj k hk
      rw [hfr.nblocks] at hj
      rcases hmap with hd | ⟨hm, hd, hdisk⟩
      · rw [hclean] at hd
        exact absurd hd (by decide)
      · rw [hdisk _ ⟨by omega, by omega⟩, hm]
        exact h.backed.freemap (hd ▸ hclean) j hj k hk
    · intro v hv hd
      rw [hfr.ino]
      exact hinode v (hfr.vnodes ▸ hv) hd
  file_lt := by rw [hfr.nblocks]; exact h.file_lt
  file_pos := h.file_pos
  file_not_map := by rw [hfr.nblocks]; exact h.file_not_map
  typed := fun i hi => by rw [htyped i hi]; exact h.typed i hi
  fits := hfits
  sound := hsound
  tight := by rw [hfr.nblocks]; exact htight

end Wf

end Changes

end Os161
