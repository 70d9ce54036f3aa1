/-
# `kern/include/sfs.h` and the lower half of `sfs_vnode.c`: the mounted volume

`SfsFs` is `struct sfs_fs` together with the parts of the machine its code reaches: the
device, the memory the loaded vnodes live in (`heap`, addressed by `Nat`), and the values that
`random` and `kmalloc` will return.  The locks are left out: every modelled call runs under the
big lock, or is one step of an interleaving that is modelled as such.

The functions here are the ones that everything else is built from: block I/O on the volume,
allocation of blocks, and `sfs_bmap`, which maps a block of a file to a block of the disk.
-/
import Os161.Bitmap
import Os161.Vnode
import Os161.Sfs.Block
import Os161.Sfs.Format

namespace Os161

open Function

/-! ## 1. The state -/

/-- `struct sfs_vnode`. -/
structure SfsVnode where
  svV : Vnode
  svI : SfsInode
  svIno : Nat
  svDirty : Bool

/-- `struct sfs_buffer_cache`.  The two tags are C `int`s; -1 marks a free slot. -/
structure SfsBufferCache where
  cache : Sector
  inodeNo : Int
  blockNo : Int

/-- `BUFFER_SIZE`. -/
abbrev bufferSize : Nat := 64

/-- `struct sfs_fs`, and the machine around it. -/
structure SfsFs where
  sfsSuper : SfsSuper
  sfsSuperdirty : Bool
  sfsDevice : Lhd
  sfsVnodes : List Nat
  sfsFreemap : Bitmap
  sfsFreemapdirty : Bool
  sfsRcache : Fin bufferSize → SfsBufferCache
  /-- The memory of the vnodes, by address. -/
  heap : Nat → SfsVnode
  /-- The address `kmalloc` hands out next; addresses are not used again. -/
  nextVnode : Nat
  /-- Whether the allocations still to come succeed. -/
  kmallocOk : Nat → Bool
  /-- The values `random` still has to return. -/
  random : Nat → Nat

/-- A program over a mounted volume. -/
abbrev Sfs (α : Type) := Prog Errno SfsFs α

namespace SfsFs

/-- The number of blocks of the volume. -/
def nblocks (fs : SfsFs) : Nat := fs.sfsSuper.spNblocks

/-- The sectors of the disk. -/
def disk (fs : SfsFs) : Nat → Sector := fs.sfsDevice.disk

/-- The volume after block `b` was written. -/
def store (fs : SfsFs) (b : Nat) (data : Sector) : SfsFs :=
  { fs with sfsDevice := fs.sfsDevice.store b data }

/-- The volume with block `b` marked in use. -/
def mark (fs : SfsFs) (b : Nat) : SfsFs :=
  { fs with sfsFreemap := fs.sfsFreemap.set b, sfsFreemapdirty := true }

/-- The volume with the vnode at address `v` replaced. -/
def setVnode (fs : SfsFs) (v : Nat) (sv : SfsVnode) : SfsFs :=
  { fs with heap := update fs.heap v sv }

/-- The volume with another inode in the vnode at `v`, marked dirty. -/
def setInode (fs : SfsFs) (v : Nat) (n : SfsInode) : SfsFs :=
  fs.setVnode v { fs.heap v with svI := n, svDirty := true }

end SfsFs

/-- Run a program of the device. -/
def onDevice {α : Type} (m : Prog Errno Lhd α) : Sfs α :=
  zoom SfsFs.sfsDevice (fun fs d => { fs with sfsDevice := d }) m

/-- Run a program of the free map. -/
def onFreemap {α : Type} (m : Prog Errno Bitmap α) : Sfs α :=
  zoom SfsFs.sfsFreemap (fun fs b => { fs with sfsFreemap := b }) m

/-- Run a program on the counters of the vnode at `v`. -/
def onVnode {α : Type} (v : Nat) (m : Prog Errno Vnode α) : Sfs α :=
  zoom (fun fs => (fs.heap v).svV) (fun fs c => fs.setVnode v { fs.heap v with svV := c }) m

/-- The vnode at address `v`. -/
def vnodeAt (v : Nat) : Sfs SfsVnode := do
  let fs ← get
  pure (fs.heap v)

/-- Change the inode in the vnode at `v` and mark it dirty. -/
def modifyInode (v : Nat) (f : SfsInode → SfsInode) : Sfs Unit :=
  modify fun fs => fs.setInode v (f (fs.heap v).svI)

/-- Whether the next allocation of memory succeeds. -/
def kmalloc : Sfs Bool := do
  let fs ← get
  modify fun fs => { fs with kmallocOk := fun n => fs.kmallocOk (n + 1) }
  pure (fs.kmallocOk 0)

/-! ## 2. Blocks -/

/-- `sfs_clearblock`. -/
def sfsClearblock (block : Nat) : Sfs Unit := onDevice (sfsWblock 0 block)

/-- `sfs_sync_inode`. -/
def sfsSyncInode (v : Nat) : Sfs Unit := do
  let sv ← vnodeAt v
  if sv.svDirty then
    onDevice (sfsWblock (encodeInode sv.svI) sv.svIno)
    modify fun fs => fs.setVnode v { fs.heap v with svDirty := false }

/-- `sfs_balloc`. -/
def sfsBalloc : Sfs Nat := do
  let diskblock ← onFreemap bitmapAlloc
  modify fun fs => { fs with sfsFreemapdirty := true }
  let fs ← get
  assert (diskblock < fs.nblocks)
  sfsClearblock diskblock
  pure diskblock

/-- `sfs_bfree`. -/
def sfsBfree (diskblock : Nat) : Sfs Unit := do
  onFreemap (bitmapUnmark diskblock)
  modify fun fs => { fs with sfsFreemapdirty := true }

/-- `sfs_bused`. -/
def sfsBused (diskblock : Nat) : Sfs Bool := do
  let fs ← get
  assert (diskblock < fs.nblocks)
  pure (fs.sfsFreemap.isset diskblock)

/-! ## 3. `sfs_bmap` -/

/-- The last check of `sfs_bmap`: "Data block marked free". -/
def sfsCheckUsed (block : Nat) : Sfs Unit :=
  if block ≠ 0 then do
    let used ← sfsBused block
    assert (used = true)
  else pure ()

/-- `sfs_bmap` for one of the direct blocks. -/
def sfsBmapDirect (v : Nat) (fileblock : Fin 15) (doalloc : Bool) : Sfs Nat := do
  let sv ← vnodeAt v
  let block := sv.svI.sfiDirect fileblock
  let block ←
    if block = 0 ∧ doalloc = true then do
      let block ← sfsBalloc
      modifyInode v fun n => { n with sfiDirect := update n.sfiDirect fileblock block }
      pure block
    else pure block
  sfsCheckUsed block
  pure block

/-- The indirect block of the file and the words in it, allocating it if there is none. -/
def sfsBmapIdbuf (v : Nat) : Sfs (Nat × (Nat → Nat)) := do
  let sv ← vnodeAt v
  if sv.svI.sfiIndirect = 0 then do
    let idblock ← sfsBalloc
    modifyInode v fun n => { n with sfiIndirect := idblock }
    pure (idblock, fun _ => 0)
  else do
    let buf ← onDevice (sfsRblock sv.svI.sfiIndirect)
    pure (sv.svI.sfiIndirect, buf.word)

/-- `sfs_bmap` for a block behind the indirect block, at offset `idoff` of it. -/
def sfsBmapIndirect (v idoff : Nat) (doalloc : Bool) : Sfs Nat := do
  let sv ← vnodeAt v
  if sv.svI.sfiIndirect = 0 ∧ doalloc = false then pure 0
  else do
    let (idblock, idbuf) ← sfsBmapIdbuf v
    let block := idbuf idoff
    let block ←
      if block = 0 ∧ doalloc = true then do
        let block ← sfsBalloc
        onDevice (sfsWblock (Bytes.ofWords (update idbuf idoff block)) idblock)
        pure block
      else pure block
    sfsCheckUsed block
    pure block

/-- `sfs_bmap`. -/
def sfsBmap (v fileblock : Nat) (doalloc : Bool) : Sfs Nat :=
  if h : fileblock < sfsNdirect then
    sfsBmapDirect v ⟨fileblock, h⟩ doalloc
  else
    let fileblock := fileblock - sfsNdirect
    let idnum := fileblock / sfsDbperidb
    let idoff := fileblock % sfsDbperidb
    if idnum > 0 then fail .efbig
    else sfsBmapIndirect v idoff doalloc

end Os161
