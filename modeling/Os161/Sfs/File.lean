/-
# `sfs_read` and `sfs_write`

A transfer is cut at block boundaries.  Its whole blocks go straight between the uio and the disk
(`sfs_blockio`); a piece at either end that does not fill a block goes through the buffer cache
(`sfs_partialio`).  The cache has 64 slots, each tagged with an inode and a disk block, and
`sfs_partialio` treats a block in one of three ways:

* HIT: a slot has the tag, and the transfer is made with the slot alone;
* FILL: no slot has it but one is free, and the block is loaded into the first such slot;
* REPLACEMENT: the slot with number `random() % 64` is written back to the block of its tag and
  loaded with the new block, and its tag is LEFT AS IT WAS; the transfer is then made with the
  disk.

This file has the code, and one rule for each of the three functions that says everything a call
can do on a well-formed volume (`wp_partialio`, `wp_blockio`, `wp_ioBody`).  What follows for the
contents of files, for the cache and for the disk is taken from these rules.
-/
import Os161.Sfs.Reclaim

namespace Os161

open Function List

/-! ## 1. The code -/

/-- A program over a mounted volume and a uio. -/
abbrev SfsIo (α : Type) := Prog Errno (SfsFs × Uio) α

/-- The C conversion of a `uint32_t` to `int`. -/
def intOfU32 (n : Nat) : Int := if n < 2147483648 then n else n - 4294967296

/-- What the search through the cache comes to. -/
inductive CacheScan
  | hit (s : Fin 64)
  | free (s : Fin 64)
  | full

/-- The search through the cache, over the slots still to be looked at; `slot` is the first free
slot seen so far. -/
def scanSlots (rcache : Fin 64 → SfsBufferCache) (ino diskblock : Int) :
    List (Fin 64) → Option (Fin 64) → CacheScan
  | [], none => .full
  | [], some s => .free s
  | i :: rest, slot =>
    if (rcache i).inodeNo = ino ∧ (rcache i).blockNo = diskblock then .hit i
    else if slot = none ∧ (rcache i).inodeNo = -1 then scanSlots rcache ino diskblock rest (some i)
    else scanSlots rcache ino diskblock rest slot

/-- The search through the whole cache. -/
def scanCache (rcache : Fin 64 → SfsBufferCache) (ino diskblock : Nat) : CacheScan :=
  scanSlots rcache (intOfU32 ino) (intOfU32 diskblock) (List.finRange 64) none

namespace SfsFs

/-- The volume with slot `s` of the cache replaced. -/
def setSlot (fs : SfsFs) (s : Fin 64) (c : SfsBufferCache) : SfsFs :=
  { fs with sfsRcache := update fs.sfsRcache s c }

/-- The slot `random() % BUFFER_SIZE`. -/
def victim (fs : SfsFs) : Fin 64 := ⟨fs.random 0 % 64, Nat.mod_lt _ (by decide)⟩

/-- The volume after a call of `random`. -/
def nextRandom (fs : SfsFs) : SfsFs := { fs with random := fun n => fs.random (n + 1) }

end SfsFs

/-- The volume of a transfer. -/
def theFs : SfsIo SfsFs := do
  let s ← get
  pure s.1

/-- The uio of a transfer. -/
def theUio : SfsIo Uio := do
  let s ← get
  pure s.2

/-- `uiomove` between the uio and `len` bytes of a slot. -/
def uiomoveSlot (s : Fin 64) (skipstart len : Nat) : SfsIo Unit := do
  let fs ← theFs
  let cache := (fs.sfsRcache s).cache
  let buf ← onSnd (uiomove (cache.slice skipstart len))
  modify fun st =>
    (st.1.setSlot s { st.1.sfsRcache s with cache := cache.splice skipstart buf }, st.2)

/-- The end of `sfs_partialio`: the transfer with `iobuf`, which is written back after a write. -/
def uiomoveIobuf (iobuf : Sector) (diskblock skipstart len : Nat) : SfsIo Unit := do
  let buf ← onSnd (uiomove (iobuf.slice skipstart len))
  let uio ← theUio
  if uio.uioRw = .write then
    onFst (onDevice (sfsWblock (iobuf.splice skipstart buf) diskblock))

/-- `sfs_partialio`, the replacement of a slot. -/
def sfsReplace (diskblock skipstart len : Nat) : SfsIo Unit := do
  let fs ← theFs
  let s := fs.victim
  onFst (modify SfsFs.nextRandom)
  -- Flush the buffer from a random slot; the result is not looked at
  let _ ← attempt (onFst (onDevice
    (sfsWblock (fs.sfsRcache s).cache (u32OfInt (fs.sfsRcache s).blockNo))))
  let buf ← onFst (onDevice (sfsRblock diskblock))
  onFst (modify fun fs => fs.setSlot s { fs.sfsRcache s with cache := buf })
  let iobuf ← onFst (onDevice (sfsRblock diskblock))
  uiomoveIobuf iobuf diskblock skipstart len

/-- `sfs_partialio` on a block of the disk: the way through the cache. -/
def cachedio (v diskblock skipstart len : Nat) : SfsIo Unit := do
  let fs ← theFs
  match scanCache fs.sfsRcache (fs.heap v).svIno diskblock with
  | .hit s => uiomoveSlot s skipstart len
  | .free s => do
    -- a read that fails leaves the slot as it is, and is not noticed
    let result ← attempt (onFst (onDevice (sfsRblock diskblock)))
    let cache := match result with
      | .ok buf => buf
      | .error _ => (fs.sfsRcache s).cache
    onFst (modify fun fs' => fs'.setSlot s ⟨cache, intOfU32 (fs.heap v).svIno, intOfU32 diskblock⟩)
    uiomoveSlot s skipstart len
  | .full => sfsReplace diskblock skipstart len

/-- `sfs_partialio`. -/
def sfsPartialio (v skipstart len : Nat) : SfsIo Unit := do
  let uio ← theUio
  assert (skipstart + len ≤ sectSize)
  let fileblock := u32 (uio.uioOffset / sectSize)
  let diskblock ← onFst (sfsBmap v fileblock (decide (uio.uioRw = .write)))
  if diskblock = 0 then do
    assert (uio.uioRw = .read)
    uiomoveIobuf 0 diskblock skipstart len
  else cachedio v diskblock skipstart len

/-- Run `sfs_rwblock` on the device of the volume and the uio. -/
def onDeviceUio (m : Prog Errno (Lhd × Uio) Unit) : SfsIo Unit :=
  zoom (fun st => (st.1.sfsDevice, st.2)) (fun st x => ({ st.1 with sfsDevice := x.1 }, x.2)) m

/-- The byte offset of a block that `sfs_blockio` gives to the device: the product of a `uint32_t`
and an `int`. -/
abbrev blockioOffset (diskblock : Nat) : Nat := u32 (diskblock * sectSize)

/-- `sfs_blockio` on a block of the disk: the uio is lent to the device. -/
def lentio (diskblock : Nat) : SfsIo Unit := do
  let uio ← theUio
  let diskoff := blockioOffset diskblock
  modify fun st => (st.1, { st.2 with uioOffset := diskoff, uioResid := sectSize })
  let result ← attempt (onDeviceUio sfsRwblock)
  -- restore the offset and the residue, and update them by the amount of I/O done
  modify fun st => (st.1, { st.2 with
    uioOffset := st.2.uioOffset + uio.uioOffset - diskoff
    uioResid := st.2.uioResid + uio.uioResid - sectSize })
  ofResult result

/-- `sfs_blockio`. -/
def sfsBlockio (v : Nat) : SfsIo Unit := do
  let uio ← theUio
  let fileblock := u32 (uio.uioOffset / sectSize)
  let diskblock ← onFst (sfsBmap v fileblock (decide (uio.uioRw = .write)))
  if diskblock = 0 then do
    assert (uio.uioRw = .read)
    onSnd (uiomovezeros sectSize)
  else do
    assert (sectSize ≤ uio.uioResid)
    lentio diskblock

/-- The pieces of a transfer after the leading partial block. -/
def sfsIoAligned (v : Nat) : SfsIo Unit := do
  let uio ← theUio
  if uio.uioResid = 0 then pure ()
  else do
    assert (uio.uioOffset % sectSize = 0)
    times (sfsBlockio v) (uio.uioResid / sectSize)
    let uio ← theUio
    assert (uio.uioResid < sectSize)
    if 0 < uio.uioResid then sfsPartialio v 0 uio.uioResid

/-- The pieces of a transfer: the part of `sfs_io` that `goto out` leaves. -/
def sfsIoBody (v : Nat) : SfsIo Unit := do
  let uio ← theUio
  let blkoff := uio.uioOffset % sectSize
  if blkoff ≠ 0 then sfsPartialio v blkoff (min (sectSize - blkoff) uio.uioResid)
  sfsIoAligned v

/-- How much of a read lies past the end of a file of the given size. -/
def extraresid (uio : Uio) (size : Nat) : Nat :=
  match uio.uioRw with
  | .read => uio.uioOffset + uio.uioResid - size
  | .write => 0

/-- The end of `sfs_io`, at `out`. -/
def sfsIoOut (v extra : Nat) (result : Except Errno Unit) : SfsIo Unit := do
  let fs ← theFs
  let uio ← theUio
  -- If writing, adjust file length
  if uio.uioRw = .write ∧ (fs.heap v).svI.sfiSize < uio.uioOffset then
    onFst (modifyInode v fun n => { n with sfiSize := u32 uio.uioOffset })
  modify fun st => (st.1, { st.2 with uioResid := st.2.uioResid + extra })
  ofResult result

/-- `sfs_io`. -/
def sfsIo (v : Nat) : SfsIo Unit := do
  let fs ← theFs
  let uio ← theUio
  let size := (fs.heap v).svI.sfiSize
  if uio.uioRw = .read ∧ size ≤ uio.uioOffset then pure ()
  else do
    let extra := extraresid uio size
    assert (extra = 0 ∨ extra < uio.uioResid)
    modify fun st => (st.1, { st.2 with uioResid := st.2.uioResid - extra })
    let result ← attempt (sfsIoBody v)
    sfsIoOut v extra result

/-- `sfs_read`. -/
def sfsRead (v : Nat) : SfsIo Unit := do
  let uio ← theUio
  assert (uio.uioRw = .read)
  sfsIo v

/-- `sfs_write`. -/
def sfsWrite (v : Nat) : SfsIo Unit := do
  let uio ← theUio
  assert (uio.uioRw = .write)
  sfsIo v

/-! ## 2. The search through the cache -/

section Cache

variable {rc : Fin 64 → SfsBufferCache} {ino b : Nat}

/-- The slot has the tag of block `b` of inode `ino`. -/
def SfsBufferCache.Tagged (c : SfsBufferCache) (ino b : Nat) : Prop :=
  c.inodeNo = intOfU32 ino ∧ c.blockNo = intOfU32 b

instance (c : SfsBufferCache) (ino b : Nat) : Decidable (c.Tagged ino b) :=
  inferInstanceAs (Decidable (_ ∧ _))

/-- The first slot with the tag. -/
def slotOf (rc : Fin 64 → SfsBufferCache) (ino b : Nat) : Option (Fin 64) :=
  (List.finRange 64).find? fun s => (rc s).Tagged ino b

/-- The first free slot. -/
def freeSlot (rc : Fin 64 → SfsBufferCache) : Option (Fin 64) :=
  (List.finRange 64).find? fun s => (rc s).inodeNo = -1

theorem scanSlots_eq : ∀ (l : List (Fin 64)) (slot : Option (Fin 64)),
    scanSlots rc (intOfU32 ino) (intOfU32 b) l slot =
      match l.find? (fun s => (rc s).Tagged ino b) with
      | some s => .hit s
      | none =>
        match slot.or (l.find? fun s => (rc s).inodeNo = -1) with
        | some s => .free s
        | none => .full
  | [], none => rfl
  | [], some s => rfl
  | i :: rest, slot => by
    rw [scanSlots]
    by_cases htag : (rc i).Tagged ino b
    · have hcond : (rc i).inodeNo = intOfU32 ino ∧ (rc i).blockNo = intOfU32 b := htag
      rw [if_pos hcond, find?_cons_of_pos (by simpa using htag)]
    · have hcond : ¬ ((rc i).inodeNo = intOfU32 ino ∧ (rc i).blockNo = intOfU32 b) := htag
      rw [if_neg hcond, find?_cons_of_neg (by simpa using htag), scanSlots_eq rest,
        scanSlots_eq rest]
      by_cases hfree : (rc i).inodeNo = -1
      · rw [find?_cons_of_pos (by simpa using hfree)]
        cases slot with
        | none => rw [if_pos ⟨rfl, hfree⟩]; rfl
        | some s => rw [if_neg (by simp)]; rfl
      · rw [if_neg (fun h => hfree h.2), find?_cons_of_neg (by simpa using hfree)]

theorem scanCache_eq : scanCache rc ino b =
    match slotOf rc ino b with
    | some s => .hit s
    | none =>
      match freeSlot rc with
      | some s => .free s
      | none => .full := scanSlots_eq _ _

variable {s : Fin 64}

theorem tagged_of_slotOf (h : slotOf rc ino b = some s) : (rc s).Tagged ino b := by
  simpa using find?_some h

theorem slotOf_eq_none : slotOf rc ino b = none ↔ ∀ s, ¬ (rc s).Tagged ino b := by
  simp [slotOf, find?_eq_none]

theorem free_of_freeSlot (h : freeSlot rc = some s) : (rc s).inodeNo = -1 := by
  simpa using find?_some h

theorem freeSlot_eq_none : freeSlot rc = none ↔ ∀ s, (rc s).inodeNo ≠ -1 := by
  simp [freeSlot, find?_eq_none]

theorem freeSlot_eq_some (hs : (rc s).inodeNo = -1) (hlt : ∀ s' < s, (rc s').inodeNo ≠ -1) :
    freeSlot rc = some s := by
  refine find?_eq_some_iff_getElem.mpr ⟨by simpa using hs, s.val, by simp, by simp, ?_⟩
  intro j hj
  simpa using hlt ⟨j, by omega⟩ hj

end Cache

/-! ## 3. One piece that does not fill its block -/

/-- What a transfer makes of a block: a read leaves it alone, a write puts in the bytes of the
iovec. -/
def Uio.patch (u : Uio) (iov : List Byte) (skip len : Nat) (b : Sector) : Sector :=
  match u.uioRw with
  | .read => b
  | .write => b.splice skip (iov.take len)

namespace SfsFs

variable (fs : SfsFs) (u : Uio) (iov : List Byte) (skip len : Nat)

/-- The volume after a hit on slot `s`. -/
def hit (s : Fin 64) : SfsFs :=
  fs.setSlot s { fs.sfsRcache s with cache := u.patch iov skip len (fs.sfsRcache s).cache }

/-- The volume after block `b` of inode `ino` was loaded into slot `s`. -/
def fill (ino b : Nat) (s : Fin 64) : SfsFs :=
  fs.setSlot s ⟨u.patch iov skip len (fs.disk b), intOfU32 ino, intOfU32 b⟩

theorem sfsRcache_fill_self (ino b : Nat) (s : Fin 64) :
    (fs.fill u iov skip len ino b s).sfsRcache s =
      ⟨u.patch iov skip len (fs.disk b), intOfU32 ino, intOfU32 b⟩ := update_self _ _ _

theorem sfsRcache_fill_of_ne (ino b : Nat) {s s' : Fin 64} (h : s' ≠ s) :
    (fs.fill u iov skip len ino b s).sfsRcache s' = fs.sfsRcache s' := update_of_ne h _ _

/-- The volume after the victim was written back. -/
def flush : SfsFs :=
  fs.nextRandom.store (u32OfInt (fs.sfsRcache fs.victim).blockNo) (fs.sfsRcache fs.victim).cache

/-- The volume after the victim was replaced by block `b`.  Its tag stays. -/
def evicted (b : Nat) : SfsFs :=
  fs.flush.setSlot fs.victim { fs.sfsRcache fs.victim with cache := fs.flush.disk b }

/-- The volume after a transfer by replacement. -/
def replace (b : Nat) : SfsFs :=
  match u.uioRw with
  | .read => fs.evicted b
  | .write => (fs.evicted b).store b ((fs.flush.disk b).splice skip (iov.take len))

end SfsFs

/-- **The three ways through the cache.**  From `fs`, with block `b` of inode `ino`; the last two
arguments are the volume afterwards and the bytes the transfer is made with. -/
inductive CacheStep (u : Uio) (iov : List Byte) (skip len ino b : Nat) (fs : SfsFs) :
    SfsFs → List Byte → Prop
  | hit {s : Fin 64} (hs : slotOf fs.sfsRcache ino b = some s) :
    CacheStep u iov skip len ino b fs (fs.hit u iov skip len s)
      ((fs.sfsRcache s).cache.slice skip len)
  | fill {s : Fin 64} (hno : slotOf fs.sfsRcache ino b = none)
    (hs : freeSlot fs.sfsRcache = some s) :
    CacheStep u iov skip len ino b fs (fs.fill u iov skip len ino b s) ((fs.disk b).slice skip len)
  | replace (hno : slotOf fs.sfsRcache ino b = none) (hfull : freeSlot fs.sfsRcache = none) :
    CacheStep u iov skip len ino b fs (fs.replace u iov skip len b)
      ((fs.flush.disk b).slice skip len)

section Partial

variable {t p : Prop} {fs : SfsFs} {files : Set Nat} {v : Nat} {u : Uio} {iov : List Byte}
  {skip len : Nat}

theorem uiomove_window (hk : u.Kernel iov) (hv : len ≤ iov.length) (hr : len ≤ u.uioResid)
    (b : Sector) :
    Wp p (uiomove (b.slice skip len)) (fun buf u' => b.splice skip buf = u.patch iov skip len b ∧
        u' = u.advance len (u.outOf (b.slice skip len))) (fun _ _ => False) u := by
  have hlen : (b.slice skip len).length = len := b.length_slice skip len
  refine (uiomove_kernel hk (hlen.symm ▸ hv) (hlen.symm ▸ hr)).post ?_
  rintro _ _ ⟨rfl, rfl⟩
  refine ⟨?_, by rw [hlen]⟩
  rw [Uio.bufOf, Uio.patch, hlen]
  cases u.uioRw with
  | read => exact b.splice_slice skip len
  | write => rfl

variable {Q : Unit → SfsFs × Uio → Prop} {E : Errno → SfsFs × Uio → Prop} {b : Nat}

theorem wp_uiomoveSlot {s : Fin 64} (hk : u.Kernel iov) (hv : len ≤ iov.length)
    (hr : len ≤ u.uioResid)
    (hQ : Q () (fs.hit u iov skip len s, u.advance len
      (u.outOf ((fs.sfsRcache s).cache.slice skip len)))) :
    Wp p (uiomoveSlot s skip len) Q E (fs, u) := by
  simp only [uiomoveSlot, theFs, wp_bind, wp_get, wp_pure, wp_onSnd, wp_modify]
  refine (uiomove_window hk hv hr _).post_ok ?_
  rintro _ _ ⟨hbuf, rfl⟩
  rw [hbuf]
  exact hQ

theorem wp_uiomoveIobuf {iobuf : Sector} (hk : u.Kernel iov) (hv : len ≤ iov.length)
    (hr : len ≤ u.uioResid) (hd : fs.sfsDevice.Reliable) (hb : b < fs.sfsDevice.dBlocks)
    (hread : u.uioRw = .read → Q () (fs, u.advance len (iobuf.slice skip len)))
    (hwrite : u.uioRw = .write → Q () (fs.store b (iobuf.splice skip (iov.take len)),
      u.advance len [])) :
    Wp p (uiomoveIobuf iobuf b skip len) Q E (fs, u) := by
  simp only [uiomoveIobuf, theUio, wp_bind, wp_get, wp_pure, wp_onSnd]
  refine (uiomove_window hk hv hr _).post_ok ?_
  rintro _ _ ⟨hbuf, rfl⟩
  rw [Uio.advance_rw, hbuf]
  cases hrw : u.uioRw with
  | read =>
    rw [if_neg (by decide), wp_pure, Uio.outOf, hrw]
    exact hread hrw
  | write =>
    rw [if_pos rfl, wp_onFst, Uio.outOf, Uio.patch, hrw]
    exact wp_wblock hd hb (hwrite hrw)

theorem Frame.victim {fs' : SfsFs} (h : Frame fs fs') : fs'.victim = fs.victim := by
  simp only [SfsFs.victim, h.random]

theorem wp_replace (hk : u.Kernel iov) (hv : len ≤ iov.length) (hr : len ≤ u.uioResid)
    (hd : fs.sfsDevice.Reliable) (hb : b < fs.sfsDevice.dBlocks)
    (hvictim : u32OfInt (fs.sfsRcache fs.victim).blockNo < fs.sfsDevice.dBlocks)
    (hQ : Q () (fs.replace u iov skip len b, u.advance len
      (u.outOf ((fs.flush.disk b).slice skip len)))) :
    Wp p (sfsReplace b skip len) Q E (fs, u) := by
  simp only [sfsReplace, theFs, wp_bind, wp_get, wp_pure, wp_onFst, wp_modify, wp_attempt]
  have hflush : fs.flush.sfsDevice.Reliable := hd
  have hevicted : (fs.evicted b).sfsDevice.Reliable := hd
  refine wp_wblock (show fs.nextRandom.sfsDevice.Reliable from hd) hvictim ?_
  refine wp_rblock hflush hb ?_
  refine wp_rblock hevicted hb ?_
  refine wp_uiomoveIobuf hk hv hr hevicted hb ?_ ?_ <;>
  · intro hrw
    rw [SfsFs.replace, Uio.outOf, hrw] at hQ
    exact hQ

theorem u32_fileblock (hoff : u.uioOffset < 4294967296) :
    u32 (u.uioOffset / sectSize) = u.uioOffset / 512 :=
  u32_of_lt (lt_of_le_of_lt (Nat.div_le_self _ _) hoff)

/-- Nothing is mapped: only a read gets that, and it changed nothing. -/
theorem BmapOk.unmapped {i fb : Nat} {fs₁ : SfsFs}
    (h : BmapOk t files fs i fb (decide (u.uioRw = .write)) 0 fs₁) :
    u.uioRw = .read ∧ fs₁ = fs := by
  cases hrw : u.uioRw with
  | read => exact ⟨rfl, h.still (.inl (by simp [hrw]))⟩
  | write => exact absurd rfl (h.mapped (by simp [hrw]))

/-- **What `sfs_partialio` can do** on a well-formed volume with a kernel uio: fail in `sfs_bmap`,
hand out zeros for a block that is not there, or map the block and go one of the three ways
through the cache.  A replacement needs the victim's tag to name a block of the disk. -/
theorem wp_partialio (hw : Wf t fs files) (hv : v ∈ fs.sfsVnodes) (hk : u.Kernel iov)
    (hiov : len ≤ iov.length) (hr : len ≤ u.uioResid) (hskip : skip + len ≤ 512)
    (hoff : u.uioOffset < 4294967296)
    (hvictim : ∀ b fs₁, b ≠ 0 → BmapOk t files fs (fs.heap v).svIno (u.uioOffset / 512)
      (decide (u.uioRw = .write)) b fs₁ → slotOf fs.sfsRcache (fs.heap v).svIno b = none →
      freeSlot fs.sfsRcache = none → u32OfInt (fs.sfsRcache fs.victim).blockNo <
      fs.sfsDevice.dBlocks)
    (herr : ∀ e fs', BmapErr t files fs (fs.heap v).svIno (u.uioOffset / 512)
      (decide (u.uioRw = .write)) e fs' → E e (fs', u))
    (hzero : u.uioRw = .read → fs.dataRef (fs.heap v).svIno (u.uioOffset / 512) = 0 →
      Q () (fs, u.advance len (replicate len 0)))
    (hmap : ∀ b fs₁ fs' out, b ≠ 0 → BmapOk t files fs (fs.heap v).svIno (u.uioOffset / 512)
      (decide (u.uioRw = .write)) b fs₁ → CacheStep u iov skip len (fs.heap v).svIno b fs₁ fs' out →
      Q () (fs', u.advance len (u.outOf out))) :
    Wp False (sfsPartialio v skip len) Q E (fs, u) := by
  simp only [sfsPartialio, theUio, wp_bind, wp_get, wp_pure, wp_assert, wp_onFst,
    u32_fileblock hoff]
  refine ⟨fun _ => ?_, fun h => h hskip⟩
  refine (sfsBmap_spec hw hv _ _).imp (fun b fs₁ hok => ?_) herr
  have hfr := hok.grows.frame
  by_cases hb0 : b = 0
  · subst hb0
    obtain ⟨hread, rfl⟩ := hok.unmapped
    simp only [if_pos, wp_bind, wp_assert_of hread]
    refine wp_uiomoveIobuf hk hiov hr hw.reliable ?_ (fun hrw => ?_)
      (fun hrw => absurd (hread.symm.trans hrw) (by decide))
    · have := hw.map_fits
      have := hw.nblocks_le
      simp only [sfsMapLocation] at *
      omega
    · rw [show (0 : Sector).slice skip len = replicate len 0 by
        simp [Bytes.slice, map_const']]
      exact hzero hrw hok.block.symm
  · have hi : (fs₁.heap v).svIno = (fs.heap v).svIno := hfr.ino v
    have hmem : (fs.heap v).svIno ∈ files := hw.table.ino_mem v hv
    have hb : b < fs₁.sfsDevice.dBlocks :=
      hok.wf.block_lt (hok.block ▸ hok.wf.dataRef_lt hmem (hok.block ▸ hb0))
    have hd := hok.wf.reliable
    simp only [if_neg hb0, cachedio, theFs, wp_bind, wp_get, wp_pure, hi, scanCache_eq]
    have hgo := fun fs' out => hmap b fs₁ fs' out hb0 hok
    cases hs : slotOf fs₁.sfsRcache (fs.heap v).svIno b with
    | some s => exact wp_uiomoveSlot hk hiov hr (hgo _ _ (.hit hs))
    | none =>
      cases hf : freeSlot fs₁.sfsRcache with
      | some s =>
        simp only [wp_bind, wp_attempt, wp_onFst, wp_modify]
        refine wp_rblock hd hb ?_
        refine wp_uiomoveSlot hk hiov hr ?_
        have hfill := hgo _ _ (.fill hs hf)
        simpa [SfsFs.fill, SfsFs.hit, SfsFs.setSlot] using hfill
      | none =>
        refine wp_replace hk hiov hr hd hb ?_ (hgo _ _ (.replace hs hf))
        rw [hfr.victim, hfr.rcache, hfr.dBlocks]
        exact hvictim b fs₁ hb0 hok (hfr.rcache ▸ hs) (hfr.rcache ▸ hf)

end Partial

/-! ## 4. One whole block -/

section Whole

variable {t p : Prop} {fs : SfsFs} {files : Set Nat} {v : Nat} {u : Uio} {iov : List Byte}

theorem Uio.lend_advance {n : Nat} (out : List Byte) (hr : 512 ≤ u.uioResid) :
    { ({ u with uioOffset := n, uioResid := 512 } : Uio).advance 512 out with
      uioOffset := n + 512 + u.uioOffset - n
      uioResid := 512 - 512 + u.uioResid - 512 } = u.advance 512 out := by
  have h1 : n + 512 + u.uioOffset - n = u.uioOffset + 512 := by omega
  have h2 : 512 - 512 + u.uioResid - 512 = u.uioResid - 512 := by omega
  rw [h1, h2]
  rfl

/-- `sfs_rwblock` on a reliable device, with a kernel uio for one block. -/
theorem sfsRwblock_reliable {d : Lhd} {b : Nat} (hd : d.Reliable) (hk : u.Kernel iov)
    (hiov : 512 ≤ iov.length) (hoff : u.uioOffset = b * 512) (hr : u.uioResid = 512)
    (hb : b < d.dBlocks) :
    Wp p sfsRwblock (fun _ st => (u.uioRw = .read ∧ st = (d, u.advance 512 (d.disk b).toList)) ∨
        (u.uioRw = .write ∧ st = (d.store b (Bytes.ofList (iov.take 512)), u.advance 512 [])))
      (fun _ _ => False) (d, u) := by
  cases hrw : u.uioRw with
  | read =>
    refine sfsRwblockLoop_ok (lhdIo_one hoff hr hb ?_)
    rw [hrw]
    refine (lhdSector_read_spec hk hiov hr.ge hb hrw).imp ?_ ?_
    · rintro _ _ ⟨-, rfl⟩
      exact .inl ⟨rfl, by rw [hd.next_eq]⟩
    · rintro _ _ ⟨h0, -, -⟩
      exact absurd (hd 0) (by simp [h0])
  | write =>
    refine (sfsRwblock_write_spec hk hrw hiov hoff hr hb).post ?_
    rintro _ _ rfl
    refine .inr ⟨rfl, ?_⟩
    rw [if_pos (hd 0), (hd.store _ _).next_eq]

/-- **What `sfs_blockio` can do**: fail in `sfs_bmap`, hand out zeros for a block that is not
there, hand out the block as it is on disk, or map the block and overwrite it on disk.  The cache
plays no part in it. -/
theorem wp_blockio {Q : Unit → SfsFs × Uio → Prop} {E : Errno → SfsFs × Uio → Prop}
    (hw : Wf t fs files) (hv : v ∈ fs.sfsVnodes) (hk : u.Kernel iov) (hiov : 512 ≤ iov.length)
    (hr : 512 ≤ u.uioResid) (hoff : u.uioOffset < 4294967296)
    (herr : ∀ e fs', BmapErr t files fs (fs.heap v).svIno (u.uioOffset / 512)
      (decide (u.uioRw = .write)) e fs' → E e (fs', u))
    (hzero : u.uioRw = .read → fs.dataRef (fs.heap v).svIno (u.uioOffset / 512) = 0 →
      Q () (fs, u.advance 512 (replicate 512 0)))
    (hread : ∀ b, u.uioRw = .read → b ≠ 0 → b = fs.dataRef (fs.heap v).svIno (u.uioOffset / 512) →
      Q () (fs, u.advance 512 (fs.disk b).toList))
    (hwrite : ∀ b fs₁, u.uioRw = .write → b ≠ 0 →
      BmapOk t files fs (fs.heap v).svIno (u.uioOffset / 512) true b fs₁ →
      Q () (fs₁.store b (Bytes.ofList (iov.take 512)), u.advance 512 [])) :
    Wp False (sfsBlockio v) Q E (fs, u) := by
  simp only [sfsBlockio, theUio, wp_bind, wp_get, wp_pure, wp_onFst, u32_fileblock hoff]
  refine (sfsBmap_spec hw hv _ _).imp (fun b fs₁ hok => ?_) herr
  by_cases hb0 : b = 0
  · subst hb0
    obtain ⟨hrw, rfl⟩ := hok.unmapped
    simp only [if_pos, wp_bind, wp_assert, wp_onSnd]
    refine ⟨fun _ => ?_, fun h => h hrw⟩
    refine (uiomovezeros_kernel hk hrw hiov hr).post_ok ?_
    rintro _ _ rfl
    exact hzero hrw hok.block.symm
  · have hmem : (fs.heap v).svIno ∈ files := hw.table.ino_mem v hv
    have hbn : b < fs₁.nblocks := hok.block ▸ hok.wf.dataRef_lt hmem (hok.block ▸ hb0)
    have hdo : blockioOffset b = b * 512 := u32_of_lt (by
      have := hok.wf.nblocks_small
      show b * 512 < 4294967296
      omega)
    simp only [if_neg hb0, lentio, theUio, hdo, wp_bind, wp_assert, wp_get, wp_pure, wp_modify,
      wp_attempt, onDeviceUio, wp_zoom]
    refine ⟨fun _ => ?_, fun h => h hr⟩
    refine (sfsRwblock_reliable (u := { u with uioOffset := b * 512, uioResid := 512 })
      hok.wf.reliable ⟨hk.iov, hk.seg⟩ hiov rfl rfl (hok.wf.block_lt hbn)).post_ok ?_
    rintro _ _ (⟨hrw, rfl⟩ | ⟨hrw, rfl⟩)
    · obtain rfl : fs₁ = fs := hok.still (.inl (by simp [show u.uioRw = .read from hrw]))
      rw [wp_ofResult_ok]
      have hgo := hread b hrw hb0 hok.block
      rw [← Uio.lend_advance (n := b * 512) _ hr] at hgo
      exact hgo
    · have hrw : u.uioRw = .write := hrw
      rw [wp_ofResult_ok]
      have hgo := hwrite b fs₁ hrw hb0 (by simpa [hrw] using hok)
      rw [← Uio.lend_advance (n := b * 512) _ hr] at hgo
      exact hgo

end Whole

/-! ## 5. A whole transfer -/

/-- The states of a uio along a transfer of `len` bytes from offset `off` on: `U n` is the uio
after `n` of them. -/
structure Stream (U : Nat → Uio) (off len : Nat) : Prop where
  offset : ∀ n, (U n).uioOffset = off + n
  resid : ∀ n, (U n).uioResid = len - n

/-- A piece of a transfer that goes through the cache: the bytes from `n` to `n + l`, which lie in
one block from position `skip` on.  It is the first piece, or what is left for the last. -/
structure IsPartial (off len n l skip : Nat) : Prop where
  pos : (off + n) % 512 = skip
  inside : skip + l ≤ 512
  le : n + l ≤ len
  ends : (n = 0 ∧ skip ≠ 0 ∧ l = min (512 - skip) len) ∨ (skip = 0 ∧ 0 < l ∧ l < 512 ∧ n + l = len)

section Io

variable {p : Prop} {fs : SfsFs} {v off len : Nat} {U : Nat → Uio}

variable {I : Nat → SfsFs → Prop} {F : Nat → Errno → SfsFs → Prop}

/-- The rule for a piece through the cache: `I n` is what holds of the volume after `n` bytes, and
`F n` what holds if the piece that starts there fails. -/
def PartialRule (p : Prop) (v off len : Nat) (U : Nat → Uio) (I : Nat → SfsFs → Prop)
    (F : Nat → Errno → SfsFs → Prop) : Prop :=
  ∀ n l skip fs, I n fs → IsPartial off len n l skip →
    Wp p (sfsPartialio v skip l) (fun _ st => I (n + l) st.1 ∧ st.2 = U (n + l))
      (fun e st => F n e st.1 ∧ st.2 = U n) (fs, U n)

/-- The rule for a whole block. -/
def BlockRule (p : Prop) (v off len : Nat) (U : Nat → Uio) (I : Nat → SfsFs → Prop)
    (F : Nat → Errno → SfsFs → Prop) : Prop :=
  ∀ n fs, I n fs → (off + n) % 512 = 0 → n + 512 ≤ len →
    Wp p (sfsBlockio v) (fun _ st => I (n + 512) st.1 ∧ st.2 = U (n + 512))
      (fun e st => F n e st.1 ∧ st.2 = U n) (fs, U n)

/-- The whole blocks and the last piece, from an aligned position on. -/
theorem wp_ioAligned (hU : Stream U off len) (hpart : PartialRule p v off len U I F)
    (hblock : BlockRule p v off len U I F) {n : Nat} (hI : I n fs) (hn : n ≤ len)
    (hal : n = len ∨ (off + n) % 512 = 0) :
    Wp p (sfsIoAligned v) (fun _ st => I len st.1 ∧ st.2 = U len)
      (fun e st => ∃ n, n ≤ len ∧ F n e st.1 ∧ st.2 = U n) (fs, U n) := by
  simp only [sfsIoAligned, theUio, wp_bind, wp_get, wp_pure, hU.resid]
  by_cases hdone : len - n = 0
  · rw [if_pos hdone, wp_pure]
    obtain rfl : n = len := by omega
    exact ⟨hI, rfl⟩
  have hal : (off + n) % 512 = 0 := hal.resolve_left (by omega)
  simp only [if_neg hdone, wp_bind, wp_assert, hU.offset]
  refine ⟨fun _ => ?_, fun h => absurd hal h⟩
  -- one round of the loop is one block further
  refine (wp_times (fun m st => ∃ n', I n' st.1 ∧ st.2 = U n' ∧
    n' + 512 * m = n + 512 * ((len - n) / 512)) ?_ _ _ ⟨n, hI, rfl, rfl⟩).post ?_
  · rintro m ⟨fs', u'⟩ ⟨n', hI', hu', hm⟩
    obtain rfl : u' = U n' := hu'
    refine (hblock n' fs' hI' (by omega) (by omega)).imp ?_ ?_
    · rintro _ st ⟨h1, h2⟩
      exact ⟨n' + 512, h1, h2, by omega⟩
    · rintro e st ⟨h1, h2⟩
      exact ⟨n', by omega, h1, h2⟩
  · rintro _ ⟨fs', u'⟩ ⟨n', hI', hu', hm⟩
    obtain rfl : u' = U n' := hu'
    simp only [wp_get, wp_pure, hU.resid]
    refine ⟨fun hlt => ?_, fun h => absurd (show len - n' < 512 by omega) h⟩
    by_cases hpos : 0 < len - n'
    · rw [if_pos hpos]
      have hlen : n' + (len - n') = len := by omega
      have hlt : len - n' < 512 := hlt
      refine (hpart n' (len - n') 0 fs' hI' ⟨by omega, by omega, by omega,
        .inr ⟨rfl, hpos, hlt, hlen⟩⟩).imp ?_ ?_
      · intro _ st h
        rwa [hlen] at h
      · rintro e st ⟨h1, h2⟩
        exact ⟨n', by omega, h1, h2⟩
    · rw [if_neg hpos, wp_pure]
      obtain rfl : n' = len := by omega
      exact ⟨hI', rfl⟩

/-- **Rule for the pieces of a transfer.** -/
theorem wp_ioBody (hU : Stream U off len) (hpart : PartialRule p v off len U I F)
    (hblock : BlockRule p v off len U I F) (h0 : I 0 fs) :
    Wp p (sfsIoBody v) (fun _ st => I len st.1 ∧ st.2 = U len)
      (fun e st => ∃ n, n ≤ len ∧ F n e st.1 ∧ st.2 = U n) (fs, U 0) := by
  simp only [sfsIoBody, theUio, wp_bind, wp_get, wp_pure, hU.offset, hU.resid,
    Nat.add_zero, Nat.sub_zero]
  by_cases hb : off % sectSize ≠ 0
  · have hb' : off % 512 ≠ 0 := hb
    simp only [if_pos hb, wp_bind]
    refine (hpart 0 (min (512 - off % 512) len) (off % 512) fs h0
      ⟨by simp, by omega, by omega, .inl ⟨rfl, hb', rfl⟩⟩).imp ?_ ?_
    · rintro _ ⟨fs', u'⟩ ⟨hI', hu'⟩
      obtain rfl : u' = U (0 + min (512 - off % 512) len) := hu'
      exact wp_ioAligned hU hpart hblock hI' (by omega) (by omega)
    · rintro e st ⟨h1, h2⟩
      exact ⟨0, by omega, h1, h2⟩
  · have hb' : off % 512 = 0 := not_not.mp hb
    simp only [if_neg hb]
    exact wp_ioAligned hU hpart hblock h0 (by omega) (.inr (by simpa using hb'))

/-- The volume after a write that ended at offset `off`: "adjust file length". -/
def SfsFs.extend (fs : SfsFs) (v off : Nat) : SfsFs :=
  if (fs.heap v).svI.sfiSize < off then
    fs.setInode v { (fs.heap v).svI with sfiSize := u32 off }
  else fs

variable {u : Uio} {Q : Unit → SfsFs × Uio → Prop} {E : Errno → SfsFs × Uio → Prop}

/-- What a stored result is returned as. -/
def returned (Q : Unit → SfsFs × Uio → Prop) (E : Errno → SfsFs × Uio → Prop)
    (st : SfsFs × Uio) : Except Errno Unit → Prop
  | .ok _ => Q () st
  | .error e => E e st

variable {result : Except Errno Unit}

theorem wp_ofResult {st : SfsFs × Uio} :
    Wp p (ofResult result) Q E st ↔ returned Q E st result := by
  cases result with
  | ok a => exact wp_ofResult_ok
  | error e => exact wp_ofResult_error

theorem wp_ioOut_write (hrw : u.uioRw = .write)
    (h : returned Q E (fs.extend v u.uioOffset, u) result) :
    Wp p (sfsIoOut v 0 result) Q E (fs, u) := by
  rw [SfsFs.extend] at h
  simp only [sfsIoOut, theFs, theUio, wp_bind, wp_get, wp_pure]
  by_cases hlt : (fs.heap v).svI.sfiSize < u.uioOffset
  · rw [if_pos hlt] at h
    simp only [if_pos (And.intro hrw hlt), wp_bind, wp_onFst, modifyInode, wp_modify, wp_ofResult]
    exact h
  · rw [if_neg hlt] at h
    have hno : ¬ (u.uioRw = .write ∧ (fs.heap v).svI.sfiSize < u.uioOffset) := fun hh => hlt hh.2
    simp only [if_neg hno, wp_bind, wp_modify, wp_ofResult]
    exact h

theorem wp_ioOut_read {extra : Nat} (hrw : u.uioRw = .read)
    (h : returned Q E (fs, { u with uioResid := u.uioResid + extra }) result) :
    Wp p (sfsIoOut v extra result) Q E (fs, u) := by
  have hno : ¬ (u.uioRw = .write ∧ (fs.heap v).svI.sfiSize < u.uioOffset) := by simp [hrw]
  simp only [sfsIoOut, theFs, theUio, wp_bind, wp_get, wp_pure, if_neg hno, wp_modify, wp_ofResult]
  exact h

section

variable (hrw : u.uioRw = .write) (h : Wp p (sfsIoBody v)
  (fun _ st => st.2.uioRw = .write ∧ Q () (st.1.extend v st.2.uioOffset, st.2))
  (fun e st => st.2.uioRw = .write ∧ E e (st.1.extend v st.2.uioOffset, st.2)) (fs, u))

include hrw h

/-- A write through `sfs_io` is its pieces, and the adjustment of the length whatever came of
them. -/
theorem wp_io_write : Wp p (sfsIo v) Q E (fs, u) := by
  have hextra : extraresid u (fs.heap v).svI.sfiSize = 0 := by rw [extraresid, hrw]
  simp only [sfsIo, theFs, theUio, wp_bind, wp_get, wp_pure]
  rw [if_neg (by simp [hrw])]
  simp only [wp_bind, wp_assert, wp_modify, wp_attempt, hextra, Nat.sub_zero]
  refine ⟨fun _ => ?_, fun hn => absurd (.inl trivial) hn⟩
  exact h.imp (fun _ st h' => wp_ioOut_write h'.1 h'.2) (fun _ st h' => wp_ioOut_write h'.1 h'.2)

theorem wp_write : Wp p (sfsWrite v) Q E (fs, u) := by
  simp only [sfsWrite, theUio, wp_bind, wp_get, wp_pure, wp_assert_of hrw]
  exact wp_io_write hrw h

end

theorem wp_read_eof (hrw : u.uioRw = .read) (heof : (fs.heap v).svI.sfiSize ≤ u.uioOffset)
    (h : Q () (fs, u)) : Wp p (sfsRead v) Q E (fs, u) := by
  simp only [sfsRead, sfsIo, theFs, theUio, wp_bind, wp_get, wp_pure, wp_assert_of hrw]
  rw [if_pos ⟨hrw, heof⟩, wp_pure]
  exact h

/-- `sfs_read` before the end of the file is its pieces, cut off at the end of the file. -/
theorem wp_read (hrw : u.uioRw = .read) (hlt : u.uioOffset < (fs.heap v).svI.sfiSize)
    (h : Wp p (sfsIoBody v)
      (fun _ st => st.2.uioRw = .read ∧ Q () (st.1, { st.2 with uioResid := st.2.uioResid +
        (u.uioResid - min u.uioResid ((fs.heap v).svI.sfiSize - u.uioOffset)) }))
      (fun e st => st.2.uioRw = .read ∧ E e (st.1, { st.2 with uioResid := st.2.uioResid +
        (u.uioResid - min u.uioResid ((fs.heap v).svI.sfiSize - u.uioOffset)) }))
      (fs, { u with
        uioResid := min u.uioResid ((fs.heap v).svI.sfiSize - u.uioOffset) })) :
    Wp p (sfsRead v) Q E (fs, u) := by
  have hextra : extraresid u (fs.heap v).svI.sfiSize =
      u.uioResid - min u.uioResid ((fs.heap v).svI.sfiSize - u.uioOffset) := by
    rw [extraresid, hrw]
    show u.uioOffset + u.uioResid - _ = _
    omega
  have hleft : u.uioResid - (u.uioResid - min u.uioResid ((fs.heap v).svI.sfiSize - u.uioOffset)) =
      min u.uioResid ((fs.heap v).svI.sfiSize - u.uioOffset) := by omega
  simp only [sfsRead, sfsIo, theFs, theUio, wp_bind, wp_get, wp_pure, wp_assert_of hrw]
  rw [if_neg (by omega)]
  simp only [wp_bind, wp_assert, wp_modify, wp_attempt, hextra, hleft]
  refine ⟨fun _ => ?_, fun hn => absurd (by omega) hn⟩
  exact h.imp (fun _ st h' => wp_ioOut_read h'.1 h'.2) (fun _ st h' => wp_ioOut_read h'.1 h'.2)

end Io

end Os161
