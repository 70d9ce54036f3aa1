/-
# `kern/fs/sfs/sfs_fs.c`: mounting and syncing a volume

`sfs_domount` builds a `struct sfs_fs` from what the disk says; `sfs_sync` makes the disk say what
the `struct sfs_fs` says.  The model runs `sfs_domount` on the structure it has just allocated,
whatever that memory holds, so that the two are programs over the same state and can be compared.

The rounds of `sfs_mapio` move the free map between its blocks on disk and the bytes of the
bitmap, a block at a time.
-/
import Os161.Sfs.Reclaim

namespace Os161

open SfsFs

/-! ## 1. The code -/

/-- The part of the bitmap that goes to the `j`-th block of the map. -/
def Bitmap.sector (b : Bitmap) (j : Nat) : Sector := fun k => b.v (j * sectSize + k.val)

/-- The bitmap with its `j`-th block replaced. -/
def Bitmap.setSector (b : Bitmap) (j : Nat) (data : Sector) : Bitmap :=
  { b with v := fun n => if n / sectSize = j then data.byte (n % sectSize) else b.v n }

/-- The volume with another free map in memory. -/
def SfsFs.setFreemap (fs : SfsFs) (m : Bitmap) : SfsFs := { fs with sfsFreemap := m }

/-- `sfs_mapio`. -/
def sfsMapio (rw : UioRw) : Sfs Unit := do
  let fs ← get
  let mapsize := sfsBitblocks fs.nblocks
  forEach (fun j =>
    match rw with
    | .read => do
      let buf ← onDevice (sfsRblock (sfsMapLocation + j))
      modify fun fs => fs.setFreemap (fs.sfsFreemap.setSector j buf)
    | .write => do
      let fs ← get
      onDevice (sfsWblock (fs.sfsFreemap.sector j) (sfsMapLocation + j))) (List.range mapsize)

/-- `sfs_sync`.  What `VOP_FSYNC` returns is not looked at. -/
def sfsSync : Sfs Unit := do
  let fs ← get
  forEach (fun v => do
    let _ ← attempt (sfsSyncInode v)
    pure ()) fs.sfsVnodes
  let fs ← get
  if fs.sfsFreemapdirty then do
    sfsMapio .write
    modify fun fs => { fs with sfsFreemapdirty := false }
  let fs ← get
  if fs.sfsSuperdirty then do
    onDevice (sfsWblock (encodeSuper fs.sfsSuper) sfsSbLocation)
    modify fun fs => { fs with sfsSuperdirty := false }

/-- An allocation that `sfs_domount` cannot do without. -/
def kmallocOrFail : Sfs Unit := do
  let ok ← kmalloc
  if ok = false then fail .enomem

/-- The second half of `sfs_domount`: the free map, the locks and the cache. -/
def sfsDomountRest : Sfs Unit := do
  -- bitmap_create: the structure, and the bits
  kmallocOrFail
  kmallocOrFail
  modify fun fs => fs.setFreemap (bitmapCreate (sfsBitmapsize fs.nblocks))
  sfsMapio .read
  -- the four locks
  kmallocOrFail
  kmallocOrFail
  kmallocOrFail
  kmallocOrFail
  modify fun fs => { fs with
    sfsRcache := fun s => { fs.sfsRcache s with inodeNo := -1, blockNo := -1 } }
  modify fun fs => { fs with sfsSuperdirty := false, sfsFreemapdirty := false }

/-- `sfs_domount`, on the memory allocated for the `struct sfs_fs`. -/
def sfsDomount : Sfs Unit := do
  kmallocOrFail
  -- vnodearray_create
  kmallocOrFail
  modify fun fs => { fs with sfsVnodes := [] }
  let buf ← onDevice (sfsRblock sfsSbLocation)
  modify fun fs => { fs with sfsSuper := decodeSuper buf }
  if (decodeSuper buf).spMagic ≠ sfsMagic then fail .einval
  else do
    -- Ensure null termination of the volume name
    modify fun fs => { fs with sfsSuper := terminateVolname fs.sfsSuper }
    sfsDomountRest

/-! ## 2. Mounting -/

section Mount

variable {fs : SfsFs}

@[simp] theorem SfsFs.sfsFreemap_setFreemap (m : Bitmap) : (fs.setFreemap m).sfsFreemap = m := rfl

@[simp] theorem SfsFs.nblocks_setFreemap (m : Bitmap) : (fs.setFreemap m).nblocks = fs.nblocks :=
    rfl

@[simp] theorem SfsFs.nblocks_burn (k : Nat) : (fs.burn k).nblocks = fs.nblocks := rfl

/-- The free map that the blocks on disk hold. -/
def mapOnDisk (disk : Nat → Sector) (nblocks : Nat) : Bitmap where
  nbits := sfsBitmapsize nblocks
  v := fun n => if n / sectSize < sfsBitblocks nblocks
    then (disk (sfsMapLocation + n / sectSize)).byte (n % sectSize) else 0

/-- The disk `d` while the map `m` is written to its `n` blocks, from the disk `d₀` on, with those
of `rest` still to do. -/
structure MapSaved (m : Bitmap) (n : Nat) (d₀ : Lhd) (rest : List Nat) (d : Lhd) : Prop where
  dBlocks : d.dBlocks = d₀.dBlocks
  outcome : d.outcome = d₀.outcome
  todo : ∀ j ∈ rest, j < n
  other : ∀ b, ¬ (sfsMapLocation ≤ b ∧ b < sfsMapLocation + n) → d.disk b = d₀.disk b
  saved : ∀ j < n, j ∉ rest → d.disk (sfsMapLocation + j) = m.sector j

theorem MapSaved.start (m : Bitmap) (n : Nat) (d : Lhd) : MapSaved m n d (.range n) d :=
  ⟨rfl, rfl, fun _ => List.mem_range.mp, fun _ _ => rfl,
    fun _ hj hn => absurd (List.mem_range.mpr hj) hn⟩

theorem MapSaved.next {m : Bitmap} {n j : Nat} {d₀ d : Lhd} {rest : List Nat}
    (h : MapSaved m n d₀ (j :: rest) d) :
    MapSaved m n d₀ rest (d.store (sfsMapLocation + j) (m.sector j)) where
  dBlocks := h.dBlocks
  outcome := h.outcome
  todo i hi := h.todo i (.tail j hi)
  other b hb := by
    have hj := h.todo j (.head rest)
    have hne : b ≠ sfsMapLocation + j := fun he => hb ⟨by omega, by omega⟩
    rw [Lhd.disk_store, Function.update_of_ne hne, h.other b hb]
  saved i hi hrest := by
    rw [Lhd.disk_store]
    by_cases hij : i = j
    · rw [hij, Function.update_self]
    · rw [Function.update_of_ne (by omega)]
      exact h.saved i hi fun hmem => (List.mem_cons.mp hmem).elim hij hrest

variable {p : Prop}

/-- **`sfs_mapio` reads the whole map.** -/
theorem sfsMapio_read_spec (hd : fs.sfsDevice.Reliable)
    (hfit : sfsMapLocation + sfsBitblocks fs.nblocks ≤ fs.sfsDevice.dBlocks)
    (hmap : fs.sfsFreemap = ⟨sfsBitmapsize fs.nblocks, fun _ => 0⟩) : Wp p (sfsMapio .read)
      (fun _ fs' => fs' = fs.setFreemap (mapOnDisk fs.disk fs.nblocks))
      (fun _ _ => False) fs := by
  rw [sfsMapio, wp_bind, wp_get]
  -- the blocks no longer in the list have been read
  refine (wp_forEach (fun rest fs' => (∀ j ∈ rest, j < sfsBitblocks fs.nblocks) ∧
    ∃ v, fs' = fs.setFreemap ⟨sfsBitmapsize fs.nblocks, v⟩ ∧
      ∀ n, n / sectSize ∉ rest → v n = (mapOnDisk fs.disk fs.nblocks).v n) ?_ _ fs ?_).imp
    ?_ (fun _ _ hf => hf)
  · rintro j rest _ ⟨hlt, v, rfl, hv⟩
    have hj := hlt j (by simp)
    rw [wp_bind]
    refine wp_rblock ?_ ?_ ?_
    · exact hd
    · exact lt_of_lt_of_le (Nat.add_lt_add_left hj _) hfit
    rw [wp_modify]
    refine ⟨fun k hk => hlt k (by simp [hk]), _, rfl, fun n hn => ?_⟩
    by_cases hnj : n / sectSize = j
    · rw [if_pos hnj, ← hnj]
      exact (if_pos (hnj ▸ hj)).symm
    · rw [if_neg hnj]
      exact hv n (by simp [hnj, hn])
  · refine ⟨fun j hj => List.mem_range.mp hj, fun _ => 0, by rw [← hmap]; rfl, fun n hn => ?_⟩
    exact (if_neg fun hlt => hn (List.mem_range.mpr hlt)).symm
  · rintro _ fs' ⟨-, v, rfl, hv⟩
    have : v = (mapOnDisk fs.disk fs.nblocks).v := funext fun n => hv n (by simp)
    rw [this]
    rfl

theorem wp_kmallocOrFail {Q : Unit → SfsFs → Prop} {E : Errno → SfsFs → Prop}
    (hE : fs.kmallocOk 0 = false → E .enomem (fs.burn 1)) (hQ : Q () (fs.burn 1)) :
    Wp p kmallocOrFail Q E fs := by
  rw [kmallocOrFail, wp_bind, wp_kmalloc, wp_ite]
  exact ⟨fun h => wp_fail.mpr (hE h), fun _ => wp_pure.mpr hQ⟩

/-- A mount may fail for lack of memory. -/
def NoMemory (fs : SfsFs) (e : Errno) : Prop := e = .enomem ∧ ∃ n, fs.kmallocOk n = false

/-- The second half of a mount: the map is the one on disk, and the cache is empty. -/
theorem sfsDomountRest_spec (hd : fs.sfsDevice.Reliable)
    (hfit : sfsMapLocation + sfsBitblocks fs.nblocks ≤ fs.sfsDevice.dBlocks) : Wp p sfsDomountRest
      (fun _ fs' => ∃ k, fs' = { fs with
        sfsSuperdirty := false
        sfsFreemap := mapOnDisk fs.disk fs.nblocks
        sfsFreemapdirty := false
        sfsRcache := fun s => { fs.sfsRcache s with inodeNo := -1, blockNo := -1 }
        kmallocOk := fun n => fs.kmallocOk (n + k) }) (fun e _ => NoMemory fs e) fs := by
  have hE : ∀ {n}, fs.kmallocOk n = false → NoMemory fs .enomem := fun h => ⟨rfl, _, h⟩
  rw [sfsDomountRest, wp_bind]
  refine wp_kmallocOrFail hE ?_
  rw [wp_bind]
  refine wp_kmallocOrFail hE ?_
  rw [wp_bind, wp_modify, wp_bind]
  generalize hfs1 : ((fs.burn 1).burn 1).setFreemap _ = fs₁
  have hnb : fs₁.nblocks = fs.nblocks := by
    rw [← hfs1, nblocks_setFreemap, nblocks_burn, nblocks_burn]
  have hdev : fs₁.sfsDevice = fs.sfsDevice := by rw [← hfs1]; rfl
  have hmap : fs₁.sfsFreemap = ⟨sfsBitmapsize fs₁.nblocks, fun _ => 0⟩ := by
    rw [← bitmapCreate_of_words (sfsBitmapsize_mod _), hnb, ← hfs1, sfsFreemap_setFreemap,
      nblocks_burn, nblocks_burn]
  have hE1 : ∀ {n}, fs₁.kmallocOk n = false → NoMemory fs .enomem := by
    rw [← hfs1]
    exact fun h => hE h
  refine (sfsMapio_read_spec (hdev ▸ hd) (by rw [hnb, hdev]; exact hfit) hmap).post_ok ?_
  rintro _ _ rfl
  rw [wp_bind]
  refine wp_kmallocOrFail hE1 ?_
  rw [wp_bind]
  refine wp_kmallocOrFail hE1 ?_
  rw [wp_bind]
  refine wp_kmallocOrFail hE1 ?_
  rw [wp_bind]
  refine wp_kmallocOrFail hE1 ?_
  rw [wp_bind, wp_modify, wp_modify, hnb, show fs₁.disk = fs.disk by
    rw [disk, hdev, disk], ← hfs1]
  exact ⟨6, by simp only [burn, setFreemap, Nat.add_assoc, Nat.reduceAdd]⟩

/-- What mounting makes of a disk, in the memory `fs`. -/
def SfsFs.mounted (fs : SfsFs) (k : Nat) : SfsFs :=
  { fs with
    sfsSuper := mountSuper (fs.disk sfsSbLocation)
    sfsSuperdirty := false
    sfsVnodes := []
    sfsFreemap := mapOnDisk fs.disk (decodeSuper (fs.disk sfsSbLocation)).spNblocks
    sfsFreemapdirty := false
    sfsRcache := fun s => { fs.sfsRcache s with inodeNo := -1, blockNo := -1 }
    kmallocOk := fun n => fs.kmallocOk (n + k) }

/-- **`sfs_domount`** of a disk with a superblock. -/
theorem sfsDomount_spec (hd : fs.sfsDevice.Reliable)
    (hmagic : (decodeSuper (fs.disk sfsSbLocation)).spMagic = sfsMagic)
    (hfit : sfsMapLocation + sfsBitblocks (decodeSuper (fs.disk sfsSbLocation)).spNblocks ≤
      fs.sfsDevice.dBlocks) :
    Wp p sfsDomount (fun _ fs' => ∃ k, fs' = fs.mounted k) (fun e _ => NoMemory fs e) fs := by
  have hE : ∀ {n}, fs.kmallocOk n = false → NoMemory fs .enomem := fun h => ⟨rfl, _, h⟩
  have h0 : sfsSbLocation < fs.sfsDevice.dBlocks := by
    simp only [sfsMapLocation, sfsSbLocation] at hfit ⊢
    omega
  rw [sfsDomount, wp_bind]
  refine wp_kmallocOrFail hE ?_
  rw [wp_bind]
  refine wp_kmallocOrFail hE ?_
  rw [wp_bind, wp_modify, wp_bind]
  refine wp_rblock ?_ ?_ ?_
  · exact hd
  · exact h0
  rw [wp_bind, wp_modify]
  refine wp_ite.mpr ⟨fun hne => absurd hmagic hne, fun _ => ?_⟩
  rw [wp_bind, wp_modify]
  refine (sfsDomountRest_spec ?_ ?_).imp ?_ (fun _ _ ⟨he, n, hn⟩ => ⟨he, _, hn⟩)
  · exact hd
  · exact hfit
  · rintro _ _ ⟨k, rfl⟩
    exact ⟨k + 2, by
      simp only [burn, mounted, nblocks, disk, mountSuper,
        terminateVolname, Nat.add_assoc, Nat.reduceAdd]⟩

end Mount

end Os161
