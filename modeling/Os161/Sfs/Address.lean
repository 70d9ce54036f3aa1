/-
# Where a block is on the device

A block of a file is reached on two paths.  `sfs_partialio` goes through `sfs_rblock` and
`sfs_wblock`, and their `SFSUIO` multiplies the block number by 512 in 64 bits.  `sfs_blockio`
multiplies it in 32 BITS: `diskoff = diskblock * SFS_BLOCKSIZE`, where the left side is an `off_t`
and the right side is not.  So the two agree on the blocks below `2^23` and on no other, and
nothing in `sfs_domount` keeps the blocks of a volume below `2^23`.

The two offsets are those of the code: `lentio` hands `blockioOffset` to the device, `sfsRblock` and
`sfsWblock` hand it `sfsuioOffset`.
-/
import Os161.Mksfs
import Os161.Sfs.Pieces

namespace Os161

/-! ## 1. The two offsets -/

/-- **The two offsets agree below `2^23`.** -/
theorem blockioOffset_eq_iff {b : Nat} : blockioOffset b = sfsuioOffset b ↔ b < 8388608 := by
  simp only [blockioOffset, sfsuioOffset, sectSize, u32]
  omega

/-! ## 2. The blocks of a volume -/

/-- The two paths use the same offset for every block of the volume that a file refers to. -/
def SamePaths (fs : SfsFs) : Prop :=
  ∀ i fb, fs.dataRef i fb ≠ 0 → fs.dataRef i fb < fs.nblocks →
    blockioOffset (fs.dataRef i fb) = sfsuioOffset (fs.dataRef i fb)

/-- The root directory of the volume below: its first block is block `2^23`. -/
def farInode : SfsInode where
  sfiSize := 512
  sfiType := .dir
  sfiLinkcount := 1
  sfiDirect := fun _ => 8388608
  sfiIndirect := 0

theorem farInode_fits : farInode.Fits :=
  ⟨by decide, by decide, fun _ => show 8388608 < 4294967296 by decide, by decide⟩

/-- A disk of 2^32 - 1 sectors with a volume of `n` blocks, all of them in use. -/
def farDisk (n : Nat) : Lhd where
  dBlocks := 4294967295
  dBlocks_lt := Nat.lt_succ_self _
  disk := fun b => if b = sfsSbLocation then encodeSuper ⟨sfsMagic, n, fun _ => 0⟩
    else if b = sfsRootLocation then encodeInode farInode else fun _ => 0xff
  outcome := fun _ => true
  log := []

theorem farDisk_mounts {n : Nat} (hn : n < 4294967296) : ∃ fs,
    sfsDomount (blankSfs (farDisk n) fun _ => 0) = some (.ok (), fs) ∧ fs.nblocks = n ∧
      fs.dataRef sfsRootLocation 0 = 8388608 := by
  have hdisk : (blankSfs (farDisk n) fun _ => 0).disk sfsSbLocation =
      encodeSuper ⟨sfsMagic, n, fun _ => 0⟩ := rfl
  have hmagic : sfsMagic < 4294967296 := by decide
  have hsuper := decodeSuper_encodeSuper (s := ⟨sfsMagic, n, fun _ => 0⟩) hmagic hn
  rw [← hdisk] at hsuper
  have hfit : sfsMapLocation + sfsBitblocks n ≤ 4294967295 := by
    simp only [sfsMapLocation, sfsBitblocks, sfsBitmapsize, sfsBlockbits, sectSize, u32]
    omega
  have hmem : ∀ e (_ : SfsFs), ¬ NoMemory (blankSfs (farDisk n) fun _ => 0) e := fun _ _ h => by
    simp [NoMemory, blankSfs] at h
  obtain ⟨_, fs, hmount, k, rfl⟩ := ((sfsDomount_spec (p := False) (fun _ => rfl) hsuper.1
    (by rw [hsuper.2]; exact hfit)).noError hmem).exists_ok
  refine ⟨_, hmount, hsuper.2, ?_⟩
  have hinode : ((blankSfs (farDisk n) fun _ => 0).mounted k).inode sfsRootLocation = farInode :=
    decodeInode_encodeInode farInode_fits
  have hslot : dataSlot 0 = some (.direct 0) := rfl
  rw [SfsFs.dataRef, hslot]
  dsimp only
  rw [SfsFs.refAt, hinode]
  rfl

/-- **Both paths reach the same bytes exactly on volumes of at most `2^23` blocks.** -/
theorem same_paths_iff {n : Nat} (hn : n < 4294967296) :
    (∀ fs₀ fs, sfsDomount fs₀ = some (.ok (), fs) → fs.nblocks = n → SamePaths fs) ↔
      n ≤ 8388608 := by
  constructor
  · intro h
    by_contra hlarge
    obtain ⟨fs, hmount, hnb, href⟩ := farDisk_mounts hn
    have hsame := h _ fs hmount hnb sfsRootLocation 0
    rw [href, hnb, blockioOffset_eq_iff] at hsame
    exact absurd (hsame (by decide) (Nat.lt_of_not_le hlarge)) (by decide)
  · intro hsmall fs₀ fs _ hnb i fb _ hlt
    rw [blockioOffset_eq_iff]
    omega

/-- On volumes of 512 blocks they do. -/
theorem same_paths_small :
    (∀ fs₀ fs, sfsDomount fs₀ = some (.ok (), fs) → fs.nblocks = 512 → SamePaths fs) ↔
      512 ≤ 8388608 :=
  same_paths_iff (by decide)

/-- On a volume of `2^23 + 1` blocks `sfs_blockio` takes the last one for the superblock. -/
theorem far_block_wraps : ∃ fs₀ fs, sfsDomount fs₀ = some (.ok (), fs) ∧ fs.nblocks = 8388609 ∧
    fs.dataRef sfsRootLocation 0 = 8388608 ∧ blockioOffset 8388608 = 0 ∧
    sfsuioOffset 8388608 = 4294967296 := by
  obtain ⟨fs, hmount, hnb, href⟩ := farDisk_mounts (n := 8388609) (by decide)
  exact ⟨_, fs, hmount, hnb, href, by decide, by decide⟩

end Os161
