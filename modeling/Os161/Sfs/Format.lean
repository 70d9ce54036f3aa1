/-
# `kern/include/kern/sfs.h`: what an SFS volume looks like on disk

Block 0 is the superblock, block 1 the root directory's inode, and the free block map starts at
block 2.  An inode is a whole block; its number IS its block number.  A directory is a file of
64-byte entries.

Each on-disk structure is given by the fields the code reads, with a `decode` (what a load of
the block makes of it) and an `encode` (what a store of the structure leaves in the block).  The
round trips are exact on structures whose fields fit their C types, and every structure that
was decoded has such fields.
-/
import Os161.Lhd
import Os161.Lib.CString

namespace Os161

/-! ## 1. Constants -/

/-- `SFS_MAGIC`. -/
abbrev sfsMagic : Nat := 0xabadf001

/-- `SFS_NDIRECT`. -/
abbrev sfsNdirect : Nat := 15

/-- `SFS_DBPERIDB`. -/
abbrev sfsDbperidb : Nat := 128

/-- `SFS_NAMELEN`. -/
abbrev sfsNamelen : Nat := 60

/-- `SFS_VOLNAME_SIZE`. -/
abbrev sfsVolnameSize : Nat := 32

/-- `SFS_SB_LOCATION`. -/
abbrev sfsSbLocation : Nat := 0

/-- `SFS_ROOT_LOCATION`. -/
abbrev sfsRootLocation : Nat := 1

/-- `SFS_MAP_LOCATION`. -/
abbrev sfsMapLocation : Nat := 2

/-- `SFS_NOINO`. -/
abbrev sfsNoino : Nat := 0

/-- `SFS_BLOCKBITS`. -/
abbrev sfsBlockbits : Nat := sectSize * 8

/-- `SFS_BITMAPSIZE`: the number of blocks, rounded up to whole blocks of bits, in `uint32_t`. -/
def sfsBitmapsize (nblocks : Nat) : Nat :=
  u32 (nblocks + sfsBlockbits - 1) / sfsBlockbits * sfsBlockbits

/-- `SFS_BITBLOCKS`. -/
def sfsBitblocks (nblocks : Nat) : Nat := sfsBitmapsize nblocks / sfsBlockbits

theorem le_sfsBitmapsize {n : Nat} (h : n ≤ 8388608) : n ≤ sfsBitmapsize n := by
  simp only [sfsBitmapsize, sfsBlockbits, sectSize, u32]
  omega

theorem sfsBitmapsize_eq (n : Nat) : sfsBitmapsize n = sfsBitblocks n * sfsBlockbits := by
  simp only [sfsBitblocks, sfsBitmapsize, sfsBlockbits, sectSize]
  omega

theorem sfsBitmapsize_mod (n : Nat) : sfsBitmapsize n % 8 = 0 := by
  rw [sfsBitmapsize_eq]
  simp only [sfsBlockbits, sectSize]
  omega

/-- The blocks that hold the free block map. -/
def IsMapBlock (nblocks b : Nat) : Prop :=
  sfsMapLocation ≤ b ∧ b < sfsMapLocation + sfsBitblocks nblocks

instance (nblocks b : Nat) : Decidable (IsMapBlock nblocks b) := inferInstanceAs (Decidable (_ ∧ _))

/-! ## 2. Inodes -/

/-- The values of `sfi_type`; whatever is none of `SFS_TYPE_INVAL`, `_FILE`, `_DIR` is `unknown`. -/
inductive SfsType
  | inval | file | dir | unknown
  deriving DecidableEq, Repr

namespace SfsType

/-- The number behind a type. -/
def code : SfsType → Nat
  | inval => 0
  | file => 1
  | dir => 2
  | unknown => 3

/-- The type behind a number. -/
def ofCode : Nat → SfsType
  | 0 => inval
  | 1 => file
  | 2 => dir
  | _ => unknown

theorem ofCode_code (t : SfsType) : ofCode t.code = t := by cases t <;> rfl

theorem code_lt (t : SfsType) : t.code < 4 := by cases t <;> decide

end SfsType

/-- `struct sfs_inode`, without the words it wastes. -/
@[ext] structure SfsInode where
  sfiSize : Nat
  sfiType : SfsType
  sfiLinkcount : Nat
  sfiDirect : Fin 15 → Nat
  sfiIndirect : Nat

/-- The inode a block holds. -/
def decodeInode (b : Sector) : SfsInode where
  sfiSize := b.word 0
  sfiType := .ofCode (b.word 1 / 65536)
  sfiLinkcount := b.word 1 % 65536
  sfiDirect := fun k => b.word (2 + k.val)
  sfiIndirect := b.word 17

/-- The words of an inode. -/
def SfsInode.words (i : SfsInode) (k : Nat) : Nat :=
  if k = 0 then i.sfiSize
  else if k = 1 then i.sfiType.code * 65536 + i.sfiLinkcount
  else if h : 2 ≤ k ∧ k < 17 then i.sfiDirect ⟨k - 2, by omega⟩
  else if k = 17 then i.sfiIndirect
  else 0

/-- The block that holds an inode. -/
def encodeInode (i : SfsInode) : Sector := Bytes.ofWords i.words

/-- Every field fits its C type. -/
structure SfsInode.Fits (i : SfsInode) : Prop where
  size : i.sfiSize < 4294967296
  linkcount : i.sfiLinkcount < 65536
  direct : ∀ k, i.sfiDirect k < 4294967296
  indirect : i.sfiIndirect < 4294967296

theorem SfsInode.words_direct (i : SfsInode) (k : Fin 15) :
    i.words (2 + k.val) = i.sfiDirect k := by
  unfold SfsInode.words
  rw [if_neg (by omega), if_neg (by omega), dif_pos (by omega)]
  congr
  omega

/-- **Round trip of inodes.** -/
theorem decodeInode_encodeInode {i : SfsInode} (h : i.Fits) : decodeInode (encodeInode i) = i := by
  have hw : ∀ k, k < 128 → (encodeInode i).word k = i.words k % 4294967296 :=
    fun k hk => Bytes.word_ofWords (show 4 * k + 3 < 512 by omega)
  have h1 : i.words 1 % 4294967296 = i.sfiType.code * 65536 + i.sfiLinkcount := by
    have hcode := i.sfiType.code_lt
    have hlink := h.linkcount
    rw [show i.words 1 = i.sfiType.code * 65536 + i.sfiLinkcount by simp [SfsInode.words]]
    omega
  have hlink := h.linkcount
  refine SfsInode.ext ?_ ?_ ?_ ?_ ?_
  · show (encodeInode i).word 0 = _
    rw [hw 0 (by decide)]
    exact Nat.mod_eq_of_lt h.size
  · show SfsType.ofCode ((encodeInode i).word 1 / 65536) = _
    rw [hw 1 (by decide), h1,
      show (i.sfiType.code * 65536 + i.sfiLinkcount) / 65536 = i.sfiType.code by omega,
      SfsType.ofCode_code]
  · show (encodeInode i).word 1 % 65536 = _
    rw [hw 1 (by decide), h1]
    omega
  · funext k
    show (encodeInode i).word (2 + k.val) = _
    rw [hw _ (by omega), i.words_direct]
    exact Nat.mod_eq_of_lt (h.direct k)
  · show (encodeInode i).word 17 = _
    rw [hw 17 (by decide), show i.words 17 = i.sfiIndirect by simp [SfsInode.words]]
    exact Nat.mod_eq_of_lt h.indirect

/-- The inode in a block of zeros. -/
def emptyInode : SfsInode where
  sfiSize := 0
  sfiType := .inval
  sfiLinkcount := 0
  sfiDirect := fun _ => 0
  sfiIndirect := 0

theorem decodeInode_zero : decodeInode 0 = emptyInode := by
  refine SfsInode.ext ?_ ?_ ?_ ?_ ?_ <;> simp [decodeInode, emptyInode, SfsType.ofCode]

/-! ## 3. The superblock -/

/-- `struct sfs_super`, without its reserved words. -/
@[ext] structure SfsSuper where
  spMagic : Nat
  spNblocks : Nat
  spVolname : Bytes sfsVolnameSize

/-- The superblock a block holds. -/
def decodeSuper (b : Sector) : SfsSuper where
  spMagic := b.word 0
  spNblocks := b.word 1
  spVolname := fun k => b.byte (8 + k.val)

/-- The block that holds a superblock. -/
def encodeSuper (s : SfsSuper) : Sector :=
  (Bytes.ofWords fun k => if k = 0 then s.spMagic else if k = 1 then s.spNblocks else 0 :
    Sector).splice
    8 s.spVolname.toList

/-! ## 4. Directory entries -/

/-- `struct sfs_dir`. -/
@[ext] structure SfsDir where
  sfdIno : Nat
  sfdName : Bytes sfsNamelen

/-- `sizeof(struct sfs_dir)`. -/
abbrev sfsDirSize : Nat := 64

end Os161
