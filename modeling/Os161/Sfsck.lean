/-
# `user/sbin/sfsck/sfsck.c`: what the check of a volume knows of its format

`sfsck` works on the raw disk, and has a reader of block maps of its own.  It finds the blocks
that `sfs_bmap` finds (`sfsBmap_eq_dobmap`); only, `sfs_bmap` stops the machine at a block that the
free map shows as free, while `sfsck`, which is there to repair the free map, does not look.  Its
sort of a directory brings entries of one name together.
-/
import Os161.Sfs.Cut

namespace Os161

open Prog Function List

/-! ## 1. Block maps -/

/-- `diskread`: the place in the file is computed in `uint32_t`; behind the end there is nothing to
read, and `sfsck` gives up. -/
def Lhd.diskread (d : Lhd) (block : Nat) : Option Sector :=
  let sector := u32 (block * sectSize) / sectSize
  if sector < d.dBlocks then some (d.disk sector) else none

/-- `ibmap`: the entry at `offset` behind an indirect block each of whose entries stands for
`entrysize` blocks. -/
def ibmap (d : Lhd) (iblock offset entrysize : Nat) : Option Nat :=
  if iblock = 0 then some 0
  else do
    let entries ← d.diskread iblock
    if entrysize > 1 then
      ibmap d (entries.word (offset / entrysize)) (offset % entrysize) (entrysize / sfsDbperidb)
    else if offset < sfsDbperidb then some (entries.word offset) else none
termination_by entrysize
decreasing_by exact Nat.div_lt_self (by omega) (by decide)

/-- `dobmap`.  `BMAP_NII` and `BMAP_NIII` are 0, so that nothing is left for the last two ranges. -/
def dobmap (d : Lhd) (sfi : SfsInode) (fileblock : Nat) : Option Nat :=
  if h : fileblock < sfsNdirect then some (sfi.sfiDirect ⟨fileblock, h⟩)
  else if fileblock < sfsNdirect + sfsDbperidb then
    ibmap d sfi.sfiIndirect ((fileblock - sfsNdirect) % sfsDbperidb) 1
  else some 0

/-- A block that `sfs_bmap` hands back: a hole, or one in the volume that is marked in use. -/
def SfsFs.Handed (fs : SfsFs) (block : Nat) : Prop :=
  block = 0 ∨ block < fs.nblocks ∧ fs.sfsFreemap.isset block = true

instance (fs : SfsFs) (block : Nat) : Decidable (fs.Handed block) :=
  inferInstanceAs (Decidable (_ ∨ _))

/-- What `sfs_bmap` makes of the block that `sfsck` finds. -/
def SfsFs.hand (fs : SfsFs) (found : Option Nat) : Option (Except Errno Nat × SfsFs) :=
  found.bind fun block => if fs.Handed block then some (.ok block, fs) else none

variable {fs : SfsFs} {v block : Nat}

/-- The last check of `sfs_bmap` lets such blocks through, and stops at the others. -/
theorem sfsCheckUsed_eq : (do sfsCheckUsed block; pure block : Sfs Nat) fs =
    fs.hand (some block) := by
  by_cases h0 : block = 0
  · subst h0
    rfl
  · by_cases hlt : block < fs.nblocks <;> cases hset : fs.sfsFreemap.isset block <;>
      simp [sfsCheckUsed, sfsBused, SfsFs.hand, SfsFs.Handed, h0, hlt, hset, Bind.bind, Prog.bind,
        Prog.get, Prog.assert, Prog.halt, Pure.pure]

/-- On a reliable device the kernel's read of a block and that of `sfsck` agree, as long as the
place in the file fits a `uint32_t`. -/
theorem rblock_eq_diskread (hd : fs.sfsDevice.Reliable) (hlt : block < 8388608) :
    onDevice (sfsRblock block) fs =
      (fs.sfsDevice.diskread block).bind fun buf => some (.ok buf, fs) := by
  have hsector : u32 (block * sectSize) / sectSize = block := by
    simp only [u32, sectSize]
    omega
  by_cases hb : block < fs.sfsDevice.dBlocks
  · obtain ⟨_, _, hrun, rfl, rfl⟩ := (wp_rblock hd hb ⟨rfl, rfl⟩ : Wp False _
      (fun buf fs' => buf = fs.disk block ∧ fs' = fs) (fun _ _ => False) fs).exists_ok
    simp only [hrun, Lhd.diskread, hsector, if_pos hb]
    rfl
  · rw [Lhd.diskread, hsector, if_neg hb]
    have hnone : sfsRblock block fs.sfsDevice = none :=
      (sfsRblock_outside (Nat.not_lt.mp hb) (by omega)).eq_none
    rw [onDevice, zoom, hnone]
    rfl

theorem ibmap_one {d : Lhd} {iblock offset : Nat} (h0 : iblock ≠ 0) (hoff : offset < sfsDbperidb) :
    ibmap d iblock offset 1 = (d.diskread iblock).map fun entries => entries.word offset := by
  rw [ibmap, if_neg h0]
  cases d.diskread iblock with
  | none => rfl
  | some entries => exact if_pos hoff

theorem sfsBmapIndirect_eq_ibmap (hd : fs.sfsDevice.Reliable)
    (hind : (fs.heap v).svI.sfiIndirect < 8388608) {idoff : Nat} (hoff : idoff < sfsDbperidb) :
    sfsBmapIndirect v idoff false fs =
      fs.hand (ibmap fs.sfsDevice (fs.heap v).svI.sfiIndirect idoff 1) := by
  have hvnode : vnodeAt v fs = some (.ok (fs.heap v), fs) := rfl
  rw [sfsBmapIndirect, bind_ok hvnode]
  by_cases h0 : (fs.heap v).svI.sfiIndirect = 0
  · rw [if_pos ⟨h0, rfl⟩, ibmap, if_pos h0]
    simp [SfsFs.hand, SfsFs.Handed, Pure.pure]
  · have hread := rblock_eq_diskread hd hind
    rw [if_neg fun h => h0 h.1, ibmap_one h0 hoff]
    cases hentries : fs.sfsDevice.diskread (fs.heap v).svI.sfiIndirect with
    | none =>
      rw [hentries] at hread
      refine bind_none ?_
      rw [sfsBmapIdbuf, bind_ok hvnode, if_neg h0]
      exact bind_none hread
    | some entries =>
      rw [hentries] at hread
      have hbuf : sfsBmapIdbuf v fs =
          some (.ok ((fs.heap v).svI.sfiIndirect, entries.word), fs) := by
        rw [sfsBmapIdbuf, bind_ok hvnode, if_neg h0, bind_ok hread]
        rfl
      rw [bind_ok hbuf]
      dsimp only [Option.map_some]
      generalize entries.word idoff = block
      rw [if_neg (by simp), bind_ok rfl, sfsCheckUsed_eq]

/-- **`sfsck` and the kernel read the same block map.**  What `sfs_bmap` hands back without
allocating is what `dobmap` finds; and it hands back all that `dobmap` finds but the blocks that
are marked free, where it panics. -/
theorem sfsBmap_eq_dobmap (hd : fs.sfsDevice.Reliable)
    (hind : (fs.heap v).svI.sfiIndirect < 8388608) {fileblock : Nat} (hfb : fileblock < 143) :
    sfsBmap v fileblock false fs =
      fs.hand (dobmap fs.sfsDevice (fs.heap v).svI fileblock) := by
  rw [sfsBmap, dobmap]
  split
  · rw [sfsBmapDirect]
    simp only [Bool.false_eq_true, and_false, if_false]
    exact sfsCheckUsed_eq
  · have hnum : ¬ (fileblock - sfsNdirect) / sfsDbperidb > 0 := by
      simp only [sfsNdirect, sfsDbperidb]
      omega
    simp only [if_neg hnum, if_pos (show fileblock < sfsNdirect + sfsDbperidb from hfb)]
    exact sfsBmapIndirect_eq_ibmap hd hind (Nat.mod_lt _ (by decide))

/-- Block 20 of a file, which is behind its indirect block. -/
theorem sfsBmap_eq_dobmap_indirect : sfsBmap 0 20 false (cutVolume (fun _ => 0) 2) =
    (cutVolume (fun _ => 0) 2).hand
      (dobmap (cutVolume (fun _ => 0) 2).sfsDevice ⟨73216, .file, 1, fun _ => 0, 2⟩ 20) :=
  sfsBmap_eq_dobmap (fun _ => rfl) (by decide) (by decide)

/-- `sfsck` finds block 5 for a file that has it, where the kernel panics, since it is free. -/
theorem dobmap_finds_free :
    let fs := { cutVolume (fun _ => 5) 0 with sfsFreemap := ⟨4096, fun _ => 0⟩ }
    dobmap fs.sfsDevice (fs.heap 0).svI 0 = some 5 ∧ sfsBmap 0 0 false fs = none :=
  ⟨rfl, rfl⟩

/-! ## 2. The free map -/

/-- `blockusage_t`. -/
inductive BlockUsage
  | superblock | bitblock | inode | iblock | dirdata | data | tofree | pastend
  deriving DecidableEq, Repr

/-- The static variables: `bitmapdata`, `tofreedata`, `badness` and `count_blocks`. -/
structure Fsck where
  bitmapdata : Bitmap
  tofreedata : Bitmap
  badness : Nat
  countBlocks : Nat

/-- `bitmap_init`. -/
def bitmapInit (bitblocks : Nat) : Fsck :=
  ⟨⟨bitblocks * sfsBlockbits, fun _ => 0⟩, ⟨bitblocks * sfsBlockbits, fun _ => 0⟩, 0, 0⟩

/-- `setbadness`. -/
def Fsck.setbadness (s : Fsck) (code : Nat) : Fsck :=
  if s.badness < code then { s with badness := code } else s

/-- `bitmap_mark`.  A block that is marked as in use twice makes it `EXIT_UNRECOV`, 2. -/
def bitmapMark (s : Fsck) (block : Nat) (how : BlockUsage) : Fsck :=
  if how = .tofree then
    if s.tofreedata.isset block then s
    else if s.bitmapdata.isset block then s
    else { s with tofreedata := s.tofreedata.set block }
  else
    { if s.bitmapdata.isset block then s.setbadness 2 else s with
      tofreedata := if s.tofreedata.isset block then s.tofreedata.clear block else s.tofreedata
      bitmapdata := s.bitmapdata.set block
      countBlocks := if how ≠ .pastend then u32 (s.countBlocks + 1) else s.countBlocks }

/-- `countbits`. -/
def countbits (val : Byte) : Nat := (List.range 8).countP fun y => val &&& Bitmap.mask y ≠ 0

/-- The variables of `check_bitmap`. -/
structure BitCheck where
  bits : Nat → Byte
  alloccount : Nat
  freecount : Nat
  bchanged : Bool

/-- The body of the inner loop of `check_bitmap`. -/
def checkByte (found tofree : Byte) (j : Nat) (c : BitCheck) : Option BitCheck :=
  if found &&& tofree ≠ 0 then none
  else if c.bits j = found then some c
  else
    let c' := { c with bits := Function.update c.bits j found, bchanged := true }
    if c.bits j = found ||| tofree then some c'
    else
      let bits := c.bits j &&& ~~~ tofree
      some { c' with
        alloccount := if bits &&& found ≠ found
          then u32 (c.alloccount + countbits (found &&& ~~~ bits)) else c.alloccount
        freecount := if bits &&& found ≠ bits
          then u32 (c.freecount + countbits (bits &&& ~~~ found)) else c.freecount }

/-- The first rounds of the inner loop, in block `i` of the map. -/
def checkBytes (s : Fsck) (i : Nat) (c : BitCheck) : Nat → Option BitCheck
  | 0 => some c
  | j + 1 => do
    let c ← checkBytes s i c j
    checkByte (s.bitmapdata.v (i * sectSize + j)) (s.tofreedata.v (i * sectSize + j)) j c

/-- `diskwrite`. -/
def Lhd.diskwrite (d : Lhd) (data : Sector) (block : Nat) : Option Lhd :=
  let sector := u32 (block * sectSize) / sectSize
  if sector < d.dBlocks then some (d.store sector data) else none

/-- The body of the outer loop, from the disk and the two counts. -/
def checkBlock (s : Fsck) (i : Nat) : Lhd × Nat × Nat → Option (Lhd × Nat × Nat)
  | (d, alloccount, freecount) => do
    let bits ← d.diskread (sfsMapLocation + i)
    let c ← checkBytes s i ⟨bits.byte, alloccount, freecount, false⟩ sectSize
    let d ← if c.bchanged then d.diskwrite (fun j => c.bits j) (sfsMapLocation + i) else some d
    pure (d, c.alloccount, c.freecount)

/-- Its first rounds. -/
def checkBlocks (s : Fsck) (d : Lhd) : Nat → Option (Lhd × Nat × Nat)
  | 0 => some (d, 0, 0)
  | i + 1 => checkBlocks s d i >>= checkBlock s i

/-- `check_bitmap`, with what it reports: `alloccount` blocks "erroneously shown free" and
`freecount` blocks "erroneously shown used", each of which makes it `EXIT_RECOV`, 1. -/
def checkBitmap (s : Fsck) (bitblocks : Nat) (d : Lhd) : Option (Fsck × Lhd × Nat × Nat) := do
  let (d, alloccount, freecount) ← checkBlocks s d bitblocks
  let s := if alloccount > 0 then s.setbadness 1 else s
  let s := if freecount > 0 then s.setbadness 1 else s
  pure (s, d, alloccount, freecount)

/-- No block is both found and to be freed. -/
def Fsck.Disjoint (s : Fsck) : Prop :=
  ∀ b, s.tofreedata.isset b = true → s.bitmapdata.isset b = false

section FreeMap

variable {s : Fsck} {map : Bitmap} {k : Nat}

theorem bitmapMark_disjoint (h : s.Disjoint) (block : Nat) (how : BlockUsage) :
    (bitmapMark s block how).Disjoint := by
  unfold bitmapMark
  split
  · split_ifs with _ hfound
    · exact h
    · exact h
    · intro b hb
      rcases Bitmap.isset_set.mp hb with rfl | hb
      · exact Bool.eq_false_iff.mpr hfound
      · exact h b hb
  · intro b hb
    have hkept : b ≠ block ∧ s.tofreedata.isset b = true := by
      dsimp only at hb
      split_ifs at hb with hfree
      · exact Bitmap.isset_clear.mp hb
      · exact ⟨fun he => hfree (he ▸ hb), hb⟩
    refine Bool.eq_false_iff.mpr fun hset => ?_
    rcases Bitmap.isset_set.mp hset with he | hset
    · exact hkept.1 he
    · exact absurd hset (Bool.eq_false_iff.mp (h b hkept.2))

/-- The number of the first `n` blocks with the property `g` of whether they were found, are to be
freed, and are marked in the map. -/
def Fsck.count (s : Fsck) (map : Bitmap) (g : Bool → Bool → Bool → Bool) (n : Nat) : Nat :=
  (List.range n).countP fun b => g (s.bitmapdata.isset b) (s.tofreedata.isset b) (map.isset b)

/-- Found, but not marked. -/
def shownFree (found _tofree marked : Bool) : Bool := found && !marked

/-- Marked, but not found, and not to be freed. -/
def shownUsed (found tofree marked : Bool) : Bool := marked && !found && !tofree

theorem count_succ (g : Bool → Bool → Bool → Bool) : s.count map g (8 * (k + 1)) =
    s.count map g (8 * k) + (range 8).countP fun y => g ((s.bitmapdata.v k).getLsbD y)
      ((s.tofreedata.v k).getLsbD y) ((map.v k).getLsbD y) := by
  rw [Fsck.count, Nat.mul_succ, range_add, countP_append, countP_map]
  refine congrArg _ (countP_congr fun y hy => ?_)
  have hy := mem_range.mp hy
  rw [comp_apply, Bitmap.isset_byte hy, Bitmap.isset_byte hy, Bitmap.isset_byte hy]

theorem Fsck.Disjoint.and_eq_zero (h : s.Disjoint) (k : Nat) :
    s.bitmapdata.v k &&& s.tofreedata.v k = 0 := by
  refine BitVec.eq_of_getLsbD_eq fun y hy => ?_
  have := h (8 * k + y)
  rw [Bitmap.isset_byte hy, Bitmap.isset_byte hy] at this
  grind

theorem countbits_eq {val : Byte} {P : Nat → Bool} (h : ∀ y < 8, val.getLsbD y = P y) :
    countbits val = (range 8).countP P :=
  countP_congr fun y hy => by
    have hy := mem_range.mp hy
    rw [decide_eq_true_iff, Bitmap.and_mask_ne_zero hy, h y hy]

variable {f t u v : Byte} {i j n A F : Nat} {bits : Nat → Byte} {ch : Bool}

theorem count_ite {c : Prop} [Decidable c] (h : ¬ c → u &&& v = u) :
    (if c then u32 (u32 A + countbits (u &&& ~~~ v)) else u32 A) =
      u32 (A + countbits (u &&& ~~~ v)) := by
  split
  · exact Nat.mod_add_mod _ _ _
  · next hc =>
    rw [← h hc, BitVec.and_assoc]
    simp [countbits]

/-- **One byte**, whatever the branch: what is wrong with it is counted, and it is repaired. -/
theorem checkByte_eq (h : f &&& t = 0) : checkByte f t j ⟨bits, u32 A, u32 F, ch⟩ =
    some ⟨update bits j f,
      u32 (A + (range 8).countP fun y =>
        shownFree (f.getLsbD y) (t.getLsbD y) ((bits j).getLsbD y)),
      u32 (F + (range 8).countP fun y =>
        shownUsed (f.getLsbD y) (t.getLsbD y) ((bits j).getLsbD y)),
      ch || decide (bits j ≠ f)⟩ := by
  have hdisj : ∀ y, f.getLsbD y = true → t.getLsbD y = false := by
    intro y hf
    have := congrArg (BitVec.getLsbD · y) h
    simpa [hf] using this
  have hfree : countbits (f &&& ~~~ (bits j &&& ~~~ t)) = (range 8).countP fun y =>
      shownFree (f.getLsbD y) (t.getLsbD y) ((bits j).getLsbD y) := by
    refine countbits_eq fun y hy => ?_
    grind [shownFree]
  have hused : countbits ((bits j &&& ~~~ t) &&& ~~~ f) = (range 8).countP fun y =>
      shownUsed (f.getLsbD y) (t.getLsbD y) ((bits j).getLsbD y) :=
    countbits_eq fun y hy => by simp [shownUsed, hy, Bool.and_right_comm]
  rw [checkByte, if_neg (not_not.mpr h), ← hfree, ← hused]
  dsimp only
  by_cases hsame : bits j = f ∨ bits j = f ||| t
  · have hfound : bits j &&& ~~~ t = f := by
      refine BitVec.eq_of_getLsbD_eq fun y hy => ?_
      grind
    have hnone : countbits (f &&& ~~~ f) = 0 := by simp [countbits]
    rw [hfound, hnone]
    by_cases he : bits j = f
    · simp [he]
    · rw [if_neg he, if_pos (hsame.resolve_left he)]
      simp [he]
  · rw [not_or] at hsame
    rw [if_neg hsame.1, if_neg hsame.2, count_ite fun hc => ?_, count_ite fun hc => not_not.mp hc]
    · simp [hsame.1]
    · rw [BitVec.and_comm]
      exact not_not.mp hc

/-- **One block of the map.**  By induction on the bytes done. -/
theorem checkBytes_eq (h : s.Disjoint) (hmap : ∀ j < sectSize, bits j = map.v (i * sectSize + j)) :
    ∀ m ≤ sectSize, checkBytes s i ⟨bits, u32 (s.count map shownFree (8 * (i * sectSize))),
        u32 (s.count map shownUsed (8 * (i * sectSize))), false⟩ m =
      some ⟨fun j => if j < m then s.bitmapdata.v (i * sectSize + j) else bits j,
        u32 (s.count map shownFree (8 * (i * sectSize + m))),
        u32 (s.count map shownUsed (8 * (i * sectSize + m))),
        decide (∃ j < m, bits j ≠ s.bitmapdata.v (i * sectSize + j))⟩
  | 0, _ => by simp [checkBytes]
  | m + 1, hm => by
    rw [checkBytes, checkBytes_eq h hmap m (by omega)]
    dsimp only [Option.bind_eq_bind, Option.bind_some]
    rw [checkByte_eq (h.and_eq_zero _), ← Nat.add_assoc, count_succ, count_succ,
      ← hmap m (by omega)]
    simp only [Nat.lt_irrefl, if_false, Nat.exists_lt_succ_right, Bool.decide_or]
    refine congrArg (fun bits => some (BitCheck.mk bits _ _ _)) (funext fun j => ?_)
    by_cases hj : j = m
    · simp [hj]
    · rw [update_of_ne hj]
      exact if_congr (by omega) rfl rfl

/-- The free map as it is on disk. -/
def onDisk (d : Lhd) (bitblocks : Nat) : Bitmap :=
  ⟨bitblocks * sfsBlockbits, fun k => (d.disk (sfsMapLocation + k / sectSize)).byte (k % sectSize)⟩

/-- Block `i` of the map of what was found. -/
def Fsck.foundBlock (s : Fsck) (i : Nat) : Sector := fun j => s.bitmapdata.v (i * sectSize + j)

theorem checkBlock_eq {d : Lhd} (h : s.Disjoint) (hi : i < 1048576)
    (hd : sfsMapLocation + i < d.dBlocks)
    (hold : ∀ j < sectSize, (d.disk (sfsMapLocation + i)).byte j = map.v (i * sectSize + j)) :
    ∃ d', checkBlock s i (d, u32 (s.count map shownFree (8 * (i * sectSize))),
        u32 (s.count map shownUsed (8 * (i * sectSize)))) =
        some (d', u32 (s.count map shownFree (8 * ((i + 1) * sectSize))),
          u32 (s.count map shownUsed (8 * ((i + 1) * sectSize)))) ∧ d'.dBlocks = d.dBlocks ∧
      d'.disk = update d.disk (sfsMapLocation + i) (s.foundBlock i) := by
  have hsector : u32 ((sfsMapLocation + i) * sectSize) / sectSize = sfsMapLocation + i := by
    simp only [u32, sectSize, sfsMapLocation]
    omega
  have hread : d.diskread (sfsMapLocation + i) = some (d.disk (sfsMapLocation + i)) := by
    rw [Lhd.diskread, hsector, if_pos hd]
  simp only [checkBlock, hread, checkBytes_eq h hold sectSize le_rfl, Option.bind_eq_bind,
    Option.bind_some, Option.pure_def]
  rw [Nat.succ_mul i]
  split_ifs with hch
  · rw [Lhd.diskwrite, hsector, if_pos hd, Option.bind_some]
    exact ⟨_, rfl, rfl, congrArg (update _ _) (funext fun j => if_pos j.isLt)⟩
  · refine ⟨_, rfl, rfl, (update_eq_self_iff.mpr (funext fun j => ?_)).symm⟩
    simp only [decide_eq_true_eq, not_exists, not_and, not_not] at hch
    exact (hch j.val j.isLt).symm.trans (Bytes.byte_fin _ j)

/-- **All blocks of the map.**  By induction on the blocks done. -/
theorem checkBlocks_eq (h : s.Disjoint) (d : Lhd) (bitblocks : Nat) : ∀ n < 1048576,
    sfsMapLocation + n ≤ d.dBlocks →
    ∃ d', checkBlocks s d n =
        some (d', u32 (s.count (onDisk d bitblocks) shownFree (8 * (n * sectSize))),
          u32 (s.count (onDisk d bitblocks) shownUsed (8 * (n * sectSize)))) ∧
      d'.dBlocks = d.dBlocks ∧
      ∀ b, d'.disk b = if sfsMapLocation ≤ b ∧ b < sfsMapLocation + n
        then s.foundBlock (b - sfsMapLocation) else d.disk b
  | 0, _, _ => ⟨d, by simp [checkBlocks, Fsck.count, u32], rfl, fun b => (if_neg (by omega)).symm⟩
  | n + 1, hn, hd => by
    obtain ⟨d', hrun, hblocks, hdisk⟩ := checkBlocks_eq h d bitblocks n (by omega) (by omega)
    have hold : ∀ j < sectSize, (d'.disk (sfsMapLocation + n)).byte j =
        (onDisk d bitblocks).v (n * sectSize + j) := by
      intro j hj
      rw [hdisk, if_neg (by omega)]
      show _ = (d.disk (sfsMapLocation + (n * sectSize + j) / sectSize)).byte _
      simp only [sectSize] at *
      rw [show (n * 512 + j) / 512 = n by omega, show (n * 512 + j) % 512 = j by omega]
    obtain ⟨d'', hrun', hblocks', hdisk'⟩ := checkBlock_eq h (by omega) (by omega) hold
    refine ⟨d'', by rw [checkBlocks, hrun]; exact hrun', hblocks'.trans hblocks, fun b => ?_⟩
    rw [hdisk']
    rcases eq_or_ne b (sfsMapLocation + n) with rfl | hb
    · rw [update_self, if_pos (by omega), Nat.add_sub_cancel_left]
    · rw [update_of_ne hb, hdisk]
      exact if_congr (by omega) rfl rfl

/-- **`check_bitmap` makes the free map what was found**, whatever has been marked, and counts what
was wrong.  The 32-bit counts do not wrap: `check_sb` makes the map smaller than that. -/
theorem checkBitmap_exact (nblocks : Nat) (marks : List (Nat × BlockUsage)) (d : Lhd)
    (hd : sfsMapLocation + sfsBitblocks nblocks ≤ d.dBlocks) :
    let n := sfsBitblocks nblocks
    let s := marks.foldl (fun s m => bitmapMark s m.1 m.2) (bitmapInit n)
    s.Disjoint ∧ ∃ s' d', checkBitmap s n d = some (s', d',
        s.count (onDisk d n) shownFree (n * sfsBlockbits),
        s.count (onDisk d n) shownUsed (n * sfsBlockbits)) ∧
      (∀ b < n * sfsBlockbits, (onDisk d' n).isset b = s.bitmapdata.isset b) ∧
      ∀ b, ¬ IsMapBlock nblocks b → d'.disk b = d.disk b := by
  intro n s
  have h : s.Disjoint := foldlRecOn marks _ (fun b hb => by simp [bitmapInit, Bitmap.isset] at hb)
    fun _ h m _ => bitmapMark_disjoint h m.1 m.2
  have hn : n < 1048576 := by
    simp only [n, sfsBitblocks, sfsBitmapsize, sfsBlockbits, sectSize, u32]
    omega
  obtain ⟨d', hrun, -, hdisk⟩ := checkBlocks_eq h d n n hn hd
  have hcount : ∀ g, u32 (s.count (onDisk d n) g (8 * (n * sectSize))) =
      s.count (onDisk d n) g (n * sfsBlockbits) := by
    intro g
    rw [show 8 * (n * sectSize) = n * sfsBlockbits by simp only [sectSize, sfsBlockbits]; omega]
    refine u32_of_lt (lt_of_le_of_lt countP_le_length ?_)
    simp only [length_range, sectSize, sfsBlockbits]
    omega
  rw [hcount, hcount] at hrun
  refine ⟨h, _, d', by rw [checkBitmap, hrun]; rfl, fun b hb => ?_, fun b hb => ?_⟩
  · have hbyte : (onDisk d' n).v (b / 8) = s.bitmapdata.v (b / 8) := by
      simp only [sectSize, sfsBlockbits] at hb
      show (d'.disk (sfsMapLocation + b / 8 / sectSize)).byte (b / 8 % sectSize) = _
      rw [hdisk, if_pos (by simp only [sectSize]; omega), Nat.add_sub_cancel_left,
        Bytes.byte_of_lt (Nat.mod_lt _ (by decide)), Fsck.foundBlock, Nat.div_add_mod']
    rw [Bool.eq_iff_iff, Bitmap.isset_iff, Bitmap.isset_iff, hbyte]
  · exact (hdisk b).trans (if_neg hb)

/-- A volume of 32 blocks, of which one is found and another is to be freed. -/
theorem checkBitmap_exact_small :
    let s := bitmapMark (bitmapMark (bitmapInit 1) 7 .data) 9 .tofree
    s.Disjoint ∧ ∃ s' d', checkBitmap s 1 (cutVolume (fun _ => 0) 0).sfsDevice = some (s', d',
        s.count (onDisk (cutVolume (fun _ => 0) 0).sfsDevice 1) shownFree 4096,
        s.count (onDisk (cutVolume (fun _ => 0) 0).sfsDevice 1) shownUsed 4096) ∧
      ∀ b < 4096, (onDisk d' 1).isset b = s.bitmapdata.isset b := by
  obtain ⟨h, s', d', hrun, hbits, -⟩ := checkBitmap_exact 32 [(7, .data), (9, .tofree)]
    (cutVolume (fun _ => 0) 0).sfsDevice (by decide)
  exact ⟨h, s', d', hrun, hbits⟩

end FreeMap

/-! ## 3. Sorting a directory -/

/-- `strcmp`.  On an array without a zero it would read on behind the end. -/
def strcmp : List Byte → List Byte → Option Int
  | a :: as, b :: bs =>
    if a ≠ 0 ∧ a = b then strcmp as bs
    else if a > b then some 1 else if a = b then some 0 else some (-1)
  | _, _ => none

/-- `dirsortfunc`, with `global_sortdirs`. -/
def dirsortfunc (d : List SfsDir) (a b : Nat) : Option Int := do
  let ad ← d[a]?
  let bd ← d[b]?
  strcmp ad.sfdName.toList bd.sfdName.toList

/-- The body of the inner loop of `qsort`. -/
def qsortBody (f : Nat → Nat → Option Int) (i : Nat) (data : List Nat) (j : Nat) :
    Option (List Nat) := do
  let a ← data[i]?
  let b ← data[j]?
  let c ← f a b
  if c < 0 then some ((data.set i b).set j a) else some data

/-- The `qsort` of `sfsck`. -/
def qsort (data : List Nat) (num : Nat) (f : Nat → Nat → Option Int) : Option (List Nat) :=
  (range' 0 (num - 1)).foldlM
    (fun data i => (range' (i + 1) (num - (i + 1))).foldlM (qsortBody f i) data) data

/-- `sortdir`. -/
def sortdir (vector : List Nat) (d : List SfsDir) (nd : Nat) : Option (List Nat) :=
  qsort vector nd (dirsortfunc d)

theorem strcmp_some : ∀ {a b : List Byte}, 0 ∈ a → 0 ∈ b → ∃ c, strcmp a b = some c
  | x :: as, y :: bs, ha, hb => by
    rw [strcmp]
    split_ifs with h
    · obtain ⟨h0, rfl⟩ := h
      exact strcmp_some (by grind) (by grind)
    all_goals exact ⟨_, rfl⟩

theorem strcmp_swap : ∀ {a b : List Byte} {c : Int}, strcmp a b = some c → strcmp b a = some (-c)
  | x :: as, y :: bs, c, h => by
    rw [strcmp] at h ⊢
    by_cases hxy : x ≠ 0 ∧ x = y
    · rw [if_pos hxy] at h
      rw [if_pos (by grind)]
      exact strcmp_swap h
    · rw [if_neg hxy] at h
      rw [if_neg (by grind)]
      grind

theorem strcmp_trans : ∀ {a b e : List Byte} {c c' : Int}, strcmp a b = some c → 0 ≤ c →
    strcmp b e = some c' → 0 ≤ c' → ∃ c'', strcmp a e = some c'' ∧ 0 ≤ c''
  | x :: as, y :: bs, z :: es, c, c', h, hc, h', hc' => by
    rw [strcmp] at h h' ⊢
    by_cases hxyz : (x ≠ 0 ∧ x = y) ∧ y = z
    · obtain ⟨⟨h0, rfl⟩, rfl⟩ := hxyz
      rw [if_pos ⟨h0, rfl⟩] at h h' ⊢
      exact strcmp_trans h hc h' hc'
    · grind

/-- A loop over an interval. -/
theorem foldlM_range' {β : Type} {body : β → Nat → Option β} {I : Nat → β → Prop} :
    ∀ {n s : Nat} {x : β}, (∀ j y, s ≤ j → j < s + n → I j y → ∃ y', body y j = some y' ∧
      I (j + 1) y') → I s x → ∃ y, (range' s n).foldlM body x = some y ∧ I (s + n) y
  | 0, s, x, _, hx => ⟨x, rfl, hx⟩
  | n + 1, s, x, hbody, hx => by
    obtain ⟨x', hrun, hx'⟩ := hbody s x le_rfl (by omega) hx
    obtain ⟨y, hrest, hy⟩ := foldlM_range' (n := n) (s := s + 1)
      (fun j y hj hlt => hbody j y (by omega) (by omega)) hx'
    refine ⟨y, ?_, by rwa [Nat.add_right_comm, Nat.add_assoc] at hy⟩
    rw [range'_succ, foldlM_cons, hrun]
    exact hrest

/-- `a` does not come before `b`. -/
def NotBefore (f : Nat → Nat → Option Int) (a b : Nat) : Prop := ∃ c, f a b = some c ∧ 0 ≤ c

/-- A comparison of the numbers below `n`. -/
structure Compares (f : Nat → Nat → Option Int) (n : Nat) : Prop where
  some : ∀ {a b}, a < n → b < n → ∃ c, f a b = some c
  swap : ∀ {a b c}, f a b = Option.some c → f b a = Option.some (-c)
  trans : ∀ {a b e}, NotBefore f a b → NotBefore f b e → NotBefore f a e

/-- What is at `k` does not come before what is at `l`. -/
def Placed (f : Nat → Nat → Option Int) (data : List Nat) (k l : Nat) : Prop :=
  ∀ {a b}, data[k]? = some a → data[l]? = some b → NotBefore f a b

/-- The first `i` places hold what belongs there. -/
structure SortedTo (f : Nat → Nat → Option Int) (n i : Nat) (data : List Nat) : Prop where
  perm : data.Perm (range n)
  placed : ∀ k < i, ∀ l > k, Placed f data k l

section Exchanges

variable {f : Nat → Nat → Option Int} {n i j : Nat} {data : List Nat}

theorem SortedTo.get (h : SortedTo f n i data) (hj : j < n) : ∃ a < n, data[j]? = some a := by
  have hlen : data.length = n := by simpa using h.perm.length_eq
  refine ⟨data[j], mem_range.mp (h.perm.mem_iff.mp (getElem_mem _)), getElem?_eq_getElem _⟩

/-- **One round of the inner loop.**  What is at `i` does not come before what is between `i` and
`j`. -/
theorem qsortBody_spec (hf : Compares f n) (h : SortedTo f n i data)
    (hmax : ∀ l, i < l → l < j → Placed f data i l) (hij : i < j) (hj : j < n) :
    ∃ data', qsortBody f i data j = some data' ∧ SortedTo f n i data' ∧
      ∀ l, i < l → l < j + 1 → Placed f data' i l := by
  obtain ⟨a, han, ha⟩ := h.get (hij.trans hj)
  obtain ⟨b, hbn, hb⟩ := h.get hj
  obtain ⟨c, hc⟩ := hf.some han hbn
  simp only [qsortBody, ha, hb, hc, Option.bind_eq_bind, Option.bind_some]
  split_ifs with hneg
  · have hback : NotBefore f b a := ⟨-c, hf.swap hc, by omega⟩
    obtain ⟨hi', rfl⟩ := List.getElem?_eq_some_iff.mp ha
    obtain ⟨hj', rfl⟩ := List.getElem?_eq_some_iff.mp hb
    have hget : ∀ k, ((data.set i data[j]).set j data[i])[k]? =
        data[if k = i then j else if k = j then i else k]? := by
      grind
    refine ⟨_, rfl, ⟨(set_set_perm hi' hj').trans h.perm, fun k hk l hl x y hx hy => ?_⟩,
      fun l hil hl x y hx hy => ?_⟩
    · rw [hget, if_neg (by omega), if_neg (by omega)] at hx
      rw [hget] at hy
      exact h.placed k hk _ (by split_ifs <;> omega) hx hy
    · rw [hget, if_pos rfl, hb] at hx
      cases hx
      rw [hget, if_neg (by omega)] at hy
      split_ifs at hy with hlj
      · rw [ha] at hy
        cases hy
        exact hback
      · exact hf.trans hback (hmax l hil (by omega) ha hy)
  · refine ⟨_, rfl, h, fun l hil hl => ?_⟩
    rcases Nat.lt_succ_iff_lt_or_eq.mp hl with hl | rfl
    · exact hmax l hil hl
    · intro x y hx hy
      rw [ha] at hx
      rw [hb] at hy
      cases hx
      cases hy
      exact ⟨c, hc, by omega⟩

/-- **A round of the outer loop** finds what belongs at `i`. -/
theorem qsortRound_spec (hf : Compares f n) (h : SortedTo f n i data) (hi : i < n) :
    ∃ data', (range' (i + 1) (n - (i + 1))).foldlM (qsortBody f i) data = some data' ∧
      SortedTo f n (i + 1) data' := by
  obtain ⟨data', hrun, h', hmax⟩ := foldlM_range' (s := i + 1) (n := n - (i + 1))
    (I := fun j data => SortedTo f n i data ∧ ∀ l, i < l → l < j → Placed f data i l)
    (fun j y hj hlt hy => qsortBody_spec hf hy.1 hy.2 (by omega) (by omega))
    ⟨h, fun l hil hl => by omega⟩
  refine ⟨data', hrun, h'.perm, fun k hk l hkl => ?_⟩
  rcases Nat.lt_succ_iff_lt_or_eq.mp hk with hk | rfl
  · exact h'.placed k hk l hkl
  · intro x y hx hy
    have hlen : data'.length = n := by simpa using h'.perm.length_eq
    obtain ⟨hl, -⟩ := List.getElem?_eq_some_iff.mp hy
    exact hmax l hkl (by omega) hx hy

theorem qsort_spec (hf : Compares f n) :
    ∃ v, qsort (range n) n f = some v ∧ v.Perm (range n) ∧ v.Pairwise (NotBefore f) := by
  obtain ⟨v, hrun, hv⟩ := foldlM_range' (s := 0) (n := n - 1) (I := SortedTo f n)
    (fun i data _ hi h => qsortRound_spec hf h (by omega)) ⟨.rfl, nofun⟩
  have hlen : v.length = n := by simpa using hv.perm.length_eq
  refine ⟨v, hrun, hv.perm, pairwise_iff_getElem.mpr ?_⟩
  intro k l hk hl hkl
  exact hv.placed k (by omega) l hkl (getElem?_eq_getElem hk) (getElem?_eq_getElem hl)

end Exchanges

/-- `strcmp` on the names of a directory is such a comparison. -/
theorem dirsortfunc_compares {n : Nat} {d : List SfsDir} (hn : n ≤ d.length)
    (hd : ∀ e ∈ d, 0 ∈ e.sfdName.toList) : Compares (dirsortfunc d) n := by
  have hcmp : ∀ {a b c}, dirsortfunc d a b = some c → ∃ x y, d[a]? = some x ∧ d[b]? = some y ∧
      strcmp x.sfdName.toList y.sfdName.toList = some c := by
    intro a b c h
    simpa [dirsortfunc, Option.bind_eq_some_iff] using h
  refine ⟨fun {a b} ha hb => ?_, fun {a b c} h => ?_, ?_⟩
  · have ha' := getElem?_eq_getElem (ha.trans_le hn)
    have hb' := getElem?_eq_getElem (hb.trans_le hn)
    simp only [dirsortfunc, ha', hb']
    exact strcmp_some (hd _ (getElem_mem _)) (hd _ (getElem_mem _))
  · obtain ⟨x, y, hx, hy, hc⟩ := hcmp h
    simp only [dirsortfunc, hx, hy]
    exact strcmp_swap hc
  · rintro a b e ⟨c, h, hc⟩ ⟨c', h', hc'⟩
    obtain ⟨x, y, hx, hy, hxy⟩ := hcmp h
    obtain ⟨y', z, hy', hz, hyz⟩ := hcmp h'
    cases hy.symm.trans hy'
    simp only [NotBefore, dirsortfunc, hx, hz]
    exact strcmp_trans hxy hc hyz hc'

/-- **The directory is sorted.**  The vector is a permutation of the entries, their names do not
increase, and entries of one name are next to each other. -/
theorem sortdir_sorts {n : Nat} {d : List SfsDir} (hn : n ≤ d.length)
    (hd : ∀ e ∈ d, 0 ∈ e.sfdName.toList) : ∃ v, sortdir (range n) d n = some v ∧
      v.Perm (range n) ∧ v.Nodup ∧ v.Pairwise (NotBefore (dirsortfunc d)) ∧
      ∀ i j k a b c : Nat, i < j → j < k → v[i]? = some a → v[j]? = some b → v[k]? = some c →
        dirsortfunc d a c = some 0 → dirsortfunc d a b = some 0 := by
  have hf := dirsortfunc_compares hn hd
  obtain ⟨v, hrun, hperm, hsorted⟩ := qsort_spec hf
  refine ⟨v, hrun, hperm, hperm.nodup_iff.mpr nodup_range, hsorted, ?_⟩
  intro i j k a b c hij hjk hi hj hk h0
  obtain ⟨hi', rfl⟩ := List.getElem?_eq_some_iff.mp hi
  obtain ⟨hj', rfl⟩ := List.getElem?_eq_some_iff.mp hj
  obtain ⟨hk', rfl⟩ := List.getElem?_eq_some_iff.mp hk
  obtain ⟨x, hx, hx0⟩ := pairwise_iff_getElem.mp hsorted i j hi' hj' hij
  have hjk := pairwise_iff_getElem.mp hsorted j k hj' hk' hjk
  obtain ⟨y, hy, hy0⟩ := hf.trans hjk ⟨_, hf.swap h0, le_rfl⟩
  cases hx.symm.trans (hf.swap hy)
  rw [hx, le_antisymm (by omega : -y ≤ 0) hx0]

/-- Two entries of one name, and one between them. -/
theorem sortdir_sorts_three :
    let e := fun c : Byte => SfsDir.mk 1 fun k => if k.val = 0 then c else 0
    ∃ v, sortdir (range 3) [e 97, e 98, e 97] 3 = some v ∧ v.Perm (range 3) ∧ v.Nodup := by
  obtain ⟨v, hrun, hperm, hnodup, -⟩ := sortdir_sorts (n := 3)
    (d := [97, 98, 97].map fun c : Byte => ⟨1, fun k => if k.val = 0 then c else 0⟩) le_rfl
    (by simp; decide)
  exact ⟨v, hrun, hperm, hnodup⟩

end Os161
