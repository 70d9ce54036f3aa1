/-
# `user/sbin/mksfs`: making a volume

`mksfs` writes a superblock, the inode of an empty root directory, and a free map in which the
superblock, the root inode, the map itself and every bit past the end of the disk are marked.
It is a user program: it gives up with a message (`errx`) where the kernel would return an error
number, and its assertions end it.

The result of this file is that the volume `sfs_domount` makes of a disk that `mksfs` has written
is well formed, with the root directory as its only object and every marked block accounted for
(`Formatted.wf`).  All runs of the file system that start from a fresh volume start here.
-/
import Os161.Sfs.Mount

namespace Os161

open Function List SfsFs

/-! ## 1. The code -/

/-- What `mksfs` gives up with. -/
inductive MksfsErr
  | illegalVolname | volnameTooLong | tooLarge | write
  deriving DecidableEq, Repr

/-- A program over the disk and `bitbuf`. -/
abbrev Mksfs (α : Type) := Prog MksfsErr (Lhd × Bitmap) α

/-- `MAXBITBLOCKS`. -/
abbrev maxBitblocks : Nat := 32

/-- `bitbuf`, which starts out as zeros. -/
def bitbuf : Bitmap := ⟨maxBitblocks * sectSize * 8, fun _ => 0⟩

/-- `diskwrite`, to a disk that does not fail. -/
def diskwrite (data : Sector) (block : Nat) : Mksfs Unit := do
  let s ← get
  if s.1.dBlocks ≤ block then fail .write
  else modify fun s => (s.1.store block data, s.2)

/-- `writesuper`. -/
def writesuper (volname : List Byte) (nblocks : Nat) : Mksfs Unit :=
  if sfsVolnameSize ≤ volname.length then fail .volnameTooLong
  else diskwrite (encodeSuper ⟨sfsMagic, nblocks, Bytes.ofList volname⟩) sfsSbLocation

/-- The inode of an empty root directory. -/
def rootInode : SfsInode := { emptyInode with sfiType := .dir, sfiLinkcount := 1 }

/-- `writerootdir`. -/
def writerootdir : Mksfs Unit := diskwrite (encodeInode rootInode) sfsRootLocation

/-- `doallocbit`. -/
def doallocbit (bit : Nat) : Mksfs Unit := do
  let s ← get
  assert (s.2.isset bit = false)
  modify fun s => (s.1, s.2.set bit)

/-- `writebitmap`. -/
def writebitmap (fsblocks : Nat) : Mksfs Unit := do
  let nbits := sfsBitmapsize fsblocks
  let nblocks := sfsBitblocks fsblocks
  if nblocks > maxBitblocks then fail .tooLarge
  else do
    doallocbit sfsSbLocation
    doallocbit sfsRootLocation
    forEach (fun i => doallocbit (sfsMapLocation + i)) (List.range nblocks)
    forEach (fun i => doallocbit i) (List.range' fsblocks (nbits - fsblocks))
    forEach (fun i => do
      let s ← get
      diskwrite (s.2.sector i) (sfsMapLocation + i)) (List.range nblocks)

/-- The volume name `main` makes of its argument: one trailing colon is removed, and no other
colon and no slash is allowed. -/
def mksfsVolname (volname : List Byte) : Mksfs (List Byte) := do
  let s := volname.dropWhile (· ≠ 58)
  if s.length > 1 then fail .illegalVolname
  else do
    let volname := volname.takeWhile (· ≠ 58)
    if 47 ∈ volname then fail .illegalVolname else pure volname

/-- `main`, on the opened disk. -/
def mksfs (volname : CString) : Mksfs Unit := do
  let volname ← mksfsVolname volname.val
  let s ← get
  writesuper volname s.1.dBlocks
  writerootdir
  writebitmap s.1.dBlocks

/-! ## 2. What it writes -/

section Writing

variable {d d' : Lhd} {m m' : Bitmap}

variable {p : Prop} {b n : Nat} {Q : Unit → Lhd × Bitmap → Prop}
  {E : MksfsErr → Lhd × Bitmap → Prop}

/-- A loop of `doallocbit` marks its bits.  Its assertion fails only if a bit was marked before,
or comes up twice. -/
theorem doallocbits_spec (f : Nat → Nat) : ∀ (l : List Nat) (m : Bitmap),
    (((∀ i ∈ l, m.isset (f i) = false) ∧ (l.map f).Nodup) ∨ p) →
    Wp p (forEach (fun i => doallocbit (f i)) l)
      (fun _ s => s.1 = d ∧ (∀ b, s.2.isset b = true ↔ m.isset b = true ∨ ∃ i ∈ l, b = f i) ∧
        ∀ i ∈ l, m.isset (f i) = false)
      (fun _ _ => False) (d, m)
  | [], m, _ => by
    rw [forEach, wp_pure]
    exact ⟨rfl, by simp, by simp⟩
  | i :: l, m, hp => by
    rw [forEach, wp_bind, doallocbit, wp_bind, wp_get, wp_bind, wp_assert]
    refine ⟨fun hclear => ?_, fun hset => hp.elim (fun h => absurd (h.1 i (by simp)) hset) id⟩
    rw [wp_modify]
    refine (doallocbits_spec f l (m.set (f i)) ?_).post ?_
    · refine hp.imp_left fun h => ?_
      obtain ⟨hall, hnd⟩ := h
      rw [map_cons, nodup_cons] at hnd
      refine ⟨fun j hj => ?_, hnd.2⟩
      rw [Bool.eq_false_iff]
      intro hset
      rcases Bitmap.isset_set.mp hset with heq | hset
      · exact hnd.1 (heq ▸ mem_map_of_mem hj)
      · rw [hall j (by simp [hj])] at hset
        exact absurd hset (by decide)
    rintro _ ⟨d', m'⟩ ⟨rfl, hset, hrest⟩
    refine ⟨rfl, fun b => ?_, fun j hj => ?_⟩
    · rw [hset, Bitmap.isset_set]
      simp only [mem_cons, exists_eq_or_imp]
      tauto
    · rcases mem_cons.mp hj with rfl | hj
      · exact hclear
      · have hj' := hrest j hj
        rw [Bool.eq_false_iff] at hj' ⊢
        exact fun h => hj' (Bitmap.isset_set.mpr (.inr h))

theorem wp_diskwrite {data : Sector} (hE : d.dBlocks ≤ b → E .write (d, m))
    (hQ : b < d.dBlocks → Q () (d.store b data, m)) : Wp p (diskwrite data b) Q E (d, m) := by
  rw [diskwrite, wp_bind, wp_get]
  by_cases hb : d.dBlocks ≤ b
  · rw [if_pos hb]
    exact wp_fail.mpr (hE hb)
  · rw [if_neg hb, wp_modify]
    exact hQ (by omega)

theorem writemap_spec (n : Nat) : Wp p (forEach (fun i => do
        let s ← get
        diskwrite (s.2.sector i) (sfsMapLocation + i)) (range n))
      (fun _ s => s.2 = m ∧ MapSaved m n d [] s.1)
      (fun _ _ => d.dBlocks < sfsMapLocation + n) (d, m) := by
  refine wp_forEach (fun rest (s : Lhd × Bitmap) => s.2 = m ∧ MapSaved m n d rest s.1) ?_ _ _
    ⟨rfl, .start m n d⟩
  rintro i rest ⟨d', m'⟩ ⟨rfl, h⟩
  have hdb : d'.dBlocks = d.dBlocks := h.dBlocks
  have hin := h.todo i mem_cons_self
  rw [wp_bind, wp_get]
  exact wp_diskwrite (fun hge => by omega) fun _ => ⟨rfl, h.next⟩

/-- The superblock `mksfs` writes is read back with the same magic number and size. -/
theorem decodeSuper_encodeSuper {s : SfsSuper} (hmagic : s.spMagic < 4294967296)
    (hblocks : s.spNblocks < 4294967296) :
    (decodeSuper (encodeSuper s)).spMagic = s.spMagic ∧
      (decodeSuper (encodeSuper s)).spNblocks = s.spNblocks := by
  have hword : ∀ k < 2, (encodeSuper s).word k = (if k = 0 then s.spMagic else s.spNblocks) := by
    intro k hk
    have hbyte : ∀ i < 8, (encodeSuper s).byte i = (Bytes.ofWords fun k =>
        if k = 0 then s.spMagic else if k = 1 then s.spNblocks else 0 : Sector).byte i := by
      intro i hi
      rw [encodeSuper, Bytes.byte_splice (show i < 512 by omega), if_neg (by omega)]
    have hw := Bytes.word_ofWords (n := 512) (k := k)
      (w := fun k => if k = 0 then s.spMagic else if k = 1 then s.spNblocks else 0) (by omega)
    rw [Bytes.word, hbyte _ (by omega), hbyte _ (by omega), hbyte _ (by omega), hbyte _ (by omega)]
    refine hw.trans ?_
    rcases (by omega : k = 0 ∨ k = 1) with rfl | rfl
    · exact Nat.mod_eq_of_lt hmagic
    · exact Nat.mod_eq_of_lt hblocks
  exact ⟨hword 0 (by decide), hword 1 (by decide)⟩

/-- There is room on the disk for the superblock, the root inode and the map. -/
def Roomy (n : Nat) : Prop := sfsMapLocation + sfsBitblocks n ≤ n

/-- **A disk that `mksfs` has written**, with `n` blocks and a free map.  The fields say what a
mount will find. -/
structure Formatted (d : Lhd) : Prop where
  magic : (decodeSuper (d.disk sfsSbLocation)).spMagic = sfsMagic
  nblocks : (decodeSuper (d.disk sfsSbLocation)).spNblocks = d.dBlocks
  root : decodeInode (d.disk sfsRootLocation) = rootInode
  small : d.dBlocks ≤ 131072
  room : Roomy d.dBlocks
  map : ∀ b < sfsBitmapsize d.dBlocks, (mapOnDisk d.disk d.dBlocks).isset b = true ↔
    b = sfsSbLocation ∨ b = sfsRootLocation ∨ IsMapBlock d.dBlocks b ∨ d.dBlocks ≤ b

theorem rootInode_fits : rootInode.Fits :=
  ⟨by decide, by decide, fun _ => Nat.succ_pos _, by decide⟩

/-- The bits in the map on disk are those of the buffer it was written from. -/
theorem isset_mapOnDisk {disk : Nat → Sector}
    (h : ∀ i < sfsBitblocks n, disk (sfsMapLocation + i) = m.sector i) (hb : b < sfsBitmapsize n) :
    (mapOnDisk disk n).isset b = m.isset b := by
  have hlt : b / 8 / 512 < sfsBitblocks n := by
    rw [sfsBitmapsize_eq] at hb
    simp only [sfsBlockbits, sectSize] at hb
    omega
  have hv : (mapOnDisk disk n).v (b / 8) = m.v (b / 8) := by
    show (if b / 8 / 512 < sfsBitblocks n then _ else _) = _
    rw [if_pos hlt, h _ hlt, Bytes.byte_of_lt (Nat.mod_lt _ (by decide))]
    show m.v (b / 8 / 512 * 512 + b / 8 % 512) = _
    rw [Nat.div_add_mod']
  rw [Bitmap.isset, Bitmap.isset, hv]

theorem le_of_bitblocks (hn : n < 4294967296) (hpos : 0 < sfsBitblocks n)
    (hle : sfsBitblocks n ≤ maxBitblocks) : n ≤ 131072 ∧ n ≤ sfsBitmapsize n := by
  simp only [sfsBitblocks, sfsBitmapsize, sfsBlockbits, sectSize, u32, maxBitblocks] at *
  omega

/-- `writebitmap` on a buffer of zeros.  Its assertions fail exactly if the disk has no room for
the superblock, the root inode and the map. -/
theorem writebitmap_spec (hn : n < 4294967296) (hmap : 0 < sfsBitblocks n) :
    Wp (¬ Roomy n) (writebitmap n) (fun _ s => s.1.dBlocks = d.dBlocks ∧ s.1.outcome = d.outcome ∧
        (∀ b < sfsMapLocation, s.1.disk b = d.disk b) ∧ n ≤ 131072 ∧ Roomy n ∧
        ∀ b < sfsBitmapsize n, (mapOnDisk s.1.disk n).isset b = true ↔
          b = sfsSbLocation ∨ b = sfsRootLocation ∨ IsMapBlock n b ∨ n ≤ b)
      (fun _ _ => maxBitblocks < sfsBitblocks n ∨ d.dBlocks < sfsMapLocation + sfsBitblocks n)
      (d, bitbuf) := by
  rw [writebitmap]
  refine wp_ite.mpr ⟨fun hgt => wp_fail.mpr (.inl hgt), fun hle => ?_⟩
  obtain ⟨hsmall, hbits⟩ := le_of_bitblocks hn hmap (Nat.le_of_not_lt hle)
  have hzero : ∀ b, bitbuf.isset b = false := fun b => by simp [Bitmap.isset, bitbuf]
  -- the two single bits are a loop too
  have hpair := doallocbits_spec (d := d) (p := ¬ Roomy n) id [sfsSbLocation, sfsRootLocation]
    bitbuf (.inl ⟨fun b _ => hzero b, by decide⟩)
  simp only [forEach, wp_bind, wp_pure, id] at hpair
  refine hpair.bind_ok ?_
  intro _ s hs
  refine hs.bind_ok ?_
  rintro _ ⟨d₁, m₁⟩ ⟨rfl, h1, -⟩
  have hlow1 : ∀ b, m₁.isset b = true ↔ b = sfsSbLocation ∨ b = sfsRootLocation := by
    intro b
    rw [h1, hzero]
    simp
  refine (doallocbits_spec _ _ m₁ (.inl ⟨fun i _ => ?_, ?_⟩)).bind_ok ?_
  · rw [Bool.eq_false_iff, Ne, hlow1]
    simp only [sfsSbLocation, sfsRootLocation, sfsMapLocation]
    omega
  · exact nodup_range.map fun i j h => by simpa using h
  rintro _ ⟨d₂, m₂⟩ ⟨rfl, h2, -⟩
  have hlow2 : ∀ b, m₂.isset b = true ↔ b = sfsSbLocation ∨ b = sfsRootLocation ∨
      IsMapBlock n b := by
    intro b
    rw [h2, hlow1, or_assoc]
    refine or_congr_right (or_congr_right ⟨?_, fun h => ⟨b - sfsMapLocation, ?_, ?_⟩⟩)
    · rintro ⟨i, hi, rfl⟩
      exact ⟨by omega, Nat.add_lt_add_left (mem_range.mp hi) _⟩
    · rw [mem_range]
      have := h.2
      omega
    · have := h.1
      omega
  refine (doallocbits_spec _ _ m₂ ?_).bind_ok ?_
  · by_cases hroom : Roomy n
    · refine .inl ⟨fun i hi => ?_, by simpa using nodup_range'⟩
      have hni := (mem_range'_1.mp hi).1
      rw [Bool.eq_false_iff, Ne, hlow2]
      simp only [Roomy, sfsSbLocation, sfsRootLocation, IsMapBlock, sfsMapLocation] at *
      omega
    · exact .inr hroom
  rintro _ ⟨d₃, m₃⟩ ⟨rfl, h3, hclear⟩
  refine (writemap_spec _).imp ?_ (fun _ _ h => .inr h)
  rintro _ ⟨d₄, m₄⟩ ⟨rfl, h4⟩
  refine ⟨h4.dBlocks, h4.outcome, fun b hb => h4.other b fun hge => absurd hb (by omega), hsmall,
    ?_, fun b hb => ?_⟩
  · -- a bit past the end of the disk is marked last, and must have been clear
    by_contra hlt
    have hbig : n < sfsBitmapsize n := by
      rw [sfsBitmapsize_eq] at hbits ⊢
      simp only [Roomy, sfsBlockbits, sectSize, sfsMapLocation] at *
      omega
    have hn' := hclear n (mem_range'_1.mpr ⟨le_refl n, by omega⟩)
    rw [Bool.eq_false_iff] at hn'
    refine hn' ((hlow2 n).mpr ?_)
    simp only [Roomy, sfsSbLocation, sfsRootLocation, IsMapBlock, sfsMapLocation] at *
    omega
  · rw [isset_mapOnDisk (fun i hi => h4.saved i hi not_mem_nil) hb, h3, hlow2]
    simp only [mem_range'_1]
    constructor
    · rintro (h | ⟨i, hi, rfl⟩)
      · tauto
      · exact .inr (.inr (.inr hi.1))
    · rintro (h | h | h | h)
      · exact .inl (.inl h)
      · exact .inl (.inr (.inl h))
      · exact .inl (.inr (.inr h))
      · exact .inr ⟨b, ⟨h, by omega⟩, rfl⟩

/-- A volume name that `mksfs` takes. -/
def GoodVolname (volname : List Byte) : Prop :=
  (volname.dropWhile (· ≠ 58)).length ≤ 1 ∧ 47 ∉ volname.takeWhile (· ≠ 58) ∧
    (volname.takeWhile (· ≠ 58)).length < sfsVolnameSize

/-- The disk with the superblock and the root inode on it. -/
def Lhd.labelled (d : Lhd) (name : List Byte) : Lhd :=
  (d.store sfsSbLocation (encodeSuper ⟨sfsMagic, d.dBlocks, Bytes.ofList name⟩)).store
    sfsRootLocation (encodeInode rootInode)

theorem Lhd.super_labelled (name : List Byte) :
    (decodeSuper ((d.labelled name).disk sfsSbLocation)).spMagic = sfsMagic ∧
      (decodeSuper ((d.labelled name).disk sfsSbLocation)).spNblocks = d.dBlocks := by
  rw [Lhd.labelled, Lhd.disk_store, Lhd.disk_store, update_of_ne (by decide), update_self]
  exact decodeSuper_encodeSuper (s := ⟨sfsMagic, d.dBlocks, Bytes.ofList name⟩)
    (show sfsMagic < 4294967296 by decide) d.dBlocks_lt

theorem Lhd.root_labelled (name : List Byte) :
    decodeInode ((d.labelled name).disk sfsRootLocation) = rootInode := by
  rw [Lhd.labelled, Lhd.disk_store, update_self, decodeInode_encodeInode rootInode_fits]

theorem wp_mksfs (volname : CString)
    (hE : ¬ GoodVolname volname.val ∨ d.dBlocks < sfsMapLocation → ∀ e s, E e s)
    (hbitmap : ∀ name, sfsMapLocation ≤ d.dBlocks →
      Wp p (writebitmap d.dBlocks) Q E (d.labelled name, bitbuf)) :
    Wp p (mksfs volname) Q E (d, bitbuf) := by
  rw [mksfs, wp_bind, mksfsVolname]
  refine wp_ite.mpr ⟨fun h => wp_fail.mpr (hE (.inl fun hg => absurd hg.1 (by omega)) _ _),
    fun _ => ?_⟩
  refine wp_ite.mpr ⟨fun h => wp_fail.mpr (hE (.inl fun hg => hg.2.1 h) _ _), fun _ => ?_⟩
  rw [wp_pure]
  have htoolong : sfsVolnameSize ≤ (volname.val.takeWhile (· ≠ 58)).length →
      ¬ GoodVolname volname.val := fun h hg => absurd hg.2.2 (by omega)
  generalize volname.val.takeWhile (· ≠ 58) = name at htoolong ⊢
  rw [wp_bind, wp_get, wp_bind, writesuper]
  refine wp_ite.mpr ⟨fun h => wp_fail.mpr (hE (.inl (htoolong h)) _ _), fun _ => ?_⟩
  refine wp_diskwrite (fun h => hE (.inr ?_) _ _) fun _ => ?_
  · simp only [sfsSbLocation, sfsMapLocation] at *
    omega
  rw [wp_bind, writerootdir]
  refine wp_diskwrite (fun (h : d.dBlocks ≤ _) => hE (.inr ?_) _ _) fun h => hbitmap name ?_
  · simp only [sfsRootLocation, sfsMapLocation] at *
    omega
  · have hroot : ¬ d.dBlocks ≤ sfsRootLocation := Nat.not_le_of_lt h
    simp only [sfsRootLocation, sfsMapLocation] at *
    omega

/-- **`mksfs`** leaves a formatted disk, if it succeeds and there was a map to write; and it
succeeds if the name is good and the disk is neither too small nor too large. -/
theorem mksfs_spec (volname : CString) (hmap : 0 < sfsBitblocks d.dBlocks) :
    Wp (¬ Roomy d.dBlocks) (mksfs volname)
      (fun _ s => Formatted s.1 ∧ s.1.dBlocks = d.dBlocks ∧ s.1.outcome = d.outcome)
      (fun _ _ => ¬ GoodVolname volname.val ∨ maxBitblocks < sfsBitblocks d.dBlocks ∨
        ¬ Roomy d.dBlocks) (d, bitbuf) := by
  refine wp_mksfs volname (fun h _ _ => h.imp_right fun hsmall => .inr fun hroom => ?_)
    fun name _ => ?_
  · exact absurd hsmall (Nat.not_lt_of_le ((Nat.le_add_right _ _).trans hroom))
  refine (writebitmap_spec d.dBlocks_lt hmap).imp ?_ ?_
  · rintro _ ⟨d', m'⟩ ⟨hdb', ho, hlow, hsmall, hfits, hbits⟩
    have hdb' : d'.dBlocks = d.dBlocks := hdb'
    have hlow : ∀ b < sfsMapLocation, d'.disk b = (d.labelled name).disk b := hlow
    obtain ⟨hmagic, hblocks⟩ := d.super_labelled name
    refine ⟨⟨?_, ?_, ?_, ?_, ?_, ?_⟩, hdb', ho⟩
    · rw [hlow _ (by decide)]
      exact hmagic
    · rw [hlow _ (by decide), hdb']
      exact hblocks
    · rw [hlow _ (by decide)]
      exact d.root_labelled name
    · rw [hdb']
      exact hsmall
    · rw [hdb']
      exact hfits
    · rw [hdb']
      exact hbits
  · rintro e s (h | h)
    · exact .inr (.inl h)
    · exact .inr (.inr (Nat.not_le_of_lt h))

theorem mksfs_unmapped (volname : CString) (hmap : sfsBitblocks d.dBlocks = 0) :
    Wp False (mksfs volname) (fun _ s => sfsMapLocation ≤ d.dBlocks ∧ ∃ name, s.1 = d.labelled name)
      (fun _ _ => ¬ GoodVolname volname.val ∨ d.dBlocks < sfsMapLocation) (d, bitbuf) := by
  refine wp_mksfs volname (fun h _ _ => h) fun name hroom => ?_
  have hbits : sfsBitmapsize d.dBlocks = 0 := by rw [sfsBitmapsize_eq, hmap, Nat.zero_mul]
  rw [writebitmap, hmap, hbits, if_neg (by decide), Nat.zero_sub]
  simp only [doallocbit, wp_bind, wp_get, wp_assert, wp_modify, range_zero,
    range'_zero, forEach, wp_pure]
  refine ⟨fun _ => ⟨fun _ => ⟨hroom, name, rfl⟩, fun hset => hset ?_⟩, fun hset => hset ?_⟩
  · decide
  · decide

end Writing

/-! ## 3. Mounting what it wrote -/

section Fresh

open Classical

variable {fs : SfsFs}

section

variable (h : Formatted fs.sfsDevice)

include h

theorem Formatted.freemap_mounted (k : Nat) :
    (fs.mounted k).sfsFreemap = mapOnDisk fs.sfsDevice.disk fs.sfsDevice.dBlocks := by
  rw [← h.nblocks]
  rfl

theorem Formatted.isset_mounted (k : Nat) {b : Nat}
    (hb : b < fs.sfsDevice.dBlocks) : (fs.mounted k).sfsFreemap.isset b = true ↔
      b = sfsSbLocation ∨ b = sfsRootLocation ∨ IsMapBlock fs.sfsDevice.dBlocks b := by
  have hle : fs.sfsDevice.dBlocks ≤ sfsBitmapsize fs.sfsDevice.dBlocks :=
    le_sfsBitmapsize (h.small.trans (by decide))
  rw [h.freemap_mounted, h.map b (by omega)]
  constructor
  · rintro (h1 | h1 | h1 | h1)
    · exact .inl h1
    · exact .inr (.inl h1)
    · exact .inr (.inr h1)
    · omega
  · tauto

/-- The volume that `mksfs` and a mount make: **well formed, with the root directory as its only
object**, and nothing marked that is not accounted for. -/
theorem Formatted.wf (hd : fs.sfsDevice.Reliable) (k : Nat) :
    Wf True (fs.mounted k) {sfsRootLocation} := by
  have hn : (fs.mounted k).nblocks = fs.sfsDevice.dBlocks := h.nblocks
  have hfits : sfsMapLocation + sfsBitblocks _ ≤ _ := h.room
  have hmap := h.freemap_mounted k
  have hinode : (fs.mounted k).inode sfsRootLocation = rootInode := h.root
  have href : ∀ s, ((fs.mounted k).ledger {sfsRootLocation}).ref s = 0 := by
    rintro ⟨i, r⟩
    by_cases hi : i ∈ ({sfsRootLocation} : Set Nat)
    · rw [ledger_ref hi, refAt, show i = sfsRootLocation from hi, hinode]
      cases r <;> rfl
    · exact if_neg hi
  refine
    { reliable := hd
      nblocks_le := hn.le
      nblocks_small := hn ▸ h.small.trans (by decide)
      map_fits := hn.symm ▸ hfits
      nbits := by rw [hmap, hn]; rfl
      beyond := ?_
      table := ⟨nodup_nil, by simp [mounted], by simp [mounted],
        by simp [mounted], by simp [mounted]⟩
      backed := ⟨rfl, h.magic, rfl, ?_, by simp [mounted]⟩
      file_lt := ?_
      file_pos := ?_
      file_not_map := ?_
      typed := ?_
      fits := ?_
      sound := ⟨.inl rfl, ?_, fun s h0 => absurd (href s) h0, fun s h0 => absurd (href s) h0,
        fun s _ h0 => absurd (href s) h0⟩
      tight := fun _ => ?_ }
  · intro b hb hlt
    rw [hn] at hb
    rw [hmap] at hlt ⊢
    exact (h.map b hlt).mpr (.inr (.inr (.inr hb)))
  · intro _ j hj i hi
    rw [hn] at hj
    rw [hmap]
    show _ = if _ then _ else _
    have h1 : (j * sectSize + i) / sectSize = j := by
      simp only [sectSize] at *
      omega
    have h2 : (j * sectSize + i) % sectSize = i := by
      simp only [sectSize] at *
      omega
    rw [h1, h2, if_pos hj]
    rfl
  · rintro i rfl
    rw [hn]
    simp only [sfsMapLocation, sfsRootLocation] at *
    omega
  · rintro i rfl
    decide
  · rintro i rfl h1
    exact absurd h1.1 (by decide)
  · rintro i rfl
    rw [hinode]
    exact .inr rfl
  · rintro i rfl
    rw [hinode]
    exact rootInode_fits
  · intro b hb
    by_cases hlt : b < fs.sfsDevice.dBlocks
    · refine .inr ((h.isset_mounted k hlt).mpr ?_)
      rcases hb with h1 | h1 | h1 | h1
      · exact .inl h1
      · exact .inr (.inr (hn ▸ h1))
      · rw [hn] at h1
        omega
      · exact .inr (.inl h1)
    · exact .inl (by rw [hn]; omega)
  · intro b hb hm
    rw [hn] at hb
    refine .inl ?_
    rcases hm with h1 | h1
    · rw [hn] at h1
      omega
    · rcases (h.isset_mounted k hb).mp h1 with h2 | h2 | h2
      · exact .inl h2
      · exact .inr (.inr (.inr h2))
      · exact .inr (.inl (hn.symm ▸ h2))

theorem Formatted.mount_spec {p : Prop} (hd : fs.sfsDevice.Reliable) :
    Wp p sfsDomount (fun _ fs' => ∃ k, fs' = fs.mounted k) (fun e _ => NoMemory fs e) fs := by
  refine sfsDomount_spec hd h.magic ?_
  have hn : (decodeSuper (fs.disk sfsSbLocation)).spNblocks = fs.sfsDevice.dBlocks := h.nblocks
  rw [hn]
  exact h.room

theorem Formatted.mount {fs' : SfsFs} (hd : fs.sfsDevice.Reliable)
    (hm : sfsDomount fs = some (.ok (), fs')) : ∃ k, fs' = fs.mounted k :=
  (h.mount_spec (p := False) hd).of_ok hm

end

end Fresh

/-- In whatever memory, a mount of the disk ends for want of memory, or with a well-formed volume
whose only object is the root directory. -/
def Mountable (d : Lhd) : Prop :=
  ∀ fs, fs.sfsDevice = d → Wp False sfsDomount (fun _ fs' => Wf True fs' {sfsRootLocation})
    (fun e _ => NoMemory fs e) fs

/-- **What `mksfs` writes can be mounted.** -/
theorem mksfs_mountable {d : Lhd} (hd : d.Reliable) (hmap : 0 < sfsBitblocks d.dBlocks)
    (volname : CString) : Wp (¬ Roomy d.dBlocks) (mksfs volname) (fun _ s => Mountable s.1)
      (fun _ _ => ¬ GoodVolname volname.val ∨ maxBitblocks < sfsBitblocks d.dBlocks ∨
        ¬ Roomy d.dBlocks) (d, bitbuf) := by
  refine (mksfs_spec volname hmap).post ?_
  rintro _ ⟨_, _⟩ ⟨hform, -, hout⟩ fs rfl
  have hrel : fs.sfsDevice.Reliable := fun n => (congrFun hout n).trans (hd n)
  refine (hform.mount_spec hrel).post ?_
  rintro _ _ ⟨k, rfl⟩
  exact hform.wf hrel k

/-! ## 4. A fresh volume, for the runs on fixed inputs -/

/-- A disk of 512 blank sectors that does not fail. -/
def blankDisk : Lhd := ⟨512, by decide, fun _ => 0, fun _ => true, []⟩

/-- The memory a mount of the disk `d` starts from, and what `random` will return. -/
def blankSfs (d : Lhd) (random : Nat → Nat) : SfsFs where
  sfsSuper := ⟨0, 0, fun _ => 0⟩
  sfsSuperdirty := false
  sfsDevice := d
  sfsVnodes := []
  sfsFreemap := ⟨0, fun _ => 0⟩
  sfsFreemapdirty := false
  sfsRcache := fun _ => ⟨0, 0, 0⟩
  heap := fun _ => ⟨⟨0, 0⟩, emptyInode, 0, false⟩
  nextVnode := 0
  kmallocOk := fun _ => true
  random := random

/-- The empty volume name. -/
def noName : CString := ⟨[], List.not_mem_nil⟩

theorem fresh_volume (random : Nat → Nat) : ∃ d m fs k,
    mksfs noName (blankDisk, bitbuf) = some (.ok (), (d, m)) ∧
    (Formatted d ∧ d.dBlocks = 512 ∧ d.Reliable) ∧
    sfsDomount (blankSfs d random) = some (.ok (), fs) ∧ fs = (blankSfs d random).mounted k := by
  have hroom : Roomy blankDisk.dBlocks := by
    show 2 + sfsBitblocks 512 ≤ 512
    decide
  have hmk : Wp False (mksfs noName)
      (fun _ s => Formatted s.1 ∧ s.1.dBlocks = 512 ∧ s.1.Reliable) (fun _ _ => False)
      (blankDisk, bitbuf) := by
    refine (mksfs_spec (d := blankDisk) noName (by decide)).mono (fun h => h hroom) ?_ ?_
    · rintro _ s ⟨hform, hdb, hout⟩
      exact ⟨hform, hdb, fun n => by rw [hout]; rfl⟩
    · rintro _ _ (h | h | h)
      · exact h ⟨by decide, not_mem_nil, by decide⟩
      · exact absurd h (by decide)
      · exact h hroom
  obtain ⟨_, ⟨d, m⟩, hrun, hform, hdb, hrel⟩ := hmk.exists_ok
  have hrel' : (blankSfs d random).sfsDevice.Reliable := hrel
  have hmem : ∀ e (_ : SfsFs), ¬ NoMemory (blankSfs d random) e := fun _ _ h => by
    simp [NoMemory, blankSfs] at h
  obtain ⟨_, fs, hmount, k, hfs⟩ := ((hform.mount_spec hrel').noError hmem).exists_ok
  exact ⟨d, m, fs, k, hrun, ⟨hform, hdb, hrel⟩, hmount, hfs⟩

theorem blankDisk_mountable : ∃ d m, mksfs noName (blankDisk, bitbuf) = some (.ok (), (d, m)) ∧
    Mountable d := by
  obtain ⟨d, m, _, _, hrun, -⟩ := fresh_volume id
  exact ⟨d, m, hrun, (mksfs_mountable (fun _ => rfl) (by decide) noName).of_ok hrun⟩

/-- An empty regular file, just made on a fresh volume. -/
structure FreshFile (fs : SfsFs) (files : Set Nat) (v : Nat) : Prop where
  wf : Wf True fs files
  vnode : v ∈ fs.sfsVnodes
  inode : (fs.heap v).svI = { emptyInode with sfiType := .file }
  dirty : (fs.heap v).svDirty = true
  cache : ∀ s, (fs.sfsRcache s).inodeNo = -1
  nblocks : fs.nblocks = 512
  only : ∀ i ∈ files, i = (fs.heap v).svIno ∨ i = sfsRootLocation

variable {fs : SfsFs} {files : Set Nat} {a c : Nat}

/-- **Two objects cannot fill a volume of 512 blocks**, since an object has at most 144 blocks
besides its inode. -/
theorem Wf.card_marked_le (hw : Wf True fs files) (hn : fs.nblocks = 512)
    (hfiles : ∀ i ∈ files, i = a ∨ i = c) :
    ((Finset.range 512).filter fun b => fs.sfsFreemap.isset b = true).card ≤ 292 := by
  set refs : Nat → Finset Nat := fun i =>
    insert (fs.refAt i .indirect) ((Finset.range 143).image (fs.dataRef i)) with hrefs
  have hcard : ∀ i, (refs i).card ≤ 144 := fun i => (Finset.card_insert_le _ _).trans
    (Nat.succ_le_succ (Finset.card_image_le.trans (Finset.card_range 143).le))
  have hmem : ∀ i r, fs.refAt i r ∈ refs i := by
    intro i r
    cases r with
    | indirect => exact Finset.mem_insert_self _ _
    | direct k =>
      exact Finset.mem_insert_of_mem (Finset.mem_image.mpr
        ⟨k.val, Finset.mem_range.mpr (by omega), dataRef_direct i k⟩)
    | entry k =>
      exact Finset.mem_insert_of_mem (Finset.mem_image.mpr
        ⟨15 + k.val, Finset.mem_range.mpr (by omega), dataRef_entry i k⟩)
  -- every marked block is one of a few
  have hsub : (Finset.range 512).filter (fun b => fs.sfsFreemap.isset b = true) ⊆
      {0, 2, a, c} ∪ (refs a ∪ refs c) := by
    intro b hb
    rw [Finset.mem_filter, Finset.mem_range] at hb
    rcases hw.tight trivial b (hn.symm ▸ hb.1) (.inr hb.2) with hfix | ⟨⟨i, r⟩, hr⟩
    · refine Finset.mem_union_left _ ?_
      simp only [Finset.mem_insert, Finset.mem_singleton]
      rcases hfix with h | h | h | h
      · exact .inl h
      · rw [hn] at h
        have h1 : sfsMapLocation ≤ b := h.1
        have h2 : b < sfsMapLocation + 1 := h.2
        simp only [sfsMapLocation] at h1 h2
        omega
      · omega
      · exact .inr (.inr (hfiles b h))
    · by_cases hi : i ∈ files
      · rw [ledger_ref hi] at hr
        refine Finset.mem_union_right _ (Finset.mem_union.mpr ?_)
        have hb := hmem i r
        rw [hr] at hb
        rcases hfiles i hi with rfl | rfl
        · exact .inl hb
        · exact .inr hb
      · have hz : b = 0 := hr.symm.trans (if_neg hi)
        simp [hz]
  have hle := Finset.card_le_card hsub
  have h1 := Finset.card_union_le {0, 2, a, c} (refs a ∪ refs c)
  have h2 := Finset.card_union_le (refs a) (refs c)
  have h3 : ({0, 2, a, c} : Finset Nat).card ≤ 4 := Finset.card_le_four
  have h4 := hcard a
  have h5 := hcard c
  omega

theorem Wf.exists_free (hw : Wf True fs files) (hn : fs.nblocks = 512)
    (hfiles : ∀ i ∈ files, i = a ∨ i = c) : ∃ b < fs.nblocks, fs.sfsFreemap.isset b = false := by
  by_contra hfull
  have hall : (Finset.range 512).filter (fun b => fs.sfsFreemap.isset b = true) =
      Finset.range 512 := by
    refine Finset.filter_true_of_mem fun b hb => ?_
    by_contra hset
    exact hfull ⟨b, hn.symm ▸ Finset.mem_range.mp hb, Bool.eq_false_iff.mpr hset⟩
  have hle := hw.card_marked_le hn hfiles
  rw [hall, Finset.card_range] at hle
  omega

/-- A volume of 512 blocks with two objects has room for every block of a file. -/
theorem Wf.bmap_ok {v n : Nat} (hw : Wf True fs files) (hv : v ∈ fs.sfsVnodes)
    (hnb : fs.nblocks = 512) (hfiles : ∀ i ∈ files, i = a ∨ i = c) (hn : n < 143) :
    Wp False (sfsBmap v n true) (BmapOk True files fs (fs.heap v).svIno n true)
      (fun _ _ => False) fs := by
  refine (sfsBmap_spec hw hv n true).noError fun e fs' herr => ?_
  rcases herr.reason with ⟨-, hbig, -⟩ | ⟨-, -, -, -, -, hfull⟩
  · omega
  · obtain ⟨b, hb, hfree⟩ := herr.wf.exists_free (herr.grows.frame.nblocks.trans hnb) hfiles
    rw [herr.grows.frame.nblocks] at hb
    exact absurd (hfree.symm.trans (hfull b hb)) (by decide)

namespace FreshFile

variable {fs : SfsFs} {files : Set Nat} {v : Nat} (h : FreshFile fs files v)

include h

theorem exists_free : ∃ b < fs.nblocks, fs.sfsFreemap.isset b = false :=
  h.wf.exists_free h.nblocks h.only

theorem inode_eq : fs.inode (fs.heap v).svIno = { emptyInode with sfiType := .file } :=
  (h.wf.table.inode h.vnode).trans h.inode

theorem dataRef_eq (fb : Nat) : fs.dataRef (fs.heap v).svIno fb = 0 := by
  rw [dataRef]
  cases dataSlot fb with
  | none => rfl
  | some r =>
    show fs.refAt _ r = 0
    rw [refAt, h.inode_eq]
    cases r <;> rfl

end FreshFile

theorem fresh_file (random : Nat → Nat) : ∃ d m fs₀ v fs files,
    mksfs noName (blankDisk, bitbuf) = some (.ok (), (d, m)) ∧
    sfsDomount (blankSfs d random) = some (.ok (), fs₀) ∧
    sfsMakeobj .file fs₀ = some (.ok v, fs) ∧ FreshFile fs files v ∧ fs.random = random := by
  obtain ⟨d, m, fs₀, k, hmk, ⟨hform, hdb, hrel⟩, hmount, rfl⟩ := fresh_volume random
  set fs₀ := (blankSfs d random).mounted k with hfs0
  have hw : Wf True fs₀ {sfsRootLocation} := hform.wf hrel k
  have hn : fs₀.nblocks = 512 := hform.nblocks.trans hdb
  obtain ⟨b₀, hb0, hfree⟩ := hw.exists_free hn fun i hi => (.inl hi : i = _ ∨ i = 0)
  have hobj := (sfsMakeobj_spec hw (.inl rfl : SfsType.file = .file ∨ _)).noError ?_
  · obtain ⟨v, fs, hcall, rfl, -, b, k', hb, hbf, rfl⟩ := hobj.exists_ok
    have hheap : (fs₀.create b .file k').heap fs₀.nextVnode =
        ⟨vnodeInit, { emptyInode with sfiType := .file }, b, true⟩ :=
      ((fs₀.alloc b).burn k').heap_insertVnode_self _
    refine ⟨d, m, fs₀, _, _, _, hmk, hmount, hcall, ⟨(hw.create hb hbf (.inl rfl) k').1,
      mem_insertVnode.mpr (.inr rfl), by rw [hheap], by rw [hheap], fun _ => rfl, hn, ?_⟩, rfl⟩
    exact fun i hi => hi
  · rintro e fs' (⟨-, -, hfull⟩ | ⟨-, hm, -⟩)
    · exact absurd (hfree.symm.trans (hfull b₀ hb0)) (by decide)
    · exact hm fun n _ => by simp [hfs0, mounted, blankSfs]

end Os161
