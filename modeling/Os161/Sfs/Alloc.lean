/-
# Two programs, one free map

The allocator of the kernel trusts the bits that `mksfs`, a user program, has written: that the
superblock, the root inode and the map are marked, and that the map's tail past the end of the
disk is.  This file mounts what `mksfs` has made and runs `sfs_balloc` and `sfs_bfree` in any
order, and asks that what `sfs_balloc` hands out is a block behind the map that is not out
already, and that it reports `ENOSPC` exactly when all of these are out (`AllocExact`).

That is so if and only if there is a map at all (`alloc_exact_iff`).  The size of the map is the
number of blocks rounded up in 32 bits; with more than 2^32 - 4096 blocks it rounds up to ZERO.
Then `mksfs` writes no map, reports no error, and the kernel mounts a volume on which nothing can
be allocated.
-/
import Os161.Mksfs

namespace Os161

open List

/-! ## 1. The calls -/

/-- The calls of the allocator. -/
inductive AllocOp
  | balloc
  | bfree (diskblock : Nat)

/-- A call, and what it does to the list of the blocks that are out. -/
def AllocOp.call : AllocOp → Prog Errno (SfsFs × List Nat) Nat
  | .balloc => do
    let diskblock ← onFst sfsBalloc
    modify fun s => (s.1, diskblock :: s.2)
    pure diskblock
  | .bfree diskblock => do
    onFst (sfsBfree diskblock)
    modify fun s => (s.1, s.2.erase diskblock)
    pure diskblock

/-- Only what is out may be freed. -/
def AllocOp.Legal : AllocOp → SfsFs × List Nat → Prop
  | .balloc, _ => True
  | .bfree diskblock, s => diskblock ∈ s.2

/-! ## 2. What is claimed -/

/-- The blocks behind the map of a volume of `n` blocks. -/
def Allocatable (n b : Nat) : Prop := sfsMapLocation + sfsBitblocks n ≤ b ∧ b < n

/-- **The allocator is exact**: it stops at no assertion, hands out what may be handed out and is
not out already, and fails, with `ENOSPC`, exactly if there is no such block. -/
structure AllocExact (n : Nat) (s : SfsFs × List Nat) : Prop where
  total : ∀ op : AllocOp, op.Legal s → op.call s ≠ none
  fresh : ∀ b s', AllocOp.balloc.call s = some (.ok b, s') → Allocatable n b ∧ b ∉ s.2
  error : ∀ e s', AllocOp.balloc.call s = some (.error e, s') → e = .enospc
  enospc : (∃ s', AllocOp.balloc.call s = some (.error .enospc, s')) ↔
    ∀ b, Allocatable n b → b ∈ s.2

/-! ## 3. Every call keeps the map right -/

section Calls

variable {n : Nat} {fs : SfsFs} {out : List Nat}

/-- The map marks what is reserved and what is out. -/
structure AllocInv (n : Nat) (s : SfsFs × List Nat) : Prop where
  reliable : s.1.sfsDevice.Reliable
  nblocks : s.1.nblocks = n
  device : n ≤ s.1.sfsDevice.dBlocks
  nbits : s.1.sfsFreemap.nbits = sfsBitmapsize n
  covers : n ≤ sfsBitmapsize n
  nodup : s.2.Nodup
  allocatable : ∀ b ∈ s.2, Allocatable n b
  marked : ∀ b < sfsBitmapsize n, s.1.sfsFreemap.isset b = true ↔ ¬ Allocatable n b ∨ b ∈ s.2

theorem AllocInv.balloc (h : AllocInv n (fs, out)) : Wp False AllocOp.balloc.call
      (fun b s' => Allocatable n b ∧ b ∉ out ∧ s' = (fs.alloc b, b :: out))
      (fun e s' => e = .enospc ∧ s' = (fs, out) ∧ ∀ b, Allocatable n b → b ∈ out) (fs, out) := by
  have hn : fs.nblocks = n := h.nblocks
  have hbits : fs.sfsFreemap.nbits = sfsBitmapsize n := h.nbits
  have hcovers := h.covers
  have hbeyond : ∀ b, fs.nblocks ≤ b → b < fs.sfsFreemap.nbits →
      fs.sfsFreemap.isset b = true := fun b hb hlt =>
    (h.marked b (hbits ▸ hlt)).mpr (.inl fun ha => absurd ha.2 (Nat.not_lt_of_le (hn ▸ hb)))
  have h8 : fs.sfsFreemap.nbits % 8 = 0 := hbits ▸ sfsBitmapsize_mod n
  have hdev : fs.nblocks ≤ fs.sfsDevice.dBlocks := hn ▸ h.device
  rw [AllocOp.call, wp_bind, wp_onFst]
  refine (wp_sfsBalloc h.reliable hdev h8 hbeyond).imp ?_ ?_
  · rintro b _ ⟨hb, hfree, rfl⟩
    have hb : b < n := hn ▸ hb
    have hclear : ¬ (¬ Allocatable n b ∨ b ∈ out) := fun hm => by
      have hset := (h.marked b (by omega)).mpr hm
      exact absurd (hset.symm.trans hfree) (by decide)
    rw [wp_bind, wp_modify, wp_pure]
    exact ⟨not_not.mp fun ha => hclear (.inl ha), fun ho => hclear (.inr ho), rfl⟩
  · rintro _ _ ⟨rfl, rfl, hall⟩
    refine ⟨rfl, rfl, fun b ha => ?_⟩
    have hlt : b < sfsBitmapsize n := lt_of_lt_of_le ha.2 hcovers
    exact ((h.marked b hlt).mp (hall b (hbits ▸ hlt))).resolve_left (not_not.mpr ha)

variable {b : Nat} {s : SfsFs × List Nat}

theorem AllocInv.take (h : AllocInv n (fs, out)) (ha : Allocatable n b) (hb : b ∉ out) :
    AllocInv n (fs.alloc b, b :: out) where
  __ := h
  nodup := nodup_cons.mpr ⟨hb, h.nodup⟩
  allocatable := fun c hc => by
    rcases mem_cons.mp hc with rfl | hc
    · exact ha
    · exact h.allocatable c hc
  marked := fun c hc => by
    have hset : (fs.alloc b).sfsFreemap.isset c = true ↔ c = b ∨ fs.sfsFreemap.isset c = true :=
      Bitmap.isset_set
    rw [hset, h.marked c hc, mem_cons]
    tauto

theorem AllocInv.give (h : AllocInv n (fs, out)) (hb : b ∈ out) :
    AllocInv n (fs.withFreemap (fs.sfsFreemap.clear b), out.erase b) where
  __ := h
  nodup := h.nodup.erase b
  allocatable := fun c hc => h.allocatable c (mem_of_mem_erase hc)
  marked := fun c hc => by
    have hset : (fs.withFreemap (fs.sfsFreemap.clear b)).sfsFreemap.isset c = true ↔
        c ≠ b ∧ fs.sfsFreemap.isset c = true := Bitmap.isset_clear
    have hab := h.allocatable b hb
    have hmem : c ∈ out.erase b ↔ c ≠ b ∧ c ∈ out := h.nodup.mem_erase_iff
    rw [hset, h.marked c hc, hmem]
    constructor
    · rintro ⟨hcb, hna | hout⟩
      · exact .inl hna
      · exact .inr ⟨hcb, hout⟩
    · rintro (hna | ⟨hcb, hout⟩)
      · exact ⟨fun hcb => hna (hcb ▸ hab), .inl hna⟩
      · exact ⟨hcb, .inr hout⟩

theorem AllocInv.bfree (h : AllocInv n (fs, out)) (hb : b ∈ out) : Wp False (AllocOp.bfree b).call
      (fun _ s' => s' = (fs.withFreemap (fs.sfsFreemap.clear b), out.erase b)) (fun _ _ => False)
      (fs, out) := by
  have hlt : b < sfsBitmapsize n := lt_of_lt_of_le (h.allocatable b hb).2 h.covers
  rw [AllocOp.call, wp_bind, wp_onFst]
  refine (sfsBfree_spec (h.nbits.symm ▸ hlt) ((h.marked b hlt).mpr (.inr hb))).post_ok ?_
  rintro _ _ rfl
  rw [wp_bind, wp_modify, wp_pure]

/-- **Every call keeps the map right.** -/
theorem AllocOp.call_spec {op : AllocOp} (hl : op.Legal s) (h : AllocInv n s) :
    Wp False op.call (fun _ => AllocInv n) (fun _ => AllocInv n) s := by
  cases op with
  | balloc =>
    refine h.balloc.imp ?_ ?_
    · rintro b _ ⟨ha, hb, rfl⟩
      exact h.take ha hb
    · rintro _ _ ⟨-, rfl, -⟩
      exact h
  | bfree b =>
    refine (h.bfree hl).post_ok ?_
    rintro _ _ rfl
    exact h.give hl

theorem AllocInv.exact (h : AllocInv n s) : AllocExact n s where
  total := fun op hl => (AllocOp.call_spec hl h).run_ne_none
  fresh := fun b s' hc => by
    obtain ⟨ha, hb, -⟩ := h.balloc.of_ok hc
    exact ⟨ha, hb⟩
  error := fun e s' hc => (h.balloc.of_error hc).1
  enospc := by
    constructor
    · rintro ⟨s', hc⟩
      exact (h.balloc.of_error hc).2.2
    · intro hall
      have hfull : Wp False AllocOp.balloc.call (fun _ _ => False) (fun e _ => e = .enospc) s := by
        refine h.balloc.imp ?_ (fun _ _ he => he.1)
        rintro b _ ⟨ha, hb, -⟩
        exact hb (hall b ha)
      obtain ⟨_, s', hc, rfl⟩ := hfull.exists_error
      exact ⟨s', hc⟩

end Calls

/-! ## 4. Volumes made by `mksfs` -/

variable {fs : SfsFs}

theorem Formatted.allocInv (h : Formatted fs.sfsDevice) (hd : fs.sfsDevice.Reliable) (k : Nat) :
    AllocInv fs.sfsDevice.dBlocks (fs.mounted k, []) where
  reliable := hd
  nblocks := h.nblocks
  device := le_rfl
  nbits := by
    rw [h.freemap_mounted]
    rfl
  covers := le_sfsBitmapsize (h.small.trans (by decide))
  nodup := nodup_nil
  allocatable := fun b hb => absurd hb not_mem_nil
  marked := fun b hb => by
    rw [h.freemap_mounted, h.map b hb]
    unfold Allocatable IsMapBlock
    simp only [sfsSbLocation, sfsRootLocation, sfsMapLocation, not_mem_nil, or_false]
    omega

/-- A volume without a map, just mounted: nothing can be allocated. -/
theorem unmapped_enospc {d : Lhd} {name : List Byte} (hmap : sfsBitblocks d.dBlocks = 0)
    (hdev : fs.sfsDevice = d.labelled name) (k : Nat) :
    Wp False AllocOp.balloc.call (fun _ _ => False) (fun e _ => e = .enospc)
      (fs.mounted k, []) := by
  have hbits : (fs.mounted k).sfsFreemap.nbits = 0 := by
    show sfsBitmapsize (decodeSuper (fs.disk sfsSbLocation)).spNblocks = 0
    rw [SfsFs.disk, hdev, (d.super_labelled name).2, sfsBitmapsize_eq, hmap, Nat.zero_mul]
  rw [AllocOp.call, wp_bind, wp_onFst, sfsBalloc, wp_bind, onFreemap, wp_zoom]
  refine (bitmapAlloc_wp (absurd (by rw [hbits]))).imp ?_ (fun _ _ he => he.1)
  rintro b _ ⟨hlt, -, -⟩
  rw [hbits] at hlt
  exact absurd hlt (Nat.not_lt_zero b)

theorem two_lt_of_unmapped {n : Nat} (hmap : sfsBitblocks n = 0) (hroom : sfsMapLocation ≤ n) :
    2 < n := by
  by_contra hle
  obtain rfl : n = 2 := Nat.le_antisymm (Nat.not_lt.mp hle) hroom
  exact absurd hmap (by decide)

/-- **`mksfs` and the kernel agree on the free map exactly if there is one.**  `mksfs` has written a
disk that does not fail, and the disk was mounted.  Then the allocator is exact in every state that
calls can lead to, if and only if the size of the map did not overflow to 0. -/
theorem alloc_exact_iff {d d' : Lhd} {m : Bitmap} {volname : CString} {fs₀ fs : SfsFs}
    (hd : d.Reliable) (hmk : mksfs volname (d, bitbuf) = some (.ok (), (d', m)))
    (hdev : fs₀.sfsDevice = d') (hmount : sfsDomount fs₀ = some (.ok (), fs)) :
    (∀ s, Run AllocOp.call AllocOp.Legal (fs, []) s → AllocExact d.dBlocks s) ↔
      0 < sfsBitblocks d.dBlocks := by
  constructor
  · intro hall
    by_contra hmap
    have hmap : sfsBitblocks d.dBlocks = 0 := Nat.eq_zero_of_not_pos hmap
    obtain ⟨hroom, name, hname⟩ := (mksfs_unmapped volname hmap).of_ok hmk
    have hdev' : fs₀.sfsDevice = d.labelled name := hdev.trans hname
    have hrel : fs₀.sfsDevice.Reliable := hdev'.symm ▸ hd
    have hsuper := d.super_labelled name
    rw [← hdev'] at hsuper
    have hfit : sfsMapLocation + sfsBitblocks (decodeSuper (fs₀.disk sfsSbLocation)).spNblocks ≤
        fs₀.sfsDevice.dBlocks := by
      rw [SfsFs.disk, hsuper.2, hmap, hdev']
      exact hroom
    obtain ⟨k, rfl⟩ := (sfsDomount_spec (p := False) hrel hsuper.1 hfit).of_ok hmount
    obtain ⟨_, s', hc, rfl⟩ := (unmapped_enospc hmap hdev' k).exists_error
    have htwo : Allocatable d.dBlocks 2 := by
      rw [Allocatable, hmap]
      exact ⟨le_rfl, two_lt_of_unmapped hmap hroom⟩
    exact absurd ((hall _ .refl).enospc.mp ⟨s', hc⟩ 2 htwo) not_mem_nil
  · intro hmap
    obtain ⟨hform, hdb, hout⟩ := (mksfs_spec volname hmap).of_ok hmk
    subst hdev
    have hrel : fs₀.sfsDevice.Reliable := fun n => by rw [hout]; exact hd n
    obtain ⟨k, rfl⟩ := hform.mount hrel hmount
    intro s hrun
    have hinv : AllocInv d.dBlocks s := hrun.invariant (fun _ _ hl hi => AllocOp.call_spec hl hi)
      (hdb ▸ hform.allocInv hrel k)
    exact hinv.exact

/-- A small disk has a map, and a block to hand out. -/
theorem blankDisk_alloc_exact : ∃ d m fs b s,
    mksfs noName (blankDisk, bitbuf) = some (.ok (), (d, m)) ∧
    sfsDomount (blankSfs d fun _ => 0) = some (.ok (), fs) ∧
    AllocOp.balloc.call (fs, []) = some (.ok b, s) ∧ Allocatable 512 b ∧ AllocExact 512 s := by
  obtain ⟨d, m, fs, k, hmk, -, hmount, -⟩ := fresh_volume fun _ => 0
  have hall := (alloc_exact_iff (fun _ => rfl) hmk rfl hmount).mpr (by decide)
  have hfirst : AllocExact 512 (fs, []) := hall _ .refl
  obtain ⟨⟨r, s⟩, hcall⟩ := Option.ne_none_iff_exists'.mp (hfirst.total .balloc trivial)
  cases r with
  | ok b =>
    exact ⟨d, m, fs, b, s, hmk, hmount, hcall, (hfirst.fresh b s hcall).1,
      hall s (Run.refl.step (show AllocOp.balloc.Legal _ from trivial) hcall)⟩
  | error e =>
    obtain rfl := hfirst.error e s hcall
    have hblock : Allocatable 512 100 := ⟨by decide, by decide⟩
    exact absurd (hfirst.enospc.mp ⟨s, hcall⟩ 100 hblock) not_mem_nil

/-- A disk of 2^32 - 1 sectors. -/
def hugeDisk : Lhd := ⟨4294967295, by decide, fun _ => 0, fun _ => true, []⟩

/-- **No room on an empty disk.**  On a disk of 2^32 - 1 sectors `mksfs` succeeds, the mount
succeeds, and the first `sfs_balloc` is out of space. -/
theorem hugeDisk_enospc : ∃ d m fs s, mksfs noName (hugeDisk, bitbuf) = some (.ok (), (d, m)) ∧
    sfsDomount (blankSfs d fun _ => 0) = some (.ok (), fs) ∧
    AllocOp.balloc.call (fs, []) = some (.error .enospc, s) ∧ Allocatable hugeDisk.dBlocks 2 := by
  have hmap : sfsBitblocks hugeDisk.dBlocks = 0 := by decide
  have hfail : ¬ (¬ GoodVolname noName.val ∨ hugeDisk.dBlocks < sfsMapLocation) := by
    rintro (hbad | hsmall)
    · exact hbad ⟨by decide, not_mem_nil, by decide⟩
    · exact absurd hsmall (by decide)
  obtain ⟨_, ⟨d, m⟩, hmk, -, name, rfl⟩ :=
    ((mksfs_unmapped noName hmap).noError fun _ _ => hfail).exists_ok
  set fs₀ := blankSfs (hugeDisk.labelled name) fun _ => 0 with hfs0
  have hsuper := hugeDisk.super_labelled name
  have hfit : sfsMapLocation + sfsBitblocks (decodeSuper (fs₀.disk sfsSbLocation)).spNblocks ≤
      fs₀.sfsDevice.dBlocks := by
    show _ + sfsBitblocks (decodeSuper ((hugeDisk.labelled name).disk sfsSbLocation)).spNblocks ≤ _
    rw [hsuper.2, hmap]
    exact (by decide : sfsMapLocation + 0 ≤ 4294967295)
  have hrel : fs₀.sfsDevice.Reliable := fun _ => rfl
  have hmem : ∀ e (_ : SfsFs), ¬ NoMemory fs₀ e := fun _ _ h => by
    simp [NoMemory, hfs0, blankSfs] at h
  obtain ⟨_, fs, hmount, k, rfl⟩ :=
    ((sfsDomount_spec hrel hsuper.1 hfit).noError hmem).exists_ok
  obtain ⟨_, s, hc, rfl⟩ := (unmapped_enospc hmap (show fs₀.sfsDevice = _ from rfl) k).exists_error
  exact ⟨_, m, _, s, hmk, hmount, hc, by decide, by decide⟩

end Os161
