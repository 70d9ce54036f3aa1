/-
# The size of a file, and the largest one

A file has at most 143 blocks: 15 direct ones and 128 behind the indirect block.  `sfs_tryseek`
lets every offset pass, and `sfs_bmap` is what refuses a block number from 143 on.  Two things are
wrong on the way.

* The block number is the offset divided by 512, in 32 BITS.  From offset `2^41` on it starts
  again at 0, and a write there goes to the first blocks of the file.
* The end of `sfs_io` sets the size to the current offset of the uio if that is larger, whether a
  byte was transferred or not.  A write that fails, or that asks for nothing, grows the file to
  where it would have started.

`size_follows_iff` says at which offsets the size follows the data, and `limit_enforced_iff` at
which offsets past the limit a write is refused without a trace.
-/
import Os161.Sfs.Pieces
import Os161.Sfs.View

namespace Os161

open SfsFs

/-! ## 1. Requests that start past the limit -/

/-- `sfs_tryseek`. -/
def sfsTryseek (pos : Int) : Except Errno Unit := if pos < 0 then .error .einval else .ok ()

/-- The block of the file that `sfs_partialio` and `sfs_blockio` compute from an offset. -/
def fileblockOf (off : Nat) : Nat := u32 (off / sectSize)

section Beyond

variable {fs : SfsFs} {u : Uio} {v : Nat}

/-- The outcome of a call that is refused on the spot. -/
abbrev Refused (st₀ : SfsFs × Uio) (e : Errno) (st : SfsFs × Uio) : Prop := e = .efbig ∧ st = st₀

theorem wp_bmap_beyond {fb : Nat} {doalloc : Bool} (hfb : 143 ≤ fb) {Q : Nat → SfsFs → Prop}
    {E : Errno → SfsFs → Prop} (hE : E .efbig fs) :
    Wp False (sfsBmap v fb doalloc) Q E fs := by
  unfold sfsBmap
  simp only [sfsNdirect, sfsDbperidb]
  rw [dif_neg (by omega), if_pos (by omega)]
  exact wp_fail.mpr hE

variable (hfb : 143 ≤ fileblockOf u.uioOffset)

include hfb

theorem wp_partialio_beyond {skip len : Nat} (hfits : skip + len ≤ 512) :
    Wp False (sfsPartialio v skip len) (fun _ _ => False) (Refused (fs, u)) (fs, u) := by
  simp only [sfsPartialio, theUio, wp_bind, wp_get, wp_pure, wp_assert, wp_onFst]
  exact ⟨fun _ => wp_bmap_beyond hfb ⟨rfl, rfl⟩, fun h => h hfits⟩

theorem wp_blockio_beyond :
    Wp False (sfsBlockio v) (fun _ _ => False) (Refused (fs, u)) (fs, u) := by
  simp only [sfsBlockio, theUio, wp_bind, wp_get, wp_pure, wp_onFst]
  exact wp_bmap_beyond hfb ⟨rfl, rfl⟩

/-- The first piece of a request is refused; only a request for nothing at the start of a block has
no first piece. -/
theorem wp_ioBody_beyond :
    Wp False (sfsIoBody v) (fun _ st => u.uioResid = 0 ∧ st = (fs, u)) (Refused (fs, u))
      (fs, u) := by
  simp only [sfsIoBody, theUio, wp_bind, wp_get, wp_pure]
  by_cases hal : u.uioOffset % 512 = 0
  · rw [if_neg (not_not.mpr hal)]
    simp only [sfsIoAligned, theUio, wp_bind, wp_get, wp_pure]
    by_cases h0 : u.uioResid = 0
    · rw [if_pos h0]
      exact wp_pure.mpr ⟨h0, rfl⟩
    rw [if_neg h0, wp_bind, wp_assert_of hal]
    rw [wp_bind]
    cases hn : u.uioResid / sectSize with
    | zero =>
      have hlt : u.uioResid < 512 := Nat.lt_of_div_eq_zero (by decide) hn
      rw [times, wp_pure]
      simp only [wp_bind, wp_get, wp_pure, wp_assert_of hlt]
      rw [if_pos (Nat.pos_of_ne_zero h0)]
      exact (wp_partialio_beyond hfb (by omega)).post fun _ _ h => h.elim
    | succ n =>
      exact (wp_blockio_beyond hfb).bind fun _ _ h => h.elim
  · rw [if_pos hal]
    exact (wp_partialio_beyond hfb (by simp only [sectSize]; omega)).bind fun _ _ h => h.elim

/-- **A write past the limit** moves nothing, but the size is adjusted to the offset. -/
theorem wp_io_beyond (hrw : u.uioRw = .write) :
    Wp False (sfsIo v) (fun _ st => u.uioResid = 0 ∧ st = (fs.extend v u.uioOffset, u))
      (Refused (fs.extend v u.uioOffset, u)) (fs, u) := by
  refine wp_io_write hrw ((wp_ioBody_beyond hfb).imp ?_ ?_)
  · rintro _ _ ⟨h0, rfl⟩
    exact ⟨hrw, h0, rfl⟩
  · rintro _ _ ⟨rfl, rfl⟩
    exact ⟨hrw, rfl, rfl⟩

end Beyond

/-! ## 2. Requests of one byte

A request of one byte is one piece, wherever it starts, so what `sfs_partialio` does there is what
the write does. -/

section OneByte

variable {p : Prop} {fs : SfsFs} {u : Uio} {v : Nat} {Q : Unit → SfsFs × Uio → Prop}
  {E : Errno → SfsFs × Uio → Prop}

theorem wp_ioBody_one (h1 : u.uioResid = 1) (h : Wp p (sfsPartialio v (u.uioOffset % 512) 1)
      (fun _ st => st.2.uioResid = 0 ∧ Q () st) E (fs, u)) :
    Wp p (sfsIoBody v) Q E (fs, u) := by
  simp only [sfsIoBody, theUio, wp_bind, wp_get, wp_pure, h1]
  by_cases hal : u.uioOffset % 512 = 0
  · rw [if_neg (not_not.mpr hal)]
    simp only [sfsIoAligned, theUio, wp_bind, wp_get, wp_pure, h1]
    rw [if_neg (by decide), wp_bind, wp_assert_of hal]
    have hno : (1 : Nat) / sectSize = 0 := rfl
    rw [hno, wp_bind, times, wp_pure]
    simp only [wp_bind, wp_get, wp_pure, wp_assert, h1]
    refine ⟨fun _ => ?_, fun h => absurd (by decide) h⟩
    rw [if_pos (by decide)]
    rw [hal] at h
    exact h.post fun _ _ hq => hq.2
  · have hlen : min (sectSize - u.uioOffset % sectSize) 1 = 1 := by
      simp only [sectSize]
      omega
    rw [if_pos hal, hlen]
    refine h.bind fun _ st hq => ?_
    simp only [sfsIoAligned, theUio, wp_bind, wp_get, wp_pure]
    rw [if_pos hq.1]
    exact wp_pure.mpr hq.2

theorem Errno.OfPiece.beyond {b : Nat} (h : Errno.OfPiece b .efbig) : 143 ≤ b := by
  rcases h with h | h | h
  · rcases h with h | h | h <;> cases h
  · cases h
  · exact h.2

/-- In any state of the volume, a write of one byte that is refused starts past the limit. -/
theorem wp_io_one (hrw : u.uioRw = .write) (hu : u.Covered) (h1 : u.uioResid = 1) :
    Wp True (sfsIo v) (fun _ _ => True)
      (fun e _ => e = .efbig → 143 ≤ fileblockOf u.uioOffset) (fs, u) := by
  have hpiece : Wp True (pieceCode v ⟨fileblockOf u.uioOffset, u.uioOffset % 512, 1⟩) _ _
      (fs, u) := pieceCode_spec hu h1.ge rfl
  refine wp_io_write hrw (wp_ioBody_one h1 (hpiece.imp ?_ ?_))
  · rintro _ st ⟨hst, -⟩
    have hres : st.2.uioResid + 1 = u.uioResid := hst.uio.resid
    exact ⟨by omega, hst.uio.rw.trans hrw, trivial⟩
  · rintro e st ⟨he, k, -, hst, -⟩
    refine ⟨hst.uio.rw.trans hrw, fun hbig => ?_⟩
    subst hbig
    exact he.beyond

end OneByte

/-! ## 3. The limit -/

/-- The limit is enforced at `off`: if that is past the limit, every write there of at least one
byte is refused, and leaves the free map, the bytes of the files and the size of the file as they
are. -/
def LimitEnforced (fs : SfsFs) (v off : Nat) : Prop :=
  sfsTryseek off = .ok () → 143 * 512 ≤ off →
    ∀ u : Uio, u.uioRw = .write → u.Covered → u.uioOffset = off → 0 < u.uioResid →
    ∃ fs' u', sfsWrite v (fs, u) = some (.error .efbig, (fs', u')) ∧
      fs'.sfsFreemap = fs.sfsFreemap ∧ (∀ i pos, fs'.fileByte i pos = fs.fileByte i pos) ∧
      (fs'.heap v).svI.sfiSize = (fs.heap v).svI.sfiSize

/-- Offsets below the limit in different blocks address different blocks of the file. -/
def BlocksApart : Prop :=
  ∀ a b : Nat, a < 73216 → b < 73216 → a / 512 ≠ b / 512 → fileblockOf a ≠ fileblockOf b

theorem blocksApart : BlocksApart := by
  intro a b ha hb hne
  have hdiv : ∀ x, x < 73216 → fileblockOf x = x / 512 := fun x hx =>
    u32_of_lt (Nat.lt_of_le_of_lt (Nat.div_le_self x 512) (by omega))
  rwa [hdiv a ha, hdiv b hb]

section Limit

variable {fs : SfsFs} {v off : Nat}

theorem refAt_setInode (fs : SfsFs) (v : Nat) {m : SfsInode}
    (hd : m.sfiDirect = (fs.heap v).svI.sfiDirect)
    (hi : m.sfiIndirect = (fs.heap v).svI.sfiIndirect) (i : Nat) (r : Slot) :
    (fs.setInode v m).refAt i r = fs.refAt i r := by
  rw [refAt, refAt, inode, inode, (Frame.setInode fs v _).vnodeOf i]
  cases fs.vnodeOf i with
  | none => rfl
  | some w =>
    by_cases hw : w = v
    · subst hw
      simp only [setInode, setVnode, Function.update_self]
      cases r with
      | direct k => exact congrFun hd k
      | indirect => exact hi
      | entry k =>
        simp only [SfsInode.ref, hi]
        rfl
    · simp only [heap_setInode_of_ne _ hw]
      rfl

theorem refAt_extend (fs : SfsFs) (v off i : Nat) (r : Slot) :
    (fs.extend v off).refAt i r = fs.refAt i r := by
  unfold extend
  split_ifs
  · refine refAt_setInode fs v ?_ ?_ i r <;> rfl
  · rfl

theorem fileByte_extend (fs : SfsFs) (v off i pos : Nat) :
    (fs.extend v off).fileByte i pos = fs.fileByte i pos := by
  have href : ∀ fb, (fs.extend v off).dataRef i fb = fs.dataRef i fb := by
    intro fb
    unfold dataRef
    split
    · exact refAt_extend fs v off i _
    · rfl
  have hview : ∀ b, (fs.extend v off).blockView i b = fs.blockView i b := by
    intro b
    unfold extend
    split_ifs <;> rfl
  rw [fileByte, fileByte, fileBlock, fileBlock, href, hview]

theorem sfsFreemap_extend (fs : SfsFs) (v off : Nat) :
    (fs.extend v off).sfsFreemap = fs.sfsFreemap := by
  unfold extend
  split_ifs <;> rfl

theorem size_extend_eq_iff : ((fs.extend v off).heap v).svI.sfiSize = (fs.heap v).svI.sfiSize ↔
    off ≤ (fs.heap v).svI.sfiSize ∨ off % 4294967296 = (fs.heap v).svI.sfiSize := by
  rw [size_extend]
  split_ifs with hlt
  · exact ⟨.inr, fun h => h.resolve_left (Nat.not_le.mpr hlt)⟩
  · exact ⟨fun _ => .inl (Nat.le_of_not_lt hlt), fun _ => rfl⟩

theorem sfsWrite_eq {u : Uio} (hrw : u.uioRw = .write) : sfsWrite v (fs, u) = sfsIo v (fs, u) := by
  rw [sfsWrite, theUio_bind, Prog.assert_bind hrw]

/-- **Where the limit is enforced.**  The 32-bit block number must not have wrapped around, and the
file must reach to the offset already, or the refused write leaves its trace in the size. -/
theorem limit_enforced_iff (fs : SfsFs) (v off : Nat) :
    (LimitEnforced fs v off ∧ BlocksApart) ↔ off < 143 * 512 ∨ (143 ≤ off / 512 % 4294967296 ∧
      (off ≤ (fs.heap v).svI.sfiSize ∨ off % 4294967296 = (fs.heap v).svI.sfiSize)) := by
  constructor
  · rintro ⟨h, -⟩
    refine or_iff_not_imp_left.mpr fun hoff => ?_
    -- a write of one byte tells
    obtain ⟨fs', u', hrun, -, -, hsize⟩ := h (if_neg (by omega)) (Nat.le_of_not_lt hoff)
      (uioKinit [0] off .write) rfl (uioKinit_covered _ _ _) rfl Nat.one_pos
    have hfb : 143 ≤ fileblockOf off :=
      (wp_io_one (u := uioKinit [0] off .write) rfl (uioKinit_covered _ _ _) rfl).of_error hrun rfl
    have hout := (wp_io_beyond (u := uioKinit [0] off .write) hfb rfl).of_error hrun
    obtain rfl : fs' = fs.extend v off := congrArg Prod.fst hout.2
    exact ⟨hfb, size_extend_eq_iff.mp hsize⟩
  · refine fun hcond => ⟨fun _ hoff u hrw _ hpos h0 => ?_, blocksApart⟩
    subst hpos
    obtain ⟨hfb, hsize⟩ := hcond.resolve_left (Nat.not_lt.mpr hoff)
    have hnot : Wp False (sfsIo v) (fun _ _ => False)
        (Refused (fs.extend v u.uioOffset, u)) (fs, u) :=
      (wp_io_beyond hfb hrw).post fun _ _ h => absurd h.1 (by omega)
    obtain ⟨e, st, hrun, rfl, rfl⟩ := hnot.exists_error
    exact ⟨_, u, (sfsWrite_eq hrw).trans hrun, sfsFreemap_extend _ _ _, fileByte_extend _ _ _,
      size_extend_eq_iff.mpr hsize⟩

end Limit

/-- A volume of eight blocks, none of them free, and on it a file of the given size all of whose
blocks are block 1. -/
def mappedVolume (size : Nat) : SfsFs :=
  { fullVolume size with
    sfsDevice := ⟨8, eight_lt, fun _ => Bytes.ofWords fun _ => 1, fun _ => true, []⟩
    heap := fun _ => ⟨vnodeInit, ⟨size, .file, 1, fun _ => 1, 2⟩, 3, false⟩ }

/-- A byte written at offset `2^41` is the first byte of the first block. -/
theorem write_wraps_around : ∃ st : SfsFs × Uio,
    sfsWrite 0 (mappedVolume 100, uioKinit [7] 2199023255552 .write) = some (.ok (), st) ∧
      ((st.1.sfsRcache 0).blockNo, (st.1.sfsRcache 0).cache.byte 0) = (1, 7) :=
  Prog.exists_of_map (m := sfsWrite 0) (r := .ok ()) (b := ((1 : Int), (7 : Byte)))
    (s := (mappedVolume 100, uioKinit [7] 2199023255552 .write))
    (f := fun st => ((st.1.sfsRcache 0).blockNo, (st.1.sfsRcache 0).cache.byte 0))
    (by decide +kernel)

/-! ## 4. The size follows the data -/

/-- The size follows the data in every write at offset `off` of a file of size `size`, whatever
the residue, the volume and the device: it stays if nothing was transferred, and otherwise reaches
to the last byte transferred. -/
def SizeFollows (off size : Nat) : Prop :=
  ∀ (fs : SfsFs) (v : Nat) (u : Uio) (result : Except Errno Unit) (st : SfsFs × Uio),
    (fs.heap v).svI.sfiSize = size → u.uioRw = .write → u.Covered → u.uioOffset = off →
    sfsIo v (fs, u) = some (result, st) →
    (st.1.heap v).svI.sfiSize = if u.uioResid - st.2.uioResid = 0 then size
      else max size (off + (u.uioResid - st.2.uioResid))

theorem full_balloc (size : Nat) :
    Wp False sfsBalloc (fun _ _ => False) (fun _ fs' => fs' = fullVolume size)
      (fullVolume size) := by
  have hfull : ∀ b, (fullVolume size).sfsFreemap.isset b = true := fun b =>
    Bitmap.isset_iff.mpr (Bitmap.getLsbD_full _ (Nat.mod_lt _ (by decide)))
  rw [sfsBalloc, wp_bind, onFreemap, wp_zoom]
  refine (bitmapAlloc_wp (absurd (by simp [fullVolume]))).imp (fun b _ h => ?_) (fun _ _ h => ?_)
  · exact absurd (hfull b) (by simp [h.2.1])
  · rw [h.2.1]

theorem full_bmap (size fb : Nat) :
    Wp False (sfsBmap 0 fb true) (fun _ _ => False) (fun _ fs' => fs' = fullVolume size)
      (fullVolume size) := by
  have halloc := full_balloc size
  unfold sfsBmap
  by_cases hdirect : fb < sfsNdirect
  · rw [dif_pos hdirect]
    simp only [sfsBmapDirect, vnodeAt, wp_bind, wp_get, wp_pure]
    exact halloc.bind fun _ _ h => h.elim
  rw [dif_neg hdirect]
  dsimp only
  split_ifs with hbig
  · exact wp_fail.mpr rfl
  · simp only [sfsBmapIndirect, sfsBmapIdbuf, vnodeAt, wp_bind, wp_get, wp_pure]
    rw [if_neg (fun h => Bool.noConfusion h.2)]
    simp only [wp_bind, wp_get, wp_pure]
    exact halloc.bind fun _ _ h => h.elim

/-- A write of one byte that finds no space transfers nothing, and grows the file. -/
theorem full_write (off size : Nat) : ∃ e, sfsIo 0 (fullVolume size, uioKinit [0] off .write) =
      some (.error e, ((fullVolume size).extend 0 off, uioKinit [0] off .write)) := by
  have hpiece : Wp False (sfsPartialio 0 (off % 512) 1) (fun _ _ => False)
      (fun _ st => st = (fullVolume size, uioKinit [0] off .write))
      (fullVolume size, uioKinit [0] off .write) := by
    simp only [sfsPartialio, theUio, wp_bind, wp_get, wp_pure, wp_assert, wp_onFst]
    refine ⟨fun _ => ?_, fun h => h (by simp only [sectSize]; omega)⟩
    refine (full_bmap size (fileblockOf off)).imp (fun _ _ h => h.elim) ?_
    rintro _ _ rfl
    rfl
  have hio : Wp False (sfsIo 0) (fun _ _ => False)
      (fun _ st => st = ((fullVolume size).extend 0 off, uioKinit [0] off .write))
      (fullVolume size, uioKinit [0] off .write) := by
    refine wp_io_write rfl (wp_ioBody_one rfl (hpiece.imp (fun _ _ h => h.elim) ?_))
    rintro _ _ rfl
    exact ⟨rfl, rfl⟩
  obtain ⟨e, st, hrun, rfl⟩ := hio.exists_error
  exact ⟨e, hrun⟩

theorem mapped_bmap (size : Nat) {fb : Nat} (hfb : fb < 143) :
    Wp False (sfsBmap 0 fb true) (fun b fs' => b = 1 ∧ fs' = mappedVolume size)
      (fun _ _ => False) (mappedVolume size) := by
  have hused : ∀ b, b = 1 → Wp False (do sfsCheckUsed b; pure b)
      (fun b fs' => b = 1 ∧ fs' = mappedVolume size) (fun _ _ => False) (mappedVolume size) := by
    rintro b rfl
    have hnblocks : (mappedVolume size).nblocks = 8 := rfl
    refine (sfsCheckUsed_spec (fun _ => by omega) fun _ => ?_).bind ?_
    · exact Bitmap.isset_iff.mpr (Bitmap.getLsbD_full _ (Nat.mod_lt _ (by decide)))
    · rintro _ _ rfl
      exact wp_pure.mpr ⟨rfl, rfl⟩
  unfold sfsBmap
  by_cases hdirect : fb < sfsNdirect
  · rw [dif_pos hdirect]
    simp only [sfsBmapDirect, vnodeAt, wp_bind, wp_get, wp_pure]
    exact hused _ rfl
  rw [dif_neg hdirect]
  simp only [sfsNdirect, sfsDbperidb] at hdirect ⊢
  rw [if_neg (by omega)]
  simp only [sfsBmapIndirect, sfsBmapIdbuf, vnodeAt, wp_bind, wp_get, wp_pure]
  rw [if_neg (fun h => Bool.noConfusion h.2)]
  have hind : ((mappedVolume size).heap 0).svI.sfiIndirect = 2 := rfl
  have hblocks : (mappedVolume size).sfsDevice.dBlocks = 8 := rfl
  simp only [wp_bind, wp_get, wp_pure, hind]
  rw [if_neg (by decide), wp_bind]
  refine wp_rblock (fun _ => rfl) (by omega) ?_
  rw [wp_pure]
  have hword : ∀ k, k < 128 → ((mappedVolume size).disk 2).word k = 1 := by
    intro k hk
    have hdisk : (mappedVolume size).disk 2 = Bytes.ofWords fun _ => 1 := rfl
    have hin : 4 * k + 3 < sectSize := show 4 * k + 3 < 512 by omega
    rw [hdisk, Bytes.word_ofWords hin]
  simp only [hword ((fb - 15) % 128) (Nat.mod_lt _ (by decide))]
  exact hused _ rfl

/-- A write of one byte that finds its block grows the file to the offset it ends at, in 32 bits. -/
theorem mapped_write (size : Nat) {off : Nat} (hfb : fileblockOf off < 143) : ∃ st,
    sfsIo 0 (mappedVolume size, uioKinit [0] off .write) = some (.ok (), st) ∧ st.2.uioResid = 0 ∧
      (st.1.heap 0).svI.sfiSize = if size < off + 1 then u32 (off + 1) else size := by
  have hpiece : Wp False (sfsPartialio 0 (off % 512) 1)
      (fun _ st => st.1.heap = (mappedVolume size).heap ∧ st.2.uioResid = 0 ∧
        st.2.uioOffset = off + 1 ∧ st.2.uioRw = .write) (fun _ _ => False)
      (mappedVolume size, uioKinit [0] off .write) := by
    simp only [sfsPartialio, theUio, wp_bind, wp_get, wp_pure, wp_assert, wp_onFst]
    refine ⟨fun _ => ?_, fun h => h (by simp only [sectSize]; omega)⟩
    refine (mapped_bmap size hfb).post ?_
    rintro b fs' ⟨rfl, rfl⟩
    -- nothing is in the cache, so the block goes to the first slot
    have hslot : slotOf (mappedVolume size).sfsRcache ((mappedVolume size).heap 0).svIno 1 = none :=
      slotOf_eq_none.mpr fun s h => absurd (show (-1 : Int) = intOfU32 3 from h.1) (by decide)
    have hfree : freeSlot (mappedVolume size).sfsRcache = some 0 :=
      freeSlot_eq_some rfl fun s hs => absurd hs (by simp)
    rw [if_neg (by decide)]
    simp only [cachedio, theFs, wp_bind, wp_get, wp_pure, scanCache_eq, hslot, hfree, wp_attempt,
      wp_onFst, wp_modify]
    have hblocks : (mappedVolume size).sfsDevice.dBlocks = 8 := rfl
    refine wp_rblock (fun _ => rfl) (by omega) ?_
    exact wp_uiomoveSlot (uioKinit_kernel _ _ _) le_rfl le_rfl ⟨rfl, rfl, rfl, rfl⟩
  have hio : Wp False (sfsIo 0) (fun _ st => st.2.uioResid = 0 ∧
      (st.1.heap 0).svI.sfiSize = if size < off + 1 then u32 (off + 1) else size)
      (fun _ _ => False) (mappedVolume size, uioKinit [0] off .write) := by
    refine wp_io_write rfl (wp_ioBody_one rfl (hpiece.post_ok ?_))
    rintro _ st ⟨hheap, hres, hpos, hrw⟩
    refine ⟨hres, hrw, hres, ?_⟩
    rw [size_extend, hheap, hpos]
    rfl
  obtain ⟨_, st, hrun, hst⟩ := hio.exists_ok
  exact ⟨st, hrun, hst⟩

theorem IoAccount.size_eq {fs : SfsFs} {v k : Nat} {u : Uio} {st : SfsFs × Uio}
    (h : IoAccount v (fs, u) k st) (hrw : u.uioRw = .write)
    (hreach : u.uioOffset ≤ (fs.heap v).svI.sfiSize ∨
      u.uioOffset % 4294967296 = (fs.heap v).svI.sfiSize) :
    (st.1.heap v).svI.sfiSize = if u.uioResid - st.2.uioResid = 0 then (fs.heap v).svI.sfiSize
      else max (fs.heap v).svI.sfiSize (u.uioOffset + (u.uioResid - st.2.uioResid)) := by
  have hres : st.2.uioResid + k = u.uioResid := h.uio.resid
  have hk : u.uioResid - st.2.uioResid = k := by omega
  have hst := h.size
  rw [hrw] at hst
  dsimp only at hst
  rw [hk, hst]
  split_ifs with h0
  · subst h0
    exact size_extend_eq_iff.mpr hreach
  · have hin : u.uioOffset + k ≤ 73216 := h.inside.resolve_left h0
    rw [size_extend, u32_of_lt (by omega)]
    split_ifs <;> omega

/-- **Where the size follows the data**: the file reaches to the offset already, and the block
number does not wrap around. -/
theorem size_follows_iff {off size : Nat} (hsize : size < 4294967296) :
    SizeFollows off size ↔ (off ≤ size ∨ off % 4294967296 = size) ∧
      (off < 2199023255552 ∨ 143 ≤ off / 512 % 4294967296) := by
  constructor
  · intro h
    constructor
    · obtain ⟨e, hrun⟩ := full_write off size
      have hf := h _ _ _ _ _ rfl rfl (uioKinit_covered _ _ _) rfl hrun
      exact size_extend_eq_iff.mp hf
    · by_contra hno
      obtain ⟨hoff, hfb⟩ := not_or.mp hno
      obtain ⟨st, hrun, hres, hst⟩ := mapped_write size (Nat.lt_of_not_le hfb)
      have hf := h _ _ _ _ _ rfl rfl (uioKinit_covered _ _ _) rfl hrun
      have hone : (uioKinit [0] off .write).uioResid = 1 := rfl
      rw [hst, hres, hone, if_pos (by omega), if_neg (by decide)] at hf
      have hu32 : u32 (off + 1) < 4294967296 := Nat.mod_lt _ (by decide)
      omega
  · rintro ⟨hreach, hwrap⟩ fs v u result st rfl hrw hu rfl hrun
    rcases hwrap with hoff | hfb
    · have hacc : Wp True (sfsIo v) _ _ (fs, u) := sfsIo_account hu hoff
      cases result with
      | ok a => exact (hacc.of_ok hrun).size_eq hrw hreach
      | error e =>
        obtain ⟨-, k, -, hk⟩ := hacc.of_error hrun
        exact hk.size_eq hrw hreach
    · -- nothing is transferred, and the size is adjusted to the offset
      have hst : st = (fs.extend v u.uioOffset, u) := by
        cases result with
        | ok a => exact ((wp_io_beyond hfb hrw).of_ok hrun).2
        | error e => exact ((wp_io_beyond hfb hrw).of_error hrun).2
      subst hst
      rw [if_pos (Nat.sub_self _)]
      exact size_extend_eq_iff.mpr hreach

/-- At the end of a file of 100 bytes. -/
theorem size_follows_append : SizeFollows 100 100 :=
  (size_follows_iff (by decide)).mpr ⟨.inl (by decide), .inl (by decide)⟩

/-- A write of NO bytes at offset 1024 of an empty file makes it 1024 bytes long. -/
theorem empty_write_grows : ∃ st : SfsFs × Uio,
    sfsIo 0 (fullVolume 0, uioKinit [] 1024 .write) = some (.ok (), st) ∧
      (st.1.heap 0).svI.sfiSize = 1024 :=
  Prog.exists_of_map (m := sfsIo 0) (r := .ok ()) (b := 1024)
    (s := (fullVolume 0, uioKinit [] 1024 .write)) (f := fun st => (st.1.heap 0).svI.sfiSize)
    (by decide +kernel)

end Os161
