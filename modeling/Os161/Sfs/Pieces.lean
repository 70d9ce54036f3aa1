/-
# The accounts of `sfs_io`

`sfs_io` cuts a request into a leading piece, whole blocks and a last piece.  It finds the pieces as
it goes: the position, the residue and the block number are all read from the uio, which each piece
moves on, and which `sfs_blockio` points at the DEVICE while the device works.

This file says that it comes to the same as going through a list of pieces that is known beforehand
(`piecesOf`).  `pieceAt` is one piece, given its block: `sfs_bmap`, and then `cachedio` or `lentio`
as in `sfs_partialio` and `sfs_blockio`, without a single assertion and without the division of the
offset.  Two facts are about one piece, in any state of the volume, with any device and any uio that
its iovecs cover:

* the code AGREES with `pieceAt` (`pieceCode_eq`), so no assertion fires and the block is the right
  one;
* the uio is moved by the length of the piece, or by less if the piece fails (`pieceCode_spec`).

By induction on the pieces both hold of a whole request (`pieces_agree`, `wp_pieces`).  A request
whose offset is below `2^41` cannot get to a block number that wraps around: `sfs_bmap` accepts only
blocks below 143, so a piece behind the first starts at block 143 at most.
-/
import Os161.Sfs.File

namespace Os161

open List Prog

/-! ## 1. The pieces of a request -/

/-- A piece of a request: `len` bytes of one block of the file, from position `skip` on. -/
structure Piece where
  block : Nat
  skip : Nat
  len : Nat
  deriving DecidableEq, Repr

/-- `n` whole blocks from block `b` on. -/
def wholePieces (b : Nat) : Nat → List Piece
  | 0 => []
  | n + 1 => ⟨b, 0, 512⟩ :: wholePieces (b + 1) n

/-- What is left for the last block. -/
def lastPiece (b len : Nat) : List Piece := if 0 < len then [⟨b, 0, len⟩] else []

/-- A request of `len` bytes from the start of block `b` on. -/
def alignedPieces (b len : Nat) : List Piece :=
  wholePieces b (len / 512) ++ lastPiece (b + len / 512) (len % 512)

/-- A request of `len` bytes from offset `off` on.  If the offset is inside a block there is a
leading piece, even for a request of length 0. -/
def piecesOf (off len : Nat) : List Piece :=
  if off % 512 = 0 then alignedPieces (off / 512) len
  else ⟨off / 512, off % 512, min (512 - off % 512) len⟩ ::
    alignedPieces (off / 512 + 1) (len - min (512 - off % 512) len)

/-- The pieces tile the request: each starts where the one before ends, and all but the last one go
to the end of their block. -/
inductive Tiles : Nat → Nat → List Piece → Prop
  | nil (off : Nat) : Tiles off 0 []
  | cons {off len : Nat} {p : Piece} {ps : List Piece} (start : p.block * 512 + p.skip = off)
    (inside : p.skip < 512) (fits : p.skip + p.len ≤ 512) (le : p.len ≤ len)
    (ends : ps = [] ∨ p.skip + p.len = 512) (rest : Tiles (off + p.len) (len - p.len) ps) :
    Tiles off len (p :: ps)

variable {off len k : Nat} {ps : List Piece} {st st' : SfsFs × Uio}

theorem Tiles.of_nil (h : Tiles off len []) : len = 0 := by
  cases h with
  | nil => rfl

theorem Tiles.of_cons {p : Piece} (h : Tiles off len (p :: ps)) :
    p.block * 512 + p.skip = off ∧ p.skip < 512 ∧ p.skip + p.len ≤ 512 ∧ p.len ≤ len ∧
      Tiles (off + p.len) (len - p.len) ps := by
  cases h with
  | cons start inside fits le ends rest => exact ⟨start, inside, fits, le, rest⟩

theorem tiles_aligned (r : Nat) (hr : r < 512) : ∀ (n b : Nat),
    Tiles (b * 512) (n * 512 + r) (wholePieces b n ++ lastPiece (b + n) r)
  | 0, b => by
    rw [wholePieces, nil_append, lastPiece, Nat.zero_mul, Nat.zero_add]
    split_ifs with h0
    · refine .cons (by simp) (by simp) (by simp only; omega) le_rfl (.inl rfl) ?_
      simp only [Nat.sub_self]
      exact .nil _
    · obtain rfl : r = 0 := by omega
      exact .nil _
  | n + 1, b => by
    refine .cons (by simp) (by simp) (by simp) (by simp only; omega) (.inr rfl) ?_
    have ih := tiles_aligned r hr n (b + 1)
    have hlen : (n + 1) * 512 + r - 512 = n * 512 + r := by omega
    have hb : b + 1 + n = b + (n + 1) := by omega
    simp only [hlen]
    rwa [Nat.add_mul, Nat.one_mul, hb] at ih

theorem tiles_alignedPieces (b len : Nat) : Tiles (b * 512) len (alignedPieces b len) := by
  have h := tiles_aligned (len % 512) (Nat.mod_lt _ (by decide)) (len / 512) b
  rwa [Nat.mul_comm (len / 512), Nat.div_add_mod] at h

theorem alignedPieces_zero (b : Nat) : alignedPieces b 0 = [] := rfl

/-- **The pieces tile the request.** -/
theorem tiles_piecesOf (off len : Nat) : Tiles off len (piecesOf off len) := by
  unfold piecesOf
  split_ifs with hal
  · have h := tiles_alignedPieces (off / 512) len
    rwa [show off / 512 * 512 = off by omega] at h
  refine .cons (by simp only; omega) (Nat.mod_lt _ (by decide)) (by simp only; omega)
    (Nat.min_le_right _ _) ?_ ?_
  · by_cases hlen : len ≤ 512 - off % 512
    · left
      rw [Nat.min_eq_right hlen, Nat.sub_self]
      rfl
    · right
      simp only
      omega
  · by_cases hlen : len ≤ 512 - off % 512
    · simp only [Nat.min_eq_right hlen, Nat.sub_self, alignedPieces_zero]
      exact .nil _
    · have h := tiles_alignedPieces (off / 512 + 1) (len - min (512 - off % 512) len)
      rwa [show (off / 512 + 1) * 512 = off + min (512 - off % 512) len by omega] at h

theorem Tiles.block_ge (h : Tiles off len ps) : ∀ p ∈ ps, off / 512 ≤ p.block := by
  induction h with
  | nil off => simp
  | @cons off len p ps start inside fits le ends rest ih =>
    intro q hq
    rcases mem_cons.mp hq with rfl | hq
    · omega
    · have := ih q hq
      omega

theorem Tiles.fits (h : Tiles off len ps) : ∀ p ∈ ps, p.skip + p.len ≤ 512 := by
  induction h with
  | nil off => simp
  | cons start inside fits le ends rest ih => exact forall_mem_cons.mpr ⟨fits, ih⟩

theorem Tiles.increasing (h : Tiles off len ps) : ps.Pairwise fun p q => p.block < q.block := by
  induction h with
  | nil off => exact .nil
  | @cons off len p ps start inside fits le ends rest ih =>
    refine .cons (fun q hq => ?_) ih
    rcases ends with rfl | ends
    · simp at hq
    · have := rest.block_ge q hq
      omega

/-! ## 2. One piece, given its block -/

/-- `sfs_partialio` on a given block of the file, without its assertions. -/
def partialioAt (v fileblock skipstart len : Nat) : SfsIo Unit := do
  let uio ← theUio
  let diskblock ← onFst (sfsBmap v fileblock (decide (uio.uioRw = .write)))
  if diskblock = 0 then uiomoveIobuf 0 diskblock skipstart len
  else cachedio v diskblock skipstart len

/-- `sfs_blockio` on a given block of the file, without its assertions. -/
def blockioAt (v fileblock : Nat) : SfsIo Unit := do
  let uio ← theUio
  let diskblock ← onFst (sfsBmap v fileblock (decide (uio.uioRw = .write)))
  if diskblock = 0 then onSnd (uiomovezeros sectSize)
  else lentio diskblock

/-- One piece. -/
def pieceAt (v : Nat) (p : Piece) : SfsIo Unit :=
  if p.len = 512 then blockioAt v p.block else partialioAt v p.block p.skip p.len

/-- The call that `sfs_io` makes for the piece. -/
def pieceCode (v : Nat) (p : Piece) : SfsIo Unit :=
  if p.len = 512 then sfsBlockio v else sfsPartialio v p.skip p.len

/-- How much of a request can be transferred: a read ends at the end of the file. -/
def Uio.quota (u : Uio) (size : Nat) : Nat :=
  match u.uioRw with
  | .read => min u.uioResid (size - u.uioOffset)
  | .write => u.uioResid

/-- The pieces of a request on a file of the given size.  A read from the end of the file on has
none. -/
def Uio.pieces (u : Uio) (size : Nat) : List Piece :=
  if u.uioRw = .read ∧ size ≤ u.uioOffset then [] else piecesOf u.uioOffset (u.quota size)

/-- `sfs_io`, going through a list of pieces. -/
def sfsIoPieces (v : Nat) : SfsIo Unit := do
  let fs ← theFs
  let uio ← theUio
  let size := (fs.heap v).svI.sfiSize
  modify fun st => (st.1, { st.2 with uioResid := uio.quota size })
  let result ← attempt (forEach (pieceAt v) (uio.pieces size))
  sfsIoOut v (uio.uioResid - uio.quota size) result

/-! ## 3. What a piece leaves alone on the volume -/

/-- The files are the same but for their blocks, and the superblock is still marked in use if it
was. -/
structure SfsFs.Light (fs fs' : SfsFs) : Prop where
  ino : ∀ x, (fs'.heap x).svIno = (fs.heap x).svIno
  same : ∀ x, (fs.heap x).svI.SameMeta (fs'.heap x).svI
  super : fs.sfsFreemap.isset 0 = true → fs'.sfsFreemap.isset 0 = true

namespace SfsFs.Light

variable {fs fs' fs'' : SfsFs}

theorem of_heap (hh : fs'.heap = fs.heap)
    (hs : fs.sfsFreemap.isset 0 = true → fs'.sfsFreemap.isset 0 = true) : fs.Light fs' :=
  ⟨fun x => by rw [hh], fun x => by rw [hh]; exact ⟨rfl, rfl, rfl⟩, hs⟩

theorem refl (fs : SfsFs) : fs.Light fs := of_heap rfl id

theorem trans (h : fs.Light fs') (h' : fs'.Light fs'') : fs.Light fs'' where
  ino := fun x => (h'.ino x).trans (h.ino x)
  same := fun x => (h.same x).trans (h'.same x)
  super := fun hs => h'.super (h.super hs)

theorem size (h : fs.Light fs') (x : Nat) :
    (fs'.heap x).svI.sfiSize = (fs.heap x).svI.sfiSize := (h.same x).1

theorem setInode (fs : SfsFs) (v : Nat) {n : SfsInode} (hn : (fs.heap v).svI.SameMeta n) :
    fs.Light (fs.setInode v n) where
  ino := fun x => by
    by_cases hx : x = v
    · rw [hx, SfsFs.heap_setInode_self]
    · rw [SfsFs.heap_setInode_of_ne n hx]
  same := fun x => by
    by_cases hx : x = v
    · rw [hx, SfsFs.heap_setInode_self]
      exact hn
    · rw [SfsFs.heap_setInode_of_ne n hx]
      exact ⟨rfl, rfl, rfl⟩
  super := id

end SfsFs.Light

/-- The errors of `sfs_bmap`, and of a piece: of the device, no space, or a block that no file can
have. -/
def Errno.OfPiece (fileblock : Nat) (e : Errno) : Prop :=
  e.OfIo ∨ e = .enospc ∨ (e = .efbig ∧ 143 ≤ fileblock)

section Bmap

variable {fs : SfsFs} {v : Nat}

theorem wp_onDevice_light {α : Type} {m : Prog Errno Lhd α}
    (h : ∀ d, Wp True m (fun _ _ => True) (fun e _ => e.OfIo) d) :
    Wp True (onDevice m) (fun _ fs' => fs.Light fs') (fun e fs' => e.OfIo ∧ fs.Light fs')
      fs := by
  rw [onDevice, wp_zoom]
  exact (h _).imp (fun _ _ _ => .of_heap rfl id) fun _ _ he => ⟨he, .of_heap rfl id⟩

theorem sfsBalloc_light : Wp True sfsBalloc
      (fun b fs' => fs.Light fs' ∧ (fs.sfsFreemap.isset 0 = true → b ≠ 0))
      (fun e fs' => (e.OfIo ∨ e = .enospc) ∧ fs.Light fs') fs := by
  rw [sfsBalloc, wp_bind, onFreemap, wp_zoom]
  refine (bitmapAlloc_wp fun _ => trivial).imp ?_ ?_
  · rintro b _ ⟨-, hclear, rfl⟩
    have hlight : ∀ dirty, fs.Light
        { fs with sfsFreemap := fs.sfsFreemap.set b, sfsFreemapdirty := dirty } := fun _ =>
      .of_heap rfl fun hs => Bitmap.isset_set.mpr (.inr hs)
    simp only [wp_bind, wp_modify, wp_get, wp_assert, sfsClearblock]
    refine ⟨fun _ => (wp_onDevice_light fun _ => sfsWblock_ofIo).imp ?_ ?_, fun _ => trivial⟩
    · intro _ fs' h'
      refine wp_pure.mpr ⟨(hlight true).trans h', fun hs hb => ?_⟩
      rw [hb, hs] at hclear
      cases hclear
    · rintro e fs' ⟨he, h'⟩
      exact ⟨.inl he, (hlight true).trans h'⟩
  · rintro e _ ⟨rfl, rfl, -⟩
    exact ⟨.inr rfl, .refl fs⟩

theorem sfsCheckUsed_light (b : Nat) {Q : Unit → SfsFs → Prop} {E : Errno → SfsFs → Prop}
    (hQ : Q () fs) : Wp True (sfsCheckUsed b) Q E fs := by
  unfold sfsCheckUsed sfsBused
  split_ifs with hb
  · simp only [wp_bind, wp_get, wp_assert, wp_pure]
    exact ⟨fun _ => ⟨fun _ => hQ, fun _ => trivial⟩, fun _ => trivial⟩
  · exact wp_pure.mpr hQ

/-- What a successful `sfs_bmap` leaves. -/
structure BmapLight (fs : SfsFs) (doalloc : Bool) (b : Nat) (fs' : SfsFs) : Prop where
  light : fs.Light fs'
  mapped : doalloc = true → fs.sfsFreemap.isset 0 = true → b ≠ 0

theorem sfsBmapDirect_light (fileblock : Fin 15) (doalloc : Bool) :
    Wp True (sfsBmapDirect v fileblock doalloc) (BmapLight fs doalloc)
      (fun e fs' => (e.OfIo ∨ e = .enospc) ∧ fs.Light fs') fs := by
  simp only [sfsBmapDirect, vnodeAt, wp_bind, wp_get, wp_pure]
  by_cases hnew : (fs.heap v).svI.sfiDirect fileblock = 0 ∧ doalloc = true
  · simp only [if_pos hnew, wp_bind, modifyInode, wp_modify, wp_pure]
    refine sfsBalloc_light.post ?_
    rintro b fs₁ ⟨h1, hb⟩
    exact sfsCheckUsed_light b ⟨h1.trans (.setInode _ _ ⟨rfl, rfl, rfl⟩), fun _ => hb⟩
  · simp only [if_neg hnew, wp_bind, wp_pure]
    exact sfsCheckUsed_light _ ⟨.refl fs, fun hd _ h0 => hnew ⟨h0, hd⟩⟩

theorem sfsBmapIdbuf_light : Wp True (sfsBmapIdbuf v) (fun _ fs' => fs.Light fs')
      (fun e fs' => (e.OfIo ∨ e = .enospc) ∧ fs.Light fs') fs := by
  simp only [sfsBmapIdbuf, vnodeAt, wp_bind, wp_get, wp_pure]
  split_ifs with hind
  · simp only [wp_bind, modifyInode, wp_modify, wp_pure]
    refine sfsBalloc_light.post ?_
    rintro b fs₁ ⟨h1, -⟩
    exact h1.trans (.setInode _ _ ⟨rfl, rfl, rfl⟩)
  · rw [wp_bind]
    refine (wp_onDevice_light fun _ => sfsRblock_ofIo).imp (fun _ _ h => wp_pure.mpr h) ?_
    exact fun _ _ h => ⟨.inl h.1, h.2⟩

theorem sfsBmapIndirect_light (idoff : Nat) (doalloc : Bool) :
    Wp True (sfsBmapIndirect v idoff doalloc) (BmapLight fs doalloc)
      (fun e fs' => (e.OfIo ∨ e = .enospc) ∧ fs.Light fs') fs := by
  simp only [sfsBmapIndirect, vnodeAt, wp_bind, wp_get, wp_pure]
  split_ifs with hnone
  · exact wp_pure.mpr ⟨.refl fs, fun hd => by simp [hd] at hnone⟩
  refine sfsBmapIdbuf_light.bind ?_
  rintro ⟨idblock, idbuf⟩ fs₁ h1
  by_cases hnew : idbuf idoff = 0 ∧ doalloc = true
  · simp only [if_pos hnew, wp_bind, wp_pure]
    refine sfsBalloc_light.imp ?_ fun _ _ h => ⟨h.1, h1.trans h.2⟩
    rintro b fs₂ ⟨h2, hb⟩
    refine (wp_onDevice_light fun _ => sfsWblock_ofIo).imp ?_ ?_
    · intro _ fs₃ h3
      exact sfsCheckUsed_light b ⟨h1.trans (h2.trans h3), fun _ hs => hb (h1.super hs)⟩
    · exact fun _ fs₃ h => ⟨.inl h.1, h1.trans (h2.trans h.2)⟩
  · simp only [if_neg hnew, wp_bind, wp_pure]
    exact sfsCheckUsed_light _ ⟨h1, fun hd _ h0 => hnew ⟨h0, hd⟩⟩

/-- **`sfs_bmap`, in any state.**  It maps only blocks below 143, and with `doalloc` it comes back
with a block, as long as it cannot be handed the superblock. -/
theorem sfsBmap_light (fileblock : Nat) (doalloc : Bool) : Wp True (sfsBmap v fileblock doalloc)
      (fun b fs' => BmapLight fs doalloc b fs' ∧ fileblock < 143)
      (fun e fs' => e.OfPiece fileblock ∧ fs.Light fs') fs := by
  have herr : ∀ (e : Errno) (fs' : SfsFs), (e.OfIo ∨ e = .enospc) ∧ fs.Light fs' →
      e.OfPiece fileblock ∧ fs.Light fs' := fun _ _ h => ⟨h.1.imp_right .inl, h.2⟩
  unfold sfsBmap
  by_cases hdirect : fileblock < sfsNdirect
  · rw [dif_pos hdirect]
    refine (sfsBmapDirect_light _ doalloc).imp (fun _ _ h => ⟨h, ?_⟩) herr
    exact lt_of_lt_of_le hdirect (by decide)
  rw [dif_neg hdirect]
  simp only [sfsNdirect, sfsDbperidb] at hdirect ⊢
  split_ifs with hbig
  · exact wp_fail.mpr ⟨.inr (.inr ⟨rfl, by omega⟩), .refl fs⟩
  · exact (sfsBmapIndirect_light _ doalloc).imp (fun _ _ h => ⟨h, by omega⟩) herr

end Bmap

/-! ## 4. One piece -/

/-- The state of a transfer, `k` bytes further on. -/
structure Carried (st : SfsFs × Uio) (k : Nat) (st' : SfsFs × Uio) : Prop where
  uio : st.2.Ahead k st'.2
  light : st.1.Light st'.1

theorem Carried.refl (st : SfsFs × Uio) : Carried st 0 st := ⟨.refl _, .refl _⟩

theorem Carried.trans {st'' : SfsFs × Uio} {l : Nat} (h : Carried st k st')
    (h' : Carried st' l st'') : Carried st (k + l) st'' :=
  ⟨h.uio.trans h'.uio, h.light.trans h'.light⟩

/-- A write cannot be handed the superblock. -/
def SuperUsed (st : SfsFs × Uio) : Prop := st.2.uioRw = .write → st.1.sfsFreemap.isset 0 = true

theorem Carried.superUsed (h : Carried st k st') (hs : SuperUsed st) : SuperUsed st' :=
  fun hw => h.light.super (hs (h.uio.rw ▸ hw))

section Piece

variable {fs : SfsFs} {u : Uio} {v : Nat}

theorem wp_onFst_light {α : Type} {m : Sfs α} {Q : α → SfsFs → Prop} {E : Errno → SfsFs → Prop}
    (h : Wp True m Q E fs) :
    Wp True (onFst m) (fun a st => Q a st.1 ∧ st.2 = u) (fun e st => E e st.1 ∧ st.2 = u) (fs, u) :=
  wp_onFst.mpr (h.imp (fun _ _ hq => ⟨hq, rfl⟩) fun _ _ he => ⟨he, rfl⟩)

variable {skip : Nat} {fs' : SfsFs} {p : Piece}

theorem uiomove_slice (h : u.Covered) (hr : len ≤ u.uioResid) (b : Sector) :
    Wp True (uiomove (b.slice skip len)) (fun _ => u.Ahead len)
      (fun e u' => e.OfIo ∧ ∃ k ≤ len, u.Ahead k u') u := by
  have hlen : (b.slice skip len).length = len := b.length_slice skip len
  refine (uiomove_spec h (hlen.symm ▸ hr)).imp (fun _ _ hu => hlen ▸ hu.toAhead) ?_
  rintro e u' ⟨rfl, hu⟩
  exact ⟨.inr (.inr rfl), hlen ▸ hu⟩

/-- What a part of a piece of `len` bytes leaves when it fails. -/
def PieceErr (fs : SfsFs) (u : Uio) (len : Nat) (e : Errno) (st : SfsFs × Uio) : Prop :=
  e.OfIo ∧ ∃ k ≤ len, Carried (fs, u) k st

theorem wp_uiomoveSlot_carried (h : u.Covered) (hr : len ≤ u.uioResid) (s : Fin 64) :
    Wp True (uiomoveSlot s skip len) (fun _ => Carried (fs, u) len) (PieceErr fs u len)
      (fs, u) := by
  simp only [uiomoveSlot, theFs, wp_bind, wp_get, wp_pure, wp_onSnd, wp_modify]
  refine (uiomove_slice h hr _).imp (fun _ _ hu => ⟨hu, .of_heap rfl id⟩) ?_
  rintro e u' ⟨he, k, hk, hu⟩
  exact ⟨he, k, hk, hu, .refl fs⟩

theorem wp_uiomoveIobuf_carried (h : u.Covered) (hr : len ≤ u.uioResid) (iobuf : Sector) (b : Nat) :
    Wp True (uiomoveIobuf iobuf b skip len) (fun _ => Carried (fs, u) len) (PieceErr fs u len)
      (fs, u) := by
  simp only [uiomoveIobuf, theUio, wp_bind, wp_get, wp_pure, wp_onSnd]
  refine (uiomove_slice h hr _).imp (fun buf u' hu => ?_) ?_
  · split_ifs with hw
    · refine (wp_onFst_light (wp_onDevice_light fun _ => sfsWblock_ofIo)).imp ?_ ?_
      · rintro _ st ⟨hl, rfl⟩
        exact ⟨hu, hl⟩
      · rintro e st ⟨⟨he, hl⟩, rfl⟩
        exact ⟨he, len, le_rfl, hu, hl⟩
    · exact wp_pure.mpr ⟨hu, .refl fs⟩
  · rintro e u' ⟨he, k, hk, hu⟩
    exact ⟨he, k, hk, hu, .refl fs⟩

theorem PieceErr.after (h : fs.Light fs') :
    ∀ e st, PieceErr fs' u len e st → PieceErr fs u len e st := by
  rintro e st ⟨he, k, hk, hst⟩
  exact ⟨he, k, hk, hst.uio, h.trans hst.light⟩

theorem Carried.after (h : fs.Light fs') (hst : Carried (fs', u) len st) :
    Carried (fs, u) len st := ⟨hst.uio, h.trans hst.light⟩

theorem wp_sfsReplace_carried (h : u.Covered) (hr : len ≤ u.uioResid) (b : Nat) :
    Wp True (sfsReplace b skip len) (fun _ => Carried (fs, u) len) (PieceErr fs u len) (fs, u) := by
  simp only [sfsReplace, theFs, wp_bind, wp_get, wp_pure, wp_onFst, wp_modify, wp_attempt]
  have hflush : ∀ fs' : SfsFs, fs.Light fs' → Wp True (onDevice (sfsRblock b))
      (fun buf fs₁ => Wp True (onDevice (sfsRblock b))
        (fun iobuf fs₂ => Wp True (uiomoveIobuf iobuf b skip len)
          (fun _ => Carried (fs, u) len) (PieceErr fs u len) (fs₂, u))
        (fun e fs₂ => PieceErr fs u len e (fs₂, u))
        (fs₁.setSlot fs.victim { fs₁.sfsRcache fs.victim with cache := buf }))
      (fun e fs₁ => PieceErr fs u len e (fs₁, u)) fs' := by
    intro fs' h'
    have herr : ∀ (e : Errno) (fs₁ : SfsFs), e.OfIo ∧ fs.Light fs₁ → PieceErr fs u len e (fs₁, u) :=
      fun e fs₁ h1 => ⟨h1.1, 0, Nat.zero_le _, .refl u, h1.2⟩
    refine (wp_onDevice_light fun _ => sfsRblock_ofIo).imp (fun buf fs₁ h1 => ?_)
      fun e fs₁ h1 => herr e fs₁ ⟨h1.1, h'.trans h1.2⟩
    have hset : fs.Light (fs₁.setSlot fs.victim { fs₁.sfsRcache fs.victim with cache := buf }) :=
      (h'.trans h1).trans (.of_heap rfl id)
    refine (wp_onDevice_light fun _ => sfsRblock_ofIo).imp (fun iobuf fs₂ h2 => ?_)
      fun e fs₂ h2 => herr e fs₂ ⟨h2.1, hset.trans h2.2⟩
    exact (wp_uiomoveIobuf_carried h hr iobuf b).imp (fun _ _ hst => hst.after (hset.trans h2))
      (PieceErr.after (hset.trans h2))
  have hnext : fs.Light fs.nextRandom := .of_heap rfl id
  exact (wp_onDevice_light fun _ => sfsWblock_ofIo).imp
    (fun _ fs' h' => hflush fs' (hnext.trans h')) fun _ fs' h' => hflush fs' (hnext.trans h'.2)

theorem wp_cachedio_carried (h : u.Covered) (hr : len ≤ u.uioResid) (b : Nat) :
    Wp True (cachedio v b skip len) (fun _ => Carried (fs, u) len) (PieceErr fs u len) (fs, u) := by
  simp only [cachedio, theFs, wp_bind, wp_get, wp_pure]
  split
  · exact wp_uiomoveSlot_carried h hr _
  · next s _ =>
    have hload : ∀ (c : SfsBufferCache) (fs' : SfsFs), fs.Light fs' →
        Wp True (uiomoveSlot s skip len) (fun _ => Carried (fs, u) len) (PieceErr fs u len)
          (fs'.setSlot s c, u) := by
      intro c fs' h'
      have hset : fs.Light (fs'.setSlot s c) := h'.trans (.of_heap rfl id)
      exact (wp_uiomoveSlot_carried h hr s).imp (fun _ _ hst => hst.after hset)
        (PieceErr.after hset)
    simp only [wp_bind, wp_attempt, wp_onFst, wp_modify]
    exact (wp_onDevice_light fun _ => sfsRblock_ofIo).imp (fun _ fs' h' => hload _ fs' h')
      fun _ fs' h' => hload _ fs' h'.2
  · exact wp_sfsReplace_carried h hr b

theorem Uio.Ahead.giveBack {u₁ : Uio} {n : Nat} (hr : 512 ≤ u.uioResid)
    (h : Uio.Ahead { u with uioOffset := n, uioResid := 512 } k u₁) : u.Ahead k { u₁ with
      uioOffset := u₁.uioOffset + u.uioOffset - n
      uioResid := u₁.uioResid + u.uioResid - 512 } := by
  obtain ⟨hoff, hres, hroom, hrw, hseg⟩ := h
  dsimp only at hoff hres
  exact ⟨by dsimp only; omega, by dsimp only; omega, hroom, hrw, hseg⟩

theorem wp_lentio_carried (h : u.Covered) (hr : 512 ≤ u.uioResid) (b : Nat) :
    Wp True (lentio b) (fun _ => Carried (fs, u) 512) (PieceErr fs u 512) (fs, u) := by
  simp only [lentio, theUio, wp_bind, wp_get, wp_pure, wp_modify, wp_attempt, onDeviceUio, wp_zoom]
  have hcov : Uio.Covered { u with uioOffset := u32 (b * sectSize), uioResid := sectSize } :=
    le_trans hr h
  refine (sfsRwblockLoop_ahead 10 hcov).imp ?_ ?_
  · rintro _ ⟨d, u₁⟩ hu
    exact wp_ofResult_ok.mpr ⟨hu.giveBack hr, .of_heap rfl id⟩
  · rintro e ⟨d, u₁⟩ ⟨he, k, hk, hu⟩
    exact wp_ofResult_error.mpr ⟨he, k, hk, hu.giveBack hr, .of_heap rfl id⟩

/-- What a piece leaves when it fails. -/
structure PieceFails (st : SfsFs × Uio) (p : Piece) (e : Errno) (st' : SfsFs × Uio) : Prop where
  errno : e.OfPiece p.block
  carried : ∃ k ≤ p.len, Carried st k st' ∧ (k = 0 ∨ p.block < 143)

/-- The way to a piece through `sfs_bmap`: `body` is what is done with the block it finds. -/
theorem wp_mapped (p : Piece) {doalloc : Bool} {body : Nat → SfsIo Unit}
    (hbody : ∀ b fs', Wp True (body b) (fun _ => Carried (fs', u) p.len)
      (PieceErr fs' u p.len) (fs', u)) :
    Wp True (onFst (sfsBmap v p.block doalloc) >>= body)
      (fun _ st => Carried (fs, u) p.len st ∧ p.block < 143) (PieceFails (fs, u) p) (fs, u) := by
  rw [wp_bind]
  refine (wp_onFst_light (sfsBmap_light p.block doalloc)).imp ?_ ?_
  · rintro b ⟨fs', u'⟩ ⟨⟨hb, hlt⟩, rfl⟩
    refine (hbody b fs').imp (fun _ st hst => ⟨hst.after hb.light, hlt⟩) ?_
    intro e st he
    obtain ⟨hio, k, hk, hst⟩ := he.after hb.light
    exact ⟨.inl hio, k, hk, hst, .inr hlt⟩
  · rintro e ⟨fs', u'⟩ ⟨⟨he, hl⟩, rfl⟩
    exact ⟨he, 0, Nat.zero_le _, ⟨.refl _, hl⟩, .inl rfl⟩

/-- **The account of one piece.** -/
theorem pieceCode_spec (h : u.Covered) (hr : p.len ≤ u.uioResid)
    (hblock : u32 (u.uioOffset / 512) = p.block) :
    Wp True (pieceCode v p) (fun _ st => Carried (fs, u) p.len st ∧ p.block < 143)
      (PieceFails (fs, u) p) (fs, u) := by
  have hfb : u32 (u.uioOffset / sectSize) = p.block := hblock
  unfold pieceCode
  split_ifs with hwhole
  · simp only [sfsBlockio, theUio, wp_bind, wp_get, wp_pure, hfb]
    rw [← wp_bind]
    refine wp_mapped p fun b fs' => ?_
    rw [hwhole] at hr ⊢
    split_ifs with h0
    · rw [wp_bind, wp_assert]
      refine ⟨fun hread => ?_, fun _ => trivial⟩
      rw [wp_onSnd]
      refine (uiomovezeros_spec h hread hr).imp ?_ ?_
      · intro _ u' ht
        have hahead := ht.toAhead
        rw [length_replicate] at hahead
        exact ⟨hahead, .refl fs'⟩
      · rintro e u' ⟨rfl, k, hk, ht⟩
        exact ⟨.inr (.inr rfl), k, hk, ht, .refl fs'⟩
    · rw [wp_bind, wp_assert]
      refine ⟨fun _ => ?_, fun _ => trivial⟩
      exact wp_lentio_carried h hr b
  · simp only [sfsPartialio, theUio, wp_bind, wp_get, wp_pure, wp_assert, hfb]
    refine ⟨fun _ => ?_, fun _ => trivial⟩
    rw [← wp_bind]
    refine wp_mapped p fun b fs' => ?_
    split_ifs with h0
    · rw [wp_bind, wp_assert]
      exact ⟨fun _ => wp_uiomoveIobuf_carried h hr 0 b, fun _ => trivial⟩
    · exact wp_cachedio_carried h hr b

/-- **The code of a piece agrees with the piece**: its assertions hold, and the block it computes is
the one of the piece. -/
theorem pieceCode_eq (hsuper : SuperUsed (fs, u)) (hfits : p.skip + p.len ≤ 512)
    (hr : p.len ≤ u.uioResid) (hblock : u32 (u.uioOffset / 512) = p.block) :
    pieceCode v p (fs, u) = pieceAt v p (fs, u) := by
  have hfb : u32 (u.uioOffset / sectSize) = p.block := hblock
  have hmap : ∀ {body body' : Nat → SfsIo Unit},
      (∀ b fs', (b = 0 → u.uioRw = .read) → body b (fs', u) = body' b (fs', u)) →
      (onFst (sfsBmap v p.block (decide (u.uioRw = .write))) >>= body) (fs, u) =
        (onFst (sfsBmap v p.block (decide (u.uioRw = .write))) >>= body') (fs, u) := by
    intro body body' h
    refine bind_congr rfl ((wp_onFst_light (sfsBmap_light p.block _)).imp ?_ fun _ _ _ => trivial)
    rintro b ⟨fs', u'⟩ ⟨⟨hb, -⟩, rfl⟩
    refine h b fs' fun h0 => ?_
    cases hrw : u'.uioRw with
    | read => rfl
    | write => exact absurd h0 (hb.mapped (by simp [hrw]) (hsuper hrw))
  unfold pieceCode pieceAt
  split_ifs with hwhole
  · change (onFst (sfsBmap v (u32 (u.uioOffset / sectSize)) _) >>= _) (fs, u) = _
    rw [hfb]
    refine hmap fun b fs' hread => ?_
    split_ifs with h0
    · exact assert_bind (hread h0)
    · exact assert_bind (hwhole.symm.trans_le hr)
  · change (assert _ >>= fun _ =>
      onFst (sfsBmap v (u32 (u.uioOffset / sectSize)) _) >>= _) (fs, u) = _
    rw [assert_bind hfits, hfb]
    refine hmap fun b fs' hread => ?_
    split_ifs with h0
    · exact assert_bind (hread h0)
    · rfl

end Piece

/-! ## 5. A whole request -/

/-- `k` bytes into a request of `len` bytes from `off` on, with the pieces `ps` to come.  Behind the
first byte the position is inside the largest file. -/
structure Along (st₀ : SfsFs × Uio) (len : Nat) (ps : List Piece) (k : Nat) (st : SfsFs × Uio) :
    Prop where
  carried : Carried st₀ k st
  le : k ≤ len
  tiles : Tiles (st₀.2.uioOffset + k) (len - k) ps
  inside : k = 0 ∨ st₀.2.uioOffset + k ≤ 73216

/-- What a request leaves when one of its pieces fails. -/
structure RequestFails (st₀ : SfsFs × Uio) (len : Nat) (e : Errno) (st : SfsFs × Uio) : Prop where
  errno : ∃ b, e.OfPiece b
  carried : ∃ k ≤ len, Carried st₀ k st ∧ (k = 0 ∨ st₀.2.uioOffset + k ≤ 73216)

section Request

variable {st₀ : SfsFs × Uio} {len v : Nat}

section

variable (hu : st₀.2.Covered) (hlen : len ≤ st₀.2.uioResid) (hoff : st₀.2.uioOffset < 2199023255552)

include hu hlen hoff

/-- One piece along a request.  Its block number does not wrap around, and afterwards the request is
one piece further. -/
theorem Along.step {p : Piece} (h : Along st₀ len (p :: ps) k st) :
    (p.skip + p.len ≤ 512 ∧ p.len ≤ st.2.uioResid ∧ u32 (st.2.uioOffset / 512) = p.block) ∧
      Wp True (pieceCode v p) (fun _ st' => Along st₀ len ps (k + p.len) st')
        (RequestFails st₀ len) st := by
  obtain ⟨fs, u⟩ := st
  obtain ⟨hc, hk, ht, hin⟩ := h
  obtain ⟨start, inside, fits, le, rest⟩ := ht.of_cons
  have hres : u.uioResid + k = st₀.2.uioResid := hc.uio.resid
  have hpos : u.uioOffset = st₀.2.uioOffset + k := hc.uio.offset
  have hr : p.len ≤ u.uioResid := by omega
  have hblock : u32 (u.uioOffset / 512) = p.block := by
    rw [u32_of_lt (by omega)]
    omega
  refine ⟨⟨fits, hr, hblock⟩, ?_⟩
  refine (pieceCode_spec (hc.uio.covered hu) hr hblock).imp ?_ ?_
  · rintro _ st' ⟨hst, hlt⟩
    refine ⟨hc.trans hst, by omega, ?_, .inr (by omega)⟩
    rwa [← Nat.add_assoc, ← Nat.sub_sub]
  · rintro e st' ⟨he, j, hj, hst, hj0⟩
    exact ⟨⟨_, he⟩, k + j, by omega, hc.trans hst, by omega⟩

/-- **The account of a request.** -/
theorem wp_pieces (h : Along st₀ len ps k st) :
    Wp True (forEach (pieceCode v) ps) (fun _ st' => Along st₀ len [] len st')
      (RequestFails st₀ len) st := by
  refine (wp_forEach (fun ps st => ∃ k, Along st₀ len ps k st) ?_ ps st ⟨k, h⟩).post ?_
  · rintro p ps st ⟨k, hk⟩
    exact (hk.step hu hlen hoff).2.post fun _ st' h' => ⟨_, h'⟩
  · rintro _ st' ⟨k, hk⟩
    have hdone : len - k = 0 := hk.tiles.of_nil
    obtain rfl : k = len := by
      have := hk.le
      omega
    exact hk

/-- **The code of a request agrees with its pieces.** -/
theorem pieces_agree (hsuper : SuperUsed st₀) (h : Along st₀ len ps k st) :
    forEach (pieceCode v) ps st = forEach (pieceAt v) ps st := by
  refine forEach_congr (fun ps st => ∃ k, Along st₀ len ps k st) ?_ ps st ⟨k, h⟩
  rintro p ps st ⟨k, hk⟩
  obtain ⟨⟨hfits, hr, hblock⟩, hwp⟩ := hk.step (v := v) hu hlen hoff
  have heq := pieceCode_eq (v := v) (hk.carried.superUsed hsuper) hfits hr hblock
  exact ⟨heq, (wp_congr heq).mp (hwp.imp (fun _ st' h' => ⟨_, h'⟩) fun _ _ _ => trivial)⟩

end

theorem theUio_bind (f : Uio → SfsIo Unit) (st : SfsFs × Uio) : (theUio >>= f) st = f st.2 st := rfl

/-- What `sfs_io` does behind the whole blocks. -/
def sfsIoLast (v : Nat) : SfsIo Unit := do
  let uio ← theUio
  assert (uio.uioResid < sectSize)
  if 0 < uio.uioResid then sfsPartialio v 0 uio.uioResid

theorem sfsIoAligned_eq (h0 : st.2.uioResid ≠ 0) (hal : st.2.uioOffset % 512 = 0) :
    sfsIoAligned v st =
      (times (sfsBlockio v) (st.2.uioResid / 512) >>= fun _ => sfsIoLast v) st := by
  rw [sfsIoAligned, theUio_bind, if_neg h0, assert_bind hal]
  rfl

theorem times_blockio (v : Nat) : ∀ (n b : Nat),
    times (sfsBlockio v) n = forEach (pieceCode v) (wholePieces b n)
  | 0, _ => rfl
  | n + 1, b => by
    rw [times, wholePieces, forEach, times_blockio v n (b + 1)]
    rfl

variable {b : Nat}

theorem sfsIoLast_eq (hlt : st.2.uioResid < 512) :
    sfsIoLast v st = forEach (pieceCode v) (lastPiece b st.2.uioResid) st := by
  rw [sfsIoLast, theUio_bind, assert_bind hlt, lastPiece]
  split_ifs with h0
  · have hne : st.2.uioResid ≠ 512 := hlt.ne
    rw [forEach_singleton, pieceCode, if_neg hne]
  · rfl

theorem ioAligned_eq (hu : st₀.2.Covered) (hoff : st₀.2.uioOffset < 2199023255552)
    (hb : st.2.uioResid = 0 ∨ st.2.uioOffset = b * 512)
    (h : Along st₀ st₀.2.uioResid (alignedPieces b st.2.uioResid) k st) :
    sfsIoAligned v st = forEach (pieceCode v) (alignedPieces b st.2.uioResid) st := by
  by_cases h0 : st.2.uioResid = 0
  · rw [sfsIoAligned, theUio_bind, if_pos h0, h0]
    rfl
  have hpos : st.2.uioOffset = b * 512 := hb.resolve_left h0
  rw [sfsIoAligned_eq h0 (by omega), times_blockio v _ b, alignedPieces, forEach_append]
  -- the whole blocks lead to where the residue is what is left for the last piece
  have hres := h.carried.uio.resid
  have hwhole : Along st₀ (k + st.2.uioResid / 512 * 512) (wholePieces b (st.2.uioResid / 512)) k
      st := by
    refine ⟨h.carried, Nat.le_add_right _ _, ?_, h.inside⟩
    have ht := tiles_aligned 0 (by decide) (st.2.uioResid / 512) b
    rw [lastPiece, if_neg (by decide), append_nil, Nat.add_zero] at ht
    rwa [← h.carried.uio.offset, hpos, Nat.add_sub_cancel_left]
  refine bind_congr rfl ?_
  refine (wp_pieces hu (by omega) hoff hwhole).imp (fun _ st' h' => ?_) fun _ _ _ => trivial
  have hres' := h'.carried.uio.resid
  have hlast : st'.2.uioResid = st.2.uioResid % 512 := by omega
  rw [sfsIoLast_eq (b := b + st.2.uioResid / 512) (by omega), hlast]

theorem along_start (st₀ : SfsFs × Uio) :
    Along st₀ st₀.2.uioResid (piecesOf st₀.2.uioOffset st₀.2.uioResid) 0 st₀ :=
  ⟨.refl st₀, Nat.zero_le _, tiles_piecesOf _ _, .inl rfl⟩

theorem ioBody_eq (hu : st₀.2.Covered) (hoff : st₀.2.uioOffset < 2199023255552) : sfsIoBody v st₀ =
      forEach (pieceCode v) (piecesOf st₀.2.uioOffset st₀.2.uioResid) st₀ := by
  have h := along_start st₀
  rw [sfsIoBody, theUio_bind]
  by_cases hal : st₀.2.uioOffset % 512 = 0
  · rw [piecesOf, if_pos hal] at h ⊢
    rw [if_neg (not_not.mpr hal)]
    exact ioAligned_eq hu hoff (.inr (by omega)) h
  rw [piecesOf, if_neg hal] at h ⊢
  rw [if_pos hal, forEach, pieceCode, if_neg (by dsimp only; omega)]
  have hwp := (h.step (v := v) hu le_rfl hoff).2
  rw [pieceCode, if_neg (by dsimp only; omega)] at hwp
  refine bind_congr rfl (hwp.imp (fun _ st' h' => ?_) fun _ _ _ => trivial)
  -- behind the leading piece the request is aligned, or done
  have hres := h'.carried.uio.resid
  have hpos := h'.carried.uio.offset
  dsimp only at hres hpos
  have hrest : st'.2.uioResid =
      st₀.2.uioResid - min (512 - st₀.2.uioOffset % 512) st₀.2.uioResid := by omega
  rw [← hrest] at h' ⊢
  exact ioAligned_eq hu hoff (by omega) h'

/-! ## 6. `sfs_io` -/

/-- What a call of `sfs_io` leaves after `k` bytes: the uio `k` bytes further on, and the size as
the end of `sfs_io` sets it. -/
structure IoAccount (v : Nat) (st₀ : SfsFs × Uio) (k : Nat) (st : SfsFs × Uio) : Prop where
  uio : st₀.2.Ahead k st.2
  inside : k = 0 ∨ st₀.2.uioOffset + k ≤ 73216
  size : (st.1.heap v).svI.sfiSize =
    match st₀.2.uioRw with
    | .read => (st₀.1.heap v).svI.sfiSize
    | .write => ((st₀.1.extend v (st₀.2.uioOffset + k)).heap v).svI.sfiSize

theorem size_extend (fs : SfsFs) (v off : Nat) : ((fs.extend v off).heap v).svI.sfiSize =
    if (fs.heap v).svI.sfiSize < off then u32 off else (fs.heap v).svI.sfiSize := by
  unfold SfsFs.extend
  split_ifs
  · rw [SfsFs.setInode, SfsFs.setVnode]
    simp only [Function.update_self]
  · rfl

variable {fs : SfsFs} {u : Uio}

theorem Uio.quota_le (u : Uio) (size : Nat) : u.quota size ≤ u.uioResid := by
  unfold Uio.quota
  split
  · exact Nat.min_le_left _ _
  · exact le_rfl

/-- A read is cut off by what lies past the end of the file; that is less than all of it, which is
what the assertion says. -/
theorem extraresid_eq {size : Nat} (h : ¬ (u.uioRw = .read ∧ size ≤ u.uioOffset)) :
    extraresid u size = u.uioResid - u.quota size ∧ u.uioResid - extraresid u size = u.quota size ∧
      (extraresid u size = 0 ∨ extraresid u size < u.uioResid) := by
  unfold extraresid Uio.quota
  cases hrw : u.uioRw with
  | read =>
    have hlt : u.uioOffset < size := Nat.lt_of_not_le fun hle => h ⟨hrw, hle⟩
    simp only
    omega
  | write => simp

theorem sfsIo_eq_body (h : ¬ (u.uioRw = .read ∧ (fs.heap v).svI.sfiSize ≤ u.uioOffset)) :
    sfsIo v (fs, u) =
      (attempt (sfsIoBody v) >>= sfsIoOut v (u.uioResid - u.quota (fs.heap v).svI.sfiSize))
        (fs, { u with uioResid := u.quota (fs.heap v).svI.sfiSize }) := by
  obtain ⟨hextra, hquota, hassert⟩ := extraresid_eq h
  change (if _ then _ else _ : SfsIo Unit) (fs, u) = _
  rw [if_neg h, assert_bind hassert, ← hextra, ← hquota]
  rfl

theorem sfsIo_eof (h : u.uioRw = .read ∧ (fs.heap v).svI.sfiSize ≤ u.uioOffset) :
    sfsIo v (fs, u) = some (.ok (), (fs, u)) := by
  change (if _ then _ else _ : SfsIo Unit) (fs, u) = _
  rw [if_pos h]
  rfl

theorem sfsIoPieces_eof (h : u.uioRw = .read ∧ (fs.heap v).svI.sfiSize ≤ u.uioOffset) :
    sfsIoPieces v (fs, u) = some (.ok (), (fs, u)) := by
  have hpieces : u.pieces (fs.heap v).svI.sfiSize = [] := if_pos h
  have hno : ¬ (u.uioRw = .write ∧ (fs.heap v).svI.sfiSize < u.uioOffset) := by simp [h.1]
  have hback := Nat.add_sub_cancel' (u.quota_le (fs.heap v).svI.sfiSize)
  change (attempt (forEach (pieceAt v) (u.pieces (fs.heap v).svI.sfiSize)) >>= _) _ = _
  rw [hpieces]
  change (if u.uioRw = .write ∧ (fs.heap v).svI.sfiSize < u.uioOffset then _ else _ :
    SfsIo Unit) _ = _
  rw [if_neg hno]
  change some (_, (fs, { u with uioResid := _ + _ })) = _
  rw [hback]

theorem Uio.Ahead.restore {u' : Uio} (hlen : len ≤ u.uioResid)
    (h : Uio.Ahead { u with uioResid := len } k u') :
    u.Ahead k { u' with uioResid := u'.uioResid + (u.uioResid - len) } := by
  obtain ⟨hoff, hres, hroom, hrw, hseg⟩ := h
  dsimp only at hres
  exact ⟨hoff, by dsimp only; omega, hroom, hrw, hseg⟩

theorem wp_ioOut_account {Q : Unit → SfsFs × Uio → Prop} {E : Errno → SfsFs × Uio → Prop}
    {result : Except Errno Unit}
    (hst : Carried (fs, { u with uioResid := u.quota (fs.heap v).svI.sfiSize }) k st)
    (hin : k = 0 ∨ u.uioOffset + k ≤ 73216)
    (h : ∀ st', IoAccount v (fs, u) k st' → returned Q E st' result) :
    Wp True (sfsIoOut v (u.uioResid - u.quota (fs.heap v).svI.sfiSize) result) Q E st := by
  obtain ⟨fs', u'⟩ := st
  have hback := hst.uio.restore (u.quota_le _)
  have hsize := hst.light.size v
  have hoff : u'.uioOffset = u.uioOffset + k := hst.uio.offset
  cases hrw : u.uioRw with
  | read =>
    refine wp_ioOut_read (hst.uio.rw.trans hrw) (h _ ⟨hback, hin, ?_⟩)
    simp only [hrw]
    exact hsize
  | write =>
    have hquota : u.uioResid - u.quota (fs.heap v).svI.sfiSize = 0 := by
      simp [Uio.quota, hrw]
    rw [hquota] at hback ⊢
    refine wp_ioOut_write (hst.uio.rw.trans hrw) (h _ ⟨hback, hin, ?_⟩)
    simp only [hrw, size_extend, hoff]
    rw [hsize]

/-- **The account of `sfs_io`**, in any state of the volume and with any device. -/
theorem sfsIo_account (hu : u.Covered) (hoff : u.uioOffset < 2199023255552) : Wp True (sfsIo v)
      (fun _ => IoAccount v (fs, u) (u.quota (fs.heap v).svI.sfiSize))
      (fun e st => (∃ b, e.OfPiece b) ∧
        ∃ k ≤ u.quota (fs.heap v).svI.sfiSize, IoAccount v (fs, u) k st) (fs, u) := by
  by_cases heof : u.uioRw = .read ∧ (fs.heap v).svI.sfiSize ≤ u.uioOffset
  · have hquota : u.quota (fs.heap v).svI.sfiSize = 0 := by
      simp [Uio.quota, heof.1, Nat.sub_eq_zero_of_le heof.2]
    simp only [sfsIo, theFs, theUio, wp_bind, wp_get, wp_pure]
    rw [if_pos heof, wp_pure, hquota]
    exact ⟨.refl u, .inl rfl, by simp [heof.1]⟩
  have hle := u.quota_le (fs.heap v).svI.sfiSize
  have hcov : Uio.Covered { u with uioResid := u.quota (fs.heap v).svI.sfiSize } :=
    le_trans hle hu
  rw [wp_congr (sfsIo_eq_body heof), wp_bind, wp_attempt, wp_congr (ioBody_eq hcov hoff)]
  refine (wp_pieces hcov le_rfl hoff (along_start _)).imp ?_ ?_
  · intro _ st h
    exact wp_ioOut_account h.carried h.inside fun _ => id
  · rintro e st ⟨he, k, hk, hst, hin⟩
    exact wp_ioOut_account hst hin fun _ h => ⟨he, k, hk, h⟩

/-- **`sfs_io` goes through the pieces of the request**, and no assertion fires on the way. -/
theorem sfsIo_eq_pieces (hu : u.Covered) (hsuper : SuperUsed (fs, u))
    (hoff : u.uioOffset < 2199023255552) : sfsIo v (fs, u) = sfsIoPieces v (fs, u) := by
  by_cases heof : u.uioRw = .read ∧ (fs.heap v).svI.sfiSize ≤ u.uioOffset
  · exact (sfsIo_eof heof).trans (sfsIoPieces_eof heof).symm
  have hle := u.quota_le (fs.heap v).svI.sfiSize
  have hcov : Uio.Covered { u with uioResid := u.quota (fs.heap v).svI.sfiSize } :=
    le_trans hle hu
  have hpieces : u.pieces (fs.heap v).svI.sfiSize =
      piecesOf u.uioOffset (u.quota (fs.heap v).svI.sfiSize) := if_neg heof
  rw [sfsIo_eq_body heof]
  change _ = (attempt (forEach (pieceAt v) (u.pieces (fs.heap v).svI.sfiSize)) >>= _) _
  rw [hpieces]
  refine bind_congr (attempt_congr ?_) (Prog.Wp.of_forall (fun _ _ => rfl) fun _ _ => trivial)
  have hsuper' : SuperUsed (fs, { u with uioResid := u.quota (fs.heap v).svI.sfiSize }) := hsuper
  rw [ioBody_eq hcov hoff]
  exact pieces_agree hcov le_rfl hoff hsuper' (along_start _)

/-- **The accounts of `sfs_io`** on file `v` with the uio `u`. -/
structure IoAccounts (v : Nat) (fs : SfsFs) (u : Uio) : Prop where
  /-- No assertion fires: the code does what going through the pieces does. -/
  agrees : sfsIo v (fs, u) = sfsIoPieces v (fs, u)
  /-- Each block is visited once, in increasing order. -/
  increasing : (u.pieces (fs.heap v).svI.sfiSize).Pairwise fun p q => p.block < q.block
  fits : ∀ p ∈ u.pieces (fs.heap v).svI.sfiSize, p.skip + p.len ≤ 512
  /-- The offset advances by what the residue drops, whatever the result. -/
  moves : ∀ result st, sfsIo v (fs, u) = some (result, st) →
    ∃ k, st.2.uioOffset = u.uioOffset + k ∧ st.2.uioResid + k = u.uioResid
  reads : u.uioRw = .read → ∀ st, sfsIo v (fs, u) = some (.ok (), st) →
    st.2.uioResid + min u.uioResid ((fs.heap v).svI.sfiSize - u.uioOffset) = u.uioResid
  writes : u.uioRw = .write → ∀ st, sfsIo v (fs, u) = some (.ok (), st) → st.2.uioResid = 0

theorem Uio.tiles_pieces (u : Uio) (size : Nat) :
    Tiles u.uioOffset (u.quota size) (u.pieces size) := by
  unfold Uio.pieces
  split_ifs with heof
  · have hquota : u.quota size = 0 := by
      simp [Uio.quota, heof.1, Nat.sub_eq_zero_of_le heof.2]
    rw [hquota]
    exact .nil _
  · exact tiles_piecesOf _ _

/-- **`sfs_io` keeps its accounts**: for every file, with any device and any uio that its iovecs
cover, at every offset below `2^41`.  The free map has to have the superblock in use, or a write
could be handed block 0. -/
theorem sfs_io_accounting (hu : u.Covered) (hoff : u.uioOffset < 2199023255552)
    (hsuper : u.uioRw = .write → fs.sfsFreemap.isset 0 = true) : IoAccounts v fs u := by
  have hacc : Wp True (sfsIo v) _ _ (fs, u) := sfsIo_account hu hoff
  have htiles := u.tiles_pieces (fs.heap v).svI.sfiSize
  refine ⟨sfsIo_eq_pieces hu hsuper hoff, htiles.increasing, htiles.fits, ?_, ?_, ?_⟩
  · intro result st hrun
    cases result with
    | ok a =>
      have h := hacc.of_ok hrun
      exact ⟨_, h.uio.offset, h.uio.resid⟩
    | error e =>
      obtain ⟨-, k, -, h⟩ := hacc.of_error hrun
      exact ⟨k, h.uio.offset, h.uio.resid⟩
  · intro hread st hrun
    have h := (hacc.of_ok hrun).uio.resid
    rwa [Uio.quota, hread] at h
  · intro hwrite st hrun
    have h := (hacc.of_ok hrun).uio.resid
    rw [Uio.quota, hwrite] at h
    exact Nat.add_eq_right.mp h

end Request

theorem eight_lt : 8 < 4294967296 := by decide

/-- A volume of eight blocks, none of them free, and on it a file of the given size that has no
block. -/
def fullVolume (size : Nat) : SfsFs where
  sfsSuper := ⟨sfsMagic, 8, 0⟩
  sfsSuperdirty := false
  sfsDevice := ⟨8, eight_lt, fun _ => 0, fun _ => true, []⟩
  sfsVnodes := [0]
  sfsFreemap := ⟨4096, fun _ => 0xff⟩
  sfsFreemapdirty := false
  sfsRcache := fun _ => ⟨0, -1, -1⟩
  heap := fun _ => ⟨vnodeInit, { emptyInode with sfiSize := size, sfiType := .file }, 3, false⟩
  nextVnode := 1
  kmallocOk := fun _ => true
  random := fun _ => 0

/-- A write of 700 bytes from offset 300 on. -/
theorem sfs_io_accounting_write :
    IoAccounts 0 (fullVolume 100) (uioKinit (List.replicate 700 7) 300 .write) :=
  sfs_io_accounting (uioKinit_covered _ _ _) (by decide) fun _ => by decide

end Os161
