/-
# `sfs_truncate`

`sfs_truncate` frees the blocks past the new end of the file: first the direct ones, one by one,
then the entries of the indirect block, and the indirect block itself once it is empty.  The
entries are freed in the map BEFORE the indirect block is written back, so in between the volume
is not well formed; the whole second half is therefore one change.

The call is followed once, in ANY state of the volume: `GivenUp` says which slots of the file are
given up and what that does to the map.  If a block that is freed is not marked, or is freed twice,
an assertion fires; on a well-formed volume none does, and the volume stays well formed
(`sfsTruncate_spec`).

Which slots are given up is `truncDrops`.  It is worth reading: a direct block `k` goes if
`blocklen ≤ k`, but an entry `k` goes only if `blocklen < 15 + k`.  The block right behind the
new end survives in the indirect range.
-/
import Os161.Sfs.Bmap

namespace Os161

open Function List SfsFs SfsInode

/-! ## 1. The code -/

/-- Conversion of an `off_t` to `uint32_t`. -/
def u32OfInt (z : Int) : Nat := (z % 4294967296).toNat

/-- `DIVROUNDUP(len, SFS_BLOCKSIZE)`, stored in a `uint32_t`. -/
def truncBlocklen (len : Int) : Nat := u32OfInt ((len + 512 - 1).tdiv 512)

variable {len : Nat}

theorem truncBlocklen_nat (h : len < 4294967296) : truncBlocklen len = (len + 511) / 512 := by
  have h1 : ((len : Int) + 512 - 1).tdiv 512 = (((len + 511) / 512 : Nat) : Int) := by
    rw [show (len : Int) + 512 - 1 = ((len + 511 : Nat) : Int) by omega]
    rfl
  rw [truncBlocklen, h1, u32OfInt]
  omega

theorem u32OfInt_nat (h : len < 4294967296) : u32OfInt len = len := by
  rw [u32OfInt]
  omega

/-- The loop over the direct blocks. -/
def sfsTruncateDirect (v blocklen : Nat) : Sfs Unit :=
  forEach (fun i : Fin 15 => do
    let sv ← vnodeAt v
    let block := sv.svI.sfiDirect i
    if blocklen ≤ i.val ∧ block ≠ 0 then do
      sfsBfree block
      modifyInode v fun n => { n with sfiDirect := update n.sfiDirect i 0 }
    else pure ()) (List.finRange 15)

/-- The local variables of the loop over the indirect block. -/
structure IdScan where
  idbuf : Nat → Nat
  hasnonzero : Bool
  iddirty : Bool

/-- The loop over the indirect block. -/
def sfsTruncateScan (blocklen : Nat) : List Nat → IdScan → Sfs IdScan
  | [], s => pure s
  | j :: js, s => do
    let s ←
      if blocklen < sfsNdirect + j ∧ s.idbuf j ≠ 0 then do
        sfsBfree (s.idbuf j)
        pure { s with idbuf := update s.idbuf j 0, iddirty := true }
      else pure s
    sfsTruncateScan blocklen js { s with hasnonzero := s.hasnonzero || decide (s.idbuf j ≠ 0) }

/-- The second half: the indirect block. -/
def sfsTruncateIndirect (v blocklen idblock : Nat) : Sfs Unit := do
  let buf ← onDevice (sfsRblock idblock)
  let s ← sfsTruncateScan blocklen (List.range sfsDbperidb) ⟨buf.word, false, false⟩
  if s.hasnonzero = false then do
    sfsBfree idblock
    modifyInode v fun n => { n with sfiIndirect := 0 }
  else if s.iddirty = true then
    onDevice (sfsWblock (Bytes.ofWords s.idbuf) idblock)
  else pure ()

/-- `sfs_truncate`. -/
def sfsTruncate (v : Nat) (len : Int) : Sfs Unit := do
  let blocklen := truncBlocklen len
  sfsTruncateDirect v blocklen
  let sv ← vnodeAt v
  let idblock := sv.svI.sfiIndirect
  let highblock := sfsNdirect + sfsDbperidb - 1
  if blocklen < highblock ∧ idblock ≠ 0 then
    sfsTruncateIndirect v blocklen idblock
  modifyInode v fun n => { n with sfiSize := u32OfInt len }

/-! ## 2. Giving up slots -/

open Classical

/-- What slot `r` of the file at `v` refers to. -/
def SfsFs.slotAt (fs : SfsFs) (v : Nat) (r : Slot) : Nat := (fs.heap v).svI.ref fs.disk r

/-- The volume with another free map. -/
def SfsFs.withFreemap (fs : SfsFs) (m : Bitmap) : SfsFs :=
  { fs with sfsFreemap := m, sfsFreemapdirty := true }

theorem Frame.withFreemap (fs : SfsFs) (m : Bitmap) : Frame fs (fs.withFreemap m) :=
  ⟨rfl, rfl, rfl, rfl, rfl, rfl, rfl, rfl, rfl, fun _ => rfl, fun _ => rfl⟩

/-- The map `m` differs from the volume's in that what the slots `D` of the file at `v` refer to,
which was marked, is free. -/
structure Freed (fs : SfsFs) (v : Nat) (D : Slot → Prop) (m : Bitmap) : Prop where
  nbits : m.nbits = fs.sfsFreemap.nbits
  used : ∀ r, D r → fs.slotAt v r ≠ 0 → fs.sfsFreemap.isset (fs.slotAt v r) = true
  marks : ∀ b, m.isset b = true ↔
    fs.sfsFreemap.isset b = true ∧ ∀ r, D r → fs.slotAt v r ≠ 0 → fs.slotAt v r ≠ b

/-- The slots in `D` of the file at `v` are given up, what they referred to is free, and on the disk
only the indirect block is written. -/
structure GivenUp (v : Nat) (D : Slot → Prop) (fs fs' : SfsFs) : Prop where
  frame : Frame fs fs'
  slot : ∀ r, fs'.slotAt v r = if D r then 0 else fs.slotAt v r
  freed : Freed fs v D fs'.sfsFreemap
  map : fs'.sfsFreemapdirty = true ∨
    (fs'.sfsFreemap = fs.sfsFreemap ∧ fs'.sfsFreemapdirty = fs.sfsFreemapdirty)
  other : ∀ w, w ≠ v → fs'.heap w = fs.heap w
  type : (fs'.heap v).svI.sfiType = (fs.heap v).svI.sfiType
  linkcount : (fs'.heap v).svI.sfiLinkcount = (fs.heap v).svI.sfiLinkcount
  disk : ∀ b, (b = fs.slotAt v .indirect → b = 0) → fs'.disk b = fs.disk b

/-- Nothing that the file at `v` refers to makes an assertion fire: it is marked, and referred to
once, and the indirect block is on the device. -/
structure Cuttable (fs : SfsFs) (v : Nat) : Prop where
  marked : ∀ r, fs.slotAt v r ≠ 0 → fs.slotAt v r < fs.sfsFreemap.nbits ∧
    fs.sfsFreemap.isset (fs.slotAt v r) = true
  inj : ∀ r q, fs.slotAt v r ≠ 0 → fs.slotAt v r = fs.slotAt v q → r = q
  lt : fs.slotAt v .indirect ≠ 0 → fs.slotAt v .indirect < fs.sfsDevice.dBlocks

section GivenUp

variable {v : Nat} {D D' : Slot → Prop} {fs fs' fs'' : SfsFs} {m : Bitmap} {n : SfsInode}

theorem Freed.of_empty (h : ∀ r, D r → fs.slotAt v r = 0) : Freed fs v D fs.sfsFreemap where
  nbits := rfl
  used := fun r hr h0 => absurd (h r hr) h0
  marks := fun _ => ⟨fun hb => ⟨hb, fun r hr h0 => absurd (h r hr) h0⟩, fun hb => hb.1⟩

theorem Freed.single {r : Slot} (hset : fs.sfsFreemap.isset (fs.slotAt v r) = true)
    (h0 : fs.slotAt v r ≠ 0) : Freed fs v (· = r) (fs.sfsFreemap.clear (fs.slotAt v r)) where
  nbits := rfl
  used := fun q hq _ => hq ▸ hset
  marks := fun b => by
    rw [Bitmap.isset_clear]
    constructor
    · rintro ⟨hne, hb⟩
      exact ⟨hb, by rintro _ rfl _; exact hne.symm⟩
    · rintro ⟨hb, hall⟩
      exact ⟨(hall r rfl h0).symm, hb⟩

theorem Freed.setInode (h : Freed fs v D m)
    (hn : ∀ q, n.ref fs.disk q = if D q then 0 else fs.slotAt v q)
    (htype : n.sfiType = (fs.heap v).svI.sfiType)
    (hlink : n.sfiLinkcount = (fs.heap v).svI.sfiLinkcount) :
    GivenUp v D fs ((fs.withFreemap m).setInode v n) where
  frame := (Frame.withFreemap fs m).trans (.setInode _ v n)
  slot := fun q => by
    rw [slotAt, heap_setInode_self]
    exact hn q
  freed := h
  map := .inl rfl
  other := fun w hw => heap_setInode_of_ne n hw
  type := by rw [heap_setInode_self]; exact htype
  linkcount := by rw [heap_setInode_self]; exact hlink
  disk := fun _ _ => rfl

theorem Freed.store (h : Freed fs v D m) (hid : fs.slotAt v .indirect ≠ 0)
    (hdir : ∀ k, ¬ D (.direct k)) (hnot : ¬ D .indirect) {idbuf : Nat → Nat}
    (hbuf : ∀ k : Fin 128, idbuf k.val = if D (.entry k) then 0 else fs.slotAt v (.entry k)) :
    GivenUp v D fs ((fs.withFreemap m).store (fs.slotAt v .indirect) (Bytes.ofWords idbuf)) where
  frame := (Frame.withFreemap fs m).trans (.store _ _ _)
  slot := fun r => by
    cases r with
    | direct k =>
      rw [if_neg (hdir k)]
      rfl
    | indirect =>
      rw [if_neg hnot]
      rfl
    | entry k =>
      have hslot : ((fs.withFreemap m).store (fs.slotAt v .indirect) (Bytes.ofWords idbuf)).slotAt v
          (.entry k) = (Bytes.ofWords idbuf : Sector).word k.val :=
        (if_neg hid).trans (congrArg (Bytes.word · k.val) (update_self _ _ _))
      have hlt : fs.slotAt v (.entry k) < 4294967296 := by
        rw [slotAt, ref]
        split
        · decide
        · exact Bytes.word_lt _ _
      rw [hslot, Bytes.word_ofWords (show 4 * k.val + 3 < 512 by omega), hbuf k]
      split_ifs
      · rfl
      · exact Nat.mod_eq_of_lt hlt
  freed := h
  map := .inl rfl
  other := fun _ _ => rfl
  type := rfl
  linkcount := rfl
  disk := fun b hb => update_of_ne (fun he => hid (he.symm.trans (hb he))) _ _

theorem GivenUp.of_empty (h : ∀ r, D r → fs.slotAt v r = 0) : GivenUp v D fs fs where
  frame := .refl fs
  slot := fun r => by
    split_ifs with hr
    · exact h r hr
    · rfl
  freed := .of_empty h
  map := .inr ⟨rfl, rfl⟩
  other := fun _ _ => rfl
  type := rfl
  linkcount := rfl
  disk := fun _ _ => rfl

section

variable (h : GivenUp v D fs fs')

include h

theorem GivenUp.congr (hD : ∀ r, D' r ↔ D r) : GivenUp v D' fs fs' := by
  have : D' = D := funext fun r => propext (hD r)
  exact this ▸ h

theorem GivenUp.slot_of_not {r : Slot} (hr : ¬ D r) :
    fs'.slotAt v r = fs.slotAt v r := (h.slot r).trans (if_neg hr)

theorem GivenUp.not_of_ne {r : Slot} (h0 : fs'.slotAt v r ≠ 0) : ¬ D r :=
  fun hr => h0 ((h.slot r).trans (if_pos hr))

theorem GivenUp.trans (h' : GivenUp v D' fs' fs'') : GivenUp v (fun r => D r ∨ D' r) fs fs'' where
  frame := h.frame.trans h'.frame
  slot := fun r => by
    rw [h'.slot, h.slot]
    by_cases hD : D r <;> by_cases hD' : D' r <;> simp [hD, hD']
  freed := by
    refine ⟨h'.freed.nbits.trans h.freed.nbits, fun r hr h0 => ?_, fun b => ?_⟩
    · by_cases hD : D r
      · exact h.freed.used r hD h0
      · have hset := h'.freed.used r (hr.resolve_left hD)
        rw [h.slot_of_not hD] at hset
        exact ((h.freed.marks _).mp (hset h0)).1
    · rw [h'.freed.marks, h.freed.marks]
      constructor
      · rintro ⟨⟨hb, h1⟩, h2⟩
        refine ⟨hb, fun r hr h0 => ?_⟩
        by_cases hD : D r
        · exact h1 r hD h0
        · have := h2 r (hr.resolve_left hD)
          rw [h.slot_of_not hD] at this
          exact this h0
      · rintro ⟨hb, hall⟩
        refine ⟨⟨hb, fun r hr => hall r (.inl hr)⟩, fun r hr h0 => ?_⟩
        have hD := h.not_of_ne h0
        rw [h.slot_of_not hD] at h0 ⊢
        exact hall r (.inr hr) h0
  map := by
    rcases h'.map with hd | ⟨hm, hd⟩
    · exact .inl hd
    · rw [hm, hd]
      exact h.map
  other := fun w hw => (h'.other w hw).trans (h.other w hw)
  type := h'.type.trans h.type
  linkcount := h'.linkcount.trans h.linkcount
  disk := fun b hb => by
    refine (h'.disk b fun he => ?_).trans (h.disk b hb)
    rw [h.slot] at he
    split_ifs at he
    · exact he
    · exact hb he

theorem GivenUp.cuttable (hc : Cuttable fs v) : Cuttable fs' v := by
  have hkeep : ∀ r, fs'.slotAt v r ≠ 0 → fs'.slotAt v r = fs.slotAt v r :=
    fun r h0 => h.slot_of_not (h.not_of_ne h0)
  refine ⟨fun r h0 => ?_, fun r q h0 he => ?_, fun h0 => ?_⟩
  · have hr := h.not_of_ne h0
    rw [h.slot_of_not hr] at h0 ⊢
    obtain ⟨hlt, hset⟩ := hc.marked r h0
    refine ⟨h.freed.nbits.symm ▸ hlt, (h.freed.marks _).mpr ⟨hset, fun q hq hq0 he => ?_⟩⟩
    exact hr (hc.inj q r hq0 he ▸ hq)
  · rw [hkeep q (he ▸ h0), hkeep r h0] at he
    exact hc.inj r q (hkeep r h0 ▸ h0) he
  · rw [h.frame.dBlocks, hkeep _ h0]
    exact hc.lt (hkeep _ h0 ▸ h0)

end

end GivenUp

/-! ## 3. The two loops -/

section Loops

variable {fs : SfsFs} {v : Nat}

variable {p : Prop} {b blocklen j : Nat} {js : List Nat} {k : Fin 15} {s s₁ s' : IdScan}
  {fs₁ fs' : SfsFs} {ent : Fin 128 → Nat}

/-- `sfs_bfree` clears the mark of a block.  An assertion fires unless the block is marked. -/
theorem sfsBfree_wp (h : ¬ p → b < fs.sfsFreemap.nbits ∧ fs.sfsFreemap.isset b = true) :
    Wp p (sfsBfree b) (fun _ fs' => fs.sfsFreemap.isset b = true ∧
      fs' = fs.withFreemap (fs.sfsFreemap.clear b)) (fun _ _ => False) fs := by
  simp only [sfsBfree, onFreemap, bitmapUnmark, wp_bind, wp_zoom, wp_get, wp_assert, wp_modify]
  refine ⟨fun _ => ⟨fun hset => ⟨hset, rfl⟩, fun hno => ?_⟩, fun hno => ?_⟩
  · by_contra hp
    exact hno (h hp).2
  · by_contra hp
    exact hno (h hp).1

theorem sfsBfree_spec (hlt : b < fs.sfsFreemap.nbits) (hset : fs.sfsFreemap.isset b = true) :
    Wp False (sfsBfree b) (fun _ fs' => fs' = fs.withFreemap (fs.sfsFreemap.clear b))
      (fun _ _ => False) fs :=
  (sfsBfree_wp fun _ => ⟨hlt, hset⟩).post fun _ _ h => h.2

/-- The direct slots past the end that a list no longer has, one round further. -/
theorem direct_dealt_cons {rest : List (Fin 15)} (hk : k ∉ rest) (blocklen : Nat) (r : Slot) :
    (∃ k' : Fin 15, k' ∉ rest ∧ r = .direct k' ∧ blocklen ≤ k'.val) ↔
      (∃ k' : Fin 15, k' ∉ k :: rest ∧ r = .direct k' ∧ blocklen ≤ k'.val) ∨
        (r = .direct k ∧ blocklen ≤ k.val) := by
  constructor
  · rintro ⟨k', hk', rfl, hle⟩
    by_cases he : k' = k
    · exact .inr ⟨by rw [he], he ▸ hle⟩
    · exact .inl ⟨k', by simp [he, hk'], rfl, hle⟩
  · rintro (⟨k', hk', rfl, hle⟩ | ⟨rfl, hle⟩)
    · exact ⟨k', fun hm => hk' (mem_cons_of_mem _ hm), rfl, hle⟩
    · exact ⟨k, hk, rfl, hle⟩

/-- **The first loop** gives up the direct slots from `blocklen` on. -/
theorem truncateDirect_givenUp (hready : ¬ p → Cuttable fs v) (blocklen : Nat) :
    Wp p (sfsTruncateDirect v blocklen)
      (fun _ => GivenUp v (fun r => ∃ k : Fin 15, r = .direct k ∧ blocklen ≤ k.val) fs)
      (fun _ _ => False) fs := by
  -- after a round the slots no longer in the list are dealt with
  refine (wp_forEach (fun rest fs' => rest.Nodup ∧ GivenUp v
    (fun r => ∃ k : Fin 15, k ∉ rest ∧ r = .direct k ∧ blocklen ≤ k.val) fs fs') ?_ _ fs ?_).post ?_
  · rintro k rest fs₁ ⟨hnd, hs1⟩
    have hset := direct_dealt_cons (nodup_cons.mp hnd).1 blocklen
    simp only [vnodeAt, wp_bind, wp_get, wp_pure]
    by_cases hc : blocklen ≤ k.val ∧ (fs₁.heap v).svI.sfiDirect k ≠ 0
    · simp only [if_pos hc, wp_bind, modifyInode, wp_modify]
      refine (sfsBfree_wp fun hp => (hs1.cuttable (hready hp)).marked (.direct k) hc.2).post ?_
      rintro _ _ ⟨hused, rfl⟩
      have hfreed : Freed fs₁ v (· = .direct k) _ := .single hused hc.2
      have hone := hfreed.setInode (n := { (fs₁.heap v).svI with
        sfiDirect := update (fs₁.heap v).svI.sfiDirect k 0 }) (fun q => ?_) rfl rfl
      · exact ⟨hnd.of_cons, (hs1.trans (hone.congr fun r => and_iff_left hc.1)).congr hset⟩
      cases q with
      | direct q =>
        by_cases hq : q = k
        · simp [ref, hq]
        · simp [ref, slotAt, hq]
      | indirect => simp [ref, slotAt]
      | entry q =>
        rw [if_neg (by simp)]
        rfl
    · simp only [if_neg hc, wp_pure]
      refine ⟨hnd.of_cons, (hs1.trans (.of_empty ?_)).congr hset⟩
      rintro r ⟨rfl, hle⟩
      exact not_not.mp fun hne => hc ⟨hle, hne⟩
  · refine ⟨nodup_finRange 15, .of_empty ?_⟩
    rintro r ⟨k, hk, -⟩
    exact absurd (mem_finRange k) hk
  · rintro _ fs' ⟨-, hs'⟩
    exact hs'.congr fun r => by simp

/-- What the loop over the entries `js` of the indirect block has done: the words to be dropped
are zeroed, the flags say what they are meant to say, and the map has the blocks cleared. -/
structure ScanPost (blocklen : Nat) (js : List Nat) (s : IdScan) (fs : SfsFs) (s' : IdScan)
    (fs' : SfsFs) : Prop where
  idbuf : ∀ j, s'.idbuf j = if j ∈ js ∧ blocklen < 15 + j then 0 else s.idbuf j
  hasnonzero : s'.hasnonzero = true ↔ s.hasnonzero = true ∨ ∃ j ∈ js, s'.idbuf j ≠ 0
  iddirty : s'.iddirty = true ↔ s.iddirty = true ∨ ∃ j ∈ js, blocklen < 15 + j ∧ s.idbuf j ≠ 0
  nbits : fs'.sfsFreemap.nbits = fs.sfsFreemap.nbits
  used : ∀ j ∈ js, blocklen < 15 + j → s.idbuf j ≠ 0 → fs.sfsFreemap.isset (s.idbuf j) = true
  marks : ∀ b, fs'.sfsFreemap.isset b = true ↔ fs.sfsFreemap.isset b = true ∧
    ∀ j ∈ js, blocklen < 15 + j → s.idbuf j ≠ 0 → s.idbuf j ≠ b
  moved : (∃ j ∈ js, blocklen < 15 + j ∧ s.idbuf j ≠ 0) → fs' = fs.withFreemap fs'.sfsFreemap
  still : (∀ j ∈ js, blocklen < 15 + j → s.idbuf j = 0) → fs' = fs

theorem ScanPost.idbuf_of_mem (h : ScanPost blocklen [j] s fs s₁ fs₁) (hj : j ∉ js) {k : Nat}
    (hk : k ∈ js) : s₁.idbuf k = s.idbuf k := by
  rw [h.idbuf, if_neg]
  rintro ⟨hkj, -⟩
  exact hj (mem_singleton.mp hkj ▸ hk)

theorem ScanPost.cons (h : ScanPost blocklen [j] s fs s₁ fs₁)
    (h' : ScanPost blocklen js s₁ fs₁ s' fs') (hj : j ∉ js) :
    ScanPost blocklen (j :: js) s fs s' fs' := by
  have hbuf : ∀ k ∈ js, s₁.idbuf k = s.idbuf k := fun k => h.idbuf_of_mem hj
  have hlast : s'.idbuf j = s₁.idbuf j := by
    rw [h'.idbuf, if_neg (fun hm => hj hm.1)]
  refine ⟨fun k => ?_, ?_, ?_, h'.nbits.trans h.nbits, fun k hk hlt h0 => ?_, fun b => ?_, ?_,
    fun hz => ?_⟩
  · rw [h'.idbuf, h.idbuf]
    by_cases hk : k ∈ js ∧ blocklen < 15 + k <;> by_cases hkj : k = j ∧ blocklen < 15 + k <;> grind
  · rw [h'.hasnonzero, h.hasnonzero]
    simp only [mem_cons, not_mem_nil, or_false, or_and_right, exists_or, exists_eq_left,
      hlast, or_assoc]
  · rw [h'.iddirty, h.iddirty]
    simp only [mem_cons, not_mem_nil, or_false, or_and_right, exists_or, exists_eq_left, or_assoc]
    have : (∃ k ∈ js, blocklen < 15 + k ∧ s₁.idbuf k ≠ 0) ↔
        ∃ k ∈ js, blocklen < 15 + k ∧ s.idbuf k ≠ 0 :=
      exists_congr fun k => and_congr_right fun hk => by rw [hbuf k hk]
    rw [this]
  · rcases mem_cons.mp hk with rfl | hk
    · exact h.used k (by simp) hlt h0
    · have := h'.used k hk hlt
      rw [hbuf k hk] at this
      exact ((h.marks _).mp (this h0)).1
  · rw [h'.marks, h.marks]
    simp only [mem_cons, not_mem_nil, or_false, forall_eq_or_imp, forall_eq, and_assoc]
    have : (∀ k ∈ js, blocklen < 15 + k → s₁.idbuf k ≠ 0 → s₁.idbuf k ≠ b) ↔
        ∀ k ∈ js, blocklen < 15 + k → s.idbuf k ≠ 0 → s.idbuf k ≠ b :=
      forall_congr' fun k => forall_congr' fun hk => by rw [hbuf k hk]
    rw [this]
  · intro hex
    by_cases hjs : ∃ k ∈ js, blocklen < 15 + k ∧ s₁.idbuf k ≠ 0
    · have hs' := h'.moved hjs
      by_cases hj1 : ∃ k ∈ [j], blocklen < 15 + k ∧ s.idbuf k ≠ 0
      · have hs := h.moved hj1
        rw [hs] at hs'
        exact hs'
      · rw [h.still (by simpa using hj1)] at hs'
        exact hs'
    · have hs' := h'.still (by simpa using hjs)
      rw [hs']
      refine h.moved ?_
      obtain ⟨k, hk, hlt, h0⟩ := hex
      rcases mem_cons.mp hk with rfl | hk
      · exact ⟨k, by simp, hlt, h0⟩
      · exact absurd ⟨k, hk, hlt, by rwa [hbuf k hk]⟩ hjs
  · have h1 : fs₁ = fs := h.still fun k hk => hz k (by simp [mem_singleton.mp hk])
    refine (h'.still fun k hk hlt => ?_).trans h1
    rw [hbuf k hk]
    exact hz k (mem_cons_of_mem _ hk) hlt

/-- What the second loop needs so that no assertion fires: the entries are marked and distinct. -/
structure ScanReady (js : List Nat) (s : IdScan) (fs : SfsFs) : Prop where
  marked : ∀ j ∈ js, s.idbuf j ≠ 0 → s.idbuf j < fs.sfsFreemap.nbits ∧
    fs.sfsFreemap.isset (s.idbuf j) = true
  distinct : ∀ j ∈ js, ∀ k ∈ js, s.idbuf j ≠ 0 → s.idbuf j = s.idbuf k → j = k

theorem ScanReady.tail (h : ScanReady (j :: js) s fs) (hj : j ∉ js)
    (hr : ScanPost blocklen [j] s fs s₁ fs₁) : ScanReady js s₁ fs₁ := by
  refine ⟨fun k hk h0 => ?_, fun k hk l hl h0 he => ?_⟩
  · rw [hr.idbuf_of_mem hj hk] at h0 ⊢
    obtain ⟨hlt, hset⟩ := h.marked k (mem_cons_of_mem _ hk) h0
    refine ⟨hr.nbits.symm ▸ hlt, (hr.marks _).mpr ⟨hset, fun i hi _ h0' he => hj ?_⟩⟩
    obtain rfl := mem_singleton.mp hi
    exact h.distinct i (by simp) k (mem_cons_of_mem _ hk) h0' he ▸ hk
  · rw [hr.idbuf_of_mem hj hk] at h0 he
    rw [hr.idbuf_of_mem hj hl] at he
    exact h.distinct k (mem_cons_of_mem _ hk) l (mem_cons_of_mem _ hl) h0 he

/-- **The second loop.**  By induction on the entries still to be looked at; each block it frees
is marked, for the entries are distinct. -/
theorem sfsTruncateScan_wp (blocklen : Nat) : ∀ (js : List Nat) (s : IdScan) (fs : SfsFs),
    js.Nodup → (¬ p → ScanReady js s fs) →
    Wp p (sfsTruncateScan blocklen js s) (fun s' fs' => ScanPost blocklen js s fs s' fs')
      (fun _ _ => False) fs
  | [], s, fs, _, _ => by
    rw [sfsTruncateScan, wp_pure]
    exact ⟨by simp, by simp, by simp, rfl, by simp, by simp, by simp, fun _ => rfl⟩
  | j :: js, s, fs, hnd, hready => by
    obtain ⟨hj, hnd'⟩ := nodup_cons.mp hnd
    rw [sfsTruncateScan]
    by_cases hc : blocklen < 15 + j ∧ s.idbuf j ≠ 0
    · -- the entry is dropped and its block freed
      simp only [if_pos hc, wp_bind, wp_pure]
      refine (sfsBfree_wp fun hp => (hready hp).marked j (by simp) hc.2).post ?_
      rintro _ _ ⟨hb, rfl⟩
      have hone : ScanPost blocklen [j] s fs ⟨update s.idbuf j 0,
          s.hasnonzero || decide (update s.idbuf j 0 j ≠ 0), true⟩
          (fs.withFreemap (fs.sfsFreemap.clear (s.idbuf j))) := by
        refine ⟨fun k => ?_, by simp, by simp [hc], rfl, by simp [hb], fun b => ?_, fun _ => rfl,
          fun hz => absurd (hz j (by simp) hc.1) hc.2⟩
        · by_cases hk : k = j
          · subst hk
            simp [hc.1]
          · simp [hk]
        · show (fs.sfsFreemap.clear (s.idbuf j)).isset b = true ↔ _
          rw [Bitmap.isset_clear]
          simp only [mem_singleton, forall_eq]
          exact ⟨fun hx => ⟨hx.2, fun _ _ => hx.1.symm⟩, fun hx => ⟨(hx.2 hc.1 hc.2).symm, hx.1⟩⟩
      exact (sfsTruncateScan_wp blocklen js _ _ hnd' fun hp => (hready hp).tail hj hone).post
        fun _ _ h => hone.cons h hj
    · -- the entry is kept, or was empty
      simp only [if_neg hc, wp_bind, wp_pure]
      have hkeep : blocklen < 15 + j → s.idbuf j = 0 := fun hlt => not_not.mp fun h0 => hc ⟨hlt, h0⟩
      have hone : ScanPost blocklen [j] s fs
          { s with hasnonzero := s.hasnonzero || decide (s.idbuf j ≠ 0) } fs := by
        refine ⟨fun k => ?_, by simp, ?_, rfl, ?_, fun b => ?_, fun hex => ?_, fun _ => rfl⟩
        · by_cases hk : k ∈ [j] ∧ blocklen < 15 + k
          · rw [if_pos hk]
            obtain rfl : k = j := mem_singleton.mp hk.1
            exact hkeep hk.2
          · rw [if_neg hk]
        · simp only [mem_singleton, exists_eq_left, iff_self_or]
          exact fun hx => absurd (hkeep hx.1) hx.2
        · simp only [mem_singleton, forall_eq]
          exact fun hlt h0 => absurd (hkeep hlt) h0
        · simp only [mem_singleton, forall_eq, iff_self_and]
          exact fun _ hlt h0 => absurd (hkeep hlt) h0
        · obtain ⟨k, hk, hlt, h0⟩ := hex
          obtain rfl : k = j := mem_singleton.mp hk
          exact absurd (hkeep hlt) h0
      exact Prog.Wp.post (sfsTruncateScan_wp blocklen js _ fs hnd' fun hp =>
        (hready hp).tail hj hone) fun _ _ h => hone.cons h hj

/-- The whole second loop over an indirect block whose entries are `ent`. -/
structure Scanned (fs : SfsFs) (ent : Fin 128 → Nat) (blocklen : Nat) (s : IdScan)
    (fs₁ : SfsFs) : Prop where
  buf : ∀ k : Fin 128, s.idbuf k.val = if blocklen < 15 + k.val then 0 else ent k
  left : s.hasnonzero = true ↔ ∃ k : Fin 128, ¬ blocklen < 15 + k.val ∧ ent k ≠ 0
  nbits : fs₁.sfsFreemap.nbits = fs.sfsFreemap.nbits
  used : ∀ k : Fin 128, blocklen < 15 + k.val → ent k ≠ 0 → fs.sfsFreemap.isset (ent k) = true
  marks : ∀ b, fs₁.sfsFreemap.isset b = true ↔ fs.sfsFreemap.isset b = true ∧
    ∀ k : Fin 128, blocklen < 15 + k.val → ent k ≠ 0 → ent k ≠ b
  dirty : s.iddirty = true → fs₁ = fs.withFreemap fs₁.sfsFreemap
  clean : s.iddirty ≠ true → fs₁ = fs ∧ ∀ k : Fin 128, blocklen < 15 + k.val → ent k = 0

theorem ScanPost.scanned {word : Nat → Nat}
    (h : ScanPost blocklen (range 128) ⟨word, false, false⟩ fs s fs₁)
    (hent : ∀ k : Fin 128, word k.val = ent k) : Scanned fs ent blocklen s fs₁ := by
  have hbuf : ∀ k : Fin 128, s.idbuf k.val = if blocklen < 15 + k.val then 0 else ent k := by
    intro k
    rw [h.idbuf]
    simp only [mem_range, k.isLt, true_and, hent]
  refine ⟨hbuf, ?_, h.nbits, fun k => ?_, fun b => (h.marks b).trans ?_, fun hd => ?_, fun hd => ?_⟩
  · rw [h.hasnonzero]
    simp only [Bool.false_eq_true, false_or]
    constructor
    · rintro ⟨j, hj, h0⟩
      have hj := mem_range.mp hj
      exact ⟨⟨j, hj⟩, by grind⟩
    · rintro ⟨k, hk, h0⟩
      exact ⟨k.val, mem_range.mpr k.isLt, by rwa [hbuf, if_neg hk]⟩
  · have := h.used k.val (mem_range.mpr k.isLt)
    simpa only [hent k] using this
  · refine and_congr_right fun _ => ⟨fun hall k => ?_, fun hall j hj => ?_⟩
    · have := hall k.val (mem_range.mpr k.isLt)
      simpa only [hent k] using this
    · have := hall ⟨j, mem_range.mp hj⟩
      rwa [← hent] at this
  · exact h.moved ((h.iddirty.mp hd).resolve_left (by simp))
  · have hno : ∀ k : Fin 128, blocklen < 15 + k.val → ent k = 0 := by
      intro k hk
      by_contra h0
      exact hd (h.iddirty.mpr (.inr ⟨k.val, mem_range.mpr k.isLt, hk, (hent k).trans_ne h0⟩))
    refine ⟨h.still fun j hj hlt => ?_, hno⟩
    have := hno ⟨j, mem_range.mp hj⟩ hlt
    rwa [← hent] at this

theorem Scanned.withFreemap (h : Scanned fs ent blocklen s fs₁) (m : Bitmap) :
    fs₁.withFreemap m = fs.withFreemap m := by
  by_cases hd : s.iddirty = true
  · rw [h.dirty hd]
    rfl
  · rw [(h.clean hd).1]

end Loops

/-! ## 4. The whole call -/

/-- The slots that a truncation to `blocklen` blocks gives up. -/
def cutDrops (fs : SfsFs) (v blocklen : Nat) : Slot → Prop
  | .direct k => blocklen ≤ k.val
  | .entry k => blocklen < 15 + k.val
  | .indirect => blocklen < 142 ∧ ∀ k : Fin 128, blocklen < 15 + k.val ∨ fs.slotAt v (.entry k) = 0

/-- Those of the second half. -/
def cutIndirect (fs : SfsFs) (v blocklen : Nat) : Slot → Prop
  | .direct _ => False
  | r => cutDrops fs v blocklen r

section Call

variable {p : Prop} {fs fs₁ : SfsFs} {v blocklen : Nat} {s : IdScan}

theorem Scanned.freed (h : Scanned fs (fun k => fs.slotAt v (.entry k)) blocklen s fs₁)
    (hnot : ¬ cutDrops fs v blocklen .indirect) :
    Freed fs v (cutIndirect fs v blocklen) fs₁.sfsFreemap where
  nbits := h.nbits
  used := fun r hr h0 => by
    cases r with
    | direct k => exact hr.elim
    | indirect => exact absurd hr hnot
    | entry k => exact h.used k hr h0
  marks := fun b => by
    rw [h.marks]
    refine and_congr_right fun _ => ⟨fun hall r hr h0 => ?_, fun hall k hk => hall (.entry k) hk⟩
    cases r with
    | direct k => exact hr.elim
    | indirect => exact absurd hr hnot
    | entry k => exact hall k hr h0

theorem Scanned.freed_indirect (h : Scanned fs (fun k => fs.slotAt v (.entry k)) blocklen s fs₁)
    (hid : fs.slotAt v .indirect ≠ 0) (hdrop : cutDrops fs v blocklen .indirect)
    (hset : fs₁.sfsFreemap.isset (fs.slotAt v .indirect) = true) :
    Freed fs v (cutIndirect fs v blocklen) (fs₁.sfsFreemap.clear (fs.slotAt v .indirect)) where
  nbits := h.nbits
  used := fun r hr h0 => by
    cases r with
    | direct k => exact hr.elim
    | indirect => exact ((h.marks _).mp hset).1
    | entry k => exact h.used k hr h0
  marks := fun b => by
    rw [Bitmap.isset_clear, h.marks]
    constructor
    · rintro ⟨hne, hb, hall⟩
      refine ⟨hb, fun r hr h0 => ?_⟩
      cases r with
      | direct k => exact hr.elim
      | indirect => exact hne.symm
      | entry k => exact hall k hr h0
    · rintro ⟨hb, hall⟩
      exact ⟨(hall .indirect hdrop hid).symm, hb, fun k hk => hall (.entry k) hk⟩

/-- **The second half** gives up the entries past the end, and the indirect block if none is
left. -/
theorem truncateIndirect_givenUp (hd : fs.sfsDevice.Reliable) (hready : ¬ p → Cuttable fs v)
    (hlen : blocklen < 142) (hid : fs.slotAt v .indirect ≠ 0)
    (hu : fs.slotAt v .indirect < 4294967296) :
    Wp p (sfsTruncateIndirect v blocklen (fs.slotAt v .indirect))
      (fun _ => GivenUp v (cutIndirect fs v blocklen) fs) (fun _ _ => False) fs := by
  have hent : ∀ k : Fin 128, (fs.disk (fs.slotAt v .indirect)).word k.val =
      fs.slotAt v (.entry k) := fun k => (if_neg hid).symm
  rw [sfsTruncateIndirect, wp_bind]
  by_cases hb : fs.slotAt v .indirect < fs.sfsDevice.dBlocks
  swap
  · -- an indirect block that is not on the device cannot be read
    have hp : p := by_contra fun hp => hb ((hready hp).lt hid)
    rw [onDevice, wp_zoom]
    exact (sfsRblock_outside (Nat.le_of_not_lt hb) hu).mono (fun _ => hp) (fun _ _ => id)
      fun _ _ => id
  refine wp_rblock hd hb ?_
  refine (sfsTruncateScan_wp blocklen (range 128) _ fs nodup_range
    fun hp => ⟨fun j hj => ?_, fun j hj k hk => ?_⟩).bind fun s fs₁ hpost => ?_
  · have := (hready hp).marked (.entry ⟨j, mem_range.mp hj⟩)
    rwa [← hent] at this
  · have := (hready hp).inj (.entry ⟨j, mem_range.mp hj⟩) (.entry ⟨k, mem_range.mp hk⟩)
    rw [← hent, ← hent] at this
    exact fun h0 he => by simpa using this h0 he
  have h : Scanned fs (fun k => fs.slotAt v (.entry k)) blocklen s fs₁ := hpost.scanned hent
  have hnz : s.hasnonzero = true ↔ ¬ cutDrops fs v blocklen .indirect := by
    rw [h.left]
    simp only [cutDrops, hlen, true_and, not_forall, not_or]
  cases hz : s.hasnonzero with
  | false =>
    have hdrop : cutDrops fs v blocklen .indirect := by
      by_contra hno
      rw [hnz.mpr hno] at hz
      exact absurd hz (by decide)
    refine (sfsBfree_wp fun hp => ?_).bind ?_
    · -- no entry is the indirect block itself
      obtain ⟨hlt, hset⟩ := (hready hp).marked .indirect hid
      refine ⟨h.nbits ▸ hlt, (h.marks _).mpr ⟨hset, fun k _ h0 he => ?_⟩⟩
      exact absurd ((hready hp).inj _ _ h0 he) (by simp)
    rintro _ _ ⟨hset, rfl⟩
    rw [modifyInode, wp_modify, h.withFreemap]
    refine (h.freed_indirect hid hdrop hset).setInode (fun q => ?_) rfl rfl
    cases q with
    | direct q => exact (if_neg id).symm
    | indirect => exact (if_pos hdrop).symm
    | entry q =>
      split_ifs with hq
      · rfl
      · exact ((hdrop.2 q).resolve_left hq).symm
  | true =>
    have hnot := hnz.mp hz
    rw [if_neg (by decide)]
    by_cases hdirty : s.iddirty = true
    · have hfs1 := h.dirty hdirty
      have hkept := (h.freed hnot).store hid (fun _ => id) hnot fun k =>
        (h.buf k).trans (if_congr Iff.rfl rfl rfl)
      rw [if_pos hdirty]
      rw [← hfs1] at hkept
      refine wp_wblock ?_ ?_ hkept <;> rw [hfs1]
      · exact hd
      · exact hb
    · obtain ⟨hfs1, hno⟩ := h.clean hdirty
      rw [if_neg hdirty, wp_pure, hfs1]
      refine .of_empty fun r hr => ?_
      cases r with
      | direct k => exact hr.elim
      | indirect => exact absurd hr hnot
      | entry k => exact hno k hr

theorem givenUp_size (size : Nat) :
    GivenUp v (fun _ => False) fs (fs.setInode v { (fs.heap v).svI with sfiSize := size }) where
  frame := .setInode fs v _
  slot := fun r => by
    rw [if_neg id, slotAt, heap_setInode_self]
    cases r <;> rfl
  freed := .of_empty fun _ hr => hr.elim
  map := .inr ⟨rfl, rfl⟩
  other := fun w hw => heap_setInode_of_ne _ hw
  type := by rw [heap_setInode_self]
  linkcount := by rw [heap_setInode_self]
  disk := fun _ _ => rfl

/-- **The whole call**, in any state of the volume. -/
theorem truncate_givenUp (hd : fs.sfsDevice.Reliable) (hready : ¬ p → Cuttable fs v)
    (hu : fs.slotAt v .indirect < 4294967296) (len : Int) :
    Wp p (sfsTruncate v len) (fun _ fs' => GivenUp v (cutDrops fs v (truncBlocklen len)) fs fs' ∧
        (fs'.heap v).svI.sfiSize = u32OfInt len ∧ (fs'.heap v).svDirty = true)
      (fun _ _ => False) fs := by
  refine (truncateDirect_givenUp hready (truncBlocklen len)).bind fun _ fs₁ h1 => ?_
  -- the first half leaves the entries and the indirect block alone
  have hsame : ∀ r, (∀ k, r ≠ .direct k) → fs₁.slotAt v r = fs.slotAt v r := fun r hr => by
    refine h1.slot_of_not ?_
    rintro ⟨k, rfl, -⟩
    exact hr k rfl
  have hsplit : ∀ r, cutDrops fs v (truncBlocklen len) r ↔
      (∃ k : Fin 15, r = .direct k ∧ truncBlocklen len ≤ k.val) ∨
        cutIndirect fs₁ v (truncBlocklen len) r := by
    intro r
    cases r with
    | direct k => simp [cutDrops, cutIndirect]
    | indirect => simp [cutDrops, cutIndirect, hsame]
    | entry k => simp [cutDrops, cutIndirect]
  have hd1 : fs₁.sfsDevice.Reliable := fun n => h1.frame.outcome ▸ hd n
  simp only [vnodeAt, wp_bind, wp_get, wp_pure, sfsNdirect, sfsDbperidb]
  -- either way the slots of `cutIndirect` are given up, and the size is set
  have hfinish : ∀ fs₂, GivenUp v (cutIndirect fs₁ v (truncBlocklen len)) fs₁ fs₂ →
      Wp p (modifyInode v fun n => { n with sfiSize := u32OfInt len })
        (fun _ fs' => GivenUp v (cutDrops fs v (truncBlocklen len)) fs fs' ∧
          (fs'.heap v).svI.sfiSize = u32OfInt len ∧ (fs'.heap v).svDirty = true)
        (fun _ _ => False) fs₂ := by
    intro fs₂ h2
    rw [modifyInode, wp_modify, heap_setInode_self]
    refine ⟨((h1.trans h2).trans (givenUp_size (u32OfInt len))).congr fun r => ?_, rfl, rfl⟩
    rw [hsplit r, or_false]
  by_cases hc : truncBlocklen len < 15 + 128 - 1 ∧ (fs₁.heap v).svI.sfiIndirect ≠ 0
  · simp only [if_pos hc]
    exact (truncateIndirect_givenUp hd1 (fun hp => h1.cuttable (hready hp)) hc.1 hc.2
      ((hsame .indirect fun _ => by simp) ▸ hu)).bind fun _ fs₂ h => hfinish fs₂ h
  · simp only [if_neg hc]
    refine hfinish fs₁ (.of_empty fun r hr => ?_)
    cases r with
    | direct k => exact hr.elim
    | indirect => exact not_not.mp fun h0 => hc ⟨hr.1, h0⟩
    | entry k =>
      have hlt : truncBlocklen len < 15 + k.val := hr
      exact ref_entry_of_zero (not_not.mp fun h0 => hc ⟨by omega, h0⟩)

end Call

/-! ## 5. On a well-formed volume -/

/-- The slots of inode `i` that a truncation to `blocklen` blocks gives up. -/
def truncDrops (fs : SfsFs) (i blocklen : Nat) : Slot → Prop
  | .direct k => blocklen ≤ k.val
  | .entry k => blocklen < 15 + k.val
  | .indirect => blocklen < 142 ∧ ∀ k : Fin 128, blocklen < 15 + k.val ∨ fs.refAt i (.entry k) = 0

/-- What `sfs_truncate` of file `i` to `len` leaves. -/
structure Truncated (files : Set Nat) (fs fs' : SfsFs) (i : Nat) (len : Int) : Prop where
  frame : Frame fs fs'
  size : ∀ j ∈ files, (fs'.inode j).sfiSize = if j = i then u32OfInt len else (fs.inode j).sfiSize
  type : ∀ j ∈ files, (fs'.inode j).sfiType = (fs.inode j).sfiType
  linkcount : ∀ j ∈ files, (fs'.inode j).sfiLinkcount = (fs.inode j).sfiLinkcount
  ref : ∀ j ∈ files, ∀ q, fs'.refAt j q =
    if j = i ∧ truncDrops fs i (truncBlocklen len) q then 0 else fs.refAt j q
  data : ∀ j ∈ files, ∀ q, q ≠ .indirect → fs'.refAt j q ≠ 0 →
    fs'.disk (fs'.refAt j q) = fs.disk (fs'.refAt j q)
  marks : ∀ b, fs'.sfsFreemap.isset b = true ↔ fs.sfsFreemap.isset b = true ∧
    ∀ r, truncDrops fs i (truncBlocklen len) r → fs.refAt i r ≠ 0 → fs.refAt i r ≠ b

section Truncate

variable {t : Prop} {fs fs' : SfsFs} {files : Set Nat} {v : Nat} {n : SfsInode} {D : Slot → Prop}

section

variable (hw : Wf t fs files) (hv : v ∈ fs.sfsVnodes)
  (hdir : n.sfiDirect = (fs.heap v).svI.sfiDirect)
  (hind : n.sfiIndirect = (fs.heap v).svI.sfiIndirect)

include hw hv hdir hind

theorem Wf.refAt_setMeta (j : Nat) (r : Slot) :
    (fs.setInode v n).refAt j r = fs.refAt j r := by
  have hin := hw.table.inode_setInode hv n
  by_cases hj : j = (fs.heap v).svIno
  · rw [refAt, hin, if_pos hj, hj, hw.refAt_vnode hv]
    cases r with
    | direct k => simp only [ref, hdir]
    | indirect => simp only [ref, hind]
    | entry k =>
      simp only [ref, hind]
      rfl
  · rw [refAt, hin, if_neg hj]
    rfl

theorem Wf.setMeta (hfits : n.Fits) (htype : n.sfiType = (fs.heap v).svI.sfiType) :
    Wf t (fs.setInode v n) files := by
  have hin := hw.table.inode_setInode hv n
  have href := hw.refAt_setMeta hv hdir hind
  have hledger : (fs.setInode v n).ledger files = fs.ledger files := by
    refine Ledger.ext rfl rfl (funext fun s => ?_)
    show (if s.1 ∈ files then (fs.setInode v n).refAt s.1 s.2 else 0) = _
    rw [href]
    rfl
  refine hw.of_frame (.setInode fs v n) rfl (fun _ _ hb => hb) rfl
    (.inr ⟨rfl, rfl, fun _ _ => rfl⟩) ?_ ?_ ?_ (hledger ▸ hw.sound) (hledger ▸ hw.tight)
  · intro w hwm hclean
    have hne : w ≠ v := by
      rintro rfl
      exact absurd hclean (by simp)
    rw [heap_setInode_of_ne n hne] at hclean ⊢
    exact hw.backed.inode w hwm hclean
  · intro j hj
    rw [hin]
    by_cases hji : j = (fs.heap v).svIno
    · rw [if_pos hji, hji, hw.table.inode hv, htype]
    · rw [if_neg hji]
  · intro j hj
    rw [hin]
    by_cases hji : j = (fs.heap v).svIno
    · rw [if_pos hji]
      exact hfits
    · rw [if_neg hji]
      exact hw.fits j hj

end

theorem Wf.cuttable (hw : Wf t fs files) (hv : v ∈ fs.sfsVnodes) : Cuttable fs v := by
  have hmem := hw.table.ino_mem v hv
  have href : ∀ r, fs.slotAt v r = fs.refAt (fs.heap v).svIno r := fun r =>
    (hw.refAt_vnode hv r).symm
  refine ⟨fun r h0 => ?_, fun r q h0 he => ?_, fun h0 => ?_⟩
  · rw [href] at h0 ⊢
    exact ⟨lt_of_lt_of_le (hw.ref_lt hmem h0) hw.nblocks_le_nbits, hw.ref_isset hmem h0⟩
  · rw [href, href] at he
    exact (hw.ref_inj hmem hmem (href r ▸ h0) he).2
  · rw [href] at h0 ⊢
    exact hw.block_lt (hw.ref_lt hmem h0)

namespace GivenUp

variable (h : GivenUp v D fs fs') (hw : Wf t fs files) (hv : v ∈ fs.sfsVnodes)

include h hw hv

theorem disk_fixed {b : Nat} (hb : b ∈ (fs.ledger files).fixed) : fs'.disk b = fs.disk b := by
  refine h.disk b fun he => by_contra fun h0 => ?_
  have he : b = fs.refAt (fs.heap v).svIno .indirect := he.trans (hw.refAt_vnode hv _).symm
  exact hw.ref_not_fixed (hw.table.ino_mem v hv) (he ▸ h0) (he ▸ hb)

theorem inode {j : Nat} (hj : j ∈ files) :
    fs'.inode j = if j = (fs.heap v).svIno then (fs'.heap v).svI else fs.inode j := by
  split_ifs with hji
  · rw [hji, ← h.frame.ino v]
    exact (h.frame.table hw.table).inode (h.frame.vnodes ▸ hv)
  · rw [SfsFs.inode, SfsFs.inode, h.frame.vnodeOf]
    cases hvo : fs.vnodeOf j with
    | none => exact congrArg decodeInode (h.disk_fixed hw hv (.inr (.inr (.inr hj))))
    | some w =>
      have hne : w ≠ v := fun he => hji (he ▸ (SfsFs.vnodeOf_eq_some hvo).2.symm)
      exact congrArg SfsVnode.svI (h.other w hne)

theorem ref {j : Nat} (hj : j ∈ files) (q : Slot) :
    fs'.refAt j q = if j = (fs.heap v).svIno ∧ D q then 0 else fs.refAt j q := by
  by_cases hji : j = (fs.heap v).svIno
  · rw [refAt, h.inode hw hv hj, if_pos hji, hji, hw.refAt_vnode hv]
    simp only [true_and]
    exact h.slot q
  · rw [if_neg fun hs => hji hs.1]
    refine refAt_congr ((h.inode hw hv hj).trans (if_neg hji)) (fun h0 => ?_) q
    refine h.disk _ fun he =>
      absurd (hw.ref_inj (q := .indirect) hj (hw.table.ino_mem v hv) h0 ?_).1 hji
    exact he.trans (hw.refAt_vnode hv _).symm

theorem ledger : fs'.ledger files =
    (fs.ledger files).shrink {s | s.1 = (fs.heap v).svIno ∧ D s.2} := by
  have hmem := hw.table.ino_mem v hv
  have href : ∀ r, (fs.ledger files).ref ((fs.heap v).svIno, r) = fs.slotAt v r := fun r =>
    (SfsFs.ledger_ref hmem r).trans (hw.refAt_vnode hv r)
  refine Ledger.ext ?_ ?_ ?_
  · ext c
    show (fs'.nblocks ≤ c ∨ fs'.sfsFreemap.isset c = true) ↔
      ((fs.nblocks ≤ c ∨ fs.sfsFreemap.isset c = true) ∧
        ∀ s : Nat × Slot, s.1 = (fs.heap v).svIno ∧ D s.2 → (fs.ledger files).ref s ≠ 0 →
          (fs.ledger files).ref s ≠ c)
    rw [h.frame.nblocks, h.freed.marks]
    constructor
    · rintro (hn | ⟨hset, hout⟩)
      · refine ⟨.inl hn, ?_⟩
        rintro ⟨_, r⟩ ⟨rfl, _⟩ h0
        rw [SfsFs.ledger_ref hmem] at h0 ⊢
        have := hw.ref_lt hmem h0
        omega
      · refine ⟨.inr hset, ?_⟩
        rintro ⟨_, r⟩ ⟨rfl, hr⟩
        rw [href]
        exact hout r hr
    · rintro ⟨hn | hset, hout⟩
      · exact .inl hn
      · exact .inr ⟨hset, fun r hr => href r ▸ hout (_, r) ⟨rfl, hr⟩⟩
  · ext c
    show (c = 0 ∨ IsMapBlock fs'.nblocks c ∨ fs'.nblocks ≤ c ∨ c ∈ files) ↔ _
    rw [h.frame.nblocks]
    rfl
  · funext ⟨j, q⟩
    by_cases hj : j ∈ files
    · rw [SfsFs.ledger_ref hj, h.ref hw hv hj, ← SfsFs.ledger_ref hj]
      by_cases hD : (j, q) ∈ {s : Nat × Slot | s.1 = (fs.heap v).svIno ∧ D s.2}
      · exact (if_pos hD).trans (Ledger.shrink_ref_of_mem hD).symm
      · exact (if_neg hD).trans (Ledger.shrink_ref_of_notMem hD).symm
    · simp [SfsFs.ledger, Ledger.shrink, hj]

theorem wf (hsize : (fs'.heap v).svI.sfiSize < 4294967296)
    (hdirty : (fs'.heap v).svDirty = true) : Wf t fs' files := by
  have hmem := hw.table.ino_mem v hv
  refine hw.of_frame h.frame h.freed.nbits ?_ (h.disk_fixed hw hv (.inl rfl)) ?_ ?_ ?_ ?_ ?_ ?_
  · intro c hc hset
    refine (h.freed.marks c).mpr ⟨hset, fun r _ h0 he => ?_⟩
    rw [slotAt, ← hw.refAt_vnode hv] at h0 he
    exact absurd (hw.ref_lt hmem h0) (by omega)
  · exact h.map.imp_right fun hm =>
      ⟨hm.1, hm.2, fun b hb => h.disk_fixed hw hv (.inr (.inl hb))⟩
  · intro w hwm hclean
    have hne : w ≠ v := fun he => Bool.false_ne_true (hclean.symm.trans (he ▸ hdirty))
    rw [h.other w hne] at hclean ⊢
    rw [h.disk_fixed hw hv (.inr (.inr (.inr (hw.table.ino_mem w hwm))))]
    exact hw.backed.inode w hwm hclean
  · intro j hj
    rw [h.inode hw hv hj]
    split_ifs with hji
    · rw [hji, hw.table.inode hv, h.type]
    · rfl
  · intro j hj
    rw [h.inode hw hv hj]
    split_ifs
    · have hfits := hw.fits _ hmem
      rw [hw.table.inode hv] at hfits
      refine ⟨hsize, h.linkcount ▸ hfits.linkcount, fun k => ?_, ?_⟩
      · refine (h.slot (.direct k)).trans_lt ?_
        split_ifs
        · decide
        · exact hfits.direct k
      · refine (h.slot .indirect).trans_lt ?_
        split_ifs
        · decide
        · exact hfits.indirect
    · exact hw.fits j hj
  · rw [h.ledger hw hv]
    exact hw.sound.shrink _
  · intro ht
    rw [h.ledger hw hv]
    exact (hw.tight ht).shrink hw.sound.zero_fixed _

end GivenUp

/-- **`sfs_truncate`** on a well-formed volume: it never fails, gives up exactly the slots of
`truncDrops`, and keeps the volume well formed. -/
theorem sfsTruncate_spec (hw : Wf t fs files) (hv : v ∈ fs.sfsVnodes) (len : Int) :
    Wp False (sfsTruncate v len)
      (fun _ fs' => Wf t fs' files ∧ Truncated files fs fs' (fs.heap v).svIno len)
      (fun _ _ => False) fs := by
  have hmem := hw.table.ino_mem v hv
  have href : ∀ r, fs.slotAt v r = fs.refAt (fs.heap v).svIno r := fun r =>
    (hw.refAt_vnode hv r).symm
  have hfits := hw.fits _ hmem
  rw [hw.table.inode hv] at hfits
  refine (truncate_givenUp hw.reliable (fun _ => hw.cuttable hv) hfits.indirect len).post ?_
  rintro _ fs' ⟨h, hsize, hdirty⟩
  have hsmall : (fs'.heap v).svI.sfiSize < 4294967296 := by
    rw [hsize, u32OfInt]
    omega
  have h : GivenUp v (truncDrops fs (fs.heap v).svIno (truncBlocklen len)) fs fs' :=
    h.congr fun r => by cases r <;> simp only [truncDrops, cutDrops, href]
  refine ⟨h.wf hw hv hsmall hdirty, h.frame, fun j hj => ?_, fun j hj => ?_, fun j hj => ?_,
    fun j hj => h.ref hw hv hj, fun j hj q hq h0 => ?_, fun b => ?_⟩
  · rw [h.inode hw hv hj, ← hsize]
    split_ifs <;> rfl
  · rw [h.inode hw hv hj]
    split_ifs with hji
    · rw [hji, hw.table.inode hv, h.type]
    · rfl
  · rw [h.inode hw hv hj]
    split_ifs with hji
    · rw [hji, hw.table.inode hv, h.linkcount]
    · rfl
  · refine h.disk _ fun he => absurd ?_ hq
    have hk : fs'.refAt j q = fs.refAt j q := by
      rw [h.ref hw hv hj] at h0 ⊢
      split_ifs at h0 ⊢
      · exact absurd rfl h0
      · rfl
    rw [hk] at h0 he
    exact (hw.ref_inj hj hmem h0 (he.trans (href _))).2
  · simp only [h.freed.marks, href]

end Truncate

end Os161
