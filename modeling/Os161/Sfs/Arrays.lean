/-
# Files are arrays of bytes

The specification of a file system that only has reads, writes and truncations is one array of
bytes for each file.  Every call of a run is made on the volume and on the arrays
(`FileOp.call`), and `reads_match_arrays` says that a read of the volume returns what a read of
the array does, in every run whose calls are all `FileOp.Safe`.

The condition is needed.  `cut_byte_comes_back` is a run of three calls on a fresh volume after
which a read returns a byte that a truncation has cut off.
-/
import Os161.Mksfs
import Os161.Sfs.Contents

namespace Os161

open List

open Classical

/-! ## 1. The calls -/

/-- The calls on regular files. -/
inductive FileOp
  | write (v off : Nat) (data : List Byte)
  | read (v off len : Nat)
  | truncate (v len : Nat)

open FileOp

/-- A call, on the volume and on the arrays that it should be.  What a write did to its array is
said by how much of the data it moved, also when it failed.  The result is what a read returns. -/
def FileOp.call : FileOp → Prog Errno (SfsFs × (Nat → List Byte)) (List Byte)
  | .write v off data => do
    let s ← Prog.get
    let i := (s.1.heap v).svIno
    let (result, uio) ← Prog.onFst
      (withLocal (uioKinit data off .write) (attempt (sfsWrite v)))
    modify fun s => (s.1, Function.update s.2 i
      (Flat.overwrite (s.2 i) off (data.take (data.length - uio.uioResid))))
    ofResult result
    pure []
  | .read v off len => do
    let (_, uio) ← Prog.onFst
      (withLocal (uioKinit (List.replicate len 0) off .read) (sfsRead v))
    pure uio.uioMoved
  | .truncate v len => do
    let s ← Prog.get
    let i := (s.1.heap v).svIno
    onFst (sfsTruncate v len)
    modify fun s => (s.1, Function.update s.2 i (Flat.resize (s.2 i) len))
    pure []

/-- The calls that may be made: on loaded regular files, within the largest file there can be. -/
def FileOp.Legal : FileOp → SfsFs × (Nat → List Byte) → Prop
  | .write v off data, s => v ∈ s.1.sfsVnodes ∧ (s.1.heap v).svI.sfiType = .file ∧
      off + data.length ≤ 143 * 512
  | .read v off len, s => v ∈ s.1.sfsVnodes ∧ (s.1.heap v).svI.sfiType = .file ∧
      off + len ≤ 143 * 512
  | .truncate v len, s => v ∈ s.1.sfsVnodes ∧ (s.1.heap v).svI.sfiType = .file ∧ len < 4294967296

/-- **The condition on the state before a call.** -/
def FileOp.Safe : FileOp → SfsFs → Prop
  | .write v off data, fs => Clean fs (fs.heap v).svIno .write off data.length ∧
      Blank fs (fs.heap v).svIno (fs.size (fs.heap v).svIno) off
  | .read v off len, fs => Clean fs (fs.heap v).svIno .read off
      (min len (fs.size (fs.heap v).svIno - off))
  | .truncate v len, fs => Blank fs (fs.heap v).svIno (fs.size (fs.heap v).svIno) len

/-! ## 2. Runs -/

section Runs

variable {t : Prop} {fs : SfsFs} {files : Set Nat} {v off len : Nat} {data : List Byte}
  {s : SfsFs × (Nat → List Byte)}

/-- **Refinement**: the volume is well formed, and every file is its array. -/
structure Refines (t : Prop) (files : Set Nat) (s : SfsFs × (Nat → List Byte)) : Prop where
  wf : Wf t s.1 files
  contents : ∀ i ∈ files, s.1.contents i = s.2 i

theorem Refines.update (h : Refines t files s) {fs' : SfsFs} {i : Nat} (hi : i ∈ files)
    (hw : Wf t fs' files) (f : List Byte → List Byte)
    (hc : ∀ j ∈ files, fs'.contents j = if j = i then f (s.1.contents i) else s.1.contents j) :
    Refines t files (fs', Function.update s.2 i (f (s.2 i))) := by
  refine ⟨hw, fun j hj => (hc j hj).trans ?_⟩
  show _ = Function.update s.2 i (f (s.2 i)) j
  by_cases hji : j = i
  · subst hji
    rw [if_pos rfl, h.contents j hj, Function.update_self]
  · rw [if_neg hji, h.contents j hj, Function.update_of_ne hji]

theorem setup_kinit (kbuf : List Byte) (rw : UioRw) (hv : v ∈ fs.sfsVnodes)
    (hmax : off + kbuf.length ≤ 143 * 512) : Setup fs v (uioKinit kbuf off rw) kbuf :=
  ⟨hv, uioKinit_kernel _ _ _, le_rfl, lt_of_le_of_lt hmax (by decide)⟩

theorem Refines.write (h : Refines t files s) (hl : (write v off data).Legal s)
    (hsafe : (write v off data).Safe s.1) :
    Wp False (write v off data).call (fun _ => Refines t files) (fun _ => Refines t files) s := by
  obtain ⟨hv, -, hmax⟩ := hl
  have hmem := h.wf.table.ino_mem v hv
  have hwrote : ∀ n st, Wrote t files s.1 (s.1.heap v).svIno (uioKinit data off .write) data n st →
      Refines t files (st.1, Function.update s.2 (s.1.heap v).svIno
        (Flat.overwrite (s.2 (s.1.heap v).svIno) off
          (data.take (data.length - st.2.uioResid)))) := by
    intro n st hst
    have hn : data.length - st.2.uioResid = n := by
      have : data.length = st.2.uioResid + n := hst.moved
      omega
    rw [hn]
    exact h.update hmem hst.wf (fun l => Flat.overwrite l off (data.take n)) hst.contents
  simp only [call, wp_bind, wp_get, wp_onFst, wp_withLocal, wp_attempt, wp_modify]
  refine (sfsWrite_contents (setup_kinit data .write hv hmax) rfl h.wf rfl hsafe.1 hsafe.2).imp
    ?_ ?_
  · intro _ st hst
    rw [wp_ofResult_ok, wp_pure]
    exact hwrote _ st hst
  · rintro e st ⟨-, n, hst⟩
    rw [wp_ofResult_error]
    exact hwrote n st hst

/-- A read returns a window of the file, and leaves every file as it was. -/
theorem FileOp.read_spec (hw : Wf t s.1 files) (hl : (read v off len).Legal s)
    (hsafe : (read v off len).Safe s.1) :
    Wp False (read v off len).call (fun bytes s' => Wf t s'.1 files ∧ s'.2 = s.2 ∧
        (∀ i ∈ files, s'.1.contents i = s.1.contents i) ∧
        bytes = Flat.window (s.1.contents (s.1.heap v).svIno) off len) (fun _ _ => False) s := by
  obtain ⟨hv, -, hmax⟩ := hl
  have hlen : (replicate len (0 : Byte)).length = len := length_replicate
  have hmax' : off + (replicate len (0 : Byte)).length ≤ 143 * 512 := by
    rw [hlen]
    exact hmax
  have hsetup := setup_kinit (replicate len 0) .read hv hmax'
  have hresid : (uioKinit (replicate len 0) off .read).uioResid = len := hlen
  simp only [call, wp_bind, wp_onFst, wp_withLocal, wp_pure]
  refine (sfsRead_contents hsetup rfl hw rfl (by rw [hresid]; exact hsafe) ?_).post ?_
  · rw [hresid]
    exact hmax
  · intro _ st hst
    have hmoved := hst.moved
    rw [hresid] at hmoved
    exact ⟨hst.wf, trivial, hst.contents, hmoved⟩

/-- **A read returns a window of the array**, and keeps the refinement. -/
theorem Refines.read (h : Refines t files s) (hl : (read v off len).Legal s)
    (hsafe : (read v off len).Safe s.1) :
    Wp False (read v off len).call (fun bytes s' => Refines t files s' ∧
        bytes = Flat.window (s.2 (s.1.heap v).svIno) off len) (fun _ _ => False) s := by
  refine (read_spec h.wf hl hsafe).post ?_
  rintro _ s' ⟨hw', href, hc, rfl⟩
  refine ⟨⟨hw', fun i hi => ?_⟩, ?_⟩
  · rw [hc i hi, href, h.contents i hi]
  · rw [h.contents _ (h.wf.table.ino_mem v hl.1)]

theorem Refines.truncate (h : Refines t files s) (hl : (truncate v len).Legal s)
    (hsafe : (truncate v len).Safe s.1) :
    Wp False (truncate v len).call (fun _ => Refines t files) (fun _ _ => False) s := by
  obtain ⟨hv, -, hlen⟩ := hl
  simp only [call, wp_bind, wp_get, wp_onFst, wp_modify, wp_pure]
  refine (sfsTruncate_spec h.wf hv len).post ?_
  rintro _ fs' ⟨hw', htr⟩
  exact h.update (h.wf.table.ino_mem v hv) hw' (fun l => Flat.resize l len)
    fun j hj => htr.contents hlen hsafe hj

/-- **Every safe call keeps the refinement**, and none stops the machine. -/
theorem Refines.call (h : Refines t files s) {op : FileOp} (hl : op.Legal s) (hsafe : op.Safe s.1) :
    Wp False op.call (fun _ => Refines t files) (fun _ => Refines t files) s := by
  cases op with
  | write v off data => exact h.write hl hsafe
  | read v off len => exact (h.read hl hsafe).imp (fun _ _ h' => h'.1) (fun _ _ h' => h'.elim)
  | truncate v len => exact (h.truncate hl hsafe).imp (fun _ _ h' => h') (fun _ _ h' => h'.elim)

/-- **Reads return what the arrays hold.**  In every run of safe calls on a well-formed volume, on
any of its regular files and with any values of `random`, the next read returns exactly the bytes
of the array of its file. -/
theorem reads_match_arrays (hw : Wf t fs files)
    (hrun : Run FileOp.call (fun op s => op.Legal s ∧ op.Safe s.1) (fs, fs.contents) s)
    (hl : (FileOp.read v off len).Legal s) (hsafe : (FileOp.read v off len).Safe s.1) :
    ∃ s', (FileOp.read v off len).call s =
      some (.ok (Flat.window (s.2 (s.1.heap v).svIno) off len), s') := by
  have h : Refines t files s := hrun.invariant (fun _ _ hl' hi => hi.call hl'.1 hl'.2)
    ⟨hw, fun _ _ => rfl⟩
  obtain ⟨bytes, s', hcall, -, rfl⟩ := (h.read hl hsafe).exists_ok
  exact ⟨s', hcall⟩

end Runs

/-! ## 3. A fresh file -/

section Fresh

variable {t : Prop} {fs fs' : SfsFs} {files : Set Nat} {v off len : Nat} {data : List Byte}
  {s : SfsFs × (Nat → List Byte)}

namespace FreshFile

variable (h : FreshFile fs files v)

include h

theorem contents_eq : fs.contents (fs.heap v).svIno = [] := by
  rw [SfsFs.contents, SfsFs.size, h.inode_eq]
  rfl

theorem blank (lo hi : Nat) : Blank fs (fs.heap v).svIno lo hi := by
  intro pos _ _
  rw [SfsFs.fileByte, SfsFs.fileBlock_of_zero (h.dataRef_eq _), Bytes.byte_zero]

theorem clean (rw : UioRw) (off len : Nat) : Clean fs (fs.heap v).svIno rw off len := by
  refine ⟨?_, fun fb _ _ h0 => absurd (h.dataRef_eq fb) h0, fun _ _ s b _ htag => ?_⟩
  · have hfree : slotsFree fs = 64 := by
      rw [slotsFree, Finset.filter_true_of_mem fun s _ => h.cache s]
      rfl
    rw [hfree]
    calc slotsNeeded fs (fs.heap v).svIno rw off len
        ≤ (partialBlocks off len).card := Finset.card_filter_le _ _
      _ ≤ 1 + 1 := (Finset.card_union_le _ _).trans (Nat.add_le_add (by split_ifs <;> simp)
          (by split_ifs <;> simp))
      _ ≤ 64 := by decide
  · exact absurd (h.cache s) (htag.not_free (h.wf.ino_lt (h.wf.table.ino_mem v h.vnode)))

end FreshFile

theorem FileOp.write_short (hw : Wf t s.1 files) (hl : (write v off data).Legal s)
    (hsafe : (write v off data).Safe s.1) (hin : off % 512 ≠ 0) (hpos : data ≠ [])
    (hone : off % 512 + data.length ≤ 512) (hdirect : off / 512 < 15) {b : Nat}
    (hb : b < s.1.nblocks) (hfree : s.1.sfsFreemap.isset b = false) :
    ∃ s', (write v off data).call s = some (.ok [], s') ∧
      s'.2 = Function.update s.2 (s.1.heap v).svIno
        (Flat.overwrite (s.2 (s.1.heap v).svIno) off data) ∧
      ∃ u', Wrote t files s.1 (s.1.heap v).svIno (uioKinit data off .write) data data.length
        (s'.1, u') := by
  obtain ⟨hv, -, hmax⟩ := hl
  have hshort := sfsWrite_short (setup_kinit data .write hv hmax) rfl hw rfl hsafe.1 hsafe.2 hin
    (length_pos_iff.mpr hpos) hone hdirect hb hfree
  have hcall : Wp False (write v off data).call (fun r s' => r = [] ∧ s'.2 = Function.update s.2
        (s.1.heap v).svIno (Flat.overwrite (s.2 (s.1.heap v).svIno) off data) ∧
        ∃ u', Wrote t files s.1 (s.1.heap v).svIno (uioKinit data off .write) data data.length
          (s'.1, u')) (fun _ _ => False) s := by
    simp only [call, wp_bind, wp_get, wp_onFst, wp_withLocal, wp_attempt, wp_modify]
    refine hshort.post_ok ?_
    intro _ st hst
    rw [wp_ofResult_ok, wp_pure]
    have hresid : st.2.uioResid = 0 := by
      have : data.length = st.2.uioResid + data.length := hst.moved
      omega
    rw [hresid, Nat.sub_zero, take_length]
    exact ⟨rfl, rfl, st.2, hst⟩
  obtain ⟨_, s', hrun, rfl, h'⟩ := hcall.exists_ok
  exact ⟨s', hrun, h'⟩

theorem FileOp.truncate_call (hw : Wf t s.1 files) (hv : v ∈ s.1.sfsVnodes) (len : Nat) :
    ∃ s', (truncate v len).call s = some (.ok [], s') ∧
      s'.2 = Function.update s.2 (s.1.heap v).svIno (Flat.resize (s.2 (s.1.heap v).svIno) len) ∧
      Wf t s'.1 files ∧ Truncated files s.1 s'.1 (s.1.heap v).svIno len := by
  have hcall : Wp False (truncate v len).call
      (fun r s' => r = [] ∧ s'.2 = Function.update s.2 (s.1.heap v).svIno
        (Flat.resize (s.2 (s.1.heap v).svIno) len) ∧
        Wf t s'.1 files ∧ Truncated files s.1 s'.1 (s.1.heap v).svIno len) (fun _ _ => False)
          s := by
    simp only [call, wp_bind, wp_get, wp_onFst, wp_modify, wp_pure]
    exact (sfsTruncate_spec hw hv len).imp (fun _ _ h' => ⟨trivial, trivial, h'⟩) (fun _ _ h' => h')
  obtain ⟨_, s', hrun, rfl, h'⟩ := hcall.exists_ok
  exact ⟨s', hrun, h'⟩

variable {pos : Nat} {x : Byte}

theorem eq_of_mem_partialBlocks {fb : Nat} (h : fb ∈ partialBlocks pos 1) : fb = pos / 512 := by
  rw [partialBlocks, Finset.mem_union] at h
  split_ifs at h <;> simp at h <;> omega

/-- The byte at `pos` of the regular file at `v` is `x`, in the file or past its end, and a read of
it goes through the cache without replacement. -/
structure Holds (t : Prop) (files : Set Nat) (fs : SfsFs) (v pos : Nat) (x : Byte) : Prop where
  wf : Wf t fs files
  vnode : v ∈ fs.sfsVnodes
  type : (fs.heap v).svI.sfiType = .file
  byte : fs.fileByte (fs.heap v).svIno pos = x
  slots : slotsNeeded fs (fs.heap v).svIno .read pos 1 ≤ slotsFree fs

theorem Wrote.lt_size {u u' : Uio} {i : Nat} (h : Wrote t files fs i u [x] 1 (fs', u'))
    (hi : i ∈ files) : u.uioOffset < fs'.size i := by
  have hc : fs'.contents i = _ := (h.contents i hi).trans (if_pos rfl)
  have hlen := congrArg length hc
  rw [SfsFs.contents, Flat.length_tabulate, Flat.overwrite, Flat.length_tabulate] at hlen
  have h1 : ([x].take 1).length = 1 := rfl
  omega

theorem Wrote.holds {u u' : Uio} (hw : Wf t fs files)
    (h : Wrote t files fs (fs.heap v).svIno u [x] 1 (fs', u')) (hv : v ∈ fs.sfsVnodes)
    (htype : (fs.heap v).svI.sfiType = .file) (hlen : u.uioResid = 1) :
    Holds t files fs' v u.uioOffset x := by
  have hi : (fs'.heap v).svIno = (fs.heap v).svIno := h.ino v
  have hv' : v ∈ fs'.sfsVnodes := h.vnodes.symm ▸ hv
  have hmem : (fs.heap v).svIno ∈ files := hw.table.ino_mem v hv
  refine ⟨h.wf, hv', ?_, ?_, ?_⟩
  · have htype' : (fs'.inode (fs.heap v).svIno).sfiType = _ := h.type _ hmem
    rw [hw.table.inode hv, ← hi, h.wf.table.inode hv'] at htype'
    exact htype'.trans htype
  · have hc : fs'.contents (fs.heap v).svIno = _ := (h.contents _ hmem).trans (if_pos rfl)
    have hx : Flat.byteAt (fs'.contents (fs.heap v).svIno) u.uioOffset = x := by
      rw [hc, Flat.byteAt_overwrite le_rfl (Nat.lt_succ_self _), Nat.sub_self]
      rfl
    rw [SfsFs.contents, Flat.byteAt_tabulate, if_pos (h.lt_size hmem)] at hx
    rw [hi, hx]
  · have hs := h.slots
    rw [hlen] at hs
    rw [hi]
    exact slotsNeeded_le rfl (fun _ _ => rfl) (fun hrw => by cases hrw) hs

/-- Truncations further behind leave it there, in front of the end or not. -/
theorem Holds.truncate (h : Holds t files fs v pos x)
    (ht : Truncated files fs fs' (fs.heap v).svIno len) (hw : Wf t fs' files)
    (hlen : len < 4294967296) (hpos : pos / 512 < (len + 511) / 512) :
    Holds t files fs' v pos x := by
  have hi : (fs'.heap v).svIno = (fs.heap v).svIno := ht.frame.ino v
  have hv' : v ∈ fs'.sfsVnodes := ht.frame.vnodes.symm ▸ h.vnode
  have hmem := h.wf.table.ino_mem v h.vnode
  refine ⟨hw, hv', ?_, ?_, ?_⟩
  · have := ht.type _ hmem
    rw [h.wf.table.inode h.vnode, ← hi, hw.table.inode hv'] at this
    rw [this, h.type]
  · rw [hi, ht.fileByte hlen hmem (.inr (by omega)), h.byte]
  · rw [hi]
    refine slotsNeeded_le ht.frame.rcache (fun fb hfb => ?_) (fun hrw => hrw) h.slots
    rw [eq_of_mem_partialBlocks hfb]
    exact ht.dataRef hmem (.inr (by rwa [truncBlocklen_nat hlen]))

/-- A fresh file with one byte written to it, and one of the truncations that come after. -/
theorem fresh_written (len : Nat) (hlen : 1 ≤ len ∧ len ≤ 512) : ∃ d m fs₀ v fs files s₁ s₂,
    (mksfs noName (blankDisk, bitbuf) = some (.ok (), (d, m)) ∧
      sfsDomount (blankSfs d fun _ => 0) = some (.ok (), fs₀) ∧
      sfsMakeobj .file fs₀ = some (.ok v, fs)) ∧ FreshFile fs files v ∧
    ((FileOp.write v 1 [65]).Legal (fs, fs.contents) ∧ (FileOp.write v 1 [65]).Safe fs ∧
      (FileOp.write v 1 [65]).call (fs, fs.contents) = some (.ok [], s₁)) ∧
    ((FileOp.truncate v len).Legal s₁ ∧ 1 < s₁.1.size (s₁.1.heap v).svIno ∧
      (FileOp.truncate v len).call s₁ = some (.ok [], s₂)) ∧
    Holds True files s₂.1 v 1 65 ∧ s₂.1.size (s₂.1.heap v).svIno = len ∧
      s₂.2 (s₂.1.heap v).svIno = Flat.resize [0, 65] len := by
  obtain ⟨d, m, fs₀, v, fs, files, hmk, hmount, hobj, h, -⟩ := fresh_file fun _ => 0
  obtain ⟨b, hb, hfree⟩ := h.exists_free
  have hlegal : (FileOp.write v 1 [65]).Legal (fs, fs.contents) :=
    ⟨h.vnode, by rw [h.inode], by decide⟩
  have hsafe : (FileOp.write v 1 [65]).Safe fs := ⟨h.clean .write 1 1, h.blank _ _⟩
  obtain ⟨s₁, hc1, hr1, u₁, hw1⟩ := FileOp.write_short h.wf hlegal hsafe (by decide) (by decide)
    (by decide) (by decide) hb hfree
  have h₁ : Holds True files s₁.1 v 1 65 := hw1.holds h.wf h.vnode (by rw [h.inode]) rfl
  have hi1 : (s₁.1.heap v).svIno = (fs.heap v).svIno := hw1.ino v
  have hlt := hw1.lt_size (h.wf.table.ino_mem v h.vnode)
  obtain ⟨s₂, hc2, hr2, hwf2, ht2⟩ := FileOp.truncate_call (s := s₁) h₁.wf h₁.vnode len
  have h2 := h₁.truncate ht2 hwf2 (by omega) (by omega)
  have hi2 := ht2.frame.ino v
  refine ⟨d, m, fs₀, v, fs, files, s₁, s₂, ⟨hmk, hmount, hobj⟩, h, ⟨hlegal, hsafe, hc1⟩,
    ⟨⟨h₁.vnode, h₁.type, by omega⟩, hi1 ▸ hlt, hc2⟩, h2, ?_, ?_⟩
  · rw [hi2, SfsFs.size, ht2.size _ (h₁.wf.table.ino_mem v h₁.vnode), if_pos rfl]
    exact Nat.mod_eq_of_lt (by omega)
  · rw [hi2, hr2, Function.update_self, hi1, hr1, Function.update_self,
      show (fs, fs.contents).2 ((fs, fs.contents).1.heap v).svIno = [] from h.contents_eq]
    rfl

/-- Without replacement a byte in front of the end can be read. -/
theorem Holds.safe (h : Holds t files fs v pos x) (hlt : pos < fs.size (fs.heap v).svIno) :
    (FileOp.read v pos 1).Safe fs := by
  refine ⟨?_, fun fb hlo hhi _ => by omega, nofun⟩
  rw [show min 1 (fs.size (fs.heap v).svIno - pos) = 1 by omega]
  exact h.slots

/-- A byte is written and read back, after a truncation that leaves it in the file. -/
theorem fresh_read_written : ∃ fs files v s s', FreshFile fs files v ∧
    Run FileOp.call (fun op s => op.Legal s ∧ op.Safe s.1) (fs, fs.contents) s ∧
    s.2 (s.1.heap v).svIno = [0, 65] ∧ (FileOp.read v 1 1).call s = some (.ok [65], s') := by
  obtain ⟨-, -, -, v, fs, files, s₁, s₂, -, h, hwrite, htrunc, h2, hsize, hbytes⟩ :=
    fresh_written 2 (by decide)
  have hblank : (FileOp.truncate v 2).Safe s₁.1 := fun pos hle hlt =>
    absurd (hlt.trans_le htrunc.2.1) (Nat.not_lt.mpr hle)
  have hrun : Run FileOp.call (fun op s => op.Legal s ∧ op.Safe s.1) (fs, fs.contents) s₂ :=
    (Run.refl.step ⟨hwrite.1, hwrite.2.1⟩ hwrite.2.2).step ⟨htrunc.1, hblank⟩ htrunc.2.2
  have hlegal : (FileOp.read v 1 1).Legal s₂ := ⟨h2.vnode, h2.type, by decide⟩
  obtain ⟨s', hcall⟩ := reads_match_arrays h.wf hrun hlegal (h2.safe (by omega))
  rw [hbytes] at hcall
  exact ⟨fs, files, v, s₂, s', h, hrun, hbytes, hcall⟩

/-- **A cut byte comes back.**  A file is written, cut in front of the byte, and extended over it
again: the truncations leave the byte in its block, and the next read returns it. -/
theorem cut_byte_comes_back : ∃ d m fs₀ v fs s,
    mksfs noName (blankDisk, bitbuf) = some (.ok (), (d, m)) ∧
    sfsDomount (blankSfs d fun _ => 0) = some (.ok (), fs₀) ∧
    sfsMakeobj .file fs₀ = some (.ok v, fs) ∧
    Run FileOp.call FileOp.Legal (fs, fs.contents) s ∧ (FileOp.read v 1 1).Legal s ∧
    (∃ s', (FileOp.read v 1 1).call s = some (.ok [65], s')) ∧
    Flat.window (s.2 (s.1.heap v).svIno) 1 1 = [0] := by
  obtain ⟨d, m, fs₀, v, fs, files, s₁, s₂, ⟨hmk, hmount, hobj⟩, h, hwrite, htrunc, h2, -, hbytes⟩ :=
    fresh_written 1 (by decide)
  obtain ⟨s₃, hc3, hr3, hwf3, ht3⟩ := FileOp.truncate_call (s := s₂) h2.wf h2.vnode 2
  have h3 := h2.truncate ht3 hwf3 (by decide) (by decide)
  have hi3 := ht3.frame.ino v
  have hsize : s₃.1.size (s₃.1.heap v).svIno = 2 := by
    rw [hi3, SfsFs.size, ht3.size _ (h2.wf.table.ino_mem v h2.vnode), if_pos rfl]
    decide
  have hlegal : (FileOp.read v 1 1).Legal s₃ := ⟨h3.vnode, h3.type, by decide⟩
  refine ⟨d, m, fs₀, v, fs, s₃, hmk, hmount, hobj, ?_, hlegal, ?_, ?_⟩
  · have hlegal3 : (FileOp.truncate v 2).Legal s₂ := ⟨h2.vnode, h2.type, by decide⟩
    exact ((Run.refl.step hwrite.1 hwrite.2.2).step htrunc.1 htrunc.2.2).step hlegal3 hc3
  · obtain ⟨_, s', hcall, -, -, -, rfl⟩ :=
      (FileOp.read_spec h3.wf hlegal (h3.safe (by omega))).exists_ok
    refine ⟨s', hcall.trans ?_⟩
    rw [SfsFs.contents, Flat.window_tabulate, hsize]
    show some (Except.ok [s₃.1.fileByte _ 1], s') = _
    rw [h3.byte]
  · rw [hi3, hr3, Function.update_self, hbytes]
    decide

end Fresh

end Os161
