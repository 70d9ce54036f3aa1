/-
# Lifetimes of SFS vnodes

`vnode_decref` decides under the count lock, and acts after the lock is released.  If the count is
1 it leaves it alone and calls `sfs_reclaim`; in the meantime another thread may find the vnode in
the table and take a reference to it.  `sfs_reclaim` therefore looks at the count once more, under
the big lock, and if it is not 1 any more it consumes the reference it was handed and backs off.

This file lets any number of threads take these steps in any order.  `Holdings` records who holds
what, and `pending` are the decrefs that have decided to reclaim and have not done so yet.

* In EVERY run no two vnodes of the table have one inode, and `sfs_reclaim` destroys no vnode that
  somebody holds.
* The counts are exact as long as no reclaim is refused.  A directory that has lost its links
  cannot be erased (`VOP_TRUNCATE` is `EISDIR`), and then `sfs_reclaim` returns without consuming
  anything.  `removed_directory_stays` is the run: the `sfs_rmdir` of a directory that nobody else
  has a reference to ends like this.

Between the steps the rest of the file system makes objects and changes their link counts, so these
are steps too.
-/
import Os161.Lib.Holdings
import Os161.Mksfs

namespace Os161

/-! ## 1. The steps -/

/-- A volume, the objects that exist on it, and who holds references to its vnodes. -/
structure RaceState where
  fs : SfsFs
  files : Set Nat
  held : Holdings Nat Nat

/-- The steps of thread `t`. -/
inductive RaceOp
  | incref (t v : Nat)
  | decref (t v : Nat)
  | reclaim (t v : Nat)
  | loadvnode (t ino : Nat)
  | makeobj (t : Nat) (type : SfsType)
  | setLinks (t v linkcount : Nat)

/-- Run a program of the file system. -/
def onFs {α : Type} (m : Sfs α) : Prog Errno RaceState α :=
  zoom RaceState.fs (fun s fs => { s with fs := fs }) m

/-- Record what a step has done to the references. -/
def record (f : Holdings Nat Nat → Holdings Nat Nat) : Prog Errno RaceState Unit :=
  modify fun s => { s with held := f s.held }

/-- A step.  `decref` is the locked half of `vnode_decref`; the reclaim it may decide on is a step
of its own, and whatever that returns, `vnode_decref` is done then. -/
def RaceOp.call : RaceOp → Prog Errno RaceState Unit
  | .incref t v => do
    onFs (onVnode v (modify vnodeIncref))
    record fun h => h.take t v
  | .decref t v => do
    let doIt ← onFs (onVnode v vnodeDecref)
    record fun h => if doIt then h.handOver t v else h.drop t v
  | .reclaim t v => do
    let s ← get
    let result ← attempt (onFs (sfsReclaim v))
    record fun h => h.settle t v
    ofResult result
    if (s.fs.heap v).svI.sfiLinkcount = 0 then
      modify fun s' => { s' with files := {i | i ∈ s'.files ∧ i ≠ (s.fs.heap v).svIno} }
  | .loadvnode t ino => do
    let v ← onFs (sfsLoadvnode ino .inval)
    record fun h => h.take t v
  | .makeobj t type => do
    let v ← onFs (sfsMakeobj type)
    record fun h => h.take t v
    modify fun s => { s with files := {i | i = (s.fs.heap v).svIno ∨ i ∈ s.files} }
  | .setLinks _ v linkcount => onFs (modifyInode v fun n => { n with sfiLinkcount := linkcount })

/-- When a thread may take a step: it holds the reference it uses, and it reclaims what its decref
has decided to. -/
def RaceOp.Legal : RaceOp → RaceState → Prop
  | .incref t v, s => (t, v) ∈ s.held.refs
  | .decref t v, s => (t, v) ∈ s.held.refs
  | .reclaim t v, s => (t, v) ∈ s.held.pending
  | .loadvnode _ ino, s => ino ∈ s.files
  | .makeobj _ type, _ => type = .file ∨ type = .dir
  | .setLinks t v linkcount, s => (t, v) ∈ s.held.refs ∧ linkcount < 65536

/-- The step is no reclaim of the last reference to a directory without links. -/
def RaceOp.Safe : RaceOp → RaceState → Prop
  | .reclaim _ v, s => ¬ ((s.fs.heap v).svV.vnRefcount = 1 ∧
      (s.fs.heap v).svI.sfiLinkcount = 0 ∧ (s.fs.heap v).svI.sfiType = .dir)
  | _, _ => True

/-! ## 2. Every step keeps the counts -/

open Classical SfsFs RaceOp

section Steps

variable {q : Prop} {fs fs' : SfsFs} {files : Set Nat} {held : Holdings Nat Nat} {v : Nat}

/-- The count of a vnode. -/
abbrev SfsFs.rc (fs : SfsFs) (v : Nat) : Nat := (fs.heap v).svV.vnRefcount

/-- The state between steps: a well-formed volume, no file open, and counts that cover what is
owed. -/
structure Lifetime (q : Prop) (s : RaceState) : Prop where
  wf : Wf False s.fs s.files
  closed : ∀ v ∈ s.fs.sfsVnodes, (s.fs.heap v).svV.vnOpencount = 0
  counted : Counted q (· ∈ s.fs.sfsVnodes) s.fs.rc s.held

theorem SfsFs.rc_setCount (vn : Vnode) (w : Nat) :
    (fs.setCount v vn).rc w = if w = v then vn.vnRefcount else fs.rc w := by
  unfold rc
  rw [heap_setCount]
  split <;> rfl

variable {vn : Vnode} {files' : Set Nat}

theorem Lifetime.setCount {held' : Holdings Nat Nat} (h : Lifetime q ⟨fs, files, held⟩)
    (hpos : 0 < vn.vnRefcount) (hopen : vn.vnOpencount = 0)
    (hc : Counted q (· ∈ fs.sfsVnodes) (fs.setCount v vn).rc held') :
    Lifetime q ⟨fs.setCount v vn, files, held'⟩ where
  wf := h.wf.setCount hpos
  closed := fun w hw => by
    rw [heap_setCount]
    by_cases hwv : w = v
    · rw [if_pos hwv]
      exact hopen
    · rw [if_neg hwv]
      exact h.closed w hw
  counted := hc

theorem Lifetime.incref (h : Lifetime q ⟨fs, files, held⟩) (hv : v ∈ fs.sfsVnodes) (t : Nat) :
    Lifetime q ⟨fs.setCount v (vnodeIncref (fs.heap v).svV), files, held.take t v⟩ := by
  exact h.setCount (Nat.succ_pos _) (h.closed v hv) (h.counted.take hv (rc_setCount _))

theorem Lifetime.insertVnode (h : Lifetime q ⟨fs, files, held⟩) {sv : SfsVnode}
    (hvn : fs'.sfsVnodes = fs.sfsVnodes) (hheap : fs'.heap = fs.heap)
    (hnext : fs'.nextVnode = fs.nextVnode) (hw : Wf False (fs'.insertVnode sv) files')
    (hsv : sv.svV = vnodeInit) (t : Nat) :
    Lifetime q ⟨fs'.insertVnode sv, files', held.take t fs'.nextVnode⟩ := by
  have hnew : (fs'.insertVnode sv).heap fs'.nextVnode = sv := fs'.heap_insertVnode_self sv
  have hold : ∀ w ∈ fs.sfsVnodes, (fs'.insertVnode sv).heap w = fs.heap w := by
    intro w hmem
    have hlt := h.wf.table.fresh w hmem
    rw [← hheap]
    exact Function.update_of_ne (by rw [hnext]; exact Nat.ne_of_lt hlt) _ _
  have hmem : ∀ w, w ∈ (fs'.insertVnode sv).sfsVnodes ↔ w ∈ fs.sfsVnodes ∨ w = fs'.nextVnode := by
    intro w
    rw [← hvn]
    exact mem_insertVnode
  refine ⟨hw, ?_, ?_⟩
  · intro w hin
    rcases (hmem w).mp hin with hin | rfl
    · rw [hold w hin]
      exact h.closed w hin
    · rw [hnew, hsv]
      rfl
  · have hfresh : fs'.nextVnode ∉ fs.sfsVnodes := fun hin =>
      absurd (h.wf.table.fresh _ hin) (by rw [hnext]; exact Nat.lt_irrefl _)
    refine (h.counted.create hfresh ?_ fun w hin => ?_).congr hmem fun _ _ => rfl
    · show ((fs'.insertVnode sv).heap fs'.nextVnode).svV.vnRefcount = 1
      rw [hnew, hsv]
      rfl
    · show ((fs'.insertVnode sv).heap w).svV.vnRefcount = _
      rw [hold w hin]

theorem Lifetime.gone (h : Lifetime q ⟨fs, files, held⟩) {t : Nat} (hp : (t, v) ∈ held.pending)
    (hone : fs.rc v = 1) (hw : Wf False fs' files') (hg : Gone fs fs' v) :
    Lifetime q ⟨fs', files', held.settle t v⟩ := by
  have hmem : ∀ w, w ∈ fs'.sfsVnodes ↔ w ≠ v ∧ w ∈ fs.sfsVnodes := by
    intro w
    rw [hg.vnodes]
    exact h.wf.table.nodup.mem_erase_iff
  refine ⟨hw, ?_, ?_⟩
  · intro w hin
    obtain ⟨hwv, hin⟩ := (hmem w).mp hin
    rw [hg.count w hwv]
    exact h.closed w hin
  · have hv : v ∈ fs.sfsVnodes := h.counted.known _ (.inr hp)
    refine (h.counted.destroy hp hv hone fun w hwv _ => ?_).congr hmem fun _ _ => rfl
    show (fs'.heap w).svV.vnRefcount = _
    rw [hg.count w hwv]

end Steps

variable {q : Prop} {s : RaceState}

/-- **Every step keeps the counts**, and stops at no assertion.  Under `q` the counts stay exact, if
no reclaim is refused. -/
theorem RaceOp.call_spec {op : RaceOp} (hl : op.Legal s) (hsafe : q → op.Safe s)
    (h : Lifetime q s) :
    Wp False op.call (fun _ => Lifetime q) (fun _ => Lifetime q) s := by
  obtain ⟨fs, files, held⟩ := s
  cases op with
  | incref t v =>
    have hv : v ∈ fs.sfsVnodes := h.counted.known _ (.inl hl)
    simp only [call, onFs, onVnode, record, wp_bind, wp_zoom, wp_modify]
    exact h.incref hv t
  | decref t v =>
    have hv : v ∈ fs.sfsVnodes := h.counted.known _ (.inl hl)
    simp only [call, onFs, onVnode, record, wp_bind, wp_zoom, wp_modify]
    refine (vnodeDecref_spec (h.wf.table.refcount_pos v hv)).post_ok ?_
    rintro _ vn ⟨hopen, ⟨rfl, -, rfl⟩ | ⟨rfl, hgt, hone⟩⟩
    · -- the count is 1: the reference is handed over
      exact h.setCount (h.wf.table.refcount_pos v hv) (h.closed v hv)
        (h.counted.handOver hl (rc_setCount _))
    · exact h.setCount (by omega) (hopen.trans (h.closed v hv))
        (h.counted.drop hl hone (rc_setCount _))
  | reclaim t v =>
    have hv : v ∈ fs.sfsVnodes := h.counted.known _ (.inr hl)
    have hclosed : (fs.heap v).svV.vnOpencount = 0 := h.closed v hv
    simp only [call, onFs, record, wp_bind, wp_get, wp_attempt, wp_zoom,
      wp_modify, wp_ofResult_ok, wp_ofResult_error]
    refine (sfsReclaim_spec h.wf hv).mono (fun h0 => h0 hclosed) ?_ ?_
    · rintro _ fs' ⟨hone, ⟨hlc, hun⟩ | ⟨hlc, her⟩⟩
      · rw [if_neg hlc, wp_pure]
        exact h.gone hl hone hun.wf hun.gone
      · rw [if_pos hlc, wp_modify]
        exact h.gone hl hone her.wf her.gone
    · rintro e fs' (⟨-, hgt, rfl⟩ | ⟨-, hone, hlc, hdir, rfl⟩)
      · exact h.setCount (Nat.sub_pos_of_lt hgt) hclosed
          (h.counted.settle hl (Nat.sub_add_cancel hgt.le) (rc_setCount _))
      · -- a directory without links: nothing is consumed
        have hq : ¬ q := fun hq => hsafe hq ⟨hone, hlc, hdir⟩
        exact ⟨h.wf, h.closed, h.counted.lose hq hl⟩
  | loadvnode t ino =>
    simp only [call, onFs, record, wp_bind, wp_zoom, wp_modify]
    refine (sfsLoadvnode_spec h.wf hl).imp ?_ ?_
    · intro v fs' hload
      have hw' := (hload.wf h.wf hl).1
      cases hload with
      | hit hv hino => exact h.incref hv t
      | miss hnone k =>
        have hvn : (fs.burn k).sfsVnodes = fs.sfsVnodes := rfl
        exact h.insertVnode hvn rfl rfl hw' rfl t
    · rintro e _ ⟨-, -, k, rfl, -⟩
      exact ⟨h.wf.burn k, h.closed, h.counted⟩
  | makeobj t type =>
    simp only [call, onFs, record, wp_bind, wp_zoom, wp_modify]
    refine (sfsMakeobj_spec h.wf hl).imp ?_ ?_
    · rintro _ _ ⟨rfl, -, b, k, hb, hfree, rfl⟩
      have hino : ((fs.create b type k).heap fs.nextVnode).svIno = b :=
        congrArg SfsVnode.svIno (((fs.alloc b).burn k).heap_insertVnode_self _)
      simp only [hino]
      have hvn : ((fs.alloc b).burn k).sfsVnodes = fs.sfsVnodes := rfl
      exact h.insertVnode hvn rfl rfl (h.wf.create hb hfree hl k).1 rfl t
    · rintro e _ (⟨-, rfl, -⟩ | ⟨-, -, b, k, hb, hfree, rfl⟩)
      · exact h
      · exact ⟨(h.wf.leak hb hfree).burn k, h.closed, h.counted⟩
  | setLinks t v linkcount =>
    obtain ⟨hr, hlt⟩ := hl
    have hv : v ∈ fs.sfsVnodes := h.counted.known _ (.inl hr)
    have hfits := h.wf.fits _ (h.wf.table.ino_mem v hv)
    rw [h.wf.table.inode hv] at hfits
    simp only [call, onFs, modifyInode, wp_zoom, wp_modify]
    have hheap : ∀ w, ((fs.setInode v
        { (fs.heap v).svI with sfiLinkcount := linkcount }).heap w).svV = (fs.heap w).svV := by
      intro w
      by_cases hwv : w = v
      · rw [hwv, heap_setInode_self]
      · rw [heap_setInode_of_ne _ hwv]
    refine ⟨h.wf.setMeta hv rfl rfl { hfits with linkcount := hlt } rfl, ?_, ?_⟩
    · intro w hw
      rw [hheap w]
      exact h.closed w hw
    · refine h.counted.congr (fun _ => Iff.rfl) fun w _ => ?_
      exact congrArg Vnode.vnRefcount (hheap w)

/-- **A reclaim destroys only what nobody holds.** -/
theorem Lifetime.reclaim_destroys (h : Lifetime q s) {t v : Nat} (hl : (reclaim t v).Legal s) :
    Wp False (reclaim t v).call
      (fun _ s' => ∀ w ∈ s.fs.sfsVnodes, w ∉ s'.fs.sfsVnodes → ∀ t', (t', w) ∉ s.held.refs)
      (fun _ s' => ∀ w ∈ s.fs.sfsVnodes, w ∉ s'.fs.sfsVnodes → ∀ t', (t', w) ∉ s.held.refs) s := by
  obtain ⟨fs, files, held⟩ := s
  have hv : v ∈ fs.sfsVnodes := h.counted.known _ (.inr hl)
  have hgone : ∀ fs', Gone fs fs' v → fs.rc v = 1 → ∀ w ∈ fs.sfsVnodes, w ∉ fs'.sfsVnodes →
      ∀ t', (t', w) ∉ held.refs := by
    intro fs' hg hone w hin hout
    have hwv : w = v := by
      by_contra hwv
      rw [hg.vnodes] at hout
      exact hout (h.wf.table.nodup.mem_erase_iff.mpr ⟨hwv, hin⟩)
    exact hwv ▸ h.counted.not_held hl hone
  simp only [call, onFs, record, wp_bind, wp_get, wp_attempt, wp_zoom,
    wp_modify, wp_ofResult_ok, wp_ofResult_error]
  refine (sfsReclaim_spec h.wf hv).mono (fun h0 => h0 (h.closed v hv)) ?_ ?_
  · rintro _ fs' ⟨hone, ⟨hlc, hun⟩ | ⟨hlc, her⟩⟩
    · rw [if_neg hlc, wp_pure]
      exact hgone fs' hun.gone hone
    · rw [if_pos hlc, wp_modify]
      exact hgone fs' her.gone hone
  · -- a refused reclaim leaves the table alone
    rintro e fs' (⟨-, -, rfl⟩ | ⟨-, -, -, -, rfl⟩)
    · exact fun w hin hout => absurd hin hout
    · exact fun w hin hout => absurd hin hout

/-! ## 3. Every run -/

theorem Lifetime.start {fs : SfsFs} {files : Set Nat} (hw : Wf False fs files)
    (hempty : fs.sfsVnodes = []) (q : Prop) : Lifetime q ⟨fs, files, .none⟩ := by
  have hnone : ∀ v, v ∈ fs.sfsVnodes ↔ False := fun v => by simp [hempty]
  exact ⟨hw, fun v hv => absurd hv ((hnone v).mp ·), Counted.none.congr hnone fun _ _ => rfl⟩

/-- **Lifetimes under races.**  A volume is mounted, and threads take steps in any order.

* In every run, no two vnodes of the table have the same inode, and a reclaim destroys only vnodes
  to which nobody holds a reference.
* In every run without a reclaim of the last reference to a directory that has no links, the count
  of every vnode is the number of references held plus the number of reclaims still to come. -/
theorem vnode_lifetime {fs : SfsFs} {files : Set Nat} (hw : Wf False fs files)
    (hempty : fs.sfsVnodes = []) :
    (∀ s, Run RaceOp.call RaceOp.Legal ⟨fs, files, .none⟩ s →
      (∀ v ∈ s.fs.sfsVnodes, ∀ w ∈ s.fs.sfsVnodes,
        (s.fs.heap v).svIno = (s.fs.heap w).svIno → v = w) ∧
      ∀ t v r s', (RaceOp.reclaim t v).Legal s → (RaceOp.reclaim t v).call s = some (r, s') →
        ∀ w ∈ s.fs.sfsVnodes, w ∉ s'.fs.sfsVnodes → ∀ t', (t', w) ∉ s.held.refs) ∧
    ∀ s, Run RaceOp.call (fun op s => op.Legal s ∧ op.Safe s) ⟨fs, files, .none⟩ s →
      ∀ v ∈ s.fs.sfsVnodes, (s.fs.heap v).svV.vnRefcount =
        Holdings.tally s.held.refs v + Holdings.tally s.held.pending v := by
  constructor
  · intro s hrun
    have h : Lifetime False s := hrun.invariant (fun _ _ hl hi => RaceOp.call_spec hl False.elim hi)
      (.start hw hempty False)
    exact ⟨h.wf.table.ino_inj, fun t v r s' hl hc => (h.reclaim_destroys hl).of_some hc⟩
  · intro s hrun
    have h : Lifetime True s := hrun.invariant
      (fun _ _ hl hi => RaceOp.call_spec hl.1 (fun _ => hl.2) hi) (.start hw hempty True)
    exact h.counted.exact trivial

/-- A directory with one counted reference. -/
structure LoneDir (s : RaceState) (v linkcount : Nat) (held : Holdings Nat Nat) : Prop where
  life : Lifetime False s
  mem : v ∈ s.fs.sfsVnodes
  rc : (s.fs.heap v).svV.vnRefcount = 1
  links : (s.fs.heap v).svI.sfiLinkcount = linkcount
  dir : (s.fs.heap v).svI.sfiType = .dir
  held : s.held = held

namespace LoneDir

variable {s : RaceState} {t v n linkcount : Nat} {held : Holdings Nat Nat}

theorem make {fs : SfsFs} {files : Set Nat} {b₀ : Nat} (t : Nat)
    (hlife : Lifetime False ⟨fs, files, held⟩) (hmem : ∀ n, fs.kmallocOk n = true)
    (hb0 : b₀ < fs.nblocks) (hfree : fs.sfsFreemap.isset b₀ = false) :
    ∃ r s, (makeobj t .dir).call ⟨fs, files, held⟩ = some (r, s) ∧
      LoneDir s fs.nextVnode 0 (held.take t fs.nextVnode) := by
  have hl : (makeobj t .dir).Legal ⟨fs, files, held⟩ := .inr rfl
  have heff : Wp False (makeobj t .dir).call
      (fun _ s => ∃ b k, s = ⟨fs.create b .dir k, {i | i = b ∨ i ∈ files},
        held.take t fs.nextVnode⟩) (fun _ _ => False) ⟨fs, files, held⟩ := by
    simp only [call, onFs, record, wp_bind, wp_zoom, wp_modify]
    refine (sfsMakeobj_spec hlife.wf hl).imp ?_ ?_
    · rintro _ _ ⟨rfl, -, b, k, -, -, rfl⟩
      refine ⟨b, k, ?_⟩
      have hino : ((fs.create b .dir k).heap fs.nextVnode).svIno = b :=
        congrArg SfsVnode.svIno (((fs.alloc b).burn k).heap_insertVnode_self _)
      simp only [hino]
    · rintro _ _ (⟨-, -, hfull⟩ | ⟨-, hm, -⟩)
      · exact absurd (hfull b₀ hb0) (by simp [hfree])
      · exact hm fun n _ => hmem n
  obtain ⟨_, s, hc, b, k, rfl⟩ := heff.exists_ok
  have hheap : (fs.create b .dir k).heap fs.nextVnode =
      ⟨vnodeInit, { emptyInode with sfiType := .dir }, b, true⟩ :=
    ((fs.alloc b).burn k).heap_insertVnode_self _
  refine ⟨_, _, hc, (call_spec hl False.elim hlife).of_some hc,
    mem_insertVnode.mpr (.inr rfl), ?_, ?_, ?_, rfl⟩
  · rw [hheap]
    rfl
  · rw [hheap]
    rfl
  · rw [hheap]

theorem setLinks (h : LoneDir s v linkcount held) (hl : (RaceOp.setLinks t v n).Legal s) :
    ∃ r s', (RaceOp.setLinks t v n).call s = some (r, s') ∧ LoneDir s' v n held := by
  set inode : SfsInode := { (s.fs.heap v).svI with sfiLinkcount := n } with hinode
  have heff : Wp False (RaceOp.setLinks t v n).call
      (fun _ s' => s' = ⟨s.fs.setInode v inode, s.files, s.held⟩)
      (fun _ s' => s' = ⟨s.fs.setInode v inode, s.files, s.held⟩) s := by
    simp only [RaceOp.call, onFs, modifyInode, wp_zoom, wp_modify]
    rfl
  obtain ⟨r, s', hc, rfl⟩ := heff.exists_some
  have hheap : (s.fs.setInode v inode).heap v =
    { s.fs.heap v with svI := inode, svDirty := true } :=
    SfsFs.heap_setInode_self v inode
  refine ⟨r, _, hc, (RaceOp.call_spec hl False.elim h.life).of_some hc, h.mem, ?_, ?_, ?_, h.held⟩
  · rw [hheap]
    exact h.rc
  · rw [hheap]
  · rw [hheap]
    exact h.dir

theorem decref (h : LoneDir s v linkcount held) (hl : (RaceOp.decref t v).Legal s) :
    ∃ r s', (RaceOp.decref t v).call s = some (r, s') ∧
      LoneDir s' v linkcount (held.handOver t v) := by
  have heff : Wp False (RaceOp.decref t v).call
      (fun _ s' => s' = ⟨s.fs.setCount v (s.fs.heap v).svV, s.files, s.held.handOver t v⟩)
      (fun _ s' => s' = ⟨s.fs.setCount v (s.fs.heap v).svV, s.files, s.held.handOver t v⟩) s := by
    simp only [RaceOp.call, onFs, onVnode, record, wp_bind, wp_zoom, wp_modify]
    refine (vnodeDecref_spec (h.rc ▸ Nat.one_pos)).post_ok ?_
    rintro _ vn ⟨-, ⟨rfl, -, rfl⟩ | ⟨-, hgt, -⟩⟩
    · rfl
    · exact absurd h.rc (Nat.ne_of_gt hgt)
  obtain ⟨r, s', hc, rfl⟩ := heff.exists_some
  have hheap : (s.fs.setCount v (s.fs.heap v).svV).heap v = s.fs.heap v := by
    rw [SfsFs.heap_setCount, if_pos rfl]
  refine ⟨r, _, hc, (RaceOp.call_spec hl False.elim h.life).of_some hc, h.mem, ?_, ?_, ?_, ?_⟩
  · rw [hheap]
    exact h.rc
  · rw [hheap]
    exact h.links
  · rw [hheap]
    exact h.dir
  · rw [← h.held]

theorem reclaim (h : LoneDir s v 0 held) (hl : (RaceOp.reclaim t v).Legal s) :
    ∃ r s', (RaceOp.reclaim t v).call s = some (r, s') ∧ LoneDir s' v 0 (held.settle t v) := by
  have heff : Wp False (RaceOp.reclaim t v).call
      (fun _ s' => s' = ⟨s.fs, s.files, s.held.settle t v⟩)
      (fun _ s' => s' = ⟨s.fs, s.files, s.held.settle t v⟩) s := by
    simp only [RaceOp.call, onFs, record, wp_bind, wp_get, wp_attempt, wp_zoom,
      wp_modify, wp_ofResult_ok, wp_ofResult_error]
    refine (sfsReclaim_spec h.life.wf h.mem).mono (fun h0 => h0 (h.life.closed v h.mem)) ?_ ?_
    · rintro _ fs' ⟨-, ⟨hlc, -⟩ | ⟨-, her⟩⟩
      · exact absurd h.links hlc
      · exact absurd ((congrArg SfsInode.sfiType (h.life.wf.table.inode h.mem)).trans h.dir)
          her.file
    · rintro _ fs' (⟨-, hgt, -⟩ | ⟨-, -, -, -, rfl⟩)
      · exact absurd h.rc (Nat.ne_of_gt hgt)
      · rfl
  obtain ⟨r, s', hc, rfl⟩ := heff.exists_some
  exact ⟨r, _, hc, (RaceOp.call_spec hl False.elim h.life).of_some hc, h.mem, h.rc, h.links, h.dir,
    by rw [← h.held]⟩

/-- A directory is made on a fresh volume. -/
theorem fresh : ∃ d m fs r s, mksfs noName (blankDisk, bitbuf) = some (.ok (), (d, m)) ∧
    sfsDomount (blankSfs d fun _ => 0) = some (.ok (), fs) ∧
    Wf False fs {sfsRootLocation} ∧ fs.sfsVnodes = [] ∧
    (makeobj 0 .dir).call ⟨fs, {sfsRootLocation}, .none⟩ = some (r, s) ∧
    LoneDir s fs.nextVnode 0 (Holdings.none.take 0 fs.nextVnode) := by
  obtain ⟨d, m, fs, k, hmk, ⟨hform, hdb, hrel⟩, hmount, hfs⟩ := fresh_volume fun _ => 0
  have hwt : Wf True fs {sfsRootLocation} := hfs ▸ hform.wf hrel k
  have hw : Wf False fs {sfsRootLocation} := { hwt with tight := False.elim }
  have hempty : fs.sfsVnodes = [] := hfs ▸ rfl
  have hn : fs.nblocks = 512 := hfs ▸ hform.nblocks.trans hdb
  obtain ⟨b₀, hb0, hfree⟩ := hwt.exists_free hn fun i hi => (.inl hi : i = _ ∨ i = 0)
  have hmem : ∀ n, fs.kmallocOk n = true := fun n => by simp [hfs, SfsFs.mounted, blankSfs]
  obtain ⟨r, s, hc, h⟩ := LoneDir.make 0 (.start hw hempty False) hmem hb0 hfree
  exact ⟨d, m, fs, r, s, hmk, hmount, hw, hempty, hc, h⟩

/-- Who has made it may change its links and let it go. -/
theorem legal (h : LoneDir s v linkcount (Holdings.none.take t v)) :
    (RaceOp.decref t v).Legal s ∧ ∀ n < 65536, (RaceOp.setLinks t v n).Legal s := by
  have hr : (t, v) ∈ s.held.refs := by
    rw [h.held]
    exact List.mem_cons_self
  exact ⟨hr, fun n hn => ⟨hr, hn⟩⟩

end LoneDir

/-- A directory is made and linked on a fresh volume, and its only holder lets it go: the count is
the reclaim still to come. -/
theorem dropped_directory_counted : ∃ fs s v, Wf False fs {sfsRootLocation} ∧ fs.sfsVnodes = [] ∧
    Run RaceOp.call (fun op s => op.Legal s ∧ op.Safe s) ⟨fs, {sfsRootLocation}, .none⟩ s ∧
    v ∈ s.fs.sfsVnodes ∧ s.held = ⟨[], [(0, v)]⟩ ∧ (s.fs.heap v).svV.vnRefcount =
      Holdings.tally s.held.refs v + Holdings.tally s.held.pending v := by
  obtain ⟨-, -, fs, r₁, s₁, -, -, hw, hempty, hc1, h1⟩ := LoneDir.fresh
  have hl2 := h1.legal.2 1 (by decide)
  obtain ⟨r₂, s₂, hc2, h2⟩ := h1.setLinks hl2
  obtain ⟨r₃, s₃, hc3, h3⟩ := h2.decref h2.legal.1
  have hrun : Run RaceOp.call (fun op s => op.Legal s ∧ op.Safe s) ⟨fs, {sfsRootLocation}, .none⟩
      s₃ :=
    ((Run.refl.andThen (makeobj 0 .dir) ⟨.inr rfl, trivial⟩ hc1).andThen
      (setLinks 0 _ 1) ⟨hl2, trivial⟩ hc2).andThen (decref 0 _) ⟨h2.legal.1, trivial⟩ hc3
  refine ⟨fs, s₃, fs.nextVnode, hw, hempty, hrun, h3.mem, h3.held.trans ?_,
    (vnode_lifetime hw hempty).2 s₃ hrun _ h3.mem⟩
  simp [Holdings.handOver, Holdings.take, Holdings.none]

/-- **A removed directory stays.**  A directory is made and linked, then it loses its link, as in
`sfs_rmdir`, and its only holder lets it go: the reclaim that follows is refused.  Nobody holds the
vnode and nothing is pending, but its count is 1, and it is in the table for good. -/
theorem removed_directory_stays : ∃ d m fs s v,
    mksfs noName (blankDisk, bitbuf) = some (.ok (), (d, m)) ∧
    sfsDomount (blankSfs d fun _ => 0) = some (.ok (), fs) ∧
    Run RaceOp.call RaceOp.Legal ⟨fs, {sfsRootLocation}, .none⟩ s ∧
    v ∈ s.fs.sfsVnodes ∧ (s.fs.heap v).svV.vnRefcount = 1 ∧ s.held = .none := by
  obtain ⟨d, m, fs, r₁, s₁, hmk, hmount, hw, hempty, hc1, h1⟩ := LoneDir.fresh
  have hl2 := h1.legal.2 1 (by decide)
  obtain ⟨r₂, s₂, hc2, h2⟩ := h1.setLinks hl2
  have hl3 := h2.legal.2 0 (by decide)
  obtain ⟨r₃, s₃, hc3, h3⟩ := h2.setLinks hl3
  have hl4 := h3.legal.1
  obtain ⟨r₄, s₄, hc4, h4⟩ := h3.decref hl4
  have hl5 : (RaceOp.reclaim 0 fs.nextVnode).Legal s₄ := by
    show _ ∈ s₄.held.pending
    rw [h4.held]
    exact List.mem_cons_self
  obtain ⟨r₅, s₅, hc5, h5⟩ := h4.reclaim hl5
  have hrun : Run RaceOp.call RaceOp.Legal ⟨fs, {sfsRootLocation}, .none⟩ s₅ :=
    ((((Run.refl.andThen (makeobj 0 .dir) (.inr rfl) hc1).step hl2 hc2).step hl3 hc3).step
      hl4 hc4).step hl5 hc5
  refine ⟨d, m, fs, s₅, fs.nextVnode, hmk, hmount, hrun, h5.mem, h5.rc, h5.held.trans ?_⟩
  simp [Holdings.settle, Holdings.handOver, Holdings.take, Holdings.none]

end Os161
