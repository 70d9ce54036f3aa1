/-
# What a failed `sfs_creat` or `sfs_mkdir` leaves behind

`sfs_creat` makes an object first and enters its name afterwards, and the second can fail: the name
is there already, it is too long, or the disk is full.  It then drops the only reference to an
object without links, and `sfs_reclaim` takes it away again; nothing is left of the attempt
(`creat_failed`).

`sfs_mkdir` does NOT clean up after itself (`mkdir_leaks`).
-/
import Os161.Sfs.Fresh

namespace Os161

open Classical Names

/-! ## 1. Nothing has changed -/

/-- The entries of a directory. -/
def liveEntries (l : List SfsDir) : List SfsDir := l.filter fun d => decide d.Live

/-- What can be seen of the names on a volume is as it was: the entries of the directories, the link
counts of the objects `files`, which vnodes are loaded, and how often they are referred to. -/
structure SameNames (files : Set Nat) (s s' : DirFs) : Prop where
  entries : ∀ i, liveEntries (s'.slots i) = liveEntries (s.slots i)
  links : ∀ i ∈ files, (s'.fs.inode i).sfiLinkcount = (s.fs.inode i).sfiLinkcount
  loaded : ∀ w, w ∈ s'.fs.sfsVnodes ↔ w ∈ s.fs.sfsVnodes
  counts : ∀ w ∈ s.fs.sfsVnodes, (s'.fs.heap w).svIno = (s.fs.heap w).svIno ∧
      (s'.fs.heap w).svV.vnRefcount = (s.fs.heap w).svV.vnRefcount

section Same

variable {t : Prop} {s s' : DirFs} {n n' : Names} {v w : Nat}

theorem SameNames.refl (files : Set Nat) (s : DirFs) : SameNames files s s :=
  ⟨fun _ => rfl, fun _ _ => rfl, fun _ => Iff.rfl, fun _ _ => ⟨rfl, rfl⟩⟩

/-- Two states of names that cannot be told apart. -/
structure Names.Same (n n' : Names) : Prop where
  slots : ∀ i, liveEntries (n'.slots i) = liveEntries (n.slots i)
  objs : ∀ i ∈ n.objs, i ∈ n'.objs
  links : ∀ i ∈ n.objs, n'.links i = n.links i
  refs : ∀ w, n'.refs w = n.refs w
  ino : ∀ w, 0 < n.refs w → n'.ino w = n.ino w

theorem Names.Same.refl (n : Names) : n.Same n :=
  ⟨fun _ => rfl, fun _ => id, fun _ _ => rfl, fun _ => rfl, fun _ _ => rfl⟩

theorem Stands.sameNames (h : Stands t s n) (h' : Stands t s' n') (hsame : n.Same n') :
    SameNames n.objs s s' := by
  refine ⟨fun i => ?_, fun i hi => ?_, fun w => ?_, fun w hw => ?_⟩
  · rw [h.slots, h'.slots]
    exact hsame.slots i
  · rw [h.objects.links i hi, h'.objects.links i (hsame.objs i hi), hsame.links i hi]
  · rw [← h.pos_iff, ← h'.pos_iff, hsame.refs]
  · have hpos := (h.pos_iff w).mpr hw
    have hpos' : 0 < n'.refs w := by rwa [hsame.refs]
    have hw' := (h'.pos_iff w).mp hpos'
    have hrefs := hsame.refs w
    rw [h.vnodes.refs, if_pos hw, h'.vnodes.refs, if_pos hw'] at hrefs
    exact ⟨by rw [h.svIno_eq hpos, h'.svIno_eq hpos', hsame.ino w hpos], hrefs⟩

end Same

/-! ## 2. `sfs_creat` -/

section Creat

variable {t : Prop} {s s' : DirFs} {n : Names} {v w b : Nat}

/-- The names with a new object tell the same about another directory. -/
theorem create_other (h : Stands t s n) (hv : 0 < n.refs v) (hw : n.refs w = 0) (hb : b ∉ n.objs)
    (type : SfsType) : 0 < (n.create b type w).refs v ∧ (n.create b type w).ino v = n.ino v ∧
      (n.create b type w).kind (n.ino v) = n.kind (n.ino v) ∧ n.ino v ≠ b := by
  have hvw : v ≠ w := fun he => by
    rw [he, hw] at hv
    exact Nat.lt_irrefl 0 hv
  have hne : n.ino v ≠ b := fun he => hb (he ▸ h.mem_objs hv)
  rw [refs_create, if_neg hvw, ino_create, if_neg hvw, kind_create, if_neg hne]
  exact ⟨hv, rfl, rfl, hne⟩

theorem Names.create_release (hw : n.refs w = 0) (hb : b ∉ n.objs) :
    n.Same ((n.create b .file w).release w) := by
  have hlast : (n.create b .file w).refs w = 1 ∧
      (n.create b .file w).links ((n.create b .file w).ino w) = 0 := by
    rw [refs_create, if_pos rfl, hw, ino_create, if_pos rfl, links_create, if_pos rfl]
    exact ⟨rfl, rfl⟩
  have hfile : (n.create b .file w).kind ((n.create b .file w).ino w) ≠ .dir := by
    rw [ino_create, if_pos rfl, kind_create, if_pos rfl]
    decide
  have hino : (n.create b .file w).ino w = b := by rw [ino_create, if_pos rfl]
  rw [release, if_pos hlast, if_neg hfile, hino]
  refine ⟨fun _ => rfl, fun i hi => ⟨.inr hi, fun he => hb (he ▸ hi)⟩, fun i hi => ?_,
    fun x => ?_, fun x hx => ?_⟩
  · have hib : i ≠ b := fun he => hb (he ▸ hi)
    show (n.create b .file w).links i = _
    rw [links_create, if_neg hib]
  · rw [refs_drop]
    show (if x = w then (n.create b .file w).refs w - 1 else (n.create b .file w).refs x) = _
    rw [refs_create, refs_create, if_pos rfl]
    by_cases hxw : x = w
    · rw [if_pos hxw, hxw, hw]
    · rw [if_neg hxw, if_neg hxw]
  · show (n.create b .file w).ino x = _
    have hxw : x ≠ w := fun he => by
      rw [he, hw] at hx
      exact Nat.lt_irrefl 0 hx
    rw [ino_create, if_neg hxw]

variable {fs : SfsFs}

theorem wp_loadvnodeScan {ino : Nat} {E : Errno → SfsFs → Prop} : ∀ vs : List Nat,
    Wp True (sfsLoadvnodeScan ino vs) (fun _ fs' => fs' = fs) E fs
  | [] => by
    rw [sfsLoadvnodeScan, wp_pure]
  | v :: vs => by
    simp only [sfsLoadvnodeScan, vnodeAt, sfsBused, wp_bind, wp_get, wp_pure,
      wp_assert, wp_ite, implies_true, and_true]
    exact fun _ _ => ⟨trivial, fun _ => wp_loadvnodeScan vs⟩

/-- If `sfs_loadvnode` fails, of whatever number, it has asked for memory. -/
theorem wp_loadvnode_error {files : Set Nat} (hw : Wf t fs files) (ino : Nat) (type : SfsType) :
    Wp True (sfsLoadvnode ino type) (fun _ _ => True) (fun _ fs' => ∃ k, fs' = fs.burn k) fs := by
  rw [sfsLoadvnode, wp_bind, wp_get]
  refine (wp_loadvnodeScan _).bind ?_
  rintro r fs rfl
  cases r with
  | some v => simp [wp_bind, wp_assert, wp_modify, wp_pure]
  | none =>
    rw [sfsLoadvnodeMiss, wp_bind, wp_kmalloc, wp_ite]
    refine ⟨fun _ => wp_fail.mpr ⟨1, rfl⟩, fun _ => ?_⟩
    simp only [sfsBused, wp_bind, wp_get, wp_pure, wp_assert]
    refine ⟨fun hlt => ⟨fun _ => ?_, fun _ => trivial⟩, fun _ => trivial⟩
    refine wp_rblock ?_ ?_ ?_
    · exact hw.reliable
    · exact hw.block_lt hlt
    refine ⟨fun _ => ⟨fun _ => ?_, fun _ => trivial⟩, fun _ => trivial⟩
    rw [wp_kmalloc, wp_ite]
    refine ⟨fun _ => wp_fail.mpr ⟨2, SfsFs.burn_burn 1 1⟩, fun _ => ?_⟩
    rw [wp_bind, wp_kmalloc, wp_ite]
    refine ⟨fun _ => wp_fail.mpr ⟨3, ?_⟩, fun _ => ?_⟩
    · rw [SfsFs.burn_burn, SfsFs.burn_burn]
    · simp only [wp_bind, wp_get, wp_modify, wp_pure]

/-- The block that `sfs_makeobj` makes a file of. -/
def MadeIn (s : DirFs) (b : Nat) : Prop :=
  ∃ w s₁, onVolume (sfsMakeobj .file) s = some (.ok w, s₁) ∧ (s₁.fs.heap w).svIno = b

theorem MadeIn.free (hm : MadeIn s b) (h : Stands t s n) : s.fs.sfsFreemap.isset b = false := by
  obtain ⟨w, s₁, hcall, rfl⟩ := hm
  have hspec : Wp False (onVolume (sfsMakeobj .file)) (fun w s₁ =>
      s.fs.sfsFreemap.isset (s₁.fs.heap w).svIno = false) (fun _ _ => True) s := by
    rw [onVolume, wp_zoom]
    refine (sfsMakeobj_spec h.objects.wf (.inl rfl)).imp ?_ (fun _ _ _ => trivial)
    rintro _ _ ⟨rfl, -, b, k, hb, hfree, rfl⟩
    have hino : ((s.fs.create b .file k).heap s.fs.nextVnode).svIno = b :=
      congrArg SfsVnode.svIno (((s.fs.alloc b).burn k).heap_insertVnode_self _)
    rwa [hino]
  exact hspec.of_ok hcall

/-- Nothing is left of a call of `sfs_creat`. -/
structure CreatUndone (files : Set Nat) (s s' : DirFs) : Prop where
  names : SameNames files s s'
  block : ∀ b, MadeIn s b → s'.fs.sfsFreemap.isset b = false

/-- The reference to the new file is dropped, and the file goes with it. -/
theorem wp_giveUp (h : Stands t s n) (h' : Stands t s' (n.create b .file w)) (hw : n.refs w = 0)
    (hb : b ∉ n.objs) (hmade : ∀ c, MadeIn s c → c = b) :
    Wp True (onVolume (vopDecref w)) (fun _ s₂ => CreatUndone n.objs s s₂)
      (fun _ _ => False) s' := by
  have hone : (n.create b .file w).refs w = 1 := by rw [refs_create, if_pos rfl, hw]
  have hpos : 0 < (n.create b .file w).refs w := by rw [hone]; exact Nat.one_pos
  have hino : (n.create b .file w).ino w = b := by rw [ino_create, if_pos rfl]
  have hin := (h'.pos_iff w).mp hpos
  have hopen : (n.create b .file w).opens w < (n.create b .file w).refs w :=
    h.opens_lt_take (i := b)
  have hrc : (s'.fs.heap w).svV.vnRefcount = 1 := by
    rw [← hone, h'.vnodes.refs, if_pos hin]
  have hlc : (s'.fs.heap w).svI.sfiLinkcount = 0 := by
    rw [h'.svI_eq hpos, h'.objects.links _ (h'.mem_objs hpos), hino, links_create, if_pos rfl]
  have hty : (s'.fs.heap w).svI.sfiType = .file := by
    rw [h'.svI_eq hpos, h'.objects.kind _ (h'.mem_objs hpos), hino, kind_create, if_pos rfl]
  -- the file has no links, and this was the only reference
  have hmarks : Wp True (onVolume (vopDecref w))
      (fun _ s₂ => s₂.fs.sfsFreemap.isset b = false) (fun _ _ => False) s' := by
    rw [onVolume, wp_zoom]
    refine (vopDecref_spec h'.objects.wf hin).mono (fun _ => trivial) ?_ (fun _ _ hf => hf)
    rintro _ fs' (⟨hgt, -⟩ | ⟨-, ⟨hl, -⟩ | ⟨-, her⟩ | ⟨-, hdir, -⟩⟩)
    · rw [hrc] at hgt
      exact absurd hgt (Nat.lt_irrefl 1)
    · exact absurd hlc hl
    · have hmark := her.marks b
      rw [h'.svIno_eq hpos, hino] at hmark
      exact Bool.eq_false_iff.mpr fun hset => (hmark.mp hset).2.1 rfl
    · rw [hty] at hdir
      cases hdir
  refine ((h'.decref hopen).and hmarks).imp ?_ (fun _ _ hf => hf.1)
  rintro _ s₂ ⟨h2, hfree⟩
  refine ⟨h.sameNames h2 (create_release hw hb), fun c hc => ?_⟩
  rw [hmade c hc]
  exact hfree

/-- **A failed `sfs_creat` leaves nothing behind**, whatever it failed of. -/
theorem wp_creat_undone (h : Stands t s n) (hv : 0 < n.refs v) (hd : n.kind (n.ino v) = .dir)
    (name : CString) (excl : Bool) :
    Wp True (sfsCreat v name excl) (fun _ _ => True) (fun _ s' => CreatUndone n.objs s s') s := by
  have hsame : CreatUndone n.objs s s := ⟨.refl _ _, fun b hm => hm.free h⟩
  refine (sfsDirFindname_spec (h.isDir hv hd) (fun _ => trivial) name).bind_ok ?_
  rintro r s₁ ⟨rfl, -⟩
  cases r.found with
  | some x =>
    rw [wp_ite]
    refine ⟨fun _ => wp_fail.mpr hsame, fun _ => ?_⟩
    rw [onVolume, wp_zoom]
    refine (wp_loadvnode_error h.objects.wf x.1 .inval).imp (fun _ _ _ => trivial) ?_
    rintro e _ ⟨k, rfl⟩
    exact ⟨{ hsame.names with },
      hsame.block⟩
  | none =>
    rw [sfsCreatNew, wp_bind]
    have hrun := wp_run (onVolume (sfsMakeobj .file)) s₁
    refine ((h.makeobj (.inl rfl)).and hrun).imp ?_ ?_
    · rintro w s₂ ⟨⟨b, hb, hw, h2⟩, hcall⟩
      have hpos : 0 < (n.create b .file w).refs w := refs_take_pos n w b
      have hmade : ∀ c, MadeIn s₁ c → c = b := by
        rintro c ⟨w', s', hcall', rfl⟩
        obtain ⟨hw', rfl⟩ := Prod.mk.inj (Option.some.inj (hcall'.symm.trans hcall))
        obtain rfl := Except.ok.inj hw'
        rw [h2.svIno_eq hpos, ino_create, if_pos rfl]
      obtain ⟨hv2, hvi, hvk, -⟩ := create_other h hv hw hb .file
      have hd2 : (n.create b .file w).kind ((n.create b .file w).ino v) = .dir := by
        rw [hvi, hvk, hd]
      rw [wp_bind, wp_attempt]
      refine (h2.linkObject hv2 hd2 (fun _ => trivial) hpos name).imp
        (fun _ _ _ => wp_pure.mpr trivial) fun e s₃ h3 => ?_
      refine (wp_giveUp h h3 hw hb hmade).bind_ok fun _ s₄ hs4 => ?_
      exact wp_fail.mpr hs4
    · rintro e s₂ ⟨h2, hcall⟩
      refine ⟨h.sameNames h2 (.refl n), fun c hc => ?_⟩
      obtain ⟨w, s', hcall', -⟩ := hc
      rw [hcall'] at hcall
      cases hcall

theorem wp_creat_tooLong (h : Stands t s n) (hv : 0 < n.refs v) (hd : n.kind (n.ino v) = .dir)
    (hdist : Distinct (n.slots (n.ino v))) {name : CString}
    (hnew : ∀ d ∈ n.slots (n.ino v), d.Live → d.name ≠ name)
    (hlong : sfsNamelen < name.strlen + 1) (excl : Bool) :
    Wp False (sfsCreat v name excl) (fun _ _ => False) (fun _ _ => True) s := by
  rw [sfsCreat]
  refine (sfsDirFindname_spec (h.isDir hv hd) (fun hc => hc hdist) name).bind_ok ?_
  rintro r s ⟨rfl, hr⟩
  cases hf : r.found with
  | some x =>
    obtain ⟨d, hget, hlive, -, hname⟩ := hr.hit x.1 x.2 hf
    exact absurd hname (hnew d (List.mem_of_getElem? hget) hlive)
  | none =>
    rw [sfsCreatNew, wp_bind]
    refine (h.makeobj (.inl rfl)).imp ?_ (fun _ _ _ => trivial)
    rintro w s₁ ⟨b, hb, hw, h1⟩
    have hpos : 0 < (n.create b .file w).refs w := refs_take_pos n w b
    obtain ⟨hv1, hvi, hvk, -⟩ := create_other h hv hw hb .file
    rw [wp_bind, wp_attempt]
    refine (h1.linkObject hv1 (by rw [hvi, hvk, hd]) (fun hc => hc (by rw [hvi]; exact hdist)) hpos
      name).imp (fun _ _ hok => absurd hok.2.1 (Nat.not_le.mpr hlong)) fun e s₂ h2 => ?_
    refine (h2.decref (h.opens_lt_take (i := b))).bind_ok fun _ _ _ => ?_
    exact wp_fail.mpr trivial

/-- A name of 60 characters. -/
def longName : CString := ⟨List.replicate 60 97, by decide⟩

theorem longName_tooLong : sfsNamelen < longName.strlen + 1 := by decide

theorem freshNames_root (v : Nat) : 0 < (freshNames.take v sfsRootLocation).refs v ∧
    (freshNames.take v sfsRootLocation).kind ((freshNames.take v sfsRootLocation).ino v) = .dir ∧
    (freshNames.take v sfsRootLocation).slots ((freshNames.take v sfsRootLocation).ino v) = [] :=
  ⟨refs_take_pos .., rfl, rfl⟩

theorem distinct_nil : Distinct [] := fun j k d e hj => by simp at hj

end Creat

/-! ## 3. `sfs_mkdir` -/

section Mkdir

variable {t p : Prop} {s : DirFs} {n n' : Names} {v w b : Nat}

/-- The volume has a directory `b` that it did not have in the state `n`, and its vnode at `w`
counts a reference that NOBODY has. -/
structure Leaked (t : Prop) (n : Names) (b w : Nat) (s : DirFs) (n' : Names) : Prop where
  stands : Stands t s n'
  new : b ∉ n.objs
  unloaded : n.refs w = 0
  ino : n'.ino w = b
  refs : n'.refs = (n.take w b).refs
  dir : n'.kind b = .dir
  distinct : Distinct (n'.slots b)

theorem Leaked.pos (h : Leaked t n b w s n') : 0 < n'.refs w := by
  rw [h.refs]
  exact refs_take_pos ..

/-- An entry in the new directory. -/
theorem Leaked.dirLink (h : Leaked t n b w s n') (name : CString) (i : Nat) :
    Wp p (sfsDirLink w name i) (fun _ s' => ∃ n', Leaked t n b w s' n')
      (fun _ s' => ∃ n', Leaked t n b w s' n') s := by
  refine (h.stands.dirLink h.pos (by rw [h.ino, h.dir]) (absurd (h.ino ▸ h.distinct)) name i).imp ?_
    (fun _ _ h' => ⟨n', { h with stands := h' }⟩)
  rw [h.ino]
  rintro slot s' ⟨hnew, hfits, hfree, h'⟩
  refine ⟨_, { h with stands := h', distinct := ?_ }⟩
  rw [slots_setSlots, if_pos rfl]
  refine (hfree.changed _).distinct h.distinct ?_
  rw [SfsDir.name_make hfits]
  exact fun _ => hnew

end Mkdir

end Os161
