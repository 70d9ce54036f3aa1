/-
# `sfs_getdirentry` and `sys_getdirentry`: reading a directory name by name

`sfs_getdirentry` takes `uio_offset` for the number of the slot to begin with.  It passes over the
free slots, moves the name it finds to the uio, which ADVANCES `uio_offset` by the length of the
name, and then overwrites `uio_offset` with the number of the next slot.  A caller that hands back
the offset it was left gets the names one by one (`getdirentry_enumerates`).

`sys_getdirentry` is not such a caller.  It makes a new uio, at offset 0, for every call, so every
call begins with the first slot; what it returns is the result of the operation, which is 0, and
not the length of the name; and the end of the directory is an error.  `syscall_enumerates_iff`
says for which directories nobody can tell: those whose only names are empty.
-/
import Os161.FileTable
import Os161.Sfs.Dir

namespace Os161

open List

/-! ## 1. The code -/

/-- The C conversion of an `off_t` to `int`. -/
def intOfOff (off : Nat) : Int := intOfU32 (u32 off)

/-- The bits of an `int` in an `off_t`. -/
def offOfInt (z : Int) : Nat := (z % 18446744073709551616).toNat

/-- The slot that `sfs_readdir` reads if it is passed an offset: `slot * sizeof(struct sfs_dir)` is
computed in 32 bits. -/
def slotOfOff (off : Nat) : Nat := u32 (u32 off * sfsDirSize) / sfsDirSize

/-- The loop of `sfs_getdirentry`: the entry it ends with, and `offset`.  A round reads one slot
further, and there is none past the last, so the fuel given by `sfs_getdirentry` is enough. -/
def sfsGetdirentryScan (v : Nat) (nentries : Int) :
    Nat → Int → Prog Errno (DirFs × Uio) (SfsDir × Int)
  | 0, _ => halt
  | fuel + 1, offset => do
    let uio ← onSnd get
    let tsd ← onFst (sfsReaddir v (slotOfOff uio.uioOffset))
    if tsd.sfdIno = sfsNoino then
      if nentries ≤ offset + 1 then fail .enoent
      else do
        modify fun st => (st.1, { st.2 with uioOffset := st.2.uioOffset + 1 })
        sfsGetdirentryScan v nentries fuel (offset + 1)
    else pure (tsd, offset)

/-- There is a zero in the name. -/
abbrev SfsDir.Terminated (sd : SfsDir) : Prop := (0 : Byte) ∈ sd.sfdName.toList

/-- `sfs_getdirentry`.  Past the end of a name without a zero `strlen` would go on in the kernel's
stack; there the model stops.  What `uiomove` returns is not looked at. -/
def sfsGetdirentry (v : Nat) : Prog Errno (DirFs × Uio) Unit := do
  let uio ← onSnd get
  let offset := intOfOff uio.uioOffset
  let nentries ← onFst (sfsDirNentries v)
  if (nentries : Int) ≤ offset then fail .enoent
  else do
    let (tsd, offset) ← sfsGetdirentryScan v nentries (nentries + 1) offset
    assert tsd.Terminated
    let _ ← attempt (onSnd (uiomove (cString tsd.sfdName.toList).1))
    modify fun st => (st.1, { st.2 with uioOffset := offOfInt (offset + 1) })

/-- `get_filetab` in thread `t`. -/
def getFiletab (t : Nat) : Int → FdProg Nat
  | .negSucc _ => halt
  | .ofNat fd => do
    let tab ← derefTable t
    let file ← derefFile (tab fd)
    match file.vnode with
    | some v => pure v
    | none => halt

/-- `VOP_GETDIRENTRY` on a vnode of SFS: the operations of a file have `NOTDIR` here. -/
def vopGetdirentry (v : Nat) : Prog Errno (DirFs × Uio) Unit := do
  let sv ← onFst (onVolume (vnodeAt v))
  if sv.svI.sfiType = .dir then sfsGetdirentry v else fail .enotdir

/-- `sys_getdirentry` in thread `t`: `*retval`, and what has been stored at `buf`. -/
def sysGetdirentry (t : Nat) (fd : Int) (buf : List Byte) :
    Prog Errno (FdSys × DirFs) (Int × List Byte) := do
  let vn ← onFst (getFiletab t fd)
  let (result, ku) ← onSnd
    (withLocal (uioKinit buf 0 .read) (attempt (vopGetdirentry vn)))
  match result with
  | .error _ => fail .enoent
  | .ok _ => pure (0, ku.uioMoved)

/-! ## 2. The next live entry -/

/-- The live entries from slot `off` on. -/
def liveFrom (l : List SfsDir) (off : Nat) : List SfsDir := (l.drop off).filter fun d => d.Live

/-- The names of a directory, in the order of the slots. -/
def liveNames (l : List SfsDir) : List CString := (liveFrom l 0).map SfsDir.name

section Scan

variable {l : List SfsDir} {off k : Nat} {d : SfsDir}

theorem liveFrom_cons (h : l[off]? = some d) (hd : d.Live) :
    liveFrom l off = d :: liveFrom l (off + 1) := by
  obtain ⟨hlt, rfl⟩ := List.getElem?_eq_some_iff.mp h
  rw [liveFrom, drop_eq_getElem_cons hlt, filter_cons_of_pos (by simpa using hd)]
  rfl

theorem liveFrom_skip (h : l[off]? = some d) (hd : ¬ d.Live) :
    liveFrom l off = liveFrom l (off + 1) := by
  obtain ⟨hlt, rfl⟩ := List.getElem?_eq_some_iff.mp h
  rw [liveFrom, drop_eq_getElem_cons hlt, filter_cons_of_neg (by simpa using hd)]
  rfl

theorem liveFrom_of_le (h : l.length ≤ off) : liveFrom l off = [] := by
  rw [liveFrom, drop_eq_nil_of_le h]
  rfl

theorem liveFrom_nil_mono (h : liveFrom l off = []) (hle : off ≤ k) : liveFrom l k = [] := by
  rw [liveFrom, filter_eq_nil_iff] at h ⊢
  intro d hd
  refine h d ?_
  rw [show k = off + (k - off) by omega, ← drop_drop] at hd
  exact mem_of_mem_drop hd

theorem intOfOff_of_lt (h : off < 67108864) : intOfOff off = off := by
  have hu : u32 off = off := Nat.mod_eq_of_lt (by omega)
  rw [intOfOff, hu, intOfU32, if_pos (by omega)]

theorem slotOfOff_of_lt (h : off < 67108864) : slotOfOff off = off := by
  have hu : u32 off = off := Nat.mod_eq_of_lt (by omega)
  have hv : u32 (off * 64) = off * 64 := Nat.mod_eq_of_lt (by omega)
  rw [slotOfOff, hu]
  simp only [sfsDirSize, hv]
  omega

theorem offOfInt_nat (h : off < 67108864) : offOfInt (off + 1) = off + 1 := by
  rw [offOfInt]
  omega

variable {s : DirFs} {v : Nat}

/-- **The loop ends** with the next live entry, or with `ENOENT` if there is none; by induction on
the slots that are left. -/
theorem sfsGetdirentryScan_spec (hdir : IsDir s v l) (hlen : l.length < 67108864) :
    ∀ (fuel off : Nat) (u : Uio), u.uioOffset = off → off < l.length → l.length < off + fuel →
      Wp False (sfsGetdirentryScan v l.length fuel off)
        (fun r st => ∃ k, off ≤ k ∧ k < l.length ∧ liveFrom l off = r.1 :: liveFrom l (k + 1) ∧
          r.2 = k ∧ st = (s, { u with uioOffset := k }))
        (fun e st => e = .enoent ∧ liveFrom l off = [] ∧
          ∃ k, off ≤ k ∧ k < l.length ∧ st = (s, { u with uioOffset := k })) (s, u)
  | 0, off, u, _, hlt, hfuel => by omega
  | fuel + 1, off, u, hoff, hlt, hfuel => by
    have hget : l[off]? = some l[off] := getElem?_eq_getElem hlt
    have hslot : slotOfOff u.uioOffset = off := hoff ▸ slotOfOff_of_lt (by omega)
    simp only [sfsGetdirentryScan, wp_bind, wp_onSnd, wp_get, wp_onFst,
      sfsReaddir, hslot, hdir.slots, hget, wp_pure]
    split_ifs with hfree hlast
    · -- the last slot is free
      have hd : ¬ l[off].Live := not_not.mpr hfree
      refine wp_fail.mpr ⟨rfl, ?_, off, le_rfl, hlt, ?_⟩
      · rw [liveFrom_skip hget hd]
        exact liveFrom_of_le (by omega)
      · rw [← hoff]
    · have hd : ¬ l[off].Live := not_not.mpr hfree
      rw [wp_bind, wp_modify, hoff]
      have hnext := sfsGetdirentryScan_spec hdir hlen fuel (off + 1)
        { u with uioOffset := off + 1 } rfl (by omega) (by omega)
      rw [← liveFrom_skip hget hd] at hnext
      refine hnext.imp ?_ ?_
      · rintro r st ⟨k, hk, hrest⟩
        exact ⟨k, by omega, hrest⟩
      · rintro e st ⟨he, hnil, k, hk, hrest⟩
        exact ⟨he, hnil, k, by omega, hrest⟩
    · refine wp_pure.mpr ⟨off, le_rfl, hlt, liveFrom_cons hget hfree, rfl, ?_⟩
      rw [← hoff]

end Scan

/-! ## 3. One call after the other -/

theorem SfsDir.cString_of_terminated {sd : SfsDir} (h : sd.Terminated) :
    cString sd.sfdName.toList = sd.name := by
  obtain ⟨a, b, hab⟩ := append_of_mem h
  have hlen : (a ++ 0 :: b).length = 60 := hab ▸ Bytes.length_toList _
  have ha : a.length ≤ 59 := by
    rw [length_append, length_cons] at hlen
    omega
  rw [SfsDir.name, hab, cString_append_zero]
  simp only [sfsNamelen]
  rw [take_append, take_of_length_le ha]
  cases 60 - 1 - a.length with
  | zero => rw [take_zero, append_nil]
  | succ n => rw [take_succ_cons, cString_append_zero]

theorem SfsDir.length_name_le (sd : SfsDir) : sd.name.1.length ≤ 59 := by
  refine ((takeWhile_sublist _).length_le).trans ?_
  simp [sfsNamelen]

/-- A uio that any name can be moved to. -/
structure Uio.Ready (u : Uio) : Prop where
  rw : u.uioRw = .read
  covered : u.Covered
  valid : u.Valid
  room : 59 ≤ u.uioResid

section Calls

variable {p : Prop} {l : List SfsDir} {s : DirFs} {v : Nat} {u : Uio}

/-- What a call leaves that has found the name of `d`. -/
structure ReadsName (l : List SfsDir) (s : DirFs) (u : Uio) (d : SfsDir) (st : DirFs × Uio) :
    Prop where
  next : liveFrom l u.uioOffset = d :: liveFrom l st.2.uioOffset
  inside : st.2.uioOffset ≤ l.length
  same : st.1 = s
  moved : st.2.uioMoved = u.uioMoved ++ d.name.1

/-- What a call leaves that has found nothing. -/
structure NoneLeft (l : List SfsDir) (s : DirFs) (u : Uio) (st : DirFs × Uio) : Prop where
  none : liveFrom l u.uioOffset = []
  still : liveFrom l st.2.uioOffset = []
  inside : st.2.uioOffset ≤ l.length
  same : st.1 = s
  moved : st.2.uioMoved = u.uioMoved

/-- **One call** reads the next live name, or fails with `ENOENT` if there is none. -/
theorem sfsGetdirentry_spec (hdir : IsDir s v l) (hfits : (s.fs.heap v).svI.Fits)
    (hp : ∀ d ∈ l, d.Live → ¬ d.Terminated → p) (hu : u.Ready) (hoff : u.uioOffset ≤ l.length) :
    Wp p (sfsGetdirentry v) (fun _ st => ∃ d, ReadsName l s u d st)
      (fun e st => e = .enoent ∧ NoneLeft l s u st) (s, u) := by
  have hlen : l.length < 67108864 := by
    have h1 := hfits.size
    have h2 : (s.fs.heap v).svI.sfiSize = 64 * l.length := hdir.size
    omega
  have hint := intOfOff_of_lt (lt_of_le_of_lt hoff hlen)
  rw [sfsGetdirentry]
  simp only [wp_bind, wp_onSnd, wp_get, wp_onFst, hint]
  refine hdir.wp_nentries ?_
  split_ifs with hend
  · -- the offset is already past the last slot
    have hnil : liveFrom l u.uioOffset = [] := liveFrom_of_le (by omega)
    exact wp_fail.mpr ⟨rfl, hnil, hnil, hoff, rfl, rfl⟩
  rw [wp_bind]
  refine ((sfsGetdirentryScan_spec hdir hlen (l.length + 1) u.uioOffset u rfl (by omega)
    (by omega)).mono False.elim ?_ ?_)
  · rintro ⟨d, offset⟩ st ⟨k, hk, hlt, hlive, rfl, rfl⟩
    have hd : d ∈ liveFrom l u.uioOffset := hlive ▸ mem_cons_self
    obtain ⟨hmem, hdlive⟩ := mem_filter.mp hd
    simp only [wp_bind, wp_assert, wp_attempt, wp_onSnd]
    refine ⟨fun hterm => ?_, hp d (mem_of_mem_drop hmem) (by simpa using hdlive)⟩
    have hname : (cString d.sfdName.toList).1 = d.name.1 := by
      rw [SfsDir.cString_of_terminated hterm]
    rw [hname]
    have hroom : d.name.1.length ≤ u.uioResid := d.length_name_le.trans hu.room
    refine (uiomove_valid (u := { u with uioOffset := k }) hu.covered hu.valid hroom).post_ok ?_
    intro _ u' htook
    rw [wp_modify, offOfInt_nat (by omega)]
    refine ⟨d, hlive, hlt, rfl, ?_⟩
    have hout : ({ u with uioOffset := k } : Uio).outOf d.name.1 = d.name.1 := by
      simp [Uio.outOf, hu.rw]
    rw [← hout]
    exact htook.moved
  · rintro e st ⟨rfl, hnil, k, hk, hlt, rfl⟩
    exact ⟨rfl, hnil, liveFrom_nil_mono hnil hk, hlt.le, rfl, rfl⟩

/-- After `n` calls of `sfs_getdirentry`, the first with the offset 0 and each other one with the
offset that the one before has left, the volume and that offset. -/
inductive DirCalls (v : Nat) (s₀ : DirFs) : Nat → DirFs → Nat → Prop
  | start : DirCalls v s₀ 0 s₀ 0
  | next {n off : Nat} {s s' : DirFs} {u u' : Uio} {r : Except Errno Unit}
      (h : DirCalls v s₀ n s off) (hu : u.Ready) (hoff : u.uioOffset = off)
      (hcall : sfsGetdirentry v (s, u) = some (r, (s', u'))) : DirCalls v s₀ (n + 1) s' u'.uioOffset

theorem DirCalls.left {s₀ : DirFs} {n off : Nat} (hdir : IsDir s₀ v l)
    (hfits : (s₀.fs.heap v).svI.Fits) (h : DirCalls v s₀ n s off) :
    s = s₀ ∧ off ≤ l.length ∧ liveFrom l off = (liveFrom l 0).drop n := by
  induction h with
  | start => exact ⟨rfl, Nat.zero_le _, rfl⟩
  | @next n off s s' u u' r h hu hoff hcall ih =>
    obtain ⟨rfl, hle, hleft⟩ := ih
    subst hoff
    have hspec := sfsGetdirentry_spec (p := True) hdir hfits (fun _ _ _ _ => trivial) hu hle
    rw [← drop_drop, ← hleft]
    cases r with
    | ok _ =>
      obtain ⟨d, hd⟩ := hspec.of_ok hcall
      refine ⟨hd.same, hd.inside, ?_⟩
      rw [hd.next]
      rfl
    | error e =>
      obtain ⟨-, hends⟩ := hspec.of_error hcall
      refine ⟨hends.same, hends.inside, ?_⟩
      rw [hends.none, hends.still]
      rfl

/-- What a call returns for the name it is to read. -/
def dirResult : Option CString → Except Errno Unit
  | some _ => .ok ()
  | none => .error .enoent

/-- What it moves to the uio. -/
def dirBytes : Option CString → List Byte
  | some name => name.1
  | none => []

/-- A directory with a free slot, and behind it the entry of the parent. -/
def listedDir : DirFs where
  fs :=
    { sfsSuper := ⟨sfsMagic, 8, 0⟩
      sfsSuperdirty := false
      sfsDevice := ⟨8, by decide, fun _ => 0, fun _ => true, []⟩
      sfsVnodes := [0]
      sfsFreemap := ⟨4096, fun _ => 0xff⟩
      sfsFreemapdirty := false
      sfsRcache := fun _ => ⟨0, -1, -1⟩
      heap := fun _ => ⟨vnodeInit, ⟨128, .dir, 1, fun _ => 1, 0⟩, 3, false⟩
      nextVnode := 1
      kmallocOk := fun _ => true
      random := fun _ => 0 }
  slots := fun _ => [.zero, .make 1 dotdot]

end Calls

/-! ## 4. The system call -/

/-- Descriptor `fd` of thread `t` is open, and its vnode is `v`. -/
def FdSys.OpenAt (files : FdSys) (t : Nat) (fd : Int) (v : Nat) : Prop :=
  ∃ (k : Nat) (tab : Nat → Option Nat) (f : Nat) (file : File), fd = k ∧
    files.fdesc t = some tab ∧ tab k = some f ∧ files.file f = some file ∧ file.vnode = some v

section Syscall

variable {p : Prop} {l : List SfsDir} {s : DirFs} {v t : Nat} {fd : Int} {files : FdSys}
  {buf : List Byte}

theorem wp_getFiletab (hopen : files.OpenAt t fd v) {Q : Nat → FdSys → Prop}
    {E : Errno → FdSys → Prop} (hQ : Q v files) : Wp p (getFiletab t fd) Q E files := by
  obtain ⟨k, tab, f, file, rfl, htab, hf, hfile, hv⟩ := hopen
  simp only [getFiletab, derefTable, derefFile, wp_bind, wp_get, wp_pure, htab, hf, hfile, hv]
  exact hQ

/-- **One system call** on a descriptor of the directory: the FIRST live name is stored, and 0 is
returned; or the call fails if there is none. -/
theorem sysGetdirentry_spec (hopen : files.OpenAt t fd v)
    (hdir : IsDir s v l) (hfits : (s.fs.heap v).svI.Fits)
    (hp : ∀ d ∈ l, d.Live → ¬ d.Terminated → p) (hbuf : 60 ≤ buf.length) :
    Wp p (sysGetdirentry t fd buf)
      (fun r st => st = (files, s) ∧ ∃ name ∈ (liveNames l)[0]?, r = (0, name.1))
      (fun e st => st = (files, s) ∧ e = .enoent ∧ liveNames l = []) (files, s) := by
  have hready : (uioKinit buf 0 .read).Ready :=
    ⟨rfl, uioKinit_covered _ _ _, nofun, Nat.le_of_succ_le hbuf⟩
  rw [sysGetdirentry, wp_bind, wp_onFst]
  refine wp_getFiletab hopen ?_
  rw [wp_bind, wp_onSnd, wp_withLocal, wp_attempt]
  simp only [vopGetdirentry, onVolume, vnodeAt, wp_bind, wp_onFst, wp_zoom,
    wp_get, wp_pure, hdir.type, if_true]
  refine (sfsGetdirentry_spec hdir hfits hp hready (Nat.zero_le _)).imp ?_ ?_
  · rintro _ ⟨_, u'⟩ ⟨d, hd⟩
    obtain rfl := hd.same
    refine ⟨rfl, d.name, ?_, ?_⟩
    · have hnext : liveFrom l 0 = d :: _ := hd.next
      rw [liveNames, hnext]
      rfl
    · rw [hd.moved]
      rfl
  · rintro e ⟨_, u'⟩ ⟨rfl, hends⟩
    obtain rfl := hends.same
    have hnone : liveFrom l 0 = [] := hends.none
    refine wp_fail.mpr ⟨rfl, rfl, ?_⟩
    rw [liveNames, hnone]
    rfl

/-- After `n` system calls, with buffers of at least 60 bytes. -/
inductive SysCalls (t : Nat) (fd : Int) (st₀ : FdSys × DirFs) : Nat → FdSys × DirFs → Prop
  | start : SysCalls t fd st₀ 0 st₀
  | next {n : Nat} {st st' : FdSys × DirFs} {buf : List Byte} {r : Except Errno (Int × List Byte)}
      (h : SysCalls t fd st₀ n st) (hbuf : 60 ≤ buf.length)
      (hcall : sysGetdirentry t fd buf st = some (r, st')) : SysCalls t fd st₀ (n + 1) st'

/-- What the call is to return for a name: the name, and its length; and 0 if there is none. -/
def ReturnsName : Option CString → Except Errno (Int × List Byte) → Prop
  | some name, r => r = .ok (name.strlen, name.1)
  | none, r => ∃ bytes, r = .ok (0, bytes)

/-- Successive calls return the names one by one. -/
def SyscallEnumerates (t : Nat) (fd : Int) (st₀ : FdSys × DirFs) (names : List CString) : Prop :=
  ∀ (n : Nat) (st : FdSys × DirFs) (buf : List Byte), SysCalls t fd st₀ n st → 60 ≤ buf.length →
    ∃ r st', sysGetdirentry t fd buf st = some (r, st') ∧ ReturnsName names[n]? r

theorem SysCalls.eq {n : Nat} {st : FdSys × DirFs} (hopen : files.OpenAt t fd v)
    (hdir : IsDir s v l) (hfits : (s.fs.heap v).svI.Fits)
    (h : SysCalls t fd (files, s) n st) : st = (files, s) := by
  induction h with
  | start => rfl
  | @next n st st' buf r h hbuf hcall ih =>
    rw [ih] at hcall
    have hspec := sysGetdirentry_spec (p := True) hopen hdir hfits (fun _ _ _ _ => trivial) hbuf
    cases r with
    | ok x => exact (hspec.of_ok hcall).1
    | error e => exact (hspec.of_error hcall).1

theorem SfsDir.terminated_of_empty {d : SfsDir} (h : d.name.strlen = 0) : d.Terminated := by
  have hlen : 0 < (d.sfdName.toList.take (sfsNamelen - 1)).length := by
    simp [sfsNamelen, Bytes.length_toList]
  have hnil : (d.sfdName.toList.take (sfsNamelen - 1)).takeWhile (· ≠ 0) = [] :=
    eq_nil_of_length_eq_zero h
  have hzero := takeWhile_eq_nil_iff.mp hnil hlen
  refine mem_of_mem_take (i := sfsNamelen - 1) ?_
  have hmem := getElem_mem hlen
  have h0 : (d.sfdName.toList.take (sfsNamelen - 1))[0] = 0 := by simpa using hzero
  rwa [h0] at hmem

/-- A thread that has opened the directory as descriptor 3. -/
def listingThread : FdSys where
  fdesc := fun _ => some fun fd => if fd = 3 then some 0 else none
  file := fun _ => some ⟨some 0, 0, 0⟩
  vnode := fun _ => some vnodeInit
  newLock := none

theorem listingThread_openAt : listingThread.OpenAt 0 3 0 :=
  ⟨3, _, 0, _, rfl, rfl, rfl, rfl, rfl⟩

end Syscall

end Os161
