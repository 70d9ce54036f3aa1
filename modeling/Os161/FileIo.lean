/-
# `kern/syscall/file.c`: failed opens, and what `read` and `write` move

`sys_open` allocates a block for the name and a File, and enters the File into the table before it
calls `vfs_open`.  It gives them back only when it succeeds (`open_undone_iff`).

`sys_read` and `sys_write` move bytes through a block of the heap that nobody has cleared.  `write`
copies in as many bytes as `strlen` finds in that block, and up to the first zero of the user; the
rest that it hands to the vnode is what WAS in the block (`write_delivers_iff`).  `read` copies out
the whole block, however little the vnode has put there (`read_private_iff`).
-/
import Os161.FileTable
import Os161.Syscall

namespace Os161

open List

open Function User

/-! ## 1. `sys_open` -/

/-- The descriptors, and the number of blocks that hold the name of a file. -/
abbrev OpenProg := Prog Errno (FdSys × Nat)

/-- `sys_open` with the block for the name.  What `copyinstr` returns is ignored: whatever is in the
block is what `vfs_open` gets, so the user's pointer shows only in what that returns. -/
def sysOpenNamed (t flags : Nat) (fname : Bool) (mem : Option Nat) (opened : Except Errno Nat)
    (junk : File) : OpenProg Nat :=
  if fname = false then fail .enomem
  else do
    modify fun s => (s.1, s.2 + 1)
    let fd ← onFst (sysOpen t flags fname mem opened junk)
    -- `kfree(fname)`
    modify fun s => (s.1, s.2 - 1)
    pure fd

/-- If `sys_open` fails, then every slot is as before, nothing that it has allocated is still
allocated, and the next open gets the slot that it would have got. -/
def OpenUndone (t flags : Nat) (fname : Bool) (mem : Option Nat) (opened : Except Errno Nat)
    (junk : File) (s : FdSys × Nat) : Prop :=
  ∀ e s', sysOpenNamed t flags fname mem opened junk s = some (.error e, s') →
    s'.1.fdesc = s.1.fdesc ∧ s'.1.file = s.1.file ∧ s'.2 = s.2 ∧
      (s'.1.fdesc t).bind emptyFd = (s.1.fdesc t).bind emptyFd

section Open

variable {t flags : Nat} {fname : Bool} {mem : Option Nat} {opened : Except Errno Nat} {junk : File}
  {s : FdSys × Nat} {tab : Nat → Option Nat}

/-- **`sys_open`**: it fails with no memory for the name, or without giving the name back. -/
theorem sysOpenNamed_spec (htab : s.1.fdesc t = some tab) :
    Wp False (sysOpenNamed t flags fname mem opened junk)
      (fun _ _ => (∃ fd, emptyFd tab = some fd) ∧ mem ≠ none ∧ ∃ v, opened = .ok v)
      (fun _ s' => fname = false ∧ s' = s ∨ fname ≠ false ∧ s'.2 = s.2 + 1 ∧
        ¬ ((∃ fd, emptyFd tab = some fd) ∧ mem ≠ none ∧ ∃ v, opened = .ok v)) s := by
  rw [sysOpenNamed, wp_ite]
  refine ⟨fun hno => wp_fail.mpr (.inl ⟨hno, rfl⟩), fun hname => ?_⟩
  rw [wp_bind, wp_modify, wp_bind, wp_onFst, sysOpen, if_neg hname, wp_bind, wp_derefTable htab]
  cases emptyFd tab with
  | none => exact wp_fail.mpr (.inr ⟨hname, rfl, by simp⟩)
  | some fd =>
    rw [wp_bind, wp_setSlot htab]
    cases mem with
    | none => exact wp_fail.mpr (.inr ⟨hname, rfl, by simp⟩)
    | some f =>
      rw [wp_bind, wp_modify]
      cases opened with
      | error e => exact wp_fail.mpr (.inr ⟨hname, rfl, by simp⟩)
      | ok v =>
        simp only [wp_bind, wp_modify, wp_pure]
        exact ⟨⟨fd, rfl⟩, by simp, v, rfl⟩

/-- **When a failed open leaves no trace**: only if there is no memory for the name. -/
theorem open_undone_iff (htab : s.1.fdesc t = some tab) :
    OpenUndone t flags fname mem opened junk s ↔
      fname = false ∨ (∃ fd, emptyFd tab = some fd) ∧ mem ≠ none ∧ ∃ v, opened = .ok v := by
  have hspec : Wp False (sysOpenNamed t flags fname mem opened junk) _ _ s := sysOpenNamed_spec htab
  constructor
  · intro h
    obtain ⟨r, s', hrun⟩ := hspec.returns
    cases r with
    | ok fd => exact .inr (hspec.of_ok hrun)
    | error e =>
      rcases hspec.of_error hrun with ⟨hno, -⟩ | ⟨-, hleak, -⟩
      · exact .inl hno
      · have hsame := (h e s' hrun).2.2.1
        omega
  · intro hcond e s' hrun
    rcases hspec.of_error hrun with ⟨-, rfl⟩ | ⟨hname, -, hno⟩
    · exact ⟨rfl, rfl, rfl, rfl⟩
    · exact absurd hcond (not_or.mpr ⟨hname, hno⟩)

/-- Threads without open files. -/
def freshTable : FdSys × Nat :=
  (⟨fun _ => some fun _ => none, fun _ => none, fun _ => none, none⟩, 0)

/-- An open of a file that does not exist. -/
def openMissing (f : Nat) : OpenProg Unit := do
  let _ ← attempt (sysOpenNamed 0 0 true (some f) (.error .enoent) ⟨none, 0, 0⟩)

/-- An open of one that does. -/
def openOther : OpenProg Nat := sysOpenNamed 0 0 true (some 40) (.ok 5) ⟨none, 0, 0⟩

theorem open_undone_without_memory :
    OpenUndone 0 0 false none (.error .enoent) ⟨none, 0, 0⟩ freshTable :=
  (open_undone_iff (s := freshTable) (t := 0) rfl).mpr (.inl rfl)

theorem failed_opens_fill_table :
    ¬ OpenUndone 0 0 true (some 7) (.error .enoent) ⟨none, 0, 0⟩ freshTable ∧
    (openOther freshTable).map Prod.fst = some (.ok 3) ∧
    ((do forEach openMissing (.range 17); openOther) freshTable).map Prod.fst =
      some (.error .enfile) := by
  refine ⟨fun h => ?_, rfl, ?_⟩
  · exact absurd (h _ _ rfl).2.2.1 (by decide)
  · decide +kernel

end Open

/-! ## 2. `sys_read` and `sys_write` -/

/-- User memory, the open files of the thread, and what `VOP_WRITE` was given: bytes at an
offset. -/
structure FileIo where
  user : UserSpace
  fdesc : Nat → Option File
  given : Option (List Byte × Int)

/-- A program over it. -/
abbrev IoProg := Prog Stop FileIo

/-- The File behind a handle, if it is the handle of an open file. -/
def FileIo.file (s : FileIo) (filehandle : Int) : Option File :=
  if 0 ≤ filehandle ∧ filehandle < maxFiletab then s.fdesc filehandle.toNat else none

def onUser {α : Type} (m : Prog Stop UserSpace α) : IoProg α :=
  zoom FileIo.user (fun s user => { s with user }) m

/-- `fdesc[filehandle]`, where behind the table there is `pid`, which points to no File. -/
def fileAt (filehandle : Int) : IoProg (Option File) := do
  let s ← get
  if 0 ≤ filehandle ∧ filehandle < maxFiletab then pure (s.fdesc filehandle.toNat) else fail .stuck

/-- `fdesc[filehandle]->offset = offset`. -/
def setOffset (filehandle : Int) (f : File) (offset : Int) : IoProg Unit :=
  modify fun s => { s with fdesc := update s.fdesc filehandle.toNat (some { f with offset }) }

/-- `sys_read`.  The lock of the File is taken before the handle is checked, so a handle that is not
open stops the machine.  `junk` is what is in the block that `kmalloc` has returned, and `vopRead`
what the vnode puts there. -/
def sysReadFile (filehandle : Int) (buf size : Nat) (junk : List Byte)
    (vopRead : Int → Nat → Except Errno (List Byte)) : IoProg Nat := do
  match ← fileAt filehandle with
  | none => fail .stuck
  | some f =>
    -- O_RDONLY and O_RDWR: the test never fails
    if ¬ (f.flags ≠ 0 ∨ f.flags ≠ 2) then fail (.errno .einval)
    else
      match vopRead f.offset size with
      | .error e => fail (.errno e)
      | .ok data => do
        let resid := size - data.length
        setOffset filehandle f (f.offset + data.length)
        let _ ← attempt (onUser (copyout (data ++ junk.drop data.length) buf))
        pure (size - resid)

/-- `sys_write`.  `junk` is what is in memory from the block on that `kmalloc` has returned, and
`vopWrite` says how many bytes the vnode accepts. -/
def sysWriteFile (filehandle : Int) (buf size : Nat) (junk : List Byte)
    (vopWrite : List Byte → Int → Except Errno Nat) : IoProg Nat :=
  if filehandle < 0 ∨ filehandle > maxFiletab then fail (.errno .ebadf)
  else do
    match ← fileAt filehandle with
    | none => fail (.errno .ebadf)
    | some f =>
      if ¬ (f.flags ≠ 1 ∨ f.flags ≠ 2) then fail (.errno .einval)
      -- `strlen` runs through all of memory
      else if (0 : Byte) ∉ junk then fail .stuck
      else do
        let r ← onUser (copyinstr buf junk (Backend.strlen junk))
        let buffer := r.1.take size
        modify fun s => { s with given := some (buffer, f.offset) }
        match vopWrite buffer f.offset with
        | .error e => fail (.errno e)
        | .ok k => do
          let resid := size - k
          setOffset filehandle f (f.offset + k)
          pure (size - resid)

variable {s : FileIo} {filehandle : Int} {f : File}

theorem FileIo.file_eq (h : s.file filehandle = some f) :
    (0 ≤ filehandle ∧ filehandle < maxFiletab) ∧ s.fdesc filehandle.toNat = some f := by
  rw [FileIo.file] at h
  split_ifs at h with hin
  exact ⟨hin, h⟩

theorem onUser_run {α : Type} {m : Prog Stop UserSpace α} {r : Except Stop α} {u : UserSpace}
    (h : m s.user = some (r, u)) : onUser m s = some (r, { s with user := u }) := by
  rw [onUser, zoom, h]

theorem fileAt_run (h : s.file filehandle = some f) :
    fileAt filehandle s = some (.ok (some f), s) := by
  obtain ⟨hin, hf⟩ := FileIo.file_eq h
  rw [fileAt, Prog.bind_ok (m := get) rfl, if_pos hin, hf]
  rfl

/-- Every handle is open, and every byte of user memory is a seven. -/
def sevens : FileIo := ⟨start fun _ => some 7, fun _ => some ⟨some 0, 2, 0⟩, none⟩

/-! ## 3. What `write` delivers -/

/-- If `sys_write` returns, the vnode was given the user's bytes at the offset of the descriptor,
and the number returned and the advance of the offset are what it has accepted. -/
def WriteDelivers (filehandle : Int) (buf : Nat) (junk data : List Byte) (f : File) (s : FileIo) :
    Prop :=
  ∀ vopWrite : List Byte → Int → Except Errno Nat,
    (∀ l off k, vopWrite l off = .ok k → k ≤ l.length) →
    ∀ n s', sysWriteFile filehandle buf data.length junk vopWrite s = some (.ok n, s') →
      s'.given = some (data, f.offset) ∧ vopWrite data f.offset = .ok n ∧
        s'.file filehandle = some { f with offset := f.offset + n }

/-- Byte `i` of the user is copied: `strlen` has found that much in the block, and the user has no
zero before. -/
def Copied (junk data : List Byte) (i : Nat) : Prop :=
  i < Backend.strlen junk ∧ ∀ j < i, data[j]? ≠ some 0

section Write

open Classical

variable {filehandle : Int} {buf : Nat} {junk data : List Byte} {f : File} {s : FileIo}

theorem copystrIn_bytes {err : Errno} (n : Nat) : ∀ (p : Nat) (data : List Byte) (s : UserSpace),
    bytesAt s.mem p data.length = some data →
    Wp True (copystrIn err p n) (fun r _ => ∀ i < data.length,
      (i < r.1.length ↔ i < n ∧ ∀ j < i, data[j]? ≠ some 0) ∧
        (i < r.1.length → r.1[i]? = data[i]?)) (fun _ _ => True) s := by
  induction n with
  | zero =>
    intro p data s _
    rw [copystrIn, wp_pure]
    exact fun i _ => by simp
  | succ n ih =>
    intro p data s hdata
    cases data with
    | nil => exact .of_forall (fun _ _ i hi => absurd hi (Nat.not_lt_zero i)) fun _ _ => trivial
    | cons b data =>
      obtain ⟨hb, hrest⟩ : s.mem p = some b ∧ bytesAt s.mem (p + 1) data.length = some data := by
        rw [length_cons, bytesAt] at hdata
        cases hp : s.mem p with
        | none => simp [hp] at hdata
        | some c =>
          cases hr : bytesAt s.mem (p + 1) data.length with
          | none => simp [hp, hr] at hdata
          | some l => simpa [hp, hr] using hdata
      rw [copystrIn, wp_bind, wp_attempt, wp_userLoad]
      refine ⟨fun c hc => ?_, fun hno => absurd (hb.symm.trans hno) (by simp)⟩
      obtain rfl : b = c := Option.some.inj (hb.symm.trans hc)
      rw [wp_ite]
      refine ⟨fun hz => wp_pure.mpr fun i _ => ?_, fun hz => ?_⟩
      · -- the zero is the last byte that is copied
        cases i with
        | zero => simp
        | succ i => simpa using fun _ => ⟨0, by omega, by simp [hz]⟩
      · refine (ih (p + 1) data (s.touch p) hrest).bind fun r _ hr => ?_
        rw [wp_pure]
        intro i hi
        cases i with
        | zero => simp
        | succ i =>
          obtain ⟨hlen, hget⟩ := hr i (Nat.lt_of_succ_lt_succ hi)
          have hall : (∀ j < i + 1, (b :: data)[j]? ≠ some 0) ↔ ∀ j < i, data[j]? ≠ some 0 := by
            rw [Nat.forall_lt_succ_left]
            simpa using fun _ => hz
          simp only [length_cons, Nat.add_lt_add_iff_right, getElem?_cons_succ, hall]
          exact ⟨hlen, hget⟩

theorem copycheck_fits {p len i : Nat} (hi : i < len) (hp : p + i < userspaceTop)
    (hlen : len ≤ userspaceTop) : ∃ stoplen, copycheck p len = .ok stoplen ∧ i < stoplen := by
  unfold copycheck addresses userspaceTop at *
  dsimp only
  have htop : (p + len + (0x100000000 - 1)) % 0x100000000 = p + len - 1 := by omega
  rw [htop, if_neg (by omega), if_neg (by omega)]
  split_ifs
  · exact ⟨_, rfl, by omega⟩
  · exact ⟨_, rfl, hi⟩

/-- **What `copyinstr` leaves in the block**: bytes of the user, and bytes that were there. -/
theorem copyinstr_bytes {u : UserSpace} (hdata : bytesAt u.mem buf data.length = some data)
    (hin : buf + data.length ≤ userspaceTop) (hmax : junk.length ≤ userspaceTop) :
    Wp True (copyinstr buf junk (Backend.strlen junk)) (fun r _ => junk.length ≤ r.1.length ∧
      ∀ i < data.length, r.1[i]? = if Copied junk data i then data[i]? else junk[i]?)
      (fun _ _ => True) u := by
  have hstr : Backend.strlen junk ≤ userspaceTop :=
    (takeWhile_sublist _).length_le.trans hmax
  have hfits := fun i (hi : i < data.length) (hc : Copied junk data i) =>
    copycheck_fits (p := buf) hc.1 (by omega) hstr
  rw [copyinstr, wp_bind, wp_modify]
  cases hc : copycheck buf (Backend.strlen junk) with
  | error e =>
    refine wp_pure.mpr ⟨le_rfl, fun i hi => ?_⟩
    rw [if_neg fun hcop => ?_]
    obtain ⟨stoplen, hok, -⟩ := hfits i hi hcop
    cases hc.symm.trans hok
  | ok stoplen =>
    refine (copystrIn_bytes _ buf data (u.note _) hdata).bind fun r _ hr => ?_
    rw [wp_pure]
    refine ⟨by simp; omega, fun i hi => ?_⟩
    obtain ⟨hlen, hget⟩ := hr i hi
    have hcop : i < r.1.length ↔ Copied junk data i := by
      rw [hlen, lt_min_iff]
      refine ⟨fun h => ⟨h.1.1, h.2⟩, fun h => ⟨⟨h.1, ?_⟩, h.2⟩⟩
      obtain ⟨stoplen', hok, hlt⟩ := hfits i hi h
      obtain rfl : stoplen = stoplen' := Except.ok.inj (hc.symm.trans hok)
      exact hlt
    by_cases h : i < r.1.length
    · rw [if_pos (hcop.mp h), getElem?_append_left h, hget h]
    · rw [if_neg (h ∘ hcop.mpr), getElem?_append_right (by omega), getElem?_drop]
      congr 1
      omega

theorem sysWriteFile_run (hopen : s.file filehandle = some f)
    (hdata : bytesAt s.user.mem buf data.length = some data)
    (hin : buf + data.length ≤ userspaceTop) (hlen : data.length ≤ junk.length)
    (hmax : junk.length ≤ userspaceTop) (hzero : (0 : Byte) ∈ junk) :
    ∃ buffer u, buffer.length = data.length ∧
      (∀ i < data.length, buffer[i]? = if Copied junk data i then data[i]? else junk[i]?) ∧
      ∀ vopWrite, sysWriteFile filehandle buf data.length junk vopWrite s =
        match vopWrite buffer f.offset with
        | .error e => some (.error (.errno e), ⟨u, s.fdesc, some (buffer, f.offset)⟩)
        | .ok k => some (.ok (data.length - (data.length - k)),
          ⟨u, update s.fdesc filehandle.toNat (some { f with offset := f.offset + k }),
            some (buffer, f.offset)⟩) := by
  have haddr : userspaceTop < addresses := by
    unfold userspaceTop addresses
    omega
  have hstr : Backend.strlen junk ≤ addresses :=
    ((takeWhile_sublist _).length_le.trans hmax).trans haddr.le
  have hcopy : Wp False (copyinstr buf junk (Backend.strlen junk)) (fun r _ =>
      junk.length ≤ r.1.length ∧
        ∀ i < data.length, r.1[i]? = if Copied junk data i then data[i]? else junk[i]?)
      (fun _ _ => False) s.user :=
    ((copyinstr_spec (by omega) hstr).also (copyinstr_bytes hdata hin hmax)).imp
      (fun _ _ h => h.2) fun _ _ h => h.1
  obtain ⟨r, u, hrun, hle, hbytes⟩ := hcopy.exists_ok
  refine ⟨r.1.take data.length, u, by simp; omega, fun i hi => ?_, fun vopWrite => ?_⟩
  · rw [getElem?_take_of_lt hi, hbytes i hi]
  · obtain ⟨hin, -⟩ := FileIo.file_eq hopen
    rw [sysWriteFile, if_neg (by omega), Prog.bind_ok (fileAt_run hopen)]
    dsimp only
    rw [if_neg (by omega), if_neg (not_not.mpr hzero), Prog.bind_ok (onUser_run hrun),
      Prog.bind_ok (m := modify _) rfl]
    cases vopWrite (r.1.take data.length) f.offset with
    | error e => rfl
    | ok k => exact Prog.bind_ok (m := setOffset _ _ _) rfl

/-- **When `write` delivers the caller's bytes**: what is not copied happens to be in the block, or
`strlen` does not come back. -/
theorem write_delivers_iff (hopen : s.file filehandle = some f)
    (hdata : bytesAt s.user.mem buf data.length = some data)
    (hin : buf + data.length ≤ userspaceTop) (hlen : data.length ≤ junk.length)
    (hmax : junk.length ≤ userspaceTop) :
    WriteDelivers filehandle buf junk data f s ↔
      (0 : Byte) ∉ junk ∨ ∀ i < data.length, ¬ Copied junk data i → junk[i]? = data[i]? := by
  by_cases hzero : (0 : Byte) ∈ junk
  swap
  · refine iff_of_true (fun vopWrite _ n s' hcall => ?_) (.inl hzero)
    obtain ⟨hin, -⟩ := FileIo.file_eq hopen
    rw [sysWriteFile, if_neg (by omega), Prog.bind_ok (fileAt_run hopen)] at hcall
    dsimp only at hcall
    rw [if_neg (by omega), if_pos hzero] at hcall
    cases hcall
  obtain ⟨buffer, u, hbuflen, hbytes, hrun⟩ := sysWriteFile_run hopen hdata hin hlen hmax hzero
  rw [or_iff_right (not_not.mpr hzero)]
  constructor
  · intro h i hi hnot
    have hfull := hrun fun l _ => .ok l.length
    obtain ⟨hgiven, -⟩ :=
      h (fun l _ => .ok l.length) (fun l _ k hk => (Except.ok.inj hk).ge) _ _ hfull
    obtain ⟨rfl, -⟩ := Prod.mk.inj (Option.some.inj hgiven)
    rw [hbytes i hi, if_neg hnot]
  · intro hcond vopWrite hvop n s' hcall
    obtain rfl : buffer = data := by
      refine ext_getElem? fun i => ?_
      by_cases hi : i < data.length
      · rw [hbytes i hi]
        split_ifs with hc
        · rfl
        · exact hcond i hi hc
      · rw [getElem?_eq_none (by omega), getElem?_eq_none (by omega)]
    rw [hrun] at hcall
    cases hv : vopWrite buffer f.offset with
    | error e => simp [hv] at hcall
    | ok k =>
      have hk := hvop _ _ k hv
      simp only [hv] at hcall
      cases hcall
      rw [Nat.sub_sub_self hk]
      exact ⟨rfl, rfl, (if_pos (FileIo.file_eq hopen).1).trans (update_self _ _ _)⟩

/-- Three bytes, and a block with three bytes before its zero. -/
theorem write_delivers_three :
    WriteDelivers 3 100 [1, 2, 3, 0] [7, 7, 7] ⟨some 0, 2, 0⟩ sevens := by
  refine (write_delivers_iff rfl rfl (by simp [userspaceTop]) (by simp)
    (by simp [userspaceTop])).mpr (.inr fun i hi hnot => absurd ⟨?_, fun j hj => ?_⟩ hnot)
  · exact Nat.lt_of_lt_of_eq hi (by decide)
  · have hall : ∀ j < 3, ([7, 7, 7] : List Byte)[j]? ≠ some 0 := by decide
    exact hall j (hj.trans hi)

/-- The block starts with a zero, and that is what the vnode is given. -/
theorem write_delivers_stale : ¬ WriteDelivers 3 100 [0] [7] ⟨some 0, 2, 0⟩ sevens := by
  intro h
  have hopen : sevens.file 3 = some ⟨some 0, 2, 0⟩ := rfl
  have hdata : bytesAt sevens.user.mem 100 ([7] : List Byte).length = some [7] := rfl
  have hzero : (0 : Byte) ∈ [0] := mem_singleton_self 0
  obtain ⟨buffer, u, -, hbytes, hrun⟩ := sysWriteFile_run hopen hdata (by simp [userspaceTop])
    (by simp) (by simp [userspaceTop]) hzero
  have hgiven := (h (fun l _ => .ok l.length) (fun l _ k hk => (Except.ok.inj hk).ge) _ _
    (hrun _)).1
  obtain ⟨rfl, -⟩ := Prod.mk.inj (Option.some.inj hgiven)
  have hnot : ¬ Copied [0] [7] 0 := fun hc => absurd hc.1 (by decide)
  have hfirst := hbytes 0 (by simp)
  rw [if_neg hnot] at hfirst
  exact absurd hfirst (by decide)

end Write

/-! ## 4. What `read` lets out -/

/-- What is in memory after `copyout`, up to the first hole. -/
def stored (mem : Nat → Option Byte) (p : Nat) : List Byte → Nat → Option Byte
  | [] => mem
  | b :: l => if mem p = none then mem else stored (update mem p (some b)) (p + 1) l

/-- The user's memory after `sys_read` does not depend on what was in the heap, and what is behind
the number of bytes returned is as it was. -/
def ReadPrivate (filehandle : Int) (buf size : Nat)
    (vopRead : Int → Nat → Except Errno (List Byte)) (s : FileIo) : Prop :=
  ∀ junk junk' : List Byte, junk.length = size → junk'.length = size → ∀ r s₁ r' s₁',
    sysReadFile filehandle buf size junk vopRead s = some (r, s₁) →
    sysReadFile filehandle buf size junk' vopRead s = some (r', s₁') → s₁.user.mem = s₁'.user.mem ∧
        ∀ n, r = .ok n → ∀ a, a < buf ∨ buf + n ≤ a → s₁.user.mem a = s.user.mem a

/-- What `copyout` leaves in memory. -/
def copiedOut (mem : Nat → Option Byte) (p : Nat) (src : List Byte) : Nat → Option Byte :=
  if p + src.length ≤ userspaceTop then stored mem p src else mem

section Read

variable {filehandle : Int} {buf size : Nat} {vopRead : Int → Nat → Except Errno (List Byte)}
  {f : File} {s : FileIo}

variable {mem : Nat → Option Byte} {p : Nat} {u : UserSpace}

theorem stored_of_outside (l : List Byte) {a : Nat} (ha : a < p ∨ p + l.length ≤ a) :
    stored mem p l a = mem a := by
  induction l generalizing mem p with
  | nil => rfl
  | cons b l ih =>
    rw [length_cons] at ha
    rw [stored]
    split_ifs
    · rfl
    · rw [ih (by omega), update_of_ne (by omega)]

theorem stored_of_hole (l rest : List Byte) {j : Nat} (hj : j ≤ l.length)
    (hole : mem (p + j) = none) : stored mem p (l ++ rest) = stored mem p l := by
  induction l generalizing mem p j with
  | nil =>
    obtain rfl : j = 0 := Nat.le_zero.mp hj
    cases rest with
    | nil => rfl
    | cons b rest => exact if_pos hole
  | cons b l ih =>
    rw [cons_append, stored, stored]
    split_ifs with h0
    · rfl
    · have hj0 : j ≠ 0 := fun h => h0 (by rw [← hole, h, Nat.add_zero])
      rw [length_cons] at hj
      refine ih (j := j - 1) (by omega) ?_
      rw [show p + 1 + (j - 1) = p + j by omega, update_of_ne (by omega), hole]

theorem stored_at (l rest : List Byte) (b : Byte) (h : ∀ j ≤ l.length, mem (p + j) ≠ none) :
    stored mem p (l ++ b :: rest) (p + l.length) = some b := by
  induction l generalizing mem p with
  | nil =>
    have h0 : mem p ≠ none := h 0 le_rfl
    rw [nil_append, stored, if_neg h0, stored_of_outside _ (by simp)]
    exact update_self _ _ _
  | cons c l ih =>
    have h0 : mem p ≠ none := h 0 (Nat.zero_le _)
    rw [cons_append, stored, if_neg h0, length_cons,
      show p + (l.length + 1) = p + 1 + l.length by omega]
    refine ih fun j hj => ?_
    rw [update_of_ne (by omega), show p + 1 + j = p + (j + 1) by omega]
    exact h (j + 1) (Nat.succ_le_succ hj)

theorem storeBlock_stored (l : List Byte) :
    Wp False (storeBlock p l) (fun _ u' => u'.mem = stored u.mem p l)
      (fun _ u' => u'.mem = stored u.mem p l) u := by
  induction l generalizing p u with
  | nil => exact wp_pure.mpr rfl
  | cons b l ih =>
    rw [storeBlock, wp_bind, wp_userStore, stored]
    refine ⟨fun h => ?_, fun h => (if_pos h).symm⟩
    rw [if_neg h]
    exact ih (u := u.write p b)

theorem copycheck_of_le {len : Nat} (h0 : 0 < len) (h : p + len ≤ userspaceTop) :
    copycheck p len = .ok len := by
  unfold copycheck addresses userspaceTop at *
  rw [if_neg (by omega), if_neg (by omega), if_neg (by omega)]

theorem copyout_copiedOut (src : List Byte) (hp : p < addresses) (hlen : src.length < addresses) :
    Wp False (copyout src p) (fun _ u' => u'.mem = copiedOut u.mem p src)
      (fun _ u' => u'.mem = copiedOut u.mem p src) u := by
  have hcheck : Wp False (checkBlock p src.length)
      (fun _ u' => u'.mem = u.mem ∧ copiedOut u.mem p src = stored u.mem p src)
      (fun _ u' => u'.mem = u.mem ∧ copiedOut u.mem p src = u.mem) u := by
    have hspec := checkBlock_spec (P := False) (s := u) hp hlen.le
    cases src with
    | nil =>
      have hsame : copiedOut u.mem p [] = u.mem := by rw [copiedOut, stored, ite_self]
      exact hspec.imp (fun _ _ h => ⟨by rw [h.1]; rfl, hsame⟩) fun _ _ h =>
        ⟨by rw [h.2]; rfl, hsame⟩
    | cons b src =>
      by_cases hle : p + (b :: src).length ≤ userspaceTop
      · rw [checkBlock, wp_bind, wp_modify, copycheck_of_le (by simp) hle]
        dsimp only
        rw [if_neg (not_not.mpr rfl), wp_pure]
        exact ⟨rfl, if_pos hle⟩
      · refine hspec.imp (fun _ _ h => absurd ?_ hle) fun _ _ h => ⟨by rw [h.2]; rfl, if_neg hle⟩
        have := h.2.2 src.length (Nat.lt_succ_self _)
        rw [length_cons]
        omega
  rw [copyout, wp_bind]
  refine hcheck.imp (fun _ u₁ h1 => ?_) fun _ _ h => h.1.trans h.2.symm
  rw [h1.2, ← h1.1]
  exact wp_guarded (storeBlock_stored src) fun _ h => h

section

variable (hopen : s.file filehandle = some f) (hbuf : buf < addresses)
  (hsize : size < addresses)
  (hread : ∀ data, vopRead f.offset size = .ok data → data.length ≤ size)

include hopen hbuf hsize hread

/-- **`sys_read`** copies out all of the block. -/
theorem sysReadFile_spec {junk : List Byte}
    (hjunk : junk.length = size) :
    Wp False (sysReadFile filehandle buf size junk vopRead)
      (fun n s' => ∃ data, vopRead f.offset size = .ok data ∧ n = data.length ∧
        s'.user.mem = copiedOut s.user.mem buf (data ++ junk.drop data.length))
      (fun _ s' => (∀ data, vopRead f.offset size ≠ .ok data) ∧ s'.user.mem = s.user.mem) s := by
  obtain ⟨hin, hf⟩ := FileIo.file_eq hopen
  rw [sysReadFile, fileAt, wp_bind, wp_bind, wp_get, if_pos hin, wp_pure, hf]
  dsimp only
  rw [if_neg (by omega)]
  cases hv : vopRead f.offset size with
  | error e => exact wp_fail.mpr ⟨nofun, rfl⟩
  | ok data =>
    have hle := hread data hv
    have hlen : (data ++ junk.drop data.length).length = size := by
      rw [length_append, length_drop, hjunk]
      omega
    dsimp only
    rw [setOffset, wp_bind, wp_modify, wp_bind, wp_attempt, onUser, wp_zoom]
    refine (copyout_copiedOut _ hbuf (hlen ▸ hsize)).imp ?_ ?_ <;>
    · intro _ u hu
      rw [wp_pure]
      exact ⟨data, rfl, by omega, hu⟩

theorem readPrivate_of_open :
    ReadPrivate filehandle buf size vopRead s ↔
      ∀ data, vopRead f.offset size = .ok data → data.length = size ∨
        userspaceTop < buf + size ∨ ∃ j ≤ data.length, s.user.mem (buf + j) = none := by
  have hspec (junk : List Byte) (hj : junk.length = size) :=
    sysReadFile_spec hopen hbuf hsize hread hj
  have hlen : ∀ data junk : List Byte, data.length ≤ size → junk.length = size →
      (data ++ junk.drop data.length).length = size := fun data junk hd hj => by
    rw [length_append, length_drop, hj]
    omega
  constructor
  · intro hpriv data hv
    by_contra hno
    push Not at hno
    obtain ⟨hshort, hbelow, hmapped⟩ := hno
    have hle := hread data hv
    -- two blocks that differ in every byte
    have hone : ∀ b : Byte, ∃ r s₁, sysReadFile filehandle buf size (.replicate size b) vopRead s =
        some (r, s₁) ∧ s₁.user.mem (buf + data.length) = some b := by
      intro b
      have hone := hspec (.replicate size b) length_replicate
      obtain ⟨r, s₁, hrun⟩ := hone.returns
      refine ⟨r, s₁, hrun, ?_⟩
      cases r with
      | error e => exact absurd hv ((hone.of_error hrun).1 data)
      | ok n =>
        obtain ⟨data', hv', -, hmem⟩ := hone.of_ok hrun
        obtain rfl : data = data' := Except.ok.inj (hv.symm.trans hv')
        have hrest : (replicate size b).drop data.length =
            b :: replicate (size - data.length - 1) b := by
          rw [drop_replicate, ← replicate_succ]
          congr
          omega
        rw [hmem, copiedOut, hlen _ _ hle length_replicate, if_pos (by omega), hrest]
        exact stored_at data _ b hmapped
    obtain ⟨r, s₁, hrun, hmem⟩ := hone 0
    obtain ⟨r', s₁', hrun', hmem'⟩ := hone 1
    have hsame := (hpriv _ _ length_replicate length_replicate r s₁ r' s₁' hrun hrun').1
    rw [hsame, hmem'] at hmem
    exact absurd hmem (by decide)
  · intro hcond
    -- what the block holds does not matter
    have hout : ∀ junk r s₁, junk.length = size →
        sysReadFile filehandle buf size junk vopRead s = some (r, s₁) →
        (s₁.user.mem = match vopRead f.offset size with
          | .ok data => if buf + size ≤ userspaceTop then stored s.user.mem buf data else s.user.mem
          | .error _ => s.user.mem) ∧
        ∀ n, r = .ok n → ∃ data, vopRead f.offset size = .ok data ∧ n = data.length := by
      intro junk r s₁ hj hrun
      cases r with
      | error e =>
        obtain ⟨hno, hmem⟩ := (hspec junk hj).of_error hrun
        refine ⟨?_, nofun⟩
        cases hv : vopRead f.offset size with
        | ok data => exact absurd hv (hno data)
        | error e => exact hmem
      | ok n =>
        obtain ⟨data, hv, rfl, hmem⟩ := (hspec junk hj).of_ok hrun
        refine ⟨?_, fun n hn => ⟨data, hv, (Except.ok.inj hn).symm⟩⟩
        rw [hmem, hv, copiedOut, hlen _ _ (hread data hv) hj]
        split_ifs with hle
        · rcases hcond data hv with hfull | hover | ⟨j, hjle, hole⟩
          · rw [hfull, drop_eq_nil_of_le hj.le, append_nil]
          · omega
          · exact stored_of_hole data _ hjle hole
        · rfl
    intro junk junk' hj hj' r s₁ r' s₁' hrun hrun'
    obtain ⟨hmem, hn⟩ := hout junk r s₁ hj hrun
    refine ⟨hmem.trans (hout junk' r' s₁' hj' hrun').1.symm, fun n hr a ha => ?_⟩
    obtain ⟨data, hv, rfl⟩ := hn n hr
    rw [hmem, hv]
    split_ifs
    · exact stored_of_outside _ ha
    · rfl

end

/-- **When `read` keeps the kernel's memory to itself**: the handle is not open, or the vnode fails
or fills the block, or `copyout` refuses it, or stops at a hole before it gets past what the vnode
has put there. -/
theorem read_private_iff (hbuf : buf < addresses) (hsize : size < addresses)
    (hread : ∀ off data, vopRead off size = .ok data → data.length ≤ size) :
    ReadPrivate filehandle buf size vopRead s ↔
      ∀ f ∈ s.file filehandle, ∀ data, vopRead f.offset size = .ok data → data.length = size ∨
        userspaceTop < buf + size ∨ ∃ j ≤ data.length, s.user.mem (buf + j) = none := by
  cases hopen : s.file filehandle with
  | some f => simpa using readPrivate_of_open hopen hbuf hsize (hread f.offset)
  | none =>
    have hstuck : ∀ junk, sysReadFile filehandle buf size junk vopRead s =
        some (.error .stuck, s) := by
      intro junk
      by_cases hin : 0 ≤ filehandle ∧ filehandle < maxFiletab
      · rw [FileIo.file, if_pos hin] at hopen
        have hfile : fileAt filehandle s = some (.ok none, s) := by
          rw [fileAt, Prog.bind_ok (m := get) rfl, if_pos hin, hopen]
          rfl
        rw [sysReadFile, Prog.bind_ok hfile]
        rfl
      · have hfile : fileAt filehandle s = some (.error .stuck, s) := by
          rw [fileAt, Prog.bind_ok (m := get) rfl, if_neg hin]
          rfl
        rw [sysReadFile, Prog.bind_error hfile]
    refine iff_of_true (fun junk junk' _ _ r s₁ r' s₁' hrun hrun' => ?_) nofun
    cases (hstuck junk).symm.trans hrun
    cases (hstuck junk').symm.trans hrun'
    exact ⟨rfl, nofun⟩

theorem read_private_full : ReadPrivate 3 100 16 (fun _ n => .ok (.replicate n 9)) sevens := by
  refine (read_private_iff (by simp [addresses]) (by simp [addresses]) ?_).mpr ?_
  · intro off data hd
    simp [← Except.ok.inj hd]
  · intro f _ data hd
    exact .inl (by simp [← Except.ok.inj hd])

/-- At the end of the file a byte of the heap goes out. -/
theorem read_private_leak : ¬ ReadPrivate 3 100 1 (fun _ _ => .ok []) sevens := by
  intro h
  have hsame := (h [1] [2] rfl rfl _ _ _ _ rfl rfl).1
  exact absurd (congrFun hsame 100) (by decide)

end Read

end Os161
