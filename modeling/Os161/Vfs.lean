/-
# `kern/vfs`: names, current directories and open files

The VFS layer sits between the system calls and the file systems.  It knows vnodes only by their
counters, their file system (`vn_fs`) and the operations behind them, so the model is over ANY
such operations: `VnodeOps` is the table that `vn_ops` and `struct fs` point to, over a memory `μ`
that the file systems and devices share.  A vnode is named by a `ν`, a mounted file system by a
`φ`.

What the functions of `vfspath.c`, `vfscwd.c` and `vfslookup.c` do besides passing arguments on is
to count references: a name lookup hands one out, and every way out of a call has to give back
what the call took.  The locks are left out here (`Locking.lean` is about them).
-/
import Os161.Lib.CString
import Os161.Vnode

namespace Os161

/-! ## 1. Vnodes and file systems from outside -/

/-- The file types of `kern/stattypes.h`. -/
inductive FileType
  | ifreg | ifdir | iflnk | ififo | ifsock | ifchr | ifblk
  deriving DecidableEq, Repr

/-- The operations on vnodes and file systems, over a memory `μ`. -/
structure VnodeOps (μ ν φ : Type) where
  /-- The counters in the vnode. -/
  counts : μ → ν → Vnode
  setCounts : μ → ν → Vnode → μ
  /-- `vn_fs`; a device has none. -/
  vnFs : ν → Option φ
  vopOpen : ν → BitVec 32 → Prog Errno μ Unit
  vopClose : ν → Prog Errno μ Unit
  vopReclaim : ν → Prog Errno μ Unit
  vopReadlink : ν → Prog Errno (μ × Uio) Unit
  vopGettype : ν → Prog Errno μ FileType
  vopTruncate : ν → Nat → Prog Errno μ Unit
  vopNamefile : ν → Prog Errno (μ × Uio) Unit
  vopCreat : ν → CString → Bool → Nat → Prog Errno μ ν
  vopSymlink : ν → CString → CString → Prog Errno μ Unit
  vopMkdir : ν → CString → Nat → Prog Errno μ Unit
  vopLink : ν → CString → ν → Prog Errno μ Unit
  vopRemove : ν → CString → Prog Errno μ Unit
  vopRmdir : ν → CString → Prog Errno μ Unit
  vopRename : ν → CString → ν → CString → Prog Errno μ Unit
  vopLookup : ν → CString → Prog Errno μ ν
  /-- The parent directory and the last component, for a buffer of so many bytes. -/
  vopLookparent : ν → CString → Nat → Prog Errno μ (ν × CString)
  fsGetvolname : φ → μ → Option CString
  fsGetroot : φ → Prog Errno μ ν

/-- `struct knowndev`. -/
structure Knowndev (ν φ : Type) where
  kdName : CString
  kdRawname : Option CString
  /-- Whether `kd_device` is not `NULL`. -/
  kdDevice : Bool
  kdVnode : ν
  kdFs : Option φ

/-- The state of the VFS layer, as a thread sees it. -/
structure Vfs (μ ν φ : Type) where
  mem : μ
  /-- `curthread->t_cwd`. -/
  cwd : Option ν
  bootfsVnode : Option ν
  knowndevs : List (Knowndev ν φ)
  /-- How often `vnode_decref` has printed its warning about `VOP_RECLAIM`, by vnode. -/
  reclaimWarnings : ν → Nat

variable {μ ν φ α : Type}

/-- A program of the VFS layer. -/
abbrev VfsProg (μ ν φ α : Type) := Prog Errno (Vfs μ ν φ) α

/-- Run a program of a file system. -/
def onMem (m : Prog Errno μ α) : VfsProg μ ν φ α :=
  zoom Vfs.mem (fun s mem => { s with mem }) m

/-- Run a program of a file system that has a uio. -/
def onMemUio (m : Prog Errno (μ × Uio) α) : Prog Errno (Vfs μ ν φ × Uio) α :=
  zoom (fun t => (t.1.mem, t.2)) (fun t x => ({ t.1 with mem := x.1 }, x.2)) m

namespace VnodeOps

variable [DecidableEq ν] (ops : VnodeOps μ ν φ)

/-- The counters of the vnode `v`. -/
def countsOf (s : Vfs μ ν φ) (v : ν) : Vnode := ops.counts s.mem v

/-- Run a program on the counters of `v`. -/
def onCounts (v : ν) (m : Prog Errno Vnode α) : VfsProg μ ν φ α :=
  onMem (zoom (fun mem => ops.counts mem v) (fun mem c => ops.setCounts mem v c) m)

/-- The part of `vnode_check` that is about the vnode's state; it is made before every operation
but `VOP_RECLAIM`. -/
def vnodeCheck (v : ν) : VfsProg μ ν φ Unit := do
  let s ← get
  assert (0 < (ops.countsOf s v).vnRefcount)

/-- Call an operation of the vnode `v`. -/
def vop (v : ν) (m : Prog Errno μ α) : VfsProg μ ν φ α := do
  ops.vnodeCheck v
  onMem m

/-- `VOP_INCREF`. -/
def vopIncref (v : ν) : VfsProg μ ν φ Unit := ops.onCounts v (modify vnodeIncref)

/-- The second half of `vnode_decref`.  `EBUSY` says that somebody else has taken a reference. -/
def reclaimVnode (v : ν) : VfsProg μ ν φ Unit := do
  match ← attempt (onMem (ops.vopReclaim v)) with
  | .ok _ => pure ()
  | .error e =>
    if e = .ebusy then pure ()
    else modify fun s => { s with
      reclaimWarnings := Function.update s.reclaimWarnings v (s.reclaimWarnings v + 1) }

/-- `VOP_DECREF`. -/
def vopDecref (v : ν) : VfsProg μ ν φ Unit := do
  let doIt ← ops.onCounts v vnodeDecref
  if doIt then ops.reclaimVnode v else pure ()

/-- `VOP_INCOPEN`. -/
def vopIncopen (v : ν) : VfsProg μ ν φ Unit := ops.onCounts v (modify vnodeIncopen)

/-- The call of `VOP_CLOSE` in `vnode_decopen`; an error is a warning only. -/
def closeVnode (v : ν) : VfsProg μ ν φ Unit := do
  let _ ← attempt (ops.vop v (ops.vopClose v))
  pure ()

/-- `VOP_DECOPEN`. -/
def vopDecopen (v : ν) : VfsProg μ ν φ Unit := do
  let last ← ops.onCounts v vnodeDecopen
  if last then ops.closeVnode v else pure ()

/-! ## 2. `vfslist.c`, `vfscwd.c`: where a name starts -/

/-- One entry of the table, in the loop of `vfs_getroot`: `none` is "go on to the next one". -/
def getrootEntry (devname : CString) (kd : Knowndev ν φ) : VfsProg μ ν φ (Option ν) := do
  let s ← get
  match kd.kdFs with
  | some fs =>
    if kd.kdName = devname ∨ ops.fsGetvolname fs s.mem = some devname then do
      let v ← onMem (ops.fsGetroot fs)
      pure (some v)
    else if kd.kdRawname = some devname then do
      assert (kd.kdDevice = true)
      ops.vopIncref kd.kdVnode
      pure (some kd.kdVnode)
    else pure none
  | none =>
    if kd.kdRawname ≠ none ∧ kd.kdName = devname then fail .enxio
    else if kd.kdName = devname ∨ kd.kdRawname = some devname then do
      assert (kd.kdDevice = true)
      ops.vopIncref kd.kdVnode
      pure (some kd.kdVnode)
    else pure none

/-- The loop of `vfs_getroot`. -/
def getrootLoop (devname : CString) : List (Knowndev ν φ) → VfsProg μ ν φ ν
  | [] => fail .enodev
  | kd :: rest => do
    match ← ops.getrootEntry devname kd with
    | some v => pure v
    | none => getrootLoop devname rest

/-- `vfs_getroot`. -/
def vfsGetroot (devname : CString) : VfsProg μ ν φ ν := do
  let s ← get
  ops.getrootLoop devname s.knowndevs

/-- `vfs_getdevname`. -/
def vfsGetdevname [DecidableEq φ] (fs : φ) (s : Vfs μ ν φ) : Option CString :=
  (s.knowndevs.find? fun kd => kd.kdFs = some fs).map Knowndev.kdName

/-- `vfs_getcurdir`. -/
def vfsGetcurdir : VfsProg μ ν φ ν := do
  let s ← get
  match s.cwd with
  | some v => do
    ops.vopIncref v
    pure v
  | none => fail .enoent

/-- `vfs_setcurdir`. -/
def vfsSetcurdir (dir : ν) : VfsProg μ ν φ Unit := do
  let vtype ← ops.vop dir (ops.vopGettype dir)
  if vtype ≠ .ifdir then fail .enotdir
  else do
    ops.vopIncref dir
    let s ← get
    modify fun s => { s with cwd := some dir }
    match s.cwd with
    | some old => ops.vopDecref old
    | none => pure ()

/-! ## 3. `vfslookup.c`: from names to vnodes -/

/-- The character `:`. -/
abbrev colonChar : Byte := 58

/-- The character `/`. -/
abbrev slashChar : Byte := 47

/-- What the first loop of `getdevice` finds: where the first colon or slash is, and which it is. -/
def firstMark (path : CString) : Option (Nat × Byte) :=
  (path.1.findIdx? fun c => c = colonChar ∨ c = slashChar).bind fun i =>
    path.1[i]?.map fun c => (i, c)

/-- `getdevice`, for a path that begins with a slash: the root of the boot file system. -/
def getBootfs : VfsProg μ ν φ ν := do
  let s ← get
  match s.bootfsVnode with
  | some v => do
    ops.vopIncref v
    pure v
  | none => fail .enoent

/-- `getdevice`, for a path that begins with a colon: the root of the current file system. -/
def getCurrentRoot : VfsProg μ ν φ ν := do
  let vn ← ops.vfsGetcurdir
  match ops.vnFs vn with
  | none => halt
  | some fs => do
    let startvn ← onMem (ops.fsGetroot fs)
    ops.vopDecref vn
    pure startvn

/-- `getdevice`: the vnode that a path starts from, and the rest of the path. -/
def getdevice (path : CString) : VfsProg μ ν φ (ν × CString) :=
  match firstMark path with
  | some (0, c) => do
    -- /path is relative to the boot file system, :path to the current one
    let startvn ← if c = slashChar then ops.getBootfs else ops.getCurrentRoot
    pure (startvn, (path.drop 1).skip slashChar)
  | some (i, c) =>
    if c = colonChar then do
      -- device:path, or device:/path
      let startvn ← ops.vfsGetroot (path.take i)
      pure (startvn, (path.drop (i + 1)).skip slashChar)
    else do
      let startvn ← ops.vfsGetcurdir
      pure (startvn, path)
  | none => do
    let startvn ← ops.vfsGetcurdir
    pure (startvn, path)

/-- `vfs_lookparent`. -/
def vfsLookparent (path : CString) (buflen : Nat) : VfsProg μ ν φ (ν × CString) := do
  let (startvn, path) ← ops.getdevice path
  let result ← attempt
    (if path.strlen = 0 then fail .einval
      else ops.vop startvn (ops.vopLookparent startvn path buflen))
  ops.vopDecref startvn
  ofResult result

/-- `vfs_lookup`. -/
def vfsLookup (path : CString) : VfsProg μ ν φ ν := do
  let (startvn, path) ← ops.getdevice path
  if path.strlen = 0 then pure startvn
  else do
    let result ← attempt (ops.vop startvn (ops.vopLookup startvn path))
    ops.vopDecref startvn
    ofResult result

/-! ## 4. `vfspath.c`: calls on names -/

/-- `sizeof(name)`, where `name` is `char [NAME_MAX+1]`. -/
abbrev nameBuflen : Nat := 256

/-- `O_ACCMODE`. -/
abbrev oAccmode : BitVec 32 := 3

/-- `O_CREAT`. -/
abbrev oCreat : BitVec 32 := 4

/-- `O_EXCL`. -/
abbrev oExcl : BitVec 32 := 8

/-- `O_TRUNC`. -/
abbrev oTrunc : BitVec 32 := 16

/-- `vfs_open`, the search for the vnode. -/
def openFind (path : CString) (openflags : BitVec 32) (mode : Nat) : VfsProg μ ν φ ν :=
  if openflags &&& oCreat ≠ 0 then do
    let (dir, name) ← ops.vfsLookparent path nameBuflen
    let result ← attempt
      (ops.vop dir (ops.vopCreat dir name (openflags &&& oExcl ≠ 0) mode))
    ops.vopDecref dir
    ofResult result
  else ops.vfsLookup path

/-- `vfs_open`, `O_TRUNC`. -/
def openTruncate (vn : ν) (canwrite : Bool) : VfsProg μ ν φ Unit :=
  if canwrite then ops.vop vn (ops.vopTruncate vn 0) else fail .einval

/-- `vfs_open`, for the vnode that was found. -/
def openVnode (vn : ν) (openflags : BitVec 32) (canwrite : Bool) : VfsProg μ ν φ ν := do
  match ← attempt (ops.vop vn (ops.vopOpen vn openflags)) with
  | .error e => do
    ops.vopDecref vn
    fail e
  | .ok _ => do
    ops.vopIncopen vn
    match ← attempt
      (if openflags &&& oTrunc ≠ 0 then ops.openTruncate vn canwrite else pure ()) with
    | .error e => do
      ops.vopDecopen vn
      ops.vopDecref vn
      fail e
    | .ok _ => pure vn

/-- `vfs_open`. -/
def vfsOpen (path : CString) (openflags : BitVec 32) (mode : Nat) : VfsProg μ ν φ ν :=
  if openflags &&& oAccmode = oAccmode then fail .einval
  else do
    let vn ← ops.openFind path openflags mode
    ops.openVnode vn openflags (openflags &&& oAccmode ≠ 0)

/-- `vfs_close`. -/
def vfsClose (vn : ν) : VfsProg μ ν φ Unit := do
  ops.vopDecopen vn
  ops.vopDecref vn

/-- The calls that do one operation in the directory that a name is in. -/
def inParent (path : CString) (op : ν → CString → Prog Errno μ Unit) : VfsProg μ ν φ Unit := do
  let (dir, name) ← ops.vfsLookparent path nameBuflen
  let result ← attempt (ops.vop dir (op dir name))
  ops.vopDecref dir
  ofResult result

/-- `vfs_remove`. -/
def vfsRemove (path : CString) : VfsProg μ ν φ Unit := ops.inParent path ops.vopRemove

/-- `vfs_symlink`. -/
def vfsSymlink (contents path : CString) : VfsProg μ ν φ Unit :=
  ops.inParent path fun newdir newname => ops.vopSymlink newdir newname contents

/-- `vfs_mkdir`. -/
def vfsMkdir (path : CString) (mode : Nat) : VfsProg μ ν φ Unit :=
  ops.inParent path fun parent name => ops.vopMkdir parent name mode

/-- `vfs_rmdir`. -/
def vfsRmdir (path : CString) : VfsProg μ ν φ Unit := ops.inParent path ops.vopRmdir

/-- The second half of `vfs_rename` and `vfs_link`: an operation on two vnodes of one file
system, `newdir` and what the first name was translated to. -/
def onSameFs [DecidableEq φ] (old newdir : ν) (op : VfsProg μ ν φ Unit) : VfsProg μ ν φ Unit :=
  if ops.vnFs old = none ∨ ops.vnFs newdir = none ∨ ops.vnFs old ≠ ops.vnFs newdir then do
    ops.vopDecref newdir
    ops.vopDecref old
    fail .exdev
  else do
    let result ← attempt op
    ops.vopDecref newdir
    ops.vopDecref old
    ofResult result

/-- The translation of the second name; what the first was translated to is given back if it
fails. -/
def newParent (old : ν) (newpath : CString) : VfsProg μ ν φ (ν × CString) := do
  match ← attempt (ops.vfsLookparent newpath nameBuflen) with
  | .error e => do
    ops.vopDecref old
    fail e
  | .ok r => pure r

/-- `vfs_rename`. -/
def vfsRename [DecidableEq φ] (oldpath newpath : CString) : VfsProg μ ν φ Unit := do
  let (olddir, oldname) ← ops.vfsLookparent oldpath nameBuflen
  let (newdir, newname) ← ops.newParent olddir newpath
  ops.onSameFs olddir newdir (ops.vop olddir (ops.vopRename olddir oldname newdir newname))

/-- `vfs_link`. -/
def vfsLink [DecidableEq φ] (oldpath newpath : CString) : VfsProg μ ν φ Unit := do
  let oldfile ← ops.vfsLookup oldpath
  let (newdir, newname) ← ops.newParent oldfile newpath
  ops.onSameFs oldfile newdir (ops.vop newdir (ops.vopLink newdir newname oldfile))

/-- `vfs_readlink`. -/
def vfsReadlink (path : CString) : Prog Errno (Vfs μ ν φ × Uio) Unit := do
  let vn ← onFst (ops.vfsLookup path)
  onFst (ops.vnodeCheck vn)
  let result ← attempt (onMemUio (ops.vopReadlink vn))
  onFst (ops.vopDecref vn)
  ofResult result

/-- `vfs_chdir`. -/
def vfsChdir (path : CString) : VfsProg μ ν φ Unit := do
  let vn ← ops.vfsLookup path
  let result ← attempt (ops.vfsSetcurdir vn)
  ops.vopDecref vn
  ofResult result

/-- `vfs_getcwd`, what is moved to the uio: the name of the volume or device, a colon, and the name
of the directory in it. -/
def getcwdMove (cwd : ν) (name : CString) : Prog Errno (Vfs μ ν φ × Uio) Unit := do
  let _ ← onSnd (uiomove name.1)
  let _ ← onSnd (uiomove [colonChar])
  onFst (ops.vnodeCheck cwd)
  onMemUio (ops.vopNamefile cwd)

/-- The name of a file system: of the volume, or of its device. -/
def volumeName [DecidableEq φ] (fs : φ) (s : Vfs μ ν φ) : Option CString :=
  (ops.fsGetvolname fs s.mem).or (vfsGetdevname fs s)

/-- `vfs_getcwd`. -/
def vfsGetcwd [DecidableEq φ] : Prog Errno (Vfs μ ν φ × Uio) Unit := do
  let t ← get
  assert (t.2.uioRw = .read)
  let cwd ← onFst ops.vfsGetcurdir
  let t ← get
  match (ops.vnFs cwd).bind fun fs => ops.volumeName fs t.1 with
  | none => halt
  | some name => do
    let result ← attempt (ops.getcwdMove cwd name)
    onFst (ops.vopDecref cwd)
    ofResult result

end VnodeOps

end Os161
