/-
# Who holds the locks of the file system layer

The file system layer runs under one recursive lock (`vfs_biglock`, counted by `vfs_biglock_depth`),
a lock for the device table (`knowndevs_lock`) and one for the emulator device (`e_lock`).  A
function that takes one of them has to let go of it on every way out.  This module follows the
control flow of the functions that take these locks, exit by exit.  What such a function calls is
given by its OUTCOME, which is an argument: a call succeeds or returns an error number, a test on
the data comes out one way or the other.  A statement for all arguments is then a statement for
every input and every outcome.  The functions that take a lock themselves are called as such.

A panic is no way out, so the outcomes that end in one are left out.  An assertion ON THE LOCKS
stops the model, as it stops the machine.

Most of the functions are in order (`fsCall_balanced_iff`).  Four are not:

* `sfs_lookparent`, for a path with a slash, returns what `sfs_lookup` returns and keeps the big
  lock;
* `sfs_domount` keeps it when one of its four `lock_create`s fails;
* `emufs_loadvnode` keeps it when there is no memory for the vnode;
* `vfs_doadd`, for a name that is taken, releases the big lock, which it never took, and keeps the
  lock of the device table.
-/
import Os161.Lib.Run
import Os161.Uio

namespace Os161

/-! ## 1. The locks -/

/-- The locks, as one thread sees them: does it hold them, and how often the big one. -/
@[ext] structure FsLocks where
  biglock : Bool
  biglockDepth : Nat
  knowndevs : Bool
  emu : Bool
  deriving DecidableEq, Repr

open FsLocks

/-- A program over the locks. -/
abbrev Locked (α : Type) := Prog Errno FsLocks α

/-- The result of a call: an error number, or none. -/
abbrev Outcome := Option Errno

/-- Return the result of a call. -/
def Outcome.toProg : Outcome → Locked Unit
  | none => pure ()
  | some e => fail e

/-- `if (result) { undo; return result; }` -/
def exitOn (result : Outcome) (undo : Locked Unit) : Locked Unit :=
  match result with
  | none => pure ()
  | some e => do
    undo
    fail e

/-- `if (c) { undo; return e; }` -/
def exitIf (c : Bool) (e : Errno) (undo : Locked Unit) : Locked Unit :=
  exitOn (if c then some e else none) undo

/-- The result of a search for a name, if "not found" is no error here. -/
def Outcome.orNoent : Outcome → Outcome
  | some .enoent => none
  | r => r

/-- `vfs_biglock_acquire`: it waits for the lock only if the thread does not have it. -/
def vfsBiglockAcquire : Locked Unit :=
  modify fun s => { s with biglock := true, biglockDepth := s.biglockDepth + 1 }

/-- `vfs_biglock_release`. -/
def vfsBiglockRelease : Locked Unit := do
  let s ← get
  assert (s.biglock = true)
  assert (0 < s.biglockDepth)
  modify fun s => { s with
    biglock := decide (s.biglockDepth - 1 ≠ 0), biglockDepth := s.biglockDepth - 1 }

/-- `lock_acquire(knowndevs_lock)`. -/
def knowndevsAcquire : Locked Unit := do
  let s ← get
  assert (s.knowndevs = false)
  modify fun s => { s with knowndevs := true }

/-- `lock_release(knowndevs_lock)`. -/
def knowndevsRelease : Locked Unit := modify fun s => { s with knowndevs := false }

/-- `lock_acquire(sc->e_lock)`. -/
def emuAcquire : Locked Unit := do
  let s ← get
  assert (s.emu = false)
  modify fun s => { s with emu := true }

/-- `lock_release(sc->e_lock)`. -/
def emuRelease : Locked Unit := modify fun s => { s with emu := false }

/-! ## 2. SFS -/

/-- `sfs_read` and `sfs_write`, with the result of `sfs_io`. -/
def sfsIoLocked (io : Outcome) : Locked Unit := do
  vfsBiglockAcquire
  vfsBiglockRelease
  io.toProg

/-- What happens in an `sfs_truncate`. -/
structure TruncateOutcome where
  /-- Whether the indirect block has to be looked at. -/
  indirect : Bool
  rblock : Outcome
  /-- Whether it has to be written back. -/
  iddirty : Bool
  wblock : Outcome
  deriving DecidableEq, Repr

/-- `sfs_truncate`, the indirect block. -/
def truncateIndirectLocked (o : TruncateOutcome) : Locked Unit :=
  if o.indirect then do
    exitOn o.rblock vfsBiglockRelease
    exitOn (if o.iddirty then o.wblock else none) vfsBiglockRelease
  else pure ()

/-- `sfs_truncate`. -/
def sfsTruncateLocked (o : TruncateOutcome) : Locked Unit := do
  vfsBiglockAcquire
  truncateIndirectLocked o
  vfsBiglockRelease

/-- What happens in an `sfs_reclaim`. -/
structure ReclaimOutcome where
  busy : Bool
  nolinks : Bool
  isdir : Bool
  truncate : TruncateOutcome
  sync : Outcome
  deriving DecidableEq, Repr

/-- `VOP_TRUNCATE` of an SFS vnode. -/
def vopTruncateLocked (o : ReclaimOutcome) : Locked Unit :=
  if o.isdir then fail .eisdir else sfsTruncateLocked o.truncate

/-- `sfs_reclaim`, the truncation of a file without links. -/
def reclaimEraseLocked (o : ReclaimOutcome) : Locked Unit :=
  if o.nolinks then do
    let r ← attempt (vopTruncateLocked o)
    match r with
    | .ok _ => pure ()
    | .error e => exitOn (some e) vfsBiglockRelease
  else pure ()

/-- `sfs_reclaim`. -/
def sfsReclaimLocked (o : ReclaimOutcome) : Locked Unit := do
  vfsBiglockAcquire
  exitIf o.busy .ebusy vfsBiglockRelease
  reclaimEraseLocked o
  exitOn o.sync vfsBiglockRelease
  vfsBiglockRelease

/-- `VOP_DECREF` of an SFS vnode; there is something to reclaim if the reference was the last. -/
def vopDecrefLocked : Option ReclaimOutcome → Locked Unit
  | none => pure ()
  | some o => do
    let _ ← attempt (sfsReclaimLocked o)

/-- `sfs_getroot`. -/
def sfsGetrootLocked : Locked Unit := do
  vfsBiglockAcquire
  vfsBiglockRelease

/-- One round of `sfs_namefile`: the name `..` is looked up, the parent loaded, and the own name
searched for in it. -/
structure NamefileRound where
  findname : Outcome
  loadvnode : Outcome
  nameFromInode : Outcome
  deriving DecidableEq, Repr

/-- `sfs_namefile`, the way up to the root. -/
def namefileLoopLocked : List NamefileRound → Locked Unit
  | [] => pure ()
  | o :: rest => do
    exitOn o.findname.orNoent vfsBiglockRelease
    exitOn o.loadvnode vfsBiglockRelease
    exitOn o.nameFromInode.orNoent vfsBiglockRelease
    namefileLoopLocked rest

/-- `sfs_namefile`. -/
def sfsNamefileLocked (rounds : List NamefileRound) (uiomove : Outcome) : Locked Unit := do
  vfsBiglockAcquire
  sfsGetrootLocked
  namefileLoopLocked rounds
  exitOn uiomove vfsBiglockRelease
  vfsBiglockRelease

/-- `sfs_mkdir`. -/
def sfsMkdirLocked (findname makeobj link linkParent linkSelf : Outcome) : Locked Unit := do
  vfsBiglockAcquire
  exitOn findname.orNoent vfsBiglockRelease
  exitOn makeobj vfsBiglockRelease
  exitOn link vfsBiglockRelease
  exitOn linkParent vfsBiglockRelease
  exitOn linkSelf vfsBiglockRelease
  vfsBiglockRelease

/-- The loop of `sfs_rmdir` over the entries of the victim. -/
def rmdirLoopLocked : List Outcome → Locked Unit
  | [] => pure ()
  | readdir :: rest => do
    exitOn readdir vfsBiglockRelease
    rmdirLoopLocked rest

/-- `sfs_rmdir`. -/
def sfsRmdirLocked (lookonce : Outcome) (isfile : Bool) (readdir : List Outcome) (toomany : Bool)
    (unlink : Outcome) (victim : Option ReclaimOutcome) : Locked Unit := do
  vfsBiglockAcquire
  exitOn lookonce vfsBiglockRelease
  exitIf isfile .enotdir vfsBiglockRelease
  rmdirLoopLocked readdir
  exitIf toomany .enotempty vfsBiglockRelease
  vopDecrefLocked victim
  vfsBiglockRelease
  unlink.toProg

/-- `sfs_creat`, the part after a name that was not found. -/
def creatNewLocked (makeobj link : Outcome) (newguy : Option ReclaimOutcome) : Locked Unit := do
  exitOn makeobj vfsBiglockRelease
  exitOn link (do
    vopDecrefLocked newguy
    vfsBiglockRelease)
  vfsBiglockRelease

/-- `sfs_creat`. -/
def sfsCreatLocked (findname : Outcome) (excl : Bool) (loadvnode makeobj link : Outcome)
    (newguy : Option ReclaimOutcome) : Locked Unit := do
  vfsBiglockAcquire
  exitOn findname.orNoent vfsBiglockRelease
  exitIf (findname = none && excl) .eexist vfsBiglockRelease
  if findname = none then do
    exitOn loadvnode vfsBiglockRelease
    vfsBiglockRelease
  else creatNewLocked makeobj link newguy

/-- `sfs_link`. -/
def sfsLinkLocked (link : Outcome) : Locked Unit := do
  vfsBiglockAcquire
  exitOn link vfsBiglockRelease
  vfsBiglockRelease

/-- `sfs_remove`. -/
def sfsRemoveLocked (lookonce unlink : Outcome) (victim : Option ReclaimOutcome) : Locked Unit := do
  vfsBiglockAcquire
  exitOn lookonce vfsBiglockRelease
  vopDecrefLocked victim
  vfsBiglockRelease
  unlink.toProg

/-- What happens in an `sfs_lookup`. -/
structure LookupOutcome where
  isdir : Bool
  /-- Whether the path has a slash. -/
  slash : Bool
  /-- The `sfs_lookonce` of a path without one. -/
  lookonce : Outcome
  /-- The `sfs_lookonce` of each component of a path with one, and the `VOP_DECREF` after it. -/
  components : List (Outcome × Option ReclaimOutcome)
  deriving DecidableEq, Repr

/-- `sfs_lookup`, the loop over the components. -/
def lookupLoopLocked : List (Outcome × Option ReclaimOutcome) → Locked Unit
  | [] => pure ()
  | (lookonce, sv) :: rest => do
    exitOn lookonce vfsBiglockRelease
    vopDecrefLocked sv
    lookupLoopLocked rest

/-- `sfs_lookup`. -/
def sfsLookupLocked (o : LookupOutcome) : Locked Unit := do
  vfsBiglockAcquire
  exitIf (!o.isdir) .enotdir vfsBiglockRelease
  if o.slash then do
    lookupLoopLocked o.components
    vfsBiglockRelease
  else do
    exitOn o.lookonce vfsBiglockRelease
    vfsBiglockRelease

/-- What happens in an `sfs_lookparent`: `slash` is about the whole path, `lookup` about what is
before the last slash. -/
structure LookparentOutcome where
  isdir : Bool
  toolong : Bool
  slash : Bool
  lookup : LookupOutcome
  deriving DecidableEq, Repr

/-- `sfs_lookparent`.  The last line returns with the lock that the first one took. -/
def sfsLookparentLocked (o : LookparentOutcome) : Locked Unit := do
  vfsBiglockAcquire
  exitIf (!o.isdir) .enotdir vfsBiglockRelease
  exitIf o.toolong .enametoolong vfsBiglockRelease
  if o.slash then sfsLookupLocked o.lookup
  else vfsBiglockRelease

/-- A slot of a directory, as `sfs_getdirentry` finds it. -/
inductive SlotOutcome
  | failed (e : Errno)
  | empty
  | live
  deriving DecidableEq, Repr

/-- The loop of `sfs_getdirentry`; it ends at a live slot, or behind the last one. -/
def getdirentryLoopLocked : List SlotOutcome → Locked Unit
  | [] => exitOn (some .enoent) vfsBiglockRelease
  | .failed e :: _ => exitOn (some e) vfsBiglockRelease
  | .empty :: rest => getdirentryLoopLocked rest
  | .live :: _ => pure ()

/-- `sfs_getdirentry`, with the slots from the offset on.  The result of its `uiomove` is not looked
at. -/
def sfsGetdirentryLocked (slots : List SlotOutcome) : Locked Unit := do
  vfsBiglockAcquire
  getdirentryLoopLocked slots
  vfsBiglockRelease

/-- What happens in an `sfs_domount`. -/
structure DomountOutcome where
  badBlocksize : Bool
  kmalloc : Bool
  vnodearray : Bool
  rblock : Outcome
  badMagic : Bool
  bitmap : Bool
  mapio : Outcome
  vnodesLock : Bool
  bitmapLock : Bool
  bmapLock : Bool
  bcacheLock : Bool
  deriving DecidableEq, Repr

/-- `sfs_domount`.  The exits after a failed `lock_create` undo everything but the lock. -/
def sfsDomountLocked (o : DomountOutcome) : Locked Unit := do
  vfsBiglockAcquire
  exitIf o.badBlocksize .enxio vfsBiglockRelease
  exitIf (!o.kmalloc) .enomem vfsBiglockRelease
  exitIf (!o.vnodearray) .enomem vfsBiglockRelease
  exitOn o.rblock vfsBiglockRelease
  exitIf o.badMagic .einval vfsBiglockRelease
  exitIf (!o.bitmap) .enomem vfsBiglockRelease
  exitOn o.mapio vfsBiglockRelease
  exitIf (!o.vnodesLock) .enomem (pure ())
  exitIf (!o.bitmapLock) .enomem (pure ())
  exitIf (!o.bmapLock) .enomem (pure ())
  exitIf (!o.bcacheLock) .enomem (pure ())
  vfsBiglockRelease

/-! ## 3. Emufs -/

/-- What happens in an `emufs_loadvnode`. -/
structure EmuLoadOutcome where
  found : Bool
  kmalloc : Bool
  init : Outcome
  add : Outcome
  deriving DecidableEq, Repr

/-- Both locks. -/
def emufsRelease : Locked Unit := do
  emuRelease
  vfsBiglockRelease

/-- `emufs_loadvnode`, for a handle that has no vnode yet. -/
def emufsNewVnodeLocked (o : EmuLoadOutcome) : Locked Unit := do
  exitIf (!o.kmalloc) .enomem emuRelease
  exitOn o.init emufsRelease
  exitOn o.add emufsRelease
  emufsRelease

/-- `emufs_loadvnode`. -/
def emufsLoadvnodeLocked (o : EmuLoadOutcome) : Locked Unit := do
  vfsBiglockAcquire
  emuAcquire
  if o.found then emufsRelease else emufsNewVnodeLocked o

/-- `emu_open`. -/
def emuOpenLocked (toolong : Bool) (result : Outcome) : Locked Unit := do
  exitIf toolong .enametoolong (pure ())
  emuAcquire
  emuRelease
  result.toProg

/-- `emu_close`: it may be called with the lock. -/
def emuCloseLocked (result : Outcome) : Locked Unit := do
  let s ← get
  if s.emu then result.toProg
  else do
    emuAcquire
    emuRelease
    result.toProg

/-- What happens in an `emufs_lookup`. -/
structure EmuLookupOutcome where
  toolong : Bool
  open_ : Outcome
  loadvnode : EmuLoadOutcome
  close : Outcome
  deriving DecidableEq, Repr

/-- `emufs_lookup`. -/
def emufsLookupLocked (o : EmuLookupOutcome) : Locked Unit := do
  emuOpenLocked o.toolong o.open_
  let r ← attempt (emufsLoadvnodeLocked o.loadvnode)
  match r with
  | .ok _ => pure ()
  | .error e => do
    let _ ← attempt (emuCloseLocked o.close)
    fail e

/-- What happens in an `emufs_reclaim`. -/
structure EmuReclaimOutcome where
  busy : Bool
  close : Outcome
  deriving DecidableEq, Repr

/-- `emufs_reclaim`. -/
def emufsReclaimLocked (o : EmuReclaimOutcome) : Locked Unit := do
  vfsBiglockAcquire
  emuAcquire
  exitIf o.busy .ebusy emufsRelease
  let r ← attempt (emuCloseLocked o.close)
  match r with
  | .ok _ => emufsRelease
  | .error e => exitOn (some e) emufsRelease

/-! ## 4. The VFS layer -/

/-- The vnode that a lookup starts from, by the file system it belongs to, with what becomes of the
reference to it when it is dropped. -/
inductive StartVnode
  | sfs (reclaim : Option ReclaimOutcome)
  | emufs (reclaim : Option EmuReclaimOutcome)
  | device
  deriving DecidableEq, Repr

/-- `VOP_DECREF`. -/
def StartVnode.decref : StartVnode → Locked Unit
  | .sfs r => vopDecrefLocked r
  | .emufs none => pure ()
  | .emufs (some o) => do
    let _ ← attempt (emufsReclaimLocked o)
  | .device => pure ()

/-- `FSOP_GETROOT`. -/
def StartVnode.getroot : StartVnode → Locked Unit
  | .sfs _ => sfsGetrootLocked
  | _ => pure ()

/-- The cases of `getdevice`. -/
inductive GetdeviceOutcome
  /-- A relative path, with the result of `vfs_getcurdir`. -/
  | relative (curdir : Outcome)
  /-- `device:path`; `vfs_getroot` finds a file system, a device, or neither. -/
  | named (found : Outcome) (hasFs : Bool)
  /-- `/path`, with or without a boot file system. -/
  | boot (bootfs : Bool)
  /-- `:path`, with the result of `vfs_getcurdir` and the vnode it handed back. -/
  | colon (curdir : Outcome) (cwd : StartVnode)
  deriving DecidableEq, Repr

/-- `vfs_getroot`. -/
def vfsGetrootLocked (found : Outcome) (hasFs : Bool) (start : StartVnode) : Locked Unit := do
  knowndevsAcquire
  exitOn found knowndevsRelease
  if hasFs then do
    start.getroot
    knowndevsRelease
  else knowndevsRelease

/-- `getdevice`. -/
def getdeviceLocked (o : GetdeviceOutcome) (start : StartVnode) : Locked Unit := do
  let s ← get
  assert (s.biglock = true)
  match o with
  | .relative curdir => curdir.toProg
  | .named found hasFs => vfsGetrootLocked found hasFs start
  | .boot bootfs => exitIf (!bootfs) .enoent (pure ())
  | .colon curdir cwd => do
    curdir.toProg
    start.getroot
    cwd.decref

/-- `if (result) { vfs_biglock_release(); return result; }` after `getdevice`. -/
def getdeviceOrExit (o : GetdeviceOutcome) (start : StartVnode) : Locked Unit := do
  let r ← attempt (getdeviceLocked o start)
  match r with
  | .ok _ => pure ()
  | .error e => exitOn (some e) vfsBiglockRelease

/-- `VOP_LOOKUP`, by the file system of the vnode; the table of an SFS or emufs file, and a device,
have no lock to take. -/
inductive VopLookupOutcome
  | sfs (o : LookupOutcome)
  | emufs (o : EmuLookupOutcome)
  | other (result : Outcome)
  deriving DecidableEq, Repr

def VopLookupOutcome.call : VopLookupOutcome → Locked Unit
  | .sfs o => sfsLookupLocked o
  | .emufs o => emufsLookupLocked o
  | .other result => result.toProg

/-- `VOP_LOOKPARENT`, by the file system of the vnode. -/
inductive VopLookparentOutcome
  | sfs (o : LookparentOutcome)
  /-- An emufs directory, and a path with a slash whose last component fits. -/
  | emufs (o : EmuLookupOutcome)
  | other (result : Outcome)
  deriving DecidableEq, Repr

def VopLookparentOutcome.call : VopLookparentOutcome → Locked Unit
  | .sfs o => sfsLookparentLocked o
  | .emufs o => emufsLookupLocked o
  | .other result => result.toProg

/-- `vfs_lookup`; without a path behind the device there is nothing to look up. -/
def vfsLookupLocked (getdevice : GetdeviceOutcome) (start : StartVnode)
    (lookup : Option VopLookupOutcome) : Locked Unit := do
  vfsBiglockAcquire
  getdeviceOrExit getdevice start
  match lookup with
  | none => vfsBiglockRelease
  | some o => do
    let r ← attempt o.call
    start.decref
    vfsBiglockRelease
    ofResult r

/-- `vfs_lookparent`; without a path behind the device the result is `EINVAL`. -/
def vfsLookparentLocked (getdevice : GetdeviceOutcome) (start : StartVnode)
    (lookparent : Option VopLookparentOutcome) : Locked Unit := do
  vfsBiglockAcquire
  getdeviceOrExit getdevice start
  let r ← attempt (match lookparent with
    | none => fail .einval
    | some o => o.call)
  start.decref
  vfsBiglockRelease
  ofResult r

/-- What happens in a `vfs_doadd`. -/
structure DoaddOutcome where
  kstrdup : Bool
  /-- Whether the device is mountable, and then whether there is memory for the raw name. -/
  rawname : Option Bool
  vnode : Bool
  kmalloc : Bool
  /-- `badnames`. -/
  taken : Bool
  add : Outcome
  deriving DecidableEq, Repr

/-- `vfs_doadd`.  It makes a new lock each time; the exit for a name that is taken is about the
wrong lock. -/
def vfsDoaddLocked (o : DoaddOutcome) : Locked Unit := do
  modify fun s => { s with knowndevs := false }
  knowndevsAcquire
  exitIf (!o.kstrdup) .enomem knowndevsRelease
  exitIf (o.rawname = some false) .enomem knowndevsRelease
  exitIf (!o.vnode) .enomem knowndevsRelease
  exitIf (!o.kmalloc) .enomem knowndevsRelease
  exitIf o.taken .eexist vfsBiglockRelease
  knowndevsRelease
  o.add.toProg

/-! ## 5. Where a program ends -/

/-- From `a` the program returns: in `b` with a value, in `c` with an error. -/
def Ends {α : Type} (m : Locked α) (a b c : FsLocks) : Prop :=
  Wp False m (fun _ s => s = b) (fun _ s => s = c) a

/-- The big lock is held exactly if its depth is not 0. -/
def FsLocks.Consistent (s : FsLocks) : Prop := s.biglock = decide (s.biglockDepth ≠ 0)

/-- With the big lock taken once more. -/
def FsLocks.enter (s : FsLocks) : FsLocks :=
  { s with biglock := true, biglockDepth := s.biglockDepth + 1 }

/-- With the lock of the device table. -/
def FsLocks.withKnowndevs (s : FsLocks) : FsLocks := { s with knowndevs := true }

/-- With the lock of the emulator device. -/
def FsLocks.withEmu (s : FsLocks) : FsLocks := { s with emu := true }

section Rules

variable {α β : Type} {m : Locked α} {f : α → Locked β} {undo : Locked Unit} {a b c d s : FsLocks}

theorem FsLocks.enter_consistent : s.enter.Consistent := (decide_eq_true (Nat.succ_ne_zero _)).symm

theorem FsLocks.enter_ne : s.enter ≠ s := fun h =>
  Nat.succ_ne_self _ (congrArg biglockDepth h)

theorem Ends.bind (hm : Ends m a b c) (hf : ∀ x, Ends (f x) b d c) : Ends (m >>= f) a d c := by
  rw [Ends, wp_bind]
  refine hm.post fun x s hs => ?_
  subst hs
  exact hf x

theorem ends_pure (x : α) : Ends (pure x : Locked α) a a c := wp_pure.mpr rfl

theorem ends_fail (e : Errno) : Ends (fail e : Locked α) a b a := wp_fail.mpr rfl

theorem ends_toProg (r : Outcome) : Ends r.toProg a a a := by
  cases r with
  | none => exact ends_pure ()
  | some e => exact ends_fail e

theorem ends_exitOn (r : Outcome) (h : Ends undo a c c) : Ends (exitOn r undo) a a c := by
  cases r with
  | none => exact ends_pure ()
  | some e => exact h.bind fun _ => ends_fail e

/-- An exit, and the rest if it is not taken. -/
theorem ends_exitOn_bind {r : Outcome} {f : Unit → Locked β} (h : r ≠ none → Ends undo a c c)
    (hf : r = none → Ends (f ()) a d c) : Ends (exitOn r undo >>= f) a d c := by
  cases r with
  | none => exact (ends_pure ()).bind fun _ => hf rfl
  | some e =>
    rw [Ends, wp_bind]
    show Wp False (undo >>= fun _ => fail e) _ _ a
    rw [wp_bind]
    exact (h nofun).post fun _ s hs => wp_fail.mpr hs

theorem ends_exitIf_bind {t : Bool} {e : Errno} {f : Unit → Locked β}
    (h : t = true → Ends undo a c c) (hf : t = false → Ends (f ()) a d c) :
    Ends (exitIf t e undo >>= f) a d c := by
  cases t with
  | true => exact ends_exitOn_bind (fun _ => h rfl) nofun
  | false => exact ends_exitOn_bind (absurd rfl) fun _ => hf rfl

theorem Ends.exitOn {r : Outcome} {f : Unit → Locked β} (h : Ends undo a c c)
    (hf : Ends (f ()) a d c) : Ends (exitOn r undo >>= f) a d c :=
  ends_exitOn_bind (fun _ => h) fun _ => hf

theorem Ends.exitIf {t : Bool} {e : Errno} {f : Unit → Locked β} (h : Ends undo a c c)
    (hf : Ends (f ()) a d c) : Ends (exitIf t e undo >>= f) a d c :=
  h.exitOn hf

theorem Ends.attempt (h : Ends m a b b) : Ends (attempt m) a b c := by
  rw [Ends, wp_attempt]
  exact h

theorem ends_ofResult (r : Except Errno α) : Ends (ofResult r) a a a := by
  cases r with
  | ok x => exact ends_pure x
  | error e => exact ends_fail e

theorem ends_acquire {f : Unit → Locked β} (hf : Ends (f ()) s.enter d c) :
    Ends (vfsBiglockAcquire >>= f) s d c := wp_bind.mpr (wp_modify.mpr hf)

theorem FsLocks.Consistent.release (hs : s.Consistent) : Ends vfsBiglockRelease s.enter s c := by
  have hbig : s.enter.biglock = true := rfl
  have hdepth : 0 < s.enter.biglockDepth := Nat.succ_pos _
  rw [Ends, vfsBiglockRelease, wp_bind, wp_get, wp_bind, wp_assert_of hbig, wp_bind,
    wp_assert_of hdepth]
  refine wp_modify.mpr ?_
  exact FsLocks.ext hs.symm rfl rfl rfl

theorem ends_knowndevsAcquire (hs : s.knowndevs = false) :
    Ends knowndevsAcquire s s.withKnowndevs c := by
  rw [Ends, knowndevsAcquire, wp_bind, wp_get, wp_bind, wp_assert_of hs]
  exact wp_modify.mpr rfl

theorem ends_knowndevsRelease (hs : s.knowndevs = false) :
    Ends knowndevsRelease s.withKnowndevs s c :=
  wp_modify.mpr (FsLocks.ext rfl rfl hs.symm rfl)

theorem ends_emuAcquire (hs : s.emu = false) : Ends emuAcquire s s.withEmu c := by
  rw [Ends, emuAcquire, wp_bind, wp_get, wp_bind, wp_assert_of hs]
  exact wp_modify.mpr rfl

theorem ends_emuRelease (hs : s.emu = false) : Ends emuRelease s.withEmu s c :=
  wp_modify.mpr (FsLocks.ext rfl rfl rfl hs.symm)

/-- From `s` the program ends with the big lock taken once more if `P` holds, and in `s` if not. -/
def KeepsIf (P : Prop) (m : Locked α) (s : FsLocks) : Prop :=
  ∀ a, (P → a = s.enter) → (¬ P → a = s) → Ends m s a a

/-- From `a` the program ends in `b`, and returns a value exactly if `P` holds. -/
def ReturnsIf (P : Prop) (m : Locked α) (a b : FsLocks) : Prop :=
  Wp False m (fun _ s => s = b ∧ P) (fun _ s => s = b ∧ ¬ P) a

theorem ends_noError (h : ∀ c, Ends m a b c) : Wp False m (fun _ s => s = b) (fun _ _ => False) a :=
  ((h a).and (h a.enter)).imp (fun _ _ hs => hs.1) fun _ _ hs =>
    enter_ne (hs.2.symm.trans hs.1)

variable {P : Prop}

theorem returnsIf_of_ends (hP : P) (h : ∀ c, Ends m a b c) : ReturnsIf P m a b :=
  (ends_noError h).post_ok fun _ _ hs => ⟨hs, hP⟩

theorem returnsIf_toProg (r : Outcome) : ReturnsIf (r = none) r.toProg a a := by
  cases r with
  | none => exact wp_pure.mpr ⟨rfl, rfl⟩
  | some e => exact wp_fail.mpr ⟨rfl, nofun⟩

theorem ReturnsIf.after (hm : ∀ c, Ends m a b c) (hf : ∀ x, ReturnsIf P (f x) b d) :
    ReturnsIf P (m >>= f) a d := by
  refine (ends_noError hm).bind_ok fun x s hs => ?_
  subst hs
  exact hf x

theorem ReturnsIf.bind (hm : ReturnsIf P m a b) (hf : ∀ x c, Ends (f x) b b c) :
    ReturnsIf P (m >>= f) a b := by
  rw [ReturnsIf, wp_bind]
  refine hm.post fun x s hs => ?_
  obtain ⟨rfl, hP⟩ := hs
  exact returnsIf_of_ends hP (hf x)

/-- The rest runs only if a value is returned. -/
theorem ReturnsIf.bind_ends (hm : ReturnsIf P m a b) (hc : ¬ P → c = b)
    (hf : P → ∀ x, Ends (f x) b d c) : Ends (m >>= f) a d c := by
  rw [Ends, wp_bind]
  refine hm.imp (fun x s hs => ?_) fun _ s hs => hs.1.trans (hc hs.2).symm
  obtain ⟨rfl, hP⟩ := hs
  exact hf hP x

theorem Ends.keepsIf (h : Ends m s s s) (hP : ¬ P) : KeepsIf P m s := by
  intro a _ hleft
  rw [hleft hP]
  exact h

end Rules

/-! ## 6. SFS -/

section Sfs

variable {s : FsLocks} (hs : s.Consistent)

include hs

theorem sfsIoLocked_ends (io : Outcome) : Ends (sfsIoLocked io) s s s :=
  ends_acquire <| hs.release.bind fun _ => ends_toProg io

theorem sfsTruncateLocked_ends (o : TruncateOutcome) : Ends (sfsTruncateLocked o) s s s := by
  refine ends_acquire <| Ends.bind ?_ fun _ => hs.release
  rw [truncateIndirectLocked]
  split
  · exact hs.release.exitOn <| ends_exitOn _ hs.release
  · exact ends_pure ()

theorem vopTruncateLocked_ends (o : ReclaimOutcome) : Ends (vopTruncateLocked o) s s s := by
  unfold vopTruncateLocked
  split_ifs
  · exact ends_fail .eisdir
  · exact sfsTruncateLocked_ends hs o.truncate

theorem sfsReclaimLocked_ends (o : ReclaimOutcome) : Ends (sfsReclaimLocked o) s s s := by
  refine ends_acquire <| hs.release.exitIf <| Ends.bind ?_ fun _ => hs.release.exitOn <| hs.release
  unfold reclaimEraseLocked
  split_ifs
  · refine (vopTruncateLocked_ends enter_consistent o).attempt.bind fun r => ?_
    cases r with
    | ok x => exact ends_pure ()
    | error e => exact ends_exitOn _ hs.release
  · exact ends_pure ()

theorem vopDecrefLocked_ends {c : FsLocks} (r : Option ReclaimOutcome) :
    Ends (vopDecrefLocked r) s s c := by
  cases r with
  | none => exact ends_pure ()
  | some o => exact (sfsReclaimLocked_ends hs o).attempt.bind fun _ => ends_pure ()

theorem sfsGetrootLocked_ends {c : FsLocks} : Ends sfsGetrootLocked s s c :=
  ends_acquire <| hs.release

theorem namefileLoopLocked_ends (l : List NamefileRound) :
    Ends (namefileLoopLocked l) s.enter s.enter s := by
  induction l with
  | nil => exact ends_pure ()
  | cons o rest ih =>
    exact hs.release.exitOn <| hs.release.exitOn <| hs.release.exitOn <| ih

theorem sfsNamefileLocked_ends (l : List NamefileRound) (uiomove : Outcome) :
    Ends (sfsNamefileLocked l uiomove) s s s := by
  exact ends_acquire <| (sfsGetrootLocked_ends enter_consistent).bind
    fun _ => (namefileLoopLocked_ends hs l).bind fun _ => hs.release.exitOn <| hs.release

theorem sfsMkdirLocked_ends (r₁ r₂ r₃ r₄ r₅ : Outcome) :
    Ends (sfsMkdirLocked r₁ r₂ r₃ r₄ r₅) s s s := by
  exact ends_acquire <| hs.release.exitOn <| hs.release.exitOn <| hs.release.exitOn <|
    hs.release.exitOn <| hs.release.exitOn <| hs.release

theorem rmdirLoopLocked_ends (l : List Outcome) : Ends (rmdirLoopLocked l) s.enter s.enter s := by
  induction l with
  | nil => exact ends_pure ()
  | cons r rest ih => exact hs.release.exitOn <| ih

theorem sfsRmdirLocked_ends (lookonce : Outcome) (isfile : Bool)
    (readdir : List Outcome) (toomany : Bool) (unlink : Outcome) (victim : Option ReclaimOutcome) :
    Ends (sfsRmdirLocked lookonce isfile readdir toomany unlink victim) s s s := by
  exact ends_acquire <| hs.release.exitOn <|
    hs.release.exitIf <| (rmdirLoopLocked_ends hs readdir).bind fun _ =>
    hs.release.exitIf <| (vopDecrefLocked_ends enter_consistent victim).bind
    fun _ => hs.release.bind fun _ => ends_toProg unlink

theorem sfsCreatLocked_ends (findname : Outcome) (excl : Bool)
    (loadvnode makeobj link : Outcome) (newguy : Option ReclaimOutcome) :
    Ends (sfsCreatLocked findname excl loadvnode makeobj link newguy) s s s := by
  refine ends_acquire <| hs.release.exitOn <| hs.release.exitIf <| ?_
  split_ifs
  · exact hs.release.exitOn <| hs.release
  · refine hs.release.exitOn <| (ends_exitOn _ ?_).bind fun _ => hs.release
    exact (vopDecrefLocked_ends enter_consistent newguy).bind fun _ => hs.release

theorem sfsLinkLocked_ends (link : Outcome) : Ends (sfsLinkLocked link) s s s := by
  exact ends_acquire <| hs.release.exitOn <| hs.release

theorem sfsRemoveLocked_ends (lookonce unlink : Outcome)
    (victim : Option ReclaimOutcome) : Ends (sfsRemoveLocked lookonce unlink victim) s s s := by
  exact ends_acquire <| hs.release.exitOn <|
    (vopDecrefLocked_ends enter_consistent victim).bind fun _ => hs.release.bind fun _ =>
    ends_toProg unlink

theorem lookupLoopLocked_ends (l : List (Outcome × Option ReclaimOutcome)) :
    Ends (lookupLoopLocked l) s.enter s.enter s := by
  induction l with
  | nil => exact ends_pure ()
  | cons o rest ih =>
    exact hs.release.exitOn <| (vopDecrefLocked_ends enter_consistent o.2).bind fun _ => ih

theorem sfsLookupLocked_ends (o : LookupOutcome) : Ends (sfsLookupLocked o) s s s := by
  refine ends_acquire <| hs.release.exitIf <| ?_
  split_ifs
  · exact (lookupLoopLocked_ends hs o.components).bind fun _ => hs.release
  · exact hs.release.exitOn <| hs.release

/-- The call gets to its last line. -/
def LookparentOutcome.Looks (o : LookparentOutcome) : Prop :=
  o.isdir = true ∧ o.toolong = false ∧ o.slash = true

/-- **The lock that is kept.**  Whatever `sfs_lookup` returns, the big lock is held once more than
before. -/
theorem sfsLookparentLocked_keepsIf (o : LookparentOutcome) :
    KeepsIf o.Looks (sfsLookparentLocked o) s := by
  intro a hkept hleft
  have hrel (h : ¬ o.Looks) : Ends vfsBiglockRelease s.enter a a := hleft h ▸ hs.release
  refine ends_acquire <| ends_exitIf_bind (fun h => hrel ?_) fun hdir =>
    ends_exitIf_bind (fun h => hrel ?_) fun hlong => ?_
  · simp_all [LookparentOutcome.Looks]
  · simp [LookparentOutcome.Looks, h]
  split_ifs with hslash
  · rw [hkept ⟨by simpa using hdir, hlong, hslash⟩]
    exact sfsLookupLocked_ends enter_consistent o.lookup
  · exact hrel fun hl => hslash hl.2.2

theorem getdirentryLoopLocked_ends (l : List SlotOutcome) :
    Ends (getdirentryLoopLocked l) s.enter s.enter s := by
  induction l with
  | nil => exact ends_exitOn _ hs.release
  | cons o rest ih =>
    cases o with
    | failed e => exact ends_exitOn _ hs.release
    | empty => exact ih
    | live => exact ends_pure ()

theorem sfsGetdirentryLocked_ends (l : List SlotOutcome) : Ends (sfsGetdirentryLocked l) s s s :=
  ends_acquire <| (getdirentryLoopLocked_ends hs l).bind fun _ =>
    hs.release

/-- The mount gets to its four locks. -/
def DomountOutcome.Loaded (o : DomountOutcome) : Prop :=
  o.badBlocksize = false ∧ o.kmalloc = true ∧ o.vnodearray = true ∧ o.rblock = none ∧
    o.badMagic = false ∧ o.bitmap = true ∧ o.mapio = none

/-- It can create them. -/
def DomountOutcome.HasLocks (o : DomountOutcome) : Prop :=
  o.vnodesLock = true ∧ o.bitmapLock = true ∧ o.bmapLock = true ∧ o.bcacheLock = true

instance (o : DomountOutcome) : Decidable o.Loaded := inferInstanceAs (Decidable (_ ∧ _))

/-- **The lock that is kept.**  If the mount gets to its locks and cannot create one, it returns
`ENOMEM` with the big lock. -/
theorem sfsDomountLocked_keepsIf (o : DomountOutcome) :
    KeepsIf (o.Loaded ∧ ¬ o.HasLocks) (sfsDomountLocked o) s := by
  intro a hkept hleft
  by_cases hload : o.Loaded
  · obtain ⟨h1, h2, h3, h4, h5, h6, h7⟩ := id hload
    have hkeep (h : ¬ o.HasLocks) : Ends (pure () : Locked Unit) s.enter a a :=
      hkept ⟨hload, h⟩ ▸ ends_pure ()
    rw [sfsDomountLocked, h1, h2, h3, h4, h5, h6, h7]
    refine ends_acquire ?_
    iterate 7 refine (ends_pure ()).bind fun _ => ?_
    refine ends_exitIf_bind (fun h => hkeep ?_) fun k₁ => ends_exitIf_bind (fun h => hkeep ?_)
      fun k₂ => ends_exitIf_bind (fun h => hkeep ?_) fun k₃ => ends_exitIf_bind
      (fun h => hkeep ?_) fun k₄ => hleft (fun h => h.2 ?_) ▸ hs.release
    all_goals simp_all [DomountOutcome.HasLocks]
  · rw [hleft fun h => hload h.1]
    refine ends_acquire <| ends_exitIf_bind (fun _ => hs.release) fun h1 =>
      ends_exitIf_bind (fun _ => hs.release) fun h2 => ends_exitIf_bind (fun _ => hs.release)
      fun h3 => ends_exitOn_bind (fun _ => hs.release) fun h4 => ends_exitIf_bind
      (fun _ => hs.release) fun h5 => ends_exitIf_bind (fun _ => hs.release) fun h6 =>
      ends_exitOn_bind (fun _ => hs.release) fun h7 => absurd ?_ hload
    simp_all [DomountOutcome.Loaded]

end Sfs

/-! ## 7. Emufs and the VFS layer -/

section Vfs

variable {s c : FsLocks}

theorem emufsRelease_ends (hs : s.Consistent) (he : s.emu = false) :
    Ends emufsRelease s.enter.withEmu s c :=
  (ends_emuRelease (s := s.enter) he).bind fun _ => hs.release

/-- The vnode is there, or there is memory for it. -/
def EmuLoadOutcome.HasVnode (o : EmuLoadOutcome) : Prop := o.found = true ∨ o.kmalloc = true

/-- **The lock that is kept.**  Without memory for the vnode the call returns `ENOMEM` with the big
lock. -/
theorem emufsLoadvnodeLocked_keepsIf (hs : s.Consistent) (he : s.emu = false) (o : EmuLoadOutcome) :
    KeepsIf (¬ o.HasVnode) (emufsLoadvnodeLocked o) s := by
  intro a hkept hleft
  have hrel (h : o.HasVnode) : Ends emufsRelease s.enter.withEmu a a := by
    rw [hleft (not_not.mpr h)]
    exact emufsRelease_ends hs he
  refine ends_acquire <| (ends_emuAcquire (s := s.enter) he).bind fun _ => ?_
  split_ifs with hfound
  · exact hrel (.inl hfound)
  · refine ends_exitIf_bind (fun hmem => ?_) fun hmem => ?_
    · rw [hkept (by simp_all [EmuLoadOutcome.HasVnode])]
      exact ends_emuRelease (s := s.enter) he
    · have hrel := hrel (.inr (by simpa using hmem))
      exact hrel.exitOn <| hrel.exitOn <| hrel

theorem emuCloseLocked_ends (r : Outcome) : Ends (emuCloseLocked r) s s s := by
  refine wp_bind.mpr (wp_get.mpr ?_)
  split_ifs with he
  · exact ends_toProg r
  · have he : s.emu = false := Bool.eq_false_iff.mpr he
    exact (ends_emuAcquire he).bind fun _ => (ends_emuRelease he).bind fun _ => ends_toProg r

/-- The lookup gets to `emufs_loadvnode`, which has no memory for the vnode. -/
def EmuLookupOutcome.NoMemory (o : EmuLookupOutcome) : Prop :=
  o.toolong = false ∧ o.open_ = none ∧ ¬ o.loadvnode.HasVnode

theorem emuOpenLocked_returnsIf (he : s.emu = false) (toolong : Bool) (r : Outcome) :
    ReturnsIf (toolong = false ∧ r = none) (emuOpenLocked toolong r) s s := by
  cases toolong with
  | true => exact wp_bind.mpr (wp_fail.mpr ⟨rfl, nofun⟩)
  | false =>
    simp only [true_and]
    exact .after (fun _ => ends_pure ()) fun _ => .after (fun _ => ends_emuAcquire he) fun _ =>
      .after (fun _ => ends_emuRelease he) fun _ => returnsIf_toProg r

theorem emufsLookupLocked_keepsIf (hs : s.Consistent) (he : s.emu = false) (o : EmuLookupOutcome) :
    KeepsIf o.NoMemory (emufsLookupLocked o) s := by
  intro a hkept hleft
  refine (emuOpenLocked_returnsIf he o.toolong o.open_).bind_ends
    (fun h => hleft fun hno => h ⟨hno.1, hno.2.1⟩) fun hopen _ => ?_
  have hload := emufsLoadvnodeLocked_keepsIf hs he o.loadvnode a
    (fun h => hkept ⟨hopen.1, hopen.2, h⟩) fun h => hleft fun hno => h hno.2.2
  refine hload.attempt.bind fun r => ?_
  cases r with
  | ok x => exact ends_pure ()
  | error e => exact (emuCloseLocked_ends o.close).attempt.bind fun _ => ends_fail e

theorem StartVnode.decref_ends (hs : s.Consistent) (he : s.emu = false) (v : StartVnode) :
    Ends v.decref s s c := by
  cases v with
  | sfs r => exact vopDecrefLocked_ends hs r
  | emufs r =>
    cases r with
    | none => exact ends_pure ()
    | some o =>
      refine Ends.bind (Ends.attempt ?_) fun _ => ends_pure ()
      have hrel := emufsRelease_ends (c := s) hs he
      refine ends_acquire <| (ends_emuAcquire (s := s.enter) he).bind fun _ =>
        hrel.exitIf <| (emuCloseLocked_ends o.close).attempt.bind fun r => ?_
      cases r with
      | ok x => exact hrel
      | error e => exact hrel.bind fun _ => ends_fail e
  | device => exact ends_pure ()

theorem StartVnode.getroot_ends (hs : s.Consistent) (v : StartVnode) : Ends v.getroot s s c := by
  cases v with
  | sfs r => exact sfsGetrootLocked_ends hs
  | emufs r => exact ends_pure ()
  | device => exact ends_pure ()

/-- `getdevice` has a vnode to start from. -/
def GetdeviceOutcome.Found : GetdeviceOutcome → Prop
  | .relative curdir => curdir = none
  | .named found _ => found = none
  | .boot bootfs => bootfs = true
  | .colon curdir _ => curdir = none

theorem vfsGetrootLocked_returnsIf (hs : s.Consistent) (hk : s.knowndevs = false) (found : Outcome)
    (hasFs : Bool) (start : StartVnode) :
    ReturnsIf (found = none) (vfsGetrootLocked found hasFs start) s s := by
  refine .after (fun _ => ends_knowndevsAcquire hk) fun _ => ?_
  have hrel : ∀ c, Ends knowndevsRelease s.withKnowndevs s c := fun c => ends_knowndevsRelease hk
  cases found with
  | some e =>
    exact (ends_noError hrel).bind_ok fun _ _ hs' => wp_fail.mpr ⟨hs', nofun⟩
  | none =>
    refine .after (fun _ => ends_pure ()) fun _ => ?_
    split_ifs
    · exact .after (fun _ => start.getroot_ends (s := s.withKnowndevs) hs) fun _ =>
        returnsIf_of_ends rfl hrel
    · exact returnsIf_of_ends rfl hrel

section

variable (hs : s.Consistent) (he : s.emu = false)

include hs he

theorem getdeviceLocked_returnsIf (hbig : s.biglock = true) (hk : s.knowndevs = false)
    (o : GetdeviceOutcome) (start : StartVnode) :
    ReturnsIf o.Found (getdeviceLocked o start) s s := by
  refine wp_bind.mpr (wp_get.mpr ?_)
  rw [wp_bind, wp_assert_of hbig]
  cases o with
  | relative curdir => exact returnsIf_toProg curdir
  | named found hasFs => exact vfsGetrootLocked_returnsIf hs hk found hasFs start
  | boot bootfs =>
    cases bootfs with
    | true => exact returnsIf_of_ends rfl fun _ => ends_pure ()
    | false => exact wp_fail.mpr ⟨rfl, nofun⟩
  | colon curdir cwd =>
    exact (returnsIf_toProg curdir).bind fun _ _ => (start.getroot_ends hs).bind fun _ =>
      cwd.decref_ends hs he

theorem getdeviceOrExit_bind {α : Type} (hk : s.knowndevs = false) {o : GetdeviceOutcome}
    {start : StartVnode} {f : Unit → Locked α} {d : FsLocks}
    (hf : o.Found → Ends (f ()) s.enter d c) (hc : ¬ o.Found → c = s) :
    Ends (getdeviceOrExit o start >>= f) s.enter d c := by
  rw [Ends, wp_bind, getdeviceOrExit, wp_bind, wp_attempt]
  refine (getdeviceLocked_returnsIf (s := s.enter) enter_consistent he rfl hk o start).imp
    (fun x s' hs' => ?_) fun e s' hs' => ?_
  · obtain ⟨rfl, hfound⟩ := hs'
    exact wp_pure.mpr (hf hfound)
  · obtain ⟨rfl, hfound⟩ := hs'
    rw [hc hfound]
    exact (ends_noError fun _ => hs.release).bind_ok fun _ _ hs' => wp_fail.mpr hs'

/-- What comes after `VOP_LOOKUP` or `VOP_LOOKPARENT`, if that has kept the big lock, or not. -/
theorem KeepsIf.tail {P : Prop} {m : Locked Unit} {a : FsLocks} (hm : KeepsIf P m s.enter)
    (start : StartVnode) (hkept : P → a = s.enter) (hleft : ¬ P → a = s) :
    Ends (do
      let r ← attempt m
      start.decref
      vfsBiglockRelease
      ofResult r) s.enter a a := by
  have hm := hm a.enter (fun h => hkept h ▸ rfl) fun h => hleft h ▸ rfl
  have ha : a.Consistent ∧ a.emu = false := by
    by_cases hP : P
    · exact hkept hP ▸ ⟨enter_consistent, he⟩
    · exact hleft hP ▸ ⟨hs, he⟩
  exact hm.attempt.bind fun r => (start.decref_ends enter_consistent ha.2).bind fun _ =>
    ha.1.release.bind fun _ => ends_ofResult r

/-- The lookup has no memory for an emufs vnode. -/
def VopLookupOutcome.NoMemory : VopLookupOutcome → Prop
  | .emufs o => o.NoMemory
  | _ => False

theorem VopLookupOutcome.call_keepsIf (o : VopLookupOutcome) : KeepsIf o.NoMemory o.call s := by
  cases o with
  | sfs o => exact (sfsLookupLocked_ends hs o).keepsIf id
  | emufs o => exact emufsLookupLocked_keepsIf hs he o
  | other r => exact (ends_toProg r).keepsIf id

/-- The search for the parent keeps the big lock: a path with a slash on SFS, or no memory for an
emufs vnode. -/
def VopLookparentOutcome.Keeps : VopLookparentOutcome → Prop
  | .sfs o => o.Looks
  | .emufs o => o.NoMemory
  | .other _ => False

theorem VopLookparentOutcome.call_keepsIf (o : VopLookparentOutcome) :
    KeepsIf o.Keeps o.call s := by
  cases o with
  | sfs o => exact sfsLookparentLocked_keepsIf hs o
  | emufs o => exact emufsLookupLocked_keepsIf hs he o
  | other r => exact (ends_toProg r).keepsIf id

theorem vfsLookupLocked_keepsIf (hk : s.knowndevs = false)
    (g : GetdeviceOutcome) (start : StartVnode) (lookup : Option VopLookupOutcome) :
    KeepsIf (g.Found ∧ ∃ o ∈ lookup, o.NoMemory) (vfsLookupLocked g start lookup) s := by
  intro a hkept hleft
  refine ends_acquire <| getdeviceOrExit_bind hs he hk (fun hfound => ?_)
    fun hno => hleft fun h => hno h.1
  cases lookup with
  | none =>
    rw [hleft (by simp)]
    exact hs.release
  | some o =>
    exact (o.call_keepsIf enter_consistent he).tail hs he start
      (fun h => hkept ⟨hfound, o, rfl, h⟩) fun h => hleft (by simpa [hfound] using h)

theorem vfsLookparentLocked_keepsIf (hk : s.knowndevs = false)
    (g : GetdeviceOutcome) (start : StartVnode) (lookparent : Option VopLookparentOutcome) :
    KeepsIf (g.Found ∧ ∃ o ∈ lookparent, o.Keeps) (vfsLookparentLocked g start lookparent) s := by
  intro a hkept hleft
  refine ends_acquire <| getdeviceOrExit_bind hs he hk (fun hfound => ?_)
    fun hno => hleft fun h => hno h.1
  refine KeepsIf.tail (P := ∃ o ∈ lookparent, o.Keeps) hs he ?_ start (fun h => hkept ⟨hfound, h⟩)
    fun h => hleft fun hno => h hno.2
  cases lookparent with
  | none => exact (ends_fail .einval).keepsIf (by simp)
  | some o => simpa using o.call_keepsIf enter_consistent he

end

/-- The new entry gets as far as the check of its names. -/
def DoaddOutcome.HasMemory (o : DoaddOutcome) : Prop :=
  o.kstrdup = true ∧ o.rawname ≠ some false ∧ o.vnode = true ∧ o.kmalloc = true

theorem vfsDoaddLocked_ends (hk : s.knowndevs = false) {o : DoaddOutcome}
    (ho : ¬ (o.HasMemory ∧ o.taken = true)) : Ends (vfsDoaddLocked o) s s s := by
  have hnew : Ends (modify fun s => { s with knowndevs := false } : Locked Unit) s s s :=
    wp_modify.mpr (FsLocks.ext rfl rfl hk.symm rfl)
  have hrel := ends_knowndevsRelease (c := s) hk
  refine hnew.bind fun _ => (ends_knowndevsAcquire hk).bind fun _ =>
    ends_exitIf_bind (fun _ => hrel) fun h1 => ends_exitIf_bind (fun _ => hrel) fun h2 =>
    ends_exitIf_bind (fun _ => hrel) fun h3 => ends_exitIf_bind (fun _ => hrel) fun h4 =>
    ends_exitIf_bind (fun h => absurd ⟨?_, h⟩ ho) fun _ => hrel.bind fun _ => ends_toProg o.add
  simp_all [DoaddOutcome.HasMemory]

theorem biglockRelease_knowndevs (hk : s.knowndevs = true) :
    Wp True vfsBiglockRelease (fun _ s' => s'.knowndevs = true)
      (fun _ s' => s'.knowndevs = true) s := by
  rw [vfsBiglockRelease, wp_bind, wp_get, wp_bind, wp_assert]
  refine ⟨fun _ => ?_, fun _ => trivial⟩
  rw [wp_bind, wp_assert]
  exact ⟨fun _ => wp_modify.mpr hk, fun _ => trivial⟩

/-- **The wrong lock.**  For a name that is taken the call stops the machine, or returns with the
lock of the device table. -/
theorem vfsDoaddLocked_keeps {o : DoaddOutcome} (hmem : o.HasMemory) (htaken : o.taken = true) :
    Wp True (vfsDoaddLocked o) (fun _ s' => s'.knowndevs = true)
      (fun _ s' => s'.knowndevs = true) s := by
  obtain ⟨h1, h2, h3, h4⟩ := hmem
  rw [vfsDoaddLocked, h1, h3, h4, htaken, decide_eq_false h2, wp_bind, wp_modify]
  refine (ends_noError fun _ => ends_knowndevsAcquire rfl).weaken.bind_ok fun _ s₁ hs1 => ?_
  subst hs1
  -- the four exits for want of memory are not taken
  iterate 4 refine wp_bind.mpr (wp_pure.mpr ?_)
  -- the release of the big lock leaves the other one alone
  exact wp_bind.mpr ((biglockRelease_knowndevs rfl).bind fun _ s' hs' => wp_fail.mpr hs')

end Vfs

/-! ## 8. The calls -/

/-- A call of one of the functions, with everything that decides its way. -/
inductive FsCall
  | sfsRead (io : Outcome)
  | sfsWrite (io : Outcome)
  | sfsTruncate (o : TruncateOutcome)
  | sfsNamefile (rounds : List NamefileRound) (uiomove : Outcome)
  | sfsMkdir (findname makeobj link linkParent linkSelf : Outcome)
  | sfsRmdir (lookonce : Outcome) (isfile : Bool) (readdir : List Outcome) (toomany : Bool)
      (unlink : Outcome) (victim : Option ReclaimOutcome)
  | sfsCreat (findname : Outcome) (excl : Bool) (loadvnode makeobj link : Outcome)
      (newguy : Option ReclaimOutcome)
  | sfsLink (link : Outcome)
  | sfsRemove (lookonce unlink : Outcome) (victim : Option ReclaimOutcome)
  | sfsLookup (o : LookupOutcome)
  | sfsLookparent (o : LookparentOutcome)
  | sfsGetdirentry (slots : List SlotOutcome)
  | sfsReclaim (o : ReclaimOutcome)
  | sfsDomount (o : DomountOutcome)
  | emufsLoadvnode (o : EmuLoadOutcome)
  | vfsLookup (getdevice : GetdeviceOutcome) (start : StartVnode) (lookup : Option VopLookupOutcome)
  | vfsLookparent (getdevice : GetdeviceOutcome) (start : StartVnode)
      (lookparent : Option VopLookparentOutcome)
  | vfsDoadd (o : DoaddOutcome)

namespace FsCall

/-- What the call does to the locks. -/
def call : FsCall → Locked Unit
  | sfsRead io => sfsIoLocked io
  | sfsWrite io => sfsIoLocked io
  | sfsTruncate o => sfsTruncateLocked o
  | sfsNamefile rounds uiomove => sfsNamefileLocked rounds uiomove
  | sfsMkdir findname makeobj link linkParent linkSelf =>
    sfsMkdirLocked findname makeobj link linkParent linkSelf
  | sfsRmdir lookonce isfile readdir toomany unlink victim =>
    sfsRmdirLocked lookonce isfile readdir toomany unlink victim
  | sfsCreat findname excl loadvnode makeobj link newguy =>
    sfsCreatLocked findname excl loadvnode makeobj link newguy
  | sfsLink link => sfsLinkLocked link
  | sfsRemove lookonce unlink victim => sfsRemoveLocked lookonce unlink victim
  | sfsLookup o => sfsLookupLocked o
  | sfsLookparent o => sfsLookparentLocked o
  | sfsGetdirentry slots => sfsGetdirentryLocked slots
  | sfsReclaim o => sfsReclaimLocked o
  | sfsDomount o => sfsDomountLocked o
  | emufsLoadvnode o => emufsLoadvnodeLocked o
  | vfsLookup getdevice start lookup => vfsLookupLocked getdevice start lookup
  | vfsLookparent getdevice start lookparent => vfsLookparentLocked getdevice start lookparent
  | vfsDoadd o => vfsDoaddLocked o

/-- The locks that the thread may have when it calls: it does not call with a lock that the function
takes and that is not recursive. -/
def Legal : FsCall → FsLocks → Prop
  | emufsLoadvnode _, s => s.Consistent ∧ s.emu = false
  | vfsLookup _ _ _, s | vfsLookparent _ _ _, s =>
    s.Consistent ∧ s.knowndevs = false ∧ s.emu = false
  | vfsDoadd _, s => s.Consistent ∧ s.knowndevs = false
  | _, s => s.Consistent

/-- The call returns with the locks that it was made with. -/
def Balanced (op : FsCall) (s : FsLocks) : Prop := ∃ r, op.call s = some (r, s)

/-- The ways that are in order: all of them, but for a path with a slash (`sfs_lookparent`), a lock
that cannot be created (`sfs_domount`), a vnode that there is no memory for (`emufs_loadvnode`), and
a name that is taken (`vfs_doadd`). -/
def Clean : FsCall → Prop
  | sfsLookparent o => ¬ o.Looks
  | sfsDomount o => o.Loaded → o.HasLocks
  | emufsLoadvnode o => o.HasVnode
  | vfsLookup g _ lookup => ¬ (g.Found ∧ ∃ o ∈ lookup, o.NoMemory)
  | vfsLookparent g _ lookparent => ¬ (g.Found ∧ ∃ o ∈ lookparent, o.Keeps)
  | vfsDoadd o => ¬ (o.HasMemory ∧ o.taken = true)
  | _ => True

end FsCall

section Calls

variable {s : FsLocks}

theorem Ends.balanced {op : FsCall} (h : Ends op.call s s s) : op.Balanced s := by
  obtain ⟨r, s', hr, rfl⟩ := Prog.Wp.exists_some h
  exact ⟨r, hr⟩

theorem KeepsIf.balanced_iff {op : FsCall} {P : Prop} (h : KeepsIf P op.call s)
    (hP : ¬ P ↔ op.Clean) : op.Balanced s ↔ op.Clean := by
  rw [← hP]
  refine ⟨fun ⟨r, hr⟩ hp => ?_, fun hp => (h s (absurd · hp) fun _ => rfl).balanced⟩
  have hends := h s.enter (fun _ => rfl) (absurd hp)
  cases r with
  | ok x => exact enter_ne (hends.of_ok hr).symm
  | error e => exact enter_ne (hends.of_error hr).symm

/-- **Where the locks are in balance.**  A call returns with the locks it was made with exactly on
the ways that `Clean` describes. -/
theorem fsCall_balanced_iff (op : FsCall) (hl : op.Legal s) : op.Balanced s ↔ op.Clean := by
  have clean {op : FsCall} (hop : op.Clean) (h : Ends op.call s s s) : op.Balanced s ↔ op.Clean :=
    iff_of_true h.balanced hop
  cases op with
  | sfsRead io => exact clean trivial (sfsIoLocked_ends hl io)
  | sfsWrite io => exact clean trivial (sfsIoLocked_ends hl io)
  | sfsTruncate o => exact clean trivial (sfsTruncateLocked_ends hl o)
  | sfsNamefile l uiomove => exact clean trivial (sfsNamefileLocked_ends hl l uiomove)
  | sfsMkdir r₁ r₂ r₃ r₄ r₅ => exact clean trivial (sfsMkdirLocked_ends hl r₁ r₂ r₃ r₄ r₅)
  | sfsRmdir lookonce isfile l toomany unlink victim =>
    exact clean trivial (sfsRmdirLocked_ends hl lookonce isfile l toomany unlink victim)
  | sfsCreat findname excl loadvnode makeobj link newguy =>
    exact clean trivial (sfsCreatLocked_ends hl findname excl loadvnode makeobj link newguy)
  | sfsLink link => exact clean trivial (sfsLinkLocked_ends hl link)
  | sfsRemove lookonce unlink victim =>
    exact clean trivial (sfsRemoveLocked_ends hl lookonce unlink victim)
  | sfsLookup o => exact clean trivial (sfsLookupLocked_ends hl o)
  | sfsLookparent o => exact (sfsLookparentLocked_keepsIf hl o).balanced_iff .rfl
  | sfsGetdirentry l => exact clean trivial (sfsGetdirentryLocked_ends hl l)
  | sfsReclaim o => exact clean trivial (sfsReclaimLocked_ends hl o)
  | sfsDomount o => exact (sfsDomountLocked_keepsIf hl o).balanced_iff not_and_not_right
  | emufsLoadvnode o => exact (emufsLoadvnodeLocked_keepsIf hl.1 hl.2 o).balanced_iff not_not
  | vfsLookup g start lookup =>
    exact (vfsLookupLocked_keepsIf hl.1 hl.2.2 hl.2.1 g start lookup).balanced_iff .rfl
  | vfsLookparent g start lookparent =>
    exact (vfsLookparentLocked_keepsIf hl.1 hl.2.2 hl.2.1 g start lookparent).balanced_iff .rfl
  | vfsDoadd o =>
    refine ⟨fun ⟨r, hr⟩ ⟨hmem, htaken⟩ => ?_,
      fun hop => (clean hop (vfsDoaddLocked_ends hl.2 hop)).mpr hop⟩
    have hkeeps := vfsDoaddLocked_keeps (s := s) hmem htaken
    have hk : s.knowndevs = true := by
      cases r with
      | ok x => exact hkeeps.of_ok hr
      | error e => exact hkeeps.of_error hr
    exact Bool.false_ne_true (hl.2.symm.trans hk)

/-- A thread that holds no lock. -/
def noLocks : FsLocks := { biglock := false, biglockDepth := 0, knowndevs := false, emu := false }

/-- `sfs_lookparent` of `path` in a directory, where the directory before a slash is found. -/
def lookparentFound (slash : Bool) : FsCall :=
  .sfsLookparent
    { isdir := true, toolong := false, slash
      lookup := { isdir := true, slash := false, lookonce := none, components := [] } }

theorem lookparent_without_slash_balanced :
    (lookparentFound false).Legal noLocks ∧ (lookparentFound false).Balanced noLocks :=
  ⟨rfl, (fsCall_balanced_iff (s := noLocks) (lookparentFound false) rfl).mpr
    fun h => Bool.false_ne_true h.2.2⟩

/-- For a path with a slash the call returns successfully and keeps the big lock. -/
theorem lookparent_with_slash_keeps_biglock :
    (lookparentFound true).Legal noLocks ∧ (lookparentFound true).call noLocks =
        some (.ok (), { noLocks with biglock := true, biglockDepth := 1 }) ∧
      ¬ ∀ (op : FsCall) (s : FsLocks), op.Legal s → op.Balanced s := by
  refine ⟨rfl, rfl, fun h => ?_⟩
  obtain ⟨r, hr⟩ := h (lookparentFound true) noLocks rfl
  cases congrArg (Option.map fun x => x.2.biglock) hr

end Calls

end Os161
