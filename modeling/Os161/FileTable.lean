/-
# `kern/syscall/file.c`: file descriptors

Each thread has a table of pointers to `struct File`, and a `File` points to a vnode.  The system
is modelled with the objects that exist: tables, Files and vnodes with their two counters.  A
pointer to an object that does not exist, or NULL, stops the machine when it is followed.  What
`vfs_open` finds, and what the allocator has, are arguments.

`sys_open` asks `kmalloc` for the size of a POINTER to a File and gets 16 bytes.  The lock of the
File is behind these, where the vnode of the File in the next block is.
-/
import Os161.Lib.Run
import Os161.Vnode

namespace Os161

open Function List

/-! ## 1. The objects -/

/-- `MAX_FILE_FILETAB`. -/
def maxFiletab : Nat := 20

/-- `struct File`, without the lock that does not fit in its block. -/
structure File where
  vnode : Option Nat
  flags : Nat
  offset : Int
  deriving DecidableEq, Repr

/-- The descriptor tables of the threads that exist, and the Files and vnodes that are allocated, by
address. -/
structure FdSys where
  fdesc : Nat → Option (Nat → Option Nat)
  file : Nat → Option File
  vnode : Nat → Option Vnode
  /-- What `lock_create` returns. -/
  newLock : Option Nat

namespace FdSys

/-- A table written, or a thread structure freed. -/
def setTable (s : FdSys) (t : Nat) (tab : Option (Nat → Option Nat)) : FdSys :=
  { s with fdesc := update s.fdesc t tab }

/-- A File allocated, written or freed. -/
def setFile (s : FdSys) (f : Nat) (x : Option File) : FdSys :=
  { s with file := update s.file f x }

/-- A vnode allocated, written or freed. -/
def setVnode (s : FdSys) (v : Nat) (x : Option Vnode) : FdSys :=
  { s with vnode := update s.vnode v x }

/-- `f_lock` of the File at `f` written: if the next block is a File too, this is its vnode. -/
def setLock (s : FdSys) (f : Nat) (lock : Option Nat) : FdSys :=
  s.setFile (f + 16) ((s.file (f + 16)).map fun x => { x with vnode := lock })

end FdSys

/-- The kernel, as far as it is about descriptors. -/
abbrev FdProg := Prog Errno FdSys

/-- The table of a thread. -/
def derefTable (t : Nat) : FdProg (Nat → Option Nat) := do
  let s ← get
  match s.fdesc t with
  | some tab => pure tab
  | none => halt

/-- Follow a pointer to a File. -/
def derefFile : Option Nat → FdProg File
  | none => halt
  | some f => do
    let s ← get
    match s.file f with
    | some x => pure x
    | none => halt

/-- Write a slot of a thread's table. -/
def setSlot (t fd : Nat) (f : Option Nat) : FdProg Unit := do
  let tab ← derefTable t
  modify fun s => s.setTable t (some (update tab fd f))

/-! ## 2. `sys_open` -/

/-- The first free slot after those for the console. -/
def emptyFd (tab : Nat → Option Nat) : Option Nat :=
  (List.range' 3 (maxFiletab - 3)).find? fun fd => (tab fd).isNone

/-- `sys_open` of thread `t`.  `fname` says whether there is memory for the name, `mem` is memory
for the File, and `opened` what `vfs_open` returns: the vnode, which gets a reference and counts
as open, or an error.  `junk` is what is in the File before it is written, and for its vnode what
is in the local variable that `vfs_open` has not set. -/
def sysOpen (t flags : Nat) (fname : Bool) (mem : Option Nat) (opened : Except Errno Nat)
    (junk : File) : FdProg Nat :=
  if fname = false then fail .enomem
  else do
    let tab ← derefTable t
    match emptyFd tab with
    | none => fail .enfile
    | some fd => do
      setSlot t fd mem
      match mem with
      | none => fail .enfile
      | some f => do
        modify fun s => s.setFile f (some junk)
        match opened with
        | .error e => fail e
        | .ok v => do
          modify fun s => s.setVnode v
            (some (vnodeIncopen ((s.vnode v).elim vnodeInit vnodeIncref)))
          modify fun s => s.setFile f (some ⟨some v, flags, 0⟩)
          modify fun s => s.setLock f s.newLock
          pure fd

section Specs

variable {P : Prop} {E : Errno → FdSys → Prop} {s : FdSys} {t fd : Nat} {tab : Nat → Option Nat}

theorem wp_derefTable {Q : (Nat → Option Nat) → FdSys → Prop} (h : s.fdesc t = some tab) :
    Wp P (derefTable t) Q E s ↔ Q tab s := by
  rw [derefTable, wp_bind, wp_get, h]
  exact wp_pure

theorem wp_setSlot {Q : Unit → FdSys → Prop} {y : Option Nat} (h : s.fdesc t = some tab) :
    Wp P (setSlot t fd y) Q E s ↔ Q () (s.setTable t (some (update tab fd y))) := by
  rw [setSlot, wp_bind, wp_derefTable h, wp_modify]

end Specs

end Os161
