/-
# `kern/arch/mips/syscall/syscall.c`: the system calls and user pointers

`copyinout.c` never leaves user space.  What the system calls make of that is another matter.  Some
ignore what it returns, some report it as error 1, and some do not go through it at all and follow
the pointer themselves.

What a call does apart from its user pointers (the file systems, the file table, the heap) is an
argument, a `Backend`, and may be anything.
-/
import Os161.UserMemory

namespace Os161.User

open List

/-! ## 1. The code -/

/-- `PATH_MAX`. -/
def pathMax : Nat := 1024

/-- `NAME_MAX`. -/
def nameMax : Nat := 255

/-- The size of a `struct stat`. -/
def statSize : Nat := 88

/-- What a call does besides following user pointers. -/
structure Backend where
  /-- The error that the call's other checks end it with. -/
  check : Option Errno
  /-- What is in a buffer that `kmalloc` has returned. -/
  junk : List Byte
  junk_length : junk.length < addresses
  /-- What `gettime` returns. -/
  seconds : Bytes 8
  nanoseconds : Bytes 4
  /-- What `VOP_READ` or `vfs_getcwd` has put into the kernel's buffer. -/
  data : List Byte
  /-- What `VOP_STAT` and `VOP_GETDIRENTRY` write, and where in the buffer they have been given. -/
  stores : List (Nat × Byte)
  /-- What `sys_waitpid` writes, unless its caller is the first to wait. -/
  status : Option (Bytes 4)
  /-- What the call returns, given the names and arguments it has got. -/
  result : List (List Byte) → Except Errno Int

namespace Backend

variable (b : Backend)

/-- The checks that have nothing to do with pointers. -/
def checks : Prog Stop UserSpace Unit :=
  match b.check with
  | some e => fail (.errno e)
  | none => return ()

/-- The rest of the call. -/
def finish (names : List (List Byte)) : Prog Stop UserSpace Int :=
  match b.result names with
  | .ok r => return r
  | .error e => fail (.errno e)

/-- `sys___time`. -/
def sysTime (seconds nanoseconds : Nat) : Prog Stop UserSpace Int := do
  copyout b.seconds.toList seconds
  copyout b.nanoseconds.toList nanoseconds
  return 0

/-- A call with a path that ignores what `copyinstr` returns. -/
def pathCall (path : Nat) : Prog Stop UserSpace Int := do
  b.checks
  let r ← copyinstr path b.junk pathMax
  b.finish [r.1]

/-- `sys_open`. -/
def sysOpen (filename : Nat) : Prog Stop UserSpace Int := b.pathCall filename

/-- `sys_chdir`. -/
def sysChdir (fname : Nat) : Prog Stop UserSpace Int := b.pathCall fname

/-- A call with a path that returns 1 if `copyinstr` fails; 1 is the number of `ENOSYS`. -/
def nameCall (pathname : Nat) : Prog Stop UserSpace Int := do
  let r ← copyinstr pathname b.junk nameMax
  if r.2 = none then b.finish [r.1] else fail (.errno .enosys)

/-- `sys_mkdir`. -/
def sysMkdir (pathname : Nat) : Prog Stop UserSpace Int := b.nameCall pathname

/-- `sys_rmdir`. -/
def sysRmdir (pathname : Nat) : Prog Stop UserSpace Int := b.nameCall pathname

/-- `sys_remove`. -/
def sysRemove (pathname : Nat) : Prog Stop UserSpace Int := b.nameCall pathname

/-- `sys_rename`. -/
def sysRename (old new : Nat) : Prog Stop UserSpace Int := do
  let r ← copyinstr old b.junk nameMax
  if r.2 = none then do
    let r' ← copyinstr new b.junk nameMax
    if r'.2 = none then b.finish [r.1, r'.1] else fail (.errno .enosys)
  else fail (.errno .enosys)

/-- `sys_read`, which ignores what `copyout` returns.  All of the buffer is copied out, whatever
`VOP_READ` has put there. -/
def sysRead (buf size : Nat) : Prog Stop UserSpace Int := do
  b.checks
  let _ ← attempt (copyout ((b.data ++ b.junk).takeD size 0) buf)
  b.finish []

/-- `strlen` of a buffer in the kernel. -/
def strlen (l : List Byte) : Nat := (l.takeWhile (· ≠ 0)).length

/-- `sys_write`, which copies as much as the length of what happens to be in the buffer, and ignores
what `copyinstr` returns. -/
def sysWrite (buf : Nat) : Prog Stop UserSpace Int := do
  b.checks
  let r ← copyinstr buf b.junk (strlen b.junk)
  b.finish [r.1]

/-- `sys___getcwd`, which ignores what `copyoutstr` returns. -/
def sysGetcwd (fname buflen : Nat) : Prog Stop UserSpace Int := do
  b.checks
  let _ ← copyoutstr b.data fname buflen
  b.finish []

/-- A function of the kernel is given a user pointer as if it were one of the kernel, and writes to
the `size` bytes there. -/
def storeThrough (p size : Nat) : Prog Stop UserSpace Unit :=
  forEach (fun x => userStore ((p + x.1) % addresses) x.2) (b.stores.filter fun x => x.1 < size)

/-- A call that hands its pointer on. -/
def storeCall (p size : Nat) : Prog Stop UserSpace Int := do
  b.checks
  b.storeThrough p size
  b.finish []

/-- `sys_fstat`. -/
def sysFstat (statbuf : Nat) : Prog Stop UserSpace Int := b.storeCall statbuf statSize

/-- `sys_getdirentry`. -/
def sysGetdirentry (buf buflen : Nat) : Prog Stop UserSpace Int := b.storeCall buf buflen

/-- An `int` is written through a user pointer, which has to be aligned. -/
def storeWord (p : Nat) (w : Bytes 4) : Prog Stop UserSpace Unit :=
  if p % 4 = 0 then storeBlock p w.toList else fail .stuck

/-- `sys_waitpid` after its `copyin`. -/
def sysWaitpidRest (status options : Nat) : Prog Stop UserSpace Int := do
  b.checks
  if status = 0 ∨ options ≠ 0 then fail (.errno .einval)
  else
    match b.status with
    | none => b.finish []
    | some w => do
      storeWord status w
      b.finish []

/-- `sys_waitpid`, which does not mind that `copyin` fails if the process has no parent. -/
def sysWaitpid (ppid status options : Nat) : Prog Stop UserSpace Int := do
  match ← attempt (copyin status 4) with
  | .ok _ => b.sysWaitpidRest status options
  | .error e => if ppid ≠ 0 then fail e else b.sysWaitpidRest status options

/-- A pointer is read through a user pointer. -/
def loadWord (p : Nat) : Prog Stop UserSpace Nat :=
  if p % 4 = 0 then do
    let l ← loadBlock p 4
    return l.foldl (fun n x => n * 256 + x.toNat) 0
  else fail .stuck

/-- `while (args[i] != NULL)`. -/
def loadArgs (p : Nat) : Nat → Prog Stop UserSpace (List Nat)
  | 0 => fail .stuck
  | n + 1 => do
    let w ← loadWord p
    if w = 0 then return []
    else do
      let rest ← loadArgs ((p + 4) % addresses) n
      return w :: rest

/-- `strlen` of a user pointer. -/
def userStrlen (p : Nat) : Nat → Prog Stop UserSpace Nat
  | 0 => fail .stuck
  | n + 1 => do
    let c ← userLoad p
    if c = 0 then return 0
    else do
      let len ← userStrlen ((p + 1) % addresses) n
      return len + 1

/-- The loop over the arguments.  Each `args[i]` is what it was when they were counted. -/
def copyArgs : List Nat → Prog Stop UserSpace (List (List Byte))
  | [] => return []
  | p :: rest => do
    let len ← userStrlen p addresses
    let r ← copyinstr p b.junk (len + 1)
    let argv ← copyArgs rest
    return r.1 :: argv

/-- `sys_execv`, up to the new address space, where only pointers of the kernel's own are used. -/
def sysExecv (progname args : Nat) : Prog Stop UserSpace Int :=
  if progname = 0 then fail (.errno .efault)
  else do
    let r ← copyinstr progname b.junk pathMax
    let ptrs ← loadArgs args addresses
    let argv ← b.copyArgs ptrs
    b.finish (r.1 :: argv)

end Backend

/-- The system calls that have pointers among their arguments, and the others. -/
inductive Syscall
  | time (seconds nanoseconds : Nat)
  | execv (progname args : Nat)
  | waitpid (status options : Nat)
  | openFile (filename : Nat)
  | read (buf size : Nat)
  | write (buf : Nat)
  | getcwd (fname buflen : Nat)
  | chdir (fname : Nat)
  | mkdir (pathname : Nat)
  | rmdir (pathname : Nat)
  | remove (pathname : Nat)
  | rename (old new : Nat)
  | fstat (statbuf : Nat)
  | getdirentry (buf buflen : Nat)
  /-- `SYS_reboot`, `SYS_fork`, `SYS__exit`, `SYS_getpid`, `SYS_close`, `SYS_lseek`, `SYS_dup2` and
  the numbers that there is no call for. -/
  | other
  deriving DecidableEq, Repr

/-- The `switch` of `syscall`. -/
def dispatch (callno : Nat) (a0 a1 a2 : BitVec 32) : Syscall :=
  match callno with
  | 2 => .execv a0.toNat a1.toNat
  | 4 => .waitpid a1.toNat a2.toNat
  | 45 => .openFile a0.toNat
  | 50 => .read a1.toNat a2.toNat
  | 54 => .getdirentry a1.toNat a2.toNat
  | 55 => .write a1.toNat
  | 68 => .remove a0.toNat
  | 69 => .mkdir a0.toNat
  | 70 => .rmdir a0.toNat
  | 72 => .rename a0.toNat a1.toNat
  | 74 => .chdir a0.toNat
  | 76 => .getcwd a0.toNat a1.toNat
  | 82 => .fstat a1.toNat
  | 113 => .time a0.toNat a1.toNat
  | _ => .other

/-- The call, made by a process whose parent has the pid `ppid`. -/
def Syscall.call (b : Backend) (ppid : Nat) : Syscall → Prog Stop UserSpace Int
  | .time seconds nanoseconds => b.sysTime seconds nanoseconds
  | .execv progname args => b.sysExecv progname args
  | .waitpid status options => b.sysWaitpid ppid status options
  | .openFile filename => b.sysOpen filename
  | .read buf size => b.sysRead buf size
  | .write buf => b.sysWrite buf
  | .getcwd fname buflen => b.sysGetcwd fname buflen
  | .chdir fname => b.sysChdir fname
  | .mkdir pathname => b.sysMkdir pathname
  | .rmdir pathname => b.sysRmdir pathname
  | .remove pathname => b.sysRemove pathname
  | .rename old new => b.sysRename old new
  | .fstat statbuf => b.sysFstat statbuf
  | .getdirentry buf buflen => b.sysGetdirentry buf buflen
  | .other => b.finish []

/-! ## 2. Where the calls go by themselves -/

namespace Backend

theorem stays_loadWord (p : Nat) : Stays (loadWord p) :=
  ((stays_loadBlock 4 p).bind fun _ => stays_pure _).ite stays_stuck

theorem stays_loadArgs : ∀ n p, Stays (loadArgs p n)
  | 0, _ => stays_stuck
  | n + 1, p => (stays_loadWord p).bind fun _ =>
    (stays_pure []).ite ((stays_loadArgs n _).bind fun _ => stays_pure _)

theorem stays_userStrlen : ∀ n p, Stays (userStrlen p n)
  | 0, _ => stays_stuck
  | n + 1, p => (stays_userLoad p).bind fun _ =>
    (stays_pure 0).ite ((stays_userStrlen n _).bind fun _ => stays_pure _)

theorem stays_copyArgs (b : Backend) : ∀ ptrs, Stays (b.copyArgs ptrs)
  | [] => stays_pure []
  | p :: rest => (stays_userStrlen addresses p).bind fun _ => (stays_copyinstr p _ _).bind fun _ =>
    (stays_copyArgs b rest).bind fun _ => stays_pure _

/-- The pointer at `p`, which has to be aligned. -/
def wordAt (mem : Nat → Option Byte) (p : Nat) : Option Nat :=
  if p % 4 = 0 then (bytesAt mem p 4).map (List.foldl (fun n x => n * 256 + x.toNat) 0) else none

/-- The array of pointers at `p` leads out of user space. -/
def argsOut (mem : Nat → Option Byte) (p : Nat) : Nat → Bool
  | 0 => false
  | n + 1 =>
    if p % 4 ≠ 0 then false
    else if userspaceTop ≤ p then true
    else
      match wordAt mem p with
      | none => false
      | some w => if w = 0 then false else argsOut mem (p + 4) n

/-- The pointers in the array at `p`, if it ends. -/
def argPtrs (mem : Nat → Option Byte) (p : Nat) : Nat → Option (List Nat)
  | 0 => none
  | n + 1 =>
    match wordAt mem p with
    | none => none
    | some w => if w = 0 then some [] else (argPtrs mem (p + 4) n).map (w :: ·)

/-- One of the strings leads out of user space, and all before it end. -/
def stringsOut (mem : Nat → Option Byte) : List Nat → Bool
  | [] => false
  | p :: rest => strOut mem p addresses || (strEnds mem p addresses && stringsOut mem rest)

variable {P : Prop} {p : Nat} {s : UserSpace}

theorem loadWord_spec (hp : p < userspaceTop) :
    Wp P (loadWord p) (fun w s' => s'.mem = s.mem ∧ Went false s s' ∧ wordAt s.mem p = some w)
      (fun e s' => e = .stuck ∧ s'.mem = s.mem ∧ Went false s s' ∧ wordAt s.mem p = none) s := by
  rw [loadWord, wp_ite, wordAt]
  refine ⟨fun halign => ?_, fun halign => ?_⟩
  · rw [if_pos halign, wp_bind]
    have hlt : ∀ i < 4, p + i < userspaceTop := by
      unfold userspaceTop at *
      omega
    refine (loadBlock_spec hlt).imp (fun l s' hs => ?_) (fun e s' hs => ?_)
    · rw [wp_pure, hs.2.2]
      exact ⟨hs.1, hs.2.1, rfl⟩
    · rw [hs.2.2.2]
      exact ⟨hs.1, hs.2.1, hs.2.2.1, rfl⟩
  · rw [if_neg halign]
    exact wp_fail.mpr ⟨rfl, rfl, .refl s, rfl⟩

theorem loadWord_strays (hp : userspaceTop ≤ p) (halign : p % 4 = 0) :
    Wp False (loadWord p) (fun _ s' => s'.strayed = true)
      (fun e s' => e = .stuck ∧ s'.strayed = true) s := by
  have htouch : (s.touch p).strayed = true := by
    rw [(went_touch s p).strayed, decide_eq_true hp, Bool.or_true]
  rw [loadWord, if_pos halign, loadBlock, wp_bind, wp_bind, wp_userLoad]
  refine ⟨fun b _ => ?_, fun _ => ⟨rfl, htouch⟩⟩
  have hrest : Stays (loadBlock (p + 1) 3 >>= fun rest => pure (b :: rest)) :=
    (stays_loadBlock 3 (p + 1)).bind fun _ => stays_pure _
  exact (hrest _ htouch).post fun _ _ hs => wp_pure.mpr hs

theorem went_true {s' : UserSpace} (h : s'.strayed = true) : Went true s s' :=
  ⟨by rw [h, Bool.or_true], nofun⟩

theorem went_of_stays {α : Type} {m : Prog Stop UserSpace α} {s₁ : UserSpace} (h : Stays m)
    (hs : s₁.strayed = true) :
    Wp False m (fun _ s' => Went true s s') (fun e s' => e = .stuck ∧ Went true s s') s₁ :=
  (h s₁ hs).imp (fun _ _ h => went_true h) fun _ _ h => ⟨h.1, went_true h.2⟩

theorem next_lt {k : Nat} (hp : ¬ userspaceTop ≤ p) (hk : k ≤ 4) : (p + k) % addresses = p + k := by
  refine Nat.mod_eq_of_lt ?_
  unfold addresses userspaceTop at *
  omega

/-- **Counting the arguments.** -/
theorem loadArgs_spec : ∀ {n p : Nat} {s : UserSpace}, Wp False (loadArgs p n)
      (fun ptrs s' => Went (argsOut s.mem p n) s s' ∧ (argsOut s.mem p n = false →
        s'.mem = s.mem ∧ argPtrs s.mem p n = some ptrs))
      (fun e s' => e = .stuck ∧ Went (argsOut s.mem p n) s s' ∧
        (argsOut s.mem p n = false → argPtrs s.mem p n = none)) s
  | 0, _, s => wp_fail.mpr ⟨rfl, .refl s, fun _ => rfl⟩
  | n + 1, p, s => by
    rw [loadArgs, wp_bind, argsOut, argPtrs]
    by_cases halign : p % 4 = 0
    · rw [if_neg (not_not.mpr halign)]
      by_cases hp : userspaceTop ≤ p
      · rw [if_pos hp]
        refine (loadWord_strays hp halign).imp (fun w s₁ hs => ?_)
          fun e s₁ hs => ⟨hs.1, went_true hs.2, nofun⟩
        exact Prog.Wp.imp (went_of_stays ((stays_pure []).ite ((stays_loadArgs n _).bind fun _ =>
          stays_pure _)) hs) (fun _ _ h => ⟨h, nofun⟩) fun _ _ h => ⟨h.1, h.2, nofun⟩
      · rw [if_neg hp]
        refine (loadWord_spec (Nat.lt_of_not_le hp)).imp (fun w s₁ hs => ?_) fun e s₁ hs => ?_
        · obtain ⟨hmem, hwent, hword⟩ := hs
          rw [hword, wp_ite]
          dsimp only
          refine ⟨fun hz => ?_, fun hz => ?_⟩
          · rw [if_pos hz, if_pos hz]
            exact wp_pure.mpr ⟨hwent, fun _ => ⟨hmem, rfl⟩⟩
          · have ih : Wp False (loadArgs (p + 4) n) _ _ s₁ := loadArgs_spec
            rw [hmem] at ih
            rw [if_neg hz, if_neg hz, wp_bind, next_lt hp le_rfl]
            refine ih.imp (fun ptrs s₂ hs => wp_pure.mpr ⟨hwent.trans hs.1, fun ho => ?_⟩)
              fun e s₂ hs => ⟨hs.1, hwent.trans hs.2.1, fun ho => by rw [hs.2.2 ho]; rfl⟩
            rw [(hs.2 ho).2]
            exact ⟨(hs.2 ho).1, rfl⟩
        · rw [hs.2.2.2]
          exact ⟨hs.1, hs.2.2.1, fun _ => rfl⟩
    · rw [if_pos halign, loadWord, if_neg halign, wordAt, if_neg halign]
      exact wp_fail.mpr ⟨rfl, .refl s, fun _ => rfl⟩

/-- **`strlen` of a user pointer.** -/
theorem userStrlen_spec : ∀ {n p : Nat} {s : UserSpace}, Wp False (userStrlen p n)
      (fun len s' => Went (strOut s.mem p n) s s' ∧ (strOut s.mem p n = false → s'.mem = s.mem ∧
        len < n ∧ strEnds s.mem p n = true ∧ strOut s.mem p (len + 1) = false))
      (fun e s' => e = .stuck ∧ Went (strOut s.mem p n) s s' ∧
        (strOut s.mem p n = false → strEnds s.mem p n = false)) s
  | 0, _, s => wp_fail.mpr ⟨rfl, .refl s, fun _ => rfl⟩
  | n + 1, p, s => by
    rw [userStrlen, wp_bind, wp_userLoad]
    simp only [strOut, strEnds]
    by_cases hp : userspaceTop ≤ p
    · have htouch : (s.touch p).strayed = true := by
        rw [(went_touch s p).strayed, decide_eq_true hp, Bool.or_true]
      simp only [if_pos hp]
      refine ⟨fun c _ => ?_, fun _ => ⟨trivial, went_true htouch, by simp⟩⟩
      exact Prog.Wp.imp (went_of_stays ((stays_pure 0).ite ((stays_userStrlen n _).bind fun _ =>
        stays_pure _)) htouch) (fun _ _ h => ⟨h, by simp⟩) fun _ _ h => ⟨h.1, h.2, by simp⟩
    · have hw : Went false s (s.touch p) := went_touch_of_lt (Nat.lt_of_not_le hp)
      simp only [if_neg hp]
      refine ⟨fun c hc => ?_, fun hnone => ?_⟩
      · simp only [hc, wp_ite]
        refine ⟨fun hz => ?_, fun hz => ?_⟩
        · simp only [if_pos hz]
          exact wp_pure.mpr ⟨hw, fun _ => ⟨rfl, Nat.succ_pos n, trivial, trivial⟩⟩
        · have ih : Wp False (userStrlen (p + 1) n) _ _ (s.touch p) := userStrlen_spec
          simp only [if_neg hz]
          rw [wp_bind, next_lt hp (by decide)]
          refine ih.imp (fun len s₁ hs => wp_pure.mpr ⟨hw.trans hs.1, fun ho => ?_⟩)
            fun e s₁ hs => ⟨hs.1, hw.trans hs.2.1, hs.2.2⟩
          obtain ⟨hmem, hlen, hends, hout⟩ := hs.2 ho
          exact ⟨hmem, Nat.succ_lt_succ hlen, hends, hout⟩
      · simp only [hnone]
        exact ⟨trivial, hw, fun _ => trivial⟩

theorem lt_of_strOut {mem : Nat → Option Byte} {n : Nat} (hn : 0 < n) (h : strOut mem p n = false) :
    p < userspaceTop := by
  obtain ⟨n, rfl⟩ := Nat.exists_eq_succ_of_ne_zero (Nat.ne_of_gt hn)
  by_contra hp
  rw [strOut, if_pos (Nat.le_of_not_lt hp)] at h
  cases h

/-- **Copying the arguments.** -/
theorem copyArgs_spec (b : Backend) : ∀ {ptrs : List Nat} {s : UserSpace},
    Wp False (b.copyArgs ptrs) (fun _ s' => Went (stringsOut s.mem ptrs) s s')
      (fun e s' => e = .stuck ∧ Went (stringsOut s.mem ptrs) s s') s
  | [], s => wp_pure.mpr (.refl s)
  | p :: rest, s => by
    rw [copyArgs, wp_bind, stringsOut]
    refine userStrlen_spec.imp (fun len s₁ hs => ?_) fun e s₁ hs => ?_
    · cases hout : strOut s.mem p addresses with
      | true =>
        rw [hout] at hs
        exact went_of_stays ((stays_copyinstr p _ _).bind fun _ => (stays_copyArgs b rest).bind
          fun _ => stays_pure _) (hs.1.strayed.trans (Bool.or_true _))
      | false =>
        obtain ⟨hmem1, hlen, hends, hout'⟩ := hs.2 hout
        have hp : p < addresses := Nat.lt_trans (lt_of_strOut (by decide) hout) (by decide)
        rw [hout] at hs
        rw [hends, Bool.false_or, Bool.true_and]
        refine (copyinstr_spec hp hlen).bind_ok fun r s₂ hs2 => ?_
        obtain ⟨hmem2, hwent2⟩ := hs2
        rw [hmem1, hout'] at hwent2
        have ih : Wp False (b.copyArgs rest) _ _ s₂ := copyArgs_spec b
        rw [hmem2, hmem1] at ih
        have hgo := hs.1.trans hwent2
        exact wp_bind.mpr (ih.imp (fun _ _ h => wp_pure.mpr (hgo.trans h))
          fun _ _ h => ⟨h.1, hgo.trans h.2⟩)
    · refine ⟨hs.1, ?_⟩
      have hwent := hs.2.1
      cases hout : strOut s.mem p addresses with
      | true => rwa [hout] at hwent
      | false =>
        rw [hs.2.2 hout]
        rwa [hout] at hwent

end Backend

/-! ## 3. What is safe -/

/-- The call has touched only user memory through user pointers, kernel memory is as it was, and
if a pointer has led out of user space the call has failed with `EFAULT`. -/
def Safe (mem : Nat → Option Byte) (r : Except Stop Int) (s : UserSpace) : Prop :=
  (∀ a ∈ s.touched, a < userspaceTop) ∧ (∀ a, userspaceTop ≤ a → s.mem a = mem a) ∧
    (s.strayed = true → r = .error (.errno .efault))

/-- The call is safe, with this backend. -/
def SafeCall (b : Backend) (ppid : Nat) (mem : Nat → Option Byte) (k : Syscall) : Prop :=
  ∃ r s, k.call b ppid (start mem) = some (r, s) ∧ Safe mem r s

section Calls

variable {b : Backend} {ppid : Nat} {mem : Nat → Option Byte} {k : Syscall} {s : UserSpace}

theorem safeCall_iff : SafeCall b ppid mem k ↔ Wp False (k.call b ppid)
    (fun r => Safe mem (.ok r)) (fun e => Safe mem (.error e)) (start mem) := by
  unfold SafeCall Wp
  rcases k.call b ppid (start mem) with _ | ⟨_ | _, _⟩ <;> simp

variable {r : Except Stop Int}
  {path pathname old new buf size fname buflen p status options progname args : Nat}

theorem Kept.safe (h : Kept (start mem) s) (hr : s.strayed = true → r = .error (.errno .efault)) :
    Safe mem r s :=
  ⟨fun a ha => (h.touched a ha).resolve_left not_mem_nil, h.kernel, hr⟩

theorem Went.safe (h : Went false (start mem) s) : Safe mem r s :=
  (h.kept rfl).safe fun hs => by
    rw [h.strayed] at hs
    cases hs

/-- A backend where everything goes well. -/
structure Backend.Agreeable (b : Backend) : Prop where
  check : b.check = none
  result : ∀ names, b.result names = .ok 0

variable {out : Bool}

/-- How a call ends whose pointers lead out of user space if `out` says so, provided that it gets
that far.  With an agreeable backend it does, and does not report it. -/
def Ended (b : Backend) (mem : Nat → Option Byte) (out : Bool) (r : Except Stop Int)
    (s : UserSpace) : Prop :=
  ∃ o, Went o (start mem) s ∧ (o = true → out = true) ∧
    (b.Agreeable → o = out ∧ (out = true → r ≠ .error (.errno .efault)))

theorem Went.ended (h : Went out (start mem) s)
    (hr : b.Agreeable → out = true → r ≠ .error (.errno .efault)) :
    Ended b mem out r s :=
  ⟨out, h, id, fun hb => ⟨rfl, hr hb⟩⟩

theorem Ended.safe (h : Ended b mem false r s) : Safe mem r s := by
  obtain ⟨o, hwent, hout, -⟩ := h
  obtain rfl : o = false := Bool.eq_false_iff.mpr fun ho => nomatch hout ho
  exact hwent.safe

theorem Ended.not_safe (h : Ended b mem true r s) (hb : b.Agreeable) : ¬ Safe mem r s := by
  obtain ⟨o, hwent, -, hend⟩ := h
  obtain ⟨rfl, hr⟩ := hend hb
  exact fun hsafe => hr rfl (hsafe.2.2 (hwent.strayed.trans (Bool.or_true _)))

/-- `p` comes back and ends like that. -/
abbrev CallEnds (b : Backend) (mem : Nat → Option Byte) (out : Bool) (p : Prog Stop UserSpace Int)
    (s : UserSpace) : Prop :=
  Wp False p (fun r => Ended b mem out (.ok r)) (fun e => Ended b mem out (.error e)) s

theorem safeCall_of_ended (h : CallEnds b mem out (k.call b ppid) (start mem))
    (hout : out = false) : SafeCall b ppid mem k := by
  subst hout
  exact safeCall_iff.mpr (h.imp (fun _ _ => Ended.safe) fun _ _ => Ended.safe)

theorem not_safeCall (hb : b.Agreeable) (h : CallEnds b mem out (k.call b ppid) (start mem))
    (hout : ¬ out = false) : ¬ SafeCall b ppid mem k := by
  obtain rfl : out = true := Bool.eq_true_of_not_eq_false hout
  rintro ⟨_ | _, s, hrun, hsafe⟩
  · exact (h.of_error hrun).not_safe hb hsafe
  · exact (h.of_ok hrun).not_safe hb hsafe

theorem wp_checks {Q : Unit → UserSpace → Prop} {E : Stop → UserSpace → Prop} (hQ : Q () s)
    (hE : ∀ e, ¬ b.Agreeable → E (.errno e) s) : Wp False b.checks Q E s := by
  unfold Backend.checks
  cases h : b.check with
  | none => exact wp_pure.mpr hQ
  | some e => exact wp_fail.mpr (hE e fun hb => nomatch hb.check.symm.trans h)

theorem wp_checks_bind {f : Unit → Prog Stop UserSpace Int}
    (h : CallEnds b mem out (f ()) (start mem)) :
    CallEnds b mem out (b.checks >>= f) (start mem) :=
  wp_bind.mpr (wp_checks h fun _ hno => ⟨false, .refl _, nofun, fun hb => absurd hb hno⟩)

theorem wp_finish (h : Went out (start mem) s) (names : List (List Byte)) :
    CallEnds b mem out (b.finish names) s := by
  unfold Backend.finish
  cases hr : b.result names with
  | ok r => exact wp_pure.mpr (h.ended fun _ _ => nofun)
  | error e => exact wp_fail.mpr (h.ended fun hb => nomatch (hb.result names).symm.trans hr)

/-- No pointer leads out of user space, unless the call is one that reports it. -/
def Careful (ppid : Nat) (mem : Nat → Option Byte) : Syscall → Prop
  | .time _ _ => True
  | .execv progname args => progname = 0 ∨ (strOut mem progname pathMax = false ∧
      Backend.argsOut mem args addresses = false ∧
      ∀ ptrs, Backend.argPtrs mem args addresses = some ptrs → Backend.stringsOut mem ptrs = false)
  | .waitpid status _ => ppid ≠ 0 ∨ outside status 4 = false
  | .openFile filename => strOut mem filename pathMax = false
  | .read buf size => outside buf size = false
  | .write buf => ∀ n < addresses, strOut mem buf n = false
  | .getcwd fname buflen => ∀ name, strOutTo mem fname name buflen = false
  | .chdir fname => strOut mem fname pathMax = false
  | .mkdir pathname => strOut mem pathname nameMax = false
  | .rmdir pathname => strOut mem pathname nameMax = false
  | .remove pathname => strOut mem pathname nameMax = false
  | .rename old new => strOut mem old nameMax = false ∧
      (strEnds mem old nameMax = true → strOut mem new nameMax = false)
  | .fstat statbuf => outside statbuf statSize = false
  | .getdirentry buf buflen => outside buf buflen = false
  | .other => True

theorem sysTime_safe {seconds nanoseconds : Nat} (hs : seconds < addresses)
    (hn : nanoseconds < addresses) : SafeCall b ppid mem (.time seconds nanoseconds) := by
  rw [safeCall_iff, Syscall.call]
  have hlen : ∀ {n : Nat} (w : Bytes n), n ≤ addresses → w.toList.length ≤ addresses := by
    intro n w hn
    simpa [Bytes.toList, Bytes.slice] using hn
  rw [Backend.sysTime, wp_bind]
  refine (copyout_spec hs (hlen _ (by decide))).imp (fun _ s₁ h1 => ?_) (fun e s₁ h1 => ?_)
  · rw [wp_bind]
    refine (copyout_spec hn (hlen _ (by decide))).imp (fun _ s₂ h2 => ?_) (fun e s₂ h2 => ?_)
    · exact wp_pure.mpr (h1.2.trans h2.2).safe
    · obtain ⟨rfl, hkept, -⟩ := h2
      exact ((h1.2.kept rfl).trans hkept).safe fun _ => rfl
  · obtain ⟨rfl, hkept, -⟩ := h1
    exact hkept.safe fun _ => rfl

theorem pathCall_ended (hp : path < addresses) :
    CallEnds b mem (strOut mem path pathMax) (b.pathCall path) (start mem) :=
  wp_checks_bind ((copyinstr_spec hp (by decide)).bind_ok fun _ _ hs => wp_finish hs.2 _)

theorem nameCall_ended (hp : pathname < addresses) :
    CallEnds b mem (strOut mem pathname nameMax) (b.nameCall pathname) (start mem) := by
  refine (copyinstr_spec hp (by decide)).bind_ok fun r s₁ hs => ?_
  rw [wp_ite]
  exact ⟨fun _ => wp_finish hs.2 _, fun _ => wp_fail.mpr (hs.2.ended fun _ _ => nofun)⟩

/-- One of the names of `rename` leads out of user space. -/
def renameOut (mem : Nat → Option Byte) (old new : Nat) : Bool :=
  strOut mem old nameMax || (strEnds mem old nameMax && strOut mem new nameMax)

theorem renameOut_iff : renameOut mem old new = false ↔ Careful ppid mem (.rename old new) := by
  simp [renameOut, Careful]

theorem sysRename_ended (hold : old < addresses) (hnew : new < addresses) :
    CallEnds b mem (renameOut mem old new) (b.sysRename old new) (start mem) := by
  rw [CallEnds, Backend.sysRename, wp_bind, renameOut]
  refine ((copyinstr_spec hold (by decide)).and (copyinstr_result hold (by decide))).imp
    (fun r s₁ hs => ?_) (fun _ _ hs => hs.1.elim)
  obtain ⟨⟨hmem, hwent⟩, hres⟩ := hs
  have hres : r.2 = none ↔ strEnds mem old nameMax = true := hres
  have hwent : Went (strOut mem old nameMax) (start mem) s₁ := hwent
  rw [wp_ite]
  refine ⟨fun hr => ?_, fun hr => wp_fail.mpr ?_⟩
  · refine (copyinstr_spec hnew (by decide)).bind_ok fun r' s₂ hs => ?_
    rw [hmem] at hs
    rw [hres.mp hr, wp_ite, Bool.true_and]
    exact ⟨fun _ => wp_finish (hwent.trans hs.2) _,
      fun _ => wp_fail.mpr ((hwent.trans hs.2).ended fun _ _ => nofun)⟩
  · rw [Bool.eq_false_iff.mpr fun he => hr (hres.mpr he), Bool.false_and, Bool.or_false]
    exact hwent.ended fun _ _ => nofun

theorem sysRead_ended (hp : buf < addresses) (hsize : size < addresses) :
    CallEnds b mem (outside buf size) (b.sysRead buf size) (start mem) := by
  have hlen : ((b.data ++ b.junk).takeD size 0).length = size := takeD_length _ _ _
  refine wp_checks_bind (wp_bind.mpr (wp_attempt.mpr ?_))
  refine (copyout_spec hp (hlen.trans_le (Nat.le_of_lt hsize))).imp (fun _ s₁ hs => ?_)
    fun e s₁ hs => ?_
  · rw [hlen] at hs
    rw [hs.1]
    exact wp_finish hs.2 _
  · rw [hlen] at hs
    exact wp_finish hs.2.2 _

theorem strlen_le (l : List Byte) : Backend.strlen l ≤ l.length :=
  (takeWhile_sublist _).length_le

theorem sysWrite_ended (hp : buf < addresses) :
    CallEnds b mem (strOut mem buf (Backend.strlen b.junk)) (b.sysWrite buf) (start mem) :=
  wp_checks_bind ((copyinstr_spec hp ((strlen_le _).trans (Nat.le_of_lt b.junk_length))).bind_ok
    fun _ _ hs => wp_finish hs.2 _)

theorem sysGetcwd_ended (hp : fname < addresses) (hlen : buflen < addresses) :
    CallEnds b mem (strOutTo mem fname b.data buflen) (b.sysGetcwd fname buflen) (start mem) :=
  wp_checks_bind ((copyoutstr_spec hp (Nat.le_of_lt hlen)).bind_ok fun _ _ hs => wp_finish hs _)

/-- What is written through a pointer to a block in user space stays there. -/
theorem storeThrough_spec (hout : outside p size = false) :
    Wp False (b.storeThrough p size) (fun _ s' => Went false s s')
      (fun _ s' => Went false s s') s := by
  refine wp_forEach (fun l s' => (∀ x ∈ l, x.1 < size) ∧ Went false s s')
    (fun x xs s₁ h => ?_) _ s ⟨fun x hx => ?_, .refl s⟩ |>.post fun _ _ h => h.2
  · have hx := h.1 x mem_cons_self
    have hlt : (p + x.1) % addresses < userspaceTop := by
      have hout := of_decide_eq_false hout
      unfold addresses userspaceTop at *
      omega
    rw [wp_userStore]
    refine ⟨fun _ => ⟨fun y hy => h.1 y (mem_cons_of_mem _ hy), ?_⟩, fun _ => ?_⟩
    · exact h.2.trans (went_write_of_lt hlt)
    · exact h.2.trans (went_touch_of_lt hlt)
  · simpa using (mem_filter.mp hx).2

theorem storeCall_ended (hout : outside p size = false) :
    CallEnds b mem false (b.storeCall p size) (start mem) :=
  wp_checks_bind (wp_bind.mpr ((storeThrough_spec hout).imp (fun _ _ hs => wp_finish hs _)
    fun _ _ hs => hs.ended fun _ => nofun))

theorem storeCall_strays {i : Nat} {x : Byte} (hlt : p + i < addresses) (hi : i < size)
    (hle : userspaceTop ≤ p + i) (hstores : b.stores = [(i, x)]) :
    CallEnds b mem true (b.storeCall p size) (start mem) := by
  have hfilter : ([(i, x)].filter fun y => y.1 < size) = [(i, x)] := by simp [hi]
  have htouch := went_touch (start mem) (p + i)
  have hwrite := went_write (start mem) (p + i) x
  rw [decide_eq_true hle] at htouch hwrite
  refine wp_checks_bind ?_
  rw [CallEnds, wp_bind, Backend.storeThrough, hstores, hfilter, forEach, wp_bind, forEach]
  rw [Nat.mod_eq_of_lt hlt, wp_userStore, wp_pure]
  exact ⟨fun _ => wp_finish hwrite _, fun _ => htouch.ended fun _ _ => by simp⟩

theorem exists_outside (hp : p < addresses) (h : ¬ outside p size = false) :
    ∃ i, p + i < addresses ∧ i < size ∧ userspaceTop ≤ p + i := by
  have hout := of_decide_eq_true (Bool.eq_true_of_not_eq_false h)
  refine ⟨userspaceTop - p, ?_⟩
  unfold addresses userspaceTop at *
  omega

theorem sysWaitpidRest_ended (h : Went out (start mem) s)
    (hstatus : b.status = none ∨ out = false ∧ outside status 4 = false) :
    CallEnds b mem out (b.sysWaitpidRest status options) s := by
  rw [CallEnds, Backend.sysWaitpidRest, wp_bind]
  refine wp_checks ?_ fun e hno => h.ended fun hb => absurd hb hno
  rw [wp_ite]
  refine ⟨fun _ => wp_fail.mpr (h.ended fun _ _ => nofun), fun _ => ?_⟩
  cases hw : b.status with
  | none => exact wp_finish h _
  | some w =>
    obtain ⟨rfl, hout⟩ := hstatus.resolve_left fun hno => nomatch hno.symm.trans hw
    rw [wp_bind, Backend.storeWord, wp_ite]
    refine ⟨fun _ => ?_, fun _ => wp_fail.mpr (h.ended fun _ _ => nofun)⟩
    have hlt : ∀ i < w.toList.length, status + i < userspaceTop := by
      have hout := of_decide_eq_false hout
      rw [Bytes.length_toList]
      omega
    refine (storeBlock_spec hlt).imp (fun _ _ hs => wp_finish (h.trans (hs.2.1.went hs.1)) _)
      fun e _ hs => ?_
    obtain ⟨hstr, i, -, htouched, -⟩ := hs
    exact (h.trans (htouched.went hstr)).ended fun _ => nofun

theorem sysWaitpid_ended (hp : status < addresses)
    (hstatus : b.status = none ∨ outside status 4 = false) :
    Wp False (b.sysWaitpid ppid status options)
      (fun r => Ended b mem (outside status 4) (.ok r)) (fun e s => Ended b mem (outside status 4)
        (.error e) s ∨ ppid ≠ 0 ∧ e = .errno .efault ∧ Kept (start mem) s) (start mem) := by
  rw [Backend.sysWaitpid, wp_bind, wp_attempt]
  refine (copyin_spec hp (by decide)).imp (fun _ s₁ hs => ?_) (fun e s₁ hs => ?_)
  · rw [hs.1]
    exact (sysWaitpidRest_ended hs.2.2 (.inr ⟨rfl, hs.1⟩)).imp (fun _ _ => id) fun _ _ => .inl
  · obtain ⟨rfl, -, hkept, hwent⟩ := hs
    rw [wp_ite]
    refine ⟨fun hppid => wp_fail.mpr (.inr ⟨hppid, rfl, hkept⟩), fun _ => ?_⟩
    exact (sysWaitpidRest_ended hwent (hstatus.imp_right fun h => ⟨h, h⟩)).imp (fun _ _ => id)
      fun _ _ => .inl

/-- One of the strings of `execv` leads out of user space, or the array of its arguments does. -/
def execvOut (mem : Nat → Option Byte) (progname args : Nat) : Bool :=
  strOut mem progname pathMax || (Backend.argsOut mem args addresses ||
    (Backend.argPtrs mem args addresses).elim false (Backend.stringsOut mem))

theorem execvOut_iff (hne : progname ≠ 0) :
    execvOut mem progname args = false ↔ Careful ppid mem (.execv progname args) := by
  simp only [execvOut, Careful, hne, false_or, Bool.or_eq_false_iff]
  cases Backend.argPtrs mem args addresses <;> simp

theorem sysExecv_ended (hp : progname < addresses) (hne : progname ≠ 0) :
    CallEnds b mem (execvOut mem progname args) (b.sysExecv progname args) (start mem) := by
  rw [Backend.sysExecv, if_neg hne, execvOut]
  refine (copyinstr_spec hp (by decide)).bind_ok fun r s₁ hs => ?_
  obtain ⟨hmem, hwent1⟩ := hs
  have hwent1 : Went (strOut mem progname pathMax) (start mem) s₁ := hwent1
  have hargs : Wp False (Backend.loadArgs args addresses) _ _ s₁ := Backend.loadArgs_spec
  rw [show s₁.mem = mem from hmem] at hargs
  rw [wp_bind]
  refine hargs.imp (fun ptrs s₂ hs => ?_) fun e s₂ hs => ?_
  · obtain ⟨hwent2, hptrs⟩ := hs
    have hout : (Backend.argsOut mem args addresses || Backend.stringsOut s₂.mem ptrs) =
        (Backend.argsOut mem args addresses ||
          (Backend.argPtrs mem args addresses).elim false (Backend.stringsOut mem)) := by
      cases ho : Backend.argsOut mem args addresses with
      | true => rfl
      | false =>
        obtain ⟨hmem2, hptrs⟩ := hptrs ho
        rw [hptrs, hmem2]
        rfl
    rw [wp_bind, ← hout]
    refine (Backend.copyArgs_spec b).imp (fun argv s₃ hs => ?_) fun e s₃ hs => ?_
    · exact wp_finish (hwent1.trans (hwent2.trans hs)) _
    · obtain ⟨rfl, hs⟩ := hs
      exact (hwent1.trans (hwent2.trans hs)).ended fun _ _ => nofun
  · obtain ⟨rfl, hwent2, hnone⟩ := hs
    have hout : (Backend.argsOut mem args addresses ||
        (Backend.argPtrs mem args addresses).elim false (Backend.stringsOut mem)) =
        Backend.argsOut mem args addresses := by
      cases ho : Backend.argsOut mem args addresses with
      | true => rfl
      | false =>
        rw [hnone ho]
        rfl
    rw [hout]
    exact (hwent1.trans hwent2).ended fun _ _ => nofun

/-- Such a backend, with the parts that matter. -/
def agreeable (junk : List Byte) (h : junk.length < addresses) (data : List Byte)
    (stores : List (Nat × Byte)) : Backend where
  check := none
  junk := junk
  junk_length := h
  seconds := fun _ => 0
  nanoseconds := fun _ => 0
  data := data
  stores := stores
  status := none
  result := fun _ => .ok 0

theorem agreeable_agreeable (junk : List Byte) (h : junk.length < addresses) (data : List Byte)
    (stores : List (Nat × Byte)) : (agreeable junk h data stores).Agreeable := ⟨rfl, fun _ => rfl⟩

/-- The arguments of a call are what a register can hold. -/
def Syscall.InRange : Syscall → Prop
  | .time seconds nanoseconds => seconds < addresses ∧ nanoseconds < addresses
  | .execv progname _ => progname < addresses
  | .waitpid status _ => status < addresses
  | .openFile filename => filename < addresses
  | .read buf size => buf < addresses ∧ size < addresses
  | .write buf => buf < addresses
  | .getcwd fname buflen => fname < addresses ∧ buflen < addresses
  | .chdir fname => fname < addresses
  | .mkdir pathname => pathname < addresses
  | .rmdir pathname => pathname < addresses
  | .remove pathname => pathname < addresses
  | .rename old new => old < addresses ∧ new < addresses
  | .fstat statbuf => statbuf < addresses
  | .getdirentry buf _ => buf < addresses
  | .other => True

theorem dispatch_inRange (callno : Nat) (a0 a1 a2 : BitVec 32) :
    (dispatch callno a0 a1 a2).InRange := by
  unfold dispatch
  split
  case h_1 | h_3 | h_7 | h_8 | h_9 | h_11 => exact a0.isLt
  case h_2 | h_5 | h_6 | h_13 => exact a1.isLt
  case h_4 => exact ⟨a1.isLt, a2.isLt⟩
  case h_10 | h_12 | h_14 => exact ⟨a0.isLt, a1.isLt⟩
  case h_15 => trivial

theorem Syscall.safe_of_careful (hk : k.InRange) (h : Careful ppid mem k) :
    SafeCall b ppid mem k := by
  cases k with
  | time seconds nanoseconds => exact sysTime_safe hk.1 hk.2
  | execv progname args =>
    by_cases hne : progname = 0
    · refine safeCall_iff.mpr ?_
      rw [Syscall.call, Backend.sysExecv, if_pos hne]
      exact wp_fail.mpr (Went.refl _).safe
    · exact safeCall_of_ended (sysExecv_ended hk hne) ((execvOut_iff hne).mpr h)
  | waitpid status options =>
    refine safeCall_iff.mpr ?_
    cases hout : outside status 4 with
    | false =>
      have hend : Wp False (b.sysWaitpid ppid status options) _ _ (start mem) :=
        sysWaitpid_ended hk (.inr hout)
      rw [hout] at hend
      refine hend.imp (fun _ _ => Ended.safe) fun e _ he => he.elim Ended.safe ?_
      rintro ⟨-, rfl, hkept⟩
      exact hkept.safe fun _ => rfl
    | true =>
      have hppid := h.resolve_right fun hno => nomatch hno.symm.trans hout
      rw [Syscall.call, Backend.sysWaitpid, wp_bind, wp_attempt]
      refine (copyin_spec hk (by decide)).imp (fun _ _ hs => nomatch hs.1.symm.trans hout)
        fun e s hs => ?_
      obtain ⟨rfl, -, hkept, -⟩ := hs
      dsimp only
      rw [if_pos hppid]
      exact wp_fail.mpr (hkept.safe fun _ => rfl)
  | openFile filename => exact safeCall_of_ended (pathCall_ended hk) h
  | read buf size => exact safeCall_of_ended (sysRead_ended hk.1 hk.2) h
  | write buf =>
    exact safeCall_of_ended (sysWrite_ended hk) (h _ ((strlen_le _).trans_lt b.junk_length))
  | getcwd fname buflen => exact safeCall_of_ended (sysGetcwd_ended hk.1 hk.2) (h _)
  | chdir fname => exact safeCall_of_ended (pathCall_ended hk) h
  | mkdir pathname => exact safeCall_of_ended (nameCall_ended hk) h
  | rmdir pathname => exact safeCall_of_ended (nameCall_ended hk) h
  | remove pathname => exact safeCall_of_ended (nameCall_ended hk) h
  | rename old new => exact safeCall_of_ended (sysRename_ended hk.1 hk.2) (renameOut_iff.mpr h)
  | fstat statbuf => exact safeCall_of_ended (storeCall_ended h) rfl
  | getdirentry buf buflen => exact safeCall_of_ended (storeCall_ended h) rfl
  | other => exact safeCall_of_ended (wp_finish (.refl _) _) rfl

theorem strlen_replicate (n : Nat) : Backend.strlen (replicate n (1 : Byte)) = n := by
  rw [Backend.strlen, takeWhile_replicate, if_pos (by decide), length_replicate]

theorem Syscall.not_safe (hk : k.InRange) (h : ¬ Careful ppid mem k) :
    ∃ b, ¬ SafeCall b ppid mem k := by
  have hplain := agreeable_agreeable [] (by decide) [] []
  cases k with
  | time seconds nanoseconds => exact absurd trivial h
  | execv progname args =>
    have hne := (not_or.mp h).1
    exact ⟨_, not_safeCall hplain (sysExecv_ended hk hne) fun ho => h ((execvOut_iff hne).mp ho)⟩
  | waitpid status options =>
    obtain ⟨hppid, hnot⟩ := not_or.mp h
    refine ⟨_, not_safeCall hplain (Prog.Wp.imp (sysWaitpid_ended hk (.inl rfl)) (fun _ _ => id)
      fun _ _ he => he.resolve_right fun he => hppid he.1) hnot⟩
  | openFile filename => exact ⟨_, not_safeCall hplain (pathCall_ended hk) h⟩
  | read buf size => exact ⟨_, not_safeCall hplain (sysRead_ended hk.1 hk.2) h⟩
  | write buf =>
    obtain ⟨n, hn⟩ := not_forall.mp h
    obtain ⟨hlt, hout⟩ := Classical.not_imp.mp hn
    have hlen : (replicate n (1 : Byte)).length < addresses := by rwa [length_replicate]
    refine ⟨agreeable (replicate n 1) hlen [] [],
      not_safeCall (agreeable_agreeable _ _ _ _) (sysWrite_ended hk) ?_⟩
    exact (strlen_replicate n).symm ▸ hout
  | getcwd fname buflen =>
    obtain ⟨name, hout⟩ := not_forall.mp h
    exact ⟨agreeable [] (by decide) name [],
      not_safeCall (agreeable_agreeable _ _ _ _) (sysGetcwd_ended hk.1 hk.2) hout⟩
  | chdir fname => exact ⟨_, not_safeCall hplain (pathCall_ended hk) h⟩
  | mkdir pathname => exact ⟨_, not_safeCall hplain (nameCall_ended hk) h⟩
  | rmdir pathname => exact ⟨_, not_safeCall hplain (nameCall_ended hk) h⟩
  | remove pathname => exact ⟨_, not_safeCall hplain (nameCall_ended hk) h⟩
  | rename old new =>
    exact ⟨_, not_safeCall hplain (sysRename_ended hk.1 hk.2) fun ho => h (renameOut_iff.mp ho)⟩
  | fstat statbuf =>
    obtain ⟨i, hlt, hi, hle⟩ := exists_outside hk h
    exact ⟨agreeable [] (by decide) [] [(i, 0)], not_safeCall (agreeable_agreeable _ _ _ _)
      (storeCall_strays hlt hi hle rfl) nofun⟩
  | getdirentry buf buflen =>
    obtain ⟨i, hlt, hi, hle⟩ := exists_outside hk h
    exact ⟨agreeable [] (by decide) [] [(i, 0)], not_safeCall (agreeable_agreeable _ _ _ _)
      (storeCall_strays hlt hi hle rfl) nofun⟩
  | other => exact absurd trivial h

end Calls

end Os161.User
