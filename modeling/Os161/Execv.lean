/-
# `kern/thread/thread.c`: `sys_execv`

`sys_execv` copies the name of the program and the arguments into the kernel, opens the file, throws
the old address space away, makes a new one, loads the program into it, and builds the arguments on
the new stack.  What can go wrong without the code's doing is in `ExecAnswers`: how `kmalloc` comes
by its blocks and what is in them, and what `vfs_open` returns.

Two things are said about it.  When it returns an error the process should be as it was.  It is so
as long as the error comes from `vfs_open` or before; every later error finds the old address space
DESTROYED and nothing, or a half-loaded one, in its place (`execv_failure_invisible_iff`).

When it does not return, the new program should find its arguments.  The kernel writes
`pstack[argc]` in an array of `argc` entries, and `argv` has room for one entry, so that something
is written where it does not belong for EVERY argument vector (`execv_args_never_faithful`).  Even
apart from that the NULL pointer is never copied out, and the pointers may be at addresses that are
not multiples of four.
-/
import Os161.Lib.CString
import Os161.LoadElf

namespace Os161

open List Prog

/-! ## 1. Memory -/

/-- A byte is read by the kernel, at a user address or directly in memory. -/
def loadByte (a : Nat) : AsProg Byte := do
  let s ← get
  if a < mipsKseg0 then do
    let p ← userAddress .read a
    pure (s.1.mem p)
  else if a - mipsKseg0 < s.1.ram.lastpaddr then pure (s.1.mem (a - mipsKseg0))
  else fail .efault

/-- A word is read by the kernel. -/
def loadWord (a : Nat) : AsProg Nat := do
  assert (a % 4 = 0)
  let b₀ ← loadByte a
  let b₁ ← loadByte (a + 1)
  let b₂ ← loadByte (a + 2)
  let b₃ ← loadByte (a + 3)
  pure (b₀.toNat * 16777216 + b₁.toNat * 65536 + b₂.toNat * 256 + b₃.toNat)

/-- The string that `strlen` goes along. -/
def readString : Nat → Nat → AsProg (List Byte)
  | 0, _ => halt
  | n + 1, a => do
    let b ← loadByte a
    if b = 0 then pure []
    else do
      let bs ← readString n (a + 1)
      pure (b :: bs)

/-- A byte is copied in.  If there is no buffer, it goes to the user address `d`. -/
def copyinByte (buffer : Bool) (a d : Nat) : AsProg Byte := do
  let p ← userAddress .read a
  let s ← get
  if buffer = true then pure (s.1.mem p)
  else do
    storeByte d (s.1.mem p)
    pure (s.1.mem p)

/-- The loop of `copystr` from a user address: what is copied before it ends, one way or another. -/
def copyinLoop (buffer : Bool) : Nat → Nat → Nat → AsProg (List Byte)
  | 0, _, _ => pure []
  | n + 1, a, d => do
    match ← attempt (copyinByte buffer a d) with
    | .error _ => pure []
    | .ok b =>
      if b = 0 then pure [0]
      else do
        let bs ← copyinLoop buffer n (a + 1) (d + 1)
        pure (b :: bs)

/-- `copyinstr` to a buffer, or to NULL. -/
def copyinStr (buffer : Bool) (usersrc len : Nat) : AsProg (List Byte) := do
  let stoplen ← ofResult (User.copycheck usersrc len)
  copyinLoop buffer (min len stoplen) usersrc 0

/-- `copyoutstr`, for a string whose end is not among its first `len` bytes. -/
def copyoutStr (src : List Byte) (userdest len : Nat) : AsProg Unit := do
  let stoplen ← ofResult (User.copycheck userdest len)
  storeBytes userdest (src.take (min len stoplen))

/-- `kmalloc`: whether there is a block. -/
def kmallocBlock (sz : Nat) (way : KmallocWay) : Prog Errno Dumbvm Bool :=
  if sz ≥ largestSubpageSize then do
    let p ← takePages (kmallocPages sz)
    pure (decide (p ≠ 0))
  else kmallocSmall way

/-! ## 2. The thread -/

/-- The thread that calls `execv`: the machine; its address space, with a number that tells address
spaces apart; how many there have been; how often files were opened and closed; and whether a kernel
buffer has been written behind its end. -/
structure ExecThread where
  vm : Dumbvm
  space : Option (Nat × Addrspace)
  made : Nat
  opened : Nat
  closed : Nat
  overran : Bool

abbrev ExecProg (α : Type) := Prog Errno ExecThread α

/-- On the machine. -/
def onVm {α : Type} (m : Prog Errno Dumbvm α) : ExecProg α :=
  zoom ExecThread.vm (fun t vm => { t with vm }) m

/-- On the machine and the current address space. -/
def onSpace {α : Type} (m : AsProg α) : ExecProg α := do
  let t ← get
  match t.space with
  | none => fail .efault
  | some (n, as) =>
    zoom (fun t => (t.vm, as)) (fun t s => { t with vm := s.1, space := some (n, s.2) }) m

/-- A fault that nobody has provided for. -/
def orPanic {α : Type} (m : ExecProg α) : ExecProg α := do
  match ← attempt m with
  | .ok x => pure x
  | .error _ => halt

/-- Entry `i` of a buffer of `size` entries is written. -/
def noteEntry (size i : Nat) : ExecProg Unit :=
  modify fun t => { t with overran := t.overran || decide (size ≤ i) }

/-- `vfs_close`. -/
def vfsCloseExec : ExecProg Unit := modify fun t => { t with closed := t.closed + 1 }

/-- What the rest of the system answers. -/
structure ExecAnswers where
  fname : KmallocWay
  argv : KmallocWay
  /-- The buffer for argument `i`, and what is in it. -/
  arg : Nat → KmallocWay × List Byte
  vfsOpen : Except Errno ExecFile
  space : KmallocWay

/-- `PATH_MAX`. -/
def pathMax : Nat := 1024

/-- What `enter_new_process` is called with. -/
structure Entered where
  argc : Nat
  argv : Nat
  stackptr : Nat
  entrypoint : Nat
  deriving DecidableEq, Repr

/-! ## 3. `sys_execv` -/

/-- `args[i]`, which the kernel reads where the process has it. -/
def argPointer (args i : Nat) : ExecProg Nat := orPanic (onSpace (loadWord (args + 4 * i)))

/-- The loop that counts the arguments. -/
def countArgs (args : Nat) : Nat → Nat → ExecProg Nat
  | 0, _ => halt
  | n + 1, i => do
    let p ← argPointer args i
    if p = 0 then pure i else countArgs args n (i + 1)

/-- `argv = kmalloc(sizeof(char*))` has room for one entry. -/
def argvEntries : Nat := 1

/-- Argument `i` is copied to `argv[i]`, which is NULL if there is no memory for it. -/
def copyArg (args : Nat) (a : ExecAnswers) (i : Nat) : ExecProg (Option (List Byte)) := do
  let p ← argPointer args i
  let str ← orPanic (onSpace (readString User.addresses p))
  let ok ← onVm (kmallocBlock (str.length + 1) (a.arg i).1)
  noteEntry argvEntries i
  let got ← attempt (onSpace (copyinStr ok p (str.length + 1)))
  match ok, got with
  | false, _ => pure none
  | true, .error _ => pure (some (a.arg i).2)
  | true, .ok bs => pure (some (bs ++ (a.arg i).2.drop bs.length))

/-- All of them. -/
def copyArgs (args : Nat) (a : ExecAnswers) : List Nat → ExecProg (List (Option (List Byte)))
  | [] => pure []
  | i :: is => do
    let buf ← copyArg args a i
    let bufs ← copyArgs args a is
    pure (buf :: bufs)

/-- `strlen` of a kernel buffer, or of what is at NULL. -/
def bufferString : Option (List Byte) → ExecProg (List Byte)
  | none => orPanic (onSpace (readString User.addresses 0))
  | some buf => do
    assert (0 ∈ buf)
    pure (buf.takeWhile fun b => b ≠ 0)

/-- The room that a string gets on the stack. -/
def stringRoom (len : Nat) : Nat := len + if len % 4 = 0 then 4 else len % 4

/-- `stackptr - n`. -/
def stackDown (stackptr n : Nat) : Nat := u32 (stackptr + (4294967296 - u32 n))

/-- The strings are put on the stack, the last one first: the stack pointer, and `pstack`. -/
def pushStrings (stackptr : Nat) : List (Option (List Byte)) → ExecProg (Nat × List Nat)
  | [] => pure (stackptr, [])
  | buf :: bufs => do
    let r ← pushStrings stackptr bufs
    let str ← bufferString buf
    let sp := stackDown r.1 (stringRoom str.length)
    let _ ← attempt (onSpace (copyoutStr str sp str.length))
    pure (sp, sp :: r.2)

/-- The pointers are put on the stack, the last one first. -/
def pushPointers (stackptr : Nat) : List Nat → AsProg Nat
  | [] => pure stackptr
  | p :: ps => do
    let sp ← pushPointers stackptr ps
    let _ ← attempt (copyoutBytes (numberBytes 4 p) (stackDown sp 4))
    pure (stackDown sp 4)

/-- The end of `sys_execv`, when the program is loaded. -/
def execStack (argv : List (Option (List Byte))) (entrypoint : Nat) : ExecProg Entered := do
  let stackptr ← onSpace asDefineStack
  let r ← pushStrings stackptr argv
  -- `pstack[argc] = NULL`
  noteEntry argv.length argv.length
  let sp ← onSpace (pushPointers r.1 r.2)
  pure { argc := argv.length, argv := sp, stackptr := sp, entrypoint }

/-- The program is loaded into the new address space. -/
def execLoad (v : ExecFile) (argv : List (Option (List Byte))) : ExecProg Entered := do
  match ← attempt (onSpace (loadElf v)) with
  | .error e => do
    vfsCloseExec
    fail e
  | .ok entrypoint => do
    vfsCloseExec
    execStack argv entrypoint

/-- The old address space is destroyed, and a new one is made. -/
def execSpace (v : ExecFile) (argv : List (Option (List Byte))) (way : KmallocWay) :
    ExecProg Entered := do
  modify fun t => { t with opened := t.opened + 1, space := none }
  match ← onVm (asCreate way) with
  | none => do
    vfsCloseExec
    fail .enomem
  | some as => do
    modify fun t => { t with space := some (t.made, as), made := t.made + 1 }
    onVm asActivate
    execLoad v argv

/-- The name of the program is looked at, in its buffer or at NULL. -/
def pathAt (buffer : Bool) : ExecProg Unit :=
  if buffer = true then pure ()
  else do
    let _ ← orPanic (onSpace (loadByte 0))
    pure ()

/-- The first part of `sys_execv`: the arguments are copied into the kernel. -/
def execArgs (progname args : Nat) (a : ExecAnswers) : ExecProg (List (Option (List Byte))) := do
  let fname ← onVm (kmallocBlock pathMax a.fname)
  let _ ← attempt (onSpace (copyinStr fname progname pathMax))
  let argc ← countArgs args User.addresses 0
  let ok ← onVm (kmallocBlock 4 a.argv)
  -- The next thing is that something is written to `argv`.
  assert (ok = true)
  let argv ← copyArgs args a (List.range argc)
  -- `argv[argc] = NULL`
  noteEntry argvEntries argc
  pathAt fname
  pure argv

/-- `sys_execv`.  It does not return if all goes well, and then the result is what
`enter_new_process` is called with. -/
def sysExecv (progname args : Nat) (a : ExecAnswers) : ExecProg Entered := do
  if progname = 0 then fail .efault
  else do
    let argv ← execArgs progname args a
    match a.vfsOpen with
    | .error e => fail e
    | .ok v => execSpace v argv a.space

/-! ## 4. As long as the old address space is there -/

/-- The address space is `as`, the memory is `mem`, and the TLB has nothing wrong in it. -/
structure Untouched (as : Addrspace) (mem : Nat → Byte) (s : Dumbvm × Addrspace) : Prop where
  space : s.2 = as
  tlb : ∀ e ∈ s.1.tlb, as.pageAt e.1 = some e.2
  mem : s.1.mem = mem

section Untouched

variable {as : Addrspace} {mem : Nat → Byte}

/-- Looking an address up leaves everything as it is, and finds no address that is not mapped. -/
theorem userAddress_untouched (faulttype : VmFaultType) (a : Nat) {s : Dumbvm × Addrspace}
    (h : Untouched as mem s) :
    Wp True (userAddress faulttype a) (fun p s' => as.translate a = some p ∧ Untouched as mem s')
      (fun _ => Untouched as mem) s := by
  obtain ⟨rfl, htlb, hmem⟩ := h
  refine (userAddress_spec faulttype a htlb).imp ?_ ?_
  · intro p s' h'
    exact ⟨h'.1, h'.2.space, h'.2.tlb, h'.2.mem.trans hmem⟩
  · intro e s' h'
    exact ⟨h'.space, h'.tlb, h'.mem.trans hmem⟩

theorem keeps_userAddress (faulttype : VmFaultType) (a : Nat) :
    Prog.Keeps (Untouched as mem) (fun _ => Untouched as mem) (userAddress faulttype a) :=
  fun _ h => (userAddress_untouched faulttype a h).post fun _ _ h' => h'.2

theorem keeps_loadByte (a : Nat) :
    Prog.Keeps (Untouched as mem) (fun _ => Untouched as mem) (loadByte a) :=
  keeps_get.bind fun _ =>
    ((keeps_userAddress .read a).bind fun _ => keeps_pure _).ite
      ((keeps_pure _).ite (keeps_fail fun _ => id))

theorem keeps_loadWord (a : Nat) :
    Prog.Keeps (Untouched as mem) (fun _ => Untouched as mem) (loadWord a) :=
  (keeps_assert _).bind fun _ => (keeps_loadByte a).bind fun _ =>
    (keeps_loadByte (a + 1)).bind fun _ => (keeps_loadByte (a + 2)).bind fun _ =>
      (keeps_loadByte (a + 3)).bind fun _ => keeps_pure _

theorem keeps_readString (n a : Nat) :
    Prog.Keeps (Untouched as mem) (fun _ => Untouched as mem) (readString n a) := by
  induction n generalizing a with
  | zero => exact keeps_halt
  | succ n ih =>
    exact (keeps_loadByte a).bind fun _ =>
      (keeps_pure _).ite ((ih (a + 1)).bind fun _ => keeps_pure _)

theorem keeps_copyinLoop (n a d : Nat) :
    Prog.Keeps (Untouched as mem) (fun _ => Untouched as mem) (copyinLoop true n a d) := by
  have hbyte : ∀ a d, Prog.Keeps (Untouched as mem) (fun _ => Untouched as mem)
      (copyinByte true a d) := by
    intro a d
    exact (keeps_userAddress .read a).bind fun _ => keeps_get.bind fun _ => keeps_pure _
  induction n generalizing a d with
  | zero => exact keeps_pure _
  | succ n ih =>
    refine (hbyte a d).attempt.bind fun r => ?_
    cases r with
    | error e => exact keeps_pure _
    | ok b =>
      exact (keeps_pure _).ite ((ih (a + 1) (d + 1)).bind fun _ => keeps_pure _)

/-- If nothing is mapped at NULL, nothing is copied there: the first byte already makes it fail. -/
theorem keeps_copyinLoop_null (hnull : as.translate 0 = none) (n a : Nat) :
    Prog.Keeps (Untouched as mem) (fun _ => Untouched as mem) (copyinLoop false n a 0) := by
  cases n with
  | zero => exact keeps_pure _
  | succ n =>
    intro s h
    refine wp_bind.mpr (wp_attempt.mpr ?_)
    refine wp_bind.mpr ((userAddress_untouched .read a h).imp ?_ fun _ _ h' => wp_pure.mpr h')
    rintro p s' ⟨-, h'⟩
    rw [wp_bind, wp_get]
    refine wp_bind.mpr (wp_bind.mpr ((userAddress_untouched .write 0 h').imp ?_
      fun _ _ h'' => wp_pure.mpr h''))
    rintro q s'' ⟨hq, -⟩
    rw [hnull] at hq
    cases hq

theorem keeps_copyinStr (hnull : as.translate 0 = none) (buffer : Bool) (usersrc len : Nat) :
    Prog.Keeps (Untouched as mem) (fun _ => Untouched as mem) (copyinStr buffer usersrc len) := by
  refine (keeps_ofResult fun _ _ => id).bind fun stoplen => ?_
  cases buffer with
  | true => exact keeps_copyinLoop _ _ _
  | false => exact keeps_copyinLoop_null hnull _ _

end Untouched

theorem kmallocBlock_spec (sz : Nat) (way : KmallocWay) (s : Dumbvm) :
    Wp False (kmallocBlock sz way) (fun _ s' => s'.mem = s.mem ∧ s'.tlb = s.tlb)
      (fun _ _ => False) s := by
  unfold kmallocBlock
  rw [wp_ite]
  constructor
  · intro _
    refine (takePages_spec _ s).bind ?_
    rintro p s' ⟨hmem, htlb, -⟩
    exact wp_pure.mpr ⟨hmem, htlb⟩
  · intro _
    exact (kmallocSmall_spec way s).post fun _ _ h => ⟨h.1, h.2.1⟩

/-- The thread has the address space `n` still, which is `as`, with the same contents, and no file
has been opened or closed. -/
structure Quiet (n : Nat) (as : Addrspace) (t₀ t : ExecThread) : Prop where
  space : t.space = some (n, as)
  untouched : Untouched as t₀.vm.mem (t.vm, as)
  opened : t.opened = t₀.opened
  closed : t.closed = t₀.closed
  made : t.made = t₀.made

section Quiet

variable {n : Nat} {as : Addrspace} {t₀ : ExecThread} {α : Type}

theorem keeps_onVm_kmallocBlock (sz : Nat) (way : KmallocWay) :
    Prog.Keeps (Quiet n as t₀) (fun _ _ => False) (onVm (kmallocBlock sz way)) := by
  intro t h
  refine wp_zoom.mpr ((kmallocBlock_spec sz way t.vm).weaken.post ?_)
  rintro _ s' ⟨hmem, htlb⟩
  refine ⟨h.space, ⟨rfl, ?_, hmem.trans h.untouched.mem⟩, h.opened, h.closed, h.made⟩
  rw [htlb]
  exact h.untouched.tlb

theorem keeps_onSpace {m : AsProg α}
    (hm : Prog.Keeps (Untouched as t₀.vm.mem) (fun _ => Untouched as t₀.vm.mem) m) :
    Prog.Keeps (Quiet n as t₀) (fun _ => Quiet n as t₀) (onSpace m) := by
  intro t h
  unfold onSpace
  rw [wp_bind, wp_get, h.space]
  have hput : ∀ s : Dumbvm × Addrspace, Untouched as t₀.vm.mem s →
      Quiet n as t₀ { t with vm := s.1, space := some (n, s.2) } := by
    rintro ⟨vm, as'⟩ hs
    cases hs.space
    exact ⟨rfl, hs, h.opened, h.closed, h.made⟩
  exact wp_zoom.mpr ((hm _ h.untouched).imp (fun _ s hs => hput s hs) fun _ s hs => hput s hs)

theorem keeps_orPanic {I : ExecThread → Prop} {E : Errno → ExecThread → Prop} {m : ExecProg α}
    (hm : Prog.Keeps I (fun _ => I) m) : Prog.Keeps I E (orPanic m) := by
  refine hm.attempt.bind fun r => ?_
  cases r with
  | ok x => exact keeps_pure x
  | error e => exact keeps_halt

theorem keeps_noteEntry (size i : Nat) :
    Prog.Keeps (Quiet n as t₀) (fun _ _ => False) (noteEntry size i) :=
  keeps_modify fun _ h => { h with }

theorem keeps_argPointer (args i : Nat) :
    Prog.Keeps (Quiet n as t₀) (fun _ _ => False) (argPointer args i) :=
  keeps_orPanic (keeps_onSpace (keeps_loadWord _))

theorem keeps_countArgs (args k i : Nat) :
    Prog.Keeps (Quiet n as t₀) (fun _ _ => False) (countArgs args k i) := by
  induction k generalizing i with
  | zero => exact keeps_halt
  | succ k ih => exact (keeps_argPointer args i).bind fun _ => (keeps_pure _).ite (ih (i + 1))

theorem keeps_copyArg (hnull : as.translate 0 = none) (args : Nat) (a : ExecAnswers) (i : Nat) :
    Prog.Keeps (Quiet n as t₀) (fun _ _ => False) (copyArg args a i) := by
  refine (keeps_argPointer args i).bind fun p => ?_
  refine (keeps_orPanic (keeps_onSpace (keeps_readString _ _))).bind fun str => ?_
  refine (keeps_onVm_kmallocBlock _ _).bind fun ok => ?_
  refine (keeps_noteEntry _ _).bind fun _ => ?_
  refine (keeps_onSpace (keeps_copyinStr hnull ok p _)).attempt.bind fun got => ?_
  cases ok with
  | false => exact keeps_pure _
  | true =>
    cases got with
    | error e => exact keeps_pure _
    | ok bs => exact keeps_pure _

theorem keeps_copyArgs (hnull : as.translate 0 = none) (args : Nat) (a : ExecAnswers)
    (is : List Nat) : Prog.Keeps (Quiet n as t₀) (fun _ _ => False) (copyArgs args a is) := by
  induction is with
  | nil => exact keeps_pure _
  | cons i is ih =>
    exact (keeps_copyArg hnull args a i).bind fun _ => ih.bind fun _ => keeps_pure _

theorem keeps_pathAt (buffer : Bool) :
    Prog.Keeps (Quiet n as t₀) (fun _ _ => False) (pathAt buffer) :=
  (keeps_pure _).ite ((keeps_orPanic (keeps_onSpace (keeps_loadByte 0))).bind fun _ => keeps_pure _)

/-- **Copying the arguments in changes nothing**, and does not fail either. -/
theorem keeps_execArgs (hnull : as.translate 0 = none) (progname args : Nat) (a : ExecAnswers) :
    Prog.Keeps (Quiet n as t₀) (fun _ _ => False) (execArgs progname args a) := by
  refine (keeps_onVm_kmallocBlock _ _).bind fun fname => ?_
  refine (keeps_onSpace (keeps_copyinStr hnull fname _ _)).attempt.bind fun _ => ?_
  refine (keeps_countArgs _ _ _).bind fun argc => ?_
  refine (keeps_onVm_kmallocBlock _ _).bind fun ok => ?_
  refine (keeps_assert _).bind fun _ => ?_
  refine (keeps_copyArgs hnull _ _ _).bind fun argv => ?_
  refine (keeps_noteEntry _ _).bind fun _ => ?_
  exact (keeps_pathAt fname).bind fun _ => keeps_pure _

end Quiet

/-! ## 5. After it has been destroyed -/

/-- The address space is the one with number `n`, whatever is in it, and files were opened and
closed so often. -/
structure Replaced (n opened closed : Nat) (t : ExecThread) : Prop where
  space : ∃ as, t.space = some (n, as)
  opened : t.opened = opened
  closed : t.closed = closed

section Replaced

variable {n opened closed : Nat} {α : Type}

theorem replaced_onSpace (m : AsProg α) :
    Prog.Keeps (Replaced n opened closed) (fun _ => Replaced n opened closed) (onSpace m) := by
  intro t h
  obtain ⟨as, has⟩ := h.space
  unfold onSpace
  rw [wp_bind, wp_get, has]
  exact wp_zoom.mpr (.of_forall (fun _ s => ⟨⟨s.2, rfl⟩, h.opened, h.closed⟩)
    fun _ s => ⟨⟨s.2, rfl⟩, h.opened, h.closed⟩)

theorem replaced_pushStrings (stackptr : Nat) (bufs : List (Option (List Byte))) :
    Prog.Keeps (Replaced n opened closed) (fun _ => Replaced n opened closed)
      (pushStrings stackptr bufs) := by
  have hstring : ∀ buf, Prog.Keeps (Replaced n opened closed) (fun _ => Replaced n opened closed)
      (bufferString buf) := by
    intro buf
    cases buf with
    | none => exact keeps_orPanic (replaced_onSpace _)
    | some buf => exact (keeps_assert _).bind fun _ => keeps_pure _
  induction bufs with
  | nil => exact keeps_pure _
  | cons buf bufs ih =>
    exact ih.bind fun _ => (hstring buf).bind fun _ =>
      (replaced_onSpace _).attempt.bind fun _ => keeps_pure _

theorem replaced_execStack (argv : List (Option (List Byte))) (entrypoint : Nat) :
    Prog.Keeps (Replaced n opened closed) (fun _ => Replaced n opened closed)
      (execStack argv entrypoint) := by
  refine (replaced_onSpace _).bind fun stackptr => ?_
  refine (replaced_pushStrings _ _).bind fun r => ?_
  refine (keeps_modify fun t h => ⟨h.space, h.opened, h.closed⟩).bind fun _ => ?_
  exact (replaced_onSpace _).bind fun _ => keeps_pure _

theorem execLoad_spec (v : ExecFile) (argv : List (Option (List Byte))) {t : ExecThread}
    (h : Replaced n opened closed t) :
    Wp True (execLoad v argv) (fun _ => Replaced n opened (closed + 1))
      (fun _ => Replaced n opened (closed + 1)) t := by
  have hclose : ∀ {t}, Replaced n opened closed t →
      Replaced n opened (closed + 1) { t with closed := t.closed + 1 } := by
    intro t h
    exact ⟨h.space, h.opened, congrArg (· + 1) h.closed⟩
  refine wp_bind.mpr ((replaced_onSpace (loadElf v)).attempt (E := fun _ _ => False) t h
    |>.post_ok ?_)
  intro r t' h'
  cases r with
  | error e => exact wp_bind.mpr (wp_modify.mpr (wp_fail.mpr (hclose h')))
  | ok entrypoint =>
    exact wp_bind.mpr (wp_modify.mpr (replaced_execStack argv entrypoint _ (hclose h')))

end Replaced

/-- The file has been opened, and closed once, and the address space is none that was there. -/
structure Lost (t t' : ExecThread) : Prop where
  space : ∀ n as, t'.space = some (n, as) → n = t.made
  opened : t'.opened = t.opened + 1
  closed : t'.closed = t.closed + 1

/-- **Once the file is open the old address space is gone for good**: when there is an error there
is a new one, or none. -/
theorem execSpace_spec (v : ExecFile) (argv : List (Option (List Byte))) (way : KmallocWay)
    (t : ExecThread) :
    Wp True (execSpace v argv way) (fun _ _ => True) (fun _ => Lost t) t := by
  unfold execSpace
  rw [wp_bind, wp_modify]
  refine wp_bind.mpr (wp_zoom.mpr ((asCreate_spec way t.vm).weaken.post_ok ?_))
  intro r vm _
  cases r with
  | none => exact wp_bind.mpr (wp_modify.mpr (wp_fail.mpr ⟨nofun, rfl, rfl⟩))
  | some as =>
    refine wp_bind.mpr (wp_modify.mpr ?_)
    refine wp_bind.mpr (wp_zoom.mpr (wp_modify.mpr ?_))
    have hnew : Replaced t.made (t.opened + 1) t.closed
        { t with vm := { vm with tlb := [] }, space := some (t.made, as), made := t.made + 1
                 opened := t.opened + 1 } := ⟨⟨as, rfl⟩, rfl, rfl⟩
    refine (execLoad_spec v argv hnew).imp (fun _ _ _ => True.intro) ?_
    intro e t' h'
    obtain ⟨as', has'⟩ := h'.space
    refine ⟨?_, h'.opened, h'.closed⟩
    intro n as hspace
    rw [has'] at hspace
    cases hspace
    rfl

/-! ## 6. Whether a failure is invisible -/

/-- A process that is running: it has the address space with number `n`, which is not the one that
the next `as_create` makes, and the TLB is right.  Nothing is mapped at NULL, so that the kernel
cannot write there when a `kmalloc` has failed. -/
structure ExecThread.Running (t : ExecThread) (n : Nat) (as : Addrspace) : Prop where
  space : t.space = some (n, as)
  older : n < t.made
  tlb : ∀ e ∈ t.vm.tlb, as.pageAt e.1 = some e.2
  null : as.translate 0 = none

variable {t t' : ExecThread} {n : Nat} {as : Addrspace}

theorem ExecThread.Running.quiet (h : t.Running n as) : Quiet n as t t :=
  ⟨h.space, ⟨rfl, h.tlb, rfl⟩, rfl, rfl, rfl⟩

/-- The failure comes no later than that of `vfs_open`. -/
def FailsEarly (progname : Nat) (a : ExecAnswers) : Prop :=
  progname = 0 ∨ ∃ e, a.vfsOpen = .error e

theorem sysExecv_spec (progname args : Nat) (a : ExecAnswers) (h : t.Running n as) :
    Wp True (sysExecv progname args a) (fun _ _ => True)
      (fun _ t' => (FailsEarly progname a → Quiet n as t t') ∧
        (¬ FailsEarly progname a → ∃ t₁, Quiet n as t t₁ ∧ Lost t₁ t')) t := by
  unfold sysExecv
  rw [wp_ite]
  constructor
  · intro hnull
    exact wp_fail.mpr ⟨fun _ => h.quiet, fun hlate => absurd (.inl hnull) hlate⟩
  · intro hname
    refine wp_bind.mpr ((keeps_execArgs h.null progname args a t h.quiet).imp ?_
      fun _ _ => False.elim)
    intro argv t₁ h1
    cases hopen : a.vfsOpen with
    | error e =>
      exact wp_fail.mpr ⟨fun _ => h1, fun hlate => absurd (.inr ⟨e, hopen⟩) hlate⟩
    | ok v =>
      refine (execSpace_spec v argv a.space t₁).imp (fun _ _ _ => True.intro) ?_
      intro e t' hlost
      refine ⟨?_, fun _ => ⟨t₁, h1, hlost⟩⟩
      rintro (hnull | ⟨e', he'⟩)
      · exact absurd hnull hname
      · rw [hopen] at he'
        cases he'

/-- What was opened since `t` has been closed exactly once. -/
def ClosedOnce (t t' : ExecThread) : Prop :=
  (t'.opened = t.opened ∧ t'.closed = t.closed) ∨
    (t'.opened = t.opened + 1 ∧ t'.closed = t.closed + 1)

/-- **The failure is invisible**: the address space is the one that was there, it is the one that
the TLB translates with, what the process sees in it has not changed, and the file has been closed
once if it was opened. -/
structure Invisible (n : Nat) (as : Addrspace) (t t' : ExecThread) : Prop where
  installed : t'.space = some (n, as)
  activated : ∀ e ∈ t'.vm.tlb, as.pageAt e.1 = some e.2
  contents : through as.translate t'.vm.mem = through as.translate t.vm.mem
  closed : ClosedOnce t t'

theorem Quiet.invisible (h : Quiet n as t t') : Invisible n as t t' where
  installed := h.space
  activated := h.untouched.tlb
  contents := by rw [h.untouched.mem]
  closed := .inl ⟨h.opened, h.closed⟩

/-- **The vnode is closed exactly once** on every way out with an error. -/
theorem sysExecv_closedOnce {progname args : Nat} {a : ExecAnswers} {e : Errno} (h : t.Running n as)
    (hrun : sysExecv progname args a t = some (.error e, t')) : ClosedOnce t t' := by
  obtain ⟨hearly, hlate⟩ := (sysExecv_spec progname args a h).of_error hrun
  by_cases hfails : FailsEarly progname a
  · exact (hearly hfails).invisible.closed
  · obtain ⟨t₁, hquiet, hlost⟩ := hlate hfails
    refine .inr ⟨?_, ?_⟩
    · rw [hlost.opened, hquiet.opened]
    · rw [hlost.closed, hquiet.closed]

/-- **A failed `execv` is invisible if and only if the failure comes no later than that of
`vfs_open`**: the name is NULL, or the file cannot be opened. -/
theorem execv_failure_invisible_iff {progname args : Nat} {a : ExecAnswers} {n : Nat}
    {as : Addrspace} {t t' : ExecThread} {e : Errno} (h : t.Running n as)
    (hrun : sysExecv progname args a t = some (.error e, t')) :
    Invisible n as t t' ↔ FailsEarly progname a := by
  obtain ⟨hearly, hlate⟩ := (sysExecv_spec progname args a h).of_error hrun
  constructor
  · intro hinv
    by_contra hfails
    obtain ⟨t₁, hquiet, hlost⟩ := hlate hfails
    have hn : n = t₁.made := hlost.space n as hinv.installed
    rw [hquiet.made] at hn
    exact absurd hn (Nat.ne_of_lt h.older)
  · intro hfails
    exact (hearly hfails).invisible

/-- A machine's memory with these bytes from `base` on. -/
def memoryAt (base : Nat) (bytes : List Byte) (a : Nat) : Byte :=
  if base ≤ a then bytes[a - base]?.getD 0 else 0

/-- The data page of a process that wants to run `p` with the argument `a`: the name, the vector at
16, and the argument at 32. -/
def execPage : List Byte :=
  [0x70, 0, 0, 0, 0, 0, 0, 0, 0, 0, 0, 0, 0, 0, 0, 0] ++
  numberBytes 4 0x10000020 ++ numberBytes 4 0 ++ numberBytes 8 0 ++ [0x61, 0]

/-- The process. -/
def smallThread : ExecThread :=
  { vm := { smallRunning with mem := memoryAt 0x43000 execPage }
    space := some (0, smallSpace), made := 1, opened := 0, closed := 0, overran := false }

theorem smallThread_running : smallThread.Running 0 smallSpace :=
  ⟨rfl, by decide, nofun, by decide⟩

/-- There is memory, and `vfs_open` does this. -/
def execAnswers (vfsOpen : Except Errno ExecFile) : ExecAnswers :=
  { fname := .block, argv := .block, arg := fun _ => (.block, [0, 0, 0, 0]), vfsOpen
    space := .block }

/-- There is no such file, and nothing has happened. -/
theorem execv_failure_invisible_small : ∃ t',
    sysExecv 0x10000000 0x10000010 (execAnswers (.error .enoent)) smallThread =
      some (.error .enoent, t') ∧
    Invisible 0 smallSpace smallThread t' := by
  obtain ⟨t', hrun, -⟩ := Prog.exists_of_map
    (m := sysExecv 0x10000000 0x10000010 (execAnswers (.error .enoent))) (s := smallThread)
    (r := .error .enoent) (f := fun t => t.closed) (b := 0) (by decide +kernel)
  exact ⟨t', hrun, (execv_failure_invisible_iff smallThread_running hrun).mpr (.inr ⟨.enoent, rfl⟩)⟩

theorem sysExecv_closedOnce_small : ∃ t',
    sysExecv 0x10000000 0x10000010 (execAnswers (.ok (inOnePiece []))) smallThread =
      some (.error .enoexec, t') ∧ ClosedOnce smallThread t' := by
  obtain ⟨t', hrun, -⟩ := Prog.exists_of_map
    (m := sysExecv 0x10000000 0x10000010 (execAnswers (.ok (inOnePiece [])))) (s := smallThread)
    (r := .error .enoexec) (f := fun t => t.closed) (b := 1) (by decide +kernel)
  exact ⟨t', hrun, sysExecv_closedOnce smallThread_running hrun⟩

/-- **The file is not a program.**  `execv` returns `ENOEXEC` to a process whose memory is gone. -/
theorem execv_failure_visible : ∃ t',
    sysExecv 0x10000000 0x10000010 (execAnswers (.ok (inOnePiece []))) smallThread =
      some (.error .enoexec, t') ∧
    smallThread.Running 0 smallSpace ∧ t'.space = some (1, .empty) ∧
    ¬ Invisible 0 smallSpace smallThread t' := by
  obtain ⟨t', hrun, hspace⟩ := Prog.exists_of_map
    (m := sysExecv 0x10000000 0x10000010 (execAnswers (.ok (inOnePiece [])))) (s := smallThread)
    (r := .error .enoexec) (f := ExecThread.space) (b := some (1, .empty)) (by decide +kernel)
  refine ⟨t', hrun, smallThread_running, hspace, fun hinv => ?_⟩
  have := hinv.installed.symm.trans hspace
  cases this

/-! ## 7. The array of pointers -/

section Layout

variable {t : ExecThread}

theorem onSpace_overran {α : Type} (m : AsProg α) :
    Wp True (onSpace m) (fun _ t' => t'.overran = t.overran) (fun _ _ => True) t := by
  unfold onSpace
  rw [wp_bind, wp_get]
  rcases t.space with _ | ⟨n, as⟩
  · exact wp_fail.mpr True.intro
  · exact wp_zoom.mpr (.of_forall (fun _ _ => rfl) fun _ _ => True.intro)

theorem execStack_overruns (argv : List (Option (List Byte))) (entrypoint : Nat) :
    Wp True (execStack argv entrypoint) (fun _ t' => t'.overran = true) (fun _ _ => True) t := by
  refine wp_bind.mpr (.of_forall (fun stackptr t₁ => ?_) fun _ _ => True.intro)
  refine wp_bind.mpr (.of_forall (fun r t₂ => ?_) fun _ _ => True.intro)
  refine wp_bind.mpr (wp_modify.mpr ?_)
  refine (onSpace_overran _).bind ?_
  intro sp t' hoverran
  refine wp_pure.mpr (hoverran.trans ?_)
  simp

end Layout

/-! ## 8. Whether the new program finds them -/

/-- The word at a user address. -/
def userWord (view : Nat → Option Byte) (a : Nat) : Option Nat :=
  (User.bytesAt view a 4).map fun l => headerNat l 0 4

/-- A string and the zero behind it. -/
def StringAt (view : Nat → Option Byte) (a : Nat) (str : CString) : Prop :=
  User.bytesAt view a (str.strlen + 1) = some (str.1 ++ [0])

instance (view : Nat → Option Byte) (a : Nat) (str : CString) : Decidable (StringAt view a str) :=
  inferInstanceAs (Decidable (_ = _))

/-- **An argument vector**: pointers to the strings in order, and a NULL pointer. -/
structure ArgvAt (view : Nat → Option Byte) (argv : Nat) (ptrs : List Nat) (strs : List CString) :
    Prop where
  pointers : ∀ i < ptrs.length, userWord view (argv + 4 * i) = ptrs[i]?
  null : userWord view (argv + 4 * ptrs.length) = some 0
  strings : List.Forall₂ (StringAt view) ptrs strs

/-- The addresses that the vector takes up, each range with its first address and its length: the
pointers, with the NULL, and each of the strings, with its zero. -/
def argvRanges (argv : Nat) (ptrs : List Nat) (strs : List CString) : List (Nat × Nat) :=
  (argv, 4 * (ptrs.length + 1)) :: ptrs.zipWith (fun p str => (p, str.strlen + 1)) strs

/-- **The arguments are passed faithfully**: the vector on the new stack is the caller's, its parts
do not overlap, they are between the stack pointer and `USERSTACK`, the pointers are aligned, and
nothing was written behind the end of a buffer on the way. -/
structure ArgvFaithful (strs : List CString) (e : Entered) (t : ExecThread) : Prop where
  argc : e.argc = strs.length
  vector : ∃ n as ptrs, t.space = some (n, as) ∧
    ArgvAt (through as.translate t.vm.mem) e.argv ptrs strs ∧
    (argvRanges e.argv ptrs strs).Pairwise (fun r r' => r.1 + r.2 ≤ r'.1 ∨ r'.1 + r'.2 ≤ r.1) ∧
    ∀ r ∈ argvRanges e.argv ptrs strs, e.stackptr ≤ r.1 ∧ r.1 + r.2 ≤ userstack
  aligned : ∀ i ≤ e.argc, (e.argv + 4 * i) % 4 = 0
  room : t.overran = false

/-- Every run that gets to the new program has written behind the end of a buffer. -/
theorem sysExecv_overruns (progname args : Nat) (a : ExecAnswers) (t : ExecThread) :
    Wp True (sysExecv progname args a) (fun _ t' => t'.overran = true) (fun _ _ => True) t := by
  unfold sysExecv
  rw [wp_ite]
  refine ⟨fun _ => wp_fail.mpr True.intro, fun _ => ?_⟩
  refine wp_bind.mpr (.of_forall (fun argv t₁ => ?_) fun _ _ => True.intro)
  rcases a.vfsOpen with _ | v
  · exact wp_fail.mpr True.intro
  refine wp_bind.mpr (wp_modify.mpr (wp_bind.mpr (.of_forall ?_ fun _ _ => True.intro)))
  rintro (_ | as) t₂
  · exact wp_bind.mpr (wp_modify.mpr (wp_fail.mpr True.intro))
  refine wp_bind.mpr (wp_modify.mpr (wp_bind.mpr (.of_forall (fun _ t₃ => ?_)
    fun _ _ => True.intro)))
  refine wp_bind.mpr (.of_forall ?_ fun _ _ => True.intro)
  rintro (e | entrypoint) t₄
  · exact wp_bind.mpr (wp_modify.mpr (wp_fail.mpr True.intro))
  · exact wp_bind.mpr (wp_modify.mpr (execStack_overruns argv entrypoint))

/-- **The arguments are never passed faithfully**, whatever they are: there is no room for the NULL
pointer in `pstack`, for any `argc`. -/
theorem execv_args_never_faithful {progname args : Nat} {a : ExecAnswers} {t t' : ExecThread}
    {e : Entered} (hrun : sysExecv progname args a t = some (.ok e, t')) (strs : List CString) :
    ¬ ArgvFaithful strs e t' := by
  intro hfaithful
  have hoverran := (sysExecv_overruns progname args a t).of_ok hrun
  rw [hfaithful.room] at hoverran
  cases hoverran

/-- The program runs. -/
theorem execv_args_never_faithful_small : ∃ e t',
    sysExecv 0x10000000 0x10000010 (execAnswers (.ok (inOnePiece (smallElf 8 8)))) smallThread =
      some (.ok e, t') ∧
    ¬ ArgvFaithful [cString [0x61]] e t' := by
  obtain ⟨t', hrun, -⟩ := Prog.exists_of_map
    (m := sysExecv 0x10000000 0x10000010 (execAnswers (.ok (inOnePiece (smallElf 8 8)))))
    (s := smallThread) (f := ExecThread.closed) (b := 1)
    (r := .ok { argc := 1, argv := 0x7ffffffa, stackptr := 0x7ffffffa, entrypoint := 0x400000 })
    (by decide +kernel)
  exact ⟨_, t', hrun, execv_args_never_faithful hrun _⟩

/-- **The one argument `a`.**  Its pointer is at an odd multiple of two.  The word behind it, where
the NULL should be, is not even within user space. -/
theorem execv_args_unfaithful :
    ArgvAt (through smallSpace.translate smallThread.vm.mem) 0x10000010 [0x10000020]
      [cString [0x61]] ∧
    ∃ t' as,
      sysExecv 0x10000000 0x10000010 (execAnswers (.ok (inOnePiece (smallElf 8 8)))) smallThread =
        some (.ok { argc := 1, argv := 0x7ffffffa, stackptr := 0x7ffffffa
                    entrypoint := 0x400000 }, t') ∧
      t'.space = some (1, as) ∧ 0x7ffffffa % 4 = 2 ∧
      userWord (through as.translate t'.vm.mem) 0x7ffffffa = some 0x7ffffffe ∧
      userWord (through as.translate t'.vm.mem) (0x7ffffffa + 4) = none ∧ t'.overran = true := by
  refine ⟨⟨by decide +kernel, by decide +kernel, by decide +kernel⟩, ?_⟩
  obtain ⟨t', hrun, hend⟩ := Prog.exists_of_map
    (m := sysExecv 0x10000000 0x10000010 (execAnswers (.ok (inOnePiece (smallElf 8 8)))))
    (s := smallThread)
    (r := .ok { argc := 1, argv := 0x7ffffffa, stackptr := 0x7ffffffa, entrypoint := 0x400000 })
    (f := fun t => t.space.map fun e =>
      (e.1, [0x7ffffffa, 0x7ffffffa + 4].map (userWord (through e.2.translate t.vm.mem))))
    (b := some (1, [some 0x7ffffffe, none])) (by decide +kernel)
  obtain ⟨⟨n, as⟩, hspace, hwords⟩ := Option.map_eq_some_iff.mp hend
  simp only [map_cons, map_nil, Prod.mk.injEq, cons.injEq, and_true] at hwords
  obtain ⟨rfl, hpointer, hnull⟩ := hwords
  exact ⟨t', as, hrun, hspace, rfl, hpointer, hnull, (sysExecv_overruns _ _ _ _).of_ok hrun⟩

end Os161
