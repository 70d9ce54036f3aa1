/-
# `kern/thread/thread.c`: threads, run queues and wait channels

The thread system moves threads between lists: each CPU's run queue and zombie list, and one list
for each wait channel.  Every list is guarded by a lock of its own, and between two lists a thread
is in the hands of whoever took it off the first one.  The model has a `Place` for each list and
for each such hand, so that a step of it is what one CPU does under one lock.

* A fork has its new thread in hand from `thread_create` until `thread_make_runnable`; a waker has
  its targets from the moment it lets go of the channel until they are on a run queue.  Both may be
  interrupted and go on later, on another CPU: each call in progress has a number `i`.
* The clock interrupt runs `schedule` and `thread_consider_migration` with interrupts off.  What it
  has in hand, and how far it has come (`Intr`), belongs to its CPU.
* `thread_switch` queues the current thread and enters the idle loop (`threadSwitch`); the loop
  takes the next thread when there is one (`switchNext`).  In between the CPU idles, and its current
  thread is still the one that was queued.

`curcpu` is `curthread->t_cpu` on this machine, so the model computes it so; that it is the CPU
the code runs on is part of what has to be proved.  A thread is named by its address.  A pointer
that leads to no thread stops the machine.
-/
import Os161.Uio
import Os161.Lib.Run

namespace Os161

open Function

/-! ## 1. The state -/

/-- `threadstate_t`. -/
inductive ThreadState
  | run | ready | sleep | zombie
  deriving DecidableEq, Repr

/-- `struct thread`: the fields that the thread system looks at. -/
structure Thread where
  state : ThreadState
  cpu : Option Nat
  priority : Int
  cwd : Option Nat
  addrspace : Option Nat
  deriving DecidableEq, Repr

/-- Where a thread that is not running may be. -/
inductive Place
  /-- `c_runqueue` of a CPU. -/
  | runqueue (c : Nat)
  /-- `c_zombies` of a CPU. -/
  | zombies (c : Nat)
  /-- `wc_threads` of a wait channel. -/
  | wchan (w : Nat)
  /-- In the hands of a wakeup, off its channel. -/
  | waking (i : Nat)
  /-- In the hands of a `thread_fork` that has not allocated the stack yet. -/
  | creating (i : Nat)
  /-- In the hands of a `thread_fork`, complete. -/
  | forking (i : Nat)
  /-- In the hands of the clock interrupt of a CPU: the thread that `schedule` moves to the front,
  or the `victims` of a migration. -/
  | hand (c : Nat)
  deriving DecidableEq, Repr

/-- How far the clock interrupt of a CPU has come. -/
inductive Intr
  | none
  /-- `schedule`: has read `switch_fl` and `tl_count`. -/
  | scheduling (fl count : Nat)
  /-- `schedule`: has taken a thread off the run queue. -/
  | rescheduling (fl : Nat)
  /-- `thread_consider_migration`: is about to count the threads of CPU `i`. -/
  | counting (i myCount totalCount : Nat)
  /-- `thread_consider_migration`: is about to take the victims. -/
  | taking (toSend oneShare : Nat)
  /-- `thread_consider_migration`: is about to send victims to CPU `i`. -/
  | sending (i toSend oneShare : Nat)
  /-- `thread_consider_migration`: is about to put the leftovers back. -/
  | returning
  deriving DecidableEq, Repr

/-- The thread system. -/
structure Threads where
  numcpus : Nat
  thread : Nat → Option Thread
  list : Place → List Nat
  curthread : Nat → Nat
  isidle : Nat → Bool
  switchFl : Nat
  intr : Nat → Intr

/-- A list set to `l`. -/
def Threads.setList (s : Threads) (p : Place) (l : List Nat) : Threads :=
  { s with list := update s.list p l }

/-- A thread structure written, or freed. -/
def Threads.setThread (s : Threads) (t : Nat) (th : Option Thread) : Threads :=
  { s with thread := update s.thread t th }

/-- The interrupt of a CPU has come to `x`. -/
def Threads.setIntr (s : Threads) (c : Nat) (x : Intr) : Threads :=
  { s with intr := update s.intr c x }

/-- `t_cpu` of a thread that exists. -/
def Threads.tcpu (s : Threads) (t : Nat) : Option Nat := (s.thread t).bind Thread.cpu

/-- A kernel with threads. -/
abbrev Kern := Prog Errno Threads

/-- Follow a pointer to a thread. -/
def derefThread (t : Nat) : Kern Thread := do
  let s ← get
  match s.thread t with
  | some th => pure th
  | none => halt

/-- `t->t_cpu`, where it is needed. -/
def threadCpu (t : Nat) : Kern Nat := do
  let th ← derefThread t
  match th.cpu with
  | some c => pure c
  | none => halt

/-- `curcpu`, on CPU `c`. -/
def curcpu (c : Nat) : Kern Nat := do
  let s ← get
  threadCpu (s.curthread c)

/-! ## 2. `threadlist.c` -/

/-- `threadlist_addhead`. -/
def threadlistAddhead (p : Place) (t : Nat) : Kern Unit :=
  modify fun s => s.setList p (t :: s.list p)

/-- `threadlist_addtail`. -/
def threadlistAddtail (p : Place) (t : Nat) : Kern Unit :=
  modify fun s => s.setList p (s.list p ++ [t])

/-- `threadlist_remhead`. -/
def threadlistRemhead (p : Place) : Kern (Option Nat) := do
  let s ← get
  match s.list p with
  | [] => pure none
  | t :: l => do
    modify fun s => s.setList p l
    pure (some t)

/-- `threadlist_remove`. -/
def threadlistRemove (p : Place) (t : Nat) : Kern Unit :=
  modify fun s => s.setList p ((s.list p).erase t)

/-- `while ((t = threadlist_remhead(tl)) != NULL) body(t)`, for at most so many rounds. -/
def forRemhead (p : Place) (body : Nat → Kern Unit) : Nat → Kern Unit
  | 0 => halt
  | fuel + 1 => do
    let r ← threadlistRemhead p
    match r with
    | none => pure ()
    | some t => do
      body t
      forRemhead p body fuel

/-- The loop above, run until the list is empty. -/
def drain (p : Place) (body : Nat → Kern Unit) : Kern Unit := do
  let s ← get
  forRemhead p body ((s.list p).length + 1)

/-! ## 3. Creation and destruction -/

/-- `thread_create`: `t` is what `kmalloc` returned. -/
def threadCreate : Option Nat → Kern Nat
  | none => fail .enomem
  | some t => do
    modify fun s => s.setThread t (some ⟨.ready, none, 2, none, none⟩)
    pure t

/-- `thread_destroy`.  Its assertions on the list node (`threadlistnode_cleanup`) say that the
thread is on no list. -/
def threadDestroy (c t : Nat) : Kern Unit := do
  let s ← get
  assert (t ≠ s.curthread c)
  let th ← derefThread t
  assert (th.state ≠ .run)
  assert (th.cwd = none)
  assert (th.addrspace = none)
  modify fun s => s.setThread t none

/-- One round of `exorcise`. -/
def exorciseOne (c z : Nat) : Kern Unit := do
  let s ← get
  assert (z ≠ s.curthread c)
  let th ← derefThread z
  assert (th.state = .zombie)
  threadDestroy c z

/-- `exorcise`. -/
def exorcise (c : Nat) : Kern Unit := do
  let k ← curcpu c
  drain (.zombies k) (exorciseOne c)

/-- `thread_make_runnable`; `have_` is the CPU whose run queue lock the caller already has. -/
def threadMakeRunnable (target : Nat) (have_ : Option Nat) : Kern Unit := do
  let targetcpu ← threadCpu target
  assert (∀ k ∈ have_, k = targetcpu)
  threadlistAddtail (.runqueue targetcpu) target

/-- `thread_fork`, first part: the thread structure. -/
def forkCreate (i : Nat) (mem : Option Nat) : Kern Unit := do
  let t ← threadCreate mem
  threadlistAddtail (.creating i) t

/-- `thread_fork`, second part, on CPU `c`: the stack, and the fields taken over from the parent.
`stack` says whether there was memory for the stack. -/
def forkStack (c i : Nat) (stack : Bool) : Kern Unit := do
  let r ← threadlistRemhead (.creating i)
  match r with
  | none => pure ()
  | some t =>
    if stack then do
      let s ← get
      let parent ← derefThread (s.curthread c)
      let th ← derefThread t
      modify fun s => s.setThread t (some { th with cpu := parent.cpu, cwd := parent.cwd })
      threadlistAddtail (.forking i) t
    else do
      threadDestroy c t
      fail .enomem

/-- `thread_fork`, last part. -/
def forkRunnable (i : Nat) : Kern Unit := do
  let r ← threadlistRemhead (.forking i)
  match r with
  | none => pure ()
  | some t => threadMakeRunnable t none

/-! ## 4. Switching -/

/-- Put the thread in the right place. -/
def switchQueue (k cur : Nat) : ThreadState → Nat → Kern Unit
  | .run, _ => halt
  | .ready, _ => threadMakeRunnable cur (some k)
  | .sleep, wc => threadlistAddtail (.wchan wc) cur
  | .zombie, _ => threadlistAddtail (.zombies k) cur

/-- `thread_switch` on CPU `c`, up to the idle loop.  `c_isidle` is set under the run queue lock,
which also has to be held to look at it: the thread is queued and the CPU idle in one step. -/
def threadSwitch (c : Nat) (newstate : ThreadState) (wc : Nat) : Kern Unit := do
  let k ← curcpu c
  let s ← get
  if s.isidle k then pure ()
  else if newstate = .ready ∧ s.list (.runqueue k) = [] then pure ()
  else do
    switchQueue k (s.curthread c) newstate wc
    let th ← derefThread (s.curthread c)
    modify fun s' => s'.setThread (s.curthread c) (some { th with state := newstate })
    modify fun s' => { s' with isidle := update s'.isidle k true }

/-- `thread_switch` on CPU `c`, a round of the idle loop and what follows it: the thread switched to
is the one that goes on.  (A new thread goes on in `thread_startup`, which begins the same way.) -/
def switchNext (c : Nat) : Kern Unit := do
  let k ← curcpu c
  let r ← threadlistRemhead (.runqueue k)
  match r with
  | none => pure ()
  | some next => do
    modify fun s => { s with
      isidle := update s.isidle k false
      curthread := update s.curthread c next }
    let th ← derefThread next
    modify fun s => s.setThread next (some { th with state := .run })

/-- `thread_yield`. -/
def threadYield (c : Nat) : Kern Unit := threadSwitch c .ready 0

/-- `thread_exit`: the working directory and the address space go at once, the rest of the thread
with `exorcise`. -/
def threadExit (c : Nat) : Kern Unit := do
  let s ← get
  let th ← derefThread (s.curthread c)
  modify fun s' => s'.setThread (s.curthread c) (some { th with cwd := none, addrspace := none })
  threadSwitch c .zombie 0

/-- What system calls of the running thread do to its own structure: its priority, its working
directory, its address space. -/
def threadSetOwn (c : Nat) (priority : Int) (cwd addrspace : Option Nat) : Kern Unit := do
  let s ← get
  let th ← derefThread (s.curthread c)
  modify fun s' => s'.setThread (s.curthread c)
    (some { th with priority := priority, cwd := cwd, addrspace := addrspace })

/-! ## 5. Wait channels -/

/-- `wchan_sleep`. -/
def wchanSleep (c wc : Nat) : Kern Unit := do
  let s ← get
  assert (s.intr c = .none)
  threadSwitch c .sleep wc

/-- `wchan_wakeone`, up to the release of the channel. -/
def wchanWakeone (wc i : Nat) : Kern Unit := do
  let r ← threadlistRemhead (.wchan wc)
  match r with
  | none => pure ()
  | some target => threadlistAddtail (.waking i) target

/-- `wchan_wakeall`, up to the release of the channel. -/
def wchanWakeall (wc i : Nat) : Kern Unit :=
  drain (.wchan wc) (threadlistAddtail (.waking i))

/-- `wchan_wakeone` and `wchan_wakeall`: a thread in hand is made runnable. -/
def wakeRunnable (i : Nat) : Kern Unit := do
  let r ← threadlistRemhead (.waking i)
  match r with
  | none => pure ()
  | some target => threadMakeRunnable target none

/-! ## 6. The clock interrupt -/

/-- The first of the threads with the smallest priority: `best` is `temp_thread`, the list is what
is still to be looked at. -/
def minPriority (best : Nat) : List Nat → Kern Nat
  | [] => pure best
  | t :: ts => do
    let a ← derefThread t
    let b ← derefThread best
    minPriority (if a.priority < b.priority then t else best) ts

/-- The scan of a run queue for that thread; an empty queue is a NULL pointer followed. -/
def scanQueue : List Nat → Kern Nat
  | [] => halt
  | t :: ts => minPriority t (t :: ts)

/-- `schedule`: the flag and the length of the queue are read. -/
def schedule (c : Nat) : Kern Unit := do
  let k ← curcpu c
  let s ← get
  if s.list (.runqueue k) = [] then pure ()
  else modify fun s' =>
    s'.setIntr c (.scheduling s.switchFl (s.list (.runqueue k)).length)

/-- `schedule` picks a thread: one at random, or one of smallest priority.  It does not lock the
run queue.  Other CPUs may add threads at its end meanwhile, and `rnd` decides how many of these
the scan still sees; it is `random()` in the other case. -/
def schedulePick (q : List Nat) (fl count rnd : Nat) : Kern Nat :=
  if fl = 0 then
    match q.drop (rnd % count) with
    | t :: _ => pure t
    | [] => halt
  else scanQueue (q.take (count + rnd % (q.length + 1 - count)))

/-- `schedule`: the thread is taken off the queue. -/
def scheduleTake (c fl count rnd : Nat) : Kern Unit := do
  let k ← curcpu c
  let s ← get
  let t ← schedulePick (s.list (.runqueue k)) fl count rnd
  threadlistRemove (.runqueue k) t
  threadlistAddtail (.hand c) t
  modify fun s' => s'.setIntr c (.rescheduling fl)

/-- `schedule`: the thread is put at the front, and the flag flipped. -/
def schedulePut (c fl : Nat) : Kern Unit := do
  let k ← curcpu c
  let r ← threadlistRemhead (.hand c)
  match r with
  | none => halt
  | some t => do
    threadlistAddhead (.runqueue k) t
    modify fun s => { s with switchFl := if fl = 0 then 1 else 0 }
    modify fun s => s.setIntr c .none

/-- `DIVROUNDUP`. -/
def divroundup (a b : Nat) : Nat := (a + b - 1) / b

/-- `thread_consider_migration`: one CPU's threads are counted; after the last, the shares are
computed. -/
def migrateCount (c i myCount totalCount : Nat) : Kern Unit := do
  let k ← curcpu c
  let s ← get
  if i < s.numcpus then
    modify fun s' => s'.setIntr c (.counting (i + 1)
      (if i = k then (s.list (.runqueue i)).length else myCount)
      (totalCount + (s.list (.runqueue i)).length))
  else if myCount < divroundup totalCount s.numcpus then
    modify fun s' => s'.setIntr c .none
  else
    modify fun s' => s'.setIntr c
      (.taking (myCount - divroundup totalCount s.numcpus) (divroundup totalCount s.numcpus))

/-- `thread_consider_migration`: one victim is taken off the run queue. -/
def takeVictim (c k : Nat) : Kern Unit := do
  let s ← get
  let t ← scanQueue (s.list (.runqueue k))
  threadlistRemove (.runqueue k) t
  threadlistAddhead (.hand c) t

/-- `thread_consider_migration`: the victims are taken, under the lock of the own run queue. -/
def migrateTake (c toSend oneShare : Nat) : Kern Unit := do
  let k ← curcpu c
  times (takeVictim c k) toSend
  modify fun s => s.setIntr c (.sending 0 toSend oneShare)

/-- `thread_consider_migration`: one victim goes to CPU `i`, unless it is the current thread. -/
def sendVictim (c i : Nat) : Kern Unit := do
  let r ← threadlistRemhead (.hand c)
  match r with
  | none => halt
  | some t => do
    let s ← get
    if t = s.curthread c then threadlistAddtail (.hand c) t
    else do
      let th ← derefThread t
      modify fun s' => s'.setThread t (some { th with cpu := some i })
      threadlistAddtail (.runqueue i) t

/-- `thread_consider_migration`: victims go to CPU `i`, while it has less than its share.  The
result is what is left of `to_send`. -/
def sendVictims (c i oneShare : Nat) : Nat → Kern Nat
  | 0 => pure 0
  | toSend + 1 => do
    let s ← get
    if (s.list (.runqueue i)).length < oneShare then do
      sendVictim c i
      sendVictims c i oneShare toSend
    else pure (toSend + 1)

/-- `thread_consider_migration`: one CPU is sent victims. -/
def migrateSend (c i toSend oneShare : Nat) : Kern Unit := do
  let k ← curcpu c
  let s ← get
  if i < s.numcpus ∧ 0 < toSend then
    if i = k then modify fun s' => s'.setIntr c (.sending (i + 1) toSend oneShare)
    else do
      let n ← sendVictims c i oneShare toSend
      modify fun s' => s'.setIntr c (.sending (i + 1) n oneShare)
  else modify fun s' => s'.setIntr c .returning

/-- `thread_consider_migration`: the leftovers go back to the own run queue. -/
def migrateReturn (c : Nat) : Kern Unit := do
  let k ← curcpu c
  drain (.hand c) (threadlistAddtail (.runqueue k))
  let s ← get
  assert (s.list (.hand c) = [])
  modify fun s' => s'.setIntr c .none

/-- `thread_consider_migration` begins. -/
def considerMigration (c : Nat) : Kern Unit :=
  modify fun s => s.setIntr c (.counting 0 0 0)

/-- The next step of the interrupt on CPU `c`. -/
def interrupt (c rnd : Nat) : Kern Unit := do
  let s ← get
  match s.intr c with
  | .none => pure ()
  | .scheduling fl count => scheduleTake c fl count rnd
  | .rescheduling fl => schedulePut c fl
  | .counting i myCount totalCount => migrateCount c i myCount totalCount
  | .taking toSend oneShare => migrateTake c toSend oneShare
  | .sending i toSend oneShare => migrateSend c i toSend oneShare
  | .returning => migrateReturn c

/-! ## 7. The machine -/

/-- A step of some CPU. -/
inductive ThreadOp
  | forkCreate (i : Nat) (mem : Option Nat)
  | forkStack (c i : Nat) (stack : Bool)
  | forkRunnable (i : Nat)
  | yield (c : Nat)
  | sleep (c wc : Nat)
  | exit (c : Nat)
  | setOwn (c : Nat) (priority : Int) (cwd addrspace : Option Nat)
  | next (c : Nat)
  | exorcise (c : Nat)
  | wakeone (wc i : Nat)
  | wakeall (wc i : Nat)
  | wakeRunnable (i : Nat)
  | schedule (c : Nat)
  | migrate (c : Nat)
  | interrupt (c rnd : Nat)

/-- What the step does. -/
def ThreadOp.call : ThreadOp → Kern Unit
  | .forkCreate i mem => Os161.forkCreate i mem
  | .forkStack c i stack => Os161.forkStack c i stack
  | .forkRunnable i => Os161.forkRunnable i
  | .yield c => threadYield c
  | .sleep c wc => wchanSleep c wc
  | .exit c => threadExit c
  | .setOwn c priority cwd addrspace => threadSetOwn c priority cwd addrspace
  | .next c => switchNext c
  | .exorcise c => Os161.exorcise c
  | .wakeone wc i => wchanWakeone wc i
  | .wakeall wc i => wchanWakeall wc i
  | .wakeRunnable i => Os161.wakeRunnable i
  | .schedule c => Os161.schedule c
  | .migrate c => considerMigration c
  | .interrupt c rnd => Os161.interrupt c rnd

/-- A thread runs on CPU `c`. -/
def Threads.Running (s : Threads) (c : Nat) : Prop := c < s.numcpus ∧ s.isidle c = false

/-- CPU `c` is not in its clock interrupt. -/
def Threads.Quiet (s : Threads) (c : Nat) : Prop := c < s.numcpus ∧ s.intr c = .none

/-- When the step can happen.  Memory for a new thread is memory where no thread is; a thread
takes a step of its own while it runs, and not while its CPU is in the interrupt, which is not
interrupted itself. -/
def ThreadOp.Legal (s : Threads) : ThreadOp → Prop
  | .forkCreate _ mem => ∀ t ∈ mem, s.thread t = none
  | .forkStack c _ _ => s.Running c
  | .yield c | .schedule c | .migrate c => s.Quiet c
  | .sleep c _ | .exit c | .exorcise c => s.Running c ∧ s.Quiet c
  | .setOwn c _ _ _ => s.Running c
  | .next c => s.isidle c = true ∧ s.Quiet c
  | .interrupt c _ => c < s.numcpus
  | .forkRunnable _ | .wakeone _ _ | .wakeall _ _ | .wakeRunnable _ => True

/-- The machine after boot: each CPU runs its boot thread, and no list has a thread on it. -/
structure Threads.Booted (s : Threads) : Prop where
  thread : ∀ t, (s.thread t).isSome ↔ ∃ c < s.numcpus, s.curthread c = t
  cpu : ∀ c < s.numcpus, s.tcpu (s.curthread c) = some c
  list : ∀ p, s.list p = []
  isidle : ∀ c, s.isidle c = false
  intr : ∀ c, s.intr c = .none

end Os161
