/-
# `kern/thread/thread.c`: `sys_waitpid` and `sys__exit`

A process that waits for another one puts a node with the pid on `wait_list` and sleeps on the
node's own channel.  `sys__exit` writes the exit code into every node with its pid, wakes who
sleeps there, and takes the pid out of the table.  All of it happens under `wait_lock`; a waiter
takes the lock of its channel before it lets go of `wait_lock`, so that no wakeup is lost.

The code gets from the exit to the node and no further.  A waiter that found `wait_list` empty
never looks at its node again, and one that found it not empty compares the code with what
`*status` held BEFORE the call: it writes back the same value if they agree, and -1 if not.  And a
process that has exited is in no table, so that who comes after the exit is told `EINVAL`.

A process is created with the pid that `add_pid_table` hands out, one more than the last pid in the
table.  That can be the pid of a process that has exited, while somebody is still on the way back
from waiting for THAT one; `PidNew` leaves this out.

The first waiter also calls `remove_wait_list` with a pointer that nobody has set.  Its own node
stays at the head of the list for ever, which is why there is only one such waiter.
-/
import Os161.Lib.Interleave
import Os161.Pids

namespace Os161

open Function List

/-! ## 1. The code -/

/-- The `status` argument: `copyin` can read it, or it is `NULL`, or it is another pointer that
`copyin` cannot read. -/
inductive StatusPtr
  | ok
  | null
  | bad
  deriving DecidableEq, Repr

/-- The system calls of a process, in order. -/
inductive WaitAct
  /-- `sys_waitpid`. -/
  | wait (pid : Nat) (status : StatusPtr) (options : Int)
  /-- `sys__exit`. -/
  | exit (code : Int)
  deriving DecidableEq, Repr

/-- A call of `sys_waitpid`: its arguments, and what it finds when it has `wait_lock`. -/
structure WaitCall where
  pid : Nat
  status : StatusPtr
  options : Int
  /-- `stat`: what `*status` was. -/
  stat : Int
  /-- The pid was in the table. -/
  there : Bool
  /-- `wait_list` was `NULL`. -/
  first : Bool
  deriving DecidableEq, Repr

/-- What `sys_waitpid` returns, no error being 0, and `*retval`. -/
structure WaitRet where
  err : Option Errno
  retval : Int
  deriving DecidableEq, Repr

/-- Where a process is, with the calls that it has still to make. -/
inductive WaitPc
  /-- The process has not been created. -/
  | unborn (todo : List WaitAct)
  | user (todo : List WaitAct)
  /-- `sys_waitpid`, at the first `lock_acquire`. -/
  | wLock (k : WaitCall) (todo : List WaitAct)
  /-- `sys_waitpid`, with `wait_lock`, before its checks. -/
  | wCheck (k : WaitCall) (todo : List WaitAct)
  /-- `sys_waitpid`, at `lock_release`, with `wait_lock` and the lock of its channel. -/
  | wUnlock (k : WaitCall) (todo : List WaitAct)
  /-- `sys_waitpid`, at `wchan_sleep`, with the lock of its channel. -/
  | wSleep (k : WaitCall) (todo : List WaitAct)
  /-- `sys_waitpid`, in `wchan_sleep`. -/
  | wAsleep (k : WaitCall) (todo : List WaitAct)
  /-- `sys_waitpid`, at the second `lock_acquire`. -/
  | wRelock (k : WaitCall) (todo : List WaitAct)
  /-- `sys_waitpid`, with `wait_lock` again. -/
  | wFinish (k : WaitCall) (todo : List WaitAct)
  /-- `sys_waitpid` has returned. -/
  | returned (k : WaitCall) (r : WaitRet) (todo : List WaitAct)
  /-- `sys__exit`, at `lock_acquire`. -/
  | eLock (code : Int)
  /-- `sys__exit`, at the loop. -/
  | eWalk (code : Int)
  /-- `sys__exit`, at `remove_pid_table`. -/
  | eDone (code : Int)
  /-- `sys__exit` has called `thread_exit`. -/
  | exited (code : Int)
  deriving DecidableEq, Repr

/-- `struct wait_List`, and its channel.  A node is named by who has made it and by whether it was
made for an empty list: a process can have one of either kind. -/
structure WaitNode (τ : Type) where
  id : τ × Bool
  pid : Nat
  /-- `alloc_wait_list` does not set it. -/
  status : Option Int
  /-- The spinlock of the channel is held. -/
  locked : Bool
  /-- Its maker is on the channel. -/
  asleep : Bool
  deriving DecidableEq

/-- What the processes share, and for each of them what is at its `status`. -/
structure WaitSys (τ : Type) where
  /-- The holder of `wait_lock`. -/
  lock : Option τ
  /-- `pid_list`. -/
  table : List Nat
  /-- `wait_list`. -/
  nodes : List (WaitNode τ)
  mem : τ → Int

variable {τ : Type} [DecidableEq τ]

/-- What `copyin`, `pid_exists` and the test of `wait_list` see. -/
def WaitCall.seen (k : WaitCall) (t : τ) (s : WaitSys τ) : WaitCall :=
  { k with stat := s.mem t, there := decide (k.pid ∈ s.table), first := s.nodes.isEmpty }

/-- `sys_waitpid` after the first `lock_acquire`, up to `wchan_lock`.  `pid_exists` panics if
there is no table.  There is memory for the node and its channel. -/
def waitChecked (pid ppid : τ → Nat) (t : τ) (k : WaitCall) (todo : List WaitAct) (s : WaitSys τ) :
    List (WaitPc × WaitSys τ) :=
  let fail (e : Errno) : List (WaitPc × WaitSys τ) :=
    [(.returned (k.seen t s) ⟨some e, -1⟩ todo, { s with lock := none })]
  if k.status ≠ .ok ∧ ppid t ≠ 0 then fail .efault
  else
    match s.table with
    | [] => []
    | head :: rest =>
      if pidExistsFrom k.pid head rest = false ∨ k.pid ≤ pid t then fail .einval
      else if k.status = .null then fail .einval
      else if k.options ≠ 0 then fail .einval
      else
        [(.wUnlock (k.seen t s) todo,
          { s with nodes := s.nodes ++ [⟨(t, s.nodes.isEmpty), k.pid, none, true, false⟩] })]

/-- The node with this name. -/
def WaitSys.node? (s : WaitSys τ) (id : τ × Bool) : Option (WaitNode τ) :=
  s.nodes.find? fun n => n.id = id

/-- `wchan_sleep` on the channel of a node. -/
def WaitNode.sleep (id : τ × Bool) (n : WaitNode τ) : WaitNode τ :=
  if n.id = id then { n with locked := false, asleep := true } else n

/-- The body of the loop of `sys__exit`. -/
def WaitNode.post (pid : Nat) (code : Int) (n : WaitNode τ) : WaitNode τ :=
  if n.pid = pid then { n with status := some code, asleep := false } else n

/-- `sys_waitpid` after the second `lock_acquire`.  In the branch for the empty list
`remove_wait_list` gets a pointer that is not set.  If it can be read, and is not the address of a
node, nothing happens; it may also be the address of any node.  At the head of the list
`remove_wait_list` writes through a pointer that is not set either, and nothing is said about what
comes then. -/
def waitFinished (t : τ) (k : WaitCall) (todo : List WaitAct) (s : WaitSys τ) :
    List (WaitPc × WaitSys τ) :=
  let done (nodes : List (WaitNode τ)) (mem : τ → Int) : WaitPc × WaitSys τ :=
    (.returned k ⟨none, k.pid⟩ todo, { s with lock := none, nodes := nodes, mem := mem })
  if k.first then
    done s.nodes s.mem :: s.nodes.tail.map fun n => done (s.nodes.erase n) s.mem
  else
    match s.node? (t, false) with
    | none => []
    | some n =>
      match n.status with
      | none => []
      | some code =>
        if k.status = .ok then
          [done (s.nodes.filter fun m => m.id ≠ (t, false))
            (update s.mem t (if code ≠ k.stat then -1 else k.stat))]
        else []

/-- What a process can do next.  The loop of `sys__exit` has to wait for the locks of the
channels; as `wait_lock` is held all the time nobody sees the list in between. -/
def waitNext (pid ppid : τ → Nat) (t : τ) : WaitPc → WaitSys τ → List (WaitPc × WaitSys τ)
  -- `thread_create`; a process is there for every pid that it can be given
  | .unborn todo, s =>
    if (addPidTable s.table).1 = pid t then
      [(.user todo, { s with table := (addPidTable s.table).2 })]
    else []
  | .user [], _ => []
  | .user (.wait p status options :: todo), s =>
    [(.wLock ⟨p, status, options, 0, false, false⟩ todo, s)]
  | .user (.exit code :: _), s => [(.eLock code, s)]
  | .wLock k todo, s =>
    if s.lock = none then [(.wCheck k todo, { s with lock := some t })] else []
  | .wCheck k todo, s => waitChecked pid ppid t k todo s
  | .wUnlock k todo, s => [(.wSleep k todo, { s with lock := none })]
  | .wSleep k todo, s =>
    [(.wAsleep k todo, { s with nodes := s.nodes.map (WaitNode.sleep (t, k.first)) })]
  | .wAsleep k todo, s =>
    match s.node? (t, k.first) with
    | none => []
    | some n => if n.asleep then [] else [(.wRelock k todo, s)]
  | .wRelock k todo, s =>
    if s.lock = none then [(.wFinish k todo, { s with lock := some t })] else []
  | .wFinish k todo, s => waitFinished t k todo s
  | .returned _ _ todo, s => [(.user todo, s)]
  | .eLock code, s => if s.lock = none then [(.eWalk code, { s with lock := some t })] else []
  | .eWalk code, s =>
    if ∃ n ∈ s.nodes, n.pid = pid t ∧ n.locked = true then []
    else [(.eDone code, { s with nodes := s.nodes.map (WaitNode.post (pid t) code) })]
  | .eDone code, s =>
    if pid t > 1 then
      match removePidTable (pid t) s.table with
      | none => []
      | some (_, table) => [(.exited code, { s with lock := none, table := table })]
    else [(.exited code, { s with lock := none })]
  | .exited _, _ => []

/-- Before the first call, with the processes whose pids are in the table. -/
def waitBoot (pid : τ → Nat) (prog : τ → List WaitAct) (mem : τ → Int) (table : List Nat) :
    Procs τ WaitPc (WaitSys τ) where
  pc t := if pid t ∈ table then .user (prog t) else .unborn (prog t)
  shared := { lock := none, table := table, nodes := [], mem := mem }

/-! ## 2. Control points -/

namespace WaitPc

/-- The process has `wait_lock`. -/
def hasLock : WaitPc → Bool
  | wCheck .. | wUnlock .. | wFinish .. | eWalk _ | eDone _ => true
  | _ => false

/-- The call whose node is on the list. -/
def call : WaitPc → Option WaitCall
  | wUnlock k _ | wSleep k _ | wAsleep k _ | wRelock k _ | wFinish k _ => some k
  | _ => none

/-- How the node of a waiting process looks: its channel is locked until its maker is on it, and who
has been woken finds the status set. -/
def Fits : WaitPc → WaitNode τ → Prop
  | wUnlock _ _, n => n.locked = true
  | wSleep _ _, n => n.locked = true
  | wAsleep _ _, n => n.asleep = false → n.status ≠ none
  | wRelock _ _, n => n.status ≠ none
  | wFinish _ _, n => n.status ≠ none
  | _, _ => True

/-- The code of a process that is exiting or has exited. -/
def exitCode : WaitPc → Option Int
  | eLock code | eWalk code | eDone code | exited code => some code
  | _ => none

/-- The process has been through the loop of `sys__exit`. -/
def hasPosted : WaitPc → Bool
  | eDone _ | exited _ => true
  | _ => false

/-- The process has not been created, or is there, or has taken its pid out of the table. -/
inductive Life
  | unborn | alive | gone
  deriving DecidableEq

def life : WaitPc → Life
  | unborn _ => .unborn
  | exited _ => .gone
  | _ => .alive

theorem life_of_exitCode {k : WaitPc} {code : Int} (h : k.exitCode = some code) :
    k.life ≠ .unborn := by
  cases k with
  | eLock | eWalk | eDone | exited => exact nofun
  | _ => cases h

end WaitPc

/-! ## 3. The steps -/

theorem WaitSys.node?_some {s : WaitSys τ} {id : τ × Bool} {n : WaitNode τ}
    (h : s.node? id = some n) : n ∈ s.nodes ∧ n.id = id :=
  ⟨mem_of_find?_eq_some h, by simpa using find?_some h⟩

section Steps

variable {pid ppid : τ → Nat} {t : τ} {s : WaitSys τ} {k : WaitPc} {o : WaitPc × WaitSys τ}

/-- What a process can do, with the conditions under which it can. -/
inductive WaitStep (pid : τ → Nat) (t : τ) (s : WaitSys τ) : WaitPc → WaitPc × WaitSys τ → Prop
  | birth (todo : List WaitAct) (hpid : (addPidTable s.table).1 = pid t) :
      WaitStep pid t s (.unborn todo) (.user todo, { s with table := (addPidTable s.table).2 })
  | call (k : WaitCall) (todo todo' : List WaitAct) :
      WaitStep pid t s (.user todo) (.wLock k todo', s)
  | exit (todo : List WaitAct) (code : Int) : WaitStep pid t s (.user todo) (.eLock code, s)
  | lock (k : WaitCall) (todo : List WaitAct) (hfree : s.lock = none) :
      WaitStep pid t s (.wLock k todo) (.wCheck k todo, { s with lock := some t })
  | fail (k : WaitCall) (e : Errno) (todo : List WaitAct)
      (hwhy : k.status = .ok → k.options = 0 → pid t < k.pid → k.pid ∉ s.table) :
      WaitStep pid t s (.wCheck k todo)
        (.returned (k.seen t s) ⟨some e, -1⟩ todo, { s with lock := none })
  | enqueue (k : WaitCall) (todo : List WaitAct) (hthere : k.pid ∈ s.table) (hlt : pid t < k.pid) :
      WaitStep pid t s (.wCheck k todo) (.wUnlock (k.seen t s) todo,
        { s with nodes := s.nodes ++ [⟨(t, s.nodes.isEmpty), k.pid, none, true, false⟩] })
  | unlock (k : WaitCall) (todo : List WaitAct) :
      WaitStep pid t s (.wUnlock k todo) (.wSleep k todo, { s with lock := none })
  | sleep (k : WaitCall) (todo : List WaitAct) : WaitStep pid t s (.wSleep k todo)
      (.wAsleep k todo, { s with nodes := s.nodes.map (WaitNode.sleep (t, k.first)) })
  | wake (k : WaitCall) (todo : List WaitAct) {n : WaitNode τ} (hn : s.node? (t, k.first) = some n)
      (hawake : n.asleep = false) : WaitStep pid t s (.wAsleep k todo) (.wRelock k todo, s)
  | relock (k : WaitCall) (todo : List WaitAct) (hfree : s.lock = none) :
      WaitStep pid t s (.wRelock k todo) (.wFinish k todo, { s with lock := some t })
  | finishFirst (k : WaitCall) (todo : List WaitAct) (nodes : List (WaitNode τ))
      (hfirst : k.first = true) : WaitStep pid t s (.wFinish k todo)
        (.returned k ⟨none, k.pid⟩ todo, { s with lock := none, nodes := nodes })
  | finish (k : WaitCall) (todo : List WaitAct) {n : WaitNode τ} {code : Int}
      (hfirst : k.first = false) (hn : s.node? (t, false) = some n) (hcode : n.status = some code) :
      WaitStep pid t s (.wFinish k todo) (.returned k ⟨none, k.pid⟩ todo,
        { s with lock := none, nodes := s.nodes.filter fun m => m.id ≠ (t, false),
                 mem := update s.mem t (if code ≠ k.stat then -1 else k.stat) })
  | back (k : WaitCall) (r : WaitRet) (todo : List WaitAct) :
      WaitStep pid t s (.returned k r todo) (.user todo, s)
  | exitLock (code : Int) (hfree : s.lock = none) :
      WaitStep pid t s (.eLock code) (.eWalk code, { s with lock := some t })
  | post (code : Int) (hfree : ∀ n ∈ s.nodes, n.pid = pid t → n.locked = false) :
      WaitStep pid t s (.eWalk code)
      (.eDone code, { s with nodes := s.nodes.map (WaitNode.post (pid t) code) })
  | remove (code : Int) {err : Nat} {table : List Nat}
      (heq : removePidTable (pid t) s.table = some (err, table)) :
      WaitStep pid t s (.eDone code) (.exited code, { s with lock := none, table := table })
  | low (code : Int) (hlow : pid t ≤ 1) :
      WaitStep pid t s (.eDone code) (.exited code, { s with lock := none })

theorem waitChecked_step {k : WaitCall} {todo : List WaitAct}
    (ho : o ∈ waitChecked pid ppid t k todo s) :
    WaitStep pid t s (.wCheck k todo) o := by
  unfold waitChecked at ho
  by_cases hptr : k.status ≠ .ok ∧ ppid t ≠ 0
  · rw [if_pos hptr] at ho
    rw [mem_singleton.mp ho]
    exact .fail k _ todo fun hok => absurd hok hptr.1
  rw [if_neg hptr] at ho
  split at ho
  · cases ho
  rename_i head rest htable
  have hexists : pidExistsFrom k.pid head rest = true ↔ k.pid ∈ s.table := by
    rw [htable]
    exact pidExistsFrom_iff
  split_ifs at ho with hpid hnull hoptions
  · rw [mem_singleton.mp ho]
    refine .fail k _ todo fun _ _ hlt hmem => ?_
    rcases hpid with hpid | hpid
    · rw [hexists.mpr hmem] at hpid
      cases hpid
    · exact absurd hlt (Nat.not_lt.mpr hpid)
  · rw [mem_singleton.mp ho]
    exact .fail k _ todo fun hok => by
      rw [hok] at hnull
      cases hnull
  · rw [mem_singleton.mp ho]
    exact .fail k _ todo fun _ hopt => absurd hopt hoptions
  · rw [mem_singleton.mp ho]
    rw [not_or, Bool.not_eq_false, Nat.not_le] at hpid
    exact .enqueue k todo (hexists.mp hpid.1) hpid.2

theorem waitFinished_step {k : WaitCall} {todo : List WaitAct} (ho : o ∈ waitFinished t k todo s) :
    WaitStep pid t s (.wFinish k todo) o := by
  unfold waitFinished at ho
  by_cases hfirst : k.first = true
  · rw [if_pos hfirst] at ho
    rcases mem_cons.mp ho with rfl | ho
    · exact .finishFirst k todo _ hfirst
    · obtain ⟨n, -, rfl⟩ := mem_map.mp ho
      exact .finishFirst k todo _ hfirst
  rw [if_neg hfirst] at ho
  split at ho
  · cases ho
  rename_i n hn
  split at ho
  · cases ho
  rename_i code hcode
  split at ho
  · rw [mem_singleton.mp ho]
    exact .finish k todo (Bool.eq_false_of_not_eq_true hfirst) hn hcode
  · cases ho

theorem waitNext_step (ho : o ∈ waitNext pid ppid t k s) : WaitStep pid t s k o := by
  unfold waitNext at ho
  split at ho
  · obtain ⟨hpid, rfl⟩ := mem_when ho
    exact .birth _ hpid
  · cases ho
  · rw [mem_singleton.mp ho]
    exact .call _ _ _
  · rw [mem_singleton.mp ho]
    exact .exit _ _
  · obtain ⟨hfree, rfl⟩ := mem_when ho
    exact .lock _ _ hfree
  · exact waitChecked_step ho
  · rw [mem_singleton.mp ho]
    exact .unlock _ _
  · rw [mem_singleton.mp ho]
    exact .sleep _ _
  · split at ho
    · cases ho
    · rename_i n hn
      obtain ⟨hasleep, rfl⟩ := mem_unless ho
      exact .wake _ _ hn (Bool.eq_false_of_not_eq_true hasleep)
  · obtain ⟨hfree, rfl⟩ := mem_when ho
    exact .relock _ _ hfree
  · exact waitFinished_step ho
  · rw [mem_singleton.mp ho]
    exact .back _ _ _
  · obtain ⟨hfree, rfl⟩ := mem_when ho
    exact .exitLock _ hfree
  · obtain ⟨hlocked, rfl⟩ := mem_unless ho
    refine .post _ fun n hn hpid => Bool.eq_false_of_not_eq_true fun hl => ?_
    exact hlocked ⟨n, hn, hpid, hl⟩
  · split_ifs at ho with hpid
    · split at ho
      · cases ho
      · rename_i err table heq
        rw [mem_singleton.mp ho]
        exact .remove _ heq
    · rw [mem_singleton.mp ho]
      exact .low _ (Nat.le_of_not_lt hpid)
  · cases ho

section

variable (h : WaitStep pid t s k o)

include h

theorem WaitStep.lock_step : (o.2.lock = s.lock ∧ o.1.hasLock = k.hasLock) ∨
      (s.lock = none ∧ o.2.lock = some t ∧ o.1.hasLock = true) ∨
      (k.hasLock = true ∧ o.2.lock = none ∧ o.1.hasLock = false) := by
  cases h with
  | birth | call | exit | enqueue | sleep | wake | back | post => exact .inl ⟨rfl, rfl⟩
  | lock _ _ hfree => exact .inr (.inl ⟨hfree, rfl, rfl⟩)
  | relock _ _ hfree => exact .inr (.inl ⟨hfree, rfl, rfl⟩)
  | exitLock _ hfree => exact .inr (.inl ⟨hfree, rfl, rfl⟩)
  | fail | unlock | finishFirst | finish | remove | low => exact .inr (.inr ⟨rfl, rfl, rfl⟩)

theorem WaitStep.exitCode {code : Int}
    (hcode : k.exitCode = some code) : o.1.exitCode = some code := by
  cases h with
  | exitLock => exact hcode
  | post => exact hcode
  | remove => exact hcode
  | low => exact hcode
  | _ => cases hcode

theorem WaitStep.mem_of_ne {u : τ} (hne : u ≠ t) : o.2.mem u = s.mem u := by
  cases h with
  | finish => exact update_of_ne hne _ _
  | _ => rfl

theorem WaitStep.table_step (hmin : pidMin ≤ pid t) :
    (o.2.table = s.table ∧ o.1.life = k.life) ∨
      (k.life = .alive ∧ o.1.life = .gone ∧
        ∃ err, removePidTable (pid t) s.table = some (err, o.2.table)) ∨
      (k.life = .unborn ∧ o.1.life = .alive ∧ addPidTable s.table = (pid t, o.2.table)) := by
  cases h with
  | birth _ hpid => exact .inr (.inr ⟨rfl, rfl, Prod.ext hpid rfl⟩)
  | remove _ heq => exact .inr (.inl ⟨rfl, rfl, _, heq⟩)
  | low _ hlow => exact absurd (Nat.le_trans hmin hlow) (by decide)
  | _ => exact .inl ⟨rfl, rfl⟩

end

end Steps

/-! ## 4. The pid table -/

open Procs

/-- Who is there is in the table.  Who has exited is not, or it was the first one.  No two processes
have had the same pid. -/
structure WaitTableOk (pid : τ → Nat) (c : Procs τ WaitPc (WaitSys τ)) : Prop where
  sorted : c.shared.table.Pairwise (· < ·)
  min : ∀ p ∈ c.shared.table, pidMin ≤ p
  alive : ∀ t, (c.pc t).life = .alive → pid t ∈ c.shared.table
  left : ∀ u, (c.pc u).life = .gone → pid u ∈ c.shared.table → ∀ p ∈ c.shared.table, pid u ≤ p
  inj : ∀ t u, (c.pc t).life ≠ .unborn → (c.pc u).life ≠ .unborn → pid t = pid u → t = u

/-- A process that is created gets a pid, and not that of one that has exited. -/
def PidNew (pid : τ → Nat) (c : Procs τ WaitPc (WaitSys τ)) (t : τ) : Prop :=
  (c.pc t).life = .unborn →
    PidRoom c.shared.table ∧ ∀ u, (c.pc u).life = .gone → pid u ≠ pid t

section Table

variable {pid : τ → Nat} {c : Procs τ WaitPc (WaitSys τ)} {t : τ} {o : WaitPc × WaitSys τ}

theorem WaitTableOk.keep (h : WaitTableOk pid c) (htable : o.2.table = c.shared.table)
    (hlife : o.1.life = (c.pc t).life) : WaitTableOk pid (c.move t o) := by
  have hlives : ∀ u, ((c.move t o).pc u).life = (c.pc u).life := move_congr hlife
  constructor
  all_goals simp only [move_shared, htable, hlives]
  · exact h.sorted
  · exact h.min
  · exact h.alive
  · exact h.left
  · exact h.inj

theorem WaitTableOk.remove (h : WaitTableOk pid c) (hmin : pidMin ≤ pid t)
    (hlife : (c.pc t).life = .alive) (hgone : o.1.life = .gone) {err : Nat}
    (heq : removePidTable (pid t) c.shared.table = some (err, o.2.table)) :
    WaitTableOk pid (c.move t o) := by
  obtain ⟨err', table', heq', hsub, hkeep⟩ := removePidTable_spec hmin (h.alive t hlife)
  have hleft := removePidTable_left hmin h.sorted heq
  obtain ⟨-, rfl⟩ := Prod.mk.inj (Option.some.inj (heq.symm.trans heq'))
  have hborn : ∀ u, ((c.move t o).pc u).life ≠ .unborn → (c.pc u).life ≠ .unborn := by
    intro u hu
    rcases eq_or_ne u t with rfl | hne
    · exact hlife.trans_ne nofun
    · rwa [move_pc_of_ne hne] at hu
  refine ⟨h.sorted.sublist hsub, fun p hp => h.min p (hsub.mem hp), fun u hu => ?_,
    fun u hu hmem p hp => ?_, fun u v hu hv => h.inj u v (hborn u hu) (hborn v hv)⟩
  · rcases eq_or_ne u t with rfl | hne
    · rw [move_pc_self, hgone] at hu
      cases hu
    · rw [move_pc_of_ne hne] at hu
      exact hkeep _ (h.alive u hu) fun he =>
        hne (h.inj u t (hu.trans_ne nofun) (hlife.trans_ne nofun) he)
  · rcases eq_or_ne u t with rfl | hne
    · exact hleft hmem p hp
    · rw [move_pc_of_ne hne] at hu
      exact h.left u hu (hsub.mem hmem) p (hsub.mem hp)

theorem WaitTableOk.birth (h : WaitTableOk pid c) (hnew : PidNew pid c t)
    (hlife : (c.pc t).life = .unborn) (halive : o.1.life = .alive)
    (heq : addPidTable c.shared.table = (pid t, o.2.table)) : WaitTableOk pid (c.move t o) := by
  obtain ⟨hroom, hgone⟩ := hnew hlife
  obtain ⟨p, heq', hmin, hlt⟩ := addPidTable_of_room h.sorted h.min hroom
  obtain ⟨rfl, htable⟩ := Prod.mk.inj (heq'.symm.trans heq)
  -- nobody has had this pid
  have hfirst : ∀ u, u ≠ t → ((c.move t o).pc u).life ≠ .unborn → pid u ≠ pid t := by
    intro u hne hu he
    rw [move_pc_of_ne hne] at hu
    cases hl : (c.pc u).life with
    | unborn => exact hu hl
    | alive => exact (hlt _ (h.alive u hl)).ne he
    | gone => exact hgone u hl he
  constructor
  · rw [move_shared, ← htable]
    exact pairwise_append.mpr ⟨h.sorted, pairwise_singleton _ _, by simpa using hlt⟩
  · rw [move_shared, ← htable]
    simpa [or_imp, forall_and] using ⟨h.min, hmin⟩
  · intro u hu
    rw [move_shared, ← htable]
    rcases eq_or_ne u t with rfl | hne
    · simp
    · rw [move_pc_of_ne hne] at hu
      exact mem_append_left _ (h.alive u hu)
  · intro u hu hmem q hq
    rcases eq_or_ne u t with rfl | hne
    · rw [move_pc_self, halive] at hu
      cases hu
    · rw [move_pc_of_ne hne] at hu
      rw [move_shared, ← htable, mem_append, mem_singleton] at hmem hq
      have hmem := hmem.resolve_right (hgone u hu)
      rcases hq with hq | rfl
      · exact h.left u hu hmem q hq
      · exact (hlt _ hmem).le
  · intro u v hu hv he
    rcases eq_or_ne u t with rfl | hut
    · by_contra hne
      exact hfirst v (Ne.symm hne) hv he.symm
    · rcases eq_or_ne v t with rfl | hvt
      · exact absurd he (hfirst u hut hu)
      · rw [move_pc_of_ne hut] at hu
        rw [move_pc_of_ne hvt] at hv
        exact h.inj u v hu hv he

theorem WaitTableOk.step (h : WaitTableOk pid c) (hmin : pidMin ≤ pid t) (hnew : PidNew pid c t)
    (hs : WaitStep pid t c.shared (c.pc t) o) : WaitTableOk pid (c.move t o) := by
  obtain ⟨htable, hlife⟩ | ⟨hlife, hgone, err, heq⟩ | ⟨hlife, halive, heq⟩ := hs.table_step hmin
  · exact h.keep htable hlife
  · exact h.remove hmin hlife hgone heq
  · exact h.birth hnew hlife halive heq

end Table

/-! ## 5. The list -/

/-- Every call that waits has its node, and a node has the code of the process that it is for as
soon as that process has been through the list. -/
structure WaitListOk (pid : τ → Nat) (c : Procs τ WaitPc (WaitSys τ)) : Prop where
  ids : (c.shared.nodes.map WaitNode.id).Nodup
  has : ∀ t k, (c.pc t).call = some k → ∃ n ∈ c.shared.nodes,
    n.id = (t, k.first) ∧ n.pid = k.pid ∧ (c.pc t).Fits n
  owned : ∀ n ∈ c.shared.nodes, n.id.2 = false → ∃ k, (c.pc n.id.1).call = some k ∧ k.first = false
  posted : ∀ n ∈ c.shared.nodes, ∀ code, n.status = some code →
    ∃ u, pid u = n.pid ∧ (c.pc u).exitCode = some code
  told : ∀ n ∈ c.shared.nodes, ∀ u, pid u = n.pid → (c.pc u).hasPosted = true → n.status ≠ none
  waits : ∀ n ∈ c.shared.nodes, n.locked = true ∨ n.asleep = true → n.status = none

section List

variable {pid : τ → Nat} {c : Procs τ WaitPc (WaitSys τ)} {t : τ} {o : WaitPc × WaitSys τ}

omit [DecidableEq τ] in
theorem WaitListOk.eq_of_id (h : WaitListOk pid c) {n m : WaitNode τ} (hn : n ∈ c.shared.nodes)
    (hm : m ∈ c.shared.nodes) (hid : n.id = m.id) : n = m :=
  inj_on_of_nodup_map h.ids hn hm hid

theorem exitCode_move (hs : WaitStep pid t c.shared (c.pc t) o) (u : τ) (code : Int)
    (h : (c.pc u).exitCode = some code) : ((c.move t o).pc u).exitCode = some code := by
  rcases eq_or_ne u t with rfl | hne
  · rw [move_pc_self]
    exact hs.exitCode h
  · rw [move_pc_of_ne hne]
    exact h

section

variable (h : WaitListOk pid c)

include h

theorem WaitListOk.keep (hcode : ∀ u code,
      (c.pc u).exitCode = some code → ((c.move t o).pc u).exitCode = some code)
    (hnodes : o.2.nodes = c.shared.nodes)
    (hcall : ∀ k, o.1.call = some k → (c.pc t).call = some k ∧
      ∀ n ∈ c.shared.nodes, n.id = (t, k.first) → (c.pc t).Fits n → o.1.Fits n)
    (howned : ∀ k, (c.pc t).call = some k → k.first = false → o.1.call = some k)
    (hposted : o.1.hasPosted = true → (c.pc t).hasPosted = true) :
    WaitListOk pid (c.move t o) where
  ids := by
    rw [move_shared, hnodes]
    exact h.ids
  has u k hk := by
    rw [move_shared, hnodes]
    rcases eq_or_ne u t with rfl | hne
    · rw [move_pc_self] at hk ⊢
      obtain ⟨hk, hfits⟩ := hcall k hk
      obtain ⟨n, hn, hid, hpid, hf⟩ := h.has u k hk
      exact ⟨n, hn, hid, hpid, hfits n hn hid hf⟩
    · rw [move_pc_of_ne hne] at hk ⊢
      exact h.has u k hk
  owned n hn hid := by
    rw [move_shared, hnodes] at hn
    obtain ⟨k, hk, hfirst⟩ := h.owned n hn hid
    rcases eq_or_ne n.id.1 t with he | hne
    · rw [he] at hk ⊢
      rw [move_pc_self]
      exact ⟨k, howned k hk hfirst, hfirst⟩
    · rw [move_pc_of_ne hne]
      exact ⟨k, hk, hfirst⟩
  posted n hn code hn' := by
    rw [move_shared, hnodes] at hn
    obtain ⟨u, hu, hucode⟩ := h.posted n hn code hn'
    exact ⟨u, hu, hcode u code hucode⟩
  told n hn u hu hpost := by
    rw [move_shared, hnodes] at hn
    refine h.told n hn u hu ?_
    rcases eq_or_ne u t with rfl | hne
    · rw [move_pc_self] at hpost
      exact hposted hpost
    · rw [move_pc_of_ne hne] at hpost
      exact hpost
  waits n hn := by
    rw [move_shared, hnodes] at hn
    exact h.waits n hn

theorem WaitListOk.map {f : WaitNode τ → WaitNode τ}
    (hid : ∀ n, (f n).id = n.id) (hpid : ∀ n, (f n).pid = n.pid)
    (hnodes : o.2.nodes = c.shared.nodes.map f) (hcall : o.1.call = (c.pc t).call)
    (hfits : ∀ u k n, n ∈ c.shared.nodes → (c.pc u).call = some k → n.id = (u, k.first) →
      (c.pc u).Fits n → ((c.move t o).pc u).Fits (f n))
    (hposted : ∀ n ∈ c.shared.nodes, ∀ code, (f n).status = some code →
      ∃ u, pid u = n.pid ∧ ((c.move t o).pc u).exitCode = some code)
    (htold : ∀ n ∈ c.shared.nodes, ∀ u, pid u = n.pid → ((c.move t o).pc u).hasPosted = true →
      (f n).status ≠ none)
    (hwaits : ∀ n ∈ c.shared.nodes, (f n).locked = true ∨ (f n).asleep = true →
      (f n).status = none) : WaitListOk pid (c.move t o) := by
  have hcalls : ∀ u, ((c.move t o).pc u).call = (c.pc u).call := move_congr hcall
  have hold : ∀ n ∈ (c.move t o).shared.nodes, ∃ m ∈ c.shared.nodes, f m = n := by
    intro n hn
    rw [move_shared, hnodes] at hn
    exact mem_map.mp hn
  refine ⟨?_, fun u k hk => ?_, fun n hn hfirst => ?_, fun n hn code hcode => ?_,
    fun n hn u hu hpost => ?_, fun n hn hwait => ?_⟩
  · have hids : WaitNode.id ∘ f = WaitNode.id := funext hid
    rw [move_shared, hnodes, map_map, hids]
    exact h.ids
  · rw [hcalls] at hk
    obtain ⟨n, hn, hnid, hnpid, hf⟩ := h.has u k hk
    refine ⟨f n, ?_, (hid n).trans hnid, (hpid n).trans hnpid, hfits u k n hn hk hnid hf⟩
    rw [move_shared, hnodes]
    exact mem_map_of_mem hn
  · obtain ⟨m, hm, rfl⟩ := hold n hn
    rw [hid] at hfirst ⊢
    rw [hcalls]
    exact h.owned m hm hfirst
  · obtain ⟨m, hm, rfl⟩ := hold n hn
    rw [hpid]
    exact hposted m hm code hcode
  · obtain ⟨m, hm, rfl⟩ := hold n hn
    rw [hpid] at hu
    exact htold m hm u hu hpost
  · obtain ⟨m, hm, rfl⟩ := hold n hn
    exact hwaits m hm hwait

variable {todo : List WaitAct} {k : WaitCall}

theorem WaitListOk.sleep (hpc : c.pc t = .wSleep k todo) (hpc' : o.1 = .wAsleep k todo)
    (hnodes : o.2.nodes = c.shared.nodes.map (WaitNode.sleep (t, k.first))) :
    WaitListOk pid (c.move t o) := by
  have hstatus : ∀ n : WaitNode τ, (n.sleep (t, k.first)).status = n.status := by
    intro n
    unfold WaitNode.sleep
    split_ifs <;> rfl
  have hcodes : ∀ u, ((c.move t o).pc u).exitCode = (c.pc u).exitCode :=
    move_congr (by rw [hpc, hpc']; rfl)
  have hposts : ∀ u, ((c.move t o).pc u).hasPosted = (c.pc u).hasPosted :=
    move_congr (by rw [hpc, hpc']; rfl)
  refine h.map (fun n => ?_) (fun n => ?_) hnodes (by rw [hpc, hpc']; rfl) ?_ ?_ ?_ ?_
  · unfold WaitNode.sleep
    split_ifs <;> rfl
  · unfold WaitNode.sleep
    split_ifs <;> rfl
  · intro u a n _ ha hid hf
    rcases eq_or_ne u t with rfl | hne
    · rw [hpc] at ha
      cases ha
      rw [move_pc_self, hpc', WaitNode.sleep, if_pos hid]
      exact nofun
    · rw [move_pc_of_ne hne, WaitNode.sleep, if_neg]
      · exact hf
      · rw [hid]
        exact fun he => hne (Prod.mk.inj he).1
  · intro n hn code hcode
    rw [hstatus] at hcode
    obtain ⟨u, hu, hucode⟩ := h.posted n hn code hcode
    exact ⟨u, hu, (hcodes u).trans hucode⟩
  · intro n hn u hu hpost
    rw [hstatus]
    exact h.told n hn u hu ((hposts u).symm.trans hpost)
  · intro n hn hwait
    rw [hstatus]
    unfold WaitNode.sleep at hwait
    split_ifs at hwait with hid
    · -- its channel was locked until now
      obtain ⟨m, hm, hmid, -, hlocked⟩ := h.has t k (by rw [hpc]; rfl)
      rw [hpc] at hlocked
      rw [h.eq_of_id hn hm (hid.trans hmid.symm)]
      exact h.waits m hm (.inl hlocked)
    · exact h.waits n hn hwait

theorem WaitListOk.post {code : Int} (hpc : c.pc t = .eWalk code) (hpc' : o.1 = .eDone code)
    (hfree : ∀ n ∈ c.shared.nodes, n.pid = pid t → n.locked = false)
    (hnodes : o.2.nodes = c.shared.nodes.map (WaitNode.post (pid t) code)) :
    WaitListOk pid (c.move t o) := by
  have hcodes : ∀ u, ((c.move t o).pc u).exitCode = (c.pc u).exitCode :=
    move_congr (by rw [hpc, hpc']; rfl)
  refine h.map (fun n => ?_) (fun n => ?_) hnodes (by rw [hpc, hpc']; rfl) ?_ ?_ ?_ ?_
  · unfold WaitNode.post
    split_ifs <;> rfl
  · unfold WaitNode.post
    split_ifs <;> rfl
  · intro u a n _ ha _ hf
    have hne : u ≠ t := by
      rintro rfl
      rw [hpc] at ha
      cases ha
    rw [move_pc_of_ne hne]
    unfold WaitNode.post
    split_ifs
    · -- the lock of the channel is as it was, and the status is set
      cases hu : c.pc u with
      | wUnlock | wSleep =>
        rw [hu] at hf
        exact hf
      | wAsleep => exact fun _ => Option.some_ne_none _
      | wRelock => exact Option.some_ne_none _
      | wFinish => exact Option.some_ne_none _
      | _ => trivial
    · exact hf
  · intro n hn code' hcode'
    unfold WaitNode.post at hcode'
    split_ifs at hcode' with hp
    · refine ⟨t, hp.symm, ?_⟩
      rw [move_pc_self, hpc']
      exact hcode'
    · obtain ⟨u, hu, hucode⟩ := h.posted n hn code' hcode'
      exact ⟨u, hu, (hcodes u).trans hucode⟩
  · intro n hn u hu hpost
    unfold WaitNode.post
    split_ifs with hp
    · exact Option.some_ne_none _
    · have hne : u ≠ t := by
        rintro rfl
        exact hp hu.symm
      rw [move_pc_of_ne hne] at hpost
      exact h.told n hn u hu hpost
  · intro n hn hwait
    unfold WaitNode.post at hwait ⊢
    split_ifs at hwait ⊢ with hp
    · rcases hwait with hwait | hwait
      · rw [hfree n hn hp] at hwait
        cases hwait
      · cases hwait
    · exact h.waits n hn hwait

theorem WaitListOk.enqueue
    (hpc : c.pc t = .wCheck k todo) (hpc' : o.1 = .wUnlock (k.seen t c.shared) todo)
    (hnodes : o.2.nodes = c.shared.nodes ++
      [⟨(t, c.shared.nodes.isEmpty), k.pid, none, true, false⟩])
    (hnone : ∀ u, pid u = k.pid → (c.pc u).hasPosted = false) :
    WaitListOk pid (c.move t o) := by
  have hold : ∀ u, u ≠ t → (c.move t o).pc u = c.pc u := fun u hne => move_pc_of_ne hne
  -- before the step the process has no node, but for the one of a first call
  have hnot : (t, c.shared.nodes.isEmpty) ∉ c.shared.nodes.map WaitNode.id := by
    intro hmem
    obtain ⟨n, hn, hid⟩ := mem_map.mp hmem
    have hne : c.shared.nodes.isEmpty = false := by
      cases hnil : c.shared.nodes with
      | nil =>
        rw [hnil] at hn
        cases hn
      | cons => rfl
    obtain ⟨a, ha, -⟩ := h.owned n hn (by rw [hid, hne])
    rw [hid, hpc] at ha
    cases ha
  refine ⟨?_, fun u a ha => ?_, fun n hn hfirst => ?_, fun n hn code hcode => ?_,
    fun n hn u hu hpost => ?_, fun n hn hwait => ?_⟩
  · rw [move_shared, hnodes, map_append, map_singleton, ← concat_eq_append]
    exact h.ids.concat hnot
  · rw [move_shared, hnodes]
    rcases eq_or_ne u t with rfl | hne
    · rw [move_pc_self, hpc'] at ha ⊢
      cases ha
      exact ⟨_, mem_append_right _ (mem_singleton_self _), rfl, rfl, rfl⟩
    · rw [hold u hne] at ha ⊢
      obtain ⟨n, hn, hrest⟩ := h.has u a ha
      exact ⟨n, mem_append_left _ hn, hrest⟩
  · rw [move_shared, hnodes] at hn
    rcases mem_append.mp hn with hn | hn
    · obtain ⟨a, ha, hafirst⟩ := h.owned n hn hfirst
      have hne : n.id.1 ≠ t := by
        intro he
        rw [he, hpc] at ha
        cases ha
      rw [hold _ hne]
      exact ⟨a, ha, hafirst⟩
    · rw [mem_singleton.mp hn] at hfirst ⊢
      rw [move_pc_self, hpc']
      exact ⟨_, rfl, hfirst⟩
  · rw [move_shared, hnodes] at hn
    rcases mem_append.mp hn with hn | hn
    · obtain ⟨u, hu, hucode⟩ := h.posted n hn code hcode
      have hne : u ≠ t := by
        rintro rfl
        rw [hpc] at hucode
        cases hucode
      rw [← hold u hne] at hucode
      exact ⟨u, hu, hucode⟩
    · rw [mem_singleton.mp hn] at hcode
      cases hcode
  · rw [move_shared, hnodes] at hn
    have hne : u ≠ t := by
      rintro rfl
      rw [move_pc_self, hpc'] at hpost
      cases hpost
    rw [hold u hne] at hpost
    rcases mem_append.mp hn with hn | hn
    · exact h.told n hn u hu hpost
    · rw [mem_singleton.mp hn] at hu
      rw [hnone u hu] at hpost
      cases hpost
  · rw [move_shared, hnodes] at hn
    rcases mem_append.mp hn with hn | hn
    · exact h.waits n hn hwait
    · rw [mem_singleton.mp hn]

theorem WaitListOk.finish {r : WaitRet}
    (hpc : c.pc t = .wFinish k todo) (hpc' : o.1 = .returned k r todo)
    (hnodes : o.2.nodes = c.shared.nodes.filter fun m => m.id ≠ (t, false)) :
    WaitListOk pid (c.move t o) := by
  have hsub : o.2.nodes.Sublist c.shared.nodes := by
    rw [hnodes]
    exact filter_sublist
  have hcodes : ∀ u, ((c.move t o).pc u).exitCode = (c.pc u).exitCode :=
    move_congr (by rw [hpc, hpc']; rfl)
  have hposts : ∀ u, ((c.move t o).pc u).hasPosted = (c.pc u).hasPosted :=
    move_congr (by rw [hpc, hpc']; rfl)
  refine ⟨?_, fun u a ha => ?_, fun n hn hfirst => ?_, fun n hn code hcode => ?_,
    fun n hn u hu hpost => ?_, fun n hn hwait => ?_⟩
  · exact h.ids.sublist (hsub.map WaitNode.id)
  · have hne : u ≠ t := by
      rintro rfl
      rw [move_pc_self, hpc'] at ha
      cases ha
    rw [move_pc_of_ne hne] at ha ⊢
    obtain ⟨n, hn, hid, hrest⟩ := h.has u a ha
    refine ⟨n, ?_, hid, hrest⟩
    rw [move_shared, hnodes, mem_filter, hid]
    simp [hn, hne]
  · have hmem := hsub.mem hn
    have hne : n.id.1 ≠ t := by
      intro he
      rw [move_shared, hnodes, mem_filter] at hn
      exact absurd (Prod.ext he hfirst) (by simpa using hn.2)
    rw [move_pc_of_ne hne]
    exact h.owned n hmem hfirst
  · obtain ⟨u, hu, hucode⟩ := h.posted n (hsub.mem hn) code hcode
    exact ⟨u, hu, (hcodes u).trans hucode⟩
  · exact h.told n (hsub.mem hn) u hu ((hposts u).symm.trans hpost)
  · exact h.waits n (hsub.mem hn) hwait

end

end List

/-! ## 6. Runs -/

/-- The table has the pids of processes that have been created, and none of which has exited. -/
structure PidsOf (pid : τ → Nat) (table : List Nat) : Prop where
  inj : ∀ t u, pid t ∈ table → pid t = pid u → t = u
  sorted : table.Pairwise (· < ·)
  min : ∀ p ∈ table, pidMin ≤ p
  pid_min : ∀ t, pidMin ≤ pid t

/-- The pointer that is not set, in the branch of `sys_waitpid` for the empty list, is harmless: it
can be read and is not the address of a node. -/
def GarbageHarmless (c : Procs τ WaitPc (WaitSys τ)) (t : τ) (o : WaitPc × WaitSys τ) : Prop :=
  (∃ k todo, c.pc t = .wFinish k todo ∧ k.first = true) → o.2.nodes = c.shared.nodes

/-- The runs of the processes, in any interleaving. -/
def WaitReach (pid ppid : τ → Nat) (c₀ : Procs τ WaitPc (WaitSys τ)) :
    Procs τ WaitPc (WaitSys τ) → Prop :=
  Reach (waitNext pid ppid) (fun _ _ _ => True) c₀

/-- The runs in which the pointer is harmless and no pid is handed out again. -/
def WaitCalm (pid ppid : τ → Nat) (c₀ : Procs τ WaitPc (WaitSys τ)) :
    Procs τ WaitPc (WaitSys τ) → Prop :=
  Reach (waitNext pid ppid) (fun c t o => GarbageHarmless c t o ∧ PidNew pid c t) c₀

/-- How a call has gone that has returned. -/
def WaitSettled (pid : τ → Nat) (c : Procs τ WaitPc (WaitSys τ)) (t : τ) (k : WaitCall)
    (r : WaitRet) : Prop :=
  (r = ⟨none, k.pid⟩ ∧ k.there = true ∧ ∃ u code, pid u = k.pid ∧ (c.pc u).exitCode = some code ∧
      c.shared.mem t = if k.first then k.stat else if code ≠ k.stat then -1 else k.stat) ∨
  (r.err ≠ none ∧ (k.status = .ok → k.options = 0 → pid t < k.pid → k.there = false))

/-- What holds in every state. -/
structure WaitInv (pid : τ → Nat) (c : Procs τ WaitPc (WaitSys τ)) : Prop where
  lock : Guarded WaitSys.lock WaitPc.hasLock c
  table : WaitTableOk pid c
  list : WaitListOk pid c
  seen : ∀ t k, (c.pc t).call = some k → k.there = true ∧ c.shared.mem t = k.stat
  settled : ∀ t k r todo, c.pc t = .returned k r todo → WaitSettled pid c t k r

section Runs

variable {pid ppid : τ → Nat} {c : Procs τ WaitPc (WaitSys τ)} {t : τ} {o : WaitPc × WaitSys τ}

variable {prog : τ → List WaitAct}

omit [DecidableEq τ] in
theorem waitBoot_inv {mem : τ → Int} {table : List Nat}
    (hp : PidsOf pid table) : WaitInv pid (waitBoot pid prog mem table) := by
  have hpc : ∀ t, (pid t ∈ table ∧ (waitBoot pid prog mem table).pc t = .user (prog t)) ∨
      (waitBoot pid prog mem table).pc t = .unborn (prog t) := by
    intro t
    by_cases ht : pid t ∈ table
    · exact .inl ⟨ht, if_pos ht⟩
    · exact .inr (if_neg ht)
  have hborn : ∀ t, ((waitBoot pid prog mem table).pc t).life ≠ .unborn → pid t ∈ table := by
    intro t ht
    refine ((hpc t).resolve_right fun hno => ht ?_).1
    rw [hno]
    rfl
  have hnone : ∀ t, ((waitBoot pid prog mem table).pc t).hasLock = false ∧
      ((waitBoot pid prog mem table).pc t).call = none ∧
      ((waitBoot pid prog mem table).pc t).life ≠ .gone := by
    intro t
    rcases hpc t with ⟨-, ht⟩ | ht
    all_goals
      rw [ht]
      exact ⟨rfl, rfl, nofun⟩
  refine ⟨fun t => ⟨nofun, fun ht => ?_⟩,
    ⟨hp.sorted, hp.min, fun t ht => hborn t (ht.trans_ne nofun),
    fun u hu => absurd hu (hnone u).2.2, fun t u ht _ => hp.inj t u (hborn t ht)⟩,
    ⟨nodup_nil, fun t _ hk => ?_, nofun, nofun, nofun, nofun⟩, fun t _ hk => ?_,
    fun t _ _ _ hr => ?_⟩
  · rw [(hnone t).1] at ht
    cases ht
  · rw [(hnone t).2.1] at hk
    cases hk
  · rw [(hnone t).2.1] at hk
    cases hk
  · rcases hpc t with ⟨-, ht⟩ | ht
    all_goals
      rw [ht] at hr
      cases hr

variable {k : WaitCall} {todo : List WaitAct}

omit [DecidableEq τ] in
/-- While a process is between its check and its sleep nobody with the pid it waits for has been
through the list. -/
theorem WaitInv.not_posted (h : WaitInv pid c)
    (hpc : c.pc t = .wCheck k todo) (hlt : pid t < k.pid) (hthere : k.pid ∈ c.shared.table) {u : τ}
    (hu : pid u = k.pid) : (c.pc u).hasPosted = false := by
  have hne : u ≠ t := by
    rintro rfl
    exact Nat.ne_of_lt hlt hu
  have hlock : (c.pc u).hasLock = false := by
    by_contra hin
    exact hne (h.lock.unique (Bool.eq_true_of_not_eq_false hin) (by rw [hpc]; rfl))
  cases hpu : c.pc u with
  | eDone code =>
    rw [hpu] at hlock
    cases hlock
  | exited code =>
    -- only the first process can be in the table after its exit, and it is no one's child
    have hle := h.table.left u (by rw [hpu]; rfl) (hu ▸ hthere) (pid t)
      (h.table.alive t (by rw [hpc]; rfl))
    omega
  | _ => rfl

theorem WaitInv.list_step (h : WaitInv pid c) (hs : WaitStep pid t c.shared (c.pc t) o)
    (hok : GarbageHarmless c t o) : WaitListOk pid (c.move t o) := by
  have hcode := exitCode_move hs
  generalize hpc : c.pc t = k at hs
  cases hs with
  | birth | call | exit | lock | fail | exitLock | back =>
    refine h.list.keep hcode rfl (fun _ ha => nomatch ha) (fun a ha => ?_) nofun
    rw [hpc] at ha
    cases ha
  | enqueue k todo hthere hlt =>
    exact h.list.enqueue hpc rfl rfl fun u hu => h.not_posted hpc hlt hthere hu
  | unlock | relock =>
    refine h.list.keep hcode rfl (fun a ha => ⟨?_, fun n _ _ hf => ?_⟩) (fun a ha _ => ?_) nofun
    · rw [hpc]
      exact ha
    · rw [hpc] at hf
      exact hf
    · rw [hpc] at ha
      exact ha
  | sleep k todo => exact h.list.sleep hpc rfl rfl
  | @wake k todo m hm hawake =>
    obtain ⟨hmem, hmid⟩ := WaitSys.node?_some hm
    refine h.list.keep hcode rfl (fun a ha => ⟨?_, fun n hn hid hf => ?_⟩) (fun a ha _ => ?_) nofun
    · rw [hpc]
      exact ha
    · cases ha
      rw [hpc, h.list.eq_of_id hn hmem (hid.trans hmid.symm)] at hf
      rw [h.list.eq_of_id hn hmem (hid.trans hmid.symm)]
      exact hf hawake
    · rw [hpc] at ha
      exact ha
  | finishFirst k todo nodes hfirst =>
    refine h.list.keep hcode (hok ⟨k, todo, hpc, hfirst⟩) (fun _ ha => nomatch ha)
      (fun a ha hafirst => ?_) nofun
    rw [hpc] at ha
    cases ha
    rw [hfirst] at hafirst
    cases hafirst
  | finish k todo hfirst hn hcode => exact h.list.finish hpc rfl rfl
  | post code hfree => exact h.list.post hpc rfl hfree rfl
  | remove | low =>
    refine h.list.keep hcode rfl (fun _ ha => nomatch ha) (fun a ha => ?_) (fun _ => ?_)
    · rw [hpc] at ha
      cases ha
    · rw [hpc]
      rfl

/-- A process comes to wait only for a pid that it has found in the table, and its `*status` is as
it was when it looked. -/
theorem WaitInv.seen_step (h : WaitInv pid c) (hs : WaitStep pid t c.shared (c.pc t) o) {u : τ}
    (hk : ((c.move t o).pc u).call = some k) :
    k.there = true ∧ (c.move t o).shared.mem u = k.stat := by
  rcases eq_or_ne u t with rfl | hne
  · rw [move_pc_self] at hk
    have hold := h.seen u k
    rw [move_shared]
    generalize c.pc u = k' at hs hold
    cases hs with
    | enqueue a todo hthere =>
      cases hk
      exact ⟨decide_eq_true hthere, rfl⟩
    | unlock | sleep | wake | relock => exact hold hk
    | _ => cases hk
  · rw [move_pc_of_ne hne] at hk
    rw [move_shared, hs.mem_of_ne hne]
    exact h.seen u k hk

theorem WaitSettled.move {r : WaitRet} {u : τ} (h : WaitSettled pid c u k r)
    (hs : WaitStep pid t c.shared (c.pc t) o) (hne : u ≠ t) :
    WaitSettled pid (c.move t o) u k r := by
  rcases h with ⟨hr, hthere, v, code, hv, hcode, hmem⟩ | herr
  · refine .inl ⟨hr, hthere, v, code, hv, exitCode_move hs v code hcode, ?_⟩
    rw [move_shared, hs.mem_of_ne hne, hmem]
  · exact .inr herr

omit [DecidableEq τ] in
theorem WaitInv.code (h : WaitInv pid c)
    (hpc : c.pc t = .wFinish k todo) : ∃ n ∈ c.shared.nodes, n.id = (t, k.first) ∧
      ∃ u code, n.status = some code ∧ pid u = k.pid ∧ (c.pc u).exitCode = some code := by
  obtain ⟨n, hn, hid, hpid, hfits⟩ := h.list.has t k (by rw [hpc]; rfl)
  rw [hpc] at hfits
  obtain ⟨code, hcode⟩ := Option.ne_none_iff_exists'.mp hfits
  obtain ⟨u, hu, hucode⟩ := h.list.posted n hn code hcode
  exact ⟨n, hn, hid, u, code, hcode, hu.trans hpid, hucode⟩

/-- **A call returns.** -/
theorem WaitInv.settled_step (h : WaitInv pid c) (hs : WaitStep pid t c.shared (c.pc t) o)
    {r : WaitRet} (ho : o.1 = .returned k r todo) :
    WaitSettled pid (c.move t o) t k r := by
  have hcodes := exitCode_move hs
  generalize hpc : c.pc t = k' at hs
  cases hs with
  | fail a e todo' hwhy =>
    cases ho
    refine .inr ⟨Option.some_ne_none e, fun hok hopt hlt => ?_⟩
    exact decide_eq_false (hwhy hok hopt hlt)
  | finishFirst a todo' nodes hfirst =>
    cases ho
    obtain ⟨hthere, hstat⟩ := h.seen t k (by rw [hpc]; rfl)
    obtain ⟨-, -, -, u, code, -, hu, hucode⟩ := h.code hpc
    refine .inl ⟨rfl, hthere, u, code, hu, hcodes u code hucode, ?_⟩
    rw [if_pos hfirst]
    exact hstat
  | @finish a todo' m code hfirst hm hcode =>
    cases ho
    obtain ⟨hthere, -⟩ := h.seen t k (by rw [hpc]; rfl)
    obtain ⟨n, hn, hid, u, code', hcode', hu, hucode⟩ := h.code hpc
    obtain ⟨hmem, hmid⟩ := WaitSys.node?_some hm
    rw [hfirst] at hid
    rw [h.list.eq_of_id hn hmem (hid.trans hmid.symm), hcode] at hcode'
    cases hcode'
    refine .inl ⟨rfl, hthere, u, code, hu, hcodes u code hucode, ?_⟩
    rw [hfirst]
    exact update_self _ _ _
  | _ => cases ho

theorem WaitInv.step (h : WaitInv pid c) (hmin : pidMin ≤ pid t)
    (hs : WaitStep pid t c.shared (c.pc t) o) (hok : GarbageHarmless c t o)
    (hnew : PidNew pid c t) : WaitInv pid (c.move t o) where
  lock := h.lock.step hs.lock_step
  table := h.table.step hmin hnew hs
  list := h.list_step hs hok
  seen _ _ hk := h.seen_step hs hk
  settled u k r todo hr := by
    rcases eq_or_ne u t with rfl | hne
    · rw [move_pc_self] at hr
      exact h.settled_step hs hr
    · rw [move_pc_of_ne hne] at hr
      exact (h.settled u k r todo hr).move hs hne

/-- **What holds in every state of a calm run.** -/
theorem WaitCalm.inv {mem : τ → Int} {table : List Nat} (hp : PidsOf pid table)
    (h : WaitCalm pid ppid (waitBoot pid prog mem table) c) : WaitInv pid c :=
  Reach.invariant (waitBoot_inv hp)
    (fun _ t _ hi ho hok => hi.step (hp.pid_min t) (waitNext_step ho) hok.1 hok.2) h

end Runs

/-! ## 7. What a parent gets -/

/-- `sys_waitpid` has returned 0 and the pid, and the exit code of the process is in `*status`. -/
def Delivered (c : Procs τ WaitPc (WaitSys τ)) (t u : τ) (k : WaitCall) (r : WaitRet) : Prop :=
  r = ⟨none, k.pid⟩ ∧ (c.pc u).exitCode = some (c.shared.mem t)

/-- The call came before the exit, and `*status` had the exit code in it already; or the exit code
is -1 and the list was not empty. -/
def Foreseen (c : Procs τ WaitPc (WaitSys τ)) (u : τ) (k : WaitCall) : Prop :=
  k.there = true ∧ ∃ code, (c.pc u).exitCode = some code ∧
    (k.stat = code ∨ (k.first = false ∧ code = -1))

theorem written_eq_iff {first : Bool} {stat code : Int} :
    (if first then stat else if code ≠ stat then -1 else stat) = code ↔
      stat = code ∨ (first = false ∧ code = -1) := by
  cases first with
  | true => simp
  | false =>
    by_cases h : code = stat
    · simp [h]
    · simp [h, Ne.symm h, eq_comm]

/-- **No wakeup is lost**: who waits for a process that has exited has been woken. -/
theorem WaitInv.wakes {pid ppid : τ → Nat} {c : Procs τ WaitPc (WaitSys τ)} (h : WaitInv pid c)
    {t u : τ} {k : WaitCall} {todo : List WaitAct} (hpc : c.pc t = .wAsleep k todo)
    (hu : pid u = k.pid) (hgone : (c.pc u).life = .gone) :
    waitNext pid ppid t (c.pc t) c.shared = [(.wRelock k todo, c.shared)] := by
  obtain ⟨n, hn, hid, hpid, -⟩ := h.list.has t k (by rw [hpc]; rfl)
  have hposted : (c.pc u).hasPosted = true := by
    cases hpu : c.pc u with
    | exited => rfl
    | _ =>
      rw [hpu] at hgone
      cases hgone
  have hstatus := h.list.told n hn u (hu.trans hpid.symm) hposted
  have hawake : n.asleep = false := Bool.eq_false_of_not_eq_true fun hasleep =>
    hstatus (h.list.waits n hn (.inr hasleep))
  have hfind : c.shared.node? (t, k.first) = some n := by
    cases hfound : c.shared.node? (t, k.first) with
    | none => exact absurd hid (by simpa using find?_eq_none.mp hfound n hn)
    | some m =>
      obtain ⟨hm, hmid⟩ := WaitSys.node?_some hfound
      rw [h.list.eq_of_id hm hn (hmid.trans hid.symm)]
  rw [hpc, waitNext, hfind]
  simp [hawake]

/-- **`sys_waitpid` delivers the exit status exactly if it was there before.**  In any
interleaving of any calls in which the garbage is harmless and no pid is handed out again: when a
process has called `sys_waitpid` for the pid of a younger process, with a good pointer and no
options, and the call has returned, then it has delivered the status exactly if the exit code was
foreseen.  And no wakeup is lost: who sleeps does not sleep when the other process has exited. -/
theorem waitpid_delivers {pid ppid : τ → Nat} {prog : τ → List WaitAct} {mem : τ → Int}
    {table : List Nat} {c : Procs τ WaitPc (WaitSys τ)} (hp : PidsOf pid table)
    (h : WaitCalm pid ppid (waitBoot pid prog mem table) c) {t u : τ} {k : WaitCall}
    {todo : List WaitAct} (hu : pid u = k.pid) :
    (∀ r, c.pc t = .returned k r todo → k.status = .ok → k.options = 0 → pid t < k.pid →
      (Delivered c t u k r ↔ Foreseen c u k)) ∧
    (c.pc t = .wAsleep k todo → (c.pc u).life = .gone →
      waitNext pid ppid t (c.pc t) c.shared = [(.wRelock k todo, c.shared)]) := by
  have hinv := h.inv hp
  constructor
  · intro r hr hok hopt hlt
    rcases hinv.settled t k r todo hr with ⟨hret, hthere, v, code, hv, hcode, hmem⟩ | ⟨herr, hnot⟩
    · -- if `u` has exited, it is the process that the call has waited for
      have hsame : ∀ code', (c.pc u).exitCode = some code' → code' = code := by
        intro code' hcode'
        obtain rfl := hinv.table.inj v u (WaitPc.life_of_exitCode hcode)
          (WaitPc.life_of_exitCode hcode')
          (hv.trans hu.symm)
        exact Option.some.inj (hcode'.symm.trans hcode)
      constructor
      · rintro ⟨-, heq⟩
        refine ⟨hthere, _, heq, ?_⟩
        rw [hsame _ heq, ← written_eq_iff, ← hmem]
        exact hsame _ heq
      · rintro ⟨-, code', heq, hwhy⟩
        refine ⟨hret, heq.trans (congrArg some ?_)⟩
        rw [hsame _ heq] at hwhy ⊢
        rw [hmem, written_eq_iff.mpr hwhy]
    · constructor
      · rintro ⟨rfl, -⟩
        exact absurd rfl herr
      · rintro ⟨hthere, -⟩
        rw [hnot hok hopt hlt] at hthere
        cases hthere
  · intro hpc hgone
    exact hinv.wakes hpc hu hgone

/-- The parent is thread `false` and has pid 2, the child is thread `true` and has pid 3. -/
def parentAndChild (t : Bool) : Nat := if t then 3 else 2

theorem parentAndChild_pidsOf : PidsOf parentAndChild [2] where
  inj := by decide
  sorted := by decide
  min := by decide
  pid_min := by decide

/-- The parent waits, and the child exits with code 5. -/
def waitForChild (t : Bool) : List WaitAct := if t then [.exit 5] else [.wait 3 .ok 0]

/-- The two processes, with `stat` in `*status`; the child has not been created. -/
def beforeFork (stat : Int) : Procs Bool WaitPc (WaitSys Bool) :=
  waitBoot parentAndChild waitForChild (fun _ => stat) [2]

/-- The child is created, the parent goes to sleep, the child exits and wakes it up, and the parent
goes on. -/
def sleepThenExit : List (Bool × Nat) :=
  [(true, 0), (false, 0), (false, 0), (false, 0), (false, 0), (false, 0), (true, 0), (true, 0),
    (true, 0), (true, 0), (false, 0), (false, 0), (false, 0)]

/-- The call of the parent, whose `*status` is `stat`. -/
def parentCall (stat : Int) : WaitCall := ⟨3, .ok, 0, stat, true, true⟩

/-- The check that goes with `GarbageHarmless` and `PidNew`. -/
def calm [Fintype τ] (pid : τ → Nat) (c : Procs τ WaitPc (WaitSys τ)) (t : τ)
    (o : WaitPc × WaitSys τ) : Bool :=
  (decide (o.2.nodes = c.shared.nodes) || !(match c.pc t with
    | .wFinish _ _ => true
    | _ => false)) &&
  (decide ((c.pc t).life ≠ .unborn) || c.shared.table.getLast?.all (· ≤ maxPid) &&
    decide (∀ u, (c.pc u).life = .gone → pid u ≠ pid t))

theorem calm_sound [Fintype τ] (pid : τ → Nat) (c : Procs τ WaitPc (WaitSys τ)) (t : τ)
    (o : WaitPc × WaitSys τ) (h : calm pid c t o = true) :
    GarbageHarmless c t o ∧ PidNew pid c t := by
  rw [calm, Bool.and_eq_true] at h
  refine ⟨?_, fun hlife => ?_⟩
  · rintro ⟨k, todo, hpc, -⟩
    simpa [hpc] using h.1
  · simpa [hlife, PidRoom, Option.all_eq_true] using h.2

/-- With 5 in `*status` before the call the parent finds 5 there after it. -/
theorem waitpid_delivers_foreseen : ∃ c : Procs Bool WaitPc (WaitSys Bool),
    WaitCalm parentAndChild parentAndChild (beforeFork 5) c ∧
      Foreseen c true (parentCall 5) ∧ Delivered c false true (parentCall 5) ⟨none, 3⟩ := by
  have hcalm : WaitCalm parentAndChild parentAndChild (beforeFork 5)
      ((follow (waitNext parentAndChild parentAndChild) (calm parentAndChild) sleepThenExit
        (beforeFork 5)).get (by decide)) := reach_follow (calm_sound _) _
  have hforeseen : Foreseen ((follow (waitNext parentAndChild parentAndChild) (calm parentAndChild)
      sleepThenExit (beforeFork 5)).get (by decide)) true (parentCall 5) :=
    ⟨rfl, 5, by decide, .inl rfl⟩
  have hret : ((follow (waitNext parentAndChild parentAndChild) (calm parentAndChild) sleepThenExit
      (beforeFork 5)).get (by decide)).pc false = .returned (parentCall 5) ⟨none, 3⟩ [] := by decide
  refine ⟨_, hcalm, hforeseen, ?_⟩
  exact ((waitpid_delivers parentAndChild_pidsOf hcalm rfl).1 _ hret rfl rfl (by decide)).mpr
    hforeseen

/-- **The status does not get through**: with 0 in `*status` before the call the parent finds 0
there after it, while the child has exited with 5. -/
theorem exit_code_not_delivered : ¬ ∀ c : Procs Bool WaitPc (WaitSys Bool),
    WaitReach parentAndChild parentAndChild (beforeFork 0) c →
      ∀ k r todo, c.pc false = .returned k r todo → k.pid = 3 → k.status = .ok → k.options = 0 →
        Delivered c false true k r := by
  intro hall
  have hreach : WaitReach parentAndChild parentAndChild (beforeFork 0)
      ((follow (waitNext parentAndChild parentAndChild) (fun _ _ _ => true) sleepThenExit
        (beforeFork 0)).get (by decide)) := reach_follow (fun _ _ _ _ => trivial) _
  have hdel := hall _ hreach (parentCall 0) ⟨none, 3⟩ [] (by decide) rfl rfl rfl
  exact absurd hdel.2 (by decide)

end Os161
