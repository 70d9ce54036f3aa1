/-
# `kern/dev/lamebus/emu.c`: lifetimes of emufs vnodes

The emulator file system keeps a table of vnodes, each with a handle that is open at the hardware
level.  `emufs_reclaim` closes the handle and removes the vnode; `emufs_loadvnode` finds the vnode
of a handle in the table, or makes one.

As in SFS, `vnode_decref` leaves a count of 1 alone and calls `emufs_reclaim` after it has released
the count lock.  If the vnode has been picked up again in the meantime, `emufs_reclaim` backs off
with `EBUSY`; but unlike `sfs_reclaim` it does NOT consume the reference that it was handed.  From
then on the count is too high, and the vnode is never reclaimed again.  `revived_vnode_stays` is the
run.  The other way to lose a reference is a close that fails for good.

`emufs_lifetime` says that there is no third: in every run in which each reclaim finds the count at
1 and closes its handle, the counts are exact, and when every holder is gone and nothing is pending
the table is empty and every handle has been closed, once for each vnode.
-/
import Os161.Lib.Holdings
import Os161.Lib.Run
import Os161.Vnode

namespace Os161

open Function List

/-! ## 1. The hardware -/

/-- The result codes of `REG_RESULT`; `other` are the codes `emu.c` does not know. -/
inductive EmuRes
  | success | badhandle | badop | badpath | badsize | exists | isdir | media | nohandles | nospace
  | notdir | unknown | unsupp | other
  deriving DecidableEq, Repr

/-- `translate_err`. -/
def translateErr {σ : Type} : EmuRes → Prog Errno σ Unit
  | .success => pure ()
  | .badhandle | .badop | .badsize => halt
  | .badpath => fail .enoent
  | .exists => fail .eexist
  | .isdir => fail .eisdir
  | .media => fail .eio
  | .nohandles => fail .enfile
  | .nospace => fail .enospc
  | .notdir => fail .enotdir
  | .unknown => fail .eio
  | .unsupp => fail .eunimp
  | .other => fail .eagain

/-- `struct emu_softc`: the results of the operations still to be started, and the handles closed so
far, latest first. -/
structure EmuSoftc where
  results : Nat → EmuRes
  closed : List Nat

/-- One `EMU_OP_CLOSE`, up to the end of `emu_waitdone`. -/
def emuOpClose (handle : Nat) : Prog Errno EmuSoftc Unit := do
  let sc ← get
  modify fun sc => { sc with results := fun n => sc.results (n + 1) }
  if sc.results 0 = .success then
    modify fun sc => { sc with closed := handle :: sc.closed }
  translateErr (sc.results 0)

/-- The loop of `emu_close`, with `retries` attempts left after this one. -/
def emuCloseLoop (handle : Nat) : Nat → Prog Errno EmuSoftc Unit
  | 0 => emuOpClose handle
  | retries + 1 => do
    match ← attempt (emuOpClose handle) with
    | .error .eio => emuCloseLoop handle retries
    | result => ofResult result

/-- `emu_close`: retry the operation up to 10 times. -/
def emuClose (handle : Nat) : Prog Errno EmuSoftc Unit := emuCloseLoop handle 10

/-- A result that makes `emu_close` try again. -/
def EmuRes.Again (r : EmuRes) : Prop := r = .media ∨ r = .unknown

/-- The hardware will close a handle within the attempts that `emu_close` makes. -/
def EmuSoftc.Closes (sc : EmuSoftc) : Prop :=
  ∃ k ≤ 10, sc.results k = .success ∧ ∀ j < k, (sc.results j).Again

/-! ## 2. The file system -/

/-- `struct emufs_vnode`; `isdir` stands for the table of operations the vnode was given. -/
structure EmufsVnode where
  evV : Vnode
  evHandle : Nat
  isdir : Bool

/-- `struct emufs_fs`, and the machine around it. -/
structure EmufsFs where
  efEmu : EmuSoftc
  efVnodes : List Nat
  /-- The memory of the vnodes, by address. -/
  heap : Nat → EmufsVnode
  /-- The address `kmalloc` hands out next; addresses are not used again. -/
  nextVnode : Nat
  /-- Whether the allocations still to come succeed. -/
  kmallocOk : Nat → Bool

open EmufsFs

/-- A program over the file system. -/
abbrev Emufs (α : Type) := Prog Errno EmufsFs α

namespace EmufsFs

/-- The file system with the counters of the vnode at `v` replaced. -/
def setCount (ef : EmufsFs) (v : Nat) (vn : Vnode) : EmufsFs :=
  { ef with heap := update ef.heap v { ef.heap v with evV := vn } }

/-- The file system with a new vnode in the table. -/
def insertVnode (ef : EmufsFs) (ev : EmufsVnode) : EmufsFs :=
  { ef with
    efVnodes := ef.efVnodes ++ [ef.nextVnode]
    heap := update ef.heap ef.nextVnode ev
    nextVnode := ef.nextVnode + 1 }

end EmufsFs

/-- Run a program of the hardware. -/
def onEmu {α : Type} (m : Prog Errno EmuSoftc α) : Emufs α :=
  zoom EmufsFs.efEmu (fun ef sc => { ef with efEmu := sc }) m

/-- Run a program on the counters of the vnode at `v`. -/
def onEmuVnode {α : Type} (v : Nat) (m : Prog Errno Vnode α) : Emufs α :=
  zoom (fun ef => (ef.heap v).evV) (fun ef vn => ef.setCount v vn) m

/-- Whether the next allocation of memory succeeds. -/
def emuKmalloc : Emufs Bool := do
  let ef ← get
  modify fun ef => { ef with kmallocOk := fun n => ef.kmallocOk (n + 1) }
  pure (ef.kmallocOk 0)

/-- `emufs_reclaim`, under the big lock and the lock of the device. -/
def emufsReclaim (v : Nat) : Emufs Unit := do
  let ef ← get
  if (ef.heap v).evV.vnRefcount ≠ 1 then fail .ebusy
  else do
    onEmu (emuClose (ef.heap v).evHandle)
    assert (v ∈ ef.efVnodes)
    modify fun ef => { ef with efVnodes := ef.efVnodes.erase v }
    onEmuVnode v vnodeCleanup

/-- The second half of `emufs_loadvnode`: there is no vnode for the handle. -/
def emufsLoadvnodeMiss (handle : Nat) (isdir : Bool) : Emufs Nat := do
  let mem ← emuKmalloc
  if mem = false then fail .enomem
  else do
    -- the lock of `VOP_INIT`, and `vnodearray_add`
    let init ← emuKmalloc
    if init = false then fail .enomem
    else do
      let add ← emuKmalloc
      if add = false then fail .enomem
      else do
        let ef ← get
        modify fun ef => ef.insertVnode ⟨vnodeInit, handle, isdir⟩
        pure ef.nextVnode

/-- `emufs_loadvnode`, under the big lock and the lock of the device. -/
def emufsLoadvnode (handle : Nat) (isdir : Bool) : Emufs Nat := do
  let ef ← get
  match ef.efVnodes.find? fun v => (ef.heap v).evHandle = handle with
  | some v => do
    onEmuVnode v (modify vnodeIncref)
    pure v
  | none => emufsLoadvnodeMiss handle isdir

/-! ## 3. The steps of the threads -/

/-- The file system, who holds references to its vnodes, and the vnodes destroyed so far, latest
first. -/
structure EmufsState where
  ef : EmufsFs
  held : Holdings Nat Nat
  destroyed : List Nat

/-- The steps of thread `t`. -/
inductive EmufsOp
  | incref (t v : Nat)
  | decref (t v : Nat)
  | reclaim (t v : Nat)
  | loadvnode (t handle : Nat) (isdir : Bool)

/-- Run a program of the file system. -/
def onEmufs {α : Type} (m : Emufs α) : Prog Errno EmufsState α :=
  zoom EmufsState.ef (fun s ef => { s with ef := ef }) m

/-- Record what a step has done to the references. -/
def recordEmufs (f : Holdings Nat Nat → Holdings Nat Nat) : Prog Errno EmufsState Unit :=
  modify fun s => { s with held := f s.held }

/-- A step.  `decref` is the locked half of `vnode_decref`. -/
def EmufsOp.call : EmufsOp → Prog Errno EmufsState Unit
  | .incref t v => do
    onEmufs (onEmuVnode v (modify vnodeIncref))
    recordEmufs fun h => h.take t v
  | .decref t v => do
    let doIt ← onEmufs (onEmuVnode v vnodeDecref)
    recordEmufs fun h => if doIt then h.handOver t v else h.drop t v
  | .reclaim t v => do
    let result ← attempt (onEmufs (emufsReclaim v))
    recordEmufs fun h => h.settle t v
    ofResult result
    modify fun s => { s with destroyed := v :: s.destroyed }
  | .loadvnode t handle isdir => do
    let v ← onEmufs (emufsLoadvnode handle isdir)
    recordEmufs fun h => h.take t v

/-- When a thread may take a step. -/
def EmufsOp.Legal : EmufsOp → EmufsState → Prop
  | .incref t v, s => (t, v) ∈ s.held.refs
  | .decref t v, s => (t, v) ∈ s.held.refs
  | .reclaim t v, s => (t, v) ∈ s.held.pending
  | .loadvnode _ _ _, _ => True

/-- A reclaim that finds the vnode as its decref left it, with a device that closes the handle. -/
def EmufsOp.Safe : EmufsOp → EmufsState → Prop
  | .reclaim _ v, s => (s.ef.heap v).evV.vnRefcount = 1 ∧ s.ef.efEmu.Closes
  | _, _ => True

/-! ## 4. Every step keeps the counts -/

section Steps

variable {ef ef' : EmufsFs} {held : Holdings Nat Nat} {destroyed : List Nat} {n₀ v : Nat}

/-- **`emu_close` on a device that closes in time.**  By induction on the attempts that are left. -/
theorem emuCloseLoop_spec (handle : Nat) : ∀ (n : Nat) (sc : EmuSoftc),
    (∃ k ≤ n, sc.results k = .success ∧ ∀ j < k, (sc.results j).Again) →
    Wp False (emuCloseLoop handle n) (fun _ sc' => sc'.closed = handle :: sc.closed)
      (fun _ _ => False) sc
  | 0, sc, hk => by
    obtain ⟨k, hk, hok, -⟩ := hk
    obtain rfl : k = 0 := Nat.le_zero.mp hk
    simp [emuCloseLoop, emuOpClose, hok, translateErr]
  | n + 1, sc, hk => by
    obtain ⟨k, hk, hok, hagain⟩ := hk
    simp only [emuCloseLoop, emuOpClose, wp_bind, wp_attempt, wp_get, wp_modify]
    cases k with
    | zero => simp [hok, translateErr]
    | succ k =>
      have ih := emuCloseLoop_spec handle n { sc with results := fun n => sc.results (n + 1) }
        ⟨k, Nat.le_of_succ_le_succ hk, hok, fun j hj => hagain (j + 1) (Nat.succ_lt_succ hj)⟩
      rcases hagain 0 (Nat.succ_pos k) with h0 | h0
      · simpa [h0, translateErr] using ih
      · simpa [h0, translateErr] using ih

/-- The count of a vnode. -/
abbrev EmufsFs.rc (ef : EmufsFs) (v : Nat) : Nat := (ef.heap v).evV.vnRefcount

/-- The state between steps.  `n₀` is the first address used for a vnode. -/
structure EmufsInv (n₀ : Nat) (s : EmufsState) : Prop where
  nodup : s.ef.efVnodes.Nodup
  fresh : ∀ v ∈ s.ef.efVnodes, v < s.ef.nextVnode
  pos : ∀ v ∈ s.ef.efVnodes, 0 < s.ef.rc v
  notOpen : ∀ v ∈ s.ef.efVnodes, (s.ef.heap v).evV.vnOpencount = 0
  counted : Counted True (· ∈ s.ef.efVnodes) s.ef.rc s.held
  made : ∀ v, n₀ ≤ v → v < s.ef.nextVnode → v ∈ s.ef.efVnodes ∨ v ∈ s.destroyed
  gone : ∀ v ∈ s.destroyed, v < s.ef.nextVnode
  log : s.ef.efEmu.closed = s.destroyed.map fun v => (s.ef.heap v).evHandle

theorem EmufsFs.heap_setCount (vn : Vnode) (w : Nat) :
    (ef.setCount v vn).heap w = if w = v then { ef.heap v with evV := vn } else ef.heap w :=
  update_apply _ _ _ _

theorem EmufsFs.evHandle_setCount (vn : Vnode) (w : Nat) :
    ((ef.setCount v vn).heap w).evHandle = (ef.heap w).evHandle := by
  rw [heap_setCount]
  split
  · next h => rw [h]
  · rfl

theorem EmufsFs.rc_setCount (vn : Vnode) (w : Nat) :
    (ef.setCount v vn).rc w = if w = v then vn.vnRefcount else ef.rc w := by
  unfold rc
  rw [heap_setCount]
  split <;> rfl

variable {vn : Vnode}

section

variable (h : EmufsInv n₀ ⟨ef, held, destroyed⟩)

include h

theorem EmufsInv.setCount {held' : Holdings Nat Nat}
    (hpos : 0 < vn.vnRefcount) (hopen : vn.vnOpencount = 0)
    (hc : Counted True (· ∈ ef.efVnodes) (ef.setCount v vn).rc held') :
    EmufsInv n₀ ⟨ef.setCount v vn, held', destroyed⟩ where
  __ := h
  pos := fun w hw => by
    rw [rc_setCount]
    split
    · exact hpos
    · exact h.pos w hw
  notOpen := fun w hw => by
    rw [heap_setCount]
    split
    · exact hopen
    · exact h.notOpen w hw
  counted := hc
  log := h.log.trans (map_congr_left fun w _ => (evHandle_setCount vn w).symm)

theorem EmufsInv.incref (hv : v ∈ ef.efVnodes) (t : Nat) :
    EmufsInv n₀ ⟨ef.setCount v (vnodeIncref (ef.heap v).evV), held.take t v, destroyed⟩ := by
  exact h.setCount (Nat.succ_pos _) (h.notOpen v hv) (h.counted.take hv (rc_setCount _))

theorem EmufsInv.insertVnode {ev : EmufsVnode} (hev : ev.evV = vnodeInit) (t : Nat) :
    EmufsInv n₀ ⟨ef.insertVnode ev, held.take t ef.nextVnode, destroyed⟩ := by
  have hnew : (ef.insertVnode ev).heap ef.nextVnode = ev := update_self _ _ _
  have hold : ∀ w, w < ef.nextVnode → (ef.insertVnode ev).heap w = ef.heap w := fun w hw =>
    update_of_ne (Nat.ne_of_lt hw) _ _
  have hmem : ∀ w, w ∈ (ef.insertVnode ev).efVnodes ↔ w ∈ ef.efVnodes ∨ w = ef.nextVnode := by
    simp [EmufsFs.insertVnode]
  have hfresh : ef.nextVnode ∉ ef.efVnodes := fun hin => Nat.lt_irrefl _ (h.fresh _ hin)
  refine ⟨?_, ?_, ?_, ?_, ?_, ?_, ?_, ?_⟩
  · exact h.nodup.append (nodup_singleton _) (by simpa using hfresh)
  · intro w hw
    rcases (hmem w).mp hw with hw | rfl
    · exact Nat.lt_succ_of_lt (h.fresh w hw)
    · exact Nat.lt_succ_self _
  · intro w hw
    show 0 < ((ef.insertVnode ev).heap w).evV.vnRefcount
    rcases (hmem w).mp hw with hw | rfl
    · rw [hold w (h.fresh w hw)]
      exact h.pos w hw
    · rw [hnew, hev]
      exact Nat.one_pos
  · intro w hw
    rcases (hmem w).mp hw with hw | rfl
    · rw [hold w (h.fresh w hw)]
      exact h.notOpen w hw
    · rw [hnew, hev]
      rfl
  · refine (h.counted.create hfresh ?_ fun w hin => ?_).congr hmem fun _ _ => rfl
    · show ((ef.insertVnode ev).heap ef.nextVnode).evV.vnRefcount = 1
      rw [hnew, hev]
      rfl
    · show ((ef.insertVnode ev).heap w).evV.vnRefcount = _
      rw [hold w (h.fresh w hin)]
  · intro w hlo hhi
    rcases Nat.lt_succ_iff_lt_or_eq.mp hhi with hlt | rfl
    · exact (h.made w hlo hlt).imp (fun hin => (hmem w).mpr (.inl hin)) id
    · exact .inl ((hmem _).mpr (.inr rfl))
  · exact fun w hw => Nat.lt_succ_of_lt (h.gone w hw)
  · exact h.log.trans (map_congr_left fun w hw => by rw [hold w (h.gone w hw)])

theorem EmufsInv.evict {t : Nat} {sc : EmuSoftc} (hp : (t, v) ∈ held.pending) (hone : ef.rc v = 1)
    (hsc : sc.closed = (ef.heap v).evHandle :: ef.efEmu.closed) :
    EmufsInv n₀ ⟨{ ef with efEmu := sc, efVnodes := ef.efVnodes.erase v }.setCount v ⟨0, 0⟩,
      held.settle t v, v :: destroyed⟩ := by
  have hv : v ∈ ef.efVnodes := h.counted.known _ (.inr hp)
  have hmem : ∀ w, w ∈ ef.efVnodes.erase v ↔ w ≠ v ∧ w ∈ ef.efVnodes := fun w =>
    h.nodup.mem_erase_iff
  set ef₁ : EmufsFs := { ef with efEmu := sc, efVnodes := ef.efVnodes.erase v } with hef1
  have hheap : ∀ w, w ≠ v → (ef₁.setCount v ⟨0, 0⟩).heap w = ef.heap w := by
    intro w hwv
    rw [heap_setCount, if_neg hwv]
  refine ⟨h.nodup.erase v, ?_, ?_, ?_, ?_, ?_, ?_, ?_⟩
  · exact fun w hw => h.fresh w ((hmem w).mp hw).2
  · intro w hw
    obtain ⟨hwv, hin⟩ := (hmem w).mp hw
    show 0 < ((ef₁.setCount v ⟨0, 0⟩).heap w).evV.vnRefcount
    rw [hheap w hwv]
    exact h.pos w hin
  · intro w hw
    obtain ⟨hwv, hin⟩ := (hmem w).mp hw
    rw [hheap w hwv]
    exact h.notOpen w hin
  · refine (h.counted.destroy hp hv hone fun w hwv _ => ?_).congr hmem fun _ _ => rfl
    show ((ef₁.setCount v ⟨0, 0⟩).heap w).evV.vnRefcount = _
    rw [hheap w hwv]
  · intro w hlo hhi
    by_cases hwv : w = v
    · exact .inr (hwv ▸ mem_cons_self)
    · exact (h.made w hlo hhi).imp (fun hin => (hmem w).mpr ⟨hwv, hin⟩) (mem_cons_of_mem _)
  · intro w hw
    rcases mem_cons.mp hw with rfl | hw
    · exact h.fresh w hv
    · exact h.gone w hw
  · show sc.closed = _
    simp only [hsc, map_cons, evHandle_setCount]
    exact congrArg _ h.log

end

theorem EmufsInv.burn (h : EmufsInv n₀ ⟨ef, held, destroyed⟩) (ok : Nat → Bool) :
    EmufsInv n₀ ⟨{ ef with kmallocOk := ok }, held, destroyed⟩ :=
  { h with }

/-- **Every safe step keeps the counts and the log**, and stops at no assertion. -/
theorem EmufsOp.call_spec {op : EmufsOp} {s : EmufsState} (hl : op.Legal s) (hsafe : op.Safe s)
    (h : EmufsInv n₀ s) :
    Wp False op.call (fun _ => EmufsInv n₀) (fun _ => EmufsInv n₀) s := by
  obtain ⟨ef, held, destroyed⟩ := s
  cases op with
  | incref t v =>
    have hv : v ∈ ef.efVnodes := h.counted.known _ (.inl hl)
    simp only [EmufsOp.call, onEmufs, onEmuVnode, recordEmufs, wp_bind, wp_zoom, wp_modify]
    exact h.incref hv t
  | decref t v =>
    have hv : v ∈ ef.efVnodes := h.counted.known _ (.inl hl)
    simp only [EmufsOp.call, onEmufs, onEmuVnode, recordEmufs, wp_bind, wp_zoom, wp_modify]
    refine (vnodeDecref_spec (h.pos v hv)).post_ok ?_
    rintro _ vn ⟨hopen, ⟨rfl, -, rfl⟩ | ⟨rfl, hgt, hone⟩⟩
    · exact h.setCount (h.pos v hv) (h.notOpen v hv) (h.counted.handOver hl (rc_setCount _))
    · exact h.setCount (by omega) (hopen.trans (h.notOpen v hv))
        (h.counted.drop hl hone (rc_setCount _))
  | reclaim t v =>
    obtain ⟨hone, hcloses⟩ := hsafe
    have hv : v ∈ ef.efVnodes := h.counted.known _ (.inr hl)
    simp only [EmufsOp.call, onEmufs, recordEmufs, wp_bind, wp_attempt, wp_zoom,
      wp_modify, emufsReclaim, wp_get]
    rw [if_neg (not_not.mpr hone)]
    simp only [onEmu, onEmuVnode, vnodeCleanup, wp_bind, wp_zoom, wp_assert,
      wp_modify, wp_get, wp_ofResult_ok]
    refine (emuCloseLoop_spec _ 10 _ hcloses).post_ok ?_
    intro _ sc hsc
    refine ⟨fun _ => ⟨fun _ => ⟨fun _ => h.evict hl hone hsc, fun ho => absurd (h.notOpen v hv) ho⟩,
      fun hne => absurd hone hne⟩, fun hn => absurd hv hn⟩
  | loadvnode t handle isdir =>
    simp only [EmufsOp.call, onEmufs, recordEmufs, wp_bind, wp_zoom, wp_modify,
      emufsLoadvnode, wp_get]
    cases hf : ef.efVnodes.find? fun v => (ef.heap v).evHandle = handle with
    | some v =>
      simp only [onEmuVnode, wp_bind, wp_zoom, wp_modify, wp_pure]
      exact h.incref (mem_of_find?_eq_some hf) t
    | none =>
      simp only [emufsLoadvnodeMiss, emuKmalloc, wp_bind, wp_get, wp_modify, wp_pure]
      by_cases h0 : ef.kmallocOk 0 = false
      · rw [if_pos h0, wp_fail]
        exact h.burn _
      rw [if_neg h0]
      simp only [wp_bind, wp_get, wp_modify, wp_pure]
      by_cases h1 : ef.kmallocOk 1 = false
      · rw [if_pos h1, wp_fail]
        exact h.burn _
      rw [if_neg h1]
      simp only [wp_bind, wp_get, wp_modify, wp_pure]
      by_cases h2 : ef.kmallocOk 2 = false
      · rw [if_pos h2, wp_fail]
        exact h.burn _
      rw [if_neg h2]
      simp only [wp_bind, wp_get, wp_modify, wp_pure]
      exact (h.burn _).insertVnode rfl t

end Steps

/-! ## 5. Every run -/

/-- **Lifetimes under races.**  In every run in which each reclaim finds the count at 1 and the
device closes the handle, the count of every vnode is the number of references held plus the number
of reclaims still to come; and a vnode to which nobody holds a reference and for which no reclaim is
pending is gone, with its handle closed.  Handles are closed for destroyed vnodes only, one close
each. -/
theorem emufs_lifetime {ef : EmufsFs} (hempty : ef.efVnodes = []) (hclosed : ef.efEmu.closed = [])
    {s : EmufsState} (hrun : Run EmufsOp.call (fun op s => op.Legal s ∧ op.Safe s)
      ⟨ef, .none, []⟩ s) :
    (∀ v ∈ s.ef.efVnodes, (s.ef.heap v).evV.vnRefcount =
      Holdings.tally s.held.refs v + Holdings.tally s.held.pending v) ∧
    (∀ v, ef.nextVnode ≤ v → v < s.ef.nextVnode → Holdings.tally s.held.refs v = 0 →
      Holdings.tally s.held.pending v = 0 →
      v ∉ s.ef.efVnodes ∧ v ∈ s.destroyed ∧ (s.ef.heap v).evHandle ∈ s.ef.efEmu.closed) ∧
    s.ef.efEmu.closed = s.destroyed.map fun v => (s.ef.heap v).evHandle := by
  have hnone : ∀ v, v ∈ ef.efVnodes ↔ False := fun v => by simp [hempty]
  have hinit : EmufsInv ef.nextVnode ⟨ef, .none, []⟩ :=
    ⟨hempty ▸ nodup_nil, fun v hv => ((hnone v).mp hv).elim, fun v hv =>
      ((hnone v).mp hv).elim,
      fun v hv => ((hnone v).mp hv).elim, Counted.none.congr hnone fun _ _ => rfl,
      fun v hlo hhi => absurd hhi (Nat.not_lt_of_le hlo), fun v hv => absurd hv not_mem_nil,
      hclosed⟩
  have h : EmufsInv ef.nextVnode s := hrun.invariant
    (fun _ _ hl hi => EmufsOp.call_spec hl.1 hl.2 hi) hinit
  refine ⟨h.counted.exact trivial, fun v hlo hhi hr hp => ?_, h.log⟩
  have hout : v ∉ s.ef.efVnodes := by
    intro hin
    have hpos := h.pos v hin
    rw [h.counted.exact trivial v hin, Holdings.owed, hr, hp] at hpos
    exact Nat.lt_irrefl _ hpos
  have hd : v ∈ s.destroyed := (h.made v hlo hhi).resolve_left hout
  exact ⟨hout, hd, h.log ▸ mem_map_of_mem hd⟩

/-- An emufs with nothing loaded, on a device that never fails. -/
def blankEmufs : EmufsFs where
  efEmu := ⟨fun _ => .success, []⟩
  efVnodes := []
  heap := fun _ => ⟨⟨0, 0⟩, 0, false⟩
  nextVnode := 0
  kmallocOk := fun _ => true

/-- One thread loads handle 5 and drops it: the vnode is gone and the handle closed. -/
theorem dropped_vnode_gone : ∃ s, Run EmufsOp.call (fun op s => op.Legal s ∧ op.Safe s)
    ⟨blankEmufs, .none, []⟩ s ∧ s.ef.nextVnode = 1 ∧ 0 ∉ s.ef.efVnodes ∧
    5 ∈ s.ef.efEmu.closed := by
  have hload : Run EmufsOp.call (fun op s => op.Legal s ∧ op.Safe s) ⟨blankEmufs, .none, []⟩ _ :=
    Run.refl.step (show (EmufsOp.loadvnode 0 5 false).Legal _ ∧ EmufsOp.Safe _ _ from
      ⟨trivial, trivial⟩) rfl
  have hdecref := hload.step (show (EmufsOp.decref 0 0).Legal _ ∧ EmufsOp.Safe _ _ from
    ⟨mem_cons_self, trivial⟩) rfl
  have hrun := hdecref.step (show (EmufsOp.reclaim 0 0).Legal _ ∧ EmufsOp.Safe _ _ from
    ⟨mem_cons_self, rfl, 0, by decide, rfl, fun j hj => absurd hj (by omega)⟩) rfl
  have h := (emufs_lifetime rfl rfl hrun).2.1 0 le_rfl Nat.one_pos rfl rfl
  exact ⟨_, hrun, rfl, h.1, h.2.2⟩

/-- **A revived vnode stays.**  Thread 0 drops the last reference; before its reclaim runs, thread 1
loads the vnode again; the reclaim backs off, and thread 1 drops its reference.  Nobody holds the
vnode and nothing is pending, but its count is 1 and its handle is open, for good. -/
theorem revived_vnode_stays : ∃ s, Run EmufsOp.call EmufsOp.Legal ⟨blankEmufs, .none, []⟩ s ∧
    0 ∈ s.ef.efVnodes ∧ (s.ef.heap 0).evV.vnRefcount = 1 ∧ s.held = .none ∧
    s.ef.efEmu.closed = [] := by
  have hload : Run EmufsOp.call EmufsOp.Legal ⟨blankEmufs, .none, []⟩ _ :=
    Run.refl.step (show (EmufsOp.loadvnode 0 5 false).Legal _ from trivial) rfl
  have hdecref := hload.step (show (EmufsOp.decref 0 0).Legal _ from mem_cons_self) rfl
  have hagain := hdecref.step (show (EmufsOp.loadvnode 1 5 false).Legal _ from trivial) rfl
  have hbusy := hagain.step (show (EmufsOp.reclaim 0 0).Legal _ from mem_cons_self) rfl
  have hrun := hbusy.step (show (EmufsOp.decref 1 0).Legal _ from mem_cons_self) rfl
  exact ⟨_, hrun, mem_cons_self, rfl, rfl, rfl⟩

end Os161
