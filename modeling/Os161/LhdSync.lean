/-
# `lhd_io` and `lhd_irq`: many threads on one disk

`Lhd` takes the driver as one thread sees it.  Here are all of them: any number of threads in
`lhd_io`, the interrupt handler, and the device, which take turns in any order.  The device has one
status register, one sector register and one on-card buffer, and the driver one variable for the
result of an operation (`lh_result`); two semaphores keep the requests apart.  `lh_clear` is held
from before the transfer into the buffer until after the result has been collected, and `lh_done`
tells the thread that waits from the interrupt handler that its result is there.

An operation passes through five states, and at any time at most one is on its way: it is WORKING,
it is FINAL in the status register, the handler has CLEARED the register, it has RECORDED the
result, and it has said so (`InFlight`).  What the requests keep of each other is read off that
(`requests_do_not_cross`).

`P` and `V` are single steps here: of all steps that they make in `Semaphore`, exactly one touches
the count (`semNext_count`).  All interrupts go to the first processor, so the handler does not run
twice at a time.
-/
import Os161.Lhd
import Os161.Semaphore

namespace Os161

open Function List

open Procs

/-! ## 1. The system -/

/-- A call of `lhd_io`, with what its `uiomove`s do: the data of each sector, whether the transfer
fails, and what is in the buffer after a transfer into it that failed. -/
structure IoCall (β : Type) where
  offset : Nat
  resid : Nat
  rw : UioRw
  data : Nat → β
  fault : Nat → Bool
  torn : Nat → β

namespace IoCall

variable {β : Type} (call : IoCall β)

/-- `sector` of `lhd_io`. -/
def sector : Nat := u32 (call.offset / sectSize)

/-- `len` of `lhd_io`. -/
def len : Nat := u32 (call.resid / sectSize)

/-- The two checks at the start of `lhd_io`, for a disk of so many sectors. -/
def Refused (dBlocks : Nat) : Prop :=
  call.offset % sectSize ≠ 0 ∨ call.resid % sectSize ≠ 0 ∨ dBlocks < u32 (call.sector + call.len)

instance (dBlocks : Nat) : Decidable (call.Refused dBlocks) := inferInstanceAs (Decidable (_ ∨ _))

end IoCall

/-- A thread in the loop of `lhd_io`: the call, the round, the calls it has still to make, and what
its calls have returned. -/
structure IoJob (β : Type) where
  call : IoCall β
  i : Nat
  todo : List (IoCall β)
  returned : List (Except Errno Unit)

/-- Where a thread is. -/
inductive LhdPc (β : Type)
  | outside (todo : List (IoCall β)) (returned : List (Except Errno Unit))
  /-- At `P(lh_clear)`. -/
  | clear (j : IoJob β)
  /-- At the `uiomove` into the on-card buffer. -/
  | move (j : IoJob β)
  /-- At the write to the sector register. -/
  | sect (j : IoJob β)
  /-- At the write to the status register, which starts the operation. -/
  | stat (j : IoJob β)
  /-- At `P(lh_done)`, for operation `k`. -/
  | wait (j : IoJob β) (k : Nat)
  /-- At `result = lh->lh_result`. -/
  | take (j : IoJob β) (k : Nat)
  /-- At the test whether there is data to transfer out of the buffer. -/
  | out (j : IoJob β) (result : Except Errno Unit)
  /-- At `V(lh_clear)`. -/
  | done (j : IoJob β) (result : Except Errno Unit)

/-- The status register.  Operations are numbered in the order in which they were started; the
device does not know the number. -/
inductive LhdStat
  | idle
  | working (k : Nat) (iswrite : Bool)
  | final (k : Nat) (st : LhdStatus)
  deriving DecidableEq

/-- Where the interrupt handler is. -/
inductive IrqPc
  | outside
  /-- It has read a final state, and is at the write to the status register. -/
  | clear (k : Nat) (st : LhdStatus)
  /-- In `lhd_iodone`, at the assignment. -/
  | result (k : Nat) (st : LhdStatus)
  /-- In `lhd_iodone`, at `V(lh_done)`. -/
  | done
  deriving DecidableEq

/-- The driver's variables, the device, and the handler.  The last six fields record what
happened. -/
structure LhdSoftc (τ β : Type) where
  lhClear : Nat
  lhDone : Nat
  lhResult : Except Errno Unit
  regStat : LhdStat
  regSect : Nat
  lhBuf : β
  platter : Nat → β
  irq : IrqPc
  /-- Who is between `P(lh_clear)` and `V(lh_clear)`. -/
  holder : Option (Option τ)
  /-- The thread that wrote to the buffer last, unless it was the device. -/
  bufBy : Option τ
  /-- How many operations have been started, and how many collected. -/
  ops : Nat
  collected : Nat
  /-- Who started the operations, and how they ended. -/
  starter : Nat → Option τ
  outcome : Nat → Option LhdStatus

variable {τ β : Type}

/-- Where a thread goes after a round of the loop. -/
def IoJob.after (j : IoJob β) : Except Errno Unit → LhdPc β
  | .error e => .outside j.todo (j.returned ++ [.error e])
  | .ok _ =>
    if j.i + 1 < j.call.len then .clear { j with i := j.i + 1 }
    else .outside j.todo (j.returned ++ [.ok ()])

/-- What a thread in `lhd_io` can do next. -/
def lhdIoNext (dBlocks : Nat) (t : τ) : LhdPc β → LhdSoftc τ β → List (LhdPc β × LhdSoftc τ β)
  | .outside [] _, _ => []
  | .outside (call :: todo) returned, s =>
    if call.Refused dBlocks then [(.outside todo (returned ++ [.error .einval]), s)]
    else if call.len = 0 then [(.outside todo (returned ++ [.ok ()]), s)]
    else [(.clear ⟨call, 0, todo, returned⟩, s)]
  | .clear j, s =>
    stepP s.lhClear fun count =>
      (if j.call.rw = .write then .move j else .sect j,
        { s with lhClear := count, holder := some (some t) })
  | .move j, s =>
    if j.call.fault j.i then
      [(.done j (.error .efault), { s with lhBuf := j.call.torn j.i, bufBy := some t })]
    else [(.sect j, { s with lhBuf := j.call.data j.i, bufBy := some t })]
  | .sect j, s => [(.stat j, { s with regSect := u32 (j.call.sector + j.i) })]
  | .stat j, s =>
    [(.wait j s.ops, { s with
      regStat := .working s.ops (j.call.rw = .write), ops := s.ops + 1
      starter := update s.starter s.ops (some t) })]
  | .wait j k, s => stepP s.lhDone fun count => (.take j k, { s with lhDone := count })
  | .take j _, s => [(.out j s.lhResult, { s with collected := s.collected + 1 })]
  | .out j result, s =>
    match result with
    | .ok _ =>
      if j.call.rw = .read ∧ j.call.fault j.i then [(.done j (.error .efault), s)]
      else [(.done j (.ok ()), s)]
    | .error e => [(.done j (.error e), s)]
  | .done j result, s => [(j.after result, { s with lhClear := stepV s.lhClear, holder := none })]

/-- What the interrupt handler can do next.  It may be called when there is nothing to do. -/
def lhdIrqNext (s : LhdSoftc τ β) : List (LhdSoftc τ β) :=
  match s.irq with
  | .outside =>
    match s.regStat with
    | .final k st => [{ s with irq := .clear k st }]
    | _ => [s]
  | .clear k st => [{ s with regStat := .idle, irq := .result k st }]
  | .result _ st => [{ s with lhResult := lhdCodeToErrno st, irq := .done }]
  | .done => [{ s with lhDone := stepV s.lhDone, irq := .outside }]

/-- Operation `k` ends. -/
def LhdSoftc.finish (s : LhdSoftc τ β) (k : Nat) (st : LhdStatus) : LhdSoftc τ β :=
  { s with regStat := .final k st, outcome := update s.outcome k (some st) }

/-- What the device can do next: end the operation that it works on, ONCE, well or badly. -/
def lhdDeviceNext (dBlocks : Nat) (s : LhdSoftc τ β) : List (LhdSoftc τ β) :=
  match s.regStat with
  | .working k iswrite =>
    if dBlocks ≤ s.regSect then [s.finish k .invsect]
    else if iswrite then
      [{ s.finish k .ok with platter := update s.platter s.regSect s.lhBuf }, s.finish k .media]
    else [{ s.finish k .ok with lhBuf := s.platter s.regSect, bufBy := none }, s.finish k .media]
  | _ => []

/-- What can happen next: a thread makes a step (`some t`), or the hardware does (`none`). -/
def lhdNext (dBlocks : Nat) : Next (Option τ) (LhdPc β) (LhdSoftc τ β)
  | some t, k, s => lhdIoNext dBlocks t k s
  | none, k, s => (lhdIrqNext s ++ lhdDeviceNext dBlocks s).map fun s' => (k, s')

/-- The disk as `config_lhd` sets it up, and the calls that each thread is going to make. -/
def configLhd (todo : τ → List (IoCall β)) (buf : β) (platter : Nat → β) :
    Procs (Option τ) (LhdPc β) (LhdSoftc τ β) where
  pc := fun
    | some t => .outside (todo t) []
    | none => .outside [] []
  shared :=
    { lhClear := 1, lhDone := 0, lhResult := .ok (), regStat := .idle, regSect := 0, lhBuf := buf,
      platter, irq := .outside, holder := none, bufBy := none, ops := 0, collected := 0,
      starter := fun _ => none, outcome := fun _ => none }

/-! ## 2. Control points -/

namespace LhdPc

/-- The thread is between `P(lh_clear)` and `V(lh_clear)`. -/
def hasClear : LhdPc β → Bool
  | outside _ _ | clear _ => false
  | _ => true

/-- The thread has started an operation and not yet collected its result. -/
def started : LhdPc β → Bool
  | wait _ _ | take _ _ => true
  | _ => false

end LhdPc

/-! ## 3. The life of an operation -/

/-- Nothing is on its way: the device is idle, and so is the handler. -/
structure Still (s : LhdSoftc τ β) : Prop where
  regStat : s.regStat = .idle
  lhDone : s.lhDone = 0
  irq : s.irq = .outside

/-- **Operation `k` is on its way.**  Until it is final the buffer is as `Mine` says. -/
inductive InFlight (Mine : LhdSoftc τ β → Prop) (k : Nat) (s : LhdSoftc τ β) : Prop
  | working (w : Bool) (hstat : s.regStat = .working k w) (hdone : s.lhDone = 0)
      (hirq : s.irq = .outside) (hout : s.outcome k = none) (hmine : Mine s)
  | final (st : LhdStatus) (hstat : s.regStat = .final k st) (hdone : s.lhDone = 0)
      (hirq : s.irq = .outside ∨ s.irq = .clear k st) (hout : s.outcome k = some st)
  | cleared (st : LhdStatus) (hstat : s.regStat = .idle) (hdone : s.lhDone = 0)
      (hirq : s.irq = .result k st) (hout : s.outcome k = some st)
  | recorded (st : LhdStatus) (hstat : s.regStat = .idle) (hdone : s.lhDone = 0)
      (hirq : s.irq = .done) (hout : s.outcome k = some st)
      (hres : s.lhResult = lhdCodeToErrno st)
  | done (st : LhdStatus) (hstat : s.regStat = .idle) (hdone : s.lhDone = 1)
      (hirq : s.irq = .outside) (hout : s.outcome k = some st)
      (hres : s.lhResult = lhdCodeToErrno st)

/-- The buffer has the data that thread `t` has to write in this round. -/
def Loaded (t : τ) (j : IoJob β) (s : LhdSoftc τ β) : Prop :=
  j.call.rw = .write → s.bufBy = some t ∧ s.lhBuf = j.call.data j.i

/-- The device has been told the sector of this round. -/
def Aimed (j : IoJob β) (s : LhdSoftc τ β) : Prop := s.regSect = u32 (j.call.sector + j.i)

variable {dBlocks k : Nat} {s s' : LhdSoftc τ β} {Mine : LhdSoftc τ β → Prop}

theorem Still.hardware (h : Still s) (hs' : s' ∈ lhdIrqNext s ++ lhdDeviceNext dBlocks s) :
    s' = s := by
  simpa [lhdIrqNext, lhdDeviceNext, h.regStat, h.irq] using hs'

/-- What the hardware leaves alone. -/
structure SameDriver (s s' : LhdSoftc τ β) : Prop where
  holder : s'.holder = s.holder
  lhClear : s'.lhClear = s.lhClear
  ops : s'.ops = s.ops
  collected : s'.collected = s.collected
  starter : s'.starter = s.starter

/-- The device has ended operation `k`. -/
structure EndsOp (k : Nat) (st : LhdStatus) (s s' : LhdSoftc τ β) : Prop where
  regStat : s'.regStat = .final k st
  lhDone : s'.lhDone = s.lhDone
  irq : s'.irq = s.irq
  outcome : s'.outcome = update s.outcome k (some st)
  same : SameDriver s s'

theorem lhdDeviceNext_ends (hs' : s' ∈ lhdDeviceNext dBlocks s) :
    ∃ k w st, s.regStat = .working k w ∧ EndsOp k st s s' := by
  unfold lhdDeviceNext at hs'
  split at hs'
  · next k w hstat =>
    split_ifs at hs'
    · rw [mem_singleton.mp hs']
      exact ⟨k, w, _, hstat, rfl, rfl, rfl, rfl, rfl, rfl, rfl, rfl, rfl⟩
    all_goals rcases mem_pair.mp hs' with hs' | hs' <;> rw [hs'] <;>
        exact ⟨k, w, _, hstat, rfl, rfl, rfl, rfl, rfl, rfl, rfl, rfl, rfl⟩
  · exact absurd hs' not_mem_nil

theorem lhdIrqNext_same (hs' : s' ∈ lhdIrqNext s) : SameDriver s s' ∧ s'.outcome = s.outcome := by
  unfold lhdIrqNext at hs'
  split at hs'
  · split at hs' <;> rw [mem_singleton.mp hs'] <;> exact ⟨⟨rfl, rfl, rfl, rfl, rfl⟩, rfl⟩
  all_goals rw [mem_singleton.mp hs']; exact ⟨⟨rfl, rfl, rfl, rfl, rfl⟩, rfl⟩

theorem InFlight.irq (h : InFlight Mine k s) (hs' : s' ∈ lhdIrqNext s) : InFlight Mine k s' := by
  unfold lhdIrqNext at hs'
  cases h with
  | working w hstat hdone hirq hout hmine =>
    simp only [hirq, hstat, mem_singleton] at hs'
    rw [hs']
    exact .working w hstat hdone hirq hout hmine
  | final st hstat hdone hirq hout =>
    rcases hirq with hirq | hirq
    · simp only [hirq, hstat, mem_singleton] at hs'
      rw [hs']
      exact .final st rfl hdone (.inr rfl) hout
    · simp only [hirq, mem_singleton] at hs'
      rw [hs']
      exact .cleared st rfl hdone rfl hout
  | cleared st hstat hdone hirq hout =>
    simp only [hirq, mem_singleton] at hs'
    rw [hs']
    exact .recorded st hstat hdone rfl hout rfl
  | recorded st hstat hdone hirq hout hres =>
    simp only [hirq, mem_singleton] at hs'
    rw [hs']
    exact .done st hstat (by rw [hdone]) rfl hout hres
  | done st hstat hdone hirq hout hres =>
    simp only [hirq, hstat, mem_singleton] at hs'
    rw [hs']
    exact .done st hstat hdone hirq hout hres

/-- The device makes an operation that it works on final, and touches no other. -/
theorem InFlight.device (h : InFlight Mine k s) (hs' : s' ∈ lhdDeviceNext dBlocks s) :
    InFlight Mine k s' := by
  obtain ⟨k', w', st, hw, he⟩ := lhdDeviceNext_ends hs'
  cases h with
  | working w hstat hdone hirq =>
    obtain ⟨rfl, -⟩ := LhdStat.working.inj (hw.symm.trans hstat)
    exact .final st he.regStat (he.lhDone.trans hdone) (.inl (he.irq.trans hirq))
      (by rw [he.outcome, update_self])
  | final _ hstat | cleared _ hstat | recorded _ hstat | done _ hstat =>
    rw [hstat] at hw
    cases hw

theorem hardware_sameDriver (hs' : s' ∈ lhdIrqNext s ++ lhdDeviceNext dBlocks s) :
    SameDriver s s' := by
  rcases mem_append.mp hs' with hs' | hs'
  · exact (lhdIrqNext_same hs').1
  · obtain ⟨_, _, _, -, h⟩ := lhdDeviceNext_ends hs'
    exact h.same

theorem hardware_outcome (hs' : s' ∈ lhdIrqNext s ++ lhdDeviceNext dBlocks s)
    (hk : ∀ w, s.regStat ≠ .working k w) : s'.outcome k = s.outcome k := by
  rcases mem_append.mp hs' with hs' | hs'
  · rw [(lhdIrqNext_same hs').2]
  · obtain ⟨k', w, st, hstat, h⟩ := lhdDeviceNext_ends hs'
    have hne : k ≠ k' := fun he => hk w (he ▸ hstat)
    rw [h.outcome, update_of_ne hne]

/-! ## 4. The invariant -/

/-- What holds of the driver and the device while thread `t` has `lh_clear` and is where it is. -/
def Stage (t : τ) : LhdPc β → LhdSoftc τ β → Prop
  | .move _, s => Still s ∧ s.ops = s.collected
  | .sect j, s => Still s ∧ s.ops = s.collected ∧ Loaded t j s
  | .stat j, s => Still s ∧ s.ops = s.collected ∧ Loaded t j s ∧ Aimed j s
  | .wait j k, s => s.ops = k + 1 ∧ s.collected = k ∧ s.starter k = some t ∧
      InFlight (fun s => Loaded t j s ∧ Aimed j s) k s
  | .take _ k, s => s.ops = k + 1 ∧ s.collected = k ∧ s.starter k = some t ∧ Still s ∧
      ∃ st, s.outcome k = some st ∧ s.lhResult = lhdCodeToErrno st
  | .out _ _, s => Still s ∧ s.ops = s.collected
  | .done _ _, s => Still s ∧ s.ops = s.collected
  | _, _ => True

/-- What holds in every state. -/
structure LhdInv (c : Procs (Option τ) (LhdPc β) (LhdSoftc τ β)) : Prop where
  guard : Guarded LhdSoftc.holder LhdPc.hasClear c
  hardware : (c.pc none).hasClear = false
  clear : c.shared.lhClear = if c.shared.holder = none then 1 else 0
  fresh : ∀ k, c.shared.ops ≤ k → c.shared.outcome k = none
  free : c.shared.holder = none → Still c.shared ∧ c.shared.ops = c.shared.collected
  stage : ∀ t, (c.pc (some t)).hasClear = true → Stage t (c.pc (some t)) c.shared

section Steps

variable [DecidableEq τ] {dBlocks : Nat} {c : Procs (Option τ) (LhdPc β) (LhdSoftc τ β)} {t : τ}
  {o : LhdPc β × LhdSoftc τ β}

omit [DecidableEq τ] in
theorem LhdInv.unique (h : LhdInv c) {u : τ} (ht : (c.pc (some t)).hasClear = true)
    (hu : (c.pc (some u)).hasClear = true) : u = t :=
  Option.some.inj (h.guard.unique hu ht)

variable {k : LhdPc β}

omit [DecidableEq τ] in
theorem LhdInv.stageAt (h : LhdInv c) (hpc : c.pc (some t) = k)
    (hin : k.hasClear = true) : Stage t k c.shared := by
  have hst := h.stage t
  rw [hpc] at hst
  exact hst hin

/-- A step of a thread that does not have `lh_clear`, before or after. -/
theorem LhdInv.outside_step (h : LhdInv c) (ht : (c.pc (some t)).hasClear = false)
    (hin : o.1.hasClear = false) (hs : o.2 = c.shared) : LhdInv (c.move (some t) o) where
  guard := h.guard.keep (by rw [hs]) (by rw [hin, ht])
  hardware := by
    exact h.hardware
  clear := by
    rw [move_shared, hs]
    exact h.clear
  fresh := by
    rw [move_shared, hs]
    exact h.fresh
  free := by
    rw [move_shared, hs]
    exact h.free
  stage u hu := by
    by_cases hut : u = t
    · rw [hut, move_pc_self, hin] at hu
      exact (nomatch hu)
    · have hne : some u ≠ some t := fun he => hut (Option.some.inj he)
      rw [move_pc_of_ne hne] at hu ⊢
      rw [move_shared, hs]
      exact h.stage u hu

/-- A step of the thread that has `lh_clear`, after which it still has it. -/
theorem LhdInv.hold (h : LhdInv c) (hpc : c.pc (some t) = k) (ht : k.hasClear = true)
    (hin : o.1.hasClear = true) (hholder : o.2.holder = c.shared.holder)
    (hclear : o.2.lhClear = c.shared.lhClear)
    (hfresh : ∀ k, o.2.ops ≤ k → o.2.outcome k = none) (hstage : Stage t o.1 o.2) :
    LhdInv (c.move (some t) o) where
  guard := h.guard.keep hholder (by rw [hin, hpc, ht])
  hardware := by
    exact h.hardware
  clear := by
    rw [move_shared, hclear, hholder]
    exact h.clear
  fresh := hfresh
  free := by
    intro hfree
    rw [move_shared, hholder, (h.guard (some t)).mpr (hpc ▸ ht)] at hfree
    exact (nomatch hfree)
  stage u hu := by
    by_cases hut : u = t
    · rw [hut, move_pc_self]
      exact hstage
    · have hne : some u ≠ some t := fun he => hut (Option.some.inj he)
      rw [move_pc_of_ne hne] at hu
      exact absurd (h.unique (hpc ▸ ht) hu) hut

theorem LhdInv.acquire (h : LhdInv c) (hpos : 0 < c.shared.lhClear) (hin : k.hasClear = true)
    (hstage : Still c.shared → c.shared.ops = c.shared.collected → Stage t k
      { c.shared with lhClear := c.shared.lhClear - 1, holder := some (some t) }) :
    LhdInv (c.move (some t)
      (k, { c.shared with lhClear := c.shared.lhClear - 1, holder := some (some t) })) := by
  have hfree : c.shared.holder = none := by
    by_contra hne
    rw [h.clear, if_neg hne] at hpos
    exact absurd hpos (by simp)
  refine ⟨h.guard.acquire hfree rfl hin, ?_, ?_, h.fresh, fun hnone => (nomatch hnone),
    fun u hu => ?_⟩
  · exact h.hardware
  · rw [move_shared, h.clear, if_pos hfree, if_neg (by simp)]
  · by_cases hut : u = t
    · rw [hut, move_pc_self]
      exact hstage (h.free hfree).1 (h.free hfree).2
    · have hne : some u ≠ some t := fun he => hut (Option.some.inj he)
      rw [move_pc_of_ne hne, h.guard.not_in hfree] at hu
      exact (nomatch hu)

theorem LhdInv.release (h : LhdInv c) (ht : (c.pc (some t)).hasClear = true)
    (hin : k.hasClear = false) (hstill : Still c.shared)
    (hops : c.shared.ops = c.shared.collected) :
    LhdInv (c.move (some t)
      (k, { c.shared with lhClear := c.shared.lhClear + 1, holder := none })) := by
  have hheld : c.shared.holder = some (some t) := (h.guard (some t)).mpr ht
  refine ⟨h.guard.release ht rfl hin, ?_, ?_, h.fresh,
    fun _ => ⟨⟨hstill.1, hstill.2, hstill.3⟩, hops⟩, fun u hu => ?_⟩
  · exact h.hardware
  · rw [move_shared, if_pos rfl, h.clear, hheld, if_neg (by simp)]
  · by_cases hut : u = t
    · rw [hut, move_pc_self, hin] at hu
      exact (nomatch hu)
    · have hne : some u ≠ some t := fun he => hut (Option.some.inj he)
      rw [move_pc_of_ne hne] at hu
      exact absurd (h.unique ht hu) hut

/-- **Every step of a thread keeps the invariant.** -/
theorem LhdInv.io_step (h : LhdInv c)
    (ho : o ∈ lhdIoNext dBlocks t (c.pc (some t)) c.shared) : LhdInv (c.move (some t) o) := by
  cases hpc : c.pc (some t) with
  | outside todo returned =>
    have hout : (c.pc (some t)).hasClear = false := by rw [hpc]; rfl
    rw [hpc] at ho
    cases todo with
    | nil => exact absurd ho (by simp [lhdIoNext])
    | cons call todo =>
      rw [lhdIoNext] at ho
      split_ifs at ho <;> rw [mem_singleton.mp ho] <;> exact h.outside_step hout rfl rfl
  | clear j =>
    rw [hpc] at ho
    rw [lhdIoNext] at ho
    obtain ⟨hpos, rfl⟩ := mem_stepP ho
    by_cases hw : j.call.rw = .write
    · rw [if_pos hw]
      exact h.acquire hpos rfl fun hstill hops => ⟨⟨hstill.1, hstill.2, hstill.3⟩, hops⟩
    · rw [if_neg hw]
      exact h.acquire hpos rfl fun hstill hops =>
        ⟨⟨hstill.1, hstill.2, hstill.3⟩, hops, fun hw' => absurd hw' hw⟩
  | move j =>
    obtain ⟨hstill, hops⟩ := h.stageAt hpc rfl
    rw [hpc, lhdIoNext] at ho
    split_ifs at ho <;> rw [mem_singleton.mp ho]
    · exact h.hold hpc rfl rfl rfl rfl h.fresh ⟨⟨hstill.1, hstill.2, hstill.3⟩, hops⟩
    · exact h.hold hpc rfl rfl rfl rfl h.fresh
        ⟨⟨hstill.1, hstill.2, hstill.3⟩, hops, fun _ => ⟨rfl, rfl⟩⟩
  | sect j =>
    obtain ⟨hstill, hops, hload⟩ := h.stageAt hpc rfl
    rw [hpc] at ho
    rw [mem_singleton.mp ho]
    exact h.hold hpc rfl rfl rfl rfl h.fresh ⟨⟨hstill.1, hstill.2, hstill.3⟩, hops, hload, rfl⟩
  | stat j =>
    obtain ⟨hstill, hops, hmine⟩ := h.stageAt hpc rfl
    rw [hpc] at ho
    rw [mem_singleton.mp ho]
    refine h.hold hpc rfl rfl rfl rfl (fun k hk => h.fresh k (Nat.le_of_succ_le hk)) ?_
    exact ⟨rfl, hops.symm, update_self _ _ _,
      .working _ rfl hstill.lhDone hstill.irq (h.fresh _ (Nat.le_refl _)) hmine⟩
  | wait j k =>
    obtain ⟨hops, hcol, hstarter, hflight⟩ := h.stageAt hpc rfl
    rw [hpc] at ho
    rw [lhdIoNext] at ho
    obtain ⟨hpos, rfl⟩ := mem_stepP ho
    refine h.hold hpc rfl rfl rfl rfl h.fresh ⟨hops, hcol, hstarter, ?_⟩
    -- The count of `lh_done` says which of the five states it is.
    cases hflight with
    | done st hstat hdone hirq hout hres =>
      exact ⟨⟨hstat, by simp [hdone], hirq⟩, st, hout, hres⟩
    | working _ _ hdone => omega
    | final _ _ hdone => omega
    | cleared _ _ hdone => omega
    | recorded _ _ hdone => omega
  | take j k =>
    obtain ⟨hops, hcol, -, hstill, -⟩ := h.stageAt hpc rfl
    rw [hpc] at ho
    rw [mem_singleton.mp ho]
    refine h.hold hpc rfl rfl rfl rfl h.fresh ⟨⟨hstill.1, hstill.2, hstill.3⟩, ?_⟩
    rw [hops, hcol]
  | out j result =>
    have hstage := h.stageAt hpc rfl
    rw [hpc] at ho
    cases result with
    | error e =>
      rw [mem_singleton.mp ho]
      exact h.hold hpc rfl rfl rfl rfl h.fresh hstage
    | ok _ =>
      simp only [lhdIoNext] at ho
      split_ifs at ho <;> rw [mem_singleton.mp ho] <;>
        exact h.hold hpc rfl rfl rfl rfl h.fresh hstage
  | done j result =>
    have hin : (c.pc (some t)).hasClear = true := by rw [hpc]; rfl
    obtain ⟨hstill, hops⟩ := h.stageAt hpc rfl
    rw [hpc] at ho
    rw [mem_singleton.mp ho]
    refine h.release hin ?_ hstill hops
    cases result with
    | error e => rfl
    | ok _ =>
      rw [IoJob.after]
      split_ifs <;> rfl

omit [DecidableEq τ] in
/-- The hardware keeps what holds for the thread that has `lh_clear`, and gives an outcome only to
an operation that was started. -/
theorem LhdInv.hardware_stage (h : LhdInv c) {s' : LhdSoftc τ β}
    (hs' : s' ∈ lhdIrqNext c.shared ++ lhdDeviceNext dBlocks c.shared)
    (ht : (c.pc (some t)).hasClear = true) :
    Stage t (c.pc (some t)) s' ∧ ∀ k, s'.ops ≤ k → s'.outcome k = none := by
  have hsame := hardware_sameDriver hs'
  -- At all control points but one nothing is on its way, and the hardware changes nothing.
  have hstill : Still c.shared → Stage t (c.pc (some t)) s' ∧
      ∀ k, s'.ops ≤ k → s'.outcome k = none := by
    intro hstill
    rw [hstill.hardware hs']
    exact ⟨h.stage t ht, h.fresh⟩
  cases hpc : c.pc (some t) with
  | outside todo returned =>
    rw [hpc] at ht
    exact (nomatch ht)
  | clear j =>
    rw [hpc] at ht
    exact (nomatch ht)
  | wait j k =>
    obtain ⟨hops, hcol, hstarter, hflight⟩ := h.stageAt hpc rfl
    refine ⟨⟨hsame.ops.trans hops, hsame.collected.trans hcol, ?_, ?_⟩, fun k' hk' => ?_⟩
    · rw [hsame.starter]
      exact hstarter
    · rcases mem_append.mp hs' with hs' | hs'
      · exact hflight.irq hs'
      · exact hflight.device hs'
    · rw [hsame.ops] at hk'
      rw [hardware_outcome hs', h.fresh k' hk']
      intro w hw
      cases hflight with
      | working w' hstat =>
        rw [hstat] at hw
        cases hw
        omega
      | final st hstat => exact nomatch hstat.symm.trans hw
      | cleared st hstat => exact nomatch hstat.symm.trans hw
      | recorded st hstat => exact nomatch hstat.symm.trans hw
      | done st hstat => exact nomatch hstat.symm.trans hw
  | move j => exact hpc ▸ hstill (h.stageAt hpc rfl).1
  | sect j => exact hpc ▸ hstill (h.stageAt hpc rfl).1
  | stat j => exact hpc ▸ hstill (h.stageAt hpc rfl).1
  | take j k => exact hpc ▸ hstill (h.stageAt hpc rfl).2.2.2.1
  | out j result => exact hpc ▸ hstill (h.stageAt hpc rfl).1
  | done j result => exact hpc ▸ hstill (h.stageAt hpc rfl).1

/-- **Every step of the hardware keeps the invariant.** -/
theorem LhdInv.hardware_step (h : LhdInv c)
    (hs' : s' ∈ lhdIrqNext c.shared ++ lhdDeviceNext dBlocks c.shared) :
    LhdInv (c.move none (c.pc none, s')) := by
  have hsame := hardware_sameDriver hs'
  refine ⟨h.guard.keep hsame.holder rfl, ?_, ?_, ?_, ?_, fun t ht => ?_⟩
  · exact h.hardware
  · rw [move_shared, hsame.lhClear, hsame.holder]
    exact h.clear
  · -- If nobody has `lh_clear` nothing is on its way; if somebody has, it is a thread.
    cases hheld : c.shared.holder with
    | none =>
      rw [move_shared, (h.free hheld).1.hardware hs']
      exact h.fresh
    | some a =>
      have ha := (h.guard a).mp hheld
      cases a with
      | none =>
        rw [h.hardware] at ha
        exact (nomatch ha)
      | some t => exact (h.hardware_stage hs' ha).2
  · intro hfree
    have hheld := hsame.holder.symm.trans hfree
    rw [(h.free hheld).1.hardware hs']
    exact h.free hheld
  · exact (h.hardware_stage hs' ht).1

/-- **The invariant holds in every state that is reached.** -/
theorem lhdInv_of_reach {todo : τ → List (IoCall β)} {buf : β} {platter : Nat → β}
    (h : Reach (lhdNext dBlocks) (fun _ _ _ => True) (configLhd todo buf platter) c) :
    LhdInv c := by
  refine h.invariant ?_ fun c a o hc ho _ => ?_
  · refine ⟨fun a => ?_, rfl, rfl, fun _ _ => rfl, fun _ => ⟨⟨rfl, rfl, rfl⟩, rfl⟩, fun t ht => ?_⟩
    · cases a <;> exact ⟨nofun, nofun⟩
    · exact (nomatch ht)
  · cases a with
    | some t => exact hc.io_step ho
    | none =>
      obtain ⟨s', hs', rfl⟩ := mem_map.mp ho
      exact hc.hardware_step hs'

end Steps

/-! ## 5. Requests do not cross -/

theorem InFlight.lhDone_le (h : InFlight Mine k s) : s.lhDone ≤ 1 := by
  cases h with
  | working _ _ hdone => omega
  | final _ _ hdone => omega
  | cleared _ _ hdone => omega
  | recorded _ _ hdone => omega
  | done _ _ hdone => omega

theorem InFlight.mine (h : InFlight Mine k s) (hout : s.outcome k = none) : Mine s := by
  cases h with
  | working _ _ _ _ _ hmine => exact hmine
  | final _ _ _ _ h => exact nomatch hout.symm.trans h
  | cleared _ _ _ _ h => exact nomatch hout.symm.trans h
  | recorded _ _ _ _ h _ => exact nomatch hout.symm.trans h
  | done _ _ _ _ h _ => exact nomatch hout.symm.trans h

variable {c : Procs (Option τ) (LhdPc β) (LhdSoftc τ β)}

theorem LhdInv.holder_cases (h : LhdInv c) :
    c.shared.holder = none ∨ ∃ t, (c.pc (some t)).hasClear = true := by
  cases hheld : c.shared.holder with
  | none => exact .inl rfl
  | some a =>
    have ha := (h.guard a).mp hheld
    cases a with
    | none =>
      rw [h.hardware] at ha
      exact (nomatch ha)
    | some t => exact .inr ⟨t, ha⟩

theorem LhdInv.counts (h : LhdInv c) :
    c.shared.ops ≤ c.shared.collected + 1 ∧ c.shared.lhDone ≤ 1 := by
  have hstill : Still c.shared → c.shared.ops = c.shared.collected →
      c.shared.ops ≤ c.shared.collected + 1 ∧ c.shared.lhDone ≤ 1 := fun hs hops => by
    rw [hs.lhDone, hops]
    exact ⟨Nat.le_succ _, Nat.zero_le _⟩
  rcases h.holder_cases with hfree | ⟨t, ht⟩
  · exact hstill (h.free hfree).1 (h.free hfree).2
  · cases hpc : c.pc (some t) with
    | outside todo returned =>
      rw [hpc] at ht
      exact (nomatch ht)
    | clear j =>
      rw [hpc] at ht
      exact (nomatch ht)
    | wait j k =>
      obtain ⟨hops, hcol, -, hflight⟩ := h.stageAt hpc rfl
      rw [hops, hcol]
      exact ⟨Nat.le_refl _, hflight.lhDone_le⟩
    | take j k =>
      obtain ⟨hops, hcol, -, hs, -⟩ := h.stageAt hpc rfl
      rw [hops, hcol, hs.lhDone]
      exact ⟨Nat.le_refl _, Nat.zero_le _⟩
    | move j => exact hstill (h.stageAt hpc rfl).1 (h.stageAt hpc rfl).2
    | sect j => exact hstill (h.stageAt hpc rfl).1 (h.stageAt hpc rfl).2.1
    | stat j => exact hstill (h.stageAt hpc rfl).1 (h.stageAt hpc rfl).2.1
    | out j result => exact hstill (h.stageAt hpc rfl).1 (h.stageAt hpc rfl).2
    | done j result => exact hstill (h.stageAt hpc rfl).1 (h.stageAt hpc rfl).2

/-- **What requests on one disk keep of each other.** -/
structure RequestsApart (c : Procs (Option τ) (LhdPc β) (LhdSoftc τ β)) : Prop where
  /-- At most one operation is started and not yet collected, and one thread waits for it. -/
  one : c.shared.ops ≤ c.shared.collected + 1
  single : ∀ t u, (c.pc (some t)).started = true → (c.pc (some u)).started = true → t = u
  lhDone : c.shared.lhDone ≤ 1
  /-- A thread that is about to read `lh_result` finds there how ITS operation ended. -/
  own : ∀ t j k, c.pc (some t) = .take j k → c.shared.starter k = some t ∧
    ∃ st, c.shared.outcome k = some st ∧ c.shared.lhResult = lhdCodeToErrno st
  /-- From its transfer into the buffer until its operation has ended, the data of a thread stays
  in the buffer, and nobody else has written there. -/
  buffer : ∀ t j, j.call.rw = .write → (c.pc (some t) = .sect j ∨ c.pc (some t) = .stat j ∨
      ∃ k, c.pc (some t) = .wait j k ∧ c.shared.outcome k = none) →
    c.shared.bufBy = some t ∧ c.shared.lhBuf = j.call.data j.i
  /-- When no thread is in `lhd_io`, `lh_clear` is 1. -/
  returned : (∀ t, ∃ todo returned, c.pc (some t) = .outside todo returned) → c.shared.lhClear = 1

/-- **Disk requests do not cross**, whatever calls the threads make and in whatever order the
threads, the interrupt handler and the device take their steps. -/
theorem requests_do_not_cross [DecidableEq τ] {dBlocks : Nat} {todo : τ → List (IoCall β)} {buf : β}
    {platter : Nat → β} {c : Procs (Option τ) (LhdPc β) (LhdSoftc τ β)}
    (h : Reach (lhdNext dBlocks) (fun _ _ _ => True) (configLhd todo buf platter) c) :
    RequestsApart c := by
  have hinv := lhdInv_of_reach h
  have hclear : ∀ k : LhdPc β, k.started = true → k.hasClear = true := by
    intro k hk
    cases k with
    | wait j k => rfl
    | take j k => rfl
    | _ => exact (nomatch hk)
  refine ⟨hinv.counts.1, fun t u ht hu => ?_, hinv.counts.2, fun t j k hpc => ?_, ?_, ?_⟩
  · exact hinv.unique (hclear _ hu) (hclear _ ht)
  · obtain ⟨-, -, hstarter, -, hres⟩ := hinv.stageAt hpc rfl
    exact ⟨hstarter, hres⟩
  · rintro t j hw (hpc | hpc | ⟨k, hpc, hout⟩)
    · exact (hinv.stageAt hpc rfl).2.2 hw
    · exact (hinv.stageAt hpc rfl).2.2.1 hw
    · exact ((hinv.stageAt hpc rfl).2.2.2.mine hout).1 hw
  · intro hall
    rw [hinv.clear, if_pos]
    rcases hinv.holder_cases with hfree | ⟨t, ht⟩
    · exact hfree
    · obtain ⟨todo, returned, hpc⟩ := hall t
      rw [hpc] at ht
      exact (nomatch ht)

/-- Two threads, each with one sector to write. -/
def twoWriters : Procs (Option Bool) (LhdPc Nat) (LhdSoftc Bool Nat) :=
  configLhd (fun t => [⟨if t then 512 else 0, 512, .write, fun _ => if t then 7 else 5,
    fun _ => false, fun _ => 0⟩]) 0 fun _ => 0

/-- The second thread comes to `P(lh_clear)` while the operation of the first is on its way. -/
def twoWritersSchedule : List (Option Bool × Nat) :=
  [(some false, 0), (some false, 0), (some true, 0), (some false, 0), (some false, 0),
    (some false, 0), (none, 1), (none, 0), (none, 0), (none, 0), (none, 0), (some false, 0),
    (some false, 0), (some false, 0), (some false, 0), (some true, 0), (some true, 0),
    (some true, 0), (some true, 0), (none, 1), (none, 0)]

theorem twoWriters_runs :
    (follow (lhdNext 8) (fun _ _ _ => true) twoWritersSchedule twoWriters).isSome = true := by
  decide +kernel

/-- The state that leads to: both operations have ended well, and the handler is at work. -/
theorem requests_do_not_cross_twoWriters :
    ∃ c : Procs (Option Bool) (LhdPc Nat) (LhdSoftc Bool Nat),
      follow (lhdNext 8) (fun _ _ _ => true) twoWritersSchedule twoWriters = some c ∧
      c.shared.ops = 2 ∧ c.shared.platter 0 = 5 ∧ c.shared.platter 1 = 7 ∧ RequestsApart c := by
  have hreach : Reach (lhdNext 8) (fun _ _ _ => True) twoWriters _ :=
    reach_follow (fun _ _ _ _ => True.intro) twoWriters_runs
  refine ⟨_, (Option.some_get twoWriters_runs).symm, ?_, ?_, ?_, requests_do_not_cross hreach⟩
  · decide +kernel
  · decide +kernel
  · decide +kernel

end Os161
