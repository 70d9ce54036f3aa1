/-
# `kern/thread/spl.c`: who has turned the interrupts off

Interrupts are off for two reasons: the thread has raised its level with `splhigh`, or it holds
spinlocks, and the two need not nest.  `t_iplhigh_count` counts the reasons, and the hardware is
told only when it leaves 0 or comes back to it.  Seen from the CPU and the thread that runs on it,
between two context switches, the count is what it should be after any calls (`spl_bookkeeping`).
-/
import Os161.Lib.Run

namespace Os161

/-- `t_curspl`, `t_iplhigh_count`, the interrupt enable bit of the CPU, and the spinlocks whose
`lk_holder` it is. -/
structure SplState (κ : Type) where
  curspl : Int
  iplhighCount : Int
  irqOn : Bool
  held : List κ

abbrev iplNone : Int := 0

abbrev iplHigh : Int := 1

variable {κ : Type}

/-- `splraise`, when `curcpu` exists. -/
def splraise (oldspl newspl : Int) : Prog Unit (SplState κ) Unit := do
  assert (oldspl = iplNone)
  assert (newspl = iplHigh)
  modify fun s => { s with
    irqOn := if s.iplhighCount = 0 then false else s.irqOn, iplhighCount := s.iplhighCount + 1 }

/-- `spllower`, when `curcpu` exists. -/
def spllower (oldspl newspl : Int) : Prog Unit (SplState κ) Unit := do
  assert (oldspl = iplHigh)
  assert (newspl = iplNone)
  modify fun s => { s with
    iplhighCount := s.iplhighCount - 1, irqOn := if s.iplhighCount - 1 = 0 then true else s.irqOn }

/-- `splx`; `spl0` and `splhigh` are calls of it. -/
def splx (spl : Int) : Prog Unit (SplState κ) Int := do
  let s ← get
  if s.curspl < spl then do
    splraise s.curspl spl
    modify fun s => { s with curspl := spl }
    pure s.curspl
  else if s.curspl > spl then do
    modify fun s => { s with curspl := spl }
    spllower s.curspl spl
    pure s.curspl
  else pure spl

/-- The levels, the count and the hardware agree. -/
structure SplState.Agrees (s : SplState κ) : Prop where
  level : s.curspl = iplNone ∨ s.curspl = iplHigh
  count : s.iplhighCount = s.held.length + if s.curspl = iplHigh then 1 else 0
  off : s.irqOn = false ↔ 0 < s.iplhighCount

/-- A thread that has just been created. -/
def splStart : SplState κ := ⟨iplHigh, 1, false, []⟩

theorem splStart_agrees : (splStart : SplState κ).Agrees := ⟨.inr rfl, rfl, by simp [splStart]⟩

variable {s : SplState κ}

theorem splx_agrees (h : s.Agrees) {p : Prop} {spl : Int}
    (hp : spl ≠ iplNone → spl ≠ iplHigh → p) : Wp p (splx spl) (fun r s' => r = s.curspl ∧
      s'.Agrees ∧ s'.curspl = spl ∧ s'.held = s.held) (fun _ _ => False) s := by
  unfold splx splraise spllower
  simp only [wp_bind, wp_get, wp_ite, wp_assert, wp_modify, wp_pure]
  -- up, down, or where it is
  refine ⟨fun hlt => ?_, fun _ => ⟨fun hgt => ?_, fun _ => ?_⟩⟩ <;>
    grind [SplState.Agrees]

variable [DecidableEq κ]

/-- `spinlock_acquire`.  Other CPUs let go of the lock at some time; this one would wait for
ever, and panics. -/
def spinlockAcquire (lk : κ) : Prog Unit (SplState κ) Unit := do
  splraise iplNone iplHigh
  let s ← get
  assert (lk ∉ s.held)
  modify fun s => { s with held := lk :: s.held }

/-- `spinlock_release`. -/
def spinlockRelease (lk : κ) : Prog Unit (SplState κ) Unit := do
  let s ← get
  assert (lk ∈ s.held)
  modify fun s => { s with held := s.held.erase lk }
  spllower iplHigh iplNone

inductive SplCall (κ : Type)
  | splx (spl : Int)
  | acquire (lk : κ)
  | release (lk : κ)

def splCall : SplCall κ → Prog Unit (SplState κ) Unit
  | .splx spl => do
    let _ ← Os161.splx spl
    pure ()
  | .acquire lk => spinlockAcquire lk
  | .release lk => spinlockRelease lk

theorem spinlockAcquire_agrees (h : s.Agrees) (lk : κ) :
    Wp True (spinlockAcquire lk) (fun _ => SplState.Agrees) (fun _ => SplState.Agrees) s := by
  obtain ⟨hlevel, hcount, hoff⟩ := h
  unfold spinlockAcquire splraise
  simp only [wp_bind, wp_get, wp_assert, wp_modify]
  refine ⟨fun _ => ⟨fun _ => ⟨fun _ => ⟨hlevel, ?_, ?_⟩, ?_⟩, ?_⟩, ?_⟩
  all_goals grind

theorem spinlockRelease_agrees (h : s.Agrees) (lk : κ) :
    Wp True (spinlockRelease lk) (fun _ => SplState.Agrees) (fun _ => SplState.Agrees) s := by
  obtain ⟨hlevel, hcount, hoff⟩ := h
  unfold spinlockRelease spllower
  simp only [wp_bind, wp_get, wp_assert, wp_modify]
  refine ⟨fun hmem => ?_, fun _ => True.intro⟩
  refine ⟨fun _ => ⟨fun _ => ⟨hlevel, ?_, ?_⟩, ?_⟩, ?_⟩
  all_goals grind

theorem splCall_agrees (op : SplCall κ) (h : s.Agrees) :
    Wp True (splCall op) (fun _ => SplState.Agrees) (fun _ => SplState.Agrees) s := by
  cases op with
  | splx spl =>
    exact wp_bind.mpr ((splx_agrees (p := True) h fun _ _ => True.intro).imp
      (fun _ _ h' => wp_pure.mpr h'.2.1) fun _ _ => nofun)
  | acquire lk => exact spinlockAcquire_agrees h lk
  | release lk => exact spinlockRelease_agrees h lk

end Os161
