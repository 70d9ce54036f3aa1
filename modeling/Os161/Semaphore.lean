/-
# `kern/thread/synch.c`: semaphores

`P` and `V` as the steps that a thread makes between taking and letting go of locks.  The semaphore
has a spinlock (`sem_lock`) and a wait channel with a spinlock of its own (`wc_lock`).  A thread
that has to wait takes the channel's lock BEFORE it lets go of the semaphore's, and lets go of the
channel's only when it is on the channel: a wakeup in between has to wait for it.

A wakeup is no handoff.  The thread that was woken goes back to the test in its loop, and another
thread may have taken the count in the meantime.  So the fact that carries the argument is about
numbers (`SemInv.enough`): as long as somebody is on the channel or about to be, there are at least
as many threads on their way back to the test as the count says.  There is one gap: `V` first
increments the count and then wakes somebody up, and in between, where it may have to wait for the
channel's lock, the count is ahead by one.
-/
import Os161.Lib.Interleave

namespace Os161

open List

/-! ## 1. The code -/

/-- Where a thread is. -/
inductive SemPc
  | outside
  /-- `P`, at a `spinlock_acquire(&sem->sem_lock)`: the first one, or the one after a sleep. -/
  | pLock (slept : Bool)
  /-- `P`, at the test of the loop, with `sem_lock`. -/
  | pTest (slept : Bool)
  /-- `P`, at `wchan_lock`, with `sem_lock`. -/
  | pBridge
  /-- `P`, at `spinlock_release`, with both locks. -/
  | pUnlock
  /-- `P`, at `wchan_sleep`, with `wc_lock`. -/
  | pSleep
  /-- `P`, in `wchan_sleep`. -/
  | asleep
  /-- `P`, at the last `spinlock_release`. -/
  | pDone
  /-- `V`, at `spinlock_acquire`. -/
  | vLock
  /-- `V`, at the increment, with `sem_lock`. -/
  | vInc
  /-- `V`, at `wchan_wakeone`, with `sem_lock`. -/
  | vWake
  /-- `V`, at `spinlock_release`. -/
  | vDone
  deriving DecidableEq, Repr

open SemPc

/-- `struct semaphore`, and how often its count has been incremented and decremented. -/
structure Sem (τ : Type) where
  semLock : Option τ
  semCount : Int
  wcLock : Option τ
  wcThreads : List τ
  incs : Nat
  decs : Nat
  deriving DecidableEq

variable {τ : Type} [DecidableEq τ]

/-- What a thread can do next.  A failed assertion is no step. -/
def semNext (t : τ) : SemPc → Sem τ → List (SemPc × Sem τ)
  | .outside, s => [(.pLock false, s), (.vLock, s)]
  | .pLock slept, s =>
    if s.semLock = none then [(.pTest slept, { s with semLock := some t })] else []
  | .pTest _, s =>
    if s.semCount = 0 then [(.pBridge, s)]
    else if 0 < s.semCount then
      [(.pDone, { s with semCount := s.semCount - 1, decs := s.decs + 1 })]
    else []
  | .pBridge, s => if s.wcLock = none then [(.pUnlock, { s with wcLock := some t })] else []
  | .pUnlock, s => [(.pSleep, { s with semLock := none })]
  | .pSleep, s => [(.asleep, { s with wcLock := none, wcThreads := s.wcThreads ++ [t] })]
  | .asleep, s => if t ∈ s.wcThreads then [] else [(.pLock true, s)]
  | .pDone, s => [(.outside, { s with semLock := none })]
  | .vLock, s => if s.semLock = none then [(.vInc, { s with semLock := some t })] else []
  | .vInc, s =>
    -- the count is an `int`
    let count := (s.semCount + 1).bmod (2 ^ 32)
    if 0 < count then [(.vWake, { s with semCount := count, incs := s.incs + 1 })] else []
  | .vWake, s =>
    if s.wcLock = none then [(.vDone, { s with wcThreads := s.wcThreads.tail })] else []
  | .vDone, s => [(.outside, { s with semLock := none })]

/-- A semaphore that `sem_create` has made, and no thread using it yet. -/
def semCreate (initialCount : Nat) : Procs τ SemPc (Sem τ) where
  pc _ := .outside
  shared :=
    { semLock := none, semCount := initialCount, wcLock := none, wcThreads := [], incs := 0,
      decs := 0 }

/-! ## 2. Control points -/

namespace SemPc

/-- The thread has `sem_lock`. -/
def hasLock : SemPc → Bool
  | pTest _ | pBridge | pUnlock | pDone | vInc | vWake | vDone => true
  | _ => false

/-- The thread has `wc_lock`. -/
def hasWcLock : SemPc → Bool
  | pUnlock | pSleep => true
  | _ => false

/-- The thread is in `wchan_sleep`. -/
def isAsleep : SemPc → Bool
  | asleep => true
  | _ => false

/-- The thread has gone to sleep, and has not made its test since. -/
def slept : SemPc → Bool
  | pLock true | pTest true | asleep => true
  | _ => false

/-- The thread has incremented the count and not yet woken anybody up. -/
def atWake : SemPc → Bool
  | vWake => true
  | _ => false

/-- The thread has found the count at 0 and still has `sem_lock`. -/
def sawZero : SemPc → Bool
  | pBridge | pUnlock => true
  | _ => false

end SemPc

/-! ## 3. The steps -/

/-- What a step of thread `t` does, one case for each piece of the code. -/
inductive SemStep (t : τ) : SemPc → Sem τ → SemPc × Sem τ → Prop
  | callP (s : Sem τ) : SemStep t .outside s (.pLock false, s)
  | callV (s : Sem τ) : SemStep t .outside s (.vLock, s)
  | pLock (w : Bool) (s : Sem τ) (h : s.semLock = none) :
    SemStep t (.pLock w) s (.pTest w, { s with semLock := some t })
  | pZero (w : Bool) (s : Sem τ) (h : s.semCount = 0) : SemStep t (.pTest w) s (.pBridge, s)
  | pTake (w : Bool) (s : Sem τ) (h : 0 < s.semCount) :
    SemStep t (.pTest w) s (.pDone, { s with semCount := s.semCount - 1, decs := s.decs + 1 })
  | pBridge (s : Sem τ) (h : s.wcLock = none) :
    SemStep t .pBridge s (.pUnlock, { s with wcLock := some t })
  | pUnlock (s : Sem τ) : SemStep t .pUnlock s (.pSleep, { s with semLock := none })
  | pSleep (s : Sem τ) :
    SemStep t .pSleep s (.asleep, { s with wcLock := none, wcThreads := s.wcThreads ++ [t] })
  | pWake (s : Sem τ) (h : t ∉ s.wcThreads) : SemStep t .asleep s (.pLock true, s)
  | pDone (s : Sem τ) : SemStep t .pDone s (.outside, { s with semLock := none })
  | vLock (s : Sem τ) (h : s.semLock = none) :
    SemStep t .vLock s (.vInc, { s with semLock := some t })
  | vInc (s : Sem τ) (h : 0 < (s.semCount + 1).bmod (2 ^ 32)) : SemStep t .vInc s
      (.vWake, { s with semCount := (s.semCount + 1).bmod (2 ^ 32), incs := s.incs + 1 })
  | vWake (s : Sem τ) (h : s.wcLock = none) :
    SemStep t .vWake s (.vDone, { s with wcThreads := s.wcThreads.tail })
  | vDone (s : Sem τ) : SemStep t .vDone s (.outside, { s with semLock := none })

variable {t : τ} {k : SemPc} {s : Sem τ} {o : SemPc × Sem τ}

theorem semNext_step (ho : o ∈ semNext t k s) : SemStep t k s o := by
  cases k with
  | outside =>
    rcases mem_pair.mp ho with rfl | rfl
    · exact .callP s
    · exact .callV s
  | pLock w =>
    obtain ⟨h, rfl⟩ := mem_when ho
    exact .pLock w s h
  | pTest w =>
    rw [semNext] at ho
    split_ifs at ho with hzero hpos
    · rw [mem_singleton.mp ho]
      exact .pZero w s hzero
    · rw [mem_singleton.mp ho]
      exact .pTake w s hpos
    · cases ho
  | pBridge =>
    obtain ⟨h, rfl⟩ := mem_when ho
    exact .pBridge s h
  | pUnlock =>
    rw [mem_singleton.mp ho]
    exact .pUnlock s
  | pSleep =>
    rw [mem_singleton.mp ho]
    exact .pSleep s
  | asleep =>
    obtain ⟨h, rfl⟩ := mem_unless ho
    exact .pWake s h
  | pDone =>
    rw [mem_singleton.mp ho]
    exact .pDone s
  | vLock =>
    obtain ⟨h, rfl⟩ := mem_when ho
    exact .vLock s h
  | vInc =>
    obtain ⟨h, rfl⟩ := mem_when ho
    exact .vInc s h
  | vWake =>
    obtain ⟨h, rfl⟩ := mem_when ho
    exact .vWake s h
  | vDone =>
    rw [mem_singleton.mp ho]
    exact .vDone s

/-! ## 4. The invariant -/

open Procs

/-- What holds in every state. -/
structure SemInv (initialCount : Nat) (c : Procs τ SemPc (Sem τ)) : Prop where
  lock : Guarded Sem.semLock SemPc.hasLock c
  wcLock : Guarded Sem.wcLock SemPc.hasWcLock c
  chan : Channel Sem.wcThreads SemPc.isAsleep c
  few : Few SemPc.outside c
  nonneg : 0 ≤ c.shared.semCount
  fits : c.shared.semCount < 2 ^ 31
  count : c.shared.semCount = initialCount + c.shared.incs - c.shared.decs
  zero : ∀ t, (c.pc t).sawZero = true → c.shared.semCount = 0
  /-- If somebody is on the channel, or about to be, then there are enough threads on their way
  back to the test. -/
  enough : c.shared.wcThreads ≠ [] ∨ c.shared.wcLock ≠ none →
    c.shared.semCount + c.shared.wcThreads.length ≤ c.crowd SemPc.slept + c.crowd SemPc.atWake

theorem SemPc.slept_of_isAsleep (h : k.isAsleep = true) : k.slept = true := by
  cases k with
  | asleep => rfl
  | _ => cases h

theorem SemPc.hasLock_of_sawZero (h : k.sawZero = true) : k.hasLock = true := by
  cases k with
  | pBridge => rfl
  | pUnlock => rfl
  | _ => cases h

section Steps

variable {n : Nat} {c : Procs τ SemPc (Sem τ)} {t : τ} {k : SemPc} {o : SemPc × Sem τ}

omit [DecidableEq τ] in
theorem semCreate_inv (hn : n < 2 ^ 31) : SemInv n (semCreate n : Procs τ SemPc (Sem τ)) where
  lock _ := ⟨nofun, nofun⟩
  wcLock _ := ⟨nofun, nofun⟩
  chan := ⟨nodup_nil, nofun⟩
  few := by simp [Few, semCreate]
  nonneg := Int.natCast_nonneg n
  fits := by
    show (n : Int) < 2 ^ 31
    omega
  count := by simp [semCreate]
  zero _ h := nomatch h
  enough h := by simp [semCreate] at h

/-- **The locks and the channel.** -/
theorem SemStep.guarded (h : SemInv n c) (hk : c.pc t = k) (hs : SemStep t k c.shared o) :
    Guarded Sem.semLock hasLock (c.move t o) ∧
      Guarded Sem.wcLock hasWcLock (c.move t o) ∧
      Channel Sem.wcThreads isAsleep (c.move t o) := by
  refine ⟨h.lock.step ?_, h.wcLock.step ?_, h.chan.step ?_ ?_⟩
  · cases hs <;> simp_all [hasLock]
  · cases hs <;> simp_all [hasWcLock]
  · cases hs <;> simp_all [isAsleep]
  · cases hs <;> simp [isAsleep, tail_sublist]

theorem bmod_succ_of_pos {x : Int} (h0 : 0 ≤ x) (h1 : x < 2 ^ 31)
    (hpos : 0 < (x + 1).bmod (2 ^ 32)) : (x + 1).bmod (2 ^ 32) = x + 1 ∧ x + 1 < 2 ^ 31 := by
  have hlt : x + 1 < 2 ^ 31 := by
    by_contra hge
    have hx : x + 1 = 2 ^ 31 := by omega
    rw [hx] at hpos
    exact absurd hpos (by decide)
  refine ⟨Int.bmod_eq_of_le ?_ ?_, hlt⟩
  · omega
  · omega

omit [DecidableEq τ] in
/-- **The count.** -/
theorem SemStep.counted (h : SemInv n c) (hs : SemStep t k c.shared o) :
    0 ≤ o.2.semCount ∧ o.2.semCount < 2 ^ 31 ∧ o.2.semCount = n + o.2.incs - o.2.decs := by
  have h0 := h.nonneg
  have h1 := h.fits
  have hc := h.count
  cases hs with
  | pTake w s hpos =>
    refine ⟨?_, ?_, ?_⟩ <;> simp only <;> omega
  | vInc s hpos =>
    obtain ⟨hb, hlt⟩ := bmod_succ_of_pos h0 h1 hpos
    refine ⟨?_, ?_, ?_⟩ <;> simp only [hb] <;> omega
  | _ => exact ⟨h0, h1, hc⟩

theorem SemStep.zero (h : SemInv n c) (hk : c.pc t = k) (hs : SemStep t k c.shared o) (u : τ)
    (hu : ((c.move t o).pc u).sawZero = true) : o.2.semCount = 0 := by
  rcases eq_or_ne u t with rfl | hne
  · rw [move_pc_self] at hu
    cases hs with
    | pZero w s hzero => exact hzero
    | pBridge s hfree => exact h.zero u (by rw [hk]; rfl)
    | _ => cases hu
  · rw [move_pc_of_ne hne] at hu
    have hzero := h.zero u hu
    have hheld := hasLock_of_sawZero hu
    cases hs with
    | pTake w s hpos => exact absurd (h.lock.unique hheld (by rw [hk]; rfl)) hne
    | vInc s hpos => exact absurd (h.lock.unique hheld (by rw [hk]; rfl)) hne
    | _ => exact hzero

/-- **Enough threads are on their way.** -/
theorem SemStep.enough (h : SemInv n c) (hk : c.pc t = k) (hs : SemStep t k c.shared o)
    (hsome : o.2.wcThreads ≠ [] ∨ o.2.wcLock ≠ none) :
    o.2.semCount + o.2.wcThreads.length ≤
      (c.move t o).crowd slept + (c.move t o).crowd atWake := by
  -- the sleepers alone are enough for a count of 0
  have hsleepers : o.2.wcThreads.length ≤ (c.move t o).crowd slept :=
    ((hs.guarded h hk).2.2.mono fun _ => slept_of_isAsleep).length_le
      ((h.few.move t o).finite rfl)
  have hslept := crowd_move (P := slept) t o (h.few.finite rfl)
  have hwake := crowd_move (P := atWake) t o (h.few.finite rfl)
  have hold := h.enough
  rw [hk] at hslept hwake
  cases hs with
  | pZero w s hzero =>
    simp only [hzero] at *
    omega
  | pBridge s hfree =>
    have hzero := h.zero t (by rw [hk]; rfl)
    simp only [hzero] at *
    omega
  | pTake w s hpos =>
    have hold := hold hsome
    have hle := Bool.toNat_le (pTest w).slept
    simp only [slept, atWake, Bool.toNat_false] at *
    omega
  | pSleep s =>
    have hlock : c.shared.wcLock ≠ none := by
      rw [(h.wcLock t).mpr (by rw [hk]; rfl)]
      exact Option.some_ne_none t
    have hold := hold (.inr hlock)
    simp only [slept, atWake, Bool.toNat_false, Bool.toNat_true, length_append,
      length_singleton] at *
    omega
  | vInc s hpos =>
    obtain ⟨hb, -⟩ := bmod_succ_of_pos h.nonneg h.fits hpos
    have hold := hold hsome
    simp only [slept, atWake, Bool.toNat_false, Bool.toNat_true, hb] at *
    omega
  | vWake s hfree =>
    -- with the channel empty there is nobody to wake up, and nobody on the way to it
    cases hchan : c.shared.wcThreads with
    | nil =>
      simp [hchan, hfree] at hsome
    | cons u rest =>
      have hold := hold (.inl (by rw [hchan]; exact cons_ne_nil _ _))
      simp only [slept, atWake, Bool.toNat_false, Bool.toNat_true, hchan,
        tail_cons, length_cons] at *
      omega
  | pLock w s hfree =>
    have hold := hold hsome
    cases w <;>
      simp only [slept, atWake, Bool.toNat_false, Bool.toNat_true] at * <;> omega
  | _ =>
    have hold := hold hsome
    simp only [slept, atWake, Bool.toNat_false, Bool.toNat_true] at *
    omega

theorem SemInv.step (h : SemInv n c) (ho : o ∈ semNext t (c.pc t) c.shared) :
    SemInv n (c.move t o) := by
  have hs := semNext_step ho
  obtain ⟨hlock, hwc, hchan⟩ := hs.guarded h rfl
  obtain ⟨hnonneg, hfits, hcount⟩ := hs.counted h
  exact ⟨hlock, hwc, hchan, h.few.move t o, hnonneg, hfits, hcount, hs.zero h rfl, hs.enough h rfl⟩

end Steps

/-! ## 5. No count and no wakeup is lost -/

/-- The runs of `P` and `V` on a semaphore, in any interleaving. -/
def SemReach (initialCount : Nat) : Procs τ SemPc (Sem τ) → Prop :=
  Reach semNext (fun _ _ _ => True) (semCreate initialCount)

theorem SemReach.inv {n : Nat} (hn : n < 2 ^ 31) {c : Procs τ SemPc (Sem τ)} (h : SemReach n c) :
    SemInv n c :=
  Reach.invariant (semCreate_inv hn) (fun _ _ _ hi ho _ => hi.step ho) h

/-- The threads that have been woken and have not made their test again. -/
def semWoken (c : Procs τ SemPc (Sem τ)) : Set τ :=
  offChannel Sem.wcThreads SemPc.slept c

/-- **No count and no wakeup is lost.**  The count is what the increments and decrements make of the
initial one, and if somebody sleeps on the channel then there are as many woken threads as the count
says, but for a `V` that has incremented it and is still to call `wchan_wakeone`. -/
theorem semaphore_loses_nothing {initialCount : Nat} (hn : initialCount < 2 ^ 31)
    {c : Procs τ SemPc (Sem τ)} (h : SemReach initialCount c) :
    0 ≤ c.shared.semCount ∧ c.shared.semCount = initialCount + c.shared.incs - c.shared.decs ∧
      (c.shared.wcThreads ≠ [] → c.shared.semCount ≤ (semWoken c).ncard + c.crowd SemPc.atWake) ∧
      c.crowd SemPc.atWake ≤ 1 := by
  have hinv : SemInv initialCount c := h.inv hn
  refine ⟨hinv.nonneg, hinv.count, fun hchan => ?_, ?_⟩
  · have henough := hinv.enough (.inl hchan)
    have hcrowd := (hinv.chan.mono fun _ => SemPc.slept_of_isAsleep).crowd_eq (hinv.few.finite rfl)
    rw [hcrowd] at henough
    unfold semWoken
    omega
  · refine hinv.lock.crowd_le_one fun k hk => ?_
    cases k with
    | vWake => rfl
    | _ => cases hk

/-- Thread `false` calls `P` and has the channel's lock when thread `true` increments the count;
then it goes to sleep, and `V` has not woken anybody up yet. -/
def sleepDuringV : List (Bool × Nat) :=
  [(false, 0), (false, 0), (false, 0), (false, 0), (false, 0), (true, 1), (true, 0), (true, 0),
    (false, 0)]

theorem sleepDuringV_reach : ∃ c : Procs Bool SemPc (Sem Bool), SemReach 0 c ∧
    c.pc = (fun t => if t then .vWake else .asleep) ∧ c.shared.wcThreads = [false] ∧
    c.shared.semCount = 1 := by
  refine ⟨(follow semNext (fun _ _ _ => true) sleepDuringV (semCreate 0)).get (by decide),
    reach_follow (fun _ _ _ _ => trivial) _, ?_, ?_, ?_⟩
  · funext t
    cases t <;> decide
  · decide
  · decide

/-- The `V` in the middle is needed in the bound. -/
theorem semaphore_loses_nothing_during_v : 0 < 2 ^ 31 ∧
    ∃ c : Procs Bool SemPc (Sem Bool), SemReach 0 c ∧ c.shared.wcThreads ≠ [] ∧
      c.shared.semCount = 1 ∧ c.shared.semCount ≤ (semWoken c).ncard + c.crowd SemPc.atWake := by
  obtain ⟨c, hreach, -, hchan, hcount⟩ := sleepDuringV_reach
  have hne : c.shared.wcThreads ≠ [] := by simp [hchan]
  exact ⟨by decide, c, hreach, hne, hcount, (semaphore_loses_nothing (by decide) hreach).2.2.1 hne⟩

/-- **A thread can sleep with the count at 1 and nobody woken**: the `V` that has incremented the
count waits for the channel's lock, and the sleeper lets go of that only when it is on the list. -/
theorem sleeper_with_count_and_nobody_woken :
    ¬ ∀ c : Procs Bool SemPc (Sem Bool), SemReach 0 c → c.shared.wcThreads ≠ [] →
      c.shared.semCount ≤ (semWoken c).ncard := by
  intro hall
  obtain ⟨c, hreach, hpc, hchan, hcount⟩ := sleepDuringV_reach
  have hwoken : semWoken c = ∅ := by
    ext t
    rw [semWoken, offChannel, hpc, hchan]
    cases t <;> simp [SemPc.slept]
  have hle := hall c hreach (by simp [hchan])
  rw [hwoken, hcount, Set.ncard_empty] at hle
  omega

/-! ## 6. `P` and `V` as single steps -/

/-- `P`, where only the count matters: what a thread does with the count that it leaves, if there is
one to take. -/
def stepP {α : Type} (count : Nat) (next : Nat → α) : List α :=
  if 0 < count then [next (count - 1)] else []

/-- `V`, where only the count matters. -/
abbrev stepV (count : Nat) : Nat := count + 1

theorem mem_stepP {α : Type} {count : Nat} {next : Nat → α} {x : α} (h : x ∈ stepP count next) :
    0 < count ∧ x = next (count - 1) := mem_when h

/-- **Of all the steps of `P` and `V` one touches the count.**  In `P` it is the one that leads to
the last release, and in `V` the one that leads to the wakeup. -/
theorem semNext_count {n : Nat} (hn : n < 2 ^ 31) {c : Procs τ SemPc (Sem τ)} (h : SemReach n c)
    {t : τ} {o : SemPc × Sem τ} (ho : o ∈ semNext t (c.pc t) c.shared) :
    (o.1 = .pDone ∧ o.2.semCount.toNat ∈ stepP c.shared.semCount.toNat id) ∨
      (o.1 = .vWake ∧ o.2.semCount.toNat = stepV c.shared.semCount.toNat) ∨
      o.1 ≠ .pDone ∧ o.1 ≠ .vWake ∧ o.2.semCount = c.shared.semCount := by
  have hinv : SemInv n c := h.inv hn
  have h0 := hinv.nonneg
  generalize c.pc t = k at ho
  cases semNext_step ho with
  | pTake w s hpos =>
    refine .inl ⟨rfl, ?_⟩
    rw [stepP, if_pos (by omega), mem_singleton, id_eq]
    show (c.shared.semCount - 1).toNat = c.shared.semCount.toNat - 1
    omega
  | vInc s hpos =>
    obtain ⟨hb, -⟩ := bmod_succ_of_pos h0 hinv.fits hpos
    refine .inr (.inl ⟨rfl, ?_⟩)
    show ((c.shared.semCount + 1).bmod (2 ^ 32)).toNat = c.shared.semCount.toNat + 1
    omega
  | _ => exact .inr (.inr ⟨nofun, nofun, rfl⟩)

end Os161
