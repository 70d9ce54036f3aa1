/-
# `kern/thread/synch.c`: locks and condition variables

`lock_acquire`, `lock_release`, `cv_wait`, `cv_signal` and `cv_broadcast` of one lock and one
condition variable, as the steps that a thread makes between taking and letting go of spinlocks.

`lock_acquire` bridges from the lock's spinlock to that of its wait channel, as `P` does.  Two
things are different from what the header asks for:

* `lock_release` does not look who calls it.  It clears `lk_owner` for a thread that does not hold
  the lock, and so does `cv_wait`.
* `cv_wait` lets go of the lock BEFORE it takes the lock of the condition variable's channel.  A
  thread that gets the lock in between can broadcast to a channel that the waiter is not on yet.

What the invariants here hold under is the condition that a run does neither.
-/
import Os161.Lib.Interleave

namespace Os161

open Function List

/-! ## 1. The code -/

/-- Where a thread is.  `held` says that a `lock_acquire` of the thread has returned (its own, or
the one in its `cv_wait`), and that it has called neither `lock_release` nor `cv_wait` since. -/
inductive LkPc
  /-- In none of the functions. -/
  | user (held : Bool)
  /-- `lock_acquire`, at a `spinlock_acquire(&lock->lk_lock)`: the first one, or one after a
  sleep. -/
  | aLock (held slept : Bool)
  /-- `lock_acquire`, at the assertion or the test of the loop, with `lk_lock`. -/
  | aTest (held slept : Bool)
  /-- `lock_acquire`, at `wchan_lock`, with `lk_lock`. -/
  | aBridge (held : Bool)
  /-- `lock_acquire`, at `spinlock_release` in the loop, with both locks. -/
  | aUnlock (held : Bool)
  /-- `lock_acquire`, at `wchan_sleep`, with the channel's lock. -/
  | aSleep (held : Bool)
  /-- `lock_acquire`, in `wchan_sleep`. -/
  | asleep (held : Bool)
  /-- `lock_acquire`, at the last `spinlock_release`. -/
  | aDone
  /-- `lock_acquire`, stopped at the assertion that the thread does not hold the lock. -/
  | aStopped (held : Bool)
  /-- `lock_release`, called by the thread or by its `cv_wait`, at `spinlock_acquire`. -/
  | rLock (wait : Bool)
  /-- `lock_release`, at `lock->lk_owner=NULL`. -/
  | rClear (wait : Bool)
  /-- `lock_release`, at `wchan_wakeone`. -/
  | rWake (wait : Bool)
  /-- `lock_release`, at `spinlock_release`. -/
  | rDone (wait : Bool)
  /-- `cv_wait`, at `wchan_lock`. -/
  | wLock
  /-- `cv_wait`, at `wchan_sleep`. -/
  | wSleep
  /-- `cv_wait`, in `wchan_sleep`. -/
  | wAsleep
  /-- `cv_signal` or `cv_broadcast`, at the assertion that the thread holds the lock. -/
  | sAssert (held all : Bool)
  /-- `cv_signal` at `wchan_wakeone`, or `cv_broadcast` at `wchan_wakeall`. -/
  | sWake (held all : Bool)
  /-- `cv_signal` or `cv_broadcast`, stopped at the assertion. -/
  | sStopped (held : Bool)
  deriving DecidableEq, Repr

open LkPc

/-- `struct lock` and `struct cv`, how many broadcasts there have been, and how many of them a
thread had seen when it last gave up the lock in `cv_wait`. -/
structure Lk (τ : Type) where
  lkLock : Option τ
  lkOwner : Option τ
  lkWcLock : Option τ
  lkWcThreads : List τ
  cvWcLock : Option τ
  cvWcThreads : List τ
  broadcasts : Nat
  gaveUp : τ → Nat

variable {τ : Type} [DecidableEq τ]

/-- What a thread can do next. -/
def lkNext (t : τ) : LkPc → Lk τ → List (LkPc × Lk τ)
  | .user held, s =>
    [(.aLock held false, s), (.rLock false, s), (.rLock true, s), (.sAssert held false, s),
      (.sAssert held true, s)]
  | .aLock held slept, s =>
    if s.lkLock = none then [(.aTest held slept, { s with lkLock := some t })] else []
  | .aTest held slept, s =>
    -- the assertion stands before the loop
    if s.lkOwner = some t ∧ slept = false then [(.aStopped held, s)]
    else if s.lkOwner = none then [(.aDone, { s with lkOwner := some t })]
    else [(.aBridge held, s)]
  | .aBridge held, s =>
    if s.lkWcLock = none then [(.aUnlock held, { s with lkWcLock := some t })] else []
  | .aUnlock held, s => [(.aSleep held, { s with lkLock := none })]
  | .aSleep held, s =>
    [(.asleep held, { s with lkWcLock := none, lkWcThreads := s.lkWcThreads ++ [t] })]
  | .asleep held, s => if t ∈ s.lkWcThreads then [] else [(.aLock held true, s)]
  | .aDone, s => [(.user true, { s with lkLock := none })]
  | .aStopped _, _ => []
  | .rLock wait, s =>
    if s.lkLock = none then [(.rClear wait, { s with lkLock := some t })] else []
  | .rClear wait, s =>
    let gaveUp := if wait then update s.gaveUp t s.broadcasts else s.gaveUp
    [(.rWake wait, { s with lkOwner := none, gaveUp := gaveUp })]
  | .rWake wait, s =>
    if s.lkWcLock = none then [(.rDone wait, { s with lkWcThreads := s.lkWcThreads.tail })] else []
  | .rDone wait, s => [(if wait then .wLock else .user false, { s with lkLock := none })]
  | .wLock, s => if s.cvWcLock = none then [(.wSleep, { s with cvWcLock := some t })] else []
  | .wSleep, s => [(.wAsleep, { s with cvWcLock := none, cvWcThreads := s.cvWcThreads ++ [t] })]
  | .wAsleep, s => if t ∈ s.cvWcThreads then [] else [(.aLock false false, s)]
  | .sAssert held all, s =>
    if s.lkOwner = some t then [(.sWake held all, s)] else [(.sStopped held, s)]
  | .sWake held all, s =>
    if s.cvWcLock = none then
      if all then [(.user held, { s with cvWcThreads := [], broadcasts := s.broadcasts + 1 })]
      else [(.user held, { s with cvWcThreads := s.cvWcThreads.tail })]
    else []
  | .sStopped _, _ => []

/-- A lock that `lock_create` has made, a condition variable from `cv_create`, and no thread using
them yet. -/
def lkCreate : Procs τ LkPc (Lk τ) where
  pc _ := .user false
  shared :=
    { lkLock := none, lkOwner := none, lkWcLock := none, lkWcThreads := [], cvWcLock := none,
      cvWcThreads := [], broadcasts := 0, gaveUp := fun _ => 0 }

/-! ## 2. Control points -/

namespace LkPc

/-- A `lock_acquire` of the thread has returned, and it has called neither `lock_release` nor
`cv_wait` since. -/
def holds : LkPc → Bool
  | user h | aLock h _ | aTest h _ | aBridge h | aUnlock h | aSleep h | asleep h | aStopped h => h
  | sAssert h _ | sWake h _ | sStopped h => h
  | _ => false

/-- The thread is the owner, if locks are released by their owners. -/
def owns : LkPc → Bool
  | aDone | rLock _ | rClear _ => true
  | k => k.holds

/-- The thread has `lk_lock`. -/
def hasLock : LkPc → Bool
  | aTest _ _ | aBridge _ | aUnlock _ | aDone | aStopped _ | rClear _ | rWake _ | rDone _ => true
  | _ => false

/-- The thread has the lock of `lk_wchan`. -/
def hasLkWc : LkPc → Bool
  | aUnlock _ | aSleep _ => true
  | _ => false

/-- The thread is in `wchan_sleep` on `lk_wchan`. -/
def isAsleep : LkPc → Bool
  | asleep _ => true
  | _ => false

/-- The thread has gone to sleep on `lk_wchan`, and has not made its test since. -/
def slept : LkPc → Bool
  | aLock _ true | aTest _ true | asleep _ => true
  | _ => false

/-- The thread has cleared `lk_owner` and not yet woken anybody up. -/
def atWake : LkPc → Bool
  | rWake _ => true
  | _ => false

/-- The thread has found the lock taken and still has `lk_lock`. -/
def sawOwner : LkPc → Bool
  | aBridge _ | aUnlock _ => true
  | _ => false

/-- The thread has the lock of `cv_wchan`. -/
def hasCvWc : LkPc → Bool
  | wSleep => true
  | _ => false

/-- The thread is in `wchan_sleep` on `cv_wchan`. -/
def isWaiting : LkPc → Bool
  | wAsleep => true
  | _ => false

/-- The thread is in `cv_wait`, has given up the lock, and does not have the lock of `cv_wchan`
yet. -/
def inGap : LkPc → Bool
  | rWake true | rDone true | wLock => true
  | _ => false

/-- The thread is at a call of `lock_release`, its own or the one of its `cv_wait`. -/
def calledRelease : LkPc → Bool
  | rLock _ => true
  | _ => false

end LkPc

/-! ## 3. The steps -/

/-- What a step of thread `t` does, one case for each piece of the code. -/
inductive LkStep (t : τ) : LkPc → Lk τ → LkPc × Lk τ → Prop
  | callAcquire (h : Bool) (s : Lk τ) : LkStep t (.user h) s (.aLock h false, s)
  | callRelease (h w : Bool) (s : Lk τ) : LkStep t (.user h) s (.rLock w, s)
  | callSignal (h all : Bool) (s : Lk τ) : LkStep t (.user h) s (.sAssert h all, s)
  | aLock (h w : Bool) (s : Lk τ) (hfree : s.lkLock = none) :
    LkStep t (.aLock h w) s (.aTest h w, { s with lkLock := some t })
  | aStop (h : Bool) (s : Lk τ) (hown : s.lkOwner = some t) :
    LkStep t (.aTest h false) s (.aStopped h, s)
  | aTake (h w : Bool) (s : Lk τ) (hown : s.lkOwner = none) :
    LkStep t (.aTest h w) s (.aDone, { s with lkOwner := some t })
  | aTaken (h w : Bool) (s : Lk τ) (hown : s.lkOwner ≠ none) :
    LkStep t (.aTest h w) s (.aBridge h, s)
  | aBridge (h : Bool) (s : Lk τ) (hfree : s.lkWcLock = none) :
    LkStep t (.aBridge h) s (.aUnlock h, { s with lkWcLock := some t })
  | aUnlock (h : Bool) (s : Lk τ) : LkStep t (.aUnlock h) s (.aSleep h, { s with lkLock := none })
  | aSleep (h : Bool) (s : Lk τ) : LkStep t (.aSleep h) s
      (.asleep h, { s with lkWcLock := none, lkWcThreads := s.lkWcThreads ++ [t] })
  | aWoken (h : Bool) (s : Lk τ) (hoff : t ∉ s.lkWcThreads) :
    LkStep t (.asleep h) s (.aLock h true, s)
  | aDone (s : Lk τ) : LkStep t .aDone s (.user true, { s with lkLock := none })
  | rLock (w : Bool) (s : Lk τ) (hfree : s.lkLock = none) :
    LkStep t (.rLock w) s (.rClear w, { s with lkLock := some t })
  | rClear (w : Bool) (s : Lk τ) : LkStep t (.rClear w) s (.rWake w, { s with
      lkOwner := none
      gaveUp := if w then update s.gaveUp t s.broadcasts else s.gaveUp })
  | rWake (w : Bool) (s : Lk τ) (hfree : s.lkWcLock = none) :
    LkStep t (.rWake w) s (.rDone w, { s with lkWcThreads := s.lkWcThreads.tail })
  | rDone (s : Lk τ) : LkStep t (.rDone false) s (.user false, { s with lkLock := none })
  | wRest (s : Lk τ) : LkStep t (.rDone true) s (.wLock, { s with lkLock := none })
  | wLock (s : Lk τ) (hfree : s.cvWcLock = none) :
    LkStep t .wLock s (.wSleep, { s with cvWcLock := some t })
  | wSleep (s : Lk τ) : LkStep t .wSleep s
      (.wAsleep, { s with cvWcLock := none, cvWcThreads := s.cvWcThreads ++ [t] })
  | wWoken (s : Lk τ) (hoff : t ∉ s.cvWcThreads) : LkStep t .wAsleep s (.aLock false false, s)
  | sAssert (h all : Bool) (s : Lk τ) (hown : s.lkOwner = some t) :
    LkStep t (.sAssert h all) s (.sWake h all, s)
  | sStop (h all : Bool) (s : Lk τ) (hown : s.lkOwner ≠ some t) :
    LkStep t (.sAssert h all) s (.sStopped h, s)
  | sSignal (h : Bool) (s : Lk τ) (hfree : s.cvWcLock = none) :
    LkStep t (.sWake h false) s (.user h, { s with cvWcThreads := s.cvWcThreads.tail })
  | sBroadcast (h : Bool) (s : Lk τ) (hfree : s.cvWcLock = none) : LkStep t (.sWake h true) s
      (.user h, { s with cvWcThreads := [], broadcasts := s.broadcasts + 1 })

variable {t : τ} {k : LkPc} {o : LkPc × Lk τ} {c : Procs τ LkPc (Lk τ)}

theorem lkNext_step {s : Lk τ} (ho : o ∈ lkNext t k s) : LkStep t k s o := by
  cases k with
  | user h =>
    simp only [lkNext, mem_cons, not_mem_nil, or_false] at ho
    rcases ho with rfl | rfl | rfl | rfl | rfl
    · exact .callAcquire h s
    · exact .callRelease h false s
    · exact .callRelease h true s
    · exact .callSignal h false s
    · exact .callSignal h true s
  | aTest h w =>
    rw [lkNext] at ho
    split_ifs at ho with hstop hown
    · obtain ⟨hown, rfl⟩ := hstop
      rw [mem_singleton.mp ho]
      exact .aStop h s hown
    · rw [mem_singleton.mp ho]
      exact .aTake h w s hown
    · rw [mem_singleton.mp ho]
      exact .aTaken h w s hown
  | rClear w =>
    rw [mem_singleton.mp ho]
    exact .rClear w s
  | rDone w =>
    rw [mem_singleton.mp ho]
    cases w with
    | false => exact .rDone s
    | true => exact .wRest s
  | sAssert h all =>
    rw [lkNext] at ho
    split_ifs at ho with hown
    · rw [mem_singleton.mp ho]
      exact .sAssert h all s hown
    · rw [mem_singleton.mp ho]
      exact .sStop h all s hown
  | sWake h all =>
    rw [lkNext, mem_ite_nil_right] at ho
    obtain ⟨hfree, ho⟩ := ho
    cases all with
    | false =>
      rw [mem_singleton.mp ho]
      exact .sSignal h s hfree
    | true =>
      rw [mem_singleton.mp ho]
      exact .sBroadcast h s hfree
  | aLock h w =>
    obtain ⟨hfree, rfl⟩ := mem_when ho
    exact .aLock h w s hfree
  | aBridge h =>
    obtain ⟨hfree, rfl⟩ := mem_when ho
    exact .aBridge h s hfree
  | rLock w =>
    obtain ⟨hfree, rfl⟩ := mem_when ho
    exact .rLock w s hfree
  | rWake w =>
    obtain ⟨hfree, rfl⟩ := mem_when ho
    exact .rWake w s hfree
  | wLock =>
    obtain ⟨hfree, rfl⟩ := mem_when ho
    exact .wLock s hfree
  | asleep h =>
    obtain ⟨hoff, rfl⟩ := mem_unless ho
    exact .aWoken h s hoff
  | wAsleep =>
    obtain ⟨hoff, rfl⟩ := mem_unless ho
    exact .wWoken s hoff
  | aUnlock h =>
    rw [mem_singleton.mp ho]
    exact .aUnlock h s
  | aSleep h =>
    rw [mem_singleton.mp ho]
    exact .aSleep h s
  | aDone =>
    rw [mem_singleton.mp ho]
    exact .aDone s
  | wSleep =>
    rw [mem_singleton.mp ho]
    exact .wSleep s
  | aStopped h => cases ho
  | sStopped h => cases ho

/-! ## 4. Locks that their holders release -/

open Procs

/-- `lock_release` and `cv_wait` are called only by a thread that holds the lock. -/
def HoldersRelease (c : Procs τ LkPc (Lk τ)) (t : τ) (o : LkPc × Lk τ) : Prop :=
  o.1.calledRelease = true → (c.pc t).holds = true

/-- The threads that have been woken and have not made their test again. -/
def lkWoken (c : Procs τ LkPc (Lk τ)) : Set τ := offChannel Lk.lkWcThreads LkPc.slept c

/-- Somebody is going to look at the lock again, or to wake somebody up who will. -/
def OnTheWay (c : Procs τ LkPc (Lk τ)) : Prop := ∃ u, u ∈ lkWoken c ∨ (c.pc u).atWake = true

/-- What holds in every state, if locks are released by their holders. -/
structure LkInv (c : Procs τ LkPc (Lk τ)) : Prop where
  lock : Guarded Lk.lkLock LkPc.hasLock c
  wcLock : Guarded Lk.lkWcLock LkPc.hasLkWc c
  owner : Guarded Lk.lkOwner LkPc.owns c
  chan : Channel Lk.lkWcThreads LkPc.isAsleep c
  seen : ∀ t, (c.pc t).sawOwner = true → c.shared.lkOwner ≠ none
  way : c.shared.lkOwner = none → c.shared.lkWcThreads ≠ [] ∨ c.shared.lkWcLock ≠ none → OnTheWay c

theorem LkPc.slept_of_isAsleep (h : k.isAsleep = true) : k.slept = true := by
  cases k with
  | asleep => rfl
  | _ => cases h

theorem LkPc.hasLock_of_sawOwner (h : k.sawOwner = true) : k.hasLock = true := by
  cases k with
  | aBridge => rfl
  | aUnlock => rfl
  | _ => cases h

theorem LkPc.owns_of_holds (h : k.holds = true) : k.owns = true := by
  cases k with
  | aDone => rfl
  | rLock => rfl
  | rClear => rfl
  | _ => exact h

omit [DecidableEq τ] in
theorem lkCreate_inv : LkInv (lkCreate : Procs τ LkPc (Lk τ)) where
  lock _ := ⟨nofun, nofun⟩
  wcLock _ := ⟨nofun, nofun⟩
  owner _ := ⟨nofun, nofun⟩
  chan := ⟨nodup_nil, nofun⟩
  seen _ h := nomatch h
  way _ h := by simp [lkCreate] at h

section Steps

variable {c : Procs τ LkPc (Lk τ)} {t : τ} {k : LkPc} {o : LkPc × Lk τ}

theorem OnTheWay.keep (h : OnTheWay c) (hchan : o.2.lkWcThreads = c.shared.lkWcThreads)
    (hslept : (c.pc t).slept = true → o.1.slept = true)
    (hwake : (c.pc t).atWake = true → o.1.atWake = true) : OnTheWay (c.move t o) := by
  obtain ⟨u, hu⟩ := h
  refine ⟨u, ?_⟩
  rw [lkWoken, offChannel, Set.mem_ofPred_eq, move_shared, hchan]
  rcases eq_or_ne u t with rfl | hne
  · rw [move_pc_self]
    exact hu.imp (And.imp_left hslept) hwake
  · rw [move_pc_of_ne hne]
    exact hu

section

variable (h : LkInv c) (hk : c.pc t = k) (hs : LkStep t k c.shared o)

include h hk hs

/-- **The spinlocks and the channel.** -/
theorem LkStep.guarded :
    Guarded Lk.lkLock hasLock (c.move t o) ∧ Guarded Lk.lkWcLock hasLkWc (c.move t o) ∧
      Channel Lk.lkWcThreads isAsleep (c.move t o) := by
  refine ⟨h.lock.step ?_, h.wcLock.step ?_, h.chan.step ?_ ?_⟩
  · cases hs <;> simp_all [hasLock]
  · cases hs <;> simp_all [hasLkWc]
  · cases hs <;> simp_all [isAsleep]
  · cases hs <;> simp [isAsleep, tail_sublist]

/-- **The owner.** -/
theorem LkStep.owner (hok : HoldersRelease c t o) : Guarded Lk.lkOwner owns (c.move t o) := by
  refine h.owner.step ?_
  unfold HoldersRelease at hok
  cases hs <;> simp_all [owns, holds, calledRelease]

/-- Who has found the lock taken has the spinlock that keeps it so. -/
theorem LkStep.seen (u : τ) (hu : ((c.move t o).pc u).sawOwner = true) :
    o.2.lkOwner ≠ none := by
  rcases eq_or_ne u t with rfl | hne
  · rw [move_pc_self] at hu
    cases hs with
    | aTaken hd w s hown => exact hown
    | aBridge hd s hfree => exact h.seen u (by rw [hk]; rfl)
    | _ => cases hu
  · rw [move_pc_of_ne hne] at hu
    have hseen := h.seen u hu
    have hheld := hasLock_of_sawOwner hu
    cases hs with
    | aTake hd w s hown => exact Option.some_ne_none t
    | rClear w s => exact absurd (h.lock.unique hheld (by rw [hk]; rfl)) hne
    | _ => exact hseen

/-- **Somebody is on the way.** -/
theorem LkStep.way (hown : o.2.lkOwner = none)
    (hsome : o.2.lkWcThreads ≠ [] ∨ o.2.lkWcLock ≠ none) : OnTheWay (c.move t o) := by
  have hseen := h.seen t
  rw [hk] at hseen
  cases hs with
  | aTake hd w s hfree => cases hown
  | aStop hd s hme => rw [hown] at hme; cases hme
  | aTaken hd w s htaken => exact absurd hown htaken
  | aBridge hd s hfree => exact absurd hown (hseen rfl)
  | aUnlock hd s => exact absurd hown (hseen rfl)
  | rClear w s => exact ⟨t, .inr (by rw [move_pc_self]; rfl)⟩
  | aSleep hd s =>
    -- while `t` had the channel's lock, a wakeup could not go through
    have hlock : c.shared.lkWcLock ≠ none := by
      rw [(h.wcLock t).mpr (by rw [hk]; rfl)]
      exact Option.some_ne_none t
    obtain ⟨u, hu⟩ := h.way hown (.inr hlock)
    have hne : u ≠ t := by
      rintro rfl
      rw [lkWoken, offChannel, Set.mem_ofPred_eq, hk] at hu
      simp [slept, atWake] at hu
    refine ⟨u, ?_⟩
    rw [lkWoken, offChannel, Set.mem_ofPred_eq, move_pc_of_ne hne, move_shared]
    refine hu.imp_left (And.imp_right fun hnot => ?_)
    simp only [mem_append, mem_singleton, not_or]
    exact ⟨hnot, hne⟩
  | rWake w s hfree =>
    cases hchan : c.shared.lkWcThreads with
    | nil => simp [hchan, hfree] at hsome
    | cons u rest =>
      -- the head of the channel is the one that is on its way now
      have hmem : u ∈ c.shared.lkWcThreads := by
        rw [hchan]
        exact mem_cons_self
      have hasleep := h.chan.asleep u hmem
      have hne : u ≠ t := by
        rintro rfl
        rw [hk] at hasleep
        cases hasleep
      have hnodup := h.chan.nodup
      rw [hchan] at hnodup
      refine ⟨u, .inl ⟨?_, ?_⟩⟩
      · rw [move_pc_of_ne hne]
        exact slept_of_isAsleep hasleep
      · exact (nodup_cons.mp hnodup).1
  | aLock hd w s hfree =>
    refine (h.way hown hsome).keep rfl ?_ ?_
    · rw [hk]
      cases w <;> exact id
    · rw [hk]
      exact id
  | _ =>
    refine (h.way hown hsome).keep rfl ?_ ?_ <;> rw [hk] <;> simp [slept, atWake]

end

theorem LkInv.step (h : LkInv c) (ho : o ∈ lkNext t (c.pc t) c.shared)
    (hok : HoldersRelease c t o) : LkInv (c.move t o) := by
  have hs := lkNext_step ho
  obtain ⟨hlock, hwc, hchan⟩ := hs.guarded h rfl
  exact ⟨hlock, hwc, hs.owner h rfl hok, hchan, hs.seen h rfl, hs.way h rfl⟩

end Steps

/-- The runs in which locks are released by their holders. -/
def LkReach : Procs τ LkPc (Lk τ) → Prop := Reach lkNext HoldersRelease lkCreate

theorem LkReach.inv (h : LkReach c) : LkInv c :=
  Reach.invariant lkCreate_inv (fun _ _ _ hi ho hok => hi.step ho hok) h

/-- What a step of thread `t` does to a mutex, as its users see it. -/
inductive MutexStep (t : τ) : Option τ → Option τ → Prop
  | keep (owner : Option τ) : MutexStep t owner owner
  | acquire : MutexStep t none (some t)
  | release : MutexStep t (some t) none

/-- **The lock is a mutex**: it is taken when it is free and let go by its owner, each in one step,
and nothing else happens to it. -/
theorem LkReach.mutexStep (h : LkReach c) (ho : o ∈ lkNext t (c.pc t) c.shared) :
    MutexStep t c.shared.lkOwner o.2.lkOwner := by
  have howner := h.inv.owner t
  cases hk : c.pc t with
  | aTest hd w =>
    rw [hk] at ho
    cases lkNext_step ho with
    | aTake _ _ _ hfree =>
      rw [hfree]
      exact .acquire
    | _ => exact .keep _
  | rClear w =>
    rw [hk] at ho
    rw [howner.mpr (by rw [hk]; rfl)]
    cases lkNext_step ho
    exact .release
  | _ =>
    rw [hk] at ho
    cases lkNext_step ho <;> exact .keep _

/-- **Locks exclude and lose no wakeup.**  One thread at a time holds the lock, and it is
`lk_owner`.  If there is no owner and somebody sleeps on the channel, then a thread has been woken
and has not made its test again, or a `lock_release` has cleared `lk_owner` and is still to call
`wchan_wakeone`. -/
theorem lock_excludes_and_wakes {c : Procs τ LkPc (Lk τ)} (h : LkReach c) :
    (∀ t u, (c.pc t).holds = true → (c.pc u).holds = true → t = u) ∧
      (∀ t, (c.pc t).holds = true → c.shared.lkOwner = some t) ∧
      (c.shared.lkOwner = none → c.shared.lkWcThreads ≠ [] →
        (lkWoken c).Nonempty ∨ ∃ u, (c.pc u).atWake = true) := by
  have hinv := h.inv
  refine ⟨fun t u ht hu => ?_, fun t ht => ?_, fun hown hchan => ?_⟩
  · exact hinv.owner.unique (LkPc.owns_of_holds ht) (LkPc.owns_of_holds hu)
  · exact (hinv.owner t).mpr (LkPc.owns_of_holds ht)
  · obtain ⟨u, hu | hu⟩ := hinv.way hown (.inl hchan)
    · exact .inl ⟨u, hu⟩
    · exact .inr ⟨u, hu⟩

/-- The check that goes with `HoldersRelease`. -/
def holdersRelease (c : Procs τ LkPc (Lk τ)) (t : τ) (o : LkPc × Lk τ) : Bool :=
  !o.1.calledRelease || (c.pc t).holds

omit [DecidableEq τ] in
theorem holdersRelease_sound (c : Procs τ LkPc (Lk τ)) (t : τ) (o : LkPc × Lk τ)
    (h : holdersRelease c t o = true) : HoldersRelease c t o := by
  intro hr
  simpa [holdersRelease, hr] using h

/-- Thread `false` holds the lock, and thread `true` finds it taken.  Thread `true` has the
channel's lock when the owner is cleared; then it goes to sleep, and `lock_release` has not woken
anybody up yet. -/
def sleepDuringRelease : List (Bool × Nat) :=
  [(false, 0), (false, 0), (false, 0), (false, 0), (true, 0), (true, 0), (true, 0), (true, 0),
    (true, 0), (false, 1), (false, 0), (false, 0), (true, 0)]

theorem sleepDuringRelease_reach : ∃ c : Procs Bool LkPc (Lk Bool), LkReach c ∧
    c.pc = (fun t => if t then .asleep false else .rWake false) ∧ c.shared.lkOwner = none ∧
    c.shared.lkWcThreads = [true] := by
  refine ⟨(follow lkNext holdersRelease sleepDuringRelease lkCreate).get (by decide),
    reach_follow holdersRelease_sound _, ?_, ?_, ?_⟩
  · funext t
    cases t <;> decide
  · decide
  · decide

/-- The `lock_release` in the middle is needed. -/
theorem lock_excludes_and_wakes_during_release : ∃ c : Procs Bool LkPc (Lk Bool), LkReach c ∧
    c.shared.lkOwner = none ∧ c.shared.lkWcThreads ≠ [] ∧
    ((lkWoken c).Nonempty ∨ ∃ u, (c.pc u).atWake = true) := by
  obtain ⟨c, hreach, -, hown, hchan⟩ := sleepDuringRelease_reach
  have hne : c.shared.lkWcThreads ≠ [] := by simp [hchan]
  exact ⟨c, hreach, hown, hne, (lock_excludes_and_wakes hreach).2.2 hown hne⟩

/-- **A thread can sleep on a free lock with nobody woken**: the `lock_release` that has cleared
`lk_owner` waits for the channel's lock. -/
theorem sleeper_on_free_lock_and_nobody_woken :
    ¬ ∀ c : Procs Bool LkPc (Lk Bool), LkReach c → c.shared.lkOwner = none →
      c.shared.lkWcThreads ≠ [] → (lkWoken c).Nonempty := by
  intro hall
  obtain ⟨c, hreach, hpc, hown, hchan⟩ := sleepDuringRelease_reach
  obtain ⟨u, hu⟩ := hall c hreach hown (by simp [hchan])
  rw [lkWoken, offChannel, Set.mem_ofPred_eq, hpc, hchan] at hu
  cases u with
  | false => simp [LkPc.slept] at hu
  | true => simp at hu

/-! ## 5. Who may release -/

/-- **A held lock stays held.**  If locks are released by their holders then whoever holds the
lock is `lk_owner`, and it is the owner that clears `lk_owner`.  A thread that is not the owner
does not get past the assertion of `cv_signal` and `cv_broadcast`, and leaves everything as it is
there. -/
theorem held_lock_stays_held {c : Procs τ LkPc (Lk τ)} (h : LkReach c) :
    (∀ t, (c.pc t).holds = true → c.shared.lkOwner = some t) ∧
      (∀ t w, c.pc t = .rLock w ∨ c.pc t = .rClear w → c.shared.lkOwner = some t) ∧
      ∀ t held all, c.pc t = .sAssert held all → c.shared.lkOwner ≠ some t →
        (∀ o ∈ lkNext t (c.pc t) c.shared, o = (.sStopped held, c.shared)) ∧
          ∀ s, lkNext t (.sStopped held) s = [] := by
  have howner := h.inv.owner
  refine ⟨fun t ht => ?_, fun t w hr => ?_, fun t held all hk hne => ⟨fun o ho => ?_, fun s => rfl⟩⟩
  · exact (howner t).mpr (LkPc.owns_of_holds ht)
  · refine (howner t).mpr ?_
    rcases hr with hr | hr <;> rw [hr] <;> rfl
  · rw [hk] at ho
    cases lkNext_step ho with
    | sAssert _ _ _ hown => exact absurd hown hne
    | sStop => rfl

/-- Thread `false` takes the lock. -/
def takeLock : List (Bool × Nat) := [(false, 0), (false, 0), (false, 0), (false, 0)]

/-- Thread `false` takes the lock, and is the owner. -/
theorem held_lock_stays_held_taken : ∃ c : Procs Bool LkPc (Lk Bool), LkReach c ∧
    (c.pc false).holds = true ∧ c.shared.lkOwner = some false := by
  have hreach : LkReach ((follow lkNext holdersRelease takeLock lkCreate).get (by decide)) :=
    reach_follow holdersRelease_sound _
  exact ⟨_, hreach, by decide, (held_lock_stays_held hreach).1 false (by decide)⟩

/-- Thread `false` takes the lock and releases it again. -/
theorem mutexStep_release : ∃ c : Procs Bool LkPc (Lk Bool), LkReach c ∧
    c.shared.lkOwner = some false ∧ ∃ o ∈ lkNext false (c.pc false) c.shared,
      o.2.lkOwner = none ∧ MutexStep false c.shared.lkOwner o.2.lkOwner := by
  have hreach : LkReach ((follow lkNext holdersRelease (takeLock ++ [(false, 1), (false, 0)])
      lkCreate).get (by decide)) := reach_follow holdersRelease_sound _
  exact ⟨_, hreach, by decide, _, .head _, by decide, hreach.mutexStep (.head _)⟩

/-- **Anybody can release a held lock**: thread `true`, which has never called `lock_acquire`,
clears `lk_owner` while thread `false` holds the lock. -/
theorem foreign_release_clears_owner :
    ¬ ∀ c : Procs Bool LkPc (Lk Bool), Reach lkNext (fun _ _ _ => True) lkCreate c →
      ∀ t, (c.pc t).holds = true → c.shared.lkOwner = some t := by
  intro hall
  have hreach : Reach lkNext (fun _ _ _ => True) lkCreate ((follow lkNext (fun _ _ _ => true)
      (takeLock ++ [(true, 1), (true, 0), (true, 0)]) lkCreate).get (by decide)) :=
    reach_follow (fun _ _ _ _ => trivial) _
  exact absurd (hall _ hreach false (by decide)) (by decide)

/-! ## 6. Condition variables -/

/-- `cv_signal` and `cv_broadcast` do not get to their wakeup while a thread is in the gap of its
`cv_wait`: after it has given up the lock, and before it has the lock of the channel. -/
def SignalsInTime (c : Procs τ LkPc (Lk τ)) (t : τ) (_ : LkPc × Lk τ) : Prop :=
  ∀ held all, c.pc t = .sWake held all → ∀ u, (c.pc u).inGap = false

/-- The thread has given up the lock in `cv_wait`, and is asleep on the channel or about to be. -/
def Waits (c : Procs τ LkPc (Lk τ)) (t : τ) : Prop :=
  (c.pc t).inGap = true ∨ (c.pc t).hasCvWc = true ∨ t ∈ c.shared.cvWcThreads

/-- The thread has been taken off the channel. -/
def CvWoken (c : Procs τ LkPc (Lk τ)) (t : τ) : Prop :=
  c.pc t = .wAsleep ∧ t ∉ c.shared.cvWcThreads

/-- What holds in every state, if signals are in time. -/
structure CvInv (c : Procs τ LkPc (Lk τ)) : Prop where
  wcLock : Guarded Lk.cvWcLock LkPc.hasCvWc c
  chan : Channel Lk.cvWcThreads LkPc.isWaiting c
  /-- There has been no broadcast since a thread that waits gave up the lock. -/
  fresh : ∀ t, Waits c t → c.shared.gaveUp t = c.shared.broadcasts

omit [DecidableEq τ] in
theorem lkCreate_cvInv : CvInv (lkCreate : Procs τ LkPc (Lk τ)) where
  wcLock _ := ⟨nofun, nofun⟩
  chan := ⟨nodup_nil, nofun⟩
  fresh _ _ := rfl

section CvSteps

variable {c : Procs τ LkPc (Lk τ)} {t : τ} {k : LkPc} {o : LkPc × Lk τ}

theorem LkStep.cvGuarded (h : CvInv c) (hk : c.pc t = k) (hs : LkStep t k c.shared o) :
    Guarded Lk.cvWcLock hasCvWc (c.move t o) ∧
      Channel Lk.cvWcThreads isWaiting (c.move t o) := by
  refine ⟨h.wcLock.step ?_, h.chan.step ?_ ?_⟩
  · cases hs <;> simp_all [hasCvWc]
  · cases hs <;> simp_all [isWaiting]
  · cases hs <;> simp [isWaiting, tail_sublist]

omit [DecidableEq τ] in
theorem CvInv.waits_iff (h : CvInv c) (hfree : c.shared.cvWcLock = none)
    (hgap : ∀ u, (c.pc u).inGap = false) (u : τ) : Waits c u ↔ u ∈ c.shared.cvWcThreads := by
  simp [Waits, hgap u, h.wcLock.not_in hfree u]

variable {u : τ}

/-- A thread that waits after a step either waited before, or has just given up the lock. -/
theorem LkStep.waits (hk : c.pc t = k) (hs : LkStep t k c.shared o) (hu : Waits (c.move t o) u) :
    Waits c u ∨ u = t ∧ k = .rClear true := by
  rcases eq_or_ne u t with rfl | hne
  · unfold Waits at hu ⊢
    rw [move_pc_self, move_shared] at hu
    rw [hk]
    cases hs with
    | rClear w s => cases w <;> simp_all [inGap, hasCvWc]
    | rWake w s hfree => cases w <;> simp_all [inGap, hasCvWc]
    | sSignal hd s hfree =>
      simp only [inGap, hasCvWc, Bool.false_eq_true, false_or] at hu ⊢
      exact .inl (mem_of_mem_tail hu)
    | _ => simp_all [inGap, hasCvWc]
  · refine .inl ?_
    unfold Waits at hu ⊢
    rw [move_pc_of_ne hne, move_shared] at hu
    refine hu.imp_right (Or.imp_right fun hmem => ?_)
    cases hs with
    | wSleep s => simpa [hne] using hmem
    | sSignal hd s hfree => exact mem_of_mem_tail hmem
    | sBroadcast hd s hfree => cases hmem
    | _ => exact hmem

theorem CvInv.not_waits_of_broadcast (h : CvInv c) (hfree : c.shared.cvWcLock = none)
    (hgap : ∀ u, (c.pc u).inGap = false) (hin : o.1.inGap = false) (hwc : o.1.hasCvWc = false)
    (hchan : o.2.cvWcThreads = []) (u : τ) : ¬ Waits (c.move t o) u := by
  unfold Waits
  rw [move_shared, hchan]
  rcases eq_or_ne u t with rfl | hne
  · simp [hin, hwc]
  · simp [move_pc_of_ne hne, hgap u, h.wcLock.not_in hfree u]

/-- **No broadcast since.** -/
theorem LkStep.fresh (h : CvInv c) (hk : c.pc t = k) (hs : LkStep t k c.shared o)
    (hok : SignalsInTime c t o) (u : τ) (hu : Waits (c.move t o) u) :
    o.2.gaveUp u = o.2.broadcasts := by
  have hold := hs.waits hk hu
  cases hs with
  | rClear w s =>
    rcases hold with hold | ⟨rfl, hw⟩
    · have hfresh := h.fresh u hold
      rcases eq_or_ne u t with rfl | hne
      · cases w
        · exact hfresh
        · exact update_self u _ _
      · cases w
        · exact hfresh
        · exact (update_of_ne hne _ _).trans hfresh
    · cases hw
      exact update_self u _ _
  | sBroadcast hd s hfree =>
    exact absurd hu (h.not_waits_of_broadcast hfree (hok hd true hk) rfl rfl rfl u)
  | _ =>
    rcases hold with hold | ⟨-, hw⟩
    · exact h.fresh u hold
    · cases hw

theorem CvInv.step (h : CvInv c) (ho : o ∈ lkNext t (c.pc t) c.shared)
    (hok : SignalsInTime c t o) : CvInv (c.move t o) := by
  have hs := lkNext_step ho
  obtain ⟨hwc, hchan⟩ := hs.cvGuarded h rfl
  exact ⟨hwc, hchan, hs.fresh h rfl hok⟩

/-- A thread that was on the channel and is not any more has been woken. -/
theorem CvInv.woken (h : CvInv c) (hu : u ∈ c.shared.cvWcThreads) (hk : c.pc t ≠ .wAsleep)
    (hoff : u ∉ o.2.cvWcThreads) : CvWoken (c.move t o) u := by
  have hsl := h.chan.asleep u hu
  have hpc : c.pc u = .wAsleep := by
    cases hp : c.pc u with
    | wAsleep => rfl
    | _ =>
      rw [hp] at hsl
      cases hsl
  have hne : u ≠ t := by
    rintro rfl
    exact hk hpc
  exact ⟨by rw [move_pc_of_ne hne, hpc], hoff⟩

end CvSteps

/-- The runs in which signals are in time. -/
def CvReach : Procs τ LkPc (Lk τ) → Prop := Reach lkNext SignalsInTime lkCreate

/-- **Condition variables lose no signal, if the signals are in time.**  There has been no
broadcast since a thread that waits gave up the lock; a broadcast wakes up everybody who waits,
and a signal the only thread that waits. -/
theorem cv_loses_no_signal {c : Procs τ LkPc (Lk τ)} (h : CvReach c) :
    (∀ t, Waits c t → c.shared.gaveUp t = c.shared.broadcasts) ∧
      ∀ b held o, o ∈ lkNext b (c.pc b) c.shared → SignalsInTime c b o →
        (c.pc b = .sWake held true → ∀ t, Waits c t → CvWoken (c.move b o) t) ∧
        (c.pc b = .sWake held false → ∀ t, (∀ u, Waits c u ↔ u = t) → CvWoken (c.move b o) t) := by
  have hinv : CvInv c := Reach.invariant lkCreate_cvInv (fun _ _ _ hi ho hok => hi.step ho hok) h
  refine ⟨hinv.fresh, fun b held o ho hok => ⟨fun hk t ht => ?_, fun hk t ht => ?_⟩⟩
  · have hawake : c.pc b ≠ .wAsleep := by
      rw [hk]
      exact nofun
    have hs := lkNext_step ho
    have hgap := hok held true hk
    rw [hk] at hs
    cases hs with
    | sBroadcast _ _ hfree =>
      exact hinv.woken ((hinv.waits_iff hfree hgap t).mp ht) hawake not_mem_nil
  · have hawake : c.pc b ≠ .wAsleep := by
      rw [hk]
      exact nofun
    have hs := lkNext_step ho
    have hgap := hok held false hk
    rw [hk] at hs
    cases hs with
    | sSignal _ _ hfree =>
      have hmem : ∀ u, u ∈ c.shared.cvWcThreads ↔ u = t := fun u =>
        (hinv.waits_iff hfree hgap u).symm.trans (ht u)
      refine hinv.woken ((hmem t).mpr rfl) hawake fun htail => ?_
      -- a second thread on the channel would be `t` again
      have hnodup := hinv.chan.nodup
      cases hchan : c.shared.cvWcThreads with
      | nil =>
        rw [hchan] at htail
        cases htail
      | cons u rest =>
        rw [hchan] at htail hnodup hmem
        have hut : u = t := (hmem u).mp mem_cons_self
        exact (nodup_cons.mp hnodup).1 (hut ▸ htail)

/-- The check that goes with `SignalsInTime`, for two threads. -/
def signalsInTime (c : Procs Bool LkPc (Lk Bool)) (t : Bool) (_ : LkPc × Lk Bool) : Bool :=
  match c.pc t with
  | .sWake _ _ => !(c.pc false).inGap && !(c.pc true).inGap
  | _ => true

theorem signalsInTime_sound (c : Procs Bool LkPc (Lk Bool)) (t : Bool) (o : LkPc × Lk Bool)
    (h : signalsInTime c t o = true) : SignalsInTime c t o := by
  intro held all hk u
  simp only [signalsInTime, hk, Bool.and_eq_true, Bool.not_eq_true'] at h
  cases u with
  | false => exact h.1
  | true => exact h.2

/-- Thread `false` takes the lock and gives it up in `cv_wait`. -/
def giveUpLock : List (Bool × Nat) :=
  takeLock ++ [(false, 2), (false, 0), (false, 0), (false, 0), (false, 0)]

/-- Thread `true` takes the lock and calls `cv_broadcast`, up to the wakeup. -/
def callBroadcast : List (Bool × Nat) :=
  [(true, 0), (true, 0), (true, 0), (true, 0), (true, 4), (true, 0)]

/-- A thread goes to sleep in `cv_wait`, and another one takes the lock and wakes it up. -/
theorem cv_loses_no_signal_in_time : ∃ c : Procs Bool LkPc (Lk Bool), CvReach c ∧
    Waits c false ∧ ∃ o ∈ lkNext true (c.pc true) c.shared, CvWoken (c.move true o) false := by
  have hreach : CvReach ((follow lkNext signalsInTime
      (giveUpLock ++ [(false, 0), (false, 0)] ++ callBroadcast) lkCreate).get (by decide)) :=
    reach_follow signalsInTime_sound _
  have hwaits : Waits ((follow lkNext signalsInTime
      (giveUpLock ++ [(false, 0), (false, 0)] ++ callBroadcast) lkCreate).get (by decide)) false :=
    .inr (.inr (by decide))
  refine ⟨_, hreach, hwaits, _, mem_of_getElem? (i := 0) rfl, ?_⟩
  exact ((cv_loses_no_signal hreach).2 true true _ (mem_of_getElem? (i := 0) rfl)
    (signalsInTime_sound _ _ _ (by decide))).1 (by decide) false hwaits

/-- **A broadcast can be lost**: thread `true` takes the lock and broadcasts while thread `false`
has given it up in `cv_wait` and is not on the channel yet.  Then thread `false` goes to sleep. -/
theorem broadcast_in_gap_lost : ¬ ∀ c : Procs Bool LkPc (Lk Bool), LkReach c →
      ∀ t ∈ c.shared.cvWcThreads, c.shared.gaveUp t = c.shared.broadcasts := by
  intro hall
  have hreach : LkReach ((follow lkNext holdersRelease
      (giveUpLock ++ callBroadcast ++ [(true, 0), (false, 0), (false, 0)]) lkCreate).get
        (by decide)) := reach_follow holdersRelease_sound _
  exact absurd (hall _ hreach false (by decide)) (by decide)

end Os161
