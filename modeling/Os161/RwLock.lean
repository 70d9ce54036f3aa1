/-
# `kern/thread/synch.c`: reader-writer locks

`rw_acquire` and `rw_release` of one `struct rwlock` and one `rw_lock`, in both modes.  The lock
is a mutex here, which is what a lock is to its users (`LkReach.mutexStep`); the two wait channels
are as they are in the code, with their spinlocks and their lists.

A reader counts itself in and out under `rw_lock` and does not have it while it reads.  A writer
keeps `rw_lock` from the end of its `rw_acquire` to the end of its `rw_release`, so there are
never two of them, and no reader can come in while there is one.  But whether there ARE readers is
tested once: a writer that was woken does not look again when it has got `rw_lock` back, and
readers may have come in since.
-/
import Os161.SleepLock

namespace Os161

/-! ## 1. The code -/

/-- Where a thread is. -/
inductive RwPc
  | outside
  /-- Between its `rw_acquire(READ)` and its `rw_release(READ)`. -/
  | reading
  /-- Between its `rw_acquire(WRITE)` and its `rw_release(WRITE)`. -/
  | writing
  /-- `rw_acquire(READ)`, at the first `lock_acquire`. -/
  | raLock
  /-- `rw_acquire(READ)`, at the test, with `rw_lock`. -/
  | raTest
  /-- `rw_acquire(READ)`, at `wchan_lock`, with `rw_lock`. -/
  | raBridge
  /-- `rw_acquire(READ)`, at the `lock_release` before the sleep, with both locks. -/
  | raUnlock
  /-- `rw_acquire(READ)`, at `wchan_sleep`. -/
  | raSleep
  /-- `rw_acquire(READ)`, in `wchan_sleep`. -/
  | raAsleep
  /-- `rw_acquire(READ)`, at the `lock_acquire` after the sleep. -/
  | raRelock
  /-- `rw_acquire(READ)`, at `rw->count++`. -/
  | raInc
  /-- `rw_acquire(READ)`, at the last `lock_release`. -/
  | raDone
  /-- `rw_acquire(WRITE)`, at the first `lock_acquire`. -/
  | waLock
  /-- `rw_acquire(WRITE)`, at the test, with `rw_lock`. -/
  | waTest
  /-- `rw_acquire(WRITE)`, at `wchan_lock`, with `rw_lock`. -/
  | waBridge
  /-- `rw_acquire(WRITE)`, at `lock_release`, with both locks. -/
  | waUnlock
  /-- `rw_acquire(WRITE)`, at `wchan_sleep`. -/
  | waSleep
  /-- `rw_acquire(WRITE)`, in `wchan_sleep`. -/
  | waAsleep
  /-- `rw_acquire(WRITE)`, at the `lock_acquire` after the sleep. -/
  | waRelock
  /-- `rw_release(READ)`, at `lock_acquire`. -/
  | rrLock
  /-- `rw_release(READ)`, at `rw->count--`. -/
  | rrDec
  /-- `rw_release(READ)`, at the test of the count. -/
  | rrTest
  /-- `rw_release(READ)`, at `wchan_wakeone`. -/
  | rrWake
  /-- `rw_release(READ)`, at `lock_release`. -/
  | rrDone
  /-- `rw_release(WRITE)`, at the test. -/
  | wrTest
  /-- `rw_release(WRITE)`, at `wchan_wakeall` of the readers or `wchan_wakeone` of the writers. -/
  | wrWake (readers : Bool)
  /-- `rw_release(WRITE)`, at `lock_release`. -/
  | wrDone
  deriving DecidableEq, Repr

/-- `struct rwlock` and the owner of `rw_lock`.  The count is at most the number of threads, so
that it stays in the range of an `int`. -/
structure Rw (τ : Type) where
  owner : Option τ
  count : Int
  rdLock : Option τ
  rdThreads : List τ
  wrLock : Option τ
  wrThreads : List τ
  deriving DecidableEq

variable {τ : Type} [DecidableEq τ]

/-- What a thread can do next.  Acquires and releases are paired in the same mode. -/
def rwNext (t : τ) : RwPc → Rw τ → List (RwPc × Rw τ)
  | .outside, s => [(.raLock, s), (.waLock, s)]
  | .reading, s => [(.rrLock, s)]
  | .writing, s => [(.wrTest, s)]
  | .raLock, s => if s.owner = none then [(.raTest, { s with owner := some t })] else []
  | .raTest, s =>
    if s.wrThreads.length > s.rdThreads.length then [(.raBridge, s)] else [(.raInc, s)]
  | .raBridge, s => if s.rdLock = none then [(.raUnlock, { s with rdLock := some t })] else []
  | .raUnlock, s => [(.raSleep, { s with owner := none })]
  | .raSleep, s => [(.raAsleep, { s with rdLock := none, rdThreads := s.rdThreads ++ [t] })]
  | .raAsleep, s => if t ∈ s.rdThreads then [] else [(.raRelock, s)]
  | .raRelock, s => if s.owner = none then [(.raInc, { s with owner := some t })] else []
  | .raInc, s => [(.raDone, { s with count := s.count + 1 })]
  | .raDone, s => [(.reading, { s with owner := none })]
  | .waLock, s => if s.owner = none then [(.waTest, { s with owner := some t })] else []
  | .waTest, s => if s.count ≠ 0 then [(.waBridge, s)] else [(.writing, s)]
  | .waBridge, s => if s.wrLock = none then [(.waUnlock, { s with wrLock := some t })] else []
  | .waUnlock, s => [(.waSleep, { s with owner := none })]
  | .waSleep, s => [(.waAsleep, { s with wrLock := none, wrThreads := s.wrThreads ++ [t] })]
  | .waAsleep, s => if t ∈ s.wrThreads then [] else [(.waRelock, s)]
  -- there is no second test
  | .waRelock, s => if s.owner = none then [(.writing, { s with owner := some t })] else []
  | .rrLock, s => if s.owner = none then [(.rrDec, { s with owner := some t })] else []
  | .rrDec, s => [(.rrTest, { s with count := s.count - 1 })]
  | .rrTest, s => if s.count = 0 then [(.rrWake, s)] else [(.rrDone, s)]
  | .rrWake, s =>
    if s.wrLock = none then [(.rrDone, { s with wrThreads := s.wrThreads.tail })] else []
  | .rrDone, s => [(.outside, { s with owner := none })]
  | .wrTest, s => [(.wrWake (decide (s.wrThreads.length < s.rdThreads.length)), s)]
  | .wrWake true, s => if s.rdLock = none then [(.wrDone, { s with rdThreads := [] })] else []
  | .wrWake false, s =>
    if s.wrLock = none then [(.wrDone, { s with wrThreads := s.wrThreads.tail })] else []
  | .wrDone, s => [(.outside, { s with owner := none })]

/-- A lock that `rw_create` has made, and no thread using it yet. -/
def rwCreate : Procs τ RwPc (Rw τ) where
  pc _ := .outside
  shared :=
    { owner := none, count := 0, rdLock := none, rdThreads := [], wrLock := none, wrThreads := [] }

/-! ## 2. Control points -/

namespace RwPc

/-- The thread has `rw_lock`. -/
def hasLock : RwPc → Bool
  | raTest | raBridge | raUnlock | raInc | raDone => true
  | waTest | waBridge | waUnlock => true
  | rrDec | rrTest | rrWake | rrDone => true
  | writing | wrTest | wrWake _ | wrDone => true
  | _ => false

/-- The thread has counted itself in, and not out yet. -/
def counted : RwPc → Bool
  | raDone | reading | rrLock | rrDec => true
  | _ => false

/-- The thread is a writer, up to the `lock_release` in its `rw_release`. -/
def writes : RwPc → Bool
  | writing | wrTest | wrWake _ | wrDone => true
  | _ => false

theorem hasLock_of_writes {k : RwPc} (h : k.writes = true) : k.hasLock = true := by
  cases k with
  | writing => rfl
  | wrTest => rfl
  | wrWake => rfl
  | wrDone => rfl
  | _ => cases h

end RwPc

/-! ## 3. The steps -/

variable {t : τ} {k : RwPc} {s : Rw τ} {o : RwPc × Rw τ} {c : Procs τ RwPc (Rw τ)}

section

variable (ho : o ∈ rwNext t k s)

include ho

theorem rwNext_owner : (o.2.owner = s.owner ∧ o.1.hasLock = k.hasLock) ∨
      (s.owner = none ∧ o.2.owner = some t ∧ o.1.hasLock = true) ∨
      (k.hasLock = true ∧ o.2.owner = none ∧ o.1.hasLock = false) := by
  fun_cases rwNext t k s with
  | case1 =>
    rcases List.mem_pair.mp ho with rfl | rfl <;> exact .inl ⟨rfl, rfl⟩
  | _ => simp_all [rwNext, RwPc.hasLock]

theorem rwNext_count : o.2.count + k.counted.toNat = s.count + o.1.counted.toNat := by
  fun_cases rwNext t k s with
  | case1 =>
    rcases List.mem_pair.mp ho with rfl | rfl <;> rfl
  | _ => simp_all [rwNext, RwPc.counted]

theorem rwNext_count_of_not_hasLock (hlock : k.hasLock = false) : o.2.count = s.count := by
  fun_cases rwNext t k s with
  | case1 =>
    rcases List.mem_pair.mp ho with rfl | rfl <;> rfl
  | _ => simp_all [rwNext, RwPc.hasLock]

/-- **How a thread becomes a writer**: it has found the count at 0, or it has been woken. -/
theorem rwNext_writes (hw : o.1.writes = true) :
    (k.writes = true ∧ o.2.count = s.count) ∨ (k = .waTest ∧ s.count = 0 ∧ o.2.count = 0) ∨
      (k = .waRelock ∧ o.2.count = s.count) := by
  fun_cases rwNext t k s with
  | case1 =>
    rcases List.mem_pair.mp ho with rfl | rfl <;> cases hw
  | _ => simp_all [rwNext, RwPc.writes]

end

/-! ## 4. Exclusion -/

open Procs

/-- What holds in every state. -/
structure RwInv (c : Procs τ RwPc (Rw τ)) : Prop where
  lock : Guarded Rw.owner RwPc.hasLock c
  few : Few RwPc.outside c
  count : c.shared.count = c.crowd RwPc.counted

omit [DecidableEq τ] in
theorem rwCreate_inv : RwInv (rwCreate : Procs τ RwPc (Rw τ)) where
  lock _ := ⟨nofun, nofun⟩
  few := by simp [Few, rwCreate]
  count := by simp [crowd, rwCreate, RwPc.counted]

theorem RwInv.step (h : RwInv c) (ho : o ∈ rwNext t (c.pc t) c.shared) : RwInv (c.move t o) where
  lock := h.lock.step (rwNext_owner ho)
  few := h.few.move t o
  count := by
    have hcrowd := crowd_move (P := RwPc.counted) t o (h.few.finite rfl)
    have hcount := rwNext_count ho
    have hold := h.count
    rw [move_shared]
    omega

/-- The runs of `rw_acquire` and `rw_release`, in any interleaving. -/
def RwReach : Procs τ RwPc (Rw τ) → Prop := Reach rwNext (fun _ _ _ => True) rwCreate

theorem RwReach.inv (h : RwReach c) : RwInv c :=
  Reach.invariant rwCreate_inv (fun _ _ _ hi ho _ => hi.step ho) h

/-- When a writer that was woken gets `rw_lock` back, there are no readers. -/
def WritersFindNoReaders (c : Procs τ RwPc (Rw τ)) (t : τ) (_ : RwPc × Rw τ) : Prop :=
  c.pc t = .waRelock → c.shared.count = 0

/-- The runs in which no readers come in between a writer's wakeup and its return. -/
def RwCalm : Procs τ RwPc (Rw τ) → Prop := Reach rwNext WritersFindNoReaders rwCreate

theorem RwCalm.reach (h : RwCalm c) : RwReach c :=
  Reach.mono (fun _ _ _ _ => trivial) h

/-- **While there is a writer the count is 0.** -/
theorem RwCalm.count_eq_zero (h : RwCalm c) : ∀ u, (c.pc u).writes = true → c.shared.count = 0 := by
  induction h with
  | refl => exact nofun
  | @step c hc t o ho hok ih =>
    have hinv := RwCalm.reach hc |>.inv
    intro u hu
    rcases eq_or_ne u t with rfl | hne
    · rw [move_pc_self] at hu
      rw [move_shared]
      rcases rwNext_writes ho hu with ⟨hw, hcount⟩ | ⟨-, -, hcount⟩ | ⟨hk, hcount⟩
      · rw [hcount]
        exact ih u hw
      · exact hcount
      · rw [hcount]
        exact hok hk
    · -- the writer has `rw_lock`, so that nobody else can count
      rw [move_pc_of_ne hne] at hu
      have hout : (c.pc t).hasLock = false := by
        by_contra hin
        exact hne (hinv.lock.unique (RwPc.hasLock_of_writes hu) (Bool.eq_true_of_not_eq_false hin))
      rw [move_shared, rwNext_count_of_not_hasLock ho hout]
      exact ih u hu

/-- **Readers and writers exclude each other, if no readers come in between a writer's wakeup and
its return.**  Two writers exclude each other in any case. -/
theorem rw_excludes : (∀ c : Procs τ RwPc (Rw τ), RwReach c →
      ∀ t u, c.pc t = .writing → c.pc u = .writing → t = u) ∧
    (∀ c : Procs τ RwPc (Rw τ), RwCalm c → ∀ w, c.pc w = .writing → ∀ t, c.pc t ≠ .reading) := by
  constructor
  · intro c h t u ht hu
    exact h.inv.lock.unique (by rw [ht]; rfl) (by rw [hu]; rfl)
  · intro c h w hw t ht
    have hinv := h.reach.inv
    have hzero := h.count_eq_zero w (by rw [hw]; rfl)
    have hcrowd : c.crowd RwPc.counted = 0 := by
      have hcount := hinv.count
      omega
    have hempty := (Set.ncard_eq_zero (hinv.few.finite rfl)).mp hcrowd
    have hmem : t ∈ {u | (c.pc u).counted = true} := by
      rw [Set.mem_ofPred_eq, ht]
      rfl
    rw [hempty] at hmem
    exact hmem

/-- Thread `false` reads, thread `true` finds it reading and goes to sleep, and thread `false`
wakes it up when it has read. -/
def writerWoken : List (Bool × Nat) :=
  [(false, 0), (false, 0), (false, 0), (false, 0), (false, 0), (true, 1), (true, 0), (true, 0),
    (true, 0), (true, 0), (true, 0), (false, 0), (false, 0), (false, 0), (false, 0), (false, 0),
    (false, 0)]

/-- The check that goes with `WritersFindNoReaders`. -/
def writersFindNoReaders (c : Procs τ RwPc (Rw τ)) (t : τ) (_ : RwPc × Rw τ) : Bool :=
  c.pc t != .waRelock || c.shared.count == 0

omit [DecidableEq τ] in
theorem writersFindNoReaders_sound (c : Procs τ RwPc (Rw τ)) (t : τ) (o : RwPc × Rw τ)
    (h : writersFindNoReaders c t o = true) : WritersFindNoReaders c t o := by
  intro hk
  simpa [writersFindNoReaders, hk] using h

/-- The writer gets `rw_lock` back at once, and writes. -/
theorem rw_excludes_woken_writer : ∃ c : Procs Bool RwPc (Rw Bool), RwCalm c ∧
    c.pc true = .writing ∧ (∀ t, c.pc t ≠ .reading) ∧ ∀ t, c.pc t = .writing → t = true := by
  have hcalm : RwCalm ((follow rwNext writersFindNoReaders
      (writerWoken ++ [(true, 0), (true, 0)]) rwCreate).get (by decide)) :=
    reach_follow writersFindNoReaders_sound _
  have hw : ((follow rwNext writersFindNoReaders
      (writerWoken ++ [(true, 0), (true, 0)]) rwCreate).get (by decide)).pc true = .writing := by
    decide
  exact ⟨_, hcalm, hw, rw_excludes.2 _ hcalm true hw,
    fun t ht => rw_excludes.1 _ hcalm.reach t true ht hw⟩

/-- **A writer can come in with a reader there**: thread `false` reads again before the writer
that it has woken gets `rw_lock` back. -/
theorem woken_writer_meets_reader : ¬ ∀ c : Procs Bool RwPc (Rw Bool), RwReach c →
      ∀ w, c.pc w = .writing → ∀ t, c.pc t ≠ .reading := by
  intro hall
  have hreach : RwReach ((follow rwNext (fun _ _ _ => true) (writerWoken ++
      [(false, 0), (false, 0), (false, 0), (false, 0), (false, 0), (true, 0), (true, 0)])
        rwCreate).get (by decide)) := reach_follow (fun _ _ _ _ => trivial) _
  exact hall _ hreach true (by decide) false (by decide)

end Os161
