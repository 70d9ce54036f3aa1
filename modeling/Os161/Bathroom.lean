/-
# `kern/synchprobs/bathroom.c`: the bathroom problem

Boys and girls share a bathroom for three.  A thread looks, with `br_lock`, whether it can go in,
waits on its condition variable if not, RELEASES the lock, and only then does its `P` on `br_sem`
and says in `service_mode` who is inside.  So what it has seen need not be true any more when it
goes in, and between a look and a `P` there is nothing to keep the others out.

The semaphore does keep the number of people at three.  Whether a boy and a girl can be inside
together has a simple answer: they can as soon as there is a boy and there is a girl
(`bathroom_exclusion_iff`).

`boy` and `girl` are the same code with the words exchanged, except that `boy` looks for an empty
bathroom before it takes the lock again, and `girl` after.  Every operation on the lock, the
semaphore and the condition variables is a step, and so is what is done to the shared variables
between two of them.  `cv_wait` lets go of the lock before it is on the channel.
-/
import Os161.Lib.Interleave

namespace Os161

open Function List Procs

/-! ## 1. The code -/

inductive Person
  | boy | girl
  deriving DecidableEq, Repr

/-- `service_mode`: `REST`, or one of the two. -/
inductive ServiceMode
  | rest | serves (p : Person)
  deriving DecidableEq, Repr

def Person.other : Person → Person
  | boy => girl
  | girl => boy

/-- Where a person is. -/
inductive BathPc
  /-- at the first `lock_acquire` -/
  | start
  /-- at the test, with `br_lock` -/
  | test
  /-- in `cv_wait`, at `lock_release` -/
  | cvRelease
  /-- in `cv_wait`, at `wchan_lock` and `wchan_sleep` -/
  | cvSleep
  /-- in `cv_wait`, asleep -/
  | asleep
  /-- in `cv_wait`, at `lock_acquire` -/
  | cvAcquire
  /-- behind `cv_wait`, with `br_lock` -/
  | woken
  /-- at the first `lock_release` -/
  | unlock
  /-- at `P(br_sem)` -/
  | atP
  /-- inside, at the store to `service_mode` -/
  | setMode
  /-- inside, at `V(br_sem)` -/
  | atV
  /-- at the test for an empty bathroom -/
  | testEmpty
  /-- at the second `lock_acquire` -/
  | lockAgain
  /-- at the comparison of those waiting, with `br_lock` -/
  | wake
  /-- at the last `lock_release` -/
  | unlockAgain
  /-- at `V(donesem)` -/
  | atDone
  | done
  deriving DecidableEq, Repr

/-- The variables that all people share. -/
structure Bath (τ : Type) where
  brSem : Nat
  brLock : Option τ
  cv : Person → List τ
  serviceMode : ServiceMode
  waiting : Person → Int
  donesem : Nat

variable {τ : Type} [DecidableEq τ]

/-- `br_sem->sem_count == 0 || service_mode == GIRL || boy_waiting < girl_waiting`. -/
def Bath.MustWait (s : Bath τ) (p : Person) : Prop :=
  s.brSem = 0 ∨ s.serviceMode = .serves p.other ∨ s.waiting p < s.waiting p.other

instance (s : Bath τ) (p : Person) : Decidable (s.MustWait p) :=
  inferInstanceAs (Decidable (_ ∨ _ ∨ _))

/-- What a person can do next. -/
def bathNext (kind : τ → Person) (t : τ) : BathPc → Bath τ → List (BathPc × Bath τ)
  | .start, s => if s.brLock = none then [(.test, { s with brLock := some t })] else []
  | .test, s =>
    if s.MustWait (kind t) then
      [(.cvRelease, { s with waiting := update s.waiting (kind t) (s.waiting (kind t) + 1) })]
    else [(.unlock, s)]
  | .cvRelease, s => [(.cvSleep, { s with brLock := none })]
  | .cvSleep, s =>
    [(.asleep, { s with cv := update s.cv (kind t) (s.cv (kind t) ++ [t]) })]
  | .asleep, s => if t ∈ s.cv (kind t) then [] else [(.cvAcquire, s)]
  | .cvAcquire, s => if s.brLock = none then [(.woken, { s with brLock := some t })] else []
  | .woken, s =>
    [(.unlock, { s with waiting := update s.waiting (kind t) (s.waiting (kind t) - 1) })]
  | .unlock, s => [(.atP, { s with brLock := none })]
  | .atP, s => if s.brSem = 0 then [] else [(.setMode, { s with brSem := s.brSem - 1 })]
  | .setMode, s => [(.atV, { s with serviceMode := .serves (kind t) })]
  | .atV, s =>
    [(match kind t with
      | .boy => .testEmpty
      | .girl => .lockAgain, { s with brSem := s.brSem + 1 })]
  | .testEmpty, s =>
    [(match kind t with
      | .boy => .lockAgain
      | .girl => .wake,
      if s.brSem = 3 then { s with serviceMode := .rest } else s)]
  | .lockAgain, s =>
    if s.brLock = none then
      [(match kind t with
        | .boy => .wake
        | .girl => .testEmpty, { s with brLock := some t })]
    else []
  | .wake, s =>
    if s.waiting (kind t).other < s.waiting (kind t) then
      [(.unlockAgain, { s with cv := update s.cv (kind t) [] })]
    else if s.serviceMode ≠ .serves (kind t) then
      [(.unlockAgain, { s with cv := update s.cv (kind t).other [] })]
    else [(.unlockAgain, s)]
  | .unlockAgain, s => [(.atDone, { s with brLock := none })]
  | .atDone, s => [(.done, { s with donesem := s.donesem + 1 })]
  | .done, _ => []

/-- Everybody is about to start, and `inititems` has been called. -/
def bathroom (τ : Type) : Procs τ BathPc (Bath τ) where
  pc _ := .start
  shared :=
    { brSem := 3, brLock := none, cv := fun _ => [], serviceMode := .rest, waiting := fun _ => 0
      donesem := 0 }

/-- The states that are reached by the people of this population. -/
def BathReach (kind : τ → Person) (c : Procs τ BathPc (Bath τ)) : Prop :=
  Procs.Reach (bathNext kind) (fun _ _ _ => True) (bathroom τ) c

/-! ## 2. Three people -/

/-- Between `P(br_sem)` and `V(br_sem)`. -/
def BathPc.inside : BathPc → Bool
  | .setMode | .atV => true
  | _ => false

/-- The count of the semaphore and the people inside make three. -/
structure BathInv (c : Procs τ BathPc (Bath τ)) : Prop where
  few : Procs.Few .start c
  three : c.shared.brSem + c.crowd BathPc.inside = 3

variable {kind : τ → Person} {t : τ} {c : Procs τ BathPc (Bath τ)}

/-- **What a step does to the bathroom**: `P` lets somebody in, `V` somebody out, and nothing else
does either. -/
theorem bathNext_inside {pc : BathPc} {s : Bath τ} {o : BathPc × Bath τ}
    (h : o ∈ bathNext kind t pc s) : o.2.brSem + o.1.inside.toNat = s.brSem + pc.inside.toNat := by
  cases pc with
  | start | cvAcquire =>
    rw [bathNext] at h
    split_ifs at h
    · cases mem_singleton.mp h
      rfl
    · cases h
  | asleep =>
    rw [bathNext] at h
    split_ifs at h
    · cases h
    · cases mem_singleton.mp h
      rfl
  | test =>
    rw [bathNext] at h
    split_ifs at h <;>
    · cases mem_singleton.mp h
      rfl
  | atP =>
    rw [bathNext] at h
    split_ifs at h with hzero
    · cases h
    · cases mem_singleton.mp h
      exact Nat.sub_add_cancel (Nat.pos_of_ne_zero hzero)
  | atV =>
    cases mem_singleton.mp h
    cases kind t <;> rfl
  | testEmpty =>
    cases mem_singleton.mp h
    split_ifs <;> cases kind t <;> rfl
  | lockAgain =>
    rw [bathNext] at h
    split_ifs at h
    · cases mem_singleton.mp h
      cases kind t <;> rfl
    · cases h
  | wake =>
    rw [bathNext] at h
    split_ifs at h <;>
    · cases mem_singleton.mp h
      rfl
  | cvRelease | cvSleep | woken | unlock | setMode | unlockAgain | atDone =>
    cases mem_singleton.mp h
    rfl
  | done => cases h

theorem bathInv_of_reach (h : BathReach kind c) : BathInv c := by
  refine Procs.Reach.invariant ⟨?_, ?_⟩ ?_ h
  · exact Set.finite_empty.subset fun t ht => ht rfl
  · have : {t : τ | BathPc.inside ((bathroom τ).pc t) = true} = ∅ := by
      ext t
      simp [bathroom, BathPc.inside]
    rw [crowd, this, Set.ncard_empty]
    rfl
  · intro c t o hinv ho _
    refine ⟨hinv.few.move t o, ?_⟩
    have hcrowd := crowd_move t o (hinv.few.finite (P := BathPc.inside) rfl)
    have hstep := bathNext_inside ho
    have hthree := hinv.three
    rw [move_shared]
    omega

/-! ## 3. Boys and girls -/

/-- **Bathroom exclusion**: no boy is inside with a girl, and no more than three people are. -/
structure Exclusion (kind : τ → Person) (c : Procs τ BathPc (Bath τ)) : Prop where
  apart : ∀ b g, kind b = .boy → kind g = .girl → (c.pc b).inside = true → (c.pc g).inside = false
  three : {t | (c.pc t).inside = true}.encard ≤ 3

theorem BathReach.encard_le (h : BathReach kind c) : {t | (c.pc t).inside = true}.encard ≤ 3 := by
  have hinv := bathInv_of_reach h
  have hcrowd : c.crowd BathPc.inside ≤ 3 := by
    have := hinv.three
    omega
  rw [← (hinv.few.finite (P := BathPc.inside) rfl).cast_ncard_eq]
  exact_mod_cast hcrowd

/-- Nobody is in anybody's way. -/
structure Bath.Idle (s : Bath τ) : Prop where
  sem : 0 < s.brSem
  lock : s.brLock = none
  mode : s.serviceMode = .rest
  waiting : ∀ p, s.waiting p = 0

/-- Somebody who finds the bathroom idle gets as far as `P`, and has left no trace. -/
theorem BathReach.pass (h : BathReach kind c) (ht : c.pc t = .start) (hidle : c.shared.Idle) :
    BathReach kind (c.move t (.atP, c.shared)) := by
  have htest : BathReach kind (c.move t (.test, { c.shared with brLock := some t })) := by
    refine h.step t _ ?_ True.intro
    rw [ht, bathNext, if_pos hidle.lock]
    exact mem_singleton_self _
  have hunlock : BathReach kind (c.move t (.unlock, { c.shared with brLock := some t })) := by
    rw [← move_move c t (.test, { c.shared with brLock := some t })]
    refine htest.step t _ ?_ True.intro
    have hgo : ¬ Bath.MustWait { c.shared with brLock := some t } (kind t) := by
      rintro (hsem | hmode | hwaiting)
      · exact absurd hsem (Nat.ne_of_gt hidle.sem)
      · exact absurd (hidle.mode.symm.trans hmode) nofun
      · rw [hidle.waiting, hidle.waiting] at hwaiting
        exact lt_irrefl _ hwaiting
    rw [move_pc_self, move_shared, bathNext, if_neg hgo]
    exact mem_singleton_self _
  have hshared : { c.shared with brLock := none } = c.shared := by
    rw [← hidle.lock]
  rw [← move_move c t (.unlock, { c.shared with brLock := some t }), ← hshared]
  refine hunlock.step t _ ?_ True.intro
  rw [move_pc_self]
  exact mem_singleton_self _

theorem BathReach.enter (h : BathReach kind c) (ht : c.pc t = .atP) (hsem : 0 < c.shared.brSem) :
    BathReach kind (c.move t (.setMode, { c.shared with brSem := c.shared.brSem - 1 })) := by
  refine h.step t _ ?_ True.intro
  rw [ht, bathNext, if_neg (Nat.ne_of_gt hsem)]
  exact mem_singleton_self _

theorem bathroom_meet (kind : τ → Person) {b g : τ} (hne : b ≠ g) :
    ∃ c, BathReach kind c ∧ (c.pc b).inside = true ∧ (c.pc g).inside = true := by
  have hidle : (bathroom τ).shared.Idle := ⟨Nat.succ_pos 2, rfl, rfl, fun _ => rfl⟩
  have hstart : BathReach kind (bathroom τ) := .refl
  have hboth := (hstart.pass (t := b) rfl hidle).pass (t := g) (move_pc_of_ne hne.symm) hidle
  have hboy := hboth.enter (t := b) (by rw [move_pc_of_ne hne, move_pc_self])
    (Nat.succ_pos 2)
  have hin := hboy.enter (t := g) (by rw [move_pc_of_ne hne.symm, move_pc_self])
    (Nat.succ_pos 1)
  refine ⟨_, hin, ?_, ?_⟩
  · rw [move_pc_of_ne hne, move_pc_self]
    rfl
  · rw [move_pc_self]
    rfl

/-- **The bathroom excludes if and only if there are only boys or only girls.** -/
theorem bathroom_exclusion_iff (kind : τ → Person) : (∀ c, BathReach kind c → Exclusion kind c) ↔
      ¬ ((∃ b, kind b = .boy) ∧ ∃ g, kind g = .girl) := by
  constructor
  · rintro hall ⟨⟨b, hb⟩, g, hg⟩
    have hne : b ≠ g := by
      rintro rfl
      rw [hb] at hg
      cases hg
    obtain ⟨c, hreach, hbin, hgin⟩ := bathroom_meet kind hne
    rw [(hall c hreach).apart b g hb hg hbin] at hgin
    cases hgin
  · intro hnone c hreach
    refine ⟨fun b g hb hg => ?_, hreach.encard_le⟩
    exact absurd ⟨⟨b, hb⟩, g, hg⟩ hnone

/-- **One boy and one girl**: he looks, she looks, and both go in. -/
theorem boy_meets_girl : ∃ c, BathReach (fun t : Bool => if t then .girl else .boy) c ∧
    (c.pc false).inside = true ∧ (c.pc true).inside = true ∧
    ¬ Exclusion (fun t : Bool => if t then .girl else .boy) c := by
  have hreach : BathReach (fun t : Bool => if t then .girl else .boy)
      ((Procs.follow (bathNext fun t : Bool => if t then .girl else .boy) (fun _ _ _ => true)
        [(false, 0), (false, 0), (false, 0), (true, 0), (true, 0), (true, 0), (false, 0), (true, 0)]
        (bathroom Bool)).get (by decide)) :=
    Procs.reach_follow (fun _ _ _ _ => True.intro) _
  refine ⟨_, hreach, by decide, by decide, fun hex => ?_⟩
  have := hex.apart false true rfl rfl (by decide)
  revert this
  decide

end Os161
