/-
# `kern/thread/thread.c`: `schedule` by itself

`schedule` moves one thread to the front of the run queue of its CPU.  It takes turns: one call
takes a thread at random, the next the first one of smallest priority, and a call that finds the
queue empty is not counted.  Both walk down the list by a COUNT, and not to its end: what comes
after the last thread is the list's sentinel, whose thread is NULL.  In `Threads` the function is
cut where other CPUs can come in between.  Here nobody does, and it is one piece, which is what
those steps make one after the other (`schedule_steps`).
-/
import Os161.Migration

namespace Os161

open Function List

/-- The two walks of `schedule`.  Beyond the last thread there is no thread to go on from. -/
def scheduleWalk (fl count rnd : Nat) : List Nat → Kern Nat
  | [] => halt
  | t :: ts =>
    if fl = 0 then
      match (t :: ts).drop (rnd % count) with
      | u :: _ => pure u
      | [] => halt
    else scanCounted count 0 t (t :: ts)

/-- `schedule`, for what `random()` returns. -/
def scheduleAlone (c rnd : Nat) : Kern Unit := do
  let k ← curcpu c
  let s ← get
  if s.list (.runqueue k) = [] then pure ()
  else do
    let t ← scheduleWalk s.switchFl (s.list (.runqueue k)).length rnd (s.list (.runqueue k))
    threadlistRemove (.runqueue k) t
    threadlistAddhead (.runqueue k) t
    modify fun s => { s with switchFl := if s.switchFl = 0 then 1 else 0 }

variable {s : Threads} {c fl : Nat} {q : List Nat}

theorem scheduleWalk_spec (hne : q ≠ []) (halive : ∀ t ∈ q, (s.thread t).isSome) (rnd : Nat) :
    Wp False (scheduleWalk fl q.length rnd q)
      (fun t s' => t ∈ q ∧ (fl ≠ 0 → s.FirstMin q t) ∧ s' = s) (fun _ _ => False) s := by
  cases q with
  | nil => exact absurd rfl hne
  | cons t ts =>
    rw [scheduleWalk, wp_ite]
    refine ⟨fun hfl => ?_, fun _ => ?_⟩
    · have hlt : rnd % (t :: ts).length < (t :: ts).length := Nat.mod_lt _ (Nat.succ_pos _)
      rw [drop_eq_getElem_cons hlt]
      exact wp_pure.mpr ⟨getElem_mem hlt, fun hno => absurd hfl hno, rfl⟩
    · have hcount : scanQueue (t :: ts) = scanCounted _ 0 t (t :: ts) :=
        minPriority_eq_scanCounted
      rw [Nat.zero_add] at hcount
      rw [length_cons, ← hcount]
      exact (scanQueue_spec hne halive).post fun u s' hu => ⟨hu.1.mem, fun _ => hu.1, hu.2⟩

/-- **`schedule` only reorders.**  On a queue of threads that exist it comes back.  An empty queue
stays, and so does the turn.  Otherwise one thread of the queue is in front of the others, which
keep their order, in its turn the first one of smallest priority; and it is the other kind's
turn. -/
theorem schedule_reorders (hcpu : s.tcpu (s.curthread c) = some c)
    (halive : ∀ t ∈ s.list (.runqueue c), (s.thread t).isSome) (rnd : Nat) :
    Wp False (scheduleAlone c rnd) (fun _ s' => (s.list (.runqueue c) = [] ∧ s' = s) ∨
      ∃ t ∈ s.list (.runqueue c), (s.switchFl ≠ 0 → s.FirstMin (s.list (.runqueue c)) t) ∧
        s' = { s.setList (.runqueue c) (t :: (s.list (.runqueue c)).erase t) with
          switchFl := if s.switchFl = 0 then 1 else 0 }) (fun _ _ => False) s := by
  rw [scheduleAlone, wp_bind, wp_curcpu_of_tcpu hcpu, wp_bind, wp_get, wp_ite]
  refine ⟨fun hnil => wp_pure.mpr (.inl ⟨hnil, rfl⟩), fun hne => ?_⟩
  refine (scheduleWalk_spec hne halive rnd).bind fun t s' ht => ?_
  obtain ⟨hmem, hmin, rfl⟩ := ht
  rw [wp_bind, threadlistRemove, wp_modify, wp_bind, threadlistAddhead, wp_modify, wp_modify]
  refine .inr ⟨t, hmem, hmin, ?_⟩
  simp [Threads.setList]

/-- It is the turn of the smallest priority, and thread 2 comes to the front. -/
theorem schedule_reorders_lopsided : ∃ s', scheduleAlone 0 7 lopsided = some (.ok (), s') ∧
    s'.list (.runqueue 0) = [2, 3] ∧ s'.switchFl = 0 ∧ lopsided.FirstMin [3, 2] 2 := by
  obtain ⟨r, s', hrun, ⟨hnil, -⟩ | ⟨t, hmem, hmin, rfl⟩⟩ :=
    (schedule_reorders (s := lopsided) (c := 0) rfl (by decide) 7).exists_ok
  · cases hnil
  · exact ⟨_, rfl, rfl, rfl, [3], [], rfl, by decide, nofun⟩

/-! ## The steps of `Threads` -/

theorem schedulePick_eq_walk (fl rnd : Nat) (hne : q ≠ []) :
    schedulePick q fl q.length rnd = scheduleWalk fl q.length rnd q := by
  cases q with
  | nil => exact absurd rfl hne
  | cons t ts =>
    have hcount : minPriority t (t :: ts) = scanCounted (0 + ts.length + 1) 0 t (t :: ts) :=
      minPriority_eq_scanCounted
    have hall : (t :: ts).length + rnd % ((t :: ts).length + 1 - (t :: ts).length) =
        (t :: ts).length := by
      rw [Nat.add_sub_cancel_left, Nat.mod_one, Nat.add_zero]
    rw [schedulePick, scheduleWalk]
    split_ifs
    · rfl
    · rw [hall, take_length, scanQueue, hcount, Nat.zero_add, length_cons]

theorem scanCounted_congr {s₁ : Threads} (h : s₁.thread = s.thread) {count j best : Nat}
    {l : List Nat} : scanCounted count j best l s₁ =
      (scanCounted count j best l s).map fun r => (r.1, s₁) := by
  have hread : ∀ {s₀ : Threads} {t th}, s₀.thread t = some th →
      derefThread t s₀ = some (.ok th, s₀) := by
    intro s₀ t th hth
    rw [derefThread, Prog.bind_ok rfl, hth]
    rfl
  have hstop : ∀ {s₀ : Threads} {t}, s₀.thread t = none → derefThread t s₀ = none := by
    intro s₀ t hth
    rw [derefThread, Prog.bind_ok rfl, hth]
    rfl
  induction l generalizing j best with
  | nil => rfl
  | cons t ts ih =>
    cases ha : s.thread t with
    | none =>
      rw [scanCounted, Prog.bind_none (hstop ha), Prog.bind_none (hstop ((congrFun h t).trans ha))]
      rfl
    | some a =>
      rw [scanCounted, Prog.bind_ok (hread ha), Prog.bind_ok (hread ((congrFun h t).trans ha))]
      cases hb : s.thread best with
      | none =>
        rw [Prog.bind_none (hstop hb), Prog.bind_none (hstop ((congrFun h best).trans hb))]
        rfl
      | some b =>
        rw [Prog.bind_ok (hread hb), Prog.bind_ok (hread ((congrFun h best).trans hb))]
        split_ifs
        · rfl
        · rfl
        · exact ih
        · exact ih

/-- What `schedule` picks depends on the queue, and on the threads. -/
theorem schedulePick_run {s₁ : Threads} {rnd t : Nat} (hne : q ≠ []) (h : s₁.thread = s.thread)
    (hrun : scheduleWalk fl q.length rnd q s = some (.ok t, s)) :
    schedulePick q fl q.length rnd s₁ = some (.ok t, s₁) := by
  have hsame : scheduleWalk fl q.length rnd q s₁ =
      (scheduleWalk fl q.length rnd q s).map fun r => (r.1, s₁) := by
    cases q with
    | nil => rfl
    | cons u us =>
      rw [scheduleWalk]
      split_ifs
      · cases (u :: us).drop (rnd % (u :: us).length) with
        | nil => rfl
        | cons w ws => rfl
      · exact scanCounted_congr h
  rw [schedulePick_eq_walk _ _ hne, hsame, hrun]
  rfl

/-- **The steps of the clock interrupt are this function**, if no other CPU makes one in between. -/
theorem schedule_steps (hcpu : s.tcpu (s.curthread c) = some c) (hquiet : s.intr c = .none)
    (hhand : s.list (.hand c) = []) (halive : ∀ t ∈ s.list (.runqueue c), (s.thread t).isSome)
    (rnd rnd' : Nat) :
    Wp False (do schedule c; interrupt c rnd; interrupt c rnd')
      (fun _ s' => scheduleAlone c rnd s = some (.ok (), s')) (fun _ _ => False) s := by
  have hcur : curcpu c s = some (.ok c, s) := by
    obtain ⟨k, s', hrun, hk⟩ := ((wp_curcpu_of_tcpu (P := False) (E := fun _ _ => False)
      (Q := fun k s' => k = c ∧ s' = s) hcpu).mpr ⟨rfl, rfl⟩).exists_ok
    rw [hrun, hk.1, hk.2]
  have hset : ∀ (s₀ : Threads) (x : Intr), (s₀.setIntr c x).intr c = x := by
    simp [Threads.setIntr]
  rw [wp_bind, schedule, wp_bind, wp_curcpu_of_tcpu hcpu, wp_bind, wp_get, wp_ite]
  refine ⟨fun hnil => ?_, fun hne => ?_⟩
  · rw [scheduleAlone, Prog.bind_ok hcur, Prog.bind_ok rfl, if_pos hnil]
    simp only [interrupt, wp_pure, wp_bind, wp_get, hquiet]
    rfl
  · have hspec : Wp False (scheduleWalk s.switchFl _ rnd (s.list (.runqueue c))) _ _ s :=
      scheduleWalk_spec hne halive rnd
    obtain ⟨t, s', hwalk, -, -, rfl⟩ := hspec.exists_ok
    have halone : scheduleAlone c rnd s' = some (.ok (),
        { s'.setList (.runqueue c) (t :: (s'.list (.runqueue c)).erase t) with
          switchFl := if s'.switchFl = 0 then 1 else 0 }) := by
      rw [scheduleAlone, Prog.bind_ok hcur, Prog.bind_ok rfl, if_neg hne, Prog.bind_ok hwalk,
        threadlistRemove, Prog.bind_ok rfl, threadlistAddhead, Prog.bind_ok rfl]
      simp [modify, Threads.setList]
    rw [halone, wp_modify, wp_bind, interrupt, wp_bind, wp_get]
    simp only [hset]
    rw [scheduleTake, wp_bind, wp_curcpu_of_tcpu (by exact hcpu), wp_bind, wp_get, wp_bind]
    refine Prog.Wp.of_run (schedulePick_run (s := s') hne rfl hwalk) ?_
    simp only [threadlistRemove, threadlistAddtail, wp_bind, wp_modify, interrupt, wp_get, hset]
    rw [schedulePut, wp_bind, wp_curcpu_of_tcpu (by exact hcpu), wp_bind, threadlistRemhead,
      wp_bind, wp_get]
    simp only [Threads.setIntr, Threads.setList, ne_eq, reduceCtorEq, not_false_eq_true,
      update_of_ne, hhand, nil_append, update_idem, update_self, threadlistAddhead,
      Option.some.injEq, Prod.mk.injEq, true_and, wp_bind, wp_pure, wp_modify, Threads.mk.injEq,
      eq_update_self_iff]
    refine ⟨?_, hquiet⟩
    funext p
    by_cases hrun : p = .runqueue c
    · simp [hrun]
    · by_cases hp : p = .hand c
      · simp [hp, hhand]
      · simp [hrun, hp]

end Os161
