/-
# No thread is lost, and none runs twice

`Threads.lean` moves threads between lists, hands and CPUs one locked step at a time.  This module
proves that every step keeps each thread in exactly one place.  The invariant (`ThreadsInv`) has a
parameter for the thread that the code has in a local variable: taking a thread off a list moves
it there, putting it on a list needs it there, and the fields that a place asks for (`Holds`) are
looked at only when the thread is put down.

Two facts carry the argument.  The current thread of a CPU has that CPU in `t_cpu`, so `curcpu` is
right and no other CPU can have the thread on its run queue; this is why migration must not send
the current thread away.  And an idle CPU's current thread is somewhere else already, a running
CPU's is nowhere else; this is why a zombie is off its CPU by the time `exorcise` finds it.
-/
import Os161.Threads
import Os161.Lib.Places

namespace Os161

open Function List

/-! ## 1. The invariant -/

namespace Threads

/-- The thread belongs to a CPU of the machine. -/
def Assigned (s : Threads) (t : Nat) : Prop := ∃ c < s.numcpus, s.tcpu t = some c

/-- The thread is no CPU's current thread. -/
def NotCurrent (s : Threads) (t : Nat) : Prop := ∀ c < s.numcpus, s.curthread c ≠ t

/-- What is true of a thread in a place. -/
def Holds (s : Threads) (t : Nat) : Place → Prop
  | .runqueue c | .hand c => c < s.numcpus ∧ s.tcpu t = some c
  | .zombies c => c < s.numcpus ∧ ∃ th, s.thread t = some th ∧ th.cpu = some c ∧
      th.state = .zombie ∧ th.cwd = none ∧ th.addrspace = none
  | .wchan _ | .waking _ => s.Assigned t
  | .forking _ => s.Assigned t ∧ s.NotCurrent t
  | .creating _ => (∃ th, s.thread t = some th ∧ th.state = .ready ∧ th.cwd = none ∧
      th.addrspace = none) ∧ s.NotCurrent t

end Threads

/-- The invariant of the lists, with the thread that is in a local variable. -/
structure ThreadsInv (x : Option Nat) (s : Threads) : Prop where
  excl : Exclusive s.list
  holds : ∀ p t, t ∈ s.list p → s.Holds t p
  current : ∀ c < s.numcpus, s.tcpu (s.curthread c) = some c
  running : ∀ c, s.Running c → ∀ p, s.curthread c ∉ s.list p
  found : ∀ t, (s.thread t).isSome → some t ≠ x →
    (∃ c, s.Running c ∧ s.curthread c = t) ∨ ∃ p, t ∈ s.list p
  out : ∀ t, some t = x → (∀ p, t ∉ s.list p) ∧ ∀ c, s.Running c → s.curthread c ≠ t

/-- What the clock interrupt of CPU `c` relies on, and has in hand. -/
def IntrOk (s : Threads) (c : Nat) : Intr → Prop
  | .none => s.list (.hand c) = []
  | .scheduling _ count => s.list (.hand c) = [] ∧ 0 < count ∧ count ≤ (s.list (.runqueue c)).length
  | .rescheduling _ => (s.list (.hand c)).length = 1
  | .counting _ myCount _ => s.list (.hand c) = [] ∧ myCount ≤ (s.list (.runqueue c)).length
  | .taking toSend _ => s.list (.hand c) = [] ∧ toSend ≤ (s.list (.runqueue c)).length
  | .sending _ toSend _ => toSend ≤ (s.list (.hand c)).length
  | .returning => True

/-- The invariant between two steps. -/
structure MachineInv (s : Threads) : Prop where
  lists : ThreadsInv none s
  intr : ∀ c < s.numcpus, IntrOk s c (s.intr c)

section Facts

variable {s s' : Threads} {x : Option Nat} {t u c : Nat} {p q : Place} {th : Thread} {l : List Nat}

@[simp] theorem setList_list (q : Place) :
    (s.setList p l).list q = if q = p then l else s.list q := update_apply ..

@[simp] theorem setThread_thread (th : Option Thread) :
    (s.setThread t th).thread u = if u = t then th else s.thread u := update_apply ..

@[simp] theorem setThread_list (th : Option Thread) : (s.setThread t th).list = s.list := rfl

theorem tcpu_setThread_of_ne {th : Option Thread} (h : u ≠ t) :
    (s.setThread t th).tcpu u = s.tcpu u := by
  rw [Threads.tcpu, setThread_thread, if_neg h]
  rfl

theorem tcpu_isSome (h : s.tcpu t = some c) : (s.thread t).isSome := by
  cases ht : s.thread t with
  | none => rw [Threads.tcpu, ht] at h; cases h
  | some th => rfl

theorem exists_thread (h : s.tcpu t = some c) : ∃ th, s.thread t = some th ∧ th.cpu = some c := by
  obtain ⟨th, hth⟩ := Option.isSome_iff_exists.mp (tcpu_isSome h)
  exact ⟨th, hth, by rwa [Threads.tcpu, hth] at h⟩

theorem Threads.Holds.isSome (h : s.Holds t p) : (s.thread t).isSome := by
  cases p with
  | runqueue c => exact tcpu_isSome h.2
  | hand c => exact tcpu_isSome h.2
  | zombies c =>
    obtain ⟨-, th, hth, -⟩ := h
    exact Option.isSome_iff_exists.mpr ⟨th, hth⟩
  | wchan w =>
    obtain ⟨c, -, hc⟩ := h
    exact tcpu_isSome hc
  | waking i =>
    obtain ⟨c, -, hc⟩ := h
    exact tcpu_isSome hc
  | forking i =>
    obtain ⟨⟨c, -, hc⟩, -⟩ := h
    exact tcpu_isSome hc
  | creating i =>
    obtain ⟨⟨th, hth, -⟩, -⟩ := h
    exact Option.isSome_iff_exists.mpr ⟨th, hth⟩

theorem Threads.Holds.congr (h : s.Holds t p) (hn : s'.numcpus = s.numcpus)
    (ht : s'.thread t = s.thread t)
    (hcur : s.NotCurrent t → s'.NotCurrent t) : s'.Holds t p := by
  have hcpu : s'.tcpu t = s.tcpu t := by rw [Threads.tcpu, ht]; rfl
  have has : s.Assigned t → s'.Assigned t := by
    rintro ⟨c, hc, htc⟩
    exact ⟨c, by rwa [hn], by rwa [hcpu]⟩
  cases p with
  | runqueue c => exact ⟨by rw [hn]; exact h.1, by rw [hcpu]; exact h.2⟩
  | hand c => exact ⟨by rw [hn]; exact h.1, by rw [hcpu]; exact h.2⟩
  | zombies c => exact ⟨by rw [hn]; exact h.1, by rw [ht]; exact h.2⟩
  | wchan w => exact has h
  | waking i => exact has h
  | forking i => exact ⟨has h.1, hcur h.2⟩
  | creating i => exact ⟨by rw [ht]; exact h.1, hcur h.2⟩

/-! ## 2. The moves -/

theorem ThreadsInv.takeOut (h : ThreadsInv none s) (ht : t ∈ s.list p) :
    ThreadsInv (some t) (s.setList p ((s.list p).erase t)) where
  excl := h.excl.takeOut ht
  holds q u hu := (h.holds q u ((h.excl.mem_takeOut ht).mp hu).1).congr rfl rfl id
  current := h.current
  running c hc q hq := h.running c hc q ((h.excl.mem_takeOut ht).mp hq).1
  found u hu hne := by
    rcases h.found u hu (by simp) with hrun | ⟨q, hq⟩
    · exact .inl hrun
    · exact .inr ⟨q, (h.excl.mem_takeOut ht).mpr ⟨hq, fun he => hne (congrArg some he)⟩⟩
  out u hu := by
    cases hu
    exact ⟨h.excl.not_mem_takeOut ht, fun c hc he => h.running c hc p (he ▸ ht)⟩

theorem ThreadsInv.put (h : ThreadsInv (some t) s) (hl : l.Perm (t :: s.list p))
    (hp : s.Holds t p) : ThreadsInv none (s.setList p l) where
  excl := h.excl.put hl (h.out t rfl).1
  holds q u hu := by
    rcases (mem_put hl).mp hu with hu | ⟨rfl, rfl⟩
    · exact (h.holds q u hu).congr rfl rfl id
    · exact hp.congr rfl rfl id
  current := h.current
  running c hc q hq := by
    rcases (mem_put hl).mp hq with hq | ⟨-, he⟩
    · exact h.running c hc q hq
    · exact (h.out t rfl).2 c hc he
  found u hu _ := by
    by_cases he : u = t
    · exact .inr ⟨p, (mem_put hl).mpr (.inr ⟨rfl, he⟩)⟩
    · rcases h.found u hu (fun heq => he (Option.some.inj heq)) with hrun | ⟨q, hq⟩
      · exact .inl hrun
      · exact .inr ⟨q, (mem_put hl).mpr (.inl hq)⟩
  out u hu := by cases hu

/-- Writing to a thread that is on no list.  If it is the current thread of a CPU, it stays with
that CPU. -/
theorem ThreadsInv.setThread (h : ThreadsInv x s) (th : Thread) (hno : ∀ p, t ∉ s.list p)
    (ht : (s.thread t).isSome) (hcpu : ∀ c < s.numcpus, s.curthread c = t → th.cpu = some c) :
    ThreadsInv x (s.setThread t (some th)) where
  excl := h.excl
  holds q u hu := by
    have hne : u ≠ t := fun he => hno q (he ▸ hu)
    exact (h.holds q u hu).congr rfl (by rw [setThread_thread, if_neg hne]) id
  current c hc := by
    rw [Threads.tcpu, setThread_thread]
    split_ifs with he
    · exact hcpu c hc he
    · exact h.current c hc
  running := h.running
  found u hu hne := by
    rw [setThread_thread] at hu
    split_ifs at hu with he
    · exact h.found u (he ▸ ht) hne
    · exact h.found u hu hne
  out := h.out

theorem ThreadsInv.not_mem_of_none (h : ThreadsInv x s) (ht : s.thread t = none) (p : Place) :
    t ∉ s.list p := by
  intro hp
  have hsome := (h.holds p t hp).isSome
  rw [ht] at hsome
  cases hsome

theorem ThreadsInv.notCurrent_of_none (h : ThreadsInv x s) (ht : s.thread t = none) :
    s.NotCurrent t := by
  rintro c hc rfl
  have hsome := tcpu_isSome (h.current c hc)
  rw [ht] at hsome
  cases hsome

theorem ThreadsInv.create (h : ThreadsInv none s) (ht : s.thread t = none) :
    ThreadsInv (some t) (s.setThread t (some th)) := by
  have hno := h.not_mem_of_none ht
  have hcur := h.notCurrent_of_none ht
  refine ⟨h.excl, fun q u hu => ?_, fun c hc => ?_, h.running, fun u hu hne => ?_, fun u hu => ?_⟩
  · have hne : u ≠ t := fun he => hno q (he ▸ hu)
    exact (h.holds q u hu).congr rfl (by rw [setThread_thread, if_neg hne]) id
  · exact (tcpu_setThread_of_ne (hcur c hc)).trans (h.current c hc)
  · rw [setThread_thread, if_neg fun he => hne (congrArg some he)] at hu
    exact h.found u hu (by simp)
  · cases hu
    exact ⟨hno, fun c hc => hcur c hc.1⟩

theorem ThreadsInv.destroy (h : ThreadsInv (some t) s) (hcur : s.NotCurrent t) :
    ThreadsInv none (s.setThread t none) where
  excl := h.excl
  holds q u hu := by
    have hne : u ≠ t := fun he => (h.out t rfl).1 q (he ▸ hu)
    exact (h.holds q u hu).congr rfl (by rw [setThread_thread, if_neg hne]) id
  current c hc := (tcpu_setThread_of_ne (hcur c hc)).trans (h.current c hc)
  running := h.running
  found u hu _ := by
    rw [setThread_thread] at hu
    split_ifs at hu with he
    · cases hu
    · exact h.found u hu fun heq => he (Option.some.inj heq)
  out u hu := by cases hu

/-- The CPU becomes idle: what was its running thread has to be put somewhere. -/
theorem ThreadsInv.idle (h : ThreadsInv none s) (hc : s.Running c) :
    ThreadsInv (some (s.curthread c)) { s with isidle := update s.isidle c true } := by
  have hrun : ∀ k, Threads.Running { s with isidle := update s.isidle c true } k →
      s.Running k ∧ k ≠ c := by
    rintro k ⟨hk, hidle⟩
    have hne : k ≠ c := by
      rintro rfl
      simp at hidle
    exact ⟨⟨hk, by simpa [update_of_ne hne] using hidle⟩, hne⟩
  refine ⟨h.excl, fun q u hu => (h.holds q u hu).congr rfl rfl id, h.current, fun k hk =>
    h.running k (hrun k hk).1, fun u hu hne => ?_, fun u hu => ?_⟩
  · rcases h.found u hu (by simp) with ⟨k, hk, rfl⟩ | hp
    · have hkc : k ≠ c := fun he => hne (by rw [he])
      exact .inl ⟨k, ⟨hk.1, by simpa [update_of_ne hkc] using hk.2⟩, rfl⟩
    · exact .inr hp
  · cases hu
    refine ⟨h.running c hc, fun k hk he => (hrun k hk).2 ?_⟩
    -- two CPUs do not have the same current thread
    have h1 := h.current k hk.1
    have h2 := h.current c hc.1
    have he' : s.curthread k = s.curthread c := he
    rw [he', h2] at h1
    exact (Option.some.inj h1).symm

theorem ThreadsInv.resume (h : ThreadsInv (some t) s) (hc : c < s.numcpus)
    (hidle : s.isidle c = true) (ht : s.tcpu t = some c) :
    ThreadsInv none { s with
      isidle := update s.isidle c false
      curthread := update s.curthread c t } := by
  have hrun : ∀ k, k ≠ c → (Threads.Running { s with
      isidle := update s.isidle c false
      curthread := update s.curthread c t } k ↔ s.Running k) := by
    intro k hk
    simp [Threads.Running, update_of_ne hk]
  refine ⟨h.excl, fun q u hu => (h.holds q u hu).congr rfl rfl fun hcur k hk => ?_, fun k hk => ?_,
    fun k hk q => ?_, fun u hu _ => ?_, fun u hu => ?_⟩
  · show update s.curthread c t k ≠ u
    rw [update_apply]
    split_ifs
    · exact fun he => (h.out t rfl).1 q (he ▸ hu)
    · exact hcur k hk
  · show s.tcpu (update s.curthread c t k) = some k
    rw [update_apply]
    split_ifs with he
    · rw [he, ht]
    · exact h.current k hk
  · show update s.curthread c t k ∉ s.list q
    by_cases he : k = c
    · rw [he, update_self]
      exact (h.out t rfl).1 q
    · rw [update_of_ne he]
      exact h.running k ((hrun k he).mp hk) q
  · by_cases hut : u = t
    · refine .inl ⟨c, ⟨hc, update_self ..⟩, ?_⟩
      show update s.curthread c t c = u
      rw [update_self, hut]
    · rcases h.found u hu fun heq => hut (Option.some.inj heq) with ⟨k, hk, rfl⟩ | hp
      · have hkc : k ≠ c := by
          rintro rfl
          rw [hk.2] at hidle
          cases hidle
        refine .inl ⟨k, (hrun k hkc).mpr hk, ?_⟩
        exact update_of_ne hkc ..
      · exact .inr hp
  · cases hu

end Facts

/-! ## 3. What a step leaves alone -/

/-- Outside the CPUs of `D` the interrupts have not moved: what they have in hand is the same, and
their run queues did not lose a thread. -/
structure QueueFrame (D : Nat → Prop) (s s' : Threads) : Prop where
  numcpus : s'.numcpus = s.numcpus
  intr : ∀ c, ¬ D c → s'.intr c = s.intr c
  hand : ∀ c, ¬ D c → s'.list (.hand c) = s.list (.hand c)
  queue : ∀ c, ¬ D c → (s.list (.runqueue c)).length ≤ (s'.list (.runqueue c)).length

/-- No thread was destroyed. -/
def NoneDestroyed (s s' : Threads) : Prop := ∀ t, (s.thread t).isSome → (s'.thread t).isSome

/-- The thread may be destroyed. -/
def Threads.Disposable (s : Threads) (t : Nat) : Prop :=
  s.NotCurrent t ∧
    ((∃ th, s.thread t = some th ∧ th.state = .zombie) ∨ ∃ i, t ∈ s.list (.creating i))

/-- What a step has to establish. -/
structure StepGood (s s' : Threads) : Prop where
  inv : MachineInv s'
  destroyed : ∀ t, (s.thread t).isSome → s'.thread t = none → s.Disposable t

section Frames

variable {s s' s'' : Threads} {D : Nat → Prop} {t c : Nat} {p : Place} {l : List Nat}

theorem QueueFrame.refl : QueueFrame D s s :=
  ⟨rfl, fun _ _ => rfl, fun _ _ => rfl, fun _ _ => le_rfl⟩

theorem QueueFrame.trans (h : QueueFrame D s s') (h' : QueueFrame D s' s'') : QueueFrame D s s'' :=
  ⟨h'.numcpus.trans h.numcpus, fun c hc => (h'.intr c hc).trans (h.intr c hc),
    fun c hc => (h'.hand c hc).trans (h.hand c hc), fun c hc =>
      (h.queue c hc).trans (h'.queue c hc)⟩

theorem QueueFrame.setThread {th : Option Thread} : QueueFrame D s (s.setThread t th) :=
  ⟨rfl, fun _ _ => rfl, fun _ _ => rfl, fun _ _ => le_rfl⟩

variable {x : Intr}

theorem QueueFrame.setIntr (hc : D c) : QueueFrame D s (s.setIntr c x) := by
  refine ⟨rfl, fun k hk => ?_, fun _ _ => rfl, fun _ _ => le_rfl⟩
  have hne : k ≠ c := fun he => hk (he ▸ hc)
  exact update_of_ne hne ..

/-- A list changes: a hand or a run queue only of a CPU of `D`, unless the queue grows. -/
theorem QueueFrame.setList (hh : ∀ c, p = .hand c → D c)
    (hq : ∀ c, p = .runqueue c → D c ∨ (s.list p).length ≤ l.length) :
    QueueFrame D s (s.setList p l) := by
  refine ⟨rfl, fun _ _ => rfl, fun c hc => ?_, fun c hc => ?_⟩
  · rw [setList_list, if_neg fun he => hc (hh c he.symm)]
  · rw [setList_list]
    split_ifs with he
    · subst he
      exact (hq c rfl).resolve_left hc
    · exact le_rfl

theorem NoneDestroyed.setThread {th : Thread} : NoneDestroyed s (s.setThread t (some th)) := by
  intro u hu
  rw [setThread_thread]
  split_ifs
  · rfl
  · exact hu

/-- The interrupt relies on its own hand and on the length of its own queue. -/
theorem IntrOk.mono (h : IntrOk s c x) (hh : s'.list (.hand c) = s.list (.hand c))
    (hq : (s.list (.runqueue c)).length ≤ (s'.list (.runqueue c)).length) : IntrOk s' c x := by
  cases x with
  | none => exact hh.trans h
  | scheduling fl count => exact ⟨hh.trans h.1, h.2.1, h.2.2.trans hq⟩
  | rescheduling fl => exact (congrArg length hh).trans h
  | counting i my total => exact ⟨hh.trans h.1, h.2.trans hq⟩
  | taking n share => exact ⟨hh.trans h.1, h.2.trans hq⟩
  | sending i n share => exact h.trans (congrArg length hh).ge
  | returning => trivial

theorem MachineInv.step (h : MachineInv s) (hl : ThreadsInv none s') (hf : QueueFrame D s s')
    (hintr : ∀ c < s.numcpus, D c → IntrOk s' c (s'.intr c)) : MachineInv s' := by
  refine ⟨hl, fun c hc => ?_⟩
  rw [hf.numcpus] at hc
  by_cases hD : D c
  · exact hintr c hc hD
  · rw [hf.intr c hD]
    exact (h.intr c hc).mono (hf.hand c hD) (hf.queue c hD)

/-- The step comes back, and is good. -/
def StepsWell (m : Kern Unit) (s : Threads) : Prop :=
  Wp False m (fun _ => StepGood s) (fun _ => StepGood s) s

theorem StepGood.of_none (h : MachineInv s') (hn : NoneDestroyed s s') : StepGood s s' := by
  refine ⟨h, fun t ht hnone => ?_⟩
  have hsome := hn t ht
  rw [hnone] at hsome
  cases hsome

theorem StepGood.refl (h : MachineInv s) : StepGood s s := .of_none h fun _ => id

end Frames

/-! ## 4. The functions -/

section Specs

variable {P : Prop} {α : Type} {s : Threads} {x : Option Nat} {t c k : Nat} {p q : Place}
  {th : Thread} {E : Errno → Threads → Prop}

theorem wp_derefThread {Q : Thread → Threads → Prop} (h : s.thread t = some th) :
    Wp P (derefThread t) Q E s ↔ Q th s := by
  rw [derefThread, wp_bind, wp_get, h]
  exact wp_pure

variable {Q : Nat → Threads → Prop} {l : List Nat}

theorem wp_threadCpu (h : s.tcpu t = some c) : Wp P (threadCpu t) Q E s ↔ Q c s := by
  obtain ⟨th, hth, hcpu⟩ := exists_thread h
  rw [threadCpu, wp_bind, wp_derefThread hth, hcpu]
  exact wp_pure

theorem wp_curcpu (h : ThreadsInv x s) (hc : c < s.numcpus) : Wp P (curcpu c) Q E s ↔ Q c s := by
  rw [curcpu, wp_bind, wp_get, wp_threadCpu (h.current c hc)]

theorem wp_remhead_bind {f : Option Nat → Kern α} {Q : α → Threads → Prop} (h : ThreadsInv none s)
    (hnone : s.list p = [] → Wp P (f none) Q E s)
    (hsome : ∀ t ∈ s.list p, s.Holds t p → ThreadsInv (some t) (s.setList p ((s.list p).erase t)) →
      Wp P (f (some t)) Q E (s.setList p ((s.list p).erase t))) :
    Wp P (threadlistRemhead p >>= f) Q E s := by
  rw [wp_bind, threadlistRemhead, wp_bind, wp_get]
  cases hp : s.list p with
  | nil => exact wp_pure.mpr (hnone hp)
  | cons t l =>
    have ht : t ∈ s.list p := hp ▸ mem_cons_self
    have hl : l = (s.list p).erase t := by rw [hp, erase_cons_head]
    rw [wp_bind, wp_modify, wp_pure, hl]
    exact hsome t ht (h.holds p t ht) (h.takeOut ht)

theorem ThreadsInv.addtail (h : ThreadsInv (some t) s) (hp : s.Holds t p) :
    ThreadsInv none (s.setList p (s.list p ++ [t])) :=
  h.put (perm_append_singleton t (s.list p)) hp

theorem ThreadsInv.addhead (h : ThreadsInv (some t) s) (hp : s.Holds t p) :
    ThreadsInv none (s.setList p (t :: s.list p)) := h.put (List.Perm.refl _) hp

/-- `thread_make_runnable` puts the thread in hand on the run queue of its CPU. -/
theorem threadMakeRunnable_spec (h : ThreadsInv (some t) s) (hc : c < s.numcpus)
    (ht : s.tcpu t = some c) {have_ : Option Nat} (hhave : ∀ k ∈ have_, k = c) :
    Wp P (threadMakeRunnable t have_)
      (fun _ s' => s' = s.setList (.runqueue c) (s.list (.runqueue c) ++ [t]) ∧
        ThreadsInv none s') E s := by
  rw [threadMakeRunnable, wp_bind, wp_threadCpu ht, wp_bind, wp_assert_of hhave]
  rw [threadlistAddtail, wp_modify]
  exact ⟨rfl, h.addtail ⟨hc, ht⟩⟩

theorem threadDestroy_spec (hcur : s.curthread c ≠ t) (hth : s.thread t = some th)
    (hstate : th.state ≠ .run) (hcwd : th.cwd = none) (has : th.addrspace = none) :
    Wp P (threadDestroy c t) (fun _ s' => s' = s.setThread t none) E s := by
  rw [threadDestroy, wp_bind, wp_get, wp_bind, wp_assert_of hcur.symm]
  rw [wp_bind, wp_derefThread hth, wp_bind, wp_assert_of hstate]
  rw [wp_bind, wp_assert_of hcwd]
  rw [wp_bind, wp_assert_of has]
  exact wp_modify.mpr rfl

/-- The priority of a thread that exists. -/
def Threads.priority (s : Threads) (t : Nat) : Int := (s.thread t).elim 0 Thread.priority

/-- The first of the threads with the smallest priority. -/
def Threads.FirstMin (s : Threads) (l : List Nat) (t : Nat) : Prop :=
  ∃ pre post, l = pre ++ t :: post ∧ (∀ u ∈ pre, s.priority t < s.priority u) ∧
    ∀ u ∈ post, s.priority t ≤ s.priority u

theorem Threads.FirstMin.mem (h : s.FirstMin l t) : t ∈ l := by
  obtain ⟨pre, post, rfl, -⟩ := h
  simp

theorem Threads.FirstMin.snoc (h : s.FirstMin l t) (u : Nat) :
    s.FirstMin (l ++ [u]) (if s.priority u < s.priority t then u else t) := by
  obtain ⟨pre, post, rfl, hpre, hpost⟩ := h
  split_ifs with hlt
  · refine ⟨pre ++ t :: post, [], rfl, fun v hv => ?_, nofun⟩
    rcases mem_append.mp hv with hv | hv
    · exact hlt.trans (hpre v hv)
    · rcases mem_cons.mp hv with rfl | hv
      · exact hlt
      · exact hlt.trans_le (hpost v hv)
  · refine ⟨pre, post ++ [u], by simp, hpre, fun v hv => ?_⟩
    rcases mem_append.mp hv with hv | hv
    · exact hpost v hv
    · rw [mem_singleton.mp hv]
      exact not_lt.mp hlt

theorem minPriority_spec {best : Nat} {seen : List Nat} (hbest : s.FirstMin seen best)
    (h : ∀ t ∈ seen ++ l, (s.thread t).isSome) :
    Wp P (minPriority best l) (fun r s' => s.FirstMin (seen ++ l) r ∧ s' = s) E s := by
  induction l generalizing best seen with
  | nil => exact wp_pure.mpr ⟨(append_nil seen).symm ▸ hbest, rfl⟩
  | cons t l ih =>
    obtain ⟨a, ha⟩ := Option.isSome_iff_exists.mp (h t (by simp))
    obtain ⟨b, hb⟩ := Option.isSome_iff_exists.mp (h best (mem_append_left _ hbest.mem))
    rw [minPriority, wp_bind, wp_derefThread ha, wp_bind, wp_derefThread hb]
    have hnext := hbest.snoc t
    simp only [Threads.priority, ha, hb, Option.elim] at hnext
    rw [append_cons] at h ⊢
    exact ih hnext h

theorem scanQueue_spec (hne : l ≠ []) (h : ∀ t ∈ l, (s.thread t).isSome) :
    Wp P (scanQueue l) (fun r s' => s.FirstMin l r ∧ s' = s) E s := by
  cases l with
  | nil => exact absurd rfl hne
  | cons t l =>
    -- the first thread is compared with itself
    obtain ⟨a, ha⟩ := Option.isSome_iff_exists.mp (h t mem_cons_self)
    rw [scanQueue, minPriority, wp_bind, wp_derefThread ha, wp_bind, wp_derefThread ha, ite_self]
    have hfirst : s.FirstMin [t] t := ⟨[], [], rfl, nofun, nofun⟩
    exact minPriority_spec hfirst h

variable {body : Nat → Kern Unit}

/-- **Loop rule for `drain`.**  Each round makes the list shorter. -/
theorem wp_drain {I : Threads → Prop} (hbody : ∀ s t rest, I s → s.list p = t :: rest →
      Wp P (body t) (fun _ s' => I s' ∧ (s'.list p).length ≤ rest.length) E (s.setList p rest))
    (hs : I s) : Wp P (drain p body) (fun _ s' => I s' ∧ s'.list p = []) E s := by
  have hloop : ∀ fuel s, I s → (s.list p).length < fuel →
      Wp P (forRemhead p body fuel) (fun _ s' => I s' ∧ s'.list p = []) E s := by
    intro fuel
    induction fuel with
    | zero => exact fun s _ hlt => absurd hlt (Nat.not_lt_zero _)
    | succ fuel ih =>
      intro s hI hlt
      rw [forRemhead, wp_bind, threadlistRemhead, wp_bind, wp_get]
      cases hp : s.list p with
      | nil => exact wp_pure.mpr (wp_pure.mpr ⟨hI, hp⟩)
      | cons t rest =>
        rw [hp] at hlt
        rw [wp_bind, wp_modify, wp_pure]
        exact (hbody s t rest hI hp).bind fun _ s' hs' =>
          ih s' hs'.1 (Nat.lt_of_le_of_lt hs'.2 (Nat.lt_of_succ_lt_succ hlt))
  rw [drain, wp_bind, wp_get]
  exact hloop _ s hs (Nat.lt_succ_self _)

theorem drain_spec {I : Threads → Prop} (hinv : ∀ s, I s → ThreadsInv none s)
    (hbody : ∀ s t, I s → t ∈ s.list p → s.Holds t p →
      ThreadsInv (some t) (s.setList p ((s.list p).erase t)) →
      Wp P (body t) (fun _ s' => I s' ∧ (s'.list p).length < (s.list p).length) E
        (s.setList p ((s.list p).erase t))) (hs : I s) :
    Wp P (drain p body) (fun _ s' => I s' ∧ s'.list p = []) E s := by
  refine wp_drain (fun s t rest hI hp => ?_) hs
  have ht : t ∈ s.list p := hp ▸ mem_cons_self
  have hl : (s.list p).erase t = rest := by rw [hp, erase_cons_head]
  have h := hbody s t hI ht ((hinv s hI).holds p t ht) ((hinv s hI).takeOut ht)
  rw [hl, hp] at h
  exact h.post fun _ s' hs' => ⟨hs'.1, Nat.le_of_lt_succ hs'.2⟩

/-- The list `p` has been poured into the list `q`. -/
structure Poured (p q : Place) (s s' : Threads) : Prop where
  same : s' = { s with list := s'.list }
  source : s'.list p = []
  target : s'.list q = s.list q ++ s.list p
  others : ∀ r, r ≠ p → r ≠ q → s'.list r = s.list r

theorem drain_poured (hpq : p ≠ q) :
    Wp P (drain p (threadlistAddtail q)) (fun _ s' => Poured p q s s') E s := by
  refine (wp_drain (I := fun s' => s' = { s with list := s'.list } ∧
    s'.list q ++ s'.list p = s.list q ++ s.list p ∧
    ∀ r, r ≠ p → r ≠ q → s'.list r = s.list r) (fun s₁ t rest hI hp => ?_)
    ⟨rfl, rfl, fun _ _ _ => rfl⟩).post fun _ s' hs' => ?_
  · obtain ⟨hsame, hsum, hothers⟩ := hI
    rw [hp] at hsum
    refine wp_modify.mpr ⟨⟨by rw [hsame]; rfl, ?_, fun r hrp hrq => ?_⟩, by simp [hpq]⟩
    · simpa [hpq, hpq.symm] using hsum
    · simpa [hrp, hrq] using hothers r hrp hrq
  · obtain ⟨⟨hsame, hsum, hothers⟩, hsource⟩ := hs'
    exact ⟨hsame, hsource, by rw [← hsum, hsource, append_nil], hothers⟩

/-- With the invariant: what the one list takes, the other takes too. -/
theorem drain_addtail_spec (hpq : p ≠ q) (hpass : ∀ s t, Threads.Holds s t p → s.Holds t q)
    (h : ThreadsInv none s) :
    Wp P (drain p (threadlistAddtail q))
      (fun _ s' => (ThreadsInv none s' ∧ s'.list p = []) ∧ Poured p q s s') E s := by
  refine Prog.Wp.imp ((drain_spec (fun _ => id) (fun s₁ t hI ht hholds hout => wp_modify.mpr
    ⟨hout.addtail (hpass s₁ t hholds), ?_⟩) h).and (drain_poured hpq (E := fun _ _ => True)))
    (fun _ _ => id) fun _ _ hE => hE.1
  simp [hpq, (perm_cons_erase ht).length_eq]

end Specs

/-! ## 5. The steps of forks, wakeups and switches -/

section Steps

variable {P : Prop} {s : Threads} {t c i wc : Nat} {p : Place}

section

variable (h : MachineInv s)

include h

theorem MachineInv.moved {s' : Threads} (hl : ThreadsInv none s')
    (hf : QueueFrame (fun _ => False) s s') (hn : NoneDestroyed s s') : StepGood s s' :=
  .of_none (h.step hl hf fun _ _ => False.elim) hn

theorem forkCreate_good {mem : Option Nat} (hmem : ∀ t ∈ mem, s.thread t = none) :
    StepsWell (forkCreate i mem) s := by
  cases mem with
  | none => exact wp_fail.mpr (.refl h)
  | some t =>
    have hnone := hmem t rfl
    have hcur := h.lists.notCurrent_of_none hnone
    rw [StepsWell, forkCreate, wp_bind, threadCreate, wp_bind, wp_modify, wp_pure,
      threadlistAddtail, wp_modify]
    refine h.moved ((h.lists.create hnone).addtail
      ⟨⟨⟨.ready, none, 2, none, none⟩, ?_, rfl, rfl, rfl⟩, hcur⟩)
      (QueueFrame.setThread.trans (.setList nofun nofun))
      NoneDestroyed.setThread
    rw [setThread_thread, if_pos rfl]

theorem forkStack_good (hc : s.Running c) {stack : Bool} : StepsWell (forkStack c i stack) s := by
  refine wp_remhead_bind h.lists (fun _ => wp_pure.mpr (.refl h)) fun t ht hholds hout => ?_
  obtain ⟨⟨th, hth, hready, hcwd, has⟩, hcur⟩ := hholds
  have htake : QueueFrame (fun _ => False) s
      (s.setList (.creating i) ((s.list (.creating i)).erase t)) :=
    .setList nofun nofun
  cases stack with
  | true =>
    obtain ⟨parent, hparent, hcpu⟩ := exists_thread (h.lists.current c hc.1)
    dsimp only
    rw [if_pos rfl, wp_bind, wp_get, wp_bind]
    refine (wp_derefThread (by exact hparent)).mpr ?_
    rw [wp_bind]
    refine (wp_derefThread (by exact hth)).mpr ?_
    rw [wp_bind, wp_modify, threadlistAddtail, wp_modify]
    have hset := hout.setThread { th with cpu := parent.cpu, cwd := parent.cwd }
      (hout.out t rfl).1 (Option.isSome_iff_exists.mpr ⟨th, hth⟩)
      fun k hk he => absurd he (hcur k hk)
    refine h.moved (hset.addtail ⟨⟨c, hc.1, ?_⟩, hcur⟩) ((htake.trans .setThread).trans
      (.setList nofun nofun)) NoneDestroyed.setThread
    rw [Threads.tcpu, setThread_thread, if_pos rfl]
    exact hcpu
  | false =>
    dsimp only
    rw [if_neg Bool.false_ne_true, wp_bind]
    have hrun : th.state ≠ .run := by rw [hready]; exact nofun
    refine (threadDestroy_spec (by exact hcur c hc.1) (by exact hth) hrun hcwd has).post_ok
      fun _ s' hs' => ?_
    subst hs'
    refine wp_fail.mpr ⟨h.step (hout.destroy hcur) (htake.trans .setThread)
      fun _ _ => False.elim, fun u hu hnone => ?_⟩
    rw [setThread_thread] at hnone
    split_ifs at hnone with he
    · subst he
      exact ⟨hcur, .inr ⟨i, ht⟩⟩
    · exact absurd hu (by rw [show s.thread u = none from hnone]; exact Bool.false_ne_true)

theorem remhead_runnable_good (hp : ∀ c, p ≠ .hand c ∧ p ≠ .runqueue c)
    (hassigned : ∀ t, s.Holds t p → s.Assigned t) :
    StepsWell (do
      let r ← threadlistRemhead p
      match r with
      | none => pure ()
      | some t => threadMakeRunnable t none) s := by
  refine wp_remhead_bind h.lists (fun _ => wp_pure.mpr (.refl h)) fun t ht hholds hout => ?_
  obtain ⟨k, hk, hcpu⟩ := hassigned t hholds
  have htake : QueueFrame (fun _ => False) s (s.setList p ((s.list p).erase t)) :=
    .setList (fun c he => (hp c).1 he) fun c he => absurd he (hp c).2
  refine Prog.Wp.post_ok (threadMakeRunnable_spec hout hk hcpu nofun) fun _ s' hs' => ?_
  obtain ⟨rfl, hl⟩ := hs'
  refine h.moved hl (htake.trans (.setList nofun fun _ _ => .inr ?_)) fun _ => id
  rw [length_append]
  exact Nat.le_add_right _ _

theorem wchanWakeone_good : StepsWell (wchanWakeone wc i) s := by
  refine wp_remhead_bind h.lists (fun _ => wp_pure.mpr (.refl h)) fun t ht hholds hout => ?_
  have htake : QueueFrame (fun _ => False) s
      (s.setList (.wchan wc) ((s.list (.wchan wc)).erase t)) := .setList nofun nofun
  refine wp_modify.mpr ?_
  exact h.moved (hout.addtail hholds) (htake.trans (.setList nofun nofun)) fun _ => id

theorem wchanWakeall_good : StepsWell (wchanWakeall wc i) s := by
  have hne : Place.wchan wc ≠ .waking i := nofun
  refine (drain_addtail_spec hne (fun _ _ hholds => hholds) h.lists).post_ok fun _ s' hs' => ?_
  obtain ⟨⟨hinv, -⟩, hm⟩ := hs'
  refine h.moved hinv ⟨?_, fun c _ => ?_, fun c _ => ?_, fun c _ => ?_⟩ fun u hu => ?_
  · rw [hm.same]
  · rw [hm.same]
  · exact hm.others _ nofun nofun
  · rw [hm.others (.runqueue c) nofun nofun]
  · rw [hm.same]
    exact hu

theorem threadSwitch_good (hc : c < s.numcpus) {newstate : ThreadState} (hrun : newstate ≠ .run)
    (hexit : newstate = .zombie → ∃ th, s.thread (s.curthread c) = some th ∧ th.cwd = none ∧
      th.addrspace = none) :
    StepsWell (threadSwitch c newstate wc) s := by
  rw [StepsWell, threadSwitch, wp_bind, wp_curcpu h.lists hc, wp_bind, wp_get, wp_ite]
  refine ⟨fun _ => wp_pure.mpr (.refl h), fun hidle => ?_⟩
  rw [wp_ite]
  refine ⟨fun _ => wp_pure.mpr (.refl h), fun _ => ?_⟩
  have hrunning : s.Running c := ⟨hc, Bool.eq_false_iff.mpr hidle⟩
  obtain ⟨th, hth, hcpu⟩ := exists_thread (h.lists.current c hc)
  -- the list it goes to
  obtain ⟨q, hqueue, hframe, hzombie, hq⟩ : ∃ q : Place,
      Wp False (switchQueue c (s.curthread c) newstate wc)
        (fun _ s' => s' = s.setList q (s.list q ++ [s.curthread c])) (fun _ => StepGood s) s ∧
      (∀ k, q ≠ .hand k) ∧ (∀ k, q = .zombies k → newstate = .zombie) ∧
      (q = .runqueue c ∨ q = .wchan wc ∨ q = .zombies c) := by
    cases newstate with
    | run => exact absurd rfl hrun
    | ready =>
      refine ⟨.runqueue c, ?_, nofun, nofun, .inl rfl⟩
      rw [switchQueue, threadMakeRunnable, wp_bind, wp_threadCpu (h.lists.current c hc),
        wp_bind, wp_assert]
      refine ⟨fun _ => wp_modify.mpr rfl, fun hno => hno fun k hk => ?_⟩
      exact (Option.some.inj hk).symm
    | sleep => exact ⟨.wchan wc, wp_modify.mpr rfl, nofun, nofun, .inr (.inl rfl)⟩
    | zombie => exact ⟨.zombies c, wp_modify.mpr rfl, nofun, fun _ _ => rfl, .inr (.inr rfl)⟩
  rw [wp_bind]
  refine Prog.Wp.imp hqueue (fun _ s' hs' => ?_) fun _ _ => id
  subst hs'
  rw [wp_bind]
  refine (wp_derefThread (by exact hth)).mpr ?_
  rw [wp_bind, wp_modify, wp_modify]
  -- the updates commute: the CPU becomes idle first, the thread is then in hand
  have hidle := h.lists.idle hrunning
  have hset := hidle.setThread { th with state := newstate } (hidle.out _ rfl).1
    (Option.isSome_iff_exists.mpr ⟨th, hth⟩) fun k hk he => by
      have hk' := h.lists.current k hk
      rw [show s.curthread k = s.curthread c from he, h.lists.current c hc] at hk'
      exact hcpu.trans hk'
  have hself : ∀ s' : Threads, (s'.setThread (s.curthread c)
      (some { th with state := newstate })).tcpu (s.curthread c) = some c := by
    intro s'
    rw [Threads.tcpu, setThread_thread, if_pos rfl]
    exact hcpu
  refine h.moved (hset.addtail (p := q) ?_) ?_ fun u hu => NoneDestroyed.setThread u hu
  · rcases hq with rfl | rfl | rfl
    · exact ⟨hc, hself _⟩
    · exact ⟨c, hc, hself _⟩
    · have hz := hzombie c rfl
      obtain ⟨th', hth', hcwd, has⟩ := hexit hz
      rw [hth] at hth'
      cases hth'
      refine ⟨hc, { th with state := newstate }, ?_, hcpu, hz, hcwd, has⟩
      rw [setThread_thread, if_pos rfl]
  · refine ⟨rfl, fun _ _ => rfl, fun k _ => ?_, fun k _ => ?_⟩
    · exact update_of_ne (hframe k).symm ..
    · show _ ≤ (update s.list q (s.list q ++ [s.curthread c]) (.runqueue k)).length
      rw [update_apply]
      split_ifs with he
      · rw [← he, length_append]
        exact Nat.le_add_right _ _
      · exact le_rfl

end

theorem ThreadsInv.setCurrent (h : ThreadsInv none s) (hc : s.Running c) (th : Thread)
    (hcpu : th.cpu = some c) : ThreadsInv none (s.setThread (s.curthread c) (some th)) := by
  refine h.setThread th (h.running c hc) (tcpu_isSome (h.current c hc.1)) fun k hk he => ?_
  have hk' := h.current k hk
  rw [he, h.current c hc.1] at hk'
  exact hcpu.trans hk'

section

variable (h : MachineInv s)

include h

theorem MachineInv.setCurrent (hc : s.Running c) (th : Thread)
    (hcpu : th.cpu = some c) : MachineInv (s.setThread (s.curthread c) (some th)) :=
  h.step (D := fun _ => False) (h.lists.setCurrent hc th hcpu) .setThread fun _ _ => False.elim

theorem threadSetOwn_good (hc : s.Running c) {priority : Int} {cwd addrspace : Option Nat} :
    StepsWell (threadSetOwn c priority cwd addrspace) s := by
  obtain ⟨th, hth, hcpu⟩ := exists_thread (h.lists.current c hc.1)
  rw [StepsWell, threadSetOwn, wp_bind, wp_get, wp_bind, wp_derefThread hth, wp_modify]
  exact .of_none (h.setCurrent hc _ hcpu) .setThread

theorem threadExit_good (hc : s.Running c) : StepsWell (threadExit c) s := by
  obtain ⟨th, hth, hcpu⟩ := exists_thread (h.lists.current c hc.1)
  rw [StepsWell, threadExit, wp_bind, wp_get, wp_bind, wp_derefThread hth, wp_bind, wp_modify]
  have hset : NoneDestroyed s (s.setThread (s.curthread c)
    (some { th with cwd := none, addrspace := none })) := .setThread
  have hlift : ∀ s', StepGood (s.setThread (s.curthread c)
      (some { th with cwd := none, addrspace := none })) s' → StepGood s s' := by
    intro s' hs'
    refine ⟨hs'.inv, fun t ht hnone => ?_⟩
    obtain ⟨hcur, hstate⟩ := hs'.destroyed t (hset t ht) hnone
    have hne : t ≠ s.curthread c := fun he => hcur c hc.1 he.symm
    rw [setThread_thread, if_neg hne] at hstate
    exact ⟨hcur, hstate⟩
  have hinv := h.setCurrent hc { th with cwd := none, addrspace := none } hcpu
  refine Prog.Wp.imp (threadSwitch_good hinv hc.1 (by exact nofun) fun _ => ?_)
    (fun _ => hlift) fun _ => hlift
  refine ⟨{ th with cwd := none, addrspace := none }, ?_, rfl, rfl⟩
  exact (setThread_thread _).trans (if_pos rfl)

theorem switchNext_good (hidle : s.isidle c = true) (hc : s.Quiet c) :
    StepsWell (switchNext c) s := by
  rw [StepsWell, switchNext, wp_bind, wp_curcpu h.lists hc.1]
  refine wp_remhead_bind h.lists (fun _ => wp_pure.mpr (.refl h)) fun t ht hholds hout => ?_
  obtain ⟨-, hcpu⟩ := hholds
  obtain ⟨th, hth, hthcpu⟩ := exists_thread hcpu
  rw [wp_bind, wp_modify, wp_bind]
  refine (wp_derefThread (by exact hth)).mpr (wp_modify.mpr ?_)
  have hres := hout.resume hc.1 hidle hcpu
  have hcur : update s.curthread c t c = t := update_self ..
  have hset := hres.setCurrent (c := c) ⟨hc.1, update_self ..⟩ { th with state := .run } hthcpu
  dsimp only at hset
  rw [show update (s.setList (.runqueue c) _).curthread c t c = t from hcur] at hset
  have hframe : QueueFrame (fun k => k = c) s
      (s.setList (.runqueue c) ((s.list (.runqueue c)).erase t)) :=
    .setList nofun fun k he => .inl (by cases he; rfl)
  refine .of_none (h.step (D := fun k => k = c) hset (hframe.trans
    ⟨rfl, fun _ _ => rfl, fun _ _ => rfl, fun _ _ => le_rfl⟩) ?_)
    (fun u hu => NoneDestroyed.setThread u hu)
  rintro k hk rfl
  have hintr := h.intr k hk
  rw [hc.2] at hintr
  show IntrOk _ k (s.intr k)
  rw [hc.2]
  exact hintr

theorem exorcise_good (hc : s.Running c) : StepsWell (exorcise c) s := by
  rw [StepsWell, exorcise, wp_bind, wp_curcpu h.lists hc.1]
  refine (drain_spec (I := fun s' => ThreadsInv none s' ∧
    QueueFrame (fun _ => False) s s' ∧ s'.curthread = s.curthread ∧ s'.isidle = s.isidle ∧
    (∀ t, s'.thread t = s.thread t ∨ s'.thread t = none ∧ s.Disposable t)) (fun _ hI => hI.1)
    (fun s₁ z hI hz hholds hout => ?_) ⟨h.lists, .refl, rfl, rfl, fun _ => .inl rfl⟩).post_ok
    fun _ s' hs' => ?_
  · obtain ⟨hinv, hf, hcur, hidle, hthreads⟩ := hI
    obtain ⟨-, th, hth, hcpu, hstate, hcwd, has⟩ := hholds
    have hth0 : s.thread z = some th := by
      rcases hthreads z with he | ⟨he, -⟩
      · rwa [he] at hth
      · rw [he] at hth
        cases hth
    have hc1 : s₁.Running c := ⟨by rw [hf.numcpus]; exact hc.1, by rw [hidle]; exact hc.2⟩
    -- the CPU it belongs to runs another thread
    have hnot : s₁.NotCurrent z := by
      rintro k hk rfl
      have hk' := hinv.current k hk
      rw [Threads.tcpu, hth] at hk'
      have hkc : k = c := Option.some.inj (hk'.symm.trans hcpu)
      subst hkc
      exact hinv.running k hc1 _ hz
    have hnot0 : s.NotCurrent z := by
      intro k hk
      rw [← hcur]
      exact hnot k (by rw [hf.numcpus]; exact hk)
    rw [exorciseOne, wp_bind, wp_get, wp_bind, wp_assert]
    refine ⟨fun _ => ?_, fun hno => hno (hnot c hc1.1).symm⟩
    rw [wp_bind]
    refine (wp_derefThread (by exact hth)).mpr ?_
    rw [wp_bind, wp_assert_of hstate]
    have hrun : th.state ≠ .run := by rw [hstate]; exact nofun
    refine (threadDestroy_spec (by exact hnot c hc1.1) (by exact hth) hrun hcwd has).post
      fun _ s' hs' => ?_
    subst hs'
    have htake : QueueFrame (fun _ => False) s₁
        (s₁.setList (.zombies c) ((s₁.list (.zombies c)).erase z)) := .setList nofun nofun
    refine ⟨⟨hout.destroy hnot, hf.trans (htake.trans .setThread), hcur, hidle, fun t => ?_⟩, ?_⟩
    · rw [setThread_thread]
      split_ifs with he
      · subst he
        exact .inr ⟨rfl, hnot0, .inl ⟨th, hth0, hstate⟩⟩
      · exact hthreads t
    · show ((s₁.setList (.zombies c) _).list (.zombies c)).length < _
      rw [setList_list, if_pos rfl, length_erase_of_mem hz]
      exact Nat.sub_lt (length_pos_of_mem hz) Nat.one_pos
  · obtain ⟨⟨hinv, hf, -, -, hthreads⟩, -⟩ := hs'
    refine ⟨h.step hinv hf fun _ _ => False.elim, fun t ht hnone => ?_⟩
    rcases hthreads t with he | ⟨-, hd⟩
    · rw [← he, hnone] at ht
      cases ht
    · exact hd

end

end Steps

/-! ## 6. The steps of the clock interrupt -/

section Clock

variable {P : Prop} {E : Errno → Threads → Prop} {s s₁ : Threads} {c : Nat}

theorem ThreadsInv.congr (h : ThreadsInv none s) (s₁ : Threads)
    (hs : s₁ = { s with intr := s₁.intr, switchFl := s₁.switchFl }) : ThreadsInv none s₁ := by
  rw [hs]
  exact ⟨h.excl, fun q u hu => (h.holds q u hu).congr rfl rfl id, h.current, h.running, h.found,
    h.out⟩

theorem MachineInv.interrupted (h : MachineInv s) (hl : ThreadsInv none s₁)
    (hf : QueueFrame (fun k => k = c) s s₁) (hn : NoneDestroyed s s₁) {x : Intr}
    (hok : IntrOk s₁ c x) : StepGood s (s₁.setIntr c x) := by
  refine .of_none (h.step (D := fun k => k = c) (hl.congr _ rfl) (hf.trans (.setIntr rfl)) ?_) hn
  rintro k - rfl
  rw [show (s₁.setIntr k x).intr k = x from update_self ..]
  exact hok.mono rfl le_rfl

theorem schedule_good (h : MachineInv s) (hc : s.Quiet c) : StepsWell (schedule c) s := by
  have hintr := h.intr c hc.1
  rw [hc.2] at hintr
  rw [StepsWell, schedule, wp_bind, wp_curcpu h.lists hc.1, wp_bind, wp_get, wp_ite]
  refine ⟨fun _ => wp_pure.mpr (.refl h), fun hne => wp_modify.mpr ?_⟩
  exact h.interrupted h.lists .refl (fun _ => id) ⟨hintr, length_pos_iff.mpr hne, le_rfl⟩

theorem considerMigration_good (h : MachineInv s) (hc : s.Quiet c) :
    StepsWell (considerMigration c) s := by
  have hintr := h.intr c hc.1
  rw [hc.2] at hintr
  exact wp_modify.mpr (h.interrupted h.lists .refl (fun _ => id) ⟨hintr, Nat.zero_le _⟩)

variable {fl count rnd i toSend oneShare : Nat}

theorem schedulePick_spec {q : List Nat} (hpos : 0 < count) (hle : count ≤ q.length)
    (halive : ∀ t ∈ q, (s.thread t).isSome) :
    Wp P (schedulePick q fl count rnd) (fun r s' => r ∈ q ∧ s' = s) E s := by
  rw [schedulePick, wp_ite]
  refine ⟨fun _ => ?_, fun _ => ?_⟩
  · have hlt : rnd % count < q.length := Nat.lt_of_lt_of_le (Nat.mod_lt _ hpos) hle
    rw [drop_eq_getElem_cons hlt]
    exact wp_pure.mpr ⟨getElem_mem hlt, rfl⟩
  · have hmem : ∀ t ∈ q.take (count + rnd % (q.length + 1 - count)), t ∈ q := fun t =>
      mem_of_mem_take
    have hne : q.take (count + rnd % (q.length + 1 - count)) ≠ [] := by
      rw [← length_pos_iff, length_take]
      omega
    exact (scanQueue_spec hne fun t ht => halive t (hmem t ht)).post fun r s' hr =>
      ⟨hmem r hr.1.mem, hr.2⟩

theorem ThreadsInv.alive (h : ThreadsInv none s) {p : Place} :
    ∀ t ∈ s.list p, (s.thread t).isSome := fun t ht => (h.holds p t ht).isSome

theorem ThreadsInv.toHand (h : ThreadsInv none s) {t : Nat} (ht : t ∈ s.list (.runqueue c))
    {l : List Nat} (hl : l.Perm (t :: s.list (.hand c))) :
    ThreadsInv none ((s.setList (.runqueue c) ((s.list (.runqueue c)).erase t)).setList (.hand c)
      l) ∧
    QueueFrame (fun k => k = c) s
      ((s.setList (.runqueue c) ((s.list (.runqueue c)).erase t)).setList (.hand c) l) := by
  have hholds := h.holds _ t ht
  have htake : QueueFrame (fun k => k = c) s
      (s.setList (.runqueue c) ((s.list (.runqueue c)).erase t)) :=
    .setList nofun fun k he => .inl (by cases he; rfl)
  refine ⟨(h.takeOut ht).put ?_ hholds, htake.trans (.setList (fun k he => by cases he; rfl) nofun)⟩
  rwa [setList_list, if_neg nofun]

theorem scheduleTake_good (h : MachineInv s) (hc : c < s.numcpus)
    (hintr : s.intr c = .scheduling fl count) :
    StepsWell (scheduleTake c fl count rnd) s := by
  have hok := h.intr c hc
  rw [hintr] at hok
  obtain ⟨hhand, hpos, hle⟩ := hok
  rw [StepsWell, scheduleTake, wp_bind, wp_curcpu h.lists hc, wp_bind, wp_get]
  refine (schedulePick_spec hpos hle h.lists.alive).bind_ok fun t s' ht => ?_
  obtain ⟨ht, rfl⟩ := ht
  rw [wp_bind, threadlistRemove, wp_modify, wp_bind, threadlistAddtail, wp_modify, wp_modify]
  have hlist : (s'.setList (.runqueue c) ((s'.list (.runqueue c)).erase t)).list (.hand c) =
    [] := by
    rw [setList_list, if_neg nofun, hhand]
  obtain ⟨hinv, hf⟩ := h.lists.toHand ht (l := [] ++ [t]) (by rw [hhand]; exact List.Perm.refl _)
  rw [hlist]
  refine h.interrupted hinv hf (fun _ => id) ?_
  show (length _) = 1
  rw [setList_list, if_pos rfl]
  rfl

theorem schedulePut_good (h : MachineInv s) (hc : c < s.numcpus)
    (hintr : s.intr c = .rescheduling fl) :
    StepsWell (schedulePut c fl) s := by
  have hok := h.intr c hc
  rw [hintr] at hok
  obtain ⟨t, hhand⟩ := length_eq_one_iff.mp hok
  rw [StepsWell, schedulePut, wp_bind, wp_curcpu h.lists hc]
  have hne : s.list (.hand c) ≠ [] := by rw [hhand]; exact cons_ne_nil _ _
  refine wp_remhead_bind h.lists (fun hnil => absurd hnil hne) fun u hu hholds hout => ?_
  rw [hhand, mem_singleton] at hu
  subst hu
  have htake : QueueFrame (fun k => k = c) s (s.setList (.hand c) ((s.list (.hand c)).erase u)) :=
    .setList (fun k he => by cases he; rfl) nofun
  rw [wp_bind, threadlistAddhead, wp_modify, wp_bind, wp_modify, wp_modify]
  have hput : QueueFrame (fun k => k = c) s ((s.setList (.hand c)
    ((s.list (.hand c)).erase u)).setList
      (.runqueue c) (u :: (s.setList (.hand c) ((s.list (.hand c)).erase u)).list (.runqueue c))) :=
    htake.trans (.setList nofun fun k he => .inl (by cases he; rfl))
  refine h.interrupted ?_ ?_ ?_ ?_
  · exact (hout.addhead (p := .runqueue c) hholds).congr _ rfl
  · exact hput.trans ⟨rfl, fun _ _ => rfl, fun _ _ => rfl, fun _ _ => le_rfl⟩
  · exact fun _ => id
  · show Threads.list _ _ = []
    rw [setList_list, if_neg nofun, setList_list, if_pos rfl, hhand, erase_cons_head]

theorem migrateCount_good (h : MachineInv s) (hc : c < s.numcpus) {my total : Nat}
    (hintr : s.intr c = .counting i my total) :
    StepsWell (migrateCount c i my total) s := by
  have hok := h.intr c hc
  rw [hintr] at hok
  obtain ⟨hhand, hmy⟩ := hok
  rw [StepsWell, migrateCount, wp_bind, wp_curcpu h.lists hc, wp_bind, wp_get, wp_ite]
  refine ⟨fun _ => wp_modify.mpr ?_, fun _ => ?_⟩
  · refine h.interrupted h.lists .refl (fun _ => id) ⟨hhand, ?_⟩
    split_ifs with he
    · rw [he]
    · exact hmy
  · rw [wp_ite]
    refine ⟨fun _ => wp_modify.mpr ?_, fun _ => wp_modify.mpr ?_⟩
    · exact h.interrupted h.lists .refl (fun _ => id) hhand
    · exact h.interrupted h.lists .refl (fun _ => id) ⟨hhand, (Nat.sub_le _ _).trans hmy⟩

variable {Q : Unit → Threads → Prop}

theorem wp_takeVictim (hne : s.list (.runqueue c) ≠ [])
    (halive : ∀ t ∈ s.list (.runqueue c), (s.thread t).isSome)
    (hQ : ∀ t ∈ s.list (.runqueue c),
      Q () ((s.setList (.runqueue c) ((s.list (.runqueue c)).erase t)).setList (.hand c)
        (t :: s.list (.hand c)))) : Wp P (takeVictim c c) Q E s := by
  rw [takeVictim, wp_bind, wp_get]
  refine (scanQueue_spec hne halive).bind fun t s' ht => ?_
  obtain ⟨ht, rfl⟩ := ht
  have hlist : (s'.setList (.runqueue c) ((s'.list (.runqueue c)).erase t)).list (.hand c) =
      s'.list (.hand c) := by simp
  rw [wp_bind, threadlistRemove, wp_modify, threadlistAddhead, wp_modify, hlist]
  exact hQ t ht.mem

theorem takeVictim_spec (h : ThreadsInv none s) (hne : s.list (.runqueue c) ≠ []) :
    Wp P (takeVictim c c) (fun _ s' => ThreadsInv none s' ∧ QueueFrame (fun k => k = c) s s' ∧
      s'.thread = s.thread ∧ (s'.list (.hand c)).length = (s.list (.hand c)).length + 1 ∧
      (s.list (.runqueue c)).length = (s'.list (.runqueue c)).length + 1) E s := by
  refine wp_takeVictim hne h.alive fun t ht => ?_
  obtain ⟨hinv, hf⟩ := h.toHand ht (List.Perm.refl (t :: s.list (.hand c)))
  have hlen := (perm_cons_erase ht).length_eq
  exact ⟨hinv, hf, rfl, by simp, by simpa using hlen⟩

theorem migrateTake_good (h : MachineInv s) (hc : c < s.numcpus)
    (hintr : s.intr c = .taking toSend oneShare) :
    StepsWell (migrateTake c toSend oneShare) s := by
  have hok := h.intr c hc
  rw [hintr] at hok
  obtain ⟨hhand, hle⟩ := hok
  rw [StepsWell, migrateTake, wp_bind, wp_curcpu h.lists hc, wp_bind]
  -- as long as there are victims to take there are threads to take them from
  refine (wp_times (fun n s' => ThreadsInv none s' ∧
    QueueFrame (fun k => k = c) s s' ∧ s'.thread = s.thread ∧
    (s'.list (.hand c)).length + n = toSend ∧ n ≤ (s'.list (.runqueue c)).length)
    (fun n s₁ hI => ?_) toSend s ⟨h.lists, .refl, rfl, ?_, hle⟩).post fun _ s' hs' => ?_
  · obtain ⟨hinv, hf, hth, hlen, hn⟩ := hI
    refine (takeVictim_spec hinv (length_pos_iff.mp (by omega))).post fun _ s' hs' => ?_
    obtain ⟨hinv', hf', hth', hlen', hn'⟩ := hs'
    exact ⟨hinv', hf.trans hf', hth'.trans hth, by omega, by omega⟩
  · rw [hhand]
    exact Nat.zero_add _
  · obtain ⟨hinv, hf, hth, hlen, -⟩ := hs'
    refine wp_modify.mpr (h.interrupted hinv hf (fun u hu => by rwa [hth]) ?_)
    exact (Nat.le_of_eq hlen.symm)

/-- One victim goes to CPU `i`, or, as the current thread, to the end of the hand. -/
theorem wp_sendVictim (hne : s.list (.hand c) ≠ [])
    (halive : ∀ t ∈ s.list (.hand c), (s.thread t).isSome)
    (hback : ∀ t rest, s.list (.hand c) = t :: rest → t = s.curthread c →
      Q () ((s.setList (.hand c) rest).setList (.hand c) (rest ++ [t])))
    (hsend : ∀ t rest th, s.list (.hand c) = t :: rest → t ≠ s.curthread c → s.thread t = some th →
      Q () (((s.setList (.hand c) rest).setThread t (some { th with cpu := some i })).setList
        (.runqueue i) (s.list (.runqueue i) ++ [t]))) : Wp P (sendVictim c i) Q E s := by
  rw [sendVictim, wp_bind, threadlistRemhead, wp_bind, wp_get]
  cases hhand : s.list (.hand c) with
  | nil => exact absurd hhand hne
  | cons t rest =>
    obtain ⟨th, hth⟩ := Option.isSome_iff_exists.mp (halive t (hhand ▸ mem_cons_self))
    rw [wp_bind, wp_modify, wp_pure]
    rw [wp_bind, wp_get, wp_ite]
    refine ⟨fun hcur => ?_, fun hcur => ?_⟩
    · have hlist : (s.setList (.hand c) rest).list (.hand c) = rest := by simp
      rw [threadlistAddtail, wp_modify, hlist]
      exact hback t rest hhand hcur
    · rw [wp_bind]
      refine (wp_derefThread (by exact hth)).mpr ?_
      have hlist : ((s.setList (.hand c) rest).setThread t (some { th with cpu := some i })).list
          (.runqueue i) = s.list (.runqueue i) := by simp
      rw [wp_bind, wp_modify, threadlistAddtail, wp_modify, hlist]
      exact hsend t rest th hhand hcur hth

theorem sendVictim_spec (h : ThreadsInv none s) (hi : i < s.numcpus) (hne : s.list (.hand c) ≠ []) :
    Wp P (sendVictim c i) (fun _ s' => ThreadsInv none s' ∧ QueueFrame (fun k => k = c) s s' ∧
      NoneDestroyed s s' ∧ (s.list (.hand c)).length ≤ (s'.list (.hand c)).length + 1) E s := by
  have hframe : ∀ rest, QueueFrame (fun k => k = c) s (s.setList (.hand c) rest) := fun rest =>
    .setList (fun k he => by cases he; rfl) nofun
  have hout : ∀ t rest, s.list (.hand c) = t :: rest →
      s.Holds t (.hand c) ∧ ThreadsInv (some t) (s.setList (.hand c) rest) := fun t rest hhand => by
    have ht : t ∈ s.list (.hand c) := hhand ▸ mem_cons_self
    have hl : (s.list (.hand c)).erase t = rest := by rw [hhand, erase_cons_head]
    exact ⟨h.holds _ t ht, hl ▸ h.takeOut ht⟩
  refine wp_sendVictim hne h.alive (fun t rest hhand _ => ?_) fun t rest th hhand hcur hth => ?_
  · obtain ⟨hholds, hout⟩ := hout t rest hhand
    refine ⟨hout.put ?_ hholds, (hframe rest).trans
      (.setList (fun k he => by cases he; rfl) nofun), fun _ => id, by simp [hhand]⟩
    simp
  · obtain ⟨hholds, hout⟩ := hout t rest hhand
    -- no CPU runs it: its own CPU is `c`, and there it is not current
    have hset := hout.setThread { th with cpu := some i } (hout.out t rfl).1
      (Option.isSome_iff_exists.mpr ⟨th, hth⟩) fun k hk he => by
        have hk' := h.current k hk
        rw [show s.curthread k = t from he, hholds.2] at hk'
        cases hk'
        exact absurd he.symm hcur
    refine ⟨hset.put (p := .runqueue i) ?_ ⟨hi, ?_⟩, ((hframe rest).trans .setThread).trans
      (.setList nofun fun k _ => .inr ?_), fun u hu => NoneDestroyed.setThread u hu, ?_⟩
    · exact (perm_append_singleton t _).trans (by simp)
    · simp [Threads.tcpu]
    · simp
    · simp [hhand]

theorem sendVictims_spec (h : ThreadsInv none s) (hi : i < s.numcpus)
    (hle : toSend ≤ (s.list (.hand c)).length) :
    Wp P (sendVictims c i oneShare toSend) (fun n s' => ThreadsInv none s' ∧
      QueueFrame (fun k => k = c) s s' ∧ NoneDestroyed s s' ∧ n ≤ (s'.list (.hand c)).length) E
        s := by
  induction toSend generalizing s with
  | zero => exact wp_pure.mpr ⟨h, .refl, fun _ => id, Nat.zero_le _⟩
  | succ n ih =>
    rw [sendVictims, wp_bind, wp_get, wp_ite]
    refine ⟨fun _ => ?_, fun _ => wp_pure.mpr ⟨h, .refl, fun _ => id, hle⟩⟩
    refine (sendVictim_spec h hi (length_pos_iff.mp (by omega))).bind fun _ s₁ hs1 => ?_
    obtain ⟨hinv, hf, hn, hlen⟩ := hs1
    refine (ih hinv (by rw [hf.numcpus]; exact hi) (by omega)).post fun m s' hs' => ?_
    obtain ⟨hinv', hf', hn', hlen'⟩ := hs'
    exact ⟨hinv', hf.trans hf', fun u hu => hn' u (hn u hu), hlen'⟩

theorem migrateSend_good (h : MachineInv s) (hc : c < s.numcpus)
    (hintr : s.intr c = .sending i toSend oneShare) :
    StepsWell (migrateSend c i toSend oneShare) s := by
  have hok := h.intr c hc
  rw [hintr] at hok
  rw [StepsWell, migrateSend, wp_bind, wp_curcpu h.lists hc, wp_bind, wp_get, wp_ite]
  refine ⟨fun hi => ?_, fun _ => wp_modify.mpr ?_⟩
  · rw [wp_ite]
    refine ⟨fun _ => wp_modify.mpr ?_, fun _ => ?_⟩
    · exact h.interrupted h.lists .refl (fun _ => id) hok
    · refine (sendVictims_spec h.lists hi.1 hok).bind_ok fun n s' hs' => ?_
      obtain ⟨hinv, hf, hn, hlen⟩ := hs'
      exact wp_modify.mpr (h.interrupted hinv hf hn hlen)
  · exact h.interrupted h.lists .refl (fun _ => id) trivial

theorem migrateReturn_good (h : MachineInv s) (hc : c < s.numcpus) :
    StepsWell (migrateReturn c) s := by
  have hne : Place.hand c ≠ .runqueue c := nofun
  rw [StepsWell, migrateReturn, wp_bind, wp_curcpu h.lists hc]
  refine (drain_addtail_spec hne (fun _ _ hholds => hholds) h.lists).bind_ok fun _ s' hs' => ?_
  obtain ⟨⟨hinv, hhand⟩, hm⟩ := hs'
  rw [wp_bind, wp_get, wp_bind, wp_assert_of hhand]
  refine wp_modify.mpr ?_
  refine h.interrupted hinv ⟨?_, fun k _ => ?_, fun k hk => ?_, fun k hk => ?_⟩ (fun u hu => ?_)
    hhand
  · rw [hm.same]
  · rw [hm.same]
  · exact hm.others _ (fun he => hk (by cases he; rfl)) nofun
  · rw [hm.others (.runqueue k) nofun fun he => hk (by cases he; rfl)]
  · rw [hm.same]
    exact hu

theorem interrupt_good (h : MachineInv s) (hc : c < s.numcpus) : StepsWell (interrupt c rnd) s := by
  rw [StepsWell, interrupt, wp_bind, wp_get]
  cases hintr : s.intr c with
  | none => exact wp_pure.mpr (.refl h)
  | scheduling fl count => exact scheduleTake_good h hc hintr
  | rescheduling fl => exact schedulePut_good h hc hintr
  | counting i my total => exact migrateCount_good h hc hintr
  | taking toSend oneShare => exact migrateTake_good h hc hintr
  | sending i toSend oneShare => exact migrateSend_good h hc hintr
  | returning => exact migrateReturn_good h hc

end Clock

/-! ## 7. Runs -/

section Runs

variable {s s₀ : Threads}

/-- **One step.** -/
theorem ThreadOp.call_good {op : ThreadOp} (hl : op.Legal s) (h : MachineInv s) :
    StepsWell op.call s := by
  cases op with
  | forkCreate i mem => exact forkCreate_good h hl
  | forkStack c i stack => exact forkStack_good h hl
  | forkRunnable i => exact remhead_runnable_good h (fun _ => ⟨nofun, nofun⟩) fun _ => And.left
  | yield c => exact threadSwitch_good h hl.1 nofun nofun
  | sleep c wc =>
    rw [StepsWell, ThreadOp.call, wchanSleep, wp_bind, wp_get, wp_bind, wp_assert_of hl.2.2]
    exact threadSwitch_good h hl.2.1 nofun nofun
  | exit c => exact threadExit_good h hl.1
  | setOwn c priority cwd addrspace => exact threadSetOwn_good h hl
  | next c => exact switchNext_good h hl.1 hl.2
  | exorcise c => exact exorcise_good h hl.1
  | wakeone wc i => exact wchanWakeone_good h
  | wakeall wc i => exact wchanWakeall_good h
  | wakeRunnable i => exact remhead_runnable_good h (fun _ => ⟨nofun, nofun⟩) fun _ => id
  | schedule c => exact schedule_good h hl
  | migrate c => exact considerMigration_good h hl
  | interrupt c rnd => exact interrupt_good h hl

theorem Threads.Booted.inv (h : s.Booted) : MachineInv s := by
  have hno : ∀ p t, t ∉ s.list p := by
    intro p t
    rw [h.list p]
    exact not_mem_nil
  refine ⟨⟨?_, fun p t ht => absurd ht (hno p t), h.cpu, fun c _ p => hno p _, fun t ht _ => ?_,
    nofun⟩, fun c _ => ?_⟩
  · have hlist : s.list = fun _ => [] := funext h.list
    rw [hlist]
    exact Exclusive.nil
  · obtain ⟨c, hc, he⟩ := (h.thread t).mp ht
    exact .inl ⟨c, ⟨hc, h.isidle c⟩, he⟩
  · rw [h.intr c]
    exact h.list _

/-- Each thread is in exactly one place. -/
structure Threads.EachOnce (s : Threads) : Prop where
  /-- It runs, and is on no list and in nobody's hands; or it does not, and is in one place. -/
  somewhere : ∀ t, (s.thread t).isSome →
    ((∃ c, s.Running c ∧ s.curthread c = t) ∧ ∀ p, t ∉ s.list p) ∨
    ((∃! p, t ∈ s.list p) ∧ ∀ c, s.Running c → s.curthread c ≠ t)
  /-- On a list it is once. -/
  nodup : ∀ p, (s.list p).Nodup
  /-- It is the current thread of at most one CPU, which is its own. -/
  current : ∀ c < s.numcpus, s.tcpu (s.curthread c) = some c
  /-- The run queue that it is on is that of its CPU. -/
  queue : ∀ c t, t ∈ s.list (.runqueue c) → s.tcpu t = some c
  /-- Lists have no other threads on them. -/
  alive : ∀ p t, t ∈ s.list p → (s.thread t).isSome

theorem MachineInv.eachOnce (h : MachineInv s) : s.EachOnce := by
  refine ⟨fun t ht => ?_, h.lists.excl.nodup, h.lists.current, fun c t hq =>
    (h.lists.holds _ t hq).2,
    fun p t hp => (h.lists.holds p t hp).isSome⟩
  rcases h.lists.found t ht nofun with ⟨c, hc, rfl⟩ | ⟨p, hp⟩
  · exact .inl ⟨⟨c, hc, rfl⟩, h.lists.running c hc⟩
  · refine .inr ⟨⟨p, hp, fun q hq => h.lists.excl.unique q p t hq hp⟩, fun c hc he => ?_⟩
    exact h.lists.running c hc p (he ▸ hp)

/-- **No thread is lost or run twice.**  However the steps of the CPUs interleave, each thread is in
exactly one place in every state; every step comes back, so that no assertion fails and no pointer
leads nowhere; and a thread is destroyed only if it is no CPU's current thread, and a zombie or the
new thread of a fork that found no memory for a stack. -/
theorem no_thread_lost (h₀ : s₀.Booted) (hrun : Run ThreadOp.call (fun op s => op.Legal s) s₀ s) :
    s.EachOnce ∧ ∀ op : ThreadOp, op.Legal s → ∃ r s', op.call s = some (r, s') ∧
      ∀ t, (s.thread t).isSome → s'.thread t = none → s.Disposable t ∧ ∀ p, t ∉ s'.list p := by
  have hstep : ∀ (op : ThreadOp) (s : Threads), op.Legal s → MachineInv s →
      Wp False op.call (fun _ => MachineInv) (fun _ => MachineInv) s := fun op s hl hs =>
    Prog.Wp.imp (ThreadOp.call_good hl hs) (fun _ _ h => h.inv) fun _ _ h => h.inv
  have hinv : MachineInv s := hrun.invariant hstep h₀.inv
  refine ⟨hinv.eachOnce, fun op hl => ?_⟩
  obtain ⟨r, s', hc, hgood⟩ := Prog.Wp.exists_some (ThreadOp.call_good hl hinv)
  exact ⟨r, s', hc, fun t ht hnone =>
    ⟨hgood.destroyed t ht hnone, hgood.inv.lists.not_mem_of_none hnone⟩⟩

/-- A machine with `n` CPUs, after boot. -/
def bootedMachine (n : Nat) : Threads where
  numcpus := n
  thread := fun t => if t < n then some ⟨.ready, some t, 2, none, none⟩ else none
  list := fun _ => []
  curthread := fun c => c
  isidle := fun _ => false
  switchFl := 1
  intr := fun _ => .none

theorem bootedMachine_booted (n : Nat) : (bootedMachine n).Booted := by
  refine ⟨fun t => ?_, fun c hc => ?_, fun _ => rfl, fun _ => rfl, fun _ => rfl⟩
  · show (if t < n then some _ else none).isSome ↔ ∃ c < n, c = t
    constructor
    · intro ht
      split_ifs at ht with hlt
      · exact ⟨t, hlt, rfl⟩
      · cases ht
    · rintro ⟨c, hc, rfl⟩
      rw [if_pos hc]
      rfl
  · show (if c < n then some _ else none : Option Thread).bind Thread.cpu = some c
    rw [if_pos (show c < n from hc)]
    rfl

/-- The boot thread of CPU 0 sleeps, and is woken up from CPU 1: the idle CPU's current thread is in
the hands of the waker. -/
theorem bootedMachine_wakeup : ∃ s : Threads, s.EachOnce ∧ s.isidle 0 = true ∧
    s.list (.waking 5) = [s.curthread 0] := by
  have h1 : Run ThreadOp.call (fun op s => op.Legal s) (bootedMachine 2) _ :=
    Run.refl.step (show (ThreadOp.sleep 0 7).Legal _ from
      ⟨⟨by decide, rfl⟩, by decide, rfl⟩) rfl
  have h2 := h1.step (show (ThreadOp.wakeone 7 5).Legal _ from trivial) rfl
  exact ⟨_, (no_thread_lost (bootedMachine_booted 2) h2).1, rfl, rfl⟩

/-- A new thread is in the hands of its fork, which is no waker and no interrupt; and a fork that
finds no memory for the stack destroys it, though it is no zombie. -/
theorem fork_destroys_ready_thread : ∃ s s' : Threads,
    Run ThreadOp.call (fun op s => op.Legal s) (bootedMachine 1) s ∧
    (s.NotCurrent 9 ∧ ∀ p, 9 ∈ s.list p → p = .creating 0) ∧
    (ThreadOp.forkStack 0 0 false).Legal s ∧
    (ThreadOp.forkStack 0 0 false).call s = some (.error .enomem, s') ∧
    (s.thread 9).map Thread.state = some .ready ∧ s'.thread 9 = none := by
  have h1 : Run ThreadOp.call (fun op s => op.Legal s) (bootedMachine 1) _ :=
    Run.refl.step (show (ThreadOp.forkCreate 0 (some 9)).Legal _ from
      fun t ht => by cases ht; rfl) rfl
  refine ⟨_, _, h1, ⟨fun c hc => ?_, fun p hp => ?_⟩, ⟨by decide, rfl⟩, rfl, rfl, rfl⟩
  · have hc' : c < 1 := hc
    show c ≠ 9
    omega
  · rcases (mem_put (List.Perm.refl _)).mp hp with hp | ⟨rfl, -⟩
    · exact absurd hp not_mem_nil
    · rfl

end Runs

end Os161
