/-
# `thread_consider_migration` among the other CPUs

The function counts the run queues one after the other, takes what it has above its share off its
own queue, sends it to CPUs that have less than theirs, and puts what is left over back.  It holds
one lock at a time.  In between, other CPUs do what they like: they add threads to any queue, and
take threads from their own.  So the numbers it has read are old when it uses them.

What makes it work is that its own queue can only GROW meanwhile, for its own CPU is busy with
this very function: the victims are there when they are taken, and its share is left.  The state
between two steps is `MigrationOk`; what a step does to the queues is `MigrationStep`.
-/
import Os161.Scheduler
import Mathlib.Algebra.BigOperators.Group.Finset.Basic
import Mathlib.Tactic.Abel

namespace Os161

open Function List Threads Intr

/-! ## 1. A migration, and what happens elsewhere -/

/-- The threads on the run queues. -/
def Threads.queued (s : Threads) : Multiset Nat :=
  ∑ i ∈ Finset.range s.numcpus, (s.list (.runqueue i) : Multiset Nat)

/-- The threads on the run queues and in the hands of CPU `c`'s interrupt. -/
def Threads.inHandOrQueued (s : Threads) (c : Nat) : Multiset Nat :=
  s.queued + s.list (.hand c)

/-- What other CPUs do while CPU `c` migrates threads: they add threads to run queues, and take some
from run queues other than that of `c`. -/
structure Elsewhere (c : Nat) (added taken : Multiset Nat) (s s' : Threads) : Prop where
  numcpus : s'.numcpus = s.numcpus
  curthread : s'.curthread c = s.curthread c
  tcpu : s'.tcpu (s.curthread c) = s.tcpu (s.curthread c)
  intr : s'.intr c = s.intr c
  hand : s'.list (.hand c) = s.list (.hand c)
  own : (s.list (.runqueue c) : Multiset Nat) ≤ s'.list (.runqueue c)
  alive : ∀ t, t ∈ s'.list (.runqueue c) ∨ t ∈ s'.list (.hand c) → (s'.thread t).isSome
  queued : s'.queued + taken = s.queued + added

/-- What there is to say of a migration so far: what other CPUs have added and taken, and
`one_share`, once it has been found that the own queue has that many. -/
structure MigrationLog where
  added : Multiset Nat
  taken : Multiset Nat
  share : Nat

/-- `one_share`, when the interrupt comes to take the victims. -/
def shareAfter (share : Nat) : Intr → Nat
  | .taking _ oneShare => oneShare
  | _ => share

/-- A call of `thread_consider_migration` on CPU `c` in the state `s₀`, up to some point, with other
CPUs doing things between its steps. -/
inductive Migration (c : Nat) (s₀ : Threads) : MigrationLog → Threads → Prop
  | start {r : Except Errno Unit} {s : Threads} (hc : considerMigration c s₀ = some (r, s)) :
    Migration c s₀ ⟨0, 0, 0⟩ s
  | step {g : MigrationLog} {s s' : Threads} {r : Except Errno Unit} (rnd : Nat)
    (h : Migration c s₀ g s) (hbusy : s.intr c ≠ .none) (hc : interrupt c rnd s = some (r, s')) :
    Migration c s₀ { g with share := shareAfter g.share (s.intr c) } s'
  | elsewhere {g : MigrationLog} {s s' : Threads} {added taken : Multiset Nat}
    (h : Migration c s₀ g s) (he : Elsewhere c added taken s s') :
    Migration c s₀ { g with added := g.added + added, taken := g.taken + taken } s'

/-- Where the function can be called: the current thread is on its CPU, and the run queue has
threads on it. -/
structure MigrationReady (c : Nat) (s : Threads) : Prop where
  cpu : c < s.numcpus
  current : s.tcpu (s.curthread c) = some c
  hand : s.list (.hand c) = []
  alive : ∀ t ∈ s.list (.runqueue c), (s.thread t).isSome

/-- **What one step of the migration does to the other CPUs.**  `given` is what it adds to their
queues. -/
structure MigrationStep (c share : Nat) (given : Nat → List Nat) (s s' : Threads) : Prop where
  own : given c = []
  queues : ∀ j ≠ c, s'.list (.runqueue j) = s.list (.runqueue j) ++ given j
  notCurrent : ∀ j, s.curthread c ∉ given j
  cpu : ∀ j, ∀ t ∈ given j, s'.tcpu t = some j
  cpuKept : ∀ t, (∀ j, t ∉ given j) → s'.tcpu t = s.tcpu t
  atMost : ∀ j, given j ≠ [] → (s'.list (.runqueue j)).length ≤ share

/-- How many steps are left at most, with `n` CPUs. -/
def Intr.stepsLeft (n : Nat) : Intr → Nat
  | .counting i _ _ => (n - i) + n + 4
  | .taking _ _ => n + 3
  | .sending i _ _ => (n - i) + 2
  | .returning => 1
  | _ => 0

/-! ## 2. Accounts -/

section Accounts

variable {s s' : Threads} {c j : Nat} {l : List Nat}

theorem queued_setList (hj : j < s.numcpus) :
    (s.setList (.runqueue j) l).queued + s.list (.runqueue j) = s.queued + l := by
  have hmem : j ∈ Finset.range s.numcpus := Finset.mem_range.mpr hj
  have hrest : ∑ i ∈ (Finset.range s.numcpus).erase j,
      (((s.setList (.runqueue j) l).list (.runqueue i) : List Nat) : Multiset Nat) =
      ∑ i ∈ (Finset.range s.numcpus).erase j, (s.list (.runqueue i) : Multiset Nat) := by
    refine Finset.sum_congr rfl fun i hi => ?_
    rw [setList_list, if_neg]
    rintro ⟨⟩
    exact Finset.ne_of_mem_erase hi rfl
  unfold queued
  rw [← Finset.add_sum_erase (Finset.range s.numcpus) _ hmem, ← Finset.add_sum_erase
    (Finset.range (s.setList (.runqueue j) l).numcpus) _ hmem]
  rw [show (s.setList (.runqueue j) l).numcpus = s.numcpus from rfl, hrest, setList_list,
    if_pos rfl]
  abel

section

variable (hn : s'.numcpus = s.numcpus)

include hn

theorem queued_congr
    (hl : ∀ j, s'.list (.runqueue j) = s.list (.runqueue j)) : s'.queued = s.queued := by
  unfold queued
  rw [hn]
  exact Finset.sum_congr rfl fun i _ => by rw [hl i]

theorem queued_eq_of_queue (hj : j < s.numcpus)
    (hl : ∀ i ≠ j, s'.list (.runqueue i) = s.list (.runqueue i)) :
    s'.queued + s.list (.runqueue j) = s.queued + s'.list (.runqueue j) := by
  rw [← queued_setList hj]
  congr 1
  refine queued_congr hn fun i => ?_
  rw [setList_list]
  split_ifs with he
  · cases he
    rfl
  · exact hl i fun hij => he (hij ▸ rfl)

/-- **A step that moves threads between one queue and the hand.** -/
theorem inHandOrQueued_eq (hj : j < s.numcpus)
    (hl : ∀ i ≠ j, s'.list (.runqueue i) = s.list (.runqueue i))
    (hperm : (s'.list (.runqueue j) ++ s'.list (.hand c)).Perm
      (s.list (.runqueue j) ++ s.list (.hand c))) :
    s'.inHandOrQueued c = s.inHandOrQueued c := by
  have hq := queued_eq_of_queue hn hj hl
  have hm : (s'.list (.runqueue j) : Multiset Nat) + s'.list (.hand c) =
      s.list (.runqueue j) + s.list (.hand c) := by
    exact Multiset.coe_eq_coe.mpr hperm
  refine add_left_cancel (a := (s.list (.runqueue j) : Multiset Nat)) ?_
  calc (s.list (.runqueue j) : Multiset Nat) + (s'.queued + s'.list (.hand c))
      = (s'.queued + s.list (.runqueue j)) + s'.list (.hand c) := by abel
    _ = s.queued + (s'.list (.runqueue j) + s'.list (.hand c)) := by rw [hq, add_assoc]
    _ = s.list (.runqueue j) + (s.queued + s.list (.hand c)) := by rw [hm]; abel

end

end Accounts

/-! ## 3. The pieces of the function -/

section Pieces

variable {P : Prop} {E : Errno → Threads → Prop} {s s' s'' : Threads} {c i share : Nat}
  {moved moved' : List Nat}

theorem wp_curcpu_of_tcpu {Q : Nat → Threads → Prop} (h : s.tcpu (s.curthread c) = some c) :
    Wp P (curcpu c) Q E s ↔ Q c s := by
  rw [curcpu, wp_bind, wp_get, wp_threadCpu h]

/-- The scan as the source writes it: `j` counts the threads that it has looked at, and it ends when
that is `tl_count`.  After the last thread comes the NULL of the list's sentinel. -/
def scanCounted (count j best : Nat) : List Nat → Kern Nat
  | [] => halt
  | t :: ts => do
    let a ← derefThread t
    let b ← derefThread best
    if j + 1 = count then pure (if a.priority < b.priority then t else best)
    else scanCounted count (j + 1) (if a.priority < b.priority then t else best) ts

/-- The count ends the scan at the last thread, before the sentinel. -/
theorem minPriority_eq_scanCounted {t j best : Nat} {ts : List Nat} :
    minPriority best (t :: ts) = scanCounted (j + ts.length + 1) j best (t :: ts) := by
  induction ts generalizing t j best with
  | nil =>
    rw [minPriority, scanCounted]
    simp only [minPriority, length_nil, Nat.add_zero, if_true]
  | cons u us ih =>
    rw [minPriority, scanCounted]
    have hlen : j + (u :: us).length + 1 = j + 1 + us.length + 1 := by
      rw [length_cons]
      omega
    have hne : j + 1 ≠ j + 1 + us.length + 1 := by omega
    simp only [hlen, if_neg hne, ← ih]

/-- `n` victims have been taken off the own queue. -/
structure VictimsTaken (c n : Nat) (s s' : Threads) : Prop where
  same : s' = { s with list := s'.list }
  others : ∀ j ≠ c, s'.list (.runqueue j) = s.list (.runqueue j)
  total : s'.inHandOrQueued c = s.inHandOrQueued c
  hand : (s'.list (.hand c)).length = (s.list (.hand c)).length + n
  own : (s'.list (.runqueue c)).length + n = (s.list (.runqueue c)).length
  mem : ∀ t, t ∈ s'.list (.runqueue c) ∨ t ∈ s'.list (.hand c) →
    t ∈ s.list (.runqueue c) ∨ t ∈ s.list (.hand c)

theorem VictimsTaken.refl : VictimsTaken c 0 s s :=
  ⟨rfl, fun _ _ => rfl, rfl, rfl, rfl, fun _ => id⟩

theorem VictimsTaken.trans {m n : Nat} (h : VictimsTaken c m s s') (h' : VictimsTaken c n s' s'') :
    VictimsTaken c (m + n) s s'' where
  same := by
    rw [h'.same, h.same]
  others j hj := (h'.others j hj).trans (h.others j hj)
  total := h'.total.trans h.total
  hand := by
    rw [h'.hand, h.hand, Nat.add_assoc]
  own := by
    have h1 := h.own
    have h2 := h'.own
    omega
  mem t ht := h.mem t (h'.mem t ht)

theorem takeVictim_taken (hc : c < s.numcpus) (hne : s.list (.runqueue c) ≠ [])
    (halive : ∀ t ∈ s.list (.runqueue c), (s.thread t).isSome) :
    Wp P (takeVictim c c) (fun _ s' => VictimsTaken c 1 s s') E s := by
  refine wp_takeVictim hne halive fun t ht => ?_
  have hperm := perm_cons_erase ht
  refine ⟨rfl, fun j hj => by simp [hj], ?_, by simp, by simp [hperm.length_eq], fun u hu => ?_⟩
  · refine inHandOrQueued_eq rfl hc (fun j hj => by simp [hj]) ?_
    simpa using perm_middle.trans (hperm.symm.append_right _)
  · have hu' : u ∈ (s.list (.runqueue c)).erase t ∨ u = t ∨ u ∈ s.list (.hand c) := by
      simpa using hu
    rcases hu' with hu | rfl | hu
    · exact .inl (mem_of_mem_erase hu)
    · exact .inl ht
    · exact .inr hu

variable {toSend : Nat}

theorem migrateTake_taken {oneShare : Nat} (hc : c < s.numcpus)
    (hcur : s.tcpu (s.curthread c) = some c)
    (halive : ∀ t, t ∈ s.list (.runqueue c) ∨ t ∈ s.list (.hand c) → (s.thread t).isSome)
    (hle : toSend ≤ (s.list (.runqueue c)).length) :
    Wp P (migrateTake c toSend oneShare) (fun _ s' => ∃ s₁, VictimsTaken c toSend s s₁ ∧
      s' = s₁.setIntr c (.sending 0 toSend oneShare)) E s := by
  rw [migrateTake, wp_bind, wp_curcpu_of_tcpu hcur, wp_bind]
  refine Prog.Wp.imp (wp_times (fun n s' => ∃ m, m + n = toSend ∧ VictimsTaken c m s s')
    (fun n s₁ hI => ?_) toSend s ⟨0, Nat.zero_add _, .refl⟩) (fun _ s' hs' => ?_) fun _ _ => id
  · obtain ⟨m, hm, ht⟩ := hI
    have hown := ht.own
    have hnum : s₁.numcpus = s.numcpus := by rw [ht.same]
    have hthread : s₁.thread = s.thread := by rw [ht.same]
    refine (takeVictim_taken (hnum ▸ hc) (length_pos_iff.mp (by omega)) fun t hmem => ?_).post
      fun _ s' hs' => ⟨m + 1, by omega, ht.trans hs'⟩
    rw [hthread]
    exact halive t (ht.mem t (.inl hmem))
  · obtain ⟨m, rfl, ht⟩ := hs'
    exact wp_modify.mpr ⟨s', ht, rfl⟩

/-- The threads `moved` have been sent to CPU `i`. -/
structure VictimsSent (c i share : Nat) (moved : List Nat) (s s' : Threads) : Prop where
  same : s' = { s with list := s'.list, thread := s'.thread }
  queue : s'.list (.runqueue i) = s.list (.runqueue i) ++ moved
  others : ∀ j ≠ i, s'.list (.runqueue j) = s.list (.runqueue j)
  notCurrent : s.curthread c ∉ moved
  cpu : ∀ t, s'.tcpu t = if t ∈ moved then some i else s.tcpu t
  atMost : moved ≠ [] → (s'.list (.runqueue i)).length ≤ share
  total : s'.inHandOrQueued c = s.inHandOrQueued c
  hand : ∀ t ∈ s'.list (.hand c), t ∈ s.list (.hand c)
  alive : ∀ t, (s.thread t).isSome → (s'.thread t).isSome

theorem VictimsSent.refl : VictimsSent c i share [] s s :=
  ⟨rfl, (append_nil _).symm, fun _ _ => rfl, not_mem_nil, fun _ => rfl,
    fun h => absurd rfl h, rfl, fun _ => id, fun _ => id⟩

theorem VictimsSent.trans (h : VictimsSent c i share moved s s')
    (h' : VictimsSent c i share moved' s' s'') :
    VictimsSent c i share (moved ++ moved') s s'' where
  same := by
    rw [h'.same, h.same]
  queue := by
    rw [h'.queue, h.queue, append_assoc]
  others j hj := (h'.others j hj).trans (h.others j hj)
  notCurrent hmem := by
    have hcur : s'.curthread c = s.curthread c := by rw [h.same]
    rcases mem_append.mp hmem with hm | hm
    · exact h.notCurrent hm
    · exact h'.notCurrent (hcur ▸ hm)
  cpu t := by
    rw [h'.cpu t, h.cpu t]
    by_cases hm : t ∈ moved <;> by_cases hm' : t ∈ moved' <;> simp [hm, hm']
  atMost hne := by
    by_cases hm' : moved' = []
    · rw [h'.queue, hm', append_nil]
      refine h.atMost fun hm => hne ?_
      rw [hm, hm']
      rfl
    · exact h'.atMost hm'
  total := h'.total.trans h.total
  hand t ht := h.hand t (h'.hand t ht)
  alive t ht := h'.alive t (h.alive t ht)

theorem sendVictim_sent (hi : i < s.numcpus) (hne : s.list (.hand c) ≠ [])
    (halive : ∀ t ∈ s.list (.hand c), (s.thread t).isSome)
    (hroom : (s.list (.runqueue i)).length < share) :
    Wp P (sendVictim c i) (fun _ s' => (∃ moved, VictimsSent c i share moved s s') ∧
      (s.list (.hand c)).length ≤ (s'.list (.hand c)).length + 1) E s := by
  refine wp_sendVictim hne halive (fun t rest hhand _ => ?_) fun t rest th hhand hcur hth => ?_
  · refine ⟨⟨[], rfl, by simp, fun j _ => by simp, not_mem_nil, fun _ => rfl,
      fun h => absurd rfl h, ?_, fun u hu => ?_, fun _ => id⟩, by simp [hhand]⟩
    · refine inHandOrQueued_eq rfl hi (fun j _ => by simp) ?_
      simp [hhand, (perm_append_singleton t rest).append_left]
    · rw [hhand]
      simpa [or_comm] using hu
  · refine ⟨⟨[t], rfl, by simp, fun j hj => by simp [hj], fun hmem => ?_, fun u => ?_, fun _ => ?_,
      ?_, fun u hu => ?_, fun u hu => NoneDestroyed.setThread u hu⟩, by simp [hhand]⟩
    · exact hcur (mem_singleton.mp hmem).symm
    · show ((s.setList (.hand c) rest).setThread t (some { th with cpu := some i })).tcpu u = _
      simp only [mem_singleton]
      split_ifs with hu
      · simp [tcpu, hu]
      · exact tcpu_setThread_of_ne hu
    · simpa [Nat.succ_le_iff] using hroom
    · exact inHandOrQueued_eq rfl hi (fun j hj => by simp [hj]) (by simp [hhand])
    · rw [hhand]
      exact mem_cons_of_mem _ (by simpa using hu)

theorem sendVictims_sent (hi : i < s.numcpus) (halive : ∀ t ∈ s.list (.hand c), (s.thread t).isSome)
    (hle : toSend ≤ (s.list (.hand c)).length) : Wp P (sendVictims c i share toSend)
      (fun n s' => (∃ moved, VictimsSent c i share moved s s') ∧
      n ≤ (s'.list (.hand c)).length) E s := by
  induction toSend generalizing s with
  | zero => exact wp_pure.mpr ⟨⟨[], .refl⟩, Nat.zero_le _⟩
  | succ n ih =>
    rw [sendVictims, wp_bind, wp_get, wp_ite]
    refine ⟨fun hroom => ?_, fun _ => wp_pure.mpr ⟨⟨[], .refl⟩, hle⟩⟩
    refine (sendVictim_sent hi (length_pos_iff.mp (by omega)) halive hroom).bind fun _ s₁ hs1 => ?_
    obtain ⟨⟨moved, hsent⟩, hlen⟩ := hs1
    have hnum : s₁.numcpus = s.numcpus := by rw [hsent.same]
    refine (ih (hnum ▸ hi) (fun t ht => hsent.alive t (halive t (hsent.hand t ht))) (by omega)).post
      fun m s' hs' => ?_
    obtain ⟨⟨moved', hsent'⟩, hlen'⟩ := hs'
    exact ⟨⟨_, hsent.trans hsent'⟩, hlen'⟩

end Pieces

/-! ## 4. The steps -/

/-- What the numbers mean that the interrupt has read, when it comes to use them. -/
def MigrationIntr (s : Threads) (c share : Nat) : Intr → Prop
  | .none => s.list (.hand c) = []
  | .counting _ my _ => s.list (.hand c) = [] ∧ my ≤ (s.list (.runqueue c)).length
  | .taking toSend oneShare =>
    s.list (.hand c) = [] ∧ toSend + oneShare ≤ (s.list (.runqueue c)).length
  | .sending _ toSend oneShare => toSend ≤ (s.list (.hand c)).length ∧ oneShare = share
  | .returning => True
  | .scheduling _ _ | .rescheduling _ => False

/-- The state between two steps. -/
structure MigrationOk (c share : Nat) (s : Threads) : Prop where
  cpu : c < s.numcpus
  current : s.tcpu (s.curthread c) = some c
  alive : ∀ t, t ∈ s.list (.runqueue c) ∨ t ∈ s.list (.hand c) → (s.thread t).isSome
  keeps : share ≤ (s.list (.runqueue c)).length
  intr : MigrationIntr s c share (s.intr c)

/-- What a step has to do. -/
structure MigrationGood (c share : Nat) (s s' : Threads) : Prop where
  ok : MigrationOk c (shareAfter share (s.intr c)) s'
  total : s'.inHandOrQueued c = s.inHandOrQueued c
  left : (s'.intr c).stepsLeft s'.numcpus < (s.intr c).stepsLeft s.numcpus
  gives : ∃ given, MigrationStep c (shareAfter share (s.intr c)) given s s'

section Steps

variable {s s' s₁ : Threads} {c share : Nat} {x : Intr}

@[simp] theorem setIntr_intr_self : (s.setIntr c x).intr c = x := update_self ..

theorem MigrationStep.nothing (hl : ∀ j ≠ c, s'.list (.runqueue j) = s.list (.runqueue j))
    (ht : s'.tcpu = s.tcpu) : MigrationStep c share (fun _ => []) s s' where
  own := rfl
  queues j hj := (hl j hj).trans (append_nil _).symm
  notCurrent _ := not_mem_nil
  cpu _ t h := nomatch h
  cpuKept t _ := by rw [ht]
  atMost _ h := absurd rfl h

theorem MigrationOk.elsewhere {added taken : Multiset Nat} (h : MigrationOk c share s)
    (he : Elsewhere c added taken s s') : MigrationOk c share s' := by
  have hown : (s.list (.runqueue c)).length ≤ (s'.list (.runqueue c)).length :=
    Multiset.card_le_card he.own
  refine ⟨he.numcpus ▸ h.cpu, ?_, he.alive, h.keeps.trans hown, ?_⟩
  · rw [he.curthread, he.tcpu, h.current]
  · have hintr := h.intr
    rw [he.intr]
    cases hx : s.intr c with
    | none =>
      rw [hx] at hintr
      exact he.hand.trans hintr
    | counting i my total =>
      rw [hx] at hintr
      exact ⟨he.hand.trans hintr.1, hintr.2.trans hown⟩
    | taking toSend oneShare =>
      rw [hx] at hintr
      exact ⟨he.hand.trans hintr.1, hintr.2.trans hown⟩
    | sending i toSend oneShare =>
      rw [hx] at hintr
      exact ⟨by rw [he.hand]; exact hintr.1, hintr.2⟩
    | returning => trivial
    | scheduling fl count =>
      rw [hx] at hintr
      exact hintr
    | rescheduling fl =>
      rw [hx] at hintr
      exact hintr

theorem MigrationGood.reads (h : MigrationOk c share s)
    (hshare : shareAfter share (s.intr c) = share) (hx : MigrationIntr s c share x)
    (hleft : x.stepsLeft s.numcpus < (s.intr c).stepsLeft s.numcpus) :
    MigrationGood c share s (s.setIntr c x) where
  ok := by
    rw [hshare]
    refine ⟨h.cpu, h.current, h.alive, h.keeps, ?_⟩
    rw [setIntr_intr_self]
    cases x <;> exact hx
  total := rfl
  left := by
    rw [setIntr_intr_self]
    exact hleft
  gives := ⟨_, .nothing (fun _ _ => rfl) rfl⟩

variable {i toSend oneShare : Nat}

section

variable (h : MigrationOk c share s)

include h

theorem migrateCount_migrates {my total : Nat} (hx : s.intr c = .counting i my total) :
    Wp False (migrateCount c i my total) (fun _ => MigrationGood c share s)
      (fun _ _ => False) s := by
  have hintr := h.intr
  rw [hx] at hintr
  obtain ⟨hhand, hmy⟩ := hintr
  have hshare : shareAfter share (s.intr c) = share := by rw [hx]; rfl
  rw [migrateCount, wp_bind, wp_curcpu_of_tcpu h.current, wp_bind, wp_get, wp_ite]
  refine ⟨fun hi => wp_modify.mpr (.reads h hshare ⟨hhand, ?_⟩ ?_), fun hi => ?_⟩
  · split_ifs with he
    · rw [he]
    · exact hmy
  · rw [hx]
    simp only [stepsLeft]
    omega
  · rw [wp_ite]
    refine ⟨fun _ => wp_modify.mpr (.reads h hshare hhand ?_), fun hge =>
      wp_modify.mpr (.reads h hshare ⟨hhand, ?_⟩ ?_)⟩
    · rw [hx]
      simp only [stepsLeft]
      omega
    · -- the own queue has not become shorter since it was counted
      omega
    · rw [hx]
      simp only [stepsLeft]
      omega

theorem migrateTake_migrates (hx : s.intr c = .taking toSend oneShare) :
    Wp False (migrateTake c toSend oneShare) (fun _ => MigrationGood c share s)
      (fun _ _ => False) s := by
  have hintr := h.intr
  rw [hx] at hintr
  obtain ⟨hhand, hle⟩ := hintr
  refine (migrateTake_taken h.cpu h.current h.alive (by omega)).post fun _ s' hs' => ?_
  obtain ⟨s₁, ht, rfl⟩ := hs'
  have htcpu : s₁.tcpu = s.tcpu := by
    rw [ht.same]
    rfl
  have hown := ht.own
  refine ⟨⟨?_, ?_, fun t hmem => ?_, ?_, ?_⟩, ht.total, ?_, ⟨_, .nothing ht.others htcpu⟩⟩
  · rw [ht.same]
    exact h.cpu
  · rw [ht.same]
    exact h.current
  · rw [ht.same]
    exact h.alive t (ht.mem t hmem)
  · rw [hx]
    show oneShare ≤ (s₁.list (.runqueue c)).length
    omega
  · rw [setIntr_intr_self, hx]
    refine ⟨?_, rfl⟩
    show toSend ≤ (s₁.list (.hand c)).length
    rw [ht.hand]
    exact Nat.le_add_left _ _
  · rw [setIntr_intr_self, hx]
    show stepsLeft s₁.numcpus _ < _
    rw [ht.same]
    simp only [stepsLeft]
    omega

theorem migrateSend_migrates (hx : s.intr c = .sending i toSend oneShare) :
    Wp False (migrateSend c i toSend oneShare) (fun _ => MigrationGood c share s)
      (fun _ _ => False) s := by
  have hintr := h.intr
  rw [hx] at hintr
  obtain ⟨hle, heq⟩ := hintr
  rw [heq] at hx ⊢
  have hshare : shareAfter share (s.intr c) = share := by rw [hx]; rfl
  rw [migrateSend, wp_bind, wp_curcpu_of_tcpu h.current, wp_bind, wp_get, wp_ite]
  refine ⟨fun hi => ?_, fun _ => wp_modify.mpr (.reads h hshare trivial ?_)⟩
  · rw [wp_ite]
    refine ⟨fun _ => wp_modify.mpr (.reads h hshare ⟨hle, rfl⟩ ?_), fun hne => ?_⟩
    · rw [hx]
      simp only [stepsLeft]
      omega
    · refine (sendVictims_sent hi.1 (fun t ht => h.alive t (.inr ht)) hle).bind fun n s₁ hs1 =>
        wp_modify.mpr ?_
      obtain ⟨⟨moved, hs⟩, hn⟩ := hs1
      have hnum : s₁.numcpus = s.numcpus := by rw [hs.same]
      have hown : s₁.list (.runqueue c) = s.list (.runqueue c) := hs.others c (Ne.symm hne)
      refine ⟨?_, hs.total, ?_, ⟨update (fun _ => []) i moved, ?_⟩⟩
      · rw [hshare]
        refine ⟨hnum ▸ h.cpu, ?_, fun t ht => hs.alive t (h.alive t ?_), ?_, ?_⟩
        · show s₁.tcpu (s₁.curthread c) = some c
          rw [hs.cpu, hs.same, if_neg hs.notCurrent]
          exact h.current
        · exact ht.imp (fun ht => hown ▸ ht) (hs.hand t)
        · show share ≤ (s₁.list (.runqueue c)).length
          rw [hown]
          exact h.keeps
        · rw [setIntr_intr_self]
          exact ⟨hn, rfl⟩
      · rw [setIntr_intr_self, hx]
        show stepsLeft s₁.numcpus _ < _
        rw [hnum]
        simp only [stepsLeft]
        omega
      · refine ⟨update_of_ne (Ne.symm hne) _ _, fun j _ => ?_, fun j => ?_,
          fun j t ht => ?_, fun t ht => ?_, fun j hj => ?_⟩
        · show s₁.list (.runqueue j) = _
          rcases eq_or_ne j i with rfl | hji
          · rw [update_self, hs.queue]
          · rw [update_of_ne hji, hs.others j hji, append_nil]
        · rcases eq_or_ne j i with rfl | hji
          · rw [update_self]
            exact hs.notCurrent
          · rw [update_of_ne hji]
            exact not_mem_nil
        · show s₁.tcpu t = some j
          rcases eq_or_ne j i with rfl | hji
          · rw [update_self] at ht
            rw [hs.cpu, if_pos ht]
          · rw [update_of_ne hji] at ht
            cases ht
        · show s₁.tcpu t = s.tcpu t
          have hti := ht i
          rw [update_self] at hti
          rw [hs.cpu, if_neg hti]
        · rw [hshare]
          rcases eq_or_ne j i with rfl | hji
          · rw [update_self] at hj
            exact hs.atMost hj
          · rw [update_of_ne hji] at hj
            exact absurd rfl hj
  · rw [hx]
    simp only [stepsLeft]
    omega

theorem migrateReturn_migrates (hx : s.intr c = .returning) :
    Wp False (migrateReturn c) (fun _ => MigrationGood c share s) (fun _ _ => False) s := by
  have hshare : shareAfter share (s.intr c) = share := by rw [hx]; rfl
  have hne : Place.hand c ≠ .runqueue c := by simp
  rw [migrateReturn, wp_bind, wp_curcpu_of_tcpu h.current]
  refine (drain_poured hne).bind fun _ s₁ hp => ?_
  rw [wp_bind, wp_get, wp_bind, wp_assert_of hp.source]
  refine wp_modify.mpr ?_
  have hothers : ∀ j ≠ c, s₁.list (.runqueue j) = s.list (.runqueue j) := fun j hj =>
    hp.others _ (by simp) fun he => hj (by cases he; rfl)
  have htcpu : s₁.tcpu = s.tcpu := by
    rw [hp.same]
    rfl
  refine ⟨?_, ?_, ?_, ⟨_, .nothing hothers htcpu⟩⟩
  · rw [hshare]
    refine ⟨?_, ?_, fun t ht => ?_, ?_, ?_⟩
    · rw [hp.same]
      exact h.cpu
    · rw [hp.same]
      exact h.current
    · rw [hp.same]
      refine h.alive t ?_
      rcases ht with ht | ht
      · replace ht : t ∈ s₁.list (.runqueue c) := ht
        rw [hp.target] at ht
        exact mem_append.mp ht
      · replace ht : t ∈ s₁.list (.hand c) := ht
        rw [hp.source] at ht
        cases ht
    · show share ≤ (s₁.list (.runqueue c)).length
      rw [hp.target, length_append]
      exact h.keeps.trans (Nat.le_add_right _ _)
    · rw [setIntr_intr_self]
      exact hp.source
  · show s₁.inHandOrQueued c = _
    refine inHandOrQueued_eq (by rw [hp.same]) h.cpu hothers ?_
    rw [hp.source, hp.target, append_nil]
  · rw [setIntr_intr_self, hx]
    exact Nat.one_pos

/-- **One step of the migration.** -/
theorem interrupt_migrates (hbusy : s.intr c ≠ .none) (rnd : Nat) :
    Wp False (interrupt c rnd) (fun _ => MigrationGood c share s) (fun _ _ => False) s := by
  rw [interrupt, wp_bind, wp_get]
  have hintr := h.intr
  cases hx : s.intr c with
  | none => exact absurd hx hbusy
  | counting i my total => exact migrateCount_migrates h hx
  | taking toSend oneShare => exact migrateTake_migrates h hx
  | sending i toSend oneShare => exact migrateSend_migrates h hx
  | returning => exact migrateReturn_migrates h hx
  | scheduling fl count =>
    rw [hx] at hintr
    exact hintr.elim
  | rescheduling fl =>
    rw [hx] at hintr
    exact hintr.elim

end

end Steps

/-! ## 5. The whole call -/

section Call

variable {s₀ s : Threads} {c : Nat} {g : MigrationLog}

theorem Migration.inv (h0 : MigrationReady c s₀) (h : Migration c s₀ g s) :
    MigrationOk c g.share s ∧ s.inHandOrQueued c + g.taken = s₀.queued + g.added := by
  induction h with
  | start hc =>
    cases hc
    refine ⟨⟨h0.cpu, h0.current, fun t ht => ?_, Nat.zero_le _, ?_⟩, ?_⟩
    · rcases ht with ht | ht
      · exact h0.alive t ht
      · replace ht : t ∈ s₀.list (.hand c) := ht
        rw [h0.hand] at ht
        cases ht
    · rw [setIntr_intr_self]
      exact ⟨h0.hand, Nat.zero_le _⟩
    · show s₀.queued + s₀.list (.hand c) + 0 = s₀.queued + 0
      rw [h0.hand, Multiset.coe_nil, add_zero]
  | @step g s s' r rnd _ hbusy hc ih =>
    obtain ⟨hok, htotal⟩ := ih
    have hwp := interrupt_migrates hok hbusy rnd
    have hgood : MigrationGood c g.share s s' := by
      cases r with
      | ok a => exact hwp.of_ok hc
      | error e => exact (hwp.of_error hc).elim
    exact ⟨hgood.ok, hgood.total ▸ htotal⟩
  | @elsewhere g s s' added taken _ he ih =>
    obtain ⟨hok, htotal⟩ := ih
    refine ⟨hok.elsewhere he, ?_⟩
    have hq := he.queued
    unfold inHandOrQueued at htotal ⊢
    rw [he.hand]
    calc s'.queued + s.list (.hand c) + (g.taken + taken)
        = (s'.queued + taken) + s.list (.hand c) + g.taken := by abel
      _ = (s.queued + s.list (.hand c) + g.taken) + added := by rw [hq]; abel
      _ = s₀.queued + (g.added + added) := by rw [htotal, add_assoc]

/-- **Migration conserves and balances threads**, whatever other CPUs do meanwhile.  The threads on
the queues and in hand are those from the beginning and what others have added, but for what others
have taken, and at the end no thread is in hand.  The own queue keeps the share that it had.  Every
step comes back, and there are only so many of them; it adds threads other than the current one to
other queues, up to the share, and sets `t_cpu` of just these. -/
theorem migration_conserves_and_balances (h₀ : MigrationReady c s₀) (h : Migration c s₀ g s) :
    s.queued + s.list (.hand c) + g.taken = s₀.queued + g.added ∧
      (s.intr c = .none → s.list (.hand c) = []) ∧
      g.share ≤ (s.list (.runqueue c)).length ∧
      (s.intr c ≠ .none → ∀ rnd, ∃ s', interrupt c rnd s = some (.ok (), s') ∧
        (s'.intr c).stepsLeft s'.numcpus < (s.intr c).stepsLeft s.numcpus ∧
        ∃ given, MigrationStep c (shareAfter g.share (s.intr c)) given s s') := by
  obtain ⟨hok, htotal⟩ := h.inv h₀
  refine ⟨htotal, fun hx => ?_, hok.keeps, fun hbusy rnd => ?_⟩
  · have hintr := hok.intr
    rw [hx] at hintr
    exact hintr
  · obtain ⟨⟨⟩, s', hc, hgood⟩ := (interrupt_migrates hok hbusy rnd).exists_ok
    exact ⟨s', hc, hgood.left, hgood.gives⟩

/-- Two CPUs.  The run queue of CPU 0 has two threads on it, that of CPU 1 none. -/
def lopsided : Threads where
  numcpus := 2
  thread := fun t =>
    if t < 4 then some ⟨.ready, some (if t = 1 then 1 else 0), t, none, none⟩ else none
  list := fun p => if p = .runqueue 0 then [3, 2] else []
  curthread := fun c => c
  isidle := fun _ => false
  switchFl := 1
  intr := fun _ => .none

theorem lopsided_ready : MigrationReady 0 lopsided := by
  refine ⟨by decide, rfl, rfl, ?_⟩
  decide

/-- One of the two threads goes to CPU 1, and one stays. -/
theorem lopsided_migrates : ∃ g s, Migration 0 lopsided g s ∧ s.intr 0 = .none ∧
    s.list (.runqueue 0) = [3] ∧ s.list (.runqueue 1) = [2] ∧ s.list (.hand 0) = [] ∧
    s.queued + s.list (.hand 0) + 0 = lopsided.queued + 0 ∧
    1 ≤ (s.list (.runqueue 0)).length := by
  have h₀ : Migration 0 lopsided ⟨0, 0, 0⟩ _ := .start rfl
  have h₁ := ((h₀.step 0 nofun rfl).step 0 nofun rfl).step 0 nofun rfl
  have h₂ := h₁.step 0 nofun rfl
  have h3 := ((h₂.step 0 nofun rfl).step 0 nofun rfl).step 0 nofun rfl
  have h4 := h3.step 0 nofun rfl
  have hall := migration_conserves_and_balances lopsided_ready h4
  exact ⟨_, _, h4, rfl, rfl, rfl, hall.2.1 rfl, hall.1, hall.2.2.1⟩

end Call

end Os161
