/-
# References in the hands of threads

A counted object is kept alive by the references that somebody holds.  The count is a number in
the object; who holds the references is recorded nowhere in the program, so the record is kept
here: a list with one entry for each reference, saying which thread holds a reference to what.

A thread that gives up what may be the last reference does not always drop it at once.  It HANDS
IT OVER to a clean-up that runs later, and until then the reference is `pending`.  What an object
is owed is the number of references held and pending together.

`Counted` compares the two: the count of every live object covers what it is owed, and under `q`
it is exactly that.  There is one rule for each thing that a step can do to a count.
-/

namespace Os161

open List

/-- The references held by threads, and those handed over to a clean-up still to come. -/
structure Holdings (τ α : Type) where
  refs : List (τ × α)
  pending : List (τ × α)

open Holdings

namespace Holdings

variable {τ α : Type} [DecidableEq α]

/-- Nobody holds anything. -/
def none : Holdings τ α := ⟨[], []⟩

/-- The number of references to `v` among `l`. -/
def tally (l : List (τ × α)) (v : α) : Nat := l.countP fun r => r.2 = v

/-- The number of references to `v`, held or pending. -/
def owed (h : Holdings τ α) (v : α) : Nat := tally h.refs v + tally h.pending v

theorem tally_cons (l : List (τ × α)) (t : τ) (v w : α) :
    tally ((t, v) :: l) w = tally l w + if v = w then 1 else 0 := by
  simp [tally, countP_cons]

variable {l : List (τ × α)} {t : τ} {v : α} {P : α → Prop}

theorem tally_pos (h : (t, v) ∈ l) : 0 < tally l v :=
  countP_pos_iff.mpr ⟨(t, v), h, by simp⟩

variable [DecidableEq τ]

/-- Thread `t` gets a reference to `v`. -/
def take (h : Holdings τ α) (t : τ) (v : α) : Holdings τ α := { h with refs := (t, v) :: h.refs }

/-- Thread `t` drops a reference to `v`. -/
def drop (h : Holdings τ α) (t : τ) (v : α) : Holdings τ α :=
  { h with refs := h.refs.erase (t, v) }

/-- Thread `t` hands a reference to `v` over. -/
def handOver (h : Holdings τ α) (t : τ) (v : α) : Holdings τ α :=
  ⟨h.refs.erase (t, v), (t, v) :: h.pending⟩

/-- The clean-up that thread `t` runs for `v` is over. -/
def settle (h : Holdings τ α) (t : τ) (v : α) : Holdings τ α :=
  { h with pending := h.pending.erase (t, v) }

theorem tally_erase (h : (t, v) ∈ l) (w : α) :
    tally l w = tally (l.erase (t, v)) w + if v = w then 1 else 0 := by
  rw [← tally_cons]
  exact (perm_cons_erase h).countP_eq _

variable {h : Holdings τ α} {t : τ} {v : α}

omit [DecidableEq τ] in
theorem owed_take (w : α) : (h.take t v).owed w = h.owed w + if v = w then 1 else 0 := by
  simp only [owed, take, tally_cons]
  omega

theorem owed_drop (hr : (t, v) ∈ h.refs) (w : α) :
    h.owed w = (h.drop t v).owed w + if v = w then 1 else 0 := by
  simp only [owed, drop, tally_erase hr w]
  omega

theorem owed_handOver (hr : (t, v) ∈ h.refs) (w : α) : (h.handOver t v).owed w = h.owed w := by
  simp only [owed, handOver, tally_cons, tally_erase hr w]
  omega

theorem owed_settle (hp : (t, v) ∈ h.pending) (w : α) :
    h.owed w = (h.settle t v).owed w + if v = w then 1 else 0 := by
  simp only [owed, settle, tally_erase hp w]
  omega

omit [DecidableEq τ] in
/-- Somebody is owed what is held or pending, ... -/
theorem owed_pos {r : τ × α} (hr : r ∈ h.refs ∨ r ∈ h.pending) : 0 < h.owed r.2 := by
  rcases hr with hr | hr
  · exact Nat.add_pos_left (tally_pos hr) _
  · exact Nat.add_pos_right _ (tally_pos hr)

omit [DecidableEq τ] in
/-- ... so that a clean-up that is owed nothing else is the only one to know of its object. -/
theorem not_held_of_owed_le (hp : (t, v) ∈ h.pending) (hle : h.owed v ≤ 1) (t' : τ) :
    (t', v) ∉ h.refs := by
  intro hr
  have hheld := tally_pos hr
  have hpend := tally_pos hp
  unfold owed at hle
  omega

/-- What is held is known of: `P` holds for every object in the record. -/
def All (h : Holdings τ α) (P : α → Prop) : Prop :=
  ∀ r : τ × α, r ∈ h.refs ∨ r ∈ h.pending → P r.2

omit [DecidableEq τ] in
theorem All.owed_eq_zero (ha : h.All fun w => w ≠ v) : h.owed v = 0 := by
  have hzero : ∀ l : List (τ × α), (∀ r ∈ l, r.2 ≠ v) → tally l v = 0 := fun l hl =>
    countP_eq_zero.mpr fun r hr => by simpa using hl r hr
  rw [owed, hzero _ fun r hr => ha r (.inl hr), hzero _ fun r hr => ha r (.inr hr)]

omit [DecidableEq τ] [DecidableEq α] in
theorem All.mono {Q : α → Prop} (ha : h.All P) (hle : ∀ w, P w → Q w) : h.All Q :=
  fun r hr => hle _ (ha r hr)

omit [DecidableEq τ] [DecidableEq α] in
theorem All.take (ha : h.All P) (hv : P v) : (h.take t v).All P := by
  rintro r (hr | hr)
  · rcases mem_cons.mp hr with rfl | hr
    · exact hv
    · exact ha r (.inl hr)
  · exact ha r (.inr hr)

theorem All.drop (ha : h.All P) : (h.drop t v).All P := by
  rintro r (hr | hr)
  · exact ha r (.inl (mem_of_mem_erase hr))
  · exact ha r (.inr hr)

theorem All.handOver (ha : h.All P) (hr : (t, v) ∈ h.refs) : (h.handOver t v).All P := by
  rintro r (hm | hm)
  · exact ha r (.inl (mem_of_mem_erase hm))
  · rcases mem_cons.mp hm with rfl | hm
    · exact ha _ (.inl hr)
    · exact ha r (.inr hm)

theorem All.settle (ha : h.All P) : (h.settle t v).All P := by
  rintro r (hr | hr)
  · exact ha r (.inl hr)
  · exact ha r (.inr (mem_of_mem_erase hr))

theorem All.settle_last (ha : h.All P) (hp : (t, v) ∈ h.pending) (hle : h.owed v ≤ 1) :
    (h.settle t v).All fun w => w ≠ v ∧ P w := by
  intro r hr
  refine ⟨fun he => ?_, ha.settle r hr⟩
  have hpos := owed_pos hr
  have hsettle := owed_settle hp v
  rw [if_pos rfl] at hsettle
  rw [he] at hpos
  omega

end Holdings

/-! ## The counts -/

/-- The counts of the live objects cover what they are owed; under `q` they are exact. -/
structure Counted {τ α : Type} [DecidableEq α] (q : Prop) (live : α → Prop) (rc : α → Nat)
    (h : Holdings τ α) : Prop where
  known : h.All live
  enough : ∀ v, live v → h.owed v ≤ rc v
  exact : q → ∀ v, live v → rc v = h.owed v

namespace Counted

variable {τ α : Type} [DecidableEq τ] [DecidableEq α] {q : Prop} {live live' : α → Prop}
  {rc rc' : α → Nat} {h : Holdings τ α} {t : τ} {v : α} {n : Nat} (hc : Counted q live rc h)

omit [DecidableEq τ] in
theorem none : Counted q (fun _ => False) rc (none : Holdings τ α) where
  known := by
    rintro r (hr | hr)
    · exact absurd hr not_mem_nil
    · exact absurd hr not_mem_nil
  enough := fun _ hf => hf.elim
  exact := fun _ _ hf => hf.elim

include hc

omit [DecidableEq τ] in
theorem congr (hlive : ∀ w, live' w ↔ live w) (hrc : ∀ w, live w → rc' w = rc w) :
    Counted q live' rc' h where
  known := hc.known.mono fun w => (hlive w).mpr
  enough := fun w hw => by
    have hw := (hlive w).mp hw
    rw [hrc w hw]
    exact hc.enough w hw
  exact := fun hq w hw => by
    have hw := (hlive w).mp hw
    rw [hrc w hw]
    exact hc.exact hq w hw

omit [DecidableEq τ] in
theorem take (hv : live v) (hset : ∀ w, rc' w = if w = v then rc v + 1 else rc w) :
    Counted q live rc' (h.take t v) := by
  have hrc : ∀ w, rc' w = rc w + if v = w then 1 else 0 := by
    intro w
    rw [hset]
    by_cases hwv : w = v
    · rw [if_pos hwv, if_pos hwv.symm, hwv]
    · rw [if_neg hwv, if_neg (Ne.symm hwv), Nat.add_zero]
  refine ⟨hc.known.take hv, fun w hw => ?_, fun hq w hw => ?_⟩
  · rw [owed_take, hrc]
    exact Nat.add_le_add_right (hc.enough w hw) _
  · rw [owed_take, hrc, hc.exact hq w hw]

omit [DecidableEq τ] in
theorem create (hv : ¬ live v) (hnew : rc' v = 1) (hrc : ∀ w, live w → rc' w = rc w) :
    Counted q (fun w => live w ∨ w = v) rc' (h.take t v) := by
  have hne : h.All fun w => w ≠ v := hc.known.mono fun w hw he => hv (he ▸ hw)
  have hzero : h.owed v = 0 := hne.owed_eq_zero
  have hsplit : ∀ w, live w ∨ w = v → (h.take t v).owed w = 1 ∧ rc' w = 1 ∨
      live w ∧ (h.take t v).owed w = h.owed w ∧ rc' w = rc w := by
    intro w hw
    rw [owed_take]
    by_cases hwv : v = w
    · rw [if_pos hwv, ← hwv, hzero]
      exact .inl ⟨rfl, hnew⟩
    · have hw := hw.resolve_right (Ne.symm hwv)
      rw [if_neg hwv]
      exact .inr ⟨hw, rfl, hrc w hw⟩
  refine ⟨(hc.known.mono fun w => .inl).take (.inr rfl), ?_, ?_⟩
  · intro w hw
    rcases hsplit w hw with ⟨ho, hr⟩ | ⟨hl, ho, hr⟩
    · exact Nat.le_of_eq (ho.trans hr.symm)
    · rw [ho, hr]
      exact hc.enough w hl
  · intro hq w hw
    rcases hsplit w hw with ⟨ho, hr⟩ | ⟨hl, ho, hr⟩
    · rw [ho, hr]
    · rw [ho, hr]
      exact hc.exact hq w hl

omit [DecidableEq τ] in
/-- A reference goes, and the count with it. -/
theorem release {h' : Holdings τ α} (hk : h'.All live)
    (ho : ∀ w, h.owed w = h'.owed w + if v = w then 1 else 0) (hn : n + 1 = rc v)
    (hset : ∀ w, rc' w = if w = v then n else rc w) : Counted q live rc' h' := by
  have hrc : ∀ w, rc w = rc' w + if v = w then 1 else 0 := by
    intro w
    rw [hset]
    by_cases hwv : w = v
    · rw [if_pos hwv, if_pos hwv.symm, hwv, hn]
    · rw [if_neg hwv, if_neg (Ne.symm hwv), Nat.add_zero]
  refine ⟨hk, fun w hw => ?_, fun hq w hw => ?_⟩
  · have := hc.enough w hw
    rw [ho, hrc] at this
    exact Nat.le_of_add_le_add_right this
  · have := hc.exact hq w hw
    rw [ho, hrc] at this
    exact Nat.add_right_cancel this

theorem drop (hr : (t, v) ∈ h.refs) (hn : n + 1 = rc v)
    (hset : ∀ w, rc' w = if w = v then n else rc w) : Counted q live rc' (h.drop t v) :=
  hc.release hc.known.drop (owed_drop hr) hn hset

/-- A reference is handed over, and the count stays. -/
theorem handOver (hr : (t, v) ∈ h.refs) (hset : ∀ w, rc' w = if w = v then rc v else rc w) :
    Counted q live rc' (h.handOver t v) := by
  have hrc : ∀ w, rc' w = rc w := by
    intro w
    rw [hset]
    split
    · next he => rw [he]
    · rfl
  refine ⟨hc.known.handOver hr, fun w hw => ?_, fun hq w hw => ?_⟩
  · rw [owed_handOver hr, hrc]
    exact hc.enough w hw
  · rw [owed_handOver hr, hrc]
    exact hc.exact hq w hw

theorem settle (hp : (t, v) ∈ h.pending) (hn : n + 1 = rc v)
    (hset : ∀ w, rc' w = if w = v then n else rc w) : Counted q live rc' (h.settle t v) :=
  hc.release hc.known.settle (owed_settle hp) hn hset

/-- A clean-up ends WITHOUT consuming its reference: the count stays too high from then on. -/
theorem lose (hq : ¬ q) (hp : (t, v) ∈ h.pending) : Counted q live rc (h.settle t v) where
  known := hc.known.settle
  enough := fun w hw => by
    have := hc.enough w hw
    rw [owed_settle hp w] at this
    exact Nat.le_trans (Nat.le_add_right _ _) this
  exact := fun hq' => absurd hq' hq

theorem destroy (hp : (t, v) ∈ h.pending) (hv : live v) (hone : rc v = 1)
    (hrc : ∀ w, w ≠ v → live w → rc' w = rc w) :
    Counted q (fun w => w ≠ v ∧ live w) rc' (h.settle t v) where
  known := hc.known.settle_last hp (hone ▸ hc.enough v hv)
  enough := fun w hw => by
    have := hc.enough w hw.2
    rw [owed_settle hp w, if_neg (Ne.symm hw.1)] at this
    rw [hrc w hw.1 hw.2]
    exact this
  exact := fun hq w hw => by
    have := hc.exact hq w hw.2
    rw [owed_settle hp w, if_neg (Ne.symm hw.1)] at this
    rw [hrc w hw.1 hw.2]
    exact this

omit [DecidableEq τ] in
/-- **Nobody holds an object that a clean-up finds with count 1.** -/
theorem not_held (hp : (t, v) ∈ h.pending) (hone : rc v = 1) (t' : τ) : (t', v) ∉ h.refs :=
  not_held_of_owed_le hp (hone ▸ hc.enough v (hc.known _ (.inr hp))) t'

end Counted

end Os161
