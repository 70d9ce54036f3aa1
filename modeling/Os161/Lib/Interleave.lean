/-
# Threads that take turns

A concurrent program is given by what ONE thread can do next, from where it stands (its control
point, a `κ`) and what all threads share (a `σ`).  A thread that has to wait for something can do
nothing; a thread with a choice can do several things.  A run lets any thread make its next step,
one after the other, in any order.

Two patterns of such programs have rules of their own here.  A LOCK is a variable that names its
holder, and which threads hold it can be read off their control points (`Guarded`).  A WAIT
CHANNEL is a list of threads, each at a control point from where it goes on only when it has been
taken off the list (`Channel`).  How many threads are at certain control points is counted by
`crowd`.
-/
import Mathlib.Data.Set.Card

namespace Os161

open Function List

section

variable {α : Type} {p : Prop} [Decidable p] {o a : α}

theorem mem_when (h : o ∈ if p then [a] else []) : p ∧ o = a := by simpa using h

theorem mem_unless (h : o ∈ if p then [] else [a]) : ¬ p ∧ o = a := by simpa using h

end

/-- Where the threads are, and what they share. -/
structure Procs (τ κ σ : Type) where
  pc : τ → κ
  shared : σ

namespace Procs

variable {τ κ σ : Type}

section Runs

variable [DecidableEq τ]

/-- Thread `t` makes a step to the control point `o.1`, which leaves the shared state `o.2`. -/
def move (c : Procs τ κ σ) (t : τ) (o : κ × σ) : Procs τ κ σ :=
  ⟨update c.pc t o.1, o.2⟩

@[simp] theorem move_shared (c : Procs τ κ σ) (t : τ) (o : κ × σ) : (c.move t o).shared = o.2 := rfl

@[simp] theorem move_pc_self (c : Procs τ κ σ) (t : τ) (o : κ × σ) : (c.move t o).pc t = o.1 :=
  update_self _ _ _

variable {c c₀ : Procs τ κ σ} {ok : Procs τ κ σ → τ → κ × σ → Prop}
  {legal : Procs τ κ σ → τ → κ × σ → Bool}

@[simp] theorem move_pc_of_ne {t u : τ} {o : κ × σ} (h : u ≠ t) :
    (c.move t o).pc u = c.pc u := update_of_ne h _ _

/-- What a step leaves as it is at its own thread, it leaves as it is. -/
theorem move_congr {α : Type} {t : τ} {o : κ × σ} {f : κ → α} (h : f o.1 = f (c.pc t)) (u : τ) :
    f ((c.move t o).pc u) = f (c.pc u) := by
  rcases eq_or_ne u t with rfl | hne
  · rw [move_pc_self, h]
  · rw [move_pc_of_ne hne]

theorem move_move (c : Procs τ κ σ) (t : τ) (o o' : κ × σ) :
    (c.move t o).move t o' = c.move t o' := by
  simp [move]

/-- What thread `t` can do next. -/
abbrev Next (τ κ σ : Type) := τ → κ → σ → List (κ × σ)

/-- The states that steps of the threads can lead to, if every step meets the condition `ok`. -/
inductive Reach (next : Next τ κ σ) (ok : Procs τ κ σ → τ → κ × σ → Prop) (c₀ : Procs τ κ σ) :
    Procs τ κ σ → Prop
  | refl : Reach next ok c₀ c₀
  | step {c : Procs τ κ σ} (h : Reach next ok c₀ c) (t : τ) (o : κ × σ)
      (ho : o ∈ next t (c.pc t) c.shared) (hok : ok c t o) : Reach next ok c₀ (c.move t o)

variable {next : Next τ κ σ}

/-- **The invariant rule.**  What every step keeps holds in every state that is reached. -/
theorem Reach.invariant {I : Procs τ κ σ → Prop} (h0 : I c₀)
    (hstep : ∀ c t o, I c → o ∈ next t (c.pc t) c.shared → ok c t o → I (c.move t o))
    (h : Reach next ok c₀ c) : I c := by
  induction h with
  | refl => exact h0
  | step _ t o ho hok ih => exact hstep _ t o ih ho hok

theorem Reach.mono {ok' : Procs τ κ σ → τ → κ × σ → Prop} (hle : ∀ c t o, ok c t o → ok' c t o)
    (h : Reach next ok c₀ c) : Reach next ok' c₀ c := by
  induction h with
  | refl => exact .refl
  | step _ t o ho hok ih => exact .step ih t o ho (hle _ t o hok)

/-- Follow a schedule: which thread steps, and which of its possible steps it makes, each of which
has to pass the check `legal`. -/
def follow (next : Next τ κ σ) (legal : Procs τ κ σ → τ → κ × σ → Bool) :
    List (τ × Nat) → Procs τ κ σ → Option (Procs τ κ σ)
  | [], c => some c
  | (t, i) :: rest, c =>
    match (next t (c.pc t) c.shared)[i]? with
    | some o => if legal c t o then follow next legal rest (c.move t o) else none
    | none => none

theorem reach_of_follow (hlegal : ∀ c t o, legal c t o = true → ok c t o) :
    ∀ {l : List (τ × Nat)} {d : Procs τ κ σ}, Reach next ok c₀ d →
      follow next legal l d = some c → Reach next ok c₀ c
  | [], d, hd, h => Option.some.inj h ▸ hd
  | (t, i) :: rest, d, hd, h => by
    rw [follow] at h
    cases ho : (next t (d.pc t) d.shared)[i]? with
    | none =>
      rw [ho] at h
      cases h
    | some o =>
      rw [ho] at h
      dsimp only at h
      split_ifs at h with hl
      exact reach_of_follow hlegal (hd.step t o (mem_of_getElem? ho) (hlegal d t o hl)) h

theorem reach_follow (hlegal : ∀ c t o, legal c t o = true → ok c t o) {l : List (τ × Nat)}
    (h : (follow next legal l c₀).isSome = true) :
    Reach next ok c₀ ((follow next legal l c₀).get h) :=
  reach_of_follow hlegal .refl (Option.some_get h).symm

end Runs

/-! ## Locks -/

/-- The lock is held by exactly the thread whose control point is in `In`. -/
def Guarded (lock : σ → Option τ) (In : κ → Bool) (c : Procs τ κ σ) : Prop :=
  ∀ t, lock c.shared = some t ↔ In (c.pc t) = true

section Locks

variable {lock : σ → Option τ} {In : κ → Bool} {c : Procs τ κ σ} {t u : τ} {o : κ × σ}

theorem Guarded.unique (h : Guarded lock In c) (ht : In (c.pc t) = true)
    (hu : In (c.pc u) = true) : t = u :=
  Option.some.inj (((h t).mpr ht).symm.trans ((h u).mpr hu))

theorem Guarded.not_in (h : Guarded lock In c) (hl : lock c.shared = none) (t : τ) :
    In (c.pc t) = false := by
  by_contra ht
  have := (h t).mpr (Bool.eq_true_of_not_eq_false ht)
  rw [hl] at this
  cases this

variable [DecidableEq τ]

section

variable (h : Guarded lock In c)

include h

theorem Guarded.keep (hlock : lock o.2 = lock c.shared)
    (hin : In o.1 = In (c.pc t)) : Guarded lock In (c.move t o) := by
  intro u
  rw [move_shared, hlock]
  rcases eq_or_ne u t with rfl | hne
  · rw [move_pc_self, hin]
    exact h u
  · rw [move_pc_of_ne hne]
    exact h u

theorem Guarded.acquire (hfree : lock c.shared = none)
    (hlock : lock o.2 = some t) (hin : In o.1 = true) : Guarded lock In (c.move t o) := by
  intro u
  rw [move_shared, hlock]
  rcases eq_or_ne u t with rfl | hne
  · simpa using hin
  · rw [move_pc_of_ne hne, h.not_in hfree u]
    exact ⟨fun hu => absurd (Option.some.inj hu).symm hne, nofun⟩

theorem Guarded.release (ht : In (c.pc t) = true) (hlock : lock o.2 = none)
    (hin : In o.1 = false) : Guarded lock In (c.move t o) := by
  intro u
  rw [move_shared, hlock]
  rcases eq_or_ne u t with rfl | hne
  · simpa using hin
  · rw [move_pc_of_ne hne]
    exact ⟨nofun, fun hu => absurd (h.unique hu ht) hne⟩

/-- **What a step can do to a lock.** -/
theorem Guarded.step (hstep : (lock o.2 = lock c.shared ∧ In o.1 = In (c.pc t)) ∨
      (lock c.shared = none ∧ lock o.2 = some t ∧ In o.1 = true) ∨
      (In (c.pc t) = true ∧ lock o.2 = none ∧ In o.1 = false)) : Guarded lock In (c.move t o) := by
  rcases hstep with ⟨hlock, hin⟩ | ⟨hfree, hlock, hin⟩ | ⟨ht, hlock, hin⟩
  · exact h.keep hlock hin
  · exact h.acquire hfree hlock hin
  · exact h.release ht hlock hin

end

end Locks

/-! ## Wait channels -/

/-- The threads on the channel are at control points in `Sl`, and none is on it twice. -/
structure Channel (chan : σ → List τ) (Sl : κ → Bool) (c : Procs τ κ σ) : Prop where
  nodup : (chan c.shared).Nodup
  asleep : ∀ t ∈ chan c.shared, Sl (c.pc t) = true

section Channels

variable {chan : σ → List τ} {Sl Sl' : κ → Bool} {c : Procs τ κ σ} {t : τ} {o : κ × σ}

theorem Channel.mono (h : Channel chan Sl c) (hle : ∀ k, Sl k = true → Sl' k = true) :
    Channel chan Sl' c := ⟨h.nodup, fun t ht => hle _ (h.asleep t ht)⟩

variable [DecidableEq τ]

/-- A step of a thread that is not on the channel, which takes some threads off it or none. -/
theorem Channel.keep (h : Channel chan Sl c) (ht : t ∉ chan c.shared)
    (hsub : (chan o.2).Sublist (chan c.shared)) : Channel chan Sl (c.move t o) where
  nodup := h.nodup.sublist hsub
  asleep u hu := by
    have hmem : u ∈ chan c.shared := hsub.mem hu
    have hne : u ≠ t := fun he => ht (he ▸ hmem)
    rw [move_pc_of_ne hne]
    exact h.asleep u hmem

theorem Channel.sleep (h : Channel chan Sl c) (ht : t ∉ chan c.shared)
    (hchan : chan o.2 = chan c.shared ++ [t]) (hsl : Sl o.1 = true) :
    Channel chan Sl (c.move t o) where
  nodup := by
    rw [move_shared, hchan, ← concat_eq_append]
    exact h.nodup.concat ht
  asleep u hu := by
    rw [move_shared, hchan] at hu
    rcases eq_or_ne u t with rfl | hne
    · simpa using hsl
    · rw [move_pc_of_ne hne]
      refine h.asleep u ?_
      rcases mem_append.mp hu with hu | hu
      · exact hu
      · exact absurd (mem_singleton.mp hu) hne

/-- **What a step can do to a channel.** -/
theorem Channel.step (h : Channel chan Sl c) (ht : Sl (c.pc t) = true → t ∉ chan c.shared)
    (hstep : (chan o.2).Sublist (chan c.shared) ∨
      (chan o.2 = chan c.shared ++ [t] ∧ Sl o.1 = true)) : Channel chan Sl (c.move t o) := by
  have hnot : t ∉ chan c.shared := fun hmem => ht (h.asleep t hmem) hmem
  rcases hstep with hsub | ⟨hchan, hsl⟩
  · exact h.keep hnot hsub
  · exact h.sleep hnot hchan hsl

end Channels

/-! ## Crowds -/

section Crowds

variable {P : κ → Bool} {c : Procs τ κ σ} {t : τ} {o : κ × σ}

/-- All but finitely many threads are at the control point `idle`. -/
def Few (idle : κ) (c : Procs τ κ σ) : Prop := {t | c.pc t ≠ idle}.Finite

variable {idle : κ} {chan : σ → List τ}

theorem Few.finite (h : Few idle c) (hP : P idle = false) : {t | P (c.pc t) = true}.Finite := by
  refine h.subset fun t ht he => ?_
  rw [Set.mem_ofPred_eq, he, hP] at ht
  cases ht

theorem Few.move [DecidableEq τ] (h : Few idle c) (t : τ) (o : κ × σ) : Few idle (c.move t o) := by
  refine (h.insert t).subset fun u hu => ?_
  rcases eq_or_ne u t with rfl | hne
  · exact Set.mem_insert u _
  · rw [Set.mem_ofPred_eq, move_pc_of_ne hne] at hu
    exact Set.mem_insert_of_mem t hu

/-- The number of threads at control points in `P`. -/
noncomputable def crowd (P : κ → Bool) (c : Procs τ κ σ) : Nat := {t | P (c.pc t) = true}.ncard

/-- **A step moves one thread in or out.** -/
theorem crowd_move [DecidableEq τ] (t : τ) (o : κ × σ) (hfin : {u | P (c.pc u) = true}.Finite) :
    (c.move t o).crowd P + (P (c.pc t)).toNat = c.crowd P + (P o.1).toNat := by
  have hsplit : ∀ d : Procs τ κ σ, {u | P (d.pc u) = true}.Finite →
      d.crowd P = ({u | P (d.pc u) = true} \ {t}).ncard + (P (d.pc t)).toNat := by
    intro d hd
    cases hP : P (d.pc t) with
    | true => exact (Set.ncard_sdiff_singleton_add_one (Set.mem_ofPred_eq ▸ hP) hd).symm
    | false =>
      rw [Set.sdiff_singleton_eq_self (by simp [hP])]
      rfl
  have hrest : {u | P ((c.move t o).pc u) = true} \ {t} = {u | P (c.pc u) = true} \ {t} := by
    ext u
    refine and_congr_left fun hne => ?_
    rw [Set.mem_ofPred_eq, Set.mem_ofPred_eq, move_pc_of_ne hne]
  have hfin' : {u | P ((c.move t o).pc u) = true}.Finite := by
    refine Set.Finite.of_sdiff ?_ (Set.finite_singleton t)
    rw [hrest]
    exact hfin.subset Set.sdiff_subset
  rw [hsplit (c.move t o) hfin', hsplit c hfin, hrest, move_pc_self]
  omega

theorem Guarded.crowd_le_one {lock : σ → Option τ} {In : κ → Bool} (h : Guarded lock In c)
    (hle : ∀ k, P k = true → In k = true) : c.crowd P ≤ 1 := by
  have hsub : {t | P (c.pc t) = true}.Subsingleton :=
    fun t ht u hu => h.unique (hle _ ht) (hle _ hu)
  exact (Set.ncard_le_one hsub.finite).mpr fun t ht u hu => hsub ht hu

/-- The threads that are at control points in `P` and not on the channel. -/
def offChannel (chan : σ → List τ) (P : κ → Bool) (c : Procs τ κ σ) : Set τ :=
  {t | P (c.pc t) = true ∧ t ∉ chan c.shared}

/-- The threads that are asleep are on the channel, or have been woken. -/
theorem Channel.crowd_eq (h : Channel chan P c) (hfin : {t | P (c.pc t) = true}.Finite) :
    c.crowd P = (chan c.shared).length + (offChannel chan P c).ncard := by
  have hon : {t | t ∈ chan c.shared}.ncard = (chan c.shared).length := by
    classical
    rw [← toFinset_card_of_nodup h.nodup, ← Set.ncard_coe_finset, coe_toFinset]
  have hunion : {t | P (c.pc t) = true} = {t | t ∈ chan c.shared} ∪ offChannel chan P c := by
    ext t
    by_cases ht : t ∈ chan c.shared
    · simp [ht, h.asleep t ht]
    · simp [ht, offChannel]
  have hdisj : Disjoint {t | t ∈ chan c.shared} (offChannel chan P c) :=
    Set.disjoint_left.mpr fun t ht hw => hw.2 ht
  rw [crowd, hunion, Set.ncard_union_eq hdisj (finite_toSet _) (hfin.subset fun t ht => ht.1), hon]

theorem Channel.length_le (h : Channel chan P c) (hfin : {t | P (c.pc t) = true}.Finite) :
    (chan c.shared).length ≤ c.crowd P := by
  rw [h.crowd_eq hfin]
  exact Nat.le_add_right _ _

end Crowds

end Procs

end Os161
