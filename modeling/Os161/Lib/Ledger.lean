/-
# A ledger of blocks

A store that hands out numbered blocks keeps two records of which are in use: a map of MARKED
blocks, and the places that refer to them.  Some blocks are in use on their own account
(`fixed`); every other marked block should be named by exactly one reference slot, and every
slot that names a block should name a marked one that nobody else has.

`Sound` is the half of that whose loss corrupts data: what is referred to is marked, is not
fixed, and is referred to once.  `Tight` is the other half: what is marked is accounted for.
The four ways in which a store may change its records (`grow`, `shrink`, `enroll`, `expel`)
keep both, under the guards that an allocator gives for free.

The slot `s` is EMPTY when `ref s = 0`; block 0 is taken to be fixed, so no slot names it.
-/
import Mathlib.Tactic.Common

namespace Os161

open Classical

/-- The records of a store whose reference slots are `S`. -/
@[ext] structure Ledger (S : Type) where
  marked : Set Nat
  fixed : Set Nat
  ref : S → Nat

namespace Ledger

variable {S : Type} {L : Ledger S}

/-- Nothing in use is given away, and nothing is given away twice. -/
structure Sound (L : Ledger S) : Prop where
  zero_fixed : 0 ∈ L.fixed
  fixed_marked : ∀ b ∈ L.fixed, b ∈ L.marked
  ref_marked : ∀ s, L.ref s ≠ 0 → L.ref s ∈ L.marked
  ref_not_fixed : ∀ s, L.ref s ≠ 0 → L.ref s ∉ L.fixed
  inj : ∀ s t, L.ref s ≠ 0 → L.ref s = L.ref t → s = t

/-- Every marked block below `limit` is accounted for. -/
def Tight (L : Ledger S) (limit : Nat) : Prop :=
  ∀ b < limit, b ∈ L.marked → b ∈ L.fixed ∨ ∃ s, L.ref s = b

/-! ## 1. The four changes -/

/-- Slot `s` takes block `b`. -/
noncomputable def grow (L : Ledger S) (s : S) (b : Nat) : Ledger S where
  marked := {c | c = b ∨ c ∈ L.marked}
  fixed := L.fixed
  ref := fun t => if t = s then b else L.ref t

/-- The slots in `D` give up what they hold. -/
noncomputable def shrink (L : Ledger S) (D : Set S) : Ledger S where
  marked := {b | b ∈ L.marked ∧ ∀ s ∈ D, L.ref s ≠ 0 → L.ref s ≠ b}
  fixed := L.fixed
  ref := fun s => if s ∈ D then 0 else L.ref s

/-- Block `b` is put to use on its own account. -/
def enroll (L : Ledger S) (b : Nat) : Ledger S where
  marked := {c | c = b ∨ c ∈ L.marked}
  fixed := {c | c = b ∨ c ∈ L.fixed}
  ref := L.ref

/-- The fixed block `b` is given up. -/
def expel (L : Ledger S) (b : Nat) : Ledger S where
  marked := {c | c ∈ L.marked ∧ c ≠ b}
  fixed := {c | c ∈ L.fixed ∧ c ≠ b}
  ref := L.ref

variable {s : S} {b n : Nat} {D : Set S}

theorem grow_ref_self : (L.grow s b).ref s = b := if_pos rfl

theorem grow_ref_of_ne {t : S} (h : t ≠ s) : (L.grow s b).ref t = L.ref t := if_neg h

theorem shrink_ref_of_mem (h : s ∈ D) : (L.shrink D).ref s = 0 := if_pos h

theorem shrink_ref_of_notMem (h : s ∉ D) : (L.shrink D).ref s = L.ref s :=
  if_neg h

/-! ## 2. They keep the books sound -/

section

variable (h : L.Sound)

include h

theorem Sound.ref_ne (hb : b ∉ L.marked) (s : S) : L.ref s ≠ b := by
  intro hs
  by_cases h0 : L.ref s = 0
  · exact hb (hs ▸ h0 ▸ h.fixed_marked 0 h.zero_fixed)
  · exact hb (hs ▸ h.ref_marked s h0)

theorem Sound.grow (hb : b ∉ L.marked) : (L.grow s b).Sound := by
  refine ⟨h.zero_fixed, fun c hc => .inr (h.fixed_marked c hc), ?_, ?_, ?_⟩
  · intro t ht
    by_cases hts : t = s
    · rw [hts, grow_ref_self]
      exact .inl rfl
    · rw [grow_ref_of_ne hts] at ht ⊢
      exact .inr (h.ref_marked t ht)
  · intro t ht
    by_cases hts : t = s
    · rw [hts, grow_ref_self]
      exact fun hc => hb (h.fixed_marked b hc)
    · rw [grow_ref_of_ne hts] at ht ⊢
      exact h.ref_not_fixed t ht
  · intro t u ht htu
    by_cases hts : t = s <;> by_cases hus : u = s
    · rw [hts, hus]
    · rw [hts, grow_ref_self, grow_ref_of_ne hus] at htu
      exact absurd htu.symm (h.ref_ne hb u)
    · rw [hus, grow_ref_self, grow_ref_of_ne hts] at htu
      exact absurd htu (h.ref_ne hb t)
    · rw [grow_ref_of_ne hts, grow_ref_of_ne hus] at htu
      exact h.inj t u (grow_ref_of_ne hts ▸ ht) htu

theorem Sound.shrink (D : Set S) : (L.shrink D).Sound := by
  -- a slot that still names a block is not in `D` and names what it named before
  have hkeep : ∀ s, (L.shrink D).ref s ≠ 0 → s ∉ D := fun s hs hD => hs (shrink_ref_of_mem hD)
  refine ⟨h.zero_fixed, ?_, ?_, ?_, ?_⟩
  · intro b hb
    exact ⟨h.fixed_marked b hb, fun s _ h0 hs => h.ref_not_fixed s h0 (hs ▸ hb)⟩
  · intro s hs
    have hD := hkeep s hs
    rw [shrink_ref_of_notMem hD] at hs ⊢
    exact ⟨h.ref_marked s hs, fun t ht h0 hts => hD (h.inj t s h0 hts ▸ ht)⟩
  · intro s hs
    have hD := hkeep s hs
    rw [shrink_ref_of_notMem hD] at hs ⊢
    exact h.ref_not_fixed s hs
  · intro s t hs hst
    have ht : (L.shrink D).ref t ≠ 0 := hst ▸ hs
    rw [shrink_ref_of_notMem (hkeep s hs), shrink_ref_of_notMem (hkeep t ht)] at hst
    exact h.inj s t (shrink_ref_of_notMem (hkeep s hs) ▸ hs) hst

theorem Sound.enroll (hb : b ∉ L.marked) : (L.enroll b).Sound := by
  refine ⟨.inr h.zero_fixed, ?_, fun s hs => .inr (h.ref_marked s hs), ?_, h.inj⟩
  · rintro c (rfl | hc)
    · exact .inl rfl
    · exact .inr (h.fixed_marked c hc)
  · rintro s hs (hc | hc)
    · exact h.ref_ne hb s hc
    · exact h.ref_not_fixed s hs hc

theorem Sound.mark (b : Nat) : ({ L with marked := {c | c = b ∨ c ∈ L.marked} } : Ledger S).Sound :=
  ⟨h.zero_fixed, fun c hc => .inr (h.fixed_marked c hc), fun s hs => .inr (h.ref_marked s hs),
    h.ref_not_fixed, h.inj⟩

theorem Sound.expel (hb : b ∈ L.fixed) (h0 : b ≠ 0) : (L.expel b).Sound := by
  refine ⟨⟨h.zero_fixed, h0.symm⟩, fun c hc => ⟨h.fixed_marked c hc.1, hc.2⟩, ?_, ?_, h.inj⟩
  · intro s hs
    exact ⟨h.ref_marked s hs, fun hsb => h.ref_not_fixed s hs (hsb ▸ hb)⟩
  · exact fun s hs hc => h.ref_not_fixed s hs hc.1

end

/-! ## 3. ... and tight -/

theorem Tight.grow (h : L.Tight n) (h0 : L.ref s = 0) (hz : 0 ∈ L.fixed) :
    (L.grow s b).Tight n := by
  rintro c hc (rfl | hm)
  · exact .inr ⟨s, grow_ref_self⟩
  · rcases h c hc hm with hf | ⟨t, ht⟩
    · exact .inl hf
    · by_cases hts : t = s
      · rw [hts, h0] at ht
        exact .inl (ht ▸ hz)
      · exact .inr ⟨t, (grow_ref_of_ne hts).trans ht⟩

theorem Tight.shrink (h : L.Tight n) (hz : 0 ∈ L.fixed) (D : Set S) : (L.shrink D).Tight n := by
  rintro c hc ⟨hm, hout⟩
  rcases h c hc hm with hf | ⟨t, ht⟩
  · exact .inl hf
  · by_cases h0 : L.ref t = 0
    · exact .inl (ht ▸ h0 ▸ hz)
    · have hD : t ∉ D := fun hD => hout t hD h0 ht
      exact .inr ⟨t, (shrink_ref_of_notMem hD).trans ht⟩

theorem Tight.enroll (h : L.Tight n) (b : Nat) : (L.enroll b).Tight n := by
  rintro c hc (rfl | hm)
  · exact .inl (.inl rfl)
  · exact (h c hc hm).imp .inr id

theorem Tight.expel (h : L.Tight n) (b : Nat) : (L.expel b).Tight n := by
  rintro c hc ⟨hm, hne⟩
  exact (h c hc hm).imp (fun hf => ⟨hf, hne⟩) id

end Ledger

end Os161
