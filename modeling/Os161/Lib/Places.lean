/-
# Things that are in one place at a time

A scheduler, an allocator or a pool of buffers moves things between lists, and each thing is on at
most one of them, once.  `Exclusive f` says so of the family of lists `f`, one for each place.  A
move takes a thing out of one list (`takeOut`) and puts it into another; between the two it is
nowhere, which is what the second half of the move needs (`Exclusive.put`).
-/
import Mathlib.Data.List.Nodup

namespace Os161

open Function

variable {π τ : Type}

/-- Each list is without repetitions, and no two lists share an element. -/
structure Exclusive (f : π → List τ) : Prop where
  nodup : ∀ p, (f p).Nodup
  unique : ∀ p q t, t ∈ f p → t ∈ f q → p = q

theorem Exclusive.nil : Exclusive fun _ : π => ([] : List τ) :=
  ⟨fun _ => List.nodup_nil, fun _ _ _ ht => absurd ht List.not_mem_nil⟩

variable [DecidableEq π] {f : π → List τ} {p q : π} {t u : τ} {l : List τ}

/-! ## 1. Putting a thing in -/

/-- What is where after `t` was put into the list of `p`, at whichever end. -/
theorem mem_put (hl : l.Perm (t :: f p)) : u ∈ update f p l q ↔ u ∈ f q ∨ (q = p ∧ u = t) := by
  rw [update_apply]
  split_ifs with hq
  · subst hq
    rw [hl.mem_iff, List.mem_cons]
    exact ⟨fun h => h.elim (fun he => .inr ⟨rfl, he⟩) .inl,
      fun h => h.elim .inr fun he => .inl he.2⟩
  · exact ⟨.inl, fun h => h.elim id fun he => absurd he.1 hq⟩

theorem Exclusive.put (h : Exclusive f) (hl : l.Perm (t :: f p)) (ht : ∀ q, t ∉ f q) :
    Exclusive (update f p l) := by
  constructor
  · intro q
    rw [update_apply]
    split_ifs with hq
    · exact hl.nodup_iff.mpr (List.nodup_cons.mpr ⟨ht p, h.nodup p⟩)
    · exact h.nodup q
  · intro q r u hq hr
    rcases (mem_put hl).mp hq with hq' | ⟨rfl, rfl⟩
    · rcases (mem_put hl).mp hr with hr' | ⟨rfl, rfl⟩
      · exact h.unique q r u hq' hr'
      · exact absurd hq' (ht q)
    · rcases (mem_put hl).mp hr with hr' | ⟨rfl, -⟩
      · exact absurd hr' (ht r)
      · rfl

/-! ## 2. Taking a thing out -/

section Take

variable [DecidableEq τ]

/-- The lists without the `t` of `p`. -/
def takeOut (f : π → List τ) (p : π) (t : τ) : π → List τ := update f p ((f p).erase t)

theorem Exclusive.mem_takeOut (h : Exclusive f) (ht : t ∈ f p) :
    u ∈ takeOut f p t q ↔ u ∈ f q ∧ u ≠ t := by
  rw [takeOut, update_apply]
  split_ifs with hq
  · subst hq
    rw [(h.nodup q).mem_erase_iff, and_comm]
  · exact ⟨fun hu => ⟨hu, fun he => hq (h.unique q p t (he ▸ hu) ht)⟩, And.left⟩

theorem Exclusive.not_mem_takeOut (h : Exclusive f) (ht : t ∈ f p) (q : π) :
    t ∉ takeOut f p t q := fun hq => ((h.mem_takeOut ht).mp hq).2 rfl

theorem Exclusive.takeOut (h : Exclusive f) (ht : t ∈ f p) : Exclusive (takeOut f p t) := by
  constructor
  · intro q
    rw [Os161.takeOut, update_apply]
    split_ifs with hq
    · exact (h.nodup p).erase t
    · exact h.nodup q
  · intro q r u hq hr
    exact h.unique q r u ((h.mem_takeOut ht).mp hq).1 ((h.mem_takeOut ht).mp hr).1

end Take

end Os161
