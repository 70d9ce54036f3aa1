/-
# Things kept in labelled places

A cache, a pager or an archive keeps each of its items in one of many places, and writes on the
place what it holds.  `label p` is what is written on place `p`, `none` if the place is free, and
`data p` is what lies there.  The items themselves are given by `items`, a key and its value each.

`Shelved label data items` says that the labels are right: every item has exactly one place, and
every labelled place has the item that its label names.  Three changes keep that: a new item is put
into a free place, an item is moved to a free place, and an item is written over where it is.
-/
import Mathlib.Tactic.Common

namespace Os161

open Function

variable {π κ β : Type}

/-- Every item is in exactly one place, under its own label. -/
structure Shelved (label : π → Option κ) (data : π → β) (items : κ → Option β) : Prop where
  unique : ∀ p q k, label p = some k → label q = some k → p = q
  sound : ∀ p k, label p = some k → items k = some (data p)
  complete : ∀ k x, items k = some x → ∃ p, label p = some k

theorem Shelved.nil (data : π → β) : Shelved (fun _ => (none : Option κ)) data fun _ => none :=
  ⟨nofun, nofun, nofun⟩

variable {label : π → Option κ} {data : π → β} {items : κ → Option β} {p q : π} {k : κ}

variable [DecidableEq π] [DecidableEq κ]

section

variable (h : Shelved label data items)

include h

theorem Shelved.put (hp : label p = none) (hk : items k = none)
    (x : β) : Shelved (update label p (some k)) (update data p x) (update items k (some x)) := by
  -- The new key is on no label yet.
  have hfresh : ∀ q, label q ≠ some k := by
    intro q hq
    rw [h.sound q k hq] at hk
    cases hk
  constructor
  · intro q r k' hq hr
    rw [update_apply] at hq hr
    split_ifs at hq hr with hqp hrp hrp
    · rw [hqp, hrp]
    · cases hq
      exact absurd hr (hfresh r)
    · cases hr
      exact absurd hq (hfresh q)
    · exact h.unique q r k' hq hr
  · intro q k' hq
    rw [update_apply] at hq
    split_ifs at hq with hqp
    · cases hq
      rw [hqp, update_self, update_self]
    · have hne : k' ≠ k := fun he => hfresh q (he ▸ hq)
      rw [update_of_ne hqp, update_of_ne hne]
      exact h.sound q k' hq
  · intro k' y hy
    by_cases hkk : k' = k
    · exact ⟨p, by rw [hkk, update_self]⟩
    · rw [update_of_ne hkk] at hy
      obtain ⟨q, hq⟩ := h.complete k' y hy
      refine ⟨q, ?_⟩
      rw [update_of_ne, hq]
      intro he
      rw [he, hp] at hq
      cases hq

/-- An item is moved to a free place, and its old place becomes free. -/
theorem Shelved.move (hp : label p = some k) (hq : label q = none) :
    Shelved (update (update label p none) q (some k)) (update data q (data p)) items := by
  have hpq : p ≠ q := by
    intro he
    rw [he, hq] at hp
    cases hp
  -- What the labels say now.
  have hlabel : ∀ r k', update (update label p none) q (some k) r = some k' ↔
      (r = q ∧ k' = k) ∨ (r ≠ q ∧ r ≠ p ∧ label r = some k') := by
    intro r k'
    by_cases hrq : r = q
    · simp [hrq, eq_comm]
    · by_cases hrp : r = p
      · simp [hrp, hpq]
      · simp [hrq, hrp]
  constructor
  · intro r r' k' hr hr'
    rcases (hlabel r k').mp hr with ⟨hrq, hk⟩ | ⟨-, hrp, hr⟩ <;>
      rcases (hlabel r' k').mp hr' with ⟨hrq', hk'⟩ | ⟨-, hrp', hr'⟩
    · rw [hrq, hrq']
    · exact absurd (h.unique r' p k (hk ▸ hr') hp) hrp'
    · exact absurd (h.unique r p k (hk' ▸ hr) hp) hrp
    · exact h.unique r r' k' hr hr'
  · intro r k' hr
    rcases (hlabel r k').mp hr with ⟨hrq, hk⟩ | ⟨hrq, -, hr⟩
    · rw [hrq, hk, update_self]
      exact h.sound p k hp
    · rw [update_of_ne hrq]
      exact h.sound r k' hr
  · intro k' x hx
    by_cases hkk : k' = k
    · exact ⟨q, (hlabel q k').mpr (.inl ⟨rfl, hkk⟩)⟩
    · obtain ⟨r, hr⟩ := h.complete k' x hx
      refine ⟨r, (hlabel r k').mpr (.inr ⟨?_, ?_, hr⟩)⟩
      · intro he
        rw [he, hq] at hr
        cases hr
      · intro he
        rw [he, hp] at hr
        exact hkk (Option.some.inj hr).symm

theorem Shelved.write (hp : label p = some k) (x : β) :
    Shelved label (update data p x) (update items k (some x)) := by
  constructor
  · exact h.unique
  · intro r k' hr
    by_cases hrp : r = p
    · rw [hrp, hp] at hr
      cases hr
      rw [hrp, update_self, update_self]
    · have hne : k' ≠ k := fun he => hrp (h.unique r p k (he ▸ hr) hp)
      rw [update_of_ne hrp, update_of_ne hne]
      exact h.sound r k' hr
  · intro k' y hy
    by_cases hkk : k' = k
    · exact ⟨p, hkk ▸ hp⟩
    · rw [update_of_ne hkk] at hy
      exact h.complete k' y hy

end

end Os161
