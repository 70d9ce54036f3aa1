/-
# Rings

A queue in `n` slots that are used in turn.  `tail` is the slot of the oldest item, `head` the slot
that the next one goes to, and the two are equal when the queue is empty; so that a full one can be
told from an empty one, one slot always stays free.

`RingAt` says which items are in a ring.  The three steps of its users have a lemma each: a slot is
filled before `head` moves on, `head` moves on, `tail` moves on.
-/
import Mathlib.Data.Nat.ModEq

namespace Os161

open Function List

variable {α : Type}

/-- The `k` items from slot `tail` on. -/
def ringItems (slots : Nat → α) (n tail k : Nat) : List α :=
  (List.range k).map fun i => slots ((tail + i) % n)

theorem ringItems_cons (slots : Nat → α) {n tail : Nat} (k : Nat) (htail : tail < n) :
    ringItems slots n tail (k + 1) = slots tail :: ringItems slots n ((tail + 1) % n) k := by
  have hshift : ∀ i, (tail + (i + 1)) % n = ((tail + 1) % n + i) % n := by
    intro i
    rw [Nat.mod_add_mod]
    congr 1
    omega
  rw [ringItems, range_succ_eq_map, map_cons, map_map, Nat.add_zero, Nat.mod_eq_of_lt htail]
  exact congrArg _ (map_congr_left fun i _ => congrArg slots (hshift i))

theorem ringItems_snoc (slots : Nat → α) (n tail k : Nat) :
    ringItems slots n tail (k + 1) = ringItems slots n tail k ++ [slots ((tail + k) % n)] := by
  simp [ringItems, range_succ]

theorem ringItems_update (slots : Nat → α) {n tail k : Nat} (hk : k < n) (x : α) :
    ringItems (update slots ((tail + k) % n) x) n tail k = ringItems slots n tail k := by
  refine map_congr_left fun i hi => update_of_ne ?_ _ _
  have hi : i < k := mem_range.mp hi
  intro heq
  have := (Nat.ModEq.add_left_cancel' tail heq : i ≡ k [MOD n])
  rw [Nat.ModEq, Nat.mod_eq_of_lt (hi.trans hk), Nat.mod_eq_of_lt hk] at this
  omega

/-- **The items in a ring**, the oldest one first. -/
structure RingAt (slots : Nat → α) (n head tail : Nat) (items : List α) : Prop where
  tail_lt : tail < n
  length_lt : items.length < n
  head_eq : head = (tail + items.length) % n
  items_eq : items = ringItems slots n tail items.length

namespace RingAt

variable {slots : Nat → α} {n head tail : Nat} {items : List α}

theorem empty (slots : Nat → α) (htail : tail < n) : RingAt slots n tail tail [] where
  tail_lt := htail
  length_lt := Nat.zero_lt_of_lt htail
  head_eq := by simp [Nat.mod_eq_of_lt htail]
  items_eq := rfl

section

variable (h : RingAt slots n head tail items)

include h

theorem length_eq : items.length = (head + n - tail) % n := by
  have htail := h.tail_lt
  have hlength := h.length_lt
  rw [h.head_eq]
  rcases Nat.lt_or_ge (tail + items.length) n with hlt | hge
  · have : tail + items.length + n - tail = items.length + n := by omega
    rw [Nat.mod_eq_of_lt hlt, this, Nat.add_mod_right, Nat.mod_eq_of_lt hlength]
  · have hwrap : (tail + items.length) % n = tail + items.length - n := by
      rw [Nat.mod_eq_sub_mod hge, Nat.mod_eq_of_lt (by omega)]
    have : tail + items.length - n + n - tail = items.length := by omega
    rw [hwrap, this, Nat.mod_eq_of_lt hlength]

theorem full_iff : (head + 1) % n = tail ↔ items.length + 1 = n := by
  have htail := h.tail_lt
  have hlength := h.length_lt
  have hnext : (head + 1) % n = (tail + (items.length + 1)) % n := by
    rw [h.head_eq, Nat.mod_add_mod, Nat.add_assoc]
  rw [hnext]
  constructor
  · intro heq
    by_contra hne
    have : (items.length + 1) ≡ 0 [MOD n] := by
      refine Nat.ModEq.add_left_cancel' tail ?_
      rw [Nat.ModEq, heq, Nat.add_zero, Nat.mod_eq_of_lt htail]
    rw [Nat.ModEq, Nat.mod_eq_of_lt (by omega), Nat.zero_mod] at this
    omega
  · intro heq
    rw [heq, Nat.add_mod_right, Nat.mod_eq_of_lt htail]

theorem store (x : α) : RingAt (update slots head x) n head tail items where
  __ := h
  items_eq := by
    rw [h.head_eq, ringItems_update slots h.length_lt]
    exact h.items_eq

theorem push (hroom : items.length + 1 < n) :
    RingAt slots n ((head + 1) % n) tail (items ++ [slots head]) where
  tail_lt := h.tail_lt
  length_lt := by simpa using hroom
  head_eq := by
    rw [h.head_eq, Nat.mod_add_mod, length_append, length_singleton, Nat.add_assoc]
  items_eq := by
    rw [length_append, length_singleton, ringItems_snoc, ← h.head_eq, ← h.items_eq]

theorem head?_eq (hne : items ≠ []) : items.head? = some (slots tail) := by
  obtain ⟨k, hk⟩ := Nat.exists_eq_succ_of_ne_zero fun h0 => hne (length_eq_zero_iff.mp h0)
  rw [h.items_eq, hk, ringItems_cons slots k h.tail_lt, head?_cons]

theorem pop (hne : items ≠ []) : RingAt slots n head ((tail + 1) % n) items.tail := by
  obtain ⟨k, hk⟩ := Nat.exists_eq_succ_of_ne_zero fun h0 => hne (length_eq_zero_iff.mp h0)
  have hlength : items.tail.length = k := by simp [hk]
  have hlt := h.length_lt
  constructor
  · exact Nat.mod_lt _ (Nat.zero_lt_of_lt h.tail_lt)
  · omega
  · rw [hlength, Nat.mod_add_mod, h.head_eq, hk]
    congr 1
    omega
  · rw [hlength]
    conv_lhs => rw [h.items_eq, hk, ringItems_cons slots k h.tail_lt, tail_cons]

end

end RingAt

end Os161
