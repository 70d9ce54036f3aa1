/-
# Memory seen through a translation

A program sees memory through a map of its own addresses to the addresses of the machine, and the
map is partial.  `through tr mem` is what it sees, and `writeThrough tr v b mem` is the memory after
it has written, where a write to an address that is not mapped does nothing.

Two facts carry most arguments about such programs.  Through an injective map a write is seen at its
own address and nowhere else; and maps that reach different memory do not see each other's writes,
however many there are.  What is seen of a string that was written byte by byte is `putAt`.
-/
import Mathlib.Tactic.Common

namespace Os161

open Function List

variable {ν π β : Type}

/-! ## 1. Writes -/

/-- What is seen at each address. -/
def through (tr : ν → Option π) (mem : π → β) (v : ν) : Option β := (tr v).map mem

/-- No two addresses are mapped to the same place. -/
def OneToOne (tr : ν → Option π) : Prop :=
  ∀ ⦃v w p⦄, tr v = some p → tr w = some p → v = w

/-- The two maps have no place in common. -/
def Separate (tr tr' : ν → Option π) : Prop :=
  ∀ ⦃v w p q⦄, tr v = some p → tr' w = some q → p ≠ q

variable {tr : ν → Option π} {k : Nat}

theorem Separate.symm {tr' : ν → Option π} (h : Separate tr tr') : Separate tr' tr :=
  fun _ _ _ _ hv hw => (h hw hv).symm

theorem through_congr {mem mem' : π → β} (h : ∀ v p, tr v = some p → mem' p = mem p) :
    through tr mem' = through tr mem := by
  funext v
  unfold through
  cases hv : tr v with
  | none => rfl
  | some p => rw [Option.map_some, Option.map_some, h v p hv]

variable [DecidableEq π]

/-- A write, if the address is mapped. -/
def writeThrough (tr : ν → Option π) (v : ν) (b : β) (mem : π → β) : π → β :=
  match tr v with
  | some p => update mem p b
  | none => mem

/-- One write after another. -/
def writeAllThrough (tr : ν → Option π) (writes : List (ν × β)) (mem : π → β) : π → β :=
  writes.foldl (fun mem w => writeThrough tr w.1 w.2 mem) mem

variable {tr tr' : ν → Option π} {mem : π → β}

theorem OneToOne.through_update [DecidableEq ν] (h : OneToOne tr) {v : ν} {p : π}
    (hv : tr v = some p) (b : β) :
    through tr (update mem p b) = update (through tr mem) v (some b) := by
  funext w
  unfold through
  by_cases hw : w = v
  · rw [hw, hv, update_self, Option.map_some, update_self]
  · rw [update_of_ne hw]
    cases htr : tr w with
    | none => rfl
    | some q =>
      have hne : q ≠ p := by
        rintro rfl
        exact hw (h htr hv)
      rw [Option.map_some, Option.map_some, update_of_ne hne]

theorem Separate.through_writeThrough (h : Separate tr tr') (v : ν) (b : β) :
    through tr (writeThrough tr' v b mem) = through tr mem := by
  unfold writeThrough
  cases hv : tr' v with
  | none => rfl
  | some q =>
    refine through_congr fun w p hw => ?_
    exact update_of_ne (h hw hv) _ _

/-- **Separate maps do not see each other's writes.** -/
theorem Separate.through_writeAllThrough (h : Separate tr tr') (writes : List (ν × β)) :
    through tr (writeAllThrough tr' writes mem) = through tr mem := by
  induction writes generalizing mem with
  | nil => rfl
  | cons w writes ih => exact ih.trans (h.through_writeThrough w.1 w.2)

/-! ## 2. Strings -/

/-- What is seen when the string `bs` is at address `a`. -/
def putAt (view : Nat → Option β) (a : Nat) (bs : List β) : Nat → Option β := fun v =>
  if a ≤ v ∧ v < a + bs.length then bs[v - a]? else view v

/-- Several strings, one after another. -/
def putAll (view : Nat → Option β) (ps : List (Nat × List β)) : Nat → Option β :=
  ps.foldl (fun view p => putAt view p.1 p.2) view

variable {view : Nat → Option β} {a v : Nat} {bs : List β} {ps : List (Nat × List β)}

theorem putAt_nil (view : Nat → Option β) (a : Nat) : putAt view a [] = view := by
  funext v
  exact if_neg (by simp only [length_nil]; omega)

theorem putAt_of_outside (hv : v < a ∨ a + bs.length ≤ v) : putAt view a bs v = view v :=
  if_neg (by omega)

theorem putAt_add (hk : k < bs.length) : putAt view a bs (a + k) = bs[k]? := by
  unfold putAt
  rw [if_pos (by omega), Nat.add_sub_cancel_left]

theorem putAt_cons (view : Nat → Option β) (a : Nat) (b : β) (bs : List β) :
    putAt (update view a (some b)) (a + 1) bs = putAt view a (b :: bs) := by
  funext v
  unfold putAt
  rw [length_cons]
  by_cases hv : v = a
  · subst hv
    rw [if_neg (by omega), if_pos (by omega), update_self, Nat.sub_self]
    rfl
  · rw [update_of_ne hv]
    by_cases hin : a + 1 ≤ v ∧ v < a + 1 + bs.length
    · have hsub : v - a = (v - (a + 1)) + 1 := by omega
      rw [if_pos hin, if_pos (by omega), hsub, getElem?_cons_succ]
    · rw [if_neg hin, if_neg (by omega)]

theorem putAt_append (view : Nat → Option β) (a : Nat) (bs bs' : List β) :
    putAt (putAt view a bs) (a + bs.length) bs' = putAt view a (bs ++ bs') := by
  funext v
  unfold putAt
  rw [length_append]
  by_cases hlo : v < a + bs.length
  · rw [if_neg (by omega)]
    by_cases ha : a ≤ v
    · rw [if_pos ⟨ha, hlo⟩, if_pos (by omega), getElem?_append_left (by omega)]
    · rw [if_neg (by omega), if_neg (by omega)]
  · by_cases hhi : v < a + bs.length + bs'.length
    · rw [if_pos (by omega), if_pos (by omega), getElem?_append_right (by omega)]
      congr 1
      omega
    · rw [if_neg (by omega), if_neg (by omega), if_neg (by omega)]

theorem putAll_cons (view : Nat → Option β) (p : Nat × List β) (ps : List (Nat × List β)) :
    putAll view (p :: ps) = putAll (putAt view p.1 p.2) ps := rfl

theorem putAll_snoc (view : Nat → Option β) (ps : List (Nat × List β)) (p : Nat × List β) :
    putAll view (ps ++ [p]) = putAt (putAll view ps) p.1 p.2 := by
  simp [putAll]

theorem putAll_of_outside (hv : ∀ p ∈ ps, v < p.1 ∨ p.1 + p.2.length ≤ v) :
    putAll view ps v = view v := by
  induction ps generalizing view with
  | nil => rfl
  | cons p ps ih =>
    rw [putAll_cons, ih fun q hq => hv q (mem_cons_of_mem _ hq)]
    exact putAt_of_outside (hv p mem_cons_self)

/-- **Strings that no later one overlaps** can all be read in the end. -/
theorem putAll_add
    (hps : ps.Pairwise fun p q => ∀ k < p.2.length, p.1 + k < q.1 ∨ q.1 + q.2.length ≤ p.1 + k)
    {p : Nat × List β} (hp : p ∈ ps) (hk : k < p.2.length) :
    putAll view ps (p.1 + k) = p.2[k]? := by
  induction ps generalizing view with
  | nil => cases hp
  | cons q ps ih =>
    obtain ⟨hhead, htail⟩ := pairwise_cons.mp hps
    rw [putAll_cons]
    rcases mem_cons.mp hp with rfl | hp
    · rw [putAll_of_outside fun q hq => hhead q hq k hk, putAt_add hk]
    · exact ih htail hp

end Os161
