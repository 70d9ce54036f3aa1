/-
# Singly linked lists

A list in C is a cell that holds the first element and, in each element, a cell that holds the next
one.  `Links next h l` says that following `next` from `h` visits the elements `l` and then ends.
The two loops that such lists are used with are here with their rules: `forLinks` walks down a list
until its body says stop, `unlink` takes an element out through the cell that points to it.

Both loops are given a bound on their rounds and stop the machine when it is used up, because a list
that has run into a cycle is walked forever.  The rules ask for `l.length < fuel`, and a walk down a
list that IS one never gets there.
-/
import Mathlib.Data.List.Nodup
import Os161.Lib.Prog

namespace Os161

open List

section Links

variable {α : Type} {next next' : α → Option α} {h : Option α} {l l' : List α} {a x : α}

/-- Following `next` from `h` visits `l`. -/
def Links (next : α → Option α) : Option α → List α → Prop
  | h, [] => h = none
  | h, a :: l => h = some a ∧ Links next (next a) l

theorem Links.congr (hl : Links next h l) (hn : ∀ a ∈ l, next' a = next a) : Links next' h l := by
  induction l generalizing h with
  | nil => exact hl
  | cons a l ih =>
    refine ⟨hl.1, ?_⟩
    rw [hn a mem_cons_self]
    exact ih hl.2 fun b hb => hn b (mem_cons_of_mem _ hb)

theorem Links.push (hl : Links next h l) (ha : next' a = h) (hn : ∀ b ∈ l, next' b = next b) :
    Links next' (some a) (a :: l) := by
  refine ⟨rfl, ?_⟩
  rw [ha]
  exact hl.congr hn

variable {pre post : List α}

/-- An element is taken out: the cell in front of it gets what was in its own cell. -/
theorem Links.unlink {cells cells' : Option α → Option α} {c : Option α}
    (hl : Links (fun a => cells (some a)) (cells c) (pre ++ x :: post))
    (hnodup : (pre ++ x :: post).Nodup) (hc : ∀ a ∈ pre ++ x :: post, c ≠ some a)
    (hself : cells' ((pre.map some).getLastD c) = cells (some x))
    (hrest : ∀ d, d ≠ (pre.map some).getLastD c → cells' d = cells d) :
    Links (fun a => cells' (some a)) (cells' c) (pre ++ post) := by
  induction pre generalizing c with
  | nil =>
    rw [map_nil, getLastD_nil] at hself hrest
    rw [hself]
    refine hl.2.congr fun a ha => hrest _ ?_
    exact (hc a (mem_cons_of_mem _ ha)).symm
  | cons b pre ih =>
    have hcb : c ≠ some b := hc b mem_cons_self
    have hlast : ((b :: pre).map some).getLastD c = (pre.map some).getLastD (some b) := by
      rw [map_cons, getLastD_cons]
    rw [hlast] at hself hrest
    have hne : c ≠ (pre.map some).getLastD (some b) := by
      intro he
      rcases eq_nil_or_concat pre with rfl | ⟨pre', e, rfl⟩
      · exact hcb he
      · simp only [concat_eq_append, map_append, map_cons, map_nil,
          getLastD_concat] at he
        exact hc e (by simp) he
    rw [hrest c hne]
    refine ⟨hl.1, ih hl.2 (nodup_cons.mp hnodup).2 ?_ hself hrest⟩
    intro a ha he
    rw [Option.some.inj he] at hnodup
    exact (nodup_cons.mp hnodup).1 ha

theorem mem_of_unlinked (hnodup : (pre ++ x :: post).Nodup) :
    a ∈ pre ++ post ↔ a ≠ x ∧ a ∈ pre ++ x :: post := by
  have hpre : x ∉ pre := fun h => (disjoint_of_nodup_append hnodup) h mem_cons_self
  have hpost : x ∉ post := (nodup_cons.mp hnodup.of_append_right).1
  rw [mem_append, mem_append, mem_cons]
  constructor
  · rintro (h | h)
    · exact ⟨fun he => hpre (he ▸ h), .inl h⟩
    · exact ⟨fun he => hpost (he ▸ h), .inr (.inr h)⟩
  · rintro ⟨hne, h | rfl | h⟩
    · exact .inl h
    · exact absurd rfl hne
    · exact .inr h

/-- The cell that is written is the head or that of an element in front. -/
theorem mem_of_getLastD (h : (pre.map some).getLastD none = some a) : a ∈ pre := by
  rcases eq_nil_or_concat pre with rfl | ⟨pre', b, rfl⟩
  · exact absurd h (Option.some_ne_none a).symm
  · simp only [concat_eq_append, map_append, map_cons, map_nil,
      getLastD_concat, Option.some.injEq] at h
    simp [h]

end Links

/-! ## Loops -/

namespace Prog

variable {ε σ α : Type} {p : Prop} {E : ε → σ → Prop} {s : σ}

/-- Walk down a list, until `body` says that this is the one. -/
def forLinks (next : σ → α → Option α) (body : α → Prog ε σ Bool) :
    Nat → Option α → Prog ε σ (Option α)
  | 0, _ => halt
  | _ + 1, none => pure none
  | fuel + 1, some a => do
    let found ← body a
    if found then pure (some a)
    else do
      let s ← get
      forLinks next body fuel (next s a)

variable {fuel : Nat}

/-- **Loop rule for `forLinks`**, for a body that only looks. -/
theorem wp_forLinks {next : σ → α → Option α} {body : α → Prog ε σ Bool} (good : α → Prop)
    {l : List α} {h : Option α} (hl : Links (next s) h l) (hfuel : l.length < fuel)
    (hbody : ∀ a ∈ l, Wp p (body a) (fun b s' => s' = s ∧ (b = true ↔ good a)) E s) :
    Wp p (forLinks next body fuel h) (fun r s' => s' = s ∧ match r with
        | none => ∀ a ∈ l, ¬ good a
        | some a => a ∈ l ∧ good a) E s := by
  induction l generalizing h fuel with
  | nil =>
    obtain ⟨fuel, rfl⟩ := Nat.exists_eq_succ_of_ne_zero (Nat.ne_of_gt hfuel)
    rw [show h = none from hl, forLinks, wp_pure]
    exact ⟨rfl, fun a ha => absurd ha not_mem_nil⟩
  | cons a l ih =>
    obtain ⟨fuel, rfl⟩ := Nat.exists_eq_succ_of_ne_zero (Nat.ne_zero_of_lt hfuel)
    rw [hl.1, forLinks]
    refine (hbody a mem_cons_self).bind fun b s' hb => ?_
    obtain ⟨rfl, hb⟩ := hb
    cases b with
    | true =>
      rw [if_pos rfl, wp_pure]
      exact ⟨rfl, mem_cons_self, hb.mp rfl⟩
    | false =>
      have hbad : ¬ good a := fun hg => Bool.noConfusion (hb.mpr hg)
      rw [if_neg Bool.false_ne_true, wp_bind, wp_get]
      refine (ih hl.2 (Nat.lt_of_succ_lt_succ hfuel) fun b hb =>
        hbody b (mem_cons_of_mem _ hb)).post fun r s' hr => ⟨hr.1, ?_⟩
      cases r with
      | none =>
        intro b hb
        rcases mem_cons.mp hb with rfl | hb
        · exact hbad
        · exact hr.2 b hb
      | some b => exact ⟨mem_cons_of_mem _ hr.2.1, hr.2.2⟩

/-- Take `x` out of the list that hangs on `cell`, if it is there. -/
def unlink [DecidableEq α] (load : σ → Option α → Option α) (store : Option α → Option α → σ → σ)
    (x : α) : Nat → Option α → Prog ε σ Unit
  | 0, _ => halt
  | fuel + 1, cell => do
    let s ← get
    match load s cell with
    | none => pure ()
    | some a =>
      if a = x then modify (store cell (load s (some x)))
      else unlink load store x fuel (some a)

/-- **Loop rule for `unlink`**: one cell is written, the one that points to `x`. -/
theorem wp_unlink [DecidableEq α] {load : σ → Option α → Option α}
    {store : Option α → Option α → σ → σ} {x : α} {pre post : List α} {cell : Option α}
    (hl : Links (fun a => load s (some a)) (load s cell) (pre ++ x :: post)) (hx : x ∉ pre)
    (hfuel : pre.length < fuel) : Wp p (unlink load store x fuel cell)
      (fun _ s' => s' = store ((pre.map some).getLastD cell) (load s (some x)) s) E s := by
  induction pre generalizing cell fuel with
  | nil =>
    obtain ⟨fuel, rfl⟩ := Nat.exists_eq_succ_of_ne_zero (Nat.ne_of_gt hfuel)
    rw [unlink, wp_bind, wp_get, hl.1]
    dsimp only
    rw [if_pos rfl, wp_modify]
    rfl
  | cons b pre ih =>
    obtain ⟨fuel, rfl⟩ := Nat.exists_eq_succ_of_ne_zero (Nat.ne_zero_of_lt hfuel)
    have hb : b ≠ x := fun he => hx (he ▸ mem_cons_self)
    rw [unlink, wp_bind, wp_get, hl.1]
    dsimp only
    rw [if_neg hb, map_cons, getLastD_cons]
    exact ih hl.2 (fun h => hx (mem_cons_of_mem _ h)) (Nat.lt_of_succ_lt_succ hfuel)

end Prog

end Os161
