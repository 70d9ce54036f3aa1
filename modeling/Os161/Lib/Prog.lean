/-
# Programs that fail, stop the machine, and keep their state

Kernel C code has three ways out of a call: it returns a value, it returns an error number, or
it stops the machine (`panic`, a failed assertion).  An error return does NOT undo what the
call already did, so the state has to survive it; a stop has no state to go on from.  `Prog`
is the type of such programs over a state `σ`, and `Wp` is the one predicate transformer that
the whole development reasons with.

`Wp p m Q E s` reads: run `m` from `s`; if it returns `a` then `Q a` holds of the state it
leaves, if it returns the error `e` then `E e` does, and if it stops the machine then `p`
holds.  Taking `p := False` makes it TOTAL (the program does not stop the machine), taking
`p := True` makes it PARTIAL (nothing is promised about a run that stops).  All rules are
stated for an arbitrary `p`, so each is proved once.
-/
import Mathlib.Tactic.Common

namespace Os161

/-- A program over states `σ` with error numbers `ε`.  `none` is a stopped machine. -/
def Prog (ε σ α : Type) : Type := σ → Option (Except ε α × σ)

namespace Prog

variable {ε σ τ α β : Type}

/-! ## 1. The constructs -/

/-- Sequencing: an error return skips the rest and keeps the state reached so far. -/
protected def bind (m : Prog ε σ α) (f : α → Prog ε σ β) : Prog ε σ β := fun s =>
  match m s with
  | none => none
  | some (.error e, s') => some (.error e, s')
  | some (.ok a, s') => f a s'

instance : Monad (Prog ε σ) where
  pure a := fun s => some (.ok a, s)
  bind := Prog.bind

/-- Return the error number `e`. -/
def fail (e : ε) : Prog ε σ α := fun s => some (.error e, s)

/-- Stop the machine. -/
def halt : Prog ε σ α := fun _ => none

/-- Stop the machine unless `c` holds. -/
def assert (c : Prop) [Decidable c] : Prog ε σ Unit := if c then pure () else halt

/-- Read the state. -/
def get : Prog ε σ σ := fun s => some (.ok s, s)

/-- Change the state. -/
def modify (f : σ → σ) : Prog ε σ Unit := fun s => some (.ok (), f s)

/-- Call `m` and hand its result over as a value, error or not: the caller that stores the
result of a call in a variable and goes on. -/
def attempt (m : Prog ε σ α) : Prog ε σ (Except ε α) := fun s =>
  match m s with
  | none => none
  | some (r, s') => some (.ok r, s')

/-- Return a stored result. -/
def ofResult : Except ε α → Prog ε σ α
  | .ok a => pure a
  | .error e => fail e

/-- Run a program over a component of the state. -/
def zoom (proj : τ → σ) (put : τ → σ → τ) (m : Prog ε σ α) : Prog ε τ α := fun t =>
  match m (proj t) with
  | none => none
  | some (r, s') => some (r, put t s')

/-- Run a program over the first component of a pair. -/
def onFst (m : Prog ε σ α) : Prog ε (σ × τ) α := zoom Prod.fst (fun t s => (s, t.2)) m

/-- Run a program over the second component of a pair. -/
def onSnd (m : Prog ε τ α) : Prog ε (σ × τ) α := zoom Prod.snd (fun t s => (t.1, s)) m

/-- Run a program with a local variable of its own; its last value is handed back, unless the
program fails, when it is gone with the call. -/
def withLocal (x : τ) (m : Prog ε (σ × τ) α) : Prog ε σ (α × τ) := fun s =>
  match m (s, x) with
  | none => none
  | some (.ok a, (s', y)) => some (.ok (a, y), s')
  | some (.error e, (s', _)) => some (.error e, s')

/-- Run `body` on each element of a list, in order, stopping at the first error. -/
def forEach (body : β → Prog ε σ Unit) : List β → Prog ε σ Unit
  | [] => pure ()
  | x :: xs => do body x; forEach body xs

/-- Run `body` `n` times, stopping at the first error. -/
def times (body : Prog ε σ Unit) : Nat → Prog ε σ Unit
  | 0 => pure ()
  | n + 1 => do body; times body n

/-! ## 2. The predicate transformer -/

/-- Weakest precondition of `m`, with one postcondition for a returned value, one for a
returned error, and the proposition `p` for a stopped machine. -/
def Wp (p : Prop) (m : Prog ε σ α) (Q : α → σ → Prop) (E : ε → σ → Prop) (s : σ) : Prop :=
  match m s with
  | none => p
  | some (.ok a, s') => Q a s'
  | some (.error e, s') => E e s'

section Rules

variable {p p' : Prop} {Q Q' : α → σ → Prop} {E E' : ε → σ → Prop} {s : σ} {a : α}

@[simp] theorem wp_pure : Wp p (pure a : Prog ε σ α) Q E s ↔ Q a s := Iff.rfl

@[simp] theorem wp_fail {e : ε} : Wp p (fail e : Prog ε σ α) Q E s ↔ E e s := Iff.rfl

@[simp] theorem wp_halt : Wp p (halt : Prog ε σ α) Q E s ↔ p := Iff.rfl

@[simp] theorem wp_get {Q : σ → σ → Prop} : Wp p (get : Prog ε σ σ) Q E s ↔ Q s s := Iff.rfl

@[simp] theorem wp_modify {f : σ → σ} {Q : Unit → σ → Prop} :
    Wp p (modify f : Prog ε σ Unit) Q E s ↔ Q () (f s) := Iff.rfl

@[simp] theorem wp_assert {c : Prop} [Decidable c] {Q : Unit → σ → Prop} :
    Wp p (assert c : Prog ε σ Unit) Q E s ↔ (c → Q () s) ∧ (¬ c → p) := by
  unfold assert
  by_cases h : c <;> simp [h]

/-- An assertion that holds is passed. -/
theorem wp_assert_of {c : Prop} [Decidable c] {Q : Unit → σ → Prop} (hc : c) :
    Wp p (assert c : Prog ε σ Unit) Q E s ↔ Q () s := by simp [hc]

variable {m : Prog ε σ α} {f : α → Prog ε σ β}

@[simp] theorem wp_bind {Q : β → σ → Prop} :
    Wp p (m >>= f) Q E s ↔ Wp p m (fun a s' => Wp p (f a) Q E s') E s := by
  show Wp p (Prog.bind m f) Q E s ↔ _
  unfold Wp Prog.bind
  rcases m s with _ | ⟨_ | a, s'⟩ <;> exact Iff.rfl

@[simp] theorem wp_attempt {Q : Except ε α → σ → Prop} :
    Wp p (attempt m) Q E s ↔ Wp p m (fun a => Q (.ok a)) (fun e => Q (.error e)) s := by
  unfold Wp attempt
  rcases m s with _ | ⟨_ | a, s'⟩ <;> exact Iff.rfl

@[simp] theorem wp_ofResult_ok : Wp p (ofResult (.ok a) : Prog ε σ α) Q E s ↔ Q a s :=
  Iff.rfl

@[simp] theorem wp_ofResult_error {e : ε} :
    Wp p (ofResult (.error e) : Prog ε σ α) Q E s ↔ E e s := Iff.rfl

@[simp] theorem wp_zoom {proj : τ → σ} {put : τ → σ → τ} {t : τ}
    {Q : α → τ → Prop} {E : ε → τ → Prop} :
    Wp p (zoom proj put m) Q E t ↔
      Wp p m (fun a s' => Q a (put t s')) (fun e s' => E e (put t s')) (proj t) := by
  unfold Wp zoom
  rcases m (proj t) with _ | ⟨_ | a, s'⟩ <;> exact Iff.rfl

@[simp] theorem wp_onFst {t : σ × τ} {Q : α → σ × τ → Prop} {E : ε → σ × τ → Prop} :
    Wp p (onFst m) Q E t ↔
      Wp p m (fun a s' => Q a (s', t.2)) (fun e s' => E e (s', t.2)) t.1 := wp_zoom

@[simp] theorem wp_onSnd {m : Prog ε τ α} {t : σ × τ} {Q : α → σ × τ → Prop}
    {E : ε → σ × τ → Prop} :
    Wp p (onSnd m) Q E t ↔
      Wp p m (fun a s' => Q a (t.1, s')) (fun e s' => E e (t.1, s')) t.2 := wp_zoom

@[simp] theorem wp_withLocal {x : τ} {m : Prog ε (σ × τ) α} {Q : α × τ → σ → Prop} :
    Wp p (withLocal x m) Q E s ↔
      Wp p m (fun a st => Q (a, st.2) st.1) (fun e st => E e st.1) (s, x) := by
  unfold Wp withLocal
  rcases m (s, x) with _ | ⟨_ | a, s', y⟩ <;> exact Iff.rfl

theorem wp_ite {c : Prop} [Decidable c] {m n : Prog ε σ α} :
    Wp p (if c then m else n) Q E s ↔ (c → Wp p m Q E s) ∧ (¬ c → Wp p n Q E s) := by
  by_cases h : c <;> simp [h]

theorem Wp.mono (h : Wp p m Q E s) (hp : p → p')
    (hQ : ∀ a s', Q a s' → Q' a s') (hE : ∀ e s', E e s' → E' e s') : Wp p' m Q' E' s := by
  unfold Wp at *
  rcases hm : m s with _ | ⟨e | a, s'⟩ <;> rw [hm] at h
  · exact hp h
  · exact hE e s' h
  · exact hQ a s' h

theorem Wp.imp (h : Wp p m Q E s) (hQ : ∀ a s', Q a s' → Q' a s')
    (hE : ∀ e s', E e s' → E' e s') : Wp p m Q' E' s := h.mono id hQ hE

theorem Wp.post (h : Wp p m Q E s) (hQ : ∀ a s', Q a s' → Q' a s') :
    Wp p m Q' E s := h.imp hQ fun _ _ => id

theorem Wp.post_ok (h : Wp p m Q (fun _ _ => False) s)
    (hQ : ∀ a s', Q a s' → Q' a s') : Wp p m Q' E s := h.imp hQ fun _ _ => False.elim

theorem Wp.bind {R : β → σ → Prop} (h : Wp p m Q E s)
    (hf : ∀ a s', Q a s' → Wp p (f a) R E s') : Wp p (m >>= f) R E s := wp_bind.mpr (h.post hf)

theorem Wp.bind_ok {R : β → σ → Prop}
    (h : Wp p m Q (fun _ _ => False) s) (hf : ∀ a s', Q a s' → Wp p (f a) R E s') :
    Wp p (m >>= f) R E s := wp_bind.mpr (h.post_ok hf)

/-- What holds of every value and every error holds of what a program returns. -/
theorem Wp.of_forall (hQ : ∀ a s', Q a s') (hE : ∀ e s', E e s') : Wp True m Q E s := by
  unfold Wp
  rcases m s with _ | ⟨e | a, s'⟩
  · exact True.intro
  · exact hE e s'
  · exact hQ a s'

theorem Wp.also (h : Wp p m Q E s) (h' : Wp True m Q' E' s) :
    Wp p m (fun a s => Q a s ∧ Q' a s) (fun e s => E e s ∧ E' e s) s := by
  unfold Wp at *
  rcases hm : m s with _ | ⟨e | a, s'⟩ <;> rw [hm] at h h'
  · exact h
  · exact ⟨h, h'⟩
  · exact ⟨h, h'⟩

theorem Wp.and (h : Wp p m Q E s) (h' : Wp p m Q' E' s) :
    Wp p m (fun a s => Q a s ∧ Q' a s) (fun e s => E e s ∧ E' e s) s :=
  h.also (h'.mono (fun _ => True.intro) (fun _ _ => id) fun _ _ => id)

theorem Wp.noError (h : Wp p m Q E s) (hE : ∀ e s', ¬ E e s') :
    Wp p m Q (fun _ _ => False) s := h.imp (fun _ _ => id) hE

/-- A total specification is a specification under any reading of a stop. -/
theorem Wp.weaken (h : Wp False m Q E s) : Wp p m Q E s :=
  h.mono False.elim (fun _ _ => id) (fun _ _ => id)

/-! ## 3. Reading a specification off a run -/

theorem Wp.of_ok (h : Wp p m Q E s) {s' : σ} (hm : m s = some (.ok a, s')) : Q a s' := by
  unfold Wp at h
  rwa [hm] at h

theorem Wp.of_run {s' : σ} (hrun : m s = some (.ok a, s')) (h : Q a s') : Wp p m Q E s := by
  unfold Wp
  rw [hrun]
  exact h

theorem Wp.of_error (h : Wp p m Q E s) {e : ε} {s' : σ}
    (hm : m s = some (.error e, s')) : E e s' := by
  unfold Wp at h
  rwa [hm] at h

theorem wp_run (m : Prog ε σ α) (s : σ) : Wp True m (fun a s' => m s = some (.ok a, s'))
    (fun e s' => m s = some (.error e, s')) s := by
  unfold Wp
  rcases m s with _ | ⟨e | a, s'⟩
  · trivial
  · rfl
  · rfl

theorem Wp.run_ne_none (h : Wp False m Q E s) : m s ≠ none := by
  intro hm
  unfold Wp at h
  rwa [hm] at h

theorem Wp.returns (h : Wp False m Q E s) : ∃ r s', m s = some (r, s') := by
  obtain ⟨⟨r, s'⟩, hm⟩ := Option.ne_none_iff_exists'.mp h.run_ne_none
  exact ⟨r, s', hm⟩

theorem Wp.exists_some {I : σ → Prop}
    (h : Wp False m (fun _ => I) (fun _ => I) s) : ∃ r s', m s = some (r, s') ∧ I s' := by
  unfold Wp at h
  rcases hm : m s with _ | ⟨e | a, s'⟩ <;> rw [hm] at h
  · exact h.elim
  · exact ⟨_, s', rfl, h⟩
  · exact ⟨_, s', rfl, h⟩

theorem Wp.exists_ok (h : Wp False m Q (fun _ _ => False) s) :
    ∃ a s', m s = some (.ok a, s') ∧ Q a s' := by
  unfold Wp at h
  rcases hm : m s with _ | ⟨e | a, s'⟩ <;> rw [hm] at h
  · exact h.elim
  · exact h.elim
  · exact ⟨a, s', rfl, h⟩

theorem Wp.exists_error (h : Wp False m (fun _ _ => False) E s) :
    ∃ e s', m s = some (.error e, s') ∧ E e s' := by
  unfold Wp at h
  rcases hm : m s with _ | ⟨e | a, s'⟩ <;> rw [hm] at h
  · exact h.elim
  · exact ⟨e, s', rfl, h⟩
  · exact h.elim

theorem Wp.eq_none (h : Wp True m (fun _ _ => False) (fun _ _ => False) s) : m s = none := by
  unfold Wp at h
  split at h
  · assumption
  all_goals exact h.elim

/-- A run on fixed inputs is evaluated on the part `f` of the state, which can be compared. -/
theorem exists_of_map {f : σ → β} {r : Except ε α} {b : β}
    (h : ((m s).map fun x => (x.1, f x.2)) = some (r, b)) :
    ∃ s', m s = some (r, s') ∧ f s' = b := by
  obtain ⟨⟨r', s'⟩, hm, hr⟩ := Option.map_eq_some_iff.mp h
  cases hr
  exact ⟨s', hm, rfl⟩

/-! ## 4. Loops -/

/-- **Loop rule for `forEach`.**  `I` is indexed by what is still to be done. -/
theorem wp_forEach {body : β → Prog ε σ Unit} (I : List β → σ → Prop)
    (hstep : ∀ x xs s, I (x :: xs) s → Wp p (body x) (fun _ => I xs) E s) :
    ∀ (l : List β) (s : σ), I l s → Wp p (forEach body l) (fun _ => I []) E s
  | [], _, h => h
  | x :: xs, s, h => by
    rw [forEach, wp_bind]
    exact (hstep x xs s h).imp (fun _ s' h' => wp_forEach I hstep xs s' h') (fun _ _ => id)

/-- **Loop rule for `times`.**  `I` is indexed by the number of rounds still to be done. -/
theorem wp_times {body : Prog ε σ Unit} (I : Nat → σ → Prop)
    (hstep : ∀ n s, I (n + 1) s → Wp p body (fun _ => I n) E s) :
    ∀ (n : Nat) (s : σ), I n s → Wp p (times body n) (fun _ => I 0) E s
  | 0, _, h => h
  | n + 1, s, h => by
    rw [times, wp_bind]
    exact (hstep n s h).imp (fun _ s' h' => wp_times I hstep n s' h') (fun _ _ => id)

end Rules

/-! ## 5. Programs that keep an invariant -/

/-- `m` keeps `I`, and `E` holds of its errors. -/
def Keeps (I : σ → Prop) (E : ε → σ → Prop) (m : Prog ε σ α) : Prop :=
  ∀ s, I s → Wp True m (fun _ => I) E s

section Keeps

variable {I : σ → Prop} {E : ε → σ → Prop}

theorem keeps_pure (a : α) : Keeps I E (pure a : Prog ε σ α) := fun _ h => wp_pure.mpr h

theorem keeps_fail {e : ε} (he : ∀ s, I s → E e s) : Keeps I E (fail e : Prog ε σ α) :=
  fun s h => wp_fail.mpr (he s h)

theorem keeps_halt : Keeps I E (halt : Prog ε σ α) := fun _ _ => wp_halt.mpr True.intro

theorem keeps_get : Keeps I E (get : Prog ε σ σ) := fun _ h => wp_get.mpr h

theorem keeps_assert (c : Prop) [Decidable c] : Keeps I E (assert c : Prog ε σ Unit) :=
  fun _ h => wp_assert.mpr ⟨fun _ => h, fun _ => True.intro⟩

theorem keeps_modify {f : σ → σ} (hf : ∀ s, I s → I (f s)) :
    Keeps I E (modify f : Prog ε σ Unit) := fun s h => wp_modify.mpr (hf s h)

theorem keeps_ofResult {r : Except ε α} (he : ∀ e s, I s → E e s) :
    Keeps I E (ofResult r : Prog ε σ α) := by
  intro s h
  cases r with
  | ok a => exact wp_ofResult_ok.mpr h
  | error e => exact wp_ofResult_error.mpr (he e s h)

theorem Keeps.bind {m : Prog ε σ α} {f : α → Prog ε σ β} (h : Keeps I E m)
    (hf : ∀ a, Keeps I E (f a)) : Keeps I E (m >>= f) := fun s hs =>
  wp_bind.mpr ((h s hs).imp (fun a s' hs' => hf a s' hs') fun _ _ => id)

theorem Keeps.attempt {m : Prog ε σ α} (h : Keeps I (fun _ => I) m) : Keeps I E (attempt m) :=
  fun s hs => wp_attempt.mpr ((h s hs).imp (fun _ _ => id) fun _ _ => id)

theorem Keeps.ite {c : Prop} [Decidable c] {m n : Prog ε σ α} (h : Keeps I E m)
    (h' : Keeps I E n) : Keeps I E (if c then m else n) := by
  split_ifs
  · exact h
  · exact h'

end Keeps

/-! ## 6. Programs that agree at a state -/

section Agree

variable {m m' : Prog ε σ α} {f g : α → Prog ε σ β} {s : σ}

theorem bind_congr (h : m s = m' s)
    (hf : Wp True m' (fun a s' => f a s' = g a s') (fun _ _ => True) s) :
    (m >>= f) s = (m' >>= g) s := by
  change Prog.bind m f s = Prog.bind m' g s
  unfold Prog.bind
  rw [h]
  split
  · rfl
  · rfl
  · next hm => exact hf.of_ok hm

theorem wp_congr {p : Prop} {Q : α → σ → Prop} {E : ε → σ → Prop} {s' : σ} (h : m s = m' s') :
    Wp p m Q E s ↔ Wp p m' Q E s' := by
  unfold Wp
  rw [h]

theorem bind_ok {a : α} {s' : σ} (h : m s = some (.ok a, s')) : (m >>= f) s = f a s' := by
  change Prog.bind m f s = _
  rw [Prog.bind, h]

theorem bind_none (h : m s = none) : (m >>= f) s = none := by
  show Prog.bind m f s = _
  rw [Prog.bind, h]

theorem bind_error {e : ε} {s' : σ} (h : m s = some (.error e, s')) :
    (m >>= f) s = some (.error e, s') := by
  change Prog.bind m f s = _
  rw [Prog.bind, h]

theorem assert_bind {c : Prop} [Decidable c] {f : Unit → Prog ε σ β} (hc : c) :
    (assert c >>= f) s = f () s := by
  rw [assert, if_pos hc]
  rfl

theorem attempt_congr (h : m s = m' s) : attempt m s = attempt m' s := by
  rw [attempt, attempt, h]

theorem bind_bind (m : Prog ε σ τ) (f : τ → Prog ε σ α) (g : α → Prog ε σ β) :
    (m >>= f) >>= g = m >>= fun a => f a >>= g := by
  funext s
  change Prog.bind (Prog.bind m f) g s = Prog.bind m (fun a => Prog.bind (f a) g) s
  unfold Prog.bind
  cases m s with
  | none => rfl
  | some r =>
    obtain ⟨r, s'⟩ := r
    cases r <;> rfl

/-- **Two loops that agree** in every round, wherever the rounds before can lead. -/
theorem forEach_congr {body body' : β → Prog ε σ Unit} (I : List β → σ → Prop)
    (hstep : ∀ x xs s, I (x :: xs) s →
      body x s = body' x s ∧ Wp True (body' x) (fun _ => I xs) (fun _ _ => True) s) :
    ∀ (l : List β) (s : σ), I l s → forEach body l s = forEach body' l s
  | [], _, _ => rfl
  | x :: xs, s, h => by
    obtain ⟨heq, hwp⟩ := hstep x xs s h
    exact bind_congr heq (hwp.imp (fun _ s' hs' => forEach_congr I hstep xs s' hs') fun _ _ => id)

theorem forEach_append (body : β → Prog ε σ Unit) (l l' : List β) :
    forEach body (l ++ l') = (do forEach body l; forEach body l') := by
  induction l with
  | nil => rfl
  | cons x xs ih =>
    rw [List.cons_append, forEach, forEach, ih, bind_bind]

theorem forEach_singleton (body : β → Prog ε σ Unit) (x : β) : forEach body [x] = body x := by
  funext s
  change Prog.bind (body x) (fun _ => pure ()) s = body x s
  unfold Prog.bind
  cases hx : body x s with
  | none => rfl
  | some r =>
    obtain ⟨r, s'⟩ := r
    cases r <;> rfl

end Agree

-- A specification is only ever taken apart by the rules above; unfolding it would run the program.
attribute [irreducible] Wp

end Prog

export Prog (fail halt assert get modify attempt ofResult zoom onFst onSnd withLocal forEach times
  Wp wp_pure wp_fail wp_halt wp_get wp_modify wp_assert wp_assert_of wp_bind wp_attempt
  wp_ofResult_ok wp_ofResult_error wp_zoom wp_onFst wp_onSnd wp_withLocal wp_ite wp_run wp_forEach
  wp_times wp_congr)

end Os161
