/-
# Runs of a system of calls

A component is used by calling its operations again and again.  `Run call legal` relates a state
to every state that some sequence of calls can lead to, where `legal` says which calls a user may
make in a state.  A call that returns an error is part of a run like any other, with the state it
left; a call that stops the machine leads nowhere, so that nothing is claimed past it by a
statement about runs.  That no call does is a statement of its own (`Run.invariant` with `False`
for the first argument of `Wp`).
-/
import Os161.Lib.Prog

namespace Os161

variable {ι ε σ α : Type} {call : ι → Prog ε σ α} {legal legal' : ι → σ → Prop}

/-- The states that calls can lead to. -/
inductive Run (call : ι → Prog ε σ α) (legal : ι → σ → Prop) (s : σ) : σ → Prop
  | refl : Run call legal s s
  | step {s' s'' : σ} {op : ι} {r : Except ε α} (h : Run call legal s s') (hl : legal op s')
      (hc : call op s' = some (r, s'')) : Run call legal s s''

variable {p : Prop} {I : σ → Prop} {s s' : σ} {r : Except ε α}

/-- What a specification says about a call that came back, whatever it returned. -/
theorem Prog.Wp.of_some {m : Prog ε σ α} (h : Wp p m (fun _ => I) (fun _ => I) s)
    (hm : m s = some (r, s')) : I s' := by
  cases r with
  | ok a => exact h.of_ok hm
  | error e => exact h.of_error hm

/-- **The invariant rule.**  What every legal call keeps holds in every state of a run. -/
theorem Run.invariant
    (hcall : ∀ op s, legal op s → I s → Wp p (call op) (fun _ => I) (fun _ => I) s)
    (h : Run call legal s s') (hs : I s) : I s' := by
  induction h with
  | refl => exact hs
  | step _ hl hc ih => exact (hcall _ _ hl ih).of_some hc

theorem Run.andThen {s'' : σ} (h : Run call legal s s') (op : ι) (hl : legal op s')
    (hc : call op s' = some (r, s'')) : Run call legal s s'' := .step h hl hc

end Os161
