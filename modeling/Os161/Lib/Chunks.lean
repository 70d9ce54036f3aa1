/-
# A region cut into chunks

An allocator that keeps a header in front of every block cuts its region into chunks, without gaps.
This file is about the cutting alone: a list of chunks, each with its length in units and whether it
is used.  Which bytes the headers are made of is left to the user of the file.

* `span` is the length of a list of chunks, `before` the length of the chunk in front of a position.
* `UsedAt` finds the used chunks.  A payload starts one unit behind the start of its chunk.
* `Apart` is what an allocator that merges keeps: no two free chunks are neighbours.
-/
import Mathlib.Data.List.Chain
import Os161.Lib.Bytes

namespace Os161

open List

/-- A chunk: its length in units, its header included, and whether it is used. -/
structure Chunk where
  len : Nat
  used : Bool
  deriving DecidableEq, Repr

/-- The length of a list of chunks. -/
def span : List Chunk → Nat
  | [] => 0
  | c :: cs => c.len + span cs

/-- The length of the last chunk of the list, or `p` if there is none. -/
def before (p : Nat) : List Chunk → Nat
  | [] => p
  | c :: cs => before c.len cs

/-- No two free chunks are neighbours. -/
def Apart (cs : List Chunk) : Prop := cs.IsChain fun c d => c.used = true ∨ d.used = true

section Chunks

variable {p i a len : Nat} {c : Chunk} {cs ds : List Chunk}

theorem span_append (cs ds : List Chunk) : span (cs ++ ds) = span cs + span ds := by
  induction cs with
  | nil => simp [span]
  | cons c cs ih =>
    rw [cons_append, span, span, ih]
    omega

theorem before_append (p : Nat) (cs ds : List Chunk) :
    before p (cs ++ ds) = before (before p cs) ds := by
  induction cs generalizing p with
  | nil => rfl
  | cons c cs ih => exact ih c.len

theorem before_le (p : Nat) (cs : List Chunk) : before p cs ≤ p + span cs := by
  induction cs generalizing p with
  | nil => exact Nat.le_refl p
  | cons c cs ih =>
    have := ih c.len
    rw [before, span]
    omega

theorem span_snoc (cs : List Chunk) (c : Chunk) : span (cs ++ [c]) = span cs + c.len := by
  rw [span_append]
  rfl

theorem before_snoc (p : Nat) (cs : List Chunk) (c : Chunk) : before p (cs ++ [c]) = c.len := by
  rw [before_append]
  rfl

/-- Chunks are not empty. -/
def Solid (cs : List Chunk) : Prop := ∀ c ∈ cs, 0 < c.len

theorem Solid.length_le (h : Solid cs) : cs.length ≤ span cs := by
  induction cs with
  | nil => exact Nat.le_refl 0
  | cons c cs ih =>
    have hc := h c mem_cons_self
    have hcs := ih fun d hd => h d (mem_cons_of_mem _ hd)
    rw [length_cons, span]
    omega

/-- The used chunk with its payload at unit `a`, when the chunks start at unit `i`. -/
def UsedAt (i a len : Nat) : List Chunk → Prop
  | [] => False
  | c :: cs => (c = ⟨len, true⟩ ∧ a = i + 1) ∨ UsedAt (i + c.len) a len cs

theorem usedAt_append (cs ds : List Chunk) :
    UsedAt i a len (cs ++ ds) ↔ UsedAt i a len cs ∨ UsedAt (i + span cs) a len ds := by
  induction cs generalizing i with
  | nil => simp [UsedAt, span]
  | cons c cs ih =>
    rw [cons_append, UsedAt, UsedAt, ih, span, Nat.add_assoc, or_assoc]

theorem UsedAt.bounds (hs : Solid cs) (h : UsedAt i a len cs) :
    i + 1 ≤ a ∧ a + len ≤ i + span cs + 1 ∧ 0 < len := by
  induction cs generalizing i with
  | nil => exact h.elim
  | cons c cs ih =>
    have hc := hs c mem_cons_self
    rw [span]
    rcases h with ⟨rfl, rfl⟩ | h
    · exact ⟨Nat.le_refl _, by simp only; omega, hc⟩
    · obtain ⟨h1, h2, h3⟩ := ih (fun d hd => hs d (mem_cons_of_mem _ hd)) h
      exact ⟨by omega, by omega, h3⟩

theorem UsedAt.split (h : UsedAt i a len cs) :
    ∃ pre post, cs = pre ++ ⟨len, true⟩ :: post ∧ a = i + span pre + 1 := by
  induction cs generalizing i with
  | nil => exact h.elim
  | cons c cs ih =>
    rcases h with ⟨rfl, rfl⟩ | h
    · exact ⟨[], cs, rfl, rfl⟩
    · obtain ⟨pre, post, rfl, ha⟩ := ih h
      exact ⟨c :: pre, post, rfl, by rw [span]; omega⟩

theorem not_usedAt_of_free (h : ∀ c ∈ cs, c.used = false) : ¬ UsedAt i a len cs := by
  intro hu
  obtain ⟨pre, post, rfl, -⟩ := hu.split
  have := h ⟨len, true⟩ (by simp)
  simp at this

variable {pre post l r : List Chunk} {n : Nat}

theorem UsedAt.header_out (hs : Solid (pre ++ c :: post)) (hu : UsedAt i a len (pre ++ c :: post)) :
    i + span pre < a ∨ a + len ≤ i + span pre + 1 := by
  rw [usedAt_append, UsedAt] at hu
  rcases hu with hu | ⟨-, rfl⟩ | hu
  · have := hu.bounds fun d hd => hs d (by simp [hd])
    omega
  · omega
  · have := hu.bounds fun d hd => hs d (by simp [hd])
    omega

theorem UsedAt.eq_chunk (hs : Solid (pre ++ c :: post))
    (hu : UsedAt i (i + span pre + 1) len (pre ++ c :: post)) : c = ⟨len, true⟩ := by
  have hc : 0 < c.len := hs c (by simp)
  rw [usedAt_append, UsedAt] at hu
  rcases hu with hu | ⟨hu, -⟩ | hu
  · have := hu.bounds fun d hd => hs d (by simp [hd])
    omega
  · exact hu
  · have := hu.bounds fun d hd => hs d (by simp [hd])
    omega

theorem UsedAt.amid_free (hf : ∀ c ∈ l ++ r, c.used = false)
    (hu : UsedAt i a len (l ++ ⟨n, true⟩ :: r)) : a = i + span l + 1 := by
  rw [usedAt_append, UsedAt] at hu
  rcases hu with hu | ⟨-, rfl⟩ | hu
  · exact absurd hu (not_usedAt_of_free fun c hc => hf c (mem_append_left _ hc))
  · rfl
  · exact absurd hu (not_usedAt_of_free fun c hc => hf c (mem_append_right _ hc))

/-- A chunk freed and merged with its neighbours: the other payloads are the same. -/
theorem usedAt_merged {m : Nat} (hs : Solid (pre ++ ((l ++ ⟨n, true⟩ :: r) ++ post)))
    (hf : ∀ c ∈ l ++ r, c.used = false) (hm : m = span (l ++ ⟨n, true⟩ :: r)) :
    UsedAt i a len (pre ++ ([⟨m, false⟩] ++ post)) ↔
      UsedAt i a len (pre ++ ((l ++ ⟨n, true⟩ :: r) ++ post)) ∧ a ≠ i + span pre + span l + 1 := by
  have hn : 0 < n := hs ⟨n, true⟩ (by simp)
  have hspan : span (l ++ ⟨n, true⟩ :: r) = span l + (n + span r) := by rw [span_append, span]
  have hfree : ¬ UsedAt (i + span pre) a len [⟨m, false⟩] := not_usedAt_of_free (by simp)
  have hnew : span [⟨m, false⟩] = span (l ++ ⟨n, true⟩ :: r) := by simp [span, hm]
  rw [usedAt_append, usedAt_append, usedAt_append, usedAt_append (l ++ _), hnew, or_iff_right hfree]
  constructor
  · rintro (hu | hu)
    · have := hu.bounds fun c hc => hs c (by simp [hc])
      exact ⟨.inl hu, by omega⟩
    · have := hu.bounds fun c hc => hs c (by simp [hc])
      exact ⟨.inr (.inr hu), by omega⟩
  · rintro ⟨hu | hu | hu, hne⟩
    · exact .inl hu
    · exact absurd (hu.amid_free hf) hne
    · exact .inr hu

/-! ## Neighbours -/

theorem Apart.left (h : Apart (cs ++ ds)) : Apart cs := List.IsChain.left_of_append h

theorem Apart.right (h : Apart (cs ++ ds)) : Apart ds := List.IsChain.right_of_append h

/-- A used chunk may be put at the end, ... -/
theorem Apart.snoc_used (h : Apart cs) : Apart (cs ++ [⟨len, true⟩]) := by
  refine isChain_append.mpr ⟨h, isChain_singleton _, fun c _ d hd => .inr ?_⟩
  rw [head?_cons, Option.mem_some_iff] at hd
  rw [← hd]

/-- ... and a free chunk between used ones. -/
theorem apart_insert (hpre : Apart pre) (hpost : Apart post)
    (hl : ∀ c ∈ pre.getLast?, c.used = true) (hr : ∀ c ∈ post.head?, c.used = true) :
    Apart (pre ++ ⟨len, false⟩ :: post) := by
  refine isChain_append.mpr ⟨hpre, isChain_cons.mpr ⟨fun c hc => .inr (hr c hc), hpost⟩,
    fun c hc d _ => .inl (hl c hc)⟩

theorem Apart.tail (h : Apart (c :: cs)) : Apart cs := List.IsChain.tail h

end Chunks

end Os161
