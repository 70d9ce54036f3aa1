/-
# `kern/dev/generic/console.c`: input from the console

`con_input` is called by the interrupt handler of the serial port, with a character, and puts it
into a ring; `getch_intr` waits on the semaphore `cs_rsem` and takes one out.  There is no lock.
The head of the ring belongs to `con_input` and the tail to `getch_intr`, and each looks at the
other's index or at the semaphore to know how far it can go.

The two are taken apart into the steps between which the other side can come in.  Interrupts go to
the boot processor only and are off while they are handled, so there is one `con_input` at a time;
there is one reader at a time because of `con_userlock_read`.  `P` and `V` are one step each,
the one that touches the count (`semNext_count`).

`console_lossless` says that this works: nothing that was put into the ring is lost, doubled or
moved, and a character is dropped only when the ring is full.
-/
import Os161.Lib.Bytes
import Os161.Lib.Ring
import Os161.Semaphore

namespace Os161

open List

/-! ## 1. The code -/

/-- `CONSOLE_INPUT_BUFFER_SIZE`. -/
abbrev consoleInputBufferSize : Nat := 32

/-- The two sides. -/
inductive ConSide
  | input | getch
  deriving DecidableEq, Repr

/-- Where the two sides are. -/
inductive ConPc
  | outside
  /-- `con_input`, at the test for a full ring. -/
  | inTest (ch : Byte)
  /-- `con_input`, at the store to the ring. -/
  | inStore (ch : Byte)
  /-- `con_input`, at the store to `cs_gotchars_head`. -/
  | inAdvance (ch : Byte)
  /-- `con_input`, at `V`. -/
  | inV
  /-- `getch_intr`, at `P`. -/
  | outP
  /-- `getch_intr`, at the load from the ring. -/
  | outLoad
  /-- `getch_intr`, at the store to `cs_gotchars_tail`. -/
  | outAdvance (ret : Byte)
  deriving DecidableEq, Repr

/-- `struct con_softc`, as far as input is concerned.  `arrived` is the number of calls of
`con_input`, `accepted` the characters that were put into the ring, and `returned` those that
`getch_intr` has returned. -/
structure ConSoftc where
  csRsem : Nat
  csGotchars : Nat → Byte
  csGotcharsHead : Nat
  csGotcharsTail : Nat
  arrived : Nat
  accepted : List Byte
  returned : List Byte

/-- What either side can do next, if the calls of `con_input` are made with the characters `chars`.
A character is an `int`, of which the ring takes the last eight bits. -/
def conNext (chars : Nat → Int) : ConSide → ConPc → ConSoftc → List (ConPc × ConSoftc)
  | .input, .outside, s =>
    [(.inTest (BitVec.ofInt 8 (chars s.arrived)), { s with arrived := s.arrived + 1 })]
  | .input, .inTest ch, s =>
    if (s.csGotcharsHead + 1) % consoleInputBufferSize = s.csGotcharsTail then
      -- overflow; drop character
      [(.outside, s)]
    else [(.inStore ch, s)]
  | .input, .inStore ch, s =>
    [(.inAdvance ch, { s with csGotchars := Function.update s.csGotchars s.csGotcharsHead ch })]
  | .input, .inAdvance ch, s =>
    [(.inV, { s with
      csGotcharsHead := (s.csGotcharsHead + 1) % consoleInputBufferSize
      accepted := s.accepted ++ [ch] })]
  | .input, .inV, s => [(.outside, { s with csRsem := stepV s.csRsem })]
  | .getch, .outside, s => [(.outP, s)]
  | .getch, .outP, s => stepP s.csRsem fun count => (.outLoad, { s with csRsem := count })
  | .getch, .outLoad, s => [(.outAdvance (s.csGotchars s.csGotcharsTail), s)]
  | .getch, .outAdvance ret, s =>
    [(.outside, { s with
      csGotcharsTail := (s.csGotcharsTail + 1) % consoleInputBufferSize
      returned := s.returned ++ [ret] })]
  | _, _, _ => []

/-- The console after `config_con`, with anything in the ring's memory. -/
def configCon (gotchars : Nat → Byte) : Procs ConSide ConPc ConSoftc where
  pc _ := .outside
  shared :=
    { csRsem := 0, csGotchars := gotchars, csGotcharsHead := 0, csGotcharsTail := 0, arrived := 0
      accepted := [], returned := [] }

/-- The states that are reached when these characters arrive. -/
def ConReach (chars : Nat → Int) (gotchars : Nat → Byte) (c : Procs ConSide ConPc ConSoftc) :
    Prop :=
  Procs.Reach (conNext chars) (fun _ _ _ => True) (configCon gotchars) c

/-! ## 2. The invariant -/

/-- `con_input` has advanced the head but not yet done its `V`. -/
def ConPc.owesV : ConPc → Nat
  | .inV => 1
  | _ => 0

/-- `getch_intr` has passed `P` but not yet advanced the tail. -/
def ConPc.passedP : ConPc → Nat
  | .outLoad | .outAdvance _ => 1
  | _ => 0

/-- What `con_input` knows at a control point, if there are `k` characters in the ring. -/
def ConPc.KnowsRoom (s : ConSoftc) (k : Nat) : ConPc → Prop
  | .inStore _ => k + 1 < consoleInputBufferSize
  | .inAdvance ch => k + 1 < consoleInputBufferSize ∧ s.csGotchars s.csGotcharsHead = ch
  | _ => True

/-- What `getch_intr` knows at a control point, if these characters are in the ring. -/
def ConPc.KnowsNext (items : List Byte) : ConPc → Prop
  | .outAdvance ret => items.head? = some ret
  | _ => True

/-- The characters in the ring are those that were accepted and not yet returned. -/
structure ConInv (c : Procs ConSide ConPc ConSoftc) (items : List Byte) : Prop where
  ring : RingAt c.shared.csGotchars consoleInputBufferSize c.shared.csGotcharsHead
    c.shared.csGotcharsTail items
  order : c.shared.returned ++ items = c.shared.accepted
  count : c.shared.csRsem + (c.pc .getch).passedP + (c.pc .input).owesV = items.length
  input : (c.pc .input).KnowsRoom c.shared items.length
  getch : (c.pc .getch).KnowsNext items

theorem configCon_inv (gotchars : Nat → Byte) : ConInv (configCon gotchars) [] where
  ring := RingAt.empty gotchars (Nat.succ_pos 31)
  order := rfl
  count := rfl
  input := True.intro
  getch := True.intro

section Steps

variable {chars : Nat → Int} {c : Procs ConSide ConPc ConSoftc} {items : List Byte}
  {pc : ConPc} {s : ConSoftc}

section

variable
  (ring : RingAt s.csGotchars consoleInputBufferSize s.csGotcharsHead s.csGotcharsTail items)
  (order : s.returned ++ items = s.accepted)

include ring order

theorem ConInv.of_input (count : s.csRsem + (c.pc .getch).passedP + pc.owesV = items.length)
    (input : pc.KnowsRoom s items.length) (getch : (c.pc .getch).KnowsNext items) :
    ConInv (c.move .input (pc, s)) items := by
  constructor
  · exact ring
  · exact order
  · exact count
  · exact input
  · exact getch

theorem ConInv.of_getch (count : s.csRsem + pc.passedP + (c.pc .input).owesV = items.length)
    (input : (c.pc .input).KnowsRoom s items.length) (getch : pc.KnowsNext items) :
    ConInv (c.move .getch (pc, s)) items := by
  constructor
  · exact ring
  · exact order
  · exact count
  · exact input
  · exact getch

end

theorem ConPc.KnowsNext.append (h : pc.KnowsNext items) (ch : Byte) :
    pc.KnowsNext (items ++ [ch]) := by
  cases pc with
  | outAdvance ret =>
    cases items with
    | nil => cases h
    | cons x items => exact h
  | _ => exact True.intro

theorem ConPc.KnowsRoom.mono {k k' : Nat} (h : pc.KnowsRoom s k) (hle : k' ≤ k) :
    pc.KnowsRoom s k' := by
  cases pc with
  | inStore ch => exact Nat.lt_of_le_of_lt (Nat.succ_le_succ hle) h
  | inAdvance ch => exact ⟨Nat.lt_of_le_of_lt (Nat.succ_le_succ hle) h.1, h.2⟩
  | _ => exact True.intro

theorem ConInv.step_input (h : ConInv c items)
    (ho : (pc, s) ∈ conNext chars .input (c.pc .input) c.shared) :
    ∃ items', ConInv (c.move .input (pc, s)) items' := by
  have hcount := h.count
  have hinput := h.input
  cases hpc : c.pc .input with
  | outside =>
    rw [hpc] at ho hcount
    cases mem_singleton.mp ho
    exact ⟨items, .of_input h.ring h.order hcount True.intro h.getch⟩
  | inTest ch =>
    rw [hpc, conNext] at ho
    rw [hpc] at hcount
    split_ifs at ho with hfull
    · cases mem_singleton.mp ho
      exact ⟨items, .of_input h.ring h.order hcount True.intro h.getch⟩
    · cases mem_singleton.mp ho
      have hlt := h.ring.length_lt
      rw [h.ring.full_iff] at hfull
      exact ⟨items, .of_input h.ring h.order hcount (Nat.lt_of_le_of_ne hlt hfull) h.getch⟩
  | inStore ch =>
    rw [hpc] at ho hcount hinput
    cases mem_singleton.mp ho
    refine ⟨items, .of_input (h.ring.store ch) h.order hcount ⟨hinput, ?_⟩ h.getch⟩
    exact Function.update_self _ _ _
  | inAdvance ch =>
    rw [hpc] at ho hcount hinput
    cases mem_singleton.mp ho
    obtain ⟨hroom, hch⟩ := hinput
    refine ⟨items ++ [ch], .of_input ?_ ?_ ?_ True.intro (h.getch.append ch)⟩
    · have hring := h.ring.push hroom
      rw [hch] at hring
      exact hring
    · rw [← append_assoc, h.order]
    · rw [length_append, ← hcount]
      rfl
  | inV =>
    rw [hpc] at ho hcount
    cases mem_singleton.mp ho
    refine ⟨items, .of_input h.ring h.order ?_ True.intro h.getch⟩
    rw [← hcount]
    simp only [ConPc.owesV, stepV]
    omega
  | outP => rw [hpc] at ho; cases ho
  | outLoad => rw [hpc] at ho; cases ho
  | outAdvance ret => rw [hpc] at ho; cases ho

theorem ConInv.step_getch (h : ConInv c items)
    (ho : (pc, s) ∈ conNext chars .getch (c.pc .getch) c.shared) :
    ∃ items', ConInv (c.move .getch (pc, s)) items' := by
  have hcount := h.count
  have hgetch := h.getch
  cases hpc : c.pc .getch with
  | outside =>
    rw [hpc] at ho hcount
    cases mem_singleton.mp ho
    exact ⟨items, .of_getch h.ring h.order hcount h.input True.intro⟩
  | outP =>
    rw [hpc, conNext] at ho
    rw [hpc] at hcount
    obtain ⟨hzero, he⟩ := mem_stepP ho
    cases he
    refine ⟨items, .of_getch h.ring h.order ?_ h.input True.intro⟩
    rw [← hcount]
    simp only [ConPc.passedP]
    omega
  | outLoad =>
    rw [hpc] at ho hcount
    cases mem_singleton.mp ho
    -- there is a character, because the semaphore has counted it
    have hne : items ≠ [] := by
      rintro rfl
      simp only [ConPc.passedP, length_nil] at hcount
      omega
    exact ⟨items, .of_getch h.ring h.order hcount h.input (h.ring.head?_eq hne)⟩
  | outAdvance ret =>
    rw [hpc] at ho hcount hgetch
    cases mem_singleton.mp ho
    obtain ⟨rest, rfl⟩ := head?_eq_some_iff.mp hgetch
    refine ⟨rest, .of_getch (h.ring.pop nofun) ?_ ?_ (h.input.mono (Nat.le_succ _)) True.intro⟩
    · rw [append_assoc, ← h.order]
      rfl
    · simp only [ConPc.passedP, length_cons] at hcount ⊢
      omega
  | inTest ch => rw [hpc] at ho; cases ho
  | inStore ch => rw [hpc] at ho; cases ho
  | inAdvance ch => rw [hpc] at ho; cases ho
  | inV => rw [hpc] at ho; cases ho

end Steps

variable {chars : Nat → Int}

theorem conInv_of_reach {gotchars : Nat → Byte} {c : Procs ConSide ConPc ConSoftc}
    (h : ConReach chars gotchars c) : ∃ items, ConInv c items := by
  refine Procs.Reach.invariant (I := fun c => ∃ items, ConInv c items)
    ⟨[], configCon_inv gotchars⟩ ?_ h
  rintro c side ⟨pc, s⟩ ⟨items, hinv⟩ ho -
  cases side with
  | input => exact hinv.step_input ho
  | getch => exact hinv.step_getch ho

/-! ## 3. Input is a bounded queue -/

/-- The character that `con_input` was called with and has not yet put into the ring. -/
def ConPc.pending : ConPc → List Byte
  | .inTest ch | .inStore ch | .inAdvance ch => [ch]
  | _ => []

/-- The characters that have arrived and were not dropped. -/
def offered (c : Procs ConSide ConPc ConSoftc) : List Byte :=
  c.shared.accepted ++ (c.pc .input).pending

/-- What a step may do to the characters: the next one arrives, or they stay, or the last one is
dropped, and then `CONSOLE_INPUT_BUFFER_SIZE - 1` that were accepted are not yet consumed. -/
def Offers (chars : Nat → Int) (c c' : Procs ConSide ConPc ConSoftc) : Prop :=
  (c'.shared.arrived = c.shared.arrived + 1 ∧
    offered c' = offered c ++ [BitVec.ofInt 8 (chars c.shared.arrived)]) ∨
  c'.shared.arrived = c.shared.arrived ∧ (offered c' = offered c ∨
    offered c' = c.shared.accepted ∧
      c.shared.accepted.length = c.shared.returned.length + (consoleInputBufferSize - 1))

/-- **Console input is a lossless bounded queue**: what was returned is what was accepted, in
order, up to what is still in the ring; no step loses a character that has arrived, unless the ring
is full; and the semaphore counts the characters in the ring, with the one that either side is about
to account for. -/
structure LosslessQueue (chars : Nat → Int) (c : Procs ConSide ConPc ConSoftc) : Prop where
  order : ∃ items, RingAt c.shared.csGotchars consoleInputBufferSize c.shared.csGotcharsHead
    c.shared.csGotcharsTail items ∧ c.shared.accepted = c.shared.returned ++ items
  drop : ∀ side, ∀ o ∈ conNext chars side (c.pc side) c.shared, Offers chars c (c.move side o)
  count : c.shared.csRsem + (c.pc .getch).passedP + (c.pc .input).owesV =
    (c.shared.csGotcharsHead + consoleInputBufferSize - c.shared.csGotcharsTail) %
      consoleInputBufferSize

section Offers

variable {c : Procs ConSide ConPc ConSoftc} {items : List Byte} {o : ConPc × ConSoftc}

theorem offers_input (h : ConInv c items) (ho : o ∈ conNext chars .input (c.pc .input) c.shared) :
    Offers chars c (c.move .input o) := by
  cases hpc : c.pc .input with
  | outside =>
    rw [hpc] at ho
    cases mem_singleton.mp ho
    exact .inl ⟨rfl, by simp [offered, hpc, ConPc.pending]⟩
  | inTest ch =>
    rw [hpc, conNext] at ho
    split_ifs at ho with hfull
    · cases mem_singleton.mp ho
      have hlen := h.ring.full_iff.mp hfull
      refine .inr ⟨rfl, .inr ⟨by simp [offered, ConPc.pending], ?_⟩⟩
      rw [← h.order, length_append]
      omega
    · cases mem_singleton.mp ho
      exact .inr ⟨rfl, .inl (by simp [offered, hpc, ConPc.pending])⟩
  | inStore ch | inAdvance ch | inV =>
    rw [hpc] at ho
    cases mem_singleton.mp ho
    exact .inr ⟨rfl, .inl (by simp [offered, hpc, ConPc.pending])⟩
  | outP | outLoad | outAdvance ret => rw [hpc] at ho; cases ho

theorem offers_getch (ho : o ∈ conNext chars .getch (c.pc .getch) c.shared) :
    Offers chars c (c.move .getch o) := by
  have hsame : o.2.arrived = c.shared.arrived ∧ o.2.accepted = c.shared.accepted := by
    cases hpc : c.pc .getch <;> rw [hpc, conNext] at ho
    case outP =>
      obtain ⟨-, rfl⟩ := mem_stepP ho
      exact ⟨rfl, rfl⟩
    all_goals first
      | (cases mem_singleton.mp ho; exact ⟨rfl, rfl⟩)
      | cases ho
  exact .inr ⟨hsame.1, .inl (by simp [offered, hsame.2])⟩

end Offers

/-- **Whatever arrives and whenever, console input is a lossless bounded queue.** -/
theorem console_lossless {chars : Nat → Int} {gotchars : Nat → Byte}
    {c : Procs ConSide ConPc ConSoftc} (h : ConReach chars gotchars c) :
    LosslessQueue chars c := by
  obtain ⟨items, hinv⟩ := conInv_of_reach h
  constructor
  · exact ⟨items, hinv.ring, hinv.order.symm⟩
  · intro side o ho
    cases side with
    | input => exact offers_input hinv ho
    | getch => exact offers_getch ho
  · rw [hinv.count]
    exact hinv.ring.length_eq

/-- The characters 0, 1, 2, ... arrive until one is dropped, then one is read. -/
theorem console_lossless_full : ∃ c, ConReach (fun n => n) (fun _ => 0) c ∧
    c.shared.arrived = 32 ∧ c.shared.accepted.length = 31 ∧ c.shared.returned = [0] ∧
    LosslessQueue (fun n => n) c := by
  have hreach : ConReach (fun n => n) (fun _ => 0)
      ((Procs.follow (conNext fun n => n) (fun _ _ _ => true)
        (replicate 157 (.input, 0) ++ replicate 4 (.getch, 0)) (configCon fun _ => 0)).get
          (by decide +kernel)) :=
    Procs.reach_follow (fun _ _ _ _ => True.intro) _
  exact ⟨_, hreach, by decide +kernel, by decide +kernel, by decide +kernel,
    console_lossless hreach⟩

end Os161
