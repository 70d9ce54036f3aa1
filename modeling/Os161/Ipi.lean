/-
# Interprocessor interrupts and TLB shootdowns

A processor that changes a mapping tells the others to forget it: `ipi_tlbshootdown` leaves the
mapping in the target's `c_shootdown` and pokes it, and the target's `interprocessor_interrupt`
invalidates what it finds there.  The counter `c_numshootdown` is an index and a sentinel at once:
when the array is full it becomes `TLBSHOOTDOWN_ALL`, which is -1 and means "flush everything".

The test that makes it so is `n == TLBSHOOTDOWN_MAX`, and -1 does not pass it.  A further request
therefore STORES AT INDEX -1, over the last word of the run queue's lock and over `c_ipi_pending`,
and leaves the counter at 0: all requests so far are forgotten.  So a processor serves up to
`TLBSHOOTDOWN_MAX + 1` requests between two interrupts and no more (`shootdowns_delivered`).

Each function runs under `c_ipi_lock` and is one step.  The state has the part of `struct cpu` that
they touch, in the order of the declaration, which is what the store at -1 hits; besides, it keeps
the indices written and the invalidations made.  The calls of `vm_tlbshootdown` are recorded and
not followed: both VM systems of this kernel answer them with a panic.
-/
import Os161.Lib.Run

namespace Os161

open Function List

/-! ## 1. The functions -/

/-- `struct tlbshootdown`; the first field is a pointer. -/
structure TlbShootdown where
  tsAddrspace : BitVec 32
  tsVaddr : BitVec 32
  deriving DecidableEq, Repr

/-- `TLBSHOOTDOWN_MAX`. -/
def tlbshootdownMax : Nat := 16

/-- `TLBSHOOTDOWN_ALL`. -/
def tlbshootdownAll : Int := -1

/-- An invalidation: `vm_tlbshootdown` or `vm_tlbshootdown_all`. -/
inductive Flush
  | one (m : TlbShootdown)
  | all
  deriving DecidableEq, Repr

/-- The fields of `struct cpu` from the holder of `c_runqueue_lock` to `c_numshootdown`. -/
structure CpuIpi where
  cRunqueueLockHolder : BitVec 32
  cIpiPending : BitVec 32
  cShootdown : Nat → TlbShootdown
  cNumshootdown : Int
  /-- The indices at which `c_shootdown` has been written. -/
  written : List Int
  /-- The invalidations made. -/
  flushed : List Flush

/-- A program on one processor's part; none of them has an error to return. -/
abbrev IpiProg := Prog Empty CpuIpi

namespace IpiCode

/-- `IPI_PANIC`. -/
def stopDead : Nat := 0

/-- `IPI_OFFLINE`. -/
def offline : Nat := 1

/-- `IPI_TLBSHOOTDOWN`. -/
def tlbshootdown : Nat := 3

end IpiCode

/-- `bits | (uint32_t)1 << code`. -/
def raiseBit (bits : BitVec 32) (code : Nat) : BitVec 32 := bits ||| (1#32 <<< code)

/-- `c_ipi_pending |= (uint32_t)1 << code`, and `mainbus_send_ipi`. -/
def raiseIpi (code : Nat) : IpiProg Unit :=
  modify fun s => { s with cIpiPending := raiseBit s.cIpiPending code }

/-- `ipi_send`. -/
def ipiSend (code : Int) : IpiProg Unit := do
  assert (0 ≤ code ∧ code < 32)
  raiseIpi code.toNat

/-- `c_shootdown[n] = *mapping`, wherever that is: before the array stand `c_ipi_pending` and, a
word further, the holder of the run queue's lock. -/
def storeShootdown (n : Int) (mapping : TlbShootdown) : IpiProg Unit :=
  if 0 ≤ n ∧ n < tlbshootdownMax then
    modify fun s => { s with
      cShootdown := update s.cShootdown n.toNat mapping
      written := s.written ++ [n] }
  else if n = -1 then
    modify fun s => { s with
      cRunqueueLockHolder := mapping.tsAddrspace
      cIpiPending := mapping.tsVaddr
      written := s.written ++ [n] }
  -- No other index is ever met (`Numbered`).
  else halt

/-- The counter and the array in `ipi_tlbshootdown`. -/
def noteShootdown (mapping : TlbShootdown) : IpiProg Unit := do
  let s ← get
  if s.cNumshootdown = tlbshootdownMax then
    modify fun s => { s with cNumshootdown := tlbshootdownAll }
  else do
    storeShootdown s.cNumshootdown mapping
    modify fun s' => { s' with cNumshootdown := s.cNumshootdown + 1 }

/-- `ipi_tlbshootdown`. -/
def ipiTlbshootdown (mapping : TlbShootdown) : IpiProg Unit := do
  noteShootdown mapping
  raiseIpi IpiCode.tlbshootdown

/-- The invalidations that `interprocessor_interrupt` makes. -/
def shootdowns (s : CpuIpi) : List Flush :=
  if s.cNumshootdown = tlbshootdownAll then [.all]
  else (List.range s.cNumshootdown.toNat).map fun i => .one (s.cShootdown i)

/-- `interprocessor_interrupt`.  A processor that is told to stop or to go offline halts. -/
def interprocessorInterrupt : IpiProg Unit := do
  let s ← get
  if s.cIpiPending.getLsbD IpiCode.stopDead then halt
  else if s.cIpiPending.getLsbD IpiCode.offline then halt
  else if s.cIpiPending.getLsbD IpiCode.tlbshootdown then
    modify fun s => { s with
      flushed := s.flushed ++ shootdowns s, cNumshootdown := 0, cIpiPending := 0 }
  else modify fun s => { s with cIpiPending := 0 }

/-- What other processors do between two interrupts. -/
inductive IpiCall
  | send (code : Fin 32)
  | tlbshootdown (mapping : TlbShootdown)
  deriving DecidableEq, Repr

/-- One such call. -/
def ipiCall : IpiCall → IpiProg Unit
  | .send code => ipiSend code.val
  | .tlbshootdown mapping => ipiTlbshootdown mapping

/-- Calls from other processors, in any order, and then the interrupt. -/
def ipiRound (calls : List IpiCall) : IpiProg Unit := do
  forEach ipiCall calls
  interprocessorInterrupt

/-- A processor as `cpu_create` makes it. -/
def cpuCreate : CpuIpi :=
  { cRunqueueLockHolder := 0, cIpiPending := 0, cShootdown := fun _ => ⟨0, 0⟩, cNumshootdown := 0,
    written := [], flushed := [] }

/-! ## 2. What is asked of a round -/

/-- The mappings whose invalidation was requested. -/
def requests (calls : List IpiCall) : List TlbShootdown :=
  calls.filterMap fun
    | .send _ => none
    | .tlbshootdown mapping => some mapping

/-- Somebody told the processor to stop or to go offline. -/
def Stops (calls : List IpiCall) : Prop :=
  ∃ code : Fin 32, .send code ∈ calls ∧ (code.val = IpiCode.stopDead ∨ code.val = IpiCode.offline)

/-- The state with nothing on record yet. -/
def CpuIpi.fresh (s : CpuIpi) : CpuIpi := { s with written := [], flushed := [] }

/-- The request is served: its mapping has been invalidated, alone or with everything else. -/
def Served (s : CpuIpi) (m : TlbShootdown) : Prop := .one m ∈ s.flushed ∨ .all ∈ s.flushed

/-- **What a round has to do**: every index written lies in the array, and unless the processor was
told to stop, the interrupt comes back and has served every request. -/
def RoundOk (s : CpuIpi) (calls : List IpiCall) : Prop :=
  Wp False (forEach ipiCall calls) (fun _ s' => (∀ n ∈ s'.written, 0 ≤ n ∧ n < tlbshootdownMax) ∧
      (¬ Stops calls → Wp False interprocessorInterrupt
        (fun _ s'' => ∀ m ∈ requests calls, Served s'' m) (fun _ _ => False) s'))
    (fun _ _ => False) s.fresh

/-! ## 3. One call -/

theorem getLsbD_raiseBit {bits : BitVec 32} {code k : Nat} (hcode : code < 32) :
    (raiseBit bits code).getLsbD k = (bits.getLsbD k || decide (k = code)) := by
  by_cases hk : k = code
  · subst hk
    simp [raiseBit, hcode]
  · rcases Nat.lt_or_ge k code with hlt | hge
    · simp [raiseBit, hk, hlt]
    · have h0 : ¬ k - code = 0 := by omega
      simp [raiseBit, hk, h0]

/-- The counter is an index of the array, the first index past it, or the sentinel, and a counter
that is not 0 is pending. -/
structure Numbered (s : CpuIpi) : Prop where
  lower : -1 ≤ s.cNumshootdown
  upper : s.cNumshootdown ≤ tlbshootdownMax
  bit : s.cNumshootdown ≠ 0 → s.cIpiPending.getLsbD IpiCode.tlbshootdown = true

/-- All that `ipi_tlbshootdown` can do: it sets the sentinel, it stores the mapping, or it finds
the sentinel and stores before the array. -/
def ShotDown (m : TlbShootdown) (s s' : CpuIpi) : Prop :=
  (s.cNumshootdown = tlbshootdownMax ∧ s' = { s with
    cNumshootdown := tlbshootdownAll
    cIpiPending := raiseBit s.cIpiPending IpiCode.tlbshootdown }) ∨
  (0 ≤ s.cNumshootdown ∧ s.cNumshootdown < tlbshootdownMax ∧ s' = { s with
    cShootdown := update s.cShootdown s.cNumshootdown.toNat m
    written := s.written ++ [s.cNumshootdown]
    cNumshootdown := s.cNumshootdown + 1
    cIpiPending := raiseBit s.cIpiPending IpiCode.tlbshootdown }) ∨
  (s.cNumshootdown = -1 ∧ s' = { s with
    cRunqueueLockHolder := m.tsAddrspace
    written := s.written ++ [-1]
    cNumshootdown := 0
    cIpiPending := raiseBit m.tsVaddr IpiCode.tlbshootdown })

variable {s : CpuIpi}

theorem ipiTlbshootdown_spec (m : TlbShootdown) (h : Numbered s) :
    Wp False (ipiTlbshootdown m) (fun _ s' => ShotDown m s s') (fun _ _ => False) s := by
  have hlower := h.lower
  have hupper := h.upper
  unfold ipiTlbshootdown noteShootdown raiseIpi
  simp only [wp_bind, wp_get, wp_modify]
  by_cases hmax : s.cNumshootdown = tlbshootdownMax
  · rw [if_pos hmax, wp_modify]
    exact .inl ⟨hmax, rfl⟩
  · rw [if_neg hmax]
    simp only [wp_bind, wp_modify]
    unfold storeShootdown
    by_cases hin : 0 ≤ s.cNumshootdown ∧ s.cNumshootdown < tlbshootdownMax
    · rw [if_pos hin, wp_modify]
      exact .inr (.inl ⟨hin.1, hin.2, rfl⟩)
    · have hall : s.cNumshootdown = -1 := by omega
      rw [if_neg hin, if_pos hall, wp_modify]
      refine .inr (.inr ⟨hall, ?_⟩)
      rw [hall]
      rfl

theorem ipiSend_spec (code : Fin 32) (s : CpuIpi) : Wp False (ipiSend code.val)
      (fun _ s' => s' = { s with cIpiPending := raiseBit s.cIpiPending code.val })
      (fun _ _ => False) s := by
  unfold ipiSend raiseIpi
  simp only [wp_bind, wp_assert, wp_modify]
  refine ⟨fun _ => by simp, fun h => h ?_⟩
  omega

theorem ShotDown.numbered {m : TlbShootdown} {s s' : CpuIpi} (h : ShotDown m s s') :
    Numbered s' := by
  have hbit : ∀ bits, (raiseBit bits IpiCode.tlbshootdown).getLsbD IpiCode.tlbshootdown = true :=
    fun bits => by rw [getLsbD_raiseBit (by decide)]; simp
  rcases h with ⟨_, rfl⟩ | ⟨h0, hlt, rfl⟩ | ⟨_, rfl⟩
  · exact ⟨by simp [tlbshootdownAll], by simp [tlbshootdownAll], fun _ => hbit _⟩
  · exact ⟨by dsimp only; omega, by dsimp only; omega, fun _ => hbit _⟩
  · exact ⟨by simp, by simp, fun h0 => absurd rfl h0⟩

theorem Numbered.send (h : Numbered s) (code : Fin 32) :
    Numbered { s with cIpiPending := raiseBit s.cIpiPending code.val } where
  lower := h.lower
  upper := h.upper
  bit := fun h0 => by rw [getLsbD_raiseBit code.isLt, h.bit h0, Bool.true_or]

/-- **Whatever is called, the counter stays in its range.** -/
theorem ipiCall_numbered (call : IpiCall) (h : Numbered s) :
    Wp False (ipiCall call) (fun _ => Numbered) (fun _ _ => False) s := by
  cases call with
  | send code =>
    refine (ipiSend_spec code s).post fun _ s' hs' => ?_
    rw [hs']
    exact h.send code
  | tlbshootdown m =>
    exact (ipiTlbshootdown_spec m h).post fun _ _ hs' => hs'.numbered

/-! ## 4. Any number of calls -/

@[simp] theorem requests_send (calls : List IpiCall) (code : Fin 32) :
    requests (calls ++ [.send code]) = requests calls := by simp [requests]

@[simp] theorem requests_tlbshootdown (calls : List IpiCall) (m : TlbShootdown) :
    requests (calls ++ [.tlbshootdown m]) = requests calls ++ [m] := by simp [requests]

/-- **The requests are on record.**  As long as there are no more than the array holds they stand
in it, in order; with one more the sentinel is set.  Nothing has been written outside the array,
and the processor halts only if it was told to. -/
structure OnRecord (calls : List IpiCall) (s : CpuIpi) : Prop where
  num : s.cNumshootdown =
    if (requests calls).length ≤ tlbshootdownMax then ((requests calls).length : Int) else -1
  slot : (requests calls).length ≤ tlbshootdownMax →
    ∀ i m, (requests calls)[i]? = some m → s.cShootdown i = m
  written : ∀ n ∈ s.written, 0 ≤ n ∧ n < tlbshootdownMax
  halts : s.cIpiPending.getLsbD IpiCode.stopDead = true ∨
    s.cIpiPending.getLsbD IpiCode.offline = true → Stops calls

theorem Stops.append {calls : List IpiCall} (h : Stops calls) (call : IpiCall) :
    Stops (calls ++ [call]) := by
  obtain ⟨code, hmem, hcode⟩ := h
  exact ⟨code, mem_append_left _ hmem, hcode⟩

theorem OnRecord.send {calls : List IpiCall} (h : OnRecord calls s) (code : Fin 32) :
    OnRecord (calls ++ [.send code]) { s with cIpiPending := raiseBit s.cIpiPending code.val } where
  num := by rw [requests_send]; exact h.num
  slot := by rw [requests_send]; exact h.slot
  written := h.written
  halts := by
    simp only [getLsbD_raiseBit code.isLt, Bool.or_eq_true, decide_eq_true_eq]
    intro hbit
    by_cases hcode : code.val = IpiCode.stopDead ∨ code.val = IpiCode.offline
    · exact ⟨code, by simp, hcode⟩
    · refine (h.halts ?_).append _
      rcases hbit with (hbit | hbit) | hbit | hbit
      · exact .inl hbit
      · exact absurd (.inl hbit.symm) hcode
      · exact .inr hbit
      · exact absurd (.inr hbit.symm) hcode

theorem OnRecord.shotDown {calls : List IpiCall} {s s' : CpuIpi} {m : TlbShootdown}
    (h : OnRecord calls s) (hs' : ShotDown m s s')
    (hfew : (requests calls).length ≤ tlbshootdownMax) :
    OnRecord (calls ++ [.tlbshootdown m]) s' := by
  have hnum := h.num
  rw [if_pos hfew] at hnum
  have hhalts : ∀ {k}, k ≠ IpiCode.tlbshootdown →
      (raiseBit s.cIpiPending IpiCode.tlbshootdown).getLsbD k = s.cIpiPending.getLsbD k := by
    intro k hk
    rw [getLsbD_raiseBit (by decide), decide_eq_false hk, Bool.or_false]
  rcases hs' with ⟨hmax, rfl⟩ | ⟨h0, hlt, rfl⟩ | ⟨hall, -⟩
  · -- The array is full: the sentinel is set.
    have hlen : (requests calls).length = tlbshootdownMax := by omega
    refine ⟨?_, ?_, h.written, ?_⟩
    · rw [requests_tlbshootdown, length_append, if_neg (by simp [hlen])]
      rfl
    · intro hle
      rw [requests_tlbshootdown, length_append, hlen] at hle
      exact absurd hle (by simp)
    · rw [hhalts (by decide), hhalts (by decide)]
      exact fun hbit => (h.halts hbit).append _
  · -- There is room: the mapping goes behind the others.
    have hidx : s.cNumshootdown.toNat = (requests calls).length := by omega
    refine ⟨?_, ?_, ?_, ?_⟩
    · rw [requests_tlbshootdown, length_append, if_pos (by simp; omega)]
      simp [hnum]
    · intro _ i m' hi
      rw [requests_tlbshootdown] at hi
      dsimp only
      rw [hidx]
      by_cases hlast : i = (requests calls).length
      · subst hlast
        simpa using hi
      · rw [update_of_ne hlast]
        rw [List.getElem?_append_left (by
          have := (List.getElem?_eq_some_iff.mp hi).1
          simp at this
          omega)] at hi
        exact h.slot hfew i m' hi
    · intro n hn
      rcases mem_append.mp hn with hn | hn
      · exact h.written n hn
      · rw [mem_singleton.mp hn]
        exact ⟨h0, hlt⟩
    · rw [hhalts (by decide), hhalts (by decide)]
      exact fun hbit => (h.halts hbit).append _
  · omega

/-- **After any calls**: up to `TLBSHOOTDOWN_MAX + 1` requests are on record, and more than that
have written before the array. -/
structure AfterCalls (calls : List IpiCall) (s : CpuIpi) : Prop extends Numbered s where
  few : (requests calls).length ≤ tlbshootdownMax + 1 → OnRecord calls s
  many : tlbshootdownMax + 1 < (requests calls).length → -1 ∈ s.written

theorem AfterCalls.call {calls : List IpiCall} (h : AfterCalls calls s)
    (call : IpiCall) : Wp False (ipiCall call) (fun _ => AfterCalls (calls ++ [call]))
      (fun _ _ => False) s := by
  cases call with
  | send code =>
    refine (ipiSend_spec code s).post fun _ s' hs' => ?_
    rw [hs']
    refine ⟨h.toNumbered.send code, fun hfew => ?_, fun hmany => ?_⟩
    · rw [requests_send] at hfew
      exact (h.few hfew).send code
    · rw [requests_send] at hmany
      exact h.many hmany
  | tlbshootdown m =>
    refine (ipiTlbshootdown_spec m h.toNumbered).post fun _ s' hs' => ?_
    refine ⟨hs'.numbered, fun hfew => ?_, fun hmany => ?_⟩
    · rw [requests_tlbshootdown, length_append, length_singleton] at hfew
      exact (h.few (by omega)).shotDown hs' (by omega)
    · rw [requests_tlbshootdown, length_append, length_singleton] at hmany
      by_cases hlast : (requests calls).length ≤ tlbshootdownMax + 1
      · -- The sentinel was set, so this is the store before the array.
        have hnum := (h.few hlast).num
        rw [if_neg (by omega)] at hnum
        rcases hs' with ⟨hmax, -⟩ | ⟨h0, -⟩ | ⟨-, rfl⟩
        · simp [hnum, tlbshootdownMax] at hmax
        · omega
        · simp
      · have hold := h.many (by omega)
        rcases hs' with ⟨-, rfl⟩ | ⟨-, -, rfl⟩ | ⟨-, rfl⟩
        · exact hold
        · exact mem_append_left _ hold
        · exact mem_append_left _ hold

/-- A processor between two rounds: no request is counted and no interrupt pending. -/
structure Idle (s : CpuIpi) : Prop where
  num : s.cNumshootdown = 0
  pending : s.cIpiPending = 0

theorem Idle.numbered (h : Idle s) : Numbered s :=
  ⟨by rw [h.num]; decide, by rw [h.num]; decide, fun h0 => absurd h.num h0⟩

theorem Idle.afterCalls (h : Idle s) : AfterCalls [] s.fresh where
  toNumbered := { h.numbered with }
  few := fun _ => by
    refine ⟨h.num, fun _ i m hi => ?_, fun n hn => ?_, fun hbit => ?_⟩
    · simp [requests] at hi
    · simp [CpuIpi.fresh] at hn
    · simp [CpuIpi.fresh, h.pending] at hbit
  many := fun hmany => by simp [requests] at hmany

/-- **The calls between two interrupts.** -/
theorem Idle.calls (h : Idle s) (calls : List IpiCall) :
    Wp False (forEach ipiCall calls) (fun _ => AfterCalls calls) (fun _ _ => False) s.fresh := by
  -- The invariant is indexed by what is still to be called.
  refine (wp_forEach (fun rest s => ∃ done, done ++ rest = calls ∧ AfterCalls done s) ?_ calls
    s.fresh ⟨[], rfl, h.afterCalls⟩).post ?_
  · rintro call rest s ⟨done, hdone, hs⟩
    refine (hs.call call).post fun _ s' hs' => ⟨done ++ [call], ?_, hs'⟩
    rw [append_assoc]
    exact hdone
  · rintro _ s' ⟨done, hdone, hs'⟩
    rw [append_nil] at hdone
    rwa [← hdone]

/-! ## 5. The interrupt -/

/-- **The interrupt serves what is on record.** -/
theorem OnRecord.interrupt {calls : List IpiCall} (h : OnRecord calls s)
    (hs : Numbered s) (hgo : ¬ Stops calls) :
    Wp False interprocessorInterrupt (fun _ s' => ∀ m ∈ requests calls, Served s' m)
      (fun _ _ => False) s := by
  have hhalts := mt h.halts hgo
  rw [not_or] at hhalts
  unfold interprocessorInterrupt
  rw [wp_bind, wp_get, if_neg hhalts.1, if_neg hhalts.2, wp_ite]
  refine ⟨fun _ => ?_, fun hbit => ?_⟩
  · rw [wp_modify]
    intro m hm
    have hnum := h.num
    by_cases hfew : (requests calls).length ≤ tlbshootdownMax
    · obtain ⟨i, hi⟩ := mem_iff_getElem?.mp hm
      have hlt := (List.getElem?_eq_some_iff.mp hi).1
      have hone : Flush.one m ∈ shootdowns s := by
        have hne : ¬ s.cNumshootdown = tlbshootdownAll := by
          rw [hnum, tlbshootdownAll]
          omega
        rw [shootdowns, if_neg hne, mem_map]
        exact ⟨i, mem_range.mpr (by omega), by rw [h.slot hfew i m hi]⟩
      exact .inl (mem_append_right _ hone)
    · rw [if_neg hfew] at hnum
      have hall : Flush.all ∈ shootdowns s := by simp [shootdowns, hnum, tlbshootdownAll]
      exact .inr (mem_append_right _ hall)
  · -- Nothing is pending, so nothing was requested.
    rw [wp_modify]
    intro m hm
    have hzero : s.cNumshootdown = 0 := by
      by_contra h0
      exact hbit (hs.bit h0)
    have hnum := h.num
    rw [hzero] at hnum
    have hpos := length_pos_of_mem hm
    split_ifs at hnum
    omega

/-- An interrupt that comes back leaves nothing behind, whatever came before it. -/
theorem interprocessorInterrupt_idle (h : Numbered s) :
    Wp True interprocessorInterrupt (fun _ => Idle) (fun _ _ => False) s := by
  unfold interprocessorInterrupt
  rw [wp_bind, wp_get]
  simp only [wp_ite, wp_halt, wp_modify]
  refine ⟨fun _ => trivial, fun _ => ⟨fun _ => trivial, fun _ => ⟨fun _ => ⟨rfl, rfl⟩, ?_⟩⟩⟩
  intro hbit
  refine ⟨?_, rfl⟩
  by_contra h0
  exact hbit (h.bit h0)

theorem idle_of_run (h : Run ipiRound (fun _ _ => True) cpuCreate s) : Idle s := by
  refine h.invariant (p := True) (I := Idle) ?_ ⟨rfl, rfl⟩
  intro calls s _ hs
  have hcalls : Wp False (forEach ipiCall calls) (fun _ => Numbered) (fun _ _ => False)
      s := wp_forEach (fun _ => Numbered) (fun call _ s hs => ipiCall_numbered call hs) calls s
        hs.numbered
  refine hcalls.weaken.bind_ok fun _ s' hs' => ?_
  exact (interprocessorInterrupt_idle hs').post_ok fun _ _ => id

/-- **Up to `TLBSHOOTDOWN_MAX + 1` requests are served between two interrupts, and never more.**
From every state that rounds of calls lead to, a further round is as it should be exactly when it
has at most that many requests among its calls. -/
theorem shootdowns_delivered {s : CpuIpi} (h : Run ipiRound (fun _ _ => True) cpuCreate s)
    (calls : List IpiCall) :
    RoundOk s calls ↔ (requests calls).length ≤ tlbshootdownMax + 1 := by
  have hcalls := (idle_of_run h).calls calls
  constructor
  · intro hok
    by_contra hmany
    obtain ⟨_, s', hs', hafter⟩ := hcalls.exists_ok
    have hin := (hok.of_ok hs').1 _ (hafter.many (by omega))
    omega
  · intro hfew
    refine hcalls.post fun _ s' hs' => ⟨(hs'.few hfew).written, fun hgo => ?_⟩
    exact (hs'.few hfew).interrupt hs'.toNumbered hgo

/-- A full round on a new processor. -/
theorem shootdowns_delivered_seventeen :
    RoundOk cpuCreate (List.replicate 17 (.tlbshootdown ⟨0, 0x400000⟩)) :=
  (shootdowns_delivered .refl _).mpr (by decide)

/-- **One request more**: it is stored before the array, and the interrupt that follows
invalidates nothing at all. -/
theorem eighteen_shootdowns :
    (forEach ipiCall (List.replicate 18 (.tlbshootdown ⟨0, 0x400000⟩)) cpuCreate).map
      (fun r => r.2.written.getLast?) = some (some (-1)) ∧
    (ipiRound (List.replicate 18 (.tlbshootdown ⟨0, 0x400000⟩)) cpuCreate).map
      (fun r => r.2.flushed) = some [] := by
  decide +kernel

end Os161
