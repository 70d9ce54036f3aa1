/-
# `kern/lib/uio.c`: moving bytes between kernel buffers and a `struct uio`

A `uio` says where a transfer goes (its iovecs), how much of it is left (`uio_resid`), and at
which offset of the object it continues (`uio_offset`).  `uiomove` moves bytes and ADVANCES
all three, whatever becomes of the operation the bytes were moved for.  That is the fact the
disk driver's retry path stumbles over (`Lhd.lean`), so the model keeps every field that
`uiomove` touches.

An iovec is modelled by the list of bytes it still covers.  Bytes moved OUT to the iovecs are
collected, in order, in `uioMoved`.  A user-space copy may fault; `uioFault` says which of the
copies still to come do.
-/
import Os161.Lib.Prog
import Os161.Lib.Bytes

namespace Os161

open List

/-- The error numbers of `kern/errno.h` that the modelled code returns. -/
inductive Errno
  | eunimp | enomem | eagain | efault | enametoolong | einval | enotdir | eisdir | enoent
  | enotempty | eexist | enxio | ebusy | exdev | eio | enospc | efbig | enfile | enodev | ebadf
  | enosys | enoexec
  deriving DecidableEq, Repr

/-- `enum uio_rw`: from the kernel to the uio, or from the uio to the kernel. -/
inductive UioRw
  | read | write
  deriving DecidableEq, Repr

/-- `enum uio_seg`, the two user segments taken together. -/
inductive UioSeg
  | user | sys
  deriving DecidableEq, Repr

/-- `struct uio`. -/
structure Uio where
  uioIov : List (List Byte)
  uioOffset : Nat
  uioResid : Nat
  uioSegflg : UioSeg
  uioRw : UioRw
  uioFault : Nat → Bool
  uioMoved : List Byte

open Uio

/-! ## 1. The functions -/

/-- The uio after `size` bytes went through its first iovec. -/
def Uio.advance (u : Uio) (size : Nat) (out : List Byte) : Uio :=
  { u with
    uioIov := match u.uioIov with
      | [] => []
      | v :: vs => v.drop size :: vs
    uioResid := u.uioResid - size
    uioOffset := u.uioOffset + size
    uioMoved := u.uioMoved ++ out }

/-- `copyin`/`copyout` of one piece: the next verdict of `uioFault`. -/
def uioCopy : Prog Errno Uio Unit := do
  let u ← get
  if u.uioSegflg = .user then
    modify fun u => { u with uioFault := fun n => u.uioFault (n + 1) }
    if u.uioFault 0 then fail .efault

/-- The loop of `uiomove`.  `done` is the part of the kernel buffer already dealt with and
`ptr` the part that is left; the result is the whole buffer as the loop leaves it.  A round
either drops an iovec or moves a byte, so the fuel given by `uiomove` is enough. -/
def uiomoveLoop : Nat → List Byte → List Byte → Prog Errno Uio (List Byte)
  | 0, done, ptr => pure (done ++ ptr)
  | fuel + 1, done, ptr => do
    let u ← get
    if ptr.length = 0 ∨ u.uioResid = 0 then
      pure (done ++ ptr)
    else
      match u.uioIov with
      | [] => halt
      | v :: vs =>
        let size := min v.length ptr.length
        if size = 0 then
          -- move to the next iovec and try again; "uiomove: ran out of buffers"
          if vs = [] then halt
          else
            modify fun u => { u with uioIov := vs }
            uiomoveLoop fuel done ptr
        else
          uioCopy
          match u.uioRw with
          | .read =>
            modify fun u => u.advance size (ptr.take size)
            uiomoveLoop fuel (done ++ ptr.take size) (ptr.drop size)
          | .write =>
            modify fun u => u.advance size []
            uiomoveLoop fuel (done ++ v.take size) (ptr.drop size)

/-- `uiomove(ptr, n, uio)` on the `n = ptr.length` bytes of a kernel buffer. -/
def uiomove (ptr : List Byte) : Prog Errno Uio (List Byte) := do
  let u ← get
  uiomoveLoop (ptr.length + u.uioIov.length) [] ptr

/-- The loop of `uiomovezeros`: at most sixteen zeros a round. -/
def uiomovezerosLoop : Nat → Nat → Prog Errno Uio Unit
  | 0, _ => pure ()
  | fuel + 1, n =>
    if n = 0 then pure ()
    else do
      let amt := min 16 n
      let _ ← uiomove (List.replicate amt 0)
      uiomovezerosLoop fuel (n - amt)

/-- `uiomovezeros(n, uio)`. -/
def uiomovezeros (n : Nat) : Prog Errno Uio Unit := do
  let u ← get
  assert (u.uioRw = .read)
  uiomovezerosLoop n n

/-- `uio_kinit`: one iovec over a kernel buffer. -/
def uioKinit (kbuf : List Byte) (pos : Nat) (rw : UioRw) : Uio where
  uioIov := [kbuf]
  uioOffset := pos
  uioResid := kbuf.length
  uioSegflg := .sys
  uioRw := rw
  uioFault := fun _ => false
  uioMoved := []

/-! ## 2. What a kernel transfer does

Every uio that reaches the file system in this kernel is made by `uio_kinit`, so it has one
iovec in kernel space.  On such a uio `uiomove` cannot fault and cannot run out of buffers as
long as the iovec covers the transfer. -/

/-- A kernel uio whose single iovec still covers the bytes `v`. -/
structure Uio.Kernel (u : Uio) (v : List Byte) : Prop where
  iov : u.uioIov = [v]
  seg : u.uioSegflg = .sys

variable {u u' u'' : Uio} {k l n : Nat} {a ptr : List Byte} {p : Prop}

theorem Uio.Kernel.advance {v : List Byte} (h : u.Kernel v) (size : Nat) (out : List Byte) :
    (u.advance size out).Kernel (v.drop size) :=
  ⟨by simp [Uio.advance, h.iov], h.seg⟩

theorem uioKinit_kernel (kbuf : List Byte) (pos : Nat) (rw : UioRw) :
    (uioKinit kbuf pos rw).Kernel kbuf := ⟨rfl, rfl⟩

theorem Uio.advance_zero : u.advance 0 [] = u := by
  cases u with
  | mk iov off resid seg rw fault moved =>
    cases iov <;> simp [advance]

@[simp] theorem Uio.advance_resid (u : Uio) (n : Nat) (out : List Byte) :
    (u.advance n out).uioResid = u.uioResid - n := rfl

@[simp] theorem Uio.advance_offset (u : Uio) (n : Nat) (out : List Byte) :
    (u.advance n out).uioOffset = u.uioOffset + n := rfl

@[simp] theorem Uio.advance_rw (u : Uio) (n : Nat) (out : List Byte) :
    (u.advance n out).uioRw = u.uioRw := rfl

theorem Uio.advance_advance (u : Uio) (m n : Nat) (a b : List Byte) :
    (u.advance m a).advance n b = u.advance (m + n) (a ++ b) := by
  cases u with
  | mk iov off resid seg rw fault moved =>
    cases iov <;> simp [advance, drop_drop, Nat.sub_sub, Nat.add_assoc]

/-- Bytes that leave through a read; a write moves none out. -/
def Uio.outOf (u : Uio) (ptr : List Byte) : List Byte :=
  match u.uioRw with
  | .read => ptr
  | .write => []

/-- The kernel buffer after the transfer: unchanged by a read, filled by a write. -/
def Uio.bufOf (u : Uio) (v ptr : List Byte) : List Byte :=
  match u.uioRw with
  | .read => ptr
  | .write => v.take ptr.length

/-! ## 3. What a transfer does in general

A uio from user space has any number of iovecs, its copies may fault, and it may be too small.  The
one thing that must not happen is that the iovecs run out before `uio_resid` does. -/

/-- The iovecs cover what is left of the transfer. -/
def Uio.Covered (u : Uio) : Prop := u.uioResid ≤ (u.uioIov.map List.length).sum

/-- The length of the iovecs together. -/
def Uio.room (u : Uio) : Nat := (u.uioIov.map List.length).sum

/-- `u'` is `u`, `k` bytes further on. -/
structure Uio.Ahead (u : Uio) (k : Nat) (u' : Uio) : Prop where
  offset : u'.uioOffset = u.uioOffset + k
  resid : u'.uioResid + k = u.uioResid
  room : u'.room + k = u.room
  rw : u'.uioRw = u.uioRw
  seg : u'.uioSegflg = u.uioSegflg

theorem Uio.Ahead.refl (u : Uio) : u.Ahead 0 u := ⟨rfl, rfl, rfl, rfl, rfl⟩

theorem Uio.Ahead.trans (h : u.Ahead k u') (h' : u'.Ahead l u'') : u.Ahead (k + l) u'' where
  offset := by rw [h'.offset, h.offset, Nat.add_assoc]
  resid := by rw [← h.resid, ← h'.resid, Nat.add_comm k, Nat.add_assoc]
  room := by rw [← h.room, ← h'.room, Nat.add_comm k, Nat.add_assoc]
  rw := h'.rw.trans h.rw
  seg := h'.seg.trans h.seg

theorem Uio.Ahead.covered (h : u.Ahead k u') (hu : u.Covered) : u'.Covered := by
  have hresid := h.resid
  have hroom := h.room
  unfold Uio.Covered at *
  unfold Uio.room at hroom
  omega

/-- What `uiomove` of these bytes leaves, if it has moved them all. -/
structure Uio.Took (u : Uio) (ptr : List Byte) (u' : Uio) : Prop
    extends u.Ahead ptr.length u' where
  moved : u'.uioMoved = u.uioMoved ++ u.outOf ptr

theorem Uio.outOf_append (u : Uio) (a b : List Byte) :
    u.outOf (a ++ b) = u.outOf a ++ u.outOf b := by
  cases hrw : u.uioRw <;> simp [outOf, hrw]

theorem Uio.Took.refl (u : Uio) : u.Took [] u := by
  refine ⟨.refl u, ?_⟩
  cases hrw : u.uioRw <;> simp [outOf, hrw]

theorem Uio.Took.trans {b : List Byte} (h : u.Took a u') (h' : u'.Took b u'') :
    u.Took (a ++ b) u'' := by
  refine ⟨length_append ▸ h.toAhead.trans h'.toAhead, ?_⟩
  have hout : u'.outOf b = u.outOf b := by rw [outOf, outOf, h.rw]
  rw [h'.moved, h.moved, hout, outOf_append, append_assoc]

/-- The buffers are all there: no copy faults. -/
def Uio.Valid (u : Uio) : Prop := u.uioSegflg = .user → ∀ n, u.uioFault n = false

/-- A copy moves nothing yet, and faults only if a buffer is not there. -/
theorem uioCopy_spec (u : Uio) : Wp p uioCopy
      (fun _ u' => ∃ fault, u' = { u with uioFault := fault } ∧ (u.Valid → fault = u.uioFault))
      (fun e u' => e = .efault ∧ ¬ u.Valid ∧ ∃ fault, u' = { u with uioFault := fault }) u := by
  rw [uioCopy, wp_bind, wp_get]
  split_ifs with hseg hfault
  · rw [wp_bind, wp_modify]
    refine wp_fail.mpr ⟨rfl, fun hv => ?_, _, rfl⟩
    rw [hv hseg 0] at hfault
    cases hfault
  · rw [wp_bind, wp_modify]
    refine wp_pure.mpr ⟨_, rfl, fun hv => funext fun n => ?_⟩
    rw [hv hseg n, hv hseg (n + 1)]
  · exact wp_pure.mpr ⟨u.uioFault, rfl, fun _ => rfl⟩

/-- The iovecs when `k` bytes have gone through them.  One that is used up stays until another byte
is to be moved. -/
def iovSkip : Nat → List (List Byte) → List (List Byte)
  | _, [] => []
  | k, v :: vs => if k ≤ v.length then v.drop k :: vs else iovSkip (k - v.length) vs

theorem iovSkip_iovSkip (j k : Nat) (iov : List (List Byte)) :
    iovSkip k (iovSkip j iov) = iovSkip (j + k) iov := by
  induction iov generalizing j with
  | nil => rfl
  | cons v vs ih =>
    by_cases hj : j ≤ v.length
    · rw [iovSkip, if_pos hj, iovSkip, iovSkip, length_drop, drop_drop]
      by_cases hk : j + k ≤ v.length
      · rw [if_pos hk, if_pos (by omega)]
      · rw [if_neg hk, if_neg (by omega)]
        congr 1
        omega
    · rw [iovSkip, if_neg hj, ih, iovSkip, if_neg (by omega)]
      congr 1
      omega

theorem flatten_iovSkip (k : Nat) (iov : List (List Byte)) :
    (iovSkip k iov).flatten = iov.flatten.drop k := by
  induction iov generalizing k with
  | nil => rw [iovSkip, flatten_nil, drop_nil]
  | cons v vs ih =>
    rw [iovSkip, flatten_cons, drop_append]
    split_ifs with hk
    · rw [flatten_cons, Nat.sub_eq_zero_of_le hk, drop_zero]
    · have hv : v.drop k = [] := drop_of_length_le (by omega)
      rw [ih, hv, nil_append]

/-- The uio when the bytes `a` have gone through it. -/
def Uio.past (u : Uio) (a : List Byte) : Uio :=
  { u with
    uioIov := iovSkip a.length u.uioIov
    uioResid := u.uioResid - a.length
    uioOffset := u.uioOffset + a.length
    uioMoved := u.uioMoved ++ u.outOf a }

theorem Uio.outOf_nil (u : Uio) : u.outOf [] = [] := by
  cases hrw : u.uioRw <;> simp [outOf, hrw]

theorem Uio.past_nil (u : Uio) : u.past [] = u := by
  have hiov : iovSkip 0 u.uioIov = u.uioIov := by cases u.uioIov <;> simp [iovSkip]
  simp [past, hiov, outOf_nil]

theorem Uio.past_past (u : Uio) (a b : List Byte) (fault : Nat → Bool) :
    past { u.past a with uioFault := fault } b = { u.past (a ++ b) with uioFault := fault } := by
  simp only [past, iovSkip_iovSkip, length_append, Nat.sub_sub, Nat.add_assoc,
    outOf_append, ← append_assoc]
  rfl

theorem Uio.room_eq (u : Uio) : u.room = u.uioIov.flatten.length := length_flatten.symm

theorem Uio.room_past (u : Uio) (a : List Byte) : (u.past a).room = u.room - a.length := by
  rw [room_eq, room_eq, ← length_drop, ← flatten_iovSkip]
  rfl

/-- A uio that is further on, with what is left of its iovecs. -/
structure Uio.Advanced (u : Uio) (k : Nat) (u' : Uio) : Prop extends u.Ahead k u' where
  rest : u'.uioIov.flatten = u.uioIov.flatten.drop k

theorem Uio.Advanced.trans (h : u.Advanced k u') (h' : u'.Advanced l u'') :
    u.Advanced (k + l) u'' :=
  ⟨h.toAhead.trans h'.toAhead, by rw [h'.rest, h.rest, drop_drop]⟩

theorem Uio.advanced_past (h : a.length ≤ u.room) (ha : a.length ≤ u.uioResid)
    (fault : Nat → Bool) :
    u.Advanced a.length { u.past a with uioFault := fault } := by
  refine ⟨⟨rfl, Nat.sub_add_cancel ha, ?_, rfl, rfl⟩, flatten_iovSkip _ _⟩
  have hroom : (u.past a).room + a.length = u.room := by
    rw [room_past]
    exact Nat.sub_add_cancel h
  exact hroom

/-- The iovecs are what is left of the transfer, or both have room for `n` bytes. -/
def Uio.Fits (u : Uio) (n : Nat) : Prop :=
  u.uioResid = u.room ∨ n ≤ u.uioResid ∧ n ≤ u.room

theorem Uio.Covered.fits (h : u.Covered) (hn : n ≤ u.uioResid) : u.Fits n :=
  .inr ⟨hn, hn.trans h⟩

theorem Uio.bufOf_nil (u : Uio) (v : List Byte) : u.bufOf v [] = [] := by
  cases hrw : u.uioRw <;> simp [bufOf, hrw]

theorem Uio.bufOf_append (u : Uio) (v a b : List Byte) :
    u.bufOf v (a ++ b) = u.bufOf v a ++ u.bufOf (v.drop a.length) b := by
  cases hrw : u.uioRw <;> simp [bufOf, hrw, take_add]

section Loop

variable {p : Prop} {u : Uio} {fuel : Nat} {done ptr : List Byte}

/-- **One round of `uiomove`**: it stops, passes over an empty iovec, moves a piece `a` through the
first iovec, or faults. -/
theorem uiomoveLoop_round {Q : List Byte → Uio → Prop} {E : Errno → Uio → Prop}
    (h : u.Covered ∨ ptr.length ≤ u.room)
    (hstop : ptr.length = 0 ∨ u.uioResid = 0 → Q (done ++ ptr) u)
    (hskip : ∀ vs, u.uioIov = [] :: vs → ptr.length ≠ 0 → u.uioResid ≠ 0 →
      Wp p (uiomoveLoop fuel done ptr) Q E { u with uioIov := vs })
    (hmove : ∀ v vs a b fault, u.uioIov = v :: vs → ptr = a ++ b → 0 < a.length →
      a.length ≤ v.length → (u.Valid → fault = u.uioFault) →
      Wp p (uiomoveLoop fuel (done ++ u.bufOf v a) b) Q E { u.past a with uioFault := fault })
    (hfault : ∀ fault, ¬ u.Valid → E .efault { u with uioFault := fault }) :
    Wp p (uiomoveLoop (fuel + 1) done ptr) Q E u := by
  rw [uiomoveLoop, wp_bind, wp_get]
  split_ifs with hdone
  · exact wp_pure.mpr (hstop hdone)
  obtain ⟨hptr, hresid⟩ := not_or.mp hdone
  have hroom : u.uioResid ≤ (u.uioIov.map length).sum ∨ ptr.length ≤ (u.uioIov.map length).sum := h
  cases hiov : u.uioIov with
  | nil =>
    rw [hiov] at hroom
    exact absurd hroom (by simp [hptr, hresid])
  | cons v vs =>
    dsimp only
    split_ifs with hsize hvs
    · -- the only iovec is used up
      rw [hiov, hvs] at hroom
      simp only [map_cons, map_nil, sum_cons, sum_nil] at hroom
      omega
    · obtain rfl : v = [] := length_eq_zero_iff.mp (by omega)
      rw [wp_bind, wp_modify]
      exact hskip vs hiov hptr hresid
    · rw [wp_bind]
      refine (uioCopy_spec u).imp ?_ fun e _ he => ?_
      · rintro _ _ ⟨fault, rfl, hvalid⟩
        have hlen : (ptr.take (min v.length ptr.length)).length = min v.length ptr.length :=
          length_take_of_le (Nat.min_le_right _ _)
        have hgo := hmove v vs _ _ fault hiov (take_append_drop _ ptr).symm
          (by rw [hlen]; omega) (by rw [hlen]; exact Nat.min_le_left _ _) hvalid
        have hskip : iovSkip (min v.length ptr.length) (v :: vs) =
            v.drop (min v.length ptr.length) :: vs := if_pos (Nat.min_le_left _ _)
        cases hrw : u.uioRw <;>
          simpa only [past, bufOf, outOf, hrw, hlen, hiov, hskip, wp_bind, wp_modify,
            advance] using hgo
      · obtain ⟨rfl, hnot, fault, rfl⟩ := he
        exact hfault fault hnot

theorem uiomoveLoop_covered (h : u.Covered) :
    Wp p (uiomoveLoop fuel done ptr) (fun _ u' => u'.Covered) (fun _ _ => True) u := by
  induction fuel generalizing done ptr u with
  | zero => exact wp_pure.mpr h
  | succ fuel ih =>
    refine uiomoveLoop_round (.inl h) (fun _ => h) (fun vs hiov _ _ => ih ?_)
      (fun v vs a b fault _ _ _ _ _ =>
      ih ?_) fun _ _ => trivial
    · unfold Uio.Covered at h ⊢
      rw [hiov] at h
      simpa using h
    · have hroom : (u.past a).room = u.room - a.length := u.room_past a
      exact (Nat.sub_le_sub_right h a.length).trans hroom.ge

/-- What is left when `ptr` has been moved, as far as there is residue for it: the kernel buffer
and the uio.  Where no copy faults nothing is left open. -/
structure Uio.Moves (u : Uio) (ptr buf : List Byte) (u' : Uio) : Prop where
  buf : buf = u.bufOf u.uioIov.flatten (ptr.take u.uioResid) ++ ptr.drop u.uioResid
  uio : ∃ fault, u' = { u.past (ptr.take u.uioResid) with uioFault := fault } ∧
    (u.Valid → fault = u.uioFault)

theorem Uio.moves_nothing (h : ptr.length = 0 ∨ u.uioResid = 0) : u.Moves ptr ptr u := by
  have hparts : ptr.take u.uioResid = [] ∧ ptr.drop u.uioResid = ptr := by
    rcases h with h | h
    · obtain rfl := length_eq_zero_iff.mp h
      simp
    · simp [h]
  refine ⟨?_, u.uioFault, ?_, fun _ => rfl⟩
  · rw [hparts.1, hparts.2, bufOf_nil, nil_append]
  · rw [hparts.1, past_nil]

variable {buf : List Byte} {vs : List (List Byte)}

theorem Uio.Moves.skip (hiov : u.uioIov = [] :: vs) (hptr : ptr.length ≠ 0)
    (hresid : u.uioResid ≠ 0) (h : Uio.Moves { u with uioIov := vs } ptr buf u') :
    u.Moves ptr buf u' := by
  have hskip : iovSkip (ptr.take u.uioResid).length ([] :: vs) =
      iovSkip (ptr.take u.uioResid).length vs := by
    rw [iovSkip, if_neg (by rw [length_take, length_nil]; omega)]
    rfl
  have hpast : past { u with uioIov := vs } (ptr.take u.uioResid) =
      u.past (ptr.take u.uioResid) := by
    simp only [past, hiov, hskip]
    rfl
  refine ⟨?_, ?_⟩
  · rw [hiov]
    exact h.buf
  · rw [← hpast]
    exact h.uio

theorem Uio.Moves.after {v b : List Byte} {fault : Nat → Bool} (hiov : u.uioIov = v :: vs)
    (ha : a.length ≤ v.length) (hr : a.length ≤ u.uioResid) (hvalid : u.Valid → fault = u.uioFault)
    (h : Uio.Moves { u.past a with uioFault := fault } b buf u') :
    u.Moves (a ++ b) (u.bufOf v a ++ buf) u' := by
  have htake : (a ++ b).take u.uioResid = a ++ b.take (u.uioResid - a.length) := by
    rw [take_append, take_of_length_le hr]
  have hdrop : (a ++ b).drop u.uioResid = b.drop (u.uioResid - a.length) := by
    rw [drop_append, drop_of_length_le hr, nil_append]
  have hfirst : u.bufOf v a = u.bufOf u.uioIov.flatten a := by
    rw [hiov, flatten_cons]
    cases hrw : u.uioRw <;> simp [bufOf, hrw, take_append_of_le_length ha]
  refine ⟨?_, ?_⟩
  · rw [htake, hdrop, bufOf_append, ← hfirst, ← flatten_iovSkip, h.buf, append_assoc]
    rfl
  · obtain ⟨fault', hu', hf⟩ := h.uio
    refine ⟨fault', ?_, fun hv => ?_⟩
    · rw [htake, hu']
      exact congrArg (fun w : Uio => { w with uioFault := fault' })
        (u.past_past a (b.take (u.uioResid - a.length)) fault)
    · exact (hf fun hseg n => by rw [hvalid hv]; exact hv hseg n).trans (hvalid hv)

/-- **The loop of `uiomove`** moves what fits, or faults on the way. -/
theorem uiomoveLoop_exact (hfit : u.Fits ptr.length) (hfuel : ptr.length + u.uioIov.length ≤ fuel) :
    Wp p (uiomoveLoop fuel done ptr)
      (fun buf u' => ∃ rest, buf = done ++ rest ∧ u.Moves ptr rest u')
      (fun e u' => e = .efault ∧ ¬ u.Valid ∧ ∃ k ≤ ptr.length, u.Advanced k u') u := by
  induction fuel generalizing done ptr u with
  | zero => exact wp_pure.mpr ⟨ptr, rfl, moves_nothing (.inl (by omega))⟩
  | succ fuel ih =>
    refine uiomoveLoop_round (hfit.imp Nat.le_of_eq And.right)
      (fun hstop => ⟨ptr, rfl, moves_nothing hstop⟩)
      (fun vs hiov hptr hresid => ?_) (fun v vs a b fault hiov hab hpos hle hvalid => ?_)
      fun fault hnot => ⟨rfl, hnot, 0, Nat.zero_le _, ⟨rfl, rfl, rfl, rfl, rfl⟩, rfl⟩
    · have hroom : u.room = room { u with uioIov := vs } := by simp [room, hiov]
      unfold Uio.Fits at hfit
      rw [hroom] at hfit
      rw [hiov, length_cons] at hfuel
      refine (ih (u := { u with uioIov := vs }) hfit (by dsimp only; omega)).imp ?_ ?_
      · rintro _ u' ⟨rest, rfl, h⟩
        exact ⟨rest, rfl, h.skip hiov hptr hresid⟩
      · rintro e u' ⟨he, hnot, k, hk, h⟩
        refine ⟨he, hnot, k, hk, ⟨h.offset, h.resid, h.room.trans hroom.symm, h.rw, h.seg⟩, ?_⟩
        rw [h.rest, hiov]
        rfl
    · subst hab
      rw [length_append] at hfit hfuel
      have hvroom : v.length ≤ u.room := by
        rw [room, hiov, map_cons, sum_cons]
        exact Nat.le_add_right _ _
      have hr : a.length ≤ u.uioResid := by
        unfold Uio.Fits at hfit
        omega
      have hadv := advanced_past (hle.trans hvroom) hr fault
      have hfit' : Uio.Fits { u.past a with uioFault := fault } b.length := by
        have hroom : room { u.past a with uioFault := fault } = u.room - a.length :=
          u.room_past a
        unfold Uio.Fits at hfit ⊢
        rw [hroom]
        simp only [past]
        omega
      have hlen : (iovSkip a.length u.uioIov).length = u.uioIov.length := by
        rw [hiov, iovSkip, if_pos hle]
        rfl
      refine (ih hfit' (by simp only [past, hlen]; omega)).imp ?_ ?_
      · rintro _ u' ⟨rest, rfl, h⟩
        exact ⟨_, append_assoc _ _ _, h.after hiov hle hr hvalid⟩
      · rintro e u' ⟨he, hnot, k, hk, h⟩
        refine ⟨he, fun hv => hnot ?_, a.length + k, by rw [length_append]; omega, hadv.trans h⟩
        rw [hvalid hv]
        exact hv

end Loop

theorem uiomove_covered (h : u.Covered) :
    Wp p (uiomove ptr) (fun _ u' => u'.Covered) (fun _ _ => True) u := by
  rw [uiomove, wp_bind, wp_get]
  exact uiomoveLoop_covered h

/-- **`uiomove` is exact.** -/
theorem uiomove_moves (hfit : u.Fits ptr.length) : Wp p (uiomove ptr) (u.Moves ptr)
      (fun e u' => e = .efault ∧ ¬ u.Valid ∧ ∃ k ≤ ptr.length, u.Advanced k u') u := by
  rw [uiomove, wp_bind, wp_get]
  refine (uiomoveLoop_exact hfit le_rfl).post ?_
  rintro _ u' ⟨rest, rfl, h⟩
  exact h

theorem Uio.Moves.took {buf : List Byte} (h : u.Moves ptr buf u') (hu : u.Covered)
    (hr : ptr.length ≤ u.uioResid) : u.Took ptr u' := by
  obtain ⟨fault, rfl, -⟩ := h.uio
  rw [take_of_length_le hr]
  exact ⟨(advanced_past (hr.trans hu) hr fault).toAhead, rfl⟩

/-- **`uiomove` moves what it is asked to**, if the residue is large enough, or it faults on the
way. -/
theorem uiomove_spec (h : u.Covered) (hr : ptr.length ≤ u.uioResid) :
    Wp p (uiomove ptr) (fun _ => u.Took ptr)
      (fun e u' => e = .efault ∧ ∃ k ≤ ptr.length, u.Ahead k u') u :=
  (uiomove_moves (h.fits hr)).imp (fun _ _ hm => hm.took h hr)
    fun _ _ ⟨he, _, k, hk, hu'⟩ => ⟨he, k, hk, hu'.toAhead⟩

theorem uiomove_valid (h : u.Covered) (hv : u.Valid) (hr : ptr.length ≤ u.uioResid) :
    Wp p (uiomove ptr) (fun _ => u.Took ptr) (fun _ _ => False) u :=
  (uiomove_moves (h.fits hr)).imp (fun _ _ hm => hm.took h hr) fun _ _ he => he.2.1 hv

/-- The loop of `uiomovezeros` moves `n` zeros, or faults on the way. -/
theorem uiomovezerosLoop_spec : ∀ (fuel n : Nat) {u : Uio}, u.Covered → n ≤ fuel → n ≤ u.uioResid →
    Wp p (uiomovezerosLoop fuel n) (fun _ => u.Took (replicate n 0))
      (fun e u' => e = .efault ∧ ∃ k ≤ n, u.Ahead k u') u
  | 0, n, u, h, hf, _ => by
    obtain rfl := Nat.le_zero.mp hf
    exact wp_pure.mpr (.refl u)
  | fuel + 1, n, u, h, hf, hr => by
    rw [uiomovezerosLoop]
    split_ifs with hn
    · subst hn
      exact wp_pure.mpr (.refl u)
    have hlen : (replicate (min 16 n) (0 : Byte)).length = min 16 n := length_replicate
    rw [wp_bind]
    refine (uiomove_spec h (by omega)).imp ?_ ?_
    · intro _ u₁ hu1
      have hres := hu1.resid
      have hsum : replicate n (0 : Byte)
          = replicate (min 16 n) 0 ++ replicate (n - min 16 n) 0 := by
        rw [replicate_append_replicate]
        congr 1
        omega
      refine (uiomovezerosLoop_spec fuel (n - min 16 n) (hu1.covered h) (by omega)
        (by omega)).imp ?_ ?_
      · intro _ u₂ hu2
        exact hsum ▸ hu1.trans hu2
      · rintro e u₂ ⟨he, k, hk, hu2⟩
        refine ⟨he, min 16 n + k, by omega, ?_⟩
        exact (hlen ▸ hu1.toAhead).trans hu2
    · rintro e u₁ ⟨he, k, hk, hu1⟩
      exact ⟨he, k, by omega, hu1⟩

/-- **`uiomovezeros` moves `n` zeros**, or faults on the way. -/
theorem uiomovezeros_spec (h : u.Covered) (hrw : u.uioRw = .read) (hr : n ≤ u.uioResid) :
    Wp p (uiomovezeros n) (fun _ => u.Took (replicate n 0))
      (fun e u' => e = .efault ∧ ∃ k ≤ n, u.Ahead k u') u := by
  rw [uiomovezeros, wp_bind, wp_get, wp_bind, wp_assert_of hrw]
  exact uiomovezerosLoop_spec n n h le_rfl hr

/-! ## 4. Transfers in several calls -/

section Calls

variable {u : Uio} {v a b ptr : List Byte} {n : Nat}

theorem uiomove_run (hfit : u.Fits ptr.length) (hv : u.Valid) :
    uiomove ptr u = some (.ok (u.bufOf u.uioIov.flatten (ptr.take u.uioResid) ++
      ptr.drop u.uioResid), u.past (ptr.take u.uioResid)) := by
  obtain ⟨_, _, hrun, hbuf, fault, rfl, hf⟩ :=
    ((uiomove_moves hfit).noError fun _ _ he => he.2.1 hv).exists_ok
  rw [hrun, hbuf, hf hv]
  rfl

theorem Uio.Fits.left (h : u.Fits (a ++ b).length) : u.Fits a.length := by
  rw [length_append] at h
  unfold Uio.Fits at *
  omega

theorem Uio.Fits.right (h : u.Fits (a ++ b).length) :
    (u.past (a.take u.uioResid)).Fits b.length := by
  have hlen : (a.take u.uioResid).length = min u.uioResid a.length := length_take
  rw [length_append] at h
  unfold Uio.Fits at *
  rw [room_past, hlen]
  simp only [past, hlen]
  omega

theorem Uio.resid_past_take (u : Uio) (a : List Byte) :
    (u.past (a.take u.uioResid)).uioResid = u.uioResid - a.length := by
  simp only [past, length_take]
  omega

theorem Uio.past_take (u : Uio) (a b : List Byte) :
    (u.past (a.take u.uioResid)).past (b.take (u.uioResid - a.length)) =
      u.past ((a ++ b).take u.uioResid) := by
  rw [take_append]
  exact u.past_past _ _ u.uioFault

/-- **Two calls are one.** -/
theorem uiomove_append (hfit : u.Fits (a ++ b).length) (hv : u.Valid) :
    (do let x ← uiomove a; let y ← uiomove b; pure (x ++ y)) u = uiomove (a ++ b) u := by
  have hflat : (u.past (a.take u.uioResid)).uioIov.flatten =
      u.uioIov.flatten.drop (a.take u.uioResid).length := flatten_iovSkip _ _
  have hbuf : (u.past (a.take u.uioResid)).bufOf = u.bufOf := rfl
  rw [Prog.bind_ok (uiomove_run hfit.left hv), Prog.bind_ok (uiomove_run hfit.right hv),
    uiomove_run hfit hv, u.resid_past_take, u.past_take, hflat, hbuf]
  refine congrArg (fun x => some (Except.ok x, _)) ?_
  rw [take_append, bufOf_append, drop_append]
  -- the residue ends in the first buffer or behind it
  rcases Nat.le_total a.length u.uioResid with h | h
  · simp [drop_of_length_le h]
  · simp [Nat.sub_eq_zero_of_le h, bufOf_nil]

theorem uiomovezerosLoop_run (fuel : Nat) : ∀ {n : Nat} {u : Uio}, n ≤ fuel → u.Fits n → u.Valid →
    uiomovezerosLoop fuel n u = some (.ok (), u.past ((replicate n 0).take u.uioResid)) := by
  induction fuel with
  | zero =>
    intro n u hn _ _
    obtain rfl := Nat.le_zero.mp hn
    rw [replicate_zero, take_nil, past_nil]
    rfl
  | succ fuel ih =>
    intro n u hn hfit hv
    rw [uiomovezerosLoop]
    by_cases h0 : n = 0
    · rw [if_pos h0, h0, replicate_zero, take_nil, past_nil]
      rfl
    · have hzeros : replicate n (0 : Byte) =
          replicate (min 16 n) 0 ++ replicate (n - min 16 n) 0 := by
        rw [replicate_append_replicate]
        congr 1
        omega
      have hfit : u.Fits (replicate (min 16 n) (0 : Byte) ++
          replicate (n - min 16 n) 0).length := by
        rwa [← hzeros, length_replicate]
      have hright := hfit.right
      rw [length_replicate] at hright
      rw [if_neg h0, Prog.bind_ok (uiomove_run hfit.left hv), ih (by omega) hright hv,
        u.resid_past_take, u.past_take, ← hzeros]

theorem Uio.Kernel.past (h : u.Kernel v) (ha : a.length ≤ v.length) :
    u.past a = u.advance a.length (u.outOf a) := by
  have hskip : iovSkip a.length [v] = [v.drop a.length] := if_pos ha
  simp only [Uio.past, Uio.advance, h.iov, hskip]

theorem Uio.Kernel.valid (h : u.Kernel v) : u.Valid := fun hseg =>
  absurd (h.seg.symm.trans hseg) nofun

theorem Uio.Kernel.fits (h : u.Kernel v) (hv : n ≤ v.length) (hr : n ≤ u.uioResid) : u.Fits n :=
  .inr ⟨hr, by simpa [room, h.iov] using hv⟩

/-- **`uiomove` on a kernel uio.**  If the iovec and the residue both cover the transfer, all
`n` bytes are moved, and the uio advances by `n`. -/
theorem uiomove_kernel (hk : u.Kernel v) (hv : ptr.length ≤ v.length)
    (hr : ptr.length ≤ u.uioResid) :
    Wp p (uiomove ptr) (fun buf u' => buf = u.bufOf v ptr ∧ u' = u.advance ptr.length (u.outOf ptr))
      (fun _ _ => False) u := by
  refine .of_run (uiomove_run (hk.fits hv hr) hk.valid) ?_
  rw [take_of_length_le hr, drop_of_length_le hr, append_nil, hk.iov, flatten_singleton, hk.past hv]
  exact ⟨rfl, rfl⟩

/-- **`uiomovezeros` on a kernel uio** is `uiomove` of `n` zeros. -/
theorem uiomovezeros_kernel (hk : u.Kernel v) (hrw : u.uioRw = .read) (hv : n ≤ v.length)
    (hr : n ≤ u.uioResid) : Wp p (uiomovezeros n)
      (fun _ u' => u' = u.advance n (replicate n 0)) (fun _ _ => False) u := by
  have hlen : (replicate n (0 : Byte)).length = n := length_replicate
  rw [uiomovezeros, wp_bind, wp_get, wp_bind, wp_assert]
  refine ⟨fun _ => .of_run (uiomovezerosLoop_run n le_rfl (hk.fits hv hr) hk.valid) ?_,
    fun h => absurd hrw h⟩
  rw [take_of_length_le (hlen.trans_le hr), hk.past (hlen.trans_le hv), hlen]
  simp only [outOf, hrw]

/-- **`uiomove` is an exact scatter/gather.**  What it moves, on success and up to a fault, is what
the residue and the iovecs say; and without faults it makes no difference in how many calls. -/
theorem uiomove_exact (hfit : u.Fits ptr.length) : Wp False (uiomove ptr)
      (fun buf u' => u.Advanced (min ptr.length u.uioResid) u' ∧
        u'.uioMoved = u.uioMoved ++ u.outOf (ptr.take u.uioResid) ∧
        buf = u.bufOf u.uioIov.flatten (ptr.take u.uioResid) ++ ptr.drop u.uioResid)
      (fun e u' => e = .efault ∧ ¬ u.Valid ∧ ∃ k ≤ min ptr.length u.uioResid, u.Advanced k u') u ∧
    (u.Valid → (∀ a b, ptr = a ++ b →
        (do let x ← uiomove a; let y ← uiomove b; pure (x ++ y)) u = uiomove ptr u) ∧
      (u.uioRw = .read → ptr = List.replicate ptr.length 0 →
        uiomovezeros ptr.length u = (do let _ ← uiomove ptr; pure ()) u)) := by
  refine ⟨(uiomove_moves hfit).imp (fun buf u' h => ?_) fun _ u' h => ?_, fun hv => ⟨?_, ?_⟩⟩
  · obtain ⟨fault, rfl, -⟩ := h.uio
    have hlen : (ptr.take u.uioResid).length = min ptr.length u.uioResid := by
      rw [length_take, Nat.min_comm]
    refine ⟨hlen ▸ Uio.advanced_past ?_ (by omega) fault, rfl, h.buf⟩
    unfold Uio.Fits at hfit
    omega
  · obtain ⟨he, hfault, k, hk, h⟩ := h
    have hresid := h.resid
    exact ⟨he, hfault, k, by omega, h⟩
  · rintro a b rfl
    exact uiomove_append hfit hv
  · intro hrw hzeros
    rw [uiomovezeros, Prog.bind_ok (m := get) rfl, assert, if_pos hrw]
    rw [Prog.bind_ok (uiomove_run hfit hv)]
    have hrun := uiomovezerosLoop_run ptr.length le_rfl hfit hv
    rw [← hzeros] at hrun
    exact hrun

/-- Five bytes to a user's three iovecs, one of them empty. -/
theorem uiomove_exact_three :
    let u : Uio := ⟨[[0, 0], [], [0, 0, 0]], 7, 5, .user, .read, fun n => n == 1, []⟩
    Wp False (uiomove [1, 2, 3, 4]) (fun _ u' => u.Advanced 4 u' ∧ u'.uioMoved = [1, 2, 3, 4])
      (fun _ u' => ∃ k ≤ 4, u.Advanced k u') u := by
  intro u
  have hfit : u.Fits [1, 2, 3, 4].length := .inl rfl
  exact (uiomove_exact hfit).1.imp (fun _ _ h => ⟨h.1, h.2.1⟩) fun _ _ h => h.2.2

end Calls

end Os161
