/-
# `kern/dev/lamebus/lhd.c`: the LAMEbus hard disk

`lhd_io` turns a sector-aligned uio into one device operation a sector.  For a WRITE it moves
the sector into the on-card buffer with `uiomove` FIRST and starts the operation afterwards,
so by the time the device reports a media error the uio has already been advanced.

The hardware is modelled by what a started operation does: `disk` is the platter, `outcome`
says how the operations still to be started end, and `log` is the history of writes the device
completed, latest first.  One thread uses the driver at a time here, so the two semaphores and
the interrupt handler reduce to taking the status of the operation just started.
-/
import Os161.Uio

namespace Os161

/-- `uint32_t` arithmetic keeps the low 32 bits. -/
def u32 (n : Nat) : Nat := n % 4294967296

theorem u32_of_lt {n : Nat} (h : n < 4294967296) : u32 n = n := Nat.mod_eq_of_lt h

/-- `LHD_SECTSIZE`, which is also `SFS_BLOCKSIZE`. -/
abbrev sectSize : Nat := 512

/-- A sector. -/
abbrev Sector := Bytes sectSize

/-- The final states of the status register: `LHD_OK`, `LHD_INVSECT`, `LHD_MEDIA`. -/
inductive LhdStatus
  | ok | invsect | media
  deriving DecidableEq, Repr

/-- The disk behind the driver.  The number of sectors is read from a 32-bit register. -/
structure Lhd where
  dBlocks : Nat
  dBlocks_lt : dBlocks < 4294967296
  disk : Nat → Sector
  /-- Whether the operations still to be started succeed; the rest end in a media error. -/
  outcome : Nat → Bool
  /-- The writes completed so far, latest first. -/
  log : List (Nat × Sector)

namespace Lhd

/-- The platter and the history after sector `b` was written. -/
def store (d : Lhd) (b : Nat) (data : Sector) : Lhd :=
  { d with disk := Function.update d.disk b data, log := (b, data) :: d.log }

@[simp] theorem disk_store (d : Lhd) (b : Nat) (data : Sector) :
    (d.store b data).disk = Function.update d.disk b data := rfl

/-- One operation further. -/
def next (d : Lhd) : Lhd := { d with outcome := fun n => d.outcome (n + 1) }

/-- The device never fails. -/
def Reliable (d : Lhd) : Prop := ∀ n, d.outcome n = true

end Lhd

/-! ## 1. The driver -/

/-- `lhd_code_to_errno`. -/
def lhdCodeToErrno : LhdStatus → Except Errno Unit
  | .ok => .ok ()
  | .invsect => .error .einval
  | .media => .error .eio

/-- Start a read of a sector and wait for its status.  A failed read hands nothing over. -/
def lhdStartRead (sector : Nat) : Prog Errno Lhd Sector := do
  let d ← get
  if d.dBlocks ≤ sector then
    let _ ← ofResult (lhdCodeToErrno .invsect)
    halt
  else
    modify Lhd.next
    let _ ← ofResult (lhdCodeToErrno (if d.outcome 0 then .ok else .media))
    pure (d.disk sector)

/-- Start a write of the on-card buffer to a sector and wait for its status. -/
def lhdStartWrite (sector : Nat) (buf : Sector) : Prog Errno Lhd Unit := do
  let d ← get
  if d.dBlocks ≤ sector then
    ofResult (lhdCodeToErrno .invsect)
  else
    modify fun d => if d.outcome 0 then (d.store sector buf).next else d.next
    ofResult (lhdCodeToErrno (if d.outcome 0 then .ok else .media))

/-- One round of the sector loop of `lhd_io`. -/
def lhdSector (sector : Nat) (rw : UioRw) (i : Nat) : Prog Errno (Lhd × Uio) Unit :=
  match rw with
  | .write => do
    let buf ← onSnd (uiomove (0 : Sector).toList)
    onFst (lhdStartWrite (u32 (sector + i)) (Bytes.ofList buf))
  | .read => do
    let buf ← onFst (lhdStartRead (u32 (sector + i)))
    let _ ← onSnd (uiomove buf.toList)
    pure ()

/-- `lhd_io`. -/
def lhdIo : Prog Errno (Lhd × Uio) Unit := do
  let (d, uio) ← get
  let sector := u32 (uio.uioOffset / sectSize)
  let sectoff := uio.uioOffset % sectSize
  let len := uio.uioResid / sectSize
  let lenoff := uio.uioResid % sectSize
  -- Don't allow I/O that isn't sector-aligned, or past the end of the disk.
  if sectoff ≠ 0 ∨ lenoff ≠ 0 then fail .einval
  else if u32 (sector + len) > d.dBlocks then fail .einval
  else forEach (lhdSector sector uio.uioRw) (List.range len)

/-! ## 2. One operation -/

variable {p : Prop} {d : Lhd} {b : Nat} {buf : Sector} {u : Uio} {v : List Byte}

theorem lhdStartRead_spec (hb : b < d.dBlocks) : Wp p (lhdStartRead b)
      (fun buf d' => d.outcome 0 = true ∧ buf = d.disk b ∧ d' = d.next)
      (fun e d' => d.outcome 0 = false ∧ e = .eio ∧ d' = d.next) d := by
  rw [lhdStartRead, wp_bind, wp_get, if_neg (by omega)]
  cases h : d.outcome 0 <;> simp [lhdCodeToErrno]

theorem lhdStartWrite_spec (hb : b < d.dBlocks) : Wp p (lhdStartWrite b buf)
      (fun _ d' => d.outcome 0 = true ∧ d' = (d.store b buf).next)
      (fun e d' => d.outcome 0 = false ∧ e = .eio ∧ d' = d.next) d := by
  rw [lhdStartWrite, wp_bind, wp_get, if_neg (by omega)]
  cases h : d.outcome 0 <;> simp [lhdCodeToErrno, h]

theorem lhdStartWrite_invsect (hb : d.dBlocks ≤ b) : Wp p (lhdStartWrite b buf) (fun _ _ => False)
      (fun e d' => e = .einval ∧ d' = d) d := by
  rw [lhdStartWrite, wp_bind, wp_get, if_pos hb, lhdCodeToErrno, wp_ofResult_error]
  exact ⟨rfl, rfl⟩

section

variable (hk : u.Kernel v) (hv : sectSize ≤ v.length) (hr : sectSize ≤ u.uioResid)
  (hb : b < d.dBlocks)

include hk hv hr hb

/-- **A write of one sector**, started on a fresh kernel uio: it is carried out exactly when
the device's next operation succeeds, and the uio is advanced EITHER WAY. -/
theorem lhdSector_write_spec (hrw : u.uioRw = .write) : Wp p (lhdSector b .write 0)
      (fun _ st => d.outcome 0 = true ∧
        st = ((d.store b (Bytes.ofList (v.take sectSize))).next, u.advance sectSize []))
      (fun e st => d.outcome 0 = false ∧ e = .eio ∧ st = (d.next, u.advance sectSize []))
      (d, u) := by
  have hsec : u32 (b + 0) = b := u32_of_lt (by have := d.dBlocks_lt; omega)
  rw [lhdSector, wp_bind, wp_onSnd]
  have hlen : (0 : Sector).toList.length = sectSize := Bytes.length_toList _
  generalize (0 : Sector).toList = ptr at hlen
  refine (uiomove_kernel hk (hlen ▸ hv) (hlen ▸ hr)).post_ok ?_
  rintro _ _ ⟨rfl, rfl⟩
  have hbuf : u.bufOf v ptr = v.take sectSize := by rw [Uio.bufOf, hrw, hlen]
  have hout : u.outOf ptr = [] := by rw [Uio.outOf, hrw]
  rw [hbuf, hout, hlen, hsec, wp_onFst]
  refine (lhdStartWrite_spec hb).imp ?_ ?_
  · rintro _ _ ⟨h0, rfl⟩
    exact ⟨h0, rfl⟩
  · rintro _ _ ⟨h0, rfl, rfl⟩
    exact ⟨h0, rfl, rfl⟩

/-- **A read of one sector**: the uio is advanced only when the device delivered the data. -/
theorem lhdSector_read_spec (hrw : u.uioRw = .read) : Wp p (lhdSector b .read 0)
      (fun _ st => d.outcome 0 = true ∧ st = (d.next, u.advance sectSize (d.disk b).toList))
      (fun e st => d.outcome 0 = false ∧ e = .eio ∧ st = (d.next, u)) (d, u) := by
  have hsec : u32 (b + 0) = b := u32_of_lt (by have := d.dBlocks_lt; omega)
  rw [lhdSector, wp_bind, hsec, wp_onFst]
  refine (lhdStartRead_spec hb).imp ?_ ?_
  · rintro _ _ ⟨h0, rfl, rfl⟩
    have hlen : (d.disk b).toList.length = sectSize := Bytes.length_toList _
    rw [wp_bind, wp_onSnd]
    generalize (d.disk b).toList = ptr at hlen
    refine (uiomove_kernel hk (hlen ▸ hv) (hlen ▸ hr)).post_ok ?_
    rintro _ _ ⟨-, rfl⟩
    rw [wp_pure, hlen, Uio.outOf, hrw]
    exact ⟨h0, rfl⟩
  · rintro _ _ ⟨h0, rfl, rfl⟩
    exact ⟨h0, rfl, rfl⟩

end

/-! ## 3. The driver on a one-sector uio, and on an exhausted one -/

/-- On a uio that asks for `n` sectors, `lhd_io` is the check of the last one, and `n` rounds. -/
theorem wp_lhdIo {Q : Unit → Lhd × Uio → Prop} {E : Errno → Lhd × Uio → Prop} {n : Nat}
    (hoff : u.uioOffset = b * sectSize) (hres : u.uioResid = n * sectSize) (hb : b < 4294967296) :
    Wp p lhdIo Q E (d, u) ↔ Wp p (if u32 (b + n) > d.dBlocks then fail .einval
      else forEach (lhdSector b u.uioRw) (List.range n)) Q E (d, u) := by
  have hpos : 0 < sectSize := by decide
  rw [lhdIo, wp_bind, wp_get]
  simp only [hoff, hres, Nat.mul_div_cancel _ hpos, Nat.mul_mod_left, u32_of_lt hb]
  rw [if_neg (by simp)]

/-- On a uio that asks for exactly one sector inside the disk, `lhd_io` is one round. -/
theorem lhdIo_one {Q : Unit → Lhd × Uio → Prop} {E : Errno → Lhd × Uio → Prop}
    (hoff : u.uioOffset = b * sectSize) (hres : u.uioResid = sectSize) (hb : b < d.dBlocks)
    (h : Wp p (lhdSector b u.uioRw 0) Q E (d, u)) : Wp p lhdIo Q E (d, u) := by
  have hlt := d.dBlocks_lt
  rw [wp_lhdIo (n := 1) hoff (by rw [hres, Nat.one_mul]) (by omega), u32_of_lt (by omega),
    if_neg (by omega)]
  simp only [List.range_one, forEach, wp_bind, wp_pure]
  exact h

/-- An uio with nothing left to transfer is a success that does NOTHING, wherever its offset
points, as long as that is not past the end of the disk. -/
theorem lhdIo_exhausted (hoff : u.uioOffset = b * sectSize) (hres : u.uioResid = 0)
    (hb : b ≤ d.dBlocks) : Wp p lhdIo (fun _ st => st = (d, u)) (fun _ _ => False) (d, u) := by
  have hlt := d.dBlocks_lt
  rw [wp_lhdIo (n := 0) hoff (by rw [hres, Nat.zero_mul]) (by omega), u32_of_lt (by omega),
    if_neg (by omega)]
  exact wp_pure.mpr rfl

/-- A sector that is not on the disk: the driver says `EINVAL`, or, if `sector + 1` wraps around,
the device. -/
theorem lhdIo_outside (hv : v.length = sectSize) (hb : d.dBlocks ≤ b) (hu : b < 4294967296)
    (rw : UioRw) : Wp p lhdIo (fun _ _ => False) (fun e _ => e = .einval)
      (d, uioKinit v (b * sectSize) rw) := by
  rw [wp_lhdIo (n := 1) rfl (hv.trans (Nat.one_mul _).symm) hu]
  split_ifs with hend
  · exact wp_fail.mpr rfl
  rw [List.range_one, forEach, wp_bind]
  cases rw with
  | read =>
    simp only [uioKinit, lhdSector, lhdStartRead, wp_bind, wp_onFst, wp_get, Nat.add_zero,
      u32_of_lt hu]
    rw [if_pos hb, wp_bind]
    exact wp_ofResult_error.mpr rfl
  | write =>
    have hz : (0 : Sector).toList.length = sectSize := Bytes.length_toList _
    rw [uioKinit, lhdSector, wp_bind, wp_onSnd]
    generalize (0 : Sector).toList = ptr at hz
    refine (uiomove_kernel (uioKinit_kernel v _ _) (by rw [hz, hv]) ?_).post_ok ?_
    · exact (hz.trans hv.symm).le
    rintro _ _ ⟨rfl, rfl⟩
    rw [wp_onFst, Nat.add_zero, u32_of_lt hu]
    exact (lhdStartWrite_invsect hb).imp (fun _ _ h => h.elim) fun _ _ h => h.1

/-! ## 4. The driver on any uio -/

/-- The errors of a transfer: of the driver, and of `uiomove`. -/
def Errno.OfIo (e : Errno) : Prop := e = .einval ∨ e = .eio ∨ e = .efault

theorem lhdCodeToErrno_ofIo {σ : Type} {s : σ} {Q : Unit → σ → Prop} (hQ : ∀ s, Q () s) :
    ∀ status, Wp True (ofResult (lhdCodeToErrno status)) Q (fun e _ => e.OfIo) s
  | .ok => wp_ofResult_ok.mpr (hQ s)
  | .invsect => wp_ofResult_error.mpr (.inl rfl)
  | .media => wp_ofResult_error.mpr (.inr (.inl rfl))

theorem lhdStartRead_ofIo : Wp True (lhdStartRead b) (fun _ _ => True) (fun e _ => e.OfIo) d := by
  rw [lhdStartRead, wp_bind, wp_get]
  by_cases hb : d.dBlocks ≤ b
  · rw [if_pos hb, wp_bind]
    exact lhdCodeToErrno_ofIo (fun _ => wp_halt.mpr trivial) _
  · rw [if_neg hb, wp_bind, wp_modify, wp_bind]
    exact lhdCodeToErrno_ofIo (fun _ => wp_pure.mpr trivial) _

theorem lhdStartWrite_ofIo :
    Wp True (lhdStartWrite b buf) (fun _ _ => True) (fun e _ => e.OfIo) d := by
  rw [lhdStartWrite, wp_bind, wp_get]
  by_cases hb : d.dBlocks ≤ b
  · rw [if_pos hb]
    exact lhdCodeToErrno_ofIo (fun _ => trivial) _
  · rw [if_neg hb, wp_bind, wp_modify]
    exact lhdCodeToErrno_ofIo (fun _ => trivial) _

/-- One sector moves the uio by one sector, or the operation fails. -/
theorem lhdSector_ahead {sector i : Nat} (h : u.Covered) (hr : 512 ≤ u.uioResid) :
    Wp True (lhdSector sector u.uioRw i) (fun _ st => u.Ahead 512 st.2)
      (fun e st => e.OfIo ∧ ∃ k ≤ 512, u.Ahead k st.2) (d, u) := by
  have hlen : ∀ b : Sector, b.toList.length = 512 := Bytes.length_toList
  have hmove : ∀ (b : Sector) (d : Lhd), Wp True (onSnd (uiomove b.toList))
      (fun _ (st : Lhd × Uio) => u.Ahead 512 st.2)
      (fun e st => e.OfIo ∧ ∃ k ≤ 512, u.Ahead k st.2) (d, u) := by
    intro b d
    rw [wp_onSnd]
    refine (uiomove_spec h (by rw [hlen]; exact hr)).imp (fun _ _ hu => ?_) fun _ _ hu => ?_
    · exact hlen b ▸ hu.toAhead
    · exact ⟨.inr (.inr hu.1), hlen b ▸ hu.2⟩
  cases hrw : u.uioRw with
  | read =>
    rw [lhdSector, wp_bind, wp_onFst]
    refine lhdStartRead_ofIo.imp (fun buf d' _ => ?_) fun _ _ he => ⟨he, 0, Nat.zero_le _, .refl u⟩
    exact (hmove buf d').bind fun _ _ hu => wp_pure.mpr hu
  | write =>
    refine (hmove 0 d).bind fun _ st hu => ?_
    rw [wp_onFst]
    exact lhdStartWrite_ofIo.imp (fun _ _ _ => hu) fun _ _ he => ⟨he, 512, le_rfl, hu⟩

/-- **`lhd_io` moves the whole uio**, or it fails on the way. -/
theorem lhdIo_ahead (h : u.Covered) : Wp True lhdIo (fun _ st => u.Ahead u.uioResid st.2)
      (fun e st => e.OfIo ∧ ∃ k ≤ u.uioResid, u.Ahead k st.2) (d, u) := by
  rw [lhdIo, wp_bind, wp_get]
  dsimp only
  split_ifs with hal hend
  · exact wp_fail.mpr ⟨.inl rfl, 0, Nat.zero_le _, .refl u⟩
  · exact wp_fail.mpr ⟨.inl rfl, 0, Nat.zero_le _, .refl u⟩
  -- the sectors still to be done are what is left of the residue
  have hmod : u.uioResid % 512 = 0 := not_not.mp (not_or.mp hal).2
  refine (wp_forEach (fun l (st : Lhd × Uio) => ∃ k, k + 512 * l.length = u.uioResid ∧
    u.Ahead k st.2) ?_ (List.range (u.uioResid / sectSize)) (d, u) ?_).post ?_
  · rintro i l ⟨d', u'⟩ ⟨k, hk, hu'⟩
    have hres : u'.uioResid + k = u.uioResid := hu'.resid
    rw [List.length_cons] at hk
    rw [← hu'.rw]
    refine (lhdSector_ahead (u := u') (hu'.covered h) (by omega)).imp ?_ ?_
    · exact fun _ st hst => ⟨k + 512, by omega, hu'.trans hst⟩
    · rintro _ st ⟨he, j, hj, hst⟩
      exact ⟨he, k + j, by omega, hu'.trans hst⟩
  · refine ⟨0, ?_, .refl u⟩
    rw [List.length_range]
    exact (Nat.zero_add _).trans (Nat.mul_div_cancel' (Nat.dvd_of_mod_eq_zero hmod))
  · rintro _ st ⟨k, hk, hu'⟩
    obtain rfl : k = u.uioResid := by simpa using hk
    exact hu'

end Os161
