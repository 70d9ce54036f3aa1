/-
# `kern/fs/sfs/sfs_io.c`: block I/O with a retry loop

`sfs_rwblock` calls the device and, on `EIO`, calls it again with the SAME uio, up to ten more
times.  For a read that is sound: `lhd_io` advances the uio only once the data is there.  For a
WRITE it is not.  The failed attempt has already moved the block out of the uio, so the retry
sees `uio_resid = 0`, computes zero sectors, starts no operation, and returns success.

So the retry loop never retries a write, and `sfs_wblock` reports success whether the sector
was written or not (`sfsWblock_spec`).  `reportedWriteHappened_iff` says exactly when its
report is true: when the FIRST device operation succeeds.  On a reliable device it always is,
and there `sfs_rblock` and `sfs_wblock` are a plain read and a plain store (`sfsRblock_reliable`,
`sfsWblock_reliable`), which is all the rest of the file system needs of them.
-/
import Os161.Lhd

namespace Os161

open List Bytes

/-! ## 1. The functions -/

/-- The retry loop of `sfs_rwblock`, with `retries` attempts left after this one. -/
def sfsRwblockLoop : Nat → Prog Errno (Lhd × Uio) Unit
  | 0 => do
    match ← attempt lhdIo with
    | .error .einval => halt
    | result => ofResult result
  | retries + 1 => do
    match ← attempt lhdIo with
    | .error .einval => halt
    | .error .eio => sfsRwblockLoop retries
    | result => ofResult result

/-- `sfs_rwblock`: ten retries. -/
def sfsRwblock : Prog Errno (Lhd × Uio) Unit := sfsRwblockLoop 10

/-- The byte offset of a block that `SFSUIO` gives to the device. -/
abbrev sfsuioOffset (block : Nat) : Nat := block * sectSize

/-- `sfs_rblock`: read a block into a buffer of its own size. -/
def sfsRblock (block : Nat) : Prog Errno Lhd Sector := do
  let (_, ku) ← withLocal (uioKinit (0 : Sector).toList (sfsuioOffset block) .read) sfsRwblock
  pure (Bytes.ofList ku.uioMoved)

/-- `sfs_wblock`. -/
def sfsWblock (data : Sector) (block : Nat) : Prog Errno Lhd Unit := do
  let _ ← withLocal (uioKinit data.toList (sfsuioOffset block) .write) sfsRwblock
  pure ()

/-! ## 2. The accounts of the retry loop -/

variable {p : Prop} {d : Lhd} {data : Sector} {block : Nat}

/-- The retry loop moves the whole uio, or fails on the way.  It goes on where the failed attempt
left the uio. -/
theorem sfsRwblockLoop_ahead : ∀ (retries : Nat) {d : Lhd} {u : Uio}, u.Covered →
    Wp True (sfsRwblockLoop retries) (fun _ st => u.Ahead u.uioResid st.2)
      (fun e st => e.OfIo ∧ ∃ k ≤ u.uioResid, u.Ahead k st.2) (d, u)
  | 0, d, u, h => by
    rw [sfsRwblockLoop, wp_bind, wp_attempt]
    refine (lhdIo_ahead h).imp (fun _ _ hu => wp_ofResult_ok.mpr hu) fun e st hu => ?_
    split
    · exact wp_halt.mpr trivial
    · exact wp_ofResult_error.mpr hu
  | retries + 1, d, u, h => by
    rw [sfsRwblockLoop, wp_bind, wp_attempt]
    refine (lhdIo_ahead h).imp (fun _ _ hu => wp_ofResult_ok.mpr hu) fun e st hu => ?_
    split
    · exact wp_halt.mpr trivial
    · obtain ⟨-, k, hk, hu'⟩ := hu
      have hres := hu'.resid
      refine (sfsRwblockLoop_ahead retries (hu'.covered h)).imp ?_ ?_
      · intro _ st' hst
        have := hu'.trans hst
        rwa [Nat.add_comm, hres] at this
      · rintro _ st' ⟨he, j, hj, hst⟩
        exact ⟨he, k + j, by omega, hu'.trans hst⟩
    · exact wp_ofResult_error.mpr hu

theorem uioKinit_covered (kbuf : List Byte) (pos : Nat) (rw : UioRw) :
    (uioKinit kbuf pos rw).Covered := by
  simp [Uio.Covered, uioKinit]

theorem sfsRblock_ofIo : Wp True (sfsRblock block) (fun _ _ => True) (fun e _ => e.OfIo) d := by
  rw [sfsRblock, wp_bind, wp_withLocal]
  exact (sfsRwblockLoop_ahead 10 (uioKinit_covered _ _ _)).imp
    (fun _ _ _ => wp_pure.mpr trivial) fun _ _ h => h.1

theorem sfsWblock_ofIo :
    Wp True (sfsWblock data block) (fun _ _ => True) (fun e _ => e.OfIo) d := by
  rw [sfsWblock, wp_bind, wp_withLocal]
  exact (sfsRwblockLoop_ahead 10 (uioKinit_covered _ _ _)).imp
    (fun _ _ _ => wp_pure.mpr trivial) fun _ _ h => h.1

/-- A block that is not on the disk cannot be read: the driver, or the device, says `EINVAL`, and
the file system panics. -/
theorem sfsRblock_outside (hb : d.dBlocks ≤ block)
    (hu : block < 4294967296) {Q : Sector → Lhd → Prop} {E : Errno → Lhd → Prop} :
    Wp True (sfsRblock block) Q E d := by
  rw [sfsRblock, wp_bind, wp_withLocal, sfsRwblock, sfsRwblockLoop, wp_bind, wp_attempt]
  refine (lhdIo_outside (length_toList _) hb hu .read).imp (fun _ _ h => h.elim) ?_
  rintro e st rfl
  exact wp_halt.mpr trivial

/-! ## 3. Writing -/

theorem sfsRwblockLoop_ok {n : Nat} {st : Lhd × Uio} {Q : Unit → Lhd × Uio → Prop}
    {E : Errno → Lhd × Uio → Prop} (h : Wp p lhdIo Q (fun _ _ => False) st) :
    Wp p (sfsRwblockLoop n) Q E st := by
  cases n <;>
  · rw [sfsRwblockLoop, wp_bind, wp_attempt]
    exact h.post_ok fun _ _ hq => wp_ofResult_ok.mpr hq

/-- The retry loop on a uio for one block: inside the disk it ALWAYS returns 0.  The block is
written if the first operation succeeds; if it fails, nothing is. -/
theorem sfsRwblock_write_spec {u : Uio} {v : List Byte}
    (hk : u.Kernel v) (hrw : u.uioRw = .write) (hv : sectSize ≤ v.length)
    (hoff : u.uioOffset = block * sectSize) (hr : u.uioResid = sectSize)
    (hb : block < d.dBlocks) :
    Wp p sfsRwblock
      (fun _ st => st = (if d.outcome 0 then (d.store block (ofList (v.take sectSize))).next
        else d.next, u.advance sectSize [])) (fun _ _ => False) (d, u) := by
  rw [sfsRwblock, sfsRwblockLoop, wp_bind, wp_attempt]
  refine lhdIo_one hoff hr hb ?_
  rw [hrw]
  refine (lhdSector_write_spec hk hv hr.ge hb hrw).imp ?_ ?_
  · rintro _ _ ⟨h0, rfl⟩
    rw [if_pos h0]
    exact wp_ofResult_ok.mpr rfl
  · -- the retry: the same uio, with nothing left in it
    rintro _ _ ⟨h0, rfl, rfl⟩
    refine sfsRwblockLoop_ok ((lhdIo_exhausted (d := d.next) (b := block + 1) ?_ ?_ hb).post ?_)
    · rw [Uio.advance_offset, hoff, Nat.add_mul, Nat.one_mul]
    · rw [Uio.advance_resid, hr, Nat.sub_self]
    · rintro _ _ rfl
      rw [if_neg (by simp [h0])]

/-- **What `sfs_wblock` does.** -/
theorem sfsWblock_spec (hb : block < d.dBlocks) : Wp p (sfsWblock data block)
      (fun _ d' => d' = if d.outcome 0 then (d.store block data).next else d.next)
      (fun _ _ => False) d := by
  have hlen : data.toList.length = sectSize := length_toList _
  have hdata : ofList (data.toList.take sectSize) = data := by
    rw [take_of_length_le hlen.le, ofList_toList]
  have key : ∀ v : List Byte, v.length = sectSize → Wp p sfsRwblock
        (fun _ st => st.1 = if d.outcome 0
          then (d.store block (ofList (v.take sectSize))).next else d.next)
        (fun _ _ => False) (d, uioKinit v (block * sectSize) .write) := by
    intro v hv
    have hoff : (uioKinit v (block * sectSize) .write).uioOffset = block * sectSize := rfl
    refine (sfsRwblock_write_spec (uioKinit_kernel _ _ _) rfl hv.ge hoff hv hb).post ?_
    rintro _ _ rfl
    rfl
  rw [sfsWblock, wp_bind, wp_withLocal]
  refine (key _ hlen).post ?_
  rintro _ ⟨d', _⟩ hd'
  rw [wp_pure]
  rw [hdata] at hd'
  exact hd'

/-- Outside the disk the driver says `EINVAL` and the file system panics. -/
theorem sfsWblock_halts (hb : d.dBlocks ≤ block)
    (hu : block < 4294967296) : sfsWblock data block d = none := by
  apply Prog.Wp.eq_none
  rw [sfsWblock, wp_bind, wp_withLocal, sfsRwblock, sfsRwblockLoop, wp_bind, wp_attempt]
  refine (lhdIo_outside (length_toList _) hb hu .write).imp (fun _ _ h => h.elim) ?_
  rintro _ _ rfl
  exact wp_halt.mpr trivial

/-! ## 4. When the report is true -/

/-- **A reported write really happened.**  `ws` are the writes the device completed during the
call, latest first.  Success means that the requested one is among them; an error means that
they all went to the requested sector. -/
def ReportedWriteHappened (d : Lhd) (data : Sector) (block : Nat) : Prop :=
  ∀ r d', sfsWblock data block d = some (r, d') →
    ∃ ws, d'.log = ws ++ d.log ∧ (r = .ok () → (block, data) ∈ ws) ∧
      (∀ e, r = .error e → ∀ w ∈ ws, w.1 = block)

/-- A write of which nothing is left to retry is reported all the same, so a true report needs the
first operation to succeed. -/
theorem ReportedWriteHappened.outcome
    (h : ReportedWriteHappened d data block) (hb : block < d.dBlocks) : d.outcome 0 = true := by
  obtain ⟨_, d', hrun, hd'⟩ := (@sfsWblock_spec False d data block hb).exists_ok
  obtain ⟨ws, hlog, hok, -⟩ := h _ d' hrun
  by_contra h0
  rw [if_neg h0] at hd'
  rw [hd'] at hlog
  obtain rfl : ws = [] := append_left_eq_self.mp hlog.symm
  exact absurd (hok rfl) (by simp)

/-- **The exact condition.**  For every disk, every pattern of outcomes, every buffer and every
block number, what `sfs_wblock` reports is what happened if and only if the first operation it
starts succeeds.  (A block number outside the disk starts none: the kernel panics.) -/
theorem reportedWriteHappened_iff (d : Lhd) (data : Sector) (block : Nat)
    (hu : block < 4294967296) :
    ReportedWriteHappened d data block ↔ (block < d.dBlocks → d.outcome 0 = true) := by
  constructor
  · intro h hb
    exact h.outcome hb
  · intro h0 r d' hrun
    rcases Nat.lt_or_ge block d.dBlocks with hb | hb
    · obtain ⟨_, d'', hrun', hd'⟩ := (@sfsWblock_spec False d data block hb).exists_ok
      obtain ⟨rfl, rfl⟩ : r = .ok () ∧ d' = d'' := by simpa [hrun] using hrun'
      rw [if_pos (h0 hb)] at hd'
      refine ⟨[(block, data)], by rw [hd']; rfl, fun _ => mem_singleton.mpr rfl, ?_⟩
      intro e he
      exact absurd he (by simp)
    · rw [sfsWblock_halts hb hu] at hrun
      exact absurd hrun (by simp)

/-- A one-sector disk of zeros on which every operation ends in a media error. -/
def deadDisk : Lhd where
  dBlocks := 1
  dBlocks_lt := by decide
  disk := fun _ => 0
  outcome := fun _ => false
  log := []

/-- The condition is met, and the report true, on a disk that works. -/
theorem reportedWriteHappened_working :
    ReportedWriteHappened { deadDisk with outcome := fun _ => true } 0 0 :=
  (reportedWriteHappened_iff _ _ _ (by decide)).mpr fun _ => rfl

/-- On the dead disk `sfs_wblock` reports a write that never happened. -/
theorem deadDisk_reports_lost_write : ¬ ReportedWriteHappened deadDisk (fun _ => 7) 0 := by
  intro h
  exact absurd (h.outcome (by decide)) (by decide)

/-! ## 5. On a reliable device -/

theorem Lhd.Reliable.next_eq (h : d.Reliable) : d.next = d := by
  have : (fun n => d.outcome (n + 1)) = d.outcome := funext fun n => by rw [h n, h (n + 1)]
  rw [Lhd.next, this]

theorem Lhd.Reliable.store (h : d.Reliable) (b : Nat) (data : Sector) :
    (d.store b data).Reliable := h

theorem sfsWblock_reliable (hd : d.Reliable) (hb : block < d.dBlocks) :
    Wp p (sfsWblock data block) (fun _ d' => d' = d.store block data) (fun _ _ => False) d := by
  refine (sfsWblock_spec hb).post ?_
  rintro _ _ rfl
  rw [if_pos (hd 0), (hd.store block data).next_eq]

theorem sfsRblock_reliable (hd : d.Reliable) (hb : block < d.dBlocks) :
    Wp p (sfsRblock block) (fun buf d' => buf = d.disk block ∧ d' = d) (fun _ _ => False) d := by
  have hlen : (0 : Sector).toList.length = sectSize := length_toList _
  rw [sfsRblock]
  generalize (0 : Sector).toList = kbuf at hlen
  have hk := uioKinit_kernel kbuf (block * sectSize) .read
  rw [wp_bind, wp_withLocal, sfsRwblock]
  refine sfsRwblockLoop_ok (lhdIo_one (b := block) rfl hlen hb ?_)
  refine (lhdSector_read_spec hk hlen.ge hlen.ge hb rfl).imp ?_ ?_
  · rintro _ _ ⟨-, rfl⟩
    refine wp_pure.mpr ⟨?_, hd.next_eq⟩
    show ofList ([] ++ (d.disk block).toList) = d.disk block
    rw [nil_append, ofList_toList]
  · rintro _ _ ⟨h0, -⟩
    exact absurd (hd 0) (by simp [h0])

end Os161
