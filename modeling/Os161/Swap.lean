/-
# `kern/vm/addrspace.c`: pages that move between memory and swap

`alloc_page` gives a process a page, `get_free_page` finds a frame for it, evicting another page
into a slot of the swap file if no frame is free, and `page_fault_handler` brings a page back.  Who
owns a page is written in the entry of its frame or of its slot, so that an eviction has to carry
the owner from the one to the other, and a fault has to carry it back.

What the pager is FOR is a store: every page `(pid, vaddr)` that was allocated has a content, and
only its owner changes it.  `pages` is that store, beside the tables; `Shelved` (in `Lib.Shelf`) is
what the tables should be: every page recorded in exactly one place, under its own name, with its
own content.

Both ways lose the owner.  `coreswap_insert` is handed the owner's pid and writes down
`curthread->pid` instead, which is somebody else when a process evicts another's page; and
`page_fault_handler` reads the pid from the slot's entry after `swap_in` has cleared it, so that
EVERY page that comes back is recorded for process 0.  The pager keeps its pages as long as
processes evict only their own and only pages of process 0 come back (`pages_shelved`).
-/
import Os161.Coremap
import Os161.Lib.Shelf

namespace Os161

open Function List

/-! ## 1. The functions -/

/-- A virtual page of a process. -/
abbrev UserPage := Int × BitVec 32

/-- The tables of the pager, and what is in the frames and in the slots of the swap file, whose
contents are a `β` each.  The swap file has less than 4 gigabytes. -/
structure PagedVm (β : Type) where
  core : Coremap
  swapSize : Nat
  coreswap : Nat → PageTableEntry
  swapMap : Nat → Bool
  frames : Nat → β
  slots : Nat → β
  /-- The pages that have been allocated, and what their owners have put there. -/
  pages : UserPage → Option β
  swap_le : swapSize ≤ 1048576

open PagedVm

/-- `sys__exit`: the calling thread is gone, and the others go on. -/
inductive VmExit
  | exited

variable {β : Type}

/-- A program of the pager. -/
abbrev PagerProg (β α : Type) := Prog VmExit (PagedVm β) α

namespace PagedVm

/-- The offset of slot `j`. -/
def slotAt (j : Nat) : BitVec 32 := BitVec.ofNat 32 (j * pageSize)

/-- `map_index` for an offset in the swap file. -/
def slotIndex (offset : BitVec 32) : Nat := (pageFrame offset).toNat / pageSize

/-- The swap table with another entry at `j`. -/
def setSlot (s : PagedVm β) (j : Nat) (e : PageTableEntry) (used : Bool) : PagedVm β :=
  { s with coreswap := update s.coreswap j e, swapMap := update s.swapMap j used }

/-- The coremap with another entry at `i`. -/
def setFrame (s : PagedVm β) (i : Nat) (e : PageTableEntry) (used : Bool) : PagedVm β :=
  { s with core := s.core.setEntry i e used }

/-- Slot `j` of the swap file is written. -/
def fillSlot (s : PagedVm β) (j : Nat) (x : β) : PagedVm β :=
  { s with slots := update s.slots j x }

/-- Frame `i` is written. -/
def fillFrame (s : PagedVm β) (i : Nat) (x : β) : PagedVm β :=
  { s with frames := update s.frames i x }

/-- The owner of a page has put something there. -/
def setPage (s : PagedVm β) (k : UserPage) (x : β) : PagedVm β :=
  { s with pages := update s.pages k (some x) }

end PagedVm

open PagedVm

/-- Run a program on the coremap. -/
def onCore {α : Type} (m : Prog VmExit Coremap α) : PagerProg β α :=
  zoom PagedVm.core (fun s core => { s with core }) m

/-- `SET_SWAPPED`. -/
def setSwapped (paddr : BitVec 32) : BitVec 32 := paddr ||| 0x00000080#32

/-- `coreswap_insert`.  Its third argument is not used. -/
def coreswapInsert (vaddr offset : BitVec 32) (_pid curpid : Int) : PagerProg β Unit := do
  let s ← get
  assert (slotIndex offset < s.swapSize ∧ pageFrame (s.coreswap (slotIndex offset)).paddr = offset)
  modify fun s => s.setSlot (slotIndex offset)
    { s.coreswap (slotIndex offset) with vaddr, pid := curpid } true

/-- `coreswap_remove`. -/
def coreswapRemove (offset : BitVec 32) : PagerProg β Unit := do
  let s ← get
  assert (slotIndex offset < s.swapSize ∧ pageFrame (s.coreswap (slotIndex offset)).paddr = offset)
  -- `bitmap_unmark`
  assert (s.swapMap (slotIndex offset) = true)
  modify fun s => s.setSlot (slotIndex offset) { vaddr := 0, paddr := offset, pid := 0 } false

/-- `find_lru_page`, which draws frames at random until one is not the kernel's: `victim`. -/
def findLruPage (victim : Nat) : PagerProg β (BitVec 32) := do
  let s ← get
  assert (victim < s.core.size ∧ isKernel (s.core.entries victim).paddr = false)
  assert (¬ (s.core.entries victim).vaddr > userspacetop)
  pure (s.core.entries victim).paddr

/-- `get_free_offset`. -/
def getFreeOffset : PagerProg β (BitVec 32) := do
  let s ← get
  match (List.range s.swapSize).find? fun j => !s.swapMap j with
  | some j => do
    modify fun s => s.setSlot j (s.coreswap j) true
    pure (slotAt j)
  | none => fail .exited

/-- `swap_out`.  A write that fails stops the machine. -/
def swapOut (offset paddr : BitVec 32) (curpid : Int) : PagerProg β Unit := do
  let s ← get
  assert (s.core.start ≤ paddr)
  let e := s.core.entries ((paddr - s.core.start).toNat / pageSize)
  coreswapInsert e.vaddr offset e.pid curpid
  modify fun s => s.fillSlot (slotIndex offset) (s.frames (s.core.mapIndex paddr))

/-- `swap_in`.  A read that fails stops the machine. -/
def swapIn (paddr offset : BitVec 32) : PagerProg β Unit := do
  let s ← get
  assert (s.core.start ≤ paddr)
  coreswapRemove offset
  modify fun s => s.fillFrame (s.core.mapIndex paddr) (s.slots (slotIndex offset))

/-- The end of `get_free_page` when no frame is free. -/
def evictPage (curpid : Int) (victim : Nat) : PagerProg β (BitVec 32) := do
  let paddr ← findLruPage victim
  assert (isValid paddr = true)
  let offset ← getFreeOffset
  swapOut offset paddr curpid
  pure paddr

/-- `get_free_page`. -/
def getFreePage (curpid : Int) (victim : Nat) : PagerProg β (BitVec 32) := do
  let s ← get
  match (List.range s.core.size).find? fun i => !s.core.memMap i with
  | some i => do
    modify fun s => s.setFrame i (s.core.entries i) true
    pure (s.core.entries i).paddr
  | none => evictPage curpid victim

/-- The walk of `find_swap_table`, for `curthread->pid` and `curthread->t_addrspace->pid`. -/
def swapWalk (virAddr : BitVec 32) (curpid aspid : Int) :
    List PageTableEntry → PagerProg β (BitVec 32)
  | [] => halt
  | e :: rest =>
    if e.vaddr = virAddr ∧ (e.pid = curpid ∨ e.pid = aspid) then pure e.paddr
    else if e.vaddr = virAddr then halt
    else swapWalk virAddr curpid aspid rest

/-- `find_swap_table`. -/
def findSwapTable (virAddr : BitVec 32) (curpid aspid : Int) : PagerProg β (BitVec 32) := do
  let s ← get
  swapWalk virAddr curpid aspid ((List.range s.swapSize).map s.coreswap)

/-- `page_fault_handler`. -/
def pageFaultHandler (virAddr : BitVec 32) (curpid aspid : Int) (victim : Nat) :
    PagerProg β (BitVec 32) := do
  let offset ← findSwapTable virAddr curpid aspid
  let paddr ← getFreePage curpid victim
  swapIn paddr offset
  -- The pid is read when `swap_in` has cleared it already.
  let s ← get
  let paddr := setSwapped (setValid paddr)
  onCore (coremapInsertPid virAddr paddr (s.coreswap (slotIndex offset)).pid)
  pure paddr

/-- `alloc_page`.  The content of the new page is whatever the frame holds. -/
def allocPage (virAddr : BitVec 32) (pid curpid : Int) (victim : Nat) :
    PagerProg β (BitVec 32) := do
  let paddr ← getFreePage curpid victim
  let paddr' := if virAddr ≥ userspacetop then setKernel (setValid paddr) else setValid paddr
  onCore (coremapInsertPid virAddr paddr' pid)
  modify fun s => s.setPage (pid, virAddr) (s.frames (s.core.mapIndex paddr))
  pure paddr'

/-! ## 2. Where the pages are -/

/-- A place for a page. -/
inductive PagePlace
  | frame (i : Nat)
  | slot (j : Nat)
  deriving DecidableEq, Repr

open PagePlace

namespace PagedVm

/-- The page that a place is recorded to hold. -/
def label (s : PagedVm β) : PagePlace → Option UserPage
  | .frame i =>
    if i < s.core.size ∧ s.core.memMap i = true then
      some ((s.core.entries i).pid, (s.core.entries i).vaddr)
    else none
  | .slot j =>
    if j < s.swapSize ∧ s.swapMap j = true then some ((s.coreswap j).pid, (s.coreswap j).vaddr)
    else none

/-- What is in a place. -/
def data (s : PagedVm β) : PagePlace → β
  | .frame i => s.frames i
  | .slot j => s.slots j

variable {s : PagedVm β} {j : Nat}

theorem label_slot_eq_some {pid : Int} {v : BitVec 32} : s.label (.slot j) = some (pid, v) ↔
      (j < s.swapSize ∧ s.swapMap j = true) ∧ (s.coreswap j).pid = pid ∧
        (s.coreswap j).vaddr = v := by
  by_cases h : j < s.swapSize ∧ s.swapMap j = true <;> simp [label, h]

theorem label_ne {k : UserPage} (hframe : ∀ i < s.core.size, s.label (.frame i) ≠ some k)
    (hslot : ∀ j < s.swapSize, s.label (.slot j) ≠ some k) (p : PagePlace) :
    s.label p ≠ some k := by
  cases p with
  | frame i =>
    by_cases hi : i < s.core.size
    · exact hframe i hi
    · simp [label, hi]
  | slot j =>
    by_cases hj : j < s.swapSize
    · exact hslot j hj
    · simp [label, hj]

theorem label_setSlot (hj : j < s.swapSize) (e : PageTableEntry) (used : Bool) :
    (s.setSlot j e used).label =
      update s.label (.slot j) (if used = true then some (e.pid, e.vaddr) else none) := by
  funext p
  cases p with
  | frame i =>
    rfl
  | slot k =>
    by_cases hk : k = j
    · subst hk
      simp [label, setSlot, hj]
    · simp [label, setSlot, hk]

theorem label_setFrame {i : Nat} (hi : i < s.core.size) (e : PageTableEntry) (used : Bool) :
    (s.setFrame i e used).label =
      update s.label (.frame i) (if used = true then some (e.pid, e.vaddr) else none) := by
  funext p
  cases p with
  | frame k =>
    by_cases hk : k = i
    · subst hk
      simp [label, setFrame, Coremap.setEntry, hi]
    · simp [label, setFrame, Coremap.setEntry, hk]
  | slot j =>
    rfl

@[simp] theorem label_fillSlot (s : PagedVm β) (j : Nat) (x : β) :
    (s.fillSlot j x).label = s.label := rfl

@[simp] theorem label_fillFrame (s : PagedVm β) (i : Nat) (x : β) :
    (s.fillFrame i x).label = s.label := rfl

@[simp] theorem label_setPage (s : PagedVm β) (k : UserPage) (x : β) :
    (s.setPage k x).label = s.label := rfl

@[simp] theorem data_setFrame (s : PagedVm β) (i : Nat) (e : PageTableEntry) (used : Bool) :
    (s.setFrame i e used).data = s.data := rfl

@[simp] theorem data_setPage (s : PagedVm β) (k : UserPage) (x : β) :
    (s.setPage k x).data = s.data := rfl

@[simp] theorem data_fillFrame (s : PagedVm β) (i : Nat) (x : β) :
    (s.fillFrame i x).data = update s.data (.frame i) x := by
  funext p
  cases p with
  | frame k => by_cases hk : k = i <;> simp [data, fillFrame, hk]
  | slot j => simp [data, fillFrame]

@[simp] theorem data_fillSlot (s : PagedVm β) (j : Nat) (x : β) :
    (s.fillSlot j x).data = update s.data (.slot j) x := by
  funext p
  cases p with
  | frame i => simp [data, fillSlot]
  | slot k => by_cases hk : k = j <;> simp [data, fillSlot, hk]

@[simp] theorem pages_setPage (s : PagedVm β) (k : UserPage) (x : β) :
    (s.setPage k x).pages = update s.pages k (some x) := rfl

@[simp] theorem mapIndex_setFrame (s : PagedVm β) (i : Nat) (e : PageTableEntry) (used : Bool)
    (paddr : BitVec 32) : (s.setFrame i e used).core.mapIndex paddr = s.core.mapIndex paddr := rfl

@[simp] theorem setSlot_setSlot (s : PagedVm β) (j : Nat) (e e' : PageTableEntry)
    (used used' : Bool) : (s.setSlot j e used).setSlot j e' used' = s.setSlot j e' used' := by
  simp [setSlot]

end PagedVm

/-- A process writes to a page of its own, which is in frame `i`. -/
def storeFrame (i : Nat) (x : β) : PagerProg β Unit := do
  let s ← get
  match s.label (.frame i) with
  | some k => modify fun s => (s.fillFrame i x).setPage k x
  | none => halt

/-! ## 3. Addresses in memory and in the swap file -/

variable {j i victim : Nat} {s : PagedVm β} {paddr v : BitVec 32} {curpid : Int}

theorem toNat_slotAt (hj : j < 1048576) : (slotAt j).toNat = j * 4096 := by
  rw [slotAt, BitVec.toNat_ofNat]
  unfold pageSize
  omega

theorem pageFrame_slotAt (hj : j < 1048576) : pageFrame (slotAt j) = slotAt j := by
  refine BitVec.eq_of_toNat_eq ?_
  rw [toNat_pageFrame, toNat_slotAt hj]
  omega

theorem slotIndex_slotAt (hj : j < 1048576) : slotIndex (slotAt j) = j := by
  rw [slotIndex, pageFrame_slotAt hj, toNat_slotAt hj]
  unfold pageSize
  omega

/-- The flags are below the page size, so that `swap_out` need not mask them. -/
theorem Coremap.index_unmasked (s : Coremap) (paddr : BitVec 32) :
    (paddr - s.start).toNat / pageSize = s.mapIndex paddr := by
  have hstart : s.start.toNat / 4096 * 4096 = s.start.toNat := by
    rw [← toNat_pageFrame, s.start_aligned]
  have hlt := s.start.isLt
  have hround : ∀ a p : Nat, a < 2 ^ 32 → a / 4096 * 4096 = a →
      (2 ^ 32 - a + p) % 2 ^ 32 / 4096 = (2 ^ 32 - a + p / 4096 * 4096) % 2 ^ 32 / 4096 := by
    omega
  rw [Coremap.mapIndex, BitVec.toNat_sub, BitVec.toNat_sub, toNat_pageFrame]
  exact hround _ _ hlt hstart

open Coremap

theorem pageFrame_setValid (p : BitVec 32) : pageFrame (setValid p) = pageFrame p := by
  have hvalid : pageFrame 0x200#32 = 0#32 := by decide
  rw [setValid, pageFrame_or, hvalid, BitVec.or_zero]

theorem pageFrame_setKernel (p : BitVec 32) : pageFrame (setKernel p) = pageFrame p := by
  have hkernel : pageFrame 0x1#32 = 0#32 := by decide
  rw [setKernel, pageFrame_or, hkernel, BitVec.or_zero]

theorem pageFrame_setSwapped (p : BitVec 32) : pageFrame (setSwapped p) = pageFrame p := by
  have hswapped : pageFrame 0x80#32 = 0#32 := by decide
  rw [setSwapped, pageFrame_or, hswapped, BitVec.or_zero]

/-! ## 4. Finding a frame -/

namespace PagedVm

/-- Entry `j` of the swap table is about slot `j`. -/
def Slotted (s : PagedVm β) : Prop := ∀ j < s.swapSize, (s.coreswap j).paddr = slotAt j

theorem Slotted.setSlot (h : s.Slotted) {e : PageTableEntry} (he : e.paddr = slotAt j)
    (used : Bool) :
    (s.setSlot j e used).Slotted := by
  intro k hk
  by_cases hkj : k = j
  · subst hkj
    simpa [PagedVm.setSlot] using he
  · simpa [PagedVm.setSlot, hkj] using h k hk

/-- The tables are in order: every entry is about its own frame or slot, and every allocated page is
in exactly one place, recorded under its own name and with its own content. -/
structure Kept (s : PagedVm β) : Prop where
  framed : s.core.Framed
  slotted : s.Slotted
  shelved : Shelved s.label s.data s.pages

/-- The same, but for frame `i`, which is about to get a new page. -/
structure Vacant (s : PagedVm β) (i : Nat) : Prop where
  lt : i < s.core.size
  framed : s.core.Framed
  slotted : s.Slotted
  shelved : Shelved (update s.label (.frame i) none) s.data s.pages

/-- Every frame is in use. -/
def Full (s : PagedVm β) : Prop := ∀ i < s.core.size, s.core.memMap i = true

/-- If a page has to be evicted it is one of the process that needs the frame. -/
def EvictsOwn (s : PagedVm β) (curpid : Int) (victim : Nat) : Prop :=
  s.Full → (s.core.entries victim).pid = curpid

end PagedVm

/-- What `get_free_page` leaves: a vacant frame, the pages as they were, and whatever was in the
swap file still there. -/
structure FoundFrame (s : PagedVm β) (i : Nat) (paddr : BitVec 32) (s' : PagedVm β) : Prop where
  vacant : s'.Vacant i
  frame : pageFrame paddr = s'.core.frameAt i
  pages : s'.pages = s.pages
  slot : ∀ j k, s.label (.slot j) = some k → s'.label (.slot j) = some k

theorem getFreeOffset_spec (s : PagedVm β) : Wp True getFreeOffset
      (fun offset s' => ∃ j < s.swapSize, s.label (.slot j) = none ∧ offset = slotAt j ∧
        s' = s.setSlot j (s.coreswap j) true)
      (fun _ s' => s' = s) s := by
  unfold getFreeOffset
  rw [wp_bind, wp_get]
  cases hfind : (range s.swapSize).find? fun j => !s.swapMap j with
  | none => exact wp_fail.mpr rfl
  | some j =>
    have hj : j < s.swapSize := mem_range.mp (mem_of_find?_eq_some hfind)
    have hfree : s.swapMap j = false := by simpa using find?_some hfind
    refine wp_bind.mpr (wp_modify.mpr (wp_pure.mpr ⟨j, hj, ?_, rfl, rfl⟩))
    simp [label, hfree]

/-- What `swap_out` writes down: the page goes into the slot under the name of the process that is
running. -/
theorem swapOut_spec (h : s.Slotted) (hj : j < s.swapSize) (hindex : s.core.mapIndex paddr = i)
    (curpid : Int) : Wp True (swapOut (slotAt j) paddr curpid) (fun _ s' => s' = (s.setSlot j
          { vaddr := (s.core.entries i).vaddr, paddr := slotAt j, pid := curpid } true).fillSlot j
            (s.frames i))
      (fun _ _ => False) s := by
  have hslot : slotIndex (slotAt j) = j := slotIndex_slotAt (hj.trans_le s.swap_le)
  unfold swapOut coreswapInsert
  simp only [wp_bind, wp_get, wp_assert, wp_modify, hslot, index_unmasked]
  refine ⟨fun _ => ⟨fun _ => ?_, fun _ => True.intro⟩, fun _ => True.intro⟩
  rw [h j hj, ← hindex]
  rfl

/-- **A process that evicts a page of its own leaves everything in order.** -/
theorem evictPage_spec (h : s.Kept) (hfull : s.Full) (hown : (s.core.entries victim).pid = curpid) :
    Wp True (evictPage curpid victim) (fun paddr s' => ∃ i, FoundFrame s i paddr s')
      (fun _ => PagedVm.Kept) s := by
  unfold evictPage findLruPage
  simp only [wp_bind, wp_get, wp_assert, wp_pure]
  refine ⟨fun hin => ⟨fun _ => ⟨fun _ => ?_, fun _ => True.intro⟩, fun _ => True.intro⟩,
    fun _ => True.intro⟩
  have hlt := hin.1
  have hindex : s.core.mapIndex (s.core.entries victim).paddr = victim :=
    mapIndex_eq hlt (h.framed victim hlt)
  have hlabel : s.label (.frame victim) = some (curpid, (s.core.entries victim).vaddr) := by
    simp [label, hlt, hfull victim hlt, hown]
  refine (getFreeOffset_spec s).imp ?_ fun _ s' hs' => hs' ▸ h
  rintro _ _ ⟨j, hj, hfree, rfl, rfl⟩
  have hmarked : (s.setSlot j (s.coreswap j) true).Slotted :=
    h.slotted.setSlot (h.slotted j hj) true
  refine (swapOut_spec hmarked hj hindex curpid).post_ok ?_
  rintro _ _ rfl
  rw [setSlot_setSlot]
  refine ⟨victim, ⟨hlt, h.framed, h.slotted.setSlot rfl true, ?_⟩, h.framed victim hlt, rfl, ?_⟩
  · have hmove := h.shelved.move hlabel hfree
    rw [update_comm (by simp)] at hmove
    rw [label_fillSlot, label_setSlot hj, data_fillSlot]
    exact hmove
  · intro k key hk
    have hkj : slot k ≠ .slot j := by
      intro he
      rw [he, hfree] at hk
      cases hk
    rw [label_fillSlot, label_setSlot hj, update_of_ne hkj, hk]

/-- **`get_free_page` finds a frame**, and if it has to evict a page for it that page is still where
its owner will look for it, as long as the owner is the process that is running. -/
theorem getFreePage_spec (h : s.Kept) (hown : s.EvictsOwn curpid victim) :
    Wp True (getFreePage curpid victim) (fun paddr s' => ∃ i, FoundFrame s i paddr s')
      (fun _ => PagedVm.Kept) s := by
  unfold getFreePage
  rw [wp_bind, wp_get]
  cases hfind : (range s.core.size).find? fun i => !s.core.memMap i with
  | none =>
    have hfull : s.Full := by simpa [PagedVm.Full] using hfind
    exact evictPage_spec h hfull (hown hfull)
  | some i =>
    have hi : i < s.core.size := mem_range.mp (mem_of_find?_eq_some hfind)
    have hfree : s.core.memMap i = false := by simpa using find?_some hfind
    have hlabel : s.label (.frame i) = none := by simp [label, hfree]
    refine wp_bind.mpr (wp_modify.mpr (wp_pure.mpr ?_))
    refine ⟨i, ⟨hi, ?_, ?_, ?_⟩, ?_, rfl, ?_⟩
    · exact h.framed.setEntry rfl
    · exact h.slotted
    · rw [label_setFrame hi, update_idem, ← hlabel, update_eq_self]
      exact h.shelved
    · exact h.framed i hi
    · intro j k hk
      have hne : slot j ≠ .frame i := nofun
      rw [label_setFrame hi, update_of_ne hne, hk]

/-! ## 5. The calls -/

section

variable (h : s.core.Framed) (hi : i < s.core.size) (hframe : pageFrame paddr = s.core.frameAt i)
  (vaddr : BitVec 32) (pid : Int)

include h hi hframe

theorem insertFrame_spec {p : Prop} {Q : Unit → PagedVm β → Prop} {E : VmExit → PagedVm β → Prop}
    (hQ : Q () (s.setFrame i { vaddr, paddr := flagged vaddr (pageFrame paddr), pid } true)) :
    Wp p (onCore (coremapInsertPid vaddr paddr pid)) Q E s := by
  unfold onCore coremapInsertPid
  simp only [wp_zoom, wp_bind, wp_get, wp_assert, wp_modify, mapIndex_eq hi hframe]
  exact ⟨fun _ => hQ, fun hno => absurd ⟨hi, (h i hi).trans hframe.symm⟩ hno⟩

theorem PagedVm.framed_setFrame : (s.setFrame i
      { vaddr, paddr := flagged vaddr (pageFrame paddr), pid } true).core.Framed := by
  refine h.setEntry ?_
  rw [pageFrame_flagged, pageFrame_pageFrame, hframe, h i hi]

end

/-- **A new page gets a place of its own.** -/
theorem allocPage_spec (h : s.Kept) {pid : Int} (hnew : s.pages (pid, v) = none)
    (hown : s.EvictsOwn curpid victim) :
    Wp True (allocPage v pid curpid victim) (fun _ => PagedVm.Kept) (fun _ => PagedVm.Kept)
      s := by
  refine (getFreePage_spec h hown).bind ?_
  rintro paddr s' ⟨i, hfound⟩
  have hflags : pageFrame (if v ≥ userspacetop then setKernel (setValid paddr)
      else setValid paddr) = s'.core.frameAt i := by
    split_ifs
    · rw [pageFrame_setKernel, pageFrame_setValid, hfound.frame]
    · rw [pageFrame_setValid, hfound.frame]
  refine wp_bind.mpr (insertFrame_spec hfound.vacant.framed hfound.vacant.lt hflags v pid ?_)
  rw [wp_bind, wp_modify, wp_pure]
  refine ⟨framed_setFrame hfound.vacant.framed hfound.vacant.lt hflags v pid,
    hfound.vacant.slotted, ?_⟩
  have hindex : s'.core.mapIndex paddr = i := mapIndex_eq hfound.vacant.lt hfound.frame
  have hput := hfound.vacant.shelved.put (p := .frame i) (k := (pid, v))
    (update_self _ _ _) (by rw [hfound.pages, hnew]) (s'.frames i)
  have hsame : update s'.data (.frame i) (s'.frames i) = s'.data :=
    update_eq_self _ _
  rw [update_idem, hsame] at hput
  rw [label_setPage, label_setFrame hfound.vacant.lt, data_setPage,
    data_setFrame, pages_setPage, mapIndex_setFrame, hindex]
  exact hput

theorem swapIn_spec (hj : j < s.swapSize) (hindex : s.core.mapIndex paddr = i) :
    Wp True (swapIn paddr (slotAt j))
      (fun _ s' => s' = (s.setSlot j { vaddr := 0, paddr := slotAt j, pid := 0 } false).fillFrame i
        (s.slots j))
      (fun _ _ => False) s := by
  have hslot : slotIndex (slotAt j) = j := slotIndex_slotAt (hj.trans_le s.swap_le)
  unfold swapIn coreswapRemove
  simp only [wp_bind, wp_get, wp_assert, wp_modify, hslot]
  refine ⟨fun _ => ⟨fun _ => ⟨fun _ => ?_, fun _ => True.intro⟩, fun _ => True.intro⟩,
    fun _ => True.intro⟩
  rw [← hindex]
  rfl

theorem swapWalk_spec (v : BitVec 32) (curpid aspid : Int) (l : List PageTableEntry)
    (s : PagedVm β) :
    Wp True (swapWalk v curpid aspid l)
      (fun offset s' => s' = s ∧ ∃ e, l.find? (fun e => e.vaddr = v) = some e ∧ offset = e.paddr)
      (fun _ _ => False) s := by
  induction l with
  | nil => exact wp_halt.mpr True.intro
  | cons e rest ih =>
    unfold swapWalk
    rw [wp_ite, wp_ite]
    refine ⟨fun ⟨hv, _⟩ => wp_pure.mpr ⟨rfl, e, ?_, rfl⟩, fun _ => ⟨fun _ => ?_, fun hv => ?_⟩⟩
    · simp [hv]
    · exact wp_halt.mpr True.intro
    · simpa [hv] using ih

/-- The page that a fault on `v` finds in the swap file is one of process 0, in slot `j`. -/
def PagedVm.FaultsZero (s : PagedVm β) (v : BitVec 32) (j : Nat) : Prop :=
  s.label (.slot j) = some (0, v) ∧ ∀ k < j, (s.coreswap k).vaddr ≠ v

theorem findSwapTable_spec (h : s.Slotted) (hj : s.FaultsZero v j) (curpid aspid : Int) :
    Wp True (findSwapTable v curpid aspid)
      (fun offset s' => s' = s ∧ j < s.swapSize ∧ offset = slotAt j) (fun _ _ => False) s := by
  obtain ⟨hlabel, hfirst⟩ := hj
  unfold findSwapTable
  rw [wp_bind, wp_get]
  refine (swapWalk_spec v curpid aspid _ s).post ?_
  rintro _ s' ⟨hs', e, hfind, rfl⟩
  obtain ⟨i, hi, rfl, hv, hfirst'⟩ := find_first hfind
  have hjv : (s.coreswap j).vaddr = v :=
    (label_slot_eq_some.mp hlabel).2.2
  have hij : i = j := by
    rcases Nat.lt_trichotomy i j with hlt | heq | hgt
    · exact absurd hv (hfirst i hlt)
    · exact heq
    · exact absurd hjv (hfirst' j hgt)
  subst hij
  exact ⟨hs', hi, h i hi⟩

/-- **A page of process 0 comes back to a place of its own.** -/
theorem pageFaultHandler_spec (h : s.Kept) {aspid : Int} (hzero : s.FaultsZero v j)
    (hown : s.EvictsOwn curpid victim) :
    Wp True (pageFaultHandler v curpid aspid victim) (fun _ => PagedVm.Kept)
      (fun _ => PagedVm.Kept) s := by
  refine wp_bind.mpr ((findSwapTable_spec h.slotted hzero curpid aspid).imp ?_
    fun _ _ => False.elim)
  rintro _ _ ⟨rfl, hj, rfl⟩
  refine (getFreePage_spec h hown).bind ?_
  rintro paddr s ⟨i, hfound⟩
  have hlabel := hfound.slot j _ hzero.1
  have hjs : j < s.swapSize := (label_slot_eq_some.mp hlabel).1.1
  have hindex : s.core.mapIndex paddr = i := mapIndex_eq hfound.vacant.lt hfound.frame
  have hslot : slotIndex (slotAt j) = j := slotIndex_slotAt (hjs.trans_le s.swap_le)
  refine (swapIn_spec hjs hindex).bind_ok ?_
  rintro _ _ rfl
  rw [wp_bind, wp_get, hslot]
  have hflags : pageFrame (setSwapped (setValid paddr)) = s.core.frameAt i := by
    rw [pageFrame_setSwapped, pageFrame_setValid, hfound.frame]
  refine wp_bind.mpr (insertFrame_spec (s := (s.setSlot j _ false).fillFrame i _)
    hfound.vacant.framed hfound.vacant.lt hflags v _ (wp_pure.mpr ?_))
  refine ⟨framed_setFrame (s := (s.setSlot j _ false).fillFrame i _) hfound.vacant.framed
    hfound.vacant.lt hflags v _, hfound.vacant.slotted.setSlot rfl false, ?_⟩
  -- The page moves from the slot to the frame.
  have hne : slot j ≠ .frame i := nofun
  have hmove := hfound.vacant.shelved.move (p := .slot j) (q := .frame i)
    ((update_of_ne hne _ _).trans hlabel) (update_self _ _ _)
  rw [update_comm hne.symm, update_idem] at hmove
  have hpid : (((s.setSlot j { vaddr := 0, paddr := slotAt j, pid := 0 } false).fillFrame i
      (s.slots j)).coreswap j).pid = 0 := by
    simp [setSlot, fillFrame]
  rw [label_setFrame (s := (s.setSlot j _ false).fillFrame i _) hfound.vacant.lt,
    label_fillFrame, label_setSlot hjs, data_setFrame,
    data_fillFrame, hpid]
  exact hmove

theorem storeFrame_spec (h : s.Kept) (i : Nat) (x : β) :
    Wp True (storeFrame i x) (fun _ => PagedVm.Kept) (fun _ => PagedVm.Kept) s := by
  unfold storeFrame
  rw [wp_bind, wp_get]
  cases hlabel : s.label (.frame i) with
  | none => exact wp_halt.mpr True.intro
  | some k =>
    refine wp_modify.mpr ⟨h.framed, h.slotted, ?_⟩
    rw [label_setPage, label_fillFrame, data_setPage, data_fillFrame]
    exact h.shelved.write hlabel x

/-! ## 6. Every sequence of calls -/

/-- What processes do with the pager, one after another.  `victim` is what `find_lru_page` would
draw. -/
inductive PagerCall (β : Type)
  | alloc (virAddr : BitVec 32) (pid curpid : Int) (victim : Nat)
  | fault (virAddr : BitVec 32) (curpid aspid : Int) (victim : Nat)
  | store (i : Nat) (x : β)

/-- One call. -/
def pagerCall : PagerCall β → PagerProg β Unit
  | .alloc virAddr pid curpid victim => do
    let _ ← allocPage virAddr pid curpid victim
    pure ()
  | .fault virAddr curpid aspid victim => do
    let _ ← pageFaultHandler virAddr curpid aspid victim
    pure ()
  | .store i x => storeFrame i x

/-- The calls that lose no owner: nobody allocates a page twice, processes evict only their own
pages, and only pages of process 0 come back. -/
def OwnersKept : PagerCall β → PagedVm β → Prop
  | .alloc virAddr pid curpid victim, s =>
    s.pages (pid, virAddr) = none ∧ s.EvictsOwn curpid victim
  | .fault virAddr curpid _ victim, s =>
    (∃ j, s.FaultsZero virAddr j) ∧ s.EvictsOwn curpid victim
  | .store _ _, _ => True

/-- The tables after `coremap_init` and `coreswap_init`, which fill in the addresses only. -/
def PagedVm.boot (core : Coremap) (swapSize : Nat) (junk : Nat → BitVec 32 × Int)
    (frames slots : Nat → β) (hswap : swapSize ≤ 1048576) : PagedVm β where
  core := core
  swapSize := swapSize
  coreswap j := { vaddr := (junk j).1, paddr := slotAt j, pid := (junk j).2 }
  swapMap _ := false
  frames := frames
  slots := slots
  pages _ := none
  swap_le := hswap

theorem PagedVm.boot_kept {start : BitVec 32} {size swapSize : Nat}
    {junk junk' : Nat → BitVec 32 × Int} {frames slots : Nat → β}
    (haligned : pageFrame start = start) (hsize : size ≤ 1048576) (hswap : swapSize ≤ 1048576) :
    (boot (init start size junk haligned hsize) swapSize junk' frames slots hswap).Kept := by
  refine ⟨init_framed haligned hsize, fun _ _ => rfl, ?_⟩
  have hlabel : (boot (init start size junk haligned hsize) swapSize junk' frames
      slots hswap).label = fun _ => none := by
    funext p
    cases p <;> simp [label, boot, init]
  rw [hlabel]
  exact Shelved.nil _

/-- **Swapping preserves pages as long as no owner is lost.**  In every run from the boot, with any
number of processes, whose calls all meet `OwnersKept`, every allocated page is in exactly one
frame or slot, recorded there with its owner and its address, and what is in that place is what its
owner has put into the page. -/
theorem pages_shelved {start : BitVec 32} {size swapSize : Nat}
    {junk junk' : Nat → BitVec 32 × Int} {frames slots : Nat → β}
    {haligned : pageFrame start = start} {hsize : size ≤ 1048576} {hswap : swapSize ≤ 1048576}
    {s : PagedVm β}
    (h : Run pagerCall OwnersKept (PagedVm.boot (Coremap.init start size junk haligned hsize)
      swapSize junk' frames slots hswap) s) : Shelved s.label s.data s.pages := by
  have hkept : s.Kept := by
    refine h.invariant (p := True) (I := PagedVm.Kept) ?_ (PagedVm.boot_kept haligned hsize hswap)
    intro call s hcall hs
    cases call with
    | alloc v pid curpid victim =>
      refine (allocPage_spec hs hcall.1 hcall.2).bind ?_
      exact fun _ _ hs => wp_pure.mpr hs
    | fault v curpid aspid victim =>
      obtain ⟨⟨j, hzero⟩, hown⟩ := hcall
      refine (pageFaultHandler_spec hs hzero hown).bind ?_
      exact fun _ _ hs => wp_pure.mpr hs
    | store i x => exact storeFrame_spec hs i x
  exact hkept.shelved

/-- A machine with one frame, and two slots in its swap file. -/
def oneFrame : PagedVm Nat :=
  .boot (Coremap.init 0x40000 1 (fun _ => (0, 0)) pageFrame_start (by decide)) 2 (fun _ => (0, 0))
    (fun _ => 0) (fun _ => 0) two_le_frames

/-- Process 2 allocates a page, writes 7 to it, and allocates another one: the first is in the swap
file. -/
theorem pages_shelved_oneFrame : ∃ s : PagedVm Nat, Run pagerCall OwnersKept oneFrame s ∧
    Shelved s.label s.data s.pages ∧ s.label (.slot 0) = some (2, 0x400000) ∧
      s.data (.slot 0) = 7 ∧ s.label (.frame 0) = some (2, 0x401000) := by
  have hfree : oneFrame.EvictsOwn 2 0 := fun hfull =>
    absurd (hfull 0 Nat.one_pos) Bool.false_ne_true
  have hrun : Run pagerCall OwnersKept oneFrame _ :=
    ((Run.refl.andThen (.alloc 0x400000 2 2 0) ⟨rfl, hfree⟩ rfl).andThen
      (.store 0 7) True.intro rfl).andThen
      (.alloc 0x401000 2 2 0) ⟨rfl, fun _ => rfl⟩ rfl
  exact ⟨_, hrun, pages_shelved hrun, rfl, rfl, rfl⟩

/-- **Two ways to lose an owner.**  Processes 1 and 2 each allocate the page at `0x400000`: the page
of process 1 is now in the swap file under the name of process 2.  And process 1 allocates two
pages and reads the first one again: it comes back under the name of process 0. -/
theorem owner_lost : (∃ s : PagedVm Nat, Run pagerCall (fun _ _ => True) oneFrame s ∧
      s.pages (1, 0x400000) = some 0 ∧ s.label (.slot 0) = some (2, 0x400000) ∧
      ∀ p, s.label p ≠ some (1, 0x400000)) ∧
    ∃ s : PagedVm Nat, Run pagerCall (fun _ _ => True) oneFrame s ∧
      s.pages (1, 0x400000) = some 0 ∧ s.label (.frame 0) = some (0, 0x400000) ∧
      ∀ p, s.label p ≠ some (1, 0x400000) := by
  constructor
  · refine ⟨_, (Run.refl.andThen (.alloc 0x400000 1 1 0) True.intro rfl).andThen
      (.alloc 0x400000 2 2 0) True.intro rfl, rfl, rfl, PagedVm.label_ne ?_ ?_⟩ <;> decide
  · refine ⟨_, ((Run.refl.andThen (.alloc 0x400000 1 1 0) True.intro rfl).andThen
      (.alloc 0x401000 1 1 0) True.intro rfl).andThen
      (.fault 0x400000 1 1 0) True.intro rfl, rfl, rfl, PagedVm.label_ne ?_ ?_⟩ <;> decide

end Os161
