/-
# `kern/arch/mips/vm/dumbvm.c`: address spaces of three regions

Under dumbvm an address space is two regions and a stack, each a run of virtual pages in front of a
run of physical ones.  `vm_fault` tries the regions in turn, so that the first one has precedence
where they overlap in the virtual space, and puts what it finds into the TLB, of which it never
throws anything out.

The model has the physical memory, the TLB, and the allocator `ram_stealmem` as it is in `Ram.lean`;
`grants` is the list of all pages that `getppages` has ever handed out.  What `getppages` is
ASSUMED to do is said about that list (`Fresh`): whether it does is another matter (`Ram.lean`).

`as_copy` gives the new address space regions at the same virtual pages and of the same sizes, and
memory of its own.  So the two translate the same addresses, through the same region, and what the
parent had is what the child has; and neither sees what the other writes from then on
(`as_copy_forks`).
-/
import Mathlib.Data.List.Pairwise
import Os161.Lib.Translate
import Os161.Ram

namespace Os161

open List

/-! ## 1. The functions -/

/-- `struct addrspace`. -/
structure Addrspace where
  asVbase1 : Nat
  asPbase1 : Nat
  asNpages1 : Nat
  asVbase2 : Nat
  asPbase2 : Nat
  asNpages2 : Nat
  asStackpbase : Nat
  deriving DecidableEq, Repr

open Addrspace

/-- The machine: its memory, the valid entries of the TLB, a virtual and a physical page each, what
memory is left, and what has been handed out. -/
structure Dumbvm where
  mem : Mem
  tlb : List (Nat × Nat)
  ram : Ram
  grants : List Pages

/-- `USERSTACK`. -/
abbrev userstack : Nat := 0x80000000

/-- A run of virtual pages, and the physical pages behind them. -/
structure Region where
  vbase : Nat
  pages : Pages
  deriving DecidableEq, Repr

/-- `vtop1`, `vtop2` and `stacktop` of `vm_fault`. -/
def Region.vtop (r : Region) : Nat := u32 (r.vbase + r.pages.npages * pageSize)

/-- One branch of the search in `vm_fault`. -/
def Region.pageAt (r : Region) (faultaddress : Nat) : Option Nat :=
  if faultaddress ≥ r.vbase ∧ faultaddress < r.vtop then
    some (u32 (faultaddress - r.vbase + r.pages.paddr))
  else none

namespace Addrspace

/-- The regions, in the order in which `vm_fault` tries them. -/
def regions (as : Addrspace) : List Region :=
  [{ vbase := as.asVbase1, pages := { paddr := as.asPbase1, npages := as.asNpages1 } },
   { vbase := as.asVbase2, pages := { paddr := as.asPbase2, npages := as.asNpages2 } },
   { vbase := userstack - dumbvmStackpages * pageSize
     pages := { paddr := as.asStackpbase, npages := dumbvmStackpages } }]

/-- The physical page that `vm_fault` finds. -/
def pageAt (as : Addrspace) (faultaddress : Nat) : Option Nat :=
  as.regions.findSome? fun r => r.pageAt faultaddress

/-- The physical address of a byte. -/
def translate (as : Addrspace) (v : Nat) : Option Nat :=
  (as.pageAt (v / pageSize * pageSize)).map fun p => p + v % pageSize

/-- The physical memory of the regions, as `as_zero_region` and `memmove` take it. -/
def ranges (as : Addrspace) : List (Nat × Nat) :=
  as.regions.map fun r => (r.pages.paddr, u32 (r.pages.npages * pageSize))

/-- What `as_create` makes. -/
def empty : Addrspace := ⟨0, 0, 0, 0, 0, 0, 0⟩

end Addrspace

/-- A program that works on an address space. -/
abbrev AsProg (α : Type) := Prog Errno (Dumbvm × Addrspace) α

/-- `getppages`. -/
def takePages (npages : Nat) : Prog Errno Dumbvm Nat := do
  let s ← get
  let r := getppages npages s.ram
  modify fun s => { s with
    ram := r.2
    grants := if r.1 = 0 then s.grants else { paddr := r.1, npages } :: s.grants }
  pure r.1

/-- `NUM_TLB`. -/
def numTlb : Nat := 64

/-- `faulttype`. -/
inductive VmFaultType
  | read | write | readonly | other
  deriving DecidableEq, Repr

/-- The assertions of `vm_fault` on the address space. -/
def Addrspace.Checked (as : Addrspace) : Prop :=
  as.asVbase1 ≠ 0 ∧ as.asPbase1 ≠ 0 ∧ as.asNpages1 ≠ 0 ∧ as.asVbase2 ≠ 0 ∧ as.asPbase2 ≠ 0 ∧
    as.asNpages2 ≠ 0 ∧ as.asStackpbase ≠ 0 ∧ as.asVbase1 % pageSize = 0 ∧
    as.asPbase1 % pageSize = 0 ∧ as.asVbase2 % pageSize = 0 ∧ as.asPbase2 % pageSize = 0 ∧
    as.asStackpbase % pageSize = 0

instance (as : Addrspace) : Decidable as.Checked := inferInstanceAs (Decidable (_ ∧ _))

/-- The end of `vm_fault`: an entry goes into a free place of the TLB. -/
def tlbFill (faultaddress paddr : Nat) : Prog Errno Dumbvm Unit := do
  let s ← get
  if s.tlb.length < numTlb then
    modify fun s => { s with tlb := s.tlb ++ [(faultaddress, paddr)] }
  else fail .efault

/-- `vm_fault`, for `curthread->t_addrspace`. -/
def vmFault (faulttype : VmFaultType) (faultaddress : Nat) (as : Option Addrspace) :
    Prog Errno Dumbvm Unit :=
  match faulttype, as with
  | .readonly, _ => halt
  | .other, _ => fail .einval
  | _, none => fail .efault
  | _, some as => do
    assert as.Checked
    match as.pageAt (faultaddress / pageSize * pageSize) with
    | none => fail .efault
    | some paddr => do
      assert (paddr % pageSize = 0)
      tlbFill (faultaddress / pageSize * pageSize) paddr

/-- How `kmalloc` gets a small block: from a page that has one, or from a new page, for which there
may be no `pageref`. -/
inductive KmallocWay
  | block | page | noPageref
  deriving DecidableEq, Repr

/-- `kmalloc` of a small block: whether there is one. -/
def kmallocSmall : KmallocWay → Prog Errno Dumbvm Bool
  | .block => pure true
  | .page => do
    let p ← takePages 1
    pure (decide (p ≠ 0))
  | .noPageref => do
    let _ ← takePages 1
    pure false

/-- `as_create`. -/
def asCreate (way : KmallocWay) : Prog Errno Dumbvm (Option Addrspace) := do
  let ok ← kmallocSmall way
  pure (if ok = true then some .empty else none)

/-- `as_activate`. -/
def asActivate : Prog Errno Dumbvm Unit := modify fun s => { s with tlb := [] }

/-- `as_define_region`. -/
def asDefineRegion (vaddr sz : Nat) : AsProg Unit := do
  let s ← get
  if s.2.asVbase1 = 0 then
    modify fun s => (s.1, { s.2 with
      asVbase1 := vaddr / pageSize * pageSize, asNpages1 := regionPages vaddr sz })
  else if s.2.asVbase2 = 0 then
    modify fun s => (s.1, { s.2 with
      asVbase2 := vaddr / pageSize * pageSize, asNpages2 := regionPages vaddr sz })
  else fail .eunimp

/-- `as_zero_region`. -/
def asZeroRegion (paddr npages : Nat) : AsProg Unit :=
  modify fun s => ({ s.1 with mem := s.1.mem.clear paddr (u32 (npages * pageSize)) }, s.2)

/-- `as_prepare_load` gets the memory of one region. -/
def asTakeRegion (npages : Nat) (set : Nat → Addrspace → Addrspace) : AsProg Unit := do
  let p ← onFst (takePages npages)
  modify fun s => (s.1, set p s.2)
  if p = 0 then fail .enomem else pure ()

/-- `as_prepare_load`. -/
def asPrepareLoad : AsProg Unit := do
  let s ← get
  assert (s.2.asPbase1 = 0 ∧ s.2.asPbase2 = 0 ∧ s.2.asStackpbase = 0)
  asTakeRegion s.2.asNpages1 fun p as => { as with asPbase1 := p }
  asTakeRegion s.2.asNpages2 fun p as => { as with asPbase2 := p }
  asTakeRegion dumbvmStackpages fun p as => { as with asStackpbase := p }
  let s ← get
  asZeroRegion s.2.asPbase1 s.2.asNpages1
  asZeroRegion s.2.asPbase2 s.2.asNpages2
  asZeroRegion s.2.asStackpbase dumbvmStackpages

/-- `as_define_stack`. -/
def asDefineStack : AsProg Nat := do
  let s ← get
  assert (s.2.asStackpbase ≠ 0)
  pure userstack

/-- `memmove` between two physical addresses. -/
def copyPages (dst src npages : Nat) : Prog Errno Dumbvm Unit :=
  modify fun s => { s with mem := s.mem.move dst src (u32 (npages * pageSize)) }

/-- `as_copy`, when there is a new address space. -/
def asCopyInto (old new : Addrspace) : Prog Errno Dumbvm Addrspace := do
  let r ← attempt (withLocal
    { new with
      asVbase1 := old.asVbase1, asNpages1 := old.asNpages1
      asVbase2 := old.asVbase2, asNpages2 := old.asNpages2 } asPrepareLoad)
  match r with
  | .error _ => fail .enomem
  | .ok (_, new) => do
    assert (new.asPbase1 ≠ 0 ∧ new.asPbase2 ≠ 0 ∧ new.asStackpbase ≠ 0)
    copyPages new.asPbase1 old.asPbase1 old.asNpages1
    copyPages new.asPbase2 old.asPbase2 old.asNpages2
    copyPages new.asStackpbase old.asStackpbase dumbvmStackpages
    pure new

/-- `as_copy`. -/
def asCopy (old : Addrspace) (way : KmallocWay) : Prog Errno Dumbvm Addrspace := do
  match ← asCreate way with
  | none => fail .enomem
  | some new => asCopyInto old new

/-- How an address space is set up: regions are defined, with whatever result, then memory is got
for them, and then the stack is defined. -/
def asSetUp (defs : List (Nat × Nat)) : AsProg Nat := do
  forEach (fun d => do
    let _ ← attempt (asDefineRegion d.1 d.2)
    pure ()) defs
  asPrepareLoad
  asDefineStack

/-! ## 2. Translation -/

/-- The region starts at a page boundary, and its pages are pages of the memory. -/
structure Region.Wf (r : Region) : Prop where
  vbase : r.vbase % pageSize = 0
  paddr : r.pages.paddr % pageSize = 0
  top : r.pages.top ≤ ramMax

variable {v q p vaddr sz : Nat} {as as' : Addrspace} {m m' : Mem} {grants : List Pages}

/-- **A byte of a region** is as far from the start of its physical pages as from the start of its
virtual ones, and among those pages. -/
theorem Region.Wf.byte {r : Region} (h : r.Wf) (hq : r.pageAt (v / pageSize * pageSize) = some q) :
    r.vbase ≤ v ∧ q + v % pageSize = r.pages.paddr + (v - r.vbase) ∧
      q + v % pageSize < r.pages.top := by
  obtain ⟨hv, hp, ht⟩ := h
  unfold Region.pageAt at hq
  split_ifs at hq with hcond
  cases hq
  have harith : ∀ b p n w : Nat, b % 4096 = 0 → p % 4096 = 0 → p + n * 4096 ≤ 508 * 1024 * 1024 →
      b ≤ w / 4096 * 4096 → w / 4096 * 4096 < (b + n * 4096) % 4294967296 →
      b ≤ w ∧ (w / 4096 * 4096 - b + p) % 4294967296 + w % 4096 = p + (w - b) ∧
        (w / 4096 * 4096 - b + p) % 4294967296 + w % 4096 < p + n * 4096 := by
    omega
  exact harith _ _ _ _ hv hp ht hcond.1 hcond.2

/-- Every region is well-formed. -/
def Addrspace.Wf (as : Addrspace) : Prop := ∀ r ∈ as.regions, r.Wf

theorem Addrspace.Wf.translate (h : as.Wf) (hp : as.translate v = some p) :
    ∃ r ∈ as.regions, r.vbase ≤ v ∧ p = r.pages.paddr + (v - r.vbase) ∧ p < r.pages.top := by
  obtain ⟨q, hq, rfl⟩ := Option.map_eq_some_iff.mp hp
  obtain ⟨r, hr, hrq⟩ := exists_of_findSome?_eq_some hq
  exact ⟨r, hr, (h r hr).byte hrq⟩

section

variable (h : as.Wf) (h' : as'.Wf)
  (hapart : ∀ r ∈ as.regions, ∀ r' ∈ as'.regions, r.pages.Apart r'.pages)

include h h' hapart

/-- Two address spaces whose regions have no page in common reach no page in common. -/
theorem Addrspace.Wf.page_ne {w : Nat} (hp : as.translate v = some p)
    (hq : as'.translate w = some q) : p / pageSize ≠ q / pageSize := by
  obtain ⟨r, hr, -, hpr, hpt⟩ := h.translate hp
  obtain ⟨r', hr', -, hqr, hqt⟩ := h'.translate hq
  have hpages := hapart r hr r' hr'
  have halign' := (h' r' hr').paddr
  unfold Pages.Apart Pages.top at *
  unfold pageSize at *
  omega

theorem Addrspace.Wf.separate : Separate as.translate as'.translate := by
  intro v w p q hp hq he
  exact h.page_ne h' hapart hp hq (by rw [he])

end

/-- Regions that have no page in common have no page behind two addresses. -/
theorem Addrspace.Wf.oneToOne (h : as.Wf)
    (hapart : as.regions.Pairwise fun r r' => r.pages.Apart r'.pages) : OneToOne as.translate := by
  intro v w p hv hw
  obtain ⟨r, hr, hrv, hpr, hpt⟩ := h.translate hv
  obtain ⟨r', hr', hrw, hpr', hpt'⟩ := h.translate hw
  by_cases heq : r = r'
  · subst heq
    omega
  · have hsymm : Std.Symm fun r r' : Region => r.pages.Apart r'.pages := ⟨fun _ _ => Or.symm⟩
    have hpages : r.pages.Apart r'.pages := hapart.forall hr hr' heq
    unfold Pages.Apart at hpages
    omega

/-- The two regions are the same to their owners: they are at the same addresses, and hold the same
bytes. -/
structure SameRegion (m m' : Mem) (r r' : Region) : Prop where
  vbase : r'.vbase = r.vbase
  npages : r'.pages.npages = r.pages.npages
  bytes : ∀ k < r.pages.npages * pageSize, m' (r'.pages.paddr + k) = m (r.pages.paddr + k)

/-- The search finds nothing in either of two lists of such regions, or it finds two of them. -/
theorem pageAt_sameRegions {rs rs' : List Region} (h : List.Forall₂ (SameRegion m m') rs rs')
    (fa : Nat) :
    ((rs.findSome? fun r => r.pageAt fa) = none ∧ (rs'.findSome? fun r => r.pageAt fa) = none) ∨
    ∃ r ∈ rs, ∃ r' ∈ rs', SameRegion m m' r r' ∧ ∃ q q',
      r.pageAt fa = some q ∧ r'.pageAt fa = some q' ∧
      (rs.findSome? fun r => r.pageAt fa) = some q ∧
      (rs'.findSome? fun r => r.pageAt fa) = some q' := by
  induction h with
  | nil => exact .inl ⟨rfl, rfl⟩
  | @cons r r' rs rs' hregion _ ih =>
    have htop : r'.vtop = r.vtop := by
      unfold Region.vtop
      rw [hregion.vbase, hregion.npages]
    by_cases hcond : fa ≥ r.vbase ∧ fa < r.vtop
    · have hr : r.pageAt fa = some (u32 (fa - r.vbase + r.pages.paddr)) := if_pos hcond
      have hr' : r'.pageAt fa = some (u32 (fa - r'.vbase + r'.pages.paddr)) := by
        refine if_pos ?_
        rw [hregion.vbase, htop]
        exact hcond
      refine .inr ⟨r, mem_cons_self, r', mem_cons_self, hregion, _, _, hr, hr', ?_, ?_⟩
      · simp [hr]
      · simp [hr']
    · have hr : r.pageAt fa = none := if_neg hcond
      have hr' : r'.pageAt fa = none := by
        refine if_neg ?_
        rw [hregion.vbase, htop]
        exact hcond
      simp only [findSome?_cons, hr, hr']
      rcases ih with hnone | ⟨r₁, h1, r₂, h2, hfound⟩
      · exact .inl hnone
      · exact .inr ⟨r₁, mem_cons_of_mem _ h1, r₂, mem_cons_of_mem _ h2, hfound⟩

/-- **Address spaces with such regions are the same to their owners.** -/
theorem Addrspace.Wf.through_sameRegions (h : as.Wf) (h' : as'.Wf)
    (hregions : List.Forall₂ (SameRegion m m') as.regions as'.regions) :
    through as'.translate m' = through as.translate m := by
  funext v
  unfold through Addrspace.translate Addrspace.pageAt
  rcases pageAt_sameRegions hregions (v / pageSize * pageSize) with ⟨hn, hn'⟩ |
    ⟨r, hr, r', hr', hregion, q, q', hq, hq', hf, hf'⟩
  · rw [hn, hn']
    rfl
  · obtain ⟨hv, hbyte, htop⟩ := (h r hr).byte hq
    obtain ⟨-, hbyte', -⟩ := (h' r' hr').byte hq'
    rw [hf, hf', Option.map_some, Option.map_some, Option.map_some, Option.map_some, hbyte, hbyte',
      hregion.vbase, hregion.bytes]
    unfold Pages.top at htop
    omega

/-! ## 3. Setting up -/

theorem takePages_spec (npages : Nat) (s : Dumbvm) : Wp False (takePages npages)
      (fun p s' => s'.mem = s.mem ∧ s'.tlb = s.tlb ∧
        s'.grants = if p = 0 then s.grants else { paddr := p, npages } :: s.grants)
      (fun _ _ => False) s := by
  unfold takePages
  rw [wp_bind, wp_get, wp_bind, wp_modify, wp_pure]
  exact ⟨rfl, rfl, rfl⟩

theorem asTakeRegion_spec (npages : Nat) (set : Nat → Addrspace → Addrspace) (s : Dumbvm)
    (as : Addrspace) :
    Wp False (asTakeRegion npages set)
      (fun _ t => ∃ p, t.2 = set p as ∧ t.1.mem = s.mem ∧ t.1.tlb = s.tlb ∧
        t.1.grants = { paddr := p, npages } :: s.grants)
      (fun _ _ => True) (s, as) := by
  unfold asTakeRegion
  simp only [wp_bind, wp_onFst, wp_modify]
  refine (takePages_spec npages s).post_ok ?_
  rintro p s' ⟨hmem, htlb, hgrants⟩
  rw [wp_ite]
  refine ⟨fun _ => wp_fail.mpr True.intro, fun hp => wp_pure.mpr ⟨p, rfl, hmem, htlb, ?_⟩⟩
  rw [hgrants, if_neg hp]

/-- What `as_prepare_load` leaves: the regions have pages now, the latest grants, which are
cleared. -/
structure Prepared (s : Dumbvm) (as : Addrspace) (t : Dumbvm × Addrspace) : Prop where
  space : t.2 = { as with
    asPbase1 := t.2.asPbase1, asPbase2 := t.2.asPbase2, asStackpbase := t.2.asStackpbase }
  grants : t.1.grants = (t.2.regions.map Region.pages).reverse ++ s.grants
  mem : t.1.mem = s.mem.clearAll t.2.ranges
  tlb : t.1.tlb = s.tlb

theorem asPrepareLoad_spec (s : Dumbvm) (as : Addrspace) :
    Wp True asPrepareLoad (fun _ => Prepared s as) (fun _ _ => True) (s, as) := by
  unfold asPrepareLoad
  rw [wp_bind, wp_get, wp_bind, wp_assert]
  refine ⟨fun _ => ?_, fun _ => True.intro⟩
  refine ((asTakeRegion_spec _ _ s as).weaken).bind ?_
  rintro _ ⟨s₁, _⟩ ⟨p₁, rfl, hmem1, htlb1, hgrants1⟩
  refine ((asTakeRegion_spec _ _ s₁ _).weaken).bind ?_
  rintro _ ⟨s₂, _⟩ ⟨p₂, rfl, hmem2, htlb2, hgrants2⟩
  refine ((asTakeRegion_spec _ _ s₂ _).weaken).bind ?_
  rintro _ ⟨s₃, _⟩ ⟨p₃, rfl, hmem3, htlb3, hgrants3⟩
  unfold asZeroRegion
  simp only [wp_bind, wp_get, wp_modify]
  refine ⟨rfl, ?_, ?_, ?_⟩
  · rw [hgrants3, hgrants2, hgrants1]
    rfl
  · rw [hmem3, hmem2, hmem1]
    rfl
  · rw [htlb3, htlb2, htlb1]

/-- The regions start at page boundaries. -/
structure Addrspace.Rounded (as : Addrspace) : Prop where
  vbase1 : as.asVbase1 % pageSize = 0
  vbase2 : as.asVbase2 % pageSize = 0

/-- The address space with one region more, if there is room for it. -/
def Addrspace.define (as : Addrspace) (vaddr sz : Nat) : Addrspace :=
  if as.asVbase1 = 0 then
    { as with asVbase1 := vaddr / pageSize * pageSize, asNpages1 := regionPages vaddr sz }
  else { as with asVbase2 := vaddr / pageSize * pageSize, asNpages2 := regionPages vaddr sz }

theorem Addrspace.Rounded.define (h : as.Rounded) (vaddr sz : Nat) :
    (as.define vaddr sz).Rounded := by
  unfold Addrspace.define
  split_ifs
  · exact ⟨Nat.mul_mod_left _ _, h.vbase2⟩
  · exact ⟨h.vbase1, Nat.mul_mod_left _ _⟩

theorem asDefineRegion_spec (vaddr sz : Nat) (s : Dumbvm) (as : Addrspace) :
    Wp False (asDefineRegion vaddr sz) (fun _ t => t = (s, as.define vaddr sz))
      (fun _ t => t = (s, as)) (s, as) := by
  unfold asDefineRegion define
  rw [wp_bind, wp_get, wp_ite, wp_ite]
  refine ⟨fun h1 => wp_modify.mpr ?_, fun h1 => ⟨fun _ => wp_modify.mpr ?_, fun _ =>
    wp_fail.mpr rfl⟩⟩
  · rw [if_pos h1]
  · rw [if_neg h1]

/-- What an address space that has been set up looks like: it starts at page boundaries, and its
pages have been handed out. -/
theorem asSetUp_spec (defs : List (Nat × Nat)) (s : Dumbvm) : Wp True (asSetUp defs)
      (fun _ t => t.2.Rounded ∧ t.1.grants = (t.2.regions.map Region.pages).reverse ++ s.grants)
      (fun _ _ => True) (s, .empty) := by
  have hloop : Wp True (forEach (fun d => do
      let _ ← attempt (asDefineRegion d.1 d.2)
      pure ()) defs) (fun _ t => t.1 = s ∧ t.2.Rounded) (fun _ _ => True) (s, empty) := by
    refine wp_forEach (fun _ (t : Dumbvm × Addrspace) => t.1 = s ∧ t.2.Rounded) ?_ defs _
      ⟨rfl, rfl, rfl⟩
    rintro d _ ⟨_, as⟩ ⟨rfl, has⟩
    rw [wp_bind, wp_attempt]
    refine (asDefineRegion_spec d.1 d.2 _ as).weaken.imp ?_ ?_
    · rintro _ _ rfl
      exact wp_pure.mpr ⟨rfl, has.define d.1 d.2⟩
    · rintro _ _ rfl
      exact wp_pure.mpr ⟨rfl, has⟩
  refine hloop.bind ?_
  rintro _ ⟨_, as⟩ ⟨rfl, has⟩
  refine (asPrepareLoad_spec _ as).bind ?_
  rintro _ ⟨s', as'⟩ hprep
  unfold asDefineStack
  rw [wp_bind, wp_get, wp_bind, wp_assert]
  refine ⟨fun _ => wp_pure.mpr ⟨?_, hprep.grants⟩, fun _ => True.intro⟩
  have hspace := hprep.space
  exact hspace ▸ ⟨has.vbase1, has.vbase2⟩

/-! ## 4. `as_copy` -/

theorem kmallocSmall_spec (way : KmallocWay) (s : Dumbvm) : Wp False (kmallocSmall way)
      (fun _ s' => s'.mem = s.mem ∧ s'.tlb = s.tlb ∧ s.grants <:+ s'.grants)
      (fun _ _ => False) s := by
  have htaken : Wp False (takePages 1)
      (fun _ s' => s'.mem = s.mem ∧ s'.tlb = s.tlb ∧ s.grants <:+ s'.grants)
      (fun _ _ => False) s := by
    refine (takePages_spec 1 s).post ?_
    rintro p s' ⟨hmem, htlb, hgrants⟩
    refine ⟨hmem, htlb, ?_⟩
    rw [hgrants]
    split_ifs
    · exact suffix_rfl
    · exact suffix_cons _ _
  cases way with
  | block => exact wp_pure.mpr ⟨rfl, rfl, suffix_rfl⟩
  | page => exact wp_bind.mpr (htaken.post fun _ _ h => wp_pure.mpr h)
  | noPageref => exact wp_bind.mpr (htaken.post fun _ _ h => wp_pure.mpr h)

theorem asCreate_spec (way : KmallocWay) (s : Dumbvm) : Wp False (asCreate way)
      (fun r s' => s'.mem = s.mem ∧ s.grants <:+ s'.grants ∧ ∀ as, r = some as → as = .empty)
      (fun _ _ => False) s := by
  refine (kmallocSmall_spec way s).bind ?_
  rintro ok s' ⟨hmem, -, hgrants⟩
  refine wp_pure.mpr ⟨hmem, hgrants, fun as has => ?_⟩
  split_ifs at has
  cases has
  rfl

/-- The copies that `as_copy` makes. -/
def copies (old new : Addrspace) : List (Nat × Nat × Nat) :=
  (old.regions.zip new.regions).map fun p =>
    (p.2.pages.paddr, p.1.pages.paddr, u32 (p.1.pages.npages * pageSize))

/-- What `as_copy` leaves: an address space with the same virtual pages, whose physical pages are
the latest grants, and in those the contents of the old ones. -/
structure CopyMade (old : Addrspace) (s : Dumbvm) (new : Addrspace) (s' : Dumbvm) : Prop where
  space : new = { old with
    asPbase1 := new.asPbase1, asPbase2 := new.asPbase2, asStackpbase := new.asStackpbase }
  grants : ∃ gs, s.grants <:+ gs ∧ s'.grants = (new.regions.map Region.pages).reverse ++ gs
  mem : s'.mem = (s.mem.clearAll new.ranges).moveAll (copies old new)

theorem asCopy_spec (old : Addrspace) (way : KmallocWay) (s : Dumbvm) :
    Wp True (asCopy old way) (CopyMade old s) (fun _ _ => True) s := by
  refine ((asCreate_spec way s).weaken).bind_ok ?_
  rintro r s₁ ⟨hmem, hgrants, hr⟩
  cases r with
  | none => exact wp_fail.mpr True.intro
  | some new =>
    obtain rfl := hr new rfl
    unfold asCopyInto
    rw [wp_bind, wp_attempt, wp_withLocal]
    refine (asPrepareLoad_spec s₁ _).imp ?_ fun _ _ _ => wp_fail.mpr True.intro
    rintro _ ⟨s₂, new⟩ hprep
    unfold copyPages
    simp only [wp_bind, wp_assert, wp_modify, wp_pure]
    refine ⟨fun _ => ⟨hprep.space, ⟨s₁.grants, hgrants, hprep.grants⟩, ?_⟩, fun _ => True.intro⟩
    rw [hprep.mem, hmem]
    rfl

/-- **What `getppages` is assumed to do**: it hands out pages of the memory, and no page twice. -/
structure Fresh (grants : List Pages) : Prop where
  apart : grants.Pairwise Pages.Apart
  aligned : ∀ g ∈ grants, g.paddr % pageSize = 0
  inside : ∀ g ∈ grants, g.top ≤ ramMax

theorem Addrspace.Rounded.wf (h : as.Rounded) (hfresh : Fresh grants)
    (hin : ∀ r ∈ as.regions, r.pages ∈ grants) : as.Wf := by
  have hstack : (userstack - dumbvmStackpages * pageSize) % pageSize = 0 := by decide
  intro r hr
  refine ⟨?_, hfresh.aligned _ (hin r hr), hfresh.inside _ (hin r hr)⟩
  simp only [regions, mem_cons, not_mem_nil, or_false] at hr
  rcases hr with rfl | rfl | rfl
  · exact h.vbase1
  · exact h.vbase2
  · exact hstack

theorem Fresh.u32_size (h : Fresh grants) {g : Pages} (hg : g ∈ grants) :
    u32 (g.npages * pageSize) = g.npages * pageSize := by
  have hin := h.inside g hg
  unfold Pages.top ramMax at hin
  exact u32_of_lt (by omega)

section Copy

variable {old new : Addrspace} {s s' : Dumbvm} {r : Region}

section

variable (h : CopyMade old s new s')

include h

theorem CopyMade.mem_grants (hr : r ∈ new.regions) : r.pages ∈ s'.grants := by
  obtain ⟨gs, -, hgrants⟩ := h.grants
  rw [hgrants]
  exact mem_append_left _ (mem_reverse.mpr (mem_map_of_mem hr))

theorem CopyMade.grants_subset : s.grants ⊆ s'.grants := by
  obtain ⟨gs, hgs, hgrants⟩ := h.grants
  rw [hgrants]
  exact fun _ hg => mem_append_right _ (hgs.subset hg)

/-- The new pages are apart from all that had been handed out before, ... -/
theorem CopyMade.apart_old (hfresh : Fresh s'.grants)
    (hr : r ∈ new.regions) {g : Pages} (hg : g ∈ s.grants) : r.pages.Apart g := by
  obtain ⟨gs, hgs, hgrants⟩ := h.grants
  have hpair := hfresh.apart
  rw [hgrants] at hpair
  exact (pairwise_append.mp hpair).2.2 _ (mem_reverse.mpr (mem_map_of_mem hr)) _ (hgs.subset hg)

/-- ... and from each other. -/
theorem CopyMade.apart_new (hfresh : Fresh s'.grants) :
    new.regions.Pairwise fun r r' => r'.pages.Apart r.pages := by
  obtain ⟨gs, -, hgrants⟩ := h.grants
  have hpair := hfresh.apart
  rw [hgrants] at hpair
  exact pairwise_map.mp (pairwise_reverse.mp (pairwise_append.mp hpair).1)

theorem CopyMade.same : ∀ p ∈ old.regions.zip new.regions,
    p.2.vbase = p.1.vbase ∧ p.2.pages.npages = p.1.pages.npages := by
  obtain ⟨b₁, b₂, b₃, rfl⟩ : ∃ b₁ b₂ b₃, new = { old with
      asPbase1 := b₁, asPbase2 := b₂, asStackpbase := b₃ } := ⟨_, _, _, h.space⟩
  simp [regions]

end

variable (h : CopyMade old s new s') (hold : ∀ r ∈ old.regions, r.pages ∈ s.grants)
  (hfresh : Fresh s'.grants)
include h hold hfresh

theorem CopyMade.moveAll (m : Mem) : ∀ p ∈ old.regions.zip new.regions,
    ∀ k < p.1.pages.npages * pageSize,
      m.moveAll (copies old new) (p.2.pages.paddr + k) = m (p.1.pages.paddr + k) := by
  have hsize : ∀ p ∈ old.regions.zip new.regions,
      u32 (p.1.pages.npages * pageSize) = p.1.pages.npages * pageSize := fun p hp =>
    hfresh.u32_size (h.grants_subset (hold p.1 (of_mem_zip hp).1))
  have hzip : (old.regions.zip new.regions).Pairwise fun p p' => p'.2.pages.Apart p.2.pages := by
    have hnew := h.apart_new hfresh
    rw [pairwise_iff_getElem] at hnew ⊢
    intro i j hi hj hij
    simp only [getElem_zip]
    exact hnew i j _ _ hij
  intro p hp k hk
  refine Mem.moveAll_add (pairwise_map.mpr ?_) ?_ (mem_map_of_mem hp) ?_
  · refine hzip.imp_of_mem fun {q q'} hq hq' hapart => ?_
    rw [hsize q hq, hsize q' hq', ← (h.same q hq).2, ← (h.same q' hq').2]
    exact hapart.symm
  · simp only [forall_mem_map]
    intro q hq q' hq'
    rw [hsize q' hq', hsize q hq, ← (h.same q' hq').2]
    exact (h.apart_old hfresh (of_mem_zip hq').2 (hold _ (of_mem_zip hq).1)).symm
  · rw [hsize p hp]
    exact hk

theorem CopyMade.mem_old (hr : r ∈ old.regions) {a : Nat} (hlo : r.pages.paddr ≤ a)
    (hhi : a < r.pages.top) : s.mem.clearAll new.ranges a = s.mem a ∧ s'.mem a = s.mem a := by
  have hout : ∀ r' ∈ new.regions, a < r'.pages.paddr ∨ r'.pages.top ≤ a := by
    intro r' hr'
    have hapart := h.apart_old hfresh hr' (hold r hr)
    unfold Pages.Apart at hapart
    omega
  have hclear : s.mem.clearAll new.ranges a = s.mem a := by
    refine Mem.clearAll_of_outside ?_
    simp only [Addrspace.ranges, forall_mem_map]
    intro r' hr'
    rw [hfresh.u32_size (h.mem_grants hr')]
    exact hout r' hr'
  refine ⟨hclear, ?_⟩
  rw [h.mem, ← hclear]
  refine Mem.moveAll_of_outside ?_
  simp only [copies, forall_mem_map]
  intro p hp
  rw [hfresh.u32_size (h.grants_subset (hold p.1 (of_mem_zip hp).1)), ← (h.same p hp).2]
  exact hout p.2 (of_mem_zip hp).2

theorem CopyMade.sameRegions : List.Forall₂ (SameRegion s.mem s'.mem) old.regions new.regions := by
  rw [forall₂_iff_zip]
  refine ⟨rfl, fun {r r'} hrr => ⟨(h.same _ hrr).1, (h.same _ hrr).2, fun k hk => ?_⟩⟩
  rw [h.mem]
  refine (h.moveAll hold hfresh _ (r, r') hrr k hk).trans ?_
  refine (h.mem_old hold hfresh (of_mem_zip hrr).1 (Nat.le_add_right _ _) ?_).1
  exact Nat.add_lt_add_left hk _

end Copy

/-- **What `fork` needs of `as_copy`.**  The new address space translates the same addresses as the
old one, and shows the bytes that the old one had; nothing changes in the old one; they reach no
page in common; and whatever is written through the one, at any time, is not seen through the
other. -/
structure Forked (old new : Addrspace) (m m' : Mem) : Prop where
  translated : ∀ v, (new.translate v).isSome ↔ (old.translate v).isSome
  bytes : ∀ v, through new.translate m' v = through old.translate m v
  kept : ∀ v, through old.translate m' v = through old.translate m v
  pages : ∀ v w p q, old.translate v = some p → new.translate w = some q →
    p / pageSize ≠ q / pageSize
  parent : ∀ (mem : Mem) (writes : List (Nat × Byte)),
    through new.translate (writeAllThrough old.translate writes mem) = through new.translate mem
  child : ∀ (mem : Mem) (writes : List (Nat × Byte)),
    through old.translate (writeAllThrough new.translate writes mem) = through old.translate mem

/-- **`as_copy` copies memory and separates it**, for every address space that has been set up, no
matter what has been handed out and written since. -/
theorem as_copy_forks {defs : List (Nat × Nat)} {s₀ s₁ s₂ s₃ : Dumbvm} {old new : Addrspace}
    {stackptr : Nat} {way : KmallocWay}
    (hsetup : asSetUp defs (s₀, .empty) = some (.ok stackptr, s₁, old))
    (hsince : s₁.grants <:+ s₂.grants) (hcopy : asCopy old way s₂ = some (.ok new, s₃))
    (hfresh : Fresh s₃.grants) : Forked old new s₂.mem s₃.mem := by
  obtain ⟨hround, hgrants⟩ := (asSetUp_spec defs s₀).of_ok hsetup
  have hmade : CopyMade old s₂ new s₃ := (asCopy_spec old way s₂).of_ok hcopy
  have hold : ∀ r ∈ old.regions, r.pages ∈ s₂.grants := by
    intro r hr
    refine hsince.subset ?_
    rw [hgrants]
    exact mem_append_left _ (mem_reverse.mpr (mem_map_of_mem hr))
  have hround' : new.Rounded := hmade.space ▸ ⟨hround.vbase1, hround.vbase2⟩
  have hwf : old.Wf := hround.wf hfresh fun r hr => hmade.grants_subset (hold r hr)
  have hwf' : new.Wf := hround'.wf hfresh fun r hr => hmade.mem_grants hr
  have hapart : ∀ r ∈ old.regions, ∀ r' ∈ new.regions, r.pages.Apart r'.pages :=
    fun r hr r' hr' => (hmade.apart_old hfresh hr' (hold r hr)).symm
  have hbytes := hwf.through_sameRegions hwf' (hmade.sameRegions hold hfresh)
  have hseparate := hwf.separate hwf' hapart
  refine ⟨fun v => ?_, fun v => congrFun hbytes v, fun v => ?_, fun v w p q hp hq =>
    hwf.page_ne hwf' hapart hp hq, fun mem writes => hseparate.symm.through_writeAllThrough writes,
    fun mem writes => hseparate.through_writeAllThrough writes⟩
  · have hv := congrArg Option.isSome (congrFun hbytes v)
    simp only [through, Option.isSome_map] at hv
    rw [hv]
  · refine congrFun (through_congr fun w p hp => ?_) v
    obtain ⟨r, hr, -, hpr, htop⟩ := hwf.translate hp
    exact (hmade.mem_old hold hfresh hr (by omega) htop).2

/-- A small machine at boot. -/
def smallMachine : Dumbvm := { mem := fun _ => 0, tlb := [], ram := smallRam, grants := [] }

/-- The address space of a program with three pages of text and one of data. -/
def smallSpace : Addrspace :=
  { asVbase1 := 0x400000, asPbase1 := 0x40000, asNpages1 := 3
    asVbase2 := 0x10000000, asPbase2 := 0x43000, asNpages2 := 1, asStackpbase := 0x44000 }

/-- The machine when it runs, with something in its memory. -/
def smallRunning : Dumbvm :=
  { mem := fun a => BitVec.ofNat 8 a, tlb := [],
    ram := { firstpaddr := 0x50000, lastpaddr := 0x400000 }
    grants := [⟨0x44000, 12⟩, ⟨0x43000, 1⟩, ⟨0x40000, 3⟩] }

/-- It is set up and forks. -/
theorem as_copy_forks_small : ∃ (s₁ s₃ : Dumbvm) (new : Addrspace),
    asSetUp [(0x400000, 9000), (0x10000000, 100)] (smallMachine, .empty) =
      some (.ok userstack, s₁, smallSpace) ∧
    asCopy smallSpace .page smallRunning = some (.ok new, s₃) ∧
    Forked smallSpace new smallRunning.mem s₃.mem ∧
    smallSpace.translate 0x10000001 = some 0x43001 ∧
    new.translate 0x10000001 = some 0x54001 := by
  obtain ⟨⟨s₁, old⟩, hsetup, hold⟩ := Prog.exists_of_map (f := fun t => (t.1.grants, t.2))
    (r := .ok userstack) (b := (smallRunning.grants, smallSpace))
    (m := asSetUp [(0x400000, 9000), (0x10000000, 100)]) (s := (smallMachine, .empty))
    (by decide +kernel)
  obtain ⟨s₃, hcopy, hgrants⟩ := Prog.exists_of_map (f := Dumbvm.grants) (r := .ok
      { smallSpace with asPbase1 := 0x51000, asPbase2 := 0x54000, asStackpbase := 0x55000 })
    (b := [⟨0x55000, 12⟩, ⟨0x54000, 1⟩, ⟨0x51000, 3⟩, ⟨0x50000, 1⟩] ++ smallRunning.grants)
    (m := asCopy smallSpace .page) (s := smallRunning) (by decide +kernel)
  obtain ⟨hsame, rfl⟩ := Prod.ext_iff.mp hold
  have hsince : s₁.grants <:+ smallRunning.grants := ⟨[], hsame⟩
  have hfresh : Fresh s₃.grants := hgrants ▸ ⟨by decide, by decide, by decide⟩
  exact ⟨s₁, s₃, _, hsetup, hcopy, as_copy_forks hsetup hsince hcopy hfresh, by decide, by decide⟩

/-! ## 5. What a region covers -/

/-- The pages from `vbase` on are the smallest run of pages that covers `sz` bytes at `vaddr`, and
lie in user space. -/
structure CoversExactly (vaddr sz vbase npages : Nat) : Prop where
  aligned : vbase % pageSize = 0
  user : vbase + npages * pageSize ≤ userstack
  from_le : vbase ≤ vaddr
  le_to : vaddr + sz ≤ vbase + npages * pageSize
  least : ∀ b n, b % pageSize = 0 → b ≤ vaddr → vaddr + sz ≤ b + n * pageSize →
    b ≤ vbase ∧ vbase + npages * pageSize ≤ b + n * pageSize

/-- The runs of pages that are not empty. -/
def notEmpty (rs : List (Nat × Nat)) : List (Nat × Nat) := rs.filter fun r => r.2 ≠ 0

/-- The regions that have been defined. -/
def Addrspace.defined (as : Addrspace) : List (Nat × Nat) :=
  notEmpty [(as.asVbase1, as.asNpages1), (as.asVbase2, as.asNpages2)]

/-- If `as_define_region` returns 0, there is one region more, and it covers what was asked for. -/
def DefinesRegion (vaddr sz : Nat) (t : Dumbvm × Addrspace) : Prop :=
  Wp False (asDefineRegion vaddr sz) (fun _ t' => ∃ r : Nat × Nat, CoversExactly vaddr sz r.1 r.2 ∧
      t'.2.defined.Perm (notEmpty [r] ++ t.2.defined))
    (fun _ _ => True) t

/-- The number of pages in the place that `as_define_region` takes for the next region. -/
def Addrspace.nextNpages (as : Addrspace) : Nat :=
  if as.asVbase1 = 0 then as.asNpages1 else as.asNpages2

theorem coversExactly_iff :
    CoversExactly vaddr sz (vaddr / pageSize * pageSize) (regionPages vaddr sz) ↔
      vaddr + sz ≤ userstack := by
  constructor
  · intro h
    exact h.le_to.trans h.user
  · intro htop
    have hpages : regionPages vaddr sz = (sz + vaddr % pageSize + pageSize - 1) / pageSize := by
      unfold regionPages u32 pageSize userstack at *
      omega
    rw [hpages]
    have hstack : userstack = 2147483648 := rfl
    constructor <;> unfold pageSize <;> intros <;> omega

theorem CoversExactly.unique {vbase npages vbase' npages' : Nat}
    (h : CoversExactly vaddr sz vbase npages) (h' : CoversExactly vaddr sz vbase' npages') :
    (vbase, npages) = (vbase', npages') := by
  have hle := h.least _ _ h'.aligned h'.from_le h'.le_to
  have hge := h'.least _ _ h.aligned h.from_le h.le_to
  unfold pageSize at hle hge
  rw [Prod.mk.injEq]
  omega

theorem notEmpty_cons (r : Nat × Nat) (rs : List (Nat × Nat)) :
    notEmpty (r :: rs) = notEmpty [r] ++ notEmpty rs := filter_append [r] rs

theorem length_notEmpty_singleton (r : Nat × Nat) :
    (notEmpty [r]).length = if r.2 = 0 then 0 else 1 := by
  by_cases h : r.2 = 0 <;> simp [notEmpty, h]

/-- There is a region more only if none was recorded where it goes. -/
theorem Addrspace.defined_define (as : Addrspace) (vaddr sz : Nat) :
    (as.define vaddr sz).defined.Perm
        (notEmpty [(vaddr / pageSize * pageSize, regionPages vaddr sz)] ++ as.defined) ↔
      as.nextNpages = 0 := by
  unfold define nextNpages defined
  constructor
  · intro hperm
    have hlen := hperm.length_eq
    split_ifs at hlen ⊢ <;>
      simp only [notEmpty_cons _ [_], length_append, length_notEmpty_singleton] at hlen <;>
      split_ifs at hlen <;> omega
  · intro hfree
    split_ifs at hfree ⊢ with h
    · simp only [notEmpty_cons _ [_], hfree]
      exact List.Perm.refl _
    · simp only [notEmpty_cons _ [_], hfree]
      exact perm_append_comm.trans (by simp [notEmpty])

/-- **When a region is as asked for**: it is refused, or it ends in user space and the place for it
is free. -/
theorem defines_region_iff (vaddr sz : Nat) (s : Dumbvm) (as : Addrspace) :
    DefinesRegion vaddr sz (s, as) ↔ as.asVbase1 ≠ 0 ∧ as.asVbase2 ≠ 0 ∨
      vaddr + sz ≤ userstack ∧ as.nextNpages = 0 := by
  by_cases hfull : as.asVbase1 ≠ 0 ∧ as.asVbase2 ≠ 0
  · refine iff_of_true ?_ (.inl hfull)
    rw [DefinesRegion, asDefineRegion, wp_bind, wp_get, if_neg hfull.1, if_neg hfull.2, wp_fail]
    exact True.intro
  · rw [or_iff_right hfull]
    have hwp : DefinesRegion vaddr sz (s, as) ↔ ∃ r : Nat × Nat, CoversExactly vaddr sz r.1 r.2 ∧
        (as.define vaddr sz).defined.Perm (notEmpty [r] ++ as.defined) := by
      rw [DefinesRegion, asDefineRegion, wp_bind, wp_get, Addrspace.define]
      by_cases h1 : as.asVbase1 = 0
      · rw [if_pos h1, if_pos h1, wp_modify]
      · rw [if_neg h1, if_pos (by tauto), if_neg h1, wp_modify]
    rw [hwp]
    constructor
    · rintro ⟨⟨vbase, npages⟩, hr, hperm⟩
      have htop := hr.le_to.trans hr.user
      obtain ⟨⟩ := hr.unique (coversExactly_iff.mpr htop)
      exact ⟨htop, (as.defined_define vaddr sz).mp hperm⟩
    · rintro ⟨htop, hfree⟩
      exact ⟨_, coversExactly_iff.mpr htop, (as.defined_define vaddr sz).mpr hfree⟩

/-- A size that wraps is accepted, and a region in page 0 is replaced. -/
theorem regions_not_as_asked : ¬ DefinesRegion 0x400000 0xffffffff (smallMachine, .empty) ∧
    ¬ DefinesRegion 0x400000 0x1000 (smallMachine, Addrspace.empty.define 0x10 0x1000) := by
  constructor
  · intro h
    obtain ⟨r, hr, -⟩ := h.of_ok rfl
    exact absurd (hr.le_to.trans hr.user) (by decide)
  · intro h
    obtain ⟨r, -, hperm⟩ := h.of_ok rfl
    have hmem : (0, 2) ∈ [(0x400000, 1)] := hperm.mem_iff.mpr (mem_append_right _ (by decide))
    exact absurd hmem (by decide)

end Os161
