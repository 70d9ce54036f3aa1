/-
# Physical memory: `ram_stealmem` and the page counts it is asked for

`ram_stealmem` hands out physical pages from the front of what is left, and never takes them back.
The kernel heap comes to it through `alloc_kpages` with the page count that `kmalloc` makes of a
size, and an address space through `as_prepare_load` with the page counts that `as_define_region`
makes of the sizes in a program header.

All of this is 32-bit arithmetic, the bound check included: `firstpaddr + size > lastpaddr` is
FALSE when the sum wraps.  A request that is too large by far is then granted, and `firstpaddr`
moves BACK over pages that are in use.  Both callers can ask for so much: a page count goes up to
`0xfffff`.  Short of a wrap all is well, and a wrap never goes well (`pages_handed_out_once`).
-/
import Os161.Kmalloc

namespace Os161

open List

/-! ## 1. The functions -/

/-- `firstpaddr` and `lastpaddr`. -/
structure Ram where
  firstpaddr : Nat
  lastpaddr : Nat
  deriving DecidableEq, Repr

/-- `MIPS_KSEG0`. -/
abbrev mipsKseg0 : Nat := 0x80000000

/-- What `ram_bootstrap` cuts the memory size down to. -/
abbrev ramMax : Nat := 508 * 1024 * 1024

/-- `ram_bootstrap`, for what `mainbus_ramsize` returns and what `start.S` left in `firstfree`. -/
def ramBootstrap (ramsize firstfree : Nat) : Ram :=
  { firstpaddr := u32 (firstfree + (4294967296 - mipsKseg0))
    lastpaddr := min ramsize ramMax }

/-- `ram_stealmem`. -/
def ramStealmem (npages : Nat) (ram : Ram) : Nat × Ram :=
  let size := u32 (npages * pageSize)
  if u32 (ram.firstpaddr + size) > ram.lastpaddr then (0, ram)
  else (ram.firstpaddr, { ram with firstpaddr := u32 (ram.firstpaddr + size) })

/-- `getppages`, which is `ram_stealmem` under a spinlock. -/
def getppages (npages : Nat) (ram : Ram) : Nat × Ram := ramStealmem npages ram

/-- `npages` in `as_define_region`: the size counts from the start of the first page. -/
def regionPages (vaddr sz : Nat) : Nat :=
  u32 (u32 (sz + vaddr % pageSize) + pageSize - 1) / pageSize

/-- `DUMBVM_STACKPAGES`. -/
abbrev dumbvmStackpages : Nat := 12

/-! ## 2. Requests -/

/-- Where a request for pages comes from. -/
inductive PageRequest
  /-- `kmalloc` of a size that is too large for a block. -/
  | kmalloc (sz : Nat)
  /-- `subpage_kmalloc` when it needs a page to cut up. -/
  | heapPage
  /-- `as_prepare_load`, for a region defined with these arguments. -/
  | region (vaddr sz : Nat)
  /-- `as_prepare_load`, for the stack. -/
  | stack
  deriving DecidableEq, Repr

/-- The page count that reaches `getppages`. -/
def PageRequest.npages : PageRequest → Nat
  | .kmalloc sz => kmallocPages sz
  | .heapPage => 1
  | .region vaddr sz => regionPages vaddr sz
  | .stack => dumbvmStackpages

/-- A range of pages. -/
structure Pages where
  paddr : Nat
  npages : Nat
  deriving DecidableEq, Repr

/-- One past the last byte. -/
def Pages.top (g : Pages) : Nat := g.paddr + g.npages * pageSize

/-- The two ranges have no byte in common. -/
def Pages.Apart (g g' : Pages) : Prop := g.top ≤ g'.paddr ∨ g'.top ≤ g.paddr

instance (g g' : Pages) : Decidable (g.Apart g') := inferInstanceAs (Decidable (_ ∨ _))

/-- The memory after a request. -/
def Ram.after (ram : Ram) (r : PageRequest) : Ram := (getppages r.npages ram).2

/-- What a request is granted; 0 says that it failed. -/
def Ram.grant (ram : Ram) (r : PageRequest) : List Pages :=
  if (getppages r.npages ram).1 = 0 then [] else [⟨(getppages r.npages ram).1, r.npages⟩]

/-- The ranges that a sequence of requests is granted. -/
def Ram.granted (ram : Ram) : List PageRequest → List Pages
  | [] => []
  | r :: rs => ram.grant r ++ (ram.after r).granted rs

/-- The values that `firstpaddr` goes through. -/
def Ram.trail (ram : Ram) : List PageRequest → List Nat
  | [] => [ram.firstpaddr]
  | r :: rs => ram.firstpaddr :: (ram.after r).trail rs

/-- **Physical pages are handed out once.** -/
structure HandedOutOnce (ram : Ram) (reqs : List PageRequest) : Prop where
  inside : ∀ g ∈ ram.granted reqs, g.top ≤ ram.lastpaddr
  apart : (ram.granted reqs).Pairwise Pages.Apart
  forward : (ram.trail reqs).Pairwise (· ≤ ·)

/-- No request reaches past the end of the 32-bit address space, from where `firstpaddr` stands when
it comes. -/
def NoWrap (ram : Ram) : List PageRequest → Prop
  | [] => True
  | r :: rs => ram.firstpaddr + r.npages * pageSize < 4294967296 ∧ NoWrap (ram.after r) rs

instance decidableNoWrap : (ram : Ram) → (reqs : List PageRequest) → Decidable (NoWrap ram reqs)
  | _, [] => isTrue True.intro
  | ram, r :: rs => @instDecidableAnd _ _ _ (decidableNoWrap (ram.after r) rs)

/-- The memory as it is found at boot: something free, and below the limit of `ram_bootstrap`. -/
structure Ram.Booted (ram : Ram) : Prop where
  pos : 0 < ram.firstpaddr
  le : ram.firstpaddr ≤ ram.lastpaddr
  max : ram.lastpaddr ≤ ramMax

theorem ramBootstrap_booted {ramsize firstfree : Nat} (hlow : mipsKseg0 < firstfree)
    (hfree : firstfree - mipsKseg0 ≤ min ramsize ramMax) :
    (ramBootstrap ramsize firstfree).Booted := by
  have hfirst : u32 (firstfree + (4294967296 - mipsKseg0)) = firstfree - mipsKseg0 := by
    unfold u32 mipsKseg0 ramMax at *
    omega
  refine ⟨?_, ?_, Nat.min_le_right _ _⟩
  · simp only [ramBootstrap, hfirst]
    omega
  · simpa only [ramBootstrap, hfirst] using hfree

/-! ## 3. One request -/

/-- No page count comes near what a 32-bit size in pages cannot hold. -/
theorem PageRequest.npages_lt (r : PageRequest) : r.npages < 1048576 := by
  cases r with
  | kmalloc sz =>
    simp only [npages, kmallocPages, u32, pageSize]
    omega
  | heapPage => decide
  | region vaddr sz =>
    simp only [npages, regionPages, u32, pageSize]
    omega
  | stack => decide

variable {ram : Ram} {n : Nat} {r : PageRequest} {g : Pages} {reqs : List PageRequest}

/-- **A request that does not wrap** is granted the front of what is left, if that suffices. -/
theorem getppages_of_noWrap (hwrap : ram.firstpaddr + n * pageSize < 4294967296) :
    getppages n ram = if ram.firstpaddr + n * pageSize > ram.lastpaddr then (0, ram)
      else (ram.firstpaddr, { ram with firstpaddr := ram.firstpaddr + n * pageSize }) := by
  have hsize : u32 (n * pageSize) = n * pageSize := u32_of_lt (by omega)
  simp only [getppages, ramStealmem, hsize, u32_of_lt hwrap]

section

variable (h : ram.Booted)

include h

/-- **A request that wraps** is granted, although it ends far behind the memory. -/
theorem Ram.Booted.getppages_of_wrap (hn : n < 1048576)
    (hwrap : ¬ ram.firstpaddr + n * pageSize < 4294967296) :
    (getppages n ram).1 = ram.firstpaddr := by
  have hle := h.le
  have hmax := h.max
  have hsize : u32 (n * pageSize) = n * pageSize := u32_of_lt (by unfold pageSize; omega)
  simp only [getppages, ramStealmem, hsize]
  rw [if_neg]
  unfold u32 ramMax pageSize at *
  omega

theorem Ram.Booted.after (hwrap : ram.firstpaddr + r.npages * pageSize < 4294967296) :
    (ram.after r).Booted ∧ ram.firstpaddr ≤ (ram.after r).firstpaddr ∧
      (ram.after r).lastpaddr = ram.lastpaddr := by
  unfold Ram.after
  rw [getppages_of_noWrap hwrap]
  split_ifs with hfull
  · exact ⟨h, Nat.le_refl _, rfl⟩
  · exact ⟨⟨Nat.lt_of_lt_of_le h.pos (Nat.le_add_right _ _), Nat.le_of_not_lt hfull, h.max⟩,
      Nat.le_add_right _ _, rfl⟩

/-- What a request that does not wrap is granted lies between the old `firstpaddr` and the new one,
which is in the memory. -/
theorem Ram.Booted.grant
    (hwrap : ram.firstpaddr + r.npages * pageSize < 4294967296) (hg : g ∈ ram.grant r) :
    g.paddr = ram.firstpaddr ∧ g.top = (ram.after r).firstpaddr := by
  unfold Ram.grant at hg
  unfold Ram.after
  rw [getppages_of_noWrap hwrap] at *
  by_cases hfull : ram.firstpaddr + r.npages * pageSize > ram.lastpaddr
  · rw [if_pos hfull] at hg
    exact absurd hg (by simp)
  · rw [if_neg hfull] at hg ⊢
    rw [if_neg h.pos.ne'] at hg
    cases mem_singleton.mp hg
    exact ⟨rfl, rfl⟩

/-! ## 4. Any sequence of requests -/

theorem Ram.Booted.le_paddr (hwrap : NoWrap ram reqs) (hg : g ∈ ram.granted reqs) :
    ram.firstpaddr ≤ g.paddr := by
  induction reqs generalizing ram with
  | nil => exact absurd hg (by simp [Ram.granted])
  | cons r rs ih =>
    obtain ⟨hbooted, hle, -⟩ := h.after hwrap.1
    rcases mem_append.mp hg with hg | hg
    · exact (h.grant hwrap.1 hg).1.ge
    · exact hle.trans (ih hbooted hwrap.2 hg)

theorem Ram.Booted.le_trail (hwrap : NoWrap ram reqs) {a : Nat}
    (ha : a ∈ ram.trail reqs) : ram.firstpaddr ≤ a := by
  induction reqs generalizing ram with
  | nil => exact (mem_singleton.mp ha).ge
  | cons r rs ih =>
    obtain ⟨hbooted, hle, -⟩ := h.after hwrap.1
    rcases mem_cons.mp ha with ha | ha
    · exact ha.ge
    · exact hle.trans (ih hbooted hwrap.2 ha)

theorem Ram.Booted.handedOutOnce (hwrap : NoWrap ram reqs) : HandedOutOnce ram reqs := by
  induction reqs generalizing ram with
  | nil => exact ⟨by simp [Ram.granted], by simp [Ram.granted], by simp [Ram.trail]⟩
  | cons r rs ih =>
    obtain ⟨hbooted, hle, hlast⟩ := h.after hwrap.1
    have hrest := ih hbooted hwrap.2
    refine ⟨fun g hg => ?_, ?_, ?_⟩
    · rcases mem_append.mp hg with hg | hg
      · rw [(h.grant hwrap.1 hg).2, ← hlast]
        exact hbooted.le
      · rw [← hlast]
        exact hrest.inside g hg
    · -- The first grant ends where the memory of all later ones begins.
      refine pairwise_append.mpr ⟨?_, hrest.apart, fun g hg g' hg' => .inl ?_⟩
      · unfold Ram.grant
        split_ifs <;> simp
      · rw [(h.grant hwrap.1 hg).2]
        exact hbooted.le_paddr hwrap.2 hg'
    · exact pairwise_cons.mpr ⟨fun a ha => hle.trans (hbooted.le_trail hwrap.2 ha), hrest.forward⟩

end

/-- **Pages are handed out once exactly when no request wraps.** -/
theorem pages_handed_out_once {ram : Ram} (h : ram.Booted) (reqs : List PageRequest) :
    HandedOutOnce ram reqs ↔ NoWrap ram reqs := by
  refine ⟨fun honce => ?_, fun hwrap => h.handedOutOnce hwrap⟩
  induction reqs generalizing ram with
  | nil => exact True.intro
  | cons r rs ih =>
    by_cases hwrap : ram.firstpaddr + r.npages * pageSize < 4294967296
    · obtain ⟨hbooted, -, hlast⟩ := h.after hwrap
      refine ⟨hwrap, ih hbooted ⟨fun g hg => ?_, ?_, ?_⟩⟩
      · rw [hlast]
        exact honce.inside g (mem_append_right _ hg)
      · exact (pairwise_append.mp honce.apart).2.1
      · exact (pairwise_cons.mp honce.forward).2
    · -- The first request that wraps is granted pages that are not there.
      have hp := h.getppages_of_wrap r.npages_lt hwrap
      have hgrant : (⟨ram.firstpaddr, r.npages⟩ : Pages) ∈ ram.grant r := by
        unfold Ram.grant
        rw [hp, if_neg h.pos.ne']
        exact mem_singleton.mpr rfl
      have hin : ram.firstpaddr + r.npages * pageSize ≤ ram.lastpaddr :=
        honce.inside _ (mem_append_left _ hgrant)
      have hmax : ram.lastpaddr ≤ 508 * 1024 * 1024 := h.max
      omega

/-- A machine with 4 megabytes, of which the kernel itself has 256 kilobytes. -/
def smallRam : Ram := ramBootstrap 0x400000 0x80040000

theorem smallRam_booted : smallRam.Booted := ramBootstrap_booted (by decide) (by decide)

/-- A heap page, a large block and a program are served from it. -/
theorem pages_handed_out_once_small : HandedOutOnce smallRam
    [.heapPage, .kmalloc 5000, .region 0x400000 9000, .region 0x10000000 100, .stack] :=
  (pages_handed_out_once smallRam_booted _).mpr (by decide)

/-- **`kmalloc(0xfffff000)` succeeds.**  The range ends far behind the memory, and `firstpaddr` has
moved back, so that the next heap page is granted below the kernel's own memory. -/
theorem kmalloc_wraps : smallRam.granted [.kmalloc 0xfffff000, .heapPage] =
      [⟨0x40000, 0xfffff⟩, ⟨0x3f000, 1⟩] ∧
    smallRam.trail [.kmalloc 0xfffff000, .heapPage] = [0x40000, 0x3f000, 0x40000] ∧
    ¬ HandedOutOnce smallRam [.kmalloc 0xfffff000, .heapPage] := by
  have htrail : smallRam.trail [.kmalloc 0xfffff000, .heapPage] = [0x40000, 0x3f000, 0x40000] := by
    decide
  refine ⟨by decide, htrail, fun honce => ?_⟩
  have hforward := honce.forward
  rw [htrail] at hforward
  exact absurd hforward (by decide)

end Os161
