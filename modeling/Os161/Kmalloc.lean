/-
# `kern/vm/kmalloc.c`: the subpage allocator of the kernel

A page is cut into blocks of one size.  Its free blocks are chained through their own first words,
and a `struct pageref` says where the chain starts and how long it is.  The pagerefs in use are on
two lists, one of all of them and one for each block size.

The allocator works under one spinlock, and lets go of it in two places: around `alloc_kpages`,
when there is no page with a free block, and for `free_kpages`, when a page has become free.  The
model is cut there.  `subpageKmallocStart` and `subpageKmallocFresh` are the two halves of an
allocation, `kfree` is what a release does under the lock, and its result is the page it hands to
`free_kpages`.

`PageOk` says what the words in memory mean for one page, and each function has its specification
on one page here.  What holds of all pages, over whole runs, is in `Kheap`.
-/
import Os161.Lib.Bits
import Os161.Lib.Links
import Os161.Lib.Memory
import Os161.Lhd

namespace Os161

open Function List

/-! ## 1. The code -/

/-- `PAGE_SIZE`. -/
abbrev pageSize : Nat := 4096

/-- `sizes`. -/
def sizes (blktype : Nat) : Nat := [16, 32, 64, 128, 256, 512, 1024, 2048].getD blktype 0

/-- `NSIZES`. -/
abbrev nsizes : Nat := 8

/-- `LARGEST_SUBPAGE_SIZE`. -/
abbrev largestSubpageSize : Nat := 2048

/-- `INVALID_OFFSET`. -/
abbrev invalidOffset : Nat := 65535

/-- `NPAGEREFS`. -/
abbrev npagerefs : Nat := 256

/-- A 16-bit field of a structure. -/
def u16 (n : Nat) : Nat := n % 65536

/-- `struct pageref`.  A pointer to one is its index in `pagerefs`. -/
structure PageRef where
  nextSamesize : Option Nat
  nextAll : Option Nat
  pageaddrAndBlocktype : Nat
  freelistOffset : Nat
  nfree : Nat

/-- `PR_PAGEADDR`. -/
def prPageaddr (pr : PageRef) : Nat := pr.pageaddrAndBlocktype / pageSize * pageSize

/-- `PR_BLOCKTYPE`. -/
def prBlocktype (pr : PageRef) : Nat := pr.pageaddrAndBlocktype % pageSize

/-- `MKPAB`. -/
def mkpab (pa blk : Nat) : Nat := pa / pageSize * pageSize + blk % pageSize

/-- The memory and the static variables. -/
structure KHeap where
  mem : Mem
  pagerefs : Nat → PageRef
  pagerefsInuse : Nat → BitVec 32
  sizebases : Nat → Option Nat
  allbase : Option Nat

/-- A program under the spinlock. -/
abbrev Kmalloc (α : Type) := Prog Empty KHeap α

/-- The heap with the pageref `pr` changed. -/
def KHeap.setPageref (s : KHeap) (pr : Nat) (p : PageRef) : KHeap :=
  { s with pagerefs := update s.pagerefs pr p }

/-- The heap with a word of the memory changed. -/
def KHeap.setWord (s : KHeap) (a v : Nat) : KHeap := { s with mem := s.mem.setWord a v }

/-- The heap with a word of `pagerefs_inuse` changed. -/
def KHeap.setInuse (s : KHeap) (i : Nat) (w : BitVec 32) : KHeap :=
  { s with pagerefsInuse := update s.pagerefsInuse i w }

/-- The outer loop of `allocpageref`, over the words still to be looked at. -/
def allocpagerefLoop : List Nat → Kmalloc (Option Nat)
  | [] => pure none
  | i :: rest => do
    let s ← get
    if s.pagerefsInuse i = BitVec.allOnes 32 then allocpagerefLoop rest
    else
      match (List.range 32).find? fun j =>
          decide (s.pagerefsInuse i &&& BitVec.twoPow 32 j = 0) with
      | none => halt
      | some j => do
        modify fun s => s.setInuse i (s.pagerefsInuse i ||| BitVec.twoPow 32 j)
        pure (some (i * 32 + j))

/-- `allocpageref`. -/
def allocpageref : Kmalloc (Option Nat) := allocpagerefLoop (List.range 8)

/-- `freepageref`. -/
def freepageref (j : Nat) : Kmalloc Unit := do
  assert (j < npagerefs)
  let s ← get
  assert (s.pagerefsInuse (j / 32) &&& BitVec.twoPow 32 (j % 32) ≠ 0)
  modify fun s => s.setInuse (j / 32) (s.pagerefsInuse (j / 32) &&& ~~~ BitVec.twoPow 32 (j % 32))

/-- The cells of a list of `sizebases`: the base, and in each pageref the pointer to the next. -/
def samesizeCell (blktype : Nat) (s : KHeap) : Option Nat → Option Nat
  | none => s.sizebases blktype
  | some r => (s.pagerefs r).nextSamesize

/-- Write to one of them. -/
def setSamesizeCell (blktype : Nat) : Option Nat → Option Nat → KHeap → KHeap
  | none, v, s => { s with sizebases := update s.sizebases blktype v }
  | some r, v, s => s.setPageref r { s.pagerefs r with nextSamesize := v }

/-- The cells of the list of all pagerefs. -/
def allCell (s : KHeap) : Option Nat → Option Nat
  | none => s.allbase
  | some r => (s.pagerefs r).nextAll

/-- Write to one of them. -/
def setAllCell : Option Nat → Option Nat → KHeap → KHeap
  | none, v, s => { s with allbase := v }
  | some r, v, s => s.setPageref r { s.pagerefs r with nextAll := v }

/-- `remove_lists`. -/
def removeLists (pr blktype : Nat) : Kmalloc Unit := do
  assert (blktype < nsizes)
  Prog.unlink (samesizeCell blktype) (setSamesizeCell blktype) pr (npagerefs + 1) none
  Prog.unlink allCell setAllCell pr (npagerefs + 1) none

/-- `blocktype`, which panics for a size that is too large. -/
def blocktype (sz : Nat) : Kmalloc Nat :=
  match (List.range nsizes).find? fun i => decide (sz ≤ sizes i) with
  | none => halt
  | some i => pure i

/-- The middle of `doalloc`: the free list of `pr` now starts at `fl`. -/
def setFreelist (pr prpage fl nfree : Nat) : Kmalloc Unit :=
  if fl ≠ 0 then do
    assert (0 < nfree)
    assert (u32 (fl + (4294967296 - prpage)) < pageSize)
    modify fun s => s.setPageref pr { s.pagerefs pr with
        nfree := nfree, freelistOffset := u16 (u32 (fl + (4294967296 - prpage))) }
  else do
    assert (nfree = 0)
    modify fun s => s.setPageref pr
      { s.pagerefs pr with nfree := nfree, freelistOffset := invalidOffset }

/-- `subpage_kmalloc` from `doalloc` on: the first block of the free list of `pr`. -/
def doalloc (pr : Nat) : Kmalloc Nat := do
  let s ← get
  assert ((s.pagerefs pr).freelistOffset < pageSize)
  let prpage := prPageaddr (s.pagerefs pr)
  let fla := prpage + (s.pagerefs pr).freelistOffset
  setFreelist pr prpage (s.mem.word fla) (u16 ((s.pagerefs pr).nfree + 65535))
  pure fla

/-- The search of `subpage_kmalloc`. -/
def subpageSearch (blktype : Nat) : Kmalloc (Option Nat) := do
  let s ← get
  Prog.forLinks (fun s r => (s.pagerefs r).nextSamesize) (fun r => do
      let s ← get
      assert (prBlocktype (s.pagerefs r) = blktype)
      pure (decide (0 < (s.pagerefs r).nfree)))
    (npagerefs + 1) (s.sizebases blktype)

/-- What the first half of an allocation ends with: a block, or the wish for a page to cut up, or
for pages to hand out as they are. -/
inductive Started
  | block (ptr : Nat)
  | page (blktype : Nat)
  | pages (npages : Nat)

/-- `subpage_kmalloc` up to the call of `alloc_kpages`. -/
def subpageKmallocStart (sz : Nat) : Kmalloc Started := do
  let blktype ← blocktype sz
  match ← subpageSearch blktype with
  | some pr => do
    let ptr ← doalloc pr
    pure (.block ptr)
  | none => pure (.page blktype)

/-- The number of pages that `kmalloc` asks for when `sz` bytes are too many for a block. -/
def kmallocPages (sz : Nat) : Nat := u32 (sz + pageSize - 1) / pageSize

/-- `kmalloc` up to the call of `alloc_kpages`. -/
def kmallocStart (sz : Nat) : Kmalloc Started :=
  if sz ≥ largestSubpageSize then pure (.pages (kmallocPages sz))
  else subpageKmallocStart sz

/-- The loop that chains the blocks of a fresh page, up to block `i`, which it returns. -/
def freshBlocks (prpage size : Nat) : Nat → Kmalloc Nat
  | 0 => do
    modify fun s => s.setWord prpage 0
    pure prpage
  | i + 1 => do
    let _ ← freshBlocks prpage size i
    let fl := prpage + (i + 1) * size
    modify fun s => s.setWord fl (prpage + i * size)
    let s ← get
    assert (fl ≠ s.mem.word fl)
    pure fl

/-- `subpage_kmalloc` for a fresh page, with the pageref `pr`, up to `goto doalloc`. -/
def freshPage (pr prpage blktype : Nat) : Kmalloc Unit := do
  let nfree := u16 (pageSize / sizes blktype)
  let fla ← freshBlocks prpage (sizes blktype) (nfree - 1)
  assert (u16 (fla - prpage) = (nfree - 1) * sizes blktype)
  modify fun s => s.setPageref pr {
    nextSamesize := s.sizebases blktype
    nextAll := s.allbase
    pageaddrAndBlocktype := mkpab prpage blktype
    freelistOffset := u16 (fla - prpage)
    nfree := nfree }
  modify fun s => { s with
    sizebases := update s.sizebases blktype (some pr), allbase := some pr }

/-- `subpage_kmalloc` from the return of `alloc_kpages` on, with the page it returned.  The result
`none` is NULL, and the page goes to `free_kpages`. -/
def subpageKmallocFresh (prpage blktype : Nat) : Kmalloc (Option Nat) := do
  match ← allocpageref with
  | none => pure none
  | some pr => do
    freshPage pr prpage blktype
    let ptr ← doalloc pr
    pure (some ptr)

/-- The search of `subpage_kfree`. -/
def kfreeSearch (ptraddr : Nat) : Kmalloc (Option Nat) := do
  let s ← get
  Prog.forLinks (fun s r => (s.pagerefs r).nextAll) (fun r => do
      let s ← get
      assert (prBlocktype (s.pagerefs r) < nsizes)
      pure (decide (prPageaddr (s.pagerefs r) ≤ ptraddr ∧
        ptraddr < u32 (prPageaddr (s.pagerefs r) + pageSize))))
    (npagerefs + 1) s.allbase

/-- `subpage_kfree` on the page of `pr`, up to the test whether the whole page is free: the block is
wiped and put in front of the free list. -/
def kfreeBlock (pr ptr : Nat) : Kmalloc Unit := do
  let s ← get
  let p := s.pagerefs pr
  let prpage := prPageaddr p
  let fl := if p.freelistOffset = invalidOffset then 0 else prpage + p.freelistOffset
  modify fun s => { s with
    mem := (s.mem.fillWords ptr 3735928559 (sizes (prBlocktype p) / 4)).setWord ptr fl }
  modify fun s => s.setPageref pr
    { s.pagerefs pr with freelistOffset := u16 (ptr - prpage), nfree := u16 (p.nfree + 1) }

/-- `subpage_kfree` on the page of `pr`; the result is the page for `free_kpages`, if any. -/
def kfreeIn (pr ptr : Nat) : Kmalloc (Option Nat) := do
  let s ← get
  let prpage := prPageaddr (s.pagerefs pr)
  let blktype := prBlocktype (s.pagerefs pr)
  if ptr - prpage ≥ pageSize ∨ (ptr - prpage) % sizes blktype ≠ 0 then halt
  else do
    kfreeBlock pr ptr
    let s ← get
    assert ((s.pagerefs pr).nfree ≤ pageSize / sizes blktype)
    if (s.pagerefs pr).nfree = pageSize / sizes blktype then do
      removeLists pr blktype
      freepageref pr
      pure (some prpage)
    else pure none

/-- `kfree`.  A pointer that is on none of the pages is taken for a large allocation. -/
def kfree (ptr : Nat) : Kmalloc (Option Nat) :=
  if ptr = 0 then pure none
  else do
    match ← kfreeSearch ptr with
    | some pr => kfreeIn pr ptr
    | none => do
      assert (ptr % pageSize = 0)
      pure (some ptr)

/-! ## 2. Pagerefs in use -/

section Pagerefs

variable {s : KHeap} {r r' : Nat}

/-- The pageref is in use. -/
def KHeap.InUse (s : KHeap) (r : Nat) : Prop := r < npagerefs ∧ wordBit s.pagerefsInuse r = true

theorem allocpagerefLoop_spec (l : List Nat) (hl : ∀ i ∈ l, i < 8) : Wp False (allocpagerefLoop l)
      (fun r s' => match r with
        | none => s' = s ∧ ∀ i ∈ l, s.pagerefsInuse i = BitVec.allOnes 32
        | some r => r < npagerefs ∧ ¬ s.InUse r ∧
          s' = s.setInuse (r / 32) (s.pagerefsInuse (r / 32) ||| BitVec.twoPow 32 (r % 32)))
      (fun _ _ => False) s := by
  induction l with
  | nil => exact wp_pure.mpr ⟨rfl, fun i hi => absurd hi not_mem_nil⟩
  | cons i rest ih =>
    have hi : i < 8 := hl i mem_cons_self
    rw [allocpagerefLoop, wp_bind, wp_get]
    by_cases hw : s.pagerefsInuse i = BitVec.allOnes 32
    · rw [if_pos hw]
      refine (ih fun k hk => hl k (mem_cons_of_mem _ hk)).post fun r s' hr => ?_
      cases r with
      | none =>
        refine ⟨hr.1, fun k hk => ?_⟩
        rcases mem_cons.mp hk with rfl | hk
        · exact hw
        · exact hr.2 k hk
      | some r => exact hr
    · obtain ⟨j, hj⟩ := find_clear_bit_of_ne hw
      have hj32 : j < 32 := mem_range.mp (mem_of_find?_eq_some hj)
      have hclear : s.pagerefsInuse i &&& BitVec.twoPow 32 j = 0 := by
        simpa using find?_some hj
      have hdiv : (i * 32 + j) / 32 = i := by omega
      have hmod : (i * 32 + j) % 32 = j := by omega
      rw [if_neg hw, hj]
      rw [wp_bind, wp_modify, wp_pure]
      refine ⟨by simp only [npagerefs]; omega, fun hin => ?_, by rw [hdiv, hmod]⟩
      have hbit := hin.2
      rw [wordBit, hdiv, hmod] at hbit
      exact (and_twoPow_ne_zero hj32).mpr hbit hclear

/-- **`allocpageref`** finds a pageref that is not in use, if there is one. -/
theorem allocpageref_spec : Wp False allocpageref (fun r s' => match r with
      | none => s' = s ∧ ∀ r < npagerefs, s.InUse r
      | some r => r < npagerefs ∧ ¬ s.InUse r ∧ ∃ w, s' = { s with pagerefsInuse := w } ∧
        ∀ r', s'.InUse r' ↔ r' = r ∨ s.InUse r')
    (fun _ _ => False) s := by
  refine (allocpagerefLoop_spec (range 8) fun i hi => mem_range.mp hi).post fun r s' hr => ?_
  cases r with
  | none =>
    refine ⟨hr.1, fun r hlt => ⟨hlt, ?_⟩⟩
    simp only [npagerefs] at hlt
    rw [wordBit, hr.2 (r / 32) (mem_range.mpr (by omega)), BitVec.getLsbD_allOnes]
    simp only [decide_eq_true_eq]
    omega
  | some r =>
    obtain ⟨hlt, hfree, rfl⟩ := hr
    refine ⟨hlt, hfree, _, rfl, fun r' => ?_⟩
    unfold KHeap.InUse
    simp only [KHeap.setInuse, wordBit_set (show 0 < 32 by decide)]
    constructor
    · rintro ⟨h1, h2 | h2⟩
      · exact .inl h2
      · exact .inr ⟨h1, h2⟩
    · rintro (rfl | ⟨h1, h2⟩)
      · exact ⟨hlt, .inl rfl⟩
      · exact ⟨h1, .inr h2⟩

/-- **`freepageref`** of one in use. -/
theorem freepageref_spec (h : s.InUse r) : Wp False (freepageref r)
    (fun _ s' => ∃ w, s' = { s with pagerefsInuse := w } ∧ ∀ r', s'.InUse r' ↔ r' ≠ r ∧ s.InUse r')
    (fun _ _ => False) s := by
  obtain ⟨hlt, hbit⟩ := h
  have hmask := (and_twoPow_ne_zero (Nat.mod_lt r (show 0 < 32 by decide))).mpr hbit
  rw [freepageref, wp_bind, wp_assert, wp_bind, wp_get, wp_bind, wp_assert, wp_modify]
  refine ⟨fun _ => ⟨fun _ => ⟨_, rfl, fun r' => ?_⟩, fun hno => absurd hmask hno⟩,
    fun hno => absurd hlt hno⟩
  unfold KHeap.InUse
  simp only [KHeap.setInuse, wordBit_clear (show 0 < 32 by decide)]
  exact and_left_comm

end Pagerefs

/-! ## 3. The blocks of a page -/

section Blocks

variable {P t b c : Nat} {l : List Nat}

/-- What `alloc_kpages` returns: the address of a page of the kernel segment. -/
structure KPage (P : Nat) : Prop where
  aligned : P % pageSize = 0
  pos : 0 < P
  lt : P + pageSize < 4294967296

theorem sizes_spec : ∀ t < nsizes, 16 ≤ sizes t ∧ sizes t ≤ 2048 ∧ sizes t % 4 = 0 ∧
    pageSize / sizes t * sizes t = pageSize ∧ 2 ≤ pageSize / sizes t ∧
      pageSize / sizes t ≤ 256 := by
  decide

/-- The block `b` of the page at `P`. -/
def IsBlock (P t b : Nat) : Prop := ∃ i < pageSize / sizes t, b = P + i * sizes t

theorem IsBlock.bounds (h : IsBlock P t b) : P ≤ b ∧ b + sizes t ≤ P + pageSize := by
  obtain ⟨i, hi, rfl⟩ := h
  have h1 : (i + 1) * sizes t ≤ pageSize / sizes t * sizes t := Nat.mul_le_mul_right _ hi
  have h2 : pageSize / sizes t * sizes t ≤ pageSize := Nat.div_mul_le_self _ _
  rw [Nat.add_mul, Nat.one_mul] at h1
  exact ⟨Nat.le_add_right _ _, by omega⟩

/-- The offset of a block is one that `freelist_offset` can hold, and leads back to the block. -/
theorem IsBlock.offset (h : IsBlock P t b) (hs : 0 < sizes t) :
    b - P < pageSize ∧ u16 (b - P) = b - P ∧ b - P ≠ invalidOffset ∧ P + (b - P) = b := by
  have := h.bounds
  simp only [u16, pageSize, invalidOffset] at *
  omega

theorem IsBlock.apart (h : IsBlock P t b) (h' : IsBlock P t c) (hne : b ≠ c) :
    b + sizes t ≤ c ∨ c + sizes t ≤ b := by
  obtain ⟨i, -, rfl⟩ := h
  obtain ⟨j, -, rfl⟩ := h'
  rcases Nat.lt_trichotomy i j with hij | rfl | hij
  · have := Nat.mul_le_mul_right (sizes t) (show i + 1 ≤ j from hij)
    rw [Nat.add_mul, Nat.one_mul] at this
    omega
  · exact absurd rfl hne
  · have := Nat.mul_le_mul_right (sizes t) (show j + 1 ≤ i from hij)
    rw [Nat.add_mul, Nat.one_mul] at this
    omega

theorem IsBlock.offset_mod (h : IsBlock P t b) : (b - P) % sizes t = 0 := by
  obtain ⟨i, -, rfl⟩ := h
  rw [Nat.add_sub_cancel_left, Nat.mul_mod_left]

/-- The blocks of a page. -/
def pageBlocks (P t : Nat) : List Nat :=
  (List.range (pageSize / sizes t)).map fun i => P + i * sizes t

theorem mem_pageBlocks : b ∈ pageBlocks P t ↔ IsBlock P t b := by
  simp only [pageBlocks, mem_map, mem_range, IsBlock, eq_comm]

theorem length_pageBlocks (P t : Nat) : (pageBlocks P t).length = pageSize / sizes t := by
  rw [pageBlocks, length_map, length_range]

theorem nodup_pageBlocks (ht : t < nsizes) : (pageBlocks P t).Nodup := by
  have hpos := (sizes_spec t ht).1
  refine nodup_range.map fun i j hij => ?_
  exact Nat.eq_of_mul_eq_mul_right (Nat.lt_of_lt_of_le (by decide) hpos) (Nat.add_left_cancel hij)

theorem length_le_of_blocks (hl : l.Nodup) (hb : ∀ b ∈ l, IsBlock P t b) :
    l.length ≤ pageSize / sizes t := by
  have hsub : l.Subperm (pageBlocks P t) := subperm_of_subset hl fun b h =>
    mem_pageBlocks.mpr (hb b h)
  rw [← length_pageBlocks P t]
  exact hsub.length_le

theorem length_eq_of_blocks (ht : t < nsizes) (hl : l.Nodup) (hb : ∀ b ∈ l, IsBlock P t b) :
    l.length = pageSize / sizes t ↔ ∀ b, IsBlock P t b → b ∈ l := by
  have hsub : l.Subperm (pageBlocks P t) := subperm_of_subset hl fun b h =>
    mem_pageBlocks.mpr (hb b h)
  constructor
  · intro hlen b h
    have hperm := hsub.perm_of_length_le (by rw [length_pageBlocks, hlen])
    exact hperm.mem_iff.mpr (mem_pageBlocks.mpr h)
  · intro hall
    have hsup : (pageBlocks P t).Subperm l :=
      subperm_of_subset (nodup_pageBlocks ht) fun b h => hall b (mem_pageBlocks.mp h)
    have h1 := hsub.length_le
    have h2 := hsup.length_le
    rw [length_pageBlocks] at h1 h2
    exact Nat.le_antisymm h1 h2

end Blocks

/-! ## 4. One page -/

section Page

variable {s : KHeap} {m m' : Mem} {p : PageRef} {r : Nat} {fl : List Nat} {b : Nat}

/-- The free block behind the one at `a`. -/
def freeNext (m : Mem) (a : Nat) : Option Nat := if m.word a = 0 then none else some (m.word a)

/-- The first free block of a page. -/
def freeHead (p : PageRef) : Option Nat :=
  if p.freelistOffset = invalidOffset then none else some (prPageaddr p + p.freelistOffset)

/-- The pageref describes a page, and `fl` is its free list. -/
structure PageOk (m : Mem) (p : PageRef) (fl : List Nat) : Prop where
  page : KPage (prPageaddr p)
  blktype : prBlocktype p < nsizes
  chain : Links (freeNext m) (freeHead p) fl
  isBlock : ∀ b ∈ fl, IsBlock (prPageaddr p) (prBlocktype p) b
  nodup : fl.Nodup
  nfree : p.nfree = fl.length

theorem PageOk.length_le (h : PageOk m p fl) : fl.length ≤ pageSize / sizes (prBlocktype p) :=
  length_le_of_blocks h.nodup h.isBlock

theorem PageOk.offset_invalid (h : PageOk m p fl) : p.freelistOffset = invalidOffset ↔ fl = [] := by
  have hc := h.chain
  unfold freeHead at hc
  cases fl with
  | nil =>
    refine ⟨fun _ => rfl, fun _ => ?_⟩
    by_contra hno
    rw [if_neg hno] at hc
    exact Option.some_ne_none _ hc
  | cons b fl =>
    refine ⟨fun hinv => ?_, fun h0 => absurd h0 (cons_ne_nil b fl)⟩
    rw [if_pos hinv] at hc
    exact absurd hc.1 (Option.some_ne_none b).symm

theorem PageOk.head (h : PageOk m p (b :: fl)) :
    prPageaddr p + p.freelistOffset = b ∧ p.freelistOffset < pageSize := by
  have hinv : p.freelistOffset ≠ invalidOffset := fun h0 =>
    cons_ne_nil b fl (h.offset_invalid.mp h0)
  have hc := h.chain.1
  unfold freeHead at hc
  rw [if_neg hinv] at hc
  have hb : prPageaddr p + p.freelistOffset = b := Option.some.inj hc
  have hbounds := (h.isBlock b mem_cons_self).bounds
  have hsize := (sizes_spec _ h.blktype).1
  exact ⟨hb, by omega⟩

theorem PageOk.congr (h : PageOk m p fl) (hm : ∀ b ∈ fl, m'.word b = m.word b) :
    PageOk m' p fl := by
  refine { h with chain := h.chain.congr fun b hb => ?_ }
  rw [freeNext, freeNext, hm b hb]

theorem PageOk.ne_zero (h : PageOk m p fl) (hb : b ∈ fl) : b ≠ 0 := by
  have := h.page.pos
  have := (h.isBlock b hb).bounds
  omega

theorem PageOk.setFree {fl' : List Nat} {off n : Nat} (h : PageOk m p fl) (hn : n = fl'.length)
    (hchain : Links (freeNext m')
      (if off = invalidOffset then none else some (prPageaddr p + off)) fl')
    (hb : ∀ b ∈ fl', IsBlock (prPageaddr p) (prBlocktype p) b) (hnodup : fl'.Nodup) :
    PageOk m' { p with nfree := n, freelistOffset := off } fl' :=
  ⟨h.page, h.blktype, hchain, hb, hnodup, hn⟩

/-- **`doalloc`** takes the first block off the free list. -/
theorem doalloc_spec (h : PageOk s.mem (s.pagerefs r) (b :: fl)) : Wp False (doalloc r)
    (fun ptr s' => ptr = b ∧ ∃ off, PageOk s.mem
        { s.pagerefs r with nfree := fl.length, freelistOffset := off } fl ∧
      s' = s.setPageref r { s.pagerefs r with nfree := fl.length, freelistOffset := off })
    (fun _ _ => False) s := by
  obtain ⟨hb, hoff⟩ := h.head
  have hlen := h.length_le
  have hsizes := sizes_spec _ h.blktype
  have hnfree : u16 ((s.pagerefs r).nfree + 65535) = fl.length := by
    rw [h.nfree, u16]
    rw [length_cons] at hlen ⊢
    omega
  have hchain := h.chain.2
  have hpage := h.page
  have hnodup := (nodup_cons.mp h.nodup).2
  have hisBlock : ∀ c ∈ fl, IsBlock (prPageaddr (s.pagerefs r)) (prBlocktype (s.pagerefs r)) c :=
    fun c hc => h.isBlock c (mem_cons_of_mem _ hc)
  rw [doalloc, wp_bind, wp_get, wp_bind, wp_assert_of hoff]
  rw [wp_bind, hb, hnfree, setFreelist]
  cases fl with
  | nil =>
    -- it was the last one
    have hword : s.mem.word b = 0 := by
      by_contra hno
      have hnext : freeNext s.mem b = some (s.mem.word b) := if_neg hno
      exact absurd (hnext.symm.trans hchain) (Option.some_ne_none _)
    rw [if_neg (not_not.mpr hword), wp_bind, wp_assert, wp_modify, wp_pure]
    exact ⟨fun _ => ⟨rfl, invalidOffset, h.setFree rfl rfl hisBlock hnodup, rfl⟩,
      fun hno => absurd rfl hno⟩
  | cons c fl =>
    have hword : s.mem.word b = c := by
      have hc : freeNext s.mem b = some c := hchain.1
      unfold freeNext at hc
      split_ifs at hc
      exact Option.some.inj hc
    have hbounds := (hisBlock c mem_cons_self).bounds
    have hc0 : c ≠ 0 := h.ne_zero (mem_cons_of_mem _ mem_cons_self)
    have hlt := hpage.lt
    have hoffset : u32 (c + (4294967296 - prPageaddr (s.pagerefs r))) =
        c - prPageaddr (s.pagerefs r) := by
      rw [u32]
      omega
    obtain ⟨hin, hoff16, hvalid, hback⟩ := (hisBlock c mem_cons_self).offset (by omega)
    rw [hword, if_pos hc0, wp_bind, wp_assert, wp_bind, wp_assert, hoffset, hoff16,
      wp_modify, wp_pure]
    refine ⟨fun _ => ⟨fun _ => ⟨rfl, _, h.setFree rfl ?_ hisBlock hnodup, rfl⟩, fun hno =>
      absurd hin hno⟩, fun hno => absurd (Nat.succ_pos _) hno⟩
    rw [if_neg hvalid, hback]
    exact ⟨rfl, hchain.2⟩

/-- The block that is being freed is put in front of the free list. -/
theorem kfreeBlock_spec (h : PageOk s.mem (s.pagerefs r) fl)
    (hb : IsBlock (prPageaddr (s.pagerefs r)) (prBlocktype (s.pagerefs r)) b) (hnew : b ∉ fl) :
    Wp False (kfreeBlock r b) (fun _ s' => ∃ m off,
        Mem.SameOutside b (b + sizes (prBlocktype (s.pagerefs r))) s.mem m ∧
        PageOk m { s.pagerefs r with nfree := fl.length + 1, freelistOffset := off } (b :: fl) ∧
        s' = { s with mem := m }.setPageref r
          { s.pagerefs r with nfree := fl.length + 1, freelistOffset := off })
      (fun _ _ => False) s := by
  have hsizes := sizes_spec _ h.blktype
  have hbounds := hb.bounds
  have hpage := h.page
  have hlt := hpage.lt
  have hnodup : (b :: fl).Nodup := nodup_cons.mpr ⟨hnew, h.nodup⟩
  have hblocks : ∀ c ∈ b :: fl,
      IsBlock (prPageaddr (s.pagerefs r)) (prBlocktype (s.pagerefs r)) c := by
    intro c hc
    rcases mem_cons.mp hc with rfl | hc
    · exact hb
    · exact h.isBlock c hc
  have hlen := length_le_of_blocks hnodup hblocks
  have hnfree : u16 ((s.pagerefs r).nfree + 1) = fl.length + 1 := by
    rw [h.nfree, u16]
    rw [length_cons] at hlen
    omega
  obtain ⟨-, hoff16, hvalid, hback⟩ := hb.offset (by omega)
  rw [kfreeBlock, wp_bind, wp_get, wp_bind, wp_modify, wp_modify, hnfree, hoff16]
  set link := if (s.pagerefs r).freelistOffset = invalidOffset then 0
    else prPageaddr (s.pagerefs r) + (s.pagerefs r).freelistOffset with hlink
  have hwipe := Mem.sameOutside_fillWords s.mem b 3735928559
    (sizes (prBlocktype (s.pagerefs r)) / 4)
  have hset := Mem.sameOutside_setWord
    (s.mem.fillWords b 3735928559 (sizes (prBlocktype (s.pagerefs r)) / 4)) b link
  have hsame : Mem.SameOutside b (b + sizes (prBlocktype (s.pagerefs r))) s.mem
      ((s.mem.fillWords b 3735928559 (sizes (prBlocktype (s.pagerefs r)) / 4)).setWord b link) :=
    (hwipe.mono le_rfl (by omega)).trans (hset.mono le_rfl (by omega))
  refine ⟨_, _, hsame, h.setFree (length_cons).symm ?_ hblocks hnodup, rfl⟩
  rw [if_neg hvalid, hback]
  -- the new first block points to the old one, and the words of the others are as they were
  refine h.chain.push ?_ fun c hc => ?_
  · have hlinklt : link < 4294967296 := by
      rw [hlink]
      split_ifs with hinv
      · decide
      · cases fl with
        | nil => exact absurd (h.offset_invalid.mpr rfl) hinv
        | cons c fl =>
          have := (h.isBlock c mem_cons_self).bounds
          rw [h.head.1]
          omega
    rw [freeNext, Mem.word_setWord hlinklt, freeHead, hlink]
    by_cases hinv : (s.pagerefs r).freelistOffset = invalidOffset
    · simp only [if_pos hinv, if_true]
    · have hpos := hpage.pos
      simp only [if_neg hinv]
      rw [if_neg (by omega)]
  · have hne : c ≠ b := fun he => hnew (he ▸ hc)
    have := (h.isBlock c hc).apart hb hne
    rw [freeNext, freeNext, hsame.word (by omega)]

/-- The free list of a fresh page: block `i`, and down from there. -/
def freshList (P size : Nat) : Nat → List Nat
  | 0 => [P]
  | i + 1 => (P + (i + 1) * size) :: freshList P size i

variable {P size i t : Nat}

theorem mem_freshList : b ∈ freshList P size i ↔ ∃ j ≤ i, b = P + j * size := by
  induction i with
  | zero =>
    rw [freshList, mem_singleton]
    constructor
    · intro h
      exact ⟨0, le_rfl, by rw [h, Nat.zero_mul, Nat.add_zero]⟩
    · rintro ⟨j, hj, rfl⟩
      rw [Nat.le_zero.mp hj, Nat.zero_mul, Nat.add_zero]
  | succ i ih =>
    rw [freshList, mem_cons, ih]
    constructor
    · rintro (rfl | ⟨j, hj, rfl⟩)
      · exact ⟨i + 1, le_rfl, rfl⟩
      · exact ⟨j, Nat.le_succ_of_le hj, rfl⟩
    · rintro ⟨j, hj, rfl⟩
      rcases Nat.lt_or_eq_of_le hj with hj | rfl
      · exact .inr ⟨j, Nat.le_of_lt_succ hj, rfl⟩
      · exact .inl rfl

theorem nodup_freshList (hsize : 0 < size) : (freshList P size i).Nodup := by
  induction i with
  | zero => exact nodup_singleton P
  | succ i ih =>
    refine nodup_cons.mpr ⟨fun hmem => ?_, ih⟩
    obtain ⟨j, hj, he⟩ := mem_freshList.mp hmem
    have := Nat.eq_of_mul_eq_mul_right hsize (Nat.add_left_cancel he)
    omega

theorem length_freshList (P size i : Nat) : (freshList P size i).length = i + 1 := by
  induction i with
  | zero => rfl
  | succ i ih => rw [freshList, length_cons, ih]

theorem freshBlocks_spec (hP : 0 < P) (hsize : 16 ≤ size) (i : Nat)
    (hlt : P + i * size + 4 < 4294967296) : Wp False (freshBlocks P size i)
      (fun fl s' => fl = P + i * size ∧ ∃ m, s' = { s with mem := m } ∧
        Mem.SameOutside P (P + i * size + 4) s.mem m ∧
        Links (freeNext m) (some (P + i * size)) (freshList P size i))
      (fun _ _ => False) s := by
  induction i with
  | zero =>
    rw [freshBlocks, wp_bind, wp_modify, wp_pure]
    refine ⟨by rw [Nat.zero_mul, Nat.add_zero], _, rfl, ?_, ?_⟩
    · rw [Nat.zero_mul, Nat.add_zero]
      exact Mem.sameOutside_setWord _ _ _
    · rw [Nat.zero_mul, Nat.add_zero]
      refine ⟨rfl, ?_⟩
      rw [freeNext, Mem.word_setWord (by decide), if_pos rfl]
      rfl
  | succ i ih =>
    have hmul : (i + 1) * size = i * size + size := by rw [Nat.add_mul, Nat.one_mul]
    rw [hmul] at hlt
    refine (ih (by omega)).bind fun fl s' hs' => ?_
    obtain ⟨rfl, m, rfl, hsame, hlinks⟩ := hs'
    rw [wp_bind, wp_modify, wp_bind, wp_get, wp_bind, wp_assert, wp_pure]
    have hset := Mem.sameOutside_setWord m (P + (i + 1) * size) (P + i * size)
    have hword : (m.setWord (P + (i + 1) * size) (P + i * size)).word (P + (i + 1) * size) =
        P + i * size := Mem.word_setWord (by omega)
    refine ⟨fun _ => ⟨rfl, _, rfl, ?_, ?_⟩, fun hno => absurd ?_ hno⟩
    · exact (hsame.mono le_rfl (by omega)).trans (hset.mono (by omega) le_rfl)
    · refine hlinks.push ?_ fun c hc => ?_
      · rw [freeNext, hword, if_neg (by omega)]
      · obtain ⟨j, hj, rfl⟩ := mem_freshList.mp hc
        have := Nat.mul_le_mul_right size hj
        rw [freeNext, freeNext, hset.word (by omega)]
    · simp only [KHeap.setWord]
      omega

theorem prPageaddr_mkpab (hP : P % pageSize = 0) (ht : t < nsizes)
    (hp : p.pageaddrAndBlocktype = mkpab P t) : prPageaddr p = P ∧ prBlocktype p = t := by
  simp only [prPageaddr, prBlocktype, hp, mkpab, pageSize] at *
  simp only [nsizes] at ht
  omega

/-- **A fresh page** is cut into blocks, all of them free, and put on both lists. -/
theorem freshPage_spec (hP : KPage P) (ht : t < nsizes) : Wp False (freshPage r P t)
      (fun _ s' => ∃ m p fl, Mem.SameOutside P (P + pageSize) s.mem m ∧ PageOk m p fl ∧
        (∀ b, IsBlock P t b ↔ b ∈ fl) ∧ prPageaddr p = P ∧ prBlocktype p = t ∧
        p.nextSamesize = s.sizebases t ∧ p.nextAll = s.allbase ∧
        s' = { mem := m, pagerefs := update s.pagerefs r p,
               pagerefsInuse := s.pagerefsInuse,
               sizebases := update s.sizebases t (some r), allbase := some r })
      (fun _ _ => False) s := by
  obtain ⟨hlo, hhi, -, hfull, htwo, hmax⟩ := sizes_spec t ht
  have hlt := hP.lt
  have hn : u16 (pageSize / sizes t) = pageSize / sizes t := Nat.mod_eq_of_lt (by omega)
  have hlast : (pageSize / sizes t - 1) * sizes t + sizes t = pageSize := by
    calc (pageSize / sizes t - 1) * sizes t + sizes t
        = (pageSize / sizes t - 1 + 1) * sizes t := (Nat.succ_mul _ _).symm
      _ = pageSize / sizes t * sizes t := by rw [Nat.sub_add_cancel (by omega)]
      _ = pageSize := hfull
  have hoff : u16 (P + (pageSize / sizes t - 1) * sizes t - P) =
      (pageSize / sizes t - 1) * sizes t := by
    rw [Nat.add_sub_cancel_left, u16]
    simp only [pageSize] at hlast ⊢
    omega
  rw [freshPage, hn]
  refine (freshBlocks_spec hP.pos hlo _ (by omega)).bind fun fla s' hs' => ?_
  obtain ⟨rfl, m, rfl, hsame, hlinks⟩ := hs'
  rw [wp_bind, wp_assert, hoff]
  refine ⟨fun _ => ?_, fun hno => absurd rfl hno⟩
  rw [wp_bind, wp_modify, wp_modify]
  obtain ⟨hpage, htype⟩ := prPageaddr_mkpab hP.aligned ht
    (p := ⟨s.sizebases t, s.allbase, mkpab P t, (pageSize / sizes t - 1) * sizes t,
      pageSize / sizes t⟩) rfl
  have hmem : ∀ b, IsBlock P t b ↔ b ∈ freshList P (sizes t) (pageSize / sizes t - 1) := by
    intro b
    rw [mem_freshList]
    constructor
    · rintro ⟨i, hi, rfl⟩
      exact ⟨i, by omega, rfl⟩
    · rintro ⟨i, hi, rfl⟩
      exact ⟨i, by omega, rfl⟩
  refine ⟨m, _, freshList P (sizes t) (pageSize / sizes t - 1), hsame.mono le_rfl (by omega),
    ⟨?_, ?_, ?_, ?_, nodup_freshList (by omega), ?_⟩, hmem, hpage, htype, rfl, rfl, rfl⟩
  · rw [hpage]
    exact hP
  · rw [htype]
    exact ht
  · rw [freeHead, hpage, if_neg ?_]
    · exact hlinks
    · simp only [pageSize] at hlast
      simp only [invalidOffset, pageSize]
      omega
  · intro b hb
    rw [hpage, htype]
    exact (hmem b).mpr hb
  · rw [length_freshList]
    simp only
    omega

end Page

end Os161
