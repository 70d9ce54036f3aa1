/-
# The kernel heap over whole runs

Any number of calls of `kmalloc` and `kfree` are under way at a time.  Each holds the spinlock for
one or two stretches of code, and in between the others go on: a call that waits for
`alloc_kpages` finds another heap when it comes back, with the page in its hand that belongs to
nobody yet.

`KmallocInv` is what holds whenever the lock is free.  Its parts are about different things, and
most steps touch only one: `Listed` is about the two lists and the bits that say which pagerefs
are in use, `PageOk` about the inside of one page.  A page in use has a free list, and what is not
on it is live.
-/
import Os161.Kmalloc
import Os161.Lib.Run

namespace Os161

open Function List

/-! ## 1. The invariant -/

/-- The page of a pageref. -/
def KHeap.page (s : KHeap) (r : Nat) : Nat := prPageaddr (s.pagerefs r)

/-- The block type of a pageref. -/
def KHeap.blktype (s : KHeap) (r : Nat) : Nat := prBlocktype (s.pagerefs r)

/-- Each of the pagerefs `U` is once on the list of all, and once on the list of its block type; no
other is on a list. -/
structure Listed (s : KHeap) (U : Nat → Prop) : Prop where
  all : ∃ l, Links (fun r => allCell s (some r)) (allCell s none) l ∧ l.Nodup ∧ ∀ r, r ∈ l ↔ U r
  samesize : ∀ t < nsizes, ∃ l,
    Links (fun r => samesizeCell t s (some r)) (samesizeCell t s none) l ∧ l.Nodup ∧
    ∀ r, r ∈ l ↔ U r ∧ s.blktype r = t

/-- **What holds while nobody has the lock.**  `live` are the blocks handed out, each with the size
that was asked for. -/
structure KmallocInv (s : KHeap) (live : List (Nat × Nat)) : Prop where
  listed : Listed s s.InUse
  pages : ∀ r, s.InUse r → ∃ fl, PageOk s.mem (s.pagerefs r) fl ∧
    ∀ b, IsBlock (s.page r) (s.blktype r) b → (b ∈ fl ↔ b ∉ live.map Prod.fst)
  apart : ∀ r r', s.InUse r → s.InUse r' → s.page r = s.page r' → r = r'
  blocks : ∀ q ∈ live, ∃ r, s.InUse r ∧ IsBlock (s.page r) (s.blktype r) q.1 ∧
    q.2 ≤ sizes (s.blktype r)
  nodup : (live.map Prod.fst).Nodup

section Frames

variable {s s' : KHeap} {live live' : List (Nat × Nat)} {r r' t : Nat} {m : Mem} {fl : List Nat}

variable {P a b : Nat}

theorem KPage.disjoint {Q : Nat} (hP : KPage P) (hQ : KPage Q) (hne : P ≠ Q)
    (ha : P ≤ a ∧ a < P + pageSize) (hb : Q ≤ b ∧ b < Q + pageSize) : a ≠ b := by
  have h1 := hP.aligned
  have h2 := hQ.aligned
  simp only [pageSize] at *
  omega

theorem KmallocInv.kpage (h : KmallocInv s live) (hr : s.InUse r) : KPage (s.page r) := by
  obtain ⟨fl, hp, -⟩ := h.pages r hr
  exact hp.page

theorem KmallocInv.blktype_lt (h : KmallocInv s live) (hr : s.InUse r) : s.blktype r < nsizes := by
  obtain ⟨fl, hp, -⟩ := h.pages r hr
  exact hp.blktype

theorem KmallocInv.page_unique (h : KmallocInv s live) (hr : s.InUse r) (hr' : s.InUse r')
    (ha : s.page r ≤ a ∧ a < s.page r + pageSize) (ha' : s.page r' ≤ a ∧ a < s.page r' + pageSize) :
    r = r' := by
  by_contra hne
  have hpages : s.page r ≠ s.page r' := fun he => hne (h.apart r r' hr hr' he)
  exact (h.kpage hr).disjoint (h.kpage hr') hpages ha ha' rfl

theorem IsBlock.on_page (ht : t < nsizes) (h : IsBlock P t b) : P ≤ b ∧ b < P + pageSize := by
  have := h.bounds
  have := (sizes_spec t ht).1
  omega

/-- The lists, the pages and the block types are the same. -/
structure SameLists (s s' : KHeap) : Prop where
  inuse : s'.pagerefsInuse = s.pagerefsInuse
  allbase : s'.allbase = s.allbase
  sizebases : s'.sizebases = s.sizebases
  nextAll : ∀ r, (s'.pagerefs r).nextAll = (s.pagerefs r).nextAll
  nextSamesize : ∀ r, (s'.pagerefs r).nextSamesize = (s.pagerefs r).nextSamesize
  pab : ∀ r, (s'.pagerefs r).pageaddrAndBlocktype = (s.pagerefs r).pageaddrAndBlocktype

section

variable (h : SameLists s s')

include h

theorem SameLists.inUse : s'.InUse r ↔ s.InUse r := by
  rw [KHeap.InUse, KHeap.InUse, h.inuse]

theorem SameLists.page : s'.page r = s.page r := by
  rw [KHeap.page, KHeap.page, prPageaddr, prPageaddr, h.pab]

theorem SameLists.blktype : s'.blktype r = s.blktype r := by
  rw [KHeap.blktype, KHeap.blktype, prBlocktype, prBlocktype, h.pab]

theorem SameLists.listed (hl : Listed s s.InUse) : Listed s' s'.InUse := by
  constructor
  · obtain ⟨l, hlinks, hnodup, hmem⟩ := hl.all
    refine ⟨l, ?_, hnodup, fun r => (hmem r).trans h.inUse.symm⟩
    simp only [allCell] at *
    rw [h.allbase]
    exact hlinks.congr fun r _ => h.nextAll r
  · intro t ht
    obtain ⟨l, hlinks, hnodup, hmem⟩ := hl.samesize t ht
    refine ⟨l, ?_, hnodup, fun r => ?_⟩
    · simp only [samesizeCell] at *
      rw [h.sizebases]
      exact hlinks.congr fun r _ => h.nextSamesize r
    · rw [hmem r, h.inUse, h.blktype]

end

/-- A heap in which the free list of `r` has changed. -/
def KHeap.withFree (s : KHeap) (m : Mem) (r n off : Nat) : KHeap :=
  { s with mem := m }.setPageref r { s.pagerefs r with nfree := n, freelistOffset := off }

theorem sameLists_withFree (s : KHeap) (m : Mem) (r n off : Nat) :
    SameLists s (s.withFree m r n off) := by
  have hpr : ∀ r', (s.withFree m r n off).pagerefs r' =
      if r' = r then { s.pagerefs r with nfree := n, freelistOffset := off } else s.pagerefs r' :=
    fun r' => update_apply _ _ _ _
  refine ⟨rfl, rfl, rfl, fun r' => ?_, fun r' => ?_, fun r' => ?_⟩ <;>
  · rw [hpr]
    split_ifs with he
    · rw [he]
    · rfl

/-- **The free list of one page changes**, and with it which blocks are live. -/
theorem KmallocInv.withFree (h : KmallocInv s live) (hr : s.InUse r) {n off : Nat}
    (hm : Mem.SameOutside (s.page r) (s.page r + pageSize) s.mem m)
    (hp : PageOk m { s.pagerefs r with nfree := n, freelistOffset := off } fl)
    (hfl : ∀ b, IsBlock (s.page r) (s.blktype r) b → (b ∈ fl ↔ b ∉ live'.map Prod.fst))
    (hother : ∀ b, ¬ (s.page r ≤ b ∧ b < s.page r + pageSize) →
      (b ∈ live'.map Prod.fst ↔ b ∈ live.map Prod.fst))
    (hblocks : ∀ q ∈ live', ∃ r, s.InUse r ∧ IsBlock (s.page r) (s.blktype r) q.1 ∧
      q.2 ≤ sizes (s.blktype r))
    (hnodup : (live'.map Prod.fst).Nodup) : KmallocInv (s.withFree m r n off) live' := by
  have hs := sameLists_withFree s m r n off
  refine ⟨hs.listed h.listed, fun r' hr' => ?_, fun r₁ r₂ h₁ h₂ he => ?_, fun q hq => ?_, hnodup⟩
  · rw [hs.inUse] at hr'
    rw [hs.page, hs.blktype]
    by_cases he : r' = r
    · subst he
      refine ⟨fl, ?_, hfl⟩
      have hself : (s.withFree m r' n off).pagerefs r' =
          { s.pagerefs r' with nfree := n, freelistOffset := off } := update_self _ _ _
      rw [hself]
      exact hp
    · obtain ⟨fl', hp', hfl'⟩ := h.pages r' hr'
      have hpr : (s.withFree m r n off).pagerefs r' = s.pagerefs r' := update_of_ne he _ _
      -- another page: its words and its blocks are as they were
      have hout : ∀ b, IsBlock (s.page r') (s.blktype r') b → ∀ a, b ≤ a → a < b + 4 →
          ¬ (s.page r ≤ a ∧ a < s.page r + pageSize) := by
        intro b hb a h1 h2 hin
        have hbounds := hb.bounds
        have hsize := (sizes_spec _ hp'.blktype).1
        have hsize' : 16 ≤ sizes (s.blktype r') := hsize
        exact he (h.page_unique hr' hr ⟨by omega, by omega⟩ hin)
      refine ⟨fl', ?_, fun b hb => (hfl' b hb).trans (not_congr (hother b ?_)).symm⟩
      · rw [hpr]
        refine hp'.congr fun b hb => Mem.word_congr fun a h1 h2 => hm a ?_
        have := hout b (hp'.isBlock b hb) a h1 h2
        omega
      · exact hout b hb b le_rfl (by omega)
  · rw [hs.inUse] at h₁ h₂
    rw [hs.page, hs.page] at he
    exact h.apart r₁ r₂ h₁ h₂ he
  · obtain ⟨r', hr', hb, hsz⟩ := hblocks q hq
    refine ⟨r', hs.inUse.mpr hr', ?_, ?_⟩
    · rw [hs.page, hs.blktype]
      exact hb
    · rw [hs.blktype]
      exact hsz

end Frames

/-! ## 2. Allocation -/

section Alloc

variable {s : KHeap} {live : List (Nat × Nat)} {r t sz : Nat}

theorem length_le_npagerefs {l : List Nat} (hl : l.Nodup) (hlt : ∀ r ∈ l, r < npagerefs) :
    l.length ≤ npagerefs := by
  have hsub : l.Subperm (range npagerefs) :=
    subperm_of_subset hl fun r hr => mem_range.mpr (hlt r hr)
  have := hsub.length_le
  rwa [length_range] at this

theorem blocktype_spec (hsz : sz < largestSubpageSize) : Wp False (blocktype sz)
    (fun t s' => s' = s ∧ t < nsizes ∧ sz ≤ sizes t) (fun _ _ => False) s := by
  unfold blocktype
  cases hf : (range nsizes).find? fun i => decide (sz ≤ sizes i) with
  | none =>
    have hlast := find?_eq_none.mp hf 7 (by decide)
    have h7 : sizes 7 = 2048 := by decide
    simp only [h7, decide_eq_true_eq] at hlast
    simp only [largestSubpageSize] at hsz
    omega
  | some i =>
    have hle : sz ≤ sizes i := by simpa using find?_some hf
    exact wp_pure.mpr ⟨rfl, mem_range.mp (mem_of_find?_eq_some hf), hle⟩

/-- The search finds a page of the right type with a free block, and trips over no assertion. -/
theorem subpageSearch_spec (h : KmallocInv s live) (ht : t < nsizes) : Wp False (subpageSearch t)
      (fun r s' => s' = s ∧ ∀ r' ∈ r, s.InUse r' ∧ s.blktype r' = t ∧ 0 < (s.pagerefs r').nfree)
      (fun _ _ => False) s := by
  obtain ⟨l, hlinks, hnodup, hmem⟩ := h.listed.samesize t ht
  have hlen := length_le_npagerefs hnodup fun r hr => ((hmem r).mp hr).1.1
  rw [subpageSearch, wp_bind, wp_get]
  refine Prog.Wp.imp (Prog.wp_forLinks (fun r => 0 < (s.pagerefs r).nfree) hlinks
    (Nat.lt_succ_of_le hlen) fun r hr => ?_) (fun r s' hr => ⟨hr.1, fun r' hr' => ?_⟩) fun _ _ => id
  · rw [wp_bind, wp_get, wp_bind, wp_assert, wp_pure]
    exact ⟨fun _ => ⟨rfl, decide_eq_true_iff⟩, fun hno => absurd ((hmem r).mp hr).2 hno⟩
  · rw [Option.mem_def] at hr'
    subst hr'
    obtain ⟨hin, htype⟩ := (hmem r').mp hr.2.1
    exact ⟨hin, htype, hr.2.2⟩

/-- **`doalloc`** hands out a free block of a page that has one. -/
theorem doalloc_inv (h : KmallocInv s live) (hr : s.InUse r) (hn : 0 < (s.pagerefs r).nfree)
    (hsz : sz ≤ sizes (s.blktype r)) : Wp False (doalloc r)
      (fun ptr s' => KmallocInv s' ((ptr, sz) :: live) ∧ SameLists s s' ∧ s'.mem = s.mem ∧
        IsBlock (s.page r) (s.blktype r) ptr)
      (fun _ _ => False) s := by
  obtain ⟨fl, hp, hfl⟩ := h.pages r hr
  cases fl with
  | nil =>
    rw [hp.nfree] at hn
    exact absurd hn (Nat.lt_irrefl 0)
  | cons b fl =>
    refine (doalloc_spec hp).post fun ptr s' hs' => ?_
    obtain ⟨rfl, off, hp', rfl⟩ := hs'
    have hblock : IsBlock (s.page r) (s.blktype r) ptr := hp.isBlock ptr mem_cons_self
    have hfree : ptr ∉ live.map Prod.fst := (hfl ptr hblock).mp mem_cons_self
    have hon := hblock.on_page (h.blktype_lt hr)
    refine ⟨h.withFree hr (.refl _ _ _) hp' (fun b hb => ?_) (fun b hb => ?_) (fun q hq => ?_) ?_,
      sameLists_withFree s s.mem r _ off, rfl, hblock⟩
    · have hfl' := hfl b hb
      have hnodup := (nodup_cons.mp hp.nodup).1
      rw [map_cons, mem_cons, not_or, ← hfl', mem_cons]
      constructor
      · intro hmem
        refine ⟨fun he => hnodup ?_, .inr hmem⟩
        rwa [← show b = ptr from he]
      · rintro ⟨hne, hmem⟩
        exact hmem.resolve_left hne
    · rw [map_cons, mem_cons]
      refine ⟨fun hmem => hmem.resolve_left fun he => hb (he ▸ hon), .inr⟩
    · rcases mem_cons.mp hq with rfl | hq
      · exact ⟨r, hr, hblock, hsz⟩
      · exact h.blocks q hq
    · rw [map_cons, nodup_cons]
      exact ⟨hfree, h.nodup⟩

/-- **The first half of an allocation** hands out a block, or wants a page. -/
theorem kmallocStart_spec (h : KmallocInv s live) (hsz : sz < largestSubpageSize) :
    Wp False (kmallocStart sz) (fun res s' => match res with
        | .block ptr => KmallocInv s' ((ptr, sz) :: live) ∧ SameLists s s' ∧ s'.mem = s.mem
        | .page t => s' = s ∧ t < nsizes ∧ sz ≤ sizes t
        | .pages _ => False)
      (fun _ _ => False) s := by
  rw [kmallocStart, if_neg (Nat.not_le_of_lt hsz), subpageKmallocStart]
  refine (blocktype_spec hsz).bind fun t s' hs' => ?_
  obtain ⟨rfl, ht, hle⟩ := hs'
  refine (subpageSearch_spec h ht).bind fun res s' hs' => ?_
  obtain ⟨rfl, hres⟩ := hs'
  cases res with
  | none => exact wp_pure.mpr ⟨rfl, ht, hle⟩
  | some r =>
    obtain ⟨hr, htype, hn⟩ := hres r rfl
    rw [← htype] at hle
    refine (doalloc_inv h hr hn hle).bind fun ptr s₂ hs2 => ?_
    exact wp_pure.mpr ⟨hs2.1, hs2.2.1, hs2.2.2.1⟩

/-- The heap with the pageref `r` in front of both lists. -/
def KHeap.push (s : KHeap) (m : Mem) (w : Nat → BitVec 32) (r t : Nat) (p : PageRef) : KHeap where
  mem := m
  pagerefs := update s.pagerefs r p
  pagerefsInuse := w
  sizebases := update s.sizebases t (some r)
  allbase := some r

variable {P : Nat}

theorem KmallocInv.addPage {w : Nat → BitVec 32} {m : Mem} {p : PageRef} {fl : List Nat}
    (h : KmallocInv s live) (hnew : ¬ s.InUse r) (hP : ∀ r', s.InUse r' → s.page r' ≠ P)
    (hm : Mem.SameOutside P (P + pageSize) s.mem m) (hp : PageOk m p fl)
    (hfl : ∀ b, IsBlock P t b ↔ b ∈ fl) (hpage : prPageaddr p = P) (htype : prBlocktype p = t)
    (hsame : p.nextSamesize = s.sizebases t) (hall : p.nextAll = s.allbase)
    (hw : ∀ r', (s.push m w r t p).InUse r' ↔ r' = r ∨ s.InUse r') :
    KmallocInv (s.push m w r t p) live := by
  have hself : (s.push m w r t p).pagerefs r = p := update_self _ _ _
  have hold : ∀ r', r' ≠ r → (s.push m w r t p).pagerefs r' = s.pagerefs r' := fun r' hne =>
    update_of_ne hne _ _
  have hne : ∀ r', s.InUse r' → r' ≠ r := fun r' hr' he => hnew (he ▸ hr')
  have hoff : ∀ r', s.InUse r' → ∀ a, s.page r' ≤ a ∧ a < s.page r' + pageSize →
      ¬ (P ≤ a ∧ a < P + pageSize) := by
    intro r' hr' a ha ha'
    exact (h.kpage hr').disjoint (hpage ▸ hp.page) (hP r' hr') ha ha' rfl
  have hpageNew : (s.push m w r t p).page r = P := by rw [KHeap.page, hself, hpage]
  have htypeNew : (s.push m w r t p).blktype r = t := by rw [KHeap.blktype, hself, htype]
  have hpageOld : ∀ r', s.InUse r' → (s.push m w r t p).page r' = s.page r' := fun r' hr' => by
    rw [KHeap.page, KHeap.page, hold r' (hne r' hr')]
  have htypeOld : ∀ r', s.InUse r' → (s.push m w r t p).blktype r' = s.blktype r' :=
    fun r' hr' => by
    rw [KHeap.blktype, KHeap.blktype, hold r' (hne r' hr')]
  refine ⟨⟨?_, fun t₀ ht0 => ?_⟩, fun r' hr' => ?_, fun r₁ r₂ h₁ h₂ he => ?_, fun q hq => ?_,
    h.nodup⟩
  · obtain ⟨l, hlinks, hnodup, hmem⟩ := h.listed.all
    have hrl : r ∉ l := fun hmem' => hnew ((hmem r).mp hmem')
    refine ⟨r :: l, ?_, nodup_cons.mpr ⟨hrl, hnodup⟩, fun r' => ?_⟩
    · refine hlinks.push ?_ fun r' hr' => ?_
      · simp only [allCell, hself, hall]
      · simp only [allCell, hold r' fun he => hrl (he ▸ hr')]
    · rw [mem_cons, hmem, hw]
  · obtain ⟨l, hlinks, hnodup, hmem⟩ := h.listed.samesize t₀ ht0
    have hrl : r ∉ l := fun hmem' => hnew ((hmem r).mp hmem').1
    have hcells : ∀ r' ∈ l, samesizeCell t₀ (s.push m w r t p) (some r') =
        samesizeCell t₀ s (some r') := fun r' hr' => by
      simp only [samesizeCell, hold r' fun he => hrl (he ▸ hr')]
    by_cases ht : t₀ = t
    · subst ht
      refine ⟨r :: l, ?_, nodup_cons.mpr ⟨hrl, hnodup⟩, fun r' => ?_⟩
      · have hbase : samesizeCell t₀ (s.push m w r t₀ p) none = some r := update_self _ _ _
        rw [hbase]
        refine hlinks.push ?_ hcells
        simp only [samesizeCell, hself, hsame]
      · rw [mem_cons, hmem, hw]
        constructor
        · rintro (rfl | ⟨hr', ht'⟩)
          · exact ⟨.inl rfl, htypeNew⟩
          · exact ⟨.inr hr', (htypeOld r' hr').trans ht'⟩
        · rintro ⟨rfl | hr', ht'⟩
          · exact .inl rfl
          · exact .inr ⟨hr', (htypeOld r' hr').symm.trans ht'⟩
    · refine ⟨l, ?_, hnodup, fun r' => ?_⟩
      · have hbase : samesizeCell t₀ (s.push m w r t p) none = samesizeCell t₀ s none :=
          update_of_ne ht _ _
        rw [hbase]
        exact hlinks.congr hcells
      · rw [hmem, hw]
        constructor
        · rintro ⟨hr', ht'⟩
          exact ⟨.inr hr', (htypeOld r' hr').trans ht'⟩
        · rintro ⟨rfl | hr', ht'⟩
          · exact absurd (ht'.symm.trans htypeNew) ht
          · exact ⟨hr', (htypeOld r' hr').symm.trans ht'⟩
  · rcases (hw r').mp hr' with rfl | hr'
    · refine ⟨fl, ?_, fun b hb => ?_⟩
      · rw [hself]
        exact hp
      · -- a fresh page has no live block
        rw [hpageNew, htypeNew] at hb
        refine ⟨fun _ hmem => ?_, fun _ => (hfl b).mp hb⟩
        obtain ⟨q, hq, rfl⟩ := mem_map.mp hmem
        obtain ⟨r', hr', hb', -⟩ := h.blocks q hq
        exact hoff r' hr' q.1 (hb'.on_page (h.blktype_lt hr')) (hb.on_page (htype ▸ hp.blktype))
    · obtain ⟨fl', hp', hfl'⟩ := h.pages r' hr'
      rw [hpageOld r' hr', htypeOld r' hr', hold r' (hne r' hr')]
      refine ⟨fl', hp'.congr fun b hb => Mem.word_congr fun a h1 h2 => hm a ?_, hfl'⟩
      have hbounds := (hp'.isBlock b hb).bounds
      have hsize := (sizes_spec _ hp'.blktype).1
      have := hoff r' hr' a ⟨hbounds.1.trans h1, by
        change a < prPageaddr (s.pagerefs r') + pageSize
        omega⟩
      omega
  · rw [hw] at h₁ h₂
    rcases h₁ with rfl | h₁ <;> rcases h₂ with rfl | h₂
    · rfl
    · rw [hpageNew, hpageOld r₂ h₂] at he
      exact absurd he.symm (hP r₂ h₂)
    · rw [hpageNew, hpageOld r₁ h₁] at he
      exact absurd he (hP r₁ h₁)
    · rw [hpageOld r₁ h₁, hpageOld r₂ h₂] at he
      exact h.apart r₁ r₂ h₁ h₂ he
  · obtain ⟨r', hr', hb, hsz⟩ := h.blocks q hq
    refine ⟨r', (hw r').mpr (.inr hr'), ?_, ?_⟩
    · rw [hpageOld r' hr', htypeOld r' hr']
      exact hb
    · rw [htypeOld r' hr']
      exact hsz

/-- **The second half of an allocation** cuts up the page, unless there is no pageref for it. -/
theorem subpageKmallocFresh_spec (h : KmallocInv s live) (hP : KPage P)
    (hfresh : ∀ r, s.InUse r → s.page r ≠ P) (ht : t < nsizes) (hsz : sz ≤ sizes t) :
    Wp False (subpageKmallocFresh P t) (fun res s' => match res with
        | none => s' = s ∧ ∀ r < npagerefs, s.InUse r
        | some ptr => KmallocInv s' ((ptr, sz) :: live) ∧ ∃ r, ¬ s.InUse r ∧
          (∀ r', s'.InUse r' ↔ r' = r ∨ s.InUse r') ∧ s'.page r = P ∧ s'.blktype r = t ∧
          IsBlock P t ptr ∧
          (∀ r', s.InUse r' → s'.page r' = s.page r' ∧ s'.blktype r' = s.blktype r') ∧
          Mem.SameOutside P (P + pageSize) s.mem s'.mem)
      (fun _ _ => False) s := by
  refine allocpageref_spec.bind fun res s₁ h1 => ?_
  cases res with
  | none => exact wp_pure.mpr h1
  | some r =>
    obtain ⟨-, hnew, w, rfl, hw⟩ := h1
    refine (freshPage_spec hP ht).bind fun _ s₂ h2 => ?_
    obtain ⟨m, p, fl, hm, hp, hfl, hpage, htype, hsame, hall, rfl⟩ := h2
    have hinv : KmallocInv (s.push m w r t p) live :=
      h.addPage hnew hfresh hm hp hfl hpage htype hsame hall hw
    have hself : (s.push m w r t p).pagerefs r = p := update_self _ _ _
    have htypeNew : (s.push m w r t p).blktype r = t := by rw [KHeap.blktype, hself, htype]
    have hpageNew : (s.push m w r t p).page r = P := by rw [KHeap.page, hself, hpage]
    have hn : 0 < ((s.push m w r t p).pagerefs r).nfree := by
      have hfirst : P ∈ fl := (hfl P).mp ⟨0, by have := sizes_spec t ht; omega, by simp⟩
      rw [hself, hp.nfree]
      exact length_pos_of_mem hfirst
    rw [wp_bind]
    have halloc := doalloc_inv hinv ((hw r).mpr (.inl rfl)) hn (htypeNew ▸ hsz)
    refine halloc.post fun ptr s₃ h3 => wp_pure.mpr ?_
    obtain ⟨hinv3, hlists, hmem, hblock⟩ := h3
    rw [hpageNew, htypeNew] at hblock
    refine ⟨hinv3, r, hnew, fun r' => hlists.inUse.trans (hw r'), hlists.page.trans hpageNew,
      hlists.blktype.trans htypeNew, hblock, fun r' hr' => ?_, ?_⟩
    · have hne : r' ≠ r := fun he => hnew (he ▸ hr')
      have hold : (s.push m w r t p).pagerefs r' = s.pagerefs r' := update_of_ne hne _ _
      rw [hlists.page, hlists.blktype, KHeap.page, KHeap.blktype, hold]
      exact ⟨rfl, rfl⟩
    · rw [hmem]
      exact hm


end Alloc

/-! ## 3. Release -/

section Free

variable {s s' : KHeap} {live live' : List (Nat × Nat)} {r r' t ptr : Nat}

theorem kfreeSearch_spec (h : KmallocInv s live) (hr : s.InUse r)
    (hptr : s.page r ≤ ptr ∧ ptr < s.page r + pageSize) :
    Wp False (kfreeSearch ptr) (fun res s' => s' = s ∧ res = some r) (fun _ _ => False) s := by
  obtain ⟨l, hlinks, hnodup, hmem⟩ := h.listed.all
  have hlen := length_le_npagerefs hnodup fun r hr => ((hmem r).mp hr).1
  have hend : ∀ r', s.InUse r' →
      u32 (prPageaddr (s.pagerefs r') + pageSize) = s.page r' + pageSize := fun r' hr' =>
    u32_of_lt (h.kpage hr').lt
  rw [kfreeSearch, wp_bind, wp_get]
  refine Prog.Wp.imp (Prog.wp_forLinks (fun r => s.page r ≤ ptr ∧ ptr < s.page r + pageSize) hlinks
    (Nat.lt_succ_of_le hlen) fun r' hr' => ?_) (fun res s' hs' => ⟨hs'.1, ?_⟩) fun _ _ => id
  · have hin := (hmem r').mp hr'
    rw [wp_bind, wp_get, wp_bind, wp_assert, wp_pure, hend r' hin]
    exact ⟨fun _ => ⟨rfl, decide_eq_true_iff⟩, fun hno => absurd (h.blktype_lt hin) hno⟩
  · cases res with
    | none => exact absurd hptr (hs'.2 r ((hmem r).mpr hr))
    | some r' =>
      obtain ⟨hmem', hgood⟩ := hs'.2
      rw [h.page_unique ((hmem r').mp hmem') hr hgood hptr]

/-- The parts of a pageref that its page is described by are the same, and so is the memory. -/
structure SamePages (s s' : KHeap) : Prop where
  mem : s'.mem = s.mem
  pab : ∀ r, (s'.pagerefs r).pageaddrAndBlocktype = (s.pagerefs r).pageaddrAndBlocktype
  offset : ∀ r, (s'.pagerefs r).freelistOffset = (s.pagerefs r).freelistOffset
  nfree : ∀ r, (s'.pagerefs r).nfree = (s.pagerefs r).nfree

section

variable (h : SamePages s s')

include h

theorem SamePages.trans {s'' : KHeap} (h' : SamePages s' s'') : SamePages s s'' :=
  ⟨h'.mem.trans h.mem, fun r => (h'.pab r).trans (h.pab r),
    fun r => (h'.offset r).trans (h.offset r), fun r => (h'.nfree r).trans (h.nfree r)⟩

theorem SamePages.page : s'.page r = s.page r := by
  rw [KHeap.page, KHeap.page, prPageaddr, prPageaddr, h.pab]

theorem SamePages.blktype : s'.blktype r = s.blktype r := by
  rw [KHeap.blktype, KHeap.blktype, prBlocktype, prBlocktype, h.pab]

theorem SamePages.pageOk {fl : List Nat} (hp : PageOk s.mem (s.pagerefs r) fl) :
    PageOk s'.mem (s'.pagerefs r) fl := by
  have hpage : prPageaddr (s'.pagerefs r) = prPageaddr (s.pagerefs r) := h.page
  have htype : prBlocktype (s'.pagerefs r) = prBlocktype (s.pagerefs r) := h.blktype
  refine ⟨?_, ?_, ?_, ?_, hp.nodup, (h.nfree r).trans hp.nfree⟩
  · rw [hpage]
    exact hp.page
  · rw [htype]
    exact hp.blktype
  · rw [freeHead, h.offset, hpage, h.mem]
    exact hp.chain
  · rw [hpage, htype]
    exact hp.isBlock

end

/-! The cells of the lists, after one of them has been written. -/

theorem samesizeCell_set (c v : Option Nat) : samesizeCell t (setSamesizeCell t c v s) c = v := by
  cases c with
  | none => exact update_self _ _ _
  | some r => simp only [samesizeCell, setSamesizeCell, KHeap.setPageref, update_self]

variable {c d v : Option Nat} {U : Nat → Prop} {q : Nat × Nat}

/-- A field of a pageref, after a pageref has been written. -/
theorem setPageref_field {β : Type} (g : PageRef → β) {r' : Nat} {p : PageRef}
    (h : r' ≠ r ∨ g p = g (s.pagerefs r)) :
    g ((s.setPageref r p).pagerefs r') = g (s.pagerefs r') := by
  simp only [KHeap.setPageref, update_apply]
  split_ifs with he
  · rw [he]
    exact h.resolve_left (not_not.mpr he)
  · rfl

theorem samesizeCell_set_of_ne {t' : Nat} (h : d ≠ c ∨ t' ≠ t ∧ d = none) :
    samesizeCell t' (setSamesizeCell t c v s) d = samesizeCell t' s d := by
  cases c with
  | none =>
    cases d with
    | none => exact update_of_ne (h.resolve_left (not_not.mpr rfl)).1 _ _
    | some r => rfl
  | some r =>
    cases d with
    | none => rfl
    | some r' =>
      have hne : r' ≠ r := fun he =>
        h.elim (fun h => h (he ▸ rfl)) fun h => Option.some_ne_none _ h.2
      exact setPageref_field (·.nextSamesize) (.inl hne)

theorem allCell_setSamesize (c d v : Option Nat) :
    allCell (setSamesizeCell t c v s) d = allCell s d := by
  cases c with
  | none => cases d <;> rfl
  | some r =>
    cases d with
    | none => rfl
    | some r' => exact setPageref_field (·.nextAll) (.inr rfl)

theorem allCell_set (c v : Option Nat) : allCell (setAllCell c v s) c = v := by
  cases c with
  | none => rfl
  | some r => simp only [allCell, setAllCell, KHeap.setPageref, update_self]

theorem allCell_set_of_ne (h : d ≠ c) : allCell (setAllCell c v s) d = allCell s d := by
  cases c with
  | none =>
    cases d with
    | none => exact absurd rfl h
    | some r => rfl
  | some r =>
    cases d with
    | none => rfl
    | some r' => exact setPageref_field (·.nextAll) (.inl fun he => h (he ▸ rfl))

theorem samesizeCell_setAll (c d v : Option Nat) :
    samesizeCell t (setAllCell c v s) d = samesizeCell t s d := by
  cases c with
  | none => cases d <;> rfl
  | some r =>
    cases d with
    | none => rfl
    | some r' => exact setPageref_field (·.nextSamesize) (.inr rfl)

theorem samePages_setPageref {p : PageRef}
    (hpab : p.pageaddrAndBlocktype = (s.pagerefs r).pageaddrAndBlocktype)
    (hoff : p.freelistOffset = (s.pagerefs r).freelistOffset)
    (hn : p.nfree = (s.pagerefs r).nfree) : SamePages s (s.setPageref r p) :=
  ⟨rfl, fun _ => setPageref_field _ (.inr hpab), fun _ => setPageref_field _ (.inr hoff),
    fun _ => setPageref_field _ (.inr hn)⟩

theorem samePages_setSamesizeCell (c v : Option Nat) : SamePages s (setSamesizeCell t c v s) := by
  cases c with
  | none => exact ⟨rfl, fun _ => rfl, fun _ => rfl, fun _ => rfl⟩
  | some r => exact samePages_setPageref rfl rfl rfl

theorem samePages_setAllCell (c v : Option Nat) : SamePages s (setAllCell c v s) := by
  cases c with
  | none => exact ⟨rfl, fun _ => rfl, fun _ => rfl, fun _ => rfl⟩
  | some r => exact samePages_setPageref rfl rfl rfl

theorem pagerefsInuse_setSamesizeCell (c v : Option Nat) :
    (setSamesizeCell t c v s).pagerefsInuse = s.pagerefsInuse := by cases c <;> rfl

theorem pagerefsInuse_setAllCell (c v : Option Nat) :
    (setAllCell c v s).pagerefsInuse = s.pagerefsInuse := by cases c <;> rfl

/-- **`remove_lists`** takes the pageref off its two lists. -/
theorem removeLists_spec (hl : Listed s U) (hU : ∀ r, U r → r < npagerefs) (hr : U r)
    (ht : s.blktype r < nsizes) : Wp False (removeLists r (s.blktype r))
      (fun _ s' => SamePages s s' ∧ s'.pagerefsInuse = s.pagerefsInuse ∧
        Listed s' fun r' => r' ≠ r ∧ U r')
      (fun _ _ => False) s := by
  obtain ⟨la, hlinksa, hnodupa, hmema⟩ := hl.all
  obtain ⟨ls, hlinkss, hnodups, hmems⟩ := hl.samesize _ ht
  have hlena := length_le_npagerefs hnodupa fun r hr => hU r ((hmema r).mp hr)
  have hlens := length_le_npagerefs hnodups fun r hr => hU r ((hmems r).mp hr).1
  obtain ⟨prea, posta, rfl⟩ := append_of_mem ((hmema r).mpr hr)
  obtain ⟨pres, posts, rfl⟩ := append_of_mem ((hmems r).mpr ⟨hr, rfl⟩)
  have hsa : r ∉ prea := fun h => (disjoint_of_nodup_append hnodupa) h mem_cons_self
  have hss : r ∉ pres := fun h => (disjoint_of_nodup_append hnodups) h mem_cons_self
  rw [length_append] at hlena hlens
  rw [removeLists, wp_bind, wp_assert_of ht]
  refine (Prog.wp_unlink hlinkss hss (by omega)).bind fun _ s₁ h1 => ?_
  -- the other list is not touched by that
  have hcells : ∀ d, allCell s₁ d = allCell s d := fun d => by rw [h1, allCell_setSamesize]
  have hlinksa1 : Links (fun r => allCell s₁ (some r)) (allCell s₁ none) (prea ++ r :: posta) := by
    simp only [hcells]
    exact hlinksa
  refine (Prog.wp_unlink hlinksa1 hsa (by omega)).post fun _ s₂ h2 => ?_
  have hpages1 : SamePages s s₁ := by
    rw [h1]
    exact samePages_setSamesizeCell _ _
  have hpages : SamePages s s₂ := by
    rw [h2]
    exact hpages1.trans (samePages_setAllCell _ _)
  have hcells2 : ∀ t d, samesizeCell t s₂ d = samesizeCell t s₁ d := fun t d => by
    rw [h2, samesizeCell_setAll]
  refine ⟨hpages, ?_, ?_, fun t ht' => ?_⟩
  · rw [h2, h1, pagerefsInuse_setAllCell, pagerefsInuse_setSamesizeCell]
  · refine ⟨prea ++ posta, ?_, hnodupa.sublist (by simp), fun r' => ?_⟩
    · refine Links.unlink hlinksa1 hnodupa (fun _ _ => (Option.some_ne_none _).symm) ?_
        fun d hd => ?_
      · rw [h2, allCell_set]
      · rw [h2, allCell_set_of_ne hd]
    · rw [mem_of_unlinked hnodupa, hmema]
  · by_cases htt : t = s.blktype r
    · subst htt
      refine ⟨pres ++ posts, ?_, hnodups.sublist (by simp), fun r' => ?_⟩
      · simp only [hcells2]
        refine Links.unlink hlinkss hnodups (fun _ _ => (Option.some_ne_none _).symm) ?_
          fun d hd => ?_
        · rw [h1, samesizeCell_set]
        · rw [h1, samesizeCell_set_of_ne (.inl hd)]
      · rw [mem_of_unlinked hnodups, hmems, hpages.blktype, and_assoc]
    · obtain ⟨l, hlinks, hnodup, hmem⟩ := hl.samesize t ht'
      refine ⟨l, ?_, hnodup, fun r' => ?_⟩
      · simp only [hcells2]
        rw [h1, samesizeCell_set_of_ne (.inr ⟨htt, rfl⟩)]
        refine hlinks.congr fun r' hr' => ?_
        refine samesizeCell_set_of_ne (.inl fun he => ?_)
        -- the cell that was written belongs to a pageref of the other type
        have hmem' := (hmems r').mp (mem_append_left _ (mem_of_getLastD he.symm))
        exact htt (((hmem r').mp hr').2.symm.trans hmem'.2)
      · rw [hmem, hpages.blktype]
        constructor
        · rintro ⟨hu, hty⟩
          exact ⟨⟨fun he => htt (by rw [← hty, he]), hu⟩, hty⟩
        · rintro ⟨⟨-, hu⟩, hty⟩
          exact ⟨hu, hty⟩

theorem KmallocInv.dropPage (h : KmallocInv s live) (hs : SamePages s s') (hl : Listed s' s'.InUse)
    (hw : ∀ r', s'.InUse r' ↔ r' ≠ r ∧ s.InUse r')
    (hempty : ∀ b, IsBlock (s.page r) (s.blktype r) b → b ∉ live.map Prod.fst) :
    KmallocInv s' live := by
  refine ⟨hl, fun r' hr' => ?_, fun r₁ r₂ h1 h2 he => ?_, fun q hq => ?_, h.nodup⟩
  · obtain ⟨fl, hp, hfl⟩ := h.pages r' ((hw r').mp hr').2
    refine ⟨fl, hs.pageOk hp, ?_⟩
    rw [hs.page, hs.blktype]
    exact hfl
  · rw [hs.page, hs.page] at he
    exact h.apart r₁ r₂ ((hw r₁).mp h1).2 ((hw r₂).mp h2).2 he
  · obtain ⟨r', hr', hb, hsz⟩ := h.blocks q hq
    have hne : r' ≠ r := fun he => hempty q.1 (he ▸ hb) (mem_map_of_mem hq)
    refine ⟨r', (hw r').mpr ⟨hne, hr'⟩, ?_, ?_⟩
    · rw [hs.page, hs.blktype]
      exact hb
    · rw [hs.blktype]
      exact hsz

theorem kfreeBlock_inv (h : KmallocInv s live) (hq : q ∈ live) (hr : s.InUse r)
    (hb : IsBlock (s.page r) (s.blktype r) q.1) : Wp False (kfreeBlock r q.1)
      (fun _ s' => KmallocInv s' (live.filter fun p => p.1 ≠ q.1) ∧ SameLists s s' ∧
        Mem.SameOutside q.1 (q.1 + sizes (s.blktype r)) s.mem s'.mem)
      (fun _ _ => False) s := by
  obtain ⟨fl, hp, hfl⟩ := h.pages r hr
  have hlive : q.1 ∈ live.map Prod.fst := mem_map_of_mem hq
  have hnew : q.1 ∉ fl := fun hmem => (hfl q.1 hb).mp hmem hlive
  have hmem' : ∀ b, b ∈ (live.filter fun p => p.1 ≠ q.1).map Prod.fst ↔
      b ≠ q.1 ∧ b ∈ live.map Prod.fst := by
    intro b
    simp only [mem_map, mem_filter, decide_eq_true_eq]
    constructor
    · rintro ⟨p, ⟨hp, hne⟩, rfl⟩
      exact ⟨hne, p, hp, rfl⟩
    · rintro ⟨hne, p, hp, rfl⟩
      exact ⟨p, ⟨hp, hne⟩, rfl⟩
  have hon := hb.on_page (h.blktype_lt hr)
  have hbounds := hb.bounds
  refine (kfreeBlock_spec hp hb hnew).post fun _ s' hs' => ?_
  obtain ⟨m, off, hm, hp', rfl⟩ := hs'
  refine ⟨h.withFree hr (hm.mono hon.1 hbounds.2) hp' (fun b hb' => ?_) (fun b hout => ?_)
    (fun p hp => ?_) ?_, sameLists_withFree s m r _ off, hm⟩
  · rw [mem_cons, hmem', hfl b hb', not_and]
    exact or_iff_not_imp_left
  · rw [hmem']
    refine ⟨And.right, fun hmem => ⟨fun he => hout (he ▸ hon), hmem⟩⟩
  · exact h.blocks p (mem_filter.mp hp).1
  · exact h.nodup.sublist (filter_sublist.map Prod.fst)

/-- What `kfree` of the block `q` on the page of `r` does.  The page goes to `free_kpages` exactly
if no other block of it is live. -/
structure KFreed (s s' : KHeap) (live : List (Nat × Nat)) (q : Nat × Nat) (r : Nat)
    (res : Option Nat) : Prop where
  inv : KmallocInv s' (live.filter fun p => p.1 ≠ q.1)
  page : ∀ r', s'.page r' = s.page r'
  blktype : ∀ r', s'.blktype r' = s.blktype r'
  same : Mem.SameOutside q.1 (q.1 + sizes (s.blktype r)) s.mem s'.mem
  kept : res = none → (∀ r', s'.InUse r' ↔ s.InUse r') ∧
    ∃ p ∈ live, p.1 ≠ q.1 ∧ IsBlock (s.page r) (s.blktype r) p.1
  given : ∀ P ∈ res, P = s.page r ∧ (∀ r', s'.InUse r' ↔ r' ≠ r ∧ s.InUse r') ∧
    ∀ p ∈ live, p.1 ≠ q.1 → ¬ IsBlock (s.page r) (s.blktype r) p.1

theorem Listed.congr {V : Nat → Prop} {w : Nat → BitVec 32} (hl : Listed s U)
    (hUV : ∀ r, U r ↔ V r) :
    Listed { s with pagerefsInuse := w } V := by
  constructor
  · obtain ⟨l, hlinks, hnodup, hmem⟩ := hl.all
    exact ⟨l, hlinks, hnodup, fun r => (hmem r).trans (hUV r)⟩
  · intro t ht
    obtain ⟨l, hlinks, hnodup, hmem⟩ := hl.samesize t ht
    refine ⟨l, hlinks, hnodup, fun r => ?_⟩
    rw [hmem r, hUV r]
    exact Iff.rfl

/-- **A page that has become free** leaves the lists and gives back its pageref. -/
theorem dropPage_spec (h : KmallocInv s live) (hr : s.InUse r)
    (hempty : ∀ b, IsBlock (s.page r) (s.blktype r) b → b ∉ live.map Prod.fst) :
    Wp False (do removeLists r (s.blktype r); freepageref r)
      (fun _ s' => KmallocInv s' live ∧ SamePages s s' ∧ ∀ r', s'.InUse r' ↔ r' ≠ r ∧ s.InUse r')
      (fun _ _ => False) s := by
  refine (removeLists_spec h.listed (fun r hr => hr.1) hr (h.blktype_lt hr)).bind fun _ s₁ h1 => ?_
  obtain ⟨hpages, hbits, hl⟩ := h1
  have hin : ∀ r', s₁.InUse r' ↔ s.InUse r' := fun r' => by rw [KHeap.InUse, KHeap.InUse, hbits]
  refine (freepageref_spec ((hin r).mpr hr)).post fun _ s₂ h2 => ?_
  obtain ⟨w, rfl, hw⟩ := h2
  have hw' : ∀ r', KHeap.InUse { s₁ with pagerefsInuse := w } r' ↔ r' ≠ r ∧ s.InUse r' := fun r' =>
    (hw r').trans (and_congr_right fun _ => hin r')
  have hpages' : SamePages s { s₁ with pagerefsInuse := w } :=
    { hpages with }
  exact ⟨h.dropPage hpages' (hl.congr fun r' => (hw' r').symm) hw' hempty, hpages', hw'⟩

theorem kfreeIn_spec (h : KmallocInv s live) (hq : q ∈ live) (hr : s.InUse r)
    (hb : IsBlock (s.page r) (s.blktype r) q.1) : Wp False (kfreeIn r q.1)
      (fun res s' => KFreed s s' live q r res) (fun _ _ => False) s := by
  have ht := h.blktype_lt hr
  have hon := hb.on_page ht
  have hoff : ¬ (q.1 - prPageaddr (s.pagerefs r) ≥ pageSize ∨
      (q.1 - prPageaddr (s.pagerefs r)) % sizes (prBlocktype (s.pagerefs r)) ≠ 0) := by
    rintro (hge | hne)
    · have hge' : q.1 - s.page r ≥ pageSize := hge
      omega
    · exact hne hb.offset_mod
  rw [kfreeIn, wp_bind, wp_get, if_neg hoff]
  refine (kfreeBlock_inv h hq hr hb).bind fun _ s₁ h1 => ?_
  obtain ⟨hinv, hlists, hm⟩ := h1
  have hr1 : s₁.InUse r := hlists.inUse.mpr hr
  obtain ⟨fl, hp, hfl⟩ := hinv.pages r hr1
  have hpage : prPageaddr (s.pagerefs r) = s₁.page r := hlists.page.symm
  have htype : prBlocktype (s.pagerefs r) = s₁.blktype r := hlists.blktype.symm
  have hfull := length_eq_of_blocks hp.blktype hp.nodup hp.isBlock
  rw [wp_bind, wp_get, wp_bind, wp_assert, hp.nfree, htype, hpage]
  refine ⟨fun _ => ?_, fun hno => absurd hp.length_le hno⟩
  have hlive : ∀ b, b ∉ (live.filter fun p => p.1 ≠ q.1).map Prod.fst ↔
      ∀ p ∈ live, p.1 ≠ q.1 → p.1 ≠ b := by
    intro b
    simp only [mem_map, mem_filter, decide_eq_true_eq, not_exists, not_and, and_imp]
  by_cases hn : fl.length = pageSize / sizes (s₁.blktype r)
  · -- the last live block of the page
    have hempty : ∀ b, IsBlock (s₁.page r) (s₁.blktype r) b →
        b ∉ (live.filter fun p => p.1 ≠ q.1).map Prod.fst := fun b hb' =>
      (hfl b hb').mp (hfull.mp hn b hb')
    have hdrop := dropPage_spec hinv hr1 hempty
    rw [wp_bind] at hdrop
    rw [if_pos hn]
    refine hdrop.bind fun _ s₂ h2 => ?_
    refine h2.bind fun _ s₃ h3 => wp_pure.mpr ?_
    obtain ⟨hinv3, hpages, hw⟩ := h3
    refine ⟨hinv3, fun r' => hpages.page.trans hlists.page,
      fun r' => hpages.blktype.trans hlists.blktype, ?_, fun hno =>
        absurd hno (Option.some_ne_none _),
      fun P hP => ?_⟩
    · rw [hpages.mem]
      exact hm
    · rw [Option.mem_some_iff] at hP
      refine ⟨hP ▸ hlists.page, fun r' => (hw r').trans (and_congr_right fun _ => hlists.inUse), ?_⟩
      intro p hp' hne hblock
      rw [← hlists.page, ← hlists.blktype] at hblock
      exact (hlive p.1).mp (hempty p.1 hblock) p hp' hne rfl
  · rw [if_neg hn, wp_pure]
    refine ⟨hinv, fun r' => hlists.page, fun r' => hlists.blktype, hm,
      fun _ => ⟨fun r' => hlists.inUse, ?_⟩, fun P hP => absurd hP (Option.not_mem_none P)⟩
    -- some block of the page is not on its free list
    by_contra hno
    refine hn (hfull.mpr fun b hb' => (hfl b hb').mpr ((hlive b).mpr ?_))
    intro p hp' hne he
    refine hno ⟨p, hp', hne, ?_⟩
    rw [← hlists.page, ← hlists.blktype, he]
    exact hb'

/-- **`kfree`** of a live block. -/
theorem kfree_spec (h : KmallocInv s live) (hq : q ∈ live) : Wp False (kfree q.1)
      (fun res s' => ∃ r, s.InUse r ∧ IsBlock (s.page r) (s.blktype r) q.1 ∧
        KFreed s s' live q r res)
      (fun _ _ => False) s := by
  obtain ⟨r, hr, hb, -⟩ := h.blocks q hq
  have hon := hb.on_page (h.blktype_lt hr)
  have hpos := (h.kpage hr).pos
  rw [kfree, if_neg (by omega)]
  refine (kfreeSearch_spec h hr hon).bind fun res s' hs' => ?_
  obtain ⟨rfl, rfl⟩ := hs'
  exact (kfreeIn_spec h hq hr hb).post fun res s₁ h1 => ⟨r, hr, hb, h1⟩

end Free

/-! ## 4. Calls that interleave -/

/-- What a call is about to do once it runs again. -/
inductive KCall
  | idle
  /-- It calls `alloc_kpages`, ... -/
  | wantPage (blktype sz : Nat)
  /-- ... has come back with a page, ... -/
  | havePage (page blktype sz : Nat)
  /-- ... or is about to call `free_kpages`. -/
  | giveBack (page : Nat)

/-- The page that a call has in its hands. -/
def KCall.page : KCall → Option Nat
  | .havePage P _ _ => some P
  | .giveBack P => some P
  | _ => none

/-- The heap, the blocks handed out, and the calls under way, each under a number of its own. -/
structure KSystem where
  heap : KHeap
  live : List (Nat × Nat)
  calls : Nat → KCall

/-- The system with the state of call `i` changed. -/
def KSystem.setCall (s : KSystem) (i : Nat) (c : KCall) : KSystem :=
  { s with calls := update s.calls i c }

/-- A stretch of code under the spinlock. -/
def kmallocLocked {α : Type} (m : Kmalloc α) : Prog Empty KSystem α :=
  zoom KSystem.heap (fun s h => { s with heap := h }) m

/-- What can happen next. -/
inductive KOp
  | kmalloc (i sz : Nat)
  | allocKpages (i : Nat) (page : Option Nat)
  | resume (i : Nat)
  | kfree (i ptr : Nat)
  | freeKpages (i : Nat)
  | store (mem : Mem)

/-- The step. -/
def KOp.call : KOp → Prog Empty KSystem Unit
  | .kmalloc i sz => do
    match ← kmallocLocked (kmallocStart sz) with
    | .block ptr => modify fun s => { s with live := (ptr, sz) :: s.live }
    | .page t => modify fun s => s.setCall i (.wantPage t sz)
    | .pages _ => pure ()
  | .allocKpages i page => do
    let s ← get
    match s.calls i, page with
    | .wantPage t sz, some P => modify fun s => s.setCall i (.havePage P t sz)
    | _, _ => modify fun s => s.setCall i .idle
  | .resume i => do
    let s ← get
    match s.calls i with
    | .havePage P t sz => do
      match ← kmallocLocked (subpageKmallocFresh P t) with
      | some ptr => modify fun s => { s.setCall i .idle with live := (ptr, sz) :: s.live }
      | none => modify fun s => s.setCall i (.giveBack P)
    | _ => pure ()
  | .kfree i ptr => do
    let page ← kmallocLocked (Os161.kfree ptr)
    modify fun s => { s.setCall i (page.elim .idle .giveBack) with
      live := s.live.filter fun p => p.1 ≠ ptr }
  | .freeKpages i => modify fun s => s.setCall i .idle
  | .store mem => modify fun s => { s with heap := { s.heap with mem := mem } }

/-- The allocator owns the pages of the pagerefs in use and those its calls have in their hands. -/
def KSystem.Owns (s : KSystem) (P : Nat) : Prop :=
  (∃ r, s.heap.InUse r ∧ s.heap.page r = P) ∨ ∃ i, (s.calls i).page = some P

/-- When it can happen: `kmalloc` of a small size; `kfree` of a live block; `alloc_kpages` returns 0
or a page that the allocator does not own; and the users of the blocks write into them, and into
memory that is on no page of the allocator. -/
def KOp.Legal (op : KOp) (s : KSystem) : Prop :=
  match op with
  | .kmalloc i sz => s.calls i = .idle ∧ sz < largestSubpageSize
  | .allocKpages i page => (∃ t sz, s.calls i = .wantPage t sz) ∧ ∀ P ∈ page, KPage P ∧ ¬ s.Owns P
  | .resume i => ∃ P t sz, s.calls i = .havePage P t sz
  | .kfree i ptr => s.calls i = .idle ∧ ptr ∈ s.live.map Prod.fst
  | .freeKpages i => ∃ P, s.calls i = .giveBack P
  | .store mem => ∀ r a, s.heap.InUse r → s.heap.page r ≤ a → a < s.heap.page r + pageSize →
      (∀ q ∈ s.live, ¬ (q.1 ≤ a ∧ a < q.1 + q.2)) → mem a = s.heap.mem a

/-- When the step makes call `i` hand the page `P` to `free_kpages`: it frees the last live block on
it, or there is no pageref for a fresh page. -/
def KOp.HandsOver (op : KOp) (s : KSystem) (i P : Nat) : Prop :=
  match op with
  | .kfree j ptr => j = i ∧ (∃ r, s.heap.InUse r ∧ s.heap.page r = P) ∧
      (P ≤ ptr ∧ ptr < P + pageSize) ∧
      ∀ q ∈ s.live, q.1 ≠ ptr → ¬ (P ≤ q.1 ∧ q.1 < P + pageSize)
  | .resume j => j = i ∧ (∃ t sz, s.calls i = .havePage P t sz) ∧ ∀ r < npagerefs, s.heap.InUse r
  | _ => False

section Calls

variable {s s' : KSystem} {op : KOp} {i j : Nat} {c : KCall}

/-- What a call under way knows. -/
def CallOk (h : KHeap) : KCall → Prop
  | .wantPage t sz => t < nsizes ∧ sz ≤ sizes t
  | .havePage P t sz => KPage P ∧ t < nsizes ∧ sz ≤ sizes t ∧ ∀ r, h.InUse r → h.page r ≠ P
  | _ => True

/-- **The invariant of the system.**  A fresh page is in the hands of one call and on no list. -/
structure KSysInv (s : KSystem) : Prop where
  heap : KmallocInv s.heap s.live
  calls : ∀ i, CallOk s.heap (s.calls i)
  apart : ∀ i j P t sz t' sz', s.calls i = .havePage P t sz → s.calls j = .havePage P t' sz' → i = j

theorem KSystem.setCall_calls (s : KSystem) (i j : Nat) (c : KCall) :
    (s.setCall i c).calls j = if j = i then c else s.calls j := update_apply _ _ _ _

variable {h' : KHeap} {sz t : Nat}

theorem CallOk.mono {h : KHeap} (hc : CallOk h c)
    (hle : ∀ r, h'.InUse r → h.InUse r ∧ h'.page r = h.page r) : CallOk h' c := by
  cases c with
  | havePage P t sz =>
    obtain ⟨hP, ht, hsz, hfresh⟩ := hc
    refine ⟨hP, ht, hsz, fun r hr => ?_⟩
    obtain ⟨hr', hpage⟩ := hle r hr
    rw [hpage]
    exact hfresh r hr'
  | _ => exact hc

theorem KSysInv.step {live' : List (Nat × Nat)} (h : KSysInv s) (hinv : KmallocInv h' live')
    (hothers : ∀ j, j ≠ i → CallOk h' (s.calls j)) (hc : CallOk h' c)
    (hpage : ∀ P t sz, c = .havePage P t sz → ∀ j, j ≠ i → (s.calls j).page ≠ some P) :
    KSysInv ⟨h', live', update s.calls i c⟩ := by
  have hcalls : ∀ k, update s.calls i c k = if k = i then c else s.calls k := fun k =>
    update_apply _ _ _ _
  refine ⟨hinv, fun k => ?_, fun k l P t sz t' sz' hk hl => ?_⟩
  · simp only [hcalls]
    split_ifs with hk
    · exact hc
    · exact hothers k hk
  · simp only [hcalls] at hk hl
    split_ifs at hk hl with h1 h2 h2
    · exact h1.trans h2.symm
    · exact absurd (by rw [hl]; rfl) (hpage P t sz hk l h2)
    · exact absurd (by rw [hk]; rfl) (hpage P t' sz' hl k h1)
    · exact h.apart k l P t sz t' sz' hk hl

theorem not_handsOver (calls : Nat → KCall) (c : KCall) (hc : ∀ P, c ≠ .giveBack P) (i j P : Nat) :
    ¬ (update calls i c j = .giveBack P ∧ calls j ≠ .giveBack P) := by
  rintro ⟨h1, h2⟩
  rw [update_apply] at h1
  split_ifs at h1
  · exact hc P h1
  · exact h2 h1

/-- What a step is shown to do: it keeps the invariant, and hands over a page when it should. -/
def KOp.Good (op : KOp) (s s' : KSystem) : Prop :=
  KSysInv s' ∧ ∀ i P, (s'.calls i = .giveBack P ∧ s.calls i ≠ .giveBack P) ↔ op.HandsOver s i P

section

variable (h : KSysInv s)

include h

theorem kmalloc_good (hidle : s.calls i = .idle) (hsz : sz < largestSubpageSize) :
    Wp False (KOp.kmalloc i sz).call
      (fun _ s' => (KOp.kmalloc i sz).Good s s') (fun _ _ => False) s := by
  rw [KOp.call, wp_bind, kmallocLocked, wp_zoom]
  refine (kmallocStart_spec h.heap hsz).post fun res h' hres => ?_
  cases res with
  | block ptr =>
    obtain ⟨hinv, hlists, -⟩ := hres
    have hcalls : update s.calls i .idle = s.calls := by rw [← hidle, update_eq_self]
    have hstep := h.step (i := i) (c := .idle) hinv
      (fun j _ => (h.calls j).mono fun r hr => ⟨hlists.inUse.mp hr, hlists.page⟩) trivial
      fun _ _ _ he => nomatch he
    rw [hcalls] at hstep
    exact wp_modify.mpr ⟨hstep, fun j P => ⟨fun hj => absurd hj.1 hj.2, False.elim⟩⟩
  | page t =>
    obtain ⟨rfl, ht, hle⟩ := hres
    refine wp_modify.mpr ⟨h.step h.heap (fun j _ => h.calls j) ⟨ht, hle⟩ (fun _ _ _ he =>
      nomatch he), fun j P => ⟨not_handsOver s.calls (.wantPage t sz) (fun _ he => nomatch he) i j
        P,
        False.elim⟩⟩
  | pages n => exact hres.elim

theorem allocKpages_good {page : Option Nat} (hwant : s.calls i = .wantPage t sz)
    (hP : ∀ P ∈ page, KPage P ∧ ¬ s.Owns P) : Wp False (KOp.allocKpages i page).call
      (fun _ s' => (KOp.allocKpages i page).Good s s') (fun _ _ => False) s := by
  rw [KOp.call, wp_bind, wp_get, hwant]
  obtain ⟨ht, hle⟩ : t < nsizes ∧ sz ≤ sizes t := by
    have := h.calls i
    rwa [hwant] at this
  cases page with
  | none =>
    exact wp_modify.mpr ⟨h.step h.heap (fun j _ => h.calls j) trivial (fun _ _ _ he =>
      nomatch he), fun j P => ⟨not_handsOver s.calls .idle (fun _ he => nomatch he) i j P,
        False.elim⟩⟩
  | some P =>
    obtain ⟨hkpage, howns⟩ := hP P rfl
    refine wp_modify.mpr ⟨h.step h.heap (fun j _ => h.calls j) ⟨hkpage, ht, hle, ?_⟩ ?_,
      fun j Q => ⟨not_handsOver s.calls (.havePage P t sz) (fun _ he => nomatch he) i j Q,
        False.elim⟩⟩
    · exact fun r hr he => howns (.inl ⟨r, hr, he⟩)
    · intro Q t' sz' he j _ hj
      cases he
      exact howns (.inr ⟨j, hj⟩)

theorem resume_good {P : Nat} (hhave : s.calls i = .havePage P t sz) :
    Wp False (KOp.resume i).call (fun _ s' => (KOp.resume i).Good s s') (fun _ _ => False) s := by
  obtain ⟨hP, ht, hsz, hfresh⟩ : CallOk s.heap (.havePage P t sz) := hhave ▸ h.calls i
  rw [KOp.call, wp_bind, wp_get, hhave]
  rw [wp_bind, kmallocLocked, wp_zoom]
  refine (subpageKmallocFresh_spec h.heap hP hfresh ht hsz).post fun res h' hres => ?_
  cases res with
  | none =>
    obtain ⟨rfl, hfull⟩ := hres
    refine wp_modify.mpr ⟨h.step h.heap (fun j _ => h.calls j) trivial (fun _ _ _ he =>
      nomatch he), fun j Q => ?_⟩
    show (update s.calls i (.giveBack P) j = .giveBack Q ∧ s.calls j ≠ .giveBack Q) ↔
      i = j ∧ (∃ t sz, s.calls j = .havePage Q t sz) ∧ _
    rw [update_apply]
    split_ifs with hj
    · subst hj
      constructor
      · rintro ⟨he, -⟩
        cases he
        exact ⟨rfl, ⟨t, sz, hhave⟩, hfull⟩
      · rintro ⟨-, ⟨t', sz', he⟩, -⟩
        rw [hhave] at he
        cases he
        exact ⟨rfl, fun he => by rw [hhave] at he; cases he⟩
    · exact ⟨fun hno => absurd hno.1 hno.2, fun hno => absurd hno.1.symm hj⟩
  | some ptr =>
    obtain ⟨hinv, r, hnew, hw, hpage, -, -, hold, -⟩ := hres
    have hlt : ¬ ∀ r < npagerefs, s.heap.InUse r := fun hall =>
      hnew (hall r (((hw r).mpr (.inl rfl)).1))
    -- the new page is not the one another call has
    have hothers : ∀ j, j ≠ i → CallOk h' (s.calls j) := by
      intro j hj
      have hcj := h.calls j
      cases hc : s.calls j with
      | havePage Q t' sz' =>
        rw [hc] at hcj
        obtain ⟨hQ, ht', hsz', hfresh'⟩ := hcj
        refine ⟨hQ, ht', hsz', fun r' hr' he => ?_⟩
        rcases (hw r').mp hr' with rfl | hr'
        · rw [hpage] at he
          subst he
          exact hj (h.apart j i P t' sz' t sz hc hhave)
        · rw [(hold r' hr').1] at he
          exact hfresh' r' hr' he
      | wantPage t' sz' =>
        rw [hc] at hcj
        exact hcj
      | _ => trivial
    exact wp_modify.mpr ⟨h.step hinv hothers trivial (fun _ _ _ he => nomatch he), fun j Q =>
      ⟨fun hj => absurd hj (not_handsOver s.calls .idle (fun _ he => nomatch he) i j Q),
        fun hj => absurd hj.2.2 hlt⟩⟩

theorem kfree_good {ptr : Nat} (hidle : s.calls i = .idle)
    (hptr : ptr ∈ s.live.map Prod.fst) : Wp False (KOp.kfree i ptr).call
      (fun _ s' => (KOp.kfree i ptr).Good s s') (fun _ _ => False) s := by
  obtain ⟨q, hq, rfl⟩ := mem_map.mp hptr
  rw [KOp.call, wp_bind, kmallocLocked, wp_zoom]
  refine (kfree_spec h.heap hq).post fun res h' hres => ?_
  obtain ⟨r, hr, hb, hf⟩ := hres
  have hon := hb.on_page (h.heap.blktype_lt hr)
  -- the live blocks on the page are the live blocks of the page
  have hlive : (∀ p ∈ s.live, p.1 ≠ q.1 →
        ¬ (s.heap.page r ≤ p.1 ∧ p.1 < s.heap.page r + pageSize)) ↔
      ∀ p ∈ s.live, p.1 ≠ q.1 → ¬ IsBlock (s.heap.page r) (s.heap.blktype r) p.1 := by
    refine forall_congr' fun p => forall_congr' fun hp => forall_congr' fun _ => not_congr ?_
    constructor
    · intro hin
      obtain ⟨r', hr', hb', -⟩ := h.heap.blocks p hp
      have he := h.heap.page_unique hr hr' hin (hb'.on_page (h.heap.blktype_lt hr'))
      rw [he]
      exact hb'
    · exact fun hb' => hb'.on_page (h.heap.blktype_lt hr)
  have hpage : ∀ P, (∃ r, s.heap.InUse r ∧ s.heap.page r = P) → P ≤ q.1 ∧ q.1 < P + pageSize →
      P = s.heap.page r := by
    rintro P ⟨r', hr', rfl⟩ hin
    rw [h.heap.page_unique hr' hr hin hon]
  rw [wp_modify]
  cases res with
  | none =>
    obtain ⟨hin, p, hp, hne, hbp⟩ := hf.kept rfl
    refine ⟨h.step hf.inv (fun j _ => (h.calls j).mono fun r' hr' => ⟨(hin r').mp hr', hf.page r'⟩)
      trivial (fun _ _ _ he => nomatch he), fun j P => ⟨fun hj =>
        absurd hj (not_handsOver s.calls .idle (fun _ he => nomatch he) i j P), ?_⟩⟩
    rintro ⟨-, hex, hin', hno⟩
    rw [hpage P hex hin'] at hno
    exact absurd hbp (hlive.mp hno p hp hne)
  | some Q =>
    obtain ⟨rfl, hin, hno⟩ := hf.given Q rfl
    refine ⟨h.step hf.inv (fun j _ => (h.calls j).mono fun r' hr' =>
      ⟨((hin r').mp hr').2, hf.page r'⟩) trivial (fun _ _ _ he => nomatch he), fun j P => ?_⟩
    show (update s.calls i (.giveBack (s.heap.page r)) j = .giveBack P ∧
      s.calls j ≠ .giveBack P) ↔ i = j ∧ _
    rw [update_apply]
    split_ifs with hj
    · subst hj
      rw [hidle]
      constructor
      · rintro ⟨he, -⟩
        cases he
        exact ⟨rfl, ⟨r, hr, rfl⟩, hon, hlive.mpr hno⟩
      · rintro ⟨-, hex, hin', -⟩
        rw [hpage P hex hin']
        exact ⟨rfl, fun he => nomatch he⟩
    · exact ⟨fun hj' => absurd hj'.1 hj'.2, fun hj' => absurd hj'.1.symm hj⟩

theorem store_good {mem : Mem} (hl : (KOp.store mem).Legal s) :
    Wp False (KOp.store mem).call (fun _ s' => (KOp.store mem).Good s s') (fun _ _ => False) s := by
  rw [KOp.call, wp_modify]
  refine ⟨⟨⟨⟨h.heap.listed.all, h.heap.listed.samesize⟩, fun r hr => ?_, h.heap.apart,
    h.heap.blocks, h.heap.nodup⟩, h.calls,
    h.apart⟩, fun j P => ⟨fun hj => absurd hj.1 hj.2, False.elim⟩⟩
  obtain ⟨fl, hp, hfl⟩ := h.heap.pages r hr
  refine ⟨fl, hp.congr fun b hb => Mem.word_congr fun a h1 h2 => ?_, hfl⟩
  have hblock : IsBlock (s.heap.page r) (s.heap.blktype r) b := hp.isBlock b hb
  have hbounds := hblock.bounds
  have hsize := (sizes_spec _ (h.heap.blktype_lt hr)).1
  have hin : s.heap.page r ≤ a ∧ a < s.heap.page r + pageSize := ⟨by omega, by omega⟩
  refine hl r a hr hin.1 hin.2 fun q hq hqa => ?_
  -- the live block would be another block of the same page
  obtain ⟨r', hr', hb', hsz⟩ := h.heap.blocks q hq
  have hbounds' := hb'.bounds
  have hr'' := h.heap.page_unique hr hr' hin ⟨by omega, by omega⟩
  subst hr''
  have hne : b ≠ q.1 := fun he => (hfl b hblock).mp hb (he ▸ mem_map_of_mem hq)
  have := hblock.apart hb' hne
  omega

end

/-- **One step.** -/
theorem KOp.call_spec (hl : op.Legal s) (h : KSysInv s) :
    Wp False op.call (fun _ s' => op.Good s s') (fun _ _ => False) s := by
  cases op with
  | kmalloc i sz => exact kmalloc_good h hl.1 hl.2
  | allocKpages i page =>
    obtain ⟨⟨t, sz, hwant⟩, hP⟩ := hl
    exact allocKpages_good h hwant hP
  | resume i =>
    obtain ⟨P, t, sz, hhave⟩ := hl
    exact resume_good h hhave
  | kfree i ptr => exact kfree_good h hl.1 hl.2
  | freeKpages i =>
    exact wp_modify.mpr ⟨h.step h.heap (fun j _ => h.calls j) trivial
      (fun _ _ _ he => nomatch he), fun j P =>
        ⟨not_handsOver s.calls .idle (fun _ he => nomatch he) i j P, False.elim⟩⟩
  | store mem => exact store_good h hl

/-- The state after boot: no page, no block, no call. -/
structure KSystem.Booted (s : KSystem) : Prop where
  inuse : ∀ i, s.heap.pagerefsInuse i = 0
  sizebases : ∀ t, s.heap.sizebases t = none
  allbase : s.heap.allbase = none
  live : s.live = []
  calls : ∀ i, s.calls i = .idle

theorem KSystem.Booted.inv (h : s.Booted) : KSysInv s := by
  have hno : ∀ r, ¬ s.heap.InUse r := by
    rintro r ⟨-, hbit⟩
    rw [wordBit, h.inuse] at hbit
    simp at hbit
  refine ⟨⟨⟨⟨[], h.allbase, nodup_nil, fun r => ?_⟩, fun t _ => ⟨[], h.sizebases t,
    nodup_nil, fun r => ?_⟩⟩, fun r hr => absurd hr (hno r), fun r _ hr => absurd hr (hno r), ?_,
    ?_⟩, fun i => ?_, fun i _ P t sz _ _ hi => ?_⟩
  · exact ⟨fun hr => absurd hr not_mem_nil, fun hr => absurd hr (hno r)⟩
  · exact ⟨fun hr => absurd hr not_mem_nil, fun hr => absurd hr.1 (hno r)⟩
  · rw [h.live]
    exact fun q hq => absurd hq not_mem_nil
  · rw [h.live]
    exact nodup_nil
  · rw [h.calls i]
    trivial
  · rw [h.calls i] at hi
    cases hi

/-- What the kernel heap keeps. -/
structure KSystem.Intact (s : KSystem) : Prop where
  /-- Each live block is a block of a page, and large enough. -/
  blocks : ∀ q ∈ s.live, ∃ r, s.heap.InUse r ∧ IsBlock (s.heap.page r) (s.heap.blktype r) q.1 ∧
    q.2 ≤ sizes (s.heap.blktype r)
  /-- Two live blocks do not overlap. -/
  disjoint : s.live.Pairwise fun p q => ∀ r r', s.heap.InUse r → s.heap.InUse r' →
    IsBlock (s.heap.page r) (s.heap.blktype r) p.1 →
    IsBlock (s.heap.page r') (s.heap.blktype r') q.1 →
    p.1 + sizes (s.heap.blktype r) ≤ q.1 ∨ q.1 + sizes (s.heap.blktype r') ≤ p.1
  /-- The free list of a page in use consists of `nfree` different blocks that are not live. -/
  freeLists : ∀ r, s.heap.InUse r → ∃ fl,
    Links (freeNext s.heap.mem) (freeHead (s.heap.pagerefs r)) fl ∧ fl.Nodup ∧
    (s.heap.pagerefs r).nfree = fl.length ∧
    (∀ b ∈ fl, IsBlock (s.heap.page r) (s.heap.blktype r) b ∧ b ∉ s.live.map Prod.fst) ∧
    ((s.heap.pagerefs r).freelistOffset = invalidOffset ↔ (s.heap.pagerefs r).nfree = 0)
  /-- The pagerefs in use are on their two lists. -/
  listed : Listed s.heap s.heap.InUse

theorem KSysInv.intact (h : KSysInv s) : s.Intact := by
  refine ⟨h.heap.blocks, ?_, fun r hr => ?_, h.heap.listed⟩
  · refine (pairwise_map.mp h.heap.nodup).imp fun {p q} hne r r' hr hr' hb hb' => ?_
    have hbounds := hb.bounds
    have hbounds' := hb'.bounds
    by_cases he : r = r'
    · subst he
      exact hb.apart hb' hne
    · -- on different pages
      have hpages : s.heap.page r ≠ s.heap.page r' := fun heq => he (h.heap.apart r r' hr hr' heq)
      have h1 := (h.heap.kpage hr).aligned
      have h2 := (h.heap.kpage hr').aligned
      simp only [pageSize] at *
      omega
  · obtain ⟨fl, hp, hfl⟩ := h.heap.pages r hr
    refine ⟨fl, hp.chain, hp.nodup, hp.nfree, fun b hb => ?_, ?_⟩
    · have hblock : IsBlock (s.heap.page r) (s.heap.blktype r) b := hp.isBlock b hb
      exact ⟨hblock, (hfl b hblock).mp hb⟩
    · rw [hp.offset_invalid, hp.nfree, length_eq_zero_iff]

/-- **The kernel heap stays intact.**  However calls of `kmalloc` and `kfree` interleave, the
blocks, the free lists and the two lists of pagerefs are in order in every state; every step comes
back, so that no assertion fails; and it hands a page to `free_kpages` exactly if it frees the
last live block of the page, or finds no pageref for a fresh one. -/
theorem kernel_heap_intact {s₀ s : KSystem} (h₀ : s₀.Booted) (hrun : Run KOp.call KOp.Legal s₀ s) :
    s.Intact ∧ ∀ op : KOp, op.Legal s → ∃ s', op.call s = some (.ok (), s') ∧
      ∀ i P, (s'.calls i = .giveBack P ∧ s.calls i ≠ .giveBack P) ↔ op.HandsOver s i P := by
  have hstep : ∀ (op : KOp) s, op.Legal s → KSysInv s →
      Wp False op.call (fun _ => KSysInv) (fun _ => KSysInv) s := fun op s hl hs =>
    (KOp.call_spec hl hs).post_ok fun _ _ h => h.1
  have hinv : KSysInv s := hrun.invariant hstep h₀.inv
  refine ⟨hinv.intact, fun op hl => ?_⟩
  obtain ⟨_, s', hc, hgood⟩ := (KOp.call_spec hl hinv).exists_ok
  exact ⟨s', hc, hgood.2⟩

/-- The kernel after boot. -/
def bootedSystem : KSystem where
  heap := ⟨fun _ => 0, fun _ => ⟨none, none, 0, 0, 0⟩, fun _ => 0, fun _ => none, none⟩
  live := []
  calls := fun _ => .idle

theorem bootedSystem_two_blocks : ∃ s : KSystem, s.live = [(2147487744, 1100), (2147489792, 1500)] ∧
    s.Intact := by
  have hboot : bootedSystem.Booted := ⟨fun _ => rfl, fun _ => rfl, rfl, rfl, fun _ => rfl⟩
  have h₁ : Run KOp.call KOp.Legal bootedSystem _ :=
    Run.refl.step (show (KOp.kmalloc 0 1500).Legal _ from ⟨rfl, by decide⟩) rfl
  have hfree : ¬ KSystem.Owns (bootedSystem.setCall 0 (.wantPage 7 1500)) 2147487744 := by
    rintro (⟨r, hr, -⟩ | ⟨i, hi⟩)
    · simp [KHeap.InUse, wordBit, bootedSystem, KSystem.setCall] at hr
    · rw [KSystem.setCall_calls] at hi
      split_ifs at hi
      · cases hi
      · cases hi
  have h₂ := h₁.step (show (KOp.allocKpages 0 (some 2147487744)).Legal _ from
    ⟨⟨7, 1500, rfl⟩, fun P hP => by cases hP; exact ⟨⟨by decide, by decide, by decide⟩, hfree⟩⟩) rfl
  have h3 := h₂.step (show (KOp.resume 0).Legal _ from ⟨2147487744, 7, 1500, rfl⟩) rfl
  have h4 := h3.step (show (KOp.kmalloc 1 1100).Legal _ from ⟨rfl, by decide⟩) rfl
  exact ⟨_, rfl, (kernel_heap_intact hboot h4).1⟩

end Calls

/-! ## 5. How much `kmalloc` returns -/

/-- `kmalloc` in one piece, where `answer` is what `alloc_kpages` returns.  With a pointer to whole
pages goes their number. -/
def kmallocWith (answer : Option Nat) (sz : Nat) : Kmalloc (Option (Nat × Option Nat)) := do
  match ← kmallocStart sz with
  | .block ptr => pure (some (ptr, none))
  | .page t =>
    match answer with
    | none => pure none
    | some P => do
      let r ← subpageKmallocFresh P t
      pure (r.map fun ptr => (ptr, none))
  | .pages n => pure (answer.map fun P => (P, some n))

/-- There are `sz` bytes behind the pointer. -/
def KHeap.Room (s : KHeap) (sz : Nat) : Nat × Option Nat → Prop
  | (_, some n) => sz ≤ n * pageSize
  | (ptr, none) => ∃ r, s.InUse r ∧ IsBlock (s.page r) (s.blktype r) ptr ∧ sz ≤ sizes (s.blktype r)

/-- Whatever `alloc_kpages` returns, `kmalloc` comes back with NULL or with `sz` bytes. -/
def KmallocEnough (sz : Nat) (s : KHeap) : Prop :=
  ∀ answer : Option Nat, (sz < largestSubpageSize → ∀ P ∈ answer, KPage P ∧
    ∀ r, s.InUse r → s.page r ≠ P) →
    Wp False (kmallocWith answer sz) (fun q s' => ∀ x ∈ q, s'.Room sz x) (fun _ _ => False) s

/-- **When `kmalloc` returns enough**: the rounding up does not wrap. -/
theorem kmalloc_enough_iff {s : KHeap} {live : List (Nat × Nat)} (h : KmallocInv s live) {sz : Nat}
    (hsz : sz < 4294967296) : KmallocEnough sz s ↔ sz + pageSize ≤ 4294967296 := by
  by_cases hlarge : sz ≥ largestSubpageSize
  · have hpages : KmallocEnough sz s ↔ sz ≤ kmallocPages sz * pageSize := by
      unfold KmallocEnough kmallocWith
      simp only [wp_bind, kmallocStart, if_pos hlarge, wp_pure]
      refine ⟨fun hall => ?_, fun hle answer _ x hx => ?_⟩
      · exact hall (some 0) (fun hlt => absurd hlt (Nat.not_lt.mpr hlarge)) _ rfl
      · obtain ⟨P, -, rfl⟩ := Option.map_eq_some_iff.mp hx
        exact hle
    rw [hpages]
    unfold kmallocPages u32 pageSize
    omega
  · have hlt : sz < largestSubpageSize := Nat.lt_of_not_le hlarge
    have hsmall : sz + pageSize ≤ 4294967296 := by
      unfold largestSubpageSize pageSize at *
      omega
    refine iff_of_true (fun answer hfresh => ?_) hsmall
    refine (kmallocStart_spec h hlt).bind fun res s' hs' => ?_
    -- a block that is handed out is live
    have hroom {s' : KHeap} {ptr : Nat} (hinv : KmallocInv s' ((ptr, sz) :: live)) :
        s'.Room sz (ptr, none) := hinv.blocks _ mem_cons_self
    cases res with
    | block ptr =>
      rw [wp_pure]
      intro x hx
      obtain rfl := Option.mem_some_iff.mp hx
      exact hroom hs'.1
    | pages n => exact hs'.elim
    | page t =>
      obtain ⟨rfl, ht, hle⟩ := hs'
      cases answer with
      | none => exact wp_pure.mpr (by simp)
      | some P =>
        obtain ⟨hP, hnew⟩ := hfresh hlt P rfl
        refine (subpageKmallocFresh_spec h hP hnew ht hle).bind fun r s₁ h₁ => ?_
        rw [wp_pure]
        intro x hx
        obtain ⟨ptr, rfl, rfl⟩ := Option.map_eq_some_iff.mp hx
        exact hroom h₁.1

theorem kmalloc_enough_booted : KmallocEnough 5000 bootedSystem.heap := by
  have hboot : bootedSystem.Booted := ⟨fun _ => rfl, fun _ => rfl, rfl, rfl, fun _ => rfl⟩
  exact (kmalloc_enough_iff hboot.inv.heap (by decide)).mpr (by decide)

/-- `kmalloc(0xffffffff)` asks for no pages. -/
theorem kmalloc_returns_nothing : ¬ KmallocEnough 0xffffffff bootedSystem.heap := by
  intro h
  have hroom := (h (some 0x80001000) (fun hlt => absurd hlt (by decide))).of_ok rfl _ rfl
  have hpages : 0xffffffff ≤ kmallocPages 0xffffffff * pageSize := hroom
  exact absurd hpages (by decide)

end Os161
