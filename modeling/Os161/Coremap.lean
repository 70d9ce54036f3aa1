/-
# `kern/vm/addrspace.c`: the coremap, and finding a page in it

The paged VM keeps one table for the whole machine, with an entry for every page frame: which
virtual page the frame holds, for which process, and, in the low bits of the frame's own address,
whether it is valid, dirty, or the kernel's.  `coremap_insert` and `coremap_remove` write entries,
and `find_pgtbl` walks the table from the front when a process faults on a virtual page.

The walk is where processes meet.  Programs are all linked at the same addresses, so that several
entries have the same `vaddr`; and the FIRST of them decides.  If it is a valid entry of the process
itself all is well.  If it belongs to another process the kernel PANICS, no matter what comes later
in the table, and if it is recorded for process 0 it is handed out to anybody.  So the lookup is
right exactly when no entry has the address or the first one is the process's own
(`find_pgtbl_right_iff`).
-/
import Os161.Kmalloc
import Os161.Lib.Run

namespace Os161

open Function List

/-! ## 1. The functions -/

/-- `struct page_table_entry`, without the counters, which nothing reads. -/
structure PageTableEntry where
  vaddr : BitVec 32
  /-- The address of the frame, and flags in its low bits. -/
  paddr : BitVec 32
  pid : Int
  deriving DecidableEq, Repr

/-- `paddr & PAGE_FRAME`. -/
def pageFrame (paddr : BitVec 32) : BitVec 32 := paddr &&& 0xfffff000#32

/-- `ISVALID`. -/
def isValid (paddr : BitVec 32) : Bool := paddr &&& 0x00000200#32 ≠ 0

/-- `SET_VALID`. -/
def setValid (paddr : BitVec 32) : BitVec 32 := paddr ||| 0x00000200#32

/-- `SET_DIRTY`. -/
def setDirty (paddr : BitVec 32) : BitVec 32 := paddr ||| 0x00000400#32

/-- `ISKERNEL`. -/
def isKernel (paddr : BitVec 32) : Bool := paddr &&& 0x00000001#32 ≠ 0

/-- `SET_KERNEL`. -/
def setKernel (paddr : BitVec 32) : BitVec 32 := paddr ||| 0x00000001#32

/-- `USERSPACETOP`. -/
def userspacetop : BitVec 32 := 0x80000000#32

/-- The coremap: `coremap_start`, `coremap_size`, the entries, and the bits of `mem_map`.  A machine
has less than `2 ^ 20` frames, and they start at a page boundary. -/
structure Coremap where
  start : BitVec 32
  size : Nat
  entries : Nat → PageTableEntry
  memMap : Nat → Bool
  start_aligned : pageFrame start = start
  size_le : size ≤ 1048576

open Coremap

namespace Coremap

variable {ε : Type}

/-- The address of frame `i`. -/
def frameAt (s : Coremap) (i : Nat) : BitVec 32 := s.start + BitVec.ofNat 32 (i * pageSize)

/-- `map_index`. -/
def mapIndex (s : Coremap) (paddr : BitVec 32) : Nat := (pageFrame paddr - s.start).toNat / pageSize

/-- The table with another entry at `i`. -/
def setEntry (s : Coremap) (i : Nat) (e : PageTableEntry) (used : Bool) : Coremap :=
  { s with entries := update s.entries i e, memMap := update s.memMap i used }

@[simp] theorem setEntry_entries_self (s : Coremap) (i : Nat) (e : PageTableEntry) (used : Bool) :
    (s.setEntry i e used).entries i = e := update_self _ _ _

theorem setEntry_entries_of_ne {s : Coremap} {i j : Nat} {e : PageTableEntry} {used : Bool}
    (h : j ≠ i) : (s.setEntry i e used).entries j = s.entries j := update_of_ne h _ _

/-- `coremap_init`.  The table comes from `kmalloc`, and only the addresses are filled in. -/
def init (start : BitVec 32) (size : Nat) (junk : Nat → BitVec 32 × Int)
    (haligned : pageFrame start = start) (hsize : size ≤ 1048576) : Coremap where
  start := start
  size := size
  entries i :=
    { vaddr := (junk i).1, paddr := start + BitVec.ofNat 32 (i * pageSize), pid := (junk i).2 }
  memMap _ := false
  start_aligned := haligned
  size_le := hsize

end Coremap

section Functions

variable {ε : Type}

/-- The address and the flags that `coremap_insert` stores. -/
def flagged (vaddr paddr : BitVec 32) : BitVec 32 :=
  if vaddr > userspacetop then setValid paddr ||| setDirty paddr ||| setKernel paddr
  else setValid paddr ||| setDirty paddr

/-- `coremap_insert_pid`.  An index outside the table is taken to fail the assertion. -/
def coremapInsertPid (vaddr paddr : BitVec 32) (pid : Int) : Prog ε Coremap Unit := do
  let s ← get
  assert (s.mapIndex paddr < s.size ∧
    pageFrame (s.entries (s.mapIndex paddr)).paddr = pageFrame paddr)
  modify fun s => s.setEntry (s.mapIndex paddr)
    { vaddr, paddr := flagged vaddr (pageFrame paddr), pid } true

/-- `coremap_insert`: the same for `curthread->pid`. -/
def coremapInsert (vaddr paddr : BitVec 32) (curpid : Int) : Prog ε Coremap Unit :=
  coremapInsertPid vaddr paddr curpid

/-- `coremap_remove`. -/
def coremapRemove (paddr : BitVec 32) : Prog ε Coremap Unit := do
  let s ← get
  assert (s.mapIndex paddr < s.size ∧
    pageFrame (s.entries (s.mapIndex paddr)).paddr = pageFrame paddr)
  -- `bitmap_unmark`
  assert (s.memMap (s.mapIndex paddr) = true)
  modify fun s => s.setEntry (s.mapIndex paddr)
    { vaddr := 0, paddr := pageFrame paddr, pid := 0 } false

/-- `coremap_remove_pid`. -/
def coremapRemovePid (pid : Int) : Prog ε Coremap Unit := do
  let s ← get
  forEach (fun i => do
    let s ← get
    if (s.entries i).pid = pid then coremapRemove (s.entries i).paddr else pure ())
    (List.range s.size)

/-- How the walk of `find_pgtbl` ends: with a frame, with the call of `page_fault_handler`, or with
a panic. -/
inductive Lookup
  | frame (paddr : BitVec 32)
  | swap
  | stop
  deriving DecidableEq, Repr

/-- The walk of `find_pgtbl_pid`. -/
def findPgtblPid (virAddr : BitVec 32) (pid : Int) : List PageTableEntry → Lookup
  | [] => .swap
  | e :: rest =>
    if e.vaddr = virAddr ∧ (e.pid = pid ∨ e.pid = 0) ∧ isValid e.paddr = true then .frame e.paddr
    else if e.vaddr = virAddr then .stop
    else findPgtblPid virAddr pid rest

/-- The walk of `find_pgtbl`, for `curthread->pid`. -/
def findPgtbl (virAddr : BitVec 32) (curpid : Int) (s : Coremap) : Lookup :=
  findPgtblPid virAddr curpid ((List.range s.size).map s.entries)

end Functions

/-! ## 2. Addresses and flags -/

theorem pageFrame_pageFrame (p : BitVec 32) : pageFrame (pageFrame p) = pageFrame p := by
  rw [pageFrame, pageFrame, BitVec.and_assoc, BitVec.and_self]

theorem pageFrame_or (p c : BitVec 32) : pageFrame (p ||| c) = pageFrame p ||| pageFrame c := by
  unfold pageFrame
  ext i hi
  simp only [BitVec.getElem_and, BitVec.getElem_or, Bool.and_or_distrib_right]

theorem getLsbD_pageFrameMask : ∀ i < 32, (0xfffff000#32).getLsbD i = decide (12 ≤ i) := by decide

theorem pageFrame_eq_shift (p : BitVec 32) : pageFrame p = (p >>> 12) <<< 12 := by
  unfold pageFrame
  ext i hi
  have hmask := getLsbD_pageFrameMask i hi
  rw [BitVec.getLsbD_eq_getElem hi] at hmask
  simp only [BitVec.getElem_and, hmask, BitVec.getElem_shiftLeft, BitVec.getElem_ushiftRight]
  by_cases h12 : 12 ≤ i
  · have hi' : 12 + (i - 12) = i := by omega
    simp [h12, Nat.not_lt.mpr h12, hi', BitVec.getLsbD_eq_getElem hi]
  · simp [h12, Nat.lt_of_not_le h12]

theorem toNat_pageFrame (p : BitVec 32) : (pageFrame p).toNat = p.toNat / 4096 * 4096 := by
  rw [pageFrame_eq_shift, BitVec.toNat_shiftLeft, BitVec.toNat_ushiftRight, Nat.shiftLeft_eq,
    Nat.shiftRight_eq_div_pow]
  omega

theorem pageFrame_flagged (vaddr p : BitVec 32) : pageFrame (flagged vaddr p) = pageFrame p := by
  have hvalid : pageFrame 0x200#32 = 0#32 := by decide
  have hdirty : pageFrame 0x400#32 = 0#32 := by decide
  have hkernel : pageFrame 0x1#32 = 0#32 := by decide
  unfold flagged setValid setDirty setKernel
  split_ifs <;>
    simp only [pageFrame_or, hvalid, hdirty, hkernel, BitVec.or_zero, BitVec.or_self]

/-- Entry `i` is about frame `i`. -/
def Coremap.Framed (s : Coremap) : Prop :=
  ∀ i < s.size, pageFrame (s.entries i).paddr = s.frameAt i

variable {s : Coremap} {i size : Nat} {start : BitVec 32} {junk : Nat → BitVec 32 × Int}
  {e : PageTableEntry}

theorem Coremap.mapIndex_eq (hi : i < s.size) {p : BitVec 32} (hp : pageFrame p = s.frameAt i) :
    s.mapIndex p = i := by
  have hsize := s.size_le
  have hsub : s.frameAt i - s.start = BitVec.ofNat 32 (i * pageSize) := by
    rw [frameAt, BitVec.add_comm, BitVec.add_sub_cancel]
  rw [mapIndex, hp, hsub, BitVec.toNat_ofNat]
  unfold pageSize
  omega

theorem Coremap.Framed.inj (h : s.Framed) {j : Nat} (hi : i < s.size) (hj : j < s.size)
    (heq : (s.entries i).paddr = (s.entries j).paddr) : i = j := by
  rw [← mapIndex_eq hi (h i hi), heq, mapIndex_eq hj (h j hj)]

theorem Coremap.init_framed (haligned : pageFrame start = start) (hsize : size ≤ 1048576) :
    (init start size junk haligned hsize).Framed := by
  intro i hi
  have hstart : start.toNat / 4096 * 4096 = start.toNat := by
    rw [← toNat_pageFrame, haligned]
  have hround : ∀ a b : Nat, a / 4096 * 4096 = a → (a + b * 4096 % 2 ^ 32) % 2 ^ 32 / 4096 * 4096 =
      (a + b * 4096 % 2 ^ 32) % 2 ^ 32 := by omega
  refine BitVec.eq_of_toNat_eq ?_
  simp only [init, frameAt, toNat_pageFrame, BitVec.toNat_add, BitVec.toNat_ofNat]
  exact hround _ _ hstart

/-- An entry may be exchanged for another one about the same frame. -/
theorem Coremap.Framed.setEntry (h : s.Framed) {used : Bool}
    (he : pageFrame e.paddr = pageFrame (s.entries i).paddr) : (s.setEntry i e used).Framed := by
  intro j hj
  by_cases hji : j = i
  · subst hji
    rw [setEntry_entries_self, he]
    exact h j hj
  · rw [setEntry_entries_of_ne hji]
    exact h j hj

/-! ## 3. The walk -/

/-- **The first entry with the address decides.** -/
theorem findPgtblPid_eq (virAddr : BitVec 32) (pid : Int) (l : List PageTableEntry) :
    findPgtblPid virAddr pid l = match l.find? fun e => e.vaddr = virAddr with
      | none => .swap
      | some e => if (e.pid = pid ∨ e.pid = 0) ∧ isValid e.paddr = true then .frame e.paddr
          else .stop := by
  induction l with
  | nil => rfl
  | cons e rest ih =>
    by_cases hv : e.vaddr = virAddr
    · simp [findPgtblPid, hv]
    · simp [findPgtblPid, hv, ih]

/-- Process `pid` has the virtual page `v` in frame `i`. -/
def Coremap.Resident (s : Coremap) (pid : Int) (v : BitVec 32) (i : Nat) : Prop :=
  i < s.size ∧ (s.entries i).vaddr = v ∧ (s.entries i).pid = pid ∧
    isValid (s.entries i).paddr = true

/-- **What a lookup has to do**: find the page if the process has it, and nobody else's; and go on
to the swap table, without a panic, if it has not. -/
structure Coremap.LookupRight (s : Coremap) (pid : Int) (v : BitVec 32) : Prop where
  own : ∀ f, findPgtbl v pid s = .frame f → ∃ i, s.Resident pid v i ∧ f = (s.entries i).paddr
  found : (∃ i, s.Resident pid v i) → ∃ f, findPgtbl v pid s = .frame f
  swap : (¬ ∃ i, s.Resident pid v i) → findPgtbl v pid s = .swap

/-- The first entry with the address, if there is one, is a valid one of this process. -/
def Coremap.FirstIsOwn (s : Coremap) (pid : Int) (v : BitVec 32) : Prop :=
  ∀ i < s.size, (s.entries i).vaddr = v → (∀ j < i, (s.entries j).vaddr ≠ v) →
    (s.entries i).pid = pid ∧ isValid (s.entries i).paddr = true

theorem find_first {n : Nat} {table : Nat → PageTableEntry} {v : BitVec 32}
    (h : ((range n).map table).find? (fun e => e.vaddr = v) = some e) :
    ∃ i < n, e = table i ∧ (table i).vaddr = v ∧ ∀ j < i, (table j).vaddr ≠ v := by
  obtain ⟨hv, i, hi, hget, hfirst⟩ := find?_eq_some_iff_getElem.mp h
  have hlt : i < n := by simpa using hi
  rw [getElem_map, getElem_range] at hget
  refine ⟨i, hlt, hget.symm, ?_, fun j hj => ?_⟩
  · rw [hget]
    simpa using hv
  · simpa using hfirst j hj

/-- **The lookup is right exactly when the first entry with the address is the process's own.** -/
theorem Coremap.Framed.lookupRight_iff (h : s.Framed) (pid : Int) (v : BitVec 32) :
    s.LookupRight pid v ↔ s.FirstIsOwn pid v := by
  have hwalk := findPgtblPid_eq v pid ((range s.size).map s.entries)
  cases hfind : ((range s.size).map s.entries).find? fun e => e.vaddr = v with
  | none =>
    -- Nobody has an entry with the address.
    rw [hfind] at hwalk
    have hno : ∀ i < s.size, (s.entries i).vaddr ≠ v := by
      intro i hi
      have := find?_eq_none.mp hfind (s.entries i)
        (mem_map_of_mem (mem_range.mpr hi))
      simpa using this
    refine ⟨fun _ i hi hv _ => absurd hv (hno i hi), fun _ => ⟨fun f hf => ?_, ?_, fun _ => hwalk⟩⟩
    · exact nomatch hwalk.symm.trans hf
    · rintro ⟨i, hi, hv, -⟩
      exact absurd hv (hno i hi)
  | some e =>
    rw [hfind] at hwalk
    obtain ⟨i, hi, rfl, hv, hfirst⟩ := find_first hfind
    dsimp only at hwalk
    -- No other index is the first one.
    have hother : ∀ k < s.size, (s.entries k).vaddr = v → (∀ j < k, (s.entries j).vaddr ≠ v) →
        k = i := by
      intro k _ hk hkfirst
      rcases Nat.lt_trichotomy k i with hlt | heq | hgt
      · exact absurd hk (hfirst k hlt)
      · exact heq
      · exact absurd hv (hkfirst i hgt)
    constructor
    · intro hright k hk hkv hkfirst
      obtain rfl := hother k hk hkv hkfirst
      by_cases hres : ∃ i, s.Resident pid v i
      · obtain ⟨f, hf⟩ := hright.found hres
        obtain ⟨i', hi', hfi⟩ := hright.own f hf
        have hcond : ((s.entries k).pid = pid ∨ (s.entries k).pid = 0) ∧
            isValid (s.entries k).paddr = true := by
          by_contra hcond
          rw [if_neg hcond] at hwalk
          exact nomatch hwalk.symm.trans hf
        rw [if_pos hcond] at hwalk
        -- The frame that is handed out is the one of the first entry.
        have hsame : (s.entries k).paddr = (s.entries i').paddr := by
          rw [← hfi]
          exact Lookup.frame.inj (hwalk.symm.trans hf)
        obtain rfl := h.inj hk hi'.1 hsame
        exact ⟨hi'.2.2.1, hi'.2.2.2⟩
      · have hswap := hright.swap hres
        split_ifs at hwalk
        · exact nomatch hwalk.symm.trans hswap
        · exact nomatch hwalk.symm.trans hswap
    · intro hown
      have hmine := hown i hi hv hfirst
      have hres : s.Resident pid v i := ⟨hi, hv, hmine.1, hmine.2⟩
      rw [if_pos ⟨.inl hmine.1, hmine.2⟩] at hwalk
      refine ⟨fun f hf => ⟨i, hres, ?_⟩, fun _ => ⟨_, hwalk⟩, fun hno => absurd ⟨i, hres⟩ hno⟩
      exact (Lookup.frame.inj (hwalk.symm.trans hf)).symm

/-! ## 4. Every sequence of insertions and evictions -/

theorem coremapInsertPid_framed (vaddr paddr : BitVec 32) (pid : Int) (h : s.Framed) :
    Wp True (coremapInsertPid vaddr paddr pid) (fun _ => Coremap.Framed)
      (fun (_ : Empty) _ => False) s := by
  unfold coremapInsertPid
  simp only [wp_bind, wp_get, wp_assert, wp_modify]
  refine ⟨fun hin => h.setEntry ?_, fun _ => True.intro⟩
  rw [pageFrame_flagged, pageFrame_pageFrame, hin.2]

theorem coremapInsertPid_eq {ε : Type} {vaddr paddr : BitVec 32} {pid : Int} (hi : i < s.size)
    (hindex : s.mapIndex paddr = i) (hframe : pageFrame (s.entries i).paddr = pageFrame paddr) :
    coremapInsertPid vaddr paddr pid s = some ((.ok () : Except ε Unit),
      s.setEntry i { vaddr, paddr := flagged vaddr (pageFrame paddr), pid } true) := by
  have hassert : s.mapIndex paddr < s.size ∧
      pageFrame (s.entries (s.mapIndex paddr)).paddr = pageFrame paddr := by
    rw [hindex]
    exact ⟨hi, hframe⟩
  simp only [coremapInsertPid, bind, Prog.bind, get, assert, modify]
  rw [if_pos hassert]
  simp only [pure, hindex]

theorem coremapRemove_framed (paddr : BitVec 32) (h : s.Framed) :
    Wp True (coremapRemove paddr) (fun _ => Coremap.Framed) (fun (_ : Empty) _ => False)
      s := by
  unfold coremapRemove
  simp only [wp_bind, wp_get, wp_assert, wp_modify]
  refine ⟨fun hin => ⟨fun _ => h.setEntry ?_, fun _ => True.intro⟩, fun _ => True.intro⟩
  rw [pageFrame_pageFrame, hin.2]

theorem coremapRemovePid_framed (pid : Int) (h : s.Framed) :
    Wp True (coremapRemovePid pid) (fun _ => Coremap.Framed) (fun (_ : Empty) _ => False)
      s := by
  unfold coremapRemovePid
  rw [wp_bind, wp_get]
  refine wp_forEach (fun _ => Coremap.Framed) (fun i _ s hs => ?_) _ s h
  rw [wp_bind, wp_get, wp_ite]
  exact ⟨fun _ => coremapRemove_framed _ hs, fun _ => wp_pure.mpr hs⟩

/-- What is done to the coremap, by whichever process. -/
inductive CoremapCall
  | insertPid (vaddr paddr : BitVec 32) (pid : Int)
  | insert (vaddr paddr : BitVec 32) (curpid : Int)
  | remove (paddr : BitVec 32)
  | removePid (pid : Int)

/-- One call. -/
def coremapCall : CoremapCall → Prog Empty Coremap Unit
  | .insertPid vaddr paddr pid => coremapInsertPid vaddr paddr pid
  | .insert vaddr paddr curpid => coremapInsert vaddr paddr curpid
  | .remove paddr => coremapRemove paddr
  | .removePid pid => coremapRemovePid pid

theorem framed_of_run {haligned : pageFrame start = start} {hsize : size ≤ 1048576}
    (h : Run coremapCall (fun _ _ => True) (init start size junk haligned hsize) s) :
    s.Framed := by
  refine h.invariant (p := True) (I := Coremap.Framed) ?_ (init_framed haligned hsize)
  intro op s _ hs
  have hfalse : ∀ {m : Prog Empty Coremap Unit}, Wp True m (fun _ => Coremap.Framed)
      (fun _ _ => False) s → Wp True m (fun _ => Coremap.Framed) (fun _ => Coremap.Framed) s :=
    fun hm => hm.post_ok fun _ _ => id
  cases op with
  | insertPid vaddr paddr pid => exact hfalse (coremapInsertPid_framed vaddr paddr pid hs)
  | insert vaddr paddr curpid => exact hfalse (coremapInsertPid_framed vaddr paddr curpid hs)
  | remove paddr => exact hfalse (coremapRemove_framed paddr hs)
  | removePid pid => exact hfalse (coremapRemovePid_framed pid hs)

/-- **`find_pgtbl` is right exactly when the first entry with the address is the process's own**, in
every state that insertions and evictions lead to, for every process and every virtual page. -/
theorem find_pgtbl_right_iff {start : BitVec 32} {size : Nat} {junk : Nat → BitVec 32 × Int}
    {haligned : pageFrame start = start} {hsize : size ≤ 1048576} {s : Coremap}
    (h : Run coremapCall (fun _ _ => True) (Coremap.init start size junk haligned hsize) s)
    (pid : Int) (v : BitVec 32) : s.LookupRight pid v ↔ s.FirstIsOwn pid v :=
  (framed_of_run h).lookupRight_iff pid v

theorem pageFrame_start : pageFrame 0x40000 = 0x40000 := by decide

theorem two_le_frames : 2 ≤ 1048576 := by decide

/-- A machine with two frames. -/
def twoFrames : Coremap :=
  Coremap.init 0x40000 2 (fun _ => (0, 0)) pageFrame_start two_le_frames

/-- The state after page `v` was inserted for process 1 in the first frame, and page `w` for process
2 in the second. -/
def twoFramesWith (v w : BitVec 32) : Coremap :=
  (twoFrames.setEntry 0 { vaddr := v, paddr := flagged v 0x40000, pid := 1 } true).setEntry 1
    { vaddr := w, paddr := flagged w 0x41000, pid := 2 } true

theorem run_twoFramesWith (v w : BitVec 32) :
    Run coremapCall (fun _ _ => True) twoFrames (twoFramesWith v w) := by
  have hindex : twoFrames.mapIndex 0x41000 = 1 := by decide
  have hfirst : coremapCall (.insertPid v 0x40000 1) twoFrames = some (.ok (),
      twoFrames.setEntry 0 { vaddr := v, paddr := flagged v 0x40000, pid := 1 } true) :=
    coremapInsertPid_eq (by decide) rfl rfl
  have hsecond : coremapCall (.insert w 0x41000 2)
      (twoFrames.setEntry 0 { vaddr := v, paddr := flagged v 0x40000, pid := 1 } true) =
      some (.ok (), twoFramesWith v w) := coremapInsertPid_eq Nat.one_lt_two hindex rfl
  exact .step (.step .refl True.intro hfirst) True.intro hsecond

/-- Two processes with different pages find them. -/
theorem find_pgtbl_right_twoFrames : (twoFramesWith 0x400000 0x10000000).LookupRight 1 0x400000 ∧
      (twoFramesWith 0x400000 0x10000000).LookupRight 2 0x10000000 := by
  have hone : ∀ i < 2, ((twoFramesWith 0x400000 0x10000000).entries i).vaddr = 0x400000 →
      ((twoFramesWith 0x400000 0x10000000).entries i).pid = 1 ∧
        isValid ((twoFramesWith 0x400000 0x10000000).entries i).paddr = true := by decide
  have htwo : ∀ i < 2, ((twoFramesWith 0x400000 0x10000000).entries i).vaddr = 0x10000000 →
      ((twoFramesWith 0x400000 0x10000000).entries i).pid = 2 ∧
        isValid ((twoFramesWith 0x400000 0x10000000).entries i).paddr = true := by decide
  constructor
  · exact (find_pgtbl_right_iff (run_twoFramesWith _ _) _ _).mpr fun i hi hv _ => hone i hi hv
  · exact (find_pgtbl_right_iff (run_twoFramesWith _ _) _ _).mpr fun i hi hv _ => htwo i hi hv

/-- **Two processes with a page at the same address**: the second one's own page is in the second
frame, and its lookup stops the machine at the first. -/
theorem find_pgtbl_meets_other_process :
    Run coremapCall (fun _ _ => True) twoFrames (twoFramesWith 0x400000 0x400000) ∧
      (twoFramesWith 0x400000 0x400000).Resident 2 0x400000 1 ∧
      findPgtbl 0x400000 2 (twoFramesWith 0x400000 0x400000) = .stop := by
  refine ⟨run_twoFramesWith _ _, ⟨?_, ?_, ?_, ?_⟩, ?_⟩ <;> decide

end Os161
