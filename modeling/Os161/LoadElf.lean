/-
# `kern/syscall/loadelf.c`: loading a program

`load_elf` reads the executable header, goes through the program headers twice, once to define the
regions of the address space and once to fill them, and returns the entry point.  The data of a
segment goes through `VOP_READ`, `uiomove` and `copyout` to the program's own addresses, a byte at a
time as far as the TLB and `vm_fault` are concerned.

What is left in the end is said about what the program SEES, that is, about the memory through
`vm_fault`'s translation: it is all zeros after `as_prepare_load`, and each segment puts its bytes
at its addresses and changes nothing else (`loadSegment_spec`), also where two segments meet within
one page and the second region's page is hidden by the first's.

A segment whose `p_filesz` is larger than its `p_memsz` is cut down to `p_memsz`.  So the bytes of
the file are there up to the smaller of the two, and not further (`load_elf_exact`).
-/
import Os161.Dumbvm
import Os161.UserMemory

namespace Os161

open List Addrspace

/-! ## 1. User memory through the TLB -/

/-- What the TLB has for an address. -/
def tlbLookup (tlb : List (Nat × Nat)) (a : Nat) : Option Nat :=
  (tlb.find? fun e => e.1 = a / pageSize * pageSize).map fun e => e.2 + a % pageSize

/-- The physical address behind a user address.  If the TLB does not have it, `vm_fault` is called
and the instruction is run again. -/
def userAddress (faulttype : VmFaultType) (a : Nat) : AsProg Nat := do
  let s ← get
  match tlbLookup s.1.tlb a with
  | some p => pure p
  | none => do
    onFst (vmFault faulttype a (some s.2))
    let s ← get
    match tlbLookup s.1.tlb a with
    | some p => pure p
    | none => halt

/-- A byte is written to a user address. -/
def storeByte (a : Nat) (b : Byte) : AsProg Unit := do
  let p ← userAddress .write a
  modify fun s => ({ s.1 with mem := Function.update s.1.mem p b }, s.2)

/-- `memcpy` to a user address. -/
def storeBytes (a : Nat) : List Byte → AsProg Unit
  | [] => pure ()
  | b :: bs => do
    storeByte a b
    storeBytes (a + 1) bs

/-- `copyout`. -/
def copyoutBytes (src : List Byte) (userdest : Nat) : AsProg Unit := do
  let stoplen ← ofResult (User.copycheck userdest src.length)
  if stoplen ≠ src.length then fail .efault else storeBytes userdest src

/-! ## 2. Reading from the file -/

/-- An open file, by what `VOP_READ` does for an offset and a length: it fails, or hands pieces of
the file to `uiomove`, one after another. -/
abbrev ExecFile := Nat → Nat → Except Errno (List (List Byte))

/-- **File reads are exact**: what a read that succeeds moves is what the file has from there on, as
much as was asked for and is there. -/
def ExecFile.Exact (v : ExecFile) (file : List Byte) : Prop :=
  ∀ offset len pieces, v offset len = .ok pieces → pieces.flatten = (file.drop offset).take len

/-- `VOP_READ` to a kernel buffer, and the check that all of it was read. -/
def readKernel (v : ExecFile) (offset len : Nat) : AsProg (List Byte) :=
  match v offset len with
  | .error e => fail e
  | .ok pieces =>
    if pieces.flatten.length ≠ len then fail .enoexec else pure pieces.flatten

/-- A `struct uio` with one iovec in user space, which is being read into. -/
structure UserUio where
  iovUbase : Nat
  iovLen : Nat
  uioResid : Nat

/-- `uiomove` to such a uio.  What does not fit into the iovec leads to a panic. -/
def uiomoveOut (ptr : List Byte) : Prog Errno ((Dumbvm × Addrspace) × UserUio) Unit := do
  let s ← get
  if ptr = [] ∨ s.2.uioResid = 0 then pure ()
  else do
    let size := min s.2.iovLen ptr.length
    assert (size ≠ 0)
    onFst (copyoutBytes (ptr.take size) s.2.iovUbase)
    modify fun s => (s.1,
      { iovUbase := s.2.iovUbase + size, iovLen := s.2.iovLen - size
        uioResid := u32 (s.2.uioResid + (4294967296 - size)) })
    let s ← get
    assert (size = ptr.length ∨ s.2.uioResid = 0)

/-- `VOP_READ` to a user buffer: what is left of `uio_resid`. -/
def readUser (v : ExecFile) (offset : Nat) (u : UserUio) : AsProg Nat :=
  match v offset u.uioResid with
  | .error e => fail e
  | .ok pieces => do
    let r ← withLocal u (forEach uiomoveOut pieces)
    pure r.2.uioResid

/-- `load_segment`. -/
def loadSegment (v : ExecFile) (offset vaddr memsize filesize : Nat) : AsProg Unit := do
  let filesize := if filesize > memsize then memsize else filesize
  let resid ← readUser v offset { iovUbase := vaddr, iovLen := memsize, uioResid := filesize }
  if resid ≠ 0 then fail .enoexec else pure ()

/-! ## 3. The headers -/

/-- A number of `n` bytes at position `i` of a header, most significant byte first. -/
def headerNat (l : List Byte) (i n : Nat) : Nat :=
  ((l.drop i).take n).foldl (fun x b => x * 256 + b.toNat) 0

/-- A number as `n` bytes, most significant byte first. -/
def numberBytes : Nat → Nat → List Byte
  | 0, _ => []
  | n + 1, x => numberBytes n (x / 256) ++ [BitVec.ofNat 8 x]

/-- `Elf_Ehdr`, as far as it is looked at. -/
structure ElfEhdr where
  eIdent : List Nat
  eType : Nat
  eMachine : Nat
  eVersion : Nat
  eEntry : Nat
  ePhoff : Nat
  ePhentsize : Nat
  ePhnum : Nat
  deriving DecidableEq, Repr

/-- `sizeof(Elf_Ehdr)`. -/
def sizeofEhdr : Nat := 52

def ElfEhdr.ofBytes (l : List Byte) : ElfEhdr where
  eIdent := (l.take 7).map BitVec.toNat
  eType := headerNat l 16 2
  eMachine := headerNat l 18 2
  eVersion := headerNat l 20 4
  eEntry := headerNat l 24 4
  ePhoff := headerNat l 28 4
  ePhentsize := headerNat l 42 2
  ePhnum := headerNat l 44 2

/-- `Elf_Phdr`, as far as it is looked at. -/
structure ElfPhdr where
  pType : Nat
  pOffset : Nat
  pVaddr : Nat
  pFilesz : Nat
  pMemsz : Nat
  deriving DecidableEq, Repr

/-- `sizeof(Elf_Phdr)`. -/
def sizeofPhdr : Nat := 32

def ElfPhdr.ofBytes (l : List Byte) : ElfPhdr where
  pType := headerNat l 0 4
  pOffset := headerNat l 4 4
  pVaddr := headerNat l 8 4
  pFilesz := headerNat l 16 4
  pMemsz := headerNat l 20 4

/-- `PT_NULL`. -/
def ptNull : Nat := 0

/-- `PT_LOAD`. -/
def ptLoad : Nat := 1

/-- `PT_PHDR`. -/
def ptPhdr : Nat := 6

/-- `PT_MIPS_REGINFO`. -/
def ptMipsReginfo : Nat := 0x70000000

/-- The header is that of a 32-bit executable for this processor: the first bytes are the magic
number, `ELFCLASS32`, `ELFDATA2MSB` and `EV_CURRENT`. -/
def ElfEhdr.Right (eh : ElfEhdr) : Prop :=
  eh.eIdent = [0x7f, 0x45, 0x4c, 0x46, 1, 2, 1] ∧ eh.eVersion = 1 ∧ eh.eType = 2 ∧ eh.eMachine = 8

instance (eh : ElfEhdr) : Decidable eh.Right := inferInstanceAs (Decidable (_ ∧ _))

/-- Where header `i` is. -/
def ElfEhdr.phdrOffset (eh : ElfEhdr) (i : Nat) : Nat := u32 (eh.ePhoff + i * eh.ePhentsize)

/-- One round of either loop of `load_elf`: header `i` is read, and if its segment is to be loaded
`f` is run on it. -/
def withPhdr (v : ExecFile) (eh : ElfEhdr) (f : ElfPhdr → AsProg Unit) (i : Nat) : AsProg Unit := do
  let l ← readKernel v (eh.phdrOffset i) sizeofPhdr
  let ph := ElfPhdr.ofBytes l
  if ph.pType = ptNull ∨ ph.pType = ptPhdr ∨ ph.pType = ptMipsReginfo then pure ()
  else if ph.pType = ptLoad then f ph
  else fail .enoexec

/-- `load_elf`.  `as_complete_load` does nothing. -/
def loadElf (v : ExecFile) : AsProg Nat := do
  let l ← readKernel v 0 sizeofEhdr
  let eh := ElfEhdr.ofBytes l
  if ¬ eh.Right then fail .enoexec
  else do
    forEach (withPhdr v eh fun ph => asDefineRegion ph.pVaddr ph.pMemsz) (List.range eh.ePhnum)
    asPrepareLoad
    forEach (withPhdr v eh fun ph => loadSegment v ph.pOffset ph.pVaddr ph.pMemsz ph.pFilesz)
      (List.range eh.ePhnum)
    pure eh.eEntry

/-! ## 4. Stores -/

/-- The address space is `as`, these pages have been handed out, the TLB has nothing wrong in it,
and the program sees `view`, if no page is behind two addresses. -/
structure Shows (as : Addrspace) (grants : List Pages) (view : Nat → Option Byte)
    (t : Dumbvm × Addrspace) : Prop where
  space : t.2 = as
  grants : t.1.grants = grants
  tlb : ∀ e ∈ t.1.tlb, as.pageAt e.1 = some e.2
  view : OneToOne as.translate → through as.translate t.1.mem = view

section Stores

variable {as : Addrspace} {grants : List Pages} {view : Nat → Option Byte}

theorem tlbLookup_translate {tlb : List (Nat × Nat)} (h : ∀ e ∈ tlb, as.pageAt e.1 = some e.2)
    {a p : Nat} (hp : tlbLookup tlb a = some p) : as.translate a = some p := by
  obtain ⟨e, he, rfl⟩ := Option.map_eq_some_iff.mp hp
  have hpage : e.1 = a / pageSize * pageSize := by simpa using find?_some he
  have hat := h e (mem_of_find?_eq_some he)
  rw [hpage] at hat
  rw [Addrspace.translate, hat, Option.map_some]

theorem vmFault_spec (faulttype : VmFaultType) (a : Nat) (s : Dumbvm) :
    Wp True (vmFault faulttype a (some as))
      (fun _ s' => ∃ q, as.pageAt (a / pageSize * pageSize) = some q ∧
        s' = { s with tlb := s.tlb ++ [(a / pageSize * pageSize, q)] })
      (fun _ s' => s' = s) s := by
  cases faulttype with
  | readonly => exact wp_halt.mpr True.intro
  | other => exact wp_fail.mpr rfl
  | read | write =>
    refine wp_bind.mpr (wp_assert.mpr ⟨fun _ => ?_, fun _ => True.intro⟩)
    cases hpage : as.pageAt (a / pageSize * pageSize) with
    | none => exact wp_fail.mpr rfl
    | some q =>
      rw [wp_bind, wp_assert]
      refine ⟨fun _ => ?_, fun _ => True.intro⟩
      unfold tlbFill
      rw [wp_bind, wp_get, wp_ite]
      exact ⟨fun _ => wp_modify.mpr ⟨q, rfl, rfl⟩, fun _ => wp_fail.mpr rfl⟩

/-- Nothing has happened but that the TLB has got more entries, and no wrong ones. -/
structure Looked (s : Dumbvm) (as : Addrspace) (t : Dumbvm × Addrspace) : Prop where
  space : t.2 = as
  grants : t.1.grants = s.grants
  tlb : ∀ e ∈ t.1.tlb, as.pageAt e.1 = some e.2
  mem : t.1.mem = s.mem

/-- **An address that is reached is translated as `vm_fault` does**, whether by the TLB or not. -/
theorem userAddress_spec (faulttype : VmFaultType) (a : Nat) {s : Dumbvm}
    (htlb : ∀ e ∈ s.tlb, as.pageAt e.1 = some e.2) :
    Wp True (userAddress faulttype a) (fun p t => as.translate a = some p ∧ Looked s as t)
      (fun _ => Looked s as) (s, as) := by
  unfold userAddress
  rw [wp_bind, wp_get]
  cases hlook : tlbLookup s.tlb a with
  | some p => exact wp_pure.mpr ⟨tlbLookup_translate htlb hlook, rfl, rfl, htlb, rfl⟩
  | none =>
    rw [wp_bind, wp_onFst]
    refine (vmFault_spec faulttype a s).imp ?_ ?_
    · rintro _ _ ⟨q, hq, rfl⟩
      have htlb' : ∀ e ∈ s.tlb ++ [(a / pageSize * pageSize, q)], as.pageAt e.1 = some e.2 := by
        intro e he
        rcases mem_append.mp he with he | he
        · exact htlb e he
        · cases mem_singleton.mp he
          exact hq
      rw [wp_bind, wp_get]
      cases hlook' : tlbLookup (s.tlb ++ [(a / pageSize * pageSize, q)]) a with
      | none => exact wp_halt.mpr True.intro
      | some p => exact wp_pure.mpr ⟨tlbLookup_translate htlb' hlook', rfl, rfl, htlb', rfl⟩
    · rintro _ _ rfl
      exact ⟨rfl, rfl, htlb, rfl⟩

variable {t : Dumbvm × Addrspace} {v : ExecFile} {file : List Byte}

theorem storeByte_spec (a : Nat) (b : Byte) (h : Shows as grants view t) :
    Wp True (storeByte a b) (fun _ => Shows as grants (Function.update view a (some b)))
      (fun _ _ => True) t := by
  obtain ⟨rfl, hgrants, htlb, hview⟩ := h
  refine wp_bind.mpr ((userAddress_spec .write a htlb).imp ?_ fun _ _ _ => True.intro)
  rintro p t' ⟨hp, hlooked⟩
  refine wp_modify.mpr ⟨hlooked.space, hlooked.grants.trans hgrants, hlooked.tlb, fun hinj => ?_⟩
  rw [hinj.through_update hp, hlooked.mem, hview hinj]

theorem storeBytes_spec (a : Nat) (bs : List Byte) (h : Shows as grants view t) :
    Wp True (storeBytes a bs) (fun _ => Shows as grants (putAt view a bs)) (fun _ _ => True) t := by
  induction bs generalizing a view t with
  | nil =>
    rw [putAt_nil]
    exact wp_pure.mpr h
  | cons b bs ih =>
    refine (storeByte_spec a b h).bind ?_
    intro _ t' h'
    rw [← putAt_cons]
    exact ih (a + 1) h'

theorem copyoutBytes_spec (src : List Byte) (userdest : Nat) (h : Shows as grants view t) :
    Wp True (copyoutBytes src userdest) (fun _ => Shows as grants (putAt view userdest src))
      (fun _ _ => True) t := by
  unfold copyoutBytes
  rw [wp_bind]
  generalize User.copycheck userdest src.length = check
  cases check with
  | error e => exact wp_ofResult_error.mpr True.intro
  | ok stoplen =>
    rw [wp_ofResult_ok, wp_ite]
    exact ⟨fun _ => wp_fail.mpr True.intro, fun _ => storeBytes_spec userdest src h⟩

/-- A piece that the iovec and `uio_resid` have room for is moved whole. -/
theorem uiomoveOut_spec (ptr : List Byte) {t : (Dumbvm × Addrspace) × UserUio}
    (h : Shows as grants view t.1) (hlen : ptr.length ≤ t.2.iovLen)
    (hresid : ptr.length ≤ t.2.uioResid) (hlt : t.2.uioResid < 4294967296) :
    Wp True (uiomoveOut ptr) (fun _ t' => Shows as grants (putAt view t.2.iovUbase ptr) t'.1 ∧
        t'.2 = { iovUbase := t.2.iovUbase + ptr.length, iovLen := t.2.iovLen - ptr.length
                 uioResid := t.2.uioResid - ptr.length })
      (fun _ _ => True) t := by
  unfold uiomoveOut
  rw [wp_bind, wp_get, wp_ite]
  constructor
  · intro hdone
    have hnil : ptr = [] := by
      rcases hdone with hnil | hzero
      · exact hnil
      · exact length_eq_zero_iff.mp (by omega)
    subst hnil
    rw [putAt_nil]
    exact wp_pure.mpr ⟨h, rfl⟩
  · intro _
    have hsize : min t.2.iovLen ptr.length = ptr.length := by omega
    rw [hsize]
    dsimp only
    rw [take_length, wp_bind, wp_assert]
    refine ⟨fun hpos => ?_, fun _ => True.intro⟩
    rw [wp_bind, wp_onFst]
    refine (copyoutBytes_spec ptr t.2.iovUbase h).post ?_
    intro _ s' h'
    rw [wp_bind, wp_modify, wp_bind, wp_get, wp_assert]
    refine ⟨fun _ => ⟨h', ?_⟩, fun _ => True.intro⟩
    have hu : u32 (t.2.uioResid + (4294967296 - ptr.length)) = t.2.uioResid - ptr.length := by
      unfold u32
      omega
    rw [hu]

theorem readUser_spec (hexact : v.Exact file) (offset : Nat) {u : UserUio}
    (hlen : u.uioResid ≤ u.iovLen) (hlt : u.uioResid < 4294967296) (h : Shows as grants view t) :
    Wp True (readUser v offset u) (fun resid t' =>
        Shows as grants (putAt view u.iovUbase ((file.drop offset).take u.uioResid)) t' ∧
        resid = u.uioResid - ((file.drop offset).take u.uioResid).length)
      (fun _ _ => True) t := by
  unfold readUser
  cases hread : v offset u.uioResid with
  | error e => exact wp_fail.mpr True.intro
  | ok pieces =>
    have hbytes := hexact _ _ _ hread
    rw [wp_bind, wp_withLocal]
    -- `done` is what has been moved already.
    refine (wp_forEach (fun rest (t : (Dumbvm × Addrspace) × UserUio) => ∃ done,
      done ++ rest.flatten = pieces.flatten ∧
      Shows as grants (putAt view u.iovUbase done) t.1 ∧
      t.2 = { iovUbase := u.iovUbase + done.length, iovLen := u.iovLen - done.length
              uioResid := u.uioResid - done.length }) ?_ pieces _
      ⟨[], rfl, by rwa [putAt_nil], rfl⟩).post ?_
    · rintro piece rest ⟨t, _⟩ ⟨done, hdone, hshows, rfl⟩
      have htotal : pieces.flatten.length ≤ u.uioResid := by
        rw [hbytes]
        exact length_take_le _ _
      rw [flatten_cons] at hdone
      have hroom : done.length + piece.length ≤ u.uioResid := by
        have := congrArg length hdone
        simp only [length_append] at this
        omega
      refine (uiomoveOut_spec piece hshows (by dsimp only; omega) (by dsimp only; omega)
        (by dsimp only; omega)).post ?_
      rintro _ ⟨t', _⟩ ⟨hshows', rfl⟩
      refine ⟨done ++ piece, by rw [append_assoc, hdone], ?_, ?_⟩
      · rw [← putAt_append]
        exact hshows'
      · simp only [length_append, Nat.add_assoc, Nat.sub_sub]
    · rintro _ ⟨t, _⟩ ⟨done, hdone, hshows, rfl⟩
      rw [flatten_nil, append_nil] at hdone
      rw [← hbytes, ← hdone]
      exact wp_pure.mpr ⟨hshows, rfl⟩

/-- **A segment puts its bytes at its addresses**, and changes nothing else. -/
theorem loadSegment_spec (hexact : v.Exact file) (offset vaddr : Nat) {memsize : Nat}
    (filesize : Nat) (hlt : memsize < 4294967296) (h : Shows as grants view t) :
    Wp True (loadSegment v offset vaddr memsize filesize) (fun _ t' =>
        Shows as grants (putAt view vaddr ((file.drop offset).take (min filesize memsize))) t' ∧
        ((file.drop offset).take (min filesize memsize)).length = min filesize memsize)
      (fun _ _ => True) t := by
  unfold loadSegment
  have hmin : (if filesize > memsize then memsize else filesize) = min filesize memsize := by
    split_ifs <;> omega
  rw [hmin, wp_bind]
  refine (readUser_spec hexact offset (by dsimp only; omega) (by dsimp only; omega) h).imp ?_
    fun _ _ => id
  rintro resid t' ⟨hshows, rfl⟩
  rw [wp_ite]
  refine ⟨fun _ => wp_fail.mpr True.intro, fun hresid => wp_pure.mpr ⟨hshows, ?_⟩⟩
  have hle : ((file.drop offset).take (min filesize memsize)).length ≤ min filesize memsize :=
    length_take_le _ _
  dsimp only at hresid
  omega

end Stores

/-! ## 5. The two passes -/

/-- What the file says at the place of header `i`. -/
def ElfEhdr.phdrAt (eh : ElfEhdr) (file : List Byte) (i : Nat) : ElfPhdr :=
  .ofBytes ((file.drop (eh.phdrOffset i)).take sizeofPhdr)

/-- The segments to be loaded among these headers. -/
def ElfEhdr.loads (eh : ElfEhdr) (file : List Byte) (is : List Nat) : List ElfPhdr :=
  (is.map (eh.phdrAt file)).filter fun ph => ph.pType = ptLoad

theorem headerNat_lt (l : List Byte) (i n : Nat) : headerNat l i n < 256 ^ n := by
  have hfold : ∀ (l : List Byte) (x : Nat),
      l.foldl (fun x b => x * 256 + b.toNat) x < (x + 1) * 256 ^ l.length := by
    intro l
    induction l with
    | nil => simp
    | cons b l ih =>
      intro x
      rw [foldl_cons, length_cons, Nat.pow_succ']
      calc l.foldl (fun x b => x * 256 + b.toNat) (x * 256 + b.toNat)
          < (x * 256 + b.toNat + 1) * 256 ^ l.length := ih _
        _ ≤ ((x + 1) * 256) * 256 ^ l.length := Nat.mul_le_mul_right _ (by omega)
        _ = (x + 1) * (256 * 256 ^ l.length) := Nat.mul_assoc _ _ _
  calc _ < (0 + 1) * 256 ^ ((l.drop i).take n).length := hfold _ 0
    _ = 256 ^ ((l.drop i).take n).length := by rw [Nat.zero_add, Nat.one_mul]
    _ ≤ 256 ^ n := Nat.pow_le_pow_right (by decide) (length_take_le _ _)

section Passes

variable {v : ExecFile} {file : List Byte} (hexact : v.Exact file)
include hexact

theorem readKernel_spec (offset len : Nat) (t : Dumbvm × Addrspace) :
    Wp True (readKernel v offset len)
      (fun l t' => l = (file.drop offset).take len ∧ t' = t) (fun _ _ => True) t := by
  unfold readKernel
  cases hread : v offset len with
  | error e => exact wp_fail.mpr True.intro
  | ok pieces =>
    refine wp_ite.mpr ⟨fun _ => wp_fail.mpr True.intro, fun _ => ?_⟩
    exact wp_pure.mpr ⟨hexact _ _ _ hread, rfl⟩

variable {eh : ElfEhdr} {f : ElfPhdr → AsProg Unit} {t : Dumbvm × Addrspace}

/-- One round does something only for a segment that is to be loaded. -/
theorem withPhdr_spec {i : Nat} {Q : Unit → Dumbvm × Addrspace → Prop}
    (hload : (eh.phdrAt file i).pType = ptLoad →
      Wp True (f (eh.phdrAt file i)) Q (fun _ _ => True) t)
    (hskip : (eh.phdrAt file i).pType ≠ ptLoad → Q () t) :
    Wp True (withPhdr v eh f i) Q (fun _ _ => True) t := by
  refine (readKernel_spec hexact _ _ t).bind ?_
  rintro _ _ ⟨rfl, rfl⟩
  refine wp_ite.mpr ⟨fun hother => wp_pure.mpr (hskip ?_), fun _ => ?_⟩
  · intro he
    have hne : ptLoad ≠ ptNull ∧ ptLoad ≠ ptPhdr ∧ ptLoad ≠ ptMipsReginfo := by decide
    rw [← he] at hne
    exact hother.elim hne.1 fun h => h.elim hne.2.1 hne.2.2
  · exact wp_ite.mpr ⟨hload, fun _ => wp_fail.mpr True.intro⟩

/-- **A pass over the headers** runs `f` on the segments that are to be loaded, in order.  `I` is
indexed by those it has been run on. -/
theorem wp_headers (I : List ElfPhdr → Dumbvm × Addrspace → Prop)
    (hstep : ∀ phs i t, I phs t → Wp True (f (eh.phdrAt file i))
      (fun _ => I (phs ++ [eh.phdrAt file i])) (fun _ _ => True) t)
    (is : List Nat) (ht : I [] t) :
    Wp True (forEach (withPhdr v eh f) is) (fun _ => I (eh.loads file is)) (fun _ _ => True) t := by
  refine (wp_forEach (fun rest t => ∃ done, done ++ rest = is ∧ I (eh.loads file done) t) ?_ is
    t ⟨[], rfl, ht⟩).post ?_
  · rintro i rest t ⟨done, rfl, hI⟩
    have hloads : eh.loads file (done ++ [i]) = eh.loads file done ++
        if (eh.phdrAt file i).pType = ptLoad then [eh.phdrAt file i] else [] := by
      simp only [ElfEhdr.loads, map_append, map_cons, map_nil, filter_append]
      by_cases hi : (eh.phdrAt file i).pType = ptLoad <;> simp [hi]
    refine withPhdr_spec hexact (fun hi => ?_) fun hi => ⟨done ++ [i], by simp, ?_⟩
    · refine (hstep _ i t hI).post fun _ t' hI' => ⟨done ++ [i], by simp, ?_⟩
      rw [hloads, if_pos hi]
      exact hI'
    · rw [hloads, if_neg hi, append_nil]
      exact hI
  · rintro _ t ⟨done, hdone, hI⟩
    rw [append_nil] at hdone
    rwa [← hdone]

/-- The bytes of the file that a segment gets. -/
def ElfPhdr.bytes (ph : ElfPhdr) (file : List Byte) : List Byte :=
  (file.drop ph.pOffset).take (min ph.pFilesz ph.pMemsz)

/-- The regions that the first pass defines. -/
def definedBy (phs : List ElfPhdr) : Addrspace :=
  phs.foldl (fun as ph => as.define ph.pVaddr ph.pMemsz) .empty

/-- What `load_elf` does: it defines the regions, gets memory for them, and puts the segments
there. -/
theorem loadElf_spec {s : Dumbvm} (htlb : s.tlb = []) (heh : eh = .ofBytes (file.take sizeofEhdr))
    {phs : List ElfPhdr} (hphs : phs = eh.loads file (range eh.ePhnum)) : Wp True (loadElf v)
      (fun entry t => entry = eh.eEntry ∧ ∃ t₁, Prepared s (definedBy phs) t₁ ∧
        Shows t₁.2 t₁.1.grants (putAll (through t₁.2.translate t₁.1.mem)
          (phs.map fun ph => (ph.pVaddr, ph.bytes file))) t ∧
        ∀ ph ∈ phs, (ph.bytes file).length = min ph.pFilesz ph.pMemsz)
      (fun _ _ => True) (s, .empty) := by
  refine (readKernel_spec hexact _ _ _).bind ?_
  rintro _ _ ⟨rfl, rfl⟩
  rw [drop_zero, ← heh, wp_ite]
  refine ⟨fun _ => wp_fail.mpr True.intro, fun _ => ?_⟩
  -- The first pass.
  refine wp_bind.mpr ((wp_headers hexact
    (fun phs (t : Dumbvm × Addrspace) => t = (s, definedBy phs)) ?_ _ rfl).post ?_)
  · rintro phs i _ rfl
    refine (asDefineRegion_spec _ _ s (definedBy phs)).weaken.imp ?_ fun _ _ _ => True.intro
    rintro _ _ rfl
    simp [definedBy]
  rw [← hphs]
  rintro _ _ rfl
  refine (asPrepareLoad_spec s _).bind ?_
  intro _ t₁ hprep
  have hstart : Shows t₁.2 t₁.1.grants (through t₁.2.translate t₁.1.mem) t₁ := by
    refine ⟨rfl, rfl, ?_, fun _ => rfl⟩
    rw [hprep.tlb, htlb]
    exact nofun
  -- The second pass.
  refine wp_bind.mpr ((wp_headers hexact (fun phs t =>
    Shows t₁.2 t₁.1.grants (putAll (through t₁.2.translate t₁.1.mem)
      (phs.map fun ph => (ph.pVaddr, ph.bytes file))) t ∧
    ∀ ph ∈ phs, (ph.bytes file).length = min ph.pFilesz ph.pMemsz) ?_ _
    ⟨hstart, nofun⟩).post ?_)
  · rintro phs i t ⟨hshows, hlen⟩
    have hlt : (eh.phdrAt file i).pMemsz < 4294967296 := headerNat_lt _ _ 4
    refine (loadSegment_spec hexact _ _ _ hlt hshows).post ?_
    rintro _ t' ⟨hshows', hlen'⟩
    refine ⟨?_, ?_⟩
    · rw [map_append, map_singleton, putAll_snoc]
      exact hshows'
    · intro ph hph
      rcases mem_append.mp hph with hph | hph
      · exact hlen ph hph
      · cases mem_singleton.mp hph
        exact hlen'
  · rw [← hphs]
    rintro _ t ⟨hshows, hlen⟩
    exact wp_pure.mpr ⟨rfl, t₁, hprep, hshows, hlen⟩

end Passes

/-! ## 6. What the program sees -/

/-- The address belongs to the segment. -/
def ElfPhdr.Has (ph : ElfPhdr) (a : Nat) : Prop := ph.pVaddr ≤ a ∧ a < ph.pVaddr + ph.pMemsz

/-- **The segments that dumbvm can have**: at most two, not on the first page, inside user space,
and with no byte in common. -/
structure Loadable (phs : List ElfPhdr) : Prop where
  two : phs.length ≤ 2
  base : ∀ ph ∈ phs, ph.pVaddr / pageSize * pageSize ≠ 0
  user : ∀ ph ∈ phs, ph.pVaddr + ph.pMemsz ≤ User.userspaceTop
  apart : phs.Pairwise fun ph ph' => ∀ a, ph.Has a → ¬ ph'.Has a

variable {phs : List ElfPhdr} {s : Dumbvm} {t : Dumbvm × Addrspace} {ph : ElfPhdr} {r : Region}
  {a : Nat} {as : Addrspace}

theorem Loadable.region (h : Loadable phs) (hprep : Prepared s (definedBy phs) t) (hph : ph ∈ phs) :
    ∃ r ∈ t.2.regions, r.vbase = ph.pVaddr / pageSize * pageSize ∧
      r.pages.npages = regionPages ph.pVaddr ph.pMemsz := by
  rw [hprep.space]
  match phs, h.two, h.base with
  | [], _, _ => cases hph
  | [ph₁], _, _ =>
    cases mem_singleton.mp hph
    refine ⟨_, mem_cons_self, ?_⟩
    simp [definedBy, define, empty]
  | [ph₁, ph₂], _, hbase =>
    have hfirst : ph₁.pVaddr / pageSize * pageSize ≠ 0 := hbase ph₁ mem_cons_self
    rcases mem_cons.mp hph with rfl | hph
    · refine ⟨_, mem_cons_self, ?_⟩
      simp [definedBy, define, empty, hfirst]
    · cases mem_singleton.mp hph
      refine ⟨_, mem_cons_of_mem _ mem_cons_self, ?_⟩
      simp [definedBy, define, empty, hfirst]

theorem Region.pageAt_isSome {vaddr sz : Nat} (hbase : r.vbase = vaddr / pageSize * pageSize)
    (hpages : r.pages.npages = regionPages vaddr sz) (huser : vaddr + sz ≤ User.userspaceTop)
    (hlo : vaddr ≤ a) (hhi : a < vaddr + sz) : (r.pageAt (a / pageSize * pageSize)).isSome := by
  unfold Region.pageAt Region.vtop
  rw [hbase, hpages]
  unfold regionPages User.userspaceTop u32 at *
  simp only [pageSize] at *
  rw [if_pos]
  · rfl
  · omega

theorem Addrspace.translate_isSome (hr : r ∈ as.regions)
    (h : (r.pageAt (a / pageSize * pageSize)).isSome) : ∃ p, as.translate a = some p := by
  unfold translate pageAt
  cases hfind : as.regions.findSome? fun r => r.pageAt (a / pageSize * pageSize) with
  | some q => exact ⟨_, rfl⟩
  | none =>
    rw [findSome?_eq_none_iff.mp hfind r hr] at h
    cases h

/-- What `as_prepare_load` leaves, if it got fresh memory: no page is behind two addresses, and
every byte is zero. -/
theorem Prepared.zeroed (h : Prepared s as t) (has : as.Rounded) (hfresh : Fresh t.1.grants) :
    OneToOne t.2.translate ∧
      ∀ a p, t.2.translate a = some p → through t.2.translate t.1.mem a = some 0 := by
  have hround : t.2.Rounded := h.space ▸ ⟨has.vbase1, has.vbase2⟩
  have hin : ∀ r ∈ t.2.regions, r.pages ∈ t.1.grants := by
    intro r hr
    rw [h.grants]
    exact mem_append_left _ (mem_reverse.mpr (mem_map_of_mem hr))
  have hwf : t.2.Wf := hround.wf hfresh hin
  have hpair := hfresh.apart
  rw [h.grants] at hpair
  have hapart := pairwise_map.mp (pairwise_reverse.mp (pairwise_append.mp hpair).1)
  refine ⟨hwf.oneToOne (hapart.imp Or.symm), fun a p hp => ?_⟩
  obtain ⟨r, hr, -, hpr, htop⟩ := hwf.translate hp
  rw [through, hp, Option.map_some, h.mem]
  refine congrArg some (Mem.clearAll_of_mem (mem_map_of_mem hr) ?_)
  rw [hfresh.u32_size (hin r hr)]
  unfold Pages.top at htop
  omega

/-- **A segment is there**: up to the smaller of its two sizes the program sees the bytes of the
file, and from there on zeros. -/
structure ElfPhdr.Loaded (ph : ElfPhdr) (file : List Byte) (view : Nat → Option Byte) : Prop where
  data : ∀ k < min ph.pFilesz ph.pMemsz,
    ∃ b, file[ph.pOffset + k]? = some b ∧ view (ph.pVaddr + k) = some b
  bss : ∀ k, ph.pFilesz ≤ k → k < ph.pMemsz → view (ph.pVaddr + k) = some 0

theorem definedBy_rounded (phs : List ElfPhdr) : (definedBy phs).Rounded := by
  have hfold : ∀ as : Addrspace, as.Rounded →
      (phs.foldl (fun as ph => as.define ph.pVaddr ph.pMemsz) as).Rounded := by
    induction phs with
    | nil => exact fun _ h => h
    | cons ph phs ih => exact fun as h => ih _ (h.define _ _)
  exact hfold _ ⟨rfl, rfl⟩

/-- Segments with no byte in common, put one after another over zeros, are all there. -/
theorem Loadable.loaded (h : Loadable phs) {file : List Byte}
    (hlen : ∀ ph ∈ phs, (ph.bytes file).length = min ph.pFilesz ph.pMemsz)
    {view : Nat → Option Byte} (hzero : ∀ ph ∈ phs, ∀ a, ph.Has a → view a = some 0)
    (hph : ph ∈ phs) :
    ph.Loaded file (putAll view (phs.map fun ph => (ph.pVaddr, ph.bytes file))) := by
  constructor
  · intro k hk
    have hpair : (phs.map fun ph => (ph.pVaddr, ph.bytes file)).Pairwise fun p q =>
        ∀ k < p.2.length, p.1 + k < q.1 ∨ q.1 + q.2.length ≤ p.1 + k := by
      refine pairwise_map.mpr (h.apart.imp_of_mem fun {p q} hp hq hpq k hk => ?_)
      rw [hlen p hp] at hk
      rw [hlen q hq]
      have hnot := hpq (p.pVaddr + k) ⟨by omega, by omega⟩
      unfold ElfPhdr.Has at hnot
      omega
    have hin : k < (ph.bytes file).length := by rwa [hlen ph hph]
    have hget : putAll view (phs.map fun ph => (ph.pVaddr, ph.bytes file)) (ph.pVaddr + k) =
        (ph.bytes file)[k]? := putAll_add hpair (mem_map_of_mem hph) hin
    have hfile : (ph.bytes file)[k]? = file[ph.pOffset + k]? := by
      rw [ElfPhdr.bytes, getElem?_take_of_lt hk, getElem?_drop]
    refine ⟨(ph.bytes file)[k], ?_, ?_⟩
    · rw [← hfile, getElem?_eq_getElem hin]
    · rw [hget, getElem?_eq_getElem hin]
  · intro k hlo hhi
    have hhas : ph.Has (ph.pVaddr + k) := ⟨by omega, by omega⟩
    rw [putAll_of_outside, hzero ph hph _ hhas]
    simp only [forall_mem_map]
    intro q hq
    rw [hlen q hq]
    by_cases heq : ph = q
    · subst heq
      omega
    · have hsymm : Std.Symm fun ph ph' : ElfPhdr => ∀ a, ph.Has a → ¬ ph'.Has a :=
        ⟨fun _ _ hab a hb ha => hab a ha hb⟩
      have hnot := h.apart.forall hph hq heq _ hhas
      unfold ElfPhdr.Has at hnot
      omega

/-- **Program loading is exact.**  If `load_elf`, in a new address space that has just been
activated, returns 0, then all segments are there and the entry point is the one in the header. -/
theorem load_elf_exact {v : ExecFile} {file : List Byte} (hexact : v.Exact file) {s s' : Dumbvm}
    (htlb : s.tlb = []) {as : Addrspace} {entry : Nat}
    (hload : loadElf v (s, .empty) = some (.ok entry, s', as)) (hfresh : Fresh s'.grants)
    {eh : ElfEhdr} (heh : eh = .ofBytes (file.take sizeofEhdr)) {phs : List ElfPhdr}
    (hphs : phs = eh.loads file (List.range eh.ePhnum)) (hloadable : Loadable phs) :
    entry = eh.eEntry ∧ ∀ ph ∈ phs, ph.Loaded file (through as.translate s'.mem) := by
  obtain ⟨hentry, t, hprep, hshows, hlen⟩ := (loadElf_spec hexact htlb heh hphs).of_ok hload
  have hspace : as = t.2 := hshows.space
  have hgrants : s'.grants = t.1.grants := hshows.grants
  obtain ⟨hinj, hzero⟩ := hprep.zeroed (definedBy_rounded phs) (hgrants ▸ hfresh)
  refine ⟨hentry, fun ph hph => ?_⟩
  rw [hspace]
  have hview := hshows.view hinj
  rw [hview]
  refine hloadable.loaded hlen (fun ph hph a ha => ?_) hph
  obtain ⟨r, hr, hbase, hpages⟩ := hloadable.region hprep hph
  obtain ⟨p, hp⟩ := Addrspace.translate_isSome hr
    (Region.pageAt_isSome hbase hpages (hloadable.user ph hph) ha.1 ha.2)
  exact hzero a p hp

/-- A program with eight bytes of text, for which its header gives these sizes, and a data segment
with two bytes in the file and eight in memory. -/
def smallElf (filesz memsz : Nat) : List Byte :=
  [0x7f, 0x45, 0x4c, 0x46, 1, 2, 1, 0, 0, 0, 0, 0, 0, 0, 0, 0] ++
  numberBytes 2 2 ++ numberBytes 2 8 ++ numberBytes 4 1 ++ numberBytes 4 0x400000 ++
  numberBytes 4 52 ++ numberBytes 4 0 ++ numberBytes 4 0 ++ numberBytes 2 52 ++ numberBytes 2 32 ++
  numberBytes 2 2 ++ numberBytes 6 0 ++
  ([1, 116, 0x400000, 0, filesz, memsz, 5, 4096].map (numberBytes 4)).flatten ++
  ([1, 124, 0x10000000, 0, 2, 8, 6, 4096].map (numberBytes 4)).flatten ++
  [1, 2, 3, 4, 5, 6, 7, 8, 9, 10]

/-- A file that is read in one piece. -/
def inOnePiece (file : List Byte) : ExecFile := fun offset len =>
  .ok [(file.drop offset).take len]

theorem inOnePiece_exact (file : List Byte) : (inOnePiece file).Exact file := by
  rintro offset len _ ⟨⟩
  exact flatten_singleton

/-- The segments of the program. -/
def smallPhdrs (filesz memsz : Nat) : List ElfPhdr :=
  [{ pType := 1, pOffset := 116, pVaddr := 0x400000, pFilesz := filesz, pMemsz := memsz },
   { pType := 1, pOffset := 124, pVaddr := 0x10000000, pFilesz := 2, pMemsz := 8 }]

theorem smallPhdrs_loadable {filesz memsz : Nat} (h : memsz ≤ 8) :
    Loadable (smallPhdrs filesz memsz) := by
  refine ⟨Nat.le_refl 2, ?_, ?_, ?_⟩
  · simp only [smallPhdrs, forall_mem_cons]
    exact ⟨by decide, by decide, nofun⟩
  · simp only [smallPhdrs, forall_mem_cons, User.userspaceTop]
    exact ⟨by omega, by omega, nofun⟩
  · refine pairwise_pair.mpr fun a ha ha' => ?_
    unfold ElfPhdr.Has at ha ha'
    dsimp only at ha ha'
    omega

/-- What the small machine has handed out when the program is loaded. -/
def smallElfGrants : List Pages := [⟨0x42000, 12⟩, ⟨0x41000, 1⟩, ⟨0x40000, 1⟩]

/-- The program is loaded. -/
theorem load_elf_exact_small : ∃ (s : Dumbvm) (as : Addrspace),
    loadElf (inOnePiece (smallElf 8 8)) (smallMachine, .empty) = some (.ok 0x400000, s, as) ∧
    ∀ ph ∈ smallPhdrs 8 8, ph.Loaded (smallElf 8 8) (through as.translate s.mem) := by
  obtain ⟨⟨s, as⟩, hload, hgrants⟩ := Prog.exists_of_map
    (m := loadElf (inOnePiece (smallElf 8 8))) (s := (smallMachine, .empty)) (r := .ok 0x400000)
    (f := fun t => t.1.grants) (b := smallElfGrants) (by decide +kernel)
  have hfresh : Fresh s.grants := hgrants ▸ ⟨by decide, by decide, by decide⟩
  have hphs : smallPhdrs 8 8 = (ElfEhdr.ofBytes ((smallElf 8 8).take sizeofEhdr)).loads
      (smallElf 8 8) (range 2) := by decide +kernel
  exact ⟨s, as, hload, (load_elf_exact (inOnePiece_exact _) rfl hload hfresh rfl hphs
    (smallPhdrs_loadable (by decide))).2⟩

/-- **A segment with more in the file than in memory**: the fifth byte of the file is 5, and the
program sees 0 in its place. -/
theorem long_segment_cut : ∃ (s : Dumbvm) (as : Addrspace),
    loadElf (inOnePiece (smallElf 8 4)) (smallMachine, .empty) = some (.ok 0x400000, s, as) ∧
    Fresh s.grants ∧ Loadable (smallPhdrs 8 4) ∧
    smallPhdrs 8 4 = (ElfEhdr.ofBytes ((smallElf 8 4).take sizeofEhdr)).loads (smallElf 8 4)
      (List.range 2) ∧
    (smallElf 8 4)[116 + 4]? = some 5 ∧ through as.translate s.mem (0x400000 + 4) = some 0 := by
  obtain ⟨⟨s, as⟩, hload, hend⟩ := Prog.exists_of_map
    (m := loadElf (inOnePiece (smallElf 8 4))) (s := (smallMachine, .empty)) (r := .ok 0x400000)
    (f := fun t => (t.1.grants, through t.2.translate t.1.mem (0x400000 + 4)))
    (b := (smallElfGrants, some 0)) (by decide +kernel)
  obtain ⟨hgrants, hview⟩ := Prod.ext_iff.mp hend
  have hfresh : Fresh s.grants := by
    dsimp only at hgrants
    rw [hgrants]
    exact ⟨by decide, by decide, by decide⟩
  exact ⟨s, as, hload, hfresh, smallPhdrs_loadable (by decide), by decide +kernel,
    by decide +kernel, hview⟩

end Os161
