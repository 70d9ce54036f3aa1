/-
# `user/lib/libc/stdlib/malloc.c`: the user-level heap

The heap is the memory from `__heapbase` to `__heaptop`, cut into blocks.  Each block starts with
a header of 8 bytes that holds, in units of 8 bytes, the distance to the header before it and to
the header behind it.  `malloc` takes the first free block that is large enough and splits off
what is left of it, or gets more memory with `sbrk`; `free` merges the block with its neighbours.

`HeapInv` says what the headers mean: they describe a list of chunks that covers the heap
exactly.  Each function is then a change of that list (`mallocSplit_spec`, `mallocTrymerge_spec`,
...) within a window of bytes (`Respliced`), and the main theorem follows: whatever a program does
with `malloc` and `free`, the headers tile the heap, no two free blocks are neighbours, no block
in use is touched, and none of the exits for a corrupt heap or an internal error is taken.  Only a
break that starts at address 0 is turned down, with one of those.

The one exit a correct program CAN meet in `free` is another one.  `malloc(0)` may return the
address `__heaptop` itself, and `free` refuses that as out of range.
-/
import Os161.Lib.Chunks
import Os161.Lib.Memory
import Os161.Lib.Run
import Os161.Lhd

namespace Os161

open List

/-! ## 1. The code -/

/-- `struct mheader`, with its bit fields. -/
@[ext] structure MHeader where
  mhPrevblock : Nat
  mhPad : Nat
  mhMagic1 : Nat
  mhNextblock : Nat
  mhInuse : Nat
  mhMagic2 : Nat

/-- `MBLOCKSIZE`. -/
abbrev mblocksize : Nat := 8

/-- `MMAGIC`. -/
abbrev mmagic : Nat := 2

/-- The header at address `a`: two words of 29, 1 and 2 bits each. -/
def Mem.header (m : Mem) (a : Nat) : MHeader where
  mhPrevblock := m.word a / 8
  mhPad := m.word a / 4 % 2
  mhMagic1 := m.word a % 4
  mhNextblock := m.word (a + 4) / 8
  mhInuse := m.word (a + 4) / 4 % 2
  mhMagic2 := m.word (a + 4) % 4

/-- The memory with the header `h` at address `a`. -/
def Mem.setHeader (m : Mem) (a : Nat) (h : MHeader) : Mem :=
  (m.setWord a (h.mhPrevblock % 536870912 * 8 + h.mhPad % 2 * 4 + h.mhMagic1 % 4)).setWord (a + 4)
    (h.mhNextblock % 536870912 * 8 + h.mhInuse % 2 * 4 + h.mhMagic2 % 4)

/-- `M_NEXTOFF`. -/
def mNextoff (h : MHeader) : Nat := u32 (h.mhNextblock * 8)

/-- `M_PREVOFF`. -/
def mPrevoff (h : MHeader) : Nat := u32 (h.mhPrevblock * 8)

/-- `M_SIZE`, which wraps for a block without room for its header. -/
def mSize (h : MHeader) : Nat := u32 (mNextoff h + 4294967288)

/-- `M_OK`. -/
def mOk (h : MHeader) : Prop := h.mhMagic1 = mmagic ∧ h.mhMagic2 = mmagic

instance (h : MHeader) : Decidable (mOk h) := inferInstanceAs (Decidable (_ ∧ _))

/-- `M_MKFIELD`. -/
def mMkfield (off : Nat) : Nat := u32 off / 8

/-- The ways the code ends the process. -/
inductive MallocExit
  | initialSbrk | alignSbrk | baseMoved | heapAtZero | badInit | mallocLocal | topMoved | splitSize
  | splitScrewed | badMagic | badPrevblock | ranOffEnd | freeLocal | outOfRange | corruptHeader
  | alreadyFree | inconsistent
  deriving DecidableEq, Repr

/-- The exits that say "Heap corrupt" or "Internal error". -/
def MallocExit.Corrupt : MallocExit → Prop
  | .initialSbrk | .alignSbrk | .baseMoved | .outOfRange | .corruptHeader | .alreadyFree => False
  | _ => True

/-- The memory of a process, the static variables of `malloc.c`, and the break. -/
structure MallocState where
  mem : Mem
  heapbase : Nat
  heaptop : Nat
  brk : Nat
  /-- Whether the calls of `sbrk` still to come succeed, if there is room. -/
  sbrkOk : Nat → Bool

/-- A program over the heap; its errors are the exits. -/
abbrev Malloc (α : Type) := Prog MallocExit MallocState α

/-- `sbrk`: the old break, or `none` for -1.  Its argument is an `int`, and the kernel refuses a
negative one. -/
def sbrk (amount : Nat) : Malloc (Option Nat) := do
  let s ← get
  modify fun s => { s with sbrkOk := fun n => s.sbrkOk (n + 1) }
  if s.sbrkOk 0 = true ∧ amount < 2147483648 ∧ s.brk + amount < 4294967296 then do
    modify fun s => { s with brk := s.brk + amount }
    pure (some s.brk)
  else pure none

/-- The end of `__malloc_init`: make sure the heap base is aligned. -/
def mallocAlign (x : Nat) : Malloc Unit :=
  if x % mblocksize ≠ 0 then do
    let adjust := mblocksize - x % mblocksize
    match ← sbrk adjust with
    | none => fail .alignSbrk
    | some y =>
      if y ≠ x then fail .baseMoved
      else modify fun s => { s with heapbase := u32 (x + adjust), heaptop := u32 (x + adjust) }
  else pure ()

/-- `__malloc_init`.  The checks of `MBLOCKSIZE` and `MBLOCKSHIFT` are about constants. -/
def mallocInit : Malloc Unit := do
  let s ← get
  if s.heapbase ≠ 0 ∨ s.heaptop ≠ 0 then fail .badInit
  else do
    match ← sbrk 0 with
    | none => fail .initialSbrk
    | some x =>
      if x = 0 then fail .heapAtZero
      else do
        modify fun s => { s with heapbase := x, heaptop := x }
        mallocAlign x

/-- `__malloc_sbrk`. -/
def mallocSbrk (size : Nat) : Malloc (Option Nat) := do
  match ← sbrk size with
  | none => pure none
  | some x => do
    let s ← get
    if x ≠ s.heaptop then fail .topMoved
    else do
      modify fun s => { s with heaptop := u32 (s.heaptop + size) }
      pure (some x)

/-- The header at address `a`. -/
def getHeader (a : Nat) : Malloc MHeader := do
  let s ← get
  pure (s.mem.header a)

/-- Change fields of the header at address `a`. -/
def modifyHeader (a : Nat) (f : MHeader → MHeader) : Malloc Unit :=
  modify fun s => { s with mem := s.mem.setHeader a (f (s.mem.header a)) }

/-- The end of `__malloc_split` and of `__malloc_trymerge`: unless it is the top, the header at
`mhnext` is told the length of the block at `mh`. -/
def mallocSetPrev (mhnext mh : Nat) : Malloc Unit := do
  let s ← get
  if mhnext ≠ s.heaptop then
    modifyHeader mhnext fun h => { h with mhPrevblock := (s.mem.header mh).mhNextblock }

/-- The second half of `__malloc_split`: there is room for a new block. -/
def mallocSplitAt (mh size : Nat) : Malloc Unit := do
  let h ← getHeader mh
  let mhnext := u32 (mh + mNextoff h)
  let oldsize := mSize h
  modifyHeader mh fun h => { h with mhNextblock := mMkfield (size + mblocksize) }
  let h ← getHeader mh
  let mhnew := u32 (mh + mNextoff h)
  if mhnew = mhnext then fail .splitScrewed
  else do
    modifyHeader mhnew fun _ => {
      mhPrevblock := mMkfield (size + mblocksize)
      mhPad := 0
      mhMagic1 := mmagic
      mhNextblock := mMkfield (u32 (oldsize + (4294967296 - size)))
      mhInuse := 0
      mhMagic2 := mmagic }
    mallocSetPrev mhnext mhnew

/-- `__malloc_split`. -/
def mallocSplit (mh size : Nat) : Malloc Unit :=
  if size % mblocksize ≠ 0 then fail .splitSize
  else do
    let h ← getHeader mh
    if u32 (mSize h + (4294967296 - size)) < 2 * mblocksize then pure ()
    else mallocSplitAt mh size

/-- What the search of `malloc` ends with: a block, or the end and the length before it. -/
inductive Found
  | block (mh : Nat)
  | top (i rightprevblock : Nat)

/-- The first-fit search of `malloc`.  Each round moves up by at least one block unless a header
says 0, and then the loop does not end; `fuel` is the number of rounds. -/
def mallocSearch (size : Nat) : Nat → Nat → Nat → Malloc Found
  | 0, _, _ => halt
  | fuel + 1, i, rightprevblock => do
    let s ← get
    if i < s.heaptop then do
      let h ← getHeader i
      if ¬ mOk h then fail .badMagic
      else if h.mhPrevblock ≠ rightprevblock then fail .badPrevblock
      else if h.mhInuse ≠ 0 ∨ mSize h < size then
        mallocSearch size fuel (u32 (i + mNextoff h)) h.mhNextblock
      else pure (.block i)
    else pure (.top i rightprevblock)

/-- The end of `malloc`: expand the heap. -/
def mallocExpand (size rightprevblock : Nat) : Malloc (Option Nat) := do
  match ← mallocSbrk (u32 (size + mblocksize)) with
  | none => pure none
  | some mh => do
    modifyHeader mh fun _ => {
      mhPrevblock := rightprevblock
      mhPad := 0
      mhMagic1 := mmagic
      mhNextblock := mMkfield (size + mblocksize)
      mhInuse := 1
      mhMagic2 := mmagic }
    pure (some (mh + mblocksize))

/-- `malloc` on an initialized heap, with the size rounded up. -/
def mallocRounded (size : Nat) : Malloc (Option Nat) := do
  let s ← get
  match ← mallocSearch size (s.heaptop - s.heapbase + 1) s.heapbase 0 with
  | .block mh => do
    mallocSplit mh size
    modifyHeader mh fun h => { h with mhInuse := 1 }
    pure (some (mh + mblocksize))
  | .top i rightprevblock => do
    let s ← get
    if i ≠ s.heaptop then fail .ranOffEnd else mallocExpand size rightprevblock

/-- The size rounded up to an integral number of blocks. -/
def mallocRoundup (size : Nat) : Nat := u32 (size + 7) / 8 * 8

/-- The start of `malloc`: the first call makes the heap. -/
def mallocFirst : Malloc Unit := do
  let s ← get
  if s.heapbase = 0 then mallocInit

/-- `malloc`; the result `none` is NULL. -/
def malloc (size : Nat) : Malloc (Option Nat) := do
  mallocFirst
  let s ← get
  if s.heapbase = 0 ∨ s.heaptop = 0 ∨ s.heapbase > s.heaptop then fail .mallocLocal
  else mallocRounded (mallocRoundup size)

/-- `__malloc_deadbeef`. -/
def mallocDeadbeef (ptr size : Nat) : Malloc Unit :=
  modify fun s => { s with mem := s.mem.fillWords ptr 3735928559 (size / 4) }

/-- `__malloc_trymerge`. -/
def mallocTrymerge (mh mhnext : Nat) : Malloc Unit := do
  let h ← getHeader mh
  let hnext ← getHeader mhnext
  if h.mhNextblock ≠ hnext.mhPrevblock then fail .inconsistent
  else if h.mhInuse ≠ 0 ∨ hnext.mhInuse ≠ 0 then pure ()
  else do
    let mhnextnext := u32 (mhnext + mNextoff hnext)
    modifyHeader mh fun h =>
      { h with mhNextblock := mMkfield (mblocksize + mSize h + mblocksize + mSize hnext) }
    mallocSetPrev mhnextnext mh
    mallocDeadbeef mhnext mblocksize

/-- The end of `free`: try merging with the block above, ... -/
def freeMergeNext (mh : Nat) : Malloc Unit := do
  let s ← get
  let mhnext := u32 (mh + mNextoff (s.mem.header mh))
  if mhnext ≠ s.heaptop then mallocTrymerge mh mhnext

/-- ... and with the block below. -/
def freeMergePrev (mh : Nat) : Malloc Unit := do
  let s ← get
  if mh ≠ s.heapbase then
    mallocTrymerge (u32 (mh + (4294967296 - mPrevoff (s.mem.header mh)))) mh

/-- `free`. -/
def free (x : Nat) : Malloc Unit :=
  if x = 0 then pure ()
  else do
    let s ← get
    if s.heapbase = 0 ∨ s.heaptop = 0 ∨ s.heapbase > s.heaptop then fail .freeLocal
    else if x < s.heapbase ∨ x ≥ s.heaptop then fail .outOfRange
    else do
      let mh := x - mblocksize
      let h ← getHeader mh
      if ¬ mOk h then fail .corruptHeader
      else if h.mhInuse = 0 then fail .alreadyFree
      else do
        modifyHeader mh fun h => { h with mhInuse := 0 }
        mallocDeadbeef x (mSize h)
        freeMergeNext mh
        freeMergePrev mh

/-! ## 2. Headers and the chunks they describe -/

section Headers

variable {m m' : Mem} {a b i p lo hi : Nat} {h : MHeader} {c : Chunk} {cs ds : List Chunk}

/-- The fields fit into their bits. -/
structure MHeader.Fits (h : MHeader) : Prop where
  prevblock : h.mhPrevblock < 536870912
  pad : h.mhPad < 2
  magic1 : h.mhMagic1 < 4
  nextblock : h.mhNextblock < 536870912
  inuse : h.mhInuse < 2
  magic2 : h.mhMagic2 < 4

theorem Mem.header_fits (m : Mem) (a : Nat) : (m.header a).Fits := by
  have h0 := m.word_lt a
  have h1 := m.word_lt (a + 4)
  refine ⟨?_, ?_, ?_, ?_, ?_, ?_⟩ <;> simp only [Mem.header] <;> omega

variable {n : Nat}

theorem MHeader.Fits.setPrevblock (hf : h.Fits) (hn : n < 536870912) :
    ({ h with mhPrevblock := n } : MHeader).Fits :=
  { hf with prevblock := hn }

theorem MHeader.Fits.setNextblock (hf : h.Fits) (hn : n < 536870912) :
    ({ h with mhNextblock := n } : MHeader).Fits :=
  { hf with nextblock := hn }

theorem MHeader.Fits.setInuse (hf : h.Fits) (u : Bool) :
    ({ h with mhInuse := if u then 1 else 0 } : MHeader).Fits :=
  { hf with inuse := by cases u <;> simp }

theorem MHeader.fits_mk {u : Nat} (hp : p < 536870912) (hn : n < 536870912) (hu : u < 2) :
    (⟨p, 0, mmagic, n, u, mmagic⟩ : MHeader).Fits :=
  ⟨hp, Nat.two_pos, by simp [mmagic], hn, hu, by simp [mmagic]⟩

theorem Mem.header_setHeader (hf : h.Fits) : (m.setHeader a h).header a = h := by
  obtain ⟨h0, h1, h2, h3, h4, h5⟩ := hf
  have hlow : (m.setHeader a h).word a =
      h.mhPrevblock % 536870912 * 8 + h.mhPad % 2 * 4 + h.mhMagic1 % 4 := by
    rw [Mem.setHeader, Mem.word_setWord_of_disjoint (by omega), Mem.word_setWord (by omega)]
  have hhigh : (m.setHeader a h).word (a + 4) =
      h.mhNextblock % 536870912 * 8 + h.mhInuse % 2 * 4 + h.mhMagic2 % 4 := by
    rw [Mem.setHeader, Mem.word_setWord (by omega)]
  ext <;> simp only [Mem.header, hlow, hhigh] <;> omega

/-- At most the header at `a` has changed. -/
abbrev Mem.OnlyHeader (a : Nat) (m m' : Mem) : Prop := Mem.SameOutside a (a + 8) m m'

theorem Mem.sameOutside_setHeader (m : Mem) (a : Nat) (h : MHeader) :
    Mem.OnlyHeader a m (m.setHeader a h) :=
  ((Mem.sameOutside_setWord m a _).mono le_rfl (by omega)).trans
    ((Mem.sameOutside_setWord _ (a + 4) _).mono (by omega) (by omega))

theorem Mem.header_congr (h : ∀ b, a ≤ b → b < a + 8 → m' b = m b) : m'.header a = m.header a := by
  have h0 : m'.word a = m.word a := Mem.word_congr fun b _ _ => h b (by omega) (by omega)
  have h1 : m'.word (a + 4) = m.word (a + 4) :=
    Mem.word_congr fun b _ _ => h b (by omega) (by omega)
  unfold Mem.header
  rw [h0, h1]

theorem Mem.SameOutside.header (h : Mem.SameOutside lo hi m m') (ha : a + 8 ≤ lo ∨ hi ≤ a) :
    m'.header a = m.header a := Mem.header_congr fun b _ _ => h b (by omega)

/-- The header `h` says that the chunk before has length `p`, and that this one is `c`. -/
structure Describes (h : MHeader) (p : Nat) (c : Chunk) : Prop where
  ok : mOk h
  prevblock : h.mhPrevblock = p
  nextblock : h.mhNextblock = c.len
  inuse : h.mhInuse = if c.used then 1 else 0

section

variable (hd : Describes h p c)

include hd

theorem Describes.setPrevblock (n : Nat) : Describes { h with mhPrevblock := n } n c :=
  ⟨⟨hd.ok.1, hd.ok.2⟩, rfl, hd.nextblock, hd.inuse⟩

theorem Describes.setNextblock (n : Nat) : Describes { h with mhNextblock := n } p ⟨n, c.used⟩ :=
  ⟨⟨hd.ok.1, hd.ok.2⟩, hd.prevblock, rfl, hd.inuse⟩

theorem Describes.setInuse (u : Bool) :
    Describes { h with mhInuse := if u then 1 else 0 } p ⟨c.len, u⟩ :=
  ⟨⟨hd.ok.1, hd.ok.2⟩, hd.prevblock, hd.nextblock, rfl⟩

theorem Describes.setHeader (hf : h.Fits) : Describes ((m.setHeader a h).header a) p c := by
  rw [Mem.header_setHeader hf]
  exact hd

end

/-- The headers from unit `i` on describe the chunks; the chunk before has length `p`. -/
def Tiled (m : Mem) (i p : Nat) : List Chunk → Prop
  | [] => True
  | c :: cs => Describes (m.header (8 * i)) p c ∧ Tiled m (i + c.len) c.len cs

theorem tiled_append (cs ds : List Chunk) :
    Tiled m i p (cs ++ ds) ↔ Tiled m i p cs ∧ Tiled m (i + span cs) (before p cs) ds := by
  induction cs generalizing i p with
  | nil => simp [Tiled, span, before]
  | cons c cs ih =>
    rw [cons_append, Tiled, Tiled, ih, span, before, Nat.add_assoc, and_assoc]

theorem Tiled.congr (h : Tiled m i p cs) (hm : ∀ pre c post, cs = pre ++ c :: post →
      m'.header (8 * (i + span pre)) = m.header (8 * (i + span pre))) : Tiled m' i p cs := by
  induction cs generalizing i p with
  | nil => trivial
  | cons c cs ih =>
    refine ⟨?_, ih h.2 fun pre d post hcs => ?_⟩
    · have := hm [] c cs rfl
      rw [span, Nat.add_zero] at this
      rw [this]
      exact h.1
    · have := hm (c :: pre) d post (by rw [hcs]; rfl)
      rwa [span, ← Nat.add_assoc] at this

theorem Tiled.sameOutside (h : Tiled m i p cs) (hs : Solid cs) (hm : Mem.SameOutside lo hi m m')
    (hout : 8 * (i + span cs) ≤ lo ∨ hi ≤ 8 * i) : Tiled m' i p cs := by
  refine h.congr fun pre c post hcs => hm.header ?_
  have hc : 0 < c.len := hs c (by rw [hcs]; simp)
  have hsp : span cs = span pre + (c.len + span post) := by rw [hcs, span_append, span]
  omega

/-- **The middle of the list is replaced.**  The bytes from the start of the old middle to the end
of the header behind it may have been written. -/
theorem Tiled.splice {pre old new post : List Chunk} (h : Tiled m i p (pre ++ (old ++ post)))
    (hs : Solid (pre ++ (old ++ post)))
    (hm : Mem.SameOutside (8 * (i + span pre)) (8 * (i + span pre + span old) + 8) m m')
    (hspan : span new = span old) (hnew : Tiled m' (i + span pre) (before p pre) new)
    (hpost : ∀ c cs, post = c :: cs →
      Describes (m'.header (8 * (i + span pre + span old))) (before (before p pre) new) c) :
    Tiled m' i p (pre ++ (new ++ post)) := by
  rw [tiled_append, tiled_append] at h ⊢
  obtain ⟨hpre, -, hold⟩ := h
  refine ⟨hpre.sameOutside (fun c hc => hs c (by simp [hc])) hm (.inl le_rfl), hnew, ?_⟩
  rw [hspan]
  cases post with
  | nil => trivial
  | cons c cs =>
    have hc : 0 < c.len := hs c (by simp)
    refine ⟨hpost c cs rfl, hold.2.sameOutside (fun d hd => hs d (by simp [hd])) hm (.inr ?_)⟩
    omega

end Headers

section Sealed

-- From here on a header is what the lemmas above say; its bits would be unfolded into arithmetic.
attribute [local irreducible] Mem.header Mem.setHeader

/-! ## 3. The functions as changes of the list -/

section Functions

variable {p : Prop} {s : MallocState} {B : Nat} {pre post cs : List Chunk} {c d : Chunk}

/-- The heap from unit `B` on is cut into the chunks `cs`, and ends at the break. -/
structure Laid (s : MallocState) (B : Nat) (cs : List Chunk) : Prop where
  base : s.heapbase = 8 * B
  top : s.heaptop = 8 * (B + span cs)
  brk : s.brk = s.heaptop
  pos : 0 < B
  lt : s.heaptop < 4294967296
  solid : Solid cs
  tiled : Tiled s.mem B 0 cs

/-- The heap with another memory. -/
def MallocState.withMem (s : MallocState) (m : Mem) : MallocState := { s with mem := m }

@[simp] theorem MallocState.withMem_mem (s : MallocState) (m : Mem) : (s.withMem m).mem = m := rfl

@[simp] theorem MallocState.withMem_heaptop (s : MallocState) (m : Mem) :
    (s.withMem m).heaptop = s.heaptop := rfl

@[simp] theorem MallocState.withMem_withMem (s : MallocState) (m m' : Mem) :
    (s.withMem m).withMem m' = s.withMem m' := rfl

variable {m m₁ m₂ : Mem} {a k n : Nat} {E : MallocExit → MallocState → Prop}

theorem Laid.withMem {cs' : List Chunk} (h : Laid s B cs) (hspan : span cs' = span cs)
    (hsolid : Solid cs') (htiled : Tiled m B 0 cs') : Laid (s.withMem m) B cs' :=
  ⟨h.base, h.top.trans (by rw [hspan]), h.brk, h.pos, h.lt, hsolid, htiled⟩

@[simp] theorem wp_getHeader {Q : MHeader → MallocState → Prop} :
    Wp p (getHeader a) Q E s ↔ Q (s.mem.header a) s := by
  rw [getHeader, wp_bind, wp_get, wp_pure]

@[simp] theorem wp_modifyHeader {f : MHeader → MHeader} {Q : Unit → MallocState → Prop} :
    Wp p (modifyHeader a f) Q E s ↔ Q () (s.withMem (s.mem.setHeader a (f (s.mem.header a)))) := by
  rw [modifyHeader, wp_modify]
  exact Iff.rfl

/-- The header of a chunk of the heap, and what its macros compute. -/
structure HeaderAt (s : MallocState) (B : Nat) (pre : List Chunk) (c : Chunk) : Prop where
  describes : Describes (s.mem.header (8 * (B + span pre))) (before 0 pre) c
  len_pos : 0 < c.len
  len_lt : 8 * (B + span pre + c.len) ≤ s.heaptop
  nextoff : mNextoff (s.mem.header (8 * (B + span pre))) = 8 * c.len
  next : u32 (8 * (B + span pre) + mNextoff (s.mem.header (8 * (B + span pre)))) =
    8 * (B + span pre + c.len)
  size : mSize (s.mem.header (8 * (B + span pre))) = 8 * (c.len - 1)

section

variable (h : Laid s B (pre ++ c :: post))

include h

theorem Laid.headerAt : HeaderAt s B pre c := by
  have hd : Describes (s.mem.header (8 * (B + span pre))) (before 0 pre) c :=
    ((tiled_append pre (c :: post)).mp h.tiled).2.1
  have hpos : 0 < c.len := h.solid c (by simp)
  have hlt := h.lt
  have hle : 8 * (B + span pre + c.len) ≤ s.heaptop := by
    rw [h.top, span_append, span]
    omega
  have hoff : mNextoff (s.mem.header (8 * (B + span pre))) = 8 * c.len := by
    rw [mNextoff, hd.nextblock, u32_of_lt (by omega), Nat.mul_comm]
  refine ⟨hd, hpos, hle, hoff, ?_, ?_⟩
  · rw [hoff, u32_of_lt (by omega)]
    omega
  · rw [mSize, hoff, u32]
    omega

theorem Laid.snoc : Laid s B ((pre ++ [c]) ++ post) := by
  rwa [append_assoc, singleton_append]

theorem Laid.next_eq_top : 8 * (B + span pre + c.len) = s.heaptop ↔ post = [] := by
  rw [h.top, span_append, span]
  constructor
  · intro he
    cases post with
    | nil => rfl
    | cons d ds =>
      have hd : 0 < d.len := h.solid d (by simp)
      rw [span] at he
      omega
  · rintro rfl
    rw [span]
    omega

end

theorem Laid.next (h : Laid s B (pre ++ c :: d :: post)) :
    Describes (s.mem.header (8 * (B + span pre + c.len))) c.len d :=
  ((tiled_append pre (c :: d :: post)).mp h.tiled).2.2.1

/-- **The search** finds a free chunk that is large enough, or goes through to the top.  By
induction on the chunks still to come. -/
theorem mallocSearch_spec (h : Laid s B cs) (size : Nat) : ∀ (rest pre : List Chunk) (fuel : Nat),
    cs = pre ++ rest → rest.length < fuel →
    Wp False (mallocSearch size fuel (8 * (B + span pre)) (before 0 pre))
      (fun r s' => s' = s ∧ match r with
        | .block mh => ∃ pre' c post, cs = pre' ++ c :: post ∧ mh = 8 * (B + span pre') ∧
          c.used = false ∧ size ≤ 8 * (c.len - 1)
        | .top i rightprevblock => i = s.heaptop ∧ rightprevblock = before 0 cs)
      (fun _ _ => False) s
  | _, _, 0, _, hfuel => absurd hfuel (Nat.not_lt_zero _)
  | [], pre, fuel + 1, hcs, _ => by
    have htop : 8 * (B + span pre) = s.heaptop := by rw [h.top, hcs, append_nil]
    rw [mallocSearch, wp_bind, wp_get, if_neg (by rw [htop]; exact Nat.lt_irrefl _), wp_pure]
    exact ⟨rfl, htop, by rw [hcs, append_nil]⟩
  | c :: rest, pre, fuel + 1, hcs, hfuel => by
    have hh := (hcs ▸ h : Laid s B (pre ++ c :: rest)).headerAt
    have hlt : 8 * (B + span pre) < s.heaptop := by
      have := hh.len_pos
      have := hh.len_lt
      omega
    rw [mallocSearch, wp_bind, wp_get, if_pos hlt, wp_bind, wp_getHeader,
      if_neg (not_not.mpr hh.describes.ok), if_neg (not_not.mpr hh.describes.prevblock)]
    by_cases hskip : (s.mem.header (8 * (B + span pre))).mhInuse ≠ 0 ∨
        mSize (s.mem.header (8 * (B + span pre))) < size
    · -- the chunk is in use or too small
      have ih := mallocSearch_spec h size rest (pre ++ [c]) fuel (by simp [hcs])
        (Nat.lt_of_succ_lt_succ hfuel)
      rw [span_snoc, before_snoc, ← Nat.add_assoc] at ih
      rw [if_pos hskip, hh.next, hh.describes.nextblock]
      exact ih
    · rw [if_neg hskip, wp_pure]
      push Not at hskip
      obtain ⟨huse, hsize⟩ := hskip
      refine ⟨rfl, pre, c, rest, hcs, rfl, ?_, ?_⟩
      · rw [hh.describes.inuse] at huse
        cases hu : c.used with
        | false => rfl
        | true => simp [hu] at huse
      · rw [hh.size] at hsize
        exact hsize

/-- The step from `s` to `s'` replaces the chunks `old` by `new` and writes nothing but their bytes
and the header behind them. -/
structure Respliced (s s' : MallocState) (B : Nat) (pre old new post : List Chunk) : Prop where
  laid : Laid s' B (pre ++ (new ++ post))
  mem : s' = s.withMem s'.mem
  span_eq : span new = span old
  same : Mem.SameOutside (8 * (B + span pre)) (8 * (B + span pre + span old) + 8) s.mem s'.mem

section Respliced

variable {s' s'' : MallocState} {m : Mem} {old mid new l r : List Chunk}

theorem Respliced.refl (h : Laid s B (pre ++ (old ++ post))) : Respliced s s B pre old old post :=
  ⟨h, rfl, rfl, .refl _ _ _⟩

theorem Respliced.trans (h : Respliced s s' B pre old mid post)
    (h' : Respliced s' s'' B pre mid new post) : Respliced s s'' B pre old new post := by
  refine ⟨h'.laid, ?_, h'.span_eq.trans h.span_eq, h.same.trans ?_⟩
  · rw [h'.mem, h.mem]
    rfl
  · rw [← h.span_eq]
    exact h'.same

theorem Respliced.widen (h : Respliced s s' B (pre ++ l) old new (r ++ post)) :
    Respliced s s' B pre (l ++ (old ++ r)) (l ++ (new ++ r)) post := by
  refine ⟨?_, h.mem, ?_, h.same.mono ?_ ?_⟩
  · have := h.laid
    simpa only [append_assoc] using this
  · simp only [span_append, h.span_eq]
  · rw [span_append]
    omega
  · simp only [span_append]
    omega

theorem Respliced.widen_left (h : Respliced s s' B (pre ++ l) old new post) :
    Respliced s s' B pre (l ++ old) (l ++ new) post := by
  have := Respliced.widen (r := []) h
  rwa [append_nil, append_nil] at this

theorem Respliced.widen_right (h : Respliced s s' B pre old new (r ++ post)) :
    Respliced s s' B pre (old ++ r) (new ++ r) post :=
  Respliced.widen (l := []) (by rwa [append_nil])

theorem Laid.splice (h : Laid s B (pre ++ (old ++ post)))
    (hm : Mem.SameOutside (8 * (B + span pre)) (8 * (B + span pre + span old) + 8) s.mem m)
    (hspan : span new = span old) (hsolid : Solid new)
    (hnew : Tiled m (B + span pre) (before 0 pre) new)
    (hpost : ∀ c cs, post = c :: cs →
      Describes (m.header (8 * (B + span pre + span old))) (before (before 0 pre) new) c) :
    Respliced s (s.withMem m) B pre old new post := by
  refine ⟨h.withMem ?_ ?_ (h.tiled.splice h.solid hm hspan hnew hpost), rfl, hspan, hm⟩
  · simp only [span_append, hspan]
  · intro c hc
    simp only [mem_append] at hc
    rcases hc with hc | hc | hc
    · exact h.solid c (by simp [hc])
    · exact hsolid c hc
    · exact h.solid c (by simp [hc])

end Respliced

theorem mallocSetPrev_spec (a b : Nat) : Wp False (mallocSetPrev a b)
    (fun _ s' => ∃ m, s' = s.withMem m ∧ Mem.OnlyHeader a s.mem m ∧ (a ≠ s.heaptop → m.header a =
        { s.mem.header a with mhPrevblock := (s.mem.header b).mhNextblock }))
    (fun _ _ => False) s := by
  rw [mallocSetPrev, wp_bind, wp_get, wp_ite, wp_modifyHeader, wp_pure]
  have hf := s.mem.header_fits a
  have hb := (s.mem.header_fits b).nextblock
  refine ⟨fun _ => ⟨_, rfl, Mem.sameOutside_setHeader _ _ _, fun _ => ?_⟩,
    fun ha => ⟨s.mem, rfl, .refl _ _ _, fun ha' => absurd ha' ha⟩⟩
  exact Mem.header_setHeader (hf.setPrevblock hb)

theorem wp_setInuse (h : Laid s B (pre ++ c :: post)) (u : Bool) :
    Wp False (modifyHeader (8 * (B + span pre)) fun h => { h with mhInuse := if u then 1 else 0 })
      (fun _ s' => Respliced s s' B pre [c] [⟨c.len, u⟩] post) (fun _ _ => False) s := by
  have hh := h.headerAt
  have hf := s.mem.header_fits (8 * (B + span pre))
  have hsame := Mem.sameOutside_setHeader s.mem (8 * (B + span pre))
    { s.mem.header (8 * (B + span pre)) with mhInuse := if u then 1 else 0 }
  rw [wp_modifyHeader]
  refine Laid.splice h (hsame.mono le_rfl (by omega)) rfl ?_ ⟨?_, trivial⟩ fun d ds hd => ?_
  · intro d hd
    rw [mem_singleton.mp hd]
    exact hh.len_pos
  · exact (hh.describes.setInuse u).setHeader (hf.setInuse u)
  · subst hd
    have hpos := hh.len_pos
    simp only [span, Nat.add_zero]
    rw [hsame.header (by omega)]
    exact h.next

theorem Laid.payload (h : Laid s B (pre ++ c :: post))
    (hm : Mem.SameOutside (8 * (B + span pre + 1)) (8 * (B + span pre + c.len)) s.mem m) :
    Respliced s (s.withMem m) B pre [c] [c] post := by
  have hh := h.headerAt
  have hspan : span [c] = c.len := Nat.add_zero _
  refine Laid.splice h (hm.mono (by omega) (by omega)) rfl ?_ ⟨?_, trivial⟩ fun d ds hd => ?_
  · intro d hd
    rw [mem_singleton.mp hd]
    exact hh.len_pos
  · rw [hm.header (by omega)]
    exact hh.describes
  · subst hd
    rw [hspan, hm.header (by omega)]
    exact h.next

/-- `__malloc_split`, which leaves a block alone that is too small for two. -/
def splitChunk (k : Nat) (c : Chunk) : List Chunk :=
  if c.len < k + 3 then [c] else [⟨k + 1, c.used⟩, ⟨c.len - (k + 1), false⟩]

/-- The three headers that `__malloc_split` writes, one after the other. -/
theorem Laid.split (h : Laid s B (pre ++ c :: post)) (hk : k + 3 ≤ c.len)
    (hs1 : Mem.OnlyHeader (8 * (B + span pre)) s.mem m₁)
    (hd1 : Describes (m₁.header (8 * (B + span pre))) (before 0 pre) ⟨k + 1, c.used⟩)
    (hs2 : Mem.OnlyHeader (8 * (B + span pre + (k + 1))) m₁ m₂)
    (hd2 : Describes (m₂.header (8 * (B + span pre + (k + 1)))) (k + 1) ⟨c.len - (k + 1), false⟩)
    (hs : Mem.OnlyHeader (8 * (B + span pre + c.len)) m₂ m)
    (hprev : 8 * (B + span pre + c.len) ≠ s.heaptop →
      m.header (8 * (B + span pre + c.len)) = { m₂.header (8 * (B + span pre + c.len)) with
      mhPrevblock := c.len - (k + 1) }) :
    Respliced s (s.withMem m) B pre [c] [⟨k + 1, c.used⟩, ⟨c.len - (k + 1), false⟩] post := by
  have hspan : span [c] = c.len := by simp [span]
  have hsame : Mem.SameOutside (8 * (B + span pre)) (8 * (B + span pre + c.len) + 8) s.mem m :=
    ((hs1.mono le_rfl (by omega)).trans (hs2.mono (by omega) (by omega))).trans
      (hs.mono (by omega) le_rfl)
  refine Laid.splice h (by rwa [hspan]) ?_ ?_ ⟨?_, ?_, trivial⟩ fun d ds hd => ?_
  · simp only [span]
    omega
  · intro d hd
    rcases mem_pair.mp hd with rfl | rfl
    · exact Nat.succ_pos k
    · exact Nat.sub_pos_of_lt (by omega)
  · rw [hs.header (by omega), hs2.header (by omega)]
    exact hd1
  · rw [hs.header (by simp only; omega)]
    exact hd2
  · subst hd
    rw [hspan, hprev fun he => cons_ne_nil d ds (h.next_eq_top.mp he), hs2.header (by omega),
      hs1.header (by omega)]
    exact h.next.setPrevblock _

theorem splitChunk_cons (k len : Nat) : ∃ n tl, ∀ u, splitChunk k ⟨len, u⟩ = ⟨n, u⟩ :: tl := by
  by_cases hc : len < k + 3
  · exact ⟨len, [], fun u => if_pos hc⟩
  · exact ⟨k + 1, [⟨len - (k + 1), false⟩], fun u => if_neg hc⟩

theorem mallocSplitAt_spec (h : Laid s B (pre ++ c :: post)) (hk : k + 3 ≤ c.len) :
    Wp False (mallocSplitAt (8 * (B + span pre)) (8 * k))
      (fun _ s' => Respliced s s' B pre [c] [⟨k + 1, c.used⟩, ⟨c.len - (k + 1), false⟩] post)
      (fun _ _ => False) s := by
  have hh := h.headerAt
  have hf := s.mem.header_fits (8 * (B + span pre))
  have hlt := h.lt
  have hle := hh.len_lt
  have hfield : mMkfield (8 * k + mblocksize) = k + 1 := by
    rw [mMkfield, mblocksize, u32_of_lt (by omega)]
    omega
  have hrest : mMkfield (u32 (8 * (c.len - 1) + (4294967296 - 8 * k))) = c.len - (k + 1) := by
    rw [mMkfield, u32, u32]
    omega
  have hnextoff : mNextoff { s.mem.header (8 * (B + span pre)) with mhNextblock := k + 1 } =
      8 * (k + 1) := by
    rw [mNextoff, u32_of_lt (by simp only; omega), Nat.mul_comm]
  have hnew : u32 (8 * (B + span pre) + 8 * (k + 1)) = 8 * (B + span pre + (k + 1)) := by
    rw [u32_of_lt (by omega)]
    omega
  have hfits := hf.setNextblock (show k + 1 < 536870912 by omega)
  rw [mallocSplitAt, wp_bind, wp_getHeader, hh.next, hh.size, wp_bind, wp_modifyHeader,
    hfield, hrest, wp_bind, wp_getHeader]
  rw [MallocState.withMem_mem, Mem.header_setHeader hfits, hnextoff, hnew, if_neg (by omega),
    wp_bind, wp_modifyHeader]
  refine (mallocSetPrev_spec _ _).post fun _ s' hs' => ?_
  obtain ⟨m, rfl, hsame, hprev⟩ := hs'
  simp only [MallocState.withMem_mem, MallocState.withMem_withMem,
    MallocState.withMem_heaptop] at hsame hprev ⊢
  have hdnew : Describes ⟨k + 1, 0, mmagic, c.len - (k + 1), 0, mmagic⟩ (k + 1)
      ⟨c.len - (k + 1), false⟩ := ⟨⟨rfl, rfl⟩, rfl, rfl, rfl⟩
  have hfnew : (⟨k + 1, 0, mmagic, c.len - (k + 1), 0, mmagic⟩ : MHeader).Fits :=
    MHeader.fits_mk (by omega) (by omega) Nat.two_pos
  rw [Mem.header_setHeader hfnew] at hprev
  exact h.split hk (Mem.sameOutside_setHeader _ _ _)
    ((hh.describes.setNextblock (k + 1)).setHeader hfits) (Mem.sameOutside_setHeader _ _ _)
    (hdnew.setHeader hfnew) hsame hprev

/-- **`__malloc_split`** cuts a block in two, or leaves it alone. -/
theorem mallocSplit_spec (h : Laid s B (pre ++ c :: post)) (hk : k + 1 ≤ c.len) :
    Wp False (mallocSplit (8 * (B + span pre)) (8 * k))
      (fun _ s' => Respliced s s' B pre [c] (splitChunk k c) post) (fun _ _ => False) s := by
  have hh := h.headerAt
  have hlt := h.lt
  have hle := hh.len_lt
  have hroom : u32 (8 * (c.len - 1) + (4294967296 - 8 * k)) = 8 * (c.len - 1 - k) := by
    rw [u32]
    omega
  rw [mallocSplit, if_neg (by rw [mblocksize]; omega), wp_bind, wp_getHeader, hh.size, hroom,
    splitChunk]
  by_cases hc : c.len < k + 3
  · rw [if_pos hc, if_pos (by rw [mblocksize]; omega), wp_pure]
    exact .refl h
  · rw [if_neg hc, if_neg (by rw [mblocksize]; omega)]
    exact mallocSplitAt_spec h (by omega)

theorem Laid.expand (h : Laid s B cs) {s' : MallocState} (hbase : s'.heapbase = s.heapbase)
    (htop : s'.heaptop = s.heaptop + 8 * (k + 1)) (hbrk : s'.brk = s'.heaptop)
    (hlt : s'.heaptop < 4294967296) (hsame : Mem.OnlyHeader s.heaptop s.mem s'.mem)
    (hd : Describes (s'.mem.header s.heaptop) (before 0 cs) ⟨k + 1, true⟩) :
    Laid s' B (cs ++ [⟨k + 1, true⟩]) := by
  have ht := h.top
  refine ⟨hbase.trans h.base, ?_, hbrk, h.pos, hlt, ?_, ?_⟩
  · rw [htop, ht, span_append]
    simp only [span]
    omega
  · intro c hc
    rcases mem_append.mp hc with hc | hc
    · exact h.solid c hc
    · rw [mem_singleton.mp hc]
      exact Nat.succ_pos k
  · rw [tiled_append]
    refine ⟨h.tiled.sameOutside h.solid hsame (.inl (by omega)), ?_, trivial⟩
    rw [← ht]
    exact hd

theorem sbrk_spec (amount : Nat) : Wp False (sbrk amount) (fun r s' => match r with
      | none => ∃ ok, s' = { s with sbrkOk := ok }
      | some x => x = s.brk ∧ s.brk + amount < 4294967296 ∧
        ∃ ok, s' = { s with brk := s.brk + amount, sbrkOk := ok })
    (fun _ _ => False) s := by
  rw [sbrk, wp_bind, wp_get, wp_bind, wp_modify, wp_ite, wp_bind, wp_modify, wp_pure, wp_pure]
  exact ⟨fun h => ⟨rfl, h.2.2, _, rfl⟩, fun _ => ⟨_, rfl⟩⟩

theorem mallocSbrk_spec (amount : Nat) (hbrk : s.brk = s.heaptop) : Wp False (mallocSbrk amount)
      (fun r s' => match r with
        | none => ∃ ok, s' = { s with sbrkOk := ok }
        | some x => x = s.heaptop ∧ s.heaptop + amount < 4294967296 ∧ ∃ ok,
          s' = { s with heaptop := s.heaptop + amount, brk := s.heaptop + amount, sbrkOk := ok })
      (fun _ _ => False) s := by
  refine (sbrk_spec amount).bind fun r s' h => ?_
  cases r with
  | none => exact wp_pure.mpr h
  | some x =>
    obtain ⟨rfl, hlt, ok, rfl⟩ := h
    rw [hbrk] at hlt ⊢
    simp only
    rw [wp_bind, wp_get, if_neg (by simp), wp_bind, wp_modify, wp_pure, u32_of_lt hlt]
    exact ⟨rfl, hlt, ok, rfl⟩

/-- **The end of `malloc`**: a new block at the top, unless `sbrk` says no. -/
theorem mallocExpand_spec (h : Laid s B cs) (hk : 8 * k + 8 < 4294967296) :
    Wp False (mallocExpand (8 * k) (before 0 cs)) (fun r s' => match r with
        | none => s'.mem = s.mem ∧ Laid s' B cs
        | some q => q = 8 * (B + span cs + 1) ∧ Laid s' B (cs ++ [⟨k + 1, true⟩]) ∧
          Mem.OnlyHeader s.heaptop s.mem s'.mem)
      (fun _ _ => False) s := by
  have hsize : u32 (8 * k + mblocksize) = 8 * (k + 1) := by
    rw [mblocksize, u32_of_lt hk]
    omega
  have hfield : mMkfield (8 * k + mblocksize) = k + 1 := by
    rw [mMkfield, hsize]
    omega
  have htop := h.top
  have hlt := h.lt
  have hprev : before 0 cs < 536870912 := by
    have := before_le 0 cs
    omega
  rw [mallocExpand, hsize, hfield]
  refine (mallocSbrk_spec _ h.brk).bind fun r s' hr => ?_
  cases r with
  | none =>
    obtain ⟨ok, rfl⟩ := hr
    exact wp_pure.mpr ⟨rfl, h.base, h.top, h.brk, h.pos, h.lt, h.solid, h.tiled⟩
  | some x =>
    obtain ⟨rfl, hroom, ok, rfl⟩ := hr
    simp only
    rw [wp_bind, wp_modifyHeader, wp_pure]
    have hd : Describes ⟨before 0 cs, 0, mmagic, k + 1, 1, mmagic⟩ (before 0 cs) ⟨k + 1, true⟩ :=
      ⟨⟨rfl, rfl⟩, rfl, rfl, rfl⟩
    refine ⟨by rw [htop, mblocksize]; omega, h.expand rfl rfl rfl hroom
      (Mem.sameOutside_setHeader _ _ _) ?_,
      Mem.sameOutside_setHeader _ _ _⟩
    exact hd.setHeader (MHeader.fits_mk hprev (by omega) Nat.one_lt_two)

/-- **`malloc` on an initialized heap** takes a block out of a free one, or puts one at the top. -/
theorem mallocRounded_spec (h : Laid s B cs) (hk : 8 * k + 8 < 4294967296) :
    Wp False (mallocRounded (8 * k)) (fun r s' => match r with
        | none => s'.mem = s.mem ∧ Laid s' B cs
        | some q => (∃ pre c post, cs = pre ++ c :: post ∧ c.used = false ∧ k + 1 ≤ c.len ∧
            q = 8 * (B + span pre + 1) ∧
            Respliced s s' B pre [c] (splitChunk k ⟨c.len, true⟩) post) ∨
          (q = 8 * (B + span cs + 1) ∧ Laid s' B (cs ++ [⟨k + 1, true⟩]) ∧
            Mem.OnlyHeader s.heaptop s.mem s'.mem))
      (fun _ _ => False) s := by
  have hfuel : cs.length < s.heaptop - s.heapbase + 1 := by
    have := h.solid.length_le
    rw [h.top, h.base]
    omega
  rw [mallocRounded, wp_bind, wp_get, wp_bind, h.base]
  have hsearch := mallocSearch_spec h (8 * k) cs [] _ rfl (h.base ▸ hfuel)
  refine hsearch.post fun r s' hr => ?_
  cases r with
  | block mh =>
    obtain ⟨rfl, pre, ⟨len, used⟩, post, rfl, rfl, rfl, hsize⟩ := hr
    have hlen : k + 1 ≤ len := by
      have hpos := h.headerAt.len_pos
      simp only at hsize hpos
      omega
    obtain ⟨n, tl, hsplit⟩ := splitChunk_cons k len
    simp only
    refine (mallocSplit_spec h hlen).bind fun _ s₁ h1 => ?_
    rw [hsplit] at h1
    refine (wp_setInuse h1.laid true).bind fun _ s₂ h2 => ?_
    rw [wp_pure]
    refine .inl ⟨pre, _, post, rfl, rfl, hlen, ?_, ?_⟩
    · rw [mblocksize]
      omega
    · rw [hsplit]
      exact h1.trans h2.widen_right
  | top i rightprevblock =>
    obtain ⟨rfl, rfl, rfl⟩ := hr
    simp only
    rw [wp_bind, wp_get, if_neg (by simp)]
    refine (mallocExpand_spec h hk).post fun r s₁ h1 => ?_
    cases r with
    | none => exact h1
    | some q => exact .inr h1

/-- The two headers that `__malloc_trymerge` writes, and the one it wipes. -/
theorem Laid.merge (h : Laid s B (pre ++ c :: d :: post)) (hc : c.used = false)
    (hs1 : Mem.OnlyHeader (8 * (B + span pre)) s.mem m₁)
    (hd1 : Describes (m₁.header (8 * (B + span pre))) (before 0 pre) ⟨c.len + d.len, c.used⟩)
    (hs2 : Mem.OnlyHeader (8 * (B + span pre + c.len + d.len)) m₁ m₂)
    (hprev : 8 * (B + span pre + c.len + d.len) ≠ s.heaptop →
      m₂.header (8 * (B + span pre + c.len + d.len)) =
      { m₁.header (8 * (B + span pre + c.len + d.len)) with mhPrevblock := c.len + d.len })
    (hs : Mem.OnlyHeader (8 * (B + span pre + c.len)) m₂ m) :
    Respliced s (s.withMem m) B pre [c, d] [⟨c.len + d.len, false⟩] post := by
  have hspan : B + span pre + span [c, d] = B + span pre + c.len + d.len := by
    simp only [span]
    omega
  have hcpos : 0 < c.len := h.solid c (by simp)
  have hdpos : 0 < d.len := h.solid d (by simp)
  have hsame : Mem.SameOutside (8 * (B + span pre)) (8 * (B + span pre + c.len + d.len) + 8)
      s.mem m := ((hs1.mono le_rfl (by omega)).trans (hs2.mono (by omega) le_rfl)).trans
    (hs.mono (by omega) (by omega))
  refine Laid.splice h (by rwa [hspan]) ?_ ?_ ⟨?_, trivial⟩ fun e es he => ?_
  · simp only [span]
    omega
  · intro e he
    rw [mem_singleton.mp he]
    exact Nat.add_pos_left hcpos _
  · rw [hs.header (by omega), hs2.header (by omega), ← hc]
    exact hd1
  · subst he
    have htop := h.snoc.next_eq_top
    have hnext := h.snoc.next
    rw [span_snoc, ← Nat.add_assoc] at htop hnext
    rw [hspan, hs.header (by omega), hprev fun ht => cons_ne_nil e es (htop.mp ht),
      hs1.header (by omega)]
    exact hnext.setPrevblock _

/-- **`__malloc_trymerge`** makes one block of two free neighbours, and leaves others alone. -/
theorem mallocTrymerge_spec (h : Laid s B (pre ++ c :: d :: post)) :
    Wp False (mallocTrymerge (8 * (B + span pre)) (8 * (B + span pre + c.len)))
      (fun _ s' => if c.used = true ∨ d.used = true then s' = s
        else Respliced s s' B pre [c, d] [⟨c.len + d.len, false⟩] post)
      (fun _ _ => False) s := by
  have hc := h.headerAt
  have hd := h.snoc.headerAt
  have hdd := hd.describes
  have hnext := hd.next
  have hsize := hd.size
  have hle := hd.len_lt
  have hlt := h.lt
  rw [span_snoc, ← Nat.add_assoc] at hdd hnext hsize hle
  rw [before_snoc] at hdd
  have hfield : mMkfield (mblocksize + 8 * (c.len - 1) + mblocksize + 8 * (d.len - 1)) =
      c.len + d.len := by
    have := hc.len_pos
    have := hd.len_pos
    rw [mMkfield, mblocksize, u32_of_lt (by omega)]
    omega
  rw [mallocTrymerge, wp_bind, wp_getHeader, wp_bind, wp_getHeader,
    if_neg (by rw [hc.describes.nextblock, hdd.prevblock]; exact fun h => h rfl), hnext,
    hc.describes.inuse, hdd.inuse]
  by_cases hu : c.used = true ∨ d.used = true
  · rw [if_pos (by rcases hu with hu | hu <;> simp [hu]), wp_pure, if_pos hu]
  · push Not at hu
    obtain ⟨huc, hud⟩ := hu
    rw [← Bool.eq_false_iff] at huc hud
    have hfits := (s.mem.header_fits (8 * (B + span pre))).setNextblock
      (show c.len + d.len < 536870912 by omega)
    simp only [if_neg (show ¬ (c.used = true ∨ d.used = true) by simp [huc, hud])]
    rw [if_neg (by simp [huc, hud]), wp_bind, wp_modifyHeader, hc.size, hsize, hfield]
    refine (mallocSetPrev_spec _ _).bind fun _ s₁ hs1 => ?_
    obtain ⟨m, rfl, hsame, hprev⟩ := hs1
    simp only [MallocState.withMem_mem, MallocState.withMem_withMem, MallocState.withMem_heaptop]
      at hsame hprev ⊢
    rw [Mem.header_setHeader hfits] at hprev
    rw [mallocDeadbeef, wp_modify]
    have hwipe := Mem.sameOutside_fillWords m (8 * (B + span pre + c.len)) 3735928559 2
    exact h.merge huc (Mem.sameOutside_setHeader _ _ _)
      ((hc.describes.setNextblock _).setHeader hfits) hsame hprev hwipe

/-- A free block takes in the block above if that is free.  Nothing free is then above it. -/
theorem freeMergeNext_spec (h : Laid s B (pre ++ ⟨n, false⟩ :: post)) (ha : Apart post) :
    Wp False (freeMergeNext (8 * (B + span pre)))
      (fun _ s' => ∃ r post', post = r ++ post' ∧ (∀ c ∈ r, c.used = false) ∧
        (∀ c ∈ post'.head?, c.used = true) ∧
        Respliced s s' B pre (⟨n, false⟩ :: r) [⟨n + span r, false⟩] post')
      (fun _ _ => False) s := by
  have hh := h.headerAt
  rw [freeMergeNext, wp_bind, wp_get, hh.next]
  cases post with
  | nil =>
    rw [if_neg (not_not.mpr (h.next_eq_top.mpr rfl)), wp_pure]
    exact ⟨[], [], rfl, by simp, by simp, .refl h⟩
  | cons d ds =>
    rw [if_pos fun ht => cons_ne_nil d ds (h.next_eq_top.mp ht)]
    refine (mallocTrymerge_spec h).post fun _ s' hs' => ?_
    by_cases hd : d.used = true
    · rw [if_pos (.inr hd)] at hs'
      rw [hs']
      exact ⟨[], d :: ds, rfl, by simp, by simpa using hd, .refl h⟩
    · rw [if_neg (by simpa using hd)] at hs'
      refine ⟨[d], ds, rfl, by simpa using hd, fun e he => ?_, hs'⟩
      have := (isChain_cons.mp ha).1 e he
      exact this.resolve_left hd

theorem freeMergePrev_spec (h : Laid s B (pre ++ ⟨n, false⟩ :: post)) (ha : Apart pre) :
    Wp False (freeMergePrev (8 * (B + span pre)))
      (fun _ s' => ∃ pre' l, pre = pre' ++ l ∧ (∀ c ∈ l, c.used = false) ∧
        (∀ c ∈ pre'.getLast?, c.used = true) ∧
        Respliced s s' B pre' (l ++ [⟨n, false⟩]) [⟨span l + n, false⟩] post)
      (fun _ _ => False) s := by
  have hh := h.headerAt
  have hlt := h.lt
  have hle := hh.len_lt
  rw [freeMergePrev, wp_bind, wp_get]
  rcases eq_nil_or_concat pre with rfl | ⟨pre, e, rfl⟩
  · rw [if_neg (not_not.mpr (show 8 * (B + span []) = s.heapbase from h.base.symm)), wp_pure]
    refine ⟨[], [], rfl, by simp, by simp, ?_⟩
    rw [span, Nat.zero_add]
    exact .refl h
  · rw [concat_eq_append] at *
    have hl : Laid s B (pre ++ e :: ⟨n, false⟩ :: post) := by simpa using h
    have hpos := hl.headerAt.len_pos
    have hprev : u32 (8 * (B + span (pre ++ [e])) + (4294967296 - mPrevoff
        (s.mem.header (8 * (B + span (pre ++ [e])))))) = 8 * (B + span pre) := by
      rw [mPrevoff, hh.describes.prevblock, before_snoc, span_snoc, u32, u32]
      rw [span_snoc] at hle
      omega
    rw [if_pos (by rw [h.base, span_snoc]; omega), hprev, span_snoc, ← Nat.add_assoc]
    refine (mallocTrymerge_spec hl).post fun _ s' hs' => ?_
    by_cases he : e.used = true
    · rw [if_pos (.inl he)] at hs'
      rw [hs']
      refine ⟨pre ++ [e], [], by simp, by simp, by simpa using he, ?_⟩
      rw [span, Nat.zero_add]
      exact .refl h
    · rw [if_neg (by simpa using he)] at hs'
      refine ⟨pre, [e], rfl, by simpa using he, fun c hc => ?_, hs'⟩
      have := (isChain_append.mp ha).2.2 c hc e rfl
      exact this.resolve_right he

/-- **`free`** of a block in use makes one free block of it and its free neighbours.  The only
pointer it turns down is that of an empty block at the top. -/
theorem free_spec (h : Laid s B (pre ++ ⟨n, true⟩ :: post))
    (ha : Apart (pre ++ ⟨n, true⟩ :: post)) :
    Wp False (free (8 * (B + span pre + 1)))
      (fun _ s' => ∃ pre' l r post', pre = pre' ++ l ∧ post = r ++ post' ∧
        (∀ c ∈ l ++ r, c.used = false) ∧
        Apart (pre' ++ ⟨span l + (n + span r), false⟩ :: post') ∧
        Respliced s s' B pre' (l ++ ⟨n, true⟩ :: r) [⟨span l + (n + span r), false⟩] post')
      (fun e s' => e = .outOfRange ∧ s' = s ∧ 8 * (B + span pre + 1) = s.heaptop) s := by
  have hh := h.headerAt
  have hpos := hh.len_pos
  have hle := hh.len_lt
  have hBpos := h.pos
  simp only at hpos hle
  have hbase := h.base
  rw [free, if_neg (by omega), wp_bind, wp_get, if_neg (by omega)]
  by_cases htop : 8 * (B + span pre + 1) < s.heaptop
  · have hsub : 8 * (B + span pre + 1) - mblocksize = 8 * (B + span pre) := by
      rw [mblocksize]
      omega
    rw [if_neg (by omega), wp_bind, hsub, wp_getHeader, if_neg (not_not.mpr hh.describes.ok),
      if_neg (by rw [hh.describes.inuse]; simp), hh.size]
    refine (wp_setInuse h false).bind_ok fun _ s₁ h1 => ?_
    rw [wp_bind, mallocDeadbeef, wp_modify, wp_bind]
    have hwipe := Mem.sameOutside_fillWords s₁.mem (8 * (B + span pre + 1)) 3735928559
      (8 * (n - 1) / 4)
    have h2 := h1.trans (Laid.payload h1.laid (hwipe.mono le_rfl (by simp only; omega)))
    refine (freeMergeNext_spec h2.laid ha.right.tail).post_ok fun _ s₃ h3 => ?_
    obtain ⟨r, post', rfl, hr, hhead, h3⟩ := h3
    refine (freeMergePrev_spec h3.laid ha.left).post_ok fun _ s₄ h4 => ?_
    obtain ⟨pre', l, rfl, hl, hlast, h4⟩ := h4
    refine ⟨pre', l, r, post', rfl, rfl, ?_, ?_, ?_⟩
    · intro c hc
      exact (mem_append.mp hc).elim (hl c) (hr c)
    · exact apart_insert ha.left.left ha.right.tail.right hlast hhead
    · exact (h2.widen_right.trans h3).widen_left.trans h4
  · rw [if_pos (by omega), wp_fail]
    exact ⟨rfl, rfl, by omega⟩

end Functions

/-! ## 4. Blocks in use -/

section Live

variable {s s' : MallocState} {B : Nat} {pre old new post cs : List Chunk} {live : List (Nat × Nat)}

/-- The block that `malloc` returned: its pointer and the size that was asked for.  The pointer is
aligned, a block in use starts there, and there is room in it. -/
def LiveBlock (B : Nat) (cs : List Chunk) (q : Nat × Nat) : Prop :=
  ∃ a len, q.1 = 8 * a ∧ UsedAt B a len cs ∧ q.2 + 8 ≤ 8 * len

/-- The heap with the blocks in use. -/
structure Sound (s : MallocState) (live : List (Nat × Nat)) (B : Nat) (cs : List Chunk) : Prop where
  laid : Laid s B cs
  apart : Apart cs
  nodup : (live.map Prod.fst).Nodup
  blocks : ∀ q ∈ live, LiveBlock B cs q

/-- **What every call keeps.**  Before the first `malloc` there is no heap. -/
def HeapInv (s : MallocState) (live : List (Nat × Nat)) : Prop :=
  (s.heapbase = 0 ∧ s.heaptop = 0 ∧ 0 < s.brk ∧ s.brk < 4294967296 ∧ live = []) ∨
    ∃ B cs, Sound s live B cs

/-- The bytes of the blocks in use are the same. -/
def SameBlocks (live : List (Nat × Nat)) (m m' : Mem) : Prop :=
  ∀ q ∈ live, ∀ j < q.2, m' (q.1 + j) = m (q.1 + j)

variable {a len k size : Nat}

section

variable (h : Respliced s s' B pre old new post)

include h

theorem Respliced.usedAt
    (hu : UsedAt B a len (pre ++ (old ++ post))) (hout : ¬ UsedAt (B + span pre) a len old) :
    UsedAt B a len (pre ++ (new ++ post)) := by
  rw [usedAt_append, usedAt_append] at hu ⊢
  rw [h.span_eq]
  exact hu.imp_right fun hu => .inr (hu.resolve_left hout)

theorem Respliced.block_same
    (hs : Solid (pre ++ (old ++ post))) (hu : UsedAt B a len (pre ++ (old ++ post)))
    (hout : ¬ UsedAt (B + span pre) a len old) {j : Nat} (hj : j + 8 < 8 * len) :
    s'.mem (8 * a + j) = s.mem (8 * a + j) := by
  refine h.same _ ?_
  rw [usedAt_append, usedAt_append] at hu
  rcases hu with hu | hu | hu
  · have := hu.bounds fun c hc => hs c (by simp [hc])
    omega
  · exact absurd hu hout
  · have := hu.bounds fun c hc => hs c (by simp [hc])
    omega

theorem Respliced.blocks
    (hs : Solid (pre ++ (old ++ post))) (hlive : ∀ q ∈ live, LiveBlock B (pre ++ (old ++ post)) q)
    (hout : ∀ q ∈ live, ∀ a len, q.1 = 8 * a → ¬ UsedAt (B + span pre) a len old) :
    (∀ q ∈ live, LiveBlock B (pre ++ (new ++ post)) q) ∧ SameBlocks live s.mem s'.mem := by
  constructor
  · intro q hq
    obtain ⟨a, len, ha, hu, hroom⟩ := hlive q hq
    exact ⟨a, len, ha, h.usedAt hu (hout q hq a len ha), hroom⟩
  · intro q hq j hj
    obtain ⟨a, len, ha, hu, hroom⟩ := hlive q hq
    rw [ha]
    exact h.block_same hs hu (hout q hq a len ha) (by omega)

end

/-- `malloc` keeps free blocks apart: what is split off lies between a used block and the one that
was behind the free block. -/
theorem apart_splitChunk (h : Apart (pre ++ ⟨len, false⟩ :: post)) :
    Apart (pre ++ (splitChunk k ⟨len, true⟩ ++ post)) := by
  obtain ⟨hpre, hpost, -⟩ := isChain_append.mp h
  obtain ⟨hhead, hpost⟩ := isChain_cons.mp hpost
  have hmid : Apart (splitChunk k ⟨len, true⟩ ++ post) := by
    unfold splitChunk
    split_ifs
    · exact isChain_cons.mpr ⟨fun _ _ => .inl rfl, hpost⟩
    · refine isChain_cons.mpr ⟨fun _ _ => .inl rfl, isChain_cons.mpr ⟨?_, hpost⟩⟩
      exact fun d hd => hhead d hd
  obtain ⟨n, tl, hsplit⟩ := splitChunk_cons k len
  refine isChain_append.mpr ⟨hpre, hmid, fun c _ d hd => .inr ?_⟩
  rw [hsplit] at hd
  rw [cons_append, head?_cons, Option.mem_some_iff] at hd
  rw [← hd]

theorem Sound.insert {q : Nat × Nat} (h : Laid s B cs) (ha : Apart cs)
    (hnodup : (live.map Prod.fst).Nodup) (hlive : ∀ r ∈ live, LiveBlock B cs r)
    (hq : LiveBlock B cs q) (hnew : ∀ r ∈ live, r.1 ≠ q.1) : Sound s (q :: live) B cs := by
  refine ⟨h, ha, ?_, ?_⟩
  · rw [map_cons, nodup_cons]
    refine ⟨fun hmem => ?_, hnodup⟩
    obtain ⟨r, hr, he⟩ := mem_map.mp hmem
    exact hnew r hr he
  · intro r hr
    rcases mem_cons.mp hr with rfl | hr
    · exact hq
    · exact hlive r hr

theorem Sound.splitBlock (h : Sound s live B (pre ++ ⟨len, false⟩ :: post)) (hlen : k + 1 ≤ len)
    (hsize : size ≤ 8 * k)
    (hr : Respliced s s' B pre [⟨len, false⟩] (splitChunk k ⟨len, true⟩) post) :
    Sound s' ((8 * (B + span pre + 1), size) :: live) B
        (pre ++ (splitChunk k ⟨len, true⟩ ++ post)) ∧
      SameBlocks live s.mem s'.mem := by
  have hout : ∀ q ∈ live, ∀ a n, q.1 = 8 * a → ¬ UsedAt (B + span pre) a n [⟨len, false⟩] :=
    fun _ _ _ _ _ => not_usedAt_of_free (by simp)
  obtain ⟨hblocks, hsame⟩ := hr.blocks h.laid.solid h.blocks hout
  refine ⟨Sound.insert hr.laid (apart_splitChunk h.apart) h.nodup hblocks ?_ ?_, hsame⟩
  · -- the block at the front of the split
    have hroom : ∃ n, k + 1 ≤ n ∧ ∃ tl, splitChunk k ⟨len, true⟩ = ⟨n, true⟩ :: tl := by
      unfold splitChunk
      split_ifs
      · exact ⟨len, hlen, [], rfl⟩
      · exact ⟨k + 1, le_rfl, _, rfl⟩
    obtain ⟨n, hn, tl, hsplit⟩ := hroom
    refine ⟨B + span pre + 1, n, rfl, ?_, by simp only; omega⟩
    rw [hsplit, usedAt_append]
    exact .inr (.inl ⟨rfl, rfl⟩)
  · intro q hq he
    obtain ⟨a, n, ha, hu, -⟩ := h.blocks q hq
    have hplace : a = B + span pre + 1 := by
      rw [ha] at he
      exact Nat.eq_of_mul_eq_mul_left (by decide) he
    rw [hplace] at hu
    have := UsedAt.eq_chunk h.laid.solid hu
    simp at this

theorem Sound.topBlock (h : Sound s live B cs) (hsize : size ≤ 8 * k)
    (hl : Laid s' B (cs ++ [⟨k + 1, true⟩]))
    (hm : Mem.OnlyHeader s.heaptop s.mem s'.mem) :
    Sound s' ((8 * (B + span cs + 1), size) :: live) B (cs ++ [⟨k + 1, true⟩]) ∧
      SameBlocks live s.mem s'.mem := by
  have htop := h.laid.top
  refine ⟨Sound.insert hl h.apart.snoc_used h.nodup ?_ ?_ ?_, ?_⟩
  · intro q hq
    obtain ⟨a, n, ha, hu, hroom⟩ := h.blocks q hq
    exact ⟨a, n, ha, (usedAt_append _ _).mpr (.inl hu), hroom⟩
  · exact ⟨_, k + 1, rfl, (usedAt_append _ _).mpr (.inr (.inl ⟨rfl, rfl⟩)), by simp only; omega⟩
  · intro q hq he
    obtain ⟨a, n, ha, hu, -⟩ := h.blocks q hq
    have := hu.bounds h.laid.solid
    omega
  · intro q hq j hj
    obtain ⟨a, n, ha, hu, hroom⟩ := h.blocks q hq
    have := hu.bounds h.laid.solid
    exact hm _ (by omega)

end Live

/-! ## 5. The calls -/

section Calls

variable {s : MallocState} {B : Nat} {cs : List Chunk} {live : List (Nat × Nat)}

/-- **`__malloc_init`** makes an empty heap at the break, aligned. -/
theorem mallocInit_spec (hbase : s.heapbase = 0) (htop : s.heaptop = 0) (hpos : 0 < s.brk)
    (hlt : s.brk < 4294967296) :
    Wp False mallocInit (fun _ s' => s'.mem = s.mem ∧ ∃ B, Laid s' B [])
      (fun e s' => ¬ e.Corrupt ∧ s'.mem = s.mem) s := by
  have hsolid : Solid [] := fun c hc => absurd hc not_mem_nil
  rw [mallocInit, wp_bind, wp_get, if_neg (by omega)]
  refine (sbrk_spec 0).bind_ok fun r s' hr => ?_
  cases r with
  | none =>
    obtain ⟨ok, rfl⟩ := hr
    exact wp_fail.mpr ⟨id, rfl⟩
  | some x =>
    obtain ⟨rfl, -, ok, rfl⟩ := hr
    simp only
    rw [if_neg (by omega), wp_bind, wp_modify, mallocAlign, mblocksize]
    by_cases hal : s.brk % 8 ≠ 0
    · rw [if_pos hal]
      refine (sbrk_spec _).bind_ok fun r s' hr => ?_
      cases r with
      | none =>
        obtain ⟨ok, rfl⟩ := hr
        exact wp_fail.mpr ⟨id, rfl⟩
      | some y =>
        obtain ⟨rfl, hroom, ok, rfl⟩ := hr
        simp only [Nat.add_zero] at hroom ⊢
        rw [if_neg (by simp), wp_modify, u32_of_lt hroom]
        refine ⟨rfl, (s.brk + (8 - s.brk % 8)) / 8, ?_, ?_, rfl, ?_, hroom, hsolid, trivial⟩
        · simp only
          omega
        · simp only [span]
          omega
        · omega
    · rw [if_neg hal, wp_pure]
      refine ⟨rfl, s.brk / 8, ?_, ?_, rfl, ?_, hlt, hsolid, trivial⟩
      · simp only
        omega
      · simp only [span]
        omega
      · omega

variable {size : Nat} {q : Nat × Nat}

theorem mallocRounded_sound (h : Sound s live B cs) {k : Nat} (hk : 8 * k + 8 < 4294967296)
    (hsize : size ≤ 8 * k) : Wp False (mallocRounded (8 * k))
      (fun r s' => HeapInv s' (r.elim live fun q => (q, size) :: live) ∧
        SameBlocks live s.mem s'.mem)
      (fun _ _ => False) s := by
  refine (mallocRounded_spec h.laid hk).post fun r s' hr => ?_
  cases r with
  | none =>
    obtain ⟨hm, hl⟩ := hr
    refine ⟨.inr ⟨B, cs, hl, h.apart, h.nodup, h.blocks⟩, fun q _ j _ => ?_⟩
    rw [hm]
  | some q =>
    rcases hr with ⟨pre, ⟨len, _⟩, post, rfl, rfl, hlen, rfl, hr⟩ | ⟨rfl, hl, hm⟩
    · obtain ⟨hs, hsame⟩ := h.splitBlock hlen hsize hr
      exact ⟨.inr ⟨B, _, hs⟩, hsame⟩
    · obtain ⟨hs, hsame⟩ := h.topBlock hsize hl hm
      exact ⟨.inr ⟨B, _, hs⟩, hsame⟩

section

variable (h : HeapInv s live)

include h

/-- **`malloc`** keeps the heap and leaves the blocks in use alone; its new block is one of them. -/
theorem malloc_spec (hsize : (size + 7) / 8 * 8 + 8 < 4294967296) :
    Wp False (malloc size) (fun r s' => HeapInv s' (r.elim live fun q => (q, size) :: live) ∧
        SameBlocks live s.mem s'.mem)
      (fun e s' => ¬ e.Corrupt ∧ s'.mem = s.mem) s := by
  have hround : mallocRoundup size = 8 * ((size + 7) / 8) := by
    rw [mallocRoundup, u32_of_lt (by omega), Nat.mul_comm]
  -- the first call makes the heap
  have hinit : Wp False mallocFirst (fun _ s' => s'.mem = s.mem ∧ ∃ B cs, Sound s' live B cs)
      (fun e s' => ¬ e.Corrupt ∧ s'.mem = s.mem) s := by
    rw [mallocFirst, wp_bind, wp_get]
    rcases h with ⟨hbase, htop, hpos, hlt, rfl⟩ | ⟨B, cs, h⟩
    · rw [if_pos hbase]
      refine (mallocInit_spec hbase htop hpos hlt).post fun _ s' hs' => ?_
      obtain ⟨hm, B, hl⟩ := hs'
      exact ⟨hm, B, [], hl, isChain_nil, nodup_nil, fun q hq =>
        absurd hq not_mem_nil⟩
    · have hpos := h.laid.pos
      rw [if_neg (by rw [h.laid.base]; omega), wp_pure]
      exact ⟨rfl, B, cs, h⟩
  refine hinit.bind fun _ s₁ h1 => ?_
  obtain ⟨hm, B, cs, h1⟩ := h1
  have hpos := h1.laid.pos
  have hbase := h1.laid.base
  have htop := h1.laid.top
  rw [wp_bind, wp_get, if_neg (by omega), hround, ← hm]
  exact (mallocRounded_sound h1 (by omega) (by omega)).post_ok fun _ _ => id

/-- **`free`** keeps the heap and leaves the other blocks alone. -/
theorem free_live (hq : q ∈ live) : Wp False (free q.1)
      (fun _ s' => HeapInv s' (live.filter fun r => r.1 ≠ q.1) ∧
        SameBlocks (live.filter fun r => r.1 ≠ q.1) s.mem s'.mem)
      (fun e s' => ¬ e.Corrupt ∧ s'.mem = s.mem) s := by
  rcases h with ⟨-, -, -, -, rfl⟩ | ⟨B, cs, h⟩
  · exact absurd hq not_mem_nil
  obtain ⟨a, n, ha, hu, hroom⟩ := h.blocks q hq
  obtain ⟨pre, post, rfl, rfl⟩ := hu.split
  rw [ha]
  refine (free_spec h.laid h.apart).imp (fun _ s' hs' => ?_) fun e s' he => ?_
  · obtain ⟨pre', l, r, post', rfl, rfl, hfree, hapart, hr⟩ := hs'
    have hcs : (pre' ++ l) ++ ⟨n, true⟩ :: (r ++ post') =
        pre' ++ ((l ++ ⟨n, true⟩ :: r) ++ post') := by simp
    have hout : ∀ p ∈ live.filter fun p => p.1 ≠ 8 * (B + span (pre' ++ l) + 1),
        ∀ a len, p.1 = 8 * a → ¬ UsedAt (B + span pre') a len (l ++ ⟨n, true⟩ :: r) := by
      intro p hp a len hpa hu
      have hne := (mem_filter.mp hp).2
      have hat := hu.amid_free hfree
      rw [span_append] at hne
      simp only [decide_eq_true_eq] at hne
      omega
    have hsolid := h.laid.solid
    have hblocks := h.blocks
    rw [hcs] at hsolid hblocks
    obtain ⟨hlive, hsame⟩ := hr.blocks hsolid (fun p hp => hblocks p (mem_filter.mp hp).1) hout
    refine ⟨.inr ⟨B, _, hr.laid, hapart, ?_, hlive⟩, hsame⟩
    exact h.nodup.sublist (filter_sublist.map Prod.fst)
  · obtain ⟨rfl, rfl, -⟩ := he
    exact ⟨id, rfl⟩

theorem HeapInv.ne_zero (hq : q ∈ live) : q.1 ≠ 0 := by
  rcases h with ⟨-, -, -, -, rfl⟩ | ⟨B, cs, h⟩
  · exact absurd hq not_mem_nil
  · obtain ⟨a, len, ha, hu, -⟩ := h.blocks q hq
    have := hu.bounds h.laid.solid
    omega

/-- A store keeps the heap as long as it stays in the blocks in use, or out of the heap. -/
theorem HeapInv.store {m : Mem}
    (hm : ∀ a, s.heapbase ≤ a → a < s.heaptop → (∀ q ∈ live, ¬ (q.1 ≤ a ∧ a < q.1 + q.2)) →
      m a = s.mem a) : HeapInv (s.withMem m) live := by
  rcases h with h | ⟨B, cs, h⟩
  · exact .inl h
  refine .inr ⟨B, cs, h.laid.withMem rfl h.laid.solid ?_, h.apart, h.nodup, h.blocks⟩
  refine h.laid.tiled.congr fun pre c post hcs => Mem.header_congr fun a hlo hhi => ?_
  have hsolid := h.laid.solid
  have hbase := h.laid.base
  have hh := (hcs ▸ h.laid : Laid s B (pre ++ c :: post)).headerAt
  have hpos := hh.len_pos
  have hle := hh.len_lt
  refine hm a (by omega) (by omega) fun q hq => ?_
  obtain ⟨b, len, hb, hu, hroom⟩ := h.blocks q hq
  rw [hcs] at hu hsolid
  have := hu.header_out hsolid
  omega

end

end Calls

end Sealed

/-! ## 6. Runs of a process -/

/-- A process: its heap, the blocks it has, and how it ended. -/
structure Process where
  heap : MallocState
  live : List (Nat × Nat)
  exited : Option MallocExit

/-- What a process does. -/
inductive HeapOp
  | malloc (size : Nat)
  | free (x : Nat)
  | store (mem : Mem)

/-- What it may do: `malloc` of a size that does not wrap when it is rounded up and a header is
added; `free` of a pointer it has, or of NULL; and a store anywhere but in the parts of the heap
that are none of its blocks. -/
def HeapOp.Legal (op : HeapOp) (p : Process) : Prop :=
  p.exited = none ∧ match op with
    | .malloc size => (size + 7) / 8 * 8 + 8 < 4294967296
    | .free x => x = 0 ∨ x ∈ p.live.map Prod.fst
    | .store mem => ∀ a, p.heap.heapbase ≤ a → a < p.heap.heaptop →
        (∀ q ∈ p.live, ¬ (q.1 ≤ a ∧ a < q.1 + q.2)) → mem a = p.heap.mem a

/-- The call, with the blocks the process has afterwards. -/
def HeapOp.run (live : List (Nat × Nat)) : HeapOp → Malloc (List (Nat × Nat))
  | .malloc size => do
    let r ← Os161.malloc size
    pure (r.elim live fun q => (q, size) :: live)
  | .free x => do
    Os161.free x
    pure (live.filter fun r => r.1 ≠ x)
  | .store mem => do
    modify fun s => s.withMem mem
    pure live

/-- A step of the process; an exit of the library is its last. -/
def HeapOp.call (op : HeapOp) : Prog MallocExit Process Unit := fun p =>
  match op.run p.live p.heap with
  | none => none
  | some (.ok live, s) => some (.ok (), { p with heap := s, live := live })
  | some (.error e, s) => some (.ok (), { p with heap := s, exited := some e })

section Runs

variable {p p' : Process} {op : HeapOp}

/-- What holds of a process: its heap is in order, or it ended some other way than by finding it out
of order. -/
def ProcessInv (p : Process) : Prop :=
  match p.exited with
  | none => HeapInv p.heap p.live
  | some e => ¬ e.Corrupt

/-- One call: it comes back, and `malloc` and `free` leave alone the blocks that stay in use. -/
theorem HeapOp.run_spec (hl : op.Legal p) (h : HeapInv p.heap p.live) : Wp False (op.run p.live)
      (fun live' s' => HeapInv s' live' ∧ ((∀ m, op ≠ .store m) →
        ∀ q ∈ p.live, q ∈ live' → ∀ j < q.2, s'.mem (q.1 + j) = p.heap.mem (q.1 + j)))
      (fun e s' => ¬ e.Corrupt ∧ s'.mem = p.heap.mem) p.heap := by
  obtain ⟨-, hl⟩ := hl
  cases op with
  | malloc size =>
    refine (malloc_spec h hl).bind fun r s' hs' => ?_
    rw [wp_pure]
    exact ⟨hs'.1, fun _ q hq _ => hs'.2 q hq⟩
  | free x =>
    rw [HeapOp.run, wp_bind]
    rcases hl with rfl | hx
    · have hlive : (p.live.filter fun r => r.1 ≠ 0) = p.live := by
        refine filter_eq_self.mpr fun q hq => ?_
        simpa using h.ne_zero hq
      rw [Os161.free, if_pos rfl, wp_pure, wp_pure, hlive]
      exact ⟨h, fun _ _ _ _ _ _ => rfl⟩
    · obtain ⟨q, hq, rfl⟩ := mem_map.mp hx
      refine (free_live h hq).post fun r s' hs' => ?_
      rw [wp_pure]
      exact ⟨hs'.1, fun _ r _ hr => hs'.2 r hr⟩
  | store m =>
    rw [HeapOp.run, wp_bind, wp_modify, wp_pure]
    exact ⟨h.store hl, fun hne => absurd rfl (hne m)⟩

theorem HeapOp.call_spec (hl : op.Legal p) (h : ProcessInv p) : Wp False op.call
      (fun _ p' => ProcessInv p' ∧ ((∀ m, op ≠ .store m) → ∀ q ∈ p.live, q ∈ p'.live →
        ∀ j < q.2, p'.heap.mem (q.1 + j) = p.heap.mem (q.1 + j)))
      (fun _ _ => False) p := by
  have hrunning := hl.1
  have hheap : HeapInv p.heap p.live := by
    unfold ProcessInv at h
    rwa [hrunning] at h
  have hrun := HeapOp.run_spec hl hheap
  unfold Wp HeapOp.call at *
  rcases hr : op.run p.live p.heap with _ | ⟨e | live, s⟩ <;> rw [hr] at hrun
  · exact hrun
  · refine ⟨hrun.1, fun _ q _ _ j _ => ?_⟩
    simp only [hrun.2]
  · refine ⟨?_, hrun.2⟩
    simp only [hrunning]
    exact hrun.1

/-- A process that has not called `malloc` yet, with its break anywhere but at address 0. -/
structure Process.Fresh (p : Process) : Prop where
  heapbase : p.heap.heapbase = 0
  heaptop : p.heap.heaptop = 0
  brk_pos : 0 < p.heap.brk
  brk_lt : p.heap.brk < 4294967296
  live : p.live = []
  exited : p.exited = none

variable {s : MallocState} {live : List (Nat × Nat)} {p₀ : Process}

theorem HeapInv.chunks (h : HeapInv s live) :
    ∃ B cs, s.heapbase = 8 * B ∧ s.heaptop = 8 * (B + span cs) ∧ Solid cs ∧ Tiled s.mem B 0 cs ∧
      Apart cs ∧ (live.map Prod.fst).Nodup ∧ ∀ q ∈ live, LiveBlock B cs q := by
  rcases h with ⟨hbase, htop, -, -, rfl⟩ | ⟨B, cs, h⟩
  · exact ⟨0, [], hbase, htop, fun c hc => absurd hc not_mem_nil, trivial, isChain_nil,
      nodup_nil, fun q hq => absurd hq not_mem_nil⟩
  · exact ⟨B, cs, h.laid.base, h.laid.top, h.laid.solid, h.laid.tiled, h.apart, h.nodup, h.blocks⟩

theorem Process.Fresh.inv (h0 : p₀.Fresh) (hrun : Run HeapOp.call HeapOp.Legal p₀ p) :
    ProcessInv p := by
  have hstart : ProcessInv p₀ := by
    unfold ProcessInv
    rw [h0.exited]
    exact .inl ⟨h0.heapbase, h0.heaptop, h0.brk_pos, h0.brk_lt, h0.live⟩
  have hstep : ∀ (op : HeapOp) q, op.Legal q → ProcessInv q →
      Wp False op.call (fun _ => ProcessInv) (fun _ => ProcessInv) q := fun op q hl hq =>
    (HeapOp.call_spec hl hq).post_ok fun _ _ h => h.1
  exact hrun.invariant hstep hstart

theorem Process.Fresh.heapInv (h0 : p₀.Fresh) (hrun : Run HeapOp.call HeapOp.Legal p₀ p)
    (hexit : p.exited = none) : HeapInv p.heap p.live := by
  have hinv := h0.inv hrun
  unfold ProcessInv at hinv
  rwa [hexit] at hinv

/-- **The user heap stays in order.**  In every run of a process the blocks tile the heap, every
header knows the length of the block below it, no two free blocks are neighbours, and the pointers
the process has are those of different blocks in use that are large enough; `malloc` and `free` come
back, leave the bytes of these blocks alone, and never exit because the heap is corrupt. -/
theorem malloc_heap_sound {p₀ p : Process} (h₀ : p₀.Fresh)
    (hrun : Run HeapOp.call HeapOp.Legal p₀ p) :
    (p.exited = none → ∃ B cs, p.heap.heapbase = 8 * B ∧ p.heap.heaptop = 8 * (B + span cs) ∧
      Solid cs ∧ Tiled p.heap.mem B 0 cs ∧ Apart cs ∧ (p.live.map Prod.fst).Nodup ∧
      ∀ q ∈ p.live, LiveBlock B cs q) ∧
    (∀ e, p.exited = some e → ¬ e.Corrupt) ∧
    ∀ op : HeapOp, op.Legal p → ∃ p', op.call p = some (.ok (), p') ∧
      ((∀ m, op ≠ .store m) → ∀ q ∈ p.live, q ∈ p'.live →
        ∀ j < q.2, p'.heap.mem (q.1 + j) = p.heap.mem (q.1 + j)) := by
  have hinv := h₀.inv hrun
  refine ⟨fun he => (h₀.heapInv hrun he).chunks, fun e he => ?_, fun op hl => ?_⟩
  · unfold ProcessInv at hinv
    rwa [he] at hinv
  · obtain ⟨_, p', hc, hp'⟩ := (HeapOp.call_spec hl hinv).exists_ok
    exact ⟨p', hc, hp'.2⟩

/-- A process with its break at an address that is not aligned. -/
def newProcess : Process := ⟨⟨fun _ => 0, 0, 0, 4097, fun _ => true⟩, [], none⟩

theorem newProcess_malloc_free : ∃ p : Process, p.exited = none ∧ p.live = [(4112, 5)] ∧
    (p.exited = none → ∃ B cs, p.heap.heapbase = 8 * B ∧ p.heap.heaptop = 8 * (B + span cs) ∧
      Solid cs ∧ Tiled p.heap.mem B 0 cs ∧ Apart cs ∧ (p.live.map Prod.fst).Nodup ∧
      ∀ q ∈ p.live, LiveBlock B cs q) := by
  have h₁ : Run HeapOp.call HeapOp.Legal newProcess _ :=
    Run.refl.step (show (HeapOp.malloc 5).Legal _ from ⟨rfl, by decide⟩) rfl
  have h₂ := h₁.step (show (HeapOp.malloc 12).Legal _ from ⟨rfl, by decide⟩) rfl
  have h₃ := h₂.step (show (HeapOp.free 4128).Legal _ from ⟨rfl, .inr (by decide)⟩) rfl
  exact ⟨_, rfl, rfl, (malloc_heap_sound ⟨rfl, rfl, by decide, by decide, rfl, rfl⟩ h₃).1⟩

/-- With its break at address 0 a process does not get past its first `malloc`. -/
theorem malloc_break_zero : let p : Process := ⟨⟨fun _ => 0, 0, 0, 0, fun _ => true⟩, [], none⟩
    (HeapOp.malloc 1).Legal p ∧ ∃ p' e, (HeapOp.malloc 1).call p = some (.ok (), p') ∧
      p'.exited = some e ∧ e.Corrupt :=
  ⟨⟨rfl, by decide⟩, _, .heapAtZero, rfl, rfl, trivial⟩

/-! ## 7. How much `malloc` returns -/

/-- The pointer is to a block in use, with `size` bytes, that lies inside the heap. -/
def MallocState.HasBlock (s : MallocState) (size q : Nat) : Prop :=
  (s.mem.header (q - 8)).mhInuse = 1 ∧ size ≤ mSize (s.mem.header (q - 8)) ∧
    s.heapbase + 8 ≤ q ∧ q + mSize (s.mem.header (q - 8)) ≤ s.heaptop

theorem HeapInv.hasBlock (h : HeapInv s live) {q : Nat × Nat} (hq : q ∈ live) :
    s.HasBlock q.2 q.1 := by
  rcases h with ⟨-, -, -, -, rfl⟩ | ⟨B, cs, h⟩
  · exact absurd hq not_mem_nil
  obtain ⟨a, len, ha, hu, hroom⟩ := h.blocks q hq
  obtain ⟨pre, post, rfl, rfl⟩ := hu.split
  have hh := h.laid.headerAt
  have hbase := h.laid.base
  have hle : 8 * (B + span pre + len) ≤ s.heaptop := hh.len_lt
  have hat : q.1 - 8 = 8 * (B + span pre) := by omega
  have hsize : mSize (s.mem.header (q.1 - 8)) = 8 * (len - 1) := hat ▸ hh.size
  refine ⟨?_, by omega, by omega, by omega⟩
  rw [hat, hh.describes.inuse]
  rfl

/-- In every state that a process gets to, `malloc` returns NULL or enough. -/
def MallocEnough (size : Nat) : Prop :=
  ∀ p₀ p : Process, p₀.Fresh → Run HeapOp.call HeapOp.Legal p₀ p → p.exited = none →
    Wp False (malloc size) (fun r s' => ∀ q ∈ r, s'.HasBlock size q) (fun e _ => ¬ e.Corrupt) p.heap

/-- **When `malloc` returns enough**: the size does not wrap when it is rounded up and a header is
added. -/
theorem malloc_enough_iff {size : Nat} (hsize : size < 4294967296) :
    MallocEnough size ↔ (size + 7) / 8 * 8 + 8 < 4294967296 := by
  constructor
  · intro h
    by_contra hwrap
    have hfirst := h newProcess newProcess ⟨rfl, rfl, by decide, by decide, rfl, rfl⟩ .refl rfl
    -- only the size as it is rounded up matters
    have hround : mallocRoundup size = mallocRoundup 4294967295 ∨
        mallocRoundup size = mallocRoundup 4294967288 := by
      unfold mallocRoundup u32
      omega
    rcases hround with hr | hr
    · have hm : malloc size = malloc 4294967295 := by simp only [malloc, hr]
      rw [hm] at hfirst
      have hroom : size ≤ 0 := (hfirst.of_ok rfl _ rfl).2.1
      omega
    · have hm : malloc size = malloc 4294967288 := by simp only [malloc, hr]
      rw [hm] at hfirst
      exact absurd (hfirst.of_ok rfl _ rfl).2.2.2 (by decide)
  · intro hnowrap p₀ p h₀ hrun hexit
    refine (malloc_spec (h₀.heapInv hrun hexit) hnowrap).imp (fun r s' hs' q hq => ?_)
      fun _ _ he => he.1
    obtain rfl := Option.mem_def.mp hq
    have hinv : HeapInv s' ((q, size) :: p.live) := hs'.1
    exact hinv.hasBlock (q := (q, size)) mem_cons_self

theorem malloc_enough_five : MallocEnough 5 := (malloc_enough_iff (by decide)).mpr (by decide)

/-- `malloc(0xffffffff)` returns a block without a byte. -/
theorem malloc_returns_nothing : ¬ MallocEnough 0xffffffff := by
  intro h
  have hfirst := h newProcess newProcess ⟨rfl, rfl, by decide, by decide, rfl, rfl⟩ .refl rfl
  exact absurd (hfirst.of_ok rfl _ rfl).2.1 (by decide)

/-! ## 8. What can be freed -/

/-- `free` comes back, and the blocks in use are the same but for the one at `x`. -/
def FreesExactly (s : MallocState) (x : Nat) : Prop :=
  ∃ s' B cs cs', free x s = some (.ok (), s') ∧ Laid s B cs ∧ Laid s' B cs' ∧
    (∃ a len, x = 8 * a ∧ UsedAt B a len cs) ∧
    ∀ a len, UsedAt B a len cs' ↔ UsedAt B a len cs ∧ 8 * a ≠ x

/-- **When a block can be freed**: it is not empty at the top of the heap. -/
theorem free_exact_iff {p₀ : Process} (h₀ : p₀.Fresh) (hrun : Run HeapOp.call HeapOp.Legal p₀ p)
    (hexit : p.exited = none) {q : Nat × Nat} (hq : q ∈ p.live) :
    FreesExactly p.heap q.1 ↔ q.1 ≠ p.heap.heaptop := by
  have hinv := h₀.heapInv hrun hexit
  have hne := hinv.ne_zero hq
  rcases hinv with ⟨-, -, -, -, hlive⟩ | ⟨B, cs, h⟩
  · exact absurd (hlive ▸ hq) not_mem_nil
  obtain ⟨a, n, ha, hu, -⟩ := h.blocks q hq
  obtain ⟨pre, post, rfl, rfl⟩ := hu.split
  have hpos := h.laid.pos
  have hbase := h.laid.base
  constructor
  · rintro ⟨s', -, -, -, hfree, -⟩ heq
    have hrefuse : free q.1 p.heap = some (.error .outOfRange, p.heap) := by
      rw [free, if_neg hne, Prog.bind_ok (m := get) rfl, if_neg (by omega), if_pos (by omega)]
      rfl
    cases hfree.symm.trans hrefuse
  · intro hlow
    rw [ha] at hlow
    obtain ⟨_, s', hfree, pre', l, r, post', rfl, rfl, hfreed, -, hr⟩ :=
      ((free_spec h.laid h.apart).noError fun e s' he => hlow he.2.2).exists_ok
    have hcs : (pre' ++ l) ++ ⟨n, true⟩ :: (r ++ post') =
        pre' ++ ((l ++ ⟨n, true⟩ :: r) ++ post') := by simp
    refine ⟨s', B, _, _, ha ▸ hfree, hcs ▸ h.laid, hr.laid, ⟨_, n, ha, hcs ▸ hu⟩, fun a len => ?_⟩
    have hm : span l + (n + span r) = span (l ++ ⟨n, true⟩ :: r) := by rw [span_append, span]
    rw [usedAt_merged (hcs ▸ h.laid.solid) hfreed hm, ha, span_append]
    exact and_congr_right fun _ => by omega

theorem free_exact_five : ∃ p : Process, (4112, 5) ∈ p.live ∧ FreesExactly p.heap 4112 := by
  have h₁ : Run HeapOp.call HeapOp.Legal newProcess _ :=
    Run.refl.step (show (HeapOp.malloc 5).Legal _ from ⟨rfl, by decide⟩) rfl
  have hlive : (4112, 5) ∈ [(4112, 5)] := mem_cons_self
  exact ⟨_, hlive, (free_exact_iff ⟨rfl, rfl, by decide, by decide, rfl, rfl⟩ h₁ rfl hlive).mpr
    (by decide)⟩

/-- The block of `malloc(0)` on a fresh heap: `free` exits with its message "Invalid pointer". -/
theorem free_refuses_empty : ∃ p : Process, Run HeapOp.call HeapOp.Legal newProcess p ∧
    p.exited = none ∧ (4112, 0) ∈ p.live ∧ free 4112 p.heap = some (.error .outOfRange, p.heap) :=
  ⟨_, Run.refl.step (show (HeapOp.malloc 0).Legal _ from ⟨rfl, by decide⟩) rfl, rfl,
    mem_cons_self, rfl⟩

end Runs

end Os161
