/-
# `getdevice`: what a path starts from

`getdevice` of `vfslookup.c` looks for the first colon or slash with a loop over the characters,
and cuts the name of a device off by writing a zero into the path.  `getdeviceChars` is that code,
character by character; `getdevice` of `Vfs.lean`, which all calls on names use, is the same
(`exists_pathStart`).

The comments document four ways for a path to begin.  `getdevice_resolves` says that every path
begins in exactly one of them, and that the code does what is documented for it.  The assertion
about the colon and the slash is not on the right-hand side: it never fires.
-/
import Os161.Vfs

namespace Os161

open List

open VnodeOps (colonChar slashChar)

/-! ## 1. The code -/

/-- The loop that looks for the first colon or slash, from position `i` on: `slash` and `colon`. -/
def firstMarks : List Byte → Nat → Int × Int
  | [], _ => (-1, -1)
  | c :: cs, i =>
    if c = colonChar then (-1, i)
    else if c = slashChar then (i, -1)
    else firstMarks cs (i + 1)

/-- `while (path[i+1]=='/') i++`, where `cs` is what comes behind position `i`. -/
def skipSlashes : List Byte → Nat → Nat
  | [], i => i
  | c :: cs, i => if c = slashChar then skipSlashes cs (i + 1) else i

namespace VnodeOps

variable {μ ν φ : Type} [DecidableEq ν] (ops : VnodeOps μ ν φ)

/-- `getdevice` on the characters of the path. -/
def getdeviceChars (path : CString) : VfsProg μ ν φ (ν × CString) := do
  let (slash, colon) := firstMarks path.1 0
  if colon < 0 ∧ slash ≠ 0 then do
    let startvn ← ops.vfsGetcurdir
    pure (startvn, path)
  else if 0 < colon then do
    -- `path[colon]=0`
    let path := path.1.set colon.toNat 0
    let last := skipSlashes (path.drop (colon.toNat + 1)) colon.toNat
    let startvn ← ops.vfsGetroot (cString path)
    pure (startvn, cString (path.drop (last + 1)))
  else do
    assert (colon = 0 ∨ slash = 0)
    let startvn ← if path.1.head? = some slashChar then ops.getBootfs else do
      assert (path.1.head? = some colonChar)
      ops.getCurrentRoot
    pure (startvn, path.drop (skipSlashes (path.1.drop 1) 0 + 1))

end VnodeOps

/-! ## 2. The documented cases -/

/-- How a path can begin: with a device and a colon at `p`, a slash, a colon, or none of these. -/
inductive PathStart
  | device (p : Nat)
  | boot
  | current
  | relative

/-- Neither a colon nor a slash. -/
def Unmarked (l : List Byte) : Prop := ∀ c ∈ l, c ≠ colonChar ∧ c ≠ slashChar

namespace PathStart

/-- The path begins that way. -/
def Of (path : CString) : PathStart → Prop
  | device p => 0 < p ∧ path.1[p]? = some colonChar ∧ Unmarked (path.1.take p)
  | boot => path.1[0]? = some slashChar
  | current => path.1[0]? = some colonChar
  | relative => (∀ p, path.1[p]? = some colonChar → ¬ Unmarked (path.1.take p)) ∧
      path.1[0]? ≠ some slashChar

/-- The way to begin if the first mark is a `c` at position `n`. -/
def ofMark (n : Nat) (c : Byte) : PathStart :=
  if n = 0 then if c = colonChar then current else boot
  else if c = colonChar then device n else relative

variable {μ ν φ : Type} [DecidableEq ν]

/-- The vnode that such a path starts from. -/
def start (ops : VnodeOps μ ν φ) (path : CString) : PathStart → VfsProg μ ν φ ν
  | device p => ops.vfsGetroot (path.take p)
  | boot => ops.getBootfs
  | current => ops.getCurrentRoot
  | relative => ops.vfsGetcurdir

/-- What is left of it. -/
def subpath (path : CString) : PathStart → CString
  | device p => (path.drop (p + 1)).skip slashChar
  | boot | current => (path.drop 1).skip slashChar
  | relative => path

/-- What is documented for it. -/
def run (ops : VnodeOps μ ν φ) (path : CString) (k : PathStart) : VfsProg μ ν φ (ν × CString) := do
  let startvn ← k.start ops path
  pure (startvn, k.subpath path)

theorem subpath_isSuffix (path : CString) (k : PathStart) : (k.subpath path).1 <:+ path.1 := by
  cases k with
  | device p => exact (dropWhile_suffix _).trans (drop_suffix _ _)
  | boot => exact (dropWhile_suffix _).trans (drop_suffix _ _)
  | current => exact (dropWhile_suffix _).trans (drop_suffix _ _)
  | relative => exact suffix_rfl

end PathStart

/-! ## 3. The loops -/

theorem drop_skipSlashes (l : List Byte) (n : Nat) (cs : List Byte) (h : l.drop (n + 1) = cs) :
    l.drop (skipSlashes cs n + 1) = cs.dropWhile (· = slashChar) := by
  induction cs generalizing n with
  | nil => exact h
  | cons c cs ih =>
    by_cases hc : c = slashChar
    · rw [skipSlashes, if_pos hc, dropWhile_cons_of_pos (by simpa using hc)]
      refine ih (n + 1) ?_
      rw [← tail_drop, h, tail_cons]
    · rw [skipSlashes, if_neg hc, dropWhile_cons_of_neg (by simpa using hc), h]

variable {a b : List Byte} {c : Byte}

/-- The loop ends behind the last character, or at the first that is marked. -/
theorem firstMarks_append (h : Unmarked a) (cs : List Byte) (i : Nat) :
    firstMarks (a ++ cs) i = firstMarks cs (i + a.length) := by
  induction a generalizing i with
  | nil => rfl
  | cons c a ih =>
    obtain ⟨hcolon, hslash⟩ := h c mem_cons_self
    rw [cons_append, firstMarks, if_neg hcolon, if_neg hslash,
      ih (fun d hd => h d (mem_cons_of_mem _ hd)), length_cons, Nat.add_assoc,
      Nat.add_comm 1]

theorem exists_mark (l : List Byte) : Unmarked l ∨ ∃ a c b, l = a ++ c :: b ∧ Unmarked a ∧
    (c = colonChar ∨ c = slashChar) := by
  induction l with
  | nil => exact .inl nofun
  | cons d l ih =>
    by_cases hd : d = colonChar ∨ d = slashChar
    · exact .inr ⟨[], d, l, rfl, nofun, hd⟩
    · rw [not_or] at hd
      rcases ih with h | ⟨a, c, b, rfl, ha, hc⟩
      · exact .inl (forall_mem_cons.mpr ⟨hd, h⟩)
      · exact .inr ⟨d :: a, c, b, rfl, forall_mem_cons.mpr ⟨hd, ha⟩, hc⟩

theorem first_colon_iff (ha : Unmarked a) (hc : c = colonChar ∨ c = slashChar) {p : Nat} :
    (a ++ c :: b)[p]? = some colonChar ∧ Unmarked ((a ++ c :: b).take p) ↔
      p = a.length ∧ c = colonChar := by
  constructor
  · rintro ⟨hget, hun⟩
    rcases Nat.lt_trichotomy p a.length with hlt | rfl | hgt
    · rw [getElem?_append_left hlt] at hget
      exact absurd rfl (ha _ (mem_of_getElem? hget)).1
    · simpa using hget
    · have hmem : c ∈ (a ++ c :: b).take p := by
        obtain ⟨k, rfl⟩ := Nat.exists_eq_add_of_lt hgt
        simp [take_append, Nat.add_assoc]
      exact absurd hc (not_or.mpr (hun c hmem))
  · rintro ⟨rfl, rfl⟩
    simpa using ha

/-- **The first mark decides** how a path begins: where it is, and which it is. -/
theorem PathStart.of_iff {path : CString} (hp : path.1 = a ++ c :: b) (ha : Unmarked a)
    (hc : c = colonChar ∨ c = slashChar) (k : PathStart) : k.Of path ↔ k = .ofMark a.length c := by
  have hfirst := fun p => first_colon_iff (p := p) (b := b) ha hc
  have hhead : path.1[0]? = some (a.headD c) := by
    rw [hp]
    cases a <;> rfl
  have hmark : (a.headD c = colonChar ↔ a.length = 0 ∧ c = colonChar) ∧
      (a.headD c = slashChar ↔ a.length = 0 ∧ c ≠ colonChar) := by
    cases a with
    | nil => rcases hc with rfl | rfl <;> simp
    | cons x a => simpa using ha x mem_cons_self
  unfold ofMark
  cases k with
  | device p =>
    simp only [Of, hp, hfirst]
    split_ifs <;> simp <;> grind
  | boot =>
    simp only [Of, hhead, Option.some.injEq, hmark]
    split_ifs <;> grind
  | current =>
    simp only [Of, hhead, Option.some.injEq, hmark]
    split_ifs <;> grind
  | relative =>
    have hcolon : (∀ p, path.1[p]? = some colonChar → ¬ Unmarked (path.1.take p)) ↔
        c ≠ colonChar := by
      rw [hp]
      refine ⟨fun h he => ?_, fun h p hget hun => h ((hfirst p).mp ⟨hget, hun⟩).2⟩
      obtain ⟨hget, hun⟩ := (hfirst a.length).mpr ⟨rfl, he⟩
      exact h _ hget hun
    simp only [Of, hcolon, hhead, Option.some.injEq, hmark, ne_eq]
    split_ifs <;> grind

namespace VnodeOps

variable {μ ν φ : Type} [DecidableEq ν] (ops : VnodeOps μ ν φ)

/-! ## 4. The result -/

theorem cut_device {path : CString} (hp : path.1 = a ++ c :: b) :
    cString (path.1.set a.length 0) = path.take a.length ∧
    cString ((path.1.set a.length 0).drop
      (skipSlashes ((path.1.set a.length 0).drop (a.length + 1)) a.length + 1)) =
        (path.drop (a.length + 1)).skip slashChar := by
  have hset : path.1.set a.length 0 = a ++ 0 :: b := by simp [hp]
  have hname : a = (path.take a.length).1 := by simp [CString.take, hp]
  have hrest : b = (path.drop (a.length + 1)).1 := by simp [CString.drop, hp]
  constructor
  · rw [hset, cString_append_zero, hname, cString_val, ← hname]
  · have hdrop : (a ++ 0 :: b).drop (a.length + 1) = b := by simp
    rw [drop_skipSlashes _ _ _ rfl, hset, hdrop, hrest]
    exact cString_val ((path.drop (a.length + 1)).skip slashChar)

/-- Both models do what is documented for the way that the path begins. -/
theorem exists_pathStart (path : CString) : ∃ k : PathStart, (∀ k', k'.Of path ↔ k' = k) ∧
    ops.getdeviceChars path = k.run ops path ∧ ops.getdevice path = k.run ops path := by
  rcases exists_mark path.1 with hun | ⟨a, c, b, hp, ha, hc⟩
  · have hmarks : firstMarks path.1 0 = (-1, -1) := by
      simpa [firstMarks] using firstMarks_append hun [] 0
    have hfirst : firstMark path = none := by
      have hnone : path.1.findIdx? (fun c => c = colonChar ∨ c = slashChar) = none := by
        simpa [Unmarked] using hun
      rw [firstMark, hnone]
      rfl
    have hnot : ∀ p x, (x = colonChar ∨ x = slashChar) → path.1[p]? ≠ some x :=
      fun p x hx hget => absurd hx (not_or.mpr (hun x (mem_of_getElem? hget)))
    refine ⟨.relative, fun k' => ?_, ?_, ?_⟩
    · cases k' <;> simp [PathStart.Of, hnot]
    · rw [getdeviceChars, hmarks]
      rfl
    · rw [getdevice, hfirst]
      rfl
  · have hmarks : firstMarks path.1 0 = if c = colonChar then (-1, (a.length : Int))
        else ((a.length : Int), -1) := by
      rw [hp, firstMarks_append ha, firstMarks]
      split_ifs <;> simp_all
    have hfirst : firstMark path = some (a.length, c) := by
      have hidx : path.1.findIdx? (fun c => c = colonChar ∨ c = slashChar) = some a.length := by
        rw [hp, findIdx?_append, findIdx?_eq_none_iff.mpr (by simpa [Unmarked] using ha)]
        rcases hc with rfl | rfl <;> simp [findIdx?_cons]
      rw [firstMark, hidx, hp]
      simp
    refine ⟨.ofMark a.length c, PathStart.of_iff hp ha hc, ?_, ?_⟩
    · rw [getdeviceChars, hmarks]
      cases a with
      | nil =>
        have hhead : path.1.head? = some c := by rw [hp]; rfl
        have hcut : path.drop (skipSlashes (path.1.drop 1) 0 + 1) = (path.drop 1).skip slashChar :=
          Subtype.ext (drop_skipSlashes _ 0 _ rfl)
        rw [hhead, hcut]
        rcases hc with rfl | rfl <;> rfl
      | cons x a =>
        rcases hc with rfl | rfl
        · obtain ⟨hname, hrest⟩ := cut_device hp
          have hpos : 0 < ((x :: a).length : Int) := Int.natCast_pos.mpr (Nat.succ_pos _)
          dsimp only
          rw [if_pos rfl, if_neg fun h => (Int.lt_asymm h.1 hpos).elim, if_pos hpos,
            Int.toNat_natCast, hname, hrest]
          rfl
        · rfl
    · rw [getdevice, hfirst]
      cases a with
      | nil => rcases hc with rfl | rfl <;> rfl
      | cons x a => rcases hc with rfl | rfl <;> rfl

/-- **`getdevice` resolves exactly one of the documented cases**, whatever the path and the state:
the path begins in one way, the code does what is documented for it, and what is left of the path
is a suffix of it. -/
theorem getdevice_resolves (path : CString) : ∃ k : PathStart, (∀ k', k'.Of path ↔ k' = k) ∧
    ops.getdeviceChars path = k.run ops path ∧ (k.subpath path).1 <:+ path.1 := by
  obtain ⟨k, hk, hrun, -⟩ := ops.exists_pathStart path
  exact ⟨k, hk, hrun, k.subpath_isSuffix path⟩

end VnodeOps

end Os161
