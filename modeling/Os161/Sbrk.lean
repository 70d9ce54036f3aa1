/-
# `sbrk` of `kern/arch/mips/vm/vm.c`

`sbrk` keeps the break at a page boundary: a request for `size` bytes moves it by
`size / PAGE_SIZE + 1` whole pages.  So a call that asks for anything at all and succeeds moves the
break FURTHER than it was asked to, and the next one does not return what `__malloc_sbrk` expects,
its own `__heaptop`.  And a call that runs out of memory on its way keeps the pages it has got.
`sbrks_agree_iff` says for which sequences of calls all is as `__malloc_sbrk` expects: those in
which no call gets a page.

The allocator, `getppages(1)` or `alloc_page`, is a list of answers; 0 is that there is no page.
-/
import Os161.Dumbvm
import Os161.Lib.Run

namespace Os161

/-! ## 1. The call -/

/-- The heap of an address space: the break, the virtual pages that have been allocated for it, the
last one first, and what the allocator is going to answer. -/
structure Brk where
  heaptop : Nat
  pages : List Nat
  answers : List Nat

namespace Brk

/-- `getppages(1)` or `alloc_page(vaddr, as->pid)`. -/
def allocate (vaddr : Nat) : Prog Errno Brk Nat := do
  let s ← get
  let temp := s.answers.headD 0
  modify fun s => { s with
    answers := s.answers.tail, pages := if temp = 0 then s.pages else vaddr :: s.pages }
  pure temp

/-- One round of the loop. -/
def growPage (i : Nat) : Prog Errno Brk Unit := do
  let s ← get
  let temp ← allocate (u32 (s.heaptop + i * pageSize))
  if temp = 0 then fail .enomem

/-- `no_pages`. -/
def noPages (size : Nat) : Nat := size / pageSize + 1

/-- `STACKPAGES`. -/
abbrev stackpages : Nat := 12

/-- `sbrk`. -/
def sbrk (size : Int) : Prog Errno Brk Nat := do
  let s ← get
  if size = 0 then pure s.heaptop
  else if size < 0 then fail .einval
  else if u32 (s.heaptop + noPages size.toNat * pageSize) > userstack + stackpages * pageSize then
    fail .einval
  else do
    forEach growPage (List.range (noPages size.toNat))
    modify fun s => { s with heaptop := u32 (s.heaptop + noPages size.toNat * pageSize) }
    pure s.heaptop

/-! ## 2. What `__malloc_sbrk` expects -/

/-- Every page from `base` to the break has been allocated once. -/
def AllocatedOnce (base : Nat) (s : Brk) : Prop :=
  ∀ v, v % pageSize = 0 → base ≤ v → v < s.heaptop → s.pages.count v = 1

/-- A call that succeeds returns the break and moves it by `n`, with the pages below it allocated;
one that fails changes nothing. -/
def Agrees (base n : Nat) (s : Brk) : Prop :=
  Wp False (sbrk n)
    (fun r s' => r = s.heaptop ∧ s'.heaptop = s.heaptop + n ∧ s'.AllocatedOnce base)
    (fun _ s' => s'.heaptop = s.heaptop ∧ s'.pages = s.pages) s

/-- So do all calls of a sequence. -/
def AgreeAll (base : Nat) : List Nat → Brk → Prop
  | [], _ => True
  | n :: ns, s => s.Agrees base n ∧ ∀ r s', sbrk n s = some (r, s') → AgreeAll base ns s'

/-- The request does not fit below the end of the stack. -/
abbrev Refuses (n : Nat) (s : Brk) : Prop :=
  u32 (s.heaptop + noPages n * pageSize) > userstack + stackpages * pageSize

/-- No request of a sequence gets a page: nothing is asked for, or it is refused for its size, or
the allocator has none for it. -/
def GetNothing : List Nat → Brk → Prop
  | [], _ => True
  | n :: ns, s => if n = 0 ∨ s.Refuses n then GetNothing ns s
    else s.answers.headD 0 = 0 ∧ GetNothing ns { s with answers := s.answers.tail }

theorem growPage_spec {k : Nat} (i : Nat) (s : Brk) (hk : k ≤ s.pages.length) :
    Wp False (growPage i)
      (fun _ s' => s.answers.headD 0 ≠ 0 ∧ s'.heaptop = s.heaptop ∧ k < s'.pages.length)
      (fun _ s' => s.answers.headD 0 = 0 ∧ s' = { s with answers := s.answers.tail }) s := by
  rw [growPage, wp_bind, wp_get, allocate, wp_bind, wp_bind, wp_get, wp_bind, wp_modify, wp_pure,
    wp_ite]
  refine ⟨fun h => wp_fail.mpr ⟨h, by rw [if_pos h]⟩, fun h => wp_pure.mpr ⟨h, rfl, ?_⟩⟩
  rw [if_neg h, List.length_cons]
  omega

/-- A request that is not refused moves the break or fails, and then has kept a page if it got
one. -/
theorem sbrk_grows {n : Nat} (hn : n ≠ 0) {s : Brk} (hfits : ¬ s.Refuses n) : Wp False (sbrk n)
    (fun _ s' => s.answers.headD 0 ≠ 0 ∧ s'.heaptop = u32 (s.heaptop + noPages n * pageSize))
    (fun _ s' => if s.answers.headD 0 = 0 then s' = { s with answers := s.answers.tail }
      else s'.pages ≠ s.pages) s := by
  rw [sbrk, wp_bind, wp_get, if_neg (by omega), if_neg (by omega), Int.toNat_natCast,
    if_neg hfits, wp_bind, noPages, List.range_succ_eq_map, forEach, wp_bind]
  refine (growPage_spec 0 s le_rfl).imp (fun _ s₁ h1 => ?_) fun _ _ he => by rw [if_pos he.1, he.2]
  obtain ⟨hpage, h1⟩ := h1
  simp only [if_neg hpage]
  -- from here on there is a page more than before
  refine (wp_forEach (fun _ s' => s'.heaptop = s.heaptop ∧ s.pages.length < s'.pages.length)
    ?_ _ s₁ h1).post fun _ s₂ h2 => ?_
  · rintro i - s₂ ⟨htop, hlen⟩
    refine (growPage_spec i s₂ hlen.le).imp (fun _ s' h' => ⟨h'.2.1.trans htop, h'.2.2⟩) ?_
    rintro _ s' ⟨-, rfl⟩ hpages
    exact absurd hlen (by rw [← hpages]; exact Nat.lt_irrefl _)
  · rw [wp_bind, wp_modify, wp_pure, h2.1]
    exact ⟨hpage, rfl⟩

section Calls

variable {base n : Nat} {ns : List Nat} {s : Brk}

/-- What a call does for which the allocator is not asked. -/
theorem sbrk_quiet (h : n = 0 ∨ s.Refuses n) : Wp False (sbrk n)
    (fun r s' => s' = s ∧ n = 0 ∧ r = s.heaptop) (fun _ s' => s' = s) s := by
  rw [sbrk, wp_bind, wp_get, Int.toNat_natCast, wp_ite]
  refine ⟨fun h0 => wp_pure.mpr ⟨rfl, by omega, rfl⟩, fun h0 => ?_⟩
  rw [if_neg (by omega), if_pos (h.resolve_left (by omega)), wp_fail]

/-- A call that is granted a page moves the break too far, or keeps the page. -/
theorem not_agrees (hn : n ≠ 0) (hfits : ¬ s.Refuses n) (hpage : s.answers.headD 0 ≠ 0) :
    ¬ s.Agrees base n := by
  intro h
  have hboth := (h.and (sbrk_grows hn hfits)).noError fun _ _ he => by
    rw [if_neg hpage] at he
    exact he.2 he.1.2
  obtain ⟨_, s', -, ⟨-, hasked, -⟩, -, hmoved⟩ := hboth.exists_ok
  rw [hasked] at hmoved
  unfold u32 noPages pageSize at hmoved
  omega

/-- **When `sbrk` and `malloc` agree on the break**, from any state in which they do. -/
theorem agreeAll_iff : ∀ {ns : List Nat} {s : Brk}, s.AllocatedOnce base →
    (AgreeAll base ns s ↔ GetNothing ns s)
  | [], _, _ => Iff.rfl
  | n :: ns, s, h => by
    -- a call that agrees and leaves the pages as they are
    have hcall : ∀ {s₁ : Brk}, Wp False (sbrk n) (fun _ s' => s' = s₁) (fun _ s' => s' = s₁) s →
        s.Agrees base n → s₁.AllocatedOnce base →
        (AgreeAll base (n :: ns) s ↔ GetNothing ns s₁) := by
      intro s₁ hs hag h₁
      rw [AgreeAll, ← agreeAll_iff h₁]
      refine ⟨fun hall => ?_, fun hall => ⟨hag, fun r s' hs' => hs.of_some hs' ▸ hall⟩⟩
      obtain ⟨r, s', hs', rfl⟩ := hs.exists_some
      exact hall.2 r s' hs'
    rw [GetNothing]
    split_ifs with hno
    · have hquiet := sbrk_quiet hno
      refine hcall (hquiet.post fun _ _ hs => hs.1) (hquiet.imp ?_ ?_) h
      · rintro r s' ⟨rfl, rfl, rfl⟩
        exact ⟨rfl, rfl, h⟩
      · rintro _ s' rfl
        exact ⟨rfl, rfl⟩
    · obtain ⟨hn, hfits⟩ := not_or.mp hno
      by_cases hpage : s.answers.headD 0 = 0
      · have hnone := sbrk_grows hn hfits
        simp only [if_pos hpage] at hnone
        rw [and_iff_right hpage]
        refine hcall (hnone.post fun _ _ hs => absurd hpage hs.1)
          (hnone.imp (fun _ _ hs => absurd hpage hs.1) ?_) h
        rintro _ s' rfl
        exact ⟨rfl, rfl⟩
      · exact iff_of_false (fun hall => not_agrees hn hfits hpage hall.1) fun hall => hpage hall.1

end Calls

/-- **When `sbrk` and `malloc` agree on the break.**  All calls of a sequence that starts from a
fresh address space do what `__malloc_sbrk` expects exactly if none of them gets a page. -/
theorem sbrks_agree_iff (base : Nat) (answers ns : List Nat) :
    AgreeAll base ns ⟨base, [], answers⟩ ↔ GetNothing ns ⟨base, [], answers⟩ :=
  agreeAll_iff fun _ _ hle hlt => absurd hlt (Nat.not_lt.mpr hle)

/-- `sbrk(16)` moves the break by a page: the next call does not return the end of the 16 bytes. -/
theorem sbrk_moves_break_further : ∃ s' : Brk, let s : Brk := ⟨0x10000000, [], [0x40000]⟩
    ¬ AgreeAll 0x10000000 [16, 0] s ∧ sbrk 16 s = some (.ok 0x10000000, s') ∧
      sbrk 0 s' = some (.ok 0x10001000, s') := by
  refine ⟨_, fun h => ?_, rfl, rfl⟩
  exact absurd (h.1.of_ok rfl).2.1 (by decide)

end Brk

end Os161
