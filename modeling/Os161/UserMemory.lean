/-
# `kern/vm/copyinout.c`: user pointers

A process hands addresses to the kernel, and user space ends at `USERSPACETOP`.  `copyin`,
`copyout`, `copyinstr` and `copyoutstr` never touch an address above it: `copycheck` refuses a block
that is not below, and cuts a string off there.

The model has the memory of the machine as the kernel sees it, the list of all addresses that the
kernel has touched through a pointer of the process, and a flag for whether such a pointer has led
out of user space, whether or not it was followed.
-/
import Os161.Uio

namespace Os161.User

open Function List

/-! ## 1. User memory -/

/-- `USERSPACETOP`. -/
def userspaceTop : Nat := 0x80000000

/-- The number of addresses. -/
def addresses : Nat := 0x100000000

/-- How a call can end without success: with an error, or not at all, because the kernel has
panicked or loops for ever. -/
inductive Stop
  | errno (e : Errno)
  | stuck
  deriving DecidableEq, Repr

/-- The memory that can be read and written at each address, the addresses that have been touched
through user pointers, and whether a user pointer has led out of user space. -/
structure UserSpace where
  mem : Nat → Option Byte
  touched : List Nat
  strayed : Bool

/-- Before a call. -/
def start (mem : Nat → Option Byte) : UserSpace := ⟨mem, [], false⟩

/-- An address is touched. -/
def UserSpace.touch (s : UserSpace) (a : Nat) : UserSpace :=
  { s with touched := a :: s.touched, strayed := s.strayed || decide (userspaceTop ≤ a) }

/-- It is noted whether a pointer leads out of user space. -/
def UserSpace.note (s : UserSpace) (out : Bool) : UserSpace :=
  { s with strayed := s.strayed || out }

/-- A byte is read through a user pointer.  If there is nothing the exception handler panics, or
calls `copyfail`. -/
def userLoad (a : Nat) : Prog Stop UserSpace Byte := do
  modify (·.touch a)
  let s ← get
  match s.mem a with
  | some b => return b
  | none => fail .stuck

/-- A byte is written through a user pointer. -/
def userStore (a : Nat) (b : Byte) : Prog Stop UserSpace Unit := do
  modify (·.touch a)
  let s ← get
  match s.mem a with
  | some _ => modify fun s => { s with mem := update s.mem a (some b) }
  | none => fail .stuck

/-- The bytes from `p` on. -/
def loadBlock (p : Nat) : Nat → Prog Stop UserSpace (List Byte)
  | 0 => return []
  | n + 1 => do
    let b ← userLoad p
    let rest ← loadBlock (p + 1) n
    return b :: rest

def storeBlock (p : Nat) : List Byte → Prog Stop UserSpace Unit
  | [] => return ()
  | b :: rest => do
    userStore p b
    storeBlock (p + 1) rest

/-! ## 2. `copyinout.c` -/

/-- `copycheck`, which returns `stoplen`. -/
def copycheck (userptr len : Nat) : Except Errno Nat :=
  let bot := userptr
  let top := (bot + len + (addresses - 1)) % addresses
  if top < bot then .error .efault
  else if userspaceTop ≤ bot then .error .efault
  else if userspaceTop ≤ top then .ok (userspaceTop - bot)
  else .ok len

/-- A byte of the block is not below `USERSPACETOP`. -/
def outside (p len : Nat) : Bool := decide (0 < len ∧ userspaceTop < p + len)

/-- The checks of `copyin` and `copyout`. -/
def checkBlock (p len : Nat) : Prog Stop UserSpace Unit := do
  modify (·.note (outside p len))
  match copycheck p len with
  | .error e => fail (.errno e)
  | .ok stoplen => if stoplen ≠ len then fail (.errno .efault) else return ()

/-- What runs with `tm_badfaultfunc` set: a fault ends it with `EFAULT`. -/
def guarded (m : Prog Stop UserSpace Unit) : Prog Stop UserSpace Unit := do
  match ← attempt m with
  | .ok _ => return ()
  | .error _ => fail (.errno .efault)

/-- `memcpy` from a user address: the bytes that it copies, and whether it faults. -/
def copyBytesIn (src : Nat) : Nat → Prog Stop UserSpace (List Byte × Bool)
  | 0 => return ([], false)
  | n + 1 => do
    match ← attempt (userLoad src) with
    | .error _ => return ([], true)
    | .ok b => do
      let r ← copyBytesIn (src + 1) n
      return (b :: r.1, r.2)

/-- `copyin`.  Nobody looks at what was copied. -/
def copyin (usersrc len : Nat) : Prog Stop UserSpace Unit := do
  checkBlock usersrc len
  guarded (do let _ ← loadBlock usersrc len)

/-- `copyout`. -/
def copyout (src : List Byte) (userdest : Nat) : Prog Stop UserSpace Unit := do
  checkBlock userdest src.length
  guarded (storeBlock userdest src)

/-- The string at `p`, of at most `n` bytes, leads out of user space: it goes on that far without a
zero and without a hole. -/
def strOut (mem : Nat → Option Byte) (p : Nat) : Nat → Bool
  | 0 => false
  | n + 1 =>
    if userspaceTop ≤ p then true
    else
      match mem p with
      | none => false
      | some b => if b = 0 then false else strOut mem (p + 1) n

/-- The loop of `copystr`, from a user address: the bytes that it copies, and how it ends. -/
def copystrIn (err : Errno) (src : Nat) : Nat → Prog Stop UserSpace (List Byte × Option Errno)
  | 0 => return ([], some err)
  | n + 1 => do
    match ← attempt (userLoad src) with
    | .error _ => return ([], some .efault)
    | .ok b =>
      if b = 0 then return ([b], none)
      else do
        let r ← copystrIn err (src + 1) n
        return (b :: r.1, r.2)

/-- `copyinstr`: the buffer after it, and what it returns. -/
def copyinstr (usersrc : Nat) (dest : List Byte) (len : Nat) :
    Prog Stop UserSpace (List Byte × Option Errno) := do
  modify fun s => s.note (strOut s.mem usersrc len)
  match copycheck usersrc len with
  | .error e => return (dest, some e)
  | .ok stoplen => do
    let err := if stoplen < len then Errno.efault else Errno.enametoolong
    let r ← copystrIn err usersrc (min len stoplen)
    return (r.1 ++ dest.drop r.1.length, r.2)

/-- The string `src`, of at most `n` bytes, leads out of user space if it is written to `p`. -/
def strOutTo (mem : Nat → Option Byte) (p : Nat) : List Byte → Nat → Bool
  | _, 0 => false
  | [], _ => false
  | b :: src, n + 1 =>
    if userspaceTop ≤ p then true
    else if mem p = none ∨ b = 0 then false
    else strOutTo mem (p + 1) src n

/-- The loop of `copystr`, to a user address. -/
def copystrOut (err : Errno) (dest : Nat) : List Byte → Nat → Prog Stop UserSpace (Option Errno)
  | _, 0 => return some err
  | [], _ => return none
  | b :: src, n + 1 => do
    match ← attempt (userStore dest b) with
    | .error _ => return some .efault
    | .ok _ => if b = 0 then return none else copystrOut err (dest + 1) src n

/-- `copyoutstr`. -/
def copyoutstr (src : List Byte) (userdest len : Nat) : Prog Stop UserSpace (Option Errno) := do
  modify fun s => s.note (strOutTo s.mem userdest src len)
  match copycheck userdest len with
  | .error e => return some e
  | .ok stoplen => do
    let err := if stoplen < len then Errno.efault else Errno.enametoolong
    copystrOut err userdest src (min len stoplen)

/-! ## 3. Where the copy functions go -/

/-- Only user addresses have been touched, and what is in kernel addresses is as it was. -/
structure Kept (s s' : UserSpace) : Prop where
  touched : ∀ a ∈ s'.touched, a ∈ s.touched ∨ a < userspaceTop
  kernel : ∀ a, userspaceTop ≤ a → s'.mem a = s.mem a

theorem Kept.refl (s : UserSpace) : Kept s s := ⟨fun _ => .inl, fun _ _ => rfl⟩

variable {s s' s'' : UserSpace} {a p len stoplen n : Nat} {P : Prop} {src dest : List Byte}
  {err : Errno}

theorem Kept.trans (h : Kept s s') (h' : Kept s' s'') : Kept s s'' where
  touched a ha := (h'.touched a ha).elim (h.touched a) .inr
  kernel a ha := (h'.kernel a ha).trans (h.kernel a ha)

/-- What one piece of a call does: it notes whether its pointers lead out, and if they do not it
keeps to user space. -/
structure Went (out : Bool) (s s' : UserSpace) : Prop where
  strayed : s'.strayed = (s.strayed || out)
  kept : out = false → Kept s s'

theorem Went.refl (s : UserSpace) : Went false s s := ⟨(Bool.or_false _).symm, fun _ => .refl s⟩

theorem Went.trans {out out' : Bool} (h : Went out s s') (h' : Went out' s' s'') :
    Went (out || out') s s'' where
  strayed := by rw [h'.strayed, h.strayed, Bool.or_assoc]
  kept hout := by
    obtain ⟨h1, h2⟩ := Bool.or_eq_false_iff.mp hout
    exact (h.kept h1).trans (h'.kept h2)

theorem went_note (s : UserSpace) (out : Bool) : Went out s (s.note out) :=
  ⟨rfl, fun _ => ⟨fun _ => .inl, fun _ _ => rfl⟩⟩

theorem went_touch (s : UserSpace) (a : Nat) : Went (decide (userspaceTop ≤ a)) s (s.touch a) where
  strayed := rfl
  kept hout := by
    refine ⟨fun x hx => ?_, fun _ _ => rfl⟩
    rcases mem_cons.mp hx with rfl | hx
    · exact .inr (Nat.lt_of_not_le (of_decide_eq_false hout))
    · exact .inl hx

theorem went_touch_of_lt (h : a < userspaceTop) : Went false s (s.touch a) := by
  have := went_touch s a
  rwa [decide_eq_false (Nat.not_le.mpr h)] at this

theorem touch_strayed (h : a < userspaceTop) : (s.touch a).strayed = s.strayed := by
  rw [(went_touch_of_lt h).strayed, Bool.or_false]

section Copies

variable {P : Prop} {s : UserSpace} {E : Stop → UserSpace → Prop} {b : Byte}

@[simp] theorem wp_userLoad {Q : Byte → UserSpace → Prop} :
    Wp P (userLoad a) Q E s ↔ (∀ b, s.mem a = some b → Q b (s.touch a)) ∧
      (s.mem a = none → E .stuck (s.touch a)) := by
  simp only [userLoad, wp_bind, wp_modify, wp_get]
  have hmem : (s.touch a).mem a = s.mem a := rfl
  rw [hmem]
  cases h : s.mem a <;> simp

/-- A byte is written. -/
def UserSpace.write (s : UserSpace) (a : Nat) (b : Byte) : UserSpace :=
  { s.touch a with mem := update s.mem a (some b) }

@[simp] theorem wp_userStore {Q : Unit → UserSpace → Prop} :
    Wp P (userStore a b) Q E s ↔ (s.mem a ≠ none → Q () (s.write a b)) ∧
      (s.mem a = none → E .stuck (s.touch a)) := by
  simp only [userStore, wp_bind, wp_modify, wp_get]
  have hmem : (s.touch a).mem a = s.mem a := rfl
  rw [hmem]
  cases h : s.mem a with
  | none => simp
  | some x =>
    simp only [wp_modify]
    simp [UserSpace.write, UserSpace.touch]

theorem went_write (s : UserSpace) (a : Nat) (b : Byte) :
    Went (decide (userspaceTop ≤ a)) s (s.write a b) where
  strayed := rfl
  kept hout := by
    refine ⟨((went_touch s a).kept hout).touched, fun x hx => ?_⟩
    have hne : x ≠ a := fun he => absurd (he ▸ hx) (of_decide_eq_false hout)
    exact update_of_ne hne _ _

theorem went_write_of_lt (h : a < userspaceTop) : Went false s (s.write a b) := by
  have := went_write s a b
  rwa [decide_eq_false (Nat.not_le.mpr h)] at this

/-- The addresses that have been touched are the `n` from `p` on, all below `USERSPACETOP`, and
nothing has changed anywhere else. -/
structure Touched (p n : Nat) (s s' : UserSpace) : Prop where
  touched : s'.touched = (List.range' p n).reverse ++ s.touched
  user : ∀ i < n, p + i < userspaceTop
  mem : ∀ a, a < p ∨ p + n ≤ a → s'.mem a = s.mem a

theorem Touched.nil (s : UserSpace) : Touched p 0 s s where
  touched := rfl
  user := nofun
  mem _ _ := rfl

theorem Touched.cons {s₁ : UserSpace} (h : Touched (p + 1) n s₁ s') (hp : p < userspaceTop)
    (htouched : s₁.touched = p :: s.touched) (hmem : ∀ a ≠ p, s₁.mem a = s.mem a) :
    Touched p (n + 1) s s' where
  touched := by simp [h.touched, htouched, range'_succ]
  user i hi := by
    cases i with
    | zero => exact hp
    | succ i =>
      have := h.user i (Nat.lt_of_succ_lt_succ hi)
      omega
  mem a ha := (h.mem a (by omega)).trans (hmem a (by omega))

theorem Touched.load (h : Touched (p + 1) n (s.touch p) s') (hp : p < userspaceTop) :
    Touched p (n + 1) s s' :=
  h.cons hp rfl fun _ _ => rfl

theorem Touched.store (h : Touched (p + 1) n (s.write p b) s') (hp : p < userspaceTop) :
    Touched p (n + 1) s s' :=
  h.cons hp rfl fun _ ha => update_of_ne ha _ _

theorem Touched.went (h : Touched p n s s') (hs : s'.strayed = s.strayed) : Went false s s' where
  strayed := hs.trans (Bool.or_false _).symm
  kept _ := by
    refine ⟨fun a ha => ?_, fun a ha => h.mem a ?_⟩
    · rw [h.touched, mem_append, mem_reverse, mem_range'_1] at ha
      rcases ha with ha | ha
      · have := h.user (a - p) (by omega)
        exact .inr (by omega)
      · exact .inl ha
    · by_contra hin
      have := h.user (a - p) (by omega)
      omega

theorem below_succ (h : ∀ i < n + 1, p + i < userspaceTop) :
    p < userspaceTop ∧ ∀ i < n, p + 1 + i < userspaceTop := by
  refine ⟨h 0 (Nat.succ_pos n), fun i hi => ?_⟩
  have := h (i + 1) (Nat.succ_lt_succ hi)
  omega

/-- The `n` bytes at `p`, if there is no hole. -/
def bytesAt (mem : Nat → Option Byte) (p : Nat) : Nat → Option (List Byte)
  | 0 => some []
  | n + 1 => do
    let b ← mem p
    let rest ← bytesAt mem (p + 1) n
    return b :: rest

theorem copyBytesIn_spec (h : ∀ i < n, p + i < userspaceTop) : Wp False (copyBytesIn p n)
      (fun r s' => s'.mem = s.mem ∧ s'.strayed = s.strayed ∧ ∃ k ≤ n, Touched p k s s' ∧
        r.1.length ≤ k ∧
        if r.2 = true then (∃ i, k = i + 1 ∧ s.mem (p + i) = none) ∧ bytesAt s.mem p n = none
        else k = n ∧ r.1.length = n ∧ bytesAt s.mem p n = some r.1)
      (fun _ _ => False) s := by
  induction n generalizing p s with
  | zero => exact wp_pure.mpr ⟨rfl, rfl, 0, le_rfl, .nil s, le_rfl, rfl, rfl, rfl⟩
  | succ n ih =>
    obtain ⟨hp, hrest⟩ := below_succ h
    rw [copyBytesIn, wp_bind, wp_attempt, wp_userLoad, bytesAt]
    refine ⟨fun b hb => ?_, fun hnone => ?_⟩
    · rw [wp_bind, hb]
      refine (ih hrest).post fun r s' hr => wp_pure.mpr ?_
      obtain ⟨hmem, hstr, k, hk, htouched, hlen, hend⟩ := hr
      refine ⟨hmem, hstr.trans (touch_strayed hp), k + 1, by omega, htouched.load hp,
        by simpa using hlen, ?_⟩
      have hmem : (s.touch p).mem = s.mem := rfl
      rw [hmem] at hend
      split_ifs at hend ⊢ with hfault
      · obtain ⟨⟨i, rfl, hi⟩, hbytes⟩ := hend
        rw [Nat.add_assoc, Nat.add_comm 1] at hi
        exact ⟨⟨i + 1, rfl, hi⟩, by rw [hbytes]; rfl⟩
      · obtain ⟨rfl, hall, hbytes⟩ := hend
        exact ⟨rfl, congrArg (· + 1) hall, by rw [hbytes]; rfl⟩
    · exact wp_pure.mpr ⟨rfl, touch_strayed hp, 1, by omega, (Touched.nil _).load hp,
        Nat.zero_le 1, ⟨0, rfl, hnone⟩, by rw [hnone]; rfl⟩

theorem wp_loadBlock (n : Nat) :
    ∀ {p : Nat} {Q : List Byte → UserSpace → Prop} {s : UserSpace}, Wp P (loadBlock p n) Q E s ↔
      Wp P (copyBytesIn p n) (fun r s' => if r.2 = true then E .stuck s' else Q r.1 s') E s := by
  induction n with
  | zero => simp [loadBlock, copyBytesIn]
  | succ n ih => simp [loadBlock, copyBytesIn, wp_bind, wp_attempt, ih]

theorem loadBlock_spec (h : ∀ i < n, p + i < userspaceTop) : Wp P (loadBlock p n)
      (fun l s' => s'.mem = s.mem ∧ Went false s s' ∧ bytesAt s.mem p n = some l)
      (fun e s' => e = .stuck ∧ s'.mem = s.mem ∧ Went false s s' ∧ bytesAt s.mem p n = none) s := by
  rw [wp_loadBlock]
  refine (copyBytesIn_spec h).weaken.post_ok fun r s' hr => ?_
  obtain ⟨hmem, hstr, k, -, htouched, -, hend⟩ := hr
  split_ifs at hend ⊢
  · exact ⟨rfl, hmem, htouched.went hstr, hend.2⟩
  · exact ⟨hmem, htouched.went hstr, hend.2.2⟩

theorem storeBlock_spec {l : List Byte} (h : ∀ i < l.length, p + i < userspaceTop) :
    Wp P (storeBlock p l) (fun _ s' => s'.strayed = s.strayed ∧ Touched p l.length s s' ∧
        bytesAt s'.mem p l.length = some l)
      (fun _ s' => s'.strayed = s.strayed ∧ ∃ i < l.length, Touched p (i + 1) s s' ∧
        s.mem (p + i) = none) s := by
  induction l generalizing p s with
  | nil => exact wp_pure.mpr ⟨rfl, .nil s, rfl⟩
  | cons b l ih =>
    obtain ⟨hp, hrest⟩ := below_succ h
    rw [storeBlock, wp_bind, wp_userStore]
    refine ⟨fun _ => (ih hrest).imp (fun _ s' hs => ?_) fun _ s' he => ?_, fun hnone => ?_⟩
    · obtain ⟨hstr, htouched, hbytes⟩ := hs
      have hfirst : s'.mem p = some b := by
        rw [htouched.mem p (by omega)]
        exact update_self p (some b) s.mem
      refine ⟨hstr.trans (touch_strayed hp), htouched.store hp, ?_⟩
      rw [length_cons, bytesAt, hfirst, hbytes]
      rfl
    · obtain ⟨hstr, i, hi, htouched, hnone⟩ := he
      refine ⟨hstr.trans (touch_strayed hp), i + 1, Nat.succ_lt_succ hi, htouched.store hp, ?_⟩
      rw [Nat.add_assoc, Nat.add_comm 1] at hnone
      rw [← hnone]
      exact (update_of_ne (by omega) _ _).symm
    · exact ⟨touch_strayed hp, 0, Nat.succ_pos _, (Touched.nil _).load hp, hnone⟩

end Copies

theorem copycheck_ok (hp : p < addresses) (hlen : len ≤ addresses)
    (h : copycheck p len = .ok stoplen) :
    (∀ i < min len stoplen, p + i < userspaceTop) ∧ (outside p len = true → stoplen ≠ len) := by
  rw [outside, decide_eq_true_eq]
  unfold copycheck addresses userspaceTop at *
  dsimp only at h
  split_ifs at h with h1 h2 h3
  all_goals
    cases h
    refine ⟨fun i hi => ?_, fun hout => ?_⟩ <;> omega

theorem copycheck_error {e : Errno} (h : copycheck p len = .error e) : e = .efault := by
  unfold copycheck at h
  dsimp only at h
  split_ifs at h
  · cases h
    rfl
  · cases h
    rfl

/-- **The checks of `copyin` and `copyout`** let only blocks through that are below. -/
theorem checkBlock_spec (hp : p < addresses) (hlen : len ≤ addresses) : Wp P (checkBlock p len)
      (fun _ s' => s' = s.note false ∧ outside p len = false ∧ ∀ i < len, p + i < userspaceTop)
      (fun e s' => e = .errno .efault ∧ s' = s.note (outside p len)) s := by
  rw [checkBlock, wp_bind, wp_modify]
  cases h : copycheck p len with
  | error e =>
    rw [copycheck_error h]
    exact wp_fail.mpr ⟨rfl, rfl⟩
  | ok stoplen =>
    rw [wp_ite]
    refine ⟨fun _ => wp_fail.mpr ⟨rfl, rfl⟩, fun heq => ?_⟩
    rw [not_not] at heq
    have hin : outside p len = false := by
      by_contra hout
      exact (copycheck_ok hp hlen h).2 (Bool.eq_true_of_not_eq_false hout) heq
    rw [wp_pure, hin]
    refine ⟨rfl, rfl, fun i hi => (copycheck_ok hp hlen h).1 i ?_⟩
    rw [heq, min_self]
    exact hi

theorem note_false (s : UserSpace) : s.note false = s := by
  unfold UserSpace.note
  rw [Bool.or_false]

theorem kept_note (s : UserSpace) (out : Bool) : Kept s (s.note out) :=
  ⟨fun _ => .inl, fun _ _ => rfl⟩

theorem wp_guarded {m : Prog Stop UserSpace Unit} {Q : UserSpace → Prop}
    {E : Stop → UserSpace → Prop} (h : Wp P m (fun _ => Q) (fun _ => Q) s)
    (hE : ∀ s', Q s' → E (.errno .efault) s') : Wp P (guarded m) (fun _ => Q) E s := by
  rw [guarded, wp_bind, wp_attempt]
  exact h.imp (fun _ _ hs => wp_pure.mpr hs) (fun _ s' hs => wp_fail.mpr (hE s' hs))

/-- **`copyin`** keeps to user space, and fails with `EFAULT` if the block is not in it. -/
theorem copyin_spec (hp : p < addresses) (hlen : len ≤ addresses) : Wp P (copyin p len)
      (fun _ s' => outside p len = false ∧ s'.mem = s.mem ∧ Went false s s')
      (fun e s' => e = .errno .efault ∧ s'.mem = s.mem ∧ Kept s s' ∧ Went (outside p len) s s')
      s := by
  rw [copyin, wp_bind]
  refine (checkBlock_spec hp hlen).imp (fun _ s₁ h => ?_) (fun e s₁ h => ?_)
  · obtain ⟨rfl, hin, hlt⟩ := h
    rw [note_false, hin]
    have hload : Wp P (do let _ ← loadBlock p len) (fun _ s' => s'.mem = s.mem ∧ Went false s s')
        (fun _ s' => s'.mem = s.mem ∧ Went false s s') s := by
      rw [wp_bind]
      exact (loadBlock_spec hlt).imp (fun _ _ hs => wp_pure.mpr ⟨hs.1, hs.2.1⟩)
        (fun _ _ hs => ⟨hs.2.1, hs.2.2.1⟩)
    refine (wp_guarded hload fun s' hs => ?_).post fun _ _ hs => ⟨rfl, hs⟩
    exact ⟨rfl, hs.1, hs.2.kept rfl, hs.2⟩
  · obtain ⟨rfl, rfl⟩ := h
    exact ⟨rfl, rfl, kept_note s _, went_note s _⟩

/-- **`copyout`** keeps to user space, and fails with `EFAULT` if the block is not in it. -/
theorem copyout_spec (hp : p < addresses) (hlen : src.length ≤ addresses) : Wp P (copyout src p)
      (fun _ s' => outside p src.length = false ∧ Went false s s')
      (fun e s' => e = .errno .efault ∧ Kept s s' ∧ Went (outside p src.length) s s') s := by
  rw [copyout, wp_bind]
  refine (checkBlock_spec hp hlen).imp (fun _ s₁ h => ?_) (fun e s₁ h => ?_)
  · obtain ⟨rfl, hin, hlt⟩ := h
    rw [note_false, hin]
    have hstore : Wp P (storeBlock p src) (fun _ s' => Went false s s')
        (fun _ s' => Went false s s') s :=
      (storeBlock_spec hlt).imp (fun _ _ hs => hs.2.1.went hs.1) fun _ _ hs => by
        obtain ⟨hstr, i, -, htouched, -⟩ := hs
        exact htouched.went hstr
    refine (wp_guarded hstore fun s' hs => ?_).post fun _ _ hs => ⟨rfl, hs⟩
    exact ⟨rfl, hs.kept rfl, hs⟩
  · obtain ⟨rfl, rfl⟩ := h
    exact ⟨rfl, kept_note s _, went_note s _⟩

/-- The string at `p` ends, within `n` bytes and in user space. -/
def strEnds (mem : Nat → Option Byte) (p : Nat) : Nat → Bool
  | 0 => false
  | n + 1 =>
    if userspaceTop ≤ p then false
    else
      match mem p with
      | none => false
      | some b => if b = 0 then true else strEnds mem (p + 1) n

/-- The loop of `copystr` touches a byte for each that it copies, and one more at a hole.  It
succeeds exactly if the string ends. -/
theorem copystrIn_spec (h : ∀ i < n, p + i < userspaceTop) : Wp P (copystrIn err p n)
      (fun r s' => s'.mem = s.mem ∧ s'.strayed = s.strayed ∧
        (∃ k ≤ n, Touched p k s s' ∧ r.1.length ≤ k) ∧ (r.2 = none ↔ strEnds s.mem p n = true))
      (fun _ _ => False) s := by
  induction n generalizing p s with
  | zero => exact wp_pure.mpr ⟨rfl, rfl, ⟨0, le_rfl, .nil s, le_rfl⟩, by simp [strEnds]⟩
  | succ n ih =>
    obtain ⟨hp, hrest⟩ := below_succ h
    have hone : Touched p 1 s (s.touch p) := (Touched.nil _).load hp
    have hstr : (s.touch p).strayed = s.strayed := touch_strayed hp
    rw [copystrIn, wp_bind, wp_attempt, wp_userLoad, strEnds, if_neg (Nat.not_le.mpr hp)]
    refine ⟨fun b hb => ?_, fun hnone => ?_⟩
    · rw [hb, wp_ite]
      refine ⟨fun hz => ?_, fun hz => ?_⟩
      · exact wp_pure.mpr ⟨rfl, hstr, ⟨1, by omega, hone, le_rfl⟩, by simp [hz]⟩
      · refine (ih hrest).bind fun r s' hr => wp_pure.mpr ?_
        obtain ⟨hmem, hstr', ⟨k, hk, htouched, hlen⟩, hend⟩ := hr
        refine ⟨hmem, hstr'.trans hstr, ⟨k + 1, by omega, htouched.load hp, by simpa using hlen⟩,
          hend.trans ?_⟩
        dsimp only
        rw [if_neg hz]
        rfl
    · rw [hnone]
      exact wp_pure.mpr ⟨rfl, hstr, ⟨1, by omega, hone, Nat.zero_le 1⟩, by simp⟩

/-- **`copyinstr`** keeps to user space.  It succeeds only if the string ends. -/
theorem copyinstr_spec (hp : p < addresses) (hlen : len ≤ addresses) : Wp P (copyinstr p dest len)
      (fun _ s' => s'.mem = s.mem ∧ Went (strOut s.mem p len) s s') (fun _ _ => False) s := by
  rw [copyinstr, wp_bind, wp_modify]
  cases h : copycheck p len with
  | error e => exact wp_pure.mpr ⟨rfl, went_note s _⟩
  | ok stoplen =>
    refine (copystrIn_spec (copycheck_ok hp hlen h).1).bind fun r s' hs => ?_
    rw [wp_pure]
    refine ⟨hs.1, ?_⟩
    obtain ⟨-, hstr, ⟨k, -, htouched, -⟩, -⟩ := hs
    have := (went_note s (strOut s.mem p len)).trans (htouched.went hstr)
    rwa [Bool.or_false] at this

theorem strEnds_cut {mem : Nat → Option Byte} : ∀ {k n p : Nat}, p + k = userspaceTop → k ≤ n →
    (strEnds mem p k = true ↔ strEnds mem p n = true)
  | 0, 0, _, _, _ => Iff.rfl
  | 0, n + 1, p, hp, _ => by
    rw [strEnds, strEnds, if_pos (show userspaceTop ≤ p from Nat.le_of_eq hp.symm)]
  | k + 1, n + 1, p, hp, hle => by
    have hlt : ¬ userspaceTop ≤ p := by omega
    rw [strEnds, strEnds, if_neg hlt, if_neg hlt]
    cases mem p with
    | none => rfl
    | some b =>
      dsimp only
      split_ifs
      · rfl
      · exact strEnds_cut (by omega) (Nat.le_of_succ_le_succ hle)

/-- **What `copyinstr` returns.** -/
theorem copyinstr_result (hp : p < addresses) (hlen : len ≤ userspaceTop) :
    Wp P (copyinstr p dest len) (fun r _ => r.2 = none ↔ strEnds s.mem p len = true)
      (fun _ _ => False) s := by
  rw [copyinstr, wp_bind, wp_modify]
  have hlen' : len ≤ addresses := Nat.le_trans hlen (by decide)
  cases h : copycheck p len with
  | error e =>
    have hend : strEnds s.mem p len = false := by
      cases len with
      | zero => rfl
      | succ n =>
        rw [strEnds, if_pos]
        unfold copycheck addresses userspaceTop at *
        dsimp only at h
        split_ifs at h with h1 h2 h3
        · omega
        · exact h2
    exact wp_pure.mpr (by simp [hend])
  | ok stoplen =>
    refine (copystrIn_spec (copycheck_ok hp hlen' h).1).bind fun r s' hs => ?_
    rw [wp_pure]
    refine hs.2.2.2.trans ?_
    show strEnds s.mem p (min len stoplen) = true ↔ _
    rcases Nat.le_total len stoplen with hle | hle
    · rw [Nat.min_eq_left hle]
    · rw [Nat.min_eq_right hle]
      unfold copycheck at h
      dsimp only at h
      split_ifs at h with h1 h2 h3
      · obtain rfl := Except.ok.inj h
        exact strEnds_cut (by omega) hle
      · obtain rfl := Except.ok.inj h
        rfl

theorem copystrOut_spec (h : ∀ i < n, p + i < userspaceTop) :
    Wp P (copystrOut err p src n) (fun _ s' => s'.strayed = s.strayed ∧ ∃ k ≤ n, Touched p k s s')
      (fun _ _ => False) s := by
  induction n generalizing p s src with
  | zero => cases src <;> exact wp_pure.mpr ⟨rfl, 0, le_rfl, .nil s⟩
  | succ n ih =>
    cases src with
    | nil => exact wp_pure.mpr ⟨rfl, 0, Nat.zero_le _, .nil s⟩
    | cons b src =>
      obtain ⟨hp, hrest⟩ := below_succ h
      have hstr : (s.touch p).strayed = s.strayed := touch_strayed hp
      rw [copystrOut, wp_bind, wp_attempt, wp_userStore]
      refine ⟨fun _ => ?_, fun _ => wp_pure.mpr ⟨hstr, 1, by omega, (Touched.nil _).load hp⟩⟩
      rw [wp_ite]
      refine ⟨fun _ => wp_pure.mpr ⟨hstr, 1, by omega, (Touched.nil _).store hp⟩, fun _ => ?_⟩
      refine (ih hrest).post fun _ s' hs => ?_
      obtain ⟨hstr', k, hk, htouched⟩ := hs
      exact ⟨hstr'.trans hstr, k + 1, by omega, htouched.store hp⟩

/-- **`copyoutstr`** keeps to user space. -/
theorem copyoutstr_spec (hp : p < addresses) (hlen : len ≤ addresses) :
    Wp P (copyoutstr src p len) (fun _ s' => Went (strOutTo s.mem p src len) s s')
      (fun _ _ => False) s := by
  rw [copyoutstr, wp_bind, wp_modify]
  cases h : copycheck p len with
  | error e => exact wp_pure.mpr (went_note s _)
  | ok stoplen =>
    refine (copystrOut_spec (copycheck_ok hp hlen h).1).post fun r s' hs => ?_
    obtain ⟨hstr, k, -, htouched⟩ := hs
    have := (went_note s (strOutTo s.mem p src len)).trans (htouched.went hstr)
    rwa [Bool.or_false] at this

/-! ## 4. After a pointer has led out -/

/-- Once a pointer has led out it has, and what is left of the call does not report it. -/
def Stays {α : Type} (m : Prog Stop UserSpace α) : Prop :=
  ∀ s : UserSpace, s.strayed = true →
    Wp False m (fun _ s' => s'.strayed = true) (fun e s' => e = .stuck ∧ s'.strayed = true) s

section Stays

variable {α β : Type}

theorem stays_pure (a : α) : Stays (pure a : Prog Stop UserSpace α) := fun _ h => wp_pure.mpr h

theorem stays_stuck : Stays (fail .stuck : Prog Stop UserSpace α) :=
  fun _ h => wp_fail.mpr ⟨rfl, h⟩

variable {m : Prog Stop UserSpace α}

theorem Stays.bind {f : α → Prog Stop UserSpace β} (h : Stays m) (hf : ∀ a, Stays (f a)) :
    Stays (m >>= f) := fun s hs =>
  wp_bind.mpr ((h s hs).post fun a s' hs' => hf a s' hs')

theorem Stays.ite {c : Prop} [Decidable c] {n : Prog Stop UserSpace α} (h : Stays m)
    (h' : Stays n) :
    Stays (if c then m else n) := by
  split_ifs
  · exact h
  · exact h'

theorem stays_userLoad (a : Nat) : Stays (userLoad a) := fun s hs =>
  wp_userLoad.mpr ⟨fun _ _ => by rw [(went_touch s a).strayed, hs]; rfl,
    fun _ => ⟨rfl, by rw [(went_touch s a).strayed, hs]; rfl⟩⟩

theorem stays_loadBlock : ∀ n p, Stays (loadBlock p n)
  | 0, _ => stays_pure []
  | n + 1, p => (stays_userLoad p).bind fun _ =>
    (stays_loadBlock n (p + 1)).bind fun _ => stays_pure _

theorem stays_copystrIn (err : Errno) : ∀ n p, Stays (copystrIn err p n)
  | 0, _ => stays_pure _
  | n + 1, p => by
    intro s hs
    have htouch : (s.touch p).strayed = true := by
      rw [(went_touch s p).strayed, hs]
      rfl
    rw [copystrIn, wp_bind, wp_attempt, wp_userLoad]
    refine ⟨fun b _ => ?_, fun _ => wp_pure.mpr htouch⟩
    exact (stays_pure _).ite ((stays_copystrIn err n (p + 1)).bind fun _ => stays_pure _) _ htouch

theorem stays_copyinstr (p : Nat) (dest : List Byte) (len : Nat) :
    Stays (copyinstr p dest len) := by
  intro s hs
  have hnote : (s.note (strOut s.mem p len)).strayed = true := by
    rw [(went_note s _).strayed, hs]
    rfl
  rw [copyinstr, wp_bind, wp_modify]
  cases copycheck p len with
  | error e => exact wp_pure.mpr hnote
  | ok stoplen => exact ((stays_copystrIn _ _ p).bind fun _ => stays_pure _) _ hnote

end Stays

end Os161.User
