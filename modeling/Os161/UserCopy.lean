/-
# `kern/vm/copyinout.c`: what a copy touches

`UserMemory.lean` says that the copy functions keep to user space.  Here it is said which addresses
they touch, in order: the bytes from the user's pointer on, at most `len` of them, and never one at
`USERSPACETOP` or above (`user_copies_bounded`).  A block is copied as a whole or not at all, unless
there is a hole in it.

For a string there are three ends, and `copystr` tells them apart by two lengths after its loop:
the zero, the end of the buffer, and the end of user space.  If there are no holes the outcome is
the one that `copyinstr_classified` reads off the bytes.

The functions are those of `UserMemory.lean` with more of what they return (`wp_copyin`,
`wp_copyinstr`).
-/
import Os161.UserMemory

namespace Os161.User

open Function List

/-! ## 1. The functions with what they write -/

/-- `copyin`: the buffer after it, and what it returns. -/
def copyinTo (usersrc : Nat) (dest : List Byte) (len : Nat) :
    Prog Stop UserSpace (List Byte × Option Errno) := do
  match ← attempt (checkBlock usersrc len) with
  | .error _ => return (dest, some .efault)
  | .ok _ => do
    let r ← copyBytesIn usersrc len
    return (r.1 ++ dest.drop r.1.length, if r.2 = true then some .efault else none)

/-- `copyinstr`: the buffer after it, and `*actual` or the error.  The index of the zero plus one is
the number of bytes that the loop has copied. -/
def copyinstrGot (usersrc : Nat) (dest : List Byte) (len : Nat) :
    Prog Stop UserSpace (List Byte × Except Errno Nat) := do
  modify fun s => s.note (strOut s.mem usersrc len)
  match copycheck usersrc len with
  | .error e => return (dest, .error e)
  | .ok stoplen => do
    let err := if stoplen < len then Errno.efault else Errno.enametoolong
    let r ← copystrIn err usersrc (min len stoplen)
    return (r.1 ++ dest.drop r.1.length, r.2.elim (.ok r.1.length) .error)

section Same

variable {P : Prop} {E : Stop → UserSpace → Prop} {s : UserSpace} {p n len : Nat} {dest : List Byte}

/-- **`copyinstrGot` is `copyinstr`**, with `*actual`. -/
theorem wp_copyinstr {Q : List Byte × Option Errno → UserSpace → Prop} :
    Wp P (copyinstr p dest len) Q E s ↔ Wp P (copyinstrGot p dest len)
      (fun r => Q (r.1, match r.2 with
        | .ok _ => none
        | .error e => some e)) E s := by
  rw [copyinstr, copyinstrGot, wp_bind, wp_bind, wp_modify, wp_modify]
  cases copycheck p len with
  | error e => simp only [wp_pure]
  | ok stoplen =>
    rw [wp_bind, wp_bind]
    refine iff_of_eq (congrArg (Wp P _ · E _) (funext fun r => funext fun s' => ?_))
    simp only [wp_pure]
    cases r.2 with
    | none => rfl
    | some e => rfl

theorem copyBytesIn_noError (E' : Stop → UserSpace → Prop) (n : Nat) : ∀ {p : Nat}
    {Q : List Byte × Bool → UserSpace → Prop} {s : UserSpace},
    Wp P (copyBytesIn p n) Q E s ↔ Wp P (copyBytesIn p n) Q E' s := by
  induction n with
  | zero => simp [copyBytesIn]
  | succ n ih => simp [copyBytesIn, wp_bind, wp_attempt, ih]

/-- **`copyinTo` is `copyin`**, with the bytes. -/
theorem wp_copyin {Q : UserSpace → Prop} :
    Wp P (copyin p len) (fun _ => Q) E s ↔
      Wp P (copyinTo p dest len) (fun r s' => match r.2 with
        | none => Q s'
        | some e => E (.errno e) s') E s := by
  rw [copyin, copyinTo, wp_bind, wp_bind, wp_attempt, checkBlock, wp_bind, wp_bind, wp_modify,
    wp_modify]
  cases hc : copycheck p len with
  | error e =>
    rw [copycheck_error hc]
    simp only [wp_fail, wp_pure]
  | ok stoplen =>
    dsimp only
    split_ifs
    · simp only [wp_fail, wp_pure]
    · simp only [guarded, wp_pure, wp_bind, wp_attempt, wp_fail, wp_loadBlock]
      rw [copyBytesIn_noError E]
      refine iff_of_eq (congrArg (Wp P _ · E _) (funext fun r => funext fun s' => ?_))
      cases r.2 with
      | false => rfl
      | true => rfl

end Same

/-! ## 2. The calls -/

/-- A call, with the kernel's buffer. -/
inductive CopyCall
  | copyin (usersrc : Nat) (dest : List Byte) (len : Nat)
  | copyout (src : List Byte) (userdest : Nat)
  | copyinstr (usersrc : Nat) (dest : List Byte) (len : Nat)
  | copyoutstr (src : List Byte) (userdest len : Nat)

namespace CopyCall

/-- The call: the buffer after it, and what it returns. -/
def run : CopyCall → Prog Stop UserSpace (List Byte × Option Errno)
  | copyin usersrc dest len => copyinTo usersrc dest len
  | copyout src userdest => do
    match ← attempt (User.copyout src userdest) with
    | .ok _ => return (src, none)
    | .error (.errno e) => return (src, some e)
    | .error .stuck => fail .stuck
  | copyinstr usersrc dest len => User.copyinstr usersrc dest len
  | copyoutstr src userdest len => do
    let r ← User.copyoutstr src userdest len
    return (src, r)

/-- The user's pointer. -/
def ptr : CopyCall → Nat
  | copyin usersrc _ _ | copyinstr usersrc _ _ => usersrc
  | copyout _ userdest | copyoutstr _ userdest _ => userdest

/-- The length of the user's memory. -/
def len : CopyCall → Nat
  | copyin _ _ len | copyinstr _ _ len | copyoutstr _ _ len => len
  | copyout src _ => src.length

/-- The kernel's memory. -/
def buf : CopyCall → List Byte
  | copyin _ dest _ | copyinstr _ dest _ => dest
  | copyout src _ | copyoutstr src _ _ => src

/-- It copies from user space. -/
def fromUser : CopyCall → Bool
  | copyin _ _ _ | copyinstr _ _ _ => true
  | copyout _ _ | copyoutstr _ _ _ => false

/-- It copies a block. -/
def block : CopyCall → Bool
  | copyin _ _ _ | copyout _ _ => true
  | copyinstr _ _ _ | copyoutstr _ _ _ => false

/-- It touches at most `len` bytes on both sides, those of the user in user space.  A block is
copied as a whole, or not at all with `EFAULT`, or up to a hole. -/
def Bounded (c : CopyCall) (s : UserSpace) (r : List Byte × Option Errno) (s' : UserSpace) : Prop :=
  ∃ n ≤ c.len, Touched c.ptr n s s' ∧ r.1.drop n = c.buf.drop n ∧
    (c.fromUser = true → s'.mem = s.mem) ∧
    (c.block = true → if r.2 = none
      then n = c.len ∧ bytesAt s'.mem c.ptr c.len = some (r.1.take c.len)
      else r.2 = some .efault ∧ (n = 0 ∨ ∃ i, n = i + 1 ∧ s.mem (c.ptr + i) = none))

end CopyCall

theorem touched_note {p : Nat} (s : UserSpace) (out : Bool) : Touched p 0 s (s.note out) :=
  ⟨rfl, nofun, fun _ _ => rfl⟩

theorem Touched.of_note {p n : Nat} {s s' : UserSpace} {out : Bool}
    (h : Touched p n (s.note out) s') : Touched p n s s' := ⟨h.touched, h.user, h.mem⟩

theorem drop_copied {l dest : List Byte} {n : Nat} (h : l.length ≤ n) :
    (l ++ dest.drop l.length).drop n = dest.drop n := by
  rw [drop_append, drop_of_length_le h, drop_drop, nil_append]
  congr 1
  omega

/-- **User copies keep to user space and to their length.** -/
theorem user_copies_bounded (c : CopyCall) (s : UserSpace) (hp : c.ptr < addresses)
    (hlen : c.len < addresses) : Wp False c.run (c.Bounded s) (fun _ _ => False) s := by
  have hno {P : Prop} : false = true → P := fun h => absurd h Bool.false_ne_true
  cases c with
  | copyin p dest len =>
    rw [CopyCall.run, copyinTo, wp_bind, wp_attempt]
    refine (checkBlock_spec hp hlen.le).imp (fun _ s₁ h => ?_) fun e s₁ h => ?_
    · obtain ⟨rfl, -, hlt⟩ := h
      refine (copyBytesIn_spec hlt).bind fun r s' hr => wp_pure.mpr ?_
      obtain ⟨hmem, -, k, hk, htouched, hle, hend⟩ := hr
      refine ⟨k, hk, htouched.of_note, drop_copied hle, fun _ => hmem, fun _ => ?_⟩
      by_cases hfault : r.2 = true
      · rw [if_pos hfault] at hend
        have hend : ∃ i, k = i + 1 ∧ s.mem (p + i) = none := hend.1
        simpa [hfault, CopyCall.ptr] using .inr hend
      · rw [if_neg hfault] at hend
        obtain ⟨rfl, hall, hbytes⟩ := hend
        have hbytes : bytesAt s'.mem p k = some r.1 := hmem ▸ hbytes
        simpa [hfault, CopyCall.len, CopyCall.ptr, hall] using hbytes
    · obtain ⟨-, rfl⟩ := h
      exact wp_pure.mpr ⟨0, Nat.zero_le _, touched_note s _, rfl, fun _ => rfl, fun _ =>
        ⟨rfl, .inl rfl⟩⟩
  | copyout src p =>
    rw [CopyCall.run, wp_bind, wp_attempt, copyout, wp_bind]
    refine (checkBlock_spec hp hlen.le).imp (fun _ s₁ h => ?_) fun e s₁ h => ?_
    · obtain ⟨rfl, -, hlt⟩ := h
      rw [guarded, wp_bind, wp_attempt]
      refine (storeBlock_spec hlt).imp (fun _ s' hs => ?_) fun _ s' he => ?_
      · refine wp_pure.mpr (wp_pure.mpr ⟨_, le_rfl, hs.2.1.of_note, rfl, hno, fun _ => ?_⟩)
        exact ⟨rfl, hs.2.2.trans (congrArg some (take_length).symm)⟩
      · obtain ⟨-, i, hi, htouched, hnone⟩ := he
        exact wp_fail.mpr (wp_pure.mpr ⟨i + 1, hi, htouched.of_note, rfl, hno, fun _ =>
          ⟨rfl, .inr ⟨i, rfl, hnone⟩⟩⟩)
    · obtain ⟨rfl, rfl⟩ := h
      exact wp_pure.mpr ⟨0, Nat.zero_le _, touched_note s _, rfl, hno, fun _ => ⟨rfl, .inl rfl⟩⟩
  | copyinstr p dest len =>
    rw [CopyCall.run, copyinstr, wp_bind, wp_modify]
    cases hc : copycheck p len with
    | error e =>
      exact wp_pure.mpr ⟨0, Nat.zero_le _, touched_note s _, rfl, fun _ => rfl, hno⟩
    | ok stoplen =>
      refine (copystrIn_spec (copycheck_ok hp hlen.le hc).1).bind fun r s' hr => wp_pure.mpr ?_
      obtain ⟨hmem, -, ⟨k, hk, htouched, hle⟩, -⟩ := hr
      exact ⟨k, hk.trans (min_le_left _ _), htouched.of_note, drop_copied hle, fun _ => hmem, hno⟩
  | copyoutstr src p len =>
    rw [CopyCall.run, copyoutstr, wp_bind, wp_bind, wp_modify]
    cases hc : copycheck p len with
    | error e =>
      exact wp_pure.mpr (wp_pure.mpr ⟨0, Nat.zero_le _, touched_note s _, rfl, hno, hno⟩)
    | ok stoplen =>
      refine (copystrOut_spec (copycheck_ok hp hlen.le hc).1).post fun r s' hr => wp_pure.mpr ?_
      obtain ⟨-, k, hk, htouched⟩ := hr
      exact ⟨k, hk.trans (min_le_left _ _), htouched.of_note, rfl, hno, hno⟩

/-- Two bytes below `USERSPACETOP`. -/
theorem user_copies_bounded_top : let c : CopyCall := .copyout [7, 7] 0x7ffffffe
    Wp False c.run (c.Bounded (start fun _ => some 0)) (fun _ _ => False) (start fun _ => some 0) :=
  user_copies_bounded _ _ (by decide) (by decide)

/-! ## 3. Strings -/

/-- The first zero from `p` on is `k` bytes away. -/
def FirstNul (mem : Nat → Option Byte) (p k : Nat) : Prop :=
  mem (p + k) = some 0 ∧ ∀ j < k, mem (p + j) ≠ some 0

theorem firstNul_succ {mem : Nat → Option Byte} {p k : Nat} (h : mem p ≠ some 0) :
    FirstNul mem p (k + 1) ↔ FirstNul mem (p + 1) k := by
  unfold FirstNul
  simp only [Nat.forall_lt_succ_left, Nat.add_assoc, Nat.add_comm 1]
  exact and_congr_right fun _ => and_iff_right h

theorem FirstNul.unique {mem : Nat → Option Byte} {p k k' : Nat} (h : FirstNul mem p k)
    (h' : FirstNul mem p k') : k = k' := by
  rcases Nat.lt_trichotomy k k' with hlt | heq | hgt
  · exact absurd h.1 (h'.2 k hlt)
  · exact heq
  · exact absurd h'.1 (h.2 k' hgt)

theorem copystrIn_string {err : Errno} {n p : Nat} {s : UserSpace}
    (hmapped : ∀ i < n, s.mem (p + i) ≠ none) :
    Wp False (copystrIn err p n) (fun r _ => (∃ k < n, FirstNul s.mem p k ∧ r.1.length = k + 1 ∧
          bytesAt s.mem p (k + 1) = some r.1 ∧ r.2 = none) ∨
        (∀ k < n, s.mem (p + k) ≠ some 0) ∧ r.1.length = n ∧ r.2 = some err)
      (fun _ _ => False) s := by
  induction n generalizing p s with
  | zero => exact wp_pure.mpr (.inr ⟨nofun, rfl, rfl⟩)
  | succ n ih =>
    rw [copystrIn, wp_bind, wp_attempt, wp_userLoad]
    refine ⟨fun b hb => ?_, fun hnone => absurd hnone (hmapped 0 (Nat.succ_pos n))⟩
    rw [wp_ite]
    refine ⟨fun hz => wp_pure.mpr (.inl ⟨0, Nat.succ_pos n, ?_⟩), fun hz => ?_⟩
    · subst hz
      exact ⟨⟨hb, nofun⟩, rfl, by rw [bytesAt, hb]; rfl, rfl⟩
    · have hp : s.mem p ≠ some 0 := fun h0 => hz (Option.some.inj (hb.symm.trans h0))
      have hrest : ∀ i < n, (s.touch p).mem (p + 1 + i) ≠ none := fun i hi => by
        have := hmapped (i + 1) (Nat.succ_lt_succ hi)
        rwa [Nat.add_assoc, Nat.add_comm 1]
      refine (ih hrest).bind fun r s' hr => wp_pure.mpr ?_
      rcases hr with ⟨k, hk, hnul, hlen, hbytes, hr⟩ | ⟨hno, hlen, hr⟩
      · refine .inl ⟨k + 1, Nat.succ_lt_succ hk, (firstNul_succ hp).mpr hnul,
          congrArg (· + 1) hlen, ?_, hr⟩
        have hbytes : bytesAt s.mem (p + 1) (k + 1) = some r.1 := hbytes
        rw [bytesAt, hb, hbytes]
        rfl
      · refine .inr ⟨Nat.forall_lt_succ_left.mpr ⟨hp, fun k hk => ?_⟩, congrArg (· + 1) hlen, hr⟩
        have := hno k hk
        rwa [Nat.add_assoc, Nat.add_comm 1] at this

theorem copycheck_eq {p len : Nat} (h0 : 0 < len) (hwrap : p + len ≤ addresses) :
    copycheck p len = if userspaceTop ≤ p then .error .efault
      else .ok (min len (userspaceTop - p)) := by
  have htop : (p + len + (addresses - 1)) % addresses = p + len - 1 := by
    unfold addresses at *
    omega
  unfold copycheck
  dsimp only
  rw [htop, if_neg (by omega)]
  split_ifs
  · rfl
  · rw [Nat.min_eq_right (by omega)]
  · rw [Nat.min_eq_left (by omega)]

/-- **What `copyinstr` returns**, if there are no holes: the string if it ends in the buffer and in
user space, and else the reason why not. -/
theorem copyinstr_classified {p len : Nat} {dest : List Byte} {s : UserSpace} (h0 : 0 < len)
    (hwrap : p + len ≤ addresses) (hmapped : ∀ a < userspaceTop, s.mem a ≠ none) :
    Wp False (copyinstrGot p dest len) (fun r _ => r.1.drop len = dest.drop len ∧
        (∀ k < len, p + k < userspaceTop → FirstNul s.mem p k → r.2 = .ok (k + 1) ∧
          ∃ str, bytesAt s.mem p (k + 1) = some str ∧ r.1 = str ++ dest.drop (k + 1)) ∧
        ((∀ k < len, p + k < userspaceTop → s.mem (p + k) ≠ some 0) →
          r.2 = .error (if p + len ≤ userspaceTop then .enametoolong else .efault)))
      (fun _ _ => False) s := by
  rw [copyinstrGot, wp_bind, wp_modify, copycheck_eq h0 hwrap]
  by_cases htop : userspaceTop ≤ p
  · rw [if_pos htop]
    refine wp_pure.mpr ⟨rfl, fun k _ hk => absurd hk (by omega), fun _ => ?_⟩
    rw [if_neg (by omega)]
  rw [if_neg htop]
  rw [wp_bind, Nat.min_eq_right (min_le_left _ _)]
  have hfits : ∀ i < min len (userspaceTop - p),
      (s.note (strOut s.mem p len)).mem (p + i) ≠ none := fun i hi => hmapped _ (by omega)
  refine (copystrIn_string hfits).post fun r s' hr => wp_pure.mpr ?_
  rcases hr with ⟨k, hk, hnul, hlen, hbytes, hend⟩ | ⟨hno, hlen, hend⟩
  · refine ⟨drop_copied (by omega), fun k' hk' hlt hnul' => ?_, fun hno => ?_⟩
    · obtain rfl := hnul.unique hnul'
      exact ⟨by rw [hend, hlen]; rfl, r.1, hbytes, by rw [hlen]⟩
    · exact absurd hnul.1 (hno k (by omega) (by omega))
  · refine ⟨drop_copied (by omega), fun k hk hlt hnul => ?_, fun _ => ?_⟩
    · exact absurd hnul.1 (hno k (by omega))
    · rw [hend]
      by_cases hle : p + len ≤ userspaceTop
      · rw [if_pos hle, if_neg (by omega)]
        rfl
      · rw [if_neg hle, if_pos (by omega)]
        rfl

/-- A string that ends at the last byte of user space. -/
theorem copyinstr_classified_last :
    Wp False (copyinstrGot 0x7fffffff [1, 1] 2) (fun r _ => r.2 = .ok 1) (fun _ _ => False)
      (start fun _ => some 0) := by
  refine (copyinstr_classified (by decide) (by decide) fun _ _ => Option.some_ne_none _).post
    fun r _ hr => ?_
  exact (hr.2.1 0 (by decide) (by decide) ⟨rfl, nofun⟩).1

end Os161.User
