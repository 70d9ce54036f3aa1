/-
# `common/libc/printf/__printf.c`: numbers as text

`__pf_printnum` writes the digits of a number from right to left into a buffer on the stack.  In the
model a store in front of the buffer stops the machine; it never comes to that, and the text reads
as the number.
-/
import Mathlib.Data.Nat.Digits.Lemmas

namespace Os161

/-- `INTSZ`, `LONGSZ` and `LLONGSZ`. -/
inductive IntSize
  | int | long | llong
  deriving DecidableEq

/-- `PF`, as far as a number is concerned. -/
structure Pf where
  size : IntSize
  num : BitVec 64
  sign : Bool
  base : Nat
  baseprefix : Bool

/-- `__pf_getnum` for the argument `arg`; an `int`, a `long` and a pointer have 32 bits. -/
def pfGetnum (pf : Pf) (ch : Char) (arg : BitVec 64) : Pf :=
  if ch = 'p' then { pf with num := (arg.setWidth 32).setWidth 64 }
  else if ch = 'd' then
    let signednum := if pf.size = .llong then arg else (arg.setWidth 32).signExtend 64
    if signednum.toInt < 0 then { pf with sign := true, num := -signednum }
    else { pf with num := signednum }
  else { pf with num := if pf.size = .llong then arg else (arg.setWidth 32).setWidth 64 }

/-- `NUMBER_BUF_SIZE`. -/
def numberBufSize : Nat := 64 / 3 + 2

/-- The digit that `__pf_printnum` prints for `d`. -/
def pfDigit (d : Nat) : Char := "0123456789abcdef".toList.getD d '0'

/-- The loop of `__pf_printnum`, with `x` slots in front of the text that is there already. -/
def digitLoop (base : Nat) : Nat → Nat → List Char → Option (List Char)
  | 0, _, _ => none
  | x + 1, xnum, text =>
    if xnum / base > 0 then digitLoop base x (xnum / base) (pfDigit (xnum % base) :: text)
    else some (pfDigit (xnum % base) :: text)

/-- `__pf_printnum`: the sign prefix, the base prefix and the digits, as `__pf_printstuff` gets
them.  The last slot of the buffer is for the terminator. -/
def pfPrintnum (pf : Pf) : Option (List Char × List Char × List Char) := do
  let x ← digitLoop pf.base (numberBufSize - 1) pf.num.toNat []
  let bprefix := if pf.baseprefix ∧ pf.base = 16 then ['0', 'x']
    else if pf.baseprefix ∧ pf.base = 8 then ['0'] else []
  pure (if pf.sign then ['-'] else [], bprefix, x)

/-- The digit that a character stands for: `'0'` to `'9'`, and `'a'` to `'f'` from ten on. -/
def digitOf (c : Char) : Nat := if c.isDigit then c.toNat - '0'.toNat else c.toNat - 'a'.toNat + 10

/-- `text` is `n` written in `base`, with no zero in front of other digits. -/
structure Spells (base n : Nat) (text : List Char) : Prop where
  digit : ∀ c ∈ text, c.isDigit ∨ 'a' ≤ c ∧ c ≤ 'f'
  lt : ∀ c ∈ text, digitOf c < base
  value : Nat.ofDigits base (text.reverse.map digitOf) = n
  nonempty : text ≠ []
  front : text.head? = some '0' → text = ['0']

variable {base : Nat}

theorem digitLoop_eq (hbase : 1 < base) : ∀ {x n : Nat} (text : List Char), 0 < n → n < base ^ x →
    digitLoop base x n text = some ((base.digits n).reverse.map pfDigit ++ text)
  | 0, n, _, hpos, hn => by simp at hn; omega
  | x + 1, n, text, hpos, hn => by
    rw [digitLoop, Nat.digits_def' hbase hpos]
    split_ifs with h
    · rw [digitLoop_eq hbase _ h (Nat.div_lt_of_lt_mul (by rwa [← pow_succ']))]
      simp
    · rw [Nat.eq_zero_of_not_pos h]
      simp

theorem pfDigit_spec : ∀ d < 16, ((pfDigit d).isDigit ∨ 'a' ≤ pfDigit d ∧ pfDigit d ≤ 'f') ∧
    digitOf (pfDigit d) = d ∧ (pfDigit d = '0' → d = 0) := by decide

/-- The text of a number's digits spells it. -/
theorem spells_digits (hbase : 1 < base) (hle : base ≤ 16) {n : Nat} (hpos : 0 < n) :
    Spells base n ((base.digits n).reverse.map pfDigit) := by
  have hlt : ∀ d ∈ base.digits n, d < base := fun d => Nat.digits_lt_base hbase
  have hspec : ∀ d ∈ base.digits n, _ := fun d hd => pfDigit_spec d ((hlt d hd).trans_le hle)
  have hnil : base.digits n ≠ [] := Nat.digits_ne_nil_iff_ne_zero.mpr hpos.ne'
  constructor
  · simpa using fun d hd => (hspec d hd).1
  · simpa using fun d hd => (hspec d hd).2.1.trans_lt (hlt d hd)
  · have hmap : (base.digits n).map (digitOf ∘ pfDigit) = base.digits n :=
      (List.map_congr_left fun d hd => (hspec d hd).2.1).trans (List.map_id _)
    rw [← List.map_reverse, List.reverse_reverse, List.map_map, hmap, Nat.ofDigits_digits]
  · simpa using hnil
  · rw [List.head?_map, List.head?_reverse, List.getLast?_eq_getLast_of_ne_nil hnil]
    intro h0
    have hzero := (hspec _ (List.getLast_mem hnil)).2.2 (Option.some.inj h0)
    exact absurd hzero (Nat.getLast_digit_ne_zero base hpos.ne')

/-- A loop with room for a number spells it. -/
theorem digitLoop_spells (hbase : 1 < base) (hle : base ≤ 16) {x n : Nat}
    (hn : n < base ^ (x + 1)) :
    ∃ text, digitLoop base (x + 1) n [] = some text ∧ Spells base n text := by
  rcases Nat.eq_zero_or_pos n with rfl | hpos
  · refine ⟨['0'], by simp [digitLoop, pfDigit], ?_, ?_, rfl, List.cons_ne_nil _ _, fun _ => rfl⟩
    all_goals
      intro c hc
      rw [List.mem_singleton.mp hc]
    · exact .inl rfl
    · exact Nat.zero_lt_of_lt hbase
  · exact ⟨_, (digitLoop_eq hbase [] hpos hn).trans (by rw [List.append_nil]),
      spells_digits hbase hle hpos⟩

/-- The printing of a number in the bases there are. -/
theorem pfPrintnum_spells {pf : Pf} (hbase : pf.base = 8 ∨ pf.base = 10 ∨ pf.base = 16) :
    ∃ bprefix x, pfPrintnum pf = some (if pf.sign then ['-'] else [], bprefix, x) ∧
      Spells pf.base pf.num.toNat x := by
  have hroom : pf.num.toNat < pf.base ^ 22 := by
    refine pf.num.isLt.trans_le (le_trans ?_ (Nat.pow_le_pow_left (by omega : 8 ≤ pf.base) 22))
    decide
  obtain ⟨x, hrun, hx⟩ := digitLoop_spells (by omega) (by omega) hroom
  exact ⟨_, x, by rw [pfPrintnum, numberBufSize, hrun]; rfl, hx⟩

/-- The absolute value is kept, also that of the most negative number. -/
theorem toNat_of_toInt (arg : BitVec 64) :
    (if arg.toInt < 0 then -arg else arg).toNat = arg.toInt.natAbs := by
  have hlt := arg.isLt
  have hint := arg.toInt_eq_toNat_cond
  split_ifs at hint ⊢
  all_goals try rw [BitVec.toNat_neg]
  all_goals omega

/-- **The text is the number.**  In the bases there are, no store misses the buffer and the digits
spell the value; for `%lld` the sign and the digits are the argument. -/
theorem printnum_exact {pf : Pf} (hbase : pf.base = 8 ∨ pf.base = 10 ∨ pf.base = 16) :
    (∃ bprefix x, pfPrintnum pf = some (if pf.sign then ['-'] else [], bprefix, x) ∧
      Spells pf.base pf.num.toNat x) ∧
    (pf.size = .llong → pf.sign = false → ∀ arg : BitVec 64, ∃ bprefix x,
      pfPrintnum (pfGetnum pf 'd' arg) =
        some (if arg.toInt < 0 then ['-'] else [], bprefix, x) ∧
      Spells pf.base arg.toInt.natAbs x) := by
  refine ⟨pfPrintnum_spells hbase, fun hsize hsign arg => ?_⟩
  have hget : pfGetnum pf 'd' arg = { pf with
      sign := decide (arg.toInt < 0), num := if arg.toInt < 0 then -arg else arg } := by
    simp only [pfGetnum, hsize]
    split_ifs <;> simp_all
  obtain ⟨b, x, hrun, hx⟩ := @pfPrintnum_spells (pfGetnum pf 'd' arg) (hget ▸ hbase)
  rw [hget] at hrun hx ⊢
  rw [toNat_of_toInt] at hx
  exact ⟨b, x, by simpa using hrun, hx⟩

theorem printnum_exact_min : ∃ bprefix x,
    pfPrintnum (pfGetnum ⟨.llong, 0, false, 10, false⟩ 'd' (BitVec.intMin 64)) =
      some (['-'], bprefix, x) ∧ Spells 10 (2 ^ 63) x :=
  (@printnum_exact ⟨.llong, 0, false, 10, false⟩ (.inr (.inl rfl))).2 rfl rfl _

end Os161
