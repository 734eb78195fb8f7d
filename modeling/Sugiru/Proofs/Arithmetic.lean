import Sugiru.Proofs.Returns
import Mathlib.Data.Int.ModEq

/-!
# Integer arithmetic is two's-complement arithmetic on 64-bit words

The evaluator's integer operators compute on whole integers and then wrap the result into
the signed 64-bit range `-2 ^ 63 .. 2 ^ 63 - 1` (`wrapInt64`); `/` divides the magnitudes
and restores the sign (`truncatedDiv`). Wrapping is the balanced remainder modulo `2 ^ 64`,
so it gives the one integer of the range congruent to its argument, and it is what reading
back the 64-bit word of an integer gives. Hence, on integers of the range, every operator
is the word operation read back as a signed integer: `+`, `-` and `*` wrap around, `/`
truncates toward zero, so that the least integer divided by `-1` is itself, comparisons are
signed, and negation wraps, so that the least integer is its own negation. Division by
zero is the one fault an integer operator raises.

Main results:

* `wrapInt64_eq_iff`: wrapping gives the one integer of the range congruent to the given
  one modulo `2 ^ 64`.
* `wrapInt64_eq_toInt`: wrapping is reading back the 64-bit word of an integer.
* `Expr.eval_binary_run`: a binary node applies its operator to its operands' values,
  and raises a division by zero where the operator gives nothing.
* `WordArithmetic`, `InfixOp.apply_ints_twosComplement`: on integers of the range, each
  operator computes the word operation.
-/

namespace Sugiru

/-! ## Wrapping -/

/-- Wrapping is the balanced remainder modulo `2 ^ 64`: the remainder itself below
    `2 ^ 63`, the remainder less `2 ^ 64` from there on. -/
theorem wrapInt64_eq_bmod (v : Int) : wrapInt64 v = v.bmod (2 ^ 64) := by
  have hm : ((2 ^ 64 : Nat) : Int) = int64Modulus := by decide
  have hs : (int64Modulus + 1) / 2 = int64Sign := by decide
  rw [Int.bmod_def, hm, hs, wrapInt64]
  by_cases h : v % int64Modulus < int64Sign
  · rw [if_pos h, if_neg (Int.not_le.2 h)]
  · rw [if_neg h, if_pos (Int.not_lt.1 h)]

/-- Wrapping an integer reads back its 64-bit word as a signed integer. -/
theorem wrapInt64_eq_toInt (v : Int) : wrapInt64 v = (BitVec.ofInt 64 v).toInt := by
  rw [BitVec.toInt_ofInt, wrapInt64_eq_bmod]

/-- A wrapped integer lies in the signed 64-bit range. -/
theorem wrapInt64_range (v : Int) : -2 ^ 63 ≤ wrapInt64 v ∧ wrapInt64 v ≤ 2 ^ 63 - 1 := by
  have hlo := Int.le_bmod (x := v) (m := 2 ^ 64) (by decide)
  have hhi := Int.bmod_lt (x := v) (m := 2 ^ 64) (by decide)
  rw [wrapInt64_eq_bmod]
  push_cast at hlo hhi ⊢
  omega

/-- An integer of the range is its own wrap. -/
theorem wrapInt64_of_range {v : Int} (h : -2 ^ 63 ≤ v ∧ v ≤ 2 ^ 63 - 1) : wrapInt64 v = v := by
  rw [wrapInt64_eq_bmod]
  exact Int.bmod_eq_of_le (by push_cast; omega) (by push_cast; omega)

/-- The word of an integer of the range reads back as the integer. -/
theorem toInt_ofInt_of_range {v : Int} (h : -2 ^ 63 ≤ v ∧ v ≤ 2 ^ 63 - 1) :
    (BitVec.ofInt 64 v).toInt = v := by
  rw [← wrapInt64_eq_toInt, wrapInt64_of_range h]

/-- Wrapping gives the one integer of the signed 64-bit range that is congruent to its
    argument modulo `2 ^ 64`. -/
theorem wrapInt64_eq_iff (v w : Int) :
    wrapInt64 v = w ↔ -2 ^ 63 ≤ w ∧ w ≤ 2 ^ 63 - 1 ∧ w ≡ v [ZMOD 2 ^ 64] := by
  constructor
  · rintro rfl
    refine ⟨(wrapInt64_range v).1, (wrapInt64_range v).2, ?_⟩
    show wrapInt64 v % 2 ^ 64 = v % 2 ^ 64
    rw [wrapInt64_eq_bmod]
    exact_mod_cast Int.bmod_emod
  · rintro ⟨hlo, hhi, hw⟩
    -- both wraps read only the remainder modulo `2 ^ 64`, and `w` is its own wrap
    rw [← wrapInt64_of_range ⟨hlo, hhi⟩, wrapInt64, wrapInt64,
      show w % int64Modulus = v % int64Modulus from hw]

/-- Division of the magnitudes with the sign restored is division truncating toward zero. -/
theorem truncatedDiv_eq_tdiv (a b : Int) : truncatedDiv a b = a.tdiv b := by
  have hnat (n : Nat) : decide ((n : Int) < 0) = false := decide_eq_false (by omega)
  have hneg (n : Nat) : decide (Int.negSucc n < 0) = true :=
    decide_eq_true (Int.negSucc_lt_zero n)
  -- the four sign cases of both definitions
  rcases a with m | m <;> rcases b with n | n <;>
    simp only [truncatedDiv, Int.tdiv, Int.ofNat_eq_natCast, hnat, hneg, Int.natAbs_natCast,
      Int.natAbs_negSucc, if_true] <;> rfl

/-! ## The operators on words -/

/-- For all integers, the wrapped sum, difference, product and negation are the word
    operations read back. -/
theorem wrapInt64_add (a b : Int) :
    wrapInt64 (a + b) = (BitVec.ofInt 64 a + BitVec.ofInt 64 b).toInt := by
  rw [wrapInt64_eq_toInt, BitVec.ofInt_add]

theorem wrapInt64_sub (a b : Int) :
    wrapInt64 (a - b) = (BitVec.ofInt 64 a - BitVec.ofInt 64 b).toInt := by
  rw [wrapInt64_eq_toInt, Int.sub_eq_add_neg, BitVec.ofInt_add, BitVec.ofInt_neg,
    BitVec.sub_eq_add_neg]

theorem wrapInt64_mul (a b : Int) :
    wrapInt64 (a * b) = (BitVec.ofInt 64 a * BitVec.ofInt 64 b).toInt := by
  rw [wrapInt64_eq_toInt, BitVec.ofInt_mul]

theorem wrapInt64_neg (a : Int) : wrapInt64 (-a) = (-BitVec.ofInt 64 a).toInt := by
  rw [wrapInt64_eq_toInt, BitVec.ofInt_neg]

section Range

variable {a b : Int}

/-- On integers of the range, the wrapped truncated quotient is the signed word quotient. -/
theorem wrapInt64_truncatedDiv (ha : -2 ^ 63 ≤ a ∧ a ≤ 2 ^ 63 - 1)
    (hb : -2 ^ 63 ≤ b ∧ b ≤ 2 ^ 63 - 1) :
    wrapInt64 (truncatedDiv a b) = ((BitVec.ofInt 64 a).sdiv (BitVec.ofInt 64 b)).toInt := by
  rw [BitVec.toInt_sdiv, toInt_ofInt_of_range ha, toInt_ofInt_of_range hb,
    truncatedDiv_eq_tdiv, wrapInt64_eq_bmod]

/-- Two integers of the range compare as their words do, signed. -/
theorem decide_lt_eq_slt (ha : -2 ^ 63 ≤ a ∧ a ≤ 2 ^ 63 - 1)
    (hb : -2 ^ 63 ≤ b ∧ b ≤ 2 ^ 63 - 1) :
    decide (a < b) = (BitVec.ofInt 64 a).slt (BitVec.ofInt 64 b) := by
  rw [Bool.eq_iff_iff, decide_eq_true_iff, BitVec.slt_iff_toInt_lt, toInt_ofInt_of_range ha,
    toInt_ofInt_of_range hb]

/-- Two integers of the range are equal exactly when their words are. -/
theorem decide_eq_eq_beq (ha : -2 ^ 63 ≤ a ∧ a ≤ 2 ^ 63 - 1)
    (hb : -2 ^ 63 ≤ b ∧ b ≤ 2 ^ 63 - 1) :
    decide (a = b) = (BitVec.ofInt 64 a == BitVec.ofInt 64 b) := by
  rw [Bool.eq_iff_iff, decide_eq_true_iff, beq_iff_eq, ← BitVec.toInt_inj,
    toInt_ofInt_of_range ha, toInt_ofInt_of_range hb]

end Range

/-! ## Binary nodes -/

/-- A binary node whose operands give `lv` and then `rv` applies its operator to them,
    and raises a division by zero where the operator gives nothing. -/
theorem Expr.eval_binary_run {d sc : Nat} {op : InfixOp} {l r : Expr} {σ σ₁ σ₂ : Store}
    {lv rv : Option Value} (hl : (Expr.eval d sc l).run.run σ = (.ok lv, σ₁))
    (hr : (Expr.eval d sc r).run.run σ₁ = (.ok rv, σ₂)) :
    (Expr.eval d sc (.binary op l r)).run.run σ =
      ((match op.apply lv rv with
        | some v => .ok (some v)
        | none => .error (.divByZero (.binary op l r))), σ₂) := by
  rw [Expr.eval, Eval.run_bind, hl]
  simp only [Eval.run_bind, hr]
  cases op.apply lv rv <;> rfl

/-! ## Integer operators are word operations -/

/-- On the integers `a` and `b`, each integer operator is the 64-bit word operation on
    `BitVec.ofInt 64 a` and `BitVec.ofInt 64 b`, read back as a signed integer; a
    division raises its fault exactly when `b` is zero. -/
structure WordArithmetic (a b : Int) : Prop where
  add : InfixOp.add.apply (some (.int a)) (some (.int b)) =
    some (.int (BitVec.ofInt 64 a + BitVec.ofInt 64 b).toInt)
  sub : InfixOp.sub.apply (some (.int a)) (some (.int b)) =
    some (.int (BitVec.ofInt 64 a - BitVec.ofInt 64 b).toInt)
  mul : InfixOp.mul.apply (some (.int a)) (some (.int b)) =
    some (.int (BitVec.ofInt 64 a * BitVec.ofInt 64 b).toInt)
  div : ∀ (d sc : Nat) (l r : Expr) (σ σ₁ σ₂ : Store),
    (Expr.eval d sc l).run.run σ = (.ok (some (.int a)), σ₁) →
    (Expr.eval d sc r).run.run σ₁ = (.ok (some (.int b)), σ₂) →
    (Expr.eval d sc (.binary .div l r)).run.run σ =
      (if b = 0 then .error (.divByZero (.binary .div l r))
        else .ok (some (.int ((BitVec.ofInt 64 a).sdiv (BitVec.ofInt 64 b)).toInt)), σ₂)
  lt : InfixOp.lt.apply (some (.int a)) (some (.int b)) =
    some (.bool ((BitVec.ofInt 64 a).slt (BitVec.ofInt 64 b)))
  gt : InfixOp.gt.apply (some (.int a)) (some (.int b)) =
    some (.bool ((BitVec.ofInt 64 b).slt (BitVec.ofInt 64 a)))
  eq : InfixOp.eq.apply (some (.int a)) (some (.int b)) =
    some (.bool (BitVec.ofInt 64 a == BitVec.ofInt 64 b))
  ne : InfixOp.ne.apply (some (.int a)) (some (.int b)) =
    some (.bool (BitVec.ofInt 64 a != BitVec.ofInt 64 b))
  neg : PrefixOp.neg.apply (some (.int a)) = .int (-BitVec.ofInt 64 a).toInt

/-- Integer operators on integers of the signed 64-bit range are two's-complement
    operations on their 64-bit words, and wrapping puts any integer into the range as the
    integer of the range congruent to it modulo `2 ^ 64`. -/
theorem InfixOp.apply_ints_twosComplement (a b : Int) (ha : -2 ^ 63 ≤ a ∧ a ≤ 2 ^ 63 - 1)
    (hb : -2 ^ 63 ≤ b ∧ b ≤ 2 ^ 63 - 1) :
    WordArithmetic a b ∧
      ∀ v w : Int, wrapInt64 v = w ↔ -2 ^ 63 ≤ w ∧ w ≤ 2 ^ 63 - 1 ∧ w ≡ v [ZMOD 2 ^ 64] := by
  refine ⟨⟨?add, ?sub, ?mul, ?div, ?lt, ?gt, ?eq, ?ne, ?neg⟩, wrapInt64_eq_iff⟩
  case add => exact congrArg (fun c => some (Value.int c)) (wrapInt64_add a b)
  case sub => exact congrArg (fun c => some (Value.int c)) (wrapInt64_sub a b)
  case mul => exact congrArg (fun c => some (Value.int c)) (wrapInt64_mul a b)
  case div =>
    intro d sc l r σ σ₁ σ₂ hl hr
    rw [Expr.eval_binary_run hl hr]
    by_cases h0 : b = 0
    · simp only [InfixOp.apply, InfixOp.applyInt, if_pos h0]
    · simp only [InfixOp.apply, InfixOp.applyInt, if_neg h0, wrapInt64_truncatedDiv ha hb]
  case lt => exact congrArg (fun c => some (Value.bool c)) (decide_lt_eq_slt ha hb)
  case gt => exact congrArg (fun c => some (Value.bool c)) (decide_lt_eq_slt hb ha)
  case eq => exact congrArg (fun c => some (Value.bool c)) (decide_eq_eq_beq ha hb)
  case ne => exact congrArg (fun c => some (Value.bool !c)) (decide_eq_eq_beq ha hb)
  case neg => exact congrArg Value.int (wrapInt64_neg a)

/-- The least integer divided by `-1`, where the quotient leaves the range and wraps. -/
theorem InfixOp.apply_ints_least_by_minus_one :
    ((-2 ^ 63 ≤ (-2 ^ 63 : Int) ∧ (-2 ^ 63 : Int) ≤ 2 ^ 63 - 1) ∧
      (-2 ^ 63 ≤ (-1 : Int) ∧ (-1 : Int) ≤ 2 ^ 63 - 1)) ∧ WordArithmetic (-2 ^ 63) (-1) ∧
      ∀ v w : Int, wrapInt64 v = w ↔ -2 ^ 63 ≤ w ∧ w ≤ 2 ^ 63 - 1 ∧ w ≡ v [ZMOD 2 ^ 64] :=
  ⟨⟨by decide, by decide⟩, InfixOp.apply_ints_twosComplement (-2 ^ 63) (-1) (by decide) (by decide)⟩

-- the least integer divided by `-1`, and negated, is itself
example : InfixOp.div.applyInt (-2 ^ 63) (-1) = some (.int (-2 ^ 63)) := by
  rfl

example : PrefixOp.neg.apply (some (.int (-2 ^ 63))) = .int (-2 ^ 63) := by
  rfl

end Sugiru
