import Mathlib
import TagScript.Machine.Evaluation
import TagScript.Proofs.Numeral.Nearest

/-! Quotients as operands. The exact quotient is rounded to the nearest number first and its
fraction dropped afterwards; so a quotient just below an integer could come out as that integer. For
integers of at most 53 bits it never does: next to the integer lies a number that is nearer. -/
namespace TagScript.Binary64

variable {m k : Nat} {e f : Int} {x y : ℚ} {negative : Bool}

/-! Numbers around a size. -/

theorem Nearest.eq_of_size (nearest : Nearest m e x) (bits : k < 2 * fullMantissa)
    (low : minExponent ≤ f) (exact : size k f = x) : size m e = x := by
  have := nearest.least k f bits low
  rw [exact, sub_self, abs_zero, abs_nonpos_iff] at this
  exact sub_eq_zero.mp this

theorem Nearest.ge_of_size (nearest : Nearest m e x) (bits : k < 2 * fullMantissa)
    (low : minExponent ≤ f) (le : size k f ≤ x) : size k f ≤ size m e := by
  have := nearest.least k f bits low
  rw [abs_sub_comm (size k f), abs_of_nonneg (sub_nonneg.mpr le)] at this
  linarith [(abs_le.mp this).1]

theorem Nearest.lt_of_size (nearest : Nearest m e x) (bits : k < 2 * fullMantissa)
    (low : minExponent ≤ f) (below : size k f < y) (nearer : 2 * x - size k f < y) :
    size m e < y := by
  have := nearest.least k f bits low
  rcases le_total x (size k f) with up | down
  · rw [abs_of_nonneg (sub_nonneg.mpr up)] at this
    linarith [(abs_le.mp this).2]
  · rw [abs_of_nonpos (sub_nonpos.mpr down)] at this
    linarith [(abs_le.mp this).2]

theorem exists_size_eq {n : Nat} (small : n ≤ 2 ^ 53) :
    ∃ k f, k < 2 * fullMantissa ∧ minExponent ≤ f ∧ size k f = n := by
  rcases small.lt_or_eq with lt | rfl
  · exact ⟨n, 0, lt, by decide, by simp [size]⟩
  · exact ⟨fullMantissa, 1, by decide, by decide, by norm_num [size, fullMantissa]⟩

theorem exists_size_before {n p : Nat} (pos : 0 < n) (fits : n ≤ 2 ^ p) (small : p ≤ 53) :
    ∃ k f, k < 2 * fullMantissa ∧ minExponent ≤ f ∧ size k f = n - 2 ^ p / 2 ^ 53 := by
  have scaled_pos : 0 < n * 2 ^ (53 - p) := by positivity
  have scaled_le : n * 2 ^ (53 - p) ≤ 2 * fullMantissa := by
    calc n * 2 ^ (53 - p) ≤ 2 ^ p * 2 ^ (53 - p) := Nat.mul_le_mul_right _ fits
      _ = 2 * fullMantissa := by
        rw [← pow_add, Nat.add_sub_cancel' small]
        rfl
  refine ⟨n * 2 ^ (53 - p) - 1, (p : Int) - 53, by omega, ?_, ?_⟩
  · unfold minExponent
    omega
  · have unit_eq : (2 : ℚ) ^ ((p : Int) - 53) = 2 ^ p / 2 ^ 53 := by
      rw [zpow_sub₀ two_ne_zero]
      rfl
    have unit_inv : (2 : ℚ) ^ (53 - p) * (2 ^ p / 2 ^ 53) = 1 := by
      rw [← mul_div_assoc, ← pow_add, Nat.sub_add_cancel small]
      norm_num
    rw [size, unit_eq, Nat.cast_sub scaled_pos]
    push_cast
    rw [sub_mul, mul_assoc, unit_inv, mul_one, one_mul]

theorem Rounds.exists_finite {z : Binary64} (rounds : Rounds negative x z) (small : x ≤ 2 ^ 53) :
    ∃ m e, z = Binary64.finite negative m e ∧ Nearest m e x := by
  cases rounds with
  | finite bits low high full nearest => exact ⟨_, _, rfl, nearest⟩
  | infinite beyond =>
    have far : (2 : ℚ) ^ 53 < (2 * fullMantissa - 1 / 2) * 2 ^ maxExponent := by
      have unit_ge : (2 : ℚ) ^ (1 : Int) ≤ 2 ^ maxExponent :=
        zpow_le_zpow_right₀ one_le_two (by decide)
      norm_num [fullMantissa] at unit_ge ⊢
      linarith
    linarith

/-! Integers. -/

theorem ofInt_eq {n : Int} (small : n.natAbs ≤ 2 ^ 53) :
    ∃ m e, ofInt n = finite (n < 0) m e ∧ size m e = n.natAbs := by
  have rounds := rounds_ofRatio (n < 0) n.natAbs one_pos
  rw [Nat.cast_one, div_one] at rounds
  obtain ⟨m, e, ofInt_eq, nearest⟩ := rounds.exists_finite (by exact_mod_cast small)
  obtain ⟨k, f, bits, low, size_eq⟩ := exists_size_eq small
  exact ⟨m, e, ofInt_eq, nearest.eq_of_size bits low size_eq⟩

theorem rounds_quotient {a b : Int64} (a_small : a.toInt.natAbs ≤ 2 ^ 53)
    (b_small : b.toInt.natAbs ≤ 2 ^ 53) (ne : b ≠ 0) :
    Rounds (decide (a.toInt < 0) ^^ decide (b.toInt < 0)) (a.toInt.natAbs / b.toInt.natAbs)
      (quotient a b) := by
  obtain ⟨m, e, a_eq, a_size⟩ := ofInt_eq a_small
  obtain ⟨n, f, b_eq, b_size⟩ := ofInt_eq b_small
  have pos : 0 < n := by
    refine Nat.pos_of_ne_zero fun zero => ne (Int64.toInt_inj.mp ?_)
    rw [zero, size, Nat.cast_zero, zero_mul] at b_size
    exact Int.natAbs_eq_zero.mp (by exact_mod_cast b_size.symm)
  rw [quotient, a_eq, b_eq, ← a_size, ← b_size]
  exact rounds_div _ _ m e f pos

/-! Whole parts. -/

theorem le_wholePart_iff {n : Nat} : n ≤ wholePart m e ↔ (n : ℚ) ≤ size m e := by
  rw [wholePart, Nat.shiftLeft_eq, Nat.shiftRight_eq_div_pow, Nat.le_div_iff_mul_le (by positivity),
    size]
  rcases Int.le_total 0 e with up | down
  · obtain ⟨j, rfl⟩ := Int.eq_ofNat_of_zero_le up
    simp only [Int.toNat_neg_natCast, pow_zero, mul_one, Int.toNat_natCast, zpow_natCast]
    exact_mod_cast Iff.rfl
  · obtain ⟨j, rfl⟩ := Int.exists_eq_neg_ofNat down
    simp only [neg_neg, Int.toNat_natCast, Int.toNat_neg_natCast, pow_zero, mul_one, zpow_neg,
      zpow_natCast]
    rw [← div_eq_mul_inv, le_div_iff₀ (by positivity)]
    exact_mod_cast Iff.rfl

theorem exists_pow_mul_lt {num den : Nat} (small : num ≤ 2 ^ 53) (pos : 0 < den)
    (den_small : den ≤ 2 ^ 53) (fraction : ¬ den ∣ num) :
    ∃ p, p ≤ 53 ∧ num / den < 2 ^ p ∧ 2 ^ p * den < 2 ^ 54 := by
  have reach : 2 ^ (num / den).size * den < 2 ^ 54 := by
    rcases Nat.eq_zero_or_pos (num / den) with zero | whole_pos
    · rw [zero, Nat.size_zero, pow_zero, one_mul]
      omega
    · obtain ⟨j, size_eq⟩ : ∃ j, (num / den).size = j + 1 :=
        Nat.exists_eq_succ_of_ne_zero (Nat.size_pos.mpr whole_pos).ne'
      have pow_le : 2 ^ j ≤ num / den := Nat.lt_size.mp (by omega)
      have whole_lt : num / den * den < num :=
        lt_of_le_of_ne (Nat.div_mul_le_self num den)
          fun eq => fraction ((Nat.dvd_iff_div_mul_eq num den).mpr eq)
      calc 2 ^ (num / den).size * den = 2 * (2 ^ j * den) := by
            rw [size_eq]
            ring
        _ ≤ 2 * (num / den * den) := by gcongr
        _ < 2 ^ 54 := by omega
  refine ⟨(num / den).size, ?_, Nat.lt_size_self _, reach⟩
  have pow_lt : 2 ^ (num / den).size < 2 ^ 54 := (Nat.le_mul_of_pos_right _ pos).trans_lt reach
  exact Nat.lt_succ_iff.mp ((Nat.pow_lt_pow_iff_right (by decide)).mp pow_lt)

/-- Rounding a quotient of integers of 53 bits does not change its whole part. A quotient that is
no integer lies at least `1 / den` below the next one, and that is more than half a step between
the numbers there. -/
theorem wholePart_of_nearest {num den : Nat} (small : num ≤ 2 ^ 53) (pos : 0 < den)
    (den_small : den ≤ 2 ^ 53) (nearest : Nearest m e (num / den)) : wholePart m e = num / den := by
  have den_pos : (0 : ℚ) < den := by exact_mod_cast pos
  obtain ⟨k, f, bits, low, size_eq⟩ :=
    exists_size_eq ((Nat.div_le_self num den).trans small)
  have floor_le : size k f ≤ num / den := by
    rw [size_eq]
    exact Nat.cast_div_le
  refine le_antisymm (Nat.lt_succ_iff.mp (not_le.mp (mt le_wholePart_iff.mp (not_le.mpr ?_))))
    (le_wholePart_iff.mpr (size_eq ▸ nearest.ge_of_size bits low floor_le))
  by_cases whole : den ∣ num
  · have exact : size k f = num / den := by rw [size_eq, Nat.cast_div whole den_pos.ne']
    rw [nearest.eq_of_size bits low exact, ← exact, size_eq]
    exact_mod_cast Nat.lt_succ_self _
  · obtain ⟨p, p_le, fits, reach⟩ := exists_pow_mul_lt small pos den_small whole
    obtain ⟨j, g, before_bits, before_low, before_eq⟩ :=
      exists_size_before (Nat.succ_pos _) fits p_le
    have gap : (num : ℚ) / den ≤ (num / den : Nat) + 1 - 1 / den := by
      have below : num + 1 ≤ (num / den + 1) * den := Nat.mul_comm .. ▸ Nat.lt_mul_div_succ num pos
      rw [div_le_iff₀ den_pos, sub_mul, one_div_mul_cancel den_pos.ne', le_sub_iff_add_le]
      exact_mod_cast below
    have step : (2 : ℚ) ^ p / 2 ^ 53 < 2 / den := by
      rw [div_lt_div_iff₀ (by positivity) den_pos]
      exact_mod_cast (by omega : 2 ^ p * den < 2 * 2 ^ 53)
    have step_pos : (0 : ℚ) < 2 ^ p / 2 ^ 53 := by positivity
    refine nearest.lt_of_size before_bits before_low ?_ ?_
    · rw [before_eq]
      linarith
    · rw [before_eq]
      push_cast
      have : (2 : ℚ) / den = 2 * (1 / den) := by ring
      linarith

/-! Truncated quotients. -/

theorem toInt_truncate {n : Nat} (small : n ≤ 2 ^ 53) (whole : wholePart m e = n) :
    (finite negative m e).truncate.toInt = if negative then -(n : Int) else n := by
  have toInt_saturate (n : Int) (low : -2 ^ 53 ≤ n) (high : n ≤ 2 ^ 53) :
      (Integer.saturate n).toInt = n := by
    have inside : max Integer.smallest (min Integer.largest n) = n := by
      simp only [Integer.smallest, Integer.largest]
      omega
    rw [Integer.saturate, inside]
    exact Int64.toInt_ofInt_of_le (by omega) (by omega)
  rw [truncate, whole, toInt_saturate]
  all_goals split <;> omega

theorem tdiv_eq (a b : Int) : a.tdiv b =
    if decide (a < 0) ^^ decide (b < 0) then -((a.natAbs / b.natAbs : Nat) : Int)
    else (a.natAbs / b.natAbs : Nat) := by
  cases a <;> cases b <;>
    simp [Int.tdiv, Int.natAbs, Int.negSucc_lt_zero, (Int.natCast_nonneg _).not_gt]

/-- Dropping the fraction of the number nearest to a quotient gives the quotient without its
fraction. -/
theorem truncate_of_rounds {a b : Int} {z : Binary64} (a_small : a.natAbs ≤ 2 ^ 53)
    (b_small : b.natAbs ≤ 2 ^ 53) (ne : b ≠ 0)
    (rounds : Rounds (decide (a < 0) ^^ decide (b < 0)) (a.natAbs / b.natAbs) z) :
    z.truncate.toInt = a.tdiv b := by
  have pos : 0 < b.natAbs := Int.natAbs_pos.mpr ne
  have small : (a.natAbs : ℚ) / b.natAbs ≤ 2 ^ 53 :=
    (div_le_self (by positivity) (by exact_mod_cast pos)).trans (by exact_mod_cast a_small)
  obtain ⟨m, e, rfl, nearest⟩ := rounds.exists_finite small
  have whole := wholePart_of_nearest a_small pos b_small nearest
  rw [toInt_truncate ((Nat.div_le_self _ _).trans a_small) whole, tdiv_eq]

/-- The quotient of two integers of 53 bits is the number nearest to their exact quotient; as an
operand it counts as the exact quotient without its fraction, never as one more. -/
theorem truncated_quotient {a b : Int64} (a_small : a.toInt.natAbs ≤ 2 ^ 53)
    (b_small : b.toInt.natAbs ≤ 2 ^ 53) (ne : b ≠ 0) :
    Rounds (decide (a.toInt < 0) ^^ decide (b.toInt < 0)) (a.toInt.natAbs / b.toInt.natAbs)
      (quotient a b) ∧
    ∃ q : Int64, q.toInt = a.toInt.tdiv b.toInt ∧
      (Value.real (quotient a b)).toInteger? = some q ∧
      ∀ (σ : SymbolTable) (left right : Expr) (span : Span),
        σ.evalInteger left = .ok a → σ.evalInteger right = .ok b →
          σ.eval (.binary left .divide right span) = .ok (.real (quotient a b)) ∧
            σ.evalInteger (.binary left .divide right span) = .ok q := by
  have rounds := rounds_quotient a_small b_small ne
  have nonzero : b.toInt ≠ 0 := fun zero => ne (Int64.toInt_inj.mp zero)
  refine ⟨rounds, (quotient a b).truncate, truncate_of_rounds a_small b_small nonzero rounds, rfl,
    fun σ left right span a_eq b_eq => ?_⟩
  have apply_eq : BinaryOp.apply span a .divide b = .ok (.real (quotient a b)) := if_neg ne
  have eval_eq : σ.eval (.binary left .divide right span) = .ok (.real (quotient a b)) := by
    rw [SymbolTable.eval_binary, a_eq, b_eq]
    exact apply_eq
  refine ⟨eval_eq, ?_⟩
  rw [SymbolTable.evalInteger, eval_eq]
  rfl

/-- A quotient a third below an integer, where the numbers are half a unit apart. -/
theorem truncated_quotient_thirds :
    (9007199254740992 : Int64).toInt.natAbs ≤ 2 ^ 53 ∧ (-3 : Int64).toInt.natAbs ≤ 2 ^ 53 ∧
      (-3 : Int64) ≠ 0 ∧
      ∃ (q : Int64) (left right : Expr), q.toInt = -3002399751580330 ∧
        SymbolTable.evalInteger ∅ left = .ok 9007199254740992 ∧
        SymbolTable.evalInteger ∅ right = .ok (-3) ∧
        SymbolTable.evalInteger ∅ (.binary left .divide right ⟨0, 26⟩) = .ok q := by
  have a_small : (9007199254740992 : Int64).toInt.natAbs ≤ 2 ^ 53 := by decide
  have b_small : (-3 : Int64).toInt.natAbs ≤ 2 ^ 53 := by decide
  have ne : (-3 : Int64) ≠ 0 := by decide
  obtain ⟨-, q, toInt_eq, -, operand⟩ := truncated_quotient a_small b_small ne
  let left : Expr := .integer 9007199254740992 ⟨0, 16⟩
  let right : Expr := .binary (.integer 0 ⟨20, 21⟩) .subtract (.integer 3 ⟨24, 25⟩) ⟨19, 26⟩
  have left_eq : SymbolTable.evalInteger ∅ left = .ok 9007199254740992 := rfl
  have right_eq : SymbolTable.evalInteger ∅ right = .ok (-3) := rfl
  exact ⟨a_small, b_small, ne, q, left, right, toInt_eq, left_eq, right_eq,
    (operand ∅ left right ⟨0, 26⟩ left_eq right_eq).2⟩

end TagScript.Binary64
