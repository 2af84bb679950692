import Mathlib
import TagScript.Numeral.Binary64

/-! Rounding as it is required of floating-point numbers: the result is the nearest of all numbers
that there are, of two equally near ones the one with an even last bit, and infinite only for what
lies at least half a unit beyond the largest number. The algorithm goes by shifts of whole numbers
and meets this requirement. -/
namespace TagScript.Binary64

def size (mantissa : Nat) (exponent : Int) : ℚ :=
  mantissa * 2 ^ exponent

/-- No number of 53 bits is nearer, and none is as near, unless the last bit is 0. -/
structure Nearest (m : Nat) (e : Int) (x : ℚ) : Prop where
  least : ∀ k f, k < 2 * fullMantissa → minExponent ≤ f → |size m e - x| ≤ |size k f - x|
  even : ∀ k f, k < 2 * fullMantissa → minExponent ≤ f → |size m e - x| = |size k f - x| →
    size k f = size m e ∨ m % 2 = 0

/-- What the size `x` is rounded to. A finite number has 53 bits, unless it has the least
exponent. -/
inductive Rounds (negative : Bool) (x : ℚ) : Binary64 → Prop
  | finite {m : Nat} {e : Int} (bits : m < 2 * fullMantissa) (low : minExponent ≤ e)
      (high : e ≤ maxExponent) (full : e = minExponent ∨ fullMantissa ≤ m)
      (nearest : Nearest m e x) : Rounds negative x (finite negative m e)
  | infinite (beyond : (2 * fullMantissa - 1 / 2) * 2 ^ maxExponent ≤ x) :
      Rounds negative x (infinite negative)

theorem size_nonneg (m : Nat) (e : Int) : 0 ≤ size m e := by
  unfold size
  positivity

theorem size_eq_size {m k : Nat} {e f : Int} (le : f ≤ e) (h : m * 2 ^ (e - f).toNat = k) :
    size m e = size k f := by
  have exponent_eq : e = (e - f).toNat + f := by omega
  have unit_eq : (2 : ℚ) ^ e = 2 ^ (e - f).toNat * 2 ^ f := by
    rw [← zpow_natCast, ← zpow_add₀ two_ne_zero, ← exponent_eq]
  rw [size, size, unit_eq, ← h]
  push_cast
  ring

theorem size_lt {k : Nat} {e f : Int} (bits : k < 2 * fullMantissa) (lt : f < e) :
    size k f < fullMantissa * 2 ^ e := by
  have unit_eq : (2 : ℚ) ^ e = 2 * 2 ^ (e - 1) := by
    rw [← zpow_one_add₀ two_ne_zero]
    congr 1
    omega
  calc size k f < (2 * fullMantissa : Nat) * 2 ^ f := by
        rw [size]
        gcongr
    _ ≤ (2 * fullMantissa : Nat) * 2 ^ (e - 1) := by
        gcongr
        · exact one_le_two
        · omega
    _ = fullMantissa * 2 ^ e := by
        rw [unit_eq]
        push_cast
        ring

/-! Rounding to an integer. -/

section RoundEven

variable {num den : Nat}

theorem roundEven_cases (pos : 0 < den) : ∃ left : ℚ, 0 ≤ left ∧
    (num : ℚ) / den = (num / den : Nat) + left ∧
    (roundEven num den = num / den ∧ left ≤ 1 / 2 ∧ (left = 1 / 2 → num / den % 2 = 0) ∨
      roundEven num den = num / den + 1 ∧ 1 / 2 ≤ left ∧ left < 1 ∧
        (left = 1 / 2 → num / den % 2 = 1)) := by
  have den_pos : (0 : ℚ) < den := by exact_mod_cast pos
  have below : num % den < den := Nat.mod_lt _ pos
  have half_iff : ((num % den : Nat) : ℚ) / den = 1 / 2 ↔ 2 * (num % den) = den := by
    rw [div_eq_div_iff den_pos.ne' two_ne_zero, one_mul, mul_comm]
    exact_mod_cast Iff.rfl
  refine ⟨(num % den : Nat) / den, by positivity, ?_, ?_⟩
  · have whole : ((den * (num / den) + num % den : Nat) : ℚ) = num := by rw [Nat.div_add_mod]
    rw [← whole]
    push_cast
    field_simp
  · rw [half_iff, roundEven]
    split
    next down =>
      refine .inl ⟨rfl, ?_, fun tie => by omega⟩
      rw [div_le_div_iff₀ den_pos two_pos]
      exact_mod_cast (by omega : num % den * 2 ≤ 1 * den)
    next up =>
      refine .inr ⟨rfl, ?_, ?_, fun tie => by omega⟩
      · rw [div_le_div_iff₀ two_pos den_pos]
        exact_mod_cast (by omega : 1 * den ≤ num % den * 2)
      · rw [div_lt_one den_pos]
        exact_mod_cast below

theorem abs_roundEven_sub_le (pos : 0 < den) : |(roundEven num den : ℚ) - num / den| ≤ 1 / 2 := by
  obtain ⟨left, nonneg, ratio_eq, ⟨down, le, -⟩ | ⟨up, ge, lt, -⟩⟩ := roundEven_cases pos
  · rw [down, ratio_eq, abs_le]
    constructor <;> linarith
  · rw [up, ratio_eq, abs_le]
    push_cast
    constructor <;> linarith

theorem roundEven_even (pos : 0 < den) (tie : |(roundEven num den : ℚ) - num / den| = 1 / 2) :
    roundEven num den % 2 = 0 := by
  obtain ⟨left, nonneg, ratio_eq, ⟨down, le, even⟩ | ⟨up, ge, lt, odd⟩⟩ := roundEven_cases pos
  · rw [down, ratio_eq, sub_add_cancel_left, abs_neg, abs_of_nonneg nonneg] at tie
    rw [down]
    exact even tie
  · rw [up, ratio_eq] at tie
    push_cast at tie
    rw [add_sub_add_left_eq_sub, abs_of_nonneg (by linarith)] at tie
    have := odd (by linarith)
    omega

end RoundEven

theorem abs_sub_le_of_half {n j : ℤ} {z : ℚ} (near : |n - z| ≤ 1 / 2) : |n - z| ≤ |j - z| ∧
    (|n - z| = |j - z| → j = n ∨ |n - z| = 1 / 2) := by
  by_cases same : j = n
  · rw [same]
    exact ⟨le_refl _, fun _ => .inl rfl⟩
  · have apart : (1 : ℚ) ≤ |(j : ℚ) - n| := by
      have : (1 : ℤ) ≤ |j - n| := Int.one_le_abs (sub_ne_zero.mpr same)
      exact_mod_cast this
    have triangle : |(j : ℚ) - n| ≤ |j - z| + |n - z| := by
      rw [abs_sub_comm (n : ℚ) z]
      exact abs_sub_le _ _ _
    exact ⟨by linarith, fun eq => .inr (by linarith)⟩

/-! Scaling. -/

section Scale

variable {num den : Nat}

theorem scaleDown_pos (pos : 0 < den) (e : Int) : 0 < (scaleDown num den e).2 := by
  change 0 < den <<< e.toNat
  rw [Nat.shiftLeft_eq]
  positivity

theorem ratio_scaleDown (num den : Nat) (e : Int) :
    ((scaleDown num den e).1 : ℚ) / (scaleDown num den e).2 = num / den / 2 ^ e := by
  simp only [scaleDown, Nat.shiftLeft_eq]
  push_cast
  rcases Int.le_total 0 e with up | down
  · obtain ⟨k, rfl⟩ := Int.eq_ofNat_of_zero_le up
    simp [div_div]
  · obtain ⟨k, rfl⟩ := Int.exists_eq_neg_ofNat down
    simp [mul_div_right_comm]

theorem scaleDown_le_iff (pos : 0 < den) (e : Int) :
    (scaleDown num den e).2 ≤ (scaleDown num den e).1 ↔ (2 : ℚ) ^ e ≤ num / den := by
  have scaled_pos : (0 : ℚ) < (scaleDown num den e).2 := by exact_mod_cast scaleDown_pos pos e
  have unit_pos : (0 : ℚ) < 2 ^ e := by positivity
  rw [← one_le_div unit_pos, ← ratio_scaleDown, one_le_div scaled_pos]
  exact_mod_cast Iff.rfl

theorem log2_spec {n : Nat} (pos : 0 < n) :
    (2 : ℚ) ^ (n.log2 : Int) ≤ n ∧ (n : ℚ) < 2 ^ ((n.log2 : Int) + 1) := by
  have upper : n < 2 ^ (n.log2 + 1) := Nat.lt_log2_self
  constructor
  · exact_mod_cast Nat.log2_self_le pos.ne'
  · exact_mod_cast upper

theorem magnitude_spec (num_pos : 0 < num) (den_pos : 0 < den) :
    (2 : ℚ) ^ magnitude num den ≤ num / den ∧ (num : ℚ) / den < 2 ^ (magnitude num den + 1) := by
  obtain ⟨num_ge, num_lt⟩ := log2_spec num_pos
  obtain ⟨den_ge, den_lt⟩ := log2_spec den_pos
  have den_pos' : (0 : ℚ) < den := by exact_mod_cast den_pos
  let k : Int := num.log2 - den.log2
  have below : (2 : ℚ) ^ (k - 1) ≤ num / den := by
    rw [le_div_iff₀ den_pos']
    calc (2 : ℚ) ^ (k - 1) * den
        ≤ 2 ^ (k - 1) * 2 ^ ((den.log2 : Int) + 1) := by gcongr
      _ = 2 ^ (num.log2 : Int) := by
        rw [← zpow_add₀ two_ne_zero]
        congr 1
        omega
      _ ≤ num := num_ge
  have above : (num : ℚ) / den < 2 ^ (k + 1) := by
    rw [div_lt_iff₀ den_pos']
    calc (num : ℚ) < 2 ^ ((num.log2 : Int) + 1) := num_lt
      _ = 2 ^ (k + 1) * 2 ^ (den.log2 : Int) := by
        rw [← zpow_add₀ two_ne_zero]
        congr 1
        omega
      _ ≤ 2 ^ (k + 1) * den := by gcongr
  have magnitude_eq : magnitude num den =
      if (scaleDown num den k).2 ≤ (scaleDown num den k).1 then k else k - 1 := rfl
  rw [magnitude_eq]
  split
  next reaches => exact ⟨(scaleDown_le_iff den_pos k).mp reaches, above⟩
  next short =>
    rw [sub_add_cancel]
    exact ⟨below, not_le.mp (mt (scaleDown_le_iff den_pos k).mpr short)⟩

end Scale

/-! The nearest number. -/

section Round

variable {m : Nat} {e : Int} {x : ℚ}

/-- An integer that is nearest to the size in units of `2 ^ e` gives the nearest number, if the
unit is that of the numbers around `x`. -/
theorem nearest_of_round (near : |(m : ℚ) - x / 2 ^ e| ≤ 1 / 2)
    (even : |(m : ℚ) - x / 2 ^ e| = 1 / 2 → m % 2 = 0)
    (unit : e = minExponent ∨ fullMantissa * 2 ^ e ≤ x) : Nearest m e x := by
  have unit_pos : (0 : ℚ) < 2 ^ e := by positivity
  have distance (z : ℚ) : |z * 2 ^ e - x| = |z - x / 2 ^ e| * 2 ^ e := by
    rw [← abs_of_pos unit_pos, ← abs_mul, abs_of_pos unit_pos]
    congr 1
    field_simp
  have among (j : ℤ) : |size m e - x| ≤ |j * 2 ^ e - x| ∧
      (|size m e - x| = |j * 2 ^ e - x| → (j : ℚ) * 2 ^ e = size m e ∨ m % 2 = 0) := by
    obtain ⟨le, tie⟩ := abs_sub_le_of_half (n := m) (j := j) near
    rw [size, distance, distance]
    refine ⟨mul_le_mul_of_nonneg_right (by exact_mod_cast le) unit_pos.le, fun eq => ?_⟩
    rcases tie (by exact_mod_cast mul_right_cancel₀ unit_pos.ne' eq) with same | half
    · exact .inl (by rw [same, Int.cast_natCast])
    · exact .inr (even (by exact_mod_cast half))
  have compare (k : Nat) (f : Int) (bits : k < 2 * fullMantissa) (low : minExponent ≤ f) :
      |size m e - x| ≤ |size k f - x| ∧
        (|size m e - x| = |size k f - x| → size k f = size m e ∨ m % 2 = 0) := by
    rcases le_or_gt e f with coarse | fine
    · -- the other number is a multiple of the unit
      have multiple := size_eq_size (m := k) coarse rfl
      rw [multiple]
      exact_mod_cast among (k * 2 ^ (f - e).toNat : Nat)
    · -- the other number lies below all that have this unit
      have full : fullMantissa * 2 ^ e ≤ x := unit.resolve_left (by omega)
      have below : size k f < fullMantissa * 2 ^ e := size_lt bits fine
      obtain ⟨le, -⟩ := among fullMantissa
      have lt : |size m e - x| < |size k f - x| := by
        refine lt_of_le_of_lt le ?_
        push_cast
        rw [abs_sub_comm, abs_of_nonneg (by linarith), abs_sub_comm, abs_of_nonneg (by linarith)]
        linarith
      exact ⟨lt.le, fun eq => absurd eq lt.ne⟩
  exact ⟨fun k f bits low => (compare k f bits low).1, fun k f bits low => (compare k f bits low).2⟩

theorem Nearest.congr {k : Nat} {f : Int} (nearest : Nearest m e x) (same : size k f = size m e)
    (parity : k % 2 = m % 2) : Nearest k f x := by
  refine ⟨fun j g bits low => ?_, fun j g bits low => ?_⟩
  · rw [same]
    exact nearest.least j g bits low
  · rw [same, parity]
    exact nearest.even j g bits low

theorem rounds_carry (negative : Bool) (bits : m ≤ 2 * fullMantissa) (low : minExponent ≤ e)
    (near : |(m : ℚ) - x / 2 ^ e| ≤ 1 / 2) (even : |(m : ℚ) - x / 2 ^ e| = 1 / 2 → m % 2 = 0)
    (unit : e = minExponent ∨ fullMantissa * 2 ^ e ≤ x) :
    Rounds negative x (carry negative m e) := by
  have nearest := nearest_of_round near even unit
  have unit_pos : (0 : ℚ) < 2 ^ e := by positivity
  by_cases long : m = 2 * fullMantissa
  · have carry_eq : carry negative m e = if maxExponent < e + 1 then infinite negative
        else finite negative fullMantissa (e + 1) := by
      simp only [carry, long, decide_true, if_true]
    rw [carry_eq]
    split
    next high =>
      refine .infinite ?_
      have ge : (2 * fullMantissa - 1 / 2 : ℚ) ≤ x / 2 ^ e := by
        have := (abs_le.mp near).2
        rw [long] at this
        push_cast at this
        linarith
      calc (2 * fullMantissa - 1 / 2 : ℚ) * 2 ^ maxExponent
          ≤ (2 * fullMantissa - 1 / 2) * 2 ^ e := by
            refine mul_le_mul_of_nonneg_left (zpow_le_zpow_right₀ one_le_two (by omega)) ?_
            norm_num [fullMantissa]
        _ ≤ x := (le_div_iff₀ unit_pos).mp ge
    next inside =>
      refine .finite (by decide) (by omega) (by omega) (.inr le_rfl) (nearest.congr ?_ ?_)
      · refine size_eq_size (by omega) ?_
        rw [long, add_sub_cancel_left, mul_comm]
        rfl
      · rw [long]
        rfl
  · have carry_eq : carry negative m e = if maxExponent < e then infinite negative
        else finite negative m e := by
      simp only [carry, long, decide_false, Bool.false_eq_true, if_false]
    rw [carry_eq]
    split
    next high =>
      have full : fullMantissa * 2 ^ e ≤ x := unit.resolve_left (by
        unfold minExponent maxExponent at *
        omega)
      refine .infinite (le_trans ?_ full)
      calc (2 * fullMantissa - 1 / 2 : ℚ) * 2 ^ maxExponent
          ≤ 2 * fullMantissa * 2 ^ maxExponent := by
            gcongr
            norm_num
        _ = fullMantissa * 2 ^ (maxExponent + 1) := by
            rw [zpow_add_one₀ two_ne_zero]
            ring
        _ ≤ fullMantissa * 2 ^ e := by
            gcongr
            · exact one_le_two
            · omega
    next inside =>
      refine .finite (by omega) low (by omega) (unit.imp id fun full => ?_) nearest
      have ge : (fullMantissa : ℚ) ≤ x / 2 ^ e := (le_div_iff₀ unit_pos).mpr full
      have above : (fullMantissa : ℚ) < (m + 1 : Nat) := by
        push_cast
        linarith [(abs_le.mp near).1]
      exact Nat.lt_succ_iff.mp (by exact_mod_cast above)

/-- The number nearest to a fraction is what the algorithm finds. -/
theorem rounds_ofRatio (negative : Bool) (num : Nat) {den : Nat} (den_pos : 0 < den) :
    Rounds negative (num / den) (ofRatio negative num den) := by
  rcases Nat.eq_zero_or_pos num with rfl | num_pos
  · have nearest : Nearest 0 minExponent 0 := by
      constructor
      · intro k f bits low
        simpa [size] using size_nonneg k f
      · exact fun _ _ _ _ _ => .inr rfl
    simpa [ofRatio, zero] using
      Rounds.finite (by decide) le_rfl (by decide) (.inl rfl) nearest
  · obtain ⟨ge, lt⟩ := magnitude_spec num_pos den_pos
    let e := exponentOf num den
    have scaled_pos : 0 < (scaleDown num den e).2 := scaleDown_pos den_pos e
    have ofRatio_eq : ofRatio negative num den =
        carry negative (roundEven (scaleDown num den e).1 (scaleDown num den e).2) e :=
      if_neg num_pos.ne'
    have near : |(roundEven (scaleDown num den e).1 (scaleDown num den e).2 : ℚ) -
        num / den / 2 ^ e| ≤ 1 / 2 := by
      rw [← ratio_scaleDown]
      exact abs_roundEven_sub_le scaled_pos
    have scaled_lt : (num : ℚ) / den / 2 ^ e < 2 * fullMantissa := by
      rw [div_lt_iff₀ (by positivity)]
      calc (num : ℚ) / den < 2 ^ (magnitude num den + 1) := lt
        _ ≤ 2 ^ (53 + e) := zpow_le_zpow_right₀ one_le_two (by
            have : magnitude num den - 52 ≤ e := le_max_right _ _
            omega)
        _ = 2 * fullMantissa * 2 ^ e := by
            rw [zpow_add₀ two_ne_zero]
            norm_num [fullMantissa]
    rw [ofRatio_eq]
    refine rounds_carry negative ?_ (le_max_left _ _) near ?_ ?_
    · have : ((roundEven (scaleDown num den e).1 (scaleDown num den e).2 : Nat) : ℚ) <
          (2 * fullMantissa + 1 : Nat) := by
        push_cast
        linarith [(abs_le.mp near).2]
      exact Nat.lt_succ_iff.mp (by exact_mod_cast this)
    · rw [← ratio_scaleDown]
      exact roundEven_even scaled_pos
    · refine (max_choice minExponent (magnitude num den - 52)).imp id fun eq => ?_
      have e_eq : magnitude num den = 52 + e := by
        change magnitude num den = 52 + max _ _
        omega
      rw [e_eq, zpow_add₀ two_ne_zero] at ge
      refine le_trans (le_of_eq ?_) ge
      norm_num [fullMantissa]

theorem rounds_div (s t : Bool) (m : Nat) (e : Int) {n : Nat} (f : Int) (pos : 0 < n) :
    Rounds (s ^^ t) (size m e / size n f) ((finite s m e).div (finite t n f)) := by
  have div_eq : (finite s m e).div (finite t n f) =
      ofRatio (s ^^ t) (scaleDown m n (f - e)).1 (scaleDown m n (f - e)).2 :=
    if_neg pos.ne'
  have ratio_eq : size m e / size n f = (scaleDown m n (f - e)).1 / (scaleDown m n (f - e)).2 := by
    rw [ratio_scaleDown, size, size, zpow_sub₀ two_ne_zero]
    field_simp
  rw [div_eq, ratio_eq]
  exact rounds_ofRatio _ _ (scaleDown_pos pos _)

end Round

end TagScript.Binary64
