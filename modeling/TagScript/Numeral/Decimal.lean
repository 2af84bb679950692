/-! Decimal digits of natural numbers and integers, most significant first. -/
namespace TagScript.Decimal

def digit (n : Nat) : Char :=
  Char.ofNat (48 + n)

def digits (n : Nat) : List Char :=
  if n < 10 then [digit n] else digits (n / 10) ++ [digit (n % 10)]

def isDigit (c : Char) : Bool :=
  48 ≤ c.toNat && c.toNat ≤ 57

def value (row : List Char) : Nat :=
  row.foldl (fun sum c => 10 * sum + (c.toNat - 48)) 0

def ofNat (n : Nat) : String :=
  String.ofList (digits n)

def ofInt : Int → String
  | .ofNat n => ofNat n
  | .negSucc n => "-" ++ ofNat (n + 1)

theorem value_append_singleton (row : List Char) (c : Char) :
    value (row ++ [c]) = 10 * value row + (c.toNat - 48) := by
  simp [value]

theorem toNat_digit {n : Nat} (h : n < 10) : (digit n).toNat = 48 + n := by
  have : ∀ k < 10, (digit k).toNat = 48 + k := by decide
  exact this n h

theorem isDigit_digit {n : Nat} (h : n < 10) : isDigit (digit n) = true := by
  simp [isDigit, toNat_digit h]
  omega

theorem digits_ne_nil (n : Nat) : digits n ≠ [] := by
  rw [digits]
  split <;> simp

@[simp] theorem value_digits (n : Nat) : value (digits n) = n := by
  fun_induction digits n with
  | case1 n h => simp [value, toNat_digit h]
  | case2 n h ih =>
    rw [value_append_singleton, ih, toNat_digit (Nat.mod_lt n (by decide))]
    omega

theorem all_isDigit_digits (n : Nat) : (digits n).all isDigit = true := by
  fun_induction digits n with
  | case1 n h => simp [isDigit_digit h]
  | case2 n h ih =>
    simp only [List.all_append, ih, Bool.true_and, List.all_cons, List.all_nil, Bool.and_true]
    exact isDigit_digit (Nat.mod_lt n (by decide))

end TagScript.Decimal
