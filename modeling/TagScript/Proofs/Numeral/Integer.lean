import TagScript.Numeral.Integer

/-! Rows of digits without a sign, read as integers and written from them. -/
namespace TagScript.Integer

theorem magnitude?_of_digits {row : List Char} (nonempty : row ≠ [])
    (all : ∀ c ∈ row, Decimal.isDigit c = true) : magnitude? row = some (Decimal.value row) := by
  rw [magnitude?, if_pos ⟨nonempty, List.all_eq_true.mpr all⟩]

theorem read?_of_digits {row : List Char} (nonempty : row ≠ [])
    (all : ∀ c ∈ row, Decimal.isDigit c = true) : read? row = ofInt? (Decimal.value row : Nat) := by
  unfold read?
  split
  · exact absurd (all '-' List.mem_cons_self) (by decide)
  · exact absurd (all '+' List.mem_cons_self) (by decide)
  · rw [magnitude?_of_digits nonempty all]
    rfl

theorem isSome_read?_of_digits {row : List Char} (nonempty : row ≠ [])
    (all : ∀ c ∈ row, Decimal.isDigit c = true) :
    (read? row).isSome = true ↔ Decimal.value row ≤ 9223372036854775807 := by
  rw [read?_of_digits nonempty all, ofInt?]
  by_cases small : Decimal.value row ≤ 9223372036854775807
  · have range : smallest ≤ (Decimal.value row : Int) ∧ (Decimal.value row : Int) ≤ largest := by
      simp only [smallest, largest]
      omega
    rw [if_pos range]
    exact ⟨fun _ => small, fun _ => rfl⟩
  · have range : ¬ (smallest ≤ (Decimal.value row : Int) ∧
        (Decimal.value row : Int) ≤ largest) := by
      simp only [smallest, largest]
      omega
    rw [if_neg range]
    simpa using small

theorem text_of_read? {row : List Char} {n : Int64} (nonempty : row ≠ [])
    (all : ∀ c ∈ row, Decimal.isDigit c = true) (h : read? row = some n) :
    (text n).toList = Decimal.digits (Decimal.value row) := by
  rw [read?_of_digits nonempty all] at h
  rw [text, toInt_of_ofInt? h]
  exact String.toList_ofList

theorem read?_digits {row : List Char} (nonempty : row ≠ [])
    (all : ∀ c ∈ row, Decimal.isDigit c = true) :
    read? (Decimal.digits (Decimal.value row)) = read? row := by
  have all' := List.all_eq_true.mp (Decimal.all_isDigit_digits (Decimal.value row))
  rw [read?_of_digits (Decimal.digits_ne_nil _) all', Decimal.value_digits,
    read?_of_digits nonempty all]

end TagScript.Integer
