import TagScript.Proofs.Unicode.Letters

/-! What counts of a letter of ASCII is the same for both of its cases: whether it is a letter,
its upper case and its lower case, and what decides about the form of a sigma near it. So the
upper case and the lower case of a word do not change with the letters of ASCII in it. -/
namespace TagScript.Unicode

theorem toLower_of_beyond_ascii {c : Char} (large : 128 ≤ c.toNat) : c.toLower = c := by
  have no_capital : ¬(c.val ≥ 'A'.val ∧ c.val ≤ 'Z'.val) := by
    intro bounds
    have : c.toNat ≤ 90 := bounds.2
    omega
  exact dif_neg no_capital

/-- What is the same for a character of ASCII and its lower case is the same for all
characters, since the others are their own lower case. -/
theorem toLower_congr {α : Type} (f : Char → α)
    (table : ∀ n < 128, f (Char.ofNat n).toLower = f (Char.ofNat n)) (c : Char) :
    f c.toLower = f c := by
  by_cases small : c.toNat < 128
  · exact forall_ascii (fun c => f c.toLower = f c) table c small
  · rw [toLower_of_beyond_ascii (Nat.le_of_not_lt small)]

theorem toLower_eq_iff {r : Char}
    (table : ∀ n < 128, (Char.ofNat n).toLower = r ↔ Char.ofNat n = r) (c : Char) :
    c.toLower = r ↔ c = r :=
  iff_of_eq (toLower_congr (· = r) (fun n small => propext (table n small)) c)

theorem isAlphabetic_toLower (c : Char) : isAlphabetic c.toLower = isAlphabetic c :=
  toLower_congr isAlphabetic (by decide) c

theorem isDigit_toLower (c : Char) : Decimal.isDigit c.toLower = Decimal.isDigit c :=
  toLower_congr Decimal.isDigit (by decide) c

theorem toLower_of_not_isAlphabetic {c : Char} (other : isAlphabetic c = false) :
    c.toLower = c := by
  by_cases small : c.toNat < 128
  · exact forall_ascii (fun c => isAlphabetic c = false → c.toLower = c) (by decide) c small other
  · exact toLower_of_beyond_ascii (Nat.le_of_not_lt small)

theorem toList_toLower (source : String) :
    source.toLower.toList = source.toList.map Char.toLower :=
  String.toList_map

theorem head?_map_toLower {r : Char}
    (table : ∀ n < 128, (Char.ofNat n).toLower = r ↔ Char.ofNat n = r) (cs : List Char) :
    (cs.map Char.toLower).head? = some r ↔ cs.head? = some r := by
  cases cs with
  | nil => simp
  | cons c cs => simp [toLower_eq_iff table c]

theorem takeWhile_map_toLower {p : Char → Bool} (same : ∀ c, p c.toLower = p c)
    (cs : List Char) :
    (cs.map Char.toLower).takeWhile p = (cs.takeWhile p).map Char.toLower := by
  rw [List.takeWhile_map, show p ∘ Char.toLower = p from funext same]

theorem map_toLower_of_isDigit {digits : List Char}
    (all : ∀ c ∈ digits, Decimal.isDigit c = true) : digits.map Char.toLower = digits := by
  rw [List.map_congr_left fun c mem =>
    toLower_of_not_isAlphabetic (isAlphabetic_of_isDigit (all c mem)), List.map_id']

theorem uppercase_toLower (word : List Char) :
    uppercase (word.map Char.toLower) = uppercase word := by
  simp only [uppercase, List.flatMap_map, toLower_congr upper (by decide)]

theorem opensCased_toLower (letters : List Char) :
    opensCased (letters.map Char.toLower) = opensCased letters := by
  have ignorable : isCaseIgnorable ∘ Char.toLower = isCaseIgnorable :=
    funext (toLower_congr isCaseIgnorable (by decide))
  rw [opensCased, opensCased, List.dropWhile_map, ignorable]
  cases letters.dropWhile isCaseIgnorable with
  | nil => rfl
  | cons c cs => exact toLower_congr isCased (by decide) c

theorem lowercaseAfter_toLower (before word : List Char) :
    lowercaseAfter (before.map Char.toLower) (word.map Char.toLower) =
      lowercaseAfter before word := by
  induction word generalizing before with
  | nil => rfl
  | cons c after ih =>
    have further := ih (c :: before)
    rw [List.map_cons] at further
    rw [List.map_cons, lowercaseAfter, lowercaseAfter, further, endsWord, endsWord,
      opensCased_toLower, opensCased_toLower, toLower_congr lower (by decide)]
    by_cases sigma : c = 'Σ'
    · rw [if_pos sigma, if_pos ((toLower_eq_iff (by decide) c).mpr sigma)]
    · rw [if_neg sigma, if_neg (mt (toLower_eq_iff (by decide) c).mp sigma)]

theorem lowercase_toLower (word : List Char) :
    lowercase (word.map Char.toLower) = lowercase word :=
  lowercaseAfter_toLower [] word

/-! Letters of ASCII. -/

section Ascii

variable {c : Char} {word : List Char}

theorem toNat_lt_of_isAlpha (letter : c.isAlpha = true) : c.toNat < 128 := by
  have either : (c.isUpper || c.isLower) = true := letter
  rcases Bool.or_eq_true_iff.mp either with upper | lower
  · have bounds : c.val ≥ 'A'.val ∧ c.val ≤ 'Z'.val := of_decide_eq_true upper
    have : c.toNat ≤ 90 := bounds.2
    omega
  · have bounds : (decide (c.val ≥ 'a'.val) && decide (c.val ≤ 'z'.val)) = true := lower
    have : c.toNat ≤ 122 := of_decide_eq_true (Bool.and_eq_true_iff.mp bounds).2
    omega

theorem isAlphabetic_of_isAlpha (letter : c.isAlpha = true) : isAlphabetic c = true :=
  forall_ascii (fun c => c.isAlpha = true → isAlphabetic c = true) (by decide) c
    (toNat_lt_of_isAlpha letter) letter

theorem uppercase_of_ascii (small : ∀ c ∈ word, c.toNat < 128) :
    uppercase word = word.map Char.toUpper := by
  unfold uppercase
  induction word with
  | nil => rfl
  | cons c word ih =>
    obtain ⟨here, small⟩ := List.forall_mem_cons.mp small
    rw [List.flatMap_cons, upper, if_pos here, ih small, List.map_cons, List.singleton_append]

theorem lowercaseAfter_of_ascii (small : ∀ c ∈ word, c.toNat < 128) (before : List Char) :
    lowercaseAfter before word = word.map Char.toLower := by
  induction word generalizing before with
  | nil => rfl
  | cons c word ih =>
    obtain ⟨here, small⟩ := List.forall_mem_cons.mp small
    have other : c ≠ 'Σ' := by
      rintro rfl
      exact absurd here (by decide)
    rw [lowercaseAfter, if_neg other, lower, if_pos here, ih small, List.map_cons,
      List.singleton_append]

end Ascii

end TagScript.Unicode
