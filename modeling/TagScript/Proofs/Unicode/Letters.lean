import TagScript.Numeral.Decimal
import TagScript.Unicode.Alphabetic
import TagScript.Unicode.Casing

/-! Letters, digits and the other characters that pieces begin with are told
apart, and changing the case of a letter makes none of the characters that
separate tokens. -/
namespace TagScript.Unicode

theorem forall_ascii (P : Char → Prop) (table : ∀ n < 128, P (Char.ofNat n)) :
    ∀ c : Char, c.toNat < 128 → P c := by
  intro c small
  rw [← Char.ofNat_toNat (c := c)]
  exact table _ small

theorem forall_listed {P : Char → Prop} [DecidablePred P] {cs : List Char}
    (table : cs.all (fun c => decide (P c)) = true) : ∀ c ∈ cs, P c :=
  fun c mem => of_decide_eq_true (List.all_eq_true.mp table c mem)

theorem isAlphabetic_of_isDigit {c : Char} (h : Decimal.isDigit c = true) :
    isAlphabetic c = false := by
  have digits_are_no_letters :=
    forall_ascii (fun c => Decimal.isDigit c = true → isAlphabetic c = false) (by decide)
  apply digits_are_no_letters c _ h
  simp only [Decimal.isDigit, Bool.and_eq_true, decide_eq_true_eq] at h
  omega

/-- What separates words, or opens a comment. -/
def separators : List Char := [' ', '\t', '\r', '\n', '-']

theorem toNat_ofNat (n : Nat) : (Char.ofNat n).toNat = if n.isValidChar then n else 0 := by
  by_cases valid : n.isValidChar
  · rw [if_pos valid, Char.ofNat, dif_pos valid]
    rfl
  · rw [if_neg valid, Char.ofNat, dif_neg valid]
    rfl

theorem ofNat_not_mem_separators {n : Nat} (h : 128 ≤ n ∨ 97 ≤ n ∧ n ≤ 122) :
    Char.ofNat n ∉ separators := by
  have table : ∀ d ∈ separators, d.toNat < 97 ∧ d.toNat ≠ 0 := forall_listed (by decide)
  intro mem
  have bound := table _ mem
  rw [toNat_ofNat] at bound
  split at bound <;> omega

theorem image?_lowerRuns {run : CaseRun} {n m : Nat} (mem : run ∈ lowerRuns)
    (h : run.image? n = some m) : 128 ≤ m ∨ 97 ≤ m ∧ m ≤ 122 := by
  have table : ∀ run ∈ lowerRuns,
      128 ≤ run.image ∨ 97 ≤ run.image ∧ run.image + (run.last - run.first) ≤ 122 := by
    decide +kernel
  have bound := table run mem
  unfold CaseRun.image? at h
  split at h
  next inside =>
    simp only [Bool.and_eq_true, decide_eq_true_eq] at inside
    cases h
    omega
  next => cases h

theorem image_lower {n m : Nat} (beyond : 128 ≤ n)
    (mem : m ∈ image lowerRuns lowerExpansions n) : 128 ≤ m ∨ 97 ≤ m ∧ m ≤ 122 := by
  unfold image at mem
  split at mem
  next letters found =>
    have table : ∀ entry ∈ lowerExpansions,
        ∀ m ∈ entry.2, 128 ≤ m ∨ 97 ≤ m ∧ m ≤ 122 := by decide
    obtain ⟨before, after, eq, -⟩ := List.lookup_eq_some_iff.mp found
    apply table (n, letters) _ m mem
    rw [eq]
    exact List.mem_append_right _ List.mem_cons_self
  next =>
    rw [List.mem_singleton.mp mem]
    cases found : lowerRuns.findSome? fun run => run.image? n with
    | none => exact .inl beyond
    | some k =>
      obtain ⟨run, run_mem, image_eq⟩ := List.exists_of_findSome?_eq_some found
      exact image?_lowerRuns run_mem image_eq

theorem lower_not_mem_separators {c d : Char} (letter : isAlphabetic c = true)
    (mem : d ∈ lower c) : d ∉ separators := by
  by_cases small : c.toNat < 128
  · have table := forall_ascii
      (fun c => isAlphabetic c = true → (lower c).all (· ∉ separators) = true) (by decide)
    exact of_decide_eq_true (List.all_eq_true.mp (table c small letter) d mem)
  · rw [lower, if_neg small] at mem
    obtain ⟨m, image_mem, rfl⟩ := List.mem_map.mp mem
    exact ofNat_not_mem_separators (image_lower (Nat.le_of_not_lt small) image_mem)

theorem lowercaseAfter_not_mem_separators (before letters : List Char)
    (all : ∀ c ∈ letters, isAlphabetic c = true) :
    ∀ d ∈ lowercaseAfter before letters, d ∉ separators := by
  induction letters generalizing before with
  | nil => exact nofun
  | cons c after ih =>
    have letter := all c List.mem_cons_self
    intro d mem
    rw [lowercaseAfter] at mem
    rcases List.mem_append.mp mem with here | later
    · split at here
      · rw [List.mem_singleton.mp here]
        split <;> decide
      · exact lower_not_mem_separators letter here
    · exact ih (c :: before) (fun c mem => all c (List.mem_cons_of_mem _ mem)) d later

theorem lowercase_not_mem_separators {letters : List Char}
    (all : ∀ c ∈ letters, isAlphabetic c = true) : ∀ d ∈ lowercase letters, d ∉ separators :=
  lowercaseAfter_not_mem_separators [] letters all

end TagScript.Unicode
