import TagScript.Proofs.Unicode.Letters

/-! Letters that are their own lower case. The lower case of every letter is one of these, so
that to take it twice is to take it once. The one exception is `İ`, whose lower case is an `i`
and a dot above, which is no letter. -/
namespace TagScript.Unicode

/-! What the tables say, run by run. -/

def CaseRun.within (run : CaseRun) (block : Nat × Nat) : Bool :=
  block.1.ble run.image && (run.image + (run.last - run.first)).ble block.2

/-- No image of the run is one of `first`, `first + step`, ..., `last`. Runs of step 2 may pass
each other, if one is at even numbers and the other at odd ones. -/
def CaseRun.avoids (run : CaseRun) (first last step : Nat) : Bool :=
  last.blt run.image || (run.image + (run.last - run.first)).blt first ||
    step == 2 && run.image % 2 != first % 2 && (run.step == 2 || run.first == run.last)

theorem CaseRun.image?_eq_some {run : CaseRun} {n m : Nat} (h : run.image? n = some m) :
    run.first ≤ n ∧ n ≤ run.last ∧ (n - run.first) % run.step = 0 ∧
      run.image + (n - run.first) = m := by
  unfold image? at h
  split at h
  next inside =>
    simp only [Bool.and_eq_true, decide_eq_true_eq, beq_iff_eq] at inside
    exact ⟨inside.1.1, inside.1.2, inside.2, Option.some.inj h⟩
  next => cases h

theorem CaseRun.bounds_of_within {run : CaseRun} {block : Nat × Nat} {n m : Nat}
    (inside : run.within block = true) (h : run.image? n = some m) :
    block.1 ≤ m ∧ m ≤ block.2 := by
  simp only [within, Bool.and_eq_true, Nat.ble_eq] at inside
  have image_eq := image?_eq_some h
  omega

theorem CaseRun.not_hit_of_avoids {run : CaseRun} {first last step n m : Nat}
    (apart : run.avoids first last step = true) (h : run.image? n = some m) :
    ¬ (first ≤ m ∧ m ≤ last ∧ (m - first) % step = 0) := by
  simp only [avoids, Bool.or_eq_true, Bool.and_eq_true, Nat.blt_eq, beq_iff_eq, bne_iff_ne] at apart
  obtain ⟨lower, upper, on_step, rfl⟩ := image?_eq_some h
  rintro ⟨from_first, to_last, hit⟩
  obtain (below | above) | ⟨⟨rfl, parity⟩, even | single⟩ := apart
  · omega
  · omega
  · rw [even] at on_step
    omega
  · omega

structure LowerImage (m : Nat) : Prop where
  valid : m.isValidChar
  letter : m = 107 ∨ 128 ≤ m ∧ inRanges alphabeticRanges m = true
  fixed : lowerRuns.findSome? (·.image? m) = none
  other : m ∉ [304, 305, 383]

theorem lowerImage_of_image? {run : CaseRun} {n m : Nat} (mem : run ∈ lowerRuns)
    (h : run.image? n = some m) : LowerImage m where
  valid := by
    have table : (lowerRuns.all fun run =>
        run.within (0, 0xD7FF) || run.within (0xE000, 0x10FFFF)) = true := by decide +kernel
    rcases (Bool.or_eq_true _ _).mp (List.all_eq_true.mp table run mem) with low | high
    · exact .inl (Nat.lt_succ_of_le (CaseRun.bounds_of_within low h).2)
    · have bounds := CaseRun.bounds_of_within high h
      exact .inr ⟨bounds.1, Nat.lt_succ_of_le bounds.2⟩
  letter := by
    have table : (lowerRuns.all fun run =>
        run.within (107, 107) || run.within (128, 0x10FFFF) &&
          alphabeticRanges.any run.within) = true := by decide +kernel
    have here := List.all_eq_true.mp table run mem
    simp only [Bool.or_eq_true, Bool.and_eq_true, List.any_eq_true] at here
    rcases here with small | ⟨beyond, block, block_mem, inside⟩
    · have bounds := CaseRun.bounds_of_within small h
      exact .inl (Nat.le_antisymm bounds.2 bounds.1)
    · refine .inr ⟨(CaseRun.bounds_of_within beyond h).1, inRanges_eq_true_iff.mpr ?_⟩
      exact ⟨block, block_mem, CaseRun.bounds_of_within inside h⟩
  fixed := by
    have table : (lowerRuns.all fun run => lowerRuns.all fun other =>
        run.avoids other.first other.last other.step) = true := by decide +kernel
    rw [List.findSome?_eq_none_iff]
    intro other other_mem
    have apart := List.all_eq_true.mp (List.all_eq_true.mp table run mem) other other_mem
    rw [Option.eq_none_iff_forall_not_mem]
    intro k image_eq
    obtain ⟨from_first, to_last, hit, -⟩ := CaseRun.image?_eq_some image_eq
    exact CaseRun.not_hit_of_avoids apart h ⟨from_first, to_last, hit⟩
  other := by
    have table : (lowerRuns.all fun run =>
        [304, 305, 383].all fun n => run.avoids n n 1) = true := by decide +kernel
    intro among
    have apart := List.all_eq_true.mp (List.all_eq_true.mp table run mem) m among
    exact CaseRun.not_hit_of_avoids apart h ⟨Nat.le_refl m, Nat.le_refl m, Nat.mod_one _⟩

/-! Letters and their lower case. -/

structure Folded (d : Char) : Prop where
  letter : isAlphabetic d = true
  fixed : lower d = [d]

variable {c d : Char}

theorem Folded.ne_sigma (folded : Folded d) : d ≠ 'Σ' := by
  rintro rfl
  have changes : lower 'Σ' ≠ ['Σ'] := by decide +kernel
  exact changes folded.fixed

theorem lookup_lowerExpansions {n : Nat} (h : n ≠ 304) : lowerExpansions.lookup n = none := by
  rw [lowerExpansions, List.lookup_cons, beq_false_of_ne h]
  rfl

theorem folded_of_lowerImage {m : Nat} (h : LowerImage m) : Folded (Char.ofNat m) := by
  rcases h.letter with rfl | ⟨beyond, letter⟩
  · exact ⟨by decide, by decide⟩
  · have at_m : (Char.ofNat m).toNat = m := (toNat_ofNat m).trans (if_pos h.valid)
    have plain : m ≠ 304 := fun eq => h.other (eq ▸ List.mem_cons_self)
    constructor
    · rw [isAlphabetic, at_m, if_neg (Nat.not_lt.mpr beyond), letter]
    · rw [lower, at_m, if_neg (Nat.not_lt.mpr beyond), image, lookup_lowerExpansions plain,
        h.fixed]
      rfl

/-- The lower case of a letter, unless it is `İ`. Most capitals come back when it is taken to
upper case again; the others have their lower case beyond ASCII, but for the sign of Kelvin. -/
theorem exists_folded (letter : isAlphabetic c = true) (other : c ≠ 'İ') :
    ∃ d, lower c = [d] ∧ Folded d ∧
      (upper d = upper c ∨ d = 'k' ∨ 128 ≤ d.toNat ∧ d.toNat ≠ 305 ∧ d.toNat ≠ 383) := by
  by_cases small : c.toNat < 128
  case pos =>
    have table := forall_ascii (fun c => isAlphabetic c = true →
      isAlphabetic c.toLower = true ∧ lower c.toLower = [c.toLower] ∧
        upper c.toLower = upper c) (by decide)
    obtain ⟨small_letter, fixed, same⟩ := table c small letter
    exact ⟨c.toLower, if_pos small, ⟨small_letter, fixed⟩, .inl same⟩
  case neg =>
    have plain : c.toNat ≠ 304 := fun eq => other (Char.toNat_inj.mp eq)
    have lower_eq : lower c =
        [Char.ofNat ((lowerRuns.findSome? (·.image? c.toNat)).getD c.toNat)] := by
      rw [lower, if_neg small, image, lookup_lowerExpansions plain]
      rfl
    cases found : lowerRuns.findSome? (·.image? c.toNat) with
    | none =>
      rw [found, Option.getD_none, Char.ofNat_toNat] at lower_eq
      exact ⟨c, lower_eq, ⟨letter, lower_eq⟩, .inl rfl⟩
    | some m =>
      rw [found, Option.getD_some] at lower_eq
      obtain ⟨run, mem, image_eq⟩ := List.exists_of_findSome?_eq_some found
      have image := lowerImage_of_image? mem image_eq
      refine ⟨_, lower_eq, folded_of_lowerImage image, .inr ?_⟩
      rcases image.letter with rfl | ⟨beyond, -⟩
      · exact .inl rfl
      · rw [toNat_ofNat, if_pos image.valid]
        have others := image.other
        simp only [List.mem_cons, List.not_mem_nil, or_false, not_or] at others
        exact .inr ⟨beyond, others.2.1, others.2.2⟩

/-- Beyond ASCII the upper case stays there, or is one of the listed expansions. -/
theorem upper_cases (beyond : 128 ≤ d.toNat) (dotless : d.toNat ≠ 305) (long : d.toNat ≠ 383) :
    (∃ entry ∈ upperExpansions, upper d = entry.2.map Char.ofNat) ∨
      ∃ m, 128 ≤ m ∧ upper d = [Char.ofNat m] := by
  rw [upper, if_neg (Nat.not_lt.mpr beyond), image]
  cases listed : upperExpansions.lookup d.toNat with
  | some letters =>
    obtain ⟨before, after, eq, -⟩ := List.lookup_eq_some_iff.mp listed
    refine .inl ⟨(d.toNat, letters), ?_, rfl⟩
    rw [eq]
    exact List.mem_append_right _ List.mem_cons_self
  | none =>
    refine .inr ⟨_, ?_, rfl⟩
    cases found : upperRuns.findSome? fun run => run.image? d.toNat with
    | none => exact beyond
    | some m =>
      have table : ∀ run ∈ upperRuns, 128 ≤ run.image ∨
          run.first = run.last ∧ (run.first = 305 ∨ run.first = 383) := by decide +kernel
      obtain ⟨run, mem, image_eq⟩ := List.exists_of_findSome?_eq_some found
      have hit := CaseRun.image?_eq_some image_eq
      rw [Option.getD_some]
      rcases table run mem with high | single
      · omega
      · omega

end TagScript.Unicode
