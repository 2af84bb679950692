import Mathlib.Control.Basic
import TagScript.Proofs.Reading.Beginnings

/-! Where tokens that are no program are at fault: right after the longest beginning
that some program has. -/
namespace TagScript

open Grammar Reading Token

namespace Reading

theorem manyPass_eq_error_iff {ts : List Token} {f : Failure} :
    manyPass (fun _ => false) ts = .error f ↔ (statementList ts).result = .error f := by
  rw [← left_many ts (Nat.lt_succ_self ts.length), Attempt.left, statementList,
    Attempt.result_bind]
  cases (many (fun _ => false) (fun rest (_ : rest.length < ts.length + 1) => statement rest) ts
    (Nat.lt_succ_self ts.length)).result with
  | error f' => simp only [Except.map, Except.bind, Except.error.injEq]
  | ok p => simp only [Except.map, Except.bind, Attempt.result_pure, reduceCtorEq]

end Reading

namespace Program

theorem ofTokens_eq_error_iff {ts : List Token} {fault : Fault ParseError} :
    ofTokens ts = .error fault ↔
      ∃ f, (statementList ts).result = .error f ∧ f.fault ts = fault := by
  unfold ofTokens
  dsimp only
  cases (statementList ts).result with
  | error f => simp only [Except.error.injEq, exists_eq_left']
  | ok body => simp

/-- Some list of tokens that begins like this is a program. -/
def Viable (us : List Token) : Prop :=
  ∃ more p, ofTokens (us ++ more) = .ok p

theorem Viable.of_append {us vs : List Token} (h : Viable (us ++ vs)) : Viable us := by
  obtain ⟨more, p, accepted⟩ := h
  rw [List.append_assoc] at accepted
  exact ⟨vs ++ more, p, accepted⟩

theorem viable_of_statements {us : List Token} {ys : List Lexeme}
    (phrase : Phrase Statements (lexemes us ++ ys)) : Viable us := by
  obtain ⟨trees, phrase⟩ := phrase
  have more_eq : lexemes (ys.map fun x => ⟨x, ⟨0, 0⟩, 0⟩) = ys := by
    rw [lexemes, List.map_map]
    exact List.map_id ys
  rw [← more_eq, lexemes, lexemes, ← List.map_append] at phrase
  obtain ⟨body, read, -⟩ := read_of_statements phrase
  exact ⟨_, ⟨body, _, _⟩, ofTokens_eq_ok_iff.mpr ⟨read, rfl, rfl⟩⟩

/-- The first `count` of the tokens can be continued to a program, but not with the
token that comes next. -/
structure Furthest (ts : List Token) (count : Nat) : Prop where
  le : count ≤ ts.length
  viable : Viable (ts.take count)
  stuck : count < ts.length → ¬Viable (ts.take (count + 1))

theorem Furthest.le_of_furthest {ts : List Token} {j k : Nat} (h : Furthest ts j)
    (h' : Furthest ts k) : k ≤ j := by
  refine Nat.not_lt.mp fun lt => h.stuck (Nat.lt_of_lt_of_le lt h'.le) ?_
  have viable := h'.viable
  rw [← Nat.add_sub_cancel' lt, List.take_add] at viable
  exact viable.of_append

theorem furthest_of_stuck {us rest : List Token} {f : Failure}
    (viable : ∃ ys, Phrase Statements (lexemes us ++ ys))
    (same : ∀ rest', rest'.head? = rest.head? →
      manyPass (fun _ => false) (us ++ rest') = .error f) :
    Furthest (us ++ rest) us.length where
  le := by
    rw [List.length_append]
    exact Nat.le_add_right _ _
  viable := by
    obtain ⟨ys, phrase⟩ := viable
    rw [List.take_left]
    exact viable_of_statements phrase
  stuck lt := by
    cases rest with
    | nil =>
      rw [List.append_nil] at lt
      exact absurd lt (Nat.lt_irrefl _)
    | cons t rest =>
      rintro ⟨more, p, accepted⟩
      rw [List.take_length_add_append, List.take_succ_cons, List.take_zero, List.append_assoc]
        at accepted
      have failed := manyPass_eq_error_iff.mp (same (t :: more) rfl)
      cases failed.symm.trans (ofTokens_eq_ok_iff.mp accepted).1

/-- When tokens are no program, the error is at the one place up to which they could be
continued: it carries the span of the token there, or of the end if there is none, or
of the operator right before if that lacks its right operand. -/
theorem fault_at_furthest {ts : List Token} {fault : Fault ParseError}
    (failed : ofTokens ts = .error fault) :
    ∃ k, Furthest ts k ∧ (∀ j, Furthest ts j → j = k) ∧
      fault.span = ((blamed (ts.take k) (ts.drop k)).map (·.span)).getD (endOf ts) := by
  obtain ⟨f, read, rfl⟩ := ofTokens_eq_error_iff.mp failed
  have passed := manyPass_eq_error_iff.mpr read
  have goes : Goes (manyPass fun _ => false) (Phrase Statements) ts := goes_statements ts
  cases goes with
  | well us rest split _ _ same =>
    subst split
    cases passed.symm.trans (same rest rfl)
  | stuck us rest f' split viable site same =>
    subst split
    cases passed.symm.trans (same rest rfl)
    have furthest := furthest_of_stuck viable same
    refine ⟨us.length, furthest, fun j other => ?_, ?_⟩
    · exact Nat.le_antisymm (furthest.le_of_furthest other) (other.le_of_furthest furthest)
    · rw [List.take_left, List.drop_left, Failure.fault, site]

/-- `PRINT TRUE + )`: the plus lacks its operand. -/
theorem fault_at_furthest_operator :
    ∃ (ts : List Token) (fault : Fault ParseError) (k : Nat), ofTokens ts = .error fault ∧
      fault.span = ⟨11, 12⟩ ∧ Furthest ts k ∧ (∀ j, Furthest ts j → j = k) ∧
      fault.span = ((blamed (ts.take k) (ts.drop k)).map (·.span)).getD (endOf ts) := by
  let ts : List Token := [⟨⟨.printWord, "PRINT"⟩, ⟨0, 5⟩, 1⟩, ⟨⟨.boolean, "TRUE"⟩, ⟨6, 10⟩, 1⟩,
    ⟨⟨.plus, "+"⟩, ⟨11, 12⟩, 1⟩, ⟨⟨.rightParen, ")"⟩, ⟨13, 14⟩, 1⟩]
  have passed : manyPass (fun _ => false) ts = .error ⟨.noOperand "+", some ⟨11, 12⟩⟩ := by
    simp [ts, manyPass_cons, pass_statement_cons, pass_comparison, pass_sum, pass_term,
      pass_factor_cons, chainPass_cons, Bind.kleisliRight, Bind.bind, Except.bind,
      productOperator?, sumOperator?, signed, opensFactor]
  have failed : ofTokens ts = .error ⟨.noOperand "+", ⟨11, 12⟩⟩ :=
    ofTokens_eq_error_iff.mpr ⟨_, manyPass_eq_error_iff.mp passed, rfl⟩
  obtain ⟨k, furthest, unique, span_eq⟩ := fault_at_furthest failed
  exact ⟨ts, _, k, failed, rfl, furthest, unique, span_eq⟩

end Program

end TagScript
