import Mathlib
import TagScript.Proofs.Machine.Blame
import TagScript.Proofs.Machine.Loading
import TagScript.Proofs.Reading.Faults
import TagScript.Proofs.Reading.RoundTrip

/-! Where the errors of a text lie, whether it cannot be scanned or read, or its program
fails on a fresh machine. All blame characters of the text, but for those at the end of
the tokens, which may blame the one character after it. -/
namespace TagScript

namespace Piece

theorem width_of_first {c : Char} {cs : List Char} {e : LexError} (h : first c cs = .error e) :
    0 < e.width ∧ e.width ≤ (c :: cs).length := by
  have one : 0 < 1 ∧ 1 ≤ (c :: cs).length := ⟨Nat.one_pos, Nat.le_add_left 1 cs.length⟩
  have digits : (cs.takeWhile Decimal.isDigit).length ≤ cs.length :=
    (List.takeWhile_prefix _).length_le
  unfold first at h
  split at h
  · cases h
  · split at h
    all_goals try cases h
    · exact one
    · unfold ofTagLetters at h
      split at h
      · cases h
        exact one
      · cases h
    · split at h
      · unfold ofDigits at h
        split at h
        · cases h
        · cases h
          exact ⟨Nat.succ_pos _, Nat.succ_le_succ digits⟩
      · split at h
        · cases h
        · cases h
          exact one

theorem span_of_split {position : Nat} {cs : List Char} {fault : Fault LexError}
    (h : split position cs = .error fault) :
    fault.span.start < fault.span.stop ∧ fault.span.stop ≤ position + cs.length := by
  fun_induction split position cs with
  | case1 => cases h
  | case2 position c cs e failed =>
    cases h
    have width := width_of_first failed
    exact ⟨Nat.lt_add_of_pos_right width.1, Nat.add_le_add_left width.2 position⟩
  | case3 position c cs piece cut ih =>
    obtain ⟨⟨formed, rest, text_eq, -⟩, -⟩ := first_eq_ok_iff.mp cut
    have length_pos : 0 < piece.text.length := List.length_pos_iff.mpr formed.text_ne_nil
    have length_eq := congrArg List.length text_eq
    cases others : split (position + piece.text.length) (cs.drop (piece.text.length - 1)) with
    | ok pieces =>
      rw [others] at h
      cases h
    | error fault' =>
      rw [others] at h
      cases h
      have within := ih others
      simp only [List.length_drop, List.length_cons, List.length_append] at within length_eq ⊢
      omega

end Piece

open Reading

section Scanned

variable {source : String} {ts : List Token}

theorem Token.within_of_scan_error {fault : Fault LexError}
    (failed : Token.scan source = .error fault) : fault.span.Within source := by
  rw [scan_eq] at failed
  cases split_eq : Piece.split 0 source.toList with
  | ok pieces =>
    rw [split_eq] at failed
    cases failed
  | error fault' =>
    rw [split_eq] at failed
    cases failed
    have within := Piece.span_of_split split_eq
    rw [Nat.zero_add, String.length_toList] at within
    exact within

theorem Token.clean_of_scan (scanned : Token.scan source = .ok ts) :
    Clean (Span.Within source) ts :=
  have ordered := Token.ordered_of_scan scanned
  ⟨Token.sited_of_scan scanned, ordered.2.1, ordered.1.attached.imp fun _ _ h empty => (h empty).1⟩

theorem Token.endOf_of_scan (scanned : Token.scan source = .ok ts) :
    ∃ position ≤ source.length, endOf ts = .point position := by
  unfold endOf
  cases last : ts.getLast? with
  | none => exact ⟨0, Nat.zero_le _, rfl⟩
  | some t =>
    exact ⟨t.span.stop, (Token.ordered_of_scan scanned).2.2 t (List.mem_of_getLast? last), rfl⟩

end Scanned

/-- What is wrong with a text, or with a run of its program by itself. -/
inductive Mistake (source : String) : Diagnostic → Prop
  | refused {d : Diagnostic} (refused : Program.ofSource source = .error d) : Mistake source d
  | failed {ts : List Token} {p : Program} {limit : Nat} {output : Output} {outcome : Outcome}
      {fault : Fault RuntimeError} (accepted : Program.ofSource source = .ok (ts, p))
      (ends : Machine.EndsIn { limit, output } p outcome) (failed : fault ∈ outcome.fault?) :
      Mistake source fault.runtime

/-- The text ended where more was needed to make it a program. -/
def Unfinished (source : String) (d : Diagnostic) : Prop :=
  ∃ ts fault, Token.scan source = .ok ts ∧ Program.ofTokens ts = .error fault ∧
    fault.cause.atEnd = true ∧ fault.span = endOf ts ∧ fault.syntactic = d

variable {source : String} {d : Diagnostic}

theorem Mistake.within_or_unfinished (mistake : Mistake source d) :
    d.span.Within source ∨ Unfinished source d := by
  cases mistake with
  | refused refused =>
    unfold Program.ofSource at refused
    cases scanned : Token.scan source with
    | error fault =>
      rw [scanned] at refused
      cases refused
      exact .inl (Token.within_of_scan_error scanned)
    | ok ts =>
      rw [scanned] at refused
      dsimp only at refused
      cases read : Program.ofTokens ts with
      | ok p =>
        rw [read] at refused
        cases refused
      | error fault =>
        rw [read] at refused
        cases refused
        obtain ⟨cause, span_eq⟩ | ⟨-, within⟩ :=
          Program.placed_of_ofTokens (Token.clean_of_scan scanned) read
        · exact .inr ⟨ts, fault, scanned, read, cause, span_eq, rfl⟩
        · exact .inl within
  | @failed ts p limit output outcome fault accepted ends failed =>
    obtain ⟨scanned, read⟩ := Program.ofSource_eq_ok_iff.mp accepted
    obtain ⟨spanned, bodies⟩ := Program.within_of_scan scanned read
    refine .inl (Run.blamed_of_ends spanned (fun tag body _ bound => ?_) ends failed)
    rcases Machine.bound_of_load bound with here | ⟨-, earlier⟩
    · exact bodies _ here
    · rw [Std.ExtTreeMap.getElem?_empty] at earlier
      cases earlier

/-- No tokens are a program, so there is something before the end. -/
theorem Unfinished.length_pos (unfinished : Unfinished source d) : 0 < source.length := by
  obtain ⟨ts, fault, scanned, read, -⟩ := unfinished
  cases ts with
  | nil =>
    obtain ⟨f, failed, -⟩ := Program.ofTokens_eq_error_iff.mp read
    rw [← manyPass_eq_error_iff, manyPass_nil] at failed
    cases failed
  | cons t ts =>
    have first : t.span.Within source := (Token.clean_of_scan scanned).head
    exact Nat.lt_of_lt_of_le (Nat.zero_lt_of_lt first.1) first.2

/-- The span of whatever is wrong with a text or a run of its program designates at least
one character, begins in the text or right after it, and goes past its end by one at most,
which is so only where the text should have gone on. What a report shows is therefore a
part of the text, and it begins where the span does unless that is the end of the text. -/
theorem span_of_mistake (mistake : Mistake source d) :
    d.span.start < d.span.stop ∧ d.span.start ≤ source.length ∧
      d.span.stop ≤ source.length + 1 ∧
      (d.span.stop = source.length + 1 → Unfinished source d) ∧
      (d.span.clampTo source.length).Within source ∧
      (d.span.start ≠ source.length → (d.span.clampTo source.length).start = d.span.start) := by
  rcases mistake.within_or_unfinished with within | unfinished
  · rw [within.clampTo_eq]
    obtain ⟨proper, inside⟩ := within
    refine ⟨proper, by omega, by omega, fun past => by omega, ⟨proper, inside⟩, fun _ => rfl⟩
  · have nonempty := unfinished.length_pos
    obtain ⟨ts, fault, scanned, -, -, span_eq, rfl⟩ := id unfinished
    obtain ⟨position, le, end_eq⟩ := Token.endOf_of_scan scanned
    have point : fault.syntactic.span = .point position := span_eq.trans end_eq
    rw [point]
    simp only [Span.point, Span.Within, Span.clampTo]
    refine ⟨by omega, by omega, by omega, fun _ => unfinished, by omega, by omega⟩

/-- A tag is a loop, and the second time round it divides by zero. -/
theorem span_of_mistake_in_loop :
    ∃ (source : String) (d : Diagnostic), source = "i=1@t WHILE TRUE\x7bi=6/i-6\x7d@t" ∧
      Mistake source d ∧ d.message = "Division by zero" ∧ d.span = ⟨19, 22⟩ ∧
      (d.span.clampTo source.length).Within source := by
  obtain ⟨ts, p, scanned, read, run_fault⟩ :
      ∃ ts p, Token.scan "i=1@t WHILE TRUE\x7bi=6/i-6\x7d@t" = .ok ts ∧
        Program.ofTokens ts = .ok p ∧
        (Machine.run 9 {} p).bind Outcome.fault? = some ⟨.divisionByZero, ⟨19, 22⟩⟩ :=
    ⟨_, _, by cbv, by cbv, rfl⟩
  obtain ⟨outcome, run_eq, failed⟩ := Option.bind_eq_some_iff.mp run_fault
  have mistake := Mistake.failed (Program.ofSource_eq_ok_iff.mpr ⟨scanned, read⟩) ⟨9, run_eq⟩ failed
  exact ⟨_, _, rfl, mistake, rfl, rfl, (span_of_mistake mistake).2.2.2.2.1⟩

/-- The error of a text that is no expression lies in it too, or right after it. The empty
text is one, and all that it has is its end. -/
theorem Expr.span_of_refused (refused : Expr.ofSource source = .error d) :
    d.span.Within source ∨ ∃ position ≤ source.length, d.span = .point position := by
  unfold Expr.ofSource at refused
  cases scanned : Token.scan source with
  | error fault =>
    rw [scanned] at refused
    cases refused
    exact .inl (Token.within_of_scan_error scanned)
  | ok ts =>
    rw [scanned] at refused
    dsimp only at refused
    cases read : Expr.ofTokens ts with
    | ok e =>
      rw [read] at refused
      cases refused
    | error fault =>
      rw [read] at refused
      cases refused
      obtain ⟨-, span_eq⟩ | ⟨-, within⟩ :=
        Expr.placed_of_ofTokens (Token.clean_of_scan scanned) read
      · obtain ⟨position, le, end_eq⟩ := Token.endOf_of_scan scanned
        exact .inr ⟨position, le, span_eq.trans end_eq⟩
      · exact .inl within

end TagScript
