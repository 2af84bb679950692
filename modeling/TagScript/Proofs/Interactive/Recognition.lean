import Mathlib
import TagScript.Interactive
import TagScript.Proofs.Reading.Shift

/-! Programs and expressions are told apart by their first token and the sign of an
assignment. A program that begins with a variable is an assignment and has that sign; no
expression has it anywhere, for the signs in an expression are those of its operators and
its brackets. So a line that is a program is always run, and one that is an expression is
always shown. -/
namespace TagScript

namespace Located

open Reading (Level)
open Grammar (productSigns sumSigns comparisonSigns)

/-! No sign of an assignment is in an expression. -/

section Unassigning

variable {us vs : List Token} {opening close sign : Token}

theorem unassigning_enclosed (opens : opening.kind ≠ .equal) (inner : ∀ t ∈ us, t.kind ≠ .equal)
    (closes : close.kind ≠ .equal) : ∀ t ∈ opening :: (us ++ [close]), t.kind ≠ .equal := by
  refine List.forall_mem_cons.mpr ⟨opens, List.forall_mem_append.mpr ⟨inner, ?_⟩⟩
  exact List.forall_mem_singleton.mpr closes

theorem unassigning_operation {op : BinaryOp} {signs : List (Kind × BinaryOp)}
    (mem : (sign.kind, op) ∈ signs) (apart : ∀ entry ∈ signs, entry.1 ≠ .equal)
    (before : ∀ t ∈ us, t.kind ≠ .equal) (last : ∀ t ∈ vs, t.kind ≠ .equal) :
    ∀ t ∈ us ++ sign :: vs, t.kind ≠ .equal :=
  List.forall_mem_append.mpr ⟨before, List.forall_mem_cons.mpr ⟨apart _ mem, last⟩⟩

theorem Arithmetic.unassigning {level : Level} {e : Expr} (h : Arithmetic level us e) :
    ∀ t ∈ us, t.kind ≠ .equal := by
  induction h with
  | integer kind | boolean kind | named kind =>
    exact List.forall_mem_singleton.mpr (by rw [kind]; decide)
  | element kind opens _ closes ih =>
    refine List.forall_mem_cons.mpr ⟨by rw [kind]; decide, ?_⟩
    exact unassigning_enclosed (by rw [opens]; decide) ih (by rw [closes]; decide)
  | group opens _ closes ih =>
    exact unassigning_enclosed (by rw [opens]; decide) ih (by rw [closes]; decide)
  | factor _ ih | term _ ih => exact ih
  | product _ mem _ before last | sum _ mem _ before last =>
    exact unassigning_operation mem (by decide) before last

theorem Comparison.unassigning {e : Expr} (h : Comparison us e) : ∀ t ∈ us, t.kind ≠ .equal := by
  induction h with
  | sum first => exact first.unassigning
  | compare _ mem last before => exact unassigning_operation mem (by decide) before last.unassigning

end Unassigning

/-! Where they begin. -/

variable {us : List Token}

theorem Statement.assigns {s : Stmt} (h : Statement us s)
    (variable_first : ∀ t ∈ us.head?, t.kind = .identifier) : ∃ t ∈ us, t.kind = .equal := by
  cases h with
  | assign _ kind _ => exact ⟨_, List.mem_append_right _ List.mem_cons_self, kind⟩
  | invoke kind | declare kind | swap kind | ifThen kind | ifElse kind | loop kind | print kind =>
    have other := variable_first _ rfl
    rw [kind] at other
    cases other

theorem Comparison.opens_factor {e : Expr} (h : Comparison us e) (rest : List Token) :
    Reading.opensFactor (us ++ rest) = true := by
  induction h generalizing rest with
  | sum first => exact Reading.opensFactor_of_located first rest
  | compare _ _ _ ih =>
    rw [List.append_assoc]
    exact ih _

end Located

namespace Interactive

open Reading

variable {tokens : List Token} {p : Program} {e : Expr} {line : String}

theorem isExpression_of_program (read : Program.ofTokens tokens = .ok p) :
    isExpression tokens = false := by
  obtain ⟨body, tags, bindings⟩ := p
  obtain ⟨located, -⟩ := Program.ofTokens_eq_ok_iff_located.mp read
  cases located with
  | nil => rfl
  | @cons us vs s rest first others =>
    obtain ⟨t, ts, rfl, opens⟩ := head_of_located first
    rw [List.cons_append, isExpression]
    split
    case isTrue kind =>
      obtain ⟨sign, mem, sign_kind⟩ := first.assigns (by rintro _ ⟨⟩; exact kind)
      have found : (t :: (ts ++ vs)).any (·.kind == .equal) = true :=
        List.any_eq_true.mpr ⟨sign, List.mem_append_left vs mem, beq_iff_eq.mpr sign_kind⟩
      rw [found]
      rfl
    case isFalse =>
      have table : ∀ kind ∈ openers, opensStatement kind = true := by decide
      rw [table _ opens]
      rfl

theorem isExpression_of_expression (read : Expr.ofTokens tokens = .ok e) :
    isExpression tokens = true := by
  have located := located_of_wholeComparison (Expr.ofTokens_eq_ok_iff.mp read)
  have opens := located.opens_factor []
  rw [List.append_nil] at opens
  cases tokens with
  | nil => cases opens
  | cons t ts =>
    rw [isExpression]
    split
    case isTrue =>
      have absent : (t :: ts).any (·.kind == .equal) = false :=
        List.any_eq_false.mpr fun u mem => by simpa using located.unassigning u mem
      rw [absent]
      rfl
    case isFalse other =>
      have table : ∀ kind ∈ [Kind.identifier, .boolean, .integer, .leftParen],
          kind ≠ .identifier → opensStatement kind = false := by decide
      rw [table _ (List.contains_iff_mem.mp opens) other]
      rfl

/-! What becomes of them. -/

def Runs (line : String) (p : Program) : Prop :=
  ∀ (fuel : Nat) (wanted : Verbosity) (m : Machine), match m.run fuel p with
    | none => reactToCode fuel wanted m line = none
    | some outcome => ∃ reaction, reactToCode fuel wanted m line = some reaction ∧
        reaction.machine = (flush outcome.machine).machine ∧
        reaction.transcript.out = outcome.machine.output.text ∧
        ∀ f ∈ outcome.fault?,
          .report (f.runtime.report (line ++ "\n") none) ∈ reaction.transcript.notices

def Echoes (line : String) (e : Expr) : Prop :=
  ∀ (fuel : Nat) (wanted : Verbosity) (m : Machine), ∃ reaction,
    reactToCode fuel wanted m line = some reaction ∧ reaction.machine = m ∧
      match m.symbols.eval e with
      | .ok v => reaction.transcript.out = v.text ++ "\n"
      | .error f => reaction.transcript.out = "" ∧
          .report (f.runtime.report (line ++ "\n") none) ∈ reaction.transcript.notices

theorem runs_of_program (scanned : Token.scan (line ++ "\n") = .ok tokens)
    (read : Program.ofTokens tokens = .ok p) : Runs line p := by
  intro fuel wanted m
  have other := isExpression_of_program read
  cases run_eq : m.run fuel p with
  | none =>
    simp only [reactToCode, scanned, other, Bool.false_eq_true, if_false, reactToProgram, read,
      run_eq, Option.map_none]
  | some outcome =>
    simp only [reactToCode, scanned, other, Bool.false_eq_true, if_false, reactToProgram, read,
      run_eq, Option.map_some]
    refine ⟨_, rfl, rfl, ?_, fun f fault_eq => ?_⟩
    · cases outcome.fault? <;> simp [Transcript.entries, Transcript.report, flush, Transcript.write]
    · rw [Option.mem_def.mp fault_eq]
      simp [Transcript.report]

theorem echoes_of_expression (scanned : Token.scan (line ++ "\n") = .ok tokens)
    (read : Expr.ofTokens tokens = .ok e) : Echoes line e := by
  intro fuel wanted m
  have expression := isExpression_of_expression read
  simp only [reactToCode, scanned, if_pos expression, reactToExpression, read, Option.map_some]
  refine ⟨_, rfl, rfl, ?_⟩
  cases m.symbols.eval e with
  | ok v => simp [Transcript.entries, Transcript.write]
  | error f => simp [Transcript.entries, Transcript.report]

/-- Tokens that are a program are never taken for an expression, and tokens that are one
comparison always are; so nothing is both, a line that is a program is run, and a line that
is a comparison is answered with its value. -/
theorem told_apart (tokens : List Token) :
    (∀ p, Program.ofTokens tokens = .ok p → isExpression tokens = false) ∧
    (∀ e, Expr.ofTokens tokens = .ok e → isExpression tokens = true) ∧
    (∀ p e, Program.ofTokens tokens = .ok p → Expr.ofTokens tokens ≠ .ok e) ∧
    ∀ line, Token.scan (line ++ "\n") = .ok tokens →
      (∀ p, Program.ofTokens tokens = .ok p → Runs line p) ∧
      ∀ e, Expr.ofTokens tokens = .ok e → Echoes line e := by
  refine ⟨fun p => isExpression_of_program, fun e => isExpression_of_expression,
    fun p e program expression => ?_, fun line scanned =>
      ⟨fun p => runs_of_program scanned, fun e => echoes_of_expression scanned⟩⟩
  cases (isExpression_of_program program).symm.trans (isExpression_of_expression expression)

/-- Two lines that differ by one sign. -/
theorem told_apart_element :
    ∃ (assignment comparison : List Token) (p : Program) (e : Expr),
      Token.scan ("v[0] = 1" ++ "\n") = .ok assignment ∧ Program.ofTokens assignment = .ok p ∧
      Token.scan ("v[0] == 1" ++ "\n") = .ok comparison ∧ Expr.ofTokens comparison = .ok e ∧
      isExpression assignment = false ∧ isExpression comparison = true ∧
      Runs "v[0] = 1" p ∧ Echoes "v[0] == 1" e := by
  obtain ⟨assignment, comparison, p, e, scanned, read, scanned', read'⟩ :
      ∃ assignment comparison p e,
        Token.scan ("v[0] = 1" ++ "\n") = .ok assignment ∧ Program.ofTokens assignment = .ok p ∧
        Token.scan ("v[0] == 1" ++ "\n") = .ok comparison ∧ Expr.ofTokens comparison = .ok e :=
    ⟨_, _, _, _, by cbv, by cbv, by cbv, by cbv⟩
  obtain ⟨program, -, -, runs⟩ := told_apart assignment
  obtain ⟨-, expression, -, echoes⟩ := told_apart comparison
  exact ⟨assignment, comparison, p, e, scanned, read, scanned', read', program p read,
    expression e read', (runs _ scanned).1 p read, (echoes _ scanned').2 e read'⟩

end Interactive

end TagScript
