import Mathlib
import TagScript.Proofs.Reading.Nodes
import TagScript.Proofs.Reading.Shift

/-! Spans designate exactly the text of their node. The characters under the span of a
statement, wherever it stands in a program, are a program of this one statement, and those
under the span of an expression are this expression; only the spans are counted from where
the node begins. -/
namespace TagScript

open Reading Token

variable {source : String} {us ts : List Token}

theorem Stmt.reads_excerpt {s : Stmt} (scanned : scan source = .ok ts) (sub : us <:+: ts)
    (located : Located.Statement us s) :
    ∃ vs tree, Program.ofSource (s.span.excerpt source) = .ok (vs, .ofStatements [tree]) ∧
      tree.mapSpans (·.shift s.span.start) = s := by
  have framed := located.framed ((ordered_of_scan scanned).1.part sub)
  obtain ⟨vs, lines, scanned', rfl⟩ := exists_excerpt scanned sub framed
  have there : Program.ofTokens (vs.map (·.shift s.span.start lines)) =
      .ok (.ofStatements [s]) := by
    refine Program.ofTokens_eq_ok_iff_located.mpr ⟨?_, rfl⟩
    have alone := Located.Statements.cons located .nil
    rwa [List.append_nil] at alone
  obtain ⟨p, here, p_eq⟩ := Program.exists_of_ofTokens_shift _ _ there
  have statements_eq := congrArg Program.statements p_eq
  rw [Program.ofStatements, Program.mapSpans, Stmt.mapAllSpans_eq_map] at statements_eq
  obtain ⟨tree, body_eq, tree_eq⟩ := List.map_eq_singleton_iff.mp statements_eq.symm
  have p_eq := (Program.ofTokens_eq_ok_iff_located.mp here).2
  rw [body_eq] at p_eq
  exact ⟨vs, tree, Program.ofSource_eq_ok_iff.mpr ⟨scanned', p_eq ▸ here⟩, tree_eq⟩

theorem Expr.reads_excerpt {e : Expr} (scanned : scan source = .ok ts) (sub : us <:+: ts)
    (located : Located.Comparison us e) :
    ∃ tree, Expr.ofSource (e.span.excerpt source) = .ok tree ∧
      tree.mapSpans (·.shift e.span.start) = e := by
  have framed := located.framed ((ordered_of_scan scanned).1.part sub)
  obtain ⟨vs, lines, scanned', rfl⟩ := exists_excerpt scanned sub framed
  have there : Expr.ofTokens (vs.map (·.shift e.span.start lines)) = .ok e :=
    Expr.ofTokens_eq_ok_iff.mpr (wholeComparison_of_located located)
  obtain ⟨tree, here, tree_eq⟩ := Expr.exists_of_ofTokens_shift _ _ there
  exact ⟨tree, Expr.ofSource_eq_ok_iff.mpr ⟨vs, scanned', here⟩, tree_eq.symm⟩

/-- Each statement of a program, also in blocks and in the bodies of declarations, and each
expression in it is what its own stretch of the text is read as. -/
theorem Program.reads_excerpts {p : Program} (read : ofSource source = .ok (ts, p)) :
    ∀ s ∈ Stmt.allNodes p.statements,
      (∃ vs tree, ofSource (s.span.excerpt source) = .ok (vs, ofStatements [tree]) ∧
        tree.mapSpans (·.shift s.span.start) = s) ∧
      ∀ e ∈ s.exprs, ∃ tree, Expr.ofSource (e.span.excerpt source) = .ok tree ∧
        tree.mapSpans (·.shift e.span.start) = e := by
  obtain ⟨scanned, accepted⟩ := ofSource_eq_ok_iff.mp read
  obtain ⟨located, -⟩ := ofTokens_eq_ok_iff_located.mp accepted
  intro s mem
  obtain ⟨us, sub, statement⟩ := located.nodes s mem
  refine ⟨Stmt.reads_excerpt scanned sub statement, fun e mem' => ?_⟩
  obtain ⟨vs, sub', comparison⟩ := statement.exprs e mem'
  exact Expr.reads_excerpt scanned (sub'.trans sub) comparison

/-- A test in parentheses and an invocation in the body of a declaration. -/
theorem Program.reads_excerpts_in_body :
    (∃ tree, Expr.ofSource "(a)" = .ok tree ∧
      tree.mapSpans (·.shift 6) = .named "a" ⟨6, 9⟩) ∧
    ∃ vs tree, ofSource "@g" = .ok (vs, ofStatements [tree]) ∧
      tree.mapSpans (·.shift 11) = .invoke "g" ⟨11, 13⟩ := by
  obtain ⟨ts, p, read, test_mem, tag_mem⟩ :
      ∃ ts p, ofSource "@f if (a) {@g}" = .ok (ts, p) ∧
        Stmt.ifThen (.named "a" ⟨6, 9⟩) [.invoke "g" ⟨11, 13⟩] ⟨3, 14⟩ ∈
          Stmt.allNodes p.statements ∧
        Stmt.invoke "g" ⟨11, 13⟩ ∈ Stmt.allNodes p.statements :=
    ⟨_, _, by cbv, .tail _ (.head _), .tail _ (.tail _ (.head _))⟩
  have test_eq : Span.excerpt ⟨6, 9⟩ "@f if (a) {@g}" = "(a)" := by cbv
  have tag_eq : Span.excerpt ⟨11, 13⟩ "@f if (a) {@g}" = "@g" := by cbv
  have test := (reads_excerpts read _ test_mem).2 (.named "a" ⟨6, 9⟩) (.head _)
  have tag := (reads_excerpts read _ tag_mem).1
  exact ⟨test_eq ▸ test, tag_eq ▸ tag⟩

end TagScript
