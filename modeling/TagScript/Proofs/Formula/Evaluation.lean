import TagScript.Proofs.Formula.Writing
import TagScript.Proofs.Machine.Steps

/-! What comes of printing a formula: its exact value, if the value of every subtree is an
integer of the language, and otherwise an overflow where the first of them stands that is not. -/
namespace TagScript

namespace Formula

def Fits (f : Formula) : Prop :=
  Integer.smallest ≤ f.value ∧ f.value ≤ Integer.largest

instance : DecidablePred Fits :=
  fun f => inferInstanceAs (Decidable (Integer.smallest ≤ f.value ∧ f.value ≤ Integer.largest))

end Formula

namespace Writing

variable {i : Nat}

/-- The subtrees other than the whole formula, with the places of their texts. -/
def parts {i : Nat} (position : Nat) : Writing i → List (Span × Formula)
  | literal _ => []
  | group before inner _ => inner.parts (position + 1 + before.chars.length)
  | operation left before _ after right _ _ =>
    let further := position + left.chars.length + before.chars.length + 1 + after.chars.length
    left.parts position ++ [(left.extent position, left.formula)] ++
      (right.parts further ++ [(right.extent further, right.formula)])

/-- The subtrees with the places of their texts, in the order in which they are found. The text
of a subtree takes in all parentheses around it. -/
def nodes (position : Nat) (w : Writing i) : List (Span × Formula) :=
  w.parts position ++ [(w.extent position, w.formula)]

theorem map_nodes (w : Writing i) (position : Nat) :
    (w.nodes position).map (·.2) = w.formula.subtrees := by
  induction w generalizing position with
  | literal numeral => rfl
  | group before inner after ih =>
    rw [formula, ← ih (position + 1 + before.chars.length)]
    simp [nodes, parts, formula]
  | operation left before sign after right _ _ ih ih' =>
    rw [formula, Formula.subtrees, ← ih position, ← ih' (position + left.chars.length +
      before.chars.length + 1 + after.chars.length)]
    simp [nodes, parts, formula]

def Stands (position : Nat) (cs : List Char) (x : Span × Formula) : Prop :=
  ∃ (j : Nat) (v : Writing j) (before after : List Char), cs = before ++ v.chars ++ after ∧
    x = (v.extent (position + before.length), v.formula)

theorem Stands.surround {position : Nat} {cs : List Char} {x : Span × Formula}
    {before : List Char} (h : Stands (position + before.length) cs x) (after : List Char) :
    Stands position (before ++ cs ++ after) x := by
  obtain ⟨j, v, first, last, rfl, rfl⟩ := h
  refine ⟨j, v, before ++ first, last ++ after, ?_, ?_⟩
  · simp only [List.append_assoc]
  · rw [List.length_append, Nat.add_assoc]

theorem stands_of_mem_nodes {w : Writing i} {position : Nat} {x : Span × Formula}
    (mem : x ∈ w.nodes position) : Stands position w.chars x := by
  induction w generalizing position with
  | literal numeral =>
    cases List.mem_singleton.mp mem
    exact ⟨_, literal numeral, [], [], by simp, rfl⟩
  | group before inner after ih =>
    rcases List.mem_append.mp mem with below | here
    · have inside : Stands (position + ('(' :: before.chars).length) inner.chars x := by
        rw [List.length_cons, ← Nat.add_assoc, Nat.add_right_comm]
        exact ih (List.mem_append_left _ below)
      have around := inside.surround (after.chars ++ [')'])
      rwa [List.append_assoc, List.cons_append, ← List.append_assoc, ← List.append_assoc] at around
    · cases List.mem_singleton.mp here
      exact ⟨_, group before inner after, [], [], by simp, rfl⟩
  | operation left before sign after right h h' ih ih' =>
    rcases List.mem_append.mp mem with below | here
    · rcases List.mem_append.mp below with first | last
      · have inside : Stands (position + ([] : List Char).length) left.chars x := ih first
        have around := inside.surround (before.chars ++ sign.char :: (after.chars ++ right.chars))
        rwa [List.nil_append, ← List.append_assoc] at around
      · have place_eq : position + (left.chars ++ before.chars ++ sign.char :: after.chars).length =
            position + left.chars.length + before.chars.length + 1 + after.chars.length := by
          simp only [List.length_append, List.length_cons]
          omega
        have inside : Stands (position + (left.chars ++ before.chars ++
            sign.char :: after.chars).length) right.chars x := by
          rw [place_eq]
          exact ih' last
        have around := inside.surround []
        rwa [List.append_nil, List.append_assoc, List.cons_append] at around
    · cases List.mem_singleton.mp here
      exact ⟨_, operation left before sign after right h h', [], [], by simp, rfl⟩

end Writing

inductive Settles (nodes : List (Span × Formula)) (f : Formula) : Checked Value → Prop
  | value {n : Int64} (fits : ∀ x ∈ nodes, x.2.Fits) (exact : n.toInt = f.value) :
      Settles nodes f (.ok (.integer n))
  | overflow {earlier later : List (Span × Formula)} {span : Span} {left right : Formula}
      {sign : Sign} {a b : Int64}
      (nodes_eq : nodes = earlier ++ (span, .operation left sign right) :: later)
      (fits : ∀ x ∈ earlier, x.2.Fits) (beyond : ¬(Formula.operation left sign right).Fits)
      (left_eq : a.toInt = left.value) (right_eq : b.toInt = right.value) :
      Settles nodes f (.error ⟨.overflow a sign.op b, span⟩)

theorem exists_ofInt? {f : Formula} (fits : f.Fits) :
    ∃ n : Int64, Integer.ofInt? f.value = some n ∧ n.toInt = f.value := by
  have ofInt_eq : Integer.ofInt? f.value = some (Int64.ofInt f.value) := if_pos fits
  exact ⟨_, ofInt_eq, Integer.toInt_of_ofInt? ofInt_eq⟩

theorem Numeral.fits (numeral : Numeral) :
    (Formula.literal (Decimal.value numeral.digits)).Fits := by
  have small := numeral.small
  simp only [Formula.Fits, Formula.value, Integer.smallest, Integer.largest]
  omega

theorem Sign.apply_op (sign : Sign) (span : Span) (a b : Int64) :
    sign.op.apply span a b =
      checkOverflow span a sign.op b (Integer.ofInt? (sign.apply a.toInt b.toInt)) := by
  cases sign <;> rfl

namespace Settles

variable {left right : Formula} {xs ys : List (Span × Formula)} {r q : Checked Value}

theorem operation (before : Settles xs left r) (last : Settles ys right q) (sign : Sign)
    (span s t : Span) :
    Settles (xs ++ ys ++ [(span, .operation left sign right)]) (.operation left sign right) (do
      let a ← (← r).asInteger s
      let b ← (← q).asInteger t
      sign.op.apply span a b) := by
  cases before with
  | overflow nodes_eq fits beyond left_eq right_eq =>
    rw [nodes_eq, List.append_assoc, List.append_assoc, List.cons_append]
    exact .overflow rfl fits beyond left_eq right_eq
  | @value a fits exact =>
    cases last with
    | overflow nodes_eq fits' beyond left_eq right_eq =>
      rw [nodes_eq, List.append_assoc, List.append_assoc, List.cons_append, ← List.append_assoc]
      exact .overflow rfl (List.forall_mem_append.mpr ⟨fits, fits'⟩) beyond left_eq right_eq
    | @value b fits' exact' =>
      have below := List.forall_mem_append.mpr ⟨fits, fits'⟩
      have computed : sign.op.apply span a b = checkOverflow span a sign.op b
          (Integer.ofInt? (Formula.operation left sign right).value) := by
        rw [sign.apply_op, exact, exact', Formula.value]
      change Settles _ _ (sign.op.apply span a b)
      rw [computed]
      by_cases here : (Formula.operation left sign right).Fits
      · obtain ⟨n, ofInt_eq, value_eq⟩ := exists_ofInt? here
        rw [ofInt_eq]
        exact .value (List.forall_mem_append.mpr ⟨below, List.forall_mem_singleton.mpr here⟩)
          value_eq
      · have ofInt_eq : Integer.ofInt? (Formula.operation left sign right).value = none :=
          if_neg here
        rw [ofInt_eq]
        exact .overflow rfl below here exact exact'

end Settles

namespace Machine

variable {m : Machine} {e : Expr} {span : Span}

theorem next_print (m : Machine) (e : Expr) (span : Span) :
    (m.start ⟨[.print e span], [], []⟩).next = Run.after [] m (m.print e) := rfl

theorem endsIn_print {v : Value} (h : m.symbols.eval e = .ok v) :
    m.EndsIn ⟨[.print e span], [], []⟩ (.done { m with output := m.output.emit v }) := by
  have next_eq := next_print m e span
  rw [print, h] at next_eq
  exact Run.EndsIn.later next_eq (.now rfl)

theorem endsIn_print_error {fault : Fault RuntimeError} (h : m.symbols.eval e = .error fault) :
    m.EndsIn ⟨[.print e span], [], []⟩ (.failed fault m) := by
  have next_eq := next_print m e span
  rw [print, h] at next_eq
  exact Run.EndsIn.now next_eq

end Machine

namespace Writing

theorem eval_expr_self {i : Nat} (w : Writing i) (σ : SymbolTable) (position : Nat) :
    σ.eval ((w.expr position).withSpan (w.extent position)) = σ.eval (w.expr position) := by
  rw [← span_expr, Expr.withSpan_span]

/-- The parentheses around a formula have a part only in where an overflow of the formula itself
is. -/
theorem settles_withSpan {i : Nat} (w : Writing i) (σ : SymbolTable) (position : Nat)
    (span : Span) :
    Settles (w.parts position ++ [(span, w.formula)]) w.formula
      (σ.eval ((w.expr position).withSpan span)) := by
  -- for any span, since parentheses give the formula in them another one
  induction w generalizing position span with
  | literal numeral =>
    exact .value (List.forall_mem_singleton.mpr numeral.fits)
      (Integer.toInt_of_ofInt? (if_pos numeral.fits))
  | group before inner after ih =>
    rw [expr, Expr.withSpan_withSpan]
    exact ih (position + 1 + before.chars.length) span
  | operation left before sign after right _ _ ih ih' =>
    let further := position + left.chars.length + before.chars.length + 1 + after.chars.length
    have first := ih position (left.extent position)
    have second := ih' further (right.extent further)
    rw [eval_expr_self] at first second
    exact first.operation second sign span _ _

theorem settles {i : Nat} (w : Writing i) (σ : SymbolTable) (position : Nat) :
    Settles (w.nodes position) w.formula (σ.eval (w.expr position)) := by
  rw [← eval_expr_self]
  exact w.settles_withSpan σ position (w.extent position)

/-- A program that prints a formula is accepted. If the values of all subtrees fit, the exact value
is kept, or its digits are a line on the terminal. Otherwise nothing is printed, and it fails where
the first subtree stands whose value does not fit. -/
theorem prints_exactly {i : Nat} (before : Gap) (w : Writing i) (after : Gap) (m : Machine) :
    ∃ ts p, Program.ofSource (w.printed before after) = .ok (ts, p) ∧
      ((∀ f ∈ w.formula.subtrees, f.Fits) ∧
        (∃ (n : Int64) (output : Output), n.toInt = w.formula.value ∧
          m.EndsIn p (.done { m with output }) ∧
          match m.output with
          | .captured values => output = .captured (values.push (.integer n))
          | .console text => output = .console (text ++ Integer.text n ++ "\n")) ∨
      ∃ earlier span left sign right later,
        w.nodes (start before) = earlier ++ (span, .operation left sign right) :: later ∧
        (∀ x ∈ earlier, x.2.Fits) ∧ ¬(Formula.operation left sign right).Fits ∧
        ∃ a b : Int64, a.toInt = left.value ∧ b.toInt = right.value ∧
          m.EndsIn p (.failed ⟨.overflow a sign.op b, span⟩ m)) := by
  obtain ⟨ts, span, accepted⟩ := ofSource_printed before w after
  refine ⟨ts, _, accepted, ?_⟩
  have settles := w.settles m.symbols (start before)
  generalize eval_eq : m.symbols.eval (w.expr (start before)) = result at settles
  cases settles with
  | @value n fits exact =>
    refine .inl ⟨fun f mem => ?_, n, _, exact, Machine.endsIn_print eval_eq, ?_⟩
    · rw [← w.map_nodes (start before)] at mem
      obtain ⟨x, here, rfl⟩ := List.mem_map.mp mem
      exact fits x here
    · cases m.output <;> rfl
  | overflow nodes_eq fits beyond left_eq right_eq =>
    exact .inr ⟨_, _, _, _, _, _, nodes_eq, fits, beyond, _, _, left_eq, right_eq,
      Machine.endsIn_print_error eval_eq⟩

end Writing

end TagScript
