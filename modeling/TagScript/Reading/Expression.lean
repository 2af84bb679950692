import TagScript.Reading.Attempt

/-! Expressions: factors, chains of products, chains of sums, and chains of
comparisons, each chain folded to the left. -/
namespace TagScript

/-- The node of an operator; it spans both operands. -/
def Expr.combine (left : Expr) (op : BinaryOp) (right : Expr) : Expr :=
  .binary left op right (left.span.cover right.span)

namespace Reading

def productOperator? : Kind → Option BinaryOp
  | .star => some .multiply
  | .slash => some .divide
  | _ => none

def sumOperator? : Kind → Option BinaryOp
  | .plus => some .add
  | .minus => some .subtract
  | _ => none

def comparisonOperator? : Kind → Option BinaryOp
  | .equalEqual => some .equal
  | .bangEqual => some .notEqual
  | .less => some .less
  | .greater => some .greater
  | _ => none

/-- The operator before these tokens has an operand on its right. -/
def opensFactor : List Token → Bool
  | [] => false
  | t :: _ => [.identifier, .boolean, .integer, .leftParen].contains t.kind

/-- Reads on after the first operand of a chain. `operand` reads one operand. -/
def chain (operator? : Kind → Option BinaryOp) {bound : Nat}
    (operand : (ts : List Token) → ts.length < bound → Attempt (Parsed Expr ts.length))
    (left : Expr) : (ts : List Token) → ts.length < bound → Attempt (Parsed Expr bound)
  | [], h => pure ⟨left, [], h⟩
  | t :: ts, h =>
    match operator? t.kind with
    | none => pure ⟨left, t :: ts, h⟩
    | some op =>
      if opensFactor ts then do
        let right ← operand ts (Nat.lt_of_succ_lt h)
        chain operator? operand (left.combine op right.value) right.rest
          (Nat.lt_trans right.fits (Nat.lt_of_succ_lt h))
      else .fail (.noOperand t.text) t.span
termination_by ts => ts.length
decreasing_by
  have := right.fits
  simp only [List.length_cons]
  omega

inductive Level
  | factor
  | term
  | sum
deriving DecidableEq, Repr

def Level.rank : Level → Nat
  | factor => 0
  | term => 1
  | sum => 2

def arithmetic : Level → (ts : List Token) → Attempt (Parsed Expr ts.length)
  | .sum, ts => do
    .visit .expression
    let first ← arithmetic .term ts
    chain sumOperator? (fun rest _ => arithmetic .term rest) first.value first.rest first.fits
  | .term, ts => do
    .visit .term
    let first ← arithmetic .factor ts
    chain productOperator? (fun rest _ => arithmetic .factor rest) first.value first.rest
      first.fits
  | .factor, [] => do
    .visit .factor
    .fail (.noExpression none) none
  | .factor, t :: ts => do
    .visit .factor
    match t.kind with
    | .integer =>
      match Integer.read? t.text.toList with
      | some n => pure ⟨.integer n t.span, ts, by simp⟩
      | none => .fail (.badInteger t.text) t.span
    | .boolean => pure ⟨.boolean (t.text = "TRUE") t.span, ts, by simp⟩
    | .identifier =>
      match accept? .leftBracket ts with
      | none => pure ⟨.named t.text t.span, ts, by simp⟩
      | some opening => do
        have := opening.fits
        let index ← arithmetic .sum opening.rest
        let close ← expect .indexEnd index.rest
        pure ⟨.element t.text index.value (t.span.cover close.value.span), close.rest, by
          have := index.fits
          have := close.fits
          simp only [List.length_cons]
          omega⟩
    | .leftParen => do
      let inner ← arithmetic .sum ts
      let close ← expect .groupEnd inner.rest
      pure ⟨inner.value.withSpan (t.span.cover close.value.span), close.rest, by
        have := inner.fits
        have := close.fits
        simp only [List.length_cons]
        omega⟩
    | .leftBracket => .fail .strayVector t.span
    | _ => .fail (.noExpression (some t.toLexeme)) t.span
termination_by level ts => 3 * ts.length + level.rank
decreasing_by all_goals simp only [List.length_cons, Level.rank]; omega

def comparison (ts : List Token) : Attempt (Parsed Expr ts.length) := do
  .visit .comparison
  let first ← arithmetic .sum ts
  chain comparisonOperator? (fun rest _ => arithmetic .sum rest) first.value first.rest first.fits

end Reading

end TagScript
