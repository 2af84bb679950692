import TagScript.Machine.RuntimeError

/-! Values of expressions. They are found from left to right, and finding them
changes nothing. -/
namespace TagScript

def Value.asInteger (span : Span) (v : Value) : Checked Int64 :=
  match v.toInteger? with
  | some n => .ok n
  | none => .error ⟨.notNumber v.type, span⟩

def Value.asCondition (span : Span) (v : Value) : Checked Bool :=
  match v.toCondition? with
  | some b => .ok b
  | none => .error ⟨.notCondition v.type, span⟩

def asPosition (span : Span) (n : Int64) : Checked Nat :=
  if n < 0 then .error ⟨.negativeIndex n, span⟩ else .ok n.toInt.toNat

def checkOverflow (span : Span) (left : Int64) (op : BinaryOp) (right : Int64) :
    Option Int64 → Checked Value
  | some n => .ok (.integer n)
  | none => .error ⟨.overflow left op right, span⟩

def BinaryOp.apply (span : Span) (left : Int64) (op : BinaryOp) (right : Int64) : Checked Value :=
  match op with
  | .add => checkOverflow span left op right (Integer.add? left right)
  | .subtract => checkOverflow span left op right (Integer.sub? left right)
  | .multiply => checkOverflow span left op right (Integer.mul? left right)
  | .divide =>
    if right = 0 then .error ⟨.divisionByZero, span⟩
    else .ok (.real (Binary64.quotient left right))
  | .equal => .ok (.boolean (left = right))
  | .notEqual => .ok (.boolean (left ≠ right))
  | .less => .ok (.boolean (left < right))
  | .greater => .ok (.boolean (right < left))

namespace SymbolTable

def whole (σ : SymbolTable) (name : String) (span : Span) : Checked Value :=
  match σ[name]? with
  | some v => .ok v
  | none => .error ⟨.undefined name, span⟩

def element (σ : SymbolTable) (name : String) (position : Nat) (span : Span) : Checked Int64 :=
  match σ[name]? with
  | none => .error ⟨.undefinedVector name, span⟩
  | some (.vector elements) =>
    match elements[position]? with
    | some n => .ok n
    | none => .error ⟨.outOfRange position name elements.length, span⟩
  | some v => .error ⟨.notVector v.type name, span⟩

def eval (σ : SymbolTable) : Expr → Checked Value
  | .integer n _ => .ok (.integer n)
  | .boolean b _ => .ok (.boolean b)
  | .named name span => σ.whole name span
  | .element name index span => do
    let n ← (← σ.eval index).asInteger index.span
    let n ← σ.element name (← asPosition index.span n) span
    return .integer n
  | .binary left op right span => do
    let a ← (← σ.eval left).asInteger left.span
    let b ← (← σ.eval right).asInteger right.span
    op.apply span a b

def evalInteger (σ : SymbolTable) (e : Expr) : Checked Int64 := do
  (← σ.eval e).asInteger e.span

def evalCondition (σ : SymbolTable) (e : Expr) : Checked Bool := do
  (← σ.eval e).asCondition e.span

def evalPosition (σ : SymbolTable) (e : Expr) : Checked Nat := do
  asPosition e.span (← σ.evalInteger e)

def evalRhs (σ : SymbolTable) : Rhs → Checked Value
  | .scalar e => σ.eval e
  | .vector elements _ => do return .vector (← elements.mapM σ.evalInteger)

/-- The position that a target has in its vector, if it has an index. -/
def targetPosition (σ : SymbolTable) (t : Target) : Checked (Option Nat) :=
  match t.index with
  | none => .ok none
  | some index => do return some (← σ.evalPosition index)

/-- The integer that a variable would put into a vector. A truth value puts
none. -/
def exchangeable (σ : SymbolTable) (t : Target) (span : Span) : Checked Int64 := do
  match ← σ.whole t.name t.span with
  | .integer n => return n
  | .real x => return x.truncate
  | v => .error ⟨.notExchangeable v.type t.name, span⟩

theorem eval_element (σ : SymbolTable) (name : String) (index : Expr) (span : Span) :
    σ.eval (.element name index span) =
      (do return .integer (← σ.element name (← σ.evalPosition index) span)) := by
  simp only [eval, evalPosition, evalInteger, bind_assoc]

theorem eval_binary (σ : SymbolTable) (left right : Expr) (op : BinaryOp) (span : Span) :
    σ.eval (.binary left op right span) =
      (do op.apply span (← σ.evalInteger left) (← σ.evalInteger right)) := by
  simp only [eval, evalInteger, bind_assoc]

end SymbolTable

end TagScript
