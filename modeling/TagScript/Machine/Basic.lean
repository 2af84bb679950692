import TagScript.Machine.Evaluation

/-! The machine that runs programs, and the statements that it runs in one go:
assignment, exchange and printing. One that fails leaves no machine behind, so
the machine before it is still the one that counts. -/
namespace TagScript

/-- Where printed values go: as lines to a terminal, or kept as they are. -/
inductive Output
  | console (text : String)
  | captured (values : Array Value)
deriving DecidableEq, Repr

namespace Output

def emit (v : Value) : Output → Output
  | console text => console (text ++ v.text ++ "\n")
  | captured values => captured (values.push v)

/-- Forgets what was kept. What a terminal has shown stays. -/
def clear : Output → Output
  | console text => console text
  | captured _ => captured #[]

def text : Output → String
  | console text => text
  | captured _ => ""

def values : Output → Array Value
  | console _ => #[]
  | captured values => values

end Output

def Machine.defaultLimit : Nat := 256

structure Machine where
  symbols : SymbolTable := ∅
  tags : TagTable := ∅
  output : Output := .captured #[]
  /-- The most invocations of tags that may be active at a time. -/
  limit : Nat := Machine.defaultLimit
  depth : Nat := 0

namespace Machine

def assign (m : Machine) (target : Target) (value : Rhs) : Checked Machine :=
  match target.index with
  | none => do
    return { m with symbols := m.symbols.assign target.name (← m.symbols.evalRhs value) }
  | some index => do
    let position ← m.symbols.evalPosition index
    let n ← (← m.symbols.evalRhs value).asInteger value.span
    let _ ← m.symbols.element target.name position target.span
    return { m with symbols := m.symbols.setElement target.name position n }

/-- Both indices are found and both contents read before either is written. -/
def swap (m : Machine) (left right : Target) (span : Span) : Checked Machine := do
  let σ := m.symbols
  let leftPosition ← σ.targetPosition left
  let rightPosition ← σ.targetPosition right
  match leftPosition, rightPosition with
  | none, none =>
    let a ← σ.whole left.name left.span
    let b ← σ.whole right.name right.span
    return { m with symbols := (σ.assign left.name b).assign right.name a }
  | some i, none =>
    let a ← σ.element left.name i left.span
    let b ← σ.exchangeable right span
    return { m with symbols := (σ.setElement left.name i b).assign right.name (.integer a) }
  | none, some j =>
    let a ← σ.exchangeable left span
    let b ← σ.element right.name j right.span
    return { m with symbols := (σ.assign left.name (.integer b)).setElement right.name j a }
  | some i, some j =>
    let a ← σ.element left.name i left.span
    let b ← σ.element right.name j right.span
    return { m with symbols := (σ.setElement left.name i b).setElement right.name j a }

def print (m : Machine) (value : Expr) : Checked Machine := do
  return { m with output := m.output.emit (← m.symbols.eval value) }

def bodyOf (m : Machine) (tag : String) (span : Span) : Checked Stmt :=
  match m.tags[tag]? with
  | none => .error ⟨.undeclaredTag tag, span⟩
  | some none => .error ⟨.emptyTag tag, span⟩
  | some (some body) =>
    if m.limit ≤ m.depth then .error ⟨.tooDeep tag m.limit, span⟩ else .ok body

/-- Takes up the tags of a program. The last body given to a tag is the one
that it has. -/
def load (m : Machine) (p : Program) : Machine :=
  let mentioned := p.tags.foldl TagTable.declare m.tags
  { m with tags := p.bindings.foldl (fun τ binding => τ.bind binding.1 binding.2) mentioned }

/-- Forgets variables, tags and kept output. The limit stays. -/
def reset (m : Machine) : Machine where
  output := m.output.clear
  limit := m.limit

end Machine

end TagScript
