import TagScript.Reading.Program

/-! Reading with a cursor. One cursor moves over a list of tokens, the token before it is
looked up without asking whether there is one, and the procedures for the constructs call
each other and go round in loops. That no place out of range is looked at and that every
loop ends is nowhere built in: a reader may also stop out of range, or go deeper than any
depth to which calls are allowed. -/
namespace TagScript.Cursor

open Reading

inductive Production
  | statement
  | assignment
  | tagStatement
  | swap
  | ifStatement
  | whileStatement
  | printStatement
  | block
  | target
  | comparison
  | expression
  | term
  | factor
  | operand
  | vector
deriving DecidableEq, Repr

inductive Act
  | forward
  | back
  | read (production : Production) (start : Nat)
deriving DecidableEq, Repr

structure Step where
  act : Act
  place : Nat
deriving DecidableEq, Repr

structure State where
  place : Nat
  visits : List Visit
  bindings : List Binding
  steps : List Step
deriving Repr

def State.initial : State :=
  ⟨0, [], [], []⟩

inductive Stop
  | fault (f : Fault ParseError)
  | outOfRange
deriving DecidableEq, Repr

/-- The end of a reader is `none` if its calls go too deep. -/
abbrev Reader := ReaderT (List Token) (ExceptT Stop (StateT State Option))

section Cursor

variable {α : Type}

def note (act : Act) : Reader Unit :=
  modify fun s => { s with steps := s.steps ++ [⟨act, s.place⟩] }

def visit (v : Visit) : Reader Unit :=
  modify fun s => { s with visits := s.visits ++ [v] }

def declare (tag : String) (body : Stmt) : Reader Unit :=
  modify fun s => { s with bindings := s.bindings ++ [(tag, body)] }

def takeBindings : Reader (List Binding) :=
  modifyGet fun s => (s.bindings, { s with bindings := [] })

def place : Reader Nat := do
  return (← get).place

def atEnd : Reader Bool := do
  return (← read).length ≤ (← place)

def peek : Reader (Option Token) := do
  return (← read)[← place]?

def check (kind : Kind) : Reader Bool := do
  return (← peek).any (·.kind = kind)

def previous : Reader Token := do
  note .back
  match ← place with
  | 0 => throw .outOfRange
  | before + 1 =>
    match (← read)[before]? with
    | none => throw .outOfRange
    | some t => pure t

def forward : Reader Unit := do
  modify fun s => { s with place := s.place + 1 }
  note .forward

def advance : Reader Token := do
  if ← atEnd then previous
  else
    forward
    previous

def failAt (cause : ParseError) (span : Span) : Reader α :=
  throw (.fault ⟨cause, span⟩)

def failAtEnd (cause : ParseError) : Reader α := do
  failAt cause (endOf (← read))

def consume (expected : Expected) : Reader Token := do
  if ← check expected.kind then advance
  else
    match ← peek with
    | none => failAtEnd (.missing expected none)
    | some t => failAt (.missing expected (some t.toLexeme)) t.span

def matchKind (kind : Kind) : Reader Bool := do
  if ← check kind then
    let _ ← advance
    pure true
  else pure false

def matchOperator (operator? : Kind → Option BinaryOp) : Reader (Option BinaryOp) := do
  match (← peek).bind (operator? ·.kind) with
  | none => pure none
  | some op =>
    let _ ← advance
    pure (some op)

/-- The operator that was passed has an operand on its right, or is blamed. -/
def expectFactor : Reader Unit := do
  let operator ← previous
  if opensFactor (← peek).toList then pure ()
  else failAt (.noOperand operator.text) operator.span

def complete (production : Production) (start : Nat) (value : α) : Reader α := do
  note (.read production start)
  pure value

def tooDeep : Reader α :=
  fun _ _ => none

end Cursor

/-- What the procedures call: each other, and a loop itself to go round once more. -/
structure Calls where
  arithmetic : Level → Reader Expr
  chain : (Kind → Option BinaryOp) → Level → Expr → Reader Expr
  commaList : List Expr → Reader (List Expr)
  statement : Reader Stmt
  many : Reader Bool → List Stmt → Reader (List Stmt)

section Procedures

variable (call : Calls)

def operand (level : Level) : Reader Expr := do
  let start ← place
  expectFactor
  complete .operand start (← call.arithmetic level)

def factor : Option Token → Reader Expr
  | none => failAtEnd (.noExpression none)
  | some t =>
    match t.kind with
    | .integer => do
      let _ ← advance
      match Integer.read? t.text.toList with
      | some n => pure (.integer n t.span)
      | none => failAt (.badInteger t.text) t.span
    | .boolean => do
      let _ ← advance
      pure (.boolean (t.text = "TRUE") t.span)
    | .identifier => do
      let _ ← advance
      if ← matchKind .leftBracket then
        let index ← call.arithmetic .sum
        let _ ← consume .indexEnd
        return .element t.text index (t.span.cover (← previous).span)
      else
        return .named t.text (t.span.cover (← previous).span)
    | .leftParen => do
      let _ ← advance
      let inner ← call.arithmetic .sum
      let close ← consume .groupEnd
      pure (inner.withSpan (t.span.cover close.span))
    | .leftBracket => failAt .strayVector t.span
    | _ => failAt (.noExpression (some t.toLexeme)) t.span

def arithmetic : Level → Reader Expr
  | .sum => do
    let start ← place
    visit .expression
    let first ← call.arithmetic .term
    complete .expression start (← call.chain sumOperator? .term first)
  | .term => do
    let start ← place
    visit .term
    let first ← call.arithmetic .factor
    complete .term start (← call.chain productOperator? .factor first)
  | .factor => do
    let start ← place
    visit .factor
    complete .factor start (← factor call (← peek))

/-- Goes round once for each operator. -/
def chain (operator? : Kind → Option BinaryOp) (level : Level) (left : Expr) : Reader Expr := do
  match ← matchOperator operator? with
  | none => pure left
  | some op =>
    let right ← operand call level
    call.chain operator? level (left.combine op right)

def comparison : Reader Expr := do
  let start ← place
  visit .comparison
  let first ← call.arithmetic .sum
  complete .comparison start (← call.chain comparisonOperator? .sum first)

def target (use : TargetUse) : Reader Target := do
  let start ← place
  let name ← consume (.targetName use)
  if ← matchKind .leftBracket then
    let index ← call.arithmetic .sum
    let _ ← consume (.targetIndexEnd use)
    complete .target start ⟨name.text, some index, name.span.cover (← previous).span⟩
  else
    complete .target start ⟨name.text, none, name.span.cover (← previous).span⟩

def commaList (done : List Expr) : Reader (List Expr) := do
  let value ← call.arithmetic .sum
  if ← matchKind .comma then call.commaList (done ++ [value])
  else pure (done ++ [value])

def elements : Reader (List Expr) := do
  if ← check .rightBracket then pure []
  else call.commaList []

def vector : Reader Rhs := do
  let start ← place
  visit .vector
  let opening ← advance
  let all ← elements call
  let close ← consume .vectorEnd
  complete .vector start (.vector all (opening.span.cover close.span))

def rhs : Reader Rhs := do
  if ← check .leftBracket then vector call
  else return .scalar (← call.arithmetic .sum)

def assignment : Reader Stmt := do
  let start ← place
  visit .assignment
  let left ← target call .assignment
  let _ ← consume .assignmentSign
  let value ← rhs call
  complete .assignment start (.assign left value (left.span.cover value.span))

def swap : Reader Stmt := do
  let start ← place
  visit .swap
  let word ← advance
  let left ← target call .swap
  let right ← target call .swap
  complete .swap start (.swap left right (word.span.cover right.span))

def printStatement : Reader Stmt := do
  let start ← place
  visit .printStatement
  let word ← advance
  let value ← comparison call
  complete .printStatement start (.print value (word.span.cover value.span))

def tagStatement : Reader Stmt := do
  let start ← place
  visit .tagStatement
  let tag ← advance
  if ← matchKind .empty then
    complete .tagStatement start (.invoke tag.text tag.span)
  else
    let body ← call.statement
    declare tag.text body
    complete .tagStatement start (.declare tag.text body (tag.span.cover body.span))

def inBlock : Reader Bool := do
  return !(← check .rightBrace) && !(← atEnd)

def block (owner : BlockOwner) : Reader (List Stmt) := do
  let start ← place
  let _ ← consume (.blockStart owner)
  let body ← call.many inBlock []
  let _ ← consume (.blockEnd owner)
  complete .block start body

def ifStatement : Reader Stmt := do
  let start ← place
  visit .ifStatement
  let word ← advance
  let condition ← comparison call
  let body ← block call .ifWord
  if ← matchKind .elseWord then
    let other ← block call .elseWord
    complete .ifStatement start
      (.ifElse condition body other (word.span.cover (← previous).span))
  else
    complete .ifStatement start (.ifThen condition body (word.span.cover (← previous).span))

def whileStatement : Reader Stmt := do
  let start ← place
  visit .whileStatement
  let word ← advance
  let condition ← comparison call
  let body ← block call .whileWord
  complete .whileStatement start (.loop condition body (word.span.cover (← previous).span))

def construct : Option Token → Reader Stmt
  | none => failAtEnd (.noStatement none)
  | some t =>
    match t.kind with
    | .identifier => assignment call
    | .tag => tagStatement call
    | .swapWord => swap call
    | .ifWord => ifStatement call
    | .whileWord => whileStatement call
    | .printWord => printStatement call
    | _ => failAt (.noStatement (some t.toLexeme)) t.span

def statement : Reader Stmt := do
  let start ← place
  visit (.statement ((← read).length - start))
  complete .statement start (← construct call (← peek))

def many (goesOn : Reader Bool) (done : List Stmt) : Reader (List Stmt) := do
  if ← goesOn then
    let next ← call.statement
    call.many goesOn (done ++ [next])
  else pure done

def beforeEnd : Reader Bool := do
  return !(← atEnd)

def program : Reader Program := do
  let all ← call.many beforeEnd []
  let tags := tagNames (← read)
  return ⟨all, tags, ← takeBindings⟩

def wholeComparison : Reader Expr := do
  let value ← comparison call
  match ← peek with
  | none => pure value
  | some t => failAt (.trailing t.toLexeme) t.span

end Procedures

namespace Calls

/-- Calls of procedures that make the given calls. -/
def next (call : Calls) : Calls where
  arithmetic := Cursor.arithmetic call
  chain := Cursor.chain call
  commaList := Cursor.commaList call
  statement := Cursor.statement call
  many := Cursor.many call

/-- Calls nested up to a depth. What never ends is too deep for each of them. -/
def nested : Nat → Calls
  | 0 => ⟨fun _ => tooDeep, fun _ _ _ => tooDeep, fun _ => tooDeep, tooDeep, fun _ _ => tooDeep⟩
  | depth + 1 => (nested depth).next

end Calls

end TagScript.Cursor
