import TagScript.Reading.ParseError
import TagScript.Syntax.Basic

/-! Attempts to read tokens as a construct. An attempt ends with a value or a
failure; on the way it notes the constructs that it visits and the bodies that
declarations give to tags. Neither has an influence on how it ends. -/
namespace TagScript.Reading

/-- A construct that an attempt begins to read. A statement is known by how
many tokens are left at its beginning. -/
inductive Visit
  | statement (remaining : Nat)
  | assignment
  | tagStatement
  | swap
  | ifStatement
  | whileStatement
  | printStatement
  | comparison
  | expression
  | term
  | factor
  | vector
deriving DecidableEq, Repr

def Visit.entry (total : Nat) (visit : Visit) : Entry where
  detail := .trace
  stage := .reading
  text := "parse " ++ match visit with
    | statement remaining => "statement at token " ++ Decimal.ofNat (total - remaining)
    | assignment => "assignment"
    | tagStatement => "tag statement"
    | swap => "swap"
    | ifStatement => "if"
    | whileStatement => "while"
    | printStatement => "print"
    | comparison => "comparison"
    | expression => "expression"
    | term => "term"
    | factor => "factor"
    | vector => "vector"

/-- A failure blames a stretch of the text, or, without one, its end. -/
structure Failure where
  cause : ParseError
  site : Option Span
deriving DecidableEq, Repr

structure Attempt (α : Type) where
  visits : List Visit
  bindings : List Binding
  result : Except Failure α

namespace Attempt

instance : Monad Attempt where
  pure a := ⟨[], [], .ok a⟩
  bind x f :=
    match x.result with
    | .error e => ⟨x.visits, x.bindings, .error e⟩
    | .ok a =>
      let y := f a
      ⟨x.visits ++ y.visits, x.bindings ++ y.bindings, y.result⟩

def visit (v : Visit) : Attempt Unit :=
  ⟨[v], [], .ok ()⟩

def declare (tag : String) (body : Stmt) : Attempt Unit :=
  ⟨[], [(tag, body)], .ok ()⟩

def fail {α : Type} (cause : ParseError) (site : Option Span) : Attempt α :=
  ⟨[], [], .error ⟨cause, site⟩⟩

variable {α β : Type}

@[simp] theorem result_pure (a : α) : (pure a : Attempt α).result = .ok a := rfl

@[simp] theorem result_bind (x : Attempt α) (f : α → Attempt β) :
    (x >>= f).result = x.result.bind fun a => (f a).result := by
  obtain ⟨visits, bindings, result⟩ := x
  cases result <;> rfl

@[simp] theorem result_visit (v : Visit) : (visit v).result = .ok () := rfl

@[simp] theorem result_declare (tag : String) (body : Stmt) :
    (declare tag body).result = .ok () := rfl

@[simp] theorem result_fail (cause : ParseError) (site : Option Span) :
    (fail cause site : Attempt α).result = .error ⟨cause, site⟩ := rfl

end Attempt

/-- A value read from tokens, and the tokens left after it. There are fewer than
`bound` of them, which is why reading comes to an end. -/
structure Parsed (α : Type) (bound : Nat) where
  value : α
  rest : List Token
  fits : rest.length < bound

def Parsed.map {α β : Type} {n : Nat} (f : α → β) (p : Parsed α n) : Parsed β n :=
  ⟨f p.value, p.rest, p.fits⟩

def Parsed.widen {α : Type} {m n : Nat} (p : Parsed α m) (h : m ≤ n) : Parsed α n :=
  ⟨p.value, p.rest, Nat.lt_of_lt_of_le p.fits h⟩

def expect (expected : Expected) : (ts : List Token) → Attempt (Parsed Token ts.length)
  | [] => .fail (.missing expected none) none
  | t :: rest =>
    if t.kind = expected.kind then pure ⟨t, rest, by simp⟩
    else .fail (.missing expected (some t.toLexeme)) t.span

def accept? (kind : Kind) : (ts : List Token) → Option (Parsed Token ts.length)
  | [] => none
  | t :: rest => if t.kind = kind then some ⟨t, rest, by simp⟩ else none

end TagScript.Reading
