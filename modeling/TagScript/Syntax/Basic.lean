import TagScript.Numeral.Integer
import TagScript.Text.Span

/-! Programs as trees. Each node keeps the span of the text that it was read
from; parentheses leave no node but widen the span of what they hold. -/
namespace TagScript

inductive BinaryOp
  | add
  | subtract
  | multiply
  | divide
  | equal
  | notEqual
  | less
  | greater
deriving DecidableEq, Repr

namespace BinaryOp

def isComparison : BinaryOp → Bool
  | equal | notEqual | less | greater => true
  | _ => false

def symbol : BinaryOp → String
  | add => "+"
  | subtract => "-"
  | multiply => "*"
  | divide => "/"
  | equal => "=="
  | notEqual => "!="
  | less => "<"
  | greater => ">"

end BinaryOp

inductive Expr
  | integer (value : Int64) (span : Span)
  | boolean (value : Bool) (span : Span)
  | named (name : String) (span : Span)
  | element (name : String) (index : Expr) (span : Span)
  | binary (left : Expr) (op : BinaryOp) (right : Expr) (span : Span)
deriving DecidableEq, Repr

namespace Expr

def span : Expr → Span
  | integer _ s | boolean _ s | named _ s | element _ _ s | binary _ _ _ s => s

def withSpan (s : Span) : Expr → Expr
  | integer n _ => integer n s
  | boolean b _ => boolean b s
  | named name _ => named name s
  | element name index _ => element name index s
  | binary left op right _ => binary left op right s

@[simp] theorem span_withSpan (s : Span) (e : Expr) : (e.withSpan s).span = s := by
  cases e <;> rfl

end Expr

/-- What an assignment stores: the value of an expression, or a new vector. -/
inductive Rhs
  | scalar (value : Expr)
  | vector (elements : List Expr) (span : Span)
deriving DecidableEq, Repr

def Rhs.span : Rhs → Span
  | scalar value => value.span
  | vector _ s => s

structure Target where
  name : String
  index : Option Expr
  span : Span
deriving DecidableEq, Repr

inductive Stmt
  | assign (target : Target) (value : Rhs) (span : Span)
  /-- Gives a tag its body. Running it does nothing. -/
  | declare (tag : String) (body : Stmt) (span : Span)
  | invoke (tag : String) (span : Span)
  | swap (left right : Target) (span : Span)
  | ifThen (condition : Expr) (body : List Stmt) (span : Span)
  | ifElse (condition : Expr) (body other : List Stmt) (span : Span)
  | loop (condition : Expr) (body : List Stmt) (span : Span)
  | print (value : Expr) (span : Span)
deriving Repr

namespace Stmt

def span : Stmt → Span
  | assign _ _ s | declare _ _ s | invoke _ s | swap _ _ s | ifThen _ _ s | ifElse _ _ _ s
  | loop _ _ s | print _ s => s

def construct : Stmt → String
  | assign .. => "assignment"
  | declare .. => "tag declaration"
  | invoke .. => "tag invocation"
  | swap .. => "swap"
  | ifThen .. | ifElse .. => "if"
  | loop .. => "while"
  | print .. => "print"

end Stmt

abbrev Binding := String × Stmt

/-- The statements of a text, the tags named anywhere in it in order of their
first mention, and the bodies declared anywhere in it in order of the ends of
their declarations. -/
structure Program where
  statements : List Stmt
  tags : List String
  bindings : List Binding
deriving Repr

end TagScript
