import TagScript.Diagnostic
import TagScript.Token.Basic

/-! Why tokens cannot be read, and the words for it. -/
namespace TagScript

namespace Reading

inductive TargetUse
  | assignment
  | swap
deriving DecidableEq, Repr

def TargetUse.name : TargetUse → String
  | .assignment => "assignment"
  | .swap => "swap"

inductive BlockOwner
  | ifWord
  | elseWord
  | whileWord
deriving DecidableEq, Repr

def BlockOwner.name : BlockOwner → String
  | .ifWord => "IF"
  | .elseWord => "ELSE"
  | .whileWord => "WHILE"

inductive Expected
  | assignmentSign
  | targetName (use : TargetUse)
  | targetIndexEnd (use : TargetUse)
  | indexEnd
  | groupEnd
  | vectorEnd
  | blockStart (owner : BlockOwner)
  | blockEnd (owner : BlockOwner)
deriving DecidableEq, Repr

namespace Expected

def message : Expected → String
  | assignmentSign => "Expected '=' after assignment target"
  | targetName use => "Expected variable name in " ++ use.name
  | targetIndexEnd use => "Expected ']' after index in " ++ use.name
  | indexEnd => "Expected ']' after index"
  | groupEnd => "Expected ')' after expression"
  | vectorEnd => "Expected ']' after vector elements"
  | blockStart owner => "Expected '\x7b' to open " ++ owner.name ++ " block"
  | blockEnd owner => "Expected '\x7d' to close " ++ owner.name ++ " block"

def help : Expected → Option String
  | assignmentSign => some "Assignments look like 'x = 1' or 'x[i] = 1'."
  | targetName _ | targetIndexEnd _ | indexEnd => none
  | groupEnd =>
    some "Parentheses hold an arithmetic expression; comparisons cannot be grouped."
  | vectorEnd => some "Vector elements are separated by commas: [1, 2, 3]"
  | blockStart owner =>
    some (owner.name ++ " bodies are enclosed in braces: " ++ owner.name ++
      " ... \x7b ... \x7d")
  | blockEnd _ => some "Every '\x7b' must be matched by a '\x7d'."

def kind : Expected → Kind
  | assignmentSign => .equal
  | targetName _ => .identifier
  | targetIndexEnd _ | indexEnd | vectorEnd => .rightBracket
  | groupEnd => .rightParen
  | blockStart _ => .leftBrace
  | blockEnd _ => .rightBrace

end Expected

end Reading

open Reading

/-- Why tokens are not a program or not an expression. What was found is absent
where the tokens end. -/
inductive ParseError
  | missing (expected : Expected) (found : Option Lexeme)
  | noStatement (found : Option Lexeme)
  | noExpression (found : Option Lexeme)
  | noOperand (operator : String)
  | strayVector
  | trailing (found : Lexeme)
  | badInteger (text : String)
deriving DecidableEq, Repr

namespace ParseError

def describe : Option Lexeme → String
  | none => "end of input"
  | some found => found.describe

def message : ParseError → String
  | missing expected found => expected.message ++ ", found " ++ describe found
  | noStatement none => "Expected statement, found " ++ describe none
  | noStatement (some found) =>
    "Unexpected token " ++ found.describe ++ " at start of statement"
  | noExpression found => "Expected expression, found " ++ describe found
  | noOperand operator => "Expected expression after '" ++ operator ++ "'"
  | strayVector => "Vector literals are only allowed on the right of '='"
  | trailing found => "Unexpected " ++ found.describe ++ " after expression"
  | badInteger text => "Invalid integer literal '" ++ text ++ "'"

def help : ParseError → Option String
  | missing expected _ => expected.help
  | noStatement (some _) =>
    some "Statements begin with a variable, a tag, PRINT, SWAP, IF or WHILE."
  | noOperand operator => some ("'" ++ operator ++ "' needs an operand on both sides.")
  | strayVector => some "Assign the vector to a variable first: v = [1, 2, 3]"
  | noStatement none | noExpression _ | trailing _ | badInteger _ => none

end ParseError

def Fault.syntactic (f : Fault ParseError) : Diagnostic :=
  ⟨.reading, f.span, f.cause.message, f.cause.help⟩

end TagScript
