import TagScript.Text.Span
import TagScript.Numeral.Decimal

/-! Tokens: the words and signs of a source text. -/
namespace TagScript

inductive Kind
  | leftParen
  | rightParen
  | leftBrace
  | rightBrace
  | leftBracket
  | rightBracket
  | comma
  | minus
  | plus
  | slash
  | star
  | less
  | greater
  | equal
  | equalEqual
  | bangEqual
  | identifier
  | integer
  | boolean
  | tag
  | printWord
  | swapWord
  | ifWord
  | elseWord
  | whileWord
  /-- Follows a tag that stands alone on its line. -/
  | empty
deriving DecidableEq, Repr

/-- A kind and a text. The text is upper case for keywords and truth values,
lower case for names, and as written for everything else. -/
structure Lexeme where
  kind : Kind
  text : String
deriving DecidableEq, Repr

structure Token extends Lexeme where
  span : Span
  line : Nat
deriving DecidableEq, Repr

def Kind.name : Kind → String
  | .leftParen => "LeftParen"
  | .rightParen => "RightParen"
  | .leftBrace => "LeftBrace"
  | .rightBrace => "RightBrace"
  | .leftBracket => "LeftBracket"
  | .rightBracket => "RightBracket"
  | .comma => "Comma"
  | .minus => "Minus"
  | .plus => "Plus"
  | .slash => "Slash"
  | .star => "Star"
  | .less => "Less"
  | .greater => "Greater"
  | .equal => "Equal"
  | .equalEqual => "EqualEqual"
  | .bangEqual => "BangEqual"
  | .identifier => "Identifier"
  | .integer => "Integer"
  | .boolean => "Boolean"
  | .tag => "Tag"
  | .printWord => "Print"
  | .swapWord => "Swap"
  | .ifWord => "If"
  | .elseWord => "Else"
  | .whileWord => "While"
  | .empty => "Empty"

/-- The text varies between tokens of the same kind. -/
def Kind.isOpen : Kind → Bool
  | .identifier | .integer | .boolean | .tag => true
  | _ => false

def Lexeme.describe (x : Lexeme) : String :=
  match x.kind with
  | .empty => "end of line"
  | .tag => "'@" ++ x.text ++ "'"
  | _ => "'" ++ x.text ++ "'"

/-- The text, filled up with blanks on the left to the given width. -/
def alignRight (width : Nat) (text : String) : String :=
  String.ofList (List.replicate (width - text.length) ' ') ++ text

def Token.entry (t : Token) : String :=
  alignRight 4 (Decimal.ofNat t.line) ++ "  " ++ t.kind.name ++
    if t.kind.isOpen then "(" ++ t.text ++ ")" else ""

end TagScript
