import TagScript.Diagnostic
import TagScript.Numeral.Integer
import TagScript.Token.Basic
import TagScript.Unicode.Alphabetic
import TagScript.Unicode.Casing

/-! A source text is a row of pieces: blanks, line feeds, comments, signs,
numbers, words and tags. Each piece is as long as it can be. -/
namespace TagScript

open Unicode

inductive Piece
  /-- A space, a tab or a carriage return. -/
  | blank (c : Char)
  | newline
  | comment (text : List Char)
  | sign (kind : Kind) (text : List Char)
  | number (digits : List Char)
  | word (letters : List Char)
  /-- A tag without its `@`. -/
  | tag (letters : List Char)
deriving DecidableEq, Repr

inductive LexError
  | unexpected (c : Char)
  | tooLarge (digits : List Char)
  | namelessTag
deriving DecidableEq, Repr

def LexError.message : LexError → String
  | .unexpected c => "Unexpected character: '" ++ String.singleton c ++ "'"
  | .tooLarge digits => "Integer literal too large: " ++ String.ofList digits
  | .namelessTag => "Expected tag name after '@'"

def LexError.width : LexError → Nat
  | .tooLarge digits => digits.length
  | _ => 1

def Fault.lexical (f : Fault LexError) : Diagnostic :=
  ⟨.scanning, f.span, f.cause.message, none⟩

namespace Piece

def text : Piece → List Char
  | blank c => [c]
  | newline => ['\n']
  | comment text => text
  | sign _ text => text
  | number digits => digits
  | word letters => letters
  | tag letters => '@' :: letters

def isBlank : Piece → Bool
  | blank _ => true
  | _ => false

/-- The signs of one character that no longer sign begins with. -/
def sign? : Char → Option Kind
  | '(' => some .leftParen
  | ')' => some .rightParen
  | '{' => some .leftBrace
  | '}' => some .rightBrace
  | '[' => some .leftBracket
  | ']' => some .rightBracket
  | ',' => some .comma
  | '+' => some .plus
  | '*' => some .star
  | '/' => some .slash
  | '<' => some .less
  | '>' => some .greater
  | _ => none

def lineRest (cs : List Char) : List Char :=
  cs.takeWhile (· ≠ '\n')

def ofDigits (digits : List Char) : Except LexError Piece :=
  if (Integer.read? digits).isSome then .ok (number digits) else .error (.tooLarge digits)

def ofTagLetters (letters : List Char) : Except LexError Piece :=
  if letters = [] then .error .namelessTag else .ok (tag letters)

/-- The piece that begins with `c` when `cs` follows it. -/
def first (c : Char) (cs : List Char) : Except LexError Piece :=
  match sign? c with
  | some kind => .ok (sign kind [c])
  | none =>
    match c, cs with
    | '-', '-' :: _ | '-', '>' :: _ => .ok (comment ('-' :: lineRest cs))
    | '-', _ => .ok (sign .minus ['-'])
    | '=', '=' :: _ => .ok (sign .equalEqual ['=', '='])
    | '=', _ => .ok (sign .equal ['='])
    | '!', '=' :: _ => .ok (sign .bangEqual ['!', '='])
    | '!', _ => .error (.unexpected '!')
    | '@', _ => ofTagLetters (cs.takeWhile isAlphabetic)
    | ' ', _ | '\r', _ | '\t', _ => .ok (blank c)
    | '\n', _ => .ok newline
    | _, _ =>
      if Decimal.isDigit c then ofDigits (c :: cs.takeWhile Decimal.isDigit)
      else if isAlphabetic c then .ok (word (c :: cs.takeWhile isAlphabetic))
      else .error (.unexpected c)

end Piece

end TagScript
