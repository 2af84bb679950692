import TagScript.Token.Piece

/-! The tokens of a source text. Blanks, line feeds and comments between them
leave no token, but a tag with nothing after it on its line is followed by an
empty token, which ends it. -/
namespace TagScript

open Unicode

def keywords : List (String × Kind) :=
  [("PRINT", .printWord), ("SWAP", .swapWord), ("IF", .ifWord), ("ELSE", .elseWord),
   ("WHILE", .whileWord), ("TRUE", .boolean), ("FALSE", .boolean)]

/-- A word is a keyword if its upper case is one, and a name otherwise. -/
def Lexeme.ofWord (letters : List Char) : Lexeme :=
  let upper := String.ofList (uppercase letters)
  match keywords.lookup upper with
  | some kind => ⟨kind, upper⟩
  | none => ⟨.identifier, String.ofList (lowercase letters)⟩

/-- Names of tags are never keywords. -/
def Lexeme.ofTag (letters : List Char) : Lexeme :=
  ⟨.tag, String.ofList (lowercase letters)⟩

namespace Piece

def lexeme? : Piece → Option Lexeme
  | blank _ | newline | comment _ => none
  | sign kind text => some ⟨kind, String.ofList text⟩
  | number digits => some ⟨.integer, String.ofList digits⟩
  | word letters => some (Lexeme.ofWord letters)
  | tag letters => some (Lexeme.ofTag letters)

/-- Only blanks lie before the end of the line, a comment or a closing brace. -/
def lineOver (cs : List Char) : Bool :=
  match cs.dropWhile [' ', '\t', '\r'].contains with
  | [] | '\n' :: _ | '}' :: _ | '-' :: '-' :: _ | '-' :: '>' :: _ => true
  | _ => false

def standsAlone (piece : Piece) (rest : List Char) : Bool :=
  match piece with
  | tag _ => lineOver rest
  | _ => false

def tokens (piece : Piece) (position line : Nat) (alone : Bool) : List Token :=
  match piece.lexeme? with
  | none => []
  | some x =>
    let stop := position + piece.text.length
    ⟨x, ⟨position, stop⟩, line⟩ :: if alone then [⟨⟨.empty, ""⟩, ⟨stop, stop⟩, line⟩] else []

end Piece

namespace Token

def scanFrom (position line : Nat) : List Char → Except (Fault LexError) (List Token)
  | [] => .ok []
  | c :: cs =>
    match Piece.first c cs with
    | .error e => .error ⟨e, position, position + e.width⟩
    | .ok piece =>
      let rest := cs.drop (piece.text.length - 1)
      (scanFrom (position + piece.text.length) (if piece = .newline then line + 1 else line)
        rest).map (piece.tokens position line (piece.standsAlone rest) ++ ·)
termination_by cs => cs.length
decreasing_by simp only [List.length_drop, List.length_cons]; omega

def scan (source : String) : Except (Fault LexError) (List Token) :=
  scanFrom 0 1 source.toList

/-- One more than the line feeds of a text. -/
def lines (source : String) : Nat :=
  source.toList.count '\n' + 1

def scanJournal (source : String) : List Entry :=
  match scan source with
  | .error _ => []
  | .ok tokens =>
    [⟨.trace, .scanning, "scanned " ++ Decimal.ofNat tokens.length ++ " tokens over " ++
      Decimal.ofNat (lines source) ++ " lines"⟩]

end Token

end TagScript
