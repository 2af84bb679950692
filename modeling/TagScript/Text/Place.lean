/-! Lines and columns. A line ends at a line feed, a carriage return, both
together, or at one of the other vertical separators of Unicode. The
characters that end a line are its last columns. -/
namespace TagScript

/-- Line and column, both counted from 1. -/
structure Place where
  line : Nat
  column : Nat
deriving DecidableEq, Repr

namespace Place

def isLineEnd (c : Char) : Bool :=
  let n := c.toNat
  (10 ≤ n && n ≤ 13) || n == 0x85 || n == 0x2028 || n == 0x2029

/-- The character after `c` opens a new line. A carriage return leaves this to
a line feed that follows it. -/
def closesLine (c : Char) (rest : List Char) : Bool :=
  isLineEnd c && !(c == '\r' && rest.head? == some '\n')

/-- The place that lies `distance` characters into `text`, when the text itself
begins at `here`. -/
def advance (here : Place) : (text : List Char) → (distance : Nat) → Place
  | c :: rest, distance + 1 =>
    advance (if closesLine c rest then ⟨here.line + 1, 1⟩ else ⟨here.line, here.column + 1⟩)
      rest distance
  | [], _ => here
  | _ :: _, 0 => here

def ofOffset (text : List Char) (offset : Nat) : Place :=
  advance ⟨1, 1⟩ text offset

end Place

end TagScript
