import TagScript.Proofs.Syntax.Spans
import TagScript.Reading.Expression

/-! The grammar of the language, as a relation between rows of lexemes and the
trees that they stand for. Chains are left recursive, which is how their trees
are folded. Where tokens lie is not a matter of the grammar, so its trees have
no spans. -/
namespace TagScript.Grammar

open Reading (Level)

def productSigns : List (Kind × BinaryOp) :=
  [(.star, .multiply), (.slash, .divide)]

def sumSigns : List (Kind × BinaryOp) :=
  [(.plus, .add), (.minus, .subtract)]

def comparisonSigns : List (Kind × BinaryOp) :=
  [(.equalEqual, .equal), (.bangEqual, .notEqual), (.less, .less), (.greater, .greater)]

inductive Arithmetic : Level → List Lexeme → Expr → Prop
  | integer {x : Lexeme} {n : Int64} (kind : x.kind = .integer)
      (value : Integer.read? x.text.toList = some n) :
      Arithmetic .factor [x] (.integer n .nowhere)
  | boolean {x : Lexeme} (kind : x.kind = .boolean) :
      Arithmetic .factor [x] (.boolean (x.text = "TRUE") .nowhere)
  | named {x : Lexeme} (kind : x.kind = .identifier) :
      Arithmetic .factor [x] (.named x.text .nowhere)
  | element {x opening close : Lexeme} {xs : List Lexeme} {index : Expr}
      (kind : x.kind = .identifier) (opens : opening.kind = .leftBracket)
      (inner : Arithmetic .sum xs index) (closes : close.kind = .rightBracket) :
      Arithmetic .factor (x :: opening :: (xs ++ [close])) (.element x.text index .nowhere)
  | group {opening close : Lexeme} {xs : List Lexeme} {e : Expr}
      (opens : opening.kind = .leftParen) (inner : Arithmetic .sum xs e)
      (closes : close.kind = .rightParen) :
      Arithmetic .factor (opening :: (xs ++ [close])) e
  | factor {xs : List Lexeme} {e : Expr} (first : Arithmetic .factor xs e) : Arithmetic .term xs e
  | product {xs ys : List Lexeme} {sign : Lexeme} {left right : Expr} {op : BinaryOp}
      (before : Arithmetic .term xs left) (mem : (sign.kind, op) ∈ productSigns)
      (last : Arithmetic .factor ys right) :
      Arithmetic .term (xs ++ sign :: ys) (.binary left op right .nowhere)
  | term {xs : List Lexeme} {e : Expr} (first : Arithmetic .term xs e) : Arithmetic .sum xs e
  | sum {xs ys : List Lexeme} {sign : Lexeme} {left right : Expr} {op : BinaryOp}
      (before : Arithmetic .sum xs left) (mem : (sign.kind, op) ∈ sumSigns)
      (last : Arithmetic .term ys right) :
      Arithmetic .sum (xs ++ sign :: ys) (.binary left op right .nowhere)

inductive Comparison : List Lexeme → Expr → Prop
  | sum {xs : List Lexeme} {e : Expr} (first : Arithmetic .sum xs e) : Comparison xs e
  | compare {xs ys : List Lexeme} {sign : Lexeme} {left right : Expr} {op : BinaryOp}
      (before : Comparison xs left) (mem : (sign.kind, op) ∈ comparisonSigns)
      (last : Arithmetic .sum ys right) :
      Comparison (xs ++ sign :: ys) (.binary left op right .nowhere)

inductive Elements : List Lexeme → List Expr → Prop
  | one {xs : List Lexeme} {e : Expr} (first : Arithmetic .sum xs e) : Elements xs [e]
  | more {xs ys : List Lexeme} {comma : Lexeme} {e : Expr} {es : List Expr}
      (first : Arithmetic .sum xs e) (separates : comma.kind = .comma) (others : Elements ys es) :
      Elements (xs ++ comma :: ys) (e :: es)

inductive Stored : List Lexeme → Rhs → Prop
  | scalar {xs : List Lexeme} {e : Expr} (value : Arithmetic .sum xs e) : Stored xs (.scalar e)
  | emptyVector {opening close : Lexeme} (opens : opening.kind = .leftBracket)
      (closes : close.kind = .rightBracket) : Stored [opening, close] (.vector [] .nowhere)
  | vector {opening close : Lexeme} {xs : List Lexeme} {es : List Expr}
      (opens : opening.kind = .leftBracket) (inner : Elements xs es)
      (closes : close.kind = .rightBracket) :
      Stored (opening :: (xs ++ [close])) (.vector es .nowhere)

inductive Place : List Lexeme → Target → Prop
  | whole {x : Lexeme} (kind : x.kind = .identifier) : Place [x] ⟨x.text, none, .nowhere⟩
  | element {x opening close : Lexeme} {xs : List Lexeme} {index : Expr}
      (kind : x.kind = .identifier) (opens : opening.kind = .leftBracket)
      (inner : Arithmetic .sum xs index) (closes : close.kind = .rightBracket) :
      Place (x :: opening :: (xs ++ [close])) ⟨x.text, some index, .nowhere⟩

mutual

inductive Statement : List Lexeme → Stmt → Prop
  | assign {xs ys : List Lexeme} {sign : Lexeme} {target : Target} {value : Rhs}
      (left : Place xs target) (kind : sign.kind = .equal) (right : Stored ys value) :
      Statement (xs ++ sign :: ys) (.assign target value .nowhere)
  | invoke {x alone : Lexeme} (kind : x.kind = .tag) (ends : alone.kind = .empty) :
      Statement [x, alone] (.invoke x.text .nowhere)
  | declare {x : Lexeme} {xs : List Lexeme} {body : Stmt} (kind : x.kind = .tag)
      (declared : Statement xs body) : Statement (x :: xs) (.declare x.text body .nowhere)
  | swap {word : Lexeme} {xs ys : List Lexeme} {left right : Target}
      (kind : word.kind = .swapWord) (first : Place xs left) (second : Place ys right) :
      Statement (word :: (xs ++ ys)) (.swap left right .nowhere)
  | ifThen {word : Lexeme} {xs ys : List Lexeme} {condition : Expr} {body : List Stmt}
      (kind : word.kind = .ifWord) (test : Comparison xs condition) (block : Block ys body) :
      Statement (word :: (xs ++ ys)) (.ifThen condition body .nowhere)
  | ifElse {word otherwise : Lexeme} {xs ys zs : List Lexeme} {condition : Expr}
      {body other : List Stmt} (kind : word.kind = .ifWord) (test : Comparison xs condition)
      (block : Block ys body) (kind' : otherwise.kind = .elseWord) (block' : Block zs other) :
      Statement (word :: (xs ++ (ys ++ otherwise :: zs))) (.ifElse condition body other .nowhere)
  | loop {word : Lexeme} {xs ys : List Lexeme} {condition : Expr} {body : List Stmt}
      (kind : word.kind = .whileWord) (test : Comparison xs condition) (block : Block ys body) :
      Statement (word :: (xs ++ ys)) (.loop condition body .nowhere)
  | print {word : Lexeme} {xs : List Lexeme} {value : Expr} (kind : word.kind = .printWord)
      (printed : Comparison xs value) : Statement (word :: xs) (.print value .nowhere)

inductive Block : List Lexeme → List Stmt → Prop
  | braces {opening close : Lexeme} {xs : List Lexeme} {body : List Stmt}
      (opens : opening.kind = .leftBrace) (inner : Statements xs body)
      (closes : close.kind = .rightBrace) : Block (opening :: (xs ++ [close])) body

inductive Statements : List Lexeme → List Stmt → Prop
  | nil : Statements [] []
  | cons {xs ys : List Lexeme} {s : Stmt} {rest : List Stmt} (first : Statement xs s)
      (others : Statements ys rest) : Statements (xs ++ ys) (s :: rest)

end

end TagScript.Grammar

def TagScript.Token.lexemes (ts : List Token) : List Lexeme :=
  ts.map (·.toLexeme)
