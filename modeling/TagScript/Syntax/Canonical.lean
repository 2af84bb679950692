import TagScript.Syntax.Basic

/-! The canonical text of a tree. Arithmetic is in full parentheses; chains of
comparisons stand bare, for no comparison can be put in parentheses. Every
statement has a line of its own, because the end of the line is what ends the
invocation of a tag. -/
namespace TagScript

def Expr.chars : Expr → List Char
  | integer n _ => (Integer.text n).toList
  | boolean true _ => "TRUE".toList
  | boolean false _ => "FALSE".toList
  | named name _ => name.toList
  | element name index _ => name.toList ++ '[' :: index.chars ++ [']']
  | binary left op right _ =>
    let bare := left.chars ++ ' ' :: op.symbol.toList ++ ' ' :: right.chars
    if op.isComparison then bare else '(' :: bare ++ [')']

def Expr.listChars : List Expr → List Char
  | [] => []
  | [e] => e.chars
  | e :: es => e.chars ++ ',' :: ' ' :: listChars es

def Rhs.chars : Rhs → List Char
  | scalar value => value.chars
  | vector elements _ => '[' :: Expr.listChars elements ++ [']']

def Target.chars (t : Target) : List Char :=
  match t.index with
  | none => t.name.toList
  | some index => t.name.toList ++ '[' :: index.chars ++ [']']

mutual

def Stmt.chars : Stmt → List Char
  | .assign target value _ => target.chars ++ " = ".toList ++ value.chars
  | .declare tag body _ => '@' :: tag.toList ++ ' ' :: body.chars
  | .invoke tag _ => '@' :: tag.toList
  | .swap left right _ => "SWAP ".toList ++ left.chars ++ ' ' :: right.chars
  | .ifThen condition body _ =>
    "IF ".toList ++ condition.chars ++ " \x7b\n".toList ++ Stmt.lines body ++ ['}']
  | .ifElse condition body other _ =>
    "IF ".toList ++ condition.chars ++ " \x7b\n".toList ++ Stmt.lines body ++
      "\x7d ELSE \x7b\n".toList ++ Stmt.lines other ++ ['}']
  | .loop condition body _ =>
    "WHILE ".toList ++ condition.chars ++ " \x7b\n".toList ++ Stmt.lines body ++ ['}']
  | .print value _ => "PRINT ".toList ++ value.chars

def Stmt.lines : List Stmt → List Char
  | [] => []
  | s :: rest => s.chars ++ '\n' :: Stmt.lines rest

end

def Expr.canonical (e : Expr) : String :=
  String.ofList e.chars

def Stmt.canonical (s : Stmt) : String :=
  String.ofList s.chars

def Program.canonical (p : Program) : String :=
  String.ofList (Stmt.lines p.statements)

end TagScript
