import TagScript.Syntax.Basic

/-! What occurs in a tree: its nodes, the variables that it names anywhere, and the tags
that running it invokes. To run a declaration does nothing, so its body invokes nothing;
the nodes and the variables in it are there all the same. -/
namespace TagScript

def Expr.inside : Expr → List Expr
  | integer _ _ | boolean _ _ | named _ _ => []
  | element _ index _ => index :: index.inside
  | binary left _ right _ => left :: (left.inside ++ right :: right.inside)

def Expr.nodes (e : Expr) : List Expr :=
  e :: e.inside

theorem Expr.inside_withSpan (e : Expr) (s : Span) : (e.withSpan s).inside = e.inside := by
  cases e <;> rfl

def Rhs.exprs : Rhs → List Expr
  | scalar value => value.nodes
  | vector elements _ => elements.flatMap Expr.nodes

def Target.exprs (t : Target) : List Expr :=
  match t.index with
  | none => []
  | some index => index.nodes

namespace Stmt

/-- The expressions in a statement, without those in statements inside it. -/
def exprs : Stmt → List Expr
  | assign target value _ => target.exprs ++ value.exprs
  | declare .. | invoke .. => []
  | swap left right _ => left.exprs ++ right.exprs
  | ifThen condition _ _ | ifElse condition _ _ _ | loop condition _ _ | print condition _ =>
    condition.nodes

mutual

def inside : Stmt → List Stmt
  | .assign .. | .invoke .. | .swap .. | .print .. => []
  | .declare _ body _ => body :: body.inside
  | .ifThen _ body _ | .loop _ body _ => Stmt.allNodes body
  | .ifElse _ body other _ => Stmt.allNodes body ++ Stmt.allNodes other

def allNodes : List Stmt → List Stmt
  | [] => []
  | s :: rest => s :: (s.inside ++ Stmt.allNodes rest)

end

end Stmt

def Expr.vars : Expr → List String
  | integer _ _ | boolean _ _ => []
  | named name _ => [name]
  | element name index _ => name :: index.vars
  | binary left _ right _ => left.vars ++ right.vars

def Rhs.vars : Rhs → List String
  | scalar value => value.vars
  | vector elements _ => elements.flatMap Expr.vars

def Target.vars (t : Target) : List String :=
  t.name :: match t.index with
    | none => []
    | some index => index.vars

namespace Stmt

mutual

def vars : Stmt → List String
  | .assign target value _ => target.vars ++ value.vars
  | .declare _ body _ => body.vars
  | .invoke _ _ => []
  | .swap left right _ => left.vars ++ right.vars
  | .ifThen condition body _ | .loop condition body _ =>
    condition.vars ++ Stmt.allVars body
  | .ifElse condition body other _ =>
    condition.vars ++ (Stmt.allVars body ++ Stmt.allVars other)
  | .print value _ => value.vars

def allVars : List Stmt → List String
  | [] => []
  | s :: rest => s.vars ++ Stmt.allVars rest

end

mutual

/-- The tags of the invocations that stand outside declarations. -/
def invocations : Stmt → List String
  | .assign .. | .declare .. | .swap .. | .print .. => []
  | .invoke tag _ => [tag]
  | .ifThen _ body _ | .loop _ body _ => Stmt.allInvocations body
  | .ifElse _ body other _ => Stmt.allInvocations body ++ Stmt.allInvocations other

def allInvocations : List Stmt → List String
  | [] => []
  | s :: rest => s.invocations ++ Stmt.allInvocations rest

end

variable {body : List Stmt} {s : Stmt}

theorem mem_allVars_iff {name : String} :
    name ∈ allVars body ↔ ∃ s ∈ body, name ∈ s.vars := by
  induction body with
  | nil => simp [allVars]
  | cons s rest ih => simp [allVars, ih]

theorem mem_allInvocations_iff {tag : String} :
    tag ∈ allInvocations body ↔ ∃ s ∈ body, tag ∈ s.invocations := by
  induction body with
  | nil => simp [allInvocations]
  | cons s rest ih => simp [allInvocations, ih]

end Stmt

end TagScript
