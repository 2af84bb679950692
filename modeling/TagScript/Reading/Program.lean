import TagScript.Reading.Statement
import TagScript.Token.Scan

/-! Whole lists of tokens as programs and as expressions, and whole texts as
programs. -/
namespace TagScript

namespace Reading

/-- Where the text ends, as far as the tokens show: after the last of them. -/
def endOf (ts : List Token) : Span :=
  match ts.getLast? with
  | none => .point 0
  | some t => .point t.span.stop

def Failure.fault (ts : List Token) (f : Failure) : Fault ParseError :=
  ⟨f.cause, f.site.getD (endOf ts)⟩

/-- The names of the tags in a list of tokens, in order of their first mention. -/
def tagNames (ts : List Token) : List String :=
  ((ts.filter (·.kind = .tag)).map (·.text)).eraseDups

def statementList (ts : List Token) : Attempt (List Stmt) := do
  let all ← many (fun _ => false) (fun rest (_ : rest.length < ts.length + 1) => statement rest) ts
    (Nat.lt_succ_self _)
  pure all.value

def wholeComparison (ts : List Token) : Attempt Expr := do
  let whole ← comparison ts
  match whole.rest with
  | [] => pure whole.value
  | t :: _ => .fail (.trailing t.toLexeme) t.span

def journal {α : Type} (ts : List Token) (attempt : Attempt α) : List Entry :=
  attempt.visits.map (Visit.entry ts.length)

end Reading

open Reading

def Program.ofTokens (ts : List Token) : Except (Fault ParseError) Program :=
  let attempt := statementList ts
  match attempt.result with
  | .error f => .error (f.fault ts)
  | .ok body => .ok ⟨body, tagNames ts, attempt.bindings⟩

def Expr.ofTokens (ts : List Token) : Except (Fault ParseError) Expr :=
  match (wholeComparison ts).result with
  | .error f => .error (f.fault ts)
  | .ok e => .ok e

/-- The tokens of a text and the program that they are. An error of the scan
comes before any other. -/
def Program.ofSource (source : String) : Except Diagnostic (List Token × Program) :=
  match Token.scan source with
  | .error f => .error f.lexical
  | .ok ts =>
    match Program.ofTokens ts with
    | .error f => .error f.syntactic
    | .ok p => .ok (ts, p)

def Expr.ofSource (source : String) : Except Diagnostic Expr :=
  match Token.scan source with
  | .error f => .error f.lexical
  | .ok ts =>
    match Expr.ofTokens ts with
    | .error f => .error f.syntactic
    | .ok e => .ok e

def Program.sourceJournal (source : String) : List Entry :=
  Token.scanJournal source ++
    match Token.scan source with
    | .error _ => []
    | .ok ts => journal ts (statementList ts)

def Expr.sourceJournal (source : String) : List Entry :=
  Token.scanJournal source ++
    match Token.scan source with
    | .error _ => []
    | .ok ts => journal ts (wholeComparison ts)

end TagScript
