import TagScript.Machine.Basic

/-! Running statements. A run is a stack of tasks and a machine, and it goes on
by one small step at a time, so that a run that never ends has its steps too. -/
namespace TagScript

inductive Task
  | perform (s : Stmt)
  | again (condition : Expr) (body : List Stmt)
  /-- Ends the invocation of a tag. -/
  | leave

def Task.sequence (statements : List Stmt) : List Task :=
  statements.map .perform

def Task.isLeave : Task → Bool
  | leave => true
  | _ => false

/-- A run on its way: what is left to do, first things first, and the machine. -/
structure Run where
  tasks : List Task
  machine : Machine

inductive Outcome
  | done (machine : Machine)
  | failed (fault : Fault RuntimeError) (machine : Machine)

namespace Outcome

def machine : Outcome → Machine
  | done m => m
  | failed _ m => m

def fault? : Outcome → Option (Fault RuntimeError)
  | done _ => none
  | failed f _ => some f

end Outcome

inductive Progress
  | goes (run : Run)
  | ends (outcome : Outcome)

namespace Run

def ofStatements (statements : List Stmt) (m : Machine) : Run :=
  ⟨Task.sequence statements, m⟩

/-- A failure ends all invocations that are active in the run. -/
def fail (rest : List Task) (m : Machine) (f : Fault RuntimeError) : Progress :=
  .ends (.failed f { m with depth := m.depth - rest.countP Task.isLeave })

def after (rest : List Task) (m : Machine) : Checked Machine → Progress
  | .ok m' => .goes ⟨rest, m'⟩
  | .error f => fail rest m f

def repeatWhile (condition : Expr) (body : List Stmt) (rest : List Task) (m : Machine) :
    Progress :=
  match m.symbols.evalCondition condition with
  | .ok true => .goes ⟨Task.sequence body ++ .again condition body :: rest, m⟩
  | .ok false => .goes ⟨rest, m⟩
  | .error f => fail rest m f

def branch (condition : Expr) (body other : List Stmt) (rest : List Task) (m : Machine) :
    Progress :=
  match m.symbols.evalCondition condition with
  | .ok true => .goes ⟨Task.sequence body ++ rest, m⟩
  | .ok false => .goes ⟨Task.sequence other ++ rest, m⟩
  | .error f => fail rest m f

/-- Takes up a statement. Its parts become tasks of their own. -/
def perform (s : Stmt) (rest : List Task) (m : Machine) : Progress :=
  match s with
  | .assign target value _ => after rest m (m.assign target value)
  | .declare _ _ _ => .goes ⟨rest, m⟩
  | .invoke tag span =>
    match m.bodyOf tag span with
    | .ok body => .goes ⟨.perform body :: .leave :: rest, { m with depth := m.depth + 1 }⟩
    | .error f => fail rest m f
  | .swap left right span => after rest m (m.swap left right span)
  | .ifThen condition body _ => branch condition body [] rest m
  | .ifElse condition body other _ => branch condition body other rest m
  | .loop condition body _ => repeatWhile condition body rest m
  | .print value _ => after rest m (m.print value)

def next (r : Run) : Progress :=
  match r.tasks with
  | [] => .ends (.done r.machine)
  | .perform s :: rest => perform s rest r.machine
  | .again condition body :: rest => repeatWhile condition body rest r.machine
  | .leave :: rest => .goes ⟨rest, { r.machine with depth := r.machine.depth - 1 }⟩

/-- The outcome of a run that ends within `fuel` steps. -/
def finish : (fuel : Nat) → Run → Option Outcome
  | 0, _ => none
  | fuel + 1, r =>
    match r.next with
    | .goes r' => finish fuel r'
    | .ends outcome => some outcome

def entries (r : Run) : List Entry :=
  match r.tasks with
  | .perform s :: _ =>
    ⟨.trace, .running, "execute " ++ s.construct⟩ ::
      match s with
      | .invoke tag span =>
        match r.machine.bodyOf tag span with
        | .ok _ => [⟨.debug, .running, "invoke tag @" ++ tag⟩]
        | .error _ => []
      | _ => []
  | _ => []

def journal (said : Array Entry) : (fuel : Nat) → Run → Array Entry
  | 0, _ => said
  | fuel + 1, r =>
    match r.next with
    | .goes r' => journal (said ++ r.entries) fuel r'
    | .ends _ => said ++ r.entries

end Run

namespace Machine

def start (m : Machine) (p : Program) : Run :=
  .ofStatements p.statements (m.load p)

def run (fuel : Nat) (m : Machine) (p : Program) : Option Outcome :=
  (m.start p).finish fuel

def journal (fuel : Nat) (m : Machine) (p : Program) : List Entry :=
  let say (text : String) : Entry := ⟨.debug, .running, text⟩
  let opening := say ("running " ++ Decimal.ofNat p.statements.length ++ " statements, " ++
    Decimal.ofNat p.tags.length ++ " tags")
  let bound := p.bindings.map fun binding => say ("bind tag @" ++ binding.1)
  let closing :=
    match m.run fuel p with
    | some (.done m') => [say ("finished with " ++ Decimal.ofNat m'.symbols.size ++ " variables")]
    | _ => []
  opening :: bound ++ ((m.start p).journal #[] fuel).toList ++ closing

end Machine

end TagScript
