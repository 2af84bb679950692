import TagScript.Machine.Run
import TagScript.Reading.Program

/-! Several commands given to one machine, one after the other. A failure does
not end the session: the machine goes on as the failed command left it. -/
namespace TagScript.Session

inductive Command
  | program (p : Program)
  /-- Statements alone: the tags that their text mentions are not taken up. -/
  | statements (body : List Stmt)
  | value (e : Expr)
  | limit (n : Nat)
  | reset

structure Answer where
  machine : Machine
  fault : Option (Fault RuntimeError) := none
  value : Option Value := none

def Answer.ofOutcome (outcome : Outcome) : Answer where
  machine := outcome.machine
  fault := outcome.fault?

def perform (fuel : Nat) (m : Machine) : Command → Option Answer
  | .program p => (m.run fuel p).map .ofOutcome
  | .statements body => ((Run.ofStatements body m).finish fuel).map .ofOutcome
  | .value e =>
    match m.symbols.eval e with
    | .ok v => some { machine := m, value := some v }
    | .error f => some { machine := m, fault := some f }
  | .limit n => some { machine := { m with limit := n } }
  | .reset => some { machine := m.reset }

def performAll (fuel : Nat) (m : Machine) : List Command → Option Machine
  | [] => some m
  | command :: rest =>
    match perform fuel m command with
    | none => none
    | some answer => performAll fuel answer.machine rest

def journal (fuel : Nat) (m : Machine) : Command → List Entry
  | .program p => m.journal fuel p
  | .statements body => ((Run.ofStatements body m).journal #[] fuel).toList
  | .value _ | .limit _ | .reset => []

end TagScript.Session
