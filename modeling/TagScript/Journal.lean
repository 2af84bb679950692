/-! What the stages of an interpretation say about their work, at two degrees
of detail. -/
namespace TagScript

inductive Detail
  | debug
  | trace
deriving DecidableEq, Repr

inductive Stage
  | scanning
  | reading
  | running
deriving DecidableEq, Repr

structure Entry where
  detail : Detail
  stage : Stage
  text : String
deriving DecidableEq, Repr

def Detail.name : Detail → String
  | .debug => "DEBUG"
  | .trace => "TRACE"

def Stage.target : Stage → String
  | .scanning => "playcode::lexer"
  | .reading => "playcode::parser"
  | .running => "playcode::evaluator"

/-- How much of the journal is wanted: none of it, the coarse entries, all. -/
abbrev Verbosity := Option Detail

def Verbosity.shows (wanted : Verbosity) (entry : Entry) : Bool :=
  match wanted, entry.detail with
  | none, _ => false
  | some .debug, .trace => false
  | some _, _ => true

/-- Keeps the wanted entries. The journal is not made when none is wanted. -/
def Verbosity.select (wanted : Verbosity) (journal : Unit → List Entry) : List Entry :=
  match wanted with
  | none => []
  | some _ => (journal ()).filter wanted.shows

def Entry.line (entry : Entry) : String :=
  entry.detail.name ++ " [" ++ entry.stage.target ++ "] " ++ entry.text

end TagScript
