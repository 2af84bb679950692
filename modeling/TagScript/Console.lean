import TagScript.Machine.Run
import TagScript.Reading.Program
import TagScript.Transcript

/-! A text run as a whole: its output, a report if it fails, and on request its
tokens, its canonical text and the tables at its end. -/
namespace TagScript

namespace Machine

def onConsole (limit : Nat) : Machine where
  output := .console ""
  limit := limit

def symbolLines (m : Machine) : String :=
  m.symbols.toList.foldl
    (fun text entry => text ++ "  " ++ entry.1 ++ " = " ++ entry.2.text ++ "\n") "Symbols:\n"

def tagLines (m : Machine) : String :=
  m.tags.toList.foldl
    (fun text entry => text ++ "  @" ++ entry.1 ++ " " ++
      (match entry.2 with
        | some body => body.canonical
        | none => "<unbound>") ++ "\n") "Tags:\n"

end Machine

namespace Console

/-- What to show after a run, and the limit of the machine. -/
structure Options where
  tokens : Bool := false
  canonical : Bool := false
  tables : Bool := false
  limit : Nat := Machine.defaultLimit
deriving DecidableEq, Repr

def tokenLines (tokens : List Token) : String :=
  tokens.foldl (fun text t => text ++ t.entry ++ "\n") ""

def dumps (options : Options) (tokens : List Token) (p : Program) (m : Machine) : String :=
  (if options.tokens then tokenLines tokens else "") ++
    (if options.canonical then p.canonical else "") ++
    (if options.tables then m.symbolLines ++ m.tagLines else "")

structure Result where
  completed : Bool
  transcript : Transcript
deriving DecidableEq, Repr

/-- Nothing is run and nothing dumped if the text is no program. The dumps come
after a failure of the run as well. -/
def run (fuel : Nat) (wanted : Verbosity) (options : Options) (name : Option String)
    (source : String) : Option Result :=
  let reading := Transcript.entries wanted fun _ => Program.sourceJournal source
  match Program.ofSource source with
  | .error d => some ⟨false, reading ++ .report d source name⟩
  | .ok (tokens, p) =>
    let m := Machine.onConsole options.limit
    match m.run fuel p with
    | none => none
    | some outcome =>
      let running := Transcript.entries wanted fun _ => m.journal fuel p
      let report :=
        match outcome.fault? with
        | none => {}
        | some f => .report f.runtime source name
      some ⟨outcome.fault?.isNone,
        reading ++ running ++ .write outcome.machine.output.text ++ report ++
          .write (dumps options tokens p outcome.machine)⟩

def capture (fuel : Nat) (source : String) : Option (Except Diagnostic (Array Value)) :=
  match Program.ofSource source with
  | .error d => some (.error d)
  | .ok (_, p) =>
    (Machine.run fuel {} p).map fun
      | .failed f _ => .error f.runtime
      | .done m => .ok m.output.values

end Console

end TagScript
