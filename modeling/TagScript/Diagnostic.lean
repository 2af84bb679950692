import TagScript.Journal
import TagScript.Numeral.Decimal
import TagScript.Text.Place
import TagScript.Text.Span

/-! What is wrong, and where. Each stage has its own type of causes; a
`Diagnostic` is a cause put into words, and a `Report` is a diagnostic laid
against the text that it is about. -/
namespace TagScript

/-- A cause together with the stretch of the text that it blames. -/
structure Fault (ε : Type) where
  cause : ε
  span : Span
deriving DecidableEq, Repr

structure Diagnostic where
  stage : Stage
  span : Span
  message : String
  help : Option String
deriving DecidableEq, Repr

def Stage.title : Stage → String
  | .scanning => "Lexical Error"
  | .reading => "Parse Error"
  | .running => "Runtime Error"

def Diagnostic.headline (d : Diagnostic) : String :=
  d.stage.title ++ ": " ++ d.message

/-- A diagnostic to be shown beside the text that it is about. -/
structure Report extends Diagnostic where
  name : String
  source : String
deriving DecidableEq, Repr

def Report.unnamed : String := "<repl>"

/-- The blamed stretch is moved into the text. -/
def Diagnostic.report (d : Diagnostic) (source : String) (name : Option String) : Report :=
  ⟨{ d with span := d.span.clampTo source.length }, name.getD Report.unnamed, source⟩

/-! How a report is shown, as far as the terminal is concerned. -/

namespace Report

/-- Number of the terminal colour of the title: red, yellow, magenta. -/
def color (r : Report) : Nat :=
  match r.stage with
  | .scanning => 31
  | .reading => 33
  | .running => 35

def place (r : Report) : Place :=
  .ofOffset r.source.toList r.span.start

def location (r : Report) : String :=
  r.name ++ ":" ++ Decimal.ofNat r.place.line ++ ":" ++ Decimal.ofNat r.place.column

/-- The help stands beside a stretch of one line; a longer one leaves no room for it. -/
def note (r : Report) : Option String :=
  let last := Place.ofOffset r.source.toList (r.span.stop - 1)
  if r.place.line = last.line then r.help.map ("help: " ++ ·) else none

end Report

end TagScript
