import TagScript.Console
import TagScript.Unicode.Blank

/-! A conversation, line by line, with one machine that keeps its variables and
tags from line to line. A line is a command of the conversation, an expression,
whose value is shown, or a program. -/
namespace TagScript.Interactive

def greeting : String :=
  "PlayCode Interpreter v0.1.0\n" ++
    "Type 'exit' or press Ctrl+C to quit, ':symbols' or ':tags' to inspect state\n\n"

def prompt : String := "> "

def opensStatement : Kind → Bool
  | .identifier | .tag | .swapWord | .ifWord | .whileWord | .printWord => true
  | _ => false

/-- A line that begins with a variable is an expression unless there is an `=` in
it; any other is one unless its first token can open a statement. -/
def isExpression : List Token → Bool
  | [] => false
  | t :: ts =>
    if t.kind = .identifier then !(t :: ts).any (·.kind == .equal)
    else !opensStatement t.kind

structure Reaction where
  machine : Machine
  transcript : Transcript

def flush (m : Machine) : Reaction :=
  ⟨{ m with output := match m.output with
      | .console _ => .console ""
      | kept => kept }, .write m.output.text⟩

def reactToExpression (wanted : Verbosity) (m : Machine) (source : String) (tokens : List Token) :
    Reaction :=
  let reading := Transcript.entries wanted fun _ =>
    Reading.journal tokens (Reading.wholeComparison tokens)
  let shown :=
    match Expr.ofTokens tokens with
    | .error f => .report f.syntactic source none
    | .ok e =>
      match m.symbols.eval e with
      | .error f => .report f.runtime source none
      | .ok v => .write (v.text ++ "\n")
  ⟨m, reading ++ shown⟩

def reactToProgram (fuel : Nat) (wanted : Verbosity) (m : Machine) (source : String)
    (tokens : List Token) : Option Reaction :=
  let reading := Transcript.entries wanted fun _ =>
    Reading.journal tokens (Reading.statementList tokens)
  match Program.ofTokens tokens with
  | .error f => some ⟨m, reading ++ .report f.syntactic source none⟩
  | .ok p =>
    match m.run fuel p with
    | none => none
    | some outcome =>
      let running := Transcript.entries wanted fun _ => m.journal fuel p
      let flushed := flush outcome.machine
      let report :=
        match outcome.fault? with
        | none => {}
        | some f => .report f.runtime source none
      some ⟨flushed.machine, reading ++ running ++ flushed.transcript ++ report⟩

/-- Reacts to code. The end of the line is part of it, because it is what ends a
tag that stands alone. -/
def reactToCode (fuel : Nat) (wanted : Verbosity) (m : Machine) (line : String) :
    Option Reaction :=
  let source := line ++ "\n"
  let scanning := Transcript.entries wanted fun _ => Token.scanJournal source
  match Token.scan source with
  | .error f => some ⟨m, scanning ++ .report f.lexical source none⟩
  | .ok tokens =>
    let reaction :=
      if isExpression tokens then some (reactToExpression wanted m source tokens)
      else reactToProgram fuel wanted m source tokens
    reaction.map fun r => ⟨r.machine, scanning ++ r.transcript⟩

inductive Reply
  | stays (reaction : Reaction)
  /-- The conversation is over. -/
  | leaves (transcript : Transcript)

def respond (fuel : Nat) (wanted : Verbosity) (m : Machine) (line : String) : Option Reply :=
  match String.ofList (Unicode.trim line.toList) with
  | "" => some (.stays ⟨m, {}⟩)
  | "exit" | "quit" => some (.leaves (.write "Goodbye!\n"))
  | ":symbols" => some (.stays ⟨m, .write m.symbolLines⟩)
  | ":tags" => some (.stays ⟨m, .write m.tagLines⟩)
  | ":reset" => some (.stays ⟨m.reset, .write "State cleared.\n"⟩)
  | code => (reactToCode fuel wanted m code).map .stays

/-- Replies to a line as it comes in. An empty one, without even a line feed, is
the end of the input; one that is not UTF-8 ends the conversation. -/
def receive (fuel : Nat) (wanted : Verbosity) (m : Machine) (line : List UInt8) : Option Reply :=
  if line = [] then some (.leaves (.write "\n"))
  else
    match String.fromUTF8? ⟨line.toArray⟩ with
    | none =>
      some (.leaves (.warn "Error reading input: stream did not contain valid UTF-8"))
    | some text => respond fuel wanted m text

def converse (fuel : Nat) (wanted : Verbosity) (m : Machine) :
    List (List UInt8) → Option Transcript
  | [] => some (.write (prompt ++ "\n"))
  | line :: rest =>
    match receive fuel wanted m line with
    | none => none
    | some (.leaves t) => some (.write prompt ++ t)
    | some (.stays reaction) =>
      (converse fuel wanted reaction.machine rest).map (.write prompt ++ reaction.transcript ++ ·)

def lines : List UInt8 → List (List UInt8)
  | [] => []
  | b :: rest =>
    if b = 10 then [b] :: lines rest
    else
      match lines rest with
      | [] => [[b]]
      | line :: others => (b :: line) :: others

@[simp] theorem flatten_lines (input : List UInt8) : (lines input).flatten = input := by
  induction input with
  | nil => rfl
  | cons b rest ih =>
    simp only [lines]
    split
    · simp [ih]
    · split
      next h => simp [h] at ih; simp [← ih]
      next h => simp [h] at ih; simp [← ih]

def session (fuel : Nat) (wanted : Verbosity) (limit : Nat) (input : List UInt8) :
    Option Transcript :=
  (converse fuel wanted (Machine.onConsole limit) (lines input)).map (.write greeting ++ ·)

end TagScript.Interactive
