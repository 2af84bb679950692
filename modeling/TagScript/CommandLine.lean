import TagScript.Interactive

/-! The command line: what its arguments ask for, and what is done then. -/
namespace TagScript.CommandLine

structure Settings where
  interactive : Bool := false
  tokens : Bool := false
  canonical : Bool := false
  tables : Bool := false
  limit : Option Nat := none
  verbose : Nat := 0
  file : Option String := none
deriving DecidableEq, Repr

inductive Request
  | version
  | help
  | work (settings : Settings)
deriving DecidableEq, Repr

/-- What one option does: it changes the settings, waits for its value, or ends
the reading of arguments. -/
inductive Effect
  | changed (settings : Settings)
  | awaitsLimit
  | ends (request : Request)

def Settings.switch? (once : Bool) (settings : Settings) : Option Effect :=
  if once then none else some (.changed settings)

def Settings.long? (s : Settings) (name : String) : Option Effect :=
  match name with
  | "interactive" => Settings.switch? s.interactive { s with interactive := true }
  | "tokens" => Settings.switch? s.tokens { s with tokens := true }
  | "ast" => Settings.switch? s.canonical { s with canonical := true }
  | "symbols" => Settings.switch? s.tables { s with tables := true }
  | "verbose" => some (.changed { s with verbose := s.verbose + 1 })
  | "max-tag-depth" => some .awaitsLimit
  | "version" => some (.ends .version)
  | "help" => some (.ends .help)
  | _ => none

def Settings.short? (s : Settings) : Char → Option Effect
  | 'i' => s.long? "interactive"
  | 'v' => s.long? "verbose"
  | 'V' => s.long? "version"
  | 'h' => s.long? "help"
  | _ => none

def largestLimit : Nat := 18446744073709551615

/-- A number of at most 64 bits, which may have a plus sign. -/
def readLimit? (text : List Char) : Option Nat := do
  let row := match text with
    | '+' :: row => row
    | row => row
  let n ← Integer.magnitude? row
  if n ≤ largestLimit then some n else none

def Settings.withLimit? (s : Settings) (text : List Char) : Option Settings := do
  let n ← readLimit? text
  if s.limit.isSome then none else some { s with limit := n }

def Settings.withFile? (s : Settings) (path : String) : Option Settings :=
  if s.file.isSome then none else some { s with file := path }

def Settings.cluster? (s : Settings) : List Char → Option Effect
  | [] => some (.changed s)
  | c :: rest =>
    match s.short? c with
    | some (.changed s') => s'.cluster? rest
    | other => other

def readOperands? (s : Settings) : List String → Option Settings
  | [] => some s
  | path :: rest => do readOperands? (← s.withFile? path) rest

/-- Reads arguments from left to right. The first that cannot be right decides,
unless the version or the help was asked for before it. -/
def read? (s : Settings) : List String → Option Request
  | [] => some (.work s)
  | argument :: rest =>
    match argument.toList with
    | ['-', '-'] => (readOperands? s rest).map .work
    | '-' :: '-' :: name =>
      match name.span (· ≠ '=') with
      | (key, '=' :: value) =>
        if String.ofList key = "max-tag-depth" then do read? (← s.withLimit? value) rest else none
      | (key, _) =>
        match s.long? (String.ofList key) with
        | some (.changed s') => read? s' rest
        | some .awaitsLimit =>
          match rest with
          | value :: rest => do read? (← s.withLimit? value.toList) rest
          | [] => none
        | some (.ends request) => some request
        | none => none
    | '-' :: c :: letters =>
      match s.cluster? (c :: letters) with
      | some (.changed s') => read? s' rest
      | some (.ends request) => some request
      | _ => none
    | _ => do read? (← s.withFile? argument) rest

def Settings.verbosity (s : Settings) : Verbosity :=
  match s.verbose with
  | 0 => none
  | 1 => some .debug
  | _ => some .trace

def Settings.options (s : Settings) : Console.Options where
  tokens := s.tokens
  canonical := s.canonical
  tables := s.tables
  limit := s.limit.getD Machine.defaultLimit

inductive Content
  | missing
  | unreadable (reason : String)
  | bytes (content : List UInt8)

def Content.directory : Content :=
  .unreadable "Is a directory (os error 21)"

structure Result where
  status : Nat
  transcript : Transcript
deriving DecidableEq, Repr

def misuse : Result :=
  ⟨2, .warn "error: invalid arguments\n\nFor more information, try '--help'."⟩

def version : Result :=
  ⟨0, .write "playcode 0.1.0\n"⟩

def helpLines : List String :=
  ["Interpreter for the PlayCode scripting language",
   "",
   "Usage: playcode [OPTIONS] [FILE]",
   "",
   "Arguments:",
   "  [FILE]  The PlayCode source file to execute",
   "",
   "Options:",
   "  -i, --interactive        Start in interactive REPL mode",
   "      --tokens             Print the token sequence after running",
   "      --ast                Print the parsed program in canonical form after running",
   "      --symbols            Print the final symbol and tag tables after running",
   "      --max-tag-depth <N>  How deeply tag invocations may nest [default: 256]",
   "  -v, --verbose...         Log interpreter activity to stderr (-vv for more)",
   "  -h, --help               Print help",
   "  -V, --version            Print version",
   ""]

def help : Result :=
  ⟨0, .write ("\n".intercalate helpLines)⟩

def runFile (fuel : Nat) (s : Settings) (path : String) : Content → Option Result
  | .missing => some ⟨1, .warn ("Error: File '" ++ path ++ "' not found")⟩
  | .unreadable reason => some ⟨1, .warn ("Error reading file '" ++ path ++ "': " ++ reason)⟩
  | .bytes content =>
    match String.fromUTF8? ⟨content.toArray⟩ with
    | none =>
      some ⟨1, .warn ("Error reading file '" ++ path ++ "': stream did not contain valid UTF-8")⟩
    | some source =>
      (Console.run fuel s.verbosity s.options (some path) source).map fun result =>
        ⟨if result.completed then 0 else 1, result.transcript⟩

def Settings.script? (s : Settings) : Option String :=
  if s.interactive then none else s.file

/-- All of it, when `look` tells what stands under a path and `input` is typed. -/
def run (fuel : Nat) (look : String → Content) (input : List UInt8) (arguments : List String) :
    Option Result :=
  match read? {} arguments with
  | none => some misuse
  | some .version => some version
  | some .help => some help
  | some (.work s) =>
    match s.script? with
    | some path => runFile fuel s path (look path)
    | none => (Interactive.session fuel s.verbosity s.options.limit input).map (⟨0, ·⟩)

end TagScript.CommandLine
