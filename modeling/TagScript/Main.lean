import TagScript.CommandLine

/-! The program. All that is decided here is when to read and when to write. -/
namespace TagScript.Main

/-- More steps than can be made. -/
def fuel : Nat := 4611686018427387904

def noticeLines : Notice → String
  | .line text => text ++ "\n"
  | .entry e => e.line ++ "\n"
  | .report r =>
    "Error: " ++ r.headline ++ "\n  at " ++ r.location ++ "\n" ++
      match r.note with
      | none => ""
      | some note => "  " ++ note ++ "\n"

def put (t : Transcript) : IO Unit := do
  let out ← IO.getStdout
  out.putStr t.out
  out.flush
  let errors ← IO.getStderr
  for notice in t.notices do
    errors.putStr (noticeLines notice)

partial def readLine (input : IO.FS.Stream) (line : Array UInt8) : IO (List UInt8) := do
  let bytes ← input.read 1
  match bytes.data.toList with
  | [] => return line.toList
  | b :: _ => if b = 10 then return (line.push b).toList else readLine input (line.push b)

partial def converse (input : IO.FS.Stream) (wanted : Verbosity) (m : Machine) : IO Unit := do
  put (.write Interactive.prompt)
  let line ← readLine input #[]
  match Interactive.receive fuel wanted m line with
  | none => return
  | some (.leaves t) => put t
  | some (.stays reaction) =>
    put reaction.transcript
    converse input wanted reaction.machine

def look (path : String) : IO CommandLine.Content := do
  try
    let content ← IO.FS.readBinFile path
    return .bytes content.data.toList
  catch
    | .noFileOrDirectory .. | .inappropriateType (some _) .. => return .missing
    | .inappropriateType none .. => return .directory
    | .permissionDenied .. => return .unreadable "Permission denied (os error 13)"
    | e => return .unreadable (toString e)

end TagScript.Main

open TagScript in
def main (arguments : List String) : IO UInt32 := do
  let finish (result : Option CommandLine.Result) : IO UInt32 := do
    match result with
    | none => return 1
    | some r =>
      Main.put r.transcript
      return r.status.toUInt32
  match CommandLine.read? {} arguments with
  | some (.work s) =>
    match s.script? with
    | some path => finish (CommandLine.runFile Main.fuel s path (← Main.look path))
    | none =>
      Main.put (.write Interactive.greeting)
      Main.converse (← IO.getStdin) s.verbosity (Machine.onConsole s.options.limit)
      return 0
  | _ => finish (CommandLine.run Main.fuel (fun _ => .missing) [] arguments)
