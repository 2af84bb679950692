import TagScript.Diagnostic

/-! What is written on the two channels of a terminal. -/
namespace TagScript

inductive Notice
  | report (r : Report)
  | entry (e : Entry)
  | line (text : String)
deriving DecidableEq, Repr

structure Transcript where
  out : String := ""
  notices : List Notice := []
deriving DecidableEq, Repr

namespace Transcript

def append (a b : Transcript) : Transcript :=
  ⟨a.out ++ b.out, a.notices ++ b.notices⟩

instance : Append Transcript :=
  ⟨append⟩

def write (text : String) : Transcript :=
  { out := text }

def warn (text : String) : Transcript :=
  { notices := [.line text] }

def report (d : Diagnostic) (source : String) (name : Option String) : Transcript :=
  { notices := [.report (d.report source name)] }

def entries (wanted : Verbosity) (journal : Unit → List Entry) : Transcript :=
  { notices := (wanted.select journal).map .entry }

@[simp] theorem out_append (a b : Transcript) : (a ++ b).out = a.out ++ b.out := rfl

@[simp] theorem notices_append (a b : Transcript) :
    (a ++ b).notices = a.notices ++ b.notices := rfl

end Transcript

end TagScript
