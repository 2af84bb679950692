import TagScript.Console
import TagScript.Proofs.Token.AsciiCase

/-! Reading and running sources that differ in the case of letters of ASCII. Besides the tokens
a run looks at the source for its length only, and shows it in its reports. -/
namespace TagScript

open Unicode

def Notice.beside (source : String) : Notice → Notice
  | .report r => .report { r with source }
  | other => other

def Transcript.beside (source : String) (t : Transcript) : Transcript :=
  { t with notices := t.notices.map (·.beside source) }

def Console.Result.beside (source : String) (r : Result) : Result :=
  { r with transcript := r.transcript.beside source }

namespace Transcript

variable (source : String)

@[simp] theorem beside_append (a b : Transcript) :
    (a ++ b).beside source = a.beside source ++ b.beside source :=
  congrArg (mk _) List.map_append

@[simp] theorem beside_write (text : String) : (write text).beside source = write text := rfl

@[simp] theorem beside_empty : ({} : Transcript).beside source = {} := rfl

@[simp] theorem beside_entries (wanted : Verbosity) (journal : Unit → List Entry) :
    (entries wanted journal).beside source = entries wanted journal := by
  have kept := List.map_map (f := Notice.entry) (g := (·.beside source))
    (l := wanted.select journal)
  exact congrArg (mk "") kept

theorem beside_report {source other : String} (length_eq : source.length = other.length)
    (d : Diagnostic) (name : Option String) :
    (report d source name).beside other = report d other name := by
  have report_eq : d.report other name = { d.report source name with source := other } := by
    rw [Diagnostic.report, Diagnostic.report, length_eq]
  rw [report, report, report_eq]
  rfl

end Transcript

theorem Program.ofSource_toLower (source : String) : ofSource source.toLower = ofSource source := by
  rw [ofSource, ofSource, Token.scan_toLower]

theorem Expr.ofSource_toLower (source : String) : ofSource source.toLower = ofSource source := by
  rw [ofSource, ofSource, Token.scan_toLower]

theorem Program.sourceJournal_toLower (source : String) :
    sourceJournal source.toLower = sourceJournal source := by
  rw [sourceJournal, sourceJournal, Token.scanJournal_toLower, Token.scan_toLower]

namespace Console

theorem run_beside {source other : String} (length_eq : source.length = other.length)
    (program_eq : Program.ofSource source = Program.ofSource other)
    (journal_eq : Program.sourceJournal source = Program.sourceJournal other) (fuel : Nat)
    (wanted : Verbosity) (options : Options) (name : Option String) :
    run fuel wanted options name other =
      (run fuel wanted options name source).map (·.beside other) := by
  rw [run, run, program_eq, journal_eq]
  cases Program.ofSource other with
  | error d => simp [Result.beside, Transcript.beside_report length_eq]
  | ok accepted =>
    dsimp only
    cases (Machine.onConsole options.limit).run fuel accepted.2 with
    | none => rfl
    | some outcome =>
      cases outcome <;>
        simp [Result.beside, Outcome.fault?, Transcript.beside_report length_eq]

/-- Sources that are the same up to the case of letters of ASCII, which are all that `toLower`
changes, have the same tokens, or the same error in the same place. Reading them gives the same
program or expression, and running them the same values, texts, tables, traces and errors; of
what is shown only the source beside a report is another. -/
theorem ascii_case_unseen {source other : String} (same : source.toLower = other.toLower) :
    Token.scan source = Token.scan other ∧
      Program.ofSource source = Program.ofSource other ∧
      Expr.ofSource source = Expr.ofSource other ∧
      (∀ fuel, capture fuel source = capture fuel other) ∧
      ∀ fuel wanted options name, run fuel wanted options name other =
        (run fuel wanted options name source).map (·.beside other) := by
  have programs : Program.ofSource source = Program.ofSource other := by
    rw [← Program.ofSource_toLower source, same, Program.ofSource_toLower]
  have journals : Program.sourceJournal source = Program.sourceJournal other := by
    rw [← Program.sourceJournal_toLower source, same, Program.sourceJournal_toLower]
  have length_eq : source.length = other.length := by
    have length_toLower (text : String) : text.toLower.length = text.length := String.length_map
    rw [← length_toLower source, same, length_toLower]
  refine ⟨?_, programs, ?_, ?_, run_beside length_eq programs journals⟩
  · rw [← Token.scan_toLower source, same, Token.scan_toLower]
  · rw [← Expr.ofSource_toLower source, same, Expr.ofSource_toLower]
  · intro fuel
    rw [capture, capture, programs]

theorem ascii_case_unseen_beside_sigma :
    "aΣ = 2 -- Sum\nPrint AΣ".toLower = "AΣ = 2 -- sUM\npRINT aΣ".toLower ∧
      Token.scan "aΣ = 2 -- Sum\nPrint AΣ" = Token.scan "AΣ = 2 -- sUM\npRINT aΣ" ∧
      ∀ fuel wanted options name,
        run fuel wanted options name "AΣ = 2 -- sUM\npRINT aΣ" =
          (run fuel wanted options name "aΣ = 2 -- Sum\nPrint AΣ").map
            (·.beside "AΣ = 2 -- sUM\npRINT aΣ") := by
  have same : "aΣ = 2 -- Sum\nPrint AΣ".toLower = "AΣ = 2 -- sUM\npRINT aΣ".toLower := by
    apply String.toList_inj.mp
    rw [toList_toLower, toList_toLower]
    decide
  obtain ⟨scanned, -, -, -, run_eq⟩ := ascii_case_unseen same
  exact ⟨same, scanned, run_eq⟩

end Console

end TagScript
