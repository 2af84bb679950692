import Mathlib
import TagScript.Interactive
import TagScript.Proofs.Machine.Blame
import TagScript.Proofs.Machine.Loading
import TagScript.Proofs.Reading.Sites

/-! Which line of a conversation a fault blames. A body keeps the spans of the line that it
was declared on, and the machine keeps the body. So a fault of a later line may blame a
stretch of the earlier one, while its report is laid against the later. -/
namespace TagScript

theorem Transcript.empty_append (t : Transcript) : {} ++ t = t :=
  congrArg₂ mk String.empty_append (List.nil_append _)

theorem Transcript.append_assoc (a b c : Transcript) : a ++ b ++ c = a ++ (b ++ c) :=
  congrArg₂ mk String.append_assoc (List.append_assoc ..)

namespace Interactive

def commands : List String := ["", "exit", "quit", ":symbols", ":tags", ":reset"]

def code (line : List UInt8) : Option String :=
  (String.fromUTF8? ⟨line.toArray⟩).bind fun text =>
    let trimmed := String.ofList (Unicode.trim text.toList)
    if trimmed ∈ commands then none else some (trimmed ++ "\n")

/-- The machine after lines, if none of them ends the conversation. -/
def after (fuel : Nat) (wanted : Verbosity) (m : Machine) : List (List UInt8) → Option Machine
  | [] => some m
  | line :: rest =>
    match receive fuel wanted m line with
    | some (.stays reaction) => after fuel wanted reaction.machine rest
    | some (.leaves _) | none => none

/-- The code of a line is read, and then there is a fault: in finding its value, if it is an
expression, or in running it. -/
inductive Fails (m : Machine) (source : String) (fault : Fault RuntimeError) : Prop
  | value {tokens : List Token} {e : Expr} (scanned : Token.scan source = .ok tokens)
      (expression : isExpression tokens = true) (read : Expr.ofTokens tokens = .ok e)
      (failed : m.symbols.eval e = .error fault)
  | program {tokens : List Token} {p : Program} {outcome : Outcome}
      (scanned : Token.scan source = .ok tokens) (other : isExpression tokens = false)
      (read : Program.ofTokens tokens = .ok p) (ends : m.EndsIn p outcome)
      (failed : fault ∈ outcome.fault?)

/-- The reply to the line ends in a report of the fault, laid against the code. -/
def Reports (m : Machine) (line : List UInt8) (source : String) (fault : Fault RuntimeError) :
    Prop :=
  ∃ fuel m', ∀ wanted, ∃ said, receive fuel wanted m line =
    some (.stays ⟨m', said ++ .report fault.runtime source none⟩)

/-- The code may come to run a body that it does not declare itself, and the span is one in
that body. -/
def Borrows (m : Machine) (source : String) (span : Span) : Prop :=
  ∃ tokens p tag body, Token.scan source = .ok tokens ∧ isExpression tokens = false ∧
    Program.ofTokens tokens = .ok p ∧
    (m.load p).tags.Invocable (Stmt.allInvocations p.statements) tag ∧
    (m.load p).tags[tag]? = some (some body) ∧ (tag, body) ∉ p.bindings ∧ span ∈ body.spans

variable {fuel limit : Nat} {wanted : Verbosity} {m m' : Machine} {line : List UInt8}
  {source : String} {fault : Fault RuntimeError} {reaction : Reaction} {texts : List String}

theorem converse_append {before : List (List UInt8)} (h : after fuel wanted m before = some m') :
    ∃ said, ∀ rest, converse fuel wanted m (before ++ rest) =
      (converse fuel wanted m' rest).map (said ++ ·) := by
  induction before generalizing m with
  | nil =>
    cases h
    refine ⟨{}, fun rest => ?_⟩
    simp only [List.nil_append, Transcript.empty_append, Option.map_id']
  | cons line others ih =>
    rw [after] at h
    split at h
    case h_1 reaction received =>
      obtain ⟨said, said_eq⟩ := ih h
      refine ⟨.write prompt ++ reaction.transcript ++ said, fun rest => ?_⟩
      rw [List.cons_append, converse, received]
      simp only [said_eq, Option.map_map, Function.comp_def, Transcript.append_assoc]
    all_goals cases h

theorem receive_of_code (text : code line = some source) :
    ∃ trimmed, source = trimmed ++ "\n" ∧ ∀ fuel wanted m,
      receive fuel wanted m line = (reactToCode fuel wanted m trimmed).map .stays := by
  obtain ⟨whole, whole_eq, text⟩ := Option.bind_eq_some_iff.mp text
  dsimp only at text
  split at text
  case isTrue => cases text
  case isFalse other =>
    cases text
    refine ⟨_, rfl, fun fuel wanted m => ?_⟩
    have visible : line ≠ [] := by
      rintro rfl
      exact other (by cases whole_eq; decide)
    rw [receive, if_neg visible, whole_eq]
    dsimp only [respond]
    split
    case h_7 => rfl
    all_goals simp_all only [commands, List.mem_cons, true_or, or_true, not_true]

theorem machine_of_command (text : code line = none)
    (h : receive fuel wanted m line = some (.stays reaction)) :
    reaction.machine = m ∨ reaction.machine = m.reset := by
  unfold receive at h
  split at h
  · cases h
  · split at h
    · cases h
    case h_2 whole whole_eq =>
      unfold respond at h
      split at h
      case h_1 | h_4 | h_5 =>
        cases h
        exact .inl rfl
      case h_2 | h_3 => cases h
      case h_6 =>
        cases h
        exact .inr rfl
      case h_7 =>
        have other : String.ofList (Unicode.trim whole.toList) ∉ commands := by
          simp only [commands, List.mem_cons, List.not_mem_nil, or_false, not_or]
          exact ⟨‹_›, ‹_›, ‹_›, ‹_›, ‹_›, ‹_›⟩
        rw [code, whole_eq, Option.bind_some, if_neg other] at text
        cases text

theorem machine_of_reactToCode {line : String}
    (h : reactToCode fuel wanted m line = some reaction) :
    reaction.machine = m ∨
      ∃ tokens p outcome, Token.scan (line ++ "\n") = .ok tokens ∧
        Program.ofTokens tokens = .ok p ∧ m.EndsIn p outcome ∧
        reaction.machine = (flush outcome.machine).machine := by
  dsimp only [reactToCode] at h
  cases scanned : Token.scan (line ++ "\n") with
  | error f =>
    rw [scanned] at h
    cases h
    exact .inl rfl
  | ok tokens =>
    rw [scanned] at h
    obtain ⟨reaction, reaction_eq, rfl⟩ := Option.map_eq_some_iff.mp h
    split at reaction_eq
    · cases reaction_eq
      exact .inl rfl
    · dsimp only [reactToProgram] at reaction_eq
      cases read : Program.ofTokens tokens with
      | error f =>
        rw [read] at reaction_eq
        cases reaction_eq
        exact .inl rfl
      | ok p =>
        rw [read] at reaction_eq
        dsimp only at reaction_eq
        split at reaction_eq
        · cases reaction_eq
        case h_2 outcome run_eq =>
          cases reaction_eq
          exact .inr ⟨tokens, p, outcome, rfl, read, ⟨fuel, run_eq⟩, rfl⟩

theorem Fails.reported (h : Fails m source fault) (text : code line = some source) :
    Reports m line source fault := by
  obtain ⟨trimmed, rfl, received⟩ := receive_of_code text
  cases h with
  | @value tokens e scanned expression read failed =>
    refine ⟨0, m, fun wanted => ⟨.entries wanted (fun _ => Token.scanJournal (trimmed ++ "\n")) ++
      .entries wanted (fun _ => Reading.journal tokens (Reading.wholeComparison tokens)), ?_⟩⟩
    simp only [received, reactToCode, scanned, if_pos expression, reactToExpression, read, failed,
      Option.map_some, Transcript.append_assoc]
  | @program tokens p outcome scanned other read ends failed =>
    obtain ⟨fuel, run_eq⟩ := ends
    have fault_eq : outcome.fault? = some fault := failed
    refine ⟨fuel, (flush outcome.machine).machine, fun wanted =>
      ⟨.entries wanted (fun _ => Token.scanJournal (trimmed ++ "\n")) ++
        .entries wanted (fun _ => Reading.journal tokens (Reading.statementList tokens)) ++
        .entries wanted (fun _ => m.journal fuel p) ++ (flush outcome.machine).transcript, ?_⟩⟩
    simp only [received, reactToCode, scanned, other, Bool.false_eq_true, if_false, reactToProgram,
      read, run_eq, fault_eq, Option.map_some, Transcript.append_assoc]

/-! The bodies in the table come from the lines so far. -/

def Drawn (texts : List String) (τ : TagTable) : Prop :=
  ∀ (tag : String) (body : Stmt), τ[tag]? = some (some body) →
    ∃ text ∈ texts, body.Spanned (Span.Within text)

theorem drawn_empty : Drawn [] ∅ := by
  intro tag body bound
  rw [Std.ExtTreeMap.getElem?_empty] at bound
  cases bound

theorem Drawn.mono {more : List String} {τ : TagTable} (h : Drawn texts τ)
    (sub : ∀ text ∈ texts, text ∈ more) : Drawn more τ := by
  intro tag body bound
  obtain ⟨text, mem, spanned⟩ := h tag body bound
  exact ⟨text, sub text mem, spanned⟩

theorem drawn_load {tokens : List Token} {p : Program} (scanned : Token.scan source = .ok tokens)
    (read : Program.ofTokens tokens = .ok p) (drawn : Drawn texts m.tags) :
    Drawn (texts ++ [source]) (m.load p).tags := by
  intro tag body bound
  rcases Machine.bound_of_load bound with here | ⟨-, earlier⟩
  · refine ⟨source, List.mem_append_right _ (List.mem_singleton.mpr rfl), ?_⟩
    exact (Program.within_of_scan scanned read).2 (tag, body) here
  · obtain ⟨text, mem, spanned⟩ := drawn tag body earlier
    exact ⟨text, List.mem_append_left _ mem, spanned⟩

theorem drawn_of_reactToCode {line : String} (h : reactToCode fuel wanted m line = some reaction)
    (drawn : Drawn texts m.tags) : Drawn (texts ++ [line ++ "\n"]) reaction.machine.tags := by
  obtain same | ⟨tokens, p, outcome, scanned, read, ends, flushed⟩ := machine_of_reactToCode h
  · rw [same]
    exact drawn.mono fun _ => List.mem_append_left _
  · have grown := (Run.EndsIn.grows ends (Run.level_ofStatements _ _)).1
    have loaded : reaction.machine.tags = (m.load p).tags := by
      rw [flushed]
      exact grown.tags
    rw [loaded]
    exact drawn_load scanned read drawn

theorem drawn_of_receive (h : receive fuel wanted m line = some (.stays reaction))
    (drawn : Drawn texts m.tags) : Drawn (texts ++ (code line).toList) reaction.machine.tags := by
  cases text : code line with
  | none =>
    rw [Option.toList_none, List.append_nil]
    obtain same | cleared := machine_of_command text h
    · rw [same]
      exact drawn
    · rw [cleared]
      exact drawn_empty.mono (List.forall_mem_nil _)
  | some source =>
    obtain ⟨trimmed, rfl, received⟩ := receive_of_code text
    rw [received] at h
    obtain ⟨reaction', react_eq, same⟩ := Option.map_eq_some_iff.mp h
    cases same
    exact drawn_of_reactToCode react_eq drawn

theorem drawn_of_after {before : List (List UInt8)} (h : after fuel wanted m before = some m')
    (drawn : Drawn texts m.tags) : Drawn (texts ++ before.filterMap code) m'.tags := by
  -- on the lines still to come, while the texts take in those that have been
  induction before generalizing m texts with
  | nil =>
    cases h
    rw [List.filterMap_nil, List.append_nil]
    exact drawn
  | cons line others ih =>
    rw [after] at h
    split at h
    case h_1 reaction received =>
      have cons_eq : (line :: others).filterMap code =
          (code line).toList ++ others.filterMap code := by
        rw [List.filterMap_cons]
        cases code line <;> rfl
      rw [cons_eq, ← List.append_assoc]
      exact ih h (drawn_of_receive received drawn)
    all_goals cases h

/-- A fault blames a stretch of the code, or a span in a body that the code borrows. -/
theorem Fails.origin (h : Fails m source fault) :
    fault.span.Within source ∨ Borrows m source fault.span := by
  cases h with
  | value scanned expression read failed =>
    exact .inl (m.symbols.blames_eval (Expr.within_of_scan scanned read) fault failed).2
  | @program tokens p outcome scanned other read ends failed =>
    obtain ⟨statements, bindings⟩ := Program.within_of_scan scanned read
    refine Run.blamed_of_ends (P := fun span => span.Within source ∨ Borrows m source span)
      (statements.mono fun _ => .inl) (fun tag body invocable bound => ?_) ends failed
    by_cases own : (tag, body) ∈ p.bindings
    · exact (bindings (tag, body) own).mono fun _ => .inl
    · refine Stmt.spanned_iff.mpr fun span inside => .inr ?_
      exact ⟨tokens, p, tag, body, scanned, other, read, invocable, bound, own, inside⟩

/-- A body that is borrowed lies in a text from before. -/
theorem Borrows.within {span : Span} (h : Borrows m source span) (drawn : Drawn texts m.tags) :
    ∃ text ∈ texts, span.Within text := by
  obtain ⟨tokens, p, tag, body, -, -, -, -, bound, other, inside⟩ := h
  rcases Machine.bound_of_load bound with own | ⟨-, earlier⟩
  · exact absurd own other
  · obtain ⟨text, mem, spanned⟩ := drawn tag body earlier
    exact ⟨text, mem, Stmt.spanned_iff.mp spanned span inside⟩

/-- In a conversation, whatever its lines: the fault of a line blames a stretch of the code of
this line, so the report marks this stretch and does not move it. The one exception is a fault in
a body from an earlier line, which blames a stretch of the code of that. -/
theorem fault_within_line {before : List (List UInt8)}
    (session : after fuel wanted (Machine.onConsole limit) before = some m)
    (text : code line = some source) (fails : Fails m source fault) :
    Reports m line source fault ∧
    (¬Borrows m source fault.span → fault.span.Within source ∧
      fault.span.clampTo source.length = fault.span ∧
      (fault.runtime.report source none).span = fault.span) ∧
    (Borrows m source fault.span →
      ∃ earlier ∈ before.filterMap code, fault.span.Within earlier) := by
  refine ⟨fails.reported text, fun own => ?_, fun borrowed => ?_⟩
  · have within : fault.span.Within source := fails.origin.resolve_right own
    exact ⟨within, within.clampTo_eq, within.clampTo_eq⟩
  · have drawn : Drawn (before.filterMap code) m.tags := drawn_of_after session drawn_empty
    exact borrowed.within drawn

/-- The line would run the body from the line before, but fails on its own account. -/
theorem fault_within_line_before_body :
    ∃ (before line : List UInt8) (m : Machine) (source : String) (fault : Fault RuntimeError),
      after 9 none (Machine.onConsole 256) [before] = some m ∧ code line = some source ∧
      Fails m source fault ∧ code before = some "@t PRINT aaa\n" ∧ source = "PRINT bbb @t\n" ∧
      ¬Borrows m source fault.span ∧ Reports m line source fault ∧ fault.span.Within source ∧
      fault.span.clampTo source.length = fault.span ∧
      (fault.runtime.report source none).span = ⟨6, 9⟩ := by
  obtain ⟨before, line, tokens, p, body, first, second, scanned, other, read, invoked, spans,
      invokes, ran⟩ :
      ∃ (before line : List UInt8) (tokens : List Token) (p : Program) (body : Stmt),
        code before = some "@t PRINT aaa\n" ∧ code line = some "PRINT bbb @t\n" ∧
        Token.scan "PRINT bbb @t\n" = .ok tokens ∧ isExpression tokens = false ∧
        Program.ofTokens tokens = .ok p ∧ Stmt.allInvocations p.statements = ["t"] ∧
        body.spans = [⟨9, 12⟩, ⟨3, 12⟩] ∧ body.invocations = [] ∧
        (after 9 none (Machine.onConsole 256) [before]).map
          (fun m => ((m.load p).tags["t"]?, (m.run 9 p).bind Outcome.fault?)) =
          some (some (some body), some ⟨.undefined "bbb", ⟨6, 9⟩⟩) :=
    ⟨[64, 116, 32, 80, 82, 73, 78, 84, 32, 97, 97, 97, 10],
      [80, 82, 73, 78, 84, 32, 98, 98, 98, 32, 64, 116, 10],
      [⟨⟨.printWord, "PRINT"⟩, ⟨0, 5⟩, 1⟩, ⟨⟨.identifier, "bbb"⟩, ⟨6, 9⟩, 1⟩,
        ⟨⟨.tag, "t"⟩, ⟨10, 12⟩, 1⟩, ⟨⟨.empty, ""⟩, ⟨12, 12⟩, 1⟩],
      ⟨[.print (.named "bbb" ⟨6, 9⟩) ⟨0, 9⟩, .invoke "t" ⟨10, 12⟩], ["t"], []⟩,
      .print (.named "aaa" ⟨9, 12⟩) ⟨3, 12⟩,
      by cbv, by cbv, by cbv, rfl, by cbv, rfl, rfl, rfl, by cbv⟩
  obtain ⟨m, session, ran⟩ := Option.map_eq_some_iff.mp ran
  obtain ⟨bound, run_fault⟩ := Prod.mk.inj ran
  obtain ⟨outcome, run_eq, failed⟩ := Option.bind_eq_some_iff.mp run_fault
  have fails : Fails m "PRINT bbb @t\n" ⟨.undefined "bbb", ⟨6, 9⟩⟩ :=
    .program scanned other read ⟨9, run_eq⟩ failed
  have own : ¬Borrows m "PRINT bbb @t\n" ⟨6, 9⟩ := by
    rintro ⟨tokens', p', tag, body', scanned', -, read', invocable, bound', -, inside⟩
    cases scanned.symm.trans scanned'
    cases read.symm.trans read'
    obtain ⟨name, mem, path⟩ := invocable
    rw [invoked] at mem
    cases List.mem_singleton.mp mem
    rcases path.cases_head with rfl | ⟨next, ⟨body'', bound'', mem⟩, -⟩
    · cases bound.symm.trans bound'
      rw [spans] at inside
      simp at inside
    · cases bound.symm.trans bound''
      rw [invokes] at mem
      cases mem
  obtain ⟨reports, inside, -⟩ := fault_within_line session second fails
  obtain ⟨within, still, marked⟩ := inside own
  exact ⟨before, line, m, _, _, session, second, fails, first, rfl, own, reports, within, still,
    marked⟩

/-- A body is declared on one line and run on the next. Its fault blames the first line, past
the end of the second, and the report moves it to the end of that. -/
theorem fault_beyond_line :
    ∃ (before line : List UInt8) (m : Machine) (source : String) (fault : Fault RuntimeError),
      after 9 none (Machine.onConsole 256) [before] = some m ∧ code line = some source ∧
      Fails m source fault ∧ code before = some "@t PRINT aaa\n" ∧ source = "@t\n" ∧
      Reports m line source fault ∧ fault.span = ⟨9, 12⟩ ∧ ¬fault.span.start < source.length ∧
      fault.span.clampTo source.length ≠ fault.span ∧
      (fault.runtime.report source none).span = ⟨2, 3⟩ := by
  obtain ⟨before, line, p, first, second, read, run_fault⟩ :
      ∃ (before line : List UInt8) (p : Program),
        code before = some "@t PRINT aaa\n" ∧ code line = some "@t\n" ∧
        Program.ofTokens [⟨⟨.tag, "t"⟩, ⟨0, 2⟩, 1⟩, ⟨⟨.empty, ""⟩, ⟨2, 2⟩, 1⟩] = .ok p ∧
        (after 9 none (Machine.onConsole 256) [before]).bind
          (fun m => (m.run 9 p).bind Outcome.fault?) = some ⟨.undefined "aaa", ⟨9, 12⟩⟩ :=
    ⟨[64, 116, 32, 80, 82, 73, 78, 84, 32, 97, 97, 97, 10], [64, 116, 10],
      ⟨[.invoke "t" ⟨0, 2⟩], ["t"], []⟩, by cbv, by cbv, by cbv, by cbv⟩
  have scanned : Token.scan "@t\n" =
      .ok [⟨⟨.tag, "t"⟩, ⟨0, 2⟩, 1⟩, ⟨⟨.empty, ""⟩, ⟨2, 2⟩, 1⟩] := by cbv
  obtain ⟨m, session, run_fault⟩ := Option.bind_eq_some_iff.mp run_fault
  obtain ⟨outcome, run_eq, failed⟩ := Option.bind_eq_some_iff.mp run_fault
  have fails : Fails m "@t\n" ⟨.undefined "aaa", ⟨9, 12⟩⟩ :=
    .program scanned rfl read ⟨9, run_eq⟩ failed
  exact ⟨before, line, m, _, _, session, second, fails, first, rfl, fails.reported second, rfl,
    by decide, by decide, by decide⟩

end Interactive

end TagScript
