import TagScript.Proofs.Console.Channels
import TagScript.Proofs.Interactive.Origin
import TagScript.Proofs.Token.Row

/-! Lines that leave no trace. A line that only inspects the machine, has no statement in it,
or is no program is answered, and the conversation goes on with the machine as it was. So the
replies to all other lines are those of the conversation without it. -/
namespace TagScript.Interactive

variable {fuel limit : Nat} {wanted : Verbosity} {m : Machine} {reaction : Reaction}
  {input line : List UInt8} {before after : List (List UInt8)}

/-! The lines of an input, and of the input without one of them. -/

theorem lines_of_cons (h : lines input = line :: after) :
    lines after.flatten = after ∧
      (after ≠ [] → ∀ more, lines (line ++ more) = line :: lines more) := by
  induction input generalizing line after with
  | nil => cases h
  | cons b rest ih =>
    rw [lines] at h
    split at h
    case isTrue feed =>
      cases h
      exact ⟨by rw [flatten_lines], fun _ more => by simp [lines, feed]⟩
    case isFalse other =>
      split at h
      case h_1 =>
        cases h
        exact ⟨rfl, fun absent => absurd rfl absent⟩
      case h_2 first others rest_eq =>
        cases h
        obtain ⟨again, ended⟩ := ih rest_eq
        refine ⟨again, fun present more => ?_⟩
        rw [List.cons_append, lines, if_neg other, ended present more]

theorem lines_without (h : lines input = before ++ line :: after) :
    lines (before.flatten ++ after.flatten) = before ++ after := by
  induction before generalizing input with
  | nil => exact (lines_of_cons h).1
  | cons first others ih =>
    obtain ⟨again, ended⟩ := lines_of_cons h
    rw [List.flatten_cons, List.append_assoc, ended (by simp), ih again]
    rfl

theorem ne_nil_of_mem_lines (mem : line ∈ lines input) : line ≠ [] := by
  induction input generalizing line with
  | nil => cases mem
  | cons b rest ih =>
    rw [lines] at mem
    split at mem
    · rcases List.mem_cons.mp mem with rfl | mem
      · exact List.cons_ne_nil _ _
      · exact ih mem
    · split at mem
      case h_1 =>
        rw [List.mem_singleton.mp mem]
        exact List.cons_ne_nil _ _
      case h_2 first others rest_eq =>
        rcases List.mem_cons.mp mem with rfl | mem
        · exact List.cons_ne_nil _ _
        · exact ih (rest_eq ▸ List.mem_cons_of_mem _ mem)

/-! A conversation as a row of replies. -/

/-- The replies to one line after the other, up to one that ends the conversation, or to a line
to which there is none. -/
def turns (fuel : Nat) (wanted : Verbosity) (m : Machine) :
    List (List UInt8) → List (Option Reply)
  | [] => []
  | line :: rest =>
    match receive fuel wanted m line with
    | some (.stays reaction) => some (.stays reaction) :: turns fuel wanted reaction.machine rest
    | last => [last]

def replies (fuel : Nat) (wanted : Verbosity) (limit : Nat) (input : List UInt8) :
    List (Option Reply) :=
  turns fuel wanted (Machine.onConsole limit) (lines input)

def told : List (Option Reply) → Option Transcript
  | [] => some (.write (prompt ++ "\n"))
  | none :: _ => none
  | some (.leaves t) :: _ => some (.write prompt ++ t)
  | some (.stays reaction) :: rest =>
    (told rest).map (.write prompt ++ reaction.transcript ++ ·)

theorem converse_eq_told (fuel : Nat) (wanted : Verbosity) (m : Machine)
    (all : List (List UInt8)) : converse fuel wanted m all = told (turns fuel wanted m all) := by
  induction all generalizing m with
  | nil => rfl
  | cons line rest ih =>
    rw [converse, turns]
    cases receive fuel wanted m line with
    | none => rfl
    | some reply =>
      cases reply with
      | leaves t => rfl
      | stays reaction =>
        dsimp only [told]
        rw [ih]

/-- What is written in a session is the greeting, and what its replies tell. -/
theorem session_eq_told (fuel : Nat) (wanted : Verbosity) (limit : Nat) (input : List UInt8) :
    session fuel wanted limit input =
      (told (replies fuel wanted limit input)).map (.write greeting ++ ·) := by
  rw [session, converse_eq_told, replies]

/-! Lines that do no harm. -/

/-- The line is blank, asks for a table, has no tokens, cannot be scanned, is an expression, or
is no program. -/
inductive Harmless (line : List UInt8) : Prop
  | silent {text : String} (utf8 : String.fromUTF8? ⟨line.toArray⟩ = some text)
      (mem : String.ofList (Unicode.trim text.toList) ∈ ["", ":symbols", ":tags"])
  | bare {source : String} (text : code line = some source)
      (scanned : Token.scan source = .ok [])
  | unscanned {source : String} {fault : Fault LexError} (text : code line = some source)
      (failed : Token.scan source = .error fault)
  | expression {source : String} {tokens : List Token} (text : code line = some source)
      (scanned : Token.scan source = .ok tokens) (expression : isExpression tokens = true)
  | unread {source : String} {tokens : List Token} {fault : Fault ParseError}
      (text : code line = some source) (scanned : Token.scan source = .ok tokens)
      (other : isExpression tokens = false) (failed : Program.ofTokens tokens = .error fault)

theorem harmless_of_comment {c : Char} {text : List Char} (opening : c = '-' ∨ c = '>')
    (within : '\n' ∉ text)
    (comment : code line = some (String.ofList ('-' :: c :: text) ++ "\n")) : Harmless line := by
  have row : Piece.Row [.comment ('-' :: c :: text), .newline] [] := by
    refine ⟨⟨.comment opening within, trivial, ?_⟩, ⟨.newline, trivial, fun _ _ => trivial⟩,
      trivial⟩
    rintro d ⟨⟩
    rfl
  have text_eq : String.ofList ('-' :: c :: text) ++ "\n" =
      String.ofList (List.flatMap Piece.text [.comment ('-' :: c :: text), .newline]) := by
    simp [Piece.text, String.ofList_append, String.append_assoc]
  refine .bare comment ?_
  rw [text_eq, row.scan_eq]
  rfl

theorem reactToProgram_nil (fuel : Nat) (wanted : Verbosity) (source : String)
    (console : m.output = .console "") :
    ∃ t, reactToProgram (fuel + 1) wanted m source [] = some ⟨m, t⟩ := by
  have read : Program.ofTokens [] = .ok ⟨[], [], []⟩ := by cbv
  have run_eq : m.run (fuel + 1) ⟨[], [], []⟩ = some (.done m) := rfl
  have flushed : (flush m).machine = m := by
    obtain ⟨symbols, tags, output, limit, depth⟩ := m
    cases console
    rfl
  simp only [reactToProgram, read, run_eq, Outcome.machine, flushed]
  exact ⟨_, rfl⟩

theorem Harmless.receive_eq (harmless : Harmless line) (visible : line ≠ []) (fuel : Nat)
    (wanted : Verbosity) (console : m.output = .console "") :
    ∃ t, receive (fuel + 1) wanted m line = some (.stays ⟨m, t⟩) := by
  cases harmless with
  | silent utf8 mem =>
    rw [receive, if_neg visible, utf8]
    simp only [List.mem_cons, List.not_mem_nil, or_false] at mem
    rcases mem with trimmed | trimmed | trimmed <;>
      simp only [respond, trimmed] <;> exact ⟨_, rfl⟩
  | bare text scanned =>
    obtain ⟨trimmed, rfl, received⟩ := receive_of_code text
    obtain ⟨t, react_eq⟩ := reactToProgram_nil fuel wanted (trimmed ++ "\n") console
    simp only [received, reactToCode, scanned, isExpression, Bool.false_eq_true, if_false,
      react_eq, Option.map_some]
    exact ⟨_, rfl⟩
  | unscanned text failed =>
    obtain ⟨trimmed, rfl, received⟩ := receive_of_code text
    simp only [received, reactToCode, failed, Option.map_some]
    exact ⟨_, rfl⟩
  | expression text scanned expression =>
    obtain ⟨trimmed, rfl, received⟩ := receive_of_code text
    simp only [received, reactToCode, scanned, if_pos expression, reactToExpression,
      Option.map_some]
    exact ⟨_, rfl⟩
  | unread text scanned other failed =>
    obtain ⟨trimmed, rfl, received⟩ := receive_of_code text
    simp only [received, reactToCode, scanned, other, Bool.false_eq_true, if_false,
      reactToProgram, failed, Option.map_some]
    exact ⟨_, rfl⟩

theorem output_of_receive (console : m.output = .console "")
    (h : receive fuel wanted m line = some (.stays reaction)) :
    reaction.machine.output = .console "" := by
  cases text : code line with
  | none =>
    obtain same | cleared := machine_of_command text h
    · rw [same, console]
    · rw [cleared, Machine.reset, console]
      rfl
  | some source =>
    obtain ⟨trimmed, rfl, received⟩ := receive_of_code text
    rw [received] at h
    obtain ⟨reaction', react_eq, same⟩ := Option.map_eq_some_iff.mp h
    cases same
    obtain same | ⟨tokens, p, outcome, -, -, ends, flushed⟩ := machine_of_reactToCode react_eq
    · rw [same, console]
    · obtain ⟨values, output_eq⟩ := (Run.EndsIn.grows ends (Run.level_ofStatements _ _)).1.output
      have start_eq : (m.start p).machine.output = .console "" := console
      rw [start_eq, Output.emitAll_console] at output_eq
      rw [flushed, flush, output_eq]

/-! Without such a line. -/

theorem turns_without (harmless : Harmless line) (visible : line ≠ []) (fuel : Nat)
    (wanted : Verbosity) (console : m.output = .console "") (before after : List (List UInt8)) :
    turns (fuel + 1) wanted m (before ++ after) =
      (turns (fuel + 1) wanted m (before ++ line :: after)).eraseIdx before.length := by
  -- on the lines before it; each of them finds the same machine in both conversations
  induction before generalizing m with
  | nil =>
    obtain ⟨t, received⟩ := harmless.receive_eq visible fuel wanted console
    rw [List.nil_append, List.nil_append, turns, received]
    rfl
  | cons first others ih =>
    rw [List.cons_append, List.cons_append, turns, turns]
    cases received : receive (fuel + 1) wanted m first with
    | none => rfl
    | some reply =>
      cases reply with
      | leaves t => rfl
      | stays reaction => exact congrArg (_ :: ·) (ih (output_of_receive console received))

/-- An input without a line that does no harm is an input of all the other lines, and the
replies to them are what they were. -/
theorem replies_without (input_eq : lines input = before ++ line :: after)
    (harmless : Harmless line) (fuel : Nat) (wanted : Verbosity) (limit : Nat) :
    lines (before.flatten ++ after.flatten) = before ++ after ∧
      replies (fuel + 1) wanted limit (before.flatten ++ after.flatten) =
        (replies (fuel + 1) wanted limit input).eraseIdx before.length := by
  have mem : line ∈ lines input := by
    rw [input_eq]
    exact List.mem_append_right _ List.mem_cons_self
  have rest_eq := lines_without input_eq
  refine ⟨rest_eq, ?_⟩
  rw [replies, replies, rest_eq, input_eq]
  exact turns_without harmless (ne_nil_of_mem_lines mem) fuel wanted rfl before after

/-- A division by zero between a line that sets a variable and one that prints it. -/
theorem replies_without_division :
    ∃ first line last : List UInt8,
      lines (first ++ line ++ last) = [first, line, last] ∧ code line = some "1/0\n" ∧
      Harmless line ∧ lines (first ++ last) = [first, last] ∧
      replies 9 none 256 (first ++ last) =
        (replies 9 none 256 (first ++ line ++ last)).eraseIdx 1 ∧
      (session 9 none 256 (first ++ last)).map (·.out) = some (greeting ++ "> > 1\n> \n") := by
  obtain ⟨first, line, last, tokens, input_eq, text, scanned, expression, session_eq⟩ :
      ∃ (first line last : List UInt8) (tokens : List Token),
        lines (first ++ line ++ last) = [first] ++ line :: [last] ∧ code line = some "1/0\n" ∧
        Token.scan "1/0\n" = .ok tokens ∧ isExpression tokens = true ∧
        (session 9 none 256 (first ++ last)).map (·.out) = some (greeting ++ "> > 1\n> \n") :=
    ⟨[120, 61, 49, 10], [49, 47, 48, 10], [80, 82, 73, 78, 84, 32, 120, 10],
      [⟨⟨.integer, "1"⟩, ⟨0, 1⟩, 1⟩, ⟨⟨.slash, "/"⟩, ⟨1, 2⟩, 1⟩, ⟨⟨.integer, "0"⟩, ⟨2, 3⟩, 1⟩],
      by cbv, by cbv, by cbv, rfl, by cbv⟩
  have harmless : Harmless line := .expression text scanned expression
  obtain ⟨rest_eq, replies_eq⟩ := replies_without input_eq harmless 8 none 256
  rw [List.flatten_singleton, List.flatten_singleton] at rest_eq replies_eq
  exact ⟨first, line, last, input_eq, text, harmless, rest_eq, replies_eq, session_eq⟩

end TagScript.Interactive
