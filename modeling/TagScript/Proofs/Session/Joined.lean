import Mathlib
import TagScript.Proofs.Machine.Displacement
import TagScript.Proofs.Reading.Shift
import TagScript.Proofs.Session.Declared

/-! Running in pieces is running at once. A text and another below it, which declares no
tag body, do together what they do one after the other on the same machine. Of the two
runs the one has taken up the tags of the lower text before the upper one is run; no
statement of a session can see that, for it names no tag that is not in the table anyway. -/
namespace TagScript

namespace Stmt

theorem allMentions_append (body rest : List Stmt) :
    allMentions (body ++ rest) = allMentions body ++ allMentions rest := by
  induction body with
  | nil => rfl
  | cons s body ih => rw [List.cons_append, allMentions, allMentions, ih, List.append_assoc]

theorem allDeclarations_append (body rest : List Stmt) :
    allDeclarations (body ++ rest) = allDeclarations body ++ allDeclarations rest := by
  induction body with
  | nil => rfl
  | cons s body ih => rw [List.cons_append, allDeclarations, allDeclarations, ih, List.append_assoc]

end Stmt

namespace Machine

theorem load_mapSpans_of_no_bindings {q : Program} (no_body : q.bindings = []) (m : Machine)
    (f : Span → Span) : m.load (q.mapSpans f) = m.load q := by
  rw [load, load, Program.mapSpans, no_body]
  rfl

theorem load_append (m : Machine) (body rest : List Stmt) :
    m.load (.ofStatements (body ++ rest)) =
      (m.load (.ofStatements body)).load (.ofStatements rest) := by
  have same : m.tags.takeUp (.ofStatements (body ++ rest)) =
      (m.tags.takeUp (.ofStatements body)).takeUp (.ofStatements rest) := by
    refine TagTable.takeUp_takeUp (fun tag => ?_) (Stmt.allDeclarations_append body rest)
    simp only [Program.ofStatements, List.mem_eraseDups, Stmt.allMentions_append, List.mem_append]
  exact congrArg (fun τ => { m with tags := τ }) same

variable {m : Machine} {p q : Program}

theorem start_append (m : Machine) (p_eq : p = .ofStatements p.statements)
    (q_eq : q = .ofStatements q.statements) (no_body : q.bindings = []) (f : Span → Span) :
    m.start (.ofStatements (p.statements ++ Stmt.mapAllSpans f q.statements)) =
      ⟨Task.sequence p.statements ++ Task.sequence (Stmt.mapAllSpans f q.statements),
        (m.load p).load q⟩ := by
  have loaded : m.load (.ofStatements (p.statements ++ Stmt.mapAllSpans f q.statements)) =
      (m.load p).load q := by
    rw [load_append, ← p_eq, Program.ofStatements_mapAllSpans, ← q_eq,
      load_mapSpans_of_no_bindings no_body]
  rw [start, loaded, Run.ofStatements, Program.ofStatements, Task.sequence, List.map_append]
  rfl

theorem early_of_no_bindings (closed : m.tags.Closed) (declares : p.Declares)
    (no_body : q.bindings = []) :
    (m.start p).Diverges ∧ (Run.ofStatements p.statements ((m.load p).load q)).Diverges ∨
      ∃ o o', (m.start p).EndsIn o ∧
        (Run.ofStatements p.statements ((m.load p).load q)).EndsIn o' ∧
        Outcome.Displaced (fun f _ => f = id) (·.takeUp q) o o' := by
  have closed' := closed_load closed declares
  have everywhere (s : Stmt) : s.Spanned fun _ => True := Stmt.spanned_iff.mpr fun _ _ => trivial
  refine Run.Displaced.alike (K := Stmt.Known (m.load p).tags) ⟨closed'.hereditary, ?_, ?_⟩ ?_
  · intro tag span known
    have mem := known tag (List.mem_singleton.mpr rfl)
    rw [Std.ExtTreeMap.mem_iff_isSome_getElem?] at mem
    obtain ⟨body, look⟩ := Option.isSome_iff_exists.mp mem
    rw [TagTable.getElem?_takeUp, no_body, look]
    rfl
  · exact ⟨fun _ => True, rfl, fun tag body _ => everywhere body⟩
  · refine ⟨?_, rfl, rfl, known_of_start declares⟩
    have stays := Task.displaced_map (W := fun f _ => f = id) (f := id) rfl
      (Task.holds_sequence fun s (_ : s ∈ p.statements) => everywhere s)
    rwa [funext Task.mapSpans_id, List.map_id'] at stays

end Machine

/-- The same end, but a fault of the statements themselves, and not of the body of a tag,
lies further on. -/
inductive Outcome.FurtherOn (τ : TagTable) (body : List Stmt) (distance : Nat) :
    Outcome → Outcome → Prop
  | done (m : Machine) : FurtherOn τ body distance (done m) (done m)
  | inStatements {fault : Fault RuntimeError} (m : Machine)
      (own : fault.span ∈ Stmt.allSpans body) :
      FurtherOn τ body distance (failed fault m) (failed (fault.mapSpan (·.shift distance)) m)
  | inBody {fault : Fault RuntimeError} (m : Machine) {tag : String} {s : Stmt}
      (bound : τ[tag]? = some (some s)) (borrowed : fault.span ∈ s.spans) :
      FurtherOn τ body distance (failed fault m) (failed fault m)

namespace Machine

variable {m : Machine} {q : Program}

/-- A program whose text stands further on does the same and blames what stands there. -/
theorem further_on_of_no_bindings (closed : m.tags.Closed) (declares : q.Declares)
    (distance : Nat) :
    (m.start q).Diverges ∧ (Run.ofStatements (Stmt.mapAllSpans (·.shift distance) q.statements)
        (m.load q)).Diverges ∨
      ∃ o o', (m.start q).EndsIn o ∧
        (Run.ofStatements (Stmt.mapAllSpans (·.shift distance) q.statements)
          (m.load q)).EndsIn o' ∧
        o.FurtherOn (m.load q).tags q.statements distance o' := by
  let shifted : Span → Span := (·.shift distance)
  let InBody : Span → Prop := fun span => ∃ (tag : String) (s : Stmt),
    (m.load q).tags[tag]? = some (some s) ∧ span ∈ s.spans
  let Way : (Span → Span) → (Span → Prop) → Prop := fun f P =>
    f = id ∧ P = InBody ∨ f = shifted ∧ P = (· ∈ Stmt.allSpans q.statements)
  have displacement : Displacement Way id (m.load q).tags (Stmt.Known (m.load q).tags) := by
    refine ⟨(closed_load closed declares).hereditary, fun _ => rfl, InBody, .inl ⟨rfl, rfl⟩, ?_⟩
    exact fun tag body bound => Stmt.spanned_iff.mpr fun span mem => ⟨tag, body, bound, mem⟩
  have displaced : Run.Displaced Way id (m.load q).tags (Stmt.Known (m.load q).tags) (m.start q)
      (Run.ofStatements (Stmt.mapAllSpans shifted q.statements) (m.load q)) := by
    refine ⟨?_, rfl, rfl, known_of_start declares⟩
    have spanned := Stmt.allSpanned_iff.mp
      (Stmt.allSpanned_iff_spans.mpr fun span (mem : span ∈ Stmt.allSpans q.statements) => mem)
    rw [Run.ofStatements, Task.sequence_mapAllSpans]
    exact Task.displaced_map (.inr ⟨rfl, rfl⟩) (Task.holds_sequence spanned)
  obtain both | ⟨o, o', ends, ends', outcome⟩ := displaced.alike displacement
  · exact .inl both
  · refine .inr ⟨o, o', ends, ends', ?_⟩
    cases outcome with
    | done m' => exact .done m'
    | failed m' way blamed =>
      obtain ⟨rfl, rfl⟩ | ⟨rfl, rfl⟩ := way
      · obtain ⟨tag, s, bound, mem⟩ := blamed
        exact .inBody m' bound mem
      · exact .inStatements m' blamed

end Machine

namespace Session

variable {fuel limit : Nat} {output : Output} {commands : List Command} {m : Machine}
  {upper lower : String} {us vs : List Token} {p q : Program}

/-- On any machine of a session, a text with another below it that declares no tag body does
what the two do one after the other. The text is read as the statements of both. It runs for
ever if one of them does; it fails as the upper one does, with the tags of the lower one taken up
besides; and it ends as the lower one does after the upper one. -/
theorem joined (parsed : ∀ command ∈ commands, command.Parsed)
    (performed : performAll fuel { limit, output } commands = some m)
    (first : Program.ofSource upper = .ok (us, p)) (second : Program.ofSource lower = .ok (vs, q))
    (no_body : q.bindings = []) :
    ∃ ws whole, Program.ofSource (upper ++ "\n" ++ lower) = .ok (ws, whole) ∧
      whole.statements =
        p.statements ++ Stmt.mapAllSpans (·.shift (upper.length + 1)) q.statements ∧
      (m.Diverges p ∧ m.Diverges whole ∨
        (∃ fault m', m.EndsIn p (.failed fault m') ∧ m.EndsIn whole (.failed fault (m'.load q)) ∧
          (m'.load q).symbols = m'.symbols ∧ (m'.load q).output = m'.output) ∨
        ∃ m', m.EndsIn p (.done m') ∧
          (m'.Diverges q ∧ m.Diverges whole ∨
            ∃ o o', m'.EndsIn q o ∧ m.EndsIn whole o' ∧
              o.FurtherOn (m'.load q).tags q.statements (upper.length + 1) o')) := by
  have closed : m.tags.Closed :=
    performAll_invariant_of closed_of_perform parsed performed TagTable.closed_empty
  have read := (Program.ofSource_eq_ok_iff.mp first).2
  have read' := (Program.ofSource_eq_ok_iff.mp second).2
  have declares := Program.declares_of_ofTokens read
  have declares' := Program.declares_of_ofTokens read'
  have start_eq := Machine.start_append m (Program.ofTokens_eq_ok_iff_located.mp read).2
    (Program.ofTokens_eq_ok_iff_located.mp read').2 no_body (·.shift (upper.length + 1))
  let waiting := Task.sequence (Stmt.mapAllSpans (·.shift (upper.length + 1)) q.statements)
  refine ⟨_, _, Program.ofSource_join first second, rfl, ?_⟩
  obtain ⟨diverges, diverges'⟩ | ⟨o, o', ends, ends', displaced⟩ :=
    Machine.early_of_no_bindings closed declares no_body
  · refine .inl ⟨diverges, ?_⟩
    change (m.start _).Diverges
    rw [start_eq]
    exact diverges'.append waiting
  cases displaced with
  | @failed fault m' f P way blamed =>
    cases way
    refine .inr (.inl ⟨fault, m', ends, ?_, rfl, rfl⟩)
    change (m.start _).EndsIn _
    rw [start_eq]
    exact ends'.append_of_failed (Task.countP_isLeave_sequence _)
  | done m' =>
    have tags_eq : m'.tags = (m.load p).tags := (ends.grows (Run.level_ofStatements _ _)).1.tags
    have closed' : m'.tags.Closed := tags_eq ▸ Machine.closed_load closed declares
    have reaches : (m.start _).Reaches ⟨waiting, m'.load q⟩ :=
      start_eq ▸ ends'.reaches_append waiting
    refine .inr (.inr ⟨m', ends, ?_⟩)
    obtain ⟨diverges, diverges'⟩ | ⟨o, o', ends, ends', further⟩ :=
      Machine.further_on_of_no_bindings closed' declares' (upper.length + 1)
    · exact .inl ⟨diverges, diverges'.of_reaches reaches⟩
    · exact .inr ⟨o, o', ends, (Run.EndsIn.iff_of_reaches reaches).mpr ends', further⟩

/-- The lower text invokes a tag from before, which works on what the upper text assigns,
and then one that has no body. -/
theorem joined_without_body :
    ∃ (commands : List Command) (m m' : Machine) (p q whole : Program) (ws : List Token)
      (o o' : Outcome),
      (∀ command ∈ commands, command.Parsed) ∧ performAll 9 {} commands = some m ∧
      Program.ofSource ("x=2" ++ "\n" ++ "@t\n@u") = .ok (ws, whole) ∧
      m.EndsIn p (.done m') ∧ m'.EndsIn q o ∧ m.EndsIn whole o' ∧
      o.FurtherOn (m'.load q).tags q.statements 4 o' ∧
      o.fault? = some ⟨.emptyTag "u", ⟨3, 5⟩⟩ ∧ o'.fault? = some ⟨.emptyTag "u", ⟨7, 9⟩⟩ := by
  let declaring : Program := ⟨[.declare "t" (.print (.named "x" ⟨9, 10⟩) ⟨3, 10⟩) ⟨0, 10⟩],
    ["t"], [("t", .print (.named "x" ⟨9, 10⟩) ⟨3, 10⟩)]⟩
  let assign : Stmt := .assign ⟨"x", none, ⟨0, 1⟩⟩ (.scalar (.integer 2 ⟨2, 3⟩)) ⟨0, 3⟩
  let p : Program := ⟨[assign], [], []⟩
  let q : Program := ⟨[.invoke "t" ⟨0, 2⟩, .invoke "u" ⟨3, 5⟩], ["t", "u"], []⟩
  let whole : Program :=
    ⟨[assign, .invoke "t" ⟨4, 6⟩, .invoke "u" ⟨7, 9⟩], ["t", "u"], []⟩
  have parsed : ∀ command ∈ [Command.program declaring], command.Parsed :=
    List.forall_mem_singleton.mpr ⟨[⟨⟨.tag, "t"⟩, ⟨0, 2⟩, 1⟩, ⟨⟨.printWord, "PRINT"⟩, ⟨3, 8⟩, 1⟩,
      ⟨⟨.identifier, "x"⟩, ⟨9, 10⟩, 1⟩], by cbv⟩
  obtain ⟨us, first⟩ : ∃ us, Program.ofSource "x=2" = .ok (us, p) := ⟨_, by cbv⟩
  obtain ⟨vs, second⟩ : ∃ vs, Program.ofSource "@t\n@u" = .ok (vs, q) := ⟨_, by cbv⟩
  obtain ⟨ws, both⟩ : ∃ ws, Program.ofSource ("x=2" ++ "\n" ++ "@t\n@u") = .ok (ws, whole) :=
    ⟨_, by cbv⟩
  obtain ⟨m, performed, m', ends, o, ends', fault_eq, o', whole_ends, fault_eq'⟩ :
      ∃ m, performAll 9 {} [.program declaring] = some m ∧ ∃ m', m.run 9 p = some (.done m') ∧
        ∃ o, m'.run 9 q = some o ∧ o.fault? = some ⟨.emptyTag "u", ⟨3, 5⟩⟩ ∧
        ∃ o', m.run 9 whole = some o' ∧ o'.fault? = some ⟨.emptyTag "u", ⟨7, 9⟩⟩ :=
    ⟨_, rfl, _, rfl, _, rfl, rfl, _, rfl, rfl⟩
  refine ⟨_, m, m', p, q, whole, ws, o, o', parsed, performed, both, ⟨9, ends⟩, ⟨9, ends'⟩,
    ⟨9, whole_ends⟩, ?_, fault_eq, fault_eq'⟩
  obtain ⟨ws', whole', read, -, ⟨diverges, -⟩ | ⟨fault, other, failed, -⟩ | ⟨other, done, rest⟩⟩ :=
    joined parsed performed first second rfl
  · cases (diverges 9).symm.trans ends
  · cases Run.EndsIn.unique failed ⟨9, ends⟩
  cases Run.EndsIn.unique done ⟨9, ends⟩
  cases both.symm.trans read
  obtain ⟨diverges, -⟩ | ⟨last, last', last_ends, last_ends', further⟩ := rest
  · cases (diverges 9).symm.trans ends'
  cases Run.EndsIn.unique last_ends ⟨9, ends'⟩
  cases Run.EndsIn.unique last_ends' ⟨9, whole_ends⟩
  exact further

end Session

end TagScript
