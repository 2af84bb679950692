import Mathlib.Data.List.Basic
import TagScript.Proofs.Machine.Blame
import TagScript.Proofs.Machine.Loading
import TagScript.Proofs.Reading.Declarations
import TagScript.Proofs.Session.Recovery

/-! In a session of programs that were read, no tag is ever unknown: a program takes up
every tag that its text mentions, and with it every tag that a body from the text
mentions, and no tag is forgotten before the bodies are. -/
namespace TagScript

namespace Stmt

variable {body : List Stmt} {s : Stmt} {name : String}

theorem mem_allMentions_iff : name ∈ allMentions body ↔ ∃ s ∈ body, name ∈ s.mentions := by
  induction body with
  | nil => simp [allMentions]
  | cons s rest ih => simp [allMentions, ih]

mutual

theorem mentions_of_mem_declarations {s : Stmt} {binding : Binding}
    (mem : binding ∈ s.declarations) (named : name ∈ binding.2.mentions) : name ∈ s.mentions := by
  match s with
  | .declare tag body span =>
    rcases List.mem_append.mp mem with inside | here
    · exact List.mem_cons_of_mem tag (mentions_of_mem_declarations inside named)
    · cases List.mem_singleton.mp here
      exact List.mem_cons_of_mem tag named
  | .ifThen condition body span | .loop condition body span =>
    have inside : binding ∈ allDeclarations body := mem
    exact allMentions_of_mem_allDeclarations inside named
  | .ifElse condition body other span =>
    rcases List.mem_append.mp mem with inside | inside
    · exact List.mem_append_left _ (allMentions_of_mem_allDeclarations inside named)
    · exact List.mem_append_right _ (allMentions_of_mem_allDeclarations inside named)

theorem allMentions_of_mem_allDeclarations {body : List Stmt} {binding : Binding}
    (mem : binding ∈ allDeclarations body) (named : name ∈ binding.2.mentions) :
    name ∈ allMentions body := by
  match body with
  | s :: rest =>
    rcases List.mem_append.mp mem with inside | inside
    · exact List.mem_append_left _ (mentions_of_mem_declarations inside named)
    · exact List.mem_append_right _ (allMentions_of_mem_allDeclarations inside named)

end

/-- Every tag that the statement names is in the table, with a body or without. -/
def Known (τ : TagTable) (s : Stmt) : Prop :=
  ∀ name ∈ s.mentions, name ∈ τ

end Stmt

def TagTable.Closed (τ : TagTable) : Prop :=
  ∀ (tag : String) (body : Stmt), τ[tag]? = some (some body) → body.Known τ

theorem TagTable.closed_empty : TagTable.Closed ∅ := by
  intro tag body bound
  rw [Std.ExtTreeMap.getElem?_empty] at bound
  cases bound

theorem TagTable.Closed.hereditary {τ : TagTable} (closed : τ.Closed) :
    τ.Hereditary (Stmt.Known τ) where
  ifThen known s mem name named := known name (Stmt.mem_allMentions_iff.mpr ⟨s, mem, named⟩)
  loop known s mem name named := known name (Stmt.mem_allMentions_iff.mpr ⟨s, mem, named⟩)
  ifElse known :=
    ⟨fun s mem name named => known name
        (List.mem_append_left _ (Stmt.mem_allMentions_iff.mpr ⟨s, mem, named⟩)),
      fun s mem name named => known name
        (List.mem_append_right _ (Stmt.mem_allMentions_iff.mpr ⟨s, mem, named⟩))⟩
  invoke _ bound := closed _ _ bound

namespace Program

/-- The tags of the program are at least those that its statements and its bodies name. -/
structure Declares (p : Program) : Prop where
  statements : ∀ name ∈ Stmt.allMentions p.statements, name ∈ p.tags
  bindings : ∀ binding ∈ p.bindings, ∀ name ∈ binding.2.mentions, name ∈ p.tags

theorem declares_of_ofTokens {ts : List Token} {p : Program} (read : ofTokens ts = .ok p) :
    p.Declares := by
  obtain ⟨statements, tags_eq, bindings_eq⟩ := ofTokens_eq_ok_iff.mp read
  have tags_eq' : p.tags = (Stmt.allMentions p.statements).eraseDups := by
    rw [tags_eq, Reading.tagNames_of_read statements, Stmt.eraseAll, Stmt.allMentions_mapAllSpans]
  have mentioned : ∀ name ∈ Stmt.allMentions p.statements, name ∈ p.tags := by
    intro name named
    rw [tags_eq']
    exact List.mem_eraseDups.mpr named
  refine ⟨mentioned, fun binding mem name named => mentioned name ?_⟩
  rw [bindings_eq, Reading.bindings_of_read statements] at mem
  exact Stmt.allMentions_of_mem_allDeclarations mem named

end Program

namespace Machine

variable {m : Machine} {p : Program}

theorem closed_load (closed : m.tags.Closed) (declares : p.Declares) :
    (m.load p).tags.Closed := by
  intro tag body bound name named
  rw [mem_load]
  rcases bound_of_load bound with here | ⟨-, earlier⟩
  · exact .inr (.inl (declares.bindings (tag, body) here name named))
  · exact .inr (.inr (closed tag body earlier name named))

theorem known_of_start (declares : p.Declares) :
    ∀ t ∈ (m.start p).tasks, t.Holds (Stmt.Known (m.load p).tags) := by
  refine Task.holds_sequence fun s mem name named => ?_
  rw [mem_load]
  exact .inr (.inl (declares.statements name (Stmt.mem_allMentions_iff.mpr ⟨s, mem, named⟩)))

end Machine

theorem Machine.not_mem_of_undeclared {m : Machine} {name tag : String} {span : Span}
    {fault : Fault RuntimeError} (h : m.bodyOf name span = .error fault)
    (cause : fault.cause = .undeclaredTag tag) : name ∉ m.tags := by
  unfold bodyOf at h
  split at h
  case h_1 absent => rw [Std.ExtTreeMap.mem_iff_isSome_getElem?, absent]; exact Bool.false_ne_true
  case h_2 =>
    cases h
    cases cause
  case h_3 =>
    split at h
    · cases h
      cases cause
    · cases h

theorem Task.declared_of_effect_error {task : Task} {m : Machine} {fault : Fault RuntimeError}
    (known : task.Holds (Stmt.Known m.tags)) (h : task.effect m = .error fault) (tag : String) :
    fault.cause ≠ .undeclaredTag tag := by
  intro cause
  by_cases invokes : ∃ name span, task = perform (.invoke name span)
  · obtain ⟨name, span, rfl⟩ := invokes
    exact Machine.not_mem_of_undeclared (Checked.map_eq_error_iff.mp h) cause
      (known name (List.mem_singleton.mpr rfl))
  · have other := ofTag_of_effect_error h fun name span task_eq => invokes ⟨name, span, task_eq⟩
    rw [cause] at other
    cases other

namespace Session

/-- A command that runs a program runs one that was read from tokens. -/
def Command.Parsed : Command → Prop
  | .program p => ∃ ts, Program.ofTokens ts = .ok p
  | .statements _ => False
  | .value _ | .limit _ | .reset => True

variable {fuel : Nat} {m : Machine} {command : Command} {answer : Answer}

theorem closed_of_perform (parsed : command.Parsed) (h : perform fuel m command = some answer)
    (closed : m.tags.Closed) : answer.machine.tags.Closed := by
  cases command with
  | program p =>
    obtain ⟨ts, read⟩ := parsed
    rw [(grows_of_finish h).1.tags]
    exact Machine.closed_load closed (Program.declares_of_ofTokens read)
  | statements => exact parsed.elim
  | value e =>
    rw [machine_of_value h]
    exact closed
  | limit n =>
    cases h
    exact closed
  | reset =>
    cases h
    exact TagTable.closed_empty

theorem declared_of_perform (parsed : command.Parsed) (h : perform fuel m command = some answer)
    (closed : m.tags.Closed) {fault : Fault RuntimeError} (failed : fault ∈ answer.fault)
    (tag : String) : fault.cause ≠ .undeclaredTag tag := by
  cases command with
  | program p =>
    obtain ⟨ts, read⟩ := parsed
    have declares := Program.declares_of_ofTokens read
    obtain ⟨outcome, finish_eq, rfl⟩ := Option.map_eq_some_iff.mp h
    obtain ⟨task, m', known, tags_eq, effect_eq⟩ :=
      Run.exists_failed (Machine.closed_load closed declares).hereditary
        (Machine.known_of_start declares) ⟨fuel, finish_eq⟩ failed
    have known' : task.Holds (Stmt.Known m'.tags) := tags_eq ▸ known
    exact Task.declared_of_effect_error known' effect_eq tag
  | statements => exact parsed.elim
  | value e =>
    rw [perform] at h
    cases eval_eq : m.symbols.eval e with
    | ok v =>
      rw [eval_eq] at h
      cases h
      cases failed
    | error fault' =>
      rw [eval_eq] at h
      cases h
      cases failed
      have spanned : e.Spanned fun _ => True := Expr.spanned_iff.mpr fun _ _ => trivial
      have blames := m.symbols.blames_eval spanned fault eval_eq
      intro cause
      cases cause ▸ blames.1
  | limit | reset =>
    cases h
    cases failed

/-- In a session of programs that were read, evaluations, limits and resets, whatever of
it failed: every tag that a body names is in the table, and while a program runs so is every
tag that is named in what is left to do. Nothing fails because a tag is unknown. -/
theorem all_declared {limit : Nat} {output : Output} {commands : List Command}
    (parsed : ∀ command ∈ commands, command.Parsed)
    (performed : performAll fuel { limit, output } commands = some m) :
    m.tags.Closed ∧
    (∀ ts p, Program.ofTokens ts = .ok p → ∀ r, (m.start p).Reaches r →
      r.machine.tags.Closed ∧ ∀ t ∈ r.tasks, t.Holds (Stmt.Known r.machine.tags)) ∧
    ∀ fuel command answer, command.Parsed → perform fuel m command = some answer →
      ∀ fault ∈ answer.fault, ∀ tag, fault.cause ≠ .undeclaredTag tag := by
  have closed : m.tags.Closed :=
    performAll_invariant_of closed_of_perform parsed performed TagTable.closed_empty
  refine ⟨closed, fun ts p read r reaches => ?_, fun fuel command answer parsed h fault failed =>
    declared_of_perform parsed h closed failed⟩
  have declares := Program.declares_of_ofTokens read
  have closed' := Machine.closed_load closed declares
  rw [(Run.grows_of_reaches reaches).tags]
  exact ⟨closed', Run.holds_of_reaches closed'.hereditary (Machine.known_of_start declares) reaches⟩

/-- The body of a tag from one line invokes another, which no line gives a body. A program
that comes later runs into it, and yet the tag is known. -/
theorem all_declared_without_body :
    ∃ (commands : List Command) (m : Machine) (command : Command) (answer : Answer)
      (fault : Fault RuntimeError),
      (∀ command ∈ commands, command.Parsed) ∧
      performAll 9 { limit := 4, output := .captured #[] } commands = some m ∧
      command.Parsed ∧ perform 9 m command = some answer ∧ answer.fault = some fault ∧
      fault.cause = .emptyTag "u" ∧ m.tags.Closed ∧ ∀ tag, fault.cause ≠ .undeclaredTag tag := by
  let declaring : Program :=
    ⟨[.declare "t" (.invoke "u" ⟨3, 5⟩) ⟨0, 5⟩], ["t", "u"], [("t", .invoke "u" ⟨3, 5⟩)]⟩
  let invoking : Program := ⟨[.invoke "t" ⟨0, 2⟩], ["t"], []⟩
  have declared : Command.Parsed (.program declaring) :=
    ⟨[⟨⟨.tag, "t"⟩, ⟨0, 2⟩, 1⟩, ⟨⟨.tag, "u"⟩, ⟨3, 5⟩, 1⟩, ⟨⟨.empty, ""⟩, ⟨5, 5⟩, 1⟩], by cbv⟩
  have invoked : Command.Parsed (.program invoking) :=
    ⟨[⟨⟨.tag, "t"⟩, ⟨0, 2⟩, 1⟩, ⟨⟨.empty, ""⟩, ⟨2, 2⟩, 1⟩], by cbv⟩
  have parsed : ∀ command ∈ [Command.program declaring, .limit 2], command.Parsed := by
    simp only [List.mem_cons, List.not_mem_nil, or_false, forall_eq_or_imp, forall_eq]
    exact ⟨declared, trivial⟩
  obtain ⟨m, performed, answer, perform_eq, fault, failed, cause⟩ :
      ∃ m, performAll 9 { limit := 4, output := .captured #[] }
          [.program declaring, .limit 2] = some m ∧
        ∃ answer, perform 9 m (.program invoking) = some answer ∧
          ∃ fault, answer.fault = some fault ∧ fault.cause = .emptyTag "u" :=
    ⟨_, rfl, _, rfl, _, rfl, rfl⟩
  obtain ⟨closed, -, known⟩ := all_declared parsed performed
  exact ⟨_, m, _, answer, fault, parsed, performed, invoked, perform_eq, failed, cause, closed,
    known 9 _ answer invoked perform_eq fault failed⟩

end Session

end TagScript
