import Mathlib.Data.List.DropRight
import TagScript.Proofs.Machine.Loading
import TagScript.Proofs.Session.Recovery

/-! The table of tags in a session. Only programs add to it and only a reset empties it,
so its content can be read off the programs since the last reset: to mention a tag keeps
the body that it has, to bind it puts the new body in its place. -/
namespace TagScript

namespace Session

namespace Command

def program? : Command → Option Program
  | program p => some p
  | _ => none

def isReset : Command → Bool
  | reset => true
  | _ => false

end Command

def sinceReset (commands : List Command) : List Command :=
  commands.rtakeWhile fun command => !command.isReset

def programs (commands : List Command) : List Program :=
  commands.filterMap Command.program?

variable {fuel : Nat} {m m' : Machine} {command : Command} {commands : List Command}
  {answer : Answer}

theorem tags_of_perform (h : perform fuel m command = some answer)
    (keeps : command.isReset = false) :
    answer.machine.tags = command.program?.toList.foldl TagTable.takeUp m.tags := by
  cases command with
  | program p => exact (grows_of_finish h).1.tags
  | statements body => exact (grows_of_finish h).1.tags
  | value e => exact congrArg Machine.tags (machine_of_value h)
  | limit n =>
    cases h
    rfl
  | reset => cases keeps

theorem tags_of_performAll (h : performAll fuel m commands = some m')
    (keep : ∀ command ∈ commands, command.isReset = false) :
    m'.tags = (programs commands).foldl TagTable.takeUp m.tags := by
  induction commands generalizing m with
  | nil =>
    cases h
    rfl
  | cons command rest ih =>
    rw [performAll] at h
    cases perform_eq : perform fuel m command with
    | none =>
      rw [perform_eq] at h
      cases h
    | some answer =>
      rw [perform_eq] at h
      rw [ih h fun other mem => keep other (List.mem_cons_of_mem command mem),
        tags_of_perform perform_eq (keep command List.mem_cons_self), ← List.foldl_append]
      cases program_eq : command.program? <;> simp [programs, program_eq]

theorem eq_append_sinceReset (commands : List Command) :
    commands = sinceReset commands ∨
      ∃ before, commands = before ++ .reset :: sinceReset commands := by
  induction commands using List.reverseRecOn with
  | nil => exact .inl rfl
  | append_singleton commands last ih =>
    cases kind : last.isReset with
    | true =>
      have since_eq : sinceReset (commands ++ [last]) = [] :=
        List.rtakeWhile_concat_neg _ _ _ (by simp [kind])
      cases last with
      | reset => exact .inr ⟨commands, by rw [since_eq]⟩
      | program | statements | value | limit => cases kind
    | false =>
      have since_eq : sinceReset (commands ++ [last]) = sinceReset commands ++ [last] :=
        List.rtakeWhile_concat_pos _ _ _ (by simp [kind])
      rw [since_eq]
      rcases ih with whole | ⟨before, append_eq⟩
      · exact .inl (congrArg (· ++ [last]) whole)
      · refine .inr ⟨before, ?_⟩
        conv_lhs => rw [append_eq]
        rw [List.append_assoc, List.cons_append]

theorem keeps_of_mem_sinceReset (mem : command ∈ sinceReset commands) :
    command.isReset = false := by
  simpa using List.mem_rtakeWhile_imp mem

theorem performAll_append {first second : List Command} :
    performAll fuel m (first ++ second) =
      (performAll fuel m first).bind fun mid => performAll fuel mid second := by
  induction first generalizing m with
  | nil => rfl
  | cons command rest ih =>
    rw [List.cons_append, performAll, performAll]
    cases perform fuel m command with
    | none => rfl
    | some answer => exact ih

/-- The table holds what the programs since the last reset put there. -/
theorem tags_sinceReset {limit : Nat} {output : Output}
    (h : performAll fuel { limit, output } commands = some m) :
    m.tags = (programs (sinceReset commands)).foldl TagTable.takeUp ∅ := by
  rcases eq_append_sinceReset commands with whole | ⟨before, append_eq⟩
  · rw [whole] at h
    exact tags_of_performAll h fun _ => keeps_of_mem_sinceReset
  · rw [append_eq, performAll_append] at h
    obtain ⟨mid, -, h⟩ := Option.bind_eq_some_iff.mp h
    exact tags_of_performAll (m := mid.reset) h fun _ => keeps_of_mem_sinceReset

/-- After a session a tag is in the table if one of the programs since the last reset,
whatever came of it, mentions or binds it, and its body is that of the last of all their
bindings of it. Until the next reset it has a body from then on, that of the last binding
that comes or else the one that it has. While statements run the table stays as it is. -/
theorem tags_of_session {limit : Nat} {output : Output}
    (performed : performAll fuel { limit, output } commands = some m) :
    (∀ tag, tag ∈ m.tags ↔
      ∃ p ∈ programs (sinceReset commands), tag ∈ p.tags ∨ tag ∈ p.bindings.map (·.1)) ∧
    (∀ tag ∈ m.tags, m.tags[tag]? =
      some (Binding.last? ((programs (sinceReset commands)).flatMap (·.bindings)) tag)) ∧
    (∀ fuel more m', performAll fuel m more = some m' →
      (∀ command ∈ more, command.isReset = false) →
      ∀ tag body, m.tags[tag]? = some (some body) → m'.tags[tag]? =
        some (some ((Binding.last? ((programs more).flatMap (·.bindings)) tag).getD body))) ∧
    (∀ p r, (m.start p).Reaches r → r.machine.tags = m.tags.takeUp p) ∧
    ∀ body r, (Run.ofStatements body m).Reaches r → r.machine.tags = m.tags := by
  have tags_eq := tags_sinceReset performed
  refine ⟨fun tag => ?_, fun tag mem => ?_, fun fuel more m' h keep tag body bound => ?_,
    fun p r reaches => (Run.grows_of_reaches reaches).tags,
    fun body r reaches => (Run.grows_of_reaches reaches).tags⟩
  · rw [tags_eq, TagTable.mem_takeUpAll]
    exact or_iff_right Std.ExtTreeMap.not_mem_empty
  · rw [Std.ExtTreeMap.mem_iff_isSome_getElem?, tags_eq, TagTable.getElem?_takeUpAll,
      Std.ExtTreeMap.getElem?_empty, Option.none_or] at mem
    rw [tags_eq, TagTable.getElem?_takeUpAll, Std.ExtTreeMap.getElem?_empty, Option.none_or]
    cases last_eq : Binding.last? ((programs (sinceReset commands)).flatMap (·.bindings)) tag with
    | some body => rfl
    | none =>
      rw [last_eq] at mem
      by_cases mentioned : tag ∈ (programs (sinceReset commands)).flatMap (·.tags)
      · exact (Option.none_or).trans (if_pos mentioned)
      · rw [if_neg mentioned] at mem
        cases mem
  · rw [tags_of_performAll h keep, TagTable.getElem?_takeUpAll, bound]
    cases Binding.last? ((programs more).flatMap (·.bindings)) tag <;> rfl

/-- A program binds a tag twice and fails, and a later one only mentions the tag: it has
the second body. What was noted before the reset is gone. -/
theorem tags_of_session_failing :
    ∃ (failing : Command) (answer : Answer) (m : Machine),
      perform 9 {} failing = some answer ∧ answer.fault.isSome ∧
      performAll 9 {} [.program ⟨[], ["u"], []⟩, .reset, failing, .value (.integer 1 ⟨0, 1⟩),
        .program ⟨[], ["t"], []⟩] = some m ∧
      "u" ∉ m.tags ∧ m.tags["v"]? = some none ∧
      m.tags["t"]? = some (some (.print (.integer 2 ⟨9, 10⟩) ⟨8, 10⟩)) := by
  let failing : Command := .program ⟨[.invoke "v" ⟨0, 2⟩], ["t", "v"],
    [("t", .print (.integer 1 ⟨5, 6⟩) ⟨4, 6⟩), ("t", .print (.integer 2 ⟨9, 10⟩) ⟨8, 10⟩)]⟩
  obtain ⟨answer, perform_eq, failed, m, performed⟩ :
      ∃ answer, perform 9 {} failing = some answer ∧ answer.fault.isSome ∧
        ∃ m, performAll 9 {} [.program ⟨[], ["u"], []⟩, .reset, failing,
          .value (.integer 1 ⟨0, 1⟩), .program ⟨[], ["t"], []⟩] = some m :=
    ⟨_, rfl, rfl, _, rfl⟩
  obtain ⟨mem_iff, content, -⟩ := tags_of_session performed
  refine ⟨failing, answer, m, perform_eq, failed, performed, ?_, ?_, ?_⟩
  · rw [mem_iff]
    decide
  · exact content "v" ((mem_iff "v").mpr (by decide))
  · exact content "t" ((mem_iff "t").mpr (by decide))

end Session

end TagScript
