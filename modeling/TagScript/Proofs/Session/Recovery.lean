import TagScript.Proofs.Machine.Invariants
import TagScript.Session

/-! A session goes on after a failure. A failed command leaves behind the
variables, tags and output that it had come to and nothing else, so what follows
cannot tell that there was a failure. -/
namespace TagScript.Session

variable {fuel : Nat} {m m' : Machine} {command : Command} {commands : List Command}
  {answer : Answer}

theorem grows_of_finish {body : List Stmt}
    (h : ((Run.ofStatements body m).finish fuel).map Answer.ofOutcome = some answer) :
    m.Grows answer.machine ∧ answer.machine.depth = m.depth := by
  obtain ⟨outcome, finish_eq, rfl⟩ := Option.map_eq_some_iff.mp h
  exact Run.EndsIn.grows ⟨fuel, finish_eq⟩ (Run.level_ofStatements body m)

theorem machine_of_value {e : Expr} (h : perform fuel m (.value e) = some answer) :
    answer.machine = m := by
  rw [perform] at h
  cases eval_eq : m.symbols.eval e with
  | ok v =>
    rw [eval_eq] at h
    cases h
    rfl
  | error fault =>
    rw [eval_eq] at h
    cases h
    rfl

theorem depth_of_perform (h : perform fuel m command = some answer) (start : m.depth = 0) :
    answer.machine.depth = 0 := by
  cases command with
  | program p => exact (grows_of_finish h).2.trans start
  | statements body => exact (grows_of_finish h).2.trans start
  | value e =>
    rw [machine_of_value h]
    exact start
  | limit n =>
    cases h
    exact start
  | reset =>
    cases h
    rfl

theorem limit_of_fault (h : perform fuel m command = some answer) (failed : answer.fault.isSome) :
    answer.machine.limit = m.limit := by
  cases command with
  | program p => exact (grows_of_finish h).1.limit
  | statements body => exact (grows_of_finish h).1.limit
  | value e => rw [machine_of_value h]
  | limit n | reset =>
    cases h
    cases failed

theorem exists_captured_of_perform (h : perform fuel m command = some answer)
    (kept : ∃ values, m.output = .captured values) :
    ∃ values, answer.machine.output = .captured values := by
  obtain ⟨before, output_eq⟩ := kept
  have of_printed (printed : ∃ values, answer.machine.output = m.output.emitAll values) :
      ∃ values, answer.machine.output = .captured values := by
    obtain ⟨values, output_eq'⟩ := printed
    rw [output_eq, Output.emitAll_captured] at output_eq'
    exact ⟨_, output_eq'⟩
  cases command with
  | program p => exact of_printed (grows_of_finish h).1.output
  | statements body => exact of_printed (grows_of_finish h).1.output
  | value e =>
    rw [machine_of_value h]
    exact ⟨before, output_eq⟩
  | limit n =>
    cases h
    exact ⟨before, output_eq⟩
  | reset =>
    cases h
    exact ⟨#[], congrArg Output.clear output_eq⟩

theorem performAll_invariant_of {Q : Command → Prop} {P : Machine → Prop}
    (step : ∀ {m command answer}, Q command → perform fuel m command = some answer → P m →
      P answer.machine)
    (kind : ∀ command ∈ commands, Q command) (h : performAll fuel m commands = some m')
    (start : P m) : P m' := by
  induction commands generalizing m with
  | nil =>
    cases h
    exact start
  | cons command rest ih =>
    rw [performAll] at h
    cases perform_eq : perform fuel m command with
    | none =>
      rw [perform_eq] at h
      cases h
    | some answer =>
      rw [perform_eq] at h
      exact ih (fun other mem => kind other (List.mem_cons_of_mem command mem)) h
        (step (kind command List.mem_cons_self) perform_eq start)

/-- What holds of a machine and is left to hold by each command holds after all. -/
theorem performAll_invariant {P : Machine → Prop}
    (step : ∀ {m command answer}, perform fuel m command = some answer → P m → P answer.machine)
    (h : performAll fuel m commands = some m') (start : P m) : P m' :=
  performAll_invariant_of (fun _ => step) (fun _ _ => trivial) h start

theorem eq_of_depth (h : m.depth = 0) :
    m = { symbols := m.symbols, tags := m.tags, output := m.output, limit := m.limit } := by
  obtain ⟨symbols, tags, output, limit, depth⟩ := m
  cases h
  rfl

/-- However a statement ends, at whatever depth, it leaves the tags, the limit and
the depth as they were and only adds to the output and the variables. So in a
session a failure leaves a machine that might as well never have failed, and
forgetting all then leaves a fresh one with the same limit. -/
theorem recovers :
    (∀ m s outcome, (Run.ofStatements [s] m).EndsIn outcome →
      m.Grows outcome.machine ∧ outcome.machine.depth = m.depth) ∧
    ∀ limit output fuel commands m, performAll fuel { limit, output } commands = some m →
      ∀ fuel command answer, perform fuel m command = some answer → answer.fault.isSome →
        answer.machine =
          { symbols := answer.machine.symbols, tags := answer.machine.tags,
            output := answer.machine.output, limit := m.limit } ∧
        answer.machine.reset = { output := answer.machine.output.clear, limit := m.limit } ∧
        ((∃ values, output = .captured values) → answer.machine.reset = { limit := m.limit }) := by
  constructor
  · exact fun m s outcome ends => ends.grows (Run.level_ofStatements [s] m)
  · intro limit output fuel commands m performed fuel' command answer perform_eq failed
    have depth : answer.machine.depth = 0 :=
      depth_of_perform perform_eq (performAll_invariant depth_of_perform performed rfl)
    have same_limit : answer.machine.limit = m.limit := limit_of_fault perform_eq failed
    have reset_eq :
        answer.machine.reset = { output := answer.machine.output.clear, limit := m.limit } := by
      rw [Machine.reset, same_limit]
    refine ⟨?_, reset_eq, fun kept => ?_⟩
    · rw [← same_limit]
      exact eq_of_depth depth
    · obtain ⟨values, output_eq⟩ := exists_captured_of_perform perform_eq
        (performAll_invariant exists_captured_of_perform performed kept)
      rw [reset_eq, output_eq]
      rfl

/-- A tag that invokes itself fails one level deep, and no trace of the level is left. -/
theorem recovers_self_invoking :
    ∃ m outcome answer,
      performAll 9 { limit := 1 } [.program ⟨[], ["t"], [("t", .invoke "t" ⟨3, 5⟩)]⟩] = some m ∧
      (Run.ofStatements [.invoke "t" ⟨0, 2⟩] m).finish 9 = some outcome ∧
      perform 9 m (.statements [.invoke "t" ⟨0, 2⟩]) = some answer ∧
      answer.fault.map (·.cause) = some (.tooDeep "t" 1) ∧
      m.Grows outcome.machine ∧ outcome.machine.depth = m.depth ∧
      answer.machine.reset = { limit := m.limit } := by
  obtain ⟨m, outcome, answer, performed, finish_eq, perform_eq, cause⟩ :
      ∃ m outcome answer,
        performAll 9 { limit := 1 } [.program ⟨[], ["t"], [("t", .invoke "t" ⟨3, 5⟩)]⟩] = some m ∧
        (Run.ofStatements [.invoke "t" ⟨0, 2⟩] m).finish 9 = some outcome ∧
        perform 9 m (.statements [.invoke "t" ⟨0, 2⟩]) = some answer ∧
        answer.fault.map (·.cause) = some (.tooDeep "t" 1) :=
    ⟨_, _, _, rfl, rfl, rfl, rfl⟩
  have failed : answer.fault.isSome := by
    rw [← Option.isSome_map, cause]
    rfl
  obtain ⟨grows, depth⟩ := recovers.1 m _ outcome ⟨9, finish_eq⟩
  obtain ⟨-, -, fresh⟩ := recovers.2 1 _ 9 _ m performed 9 _ answer perform_eq failed
  exact ⟨m, outcome, answer, performed, finish_eq, perform_eq, cause, grows, depth,
    fresh ⟨#[], rfl⟩⟩

end TagScript.Session
