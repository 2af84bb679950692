import Mathlib
import TagScript.Console
import TagScript.Proofs.Machine.Footprint

/-! Printed values on a terminal and printed values that are kept. No run looks at what was
printed, so a program runs alike with either, and the terminal shows the lines of the values
that would have been kept. -/
namespace TagScript

theorem Verbosity.shows_of_mem_select (wanted : Verbosity) (journal : Unit → List Entry) :
    ∀ entry ∈ wanted.select journal, wanted.shows entry := by
  intro entry mem
  cases wanted with
  | none => cases mem
  | some detail => exact (List.mem_filter.mp mem).2

namespace Output

def shown : List Value → String
  | [] => ""
  | v :: rest => v.text ++ "\n" ++ shown rest

theorem emitAll_console (values : List Value) (text : String) :
    (console text).emitAll values = console (text ++ shown values) := by
  induction values generalizing text with
  | nil => exact congrArg console String.append_empty.symm
  | cons v rest ih =>
    refine (ih (text ++ v.text ++ "\n")).trans (congrArg console ?_)
    simp only [shown, String.append_assoc]

end Output

namespace Run

theorem alike_of_output (body : List Stmt) (m : Machine) (out : Output) :
    (ofStatements body { m with output := out }).Diverges ∧ (ofStatements body m).Diverges ∨
      ∃ o o', (ofStatements body { m with output := out }).EndsIn o ∧
        (ofStatements body m).EndsIn o' ∧ o'.fault? = o.fault? ∧
        ∃ values, o.machine.output = out.emitAll values ∧
          o'.machine.output = m.output.emitAll values := by
  have machine : Machine.Abreast Set.univ { m with output := out } m
      { m with output := out } m :=
    ⟨rfl, rfl, rfl, rfl, ⟨[], rfl, rfl⟩, fun _ _ => rfl, fun _ _ => ⟨rfl, rfl⟩⟩
  have start : Abreast Set.univ { m with output := out } m
      (ofStatements body { m with output := out }) (ofStatements body m) :=
    ⟨rfl, machine, Task.holds_sequence fun _ _ => Set.subset_univ _⟩
  obtain diverge | ⟨o, o', ends, ends', fault_eq, after⟩ :=
    alike_of_catchesUp (fun _ _ => Abreast.catchesUp) start
  · exact .inl diverge
  · exact .inr ⟨o, o', ends, ends', fault_eq, after.printed⟩

end Run

namespace Console

/-- What is written without dumps: the text and, besides what is wanted of the journal, a report
of the fault. -/
structure Shows (wanted : Verbosity) (source : String) (name : Option String)
    (fault? : Option (Fault RuntimeError)) (text : String) (result : Result) : Prop where
  completed : result.completed = fault?.isNone
  out : result.transcript.out = text
  notices : ∃ said : List Entry, (∀ entry ∈ said, wanted.shows entry) ∧
    result.transcript.notices =
      said.map .entry ++ (fault?.map fun f => .report (f.runtime.report source name)).toList

variable {source : String} {ts : List Token} {p : Program}

theorem run_of_machine (accepted : Program.ofSource source = .ok (ts, p)) (fuel limit : Nat)
    (wanted : Verbosity) (name : Option String) :
    (Machine.onConsole limit).run fuel p = none ∧ run fuel wanted { limit } name source = none ∨
      ∃ outcome result, (Machine.onConsole limit).run fuel p = some outcome ∧
        run fuel wanted { limit } name source = some result ∧
        Shows wanted source name outcome.fault? outcome.machine.output.text result := by
  rw [run, accepted]
  dsimp only
  cases run_eq : (Machine.onConsole limit).run fuel p with
  | none => exact .inl ⟨rfl, rfl⟩
  | some outcome =>
    refine .inr ⟨outcome, _, rfl, rfl, rfl, ?_,
      wanted.select (fun _ => Program.sourceJournal source) ++
        wanted.select (fun _ => (Machine.onConsole limit).journal fuel p),
      List.forall_mem_append.mpr ⟨wanted.shows_of_mem_select _, wanted.shows_of_mem_select _⟩, ?_⟩
    · cases outcome <;>
        simp [Outcome.fault?, Transcript.entries, Transcript.write, Transcript.report, dumps]
    · cases outcome <;>
        simp [Outcome.fault?, Transcript.entries, Transcript.write, Transcript.report]

/-- A terminal shows what a machine that keeps its values comes to: either there is no end to
the run on both, or it ends, and the lines of the kept values are printed and its fault is
reported. -/
theorem run_shows_kept (accepted : Program.ofSource source = .ok (ts, p)) (limit : Nat)
    (wanted : Verbosity) (name : Option String) :
    Machine.Diverges { limit } p ∧ (∀ fuel, run fuel wanted { limit } name source = none) ∨
      ∃ outcome, Machine.EndsIn { limit } p outcome ∧
        (∃ fuel, (run fuel wanted { limit } name source).isSome) ∧
        ∀ fuel result, run fuel wanted { limit } name source = some result →
          Shows wanted source name outcome.fault?
            (Output.shown outcome.machine.output.values.toList) result := by
  obtain ⟨shown, kept⟩ | ⟨o, o', shown, kept, fault_eq, values, text_eq, values_eq⟩ :=
    Run.alike_of_output p.statements (Machine.load { limit } p) (.console "")
  · refine .inl ⟨kept, fun fuel => ?_⟩
    obtain ⟨-, run_eq⟩ | ⟨outcome, -, ends, -⟩ := run_of_machine accepted fuel limit wanted name
    · exact run_eq
    · cases (shown fuel).symm.trans ends
  · rw [Output.emitAll_console, String.empty_append] at text_eq
    have values_eq : o'.machine.output.values.toList = values := by
      have start_eq : (Machine.load { limit } p).output = .captured #[] := rfl
      rw [values_eq, start_eq, Output.emitAll_captured, Output.values, Array.toList_append,
        List.toList_toArray, List.nil_append]
    refine .inr ⟨o', kept, ?_, fun fuel result result_eq => ?_⟩
    · obtain ⟨fuel, finish_eq⟩ := shown
      obtain ⟨stuck, -⟩ | ⟨-, result, -, run_eq, -⟩ :=
        run_of_machine accepted fuel limit wanted name
      · cases stuck.symm.trans finish_eq
      · exact ⟨fuel, Option.isSome_iff_exists.mpr ⟨result, run_eq⟩⟩
    · obtain ⟨-, run_eq⟩ | ⟨outcome, result', ends, run_eq, shows⟩ :=
        run_of_machine accepted fuel limit wanted name
      · cases run_eq.symm.trans result_eq
      · cases run_eq.symm.trans result_eq
        have same : outcome = o := Run.EndsIn.unique ⟨fuel, ends⟩ shown
        rw [fault_eq, values_eq]
        rw [same, text_eq] at shows
        exact shows

/-- The first of two values is printed, and the second is not known. -/
theorem run_shows_kept_before_fault :
    ∃ ts p outcome result, Program.ofSource "PRINT 7 PRINT x" = .ok (ts, p) ∧
      Machine.EndsIn { limit := 3 } p outcome ∧
      outcome.machine.output.values.toList = [.integer 7] ∧
      (∃ fuel, run fuel none { limit := 3 } none "PRINT 7 PRINT x" = some result) ∧
      Shows none "PRINT 7 PRINT x" none (some ⟨.undefined "x", ⟨14, 15⟩⟩) "7\n" result := by
  obtain ⟨ts, p, accepted, ends⟩ : ∃ ts p, Program.ofSource "PRINT 7 PRINT x" = .ok (ts, p) ∧
      (Machine.run 3 { limit := 3 } p).map (fun o => (o.fault?, o.machine.output.values.toList)) =
        some (some ⟨.undefined "x", ⟨14, 15⟩⟩, [.integer 7]) :=
    ⟨_, _, by cbv, by cbv⟩
  obtain ⟨outcome, run_eq, facts⟩ := Option.map_eq_some_iff.mp ends
  obtain ⟨fault_eq, values_eq⟩ := Prod.mk.inj facts
  have ends : Machine.EndsIn { limit := 3 } p outcome := ⟨3, run_eq⟩
  obtain ⟨diverges, -⟩ | ⟨other, ends', ⟨fuel, some_eq⟩, shows⟩ :=
    run_shows_kept accepted 3 none none
  · cases (diverges 3).symm.trans run_eq
  · obtain ⟨result, result_eq⟩ := Option.isSome_iff_exists.mp some_eq
    cases Run.EndsIn.unique ends' ends
    have shown : Output.shown [.integer 7] = "7\n" := by cbv
    have shows := shows fuel result result_eq
    rw [fault_eq, values_eq, shown] at shows
    exact ⟨ts, p, outcome, result, accepted, ends, values_eq, ⟨fuel, result_eq⟩, shows⟩

end Console

end TagScript
