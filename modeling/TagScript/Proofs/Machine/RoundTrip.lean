import TagScript.Proofs.Machine.Spans
import TagScript.Proofs.Machine.Steps
import TagScript.Proofs.Reading.RoundTrip

/-! A program does what its canonical text does. -/
namespace TagScript

/-- Nothing but spans tells the outcomes apart. -/
structure Outcome.Alike (a b : Outcome) : Prop where
  output : a.machine.output = b.machine.output
  symbols : a.machine.symbols = b.machine.symbols
  fault : a.fault?.map (fun f => (f.cause, f.runtime.message, f.runtime.help)) =
    b.fault?.map fun f => (f.cause, f.runtime.message, f.runtime.help)
  tags : a.machine.tags.mapSpans (fun _ => .nowhere) = b.machine.tags.mapSpans fun _ => .nowhere

theorem Outcome.alike_of_mapSpans_eq {a b : Outcome}
    (h : a.mapSpans (fun _ => .nowhere) = b.mapSpans fun _ => .nowhere) : a.Alike b := by
  have machine := congrArg Outcome.machine h
  rw [machine_mapSpans, machine_mapSpans] at machine
  have output : a.machine.output = b.machine.output :=
    show (a.machine.mapSpans _).output = (b.machine.mapSpans _).output by rw [machine]
  have symbols : a.machine.symbols = b.machine.symbols :=
    show (a.machine.mapSpans _).symbols = (b.machine.mapSpans _).symbols by rw [machine]
  refine ⟨output, symbols, ?_, congrArg Machine.tags machine⟩
  have said := congrArg (Option.map fun f => (f.cause, f.runtime.message, f.runtime.help))
    (congrArg Outcome.fault? h)
  rw [fault?_mapSpans, fault?_mapSpans, Option.map_map, Option.map_map] at said
  exact said

namespace Machine

variable {m : Machine} {p q : Program}

theorem mapSpans_of_no_tags (f : Span → Span) (h : m.tags = ∅) : m.mapSpans f = m := by
  have nothing : TagTable.mapSpans f ∅ = ∅ := by
    apply Std.ExtTreeMap.ext_getElem?
    intro tag
    rw [TagTable.getElem?_mapSpans, Std.ExtTreeMap.getElem?_empty, Option.map_none]
  rw [mapSpans, h, nothing, ← h]

/-- Programs that are the same up to spans go through the same steps. -/
theorem run_of_erase_eq (fresh : m.tags = ∅) (h : p.erase = q.erase) (fuel : Nat) :
    (m.run fuel p).map (Outcome.mapSpans fun _ => .nowhere) =
      (m.run fuel q).map (Outcome.mapSpans fun _ => .nowhere) := by
  rw [← run_mapSpans, ← run_mapSpans, mapSpans_of_no_tags _ fresh]
  exact congrArg (m.run fuel) h

theorem alike_of_erase_eq (fresh : m.tags = ∅) (h : p.erase = q.erase) :
    m.Diverges p ∧ m.Diverges q ∨ ∃ a b, m.EndsIn p a ∧ m.EndsIn q b ∧ a.Alike b := by
  by_cases diverges : m.Diverges p
  · refine .inl ⟨diverges, fun fuel => ?_⟩
    have same := run_of_erase_eq fresh h fuel
    rw [diverges fuel] at same
    exact Option.map_eq_none_iff.mp same.symm
  · obtain ⟨fuel, ends⟩ := Classical.not_forall.mp diverges
    obtain ⟨a, run_eq⟩ := Option.ne_none_iff_exists'.mp ends
    have same := run_of_erase_eq fresh h fuel
    rw [run_eq, Option.map_some] at same
    obtain ⟨b, run_eq', outcome_eq⟩ := Option.map_eq_some_iff.mp same.symm
    refine .inr ⟨a, b, ⟨fuel, run_eq⟩, ⟨fuel, run_eq'⟩, ?_⟩
    exact Outcome.alike_of_mapSpans_eq outcome_eq.symm

/-- On a fresh machine a program and the program that its canonical text is read
as both run for ever, or both end alike. -/
theorem run_canonical {source : String} {ts : List Token}
    (accepted : Program.ofSource source = .ok (ts, p)) (stable : ∀ t ∈ ts, t.Stable)
    (limit : Nat) :
    ∃ ts' p', Program.ofSource p.canonical = .ok (ts', p') ∧
      (Diverges { limit } p ∧ Diverges { limit } p' ∨
        ∃ a b, EndsIn { limit } p a ∧ EndsIn { limit } p' b ∧ a.Alike b) := by
  obtain ⟨ts', p', accepted', erase_eq⟩ := Program.exists_reread accepted stable
  exact ⟨ts', p', accepted', alike_of_erase_eq rfl erase_eq.symm⟩

theorem run_canonical_declaration :
    ∃ ts p, Program.ofSource "@go x = TRUE\n@go\n" = .ok (ts, p) ∧ (∀ t ∈ ts, t.Stable) ∧
      ∃ ts' p', Program.ofSource p.canonical = .ok (ts', p') ∧
        (Diverges { limit := 1 } p ∧ Diverges { limit := 1 } p' ∨
          ∃ a b, EndsIn { limit := 1 } p a ∧ EndsIn { limit := 1 } p' b ∧ a.Alike b) := by
  obtain ⟨ts, p, accepted, stable⟩ := Program.exists_declaration
  exact ⟨ts, p, accepted, stable, run_canonical accepted stable 1⟩

end Machine

end TagScript
