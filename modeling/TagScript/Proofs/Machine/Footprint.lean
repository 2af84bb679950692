import Mathlib.Data.Set.Basic
import TagScript.Proofs.Machine.Heredity
import TagScript.Proofs.Machine.Simulation

/-! The footprint of a statement: the variables that occur in it, or in the body of a
tag that it may come to invoke. A run reads no others and writes no others, so on
machines that agree on these it does the same. -/
namespace TagScript

/-- The variables that running a statement has to do with. -/
def Stmt.footprint (τ : TagTable) (s : Stmt) : Set String :=
  {name | name ∈ s.vars ∨ ∃ tag body,
    τ.Invocable s.invocations tag ∧ τ[tag]? = some (some body) ∧ name ∈ body.vars}

namespace Stmt

theorem footprint_subset_iff {τ : TagTable} {s : Stmt} {V : Set String} :
    s.footprint τ ⊆ V ↔ τ.Throughout (fun s => ∀ name ∈ s.vars, name ∈ V) s := by
  constructor
  · intro h
    exact ⟨fun name here => h (.inl here), fun tag body invocable bound name here =>
      h (.inr ⟨tag, body, invocable, bound, here⟩)⟩
  · rintro ⟨own, bodies⟩ name (here | ⟨tag, body, invocable, bound, here⟩)
    · exact own name here
    · exact bodies tag body invocable bound name here

theorem inherited_vars (V : Set String) :
    Inherited fun s => ∀ name ∈ s.vars, name ∈ V where
  ifThen h s mem name here :=
    h name (List.mem_append_right _ (mem_allVars_iff.mpr ⟨s, mem, here⟩))
  ifElse h :=
    ⟨fun s mem name here => h name (List.mem_append_right _
        (List.mem_append_left _ (mem_allVars_iff.mpr ⟨s, mem, here⟩))),
      fun s mem name here => h name (List.mem_append_right _
        (List.mem_append_right _ (mem_allVars_iff.mpr ⟨s, mem, here⟩)))⟩
  loop h s mem name here :=
    h name (List.mem_append_right _ (mem_allVars_iff.mpr ⟨s, mem, here⟩))

theorem hereditary_footprint (τ : TagTable) (V : Set String) :
    τ.Hereditary fun s => s.footprint τ ⊆ V := by
  simp only [footprint_subset_iff]
  exact τ.hereditary_throughout (inherited_vars V)

end Stmt

namespace SymbolTable

/-! Values depend on the variables that occur, and on nothing else. -/

section Reading

variable {σ ρ : SymbolTable} {V : Set String}

theorem whole_congr {name : String} (h : ρ[name]? = σ[name]?) (span : Span) :
    ρ.whole name span = σ.whole name span := by
  rw [whole, whole, h]

theorem element_congr {name : String} (h : ρ[name]? = σ[name]?) (position : Nat) (span : Span) :
    ρ.element name position span = σ.element name position span := by
  rw [element, element, h]

variable (agree : ∀ name ∈ V, ρ[name]? = σ[name]?)
include agree

theorem eval_congr {e : Expr} (inside : ∀ name ∈ e.vars, name ∈ V) :
    ρ.eval e = σ.eval e := by
  induction e with
  | integer | boolean => rfl
  | named name span => exact whole_congr (agree name (inside name List.mem_cons_self)) span
  | element name index span ih =>
    simp only [Expr.vars, List.forall_mem_cons] at inside
    have index_eq := ih inside.2
    have element_eq := element_congr (agree name inside.1)
    simp only [eval, index_eq, element_eq]
  | binary left op right span left_ih right_ih =>
    simp only [Expr.vars, List.forall_mem_append] at inside
    simp only [eval, left_ih inside.1, right_ih inside.2]

theorem evalInteger_congr {e : Expr} (inside : ∀ name ∈ e.vars, name ∈ V) :
    ρ.evalInteger e = σ.evalInteger e := by
  rw [evalInteger, evalInteger, eval_congr agree inside]

theorem evalCondition_congr {e : Expr} (inside : ∀ name ∈ e.vars, name ∈ V) :
    ρ.evalCondition e = σ.evalCondition e := by
  rw [evalCondition, evalCondition, eval_congr agree inside]

theorem evalPosition_congr {e : Expr} (inside : ∀ name ∈ e.vars, name ∈ V) :
    ρ.evalPosition e = σ.evalPosition e := by
  rw [evalPosition, evalPosition, evalInteger_congr agree inside]

theorem mapM_evalInteger_congr {es : List Expr}
    (inside : ∀ name ∈ es.flatMap Expr.vars, name ∈ V) :
    es.mapM ρ.evalInteger = es.mapM σ.evalInteger := by
  induction es with
  | nil => rfl
  | cons e es ih =>
    rw [List.flatMap_cons, List.forall_mem_append] at inside
    rw [List.mapM_cons, List.mapM_cons, evalInteger_congr agree inside.1, ih inside.2]

theorem evalRhs_congr {v : Rhs} (inside : ∀ name ∈ v.vars, name ∈ V) :
    ρ.evalRhs v = σ.evalRhs v := by
  cases v with
  | scalar e => exact eval_congr agree inside
  | vector es span => rw [evalRhs, evalRhs, mapM_evalInteger_congr agree inside]

theorem targetPosition_congr {t : Target} (inside : ∀ name ∈ t.vars, name ∈ V) :
    ρ.targetPosition t = σ.targetPosition t := by
  obtain ⟨name, index, span⟩ := t
  cases index with
  | none => rfl
  | some index =>
    have index_inside : ∀ name ∈ index.vars, name ∈ V :=
      fun name mem => inside name (List.mem_cons_of_mem _ mem)
    rw [targetPosition, targetPosition]
    simp only [evalPosition_congr agree index_inside]

theorem exchangeable_congr {t : Target} (inside : t.name ∈ V) (span : Span) :
    ρ.exchangeable t span = σ.exchangeable t span := by
  rw [exchangeable, exchangeable, whole_congr (agree t.name inside)]

end Reading

/-- Two tables that have gone abreast since they were `a` and `b`: they agree on these
variables, and all others are as they were. -/
structure Abreast (V : Set String) (a b σ ρ : SymbolTable) : Prop where
  agree : ∀ name ∈ V, ρ[name]? = σ[name]?
  kept : ∀ name ∉ V, σ[name]? = a[name]? ∧ ρ[name]? = b[name]?

variable {V : Set String} {a b σ ρ : SymbolTable} {name : String}

theorem Abreast.assign (h : Abreast V a b σ ρ) (mem : name ∈ V) (v : Value) :
    Abreast V a b (σ.assign name v) (ρ.assign name v) where
  agree other inside := by
    rw [SymbolTable.assign, SymbolTable.assign, Std.ExtTreeMap.getElem?_insert,
      Std.ExtTreeMap.getElem?_insert, h.agree other inside]
  kept other outside := by
    have ne : name ≠ other := fun same => outside (same ▸ mem)
    rw [SymbolTable.assign, SymbolTable.assign, Std.ExtTreeMap.getElem?_insert,
      Std.ExtTreeMap.getElem?_insert, if_neg (by simpa using ne), if_neg (by simpa using ne)]
    exact h.kept other outside

theorem Abreast.setElement (h : Abreast V a b σ ρ) (mem : name ∈ V) (position : Nat) (n : Int64) :
    Abreast V a b (σ.setElement name position n) (ρ.setElement name position n) := by
  rw [SymbolTable.setElement, SymbolTable.setElement, h.agree name mem]
  split
  · exact h.assign mem _
  · exact h

end SymbolTable

namespace Machine

structure Abreast (V : Set String) (a b m n : Machine) : Prop where
  known : m.tags = a.tags
  tags : n.tags = m.tags
  limit : n.limit = m.limit
  depth : n.depth = m.depth
  printed : ∃ values, m.output = a.output.emitAll values ∧ n.output = b.output.emitAll values
  symbols : SymbolTable.Abreast V a.symbols b.symbols m.symbols n.symbols

namespace Abreast

variable {V : Set String} {a b m n : Machine}

theorem withSymbols (h : Abreast V a b m n) {σ ρ : SymbolTable}
    (symbols : SymbolTable.Abreast V a.symbols b.symbols σ ρ) :
    Abreast V a b { m with symbols := σ } { n with symbols := ρ } :=
  ⟨h.known, h.tags, h.limit, h.depth, h.printed, symbols⟩

theorem withDepth (h : Abreast V a b m n) {depth depth' : Nat} (same : depth' = depth) :
    Abreast V a b { m with depth := depth } { n with depth := depth' } :=
  ⟨h.known, h.tags, h.limit, same, h.printed, h.symbols⟩

theorem emit (h : Abreast V a b m n) (v : Value) :
    Abreast V a b { m with output := m.output.emit v } { n with output := n.output.emit v } := by
  obtain ⟨values, output_eq, output_eq'⟩ := h.printed
  refine ⟨h.known, h.tags, h.limit, h.depth, ⟨values ++ [v], ?_, ?_⟩, h.symbols⟩
  · rw [← Output.emitAll_emitAll, ← output_eq]
    rfl
  · rw [← Output.emitAll_emitAll, ← output_eq']
    rfl

theorem assign (h : Abreast V a b m n) {target : Target} {value : Rhs}
    (target_inside : ∀ name ∈ target.vars, name ∈ V)
    (value_inside : ∀ name ∈ value.vars, name ∈ V) :
    Checked.Both (Abreast V a b) (m.assign target value) (n.assign target value) := by
  have agree := h.symbols.agree
  have mem := target_inside target.name List.mem_cons_self
  have value_eq := (SymbolTable.evalRhs_congr agree value_inside).symm
  obtain ⟨name, index, span⟩ := target
  cases index with
  | none => exact .bind_of_eq value_eq fun v => .ok (h.withSymbols (h.symbols.assign mem v))
  | some index =>
    have index_inside : ∀ name ∈ index.vars, name ∈ V :=
      fun name here => target_inside name (List.mem_cons_of_mem _ here)
    refine .bind_of_eq (SymbolTable.evalPosition_congr agree index_inside).symm fun position => ?_
    refine .bind_of_eq value_eq fun v => .bind_of_eq rfl fun n => ?_
    refine .bind_of_eq (SymbolTable.element_congr (agree name mem) position span).symm fun _ => ?_
    exact .ok (h.withSymbols (h.symbols.setElement mem position n))

theorem swap (h : Abreast V a b m n) {left right : Target} (span : Span)
    (left_inside : ∀ name ∈ left.vars, name ∈ V)
    (right_inside : ∀ name ∈ right.vars, name ∈ V) :
    Checked.Both (Abreast V a b) (m.swap left right span) (n.swap left right span) := by
  have agree := h.symbols.agree
  have hl := left_inside left.name List.mem_cons_self
  have hr := right_inside right.name List.mem_cons_self
  have whole_eq {name : String} (mem : name ∈ V) (span : Span) :=
    (SymbolTable.whole_congr (agree name mem) span).symm
  have element_eq {name : String} (mem : name ∈ V) (position : Nat) (span : Span) :=
    (SymbolTable.element_congr (agree name mem) position span).symm
  have exchangeable_eq {t : Target} (mem : t.name ∈ V) :=
    (SymbolTable.exchangeable_congr agree mem span).symm
  refine .bind_of_eq (SymbolTable.targetPosition_congr agree left_inside).symm fun i? => ?_
  refine .bind_of_eq (SymbolTable.targetPosition_congr agree right_inside).symm fun j? => ?_
  cases i? with
  | none =>
    cases j? with
    | none =>
      refine .bind_of_eq (whole_eq hl _) fun v => .bind_of_eq (whole_eq hr _) fun w => .ok ?_
      exact h.withSymbols ((h.symbols.assign hl w).assign hr v)
    | some j =>
      refine .bind_of_eq (exchangeable_eq hl) fun v => ?_
      refine .bind_of_eq (element_eq hr j _) fun w => .ok ?_
      exact h.withSymbols ((h.symbols.assign hl _).setElement hr j v)
  | some i =>
    cases j? with
    | none =>
      refine .bind_of_eq (element_eq hl i _) fun v => ?_
      refine .bind_of_eq (exchangeable_eq hr) fun w => .ok ?_
      exact h.withSymbols ((h.symbols.setElement hl i w).assign hr _)
    | some j =>
      refine .bind_of_eq (element_eq hl i _) fun v => ?_
      refine .bind_of_eq (element_eq hr j _) fun w => .ok ?_
      exact h.withSymbols ((h.symbols.setElement hl i w).setElement hr j v)

theorem print (h : Abreast V a b m n) {value : Expr}
    (inside : ∀ name ∈ value.vars, name ∈ V) :
    Checked.Both (Abreast V a b) (m.print value) (n.print value) :=
  .bind_of_eq (SymbolTable.eval_congr h.symbols.agree inside).symm fun v => .ok (h.emit v)

theorem bodyOf (h : Abreast V a b m n) (tag : String) (span : Span) :
    m.bodyOf tag span = n.bodyOf tag span := by
  rw [Machine.bodyOf, Machine.bodyOf, h.tags, h.limit, h.depth]

def Step (V : Set String) (a b : Machine) (x y : List Task × Machine) : Prop :=
  y.1 = x.1 ∧ Abreast V a b x.2 y.2

theorem changes {result result' : Checked Machine}
    (h : Checked.Both (Abreast V a b) result result') :
    Checked.Both (Step V a b) (([], ·) <$> result) (([], ·) <$> result') :=
  h.map fun _ _ abreast => ⟨rfl, abreast⟩

theorem choice (h : Abreast V a b m n) {condition : Expr}
    (inside : ∀ name ∈ condition.vars, name ∈ V) (yes no : List Task) :
    Checked.Both (Step V a b) (Task.choice m condition yes no)
      (Task.choice n condition yes no) :=
  .map_of_eq (SymbolTable.evalCondition_congr h.symbols.agree inside).symm fun _ => ⟨rfl, h⟩

theorem effect (h : Abreast V a b m n) {task : Task}
    (covered : task.Holds fun s => s.footprint a.tags ⊆ V) :
    Checked.Both (Step V a b) (task.effect m) (task.effect n) := by
  cases task with
  | leave => exact .ok ⟨rfl, h.withDepth (by rw [h.depth])⟩
  | again condition body =>
    obtain ⟨span, covered⟩ := covered
    exact h.choice (fun name mem => covered (.inl (List.mem_append_left _ mem))) _ _
  | perform s =>
    have inside : ∀ name ∈ s.vars, name ∈ V := fun name mem => covered (.inl mem)
    cases s with
    | declare => exact .ok ⟨rfl, h⟩
    | invoke tag span =>
      exact .map_of_eq (h.bodyOf tag span) fun _ => ⟨rfl, h.withDepth (by rw [h.depth])⟩
    | assign target value span =>
      obtain ⟨target_inside, value_inside⟩ := List.forall_mem_append.mp inside
      exact changes (h.assign target_inside value_inside)
    | swap left right span =>
      obtain ⟨left_inside, right_inside⟩ := List.forall_mem_append.mp inside
      exact changes (h.swap span left_inside right_inside)
    | print value span => exact changes (h.print inside)
    | ifThen | ifElse | loop => exact h.choice (List.forall_mem_append.mp inside).1 _ _

end Abreast

end Machine

namespace Run

structure Abreast (V : Set String) (a b : Machine) (r q : Run) : Prop where
  tasks : q.tasks = r.tasks
  machine : Machine.Abreast V a b r.machine q.machine
  covered : ∀ t ∈ r.tasks, t.Holds fun s => s.footprint a.tags ⊆ V

variable {V : Set String} {a b : Machine} {r q : Run}

theorem Abreast.catchesUp (h : Abreast V a b r q) :
    CatchesUp (Abreast V a b)
      (fun o o' => o'.fault? = o.fault? ∧ Machine.Abreast V a b o.machine o'.machine) r q := by
  refine ⟨r, .refl, ?_⟩
  obtain ⟨tasks, m⟩ := r
  obtain ⟨tasks', n⟩ := q
  obtain ⟨tasks_eq, machine, covered⟩ := h
  cases tasks_eq
  cases tasks with
  | nil => exact .ends ⟨rfl, machine⟩
  | cons task rest =>
    rw [next_cons, next_cons]
    obtain ⟨task_covered, rest_covered⟩ := List.forall_mem_cons.mp covered
    have hereditary : m.tags.Hereditary fun s => s.footprint a.tags ⊆ V := by
      rw [machine.known]
      exact Stmt.hereditary_footprint a.tags V
    have both := machine.effect task_covered
    refine resume_both ?_ fun fault _ => ⟨rfl, machine.withDepth (by rw [machine.depth])⟩
    generalize effect_eq : task.effect m = result, task.effect n = result' at both
    cases both with
    | error fault => exact .error fault
    | ok related =>
      obtain ⟨more_eq, machine'⟩ := related
      refine .ok ⟨by rw [more_eq], machine', List.forall_mem_append.mpr ⟨?_, rest_covered⟩⟩
      exact Task.holds_of_effect hereditary task_covered effect_eq

/-- Machines that agree on the footprint of a statement run it alike: both for ever, or
both to the same end with the same values printed. They agree on the footprint after
it, and every other variable is as it was. -/
theorem run_within_footprint {m n : Machine} {s : Stmt} (tags : n.tags = m.tags)
    (limit : n.limit = m.limit) (depth : n.depth = m.depth)
    (agree : ∀ name ∈ s.footprint m.tags, n.symbols[name]? = m.symbols[name]?) :
    (ofStatements [s] m).Diverges ∧ (ofStatements [s] n).Diverges ∨
      ∃ o o', (ofStatements [s] m).EndsIn o ∧ (ofStatements [s] n).EndsIn o' ∧
        o'.fault? = o.fault? ∧
        (∃ values, o.machine.output = m.output.emitAll values ∧
          o'.machine.output = n.output.emitAll values) ∧
        (∀ name ∈ s.footprint m.tags,
          o'.machine.symbols[name]? = o.machine.symbols[name]?) ∧
        ∀ name ∉ s.footprint m.tags,
          o.machine.symbols[name]? = m.symbols[name]? ∧
            o'.machine.symbols[name]? = n.symbols[name]? := by
  have machine : Machine.Abreast (s.footprint m.tags) m n m n :=
    ⟨rfl, tags, limit, depth, ⟨[], rfl, rfl⟩, agree, fun _ _ => ⟨rfl, rfl⟩⟩
  have start : Abreast (s.footprint m.tags) m n (ofStatements [s] m) (ofStatements [s] n) :=
    ⟨rfl, machine, List.forall_mem_singleton.mpr Set.Subset.rfl⟩
  obtain diverge | ⟨o, o', ends, ends', fault_eq, after⟩ :=
    alike_of_catchesUp (fun _ _ => Abreast.catchesUp) start
  · exact .inl diverge
  · exact .inr ⟨o, o', ends, ends', fault_eq, after.printed, after.symbols.agree,
      after.symbols.kept⟩

/-- A tag counts a variable up. Another variable, of which the machines know different
things, has no part in it. -/
theorem run_within_footprint_counting :
    ∃ (m n : Machine) (s : Stmt) (o o' : Outcome), n.tags = m.tags ∧ n.limit = m.limit ∧
      n.depth = m.depth ∧
      (∀ name ∈ s.footprint m.tags, n.symbols[name]? = m.symbols[name]?) ∧
      "other" ∉ s.footprint m.tags ∧ n.symbols["other"]? ≠ m.symbols["other"]? ∧
      (ofStatements [s] m).EndsIn o ∧ (ofStatements [s] n).EndsIn o' ∧
      o'.machine.symbols["count"]? = some (.integer 3) ∧
      o.machine.symbols["other"]? = m.symbols["other"]? ∧
      o'.machine.symbols["other"]? = n.symbols["other"]? := by
  let count : Expr := .named "count" ⟨9, 14⟩
  let body : Stmt := .loop (.binary count .less (.integer 3 ⟨17, 18⟩) ⟨9, 18⟩)
    [.assign ⟨"count", none, ⟨21, 26⟩⟩
      (.scalar (.binary count .add (.integer 1 ⟨37, 38⟩) ⟨29, 38⟩)) ⟨21, 38⟩] ⟨3, 40⟩
  let s : Stmt := .invoke "up" ⟨41, 44⟩
  let tags : TagTable := (∅ : TagTable).bind "up" body
  let σ : SymbolTable := (∅ : SymbolTable).assign "count" (.integer 1)
  let m : Machine := { symbols := σ.assign "other" (.boolean true), tags }
  let n : Machine := { symbols := σ, tags, output := .console "" }
  have footprint_eq : ∀ name ∈ s.footprint m.tags, name = "count" := by
    rintro name (here | ⟨tag, body', -, bound, here⟩)
    · cases here
    · change ((∅ : TagTable).bind "up" body)[tag]? = _ at bound
      rw [TagTable.bind, Std.ExtTreeMap.getElem?_insert, Std.ExtTreeMap.getElem?_empty] at bound
      split at bound
      · cases bound
        simpa [body, count, Stmt.vars, Stmt.allVars, Expr.vars, Rhs.vars,
          Target.vars] using here
      · cases bound
  have agree : ∀ name ∈ s.footprint m.tags, n.symbols[name]? = m.symbols[name]? := by
    intro name mem
    rw [footprint_eq name mem]
    rfl
  have outside : "other" ∉ s.footprint m.tags :=
    fun mem => absurd (footprint_eq _ mem) (by decide)
  have other_ne : n.symbols["other"]? ≠ m.symbols["other"]? := by
    rintro ⟨⟩
  obtain ⟨diverges, -⟩ | ⟨o, o', ends, ends', -, -, -, kept⟩ :=
    run_within_footprint (m := m) (n := n) (s := s) rfl rfl rfl agree
  · cases diverges 20
  · obtain ⟨other_eq, other_eq'⟩ := kept "other" outside
    have count_eq : o'.machine.symbols["count"]? = some (.integer 3) := by
      rw [ends'.unique ⟨20, rfl⟩]
      rfl
    exact ⟨m, n, s, o, o', rfl, rfl, rfl, agree, outside, other_ne, ends, ends', count_eq, other_eq,
      other_eq'⟩

end Run

end TagScript
