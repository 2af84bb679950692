import TagScript.Proofs.Machine.Steps

/-! What every run leaves as it was, and what it only adds to. No task touches
the table of tags or the limit; none takes a variable away or a value back that
was printed; and the depth goes up and down with the invocations that wait among
the tasks, so that a run gives it back however it ends. -/
namespace TagScript

namespace SymbolTable

variable {σ : SymbolTable} {name : String}

theorem mem_assign (h : name ∈ σ) (other : String) (v : Value) : name ∈ σ.assign other v :=
  Std.ExtTreeMap.mem_insert.mpr (.inr h)

theorem mem_setElement (h : name ∈ σ) (other : String) (position : Nat) (n : Int64) :
    name ∈ σ.setElement other position n := by
  unfold setElement
  split
  · exact mem_assign h _ _
  · exact h

end SymbolTable

namespace Output

def emitAll (values : List Value) (out : Output) : Output :=
  values.foldl (fun out v => out.emit v) out

theorem emitAll_emitAll (first second : List Value) (out : Output) :
    (out.emitAll first).emitAll second = out.emitAll (first ++ second) :=
  List.foldl_append.symm

theorem emitAll_captured (values : List Value) (before : Array Value) :
    (captured before).emitAll values = captured (before ++ values.toArray) := by
  induction values generalizing before with
  | nil => exact congrArg captured Array.append_empty.symm
  | cons v rest ih =>
    refine (ih (before.push v)).trans (congrArg captured ?_)
    apply Array.toList_inj.mp
    simp only [Array.toList_append, Array.toList_push, List.append_assoc, List.singleton_append]

end Output

namespace Machine

/-- The second machine has the tags and the limit of the first, its variables
and what it had printed, and maybe more of these two. -/
structure Grows (m m' : Machine) : Prop where
  tags : m'.tags = m.tags
  limit : m'.limit = m.limit
  output : ∃ values, m'.output = m.output.emitAll values
  symbols : ∀ name ∈ m.symbols, name ∈ m'.symbols

variable {m m' m'' : Machine}

theorem Grows.refl (m : Machine) : m.Grows m :=
  ⟨rfl, rfl, ⟨[], rfl⟩, fun _ mem => mem⟩

theorem Grows.trans (h : m.Grows m') (h' : m'.Grows m'') : m.Grows m'' where
  tags := h'.tags.trans h.tags
  limit := h'.limit.trans h.limit
  output := by
    obtain ⟨first, output_eq⟩ := h.output
    obtain ⟨second, output_eq'⟩ := h'.output
    exact ⟨first ++ second, by rw [output_eq', output_eq, Output.emitAll_emitAll]⟩
  symbols name mem := h'.symbols name (h.symbols name mem)

theorem Grows.withDepth (h : m.Grows m') (depth : Nat) : m.Grows { m' with depth } :=
  ⟨h.tags, h.limit, h.output, h.symbols⟩

theorem grows_of_symbols {σ : SymbolTable} (h : ∀ name ∈ m.symbols, name ∈ σ) :
    m.Grows { m with symbols := σ } :=
  ⟨rfl, rfl, ⟨[], rfl⟩, h⟩

theorem exists_symbols_of_writes {α β : Type} {x : Checked α} {y : Checked β}
    {write : α → β → SymbolTable} (kept : ∀ a b, ∀ name ∈ m.symbols, name ∈ write a b)
    (h : (do return { m with symbols := write (← x) (← y) }) = Except.ok m') :
    ∃ σ : SymbolTable, m' = { m with symbols := σ } ∧ ∀ name ∈ m.symbols, name ∈ σ := by
  obtain ⟨a, -, h⟩ := Checked.bind_eq_ok_iff.mp h
  obtain ⟨b, -, h⟩ := Checked.bind_eq_ok_iff.mp h
  cases h
  exact ⟨_, rfl, kept a b⟩

theorem exists_symbols_of_assign {target : Target} {value : Rhs}
    (h : m.assign target value = .ok m') :
    ∃ σ : SymbolTable, m' = { m with symbols := σ } ∧ ∀ name ∈ m.symbols, name ∈ σ := by
  obtain ⟨name, index, span⟩ := target
  cases index with
  | none =>
    obtain ⟨v, -, h⟩ := Checked.bind_eq_ok_iff.mp h
    cases h
    exact ⟨_, rfl, fun _ mem => SymbolTable.mem_assign mem _ _⟩
  | some index =>
    obtain ⟨position, -, h⟩ := Checked.bind_eq_ok_iff.mp h
    obtain ⟨v, -, h⟩ := Checked.bind_eq_ok_iff.mp h
    obtain ⟨n, -, h⟩ := Checked.bind_eq_ok_iff.mp h
    obtain ⟨-, -, h⟩ := Checked.bind_eq_ok_iff.mp h
    cases h
    exact ⟨_, rfl, fun _ mem => SymbolTable.mem_setElement mem _ _ _⟩

theorem exists_symbols_of_swap {left right : Target} {span : Span}
    (h : m.swap left right span = .ok m') :
    ∃ σ : SymbolTable, m' = { m with symbols := σ } ∧ ∀ name ∈ m.symbols, name ∈ σ := by
  obtain ⟨leftPosition, -, h⟩ := Checked.bind_eq_ok_iff.mp h
  obtain ⟨rightPosition, -, h⟩ := Checked.bind_eq_ok_iff.mp h
  cases leftPosition with
  | none =>
    cases rightPosition with
    | none =>
      exact exists_symbols_of_writes (fun _ _ _ mem =>
        SymbolTable.mem_assign (SymbolTable.mem_assign mem _ _) _ _) h
    | some j =>
      exact exists_symbols_of_writes (fun _ _ _ mem =>
        SymbolTable.mem_setElement (SymbolTable.mem_assign mem _ _) _ _ _) h
  | some i =>
    cases rightPosition with
    | none =>
      exact exists_symbols_of_writes (fun _ _ _ mem =>
        SymbolTable.mem_assign (SymbolTable.mem_setElement mem _ _ _) _ _) h
    | some j =>
      exact exists_symbols_of_writes (fun _ _ _ mem =>
        SymbolTable.mem_setElement (SymbolTable.mem_setElement mem _ _ _) _ _ _) h

theorem grows_of_assign {target : Target} {value : Rhs} (h : m.assign target value = .ok m') :
    m.Grows m' ∧ m'.depth = m.depth := by
  obtain ⟨σ, rfl, sub⟩ := exists_symbols_of_assign h
  exact ⟨grows_of_symbols sub, rfl⟩

theorem grows_of_swap {left right : Target} {span : Span} (h : m.swap left right span = .ok m') :
    m.Grows m' ∧ m'.depth = m.depth := by
  obtain ⟨σ, rfl, sub⟩ := exists_symbols_of_swap h
  exact ⟨grows_of_symbols sub, rfl⟩

theorem grows_of_print {value : Expr} (h : m.print value = .ok m') :
    m.Grows m' ∧ m'.depth = m.depth := by
  obtain ⟨v, -, h⟩ := Checked.bind_eq_ok_iff.mp h
  cases h
  exact ⟨⟨rfl, rfl, ⟨[v], rfl⟩, fun _ mem => mem⟩, rfl⟩

end Machine

namespace Task

/-- The ways in which a task can have its effect: it works on the variables and
the output and leaves tasks of the same invocation, or it enters a tag, or it
leaves one. -/
inductive Effect (m : Machine) : Task → List Task → Machine → Prop
  | within {task : Task} {more : List Task} {m' : Machine} (own : task.isLeave = false)
      (inner : more.countP isLeave = 0) (grows : m.Grows m') (depth : m'.depth = m.depth) :
      Effect m task more m'
  | enters {tag : String} {span : Span} {body : Stmt} (bound : m.bodyOf tag span = .ok body) :
      Effect m (perform (.invoke tag span)) [perform body, leave] { m with depth := m.depth + 1 }
  | leaves : Effect m leave [] { m with depth := m.depth - 1 }

theorem countP_isLeave_sequence (body : List Stmt) : (sequence body).countP isLeave = 0 := by
  rw [sequence, List.countP_map]
  exact congrFun List.countP_false body

theorem countP_isLeave_again (condition : Expr) (body : List Stmt) :
    (sequence body ++ [again condition body]).countP isLeave = 0 := by
  rw [List.countP_append, countP_isLeave_sequence]
  rfl

variable {m m' : Machine} {task : Task} {more : List Task}

theorem Effect.of_grows {result : Checked Machine} (own : task.isLeave = false)
    (h : ([], ·) <$> result = .ok (more, m'))
    (grows : ∀ m', result = .ok m' → m.Grows m' ∧ m'.depth = m.depth) : Effect m task more m' := by
  obtain ⟨_, result_eq, ⟨⟩⟩ := Checked.map_eq_ok_iff.mp h
  exact .within own rfl (grows m' result_eq).1 (grows m' result_eq).2

theorem Effect.of_choice {condition : Expr} {yes no : List Task} (own : task.isLeave = false)
    (h : choice m condition yes no = .ok (more, m')) (yes_inner : yes.countP isLeave = 0)
    (no_inner : no.countP isLeave = 0) : Effect m task more m' := by
  obtain ⟨b, -, ⟨⟩⟩ := Checked.map_eq_ok_iff.mp h
  refine .within own ?_ (.refl m) rfl
  cases b with
  | true => exact yes_inner
  | false => exact no_inner

theorem effect_cases (h : task.effect m = .ok (more, m')) : Effect m task more m' := by
  cases task with
  | again condition body => exact .of_choice rfl h (countP_isLeave_again condition body) rfl
  | leave =>
    cases h
    exact .leaves
  | perform s =>
    cases s with
    | assign => exact .of_grows rfl h fun _ => Machine.grows_of_assign
    | declare =>
      cases h
      exact .within rfl rfl (.refl m) rfl
    | invoke tag span =>
      obtain ⟨body, bound, ⟨⟩⟩ := Checked.map_eq_ok_iff.mp h
      exact .enters bound
    | swap => exact .of_grows rfl h fun _ => Machine.grows_of_swap
    | ifThen condition body => exact .of_choice rfl h (countP_isLeave_sequence body) rfl
    | ifElse condition body other =>
      exact .of_choice rfl h (countP_isLeave_sequence body) (countP_isLeave_sequence other)
    | loop condition body => exact .of_choice rfl h (countP_isLeave_again condition body) rfl
    | print => exact .of_grows rfl h fun _ => Machine.grows_of_print

theorem Effect.grows (h : Effect m task more m') : m.Grows m' := by
  cases h with
  | within _ _ grows => exact grows
  | enters | leaves => exact (Machine.Grows.refl m).withDepth _

end Task

namespace Run

/-- The invocations that are active: each waits to be left. -/
def active (r : Run) : Nat :=
  r.tasks.countP Task.isLeave

/-- The depth is that at the beginning and the invocations that are active. -/
def Level (base : Nat) (r : Run) : Prop :=
  r.machine.depth = base + r.active

theorem active_ofStatements (body : List Stmt) (m : Machine) : (ofStatements body m).active = 0 :=
  Task.countP_isLeave_sequence body

theorem level_ofStatements (body : List Stmt) (m : Machine) :
    (ofStatements body m).Level m.depth := by
  rw [Level, active_ofStatements]
  rfl

variable {r r' : Run} {outcome : Outcome} {base : Nat}

theorem grows_of_next (h : r.next = .goes r') : r.machine.Grows r'.machine := by
  obtain ⟨task, rest, more, -, -, effect_eq⟩ := exists_effect h
  exact (Task.effect_cases effect_eq).grows

theorem Level.next (level : r.Level base) (h : r.next = .goes r') : r'.Level base := by
  obtain ⟨task, rest, more, tasks_eq, tasks_eq', effect_eq⟩ := exists_effect h
  rw [Level, active, tasks_eq, List.countP_cons] at level
  rw [Level, active, tasks_eq', List.countP_append]
  generalize r'.machine = m' at effect_eq ⊢
  cases Task.effect_cases effect_eq with
  | within own inner _ depth =>
    rw [own] at level
    rw [inner, depth, level, Nat.zero_add]
    rfl
  | enters bound =>
    change r.machine.depth = base + rest.countP Task.isLeave at level
    change r.machine.depth + 1 = base + (1 + rest.countP Task.isLeave)
    omega
  | leaves =>
    change r.machine.depth = base + (rest.countP Task.isLeave + 1) at level
    change r.machine.depth - 1 = base + (0 + rest.countP Task.isLeave)
    omega

theorem grows_of_reaches (h : r.Reaches r') : r.machine.Grows r'.machine := by
  induction h with
  | refl => exact .refl _
  | tail _ step ih => exact ih.trans (grows_of_next step)

theorem Level.reaches (level : r.Level base) (h : r.Reaches r') : r'.Level base := by
  induction h with
  | refl => exact level
  | tail _ step ih => exact ih.next step

theorem grows_of_ends (h : r.next = .ends outcome) : r.machine.Grows outcome.machine := by
  obtain ⟨-, rfl⟩ | ⟨task, rest, fault, -, -, rfl⟩ := ends_cases h
  · exact .refl _
  · exact (Machine.Grows.refl _).withDepth _

theorem Level.ends (level : r.Level base) (h : r.next = .ends outcome) :
    outcome.machine.depth = base := by
  rw [Level, active] at level
  obtain ⟨tasks_eq, rfl⟩ | ⟨task, rest, fault, tasks_eq, effect_eq, rfl⟩ := ends_cases h
  · rwa [tasks_eq] at level
  · rw [tasks_eq, List.countP_cons, isLeave_of_effect_error effect_eq] at level
    change r.machine.depth = base + rest.countP Task.isLeave at level
    exact Nat.sub_eq_of_eq_add level

/-- However a run ends, it only adds to its machine, and it gives its depth back. -/
theorem EndsIn.grows (h : r.EndsIn outcome) (level : r.Level base) :
    r.machine.Grows outcome.machine ∧ outcome.machine.depth = base := by
  obtain ⟨last, reaches, last_eq⟩ := h.exists_last
  exact ⟨(grows_of_reaches reaches).trans (grows_of_ends last_eq),
    (level.reaches reaches).ends last_eq⟩

end Run

end TagScript
