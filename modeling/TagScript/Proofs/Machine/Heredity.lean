import TagScript.Proofs.Machine.Invariants
import TagScript.Proofs.Machine.Invocations

/-! What running a statement comes to: the statements in its blocks, and the bodies
of the tags that it invokes. A property that is handed on to all of these holds of
every statement in a run if it holds of those at its beginning. -/
namespace TagScript

structure Stmt.Inherited (P : Stmt → Prop) : Prop where
  ifThen : ∀ {condition body span}, P (.ifThen condition body span) → ∀ s ∈ body, P s
  ifElse : ∀ {condition body other span}, P (.ifElse condition body other span) →
    (∀ s ∈ body, P s) ∧ ∀ s ∈ other, P s
  loop : ∀ {condition body span}, P (.loop condition body span) → ∀ s ∈ body, P s

/-- The property is handed on from a statement to those that running it comes to. -/
structure TagTable.Hereditary (τ : TagTable) (P : Stmt → Prop) : Prop where
  ifThen : ∀ {condition body span}, P (.ifThen condition body span) → ∀ s ∈ body, P s
  ifElse : ∀ {condition body other span}, P (.ifElse condition body other span) →
    (∀ s ∈ body, P s) ∧ ∀ s ∈ other, P s
  loop : ∀ {condition body span}, P (.loop condition body span) → ∀ s ∈ body, P s
  invoke : ∀ {tag span body}, P (.invoke tag span) → τ[tag]? = some (some body) → P body

namespace TagTable

variable {τ : TagTable} {P : Stmt → Prop} {s t : Stmt}

theorem Hereditary.inherited (h : τ.Hereditary P) : Stmt.Inherited P :=
  ⟨h.ifThen, h.ifElse, h.loop⟩

/-- The statement has the property, and so have the bodies of all tags that it may come
to invoke. -/
def Throughout (τ : TagTable) (P : Stmt → Prop) (s : Stmt) : Prop :=
  P s ∧ ∀ tag body, τ.Invocable s.invocations tag → τ[tag]? = some (some body) → P body

theorem Throughout.of_mem {body : List Stmt} (h : τ.Throughout P t) (mem : s ∈ body) (here : P s)
    (part : ∀ tag ∈ Stmt.allInvocations body, tag ∈ t.invocations) : τ.Throughout P s := by
  refine ⟨here, fun tag found invocable => h.2 tag found (invocable.mono fun other named => ?_)⟩
  exact part other (Stmt.mem_allInvocations_iff.mpr ⟨s, mem, named⟩)

theorem Throughout.of_bound {tag : String} {span : Span} {body : Stmt}
    (h : τ.Throughout P (.invoke tag span)) (bound : τ[tag]? = some (some body)) :
    τ.Throughout P body := by
  have mem : tag ∈ (Stmt.invoke tag span).invocations := List.mem_singleton.mpr rfl
  refine ⟨h.2 tag body (.of_mem mem) bound, fun other found invocable => ?_⟩
  exact h.2 other found (invocable.of_body mem bound)

theorem hereditary_throughout (τ : TagTable) (inherited : Stmt.Inherited P) :
    τ.Hereditary (τ.Throughout P) where
  ifThen h _ mem := h.of_mem mem (inherited.ifThen h.1 _ mem) fun _ => id
  ifElse h :=
    ⟨fun _ mem => h.of_mem mem ((inherited.ifElse h.1).1 _ mem) fun _ => List.mem_append_left _,
      fun _ mem => h.of_mem mem ((inherited.ifElse h.1).2 _ mem) fun _ => List.mem_append_right _⟩
  loop h _ mem := h.of_mem mem (inherited.loop h.1 _ mem) fun _ => id
  invoke h bound := h.of_bound bound

end TagTable

namespace Task

/-- A loop that is looked at again was a statement once. -/
def Holds (P : Stmt → Prop) : Task → Prop
  | perform s => P s
  | again condition body => ∃ span, P (.loop condition body span)
  | leave => True

variable {P Q : Stmt → Prop} {m m' : Machine} {task : Task} {more : List Task}

theorem Holds.mono (h : task.Holds P) (weaker : ∀ s, P s → Q s) : task.Holds Q := by
  cases task with
  | perform s => exact weaker s h
  | again condition body =>
    obtain ⟨span, h⟩ := h
    exact ⟨span, weaker _ h⟩
  | leave => trivial

theorem holds_sequence {body : List Stmt} (h : ∀ s ∈ body, P s) :
    ∀ t ∈ sequence body, t.Holds P := by
  intro t mem
  obtain ⟨s, inside, rfl⟩ := List.mem_map.mp mem
  exact h s inside

theorem holds_again {condition : Expr} {body : List Stmt} {span : Span}
    (inherited : Stmt.Inherited P) (h : P (.loop condition body span)) :
    ∀ t ∈ sequence body ++ [again condition body], t.Holds P := by
  intro t mem
  rcases List.mem_append.mp mem with mem | mem
  · exact holds_sequence (inherited.loop h) t mem
  · obtain rfl := List.mem_singleton.mp mem
    exact ⟨span, h⟩

theorem holds_of_choice {condition : Expr} {yes no : List Task}
    (h : choice m condition yes no = .ok (more, m')) (of_yes : ∀ t ∈ yes, t.Holds P)
    (of_no : ∀ t ∈ no, t.Holds P) : ∀ t ∈ more, t.Holds P := by
  obtain ⟨b, -, ⟨⟩⟩ := Checked.map_eq_ok_iff.mp h
  cases b with
  | true => exact of_yes
  | false => exact of_no

theorem holds_of_plain (inherited : Stmt.Inherited P) (holds : task.Holds P)
    (other : ∀ tag span, task ≠ perform (.invoke tag span))
    (h : task.effect m = .ok (more, m')) : ∀ t ∈ more, t.Holds P := by
  cases task with
  | leave =>
    cases h
    exact nofun
  | again condition body =>
    obtain ⟨span, holds⟩ := holds
    exact holds_of_choice h (holds_again inherited holds) nofun
  | perform s =>
    cases s with
    | assign | swap | print =>
      obtain ⟨_, -, ⟨⟩⟩ := Checked.map_eq_ok_iff.mp h
      exact nofun
    | declare =>
      cases h
      exact nofun
    | invoke tag span => exact absurd rfl (other tag span)
    | ifThen => exact holds_of_choice h (holds_sequence (inherited.ifThen holds)) nofun
    | ifElse =>
      exact holds_of_choice h (holds_sequence (inherited.ifElse holds).1)
        (holds_sequence (inherited.ifElse holds).2)
    | loop => exact holds_of_choice h (holds_again inherited holds) nofun

theorem holds_of_effect (hereditary : m.tags.Hereditary P) (holds : task.Holds P)
    (h : task.effect m = .ok (more, m')) : ∀ t ∈ more, t.Holds P := by
  by_cases invokes : ∃ tag span, task = perform (.invoke tag span)
  · obtain ⟨tag, span, rfl⟩ := invokes
    obtain ⟨body, bound, ⟨⟩⟩ := Checked.map_eq_ok_iff.mp h
    have of_body : P body := hereditary.invoke holds (Machine.bodyOf_eq_ok_iff.mp bound).1
    intro t mem
    simp only [List.mem_cons, List.not_mem_nil, or_false] at mem
    rcases mem with rfl | rfl
    · exact of_body
    · trivial
  · exact holds_of_plain hereditary.inherited holds
      (fun tag span task_eq => invokes ⟨tag, span, task_eq⟩) h

end Task

namespace Run

variable {P : Stmt → Prop} {r r' : Run}

theorem holds_of_next (hereditary : r.machine.tags.Hereditary P) (holds : ∀ t ∈ r.tasks, t.Holds P)
    (h : r.next = .goes r') : ∀ t ∈ r'.tasks, t.Holds P := by
  obtain ⟨task, rest, more, tasks_eq, tasks_eq', effect_eq⟩ := exists_effect h
  rw [tasks_eq] at holds
  rw [tasks_eq']
  intro t mem
  rcases List.mem_append.mp mem with mem | mem
  · exact Task.holds_of_effect hereditary (holds task List.mem_cons_self) effect_eq t mem
  · exact holds t (List.mem_cons_of_mem task mem)

theorem holds_of_reaches (hereditary : r.machine.tags.Hereditary P)
    (holds : ∀ t ∈ r.tasks, t.Holds P) (h : r.Reaches r') : ∀ t ∈ r'.tasks, t.Holds P := by
  induction h with
  | refl => exact holds
  | tail reaches step ih =>
    refine holds_of_next ?_ ih step
    rw [(grows_of_reaches reaches).tags]
    exact hereditary

/-- A run that fails comes to a task that fails, with the tags that it began with. -/
theorem exists_failed (hereditary : r.machine.tags.Hereditary P)
    (holds : ∀ t ∈ r.tasks, t.Holds P) {outcome : Outcome} (ends : r.EndsIn outcome)
    {fault : Fault RuntimeError} (failed : fault ∈ outcome.fault?) :
    ∃ (task : Task) (m : Machine), task.Holds P ∧ m.tags = r.machine.tags ∧
      task.effect m = .error fault := by
  obtain ⟨last, reaches, last_eq⟩ := ends.exists_last
  obtain ⟨-, rfl⟩ | ⟨task, rest, fault', tasks_eq, effect_eq, rfl⟩ := ends_cases last_eq
  · cases failed
  · cases failed
    have holds' := holds_of_reaches hereditary holds reaches
    rw [tasks_eq] at holds'
    exact ⟨task, last.machine, holds' task List.mem_cons_self, (grows_of_reaches reaches).tags,
      effect_eq⟩

end Run

end TagScript
