import Mathlib.Logic.Relation
import TagScript.Machine.Run

/-! What a step does. The first task alone decides it: the task is replaced by
others, none or more, the machine changes, and what is left to do after it stays
as it is. So facts about runs come from facts about the effect of one task. -/
namespace TagScript

namespace Checked

variable {α β : Type}

theorem bind_eq_ok_iff {x : Checked α} {f : α → Checked β} {b : β} :
    x >>= f = .ok b ↔ ∃ a, x = .ok a ∧ f a = .ok b := by
  cases x with
  | error fault => exact ⟨nofun, nofun⟩
  | ok a =>
    constructor
    · exact fun h => ⟨a, rfl, h⟩
    · rintro ⟨_, ⟨⟩, h⟩
      exact h

theorem map_eq_ok_iff {x : Checked α} {f : α → β} {b : β} :
    f <$> x = .ok b ↔ ∃ a, x = .ok a ∧ f a = b := by
  cases x with
  | error fault => exact ⟨nofun, nofun⟩
  | ok a =>
    constructor
    · exact fun h => ⟨a, rfl, Except.ok.inj h⟩
    · rintro ⟨_, ⟨⟩, rfl⟩
      rfl

theorem map_eq_error_iff {x : Checked α} {f : α → β} {fault : Fault RuntimeError} :
    f <$> x = .error fault ↔ x = .error fault := by
  cases x with
  | error other => exact ⟨fun h => congrArg _ (Except.error.inj h), congrArg (f <$> ·)⟩
  | ok a => exact ⟨nofun, nofun⟩

end Checked

theorem Machine.bodyOf_eq_ok_iff {m : Machine} {tag : String} {span : Span} {body : Stmt} :
    m.bodyOf tag span = .ok body ↔ m.tags[tag]? = some (some body) ∧ m.depth < m.limit := by
  unfold bodyOf
  split
  next absent => exact ⟨nofun, fun h => nomatch absent.symm.trans h.1⟩
  next empty => exact ⟨nofun, fun h => nomatch empty.symm.trans h.1⟩
  next body' bound =>
    rw [bound]
    split
    next full => exact ⟨nofun, fun h => absurd h.2 (Nat.not_lt.mpr full)⟩
    next room =>
      constructor
      · rintro ⟨⟩
        exact ⟨rfl, Nat.not_le.mp room⟩
      · rintro ⟨⟨⟩, -⟩
        rfl

namespace Task

def choice (m : Machine) (condition : Expr) (yes no : List Task) :
    Checked (List Task × Machine) :=
  (fun b => (if b then yes else no, m)) <$> m.symbols.evalCondition condition

/-- The tasks that take the place of a task, and the machine after it. -/
def effect (m : Machine) : Task → Checked (List Task × Machine)
  | perform (.assign target value _) => ([], ·) <$> m.assign target value
  | perform (.declare _ _ _) => .ok ([], m)
  | perform (.invoke tag span) =>
    (fun body => ([perform body, leave], { m with depth := m.depth + 1 })) <$> m.bodyOf tag span
  | perform (.swap left right span) => ([], ·) <$> m.swap left right span
  | perform (.ifThen condition body _) => choice m condition (sequence body) []
  | perform (.ifElse condition body other _) =>
    choice m condition (sequence body) (sequence other)
  | perform (.loop condition body _) =>
    choice m condition (sequence body ++ [again condition body]) []
  | perform (.print value _) => ([], ·) <$> m.print value
  | again condition body => choice m condition (sequence body ++ [again condition body]) []
  | leave => .ok ([], { m with depth := m.depth - 1 })

end Task

namespace Run

def resume (rest : List Task) (m : Machine) : Checked (List Task × Machine) → Progress
  | .ok (more, m') => .goes ⟨more ++ rest, m'⟩
  | .error fault => fail rest m fault

theorem branch_eq_resume (condition : Expr) (body other : List Stmt) (rest : List Task)
    (m : Machine) :
    branch condition body other rest m =
      resume rest m (Task.choice m condition (Task.sequence body) (Task.sequence other)) := by
  unfold branch Task.choice
  cases m.symbols.evalCondition condition with
  | error fault => rfl
  | ok b => cases b <;> rfl

theorem repeatWhile_eq_resume (condition : Expr) (body : List Stmt) (rest : List Task)
    (m : Machine) :
    repeatWhile condition body rest m =
      resume rest m
        (Task.choice m condition (Task.sequence body ++ [.again condition body]) []) := by
  unfold repeatWhile Task.choice
  cases m.symbols.evalCondition condition with
  | error fault => rfl
  | ok b =>
    cases b with
    | false => rfl
    | true => exact congrArg (fun tasks => Progress.goes ⟨tasks, m⟩) (List.append_cons ..)

theorem after_eq_resume (rest : List Task) (m : Machine) (result : Checked Machine) :
    after rest m result = resume rest m (([], ·) <$> result) := by
  cases result <;> rfl

theorem next_cons (task : Task) (rest : List Task) (m : Machine) :
    next ⟨task :: rest, m⟩ = resume rest m (task.effect m) := by
  cases task with
  | again condition body => exact repeatWhile_eq_resume condition body rest m
  | leave => rfl
  | perform s =>
    cases s with
    | assign | swap | print => exact after_eq_resume rest m _
    | declare => rfl
    | invoke tag span =>
      simp only [next, perform, Task.effect]
      cases m.bodyOf tag span <;> rfl
    | ifThen condition body => exact branch_eq_resume condition body [] rest m
    | ifElse condition body other => exact branch_eq_resume condition body other rest m
    | loop condition body => exact repeatWhile_eq_resume condition body rest m

variable {r r' : Run} {outcome other : Outcome}

theorem exists_effect (h : r.next = .goes r') :
    ∃ task rest more, r.tasks = task :: rest ∧ r'.tasks = more ++ rest ∧
      task.effect r.machine = .ok (more, r'.machine) := by
  obtain ⟨tasks, m⟩ := r
  cases tasks with
  | nil => cases h
  | cons task rest =>
    rw [next_cons] at h
    cases effect_eq : task.effect m with
    | error fault =>
      rw [effect_eq] at h
      cases h
    | ok result =>
      rw [effect_eq] at h
      cases h
      exact ⟨task, rest, result.1, rfl, rfl, effect_eq⟩

/-- A run ends when nothing is left to do, or by a fault of its first task. -/
theorem ends_cases (h : r.next = .ends outcome) :
    r.tasks = [] ∧ outcome = .done r.machine ∨
      ∃ task rest fault, r.tasks = task :: rest ∧ task.effect r.machine = .error fault ∧
        outcome = .failed fault
          { r.machine with depth := r.machine.depth - rest.countP Task.isLeave } := by
  obtain ⟨tasks, m⟩ := r
  cases tasks with
  | nil =>
    cases h
    exact .inl ⟨rfl, rfl⟩
  | cons task rest =>
    rw [next_cons] at h
    cases effect_eq : task.effect m with
    | ok result =>
      rw [effect_eq] at h
      cases h
    | error fault =>
      rw [effect_eq] at h
      cases h
      exact .inr ⟨task, rest, fault, rfl, effect_eq, rfl⟩

theorem isLeave_of_effect_error {task : Task} {m : Machine} {fault : Fault RuntimeError}
    (h : task.effect m = .error fault) : task.isLeave = false := by
  cases task with
  | leave => cases h
  | perform | again => rfl

abbrev Reaches : Run → Run → Prop :=
  Relation.ReflTransGen fun r r' => r.next = .goes r'

/-- What waits below the tasks of a run has no part in its steps. -/
theorem next_append (rest : List Task) (h : r.next = .goes r') :
    next ⟨r.tasks ++ rest, r.machine⟩ = .goes ⟨r'.tasks ++ rest, r'.machine⟩ := by
  obtain ⟨task, tasks, more, tasks_eq, tasks_eq', effect_eq⟩ := exists_effect h
  rw [tasks_eq, tasks_eq', List.cons_append, next_cons, effect_eq, List.append_assoc]
  rfl

theorem Reaches.append (rest : List Task) (h : r.Reaches r') :
    Reaches ⟨r.tasks ++ rest, r.machine⟩ ⟨r'.tasks ++ rest, r'.machine⟩ := by
  induction h with
  | refl => exact .refl
  | tail _ step ih => exact ih.tail (next_append rest step)

/-- Some number of steps is enough to end in this way. -/
def EndsIn (r : Run) (outcome : Outcome) : Prop :=
  ∃ fuel, r.finish fuel = some outcome

namespace EndsIn

theorem now (h : r.next = .ends outcome) : r.EndsIn outcome :=
  ⟨1, by rw [finish, h]⟩

theorem later (h : r.next = .goes r') (ends : r'.EndsIn outcome) : r.EndsIn outcome := by
  obtain ⟨fuel, finish_eq⟩ := ends
  refine ⟨fuel + 1, ?_⟩
  rw [finish, h]
  exact finish_eq

theorem of_next (h : r.next = .goes r') (ends : r.EndsIn outcome) : r'.EndsIn outcome := by
  obtain ⟨fuel, finish_eq⟩ := ends
  cases fuel with
  | zero => cases finish_eq
  | succ fuel =>
    rw [finish, h] at finish_eq
    exact ⟨fuel, finish_eq⟩

theorem iff_of_reaches (h : r.Reaches r') : r.EndsIn outcome ↔ r'.EndsIn outcome := by
  induction h with
  | refl => exact Iff.rfl
  | tail _ step ih => exact ih.trans ⟨of_next step, later step⟩

theorem exists_last (h : r.EndsIn outcome) :
    ∃ last, r.Reaches last ∧ last.next = .ends outcome := by
  obtain ⟨fuel, finish_eq⟩ := h
  induction fuel generalizing r with
  | zero => cases finish_eq
  | succ fuel ih =>
    rw [finish] at finish_eq
    cases next_eq : r.next with
    | ends outcome' =>
      rw [next_eq] at finish_eq
      cases finish_eq
      exact ⟨r, .refl, next_eq⟩
    | goes r' =>
      rw [next_eq] at finish_eq
      obtain ⟨last, reaches, last_eq⟩ := ih finish_eq
      exact ⟨last, .head next_eq reaches, last_eq⟩

theorem unique (h : r.EndsIn outcome) (h' : r.EndsIn other) : outcome = other := by
  obtain ⟨last, reaches, next_eq⟩ := h.exists_last
  obtain ⟨fuel, finish_eq⟩ := (iff_of_reaches reaches).mp h'
  cases fuel with
  | zero => cases finish_eq
  | succ fuel =>
    rw [finish, next_eq] at finish_eq
    exact Option.some.inj finish_eq

theorem reaches_append {m m' : Machine} {tasks : List Task} (h : EndsIn ⟨tasks, m⟩ (.done m'))
    (rest : List Task) : Reaches ⟨tasks ++ rest, m⟩ ⟨rest, m'⟩ := by
  obtain ⟨last, reaches, last_eq⟩ := h.exists_last
  obtain ⟨tasks_eq, outcome_eq⟩ | ⟨_, _, _, -, -, ⟨⟩⟩ := ends_cases last_eq
  obtain ⟨tasks', m''⟩ := last
  cases tasks_eq
  cases outcome_eq
  exact reaches.append rest

/-- A run that fails does so also when more waits below, if no invocation ends there. -/
theorem append_of_failed {m m' : Machine} {tasks rest : List Task} {fault : Fault RuntimeError}
    (h : EndsIn ⟨tasks, m⟩ (.failed fault m')) (outside : rest.countP Task.isLeave = 0) :
    EndsIn ⟨tasks ++ rest, m⟩ (.failed fault m') := by
  obtain ⟨⟨tasks', m''⟩, reaches, last_eq⟩ := h.exists_last
  obtain ⟨-, ⟨⟩⟩ | ⟨task, more, fault', tasks_eq, effect_eq, outcome_eq⟩ := ends_cases last_eq
  cases tasks_eq
  cases outcome_eq
  refine (iff_of_reaches (reaches.append rest)).mpr (.now ?_)
  rw [List.cons_append, next_cons, effect_eq, resume, fail, List.countP_append, outside,
    Nat.add_zero]

end EndsIn

end Run

namespace Machine

def Diverges (m : Machine) (p : Program) : Prop :=
  ∀ fuel, m.run fuel p = none

def EndsIn (m : Machine) (p : Program) (outcome : Outcome) : Prop :=
  ∃ fuel, m.run fuel p = some outcome

end Machine

end TagScript
