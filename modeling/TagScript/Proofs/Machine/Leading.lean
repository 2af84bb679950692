import TagScript.Proofs.Machine.Exchange

/-! Runs that succeed, from the tasks that they consist of. A task that succeeds hands its machine
on to the tasks that take its place, and these to what is left to do; so the rule for each kind
of statement tells the machine after it, and a loop goes by the rounds that are left to it. -/
namespace TagScript

namespace Task

/-- The tasks are done without a fault, and leave the second machine. -/
def Lead (tasks : List Task) (m m' : Machine) : Prop :=
  Run.EndsIn ⟨tasks, m⟩ (.done m')

variable {tasks rest : List Task} {task : Task} {m m' m'' : Machine}

theorem lead_nil_iff : Lead [] m m' ↔ m' = m := by
  have ends : Run.EndsIn ⟨[], m⟩ (.done m) := .now rfl
  constructor
  · intro h
    cases h.unique ends
    rfl
  · rintro rfl
    exact ends

theorem lead_cons_iff : Lead (task :: rest) m m'' ↔
    ∃ more m', task.effect m = .ok (more, m') ∧ Lead (more ++ rest) m' m'' := by
  unfold Lead
  cases effect_eq : task.effect m with
  | error fault =>
    have next_eq : Run.next ⟨task :: rest, m⟩ = Run.fail rest m fault := by
      rw [Run.next_cons, effect_eq]
      rfl
    constructor
    · intro ends
      cases ends.unique (.now next_eq)
    · rintro ⟨_, _, ⟨⟩, -⟩
  | ok result =>
    obtain ⟨more, m'⟩ := result
    have next_eq : Run.next ⟨task :: rest, m⟩ = .goes ⟨more ++ rest, m'⟩ := by
      rw [Run.next_cons, effect_eq]
      rfl
    constructor
    · intro ends
      exact ⟨more, m', rfl, ends.of_next next_eq⟩
    · rintro ⟨_, _, ⟨⟩, ends⟩
      exact .later next_eq ends

theorem Lead.append (h : Lead tasks m m') (h' : Lead rest m' m'') : Lead (tasks ++ rest) m m'' :=
  (Run.EndsIn.iff_of_reaches (h.reaches_append rest)).mpr h'

theorem lead_of_changes_iff {result : Checked Machine}
    (effect_eq : task.effect m = (([], ·) <$> result)) :
    Lead (task :: rest) m m'' ↔ ∃ m', result = .ok m' ∧ Lead rest m' m'' := by
  rw [lead_cons_iff, effect_eq]
  constructor
  · rintro ⟨_, m', h, leads⟩
    obtain ⟨_, result_eq, ⟨⟩⟩ := Checked.map_eq_ok_iff.mp h
    exact ⟨m', result_eq, leads⟩
  · rintro ⟨m', rfl, leads⟩
    exact ⟨[], m', rfl, leads⟩

section Choice

variable {condition : Expr} {body : List Stmt} {span : Span} {b : Bool}

theorem lead_of_choice_iff {yes no : List Task}
    (effect_eq : task.effect m = choice m condition yes no)
    (test : m.symbols.evalCondition condition = .ok b) :
    Lead (task :: rest) m m' ↔ Lead ((if b then yes else no) ++ rest) m m' := by
  rw [lead_cons_iff, effect_eq, choice, test]
  constructor
  · rintro ⟨_, _, ⟨⟩, leads⟩
    exact leads
  · exact fun leads => ⟨_, _, rfl, leads⟩

theorem lead_ifThen_iff (test : m.symbols.evalCondition condition = .ok b) :
    Lead (.perform (.ifThen condition body span) :: rest) m m' ↔
      Lead ((if b then sequence body else []) ++ rest) m m' :=
  lead_of_choice_iff rfl test

theorem lead_again_iff (test : m.symbols.evalCondition condition = .ok b) :
    Lead (.again condition body :: rest) m m' ↔
      Lead ((if b then sequence body ++ [.again condition body] else []) ++ rest) m m' :=
  lead_of_choice_iff rfl test

theorem lead_loop_iff : Lead (.perform (.loop condition body span) :: rest) m m' ↔
    Lead (.again condition body :: rest) m m' := by
  rw [lead_cons_iff, lead_cons_iff]
  exact Iff.rfl

end Choice

end Task

end TagScript
