import Mathlib.Data.List.Forall2
import TagScript.Proofs.Machine.Blame
import TagScript.Proofs.Machine.Simulation
import TagScript.Proofs.Machine.Spans

/-! Runs whose statements stand elsewhere, with another table of tags. Statements may have
been moved in several ways, while the bodies of tags stay where they are, and the other
table may hold more as long as no statement looks there. Such runs go through the same
steps, and a fault that ends them is blamed where the statement to blame has been moved. -/
namespace TagScript

open Checked

variable (f : Span → Span) (g : TagTable → TagTable)

namespace Task

theorem mapSpans_id (task : Task) : task.mapSpans id = task := by
  cases task with
  | perform s => rw [mapSpans, s.mapSpans_id]
  | again condition body => rw [mapSpans, condition.mapSpans_id, Stmt.mapAllSpans_id body]
  | leave => rfl

theorem isLeave_mapSpans (task : Task) : (task.mapSpans f).isLeave = task.isLeave := by
  cases task <;> rfl

theorem sequence_again_mapSpans (condition : Expr) (body : List Stmt) :
    sequence (Stmt.mapAllSpans f body) ++
        [again (condition.mapSpans f) (Stmt.mapAllSpans f body)] =
      (sequence body ++ [again condition body]).map (mapSpans f) := by
  rw [List.map_append, sequence_mapAllSpans]
  rfl

theorem choice_mapSpans (m : Machine) (condition : Expr) (yes no : List Task) :
    choice (m.retag g) (condition.mapSpans f) (yes.map (mapSpans f)) (no.map (mapSpans f)) =
      relocate f (Prod.map (List.map (mapSpans f)) (Machine.retag g))
        (choice m condition yes no) := by
  have test : (m.retag g).symbols.evalCondition (condition.mapSpans f) =
      relocate f id (m.symbols.evalCondition condition) :=
    m.symbols.evalCondition_mapSpans f condition
  unfold choice
  rw [test]
  cases m.symbols.evalCondition condition with
  | error fault => rfl
  | ok b => cases b <;> rfl

theorem changes_mapSpans {result result' : Checked Machine}
    (h : result' = relocate f (Machine.retag g) result) :
    (([], ·) <$> result' : Checked (List Task × Machine)) =
      relocate f (Prod.map (List.map (mapSpans f)) (Machine.retag g)) (([], ·) <$> result) := by
  subst h
  cases result <;> rfl

variable {task : Task} (m : Machine)

theorem effect_mapSpans (other : ∀ tag span, task ≠ perform (.invoke tag span)) :
    (task.mapSpans f).effect (m.retag g) =
      relocate f (Prod.map (List.map (mapSpans f)) (Machine.retag g)) (task.effect m) := by
  cases task with
  | leave => rfl
  | again condition body =>
    rw [mapSpans, effect, sequence_again_mapSpans]
    exact choice_mapSpans f g m condition _ []
  | perform s =>
    cases s with
    | declare => rfl
    | invoke tag span => exact absurd rfl (other tag span)
    | assign target value => exact changes_mapSpans f g (m.assign_mapSpans f g target value)
    | swap left right span => exact changes_mapSpans f g (m.swap_mapSpans f g left right span)
    | print value => exact changes_mapSpans f g (m.print_mapSpans f g value)
    | ifThen condition body =>
      rw [mapSpans, Stmt.mapSpans, effect, sequence_mapAllSpans]
      exact choice_mapSpans f g m condition _ []
    | ifElse condition body other =>
      rw [mapSpans, Stmt.mapSpans, effect, sequence_mapAllSpans, sequence_mapAllSpans]
      exact choice_mapSpans f g m condition _ _
    | loop condition body =>
      rw [mapSpans, Stmt.mapSpans, effect, sequence_again_mapSpans]
      exact choice_mapSpans f g m condition _ []

end Task

theorem Machine.bodyOf_retag {m : Machine} {tag : String} (span : Span)
    (kept : (g m.tags)[tag]? = m.tags[tag]?) :
    (m.retag g).bodyOf tag (f span) = relocate f id (m.bodyOf tag span) := by
  have look : (m.retag g).tags[tag]? = m.tags[tag]? := kept
  unfold bodyOf
  rw [look]
  cases m.tags[tag]? with
  | none => rfl
  | some body =>
    cases body with
    | none => rfl
    | some body =>
      by_cases deep : m.limit ≤ m.depth
      · simp only [retag, deep, if_true, relocate, Fault.mapSpan]
      · simp only [retag, deep, if_false, relocate, id]

/-- What runs may differ in when the one has the table `τ`: `W f P` says that what has `P`
in its spans may have been moved by `f`. Bodies stay, and the other table has what
statements with `K` look up. -/
structure Displacement (W : (Span → Span) → (Span → Prop) → Prop) (g : TagTable → TagTable)
    (τ : TagTable) (K : Stmt → Prop) : Prop where
  hereditary : τ.Hereditary K
  kept : ∀ {tag span}, K (.invoke tag span) → (g τ)[tag]? = τ[tag]?
  bodies : ∃ P, W id P ∧
    ∀ (tag : String) (body : Stmt), τ[tag]? = some (some body) → body.Spanned P

def Task.Displaced (W : (Span → Span) → (Span → Prop) → Prop) (task task' : Task) : Prop :=
  ∃ f P, W f P ∧ task.Holds (Stmt.Spanned P) ∧ task' = task.mapSpans f

/-- The second outcome is the first, with its fault moved in one of the ways. -/
inductive Outcome.Displaced (W : (Span → Span) → (Span → Prop) → Prop)
    (g : TagTable → TagTable) : Outcome → Outcome → Prop
  | done (m : Machine) : Displaced W g (done m) (done (m.retag g))
  | failed {fault : Fault RuntimeError} (m : Machine) {f : Span → Span} {P : Span → Prop}
      (way : W f P) (blamed : P fault.span) :
      Displaced W g (failed fault m) (failed (fault.mapSpan f) (m.retag g))

variable {W : (Span → Span) → (Span → Prop) → Prop} {g} {τ : TagTable} {K : Stmt → Prop}

namespace Task

theorem displaced_map {f : Span → Span} {P : Span → Prop} (way : W f P) {tasks : List Task}
    (holds : ∀ t ∈ tasks, t.Holds (Stmt.Spanned P)) :
    List.Forall₂ (Displaced W) tasks (tasks.map (mapSpans f)) := by
  rw [List.forall₂_map_right_iff, List.forall₂_same]
  exact fun t mem => ⟨f, P, way, holds t mem, rfl⟩

theorem countP_isLeave_of_displaced {tasks tasks' : List Task}
    (h : List.Forall₂ (Displaced W) tasks tasks') :
    tasks'.countP isLeave = tasks.countP isLeave := by
  induction h with
  | nil => rfl
  | cons displaced _ ih =>
    obtain ⟨f, -, -, -, rfl⟩ := displaced
    rw [List.countP_cons, List.countP_cons, ih, isLeave_mapSpans]

theorem Displaced.effect {m : Machine} {task task' : Task}
    (displacement : Displacement W g m.tags K) (displaced : Displaced W task task')
    (known : task.Holds K) :
    (∃ fault f P, W f P ∧ P fault.span ∧ task.effect m = .error fault ∧
      task'.effect (m.retag g) = .error (fault.mapSpan f)) ∨
    ∃ more more' m', task.effect m = .ok (more, m') ∧
      task'.effect (m.retag g) = .ok (more', m'.retag g) ∧
      List.Forall₂ (Displaced W) more more' := by
  obtain ⟨f, P, way, holds, rfl⟩ := displaced
  by_cases invokes : ∃ tag span, task = perform (.invoke tag span)
  case pos =>
    obtain ⟨tag, span, rfl⟩ := invokes
    have look := Machine.bodyOf_retag f g span (displacement.kept known)
    cases body_eq : m.bodyOf tag span with
    | error fault =>
      have failed : (perform (.invoke tag span)).effect m = .error fault :=
        map_eq_error_iff.mpr body_eq
      rw [body_eq] at look
      exact .inl ⟨fault, f, P, way, (blames_effect holds failed).1, failed,
        map_eq_error_iff.mpr look⟩
    | ok body =>
      obtain ⟨Q, stays, bodies⟩ := displacement.bodies
      have spanned := bodies tag body (Machine.bodyOf_eq_ok_iff.mp body_eq).1
      have entered : ∀ t ∈ [perform body, leave], t.Holds (Stmt.Spanned Q) := by
        simp only [List.mem_cons, List.not_mem_nil, or_false, forall_eq_or_imp, forall_eq]
        exact ⟨spanned, trivial⟩
      have same := displaced_map stays entered
      rw [body_eq] at look
      refine .inr ⟨_, _, _, map_eq_ok_iff.mpr ⟨body, body_eq, rfl⟩,
        map_eq_ok_iff.mpr ⟨body, look, rfl⟩, ?_⟩
      simpa only [List.map_cons, List.map_nil, mapSpans_id] using same
  case neg =>
    have other : ∀ tag span, task ≠ perform (.invoke tag span) :=
      fun tag span task_eq => invokes ⟨tag, span, task_eq⟩
    have moved := effect_mapSpans f g m other
    cases effect_eq : task.effect m with
    | error fault =>
      rw [effect_eq] at moved
      exact .inl ⟨fault, f, P, way, (blames_effect holds effect_eq).1, rfl, moved⟩
    | ok result =>
      rw [effect_eq] at moved
      exact .inr ⟨_, _, _, rfl, moved, displaced_map way
        (holds_of_plain (Stmt.inherited_spanned P) holds other effect_eq)⟩

end Task

namespace Run

structure Displaced (W : (Span → Span) → (Span → Prop) → Prop) (g : TagTable → TagTable)
    (τ : TagTable) (K : Stmt → Prop) (r q : Run) : Prop where
  tasks : List.Forall₂ (Task.Displaced W) r.tasks q.tasks
  machine : q.machine = r.machine.retag g
  tags : r.machine.tags = τ
  known : ∀ t ∈ r.tasks, t.Holds K

variable {r q : Run}

theorem Displaced.catchesUp (displacement : Displacement W g τ K) (h : Displaced W g τ K r q) :
    CatchesUp (Displaced W g τ K) (Outcome.Displaced W g) r q := by
  refine ⟨r, .refl, ?_⟩
  obtain ⟨tasks, m⟩ := r
  obtain ⟨tasks', m'⟩ := q
  obtain ⟨displaced, machine_eq, tags_eq, known⟩ := h
  obtain rfl : m' = m.retag g := machine_eq
  obtain rfl : m.tags = τ := tags_eq
  cases displaced with
  | nil => exact .ends (.done m)
  | @cons task task' rest rest' first others =>
    obtain ⟨task_known, rest_known⟩ := List.forall_mem_cons.mp known
    rw [next_cons, next_cons]
    obtain ⟨fault, f, P, way, blamed, effect_eq, effect_eq'⟩ |
      ⟨more, more', m', effect_eq, effect_eq', more_displaced⟩ :=
        first.effect displacement task_known
    · rw [effect_eq, effect_eq', resume, resume, fail, fail,
        Task.countP_isLeave_of_displaced others]
      exact .ends (.failed _ way blamed)
    · rw [effect_eq, effect_eq']
      refine .goes ⟨List.rel_append more_displaced others, rfl, ?_, ?_⟩
      · exact (Task.effect_cases effect_eq).grows.tags
      · exact List.forall_mem_append.mpr
          ⟨Task.holds_of_effect displacement.hereditary task_known effect_eq, rest_known⟩

theorem Displaced.alike (displacement : Displacement W g τ K) (h : Displaced W g τ K r q) :
    r.Diverges ∧ q.Diverges ∨
      ∃ o o', r.EndsIn o ∧ q.EndsIn o' ∧ Outcome.Displaced W g o o' :=
  alike_of_catchesUp (fun _ _ => Displaced.catchesUp displacement) h

end Run

end TagScript
