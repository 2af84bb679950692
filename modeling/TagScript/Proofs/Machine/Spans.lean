import TagScript.Machine.Run
import TagScript.Proofs.Syntax.Spans

/-! Running takes no notice of spans but to blame them. When the spans of a
program are changed, its run goes through the same steps, and a fault that ends
it has the same cause and the changed span. -/
namespace TagScript

variable (f : Span → Span)

namespace Checked

def relocate {α β : Type} (g : α → β) : Checked α → Checked β
  | .ok a => .ok (g a)
  | .error fault => .error (fault.mapSpan f)

variable {f} {α β γ δ : Type}

theorem bind_relocate {x : Checked α} {x' : Checked γ} {k : α → Checked β} {k' : γ → Checked δ}
    {g : α → γ} {h : β → δ} (first : x' = relocate f g x)
    (step : ∀ a, k' (g a) = relocate f h (k a)) : x' >>= k' = relocate f h (x >>= k) := by
  subst first
  cases x with
  | error fault => rfl
  | ok a => exact step a

end Checked

open Checked

/-! Expressions. -/

theorem Value.asInteger_mapSpan (span : Span) (v : Value) :
    v.asInteger (f span) = relocate f id (v.asInteger span) := by
  unfold asInteger
  cases v.toInteger? <;> rfl

theorem Value.asCondition_mapSpan (span : Span) (v : Value) :
    v.asCondition (f span) = relocate f id (v.asCondition span) := by
  unfold asCondition
  cases v.toCondition? <;> rfl

theorem asPosition_mapSpan (span : Span) (n : Int64) :
    asPosition (f span) n = relocate f id (asPosition span n) := by
  unfold asPosition
  split <;> rfl

theorem checkOverflow_mapSpan (span : Span) (left : Int64) (op : BinaryOp) (right : Int64)
    (n? : Option Int64) :
    checkOverflow (f span) left op right n? =
      relocate f id (checkOverflow span left op right n?) := by
  cases n? <;> rfl

theorem BinaryOp.apply_mapSpan (span : Span) (left : Int64) (op : BinaryOp) (right : Int64) :
    op.apply (f span) left right = relocate f id (op.apply span left right) := by
  cases op with
  | add | subtract | multiply => exact checkOverflow_mapSpan f _ _ _ _ _
  | divide =>
    by_cases zero : right = 0
    · simp only [apply, if_pos zero, relocate, Fault.mapSpan]
    · simp only [apply, if_neg zero, relocate, id]
  | equal | notEqual | less | greater => rfl

namespace SymbolTable

variable (σ : SymbolTable)

theorem whole_mapSpan (name : String) (span : Span) :
    σ.whole name (f span) = relocate f id (σ.whole name span) := by
  unfold whole
  cases σ[name]? <;> rfl

theorem element_mapSpan (name : String) (position : Nat) (span : Span) :
    σ.element name position (f span) = relocate f id (σ.element name position span) := by
  unfold element
  split
  · rfl
  · split <;> rfl
  · rfl

theorem evalInteger_of_eval {e : Expr} (h : σ.eval (e.mapSpans f) = relocate f id (σ.eval e)) :
    σ.evalInteger (e.mapSpans f) = relocate f id (σ.evalInteger e) := by
  unfold evalInteger
  apply bind_relocate h
  intro v
  rw [Expr.span_mapSpans]
  exact v.asInteger_mapSpan f e.span

theorem evalPosition_of_eval {e : Expr} (h : σ.eval (e.mapSpans f) = relocate f id (σ.eval e)) :
    σ.evalPosition (e.mapSpans f) = relocate f id (σ.evalPosition e) := by
  unfold evalPosition
  apply bind_relocate (evalInteger_of_eval f σ h)
  intro n
  rw [Expr.span_mapSpans]
  exact asPosition_mapSpan f e.span n

theorem eval_mapSpans (e : Expr) : σ.eval (e.mapSpans f) = relocate f id (σ.eval e) := by
  induction e with
  | integer | boolean => rfl
  | named name span => exact σ.whole_mapSpan f name span
  | element name index span ih =>
    rw [Expr.mapSpans, eval_element, eval_element]
    apply bind_relocate (evalPosition_of_eval f σ ih)
    intro position
    apply bind_relocate (σ.element_mapSpan f name position span)
    exact fun n => rfl
  | binary left op right span left_ih right_ih =>
    rw [Expr.mapSpans, eval_binary, eval_binary]
    apply bind_relocate (evalInteger_of_eval f σ left_ih)
    intro a
    apply bind_relocate (evalInteger_of_eval f σ right_ih)
    intro b
    exact op.apply_mapSpan f span a b

theorem evalInteger_mapSpans (e : Expr) :
    σ.evalInteger (e.mapSpans f) = relocate f id (σ.evalInteger e) :=
  evalInteger_of_eval f σ (σ.eval_mapSpans f e)

theorem evalPosition_mapSpans (e : Expr) :
    σ.evalPosition (e.mapSpans f) = relocate f id (σ.evalPosition e) :=
  evalPosition_of_eval f σ (σ.eval_mapSpans f e)

theorem evalCondition_mapSpans (e : Expr) :
    σ.evalCondition (e.mapSpans f) = relocate f id (σ.evalCondition e) := by
  unfold evalCondition
  apply bind_relocate (σ.eval_mapSpans f e)
  intro v
  rw [Expr.span_mapSpans]
  exact v.asCondition_mapSpan f e.span

theorem mapM_evalInteger_mapSpans (es : List Expr) :
    (es.map (Expr.mapSpans f)).mapM σ.evalInteger = relocate f id (es.mapM σ.evalInteger) := by
  induction es with
  | nil => rfl
  | cons e es ih =>
    rw [List.map_cons, List.mapM_cons, List.mapM_cons]
    apply bind_relocate (σ.evalInteger_mapSpans f e)
    intro n
    apply bind_relocate ih
    exact fun ns => rfl

theorem evalRhs_mapSpans (v : Rhs) :
    σ.evalRhs (v.mapSpans f) = relocate f id (σ.evalRhs v) := by
  cases v with
  | scalar e => exact σ.eval_mapSpans f e
  | vector es span =>
    rw [Rhs.mapSpans, evalRhs, evalRhs]
    apply bind_relocate (σ.mapM_evalInteger_mapSpans f es)
    exact fun ns => rfl

theorem targetPosition_mapSpans (t : Target) :
    σ.targetPosition (t.mapSpans f) = relocate f id (σ.targetPosition t) := by
  obtain ⟨name, index, span⟩ := t
  cases index with
  | none => rfl
  | some index =>
    apply bind_relocate (σ.evalPosition_mapSpans f index)
    exact fun position => rfl

theorem exchangeable_mapSpans (t : Target) (span : Span) :
    σ.exchangeable (t.mapSpans f) (f span) = relocate f id (σ.exchangeable t span) := by
  unfold exchangeable
  apply bind_relocate (σ.whole_mapSpan f t.name t.span)
  intro v
  cases v <;> rfl

end SymbolTable

/-! Single statements. -/

def TagTable.mapSpans (τ : TagTable) : TagTable :=
  τ.map fun _ body => body.map (Stmt.mapSpans f)

theorem TagTable.getElem?_mapSpans (τ : TagTable) (tag : String) :
    (τ.mapSpans f)[tag]? = τ[tag]?.map (Option.map (Stmt.mapSpans f)) :=
  Std.ExtTreeMap.getElem?_map

theorem TagTable.bind_mapSpans (τ : TagTable) (tag : String) (body : Stmt) :
    (τ.mapSpans f).bind tag (body.mapSpans f) = (τ.bind tag body).mapSpans f := by
  apply Std.ExtTreeMap.ext_getElem?
  intro other
  rw [getElem?_mapSpans, bind, bind, Std.ExtTreeMap.getElem?_insert,
    Std.ExtTreeMap.getElem?_insert, getElem?_mapSpans]
  split <;> rfl

theorem TagTable.declare_mapSpans (τ : TagTable) (tag : String) :
    (τ.mapSpans f).declare tag = (τ.declare tag).mapSpans f := by
  apply Std.ExtTreeMap.ext_getElem?
  intro other
  have same : tag ∈ τ.mapSpans f ↔ tag ∈ τ := Std.ExtTreeMap.mem_map
  rw [getElem?_mapSpans, declare, declare, Std.ExtTreeMap.getElem?_insertIfNew,
    Std.ExtTreeMap.getElem?_insertIfNew, getElem?_mapSpans]
  simp only [same]
  split <;> rfl

namespace Machine

def mapSpans (m : Machine) : Machine :=
  { m with tags := m.tags.mapSpans f }

def retag (g : TagTable → TagTable) (m : Machine) : Machine :=
  { m with tags := g m.tags }

variable (g : TagTable → TagTable) (m : Machine)

/-! Assignment, exchange and printing take no notice of tags. -/

theorem assign_mapSpans (target : Target) (value : Rhs) :
    (m.retag g).assign (target.mapSpans f) (value.mapSpans f) =
      relocate f (retag g) (m.assign target value) := by
  obtain ⟨name, index, span⟩ := target
  cases index with
  | none =>
    apply bind_relocate (m.symbols.evalRhs_mapSpans f value)
    exact fun v => rfl
  | some index =>
    apply bind_relocate (m.symbols.evalPosition_mapSpans f index)
    intro position
    apply bind_relocate (m.symbols.evalRhs_mapSpans f value)
    intro v
    rw [Rhs.span_mapSpans]
    apply bind_relocate (v.asInteger_mapSpan f value.span)
    intro n
    apply bind_relocate (m.symbols.element_mapSpan f name position span)
    exact fun _ => rfl

theorem print_mapSpans (value : Expr) :
    (m.retag g).print (value.mapSpans f) = relocate f (retag g) (m.print value) := by
  apply bind_relocate (m.symbols.eval_mapSpans f value)
  exact fun v => rfl

theorem swap_mapSpans (left right : Target) (span : Span) :
    (m.retag g).swap (left.mapSpans f) (right.mapSpans f) (f span) =
      relocate f (retag g) (m.swap left right span) := by
  apply bind_relocate (m.symbols.targetPosition_mapSpans f left)
  intro leftPosition
  apply bind_relocate (m.symbols.targetPosition_mapSpans f right)
  intro rightPosition
  cases leftPosition with
  | none =>
    cases rightPosition with
    | none =>
      apply bind_relocate (m.symbols.whole_mapSpan f left.name left.span)
      intro a
      apply bind_relocate (m.symbols.whole_mapSpan f right.name right.span)
      exact fun b => rfl
    | some j =>
      apply bind_relocate (m.symbols.exchangeable_mapSpans f left span)
      intro a
      apply bind_relocate (m.symbols.element_mapSpan f right.name j right.span)
      exact fun b => rfl
  | some i =>
    cases rightPosition with
    | none =>
      apply bind_relocate (m.symbols.element_mapSpan f left.name i left.span)
      intro a
      apply bind_relocate (m.symbols.exchangeable_mapSpans f right span)
      exact fun b => rfl
    | some j =>
      apply bind_relocate (m.symbols.element_mapSpan f left.name i left.span)
      intro a
      apply bind_relocate (m.symbols.element_mapSpan f right.name j right.span)
      exact fun b => rfl

theorem bodyOf_mapSpans (tag : String) (span : Span) :
    (m.mapSpans f).bodyOf tag (f span) = relocate f (Stmt.mapSpans f) (m.bodyOf tag span) := by
  have look : (m.mapSpans f).tags[tag]? = m.tags[tag]?.map (Option.map (Stmt.mapSpans f)) :=
    m.tags.getElem?_mapSpans f tag
  unfold bodyOf
  rw [look]
  cases m.tags[tag]? with
  | none => rfl
  | some body =>
    cases body with
    | none => rfl
    | some body =>
      by_cases deep : m.limit ≤ m.depth
      · simp only [Option.map_some, mapSpans, deep, if_true, relocate, Fault.mapSpan]
      · simp only [Option.map_some, mapSpans, deep, if_false, relocate]

end Machine

/-! Runs. -/

def Task.mapSpans : Task → Task
  | perform s => perform (s.mapSpans f)
  | again condition body => again (condition.mapSpans f) (Stmt.mapAllSpans f body)
  | leave => leave

theorem Task.sequence_mapAllSpans (body : List Stmt) :
    sequence (Stmt.mapAllSpans f body) = (sequence body).map (mapSpans f) := by
  rw [sequence, sequence, Stmt.mapAllSpans_eq_map, List.map_map, List.map_map]
  rfl

theorem Task.countP_isLeave_mapSpans (tasks : List Task) :
    (tasks.map (mapSpans f)).countP isLeave = tasks.countP isLeave := by
  rw [List.countP_map]
  apply congrArg (List.countP · tasks)
  funext task
  cases task <;> rfl

def Outcome.mapSpans : Outcome → Outcome
  | done m => done (m.mapSpans f)
  | failed fault m => failed (fault.mapSpan f) (m.mapSpans f)

theorem Outcome.machine_mapSpans (outcome : Outcome) :
    (outcome.mapSpans f).machine = outcome.machine.mapSpans f := by
  cases outcome <;> rfl

theorem Outcome.fault?_mapSpans (outcome : Outcome) :
    (outcome.mapSpans f).fault? = outcome.fault?.map (Fault.mapSpan f) := by
  cases outcome <;> rfl

def Run.mapSpans (r : Run) : Run :=
  ⟨r.tasks.map (Task.mapSpans f), r.machine.mapSpans f⟩

def Progress.mapSpans : Progress → Progress
  | goes r => goes (r.mapSpans f)
  | ends outcome => ends (outcome.mapSpans f)

namespace Run

variable (rest : List Task) (m : Machine)

theorem fail_mapSpans (fault : Fault RuntimeError) :
    fail (rest.map (Task.mapSpans f)) (m.mapSpans f) (fault.mapSpan f) =
      (fail rest m fault).mapSpans f := by
  rw [fail, fail, Task.countP_isLeave_mapSpans]
  rfl

theorem after_mapSpans (result : Checked Machine) :
    after (rest.map (Task.mapSpans f)) (m.mapSpans f)
        (relocate f (Machine.mapSpans f) result) =
      (after rest m result).mapSpans f := by
  cases result with
  | ok m' => rfl
  | error fault => exact fail_mapSpans f rest m fault

theorem branch_mapSpans (condition : Expr) (body other : List Stmt) :
    branch (condition.mapSpans f) (Stmt.mapAllSpans f body) (Stmt.mapAllSpans f other)
        (rest.map (Task.mapSpans f)) (m.mapSpans f) =
      (branch condition body other rest m).mapSpans f := by
  have test : (m.mapSpans f).symbols.evalCondition (condition.mapSpans f) =
      relocate f id (m.symbols.evalCondition condition) :=
    m.symbols.evalCondition_mapSpans f condition
  unfold branch
  rw [test, Task.sequence_mapAllSpans, Task.sequence_mapAllSpans]
  cases m.symbols.evalCondition condition with
  | error fault => exact fail_mapSpans f rest m fault
  | ok b => cases b <;> simp only [relocate, id, Progress.mapSpans, mapSpans, List.map_append]

theorem repeatWhile_mapSpans (condition : Expr) (body : List Stmt) :
    repeatWhile (condition.mapSpans f) (Stmt.mapAllSpans f body)
        (rest.map (Task.mapSpans f)) (m.mapSpans f) =
      (repeatWhile condition body rest m).mapSpans f := by
  have test : (m.mapSpans f).symbols.evalCondition (condition.mapSpans f) =
      relocate f id (m.symbols.evalCondition condition) :=
    m.symbols.evalCondition_mapSpans f condition
  unfold repeatWhile
  rw [test, Task.sequence_mapAllSpans]
  cases m.symbols.evalCondition condition with
  | error fault => exact fail_mapSpans f rest m fault
  | ok b =>
    cases b with
    | false => rfl
    | true =>
      simp only [relocate, id, Progress.mapSpans, mapSpans, List.map_append, List.map_cons]
      rfl

theorem perform_mapSpans (s : Stmt) :
    perform (s.mapSpans f) (rest.map (Task.mapSpans f)) (m.mapSpans f) =
      (perform s rest m).mapSpans f := by
  cases s with
  | assign target value span =>
    exact (congrArg (after _ _) (m.assign_mapSpans f _ target value)).trans
      (after_mapSpans f rest m _)
  | declare tag body span => rfl
  | invoke tag span =>
    rw [Stmt.mapSpans, perform, perform, m.bodyOf_mapSpans f tag span]
    cases m.bodyOf tag span with
    | ok body => rfl
    | error fault => exact fail_mapSpans f rest m fault
  | swap left right span =>
    exact (congrArg (after _ _) (m.swap_mapSpans f _ left right span)).trans
      (after_mapSpans f rest m _)
  | ifThen condition body span => exact branch_mapSpans f rest m condition body []
  | ifElse condition body other span => exact branch_mapSpans f rest m condition body other
  | loop condition body span => exact repeatWhile_mapSpans f rest m condition body
  | print value span =>
    exact (congrArg (after _ _) (m.print_mapSpans f _ value)).trans (after_mapSpans f rest m _)

theorem next_mapSpans (r : Run) : (r.mapSpans f).next = r.next.mapSpans f := by
  obtain ⟨tasks, m⟩ := r
  cases tasks with
  | nil => rfl
  | cons task rest =>
    cases task with
    | perform s => exact perform_mapSpans f rest m s
    | again condition body => exact repeatWhile_mapSpans f rest m condition body
    | leave => rfl

theorem finish_mapSpans (fuel : Nat) (r : Run) :
    (r.mapSpans f).finish fuel = (r.finish fuel).map (Outcome.mapSpans f) := by
  induction fuel generalizing r with
  | zero => rfl
  | succ fuel ih =>
    rw [finish, finish, next_mapSpans]
    cases r.next with
    | goes r' => exact ih r'
    | ends outcome => rfl

end Run

namespace Machine

variable (m : Machine) (p : Program)

theorem load_mapSpans : (m.mapSpans f).load (p.mapSpans f) = (m.load p).mapSpans f := by
  have mentioned (tags : List String) (τ : TagTable) :
      tags.foldl TagTable.declare (τ.mapSpans f) = (tags.foldl TagTable.declare τ).mapSpans f := by
    induction tags generalizing τ with
    | nil => rfl
    | cons tag tags ih => rw [List.foldl_cons, List.foldl_cons, τ.declare_mapSpans, ih]
  have bound (bindings : List Binding) (τ : TagTable) :
      (bindings.map (Binding.mapSpans f)).foldl (fun τ b => τ.bind b.1 b.2) (τ.mapSpans f) =
        (bindings.foldl (fun τ b => τ.bind b.1 b.2) τ).mapSpans f := by
    induction bindings generalizing τ with
    | nil => rfl
    | cons b bindings ih =>
      rw [List.map_cons, List.foldl_cons, List.foldl_cons, ← ih, ← τ.bind_mapSpans]
      rfl
  unfold load
  dsimp only [mapSpans, Program.mapSpans]
  rw [mentioned, bound]

/-- A run depends on spans only in the span of its fault and in the bodies of tags. -/
theorem run_mapSpans (fuel : Nat) :
    (m.mapSpans f).run fuel (p.mapSpans f) = (m.run fuel p).map (Outcome.mapSpans f) := by
  rw [run, run, ← Run.finish_mapSpans, start, start, load_mapSpans]
  unfold Run.ofStatements Run.mapSpans
  rw [← Task.sequence_mapAllSpans]
  rfl

end Machine

end TagScript
