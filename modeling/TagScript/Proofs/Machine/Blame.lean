import TagScript.Proofs.Machine.Heredity
import TagScript.Proofs.Syntax.Spanned

/-! What faults blame. A fault in a run blames a span of the statement that failed,
and none but an invocation fails on account of a tag. -/
namespace TagScript

/-- The cause lies with a tag: it is unknown, or has no body, or is invoked too deep. -/
def RuntimeError.ofTag : RuntimeError → Bool
  | undeclaredTag _ | emptyTag _ | tooDeep _ _ => true
  | _ => false

/-- A fault, if there is one, does not lie with a tag and blames a span with the property. -/
def Checked.Blames {α : Type} (P : Span → Prop) (x : Checked α) : Prop :=
  ∀ fault, x = .error fault → fault.cause.ofTag = false ∧ P fault.span

namespace Checked

variable {α β : Type} {P : Span → Prop}

theorem Blames.ok (a : α) : Blames P (.ok a) :=
  nofun

theorem Blames.error {fault : Fault RuntimeError} (cause : fault.cause.ofTag = false)
    (span : P fault.span) : Blames P (.error fault : Checked α) := by
  rintro _ ⟨⟩
  exact ⟨cause, span⟩

theorem Blames.bind {x : Checked α} {f : α → Checked β} (first : Blames P x)
    (step : ∀ a, Blames P (f a)) : Blames P (x >>= f) := by
  cases x with
  | ok a => exact step a
  | error fault =>
    intro fault' h
    exact first fault' (by rw [Except.error.inj h])

theorem Blames.map {x : Checked α} {f : α → β} (h : Blames P x) : Blames P (f <$> x) :=
  fun fault eq => h fault (map_eq_error_iff.mp eq)

end Checked

open Checked

section Values

variable {P : Span → Prop} {span : Span}

theorem Value.blames_asInteger (h : P span) (v : Value) : Blames P (v.asInteger span) := by
  unfold asInteger
  split
  · exact .ok _
  · exact .error rfl h

theorem Value.blames_asCondition (h : P span) (v : Value) : Blames P (v.asCondition span) := by
  unfold asCondition
  split
  · exact .ok _
  · exact .error rfl h

theorem blames_asPosition (h : P span) (n : Int64) : Blames P (asPosition span n) := by
  unfold asPosition
  split
  · exact .error rfl h
  · exact .ok _

theorem blames_checkOverflow (h : P span) (left : Int64) (op : BinaryOp) (right : Int64)
    (n? : Option Int64) : Blames P (checkOverflow span left op right n?) := by
  cases n? with
  | some n => exact .ok _
  | none => exact .error rfl h

theorem BinaryOp.blames_apply (h : P span) (left : Int64) (op : BinaryOp) (right : Int64) :
    Blames P (op.apply span left right) := by
  cases op with
  | add | subtract | multiply => exact blames_checkOverflow h _ _ _ _
  | divide =>
    by_cases zero : right = 0
    · simp only [apply, if_pos zero]
      exact .error rfl h
    · simp only [apply, if_neg zero]
      exact .ok _
  | equal | notEqual | less | greater => exact .ok _

end Values

namespace SymbolTable

variable {P : Span → Prop} {span : Span} (σ : SymbolTable)

theorem blames_whole (h : P span) (name : String) : Blames P (σ.whole name span) := by
  unfold whole
  split
  · exact .ok _
  · exact .error rfl h

theorem blames_element (h : P span) (name : String) (position : Nat) :
    Blames P (σ.element name position span) := by
  unfold element
  split
  · exact .error rfl h
  · split
    · exact .ok _
    · exact .error rfl h
  · exact .error rfl h

theorem blames_eval {e : Expr} (h : e.Spanned P) : Blames P (σ.eval e) := by
  induction e with
  | integer | boolean => exact .ok _
  | named name span => exact σ.blames_whole h name
  | element name index span ih =>
    rw [eval]
    refine .bind (ih h.1) fun v => .bind (v.blames_asInteger h.1.span) fun n => ?_
    refine .bind (blames_asPosition h.1.span n) fun position => ?_
    exact .bind (σ.blames_element h.2 name position) fun _ => .ok _
  | binary left op right span left_ih right_ih =>
    rw [eval]
    refine .bind (left_ih h.1) fun v => .bind (v.blames_asInteger h.1.span) fun a => ?_
    refine .bind (right_ih h.2.1) fun w => .bind (w.blames_asInteger h.2.1.span) fun b => ?_
    exact op.blames_apply h.2.2 a b

theorem blames_evalInteger {e : Expr} (h : e.Spanned P) : Blames P (σ.evalInteger e) :=
  .bind (σ.blames_eval h) fun v => v.blames_asInteger h.span

theorem blames_evalCondition {e : Expr} (h : e.Spanned P) : Blames P (σ.evalCondition e) :=
  .bind (σ.blames_eval h) fun v => v.blames_asCondition h.span

theorem blames_evalPosition {e : Expr} (h : e.Spanned P) : Blames P (σ.evalPosition e) :=
  .bind (σ.blames_evalInteger h) fun n => blames_asPosition h.span n

theorem blames_mapM_evalInteger {es : List Expr} (h : ∀ e ∈ es, e.Spanned P) :
    Blames P (es.mapM σ.evalInteger) := by
  induction es with
  | nil => exact .ok _
  | cons e es ih =>
    rw [List.mapM_cons]
    refine .bind (σ.blames_evalInteger (h e List.mem_cons_self)) fun n => ?_
    exact .bind (ih fun e' mem => h e' (List.mem_cons_of_mem e mem)) fun _ => .ok _

theorem blames_evalRhs {v : Rhs} (h : v.Spanned P) : Blames P (σ.evalRhs v) := by
  cases v with
  | scalar e => exact σ.blames_eval h
  | vector es span => exact .bind (σ.blames_mapM_evalInteger h.1) fun _ => .ok _

theorem blames_targetPosition {t : Target} (h : t.Spanned P) : Blames P (σ.targetPosition t) := by
  obtain ⟨name, index, span⟩ := t
  cases index with
  | none => exact .ok _
  | some index => exact .bind (σ.blames_evalPosition (h.1 index rfl)) fun _ => .ok _

theorem blames_exchangeable {t : Target} (h : t.Spanned P) (h' : P span) :
    Blames P (σ.exchangeable t span) := by
  refine .bind (σ.blames_whole h.2 t.name) fun v => ?_
  cases v with
  | integer | real => exact .ok _
  | boolean | vector => exact .error rfl h'

end SymbolTable

namespace Machine

variable {P : Span → Prop} (m : Machine)

theorem blames_assign {target : Target} {value : Rhs} (ht : target.Spanned P)
    (hv : value.Spanned P) : Blames P (m.assign target value) := by
  obtain ⟨name, index, span⟩ := target
  cases index with
  | none => exact .bind (m.symbols.blames_evalRhs hv) fun _ => .ok _
  | some index =>
    refine .bind (m.symbols.blames_evalPosition (ht.1 index rfl)) fun position => ?_
    refine .bind (m.symbols.blames_evalRhs hv) fun v => ?_
    refine .bind (v.blames_asInteger hv.span) fun n => ?_
    exact .bind (m.symbols.blames_element ht.2 name position) fun _ => .ok _

theorem blames_swap {left right : Target} {span : Span} (hl : left.Spanned P)
    (hr : right.Spanned P) (hs : P span) : Blames P (m.swap left right span) := by
  refine .bind (m.symbols.blames_targetPosition hl) fun leftPosition => ?_
  refine .bind (m.symbols.blames_targetPosition hr) fun rightPosition => ?_
  cases leftPosition with
  | none =>
    cases rightPosition with
    | none =>
      refine .bind (m.symbols.blames_whole hl.2 left.name) fun a => ?_
      exact .bind (m.symbols.blames_whole hr.2 right.name) fun b => .ok _
    | some j =>
      refine .bind (m.symbols.blames_exchangeable hl hs) fun a => ?_
      exact .bind (m.symbols.blames_element hr.2 right.name j) fun b => .ok _
  | some i =>
    have first := m.symbols.blames_element hl.2 left.name i
    cases rightPosition with
    | none => exact .bind first fun a => .bind (m.symbols.blames_exchangeable hr hs) fun b => .ok _
    | some j =>
      exact .bind first fun a => .bind (m.symbols.blames_element hr.2 right.name j) fun b => .ok _

theorem blames_print {value : Expr} (h : value.Spanned P) : Blames P (m.print value) :=
  .bind (m.symbols.blames_eval h) fun _ => .ok _

theorem span_of_bodyOf_error {tag : String} {span : Span} {fault : Fault RuntimeError}
    (h : m.bodyOf tag span = .error fault) : fault.span = span := by
  unfold bodyOf at h
  split at h
  · cases h
    rfl
  · cases h
    rfl
  · split at h
    · cases h
      rfl
    · cases h

end Machine

namespace Task

variable {P : Span → Prop} {m : Machine} {task : Task} {fault : Fault RuntimeError}

theorem blames_choice {condition : Expr} {yes no : List Task} (h : condition.Spanned P) :
    Blames P (choice m condition yes no) :=
  .map (m.symbols.blames_evalCondition h)

/-- Invocations fail on account of their tag; what else fails does not. -/
theorem blames_effect (holds : task.Holds (Stmt.Spanned P)) (h : task.effect m = .error fault) :
    P fault.span ∧ (fault.cause.ofTag = false ∨
      ∃ tag span, task = perform (.invoke tag span) ∧ m.bodyOf tag span = .error fault) := by
  have of_blames (blames : Blames P (task.effect m)) :
      P fault.span ∧ (fault.cause.ofTag = false ∨
        ∃ tag span, task = perform (.invoke tag span) ∧ m.bodyOf tag span = .error fault) :=
    ⟨(blames fault h).2, .inl (blames fault h).1⟩
  cases task with
  | leave => cases h
  | again condition body =>
    obtain ⟨span, holds⟩ := holds
    exact of_blames (blames_choice holds.1)
  | perform s =>
    cases s with
    | declare => cases h
    | invoke tag span =>
      have failed := map_eq_error_iff.mp h
      rw [m.span_of_bodyOf_error failed]
      exact ⟨holds, .inr ⟨tag, span, rfl, failed⟩⟩
    | assign => exact of_blames (.map (m.blames_assign holds.1 holds.2.1))
    | swap => exact of_blames (.map (m.blames_swap holds.1 holds.2.1 holds.2.2))
    | print => exact of_blames (.map (m.blames_print holds.1))
    | ifThen | ifElse | loop => exact of_blames (blames_choice holds.1)

theorem ofTag_of_effect_error (h : task.effect m = .error fault)
    (other : ∀ tag span, task ≠ perform (.invoke tag span)) : fault.cause.ofTag = false := by
  have holds : task.Holds (Stmt.Spanned fun _ => True) := by
    cases task with
    | perform s => exact Stmt.spanned_iff.mpr fun _ _ => trivial
    | again condition body => exact ⟨condition.span, Stmt.spanned_iff.mpr fun _ _ => trivial⟩
    | leave => trivial
  obtain ⟨-, cause | ⟨tag, span, task_eq, -⟩⟩ := blames_effect holds h
  · exact cause
  · exact absurd task_eq (other tag span)

end Task

theorem Stmt.inherited_spanned (P : Span → Prop) : Stmt.Inherited (Stmt.Spanned P) where
  ifThen h := Stmt.allSpanned_iff.mp h.2.1
  ifElse h := ⟨Stmt.allSpanned_iff.mp h.2.1, Stmt.allSpanned_iff.mp h.2.2.1⟩
  loop h := Stmt.allSpanned_iff.mp h.2.1

/-- A fault blames a span of the statements that are run, or of a body that they may come
to invoke. -/
theorem Run.blamed_of_ends {P : Span → Prop} {m : Machine} {statements : List Stmt}
    (spanned : Stmt.AllSpanned P statements)
    (bodies : ∀ tag body, m.tags.Invocable (Stmt.allInvocations statements) tag →
      m.tags[tag]? = some (some body) → body.Spanned P)
    {outcome : Outcome} (ends : (ofStatements statements m).EndsIn outcome)
    {fault : Fault RuntimeError} (failed : fault ∈ outcome.fault?) : P fault.span := by
  have holds : ∀ t ∈ Task.sequence statements, t.Holds (m.tags.Throughout (Stmt.Spanned P)) := by
    refine Task.holds_sequence fun s mem => ⟨Stmt.allSpanned_iff.mp spanned s mem, ?_⟩
    intro tag body invocable
    exact bodies tag body
      (invocable.mono fun _ here => Stmt.mem_allInvocations_iff.mpr ⟨s, mem, here⟩)
  obtain ⟨task, m', holds, -, effect_eq⟩ := Run.exists_failed
    (m.tags.hereditary_throughout (Stmt.inherited_spanned P)) holds ends failed
  exact (Task.blames_effect (holds.mono fun _ => And.left) effect_eq).1

end TagScript
