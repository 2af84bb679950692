import TagScript.Proofs.Machine.Displacement
import TagScript.Proofs.Machine.Loading
import TagScript.Proofs.Reading.Declarations

/-! To run a declaration does nothing, for tags get their bodies before the first statement
is run. A program can be stripped of the declarations among its statements and in all of
its blocks, as long as the bindings are kept, and it does the same. Its run is the run of the
program without the steps over declarations. -/
namespace TagScript

def Stmt.isDeclaration : Stmt → Bool
  | declare .. => true
  | assign .. | invoke .. | swap .. | ifThen .. | ifElse .. | loop .. | print .. => false

mutual

def Stmt.stripped : Stmt → Stmt
  | .assign target value span => .assign target value span
  | .declare tag body span => .declare tag body.stripped span
  | .invoke tag span => .invoke tag span
  | .swap left right span => .swap left right span
  | .ifThen condition body span => .ifThen condition (Stmt.allStripped body) span
  | .ifElse condition body other span =>
    .ifElse condition (Stmt.allStripped body) (Stmt.allStripped other) span
  | .loop condition body span => .loop condition (Stmt.allStripped body) span
  | .print value span => .print value span

def Stmt.allStripped : List Stmt → List Stmt
  | [] => []
  | s :: rest =>
    if s.isDeclaration then Stmt.allStripped rest else s.stripped :: Stmt.allStripped rest

end

/-- The program without the declarations among its statements and in its blocks, also in those
of the bodies. It mentions the same tags and binds them as before. -/
def Program.stripped (p : Program) : Program :=
  ⟨Stmt.allStripped p.statements, p.tags,
    p.bindings.map fun binding => (binding.1, binding.2.stripped)⟩

namespace Stmt

mutual

theorem declarations_stripped (s : Stmt) (other : s.isDeclaration = false) :
    s.stripped.declarations = [] := by
  match s with
  | .assign .. | .invoke .. | .swap .. | .print .. => simp only [stripped, declarations]
  | .ifThen _ body _ | .loop _ body _ =>
    simp only [stripped, declarations, allDeclarations_allStripped body]
  | .ifElse _ body other _ =>
    simp only [stripped, declarations, allDeclarations_allStripped body,
      allDeclarations_allStripped other, List.append_nil]

theorem allDeclarations_allStripped (body : List Stmt) :
    allDeclarations (allStripped body) = [] := by
  match body with
  | [] => simp only [allStripped, allDeclarations]
  | s :: rest =>
    unfold allStripped
    split
    next => exact allDeclarations_allStripped rest
    next other =>
      simp only [allDeclarations, allDeclarations_allStripped rest, List.append_nil]
      exact declarations_stripped s (Bool.eq_false_iff.mpr other)

end

mutual

/-- The second statement is the first, maybe without some of the declarations in its blocks. -/
inductive Sheds : Stmt → Stmt → Prop
  | assign {target : Target} {value : Rhs} {span : Span} :
    Sheds (.assign target value span) (.assign target value span)
  | declare {tag : String} {body body' : Stmt} {span : Span} (inner : Sheds body body') :
    Sheds (.declare tag body span) (.declare tag body' span)
  | invoke {tag : String} {span : Span} : Sheds (.invoke tag span) (.invoke tag span)
  | swap {left right : Target} {span : Span} :
    Sheds (.swap left right span) (.swap left right span)
  | ifThen {condition : Expr} {body body' : List Stmt} {span : Span}
      (inner : AllShed body body') :
    Sheds (.ifThen condition body span) (.ifThen condition body' span)
  | ifElse {condition : Expr} {body body' other other' : List Stmt} {span : Span}
      (inner : AllShed body body') (inner' : AllShed other other') :
    Sheds (.ifElse condition body other span) (.ifElse condition body' other' span)
  | loop {condition : Expr} {body body' : List Stmt} {span : Span}
      (inner : AllShed body body') :
    Sheds (.loop condition body span) (.loop condition body' span)
  | print {value : Expr} {span : Span} : Sheds (.print value span) (.print value span)

inductive AllShed : List Stmt → List Stmt → Prop
  | nil : AllShed [] []
  | keep {s s' : Stmt} {rest rest' : List Stmt} (first : Sheds s s')
      (others : AllShed rest rest') : AllShed (s :: rest) (s' :: rest')
  | drop {tag : String} {body : Stmt} {span : Span} {rest rest' : List Stmt}
      (others : AllShed rest rest') : AllShed (.declare tag body span :: rest) rest'

end

mutual

theorem sheds_self (s : Stmt) : s.Sheds s := by
  match s with
  | .assign .. => exact .assign
  | .declare _ body _ => exact .declare (sheds_self body)
  | .invoke .. => exact .invoke
  | .swap .. => exact .swap
  | .ifThen _ body _ => exact .ifThen (allShed_self body)
  | .ifElse _ body other _ => exact .ifElse (allShed_self body) (allShed_self other)
  | .loop _ body _ => exact .loop (allShed_self body)
  | .print .. => exact .print

theorem allShed_self (body : List Stmt) : AllShed body body := by
  match body with
  | [] => exact .nil
  | s :: rest => exact .keep (sheds_self s) (allShed_self rest)

end

mutual

theorem sheds_stripped (s : Stmt) : s.Sheds s.stripped := by
  match s with
  | .assign .. => exact .assign
  | .declare _ body _ => exact .declare (sheds_stripped body)
  | .invoke .. => exact .invoke
  | .swap .. => exact .swap
  | .ifThen _ body _ => exact .ifThen (allShed_allStripped body)
  | .ifElse _ body other _ => exact .ifElse (allShed_allStripped body) (allShed_allStripped other)
  | .loop _ body _ => exact .loop (allShed_allStripped body)
  | .print .. => exact .print

theorem allShed_allStripped (body : List Stmt) : AllShed body (allStripped body) := by
  match body with
  | [] => exact .nil
  | s :: rest =>
    unfold allStripped
    split
    next declares =>
      cases s with
      | declare => exact .drop (allShed_allStripped rest)
      | assign | invoke | swap | ifThen | ifElse | loop | print => simp [isDeclaration] at declares
    next => exact .keep (sheds_stripped s) (allShed_allStripped rest)

end

end Stmt

namespace TagTable

def Sheds (τ τ' : TagTable) : Prop :=
  ∀ tag : String, Option.Rel (Option.Rel Stmt.Sheds) τ[tag]? τ'[tag]?

end TagTable

theorem Binding.last?_stripped (bindings : List Binding) (tag : String) :
    last? (bindings.map fun binding => (binding.1, binding.2.stripped)) tag =
      (last? bindings tag).map Stmt.stripped := by
  induction bindings with
  | nil => rfl
  | cons binding bindings ih =>
    rw [List.map_cons, last?_cons, last?_cons, ih, Option.map_or]
    split <;> rfl

theorem Machine.sheds_load (m : Machine) (p : Program) :
    (m.load p).tags.Sheds (m.load p.stripped).tags := by
  intro tag
  change Option.Rel _ (m.tags.takeUp p)[tag]? (m.tags.takeUp p.stripped)[tag]?
  rw [TagTable.getElem?_takeUp, TagTable.getElem?_takeUp, Program.stripped, Binding.last?_stripped]
  cases Binding.last? p.bindings tag with
  | some body => exact .some (.some body.sheds_stripped)
  | none =>
    simp only [Option.map_none, Option.none_or]
    generalize m.tags[tag]?.or (if tag ∈ p.tags then some none else none) = found
    cases found with
    | none => exact .none
    | some body =>
      cases body with
      | none => exact .some .none
      | some body => exact .some (.some body.sheds_self)

namespace Task

inductive Sheds : Task → Task → Prop
  | perform {s s' : Stmt} (inner : s.Sheds s') : Sheds (perform s) (perform s')
  | again {condition : Expr} {body body' : List Stmt} (inner : Stmt.AllShed body body') :
    Sheds (again condition body) (again condition body')
  | leave : Sheds leave leave

inductive AllShed : List Task → List Task → Prop
  | nil : AllShed [] []
  | keep {task task' : Task} {rest rest' : List Task} (first : Sheds task task')
      (others : AllShed rest rest') : AllShed (task :: rest) (task' :: rest')
  | drop {tag : String} {body : Stmt} {span : Span} {rest rest' : List Task}
      (others : AllShed rest rest') : AllShed (perform (.declare tag body span) :: rest) rest'

theorem Sheds.isLeave_eq {task task' : Task} (h : task.Sheds task') :
    task'.isLeave = task.isLeave := by
  cases h <;> rfl

theorem sheds_self (task : Task) : task.Sheds task := by
  cases task with
  | perform s => exact .perform s.sheds_self
  | again condition body => exact .again (Stmt.allShed_self body)
  | leave => exact .leave

theorem allShed_self (tasks : List Task) : AllShed tasks tasks := by
  induction tasks with
  | nil => exact .nil
  | cons task rest ih => exact .keep task.sheds_self ih

namespace AllShed

variable {tasks tasks' more more' : List Task} {condition : Expr} {body body' : List Stmt}

theorem append (h : AllShed tasks tasks') (others : AllShed more more') :
    AllShed (tasks ++ more) (tasks' ++ more') := by
  induction h with
  | nil => exact others
  | keep first _ ih => exact .keep first ih
  | drop _ ih => exact .drop ih

theorem sequence (h : Stmt.AllShed body body') :
    AllShed (Task.sequence body) (Task.sequence body') := by
  induction body generalizing body' with
  | nil =>
    cases h
    exact .nil
  | cons s rest ih =>
    cases h with
    | keep first others => exact .keep (.perform first) (ih others)
    | drop others => exact .drop (ih others)

theorem again (h : Stmt.AllShed body body') :
    AllShed (Task.sequence body ++ [.again condition body])
      (Task.sequence body' ++ [.again condition body']) :=
  (sequence h).append (.keep (.again h) .nil)

theorem countP_isLeave (h : AllShed tasks tasks') :
    tasks'.countP isLeave = tasks.countP isLeave := by
  induction h with
  | nil => rfl
  | keep first _ ih => rw [List.countP_cons, List.countP_cons, ih, first.isLeave_eq]
  | drop _ ih =>
    rw [List.countP_cons, ih]
    rfl

end AllShed

variable (m : Machine)

theorem effect_sheds_self {task : Task} (g : TagTable → TagTable)
    (other : ∀ tag span, task ≠ perform (.invoke tag span)) :
    Checked.Both (fun x y => AllShed x.1 y.1 ∧ y.2 = x.2.retag g) (task.effect m)
      (task.effect (m.retag g)) := by
  have same := effect_mapSpans id g m other
  rw [mapSpans_id, funext mapSpans_id] at same
  rw [same]
  cases task.effect m with
  | error fault => exact .error fault
  | ok result =>
    apply Checked.Both.ok
    simp only [Prod.map, List.map_id', and_true]
    exact allShed_self result.1

theorem choice_sheds {condition : Expr} {yes yes' no no' : List Task} (g : TagTable → TagTable)
    (of_yes : AllShed yes yes') (of_no : AllShed no no') :
    Checked.Both (fun x y => AllShed x.1 y.1 ∧ y.2 = x.2.retag g) (choice m condition yes no)
      (choice (m.retag g) condition yes' no') := by
  apply Checked.Both.map_of_eq rfl
  intro b
  cases b with
  | true => exact ⟨of_yes, rfl⟩
  | false => exact ⟨of_no, rfl⟩

end Task

theorem Machine.bodyOf_sheds {m : Machine} {τ : TagTable} (sheds : m.tags.Sheds τ) (tag : String)
    (span : Span) :
    Checked.Both Stmt.Sheds (m.bodyOf tag span) ((m.retag fun _ => τ).bodyOf tag span) := by
  have found := sheds tag
  have look : (m.retag fun _ => τ).tags[tag]? = τ[tag]? := rfl
  unfold bodyOf
  rw [look]
  generalize m.tags[tag]? = body, τ[tag]? = body' at found
  cases found with
  | none => exact .error _
  | some inner =>
    cases inner with
    | none => exact .error _
    | some inner =>
      by_cases deep : m.limit ≤ m.depth
      · simp only [retag, deep, if_true]
        exact .error _
      · simp only [retag, deep, if_false]
        exact .ok inner

/-- Tasks alike fail alike, or tasks alike take their places. -/
theorem Task.Sheds.effect {m : Machine} {τ : TagTable} {task task' : Task}
    (h : task.Sheds task') (sheds : m.tags.Sheds τ) :
    Checked.Both (fun x y => AllShed x.1 y.1 ∧ y.2 = x.2.retag fun _ => τ) (task.effect m)
      (task'.effect (m.retag fun _ => τ)) := by
  cases h with
  | leave => exact .ok ⟨.nil, rfl⟩
  | again inner => exact choice_sheds m _ (.again inner) .nil
  | perform inner =>
    cases inner with
    | declare => exact .ok ⟨.nil, rfl⟩
    | ifThen inner => exact choice_sheds m _ (.sequence inner) .nil
    | ifElse inner inner' => exact choice_sheds m _ (.sequence inner) (.sequence inner')
    | loop inner => exact choice_sheds m _ (.again inner) .nil
    | invoke =>
      exact (m.bodyOf_sheds sheds _ _).map fun body body' inner =>
        ⟨.keep (.perform inner) (.keep .leave .nil), rfl⟩
    | assign | swap | print => exact effect_sheds_self m _ nofun

structure Run.Sheds (τ : TagTable) (r r' : Run) : Prop where
  tasks : Task.AllShed r.tasks r'.tasks
  tags : r.machine.tags.Sheds τ
  machine : r'.machine = r.machine.retag fun _ => τ

def Outcome.Retagged (τ : TagTable) (o o' : Outcome) : Prop :=
  o'.fault? = o.fault? ∧ o'.machine = { o.machine with tags := τ }

namespace Run

variable {τ : TagTable} {r r' : Run}

theorem Sheds.catchesUp (h : Sheds τ r r') :
    CatchesUp (Sheds τ) (Outcome.Retagged τ) r r' := by
  obtain ⟨tasks, m⟩ := r
  obtain ⟨tasks', m'⟩ := r'
  obtain ⟨shed, tags, machine_eq⟩ := h
  obtain rfl : m' = m.retag fun _ => τ := machine_eq
  dsimp only at shed tags
  induction shed with
  | nil => exact ⟨⟨[], m⟩, .refl, .ends ⟨rfl, rfl⟩⟩
  | @drop tag body span rest rest' _ ih =>
    obtain ⟨q, reaches, both⟩ := ih
    have step : next ⟨.perform (.declare tag body span) :: rest, m⟩ = .goes ⟨rest, m⟩ := rfl
    exact ⟨q, .head step reaches, both⟩
  | @keep task task' rest rest' first others =>
    refine ⟨⟨task :: rest, m⟩, .refl, ?_⟩
    rw [next_cons, next_cons]
    have both := first.effect tags
    generalize effect_eq : task.effect m = result at both
    generalize task'.effect (m.retag fun _ => τ) = result' at both
    cases both with
    | error fault =>
      rw [resume, resume, fail, fail, others.countP_isLeave]
      exact .ends ⟨rfl, rfl⟩
    | ok related =>
      refine .goes ⟨related.1.append others, ?_, related.2⟩
      rw [(Task.effect_cases effect_eq).grows.tags]
      exact tags

end Run

/-- A program and the program stripped of its declarations go on for ever, or both end: after the
same output, with the same variables, and with the same fault at the same place or with none. -/
theorem Machine.run_stripped (m : Machine) (p : Program) :
    Stmt.allDeclarations p.stripped.statements = [] ∧
      (m.Diverges p ∧ m.Diverges p.stripped ∨
        ∃ o o', m.EndsIn p o ∧ m.EndsIn p.stripped o' ∧ o'.fault? = o.fault? ∧
          o'.machine = { o.machine with tags := (m.load p.stripped).tags }) := by
  have start : Run.Sheds (m.load p.stripped).tags (m.start p) (m.start p.stripped) :=
    ⟨.sequence (Stmt.allShed_allStripped p.statements), m.sheds_load p, rfl⟩
  refine ⟨Stmt.allDeclarations_allStripped p.statements, ?_⟩
  exact Run.alike_of_catchesUp (fun _ _ => Run.Sheds.catchesUp) start

end TagScript
