import TagScript.Proofs.Machine.Heredity
import TagScript.Proofs.Machine.Loading

/-! What lasts. Only assignments and exchanges change variables, so what these leave true
of the variables is true from the first step of a run to the last, and at its end, also when
it fails. What they leave true depends on how the statements are written: those outside
declarations, for to run a declaration does nothing, and those in the bodies of tags that
may be invoked. -/
namespace TagScript

namespace Stmt

mutual

def inBlocks : Stmt → List Stmt
  | .assign .. | .declare .. | .invoke .. | .swap .. | .print .. => []
  | .ifThen _ body _ | .loop _ body _ => Stmt.allInBlocks body
  | .ifElse _ body other _ => Stmt.allInBlocks body ++ Stmt.allInBlocks other

def allInBlocks : List Stmt → List Stmt
  | [] => []
  | s :: rest => s :: (s.inBlocks ++ Stmt.allInBlocks rest)

end

def Everywhere (Q : Stmt → Prop) (s : Stmt) : Prop :=
  ∀ t ∈ s :: s.inBlocks, Q t

instance (Q : Stmt → Prop) [DecidablePred Q] : DecidablePred (Everywhere Q) :=
  fun s => inferInstanceAs (Decidable (∀ t ∈ s :: s.inBlocks, Q t))

variable {Q : Stmt → Prop} {s t : Stmt} {body : List Stmt}

theorem mem_allInBlocks_iff : t ∈ allInBlocks body ↔ ∃ s ∈ body, t ∈ s :: s.inBlocks := by
  induction body with
  | nil => simp [allInBlocks]
  | cons s rest ih => simp [allInBlocks, ih, or_assoc]

theorem Everywhere.here (h : s.Everywhere Q) : Q s :=
  h s List.mem_cons_self

theorem everywhere_of_mem (h : ∀ t ∈ allInBlocks body, Q t) (mem : s ∈ body) : s.Everywhere Q :=
  fun _ inside => h _ (mem_allInBlocks_iff.mpr ⟨s, mem, inside⟩)

theorem inherited_everywhere (Q : Stmt → Prop) : Inherited (Everywhere Q) where
  ifThen h _ mem := everywhere_of_mem (fun t inside => h t (List.mem_cons_of_mem _ inside)) mem
  ifElse h := by
    have inside := (List.forall_mem_cons.mp h).2
    simp only [inBlocks, List.forall_mem_append] at inside
    exact ⟨fun _ => everywhere_of_mem inside.1, fun _ => everywhere_of_mem inside.2⟩
  loop h _ mem := everywhere_of_mem (fun t inside => h t (List.mem_cons_of_mem _ inside)) mem

end Stmt

theorem TagTable.throughout_bind {P : Stmt → Prop} {tag : String} {inner s : Stmt}
    (body : P inner) (here : P s) : ((∅ : TagTable).bind tag inner).Throughout P s := by
  refine ⟨here, fun other found _ bound => ?_⟩
  obtain ⟨-, rfl⟩ : tag = other ∧ inner = found := by simpa [getElem?_bind] using bound
  exact body

/-- It is true of the variables between any two steps of the run, and where it ends. -/
def Run.Always (I : SymbolTable → Prop) (r : Run) : Prop :=
  (∀ r', r.Reaches r' → I r'.machine.symbols) ∧
    ∀ outcome, r.EndsIn outcome → I outcome.machine.symbols

/-- The assignments and the exchanges that have the one property leave the other true. -/
structure SymbolTable.Lasting (Q : Stmt → Prop) (I : SymbolTable → Prop) : Prop where
  assign : ∀ {m m' : Machine} {target : Target} {value : Rhs} {span : Span},
    Q (.assign target value span) → m.assign target value = .ok m' → I m.symbols → I m'.symbols
  swap : ∀ {m m' : Machine} {left right : Target} {span : Span},
    Q (.swap left right span) → m.swap left right span = .ok m' → I m.symbols → I m'.symbols

namespace SymbolTable.Lasting

variable {Q : Stmt → Prop} {I : SymbolTable → Prop} (lasting : Lasting Q I)
include lasting

theorem effect {task : Task} {m m' : Machine} {more : List Task} (holds : task.Holds Q)
    (h : task.effect m = .ok (more, m')) (now : I m.symbols) : I m'.symbols := by
  have of_choice {condition : Expr} {yes no : List Task}
      (h : Task.choice m condition yes no = .ok (more, m')) : I m'.symbols := by
    obtain ⟨b, -, ⟨⟩⟩ := Checked.map_eq_ok_iff.mp h
    exact now
  cases task with
  | again => exact of_choice h
  | leave =>
    cases h
    exact now
  | perform s =>
    cases s with
    | assign =>
      obtain ⟨_, assign_eq, ⟨⟩⟩ := Checked.map_eq_ok_iff.mp h
      exact lasting.assign holds assign_eq now
    | swap =>
      obtain ⟨_, swap_eq, ⟨⟩⟩ := Checked.map_eq_ok_iff.mp h
      exact lasting.swap holds swap_eq now
    | declare =>
      cases h
      exact now
    | invoke =>
      obtain ⟨body, -, ⟨⟩⟩ := Checked.map_eq_ok_iff.mp h
      exact now
    | ifThen | ifElse | loop => exact of_choice h
    | print =>
      obtain ⟨_, print_eq, ⟨⟩⟩ := Checked.map_eq_ok_iff.mp h
      obtain ⟨v, -, ⟨⟩⟩ := Checked.bind_eq_ok_iff.mp print_eq
      exact now

variable {body : List Stmt} {m : Machine}
  (all : ∀ s ∈ body, m.tags.Throughout (Stmt.Everywhere Q) s) (start : I m.symbols)
include all start

theorem of_reaches {r : Run} (h : (Run.ofStatements body m).Reaches r) : I r.machine.symbols := by
  have hereditary := m.tags.hereditary_throughout (Stmt.inherited_everywhere Q)
  induction h with
  | refl => exact start
  | tail reaches step ih =>
    obtain ⟨task, rest, more, tasks_eq, -, effect_eq⟩ := Run.exists_effect step
    have holds := Run.holds_of_reaches hereditary (Task.holds_sequence all) reaches
    rw [tasks_eq] at holds
    have first := holds task List.mem_cons_self
    exact lasting.effect (first.mono fun s everywhere => everywhere.1.here) effect_eq ih

theorem always : (Run.ofStatements body m).Always I := by
  refine ⟨fun r reaches => lasting.of_reaches all start reaches, fun outcome ends => ?_⟩
  obtain ⟨last, reaches, last_eq⟩ := ends.exists_last
  have before := lasting.of_reaches all start reaches
  obtain ⟨-, rfl⟩ | ⟨task, rest, fault, -, -, rfl⟩ := Run.ends_cases last_eq
  · exact before
  · exact before

end SymbolTable.Lasting

end TagScript
