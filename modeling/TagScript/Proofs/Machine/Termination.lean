import TagScript.Proofs.Machine.Invariants
import TagScript.Proofs.Machine.Loading

/-! Without loops every run ends, whatever the tags invoke. An invocation takes up
some of the room that the limit leaves, and within an invocation the statements
get smaller. -/
namespace TagScript

mutual

/-- There is no loop in the statement, nor in a body that it declares. -/
def Stmt.loopFree : Stmt → Bool
  | .assign _ _ _ | .invoke _ _ | .swap _ _ _ | .print _ _ => true
  | .declare _ body _ => body.loopFree
  | .ifThen _ body _ => Stmt.allLoopFree body
  | .ifElse _ body other _ => Stmt.allLoopFree body && Stmt.allLoopFree other
  | .loop _ _ _ => false

def Stmt.allLoopFree : List Stmt → Bool
  | [] => true
  | s :: rest => s.loopFree && Stmt.allLoopFree rest

end

namespace TagTable

def LoopFree (τ : TagTable) : Prop :=
  ∀ (tag : String) (body : Stmt), τ[tag]? = some (some body) → body.loopFree

theorem loopFree_empty : LoopFree ∅ := by
  intro tag body bound
  rw [Std.ExtTreeMap.getElem?_empty] at bound
  cases bound

theorem LoopFree.bind {τ : TagTable} (h : τ.LoopFree) (tag : String) {body : Stmt}
    (free : body.loopFree) : (τ.bind tag body).LoopFree := by
  intro other body' bound
  rw [getElem?_bind] at bound
  split at bound
  · cases bound
    exact free
  · exact h other body' bound

end TagTable

namespace Machine

theorem loopFree_load {m : Machine} {p : Program} (h : m.tags.LoopFree)
    (bindings : ∀ binding ∈ p.bindings, binding.2.loopFree) : (m.load p).tags.LoopFree := by
  intro tag body bound
  rcases bound_of_load bound with inside | ⟨-, bound⟩
  · exact bindings (tag, body) inside
  · exact h tag body bound

/-- How many more invocations may become active. -/
def room (m : Machine) : Nat :=
  m.limit - m.depth

end Machine

namespace Run

def Ends (r : Run) : Prop :=
  ∃ outcome, r.EndsIn outcome

theorem ends_of_effect {task : Task} {rest : List Task} {m : Machine}
    (h : ∀ more m', task.effect m = .ok (more, m') → Ends ⟨more ++ rest, m'⟩) :
    Ends ⟨task :: rest, m⟩ := by
  cases effect_eq : task.effect m with
  | error fault =>
    refine ⟨.failed fault { m with depth := m.depth - rest.countP Task.isLeave }, .now ?_⟩
    rw [next_cons, effect_eq]
    rfl
  | ok result =>
    obtain ⟨outcome, ends⟩ := h _ _ effect_eq
    refine ⟨outcome, .later ?_ ends⟩
    rw [next_cons, effect_eq]
    rfl

/-- The tasks come to an end wherever what waits for them does: either they fail, or
they hand on a machine that has grown and is at the same depth. -/
def Return (tasks : List Task) (m : Machine) : Prop :=
  ∀ rest, (∀ m', m.Grows m' → m'.depth = m.depth → Ends ⟨rest, m'⟩) → Ends ⟨tasks ++ rest, m⟩

theorem Return.nil (m : Machine) : Return [] m :=
  fun _ waits => waits m (.refl m) rfl

theorem Return.cons {task : Task} {tasks : List Task} {m : Machine} (first : Return [task] m)
    (others : ∀ m', m.Grows m' → m'.depth = m.depth → Return tasks m') :
    Return (task :: tasks) m := by
  intro rest waits
  refine first (tasks ++ rest) fun m' grows depth => ?_
  exact others m' grows depth rest fun m'' grows' depth' =>
    waits m'' (grows.trans grows') (depth'.trans depth)

theorem Return.of_effect {task : Task} {m : Machine}
    (h : ∀ more m', task.effect m = .ok (more, m') →
      m.Grows m' ∧ m'.depth = m.depth ∧ Return more m') : Return [task] m := by
  intro rest waits
  refine ends_of_effect fun more m' effect_eq => ?_
  obtain ⟨grows, depth, returns⟩ := h more m' effect_eq
  exact returns rest fun m'' grows' depth' =>
    waits m'' (grows.trans grows') (depth'.trans depth)

theorem Return.of_grows {task : Task} {m : Machine} {result : Checked Machine}
    (effect_eq : task.effect m = (([], ·) <$> result))
    (grows : ∀ m', result = .ok m' → m.Grows m' ∧ m'.depth = m.depth) : Return [task] m := by
  refine .of_effect fun more m' h => ?_
  obtain ⟨_, result_eq, ⟨⟩⟩ := Checked.map_eq_ok_iff.mp (effect_eq.symm.trans h)
  exact ⟨(grows m' result_eq).1, (grows m' result_eq).2, .nil m'⟩

theorem Return.of_choice {task : Task} {m : Machine} {condition : Expr} {yes no : List Task}
    (effect_eq : task.effect m = Task.choice m condition yes no) (of_yes : Return yes m)
    (of_no : Return no m) : Return [task] m := by
  refine .of_effect fun more m' h => ?_
  obtain ⟨b, -, ⟨⟩⟩ := Checked.map_eq_ok_iff.mp (effect_eq.symm.trans h)
  refine ⟨.refl m, rfl, ?_⟩
  cases b with
  | true => exact of_yes
  | false => exact of_no

theorem Return.of_body {m : Machine} {tag : String} {span : Span}
    (h : ∀ body, m.bodyOf tag span = .ok body →
      Return [.perform body] { m with depth := m.depth + 1 }) :
    Return [.perform (.invoke tag span)] m := by
  intro rest waits
  refine ends_of_effect fun more m' effect_eq => ?_
  obtain ⟨body, bound, ⟨⟩⟩ := Checked.map_eq_ok_iff.mp effect_eq
  refine h body bound (.leave :: rest) fun m' grows depth => ?_
  refine ends_of_effect ?_
  rintro _ _ ⟨⟩
  refine waits _ ⟨grows.tags, grows.limit, grows.output, grows.symbols⟩ ?_
  exact congrArg (· - 1) depth

/-- Bodies return on machines with less room than this. -/
def Deeper (room : Nat) : Prop :=
  ∀ m body, m.room < room → m.tags.LoopFree → body.loopFree → Return [.perform body] m

mutual

theorem return_of_loopFree (s : Stmt) (free : s.loopFree) (m : Machine) (bodies : m.tags.LoopFree)
    (deeper : Deeper m.room) : Return [.perform s] m := by
  match s with
  | .assign target value span => exact .of_grows rfl fun _ => Machine.grows_of_assign
  | .swap left right span => exact .of_grows rfl fun _ => Machine.grows_of_swap
  | .print value span => exact .of_grows rfl fun _ => Machine.grows_of_print
  | .declare tag body span =>
    refine .of_effect ?_
    rintro _ _ ⟨⟩
    exact ⟨.refl m, rfl, .nil m⟩
  | .invoke tag span =>
    refine .of_body fun body bound => ?_
    obtain ⟨bound, lt⟩ := Machine.bodyOf_eq_ok_iff.mp bound
    refine deeper _ body ?_ bodies (bodies tag body bound)
    change m.limit - (m.depth + 1) < m.limit - m.depth
    omega
  | .ifThen condition body span =>
    exact .of_choice rfl (return_of_allLoopFree body free m bodies deeper) (.nil m)
  | .ifElse condition body other span =>
    obtain ⟨body_free, other_free⟩ := Bool.and_eq_true_iff.mp free
    exact .of_choice rfl (return_of_allLoopFree body body_free m bodies deeper)
      (return_of_allLoopFree other other_free m bodies deeper)
  | .loop condition body span => cases free

theorem return_of_allLoopFree (body : List Stmt) (free : Stmt.allLoopFree body) (m : Machine)
    (bodies : m.tags.LoopFree) (deeper : Deeper m.room) : Return (Task.sequence body) m := by
  match body with
  | [] => exact .nil m
  | s :: rest =>
    obtain ⟨first_free, rest_free⟩ := Bool.and_eq_true_iff.mp free
    refine .cons (return_of_loopFree s first_free m bodies deeper) fun m' grows depth => ?_
    have room_eq : m'.room = m.room := by rw [Machine.room, Machine.room, grows.limit, depth]
    refine return_of_allLoopFree rest rest_free m' ?_ ?_
    · rw [grows.tags]
      exact bodies
    · rw [room_eq]
      exact deeper

end

/-- The room is what runs out when tags invoke themselves or each other. -/
theorem deeper_of_loopFree (room : Nat) : Deeper room := by
  induction room using Nat.strongRecOn with
  | ind room ih =>
    intro m body lt bodies free
    exact return_of_loopFree body free m bodies (ih m.room lt)

end Run

namespace Machine

variable {m : Machine} {p : Program}

/-- A program without loops ends on every machine whose tags have none, even if its
tags invoke themselves or each other. -/
theorem ends_of_loopFree (statements : Stmt.allLoopFree p.statements)
    (bindings : ∀ binding ∈ p.bindings, binding.2.loopFree) (bodies : m.tags.LoopFree) :
    ∃ outcome, m.EndsIn p outcome := by
  have returns := Run.return_of_allLoopFree p.statements statements (m.load p)
    (loopFree_load bodies bindings) (Run.deeper_of_loopFree _)
  have ends := returns [] fun m' _ _ => ⟨.done m', .now rfl⟩
  rw [List.append_nil] at ends
  exact ends

/-- Two tags that invoke each other, one of them known from before. -/
theorem ends_of_mutual_invocation :
    ∃ (m : Machine) (p : Program),
      m.tags["a"]? = some (some (.invoke "b" ⟨3, 5⟩)) ∧
      p.bindings = [("b", .ifThen (.boolean true ⟨3, 7⟩) [.invoke "a" ⟨8, 10⟩] ⟨0, 12⟩)] ∧
      Stmt.allLoopFree p.statements ∧ (∀ binding ∈ p.bindings, binding.2.loopFree) ∧
      m.tags.LoopFree ∧ ∃ outcome, m.EndsIn p outcome := by
  let m : Machine := { tags := (∅ : TagTable).bind "a" (.invoke "b" ⟨3, 5⟩) }
  let p : Program :=
    { statements := [.invoke "a" ⟨13, 15⟩]
      tags := ["b", "a"]
      bindings := [("b", .ifThen (.boolean true ⟨3, 7⟩) [.invoke "a" ⟨8, 10⟩] ⟨0, 12⟩)] }
  have bodies : m.tags.LoopFree := TagTable.loopFree_empty.bind "a" rfl
  have bindings : ∀ binding ∈ p.bindings, binding.2.loopFree := by decide
  exact ⟨m, p, rfl, rfl, rfl, bindings, bodies, ends_of_loopFree rfl bindings bodies⟩

end Machine

end TagScript
