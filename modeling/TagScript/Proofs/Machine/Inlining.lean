import Mathlib
import TagScript.Proofs.Machine.Blame
import TagScript.Proofs.Machine.Invocations
import TagScript.Proofs.Machine.Limit
import TagScript.Proofs.Machine.Loading
import TagScript.Proofs.Machine.Simulation

/-! To invoke a tag is to run its body in place. Where invocations end, because no chain
of them is longer than the limit, a program can be written without them, and it does
the same. -/
namespace TagScript

namespace Stmt

variable (τ : TagTable)

mutual

/-- The second statement is the first with the body of its tag in place of every
invocation that stands outside declarations, and likewise in the bodies. -/
inductive Inlined : Stmt → Stmt → Prop
  | assign {target : Target} {value : Rhs} {span : Span} :
    Inlined (.assign target value span) (.assign target value span)
  | declare {tag : String} {body : Stmt} {span : Span} :
    Inlined (.declare tag body span) (.declare tag body span)
  | invoke {tag : String} {span : Span} {body inlined : Stmt} (bound : τ[tag]? = some (some body))
      (inner : Inlined body inlined) : Inlined (.invoke tag span) inlined
  | swap {left right : Target} {span : Span} :
    Inlined (.swap left right span) (.swap left right span)
  | ifThen {condition : Expr} {body inlined : List Stmt} {span : Span}
      (inner : AllInlined body inlined) :
    Inlined (.ifThen condition body span) (.ifThen condition inlined span)
  | ifElse {condition : Expr} {body other inlined inlined' : List Stmt} {span : Span}
      (inner : AllInlined body inlined) (inner' : AllInlined other inlined') :
    Inlined (.ifElse condition body other span) (.ifElse condition inlined inlined' span)
  | loop {condition : Expr} {body inlined : List Stmt} {span : Span}
      (inner : AllInlined body inlined) :
    Inlined (.loop condition body span) (.loop condition inlined span)
  | print {value : Expr} {span : Span} : Inlined (.print value span) (.print value span)

inductive AllInlined : List Stmt → List Stmt → Prop
  | nil : AllInlined [] []
  | cons {s inlined : Stmt} {rest rest' : List Stmt} (first : Inlined s inlined)
      (others : AllInlined rest rest') : AllInlined (s :: rest) (inlined :: rest')

end

variable {τ}

mutual

theorem Inlined.invocations {s s' : Stmt} (h : Inlined τ s s') : s'.invocations = [] := by
  match h with
  | .assign | .declare | .swap | .print => rfl
  | .invoke _ inner => exact inner.invocations
  | .ifThen inner | .loop inner => exact inner.allInvocations
  | .ifElse inner inner' =>
    rw [Stmt.invocations, inner.allInvocations, inner'.allInvocations]
    rfl

theorem AllInlined.allInvocations {body body' : List Stmt} (h : AllInlined τ body body') :
    Stmt.allInvocations body' = [] := by
  match h with
  | .nil => rfl
  | .cons first others =>
    rw [Stmt.allInvocations, first.invocations, others.allInvocations]
    rfl

end

end Stmt

namespace TagTable

/-- Invocations of these tags find a body each time and, begun at the given depth, do
not nest beyond the limit. -/
structure Fits (τ : TagTable) (depth limit : Nat) (tags : List String) : Prop where
  bound : ∀ tag, τ.Invocable tags tag → ∃ body, τ[tag]? = some (some body)
  short : ∀ chain : List String, chain.IsChain τ.Invokes →
    (∀ first ∈ chain.head?, first ∈ tags) → depth + chain.length ≤ limit

variable {τ : TagTable} {depth limit : Nat} {tags others : List String}

theorem Fits.mono (h : τ.Fits depth limit tags) (sub : ∀ tag ∈ others, tag ∈ tags) :
    τ.Fits depth limit others where
  bound tag invocable := h.bound tag (invocable.mono sub)
  short chain linked first := h.short chain linked fun tag mem => sub tag (first tag mem)

/-- An invocation takes up one level; there is room for it and, above it, for its body. -/
theorem Fits.exists_body (h : τ.Fits depth limit tags) {tag : String} (mem : tag ∈ tags) :
    ∃ body, τ[tag]? = some (some body) ∧ depth < limit ∧
      τ.Fits (depth + 1) limit body.invocations := by
  obtain ⟨body, bound⟩ := h.bound tag (.of_mem mem)
  refine ⟨body, bound, h.short [tag] (.singleton tag) ?_, fun other invocable => ?_, ?_⟩
  · rintro _ ⟨⟩
    exact mem
  · exact h.bound other (invocable.of_body mem bound)
  · intro chain linked first
    have longer := h.short (tag :: chain)
      (linked.cons fun next here => ⟨body, bound, first next here⟩)
      (by rintro _ ⟨⟩; exact mem)
    rw [List.length_cons] at longer
    omega

mutual

theorem Fits.exists_inlined {s : Stmt} {depth : Nat} (h : τ.Fits depth limit s.invocations) :
    ∃ s', s.Inlined τ s' := by
  match s with
  | .assign .. => exact ⟨_, .assign⟩
  | .declare .. => exact ⟨_, .declare⟩
  | .swap .. => exact ⟨_, .swap⟩
  | .print .. => exact ⟨_, .print⟩
  | .invoke tag span =>
    obtain ⟨body, bound, lt, inner⟩ := h.exists_body (List.mem_singleton.mpr rfl)
    obtain ⟨body', inlined⟩ := inner.exists_inlined
    exact ⟨body', .invoke bound inlined⟩
  | .ifThen condition body span =>
    obtain ⟨body', inlined⟩ := h.exists_allInlined body
    exact ⟨_, .ifThen inlined⟩
  | .ifElse condition body other span =>
    obtain ⟨body', inlined⟩ := (h.mono fun _ => List.mem_append_left _).exists_allInlined body
    obtain ⟨other', inlined'⟩ := (h.mono fun _ => List.mem_append_right _).exists_allInlined other
    exact ⟨_, .ifElse inlined inlined'⟩
  | .loop condition body span =>
    obtain ⟨body', inlined⟩ := h.exists_allInlined body
    exact ⟨_, .loop inlined⟩
-- the body of a tag may be larger than its invocation, but there is less room left for it
termination_by (limit - depth, sizeOf s)

theorem Fits.exists_allInlined (body : List Stmt) {depth : Nat}
    (h : τ.Fits depth limit (Stmt.allInvocations body)) :
    ∃ body', Stmt.AllInlined τ body body' := by
  match body with
  | [] => exact ⟨[], .nil⟩
  | s :: rest =>
    obtain ⟨s', first⟩ := Fits.exists_inlined (s := s) (h.mono fun _ => List.mem_append_left _)
    obtain ⟨rest', others⟩ := (h.mono fun _ => List.mem_append_right _).exists_allInlined rest
    exact ⟨s' :: rest', .cons first others⟩
termination_by (limit - depth, sizeOf body)

end

end TagTable

namespace Task

/-- What is left to do with invocations, and without them. The first is at the given
depth; when nothing is left it is back at the base. -/
inductive AllInlined (τ : TagTable) (limit base : Nat) : Nat → List Task → List Task → Prop
  | nil : AllInlined τ limit base base [] []
  | perform {depth : Nat} {s s' : Stmt} {rest rest' : List Task} (inlined : s.Inlined τ s')
      (fits : τ.Fits depth limit s.invocations) (below : AllInlined τ limit base depth rest rest') :
    AllInlined τ limit base depth (perform s :: rest) (perform s' :: rest')
  | again {depth : Nat} {condition : Expr} {body body' : List Stmt} {rest rest' : List Task}
      (inlined : Stmt.AllInlined τ body body')
      (fits : τ.Fits depth limit (Stmt.allInvocations body))
      (below : AllInlined τ limit base depth rest rest') :
    AllInlined τ limit base depth (again condition body :: rest) (again condition body' :: rest')
  | leave {depth : Nat} {rest rest' : List Task}
      (below : AllInlined τ limit base depth rest rest') :
    AllInlined τ limit base (depth + 1) (leave :: rest) rest'

variable {τ : TagTable} {limit base depth : Nat} {rest rest' : List Task}

theorem AllInlined.depth_eq (h : AllInlined τ limit base depth rest rest') :
    depth = base + rest.countP isLeave := by
  induction h with
  | nil => rfl
  | perform _ _ _ ih | again _ _ _ ih => exact ih
  | leave _ ih =>
    rw [List.countP_cons_of_pos rfl, ih]
    rfl

theorem AllInlined.countP_isLeave (h : AllInlined τ limit base depth rest rest') :
    rest'.countP isLeave = 0 := by
  induction h with
  | nil => rfl
  | perform _ _ _ ih | again _ _ _ ih | leave _ ih => exact ih

theorem AllInlined.sequence {body body' : List Stmt} (inlined : Stmt.AllInlined τ body body')
    (fits : τ.Fits depth limit (Stmt.allInvocations body))
    (below : AllInlined τ limit base depth rest rest') :
    AllInlined τ limit base depth (Task.sequence body ++ rest) (Task.sequence body' ++ rest') := by
  induction body generalizing body' with
  | nil =>
    cases inlined
    exact below
  | cons s others ih =>
    cases inlined with
    | cons first inlined =>
      exact .perform first (fits.mono fun _ => List.mem_append_left _)
        (ih inlined (fits.mono fun _ => List.mem_append_right _))

end Task

namespace Run

structure Inlined (τ : TagTable) (limit base : Nat) (r r' : Run) : Prop where
  tags : r.machine.tags = τ
  limit_eq : r.machine.limit = limit
  machine : r'.machine = r.machine.under limit base
  tasks : Task.AllInlined τ limit base r.machine.depth r.tasks r'.tasks

variable {τ : TagTable} {limit base : Nat}

/-- Invocations are entered and left until a task comes first that both runs have. -/
theorem exists_plain_of_inlined {s s' : Stmt} (inlined : s.Inlined τ s') {m : Machine}
    {rest rest' : List Task} (tags : m.tags = τ) (limit_eq : m.limit = limit)
    (fits : τ.Fits m.depth limit s.invocations)
    (below : Task.AllInlined τ limit base m.depth rest rest') :
    ∃ q, Reaches ⟨.perform s :: rest, m⟩ q ∧
      Inlined τ limit base q ⟨.perform s' :: rest', m.under limit base⟩ ∧
      ∀ t ∈ q.tasks.head?, t.Plain := by
  have ready (plain : (Task.perform s).Plain) : ∃ q, Reaches ⟨.perform s :: rest, m⟩ q ∧
      Inlined τ limit base q ⟨.perform s' :: rest', m.under limit base⟩ ∧
      ∀ t ∈ q.tasks.head?, t.Plain := by
    refine ⟨_, .refl, ⟨tags, limit_eq, rfl, .perform inlined fits below⟩, ?_⟩
    rintro _ ⟨⟩
    exact plain
  cases inlined with
  | assign | declare | swap | ifThen | ifElse | loop | print => exact ready trivial
  | @invoke tag span body _ bound inner =>
    obtain ⟨body', bound', lt, inner_fits⟩ := fits.exists_body (List.mem_singleton.mpr rfl)
    cases bound.symm.trans bound'
    have body_eq : m.bodyOf tag span = .ok body := by
      rw [Machine.bodyOf_eq_ok_iff, tags, limit_eq]
      exact ⟨bound, lt⟩
    have step : next ⟨.perform (.invoke tag span) :: rest, m⟩ =
        .goes ⟨.perform body :: .leave :: rest, { m with depth := m.depth + 1 }⟩ := by
      rw [next_cons, Task.effect, body_eq]
      rfl
    obtain ⟨q, reaches, related, plain⟩ := exists_plain_of_inlined inner
      (m := { m with depth := m.depth + 1 }) tags limit_eq inner_fits below.leave
    exact ⟨q, .head step reaches, related, plain⟩

theorem Inlined.exists_plain {r r' : Run} (h : Inlined τ limit base r r') :
    ∃ q, r.Reaches q ∧ Inlined τ limit base q r' ∧ ∀ t ∈ q.tasks.head?, t.Plain := by
  obtain ⟨tasks, m⟩ := r
  obtain ⟨tasks', m'⟩ := r'
  obtain ⟨tags, limit_eq, machine, related⟩ := h
  dsimp only at tags limit_eq machine related
  subst machine
  generalize depth_eq : m.depth = depth at related
  induction related generalizing m with
  | nil => exact ⟨_, .refl, ⟨tags, limit_eq, rfl, depth_eq ▸ .nil⟩, nofun⟩
  | perform inlined fits below =>
    subst depth_eq
    exact exists_plain_of_inlined inlined tags limit_eq fits below
  | again inlined fits below =>
    subst depth_eq
    refine ⟨_, .refl, ⟨tags, limit_eq, rfl, .again inlined fits below⟩, ?_⟩
    rintro _ ⟨⟩
    trivial
  | @leave depth rest rest' below ih =>
    have step : next ⟨.leave :: rest, m⟩ = .goes ⟨rest, { m with depth := m.depth - 1 }⟩ := rfl
    obtain ⟨q, reaches, related, plain⟩ := ih { m with depth := m.depth - 1 } tags limit_eq
      (Nat.sub_eq_of_eq_add depth_eq)
    exact ⟨q, .head step reaches, related, plain⟩

section

variable {m : Machine} {rest rest' : List Task}

/-- The effects of a task that both runs have: the machines stay the same up to the depth,
and what takes the place of the task is the same up to invocations. -/
def Inlined.Step (τ : TagTable) (limit base : Nat) (rest rest' : List Task)
    (x y : List Task × Machine) : Prop :=
  Inlined τ limit base ⟨x.1 ++ rest, x.2⟩ ⟨y.1 ++ rest', y.2⟩

theorem Inlined.changes (tags : m.tags = τ) (limit_eq : m.limit = limit)
    (below : Task.AllInlined τ limit base m.depth rest rest') {result result' : Checked Machine}
    (same : result' = (·.under limit base) <$> result)
    (grows : ∀ m', result = .ok m' → m.Grows m' ∧ m'.depth = m.depth) :
    Checked.Both (Inlined.Step τ limit base rest rest') (([], ·) <$> result)
      (([], ·) <$> result') := by
  subst same
  cases result with
  | error fault => exact .error fault
  | ok m' =>
    obtain ⟨grown, depth⟩ := grows m' rfl
    exact .ok ⟨grown.tags.trans tags, grown.limit.trans limit_eq, rfl, depth.symm ▸ below⟩

theorem Inlined.choice (tags : m.tags = τ) (limit_eq : m.limit = limit) {condition : Expr}
    {yes no yes' no' : List Task}
    (of_yes : Task.AllInlined τ limit base m.depth (yes ++ rest) (yes' ++ rest'))
    (of_no : Task.AllInlined τ limit base m.depth (no ++ rest) (no' ++ rest')) :
    Checked.Both (Inlined.Step τ limit base rest rest') (Task.choice m condition yes no)
      (Task.choice (m.under limit base) condition yes' no') := by
  refine .map_of_eq rfl fun b => ⟨tags, limit_eq, rfl, ?_⟩
  cases b with
  | true => exact of_yes
  | false => exact of_no

theorem Inlined.repeated {condition : Expr} {body body' : List Stmt}
    (inlined : Stmt.AllInlined τ body body')
    (fits : τ.Fits m.depth limit (Stmt.allInvocations body))
    (below : Task.AllInlined τ limit base m.depth rest rest') :
    Task.AllInlined τ limit base m.depth (Task.sequence body ++ [.again condition body] ++ rest)
      (Task.sequence body' ++ [.again condition body'] ++ rest') := by
  rw [List.append_assoc, List.append_assoc]
  exact .sequence inlined fits (.again inlined fits below)

theorem Inlined.effect (tags : m.tags = τ) (limit_eq : m.limit = limit) {s s' : Stmt}
    (plain : (Task.perform s).Plain) (inlined : s.Inlined τ s')
    (fits : τ.Fits m.depth limit s.invocations)
    (below : Task.AllInlined τ limit base m.depth rest rest') :
    Checked.Both (Inlined.Step τ limit base rest rest') ((Task.perform s).effect m)
      ((Task.perform s').effect (m.under limit base)) := by
  cases inlined with
  | invoke => exact plain.elim
  | declare => exact .ok ⟨tags, limit_eq, rfl, below⟩
  | assign =>
    exact changes tags limit_eq below (m.assign_under _ _ _ _) fun _ => Machine.grows_of_assign
  | swap =>
    exact changes tags limit_eq below (m.swap_under _ _ _ _ _) fun _ => Machine.grows_of_swap
  | print =>
    exact changes tags limit_eq below (m.print_under _ _ _) fun _ => Machine.grows_of_print
  | ifThen inner => exact choice tags limit_eq (.sequence inner fits below) below
  | ifElse inner inner' =>
    exact choice tags limit_eq (.sequence inner (fits.mono fun _ => List.mem_append_left _) below)
      (.sequence inner' (fits.mono fun _ => List.mem_append_right _) below)
  | loop inner => exact choice tags limit_eq (repeated inner fits below) below

end

def Inlined.End (o o' : Outcome) : Prop :=
  o' = o ∧ ∀ fault ∈ o.fault?, fault.cause.ofTag = false

theorem Inlined.end_of_error {m : Machine} {task : Task} {rest rest' : List Task}
    (limit_eq : m.limit = limit) (below : Task.AllInlined τ limit base m.depth rest rest')
    (plain : task.Plain) {fault : Fault RuntimeError} (h : task.effect m = .error fault) :
    Inlined.End (.failed fault { m with depth := m.depth - rest.countP Task.isLeave })
      (.failed fault { m.under limit base with depth := base - rest'.countP Task.isLeave }) := by
  constructor
  · rw [below.countP_isLeave, below.depth_eq, Nat.add_sub_cancel, ← limit_eq]
    rfl
  · rintro _ ⟨⟩
    refine Task.ofTag_of_effect_error h ?_
    rintro tag span rfl
    exact plain

theorem Inlined.catchesUp {r r' : Run} (h : Inlined τ limit base r r') :
    CatchesUp (Inlined τ limit base) Inlined.End r r' := by
  obtain ⟨⟨tasks, m⟩, reaches, ⟨tags, limit_eq, machine, related⟩, plain⟩ := h.exists_plain
  refine ⟨_, reaches, ?_⟩
  obtain ⟨tasks', m'⟩ := r'
  dsimp only at tags limit_eq machine related plain
  subst machine
  generalize depth_eq : m.depth = depth at related
  cases related with
  | nil =>
    refine .ends ⟨?_, nofun⟩
    subst depth_eq limit_eq
    rfl
  | perform inlined fits below =>
    subst depth_eq
    rw [next_cons, next_cons]
    have plain := plain _ rfl
    exact resume_both (effect tags limit_eq plain inlined fits below)
      fun fault => end_of_error limit_eq below plain
  | again inlined fits below =>
    subst depth_eq
    rw [next_cons, next_cons]
    exact resume_both (choice tags limit_eq (repeated inlined fits below) below)
      fun fault => end_of_error limit_eq below (show Task.Plain (.again _ _) from trivial)
  | leave => exact (plain _ rfl).elim

end Run

namespace Machine

variable {m : Machine} {p : Program}

/-- A program whose invocations all find a body and never nest beyond the limit does not
fail on account of a tag, and it does what the program without invocations does that
has the bodies in their place. Chains of invocations that are bounded in length leave
no room for tags that invoke themselves or each other. -/
theorem run_inlined
    (bound : ∀ tag, (m.load p).tags.Invocable (Stmt.allInvocations p.statements) tag →
      ∃ body, (m.load p).tags[tag]? = some (some body))
    (short : ∀ chain : List String, chain.IsChain (m.load p).tags.Invokes →
      (∀ first ∈ chain.head?, first ∈ Stmt.allInvocations p.statements) →
      m.depth + chain.length ≤ m.limit) :
    (∃ body, Stmt.AllInlined (m.load p).tags p.statements body) ∧
    ∀ body, Stmt.AllInlined (m.load p).tags p.statements body →
      Stmt.allInvocations body = [] ∧
      (m.Diverges p ∧ m.Diverges { p with statements := body } ∨
        ∃ o, m.EndsIn p o ∧ m.EndsIn { p with statements := body } o ∧
          ∀ fault ∈ o.fault?, fault.cause.ofTag = false) := by
  have fits : (m.load p).tags.Fits m.depth m.limit (Stmt.allInvocations p.statements) :=
    ⟨bound, short⟩
  refine ⟨fits.exists_allInlined p.statements, fun body inlined => ⟨inlined.allInvocations, ?_⟩⟩
  have tasks := Task.AllInlined.sequence inlined fits .nil
  rw [List.append_nil, List.append_nil] at tasks
  have start : Run.Inlined (m.load p).tags m.limit m.depth (m.start p)
      (m.start { p with statements := body }) := ⟨rfl, rfl, rfl, tasks⟩
  obtain diverge | ⟨o, o', ends, ends', rfl, cause⟩ :=
    Run.alike_of_catchesUp (fun _ _ => Run.Inlined.catchesUp) start
  · exact .inl diverge
  · exact .inr ⟨_, ends, ends', cause⟩

/-- A body that is a branch with an invocation in it, and a limit with just enough room.
The fault in the inner body is where it was. -/
theorem run_inlined_nested :
    ∃ (m : Machine) (p : Program) (body : List Stmt) (o : Outcome),
      (∀ tag, (m.load p).tags.Invocable (Stmt.allInvocations p.statements) tag →
        ∃ body, (m.load p).tags[tag]? = some (some body)) ∧
      (∀ chain : List String, chain.IsChain (m.load p).tags.Invokes →
        (∀ first ∈ chain.head?, first ∈ Stmt.allInvocations p.statements) →
        m.depth + chain.length ≤ m.limit) ∧
      Stmt.AllInlined (m.load p).tags p.statements body ∧
      Stmt.allInvocations p.statements = ["a"] ∧ Stmt.allInvocations body = [] ∧
      m.EndsIn p o ∧ m.EndsIn { p with statements := body } o ∧
      o.fault? = some ⟨.undefined "x", ⟨28, 29⟩⟩ := by
  let inner : Stmt := .print (.named "x" ⟨28, 29⟩) ⟨22, 29⟩
  let always : Expr := .boolean true ⟨6, 10⟩
  let outer : Stmt := .ifThen always [.invoke "b" ⟨13, 15⟩] ⟨3, 17⟩
  let m : Machine := { limit := 2 }
  let p : Program := ⟨[.invoke "a" ⟨30, 32⟩], ["a", "b"], [("a", outer), ("b", inner)]⟩
  let body : List Stmt := [.ifThen always [inner] ⟨3, 17⟩]
  have a_bound : (m.load p).tags["a"]? = some (some outer) := by
    simp [m, p, load, TagTable.getElem?_bind]
  have b_bound : (m.load p).tags["b"]? = some (some inner) := by
    simp [m, p, load, TagTable.getElem?_bind]
  have steps {x y : String} : (m.load p).tags.Invokes x y → x = "a" ∧ y = "b" := by
    rintro ⟨found, bound, inside⟩
    rcases bound_of_load bound with here | ⟨-, bound⟩
    · simp only [p, List.mem_cons, List.not_mem_nil, or_false, Prod.mk.injEq] at here
      rcases here with ⟨rfl, rfl⟩ | ⟨rfl, rfl⟩
      · exact ⟨rfl, List.mem_singleton.mp inside⟩
      · cases inside
    · rw [Std.ExtTreeMap.getElem?_empty] at bound
      cases bound
  have bound : ∀ tag, (m.load p).tags.Invocable (Stmt.allInvocations p.statements) tag →
      ∃ body, (m.load p).tags[tag]? = some (some body) := by
    rintro tag ⟨first, mem, path⟩
    cases path with
    | refl =>
      cases List.mem_singleton.mp mem
      exact ⟨outer, a_bound⟩
    | tail _ last =>
      obtain ⟨-, rfl⟩ := steps last
      exact ⟨inner, b_bound⟩
  have short : ∀ chain : List String, chain.IsChain (m.load p).tags.Invokes →
      (∀ first ∈ chain.head?, first ∈ Stmt.allInvocations p.statements) →
      m.depth + chain.length ≤ m.limit := by
    intro chain linked _
    match linked with
    | .nil => exact Nat.zero_le 2
    | .singleton _ => exact Nat.le_succ 1
    | .cons_cons _ (.singleton _) => exact Nat.le_refl 2
    | .cons_cons first (.cons_cons second _) =>
      exact absurd ((steps first).2.symm.trans (steps second).1) (by decide)
  have inlined : Stmt.AllInlined (m.load p).tags p.statements body :=
    .cons (.invoke a_bound (.ifThen (.cons (.invoke b_bound .print) .nil))) .nil
  have run_fault : (m.run 9 p).bind Outcome.fault? = some ⟨.undefined "x", ⟨28, 29⟩⟩ := by cbv
  obtain ⟨o, run_eq, fault_eq⟩ := Option.bind_eq_some_iff.mp run_fault
  obtain ⟨-, same⟩ := run_inlined bound short
  obtain ⟨none_left, ⟨diverges, -⟩ | ⟨o', ends, ends', -⟩⟩ := same body inlined
  · cases run_eq.symm.trans (diverges 9)
  · obtain rfl : o' = o := Run.EndsIn.unique ends ⟨9, run_eq⟩
    exact ⟨m, p, body, o', bound, short, inlined, rfl, none_left, ends, ends', fault_eq⟩

end Machine

end TagScript
