import Mathlib
import TagScript.Proofs.Machine.Loading
import TagScript.Proofs.Reading.Nodes
import TagScript.Proofs.Reading.Shift

/-! Which of its declarations gives a tag its body. The nodes of a program begin in the order
in which they are listed, each before those inside it. Bindings come in another order, for a
declaration is bound where it ends: an inner one before the one around it. So the body is that
of the last declaration, unless this stands inside another one of the same tag. -/
namespace TagScript

namespace Stmt

def nodes (s : Stmt) : List Stmt :=
  s :: s.inside

def InOrder (ns : List Stmt) : Prop :=
  ns.Pairwise fun n other => n.span.start < other.span.start

/-- With each statement there are those inside it. -/
def Closed (ns : List Stmt) : Prop :=
  ∀ n ∈ ns, n.inside ⊆ ns

section Closed

variable {ns others : List Stmt}

theorem Closed.append (first : Closed ns) (second : Closed others) : Closed (ns ++ others) :=
  List.forall_mem_append.mpr
    ⟨fun n mem => List.Subset.trans (first n mem) (List.subset_append_left _ _),
      fun n mem => List.Subset.trans (second n mem) (List.subset_append_right _ _)⟩

theorem Closed.nodes {s : Stmt} (inner : Closed s.inside) : Closed s.nodes :=
  List.forall_mem_cons.mpr ⟨List.subset_cons_self s _,
    fun n mem => List.Subset.trans (inner n mem) (List.subset_cons_self s _)⟩

mutual

theorem closed_inside (s : Stmt) : Closed s.inside := by
  match s with
  | .assign .. | .invoke .. | .swap .. | .print .. => exact nofun
  | .declare _ body _ => exact (closed_inside body).nodes
  | .ifThen _ body _ | .loop _ body _ => exact closed_allNodes body
  | .ifElse _ body other _ => exact (closed_allNodes body).append (closed_allNodes other)

theorem closed_allNodes (body : List Stmt) : Closed (allNodes body) := by
  match body with
  | [] => exact nofun
  | s :: rest => exact (closed_inside s).nodes.append (closed_allNodes rest)

end

end Closed

/-! Declarations among the nodes, and the bindings that come of them. -/

variable {tag : String} {b : Stmt} {span : Span}

mutual

theorem mem_declarations (s : Stmt) (mem : .declare tag b span ∈ s.nodes) :
    (tag, b) ∈ s.declarations := by
  match s with
  | .assign .. | .invoke .. | .swap .. | .print .. => simp [nodes, inside] at mem
  | .declare _ body _ =>
    rcases List.mem_cons.mp mem with here | inner
    · cases here
      exact List.mem_append_right _ (List.mem_singleton_self _)
    · exact List.mem_append_left _ (mem_declarations body inner)
  | .ifThen _ body _ | .loop _ body _ =>
    exact mem_allDeclarations body ((List.mem_cons.mp mem).resolve_left nofun)
  | .ifElse _ body other _ =>
    rcases List.mem_append.mp ((List.mem_cons.mp mem).resolve_left nofun) with first | second
    · exact List.mem_append_left _ (mem_allDeclarations body first)
    · exact List.mem_append_right _ (mem_allDeclarations other second)

theorem mem_allDeclarations (body : List Stmt) (mem : .declare tag b span ∈ allNodes body) :
    (tag, b) ∈ allDeclarations body := by
  match body with
  | [] => cases mem
  | s :: rest =>
    rcases List.mem_append.mp (show _ ∈ s.nodes ++ allNodes rest from mem) with first | later
    · exact List.mem_append_left _ (mem_declarations s first)
    · exact List.mem_append_right _ (mem_allDeclarations rest later)

end

theorem not_mem_of_last? {body : List Stmt}
    (absent : Binding.last? (allDeclarations body) tag = none) (b : Stmt) (span : Span) :
    .declare tag b span ∉ allNodes body := by
  intro mem
  exact Binding.last?_eq_none_iff.mp absent
    (List.mem_map_of_mem (f := Prod.fst) (mem_allDeclarations body mem))

/-- The declaration counts among these statements: it stands inside no other one of the tag,
and each one that begins after it stands inside it. -/
structure Prevails (tag : String) (ns : List Stmt) (b : Stmt) (span : Span) : Prop where
  mem : .declare tag b span ∈ ns
  outermost : ∀ b' span', .declare tag b' span' ∈ ns → .declare tag b span ∉ b'.nodes
  last : ∀ b' span', .declare tag b' span' ∈ ns →
    span'.start ≤ span.start ∨ .declare tag b' span' ∈ b.nodes

/-- No declaration of the tag stands inside another one of it. -/
def Unnested (tag : String) (ns : List Stmt) : Prop :=
  ∀ b span b' span', .declare tag b span ∈ ns → .declare tag b' span' ∉ b.nodes

namespace Prevails

variable {ns others : List Stmt}

theorem mono (h : Prevails tag ns b span) (sub : ns ⊆ others)
    (only : ∀ b' span', .declare tag b' span' ∈ others → .declare tag b' span' ∈ ns) :
    Prevails tag others b span :=
  ⟨sub h.mem, fun b' span' mem => h.outermost b' span' (only b' span' mem),
    fun b' span' mem => h.last b' span' (only b' span' mem)⟩

theorem before (h : Prevails tag ns b span)
    (none : ∀ b' span', .declare tag b' span' ∉ others) : Prevails tag (ns ++ others) b span :=
  h.mono (List.subset_append_left ns others) fun b' span' mem =>
    (List.mem_append.mp mem).resolve_right (none b' span')

theorem cons (h : Prevails tag ns b span) {s : Stmt}
    (other : ∀ b' span', .declare tag b' span' ≠ s) : Prevails tag (s :: ns) b span :=
  h.mono (List.subset_cons_self s ns) fun b' span' mem =>
    (List.mem_cons.mp mem).resolve_left (other b' span')

theorem after (h : Prevails tag others b span) (closed : Closed ns)
    (order : InOrder (ns ++ others)) : Prevails tag (ns ++ others) b span := by
  have earlier : ∀ n ∈ ns, n.span.start < span.start := fun n mem =>
    (List.pairwise_append.mp order).2.2 n mem _ h.mem
  refine ⟨List.mem_append_right _ h.mem, fun b' span' mem => ?_, fun b' span' mem => ?_⟩
  · rcases List.mem_append.mp mem with first | second
    · intro inner
      exact Nat.lt_irrefl _ (earlier _ (closed _ first inner))
    · exact h.outermost b' span' second
  · rcases List.mem_append.mp mem with first | second
    · exact .inl (Nat.le_of_lt (earlier _ first))
    · exact h.last b' span' second

theorem around (order : InOrder (declare tag b span).nodes) :
    Prevails tag (declare tag b span).nodes b span := by
  have outside : .declare tag b span ∉ b.nodes := fun inner =>
    Nat.lt_irrefl _ (List.rel_of_pairwise_cons order inner)
  refine ⟨List.mem_cons_self, fun b' span' mem => ?_, fun b' span' mem => ?_⟩
  · rcases List.mem_cons.mp mem with here | inner
    · cases here
      exact outside
    · exact fun deeper => outside ((closed_inside b).nodes _ inner deeper)
  · rcases List.mem_cons.mp mem with here | inner
    · cases here
      exact .inl (Nat.le_refl _)
    · exact .inr inner

/-- Of two rows the second decides, if it binds the tag at all. -/
theorem exists_append {bindings others' : List Binding} (closed : Closed ns)
    (order : InOrder (ns ++ others))
    (first : Binding.last? bindings tag = some b → ∃ span, Prevails tag ns b span)
    (second : Binding.last? others' tag = some b → ∃ span, Prevails tag others b span)
    (silent : Binding.last? others' tag = none → ∀ b' span', .declare tag b' span' ∉ others)
    (bound : Binding.last? (bindings ++ others') tag = some b) :
    ∃ span, Prevails tag (ns ++ others) b span := by
  rw [Binding.last?_append, Option.or_eq_some_iff] at bound
  rcases bound with later | ⟨absent, earlier⟩
  · obtain ⟨span, h⟩ := second later
    exact ⟨span, h.after closed order⟩
  · obtain ⟨span, h⟩ := first earlier
    exact ⟨span, h.before (silent absent)⟩

end Prevails

mutual

theorem exists_prevails (s : Stmt) (order : InOrder s.nodes)
    (bound : Binding.last? s.declarations tag = some b) : ∃ span, Prevails tag s.nodes b span := by
  match s with
  | .assign .. | .invoke .. | .swap .. | .print .. => cases bound
  | .declare own body span =>
    rw [declarations, Binding.last?_append] at bound
    by_cases same : own = tag
    · subst same
      obtain rfl : body = b := by simpa [Binding.last?] using bound
      exact ⟨span, .around order⟩
    · have inner : Binding.last? body.declarations tag = some b := by
        simpa [Binding.last?, same] using bound
      obtain ⟨span', h⟩ := exists_prevails body order.of_cons inner
      exact ⟨span', h.cons fun _ _ eq => same (Stmt.declare.inj eq).1.symm⟩
  | .ifThen _ body _ | .loop _ body _ =>
    obtain ⟨span', h⟩ := exists_prevails_among body order.of_cons bound
    exact ⟨span', h.cons nofun⟩
  | .ifElse _ body other _ =>
    have order := order.of_cons
    have split := List.pairwise_append.mp order
    obtain ⟨span', h⟩ := Prevails.exists_append (closed_allNodes body) order
      (exists_prevails_among body split.1) (exists_prevails_among other split.2.1)
      not_mem_of_last? bound
    exact ⟨span', h.cons nofun⟩

theorem exists_prevails_among (body : List Stmt) (order : InOrder (allNodes body))
    (bound : Binding.last? (allDeclarations body) tag = some b) :
    ∃ span, Prevails tag (allNodes body) b span := by
  match body with
  | [] => cases bound
  | s :: rest =>
    have split := List.pairwise_append.mp (show InOrder (s.nodes ++ allNodes rest) from order)
    exact Prevails.exists_append (closed_inside s).nodes order (exists_prevails s split.1)
      (exists_prevails_among rest split.2.1) not_mem_of_last? bound

end

end Stmt

/-! Where the nodes of a program begin. -/

/-- In order, and every token but the empty ones has characters. -/
structure Token.Spaced (ts : List Token) : Prop extends Token.Ordered ts where
  wide : ∀ t ∈ ts, t.kind ≠ .empty → t.span.start < t.span.stop

namespace Token

variable {source : String} {us vs ts : List Token}

theorem Spaced.part (spaced : Spaced ts) (sub : us <:+: ts) : Spaced us :=
  ⟨spaced.toOrdered.part sub, fun t mem => spaced.wide t (sub.subset mem)⟩

theorem Spaced.start_lt {t u : Token} (spaced : Spaced (us ++ vs)) (mem : t ∈ us)
    (visible : t.kind ≠ .empty) (mem' : u ∈ vs) : t.span.start < u.span.start := by
  have wide := spaced.wide t (List.mem_append_left vs mem) visible
  have apart := (List.pairwise_append.mp spaced.apart).2.2 t mem u mem'
  omega

theorem spaced_of_scan (scanned : scan source = .ok ts) : Spaced ts := by
  refine ⟨(ordered_of_scan scanned).1, fun t mem shown => ?_⟩
  have kept : t ∈ visible ts := List.mem_filter.mpr ⟨mem, decide_eq_true shown⟩
  exact ((laidOut_of_scan scanned).inside t kept).1

end Token

namespace Located

open Token (Spaced Framed)
open Stmt (InOrder)

variable {us vs : List Token} {s n : Stmt} {ns others : List Stmt}

theorem Statement.start_eq {t : Token} (h : Statement (t :: us) s) (spaced : Spaced (t :: us)) :
    s.span.start = t.span.start := by
  rw [(h.framed spaced.toOrdered).span_eq]
  rfl

theorem exists_opening (h : Somewhere Statement us n) (spaced : Spaced us) :
    ∃ t ∈ us, t.kind ≠ .empty ∧ n.span.start = t.span.start := by
  obtain ⟨vs, sub, located⟩ := h
  have framed := located.framed (spaced.toOrdered.part sub)
  obtain ⟨t, first, visible⟩ := framed.opens
  refine ⟨t, sub.subset (List.mem_of_mem_head? first), visible, ?_⟩
  rw [framed.span_eq, Token.start_extent first]

theorem inOrder_append (spaced : Spaced (us ++ vs)) (first : ∀ n ∈ ns, Somewhere Statement us n)
    (second : ∀ n ∈ others, Somewhere Statement vs n) (order : InOrder ns)
    (order' : InOrder others) : InOrder (ns ++ others) := by
  refine List.pairwise_append.mpr ⟨order, order', fun n mem other mem' => ?_⟩
  obtain ⟨t, t_mem, visible, start_eq⟩ :=
    exists_opening (first n mem) (spaced.part (List.prefix_append us vs).isInfix)
  obtain ⟨u, u_mem, -, start_eq'⟩ :=
    exists_opening (second other mem') (spaced.part (List.suffix_append us vs).isInfix)
  rw [start_eq, start_eq']
  exact spaced.start_lt t_mem visible u_mem

theorem inOrder_cons {t : Token} (spaced : Spaced (t :: us)) (h : Statement (t :: us) s)
    (visible : t.kind ≠ .empty) (inner : ∀ n ∈ ns, Somewhere Statement us n)
    (order : InOrder ns) : InOrder (s :: ns) := by
  refine List.pairwise_cons.mpr ⟨fun n mem => ?_, order⟩
  obtain ⟨u, u_mem, -, start_eq⟩ :=
    exists_opening (inner n mem) (spaced.part (List.suffix_cons t us).isInfix)
  rw [h.start_eq spaced, start_eq]
  rw [← List.singleton_append] at spaced
  exact spaced.start_lt (List.mem_singleton_self t) visible u_mem

theorem Statement.nodes (h : Statement us s) : ∀ n ∈ s.nodes, Somewhere Statement us n :=
  List.forall_mem_cons.mpr ⟨.here h, h.inside⟩

mutual

theorem Statement.inOrder {us : List Token} {s : Stmt} (h : Statement us s) (spaced : Spaced us) :
    InOrder s.nodes := by
  match h with
  | .assign .. | .invoke .. | .swap .. | .print .. => exact List.pairwise_singleton _ _
  | .declare kind declared =>
    have order := declared.inOrder (spaced.part (List.suffix_cons _ _).isInfix)
    exact inOrder_cons spaced (.declare kind declared) (by rw [kind]; decide) declared.nodes order
  | .ifThen kind test body =>
    have order := body.inOrder (spaced.part (part_cons _ (List.suffix_append _ _).isInfix))
    exact inOrder_cons spaced (.ifThen kind test body) (by rw [kind]; decide)
      (fun n mem => (body.nodes n mem).mono (List.suffix_append _ _).isInfix) order
  | .loop kind test body =>
    have order := body.inOrder (spaced.part (part_cons _ (List.suffix_append _ _).isInfix))
    exact inOrder_cons spaced (.loop kind test body) (by rw [kind]; decide)
      (fun n mem => (body.nodes n mem).mono (List.suffix_append _ _).isInfix) order
  | @Statement.ifElse word otherwise us vs ws _ _ _ kind test body kind' other =>
    have within : vs ++ otherwise :: ws <:+: us ++ (vs ++ otherwise :: ws) :=
      (List.suffix_append us _).isInfix
    have spaced' := spaced.part (part_cons word within)
    have second : ∀ n ∈ Stmt.allNodes _, Somewhere Statement (otherwise :: ws) n :=
      fun n mem => (other.nodes n mem).mono (List.suffix_cons otherwise ws).isInfix
    refine inOrder_cons spaced (.ifElse kind test body kind' other) (by rw [kind]; decide)
      (fun n mem => ?_) ?_
    · rcases List.mem_append.mp mem with mem | mem
      · exact (body.nodes n mem).mono ((part_left vs otherwise ws).trans within)
      · exact (other.nodes n mem).mono ((part_right vs otherwise ws).trans within)
    · exact inOrder_append spaced' body.nodes second
        (body.inOrder (spaced'.part (part_left vs otherwise ws)))
        (other.inOrder (spaced'.part (part_right vs otherwise ws)))

theorem Block.inOrder {us : List Token} {block : Reading.Block} (h : Block us block)
    (spaced : Spaced us) : InOrder (Stmt.allNodes block.body) := by
  match h with
  | .braces _ inner _ => exact inner.inOrder (spaced.part (part_enclosed _ _ _))

theorem Statements.inOrder {us : List Token} {body : List Stmt} (h : Statements us body)
    (spaced : Spaced us) : InOrder (Stmt.allNodes body) := by
  match h with
  | .nil => exact List.Pairwise.nil
  | .cons first others =>
    exact inOrder_append spaced first.nodes others.nodes
      (first.inOrder (spaced.part (List.prefix_append _ _).isInfix))
      (others.inOrder (spaced.part (List.suffix_append _ _).isInfix))

end

theorem exists_tag {tag : String} {b : Stmt} {span : Span}
    (h : Somewhere Statement us (.declare tag b span)) (spaced : Spaced us) :
    ∃ t ∈ us, t.kind = .tag ∧ t.text = tag ∧ t.span.start = span.start := by
  obtain ⟨vs, sub, located⟩ := h
  have start_eq := (located.framed (spaced.toOrdered.part sub)).span_eq
  cases located with
  | @declare t _ _ kind declared =>
    refine ⟨t, sub.subset List.mem_cons_self, kind, rfl, ?_⟩
    exact (congrArg Span.start start_eq).symm

end Located

namespace Program

variable {source : String} {ts : List Token} {p : Program} {tag : String}

/-- A tag that a program declares has the body of the last of its declarations that stand in
no other one of it, wherever they stand. That is the one that begins last of all, if none of
them stands inside another. -/
theorem body_of_last_declaration (read : ofSource source = .ok (ts, p)) (m : Machine)
    (declared : ∃ b span, .declare tag b span ∈ Stmt.allNodes p.statements) :
    (∃ b span, (m.load p).tags[tag]? = some (some b) ∧
      Stmt.Prevails tag (Stmt.allNodes p.statements) b span ∧
      (Stmt.Unnested tag (Stmt.allNodes p.statements) →
        ∀ b' span', .declare tag b' span' ∈ Stmt.allNodes p.statements →
          span'.start ≤ span.start)) ∧
    ∀ b span, .declare tag b span ∈ Stmt.allNodes p.statements →
      ∃ t ∈ ts, t.kind = .tag ∧ t.text = tag ∧ t.span.start = span.start := by
  obtain ⟨scanned, accepted⟩ := ofSource_eq_ok_iff.mp read
  obtain ⟨located, p_eq⟩ := ofTokens_eq_ok_iff_located.mp accepted
  have bindings_eq : p.bindings = Stmt.allDeclarations p.statements :=
    congrArg Program.bindings p_eq
  have spaced := Token.spaced_of_scan scanned
  refine ⟨?_, fun b span mem => Located.exists_tag (located.nodes _ mem) spaced⟩
  cases last_eq : Binding.last? p.bindings tag with
  | none =>
    rw [bindings_eq] at last_eq
    obtain ⟨b, span, mem⟩ := declared
    exact absurd mem (Stmt.not_mem_of_last? last_eq b span)
  | some b =>
    have bound : (m.load p).tags[tag]? = some (some b) := by
      change (m.tags.takeUp p)[tag]? = _
      rw [TagTable.getElem?_takeUp, last_eq]
      rfl
    rw [bindings_eq] at last_eq
    obtain ⟨span, prevails⟩ :=
      Stmt.exists_prevails_among p.statements (located.inOrder spaced) last_eq
    exact ⟨b, span, bound, prevails, fun unnested b' span' mem =>
      (prevails.last b' span' mem).resolve_right (unnested b span b' span' prevails.mem)⟩

/-- The last declaration stands in a block that never runs, inside one of another tag. -/
theorem body_of_last_declaration_in_block :
    ∃ ts p, ofSource "@a x = 1\nif false {@b @a x = 2}" = .ok (ts, p) ∧
      (({} : Machine).load p).tags["a"]? =
        some (some (.assign ⟨"x", none, ⟨25, 26⟩⟩ (.scalar (.integer 2 ⟨29, 30⟩)) ⟨25, 30⟩)) := by
  let first : Stmt := .assign ⟨"x", none, ⟨3, 4⟩⟩ (.scalar (.integer 1 ⟨7, 8⟩)) ⟨3, 8⟩
  let last : Stmt := .assign ⟨"x", none, ⟨25, 26⟩⟩ (.scalar (.integer 2 ⟨29, 30⟩)) ⟨25, 30⟩
  let other : Stmt := .declare "b" (.declare "a" last ⟨22, 30⟩) ⟨19, 30⟩
  obtain ⟨ts, p, read, nodes_eq⟩ : ∃ ts p,
      ofSource "@a x = 1\nif false {@b @a x = 2}" = .ok (ts, p) ∧
        Stmt.allNodes p.statements = [.declare "a" first ⟨0, 8⟩, first,
          .ifThen (.boolean false ⟨12, 17⟩) [other] ⟨9, 31⟩, other, .declare "a" last ⟨22, 30⟩,
          last] :=
    ⟨_, _, by cbv, rfl⟩
  have first_mem : .declare "a" first ⟨0, 8⟩ ∈ Stmt.allNodes p.statements := by simp [nodes_eq]
  have last_mem : .declare "a" last ⟨22, 30⟩ ∈ Stmt.allNodes p.statements := by simp [nodes_eq]
  obtain ⟨⟨b, span, bound, prevails, -⟩, -⟩ :=
    body_of_last_declaration read {} ⟨first, ⟨0, 8⟩, first_mem⟩
  have mem := prevails.mem
  simp only [nodes_eq, List.mem_cons, List.not_mem_nil, Stmt.declare.injEq, first, last, other,
    reduceCtorEq, false_or, or_false, true_and] at mem
  rcases mem with ⟨rfl, rfl⟩ | ⟨other, -⟩ | ⟨rfl, -⟩
  · have later := prevails.last last ⟨22, 30⟩ last_mem
    simp [Stmt.nodes, Stmt.inside] at later
  · simp at other
  · exact ⟨ts, p, read, bound⟩

/-- A declaration inside another one of its tag is taken up first, though it begins last. -/
theorem body_of_outer_declaration :
    ∃ ts p body, ofSource "@a @a x = 1\n" = .ok (ts, p) ∧
      .declare "a" (.declare "a" body ⟨3, 11⟩) ⟨0, 11⟩ ∈ Stmt.allNodes p.statements ∧
      .declare "a" body ⟨3, 11⟩ ∈ Stmt.allNodes p.statements ∧
      (∀ b span, .declare "a" b span ∈ Stmt.allNodes p.statements → span.start ≤ 3) ∧
      (({} : Machine).load p).tags["a"]? = some (some (.declare "a" body ⟨3, 11⟩)) ∧
      (({} : Machine).load p).tags["a"]? ≠ some (some body) := by
  let body : Stmt := .assign ⟨"x", none, ⟨6, 7⟩⟩ (.scalar (.integer 1 ⟨10, 11⟩)) ⟨6, 11⟩
  obtain ⟨ts, p, read, nodes_eq, bound⟩ : ∃ ts p, ofSource "@a @a x = 1\n" = .ok (ts, p) ∧
      Stmt.allNodes p.statements = [.declare "a" (.declare "a" body ⟨3, 11⟩) ⟨0, 11⟩,
        .declare "a" body ⟨3, 11⟩, body] ∧
      (({} : Machine).load p).tags["a"]? = some (some (.declare "a" body ⟨3, 11⟩)) :=
    ⟨_, _, by cbv, rfl, rfl⟩
  refine ⟨ts, p, body, read, by simp [nodes_eq], by simp [nodes_eq], fun b span mem => ?_, bound,
    ?_⟩
  · simp only [nodes_eq, List.mem_cons, List.not_mem_nil, Stmt.declare.injEq, body, reduceCtorEq,
      or_false] at mem
    rcases mem with ⟨-, -, rfl⟩ | ⟨-, -, rfl⟩ <;> decide
  · rw [bound]
    simp [body]

end Program

end TagScript
