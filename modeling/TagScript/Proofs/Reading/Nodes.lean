import TagScript.Proofs.Reading.Located
import TagScript.Proofs.Syntax.Occurrences
import TagScript.Proofs.Token.Excerpt

/-! The tokens of each node. Every node of a tree is itself a phrase on some of the tokens
of the tree, next to each other, and its span is where these lie. -/
namespace TagScript.Located

open Reading (Level)
open Token (Ordered Framed extent)

/-- Some of the tokens, next to each other, are the phrase. -/
def Somewhere {α : Type} (Phrase : List Token → α → Prop) (us : List Token) (a : α) : Prop :=
  ∃ vs, vs <:+: us ∧ Phrase vs a

section Somewhere

variable {α : Type} {Phrase : List Token → α → Prop} {us vs : List Token} {a : α}

theorem Somewhere.here (h : Phrase us a) : Somewhere Phrase us a :=
  ⟨us, List.infix_rfl, h⟩

theorem Somewhere.mono (h : Somewhere Phrase us a) (sub : us <:+: vs) : Somewhere Phrase vs a := by
  obtain ⟨ws, within, phrase⟩ := h
  exact ⟨ws, within.trans sub, phrase⟩

theorem part_cons (t : Token) (sub : us <:+: vs) : us <:+: t :: vs :=
  sub.trans (List.suffix_cons t vs).isInfix

theorem part_left (us : List Token) (t : Token) (vs : List Token) : us <:+: us ++ t :: vs :=
  (List.prefix_append us _).isInfix

theorem part_right (us : List Token) (t : Token) (vs : List Token) : vs <:+: us ++ t :: vs :=
  ((List.suffix_cons t vs).trans (List.suffix_append us _)).isInfix

theorem part_enclosed (opening : Token) (us : List Token) (close : Token) :
    us <:+: opening :: (us ++ [close]) :=
  part_cons opening (part_left us close [])

end Somewhere

variable {us : List Token}

theorem Arithmetic.comparison {level : Level} {e : Expr} (h : Arithmetic level us e) :
    Comparison us e := by
  cases level with
  | factor => exact .sum (.term (.factor h))
  | term => exact .sum (.term h)
  | sum => exact .sum h

/-! Where the nodes are. -/

section Nodes

variable {vs : List Token}

theorem nodes_combine {sign : Token} {left right : Expr} {op : BinaryOp}
    (whole : Comparison (us ++ sign :: vs) (left.combine op right))
    (before : ∀ n ∈ left.nodes, Somewhere Comparison us n)
    (last : ∀ n ∈ right.nodes, Somewhere Comparison vs n) :
    ∀ n ∈ (left.combine op right).nodes, Somewhere Comparison (us ++ sign :: vs) n := by
  refine List.forall_mem_cons.mpr ⟨.here whole, ?_⟩
  change ∀ n ∈ left.nodes ++ right.nodes, _
  refine List.forall_mem_append.mpr ⟨fun n mem => ?_, fun n mem => ?_⟩
  · exact (before n mem).mono (part_left us sign vs)
  · exact (last n mem).mono (part_right us sign vs)

theorem Arithmetic.nodes {level : Level} {e : Expr} (h : Arithmetic level us e) :
    ∀ n ∈ e.nodes, Somewhere Comparison us n := by
  induction h with
  | integer kind value =>
    exact List.forall_mem_singleton.mpr (.here (Arithmetic.integer kind value).comparison)
  | boolean kind =>
    exact List.forall_mem_singleton.mpr (.here (Arithmetic.boolean kind).comparison)
  | named kind =>
    exact List.forall_mem_singleton.mpr (.here (Arithmetic.named kind).comparison)
  | element kind opens inner closes ih =>
    refine List.forall_mem_cons.mpr ⟨.here (element kind opens inner closes).comparison, ?_⟩
    exact fun n mem => (ih n mem).mono (part_cons _ (part_enclosed _ _ _))
  | @group opening close us e opens inner closes ih =>
    refine List.forall_mem_cons.mpr ⟨.here (group opens inner closes).comparison, ?_⟩
    rw [Expr.inside_withSpan]
    exact fun n mem => (ih n (List.mem_cons_of_mem e mem)).mono (part_enclosed _ _ _)
  | factor _ ih | term _ ih => exact ih
  | product before mem last ih ih' =>
    exact nodes_combine (product before mem last).comparison ih ih'
  | sum before mem last ih ih' => exact nodes_combine (sum before mem last).comparison ih ih'

theorem Comparison.nodes {e : Expr} (h : Comparison us e) :
    ∀ n ∈ e.nodes, Somewhere Comparison us n := by
  induction h with
  | sum first => exact first.nodes
  | compare before mem last ih => exact nodes_combine (.compare before mem last) ih last.nodes

theorem Elements.nodes {es : List Expr} (h : Elements us es) :
    ∀ n ∈ es.flatMap Expr.nodes, Somewhere Comparison us n := by
  induction h with
  | one first =>
    rw [List.flatMap_singleton]
    exact first.nodes
  | @more us vs comma _ _ first _ _ ih =>
    rw [List.flatMap_cons]
    refine List.forall_mem_append.mpr ⟨fun n mem => ?_, fun n mem => ?_⟩
    · exact (first.nodes n mem).mono (part_left us comma vs)
    · exact (ih n mem).mono (part_right us comma vs)

theorem Stored.exprs {v : Rhs} (h : Stored us v) :
    ∀ n ∈ v.exprs, Somewhere Comparison us n := by
  cases h with
  | scalar value => exact value.nodes
  | emptyVector => exact nofun
  | vector _ inner _ => exact fun n mem => (inner.nodes n mem).mono (part_enclosed _ _ _)

theorem Place.exprs {place : Target} (h : Place us place) :
    ∀ n ∈ place.exprs, Somewhere Comparison us n := by
  cases h with
  | whole => exact nofun
  | element _ _ inner _ =>
    exact fun n mem => (inner.nodes n mem).mono (part_cons _ (part_enclosed _ _ _))

theorem Statement.exprs {s : Stmt} (h : Statement us s) :
    ∀ n ∈ s.exprs, Somewhere Comparison us n := by
  cases h with
  | @assign us vs sign _ _ left _ right =>
    refine List.forall_mem_append.mpr ⟨fun n mem => ?_, fun n mem => ?_⟩
    · exact (left.exprs n mem).mono (part_left us sign vs)
    · exact (right.exprs n mem).mono (part_right us sign vs)
  | declare | invoke => exact nofun
  | @swap word us vs _ _ _ first second =>
    refine List.forall_mem_append.mpr ⟨fun n mem => ?_, fun n mem => ?_⟩
    · exact (first.exprs n mem).mono (part_cons word (List.prefix_append us vs).isInfix)
    · exact (second.exprs n mem).mono (part_cons word (List.suffix_append us vs).isInfix)
  | ifThen _ test _ | ifElse _ test _ _ _ | loop _ test _ =>
    exact fun n mem =>
      (test.nodes n mem).mono (part_cons _ (List.prefix_append _ _).isInfix)
  | print _ printed => exact fun n mem => (printed.nodes n mem).mono (List.suffix_cons _ _).isInfix

mutual

theorem Statement.inside {us : List Token} {s : Stmt} (h : Statement us s) :
    ∀ n ∈ s.inside, Somewhere Statement us n := by
  match h with
  | .assign .. | .invoke .. | .swap .. | .print .. => exact nofun
  | .declare _ declared =>
    refine List.forall_mem_cons.mpr ⟨?_, fun n mem => ?_⟩
    · exact (Somewhere.here declared).mono (List.suffix_cons _ _).isInfix
    · exact (declared.inside n mem).mono (List.suffix_cons _ _).isInfix
  | .ifThen _ _ body | .loop _ _ body =>
    exact fun n mem =>
      (body.nodes n mem).mono (part_cons _ (List.suffix_append _ _).isInfix)
  | @Statement.ifElse word otherwise us vs ws _ _ _ _ _ body _ other =>
    refine List.forall_mem_append.mpr ⟨fun n mem => ?_, fun n mem => ?_⟩
    · exact (body.nodes n mem).mono (part_cons word
        ((part_left vs otherwise ws).trans (List.suffix_append us _).isInfix))
    · exact (other.nodes n mem).mono (part_cons word
        ((part_right vs otherwise ws).trans (List.suffix_append us _).isInfix))

theorem Block.nodes {us : List Token} {block : Reading.Block} (h : Block us block) :
    ∀ n ∈ Stmt.allNodes block.body, Somewhere Statement us n := by
  match h with
  | .braces _ inner _ => exact fun n mem => (inner.nodes n mem).mono (part_enclosed _ _ _)

theorem Statements.nodes {us : List Token} {body : List Stmt} (h : Statements us body) :
    ∀ n ∈ Stmt.allNodes body, Somewhere Statement us n := by
  match h with
  | .nil => exact nofun
  | .cons first others =>
    refine List.forall_mem_cons.mpr ⟨?_, List.forall_mem_append.mpr ⟨fun n mem => ?_,
      fun n mem => ?_⟩⟩
    · exact (Somewhere.here first).mono (List.prefix_append _ _).isInfix
    · exact (first.inside n mem).mono (List.prefix_append _ _).isInfix
    · exact (others.nodes n mem).mono (List.suffix_append _ _).isInfix

end

end Nodes

/-! Where the tokens of a phrase lie, which is the span of its tree. -/

section Framed

theorem framed_of_kind {t : Token} {kind : Kind} (h : t.kind = kind)
    (other : kind ≠ .empty ∧ kind ≠ .tag) : Framed [t] t.span :=
  .single (h ▸ other.1) (h ▸ other.2)

theorem opens_of_kind {t : Token} {kind : Kind} (h : t.kind = kind) (visible : kind ≠ .empty) :
    ∃ u ∈ [t].head?, u.kind ≠ .empty :=
  ⟨t, rfl, h ▸ visible⟩

theorem Arithmetic.framed {level : Level} {e : Expr} (h : Arithmetic level us e)
    (ordered : Ordered us) : Framed us e.span := by
  induction h with
  | integer kind | boolean kind | named kind => exact framed_of_kind kind (by decide)
  | @element t opening close us index kind opens inner closes =>
    exact .cover [t] (opening :: us) ordered (opens_of_kind kind (by decide)) rfl
      (framed_of_kind closes (by decide))
  | @group opening close us e opens inner closes =>
    rw [Expr.span_withSpan]
    exact .cover [opening] us ordered (opens_of_kind opens (by decide)) rfl
      (framed_of_kind closes (by decide))
  | factor _ ih | term _ ih => exact ih ordered
  | @product us vs sign _ _ _ _ _ _ ih ih' | @sum us vs sign _ _ _ _ _ _ ih ih' =>
    have first := ih (ordered.part (part_left us sign vs))
    exact .cover us [sign] ordered first.opens first.span_eq
      (ih' (ordered.part (part_right us sign vs)))

theorem Comparison.framed {e : Expr} (h : Comparison us e) (ordered : Ordered us) :
    Framed us e.span := by
  induction h with
  | sum first => exact first.framed ordered
  | @compare us vs sign _ _ _ _ _ last ih =>
    have first := ih (ordered.part (part_left us sign vs))
    exact .cover us [sign] ordered first.opens first.span_eq
      (last.framed (ordered.part (part_right us sign vs)))

theorem Stored.framed {v : Rhs} (h : Stored us v) (ordered : Ordered us) : Framed us v.span := by
  cases h with
  | scalar value => exact value.framed ordered
  | @emptyVector opening close opens closes =>
    exact .cover [opening] [] ordered (opens_of_kind opens (by decide)) rfl
      (framed_of_kind closes (by decide))
  | @vector opening close us _ opens _ closes =>
    exact .cover [opening] us ordered (opens_of_kind opens (by decide)) rfl
      (framed_of_kind closes (by decide))

theorem Place.framed {place : Target} (h : Place us place) (ordered : Ordered us) :
    Framed us place.span := by
  cases h with
  | whole kind => exact framed_of_kind kind (by decide)
  | @element t opening close us index kind opens inner closes =>
    exact .cover [t] (opening :: us) ordered (opens_of_kind kind (by decide)) rfl
      (framed_of_kind closes (by decide))

theorem Block.framed {word : Token} {kind : Kind} {vs : List Token} {block : Reading.Block}
    (h : Block vs block) (ordered : Ordered (word :: (us ++ vs))) (opens : word.kind = kind)
    (visible : kind ≠ .empty) : Framed (word :: (us ++ vs)) (word.span.cover block.close) := by
  obtain @⟨opening, close, ws, body, -, -, closes⟩ := h
  have regroup : word :: (us ++ opening :: (ws ++ [close])) =
      [word] ++ ((us ++ opening :: ws) ++ [close]) := by simp
  rw [regroup] at ordered ⊢
  exact .cover [word] (us ++ opening :: ws) ordered (opens_of_kind opens visible) rfl
    (framed_of_kind closes (by decide))

theorem Statement.framed {us : List Token} {s : Stmt} (h : Statement us s)
    (ordered : Ordered us) : Framed us s.span := by
  cases h with
  | @assign us vs sign _ _ left _ right =>
    have first := left.framed (ordered.part (part_left us sign vs))
    exact .cover us [sign] ordered first.opens first.span_eq
      (right.framed (ordered.part (part_right us sign vs)))
  | @invoke t alone kind ends =>
    have attached := (List.isChain_pair.mp ordered.attached ends).2
    refine ⟨opens_of_kind kind (by decide), ⟨alone, rfl, ?_⟩, ?_⟩
    · rw [ends]
      decide
    · rw [extent, List.getLast?_cons_cons, List.getLast?_singleton, Option.map_some, attached]
      rfl
  | @declare t us body kind declared =>
    exact .cover [t] [] ordered (opens_of_kind kind (by decide)) rfl
      (declared.framed (ordered.part (List.suffix_cons t us).isInfix))
  | @swap word us vs _ _ kind _ second =>
    have within := part_cons word (List.suffix_append us vs).isInfix
    exact .cover [word] us ordered (opens_of_kind kind (by decide)) rfl
      (second.framed (ordered.part within))
  | ifThen kind _ body | loop kind _ body => exact body.framed ordered kind (by decide)
  | @ifElse word otherwise us vs ws _ _ _ kind _ _ _ other =>
    have regroup : us ++ (vs ++ otherwise :: ws) = (us ++ (vs ++ [otherwise])) ++ ws := by simp
    rw [regroup] at ordered ⊢
    exact other.framed ordered kind (by decide)
  | @print word us _ kind printed =>
    exact .cover [word] [] ordered (opens_of_kind kind (by decide)) rfl
      (printed.framed (ordered.part (List.suffix_cons word us).isInfix))

end Framed

end TagScript.Located
