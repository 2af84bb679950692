import TagScript.Proofs.Reading.Declarations
import TagScript.Proofs.Syntax.Spanned
import TagScript.Proofs.Token.Layout

/-! Where the spans of a tree come from. Each is the span of a token or covers the spans
of two, and empty tokens give none. So a property of the other tokens that holds of a
cover with its parts is handed on to the tree: all its spans lie in the text. -/
namespace TagScript

namespace Span

def Within (text : String) (s : Span) : Prop :=
  s.start < s.stop ∧ s.stop ≤ text.length

variable {text : String} {a b : Span}

theorem Within.cover (ha : a.Within text) (hb : b.Within text) : (a.cover b).Within text := by
  simp only [Within, Span.cover] at *
  omega

theorem Within.clampTo_eq (h : a.Within text) : a.clampTo text.length = a := by
  obtain ⟨start, stop⟩ := a
  simp only [Within, clampTo, mk.injEq] at *
  omega

end Span

namespace Reading

def Sited (P : Span → Prop) (ts : List Token) : Prop :=
  ∀ t ∈ ts, t.kind ≠ .empty → P t.span

/-- What is read, if it is, is as it should be, and the tokens left have the property. -/
def Attempt.Sites {α : Type} {n : Nat} (P : Span → Prop) (Spanned : α → Prop)
    (x : Attempt (Parsed α n)) : Prop :=
  ∀ p, x.result = .ok p → Spanned p.value ∧ Sited P p.rest

variable {P : Span → Prop} {t : Token} {ts : List Token}

theorem Sited.head (h : Sited P (t :: ts)) (visible : t.kind ≠ .empty) : P t.span :=
  h t List.mem_cons_self visible

theorem Sited.tail (h : Sited P (t :: ts)) : Sited P ts :=
  fun other mem => h other (List.mem_cons_of_mem t mem)

theorem Sited.of_accept? {kind : Kind} {p : Parsed Token ts.length} (h : Sited P ts)
    (accepted : accept? kind ts = some p) : Sited P p.rest := by
  rw [(accept?_eq_some accepted).1] at h
  exact h.tail

namespace Attempt

variable {α β : Type} {m n : Nat} {S : α → Prop} {T : β → Prop}

theorem Sites.pure {p : Parsed α n} (value : S p.value) (rest : Sited P p.rest) :
    Sites P S (Pure.pure p) := by
  rintro _ ⟨⟩
  exact ⟨value, rest⟩

theorem Sites.fail (cause : ParseError) (site : Option Span) :
    Sites P S (Attempt.fail cause site : Attempt (Parsed α n)) :=
  nofun

theorem Sites.bind {x : Attempt (Parsed α m)} {f : Parsed α m → Attempt (Parsed β n)}
    (first : Sites P S x) (step : ∀ p, S p.value → Sited P p.rest → Sites P T (f p)) :
    Sites P T (x >>= f) := by
  intro q read
  obtain ⟨p, first_read, read⟩ := result_bind_eq_ok_iff.mp read
  obtain ⟨value, rest⟩ := first p first_read
  exact step p value rest q read

theorem Sites.note {x : Attempt Unit} {f : Unit → Attempt (Parsed β n)}
    (step : Sites P T (f ())) : Sites P T (x >>= f) := by
  intro q read
  obtain ⟨⟨⟩, -, read⟩ := result_bind_eq_ok_iff.mp read
  exact step q read

end Attempt

open Attempt

theorem sites_expect (expected : Expected) (h : Sited P ts) :
    Sites P (fun t : Token => P t.span) (expect expected ts) := by
  intro p read
  obtain ⟨ts_eq, kind⟩ := expect_eq_ok read
  rw [ts_eq] at h
  refine ⟨h.head ?_, h.tail⟩
  rw [kind]
  cases expected <;> nofun

theorem sites_many {stops : Kind → Bool} {bound : Nat}
    {item : (ts : List Token) → ts.length < bound → Attempt (Parsed Stmt ts.length)}
    (item_sites : ∀ ts h, Sited P ts → Sites P (Stmt.Spanned P) (item ts h))
    (h : ts.length < bound) (sited : Sited P ts) :
    Sites P (Stmt.AllSpanned P) (many stops item ts h) := by
  fun_induction many stops item ts h with
  | case1 | case2 => exact .pure trivial sited
  | case3 t ts h _ _ ih =>
    refine .bind (item_sites _ _ sited) fun first spanned rest => ?_
    exact .bind (ih first rest) fun others spanned' rest => .pure ⟨spanned, spanned'⟩ rest

theorem sites_block {owner : BlockOwner} {bound : Nat}
    {item : (ts : List Token) → ts.length < bound → Attempt (Parsed Stmt ts.length)}
    (item_sites : ∀ ts h, Sited P ts → Sites P (Stmt.Spanned P) (item ts h))
    (h : ts.length < bound) (sited : Sited P ts) :
    Sites P (fun b : Block => Stmt.AllSpanned P b.body ∧ P b.close) (block owner item ts h) := by
  refine .bind (sites_expect _ sited) fun opening _ rest => ?_
  refine .bind (sites_many item_sites _ rest) fun body spanned rest => ?_
  exact .bind (sites_expect _ rest) fun close closing rest => .pure ⟨spanned, closing⟩ rest

variable (covers : ∀ a b, P a → P b → P (a.cover b))

include covers

theorem sites_chain {operator? : Kind → Option BinaryOp} {bound : Nat}
    {operand : (ts : List Token) → ts.length < bound → Attempt (Parsed Expr ts.length)}
    (operand_sites : ∀ ts h, Sited P ts → Sites P (Expr.Spanned P) (operand ts h)) {left : Expr}
    (spanned : left.Spanned P) (h : ts.length < bound) (sited : Sited P ts) :
    Sites P (Expr.Spanned P) (chain operator? operand left ts h) := by
  fun_induction chain operator? operand left ts h with
  | case1 | case2 => exact .pure spanned sited
  | case3 left t ts h op operator opens _ ih =>
    refine .bind (operand_sites ts _ sited.tail) fun right spanned' sited' => ?_
    exact ih right ⟨spanned, spanned', covers _ _ spanned.span spanned'.span⟩ sited'
  | case4 => exact .fail _ _

theorem sites_arithmetic (level : Level) (ts : List Token) (sited : Sited P ts) :
    Sites P (Expr.Spanned P) (arithmetic level ts) := by
  induction level, ts using arithmetic.induct with
  | case1 ts first operand | case2 ts first operand =>
    rw [arithmetic]
    refine .note (.bind (first sited) fun e spanned rest => ?_)
    exact sites_chain covers operand spanned _ rest
  | case3 =>
    rw [arithmetic]
    exact .note (.fail _ _)
  | case4 t ts index group =>
    rw [arithmetic]
    refine .note ?_
    split
    case _ kind =>
      split
      · exact .pure (sited.head (by rw [kind]; decide)) sited.tail
      · exact .fail _ _
    case _ kind => exact .pure (sited.head (by rw [kind]; decide)) sited.tail
    case _ kind =>
      have here : P t.span := sited.head (by rw [kind]; decide)
      split
      · exact .pure here sited.tail
      case _ opening accepted =>
        refine .bind (index opening (sited.tail.of_accept? accepted)) fun e spanned rest => ?_
        refine .bind (sites_expect _ rest) fun close closing rest' => ?_
        exact .pure ⟨spanned, covers _ _ here closing⟩ rest'
    case _ kind =>
      have here : P t.span := sited.head (by rw [kind]; decide)
      refine .bind (group sited.tail) fun e spanned rest => ?_
      refine .bind (sites_expect _ rest) fun close closing rest' => ?_
      exact .pure (spanned.withSpan (covers _ _ here closing)) rest'
    case _ => exact .fail _ _
    case _ => exact .fail _ _

theorem sites_comparison (sited : Sited P ts) : Sites P (Expr.Spanned P) (comparison ts) := by
  refine .note (.bind (sites_arithmetic covers .sum ts sited) fun e spanned rest => ?_)
  exact sites_chain covers (fun ts _ => sites_arithmetic covers .sum ts) spanned _ rest

theorem sites_target (use : TargetUse) (sited : Sited P ts) :
    Sites P (Target.Spanned P) (target use ts) := by
  refine .bind (sites_expect _ sited) fun name here rest => ?_
  split
  · exact .pure ⟨nofun, here⟩ rest
  case _ opening accepted =>
    have inside := rest.of_accept? accepted
    refine .bind (sites_arithmetic covers .sum _ inside) fun e spanned rest => ?_
    refine .bind (sites_expect _ rest) fun close closing rest => ?_
    refine .pure ⟨?_, covers _ _ here closing⟩ rest
    rintro _ ⟨⟩
    exact spanned

theorem sites_commaList (ts : List Token) (sited : Sited P ts) :
    Sites P (fun es => ∀ e ∈ es, Expr.Spanned P e) (commaList ts) := by
  induction ts using commaList.induct with
  | case1 ts others =>
    rw [commaList]
    refine .bind (sites_arithmetic covers .sum ts sited) fun first spanned rest => ?_
    split
    · exact .pure (by simpa [Parsed.map] using spanned) rest
    case _ comma accepted =>
      refine .bind (others first comma (rest.of_accept? accepted)) fun more spanned' rest => ?_
      exact .pure (List.forall_mem_cons.mpr ⟨spanned, spanned'⟩) rest

theorem sites_vector {opening : Token} (here : P opening.span) (sited : Sited P ts) :
    Sites P (Rhs.Spanned P) (vector opening ts) := by
  refine .note ?_
  split
  case _ close accepted =>
    obtain ⟨ts_eq, kind⟩ := accept?_eq_some accepted
    rw [ts_eq] at sited
    have closing : P close.value.span := sited.head (by rw [kind]; decide)
    exact .pure ⟨List.forall_mem_nil _, covers _ _ here closing⟩ sited.tail
  · refine .bind (sites_commaList covers ts sited) fun elements spanned rest => ?_
    refine .bind (sites_expect _ rest) fun close closing rest => ?_
    exact .pure ⟨spanned, covers _ _ here closing⟩ rest

theorem sites_rhs (sited : Sited P ts) : Sites P (Rhs.Spanned P) (rhs ts) := by
  unfold rhs
  split
  case _ opening accepted =>
    obtain ⟨ts_eq, kind⟩ := accept?_eq_some accepted
    rw [ts_eq] at sited
    have here : P opening.value.span := sited.head (by rw [kind]; decide)
    exact .bind (sites_vector covers here sited.tail) fun _ value rest => .pure value rest
  · exact .bind (sites_arithmetic covers .sum ts sited) fun _ value rest => .pure value rest

theorem sites_assignment (sited : Sited P ts) : Sites P (Stmt.Spanned P) (assignment ts) := by
  refine .note (.bind (sites_target covers _ sited) fun place place_spanned rest => ?_)
  refine .bind (sites_expect _ rest) fun sign _ rest => ?_
  refine .bind (sites_rhs covers rest) fun value value_spanned rest => ?_
  exact .pure ⟨place_spanned, value_spanned, covers _ _ place_spanned.2 value_spanned.span⟩ rest

theorem sites_exchange {word : Token} (here : P word.span) (sited : Sited P ts) :
    Sites P (Stmt.Spanned P) (exchange word ts) := by
  refine .note (.bind (sites_target covers _ sited) fun left left_spanned rest => ?_)
  refine .bind (sites_target covers _ rest) fun right right_spanned rest => ?_
  exact .pure ⟨left_spanned, right_spanned, covers _ _ here right_spanned.2⟩ rest

theorem sites_output {word : Token} (here : P word.span) (sited : Sited P ts) :
    Sites P (Stmt.Spanned P) (output word ts) := by
  refine .note (.bind (sites_comparison covers sited) fun value spanned rest => ?_)
  exact .pure ⟨spanned, covers _ _ here spanned.span⟩ rest

theorem sites_statement (ts : List Token) (sited : Sited P ts) :
    Sites P (Stmt.Spanned P) (statement ts) := by
  induction ts using statement.induct with
  | case1 =>
    rw [statement]
    exact .note (.fail _ _)
  | case2 t ts body item =>
    have items : ∀ rest (h : rest.length < ts.length), Sited P rest →
        Sites P (Stmt.Spanned P) (statement rest) := fun rest h => item rest h
    rw [statement]
    refine .note ?_
    split
    case _ => exact sites_assignment covers sited
    case _ kind =>
      have here : P t.span := sited.head (by rw [kind]; decide)
      refine .note ?_
      split
      case _ alone accepted => exact .pure here (sited.tail.of_accept? accepted)
      case _ =>
        refine .bind (body sited.tail) fun declared spanned rest => .note ?_
        exact .pure ⟨spanned, covers _ _ here spanned.span⟩ rest
    case _ kind =>
      have here : P t.span := sited.head (by rw [kind]; decide)
      exact .bind (sites_exchange covers here sited.tail) fun _ value rest => .pure value rest
    case _ kind =>
      have here : P t.span := sited.head (by rw [kind]; decide)
      refine .note (.bind (sites_comparison covers sited.tail) fun condition spanned rest => ?_)
      refine .bind (sites_block items _ rest) fun body block rest => ?_
      split
      · exact .pure ⟨spanned, block.1, covers _ _ here block.2⟩ rest
      case _ word accepted =>
        refine .bind (sites_block items _ (rest.of_accept? accepted)) fun other block' rest => ?_
        exact .pure ⟨spanned, block.1, block'.1, covers _ _ here block'.2⟩ rest
    case _ kind =>
      have here : P t.span := sited.head (by rw [kind]; decide)
      refine .note (.bind (sites_comparison covers sited.tail) fun condition spanned rest => ?_)
      refine .bind (sites_block items _ rest) fun body block rest => ?_
      exact .pure ⟨spanned, block.1, covers _ _ here block.2⟩ rest
    case _ kind =>
      have here : P t.span := sited.head (by rw [kind]; decide)
      exact .bind (sites_output covers here sited.tail) fun _ value rest => .pure value rest
    case _ => exact .fail _ _

end Reading

namespace Stmt

variable {P : Span → Prop}

mutual

theorem Spanned.declarations {s : Stmt} (h : s.Spanned P) :
    ∀ binding ∈ s.declarations, binding.2.Spanned P := by
  match s with
  | .assign .. | .invoke .. | .swap .. | .print .. => exact nofun
  | .declare tag body span =>
    intro binding mem
    rcases List.mem_append.mp mem with inside | here
    · exact Spanned.declarations h.1 binding inside
    · cases List.mem_singleton.mp here
      exact h.1
  | .ifThen condition body span | .loop condition body span =>
    exact AllSpanned.allDeclarations body h.2.1
  | .ifElse condition body other span =>
    intro binding mem
    rcases List.mem_append.mp mem with inside | inside
    · exact AllSpanned.allDeclarations body h.2.1 binding inside
    · exact AllSpanned.allDeclarations other h.2.2.1 binding inside

theorem AllSpanned.allDeclarations (body : List Stmt) (h : AllSpanned P body) :
    ∀ binding ∈ Stmt.allDeclarations body, binding.2.Spanned P := by
  match body with
  | [] => exact nofun
  | s :: rest =>
    intro binding mem
    rcases List.mem_append.mp mem with inside | inside
    · exact Spanned.declarations h.1 binding inside
    · exact AllSpanned.allDeclarations rest h.2 binding inside

end

end Stmt

open Reading

variable {P : Span → Prop} {ts : List Token}

theorem Program.spanned_of_ofTokens (covers : ∀ a b, P a → P b → P (a.cover b))
    (sited : Sited P ts) {p : Program} (read : Program.ofTokens ts = .ok p) :
    Stmt.AllSpanned P p.statements ∧ ∀ binding ∈ p.bindings, binding.2.Spanned P := by
  obtain ⟨statements, -, bindings_eq⟩ := ofTokens_eq_ok_iff.mp read
  rw [bindings_of_read statements] at bindings_eq
  obtain ⟨all, all_read, pure_eq⟩ := result_bind_eq_ok_iff.mp statements
  have spanned : Stmt.AllSpanned P all.value :=
    (sites_many (fun rest _ => sites_statement covers rest) _ sited all all_read).1
  have same : all.value = p.statements := Except.ok.inj pure_eq
  rw [same] at spanned
  rw [bindings_eq]
  exact ⟨spanned, spanned.allDeclarations⟩

theorem Expr.spanned_of_ofTokens (covers : ∀ a b, P a → P b → P (a.cover b))
    (sited : Sited P ts) {e : Expr} (read : Expr.ofTokens ts = .ok e) : e.Spanned P := by
  have whole_read := ofTokens_eq_ok_iff.mp read
  obtain ⟨whole, comparison_read, last⟩ := result_bind_eq_ok_iff.mp whole_read
  have spanned := (sites_comparison covers sited whole comparison_read).1
  split at last
  · cases last
    exact spanned
  · cases last

/-! Tokens lie in the text that they were scanned from, and so do the trees that they are. -/

section Scanned

variable {source : String}

theorem Token.sited_of_scan (scanned : scan source = .ok ts) :
    Sited (Span.Within source) ts := by
  intro t mem visible
  obtain ⟨pieces, munch, -, -⟩ := scan_eq_ok_iff.mp scanned
  obtain ⟨-, laidOut⟩ := (scan_lossless source).2 ts pieces scanned munch
  have inside := laidOut.inside t (List.mem_filter.mpr ⟨mem, decide_eq_true visible⟩)
  rw [String.length_toList] at inside
  exact inside

theorem Program.within_of_scan (scanned : Token.scan source = .ok ts) {p : Program}
    (read : Program.ofTokens ts = .ok p) :
    Stmt.AllSpanned (Span.Within source) p.statements ∧
      ∀ binding ∈ p.bindings, binding.2.Spanned (Span.Within source) :=
  spanned_of_ofTokens (fun _ _ => Span.Within.cover) (Token.sited_of_scan scanned) read

theorem Expr.within_of_scan (scanned : Token.scan source = .ok ts) {e : Expr}
    (read : Expr.ofTokens ts = .ok e) : e.Spanned (Span.Within source) :=
  spanned_of_ofTokens (fun _ _ => Span.Within.cover) (Token.sited_of_scan scanned) read

end Scanned

end TagScript
