import TagScript.Proofs.Reading.Completeness
import TagScript.Proofs.Reading.Declarations
import TagScript.Proofs.Token.Join

/-! Tokens that stand somewhere else are read as the same trees standing there, so two
texts under each other are read as the statements of both. -/
namespace TagScript

@[simp] theorem Span.shift_cover (a b : Span) (distance : Nat) :
    (a.cover b).shift distance = (a.shift distance).cover (b.shift distance) := by
  simp only [shift, cover, mk.injEq]
  omega

theorem Expr.mapSpans_combine (distance : Nat) (left : Expr) (op : BinaryOp) (right : Expr) :
    (left.combine op right).mapSpans (·.shift distance) =
      (left.mapSpans (·.shift distance)).combine op (right.mapSpans (·.shift distance)) := by
  simp only [combine, mapSpans, span_mapSpans, Span.shift_cover]

namespace Located

open Reading (Level)

variable {us : List Token} (distance lines : Nat)

theorem map_append_cons (f : Token → Token) (us : List Token) (t : Token) (vs : List Token) :
    (us ++ t :: vs).map f = us.map f ++ f t :: vs.map f := by
  rw [List.map_append, List.map_cons]

theorem map_enclosed (f : Token → Token) (first : Token) (us : List Token) (last : Token) :
    (first :: (us ++ [last])).map f = f first :: (us.map f ++ [f last]) := by
  rw [List.map_cons, List.map_append, List.map_singleton]

theorem Arithmetic.shift {level : Level} {e : Expr} (h : Arithmetic level us e) :
    Arithmetic level (us.map (·.shift distance lines)) (e.mapSpans (·.shift distance)) := by
  induction h with
  | integer kind value => exact .integer kind value
  | boolean kind => exact .boolean kind
  | named kind => exact .named kind
  | element kind opens _ closes ih =>
    rw [List.map_cons, map_enclosed, Expr.mapSpans, Span.shift_cover]
    exact .element kind opens ih closes
  | group opens _ closes ih =>
    rw [map_enclosed, Expr.mapSpans_withSpan, Span.shift_cover]
    exact .group opens ih closes
  | factor _ ih => exact .factor ih
  | product _ mem _ ih ih' =>
    rw [map_append_cons, Expr.mapSpans_combine]
    exact .product ih mem ih'
  | term _ ih => exact .term ih
  | sum _ mem _ ih ih' =>
    rw [map_append_cons, Expr.mapSpans_combine]
    exact .sum ih mem ih'

theorem Comparison.shift {e : Expr} (h : Comparison us e) :
    Comparison (us.map (·.shift distance lines)) (e.mapSpans (·.shift distance)) := by
  induction h with
  | sum first => exact .sum (first.shift distance lines)
  | compare _ mem last ih =>
    rw [map_append_cons, Expr.mapSpans_combine]
    exact .compare ih mem (last.shift distance lines)

theorem Elements.shift {es : List Expr} (h : Elements us es) :
    Elements (us.map (·.shift distance lines)) (es.map (Expr.mapSpans (·.shift distance))) := by
  induction h with
  | one first => exact .one (first.shift distance lines)
  | more first separates _ ih =>
    rw [map_append_cons]
    exact .more (first.shift distance lines) separates ih

theorem Stored.shift {v : Rhs} (h : Stored us v) :
    Stored (us.map (·.shift distance lines)) (v.mapSpans (·.shift distance)) := by
  cases h with
  | scalar value => exact .scalar (value.shift distance lines)
  | emptyVector opens closes =>
    rw [Rhs.mapSpans, Span.shift_cover]
    exact .emptyVector opens closes
  | vector opens inner closes =>
    rw [map_enclosed, Rhs.mapSpans, Span.shift_cover]
    exact .vector opens (inner.shift distance lines) closes

theorem Place.shift {place : Target} (h : Place us place) :
    Place (us.map (·.shift distance lines)) (place.mapSpans (·.shift distance)) := by
  cases h with
  | whole kind => exact .whole kind
  | element kind opens inner closes =>
    rw [List.map_cons, map_enclosed, Target.mapSpans, Span.shift_cover]
    exact .element kind opens (inner.shift distance lines) closes

mutual

theorem Statement.shift {us : List Token} (distance lines : Nat) {s : Stmt} (h : Statement us s) :
    Statement (us.map (·.shift distance lines)) (s.mapSpans (·.shift distance)) := by
  match h with
  | .assign left kind right =>
    rw [map_append_cons, Stmt.mapSpans, Span.shift_cover, ← Rhs.span_mapSpans (·.shift distance)]
    exact .assign (left.shift distance lines) kind (right.shift distance lines)
  | .invoke kind ends => exact .invoke kind ends
  | .declare kind declared =>
    rw [List.map_cons, Stmt.mapSpans, Span.shift_cover, ← Stmt.span_mapSpans (·.shift distance)]
    exact .declare kind (declared.shift distance lines)
  | .swap kind first second =>
    rw [List.map_cons, List.map_append, Stmt.mapSpans, Span.shift_cover]
    exact .swap kind (first.shift distance lines) (second.shift distance lines)
  | @Statement.ifThen word _ _ _ _ kind test body =>
    rw [List.map_cons, List.map_append, Stmt.mapSpans, Span.shift_cover]
    exact @Statement.ifThen (word.shift distance lines) _ _ _ _ kind
      (test.shift distance lines) (body.shift distance lines)
  | @Statement.ifElse word otherwise _ _ _ _ _ _ kind test body kind' other =>
    rw [List.map_cons, List.map_append, map_append_cons, Stmt.mapSpans, Span.shift_cover]
    exact @Statement.ifElse (word.shift distance lines) (otherwise.shift distance lines) _ _ _ _ _ _
      kind (test.shift distance lines) (body.shift distance lines) kind'
      (other.shift distance lines)
  | @Statement.loop word _ _ _ _ kind test body =>
    rw [List.map_cons, List.map_append, Stmt.mapSpans, Span.shift_cover]
    exact @Statement.loop (word.shift distance lines) _ _ _ _ kind (test.shift distance lines)
      (body.shift distance lines)
  | .print kind printed =>
    rw [List.map_cons, Stmt.mapSpans, Span.shift_cover, ← Expr.span_mapSpans (·.shift distance)]
    exact .print kind (printed.shift distance lines)

theorem Block.shift {us : List Token} (distance lines : Nat) {block : Reading.Block}
    (h : Block us block) :
    Block (us.map (·.shift distance lines))
      ⟨Stmt.mapAllSpans (·.shift distance) block.body, block.close.shift distance⟩ := by
  match h with
  | .braces opens inner closes =>
    rw [map_enclosed]
    exact .braces opens (inner.shift distance lines) closes

theorem Statements.shift {us : List Token} (distance lines : Nat) {body : List Stmt}
    (h : Statements us body) :
    Statements (us.map (·.shift distance lines)) (Stmt.mapAllSpans (·.shift distance) body) := by
  match h with
  | .nil => exact .nil
  | .cons first others =>
    rw [List.map_append]
    exact .cons (first.shift distance lines) (others.shift distance lines)

end

end Located

open Reading Token

theorem Grammar.Statements.append {xs ys : List Lexeme} {body rest : List Stmt}
    (first : Statements xs body) (second : Statements ys rest) :
    Statements (xs ++ ys) (body ++ rest) := by
  induction body generalizing xs with
  | nil =>
    cases first
    exact second
  | cons s body ih =>
    cases first with
    | cons first others =>
      rw [List.append_assoc]
      exact .cons first (ih others)

variable {us : List Token} (distance lines : Nat)

namespace Program

def ofStatements (body : List Stmt) : Program :=
  ⟨body, (Stmt.allMentions body).eraseDups, Stmt.allDeclarations body⟩

theorem ofTokens_eq_ok_iff_located {ts : List Token} {p : Program} :
    ofTokens ts = .ok p ↔ Located.Statements ts p.statements ∧ p = ofStatements p.statements := by
  rw [ofTokens_eq_ok_iff]
  constructor
  · rintro ⟨read, tags_eq, bindings_eq⟩
    rw [tagNames_of_read read, Stmt.eraseAll, Stmt.allMentions_mapAllSpans] at tags_eq
    rw [bindings_of_read read] at bindings_eq
    obtain ⟨body, tags, bindings⟩ := p
    exact ⟨located_of_statementList read, Program.mk.injEq .. ▸ ⟨rfl, tags_eq, bindings_eq⟩⟩
  · rintro ⟨located, p_eq⟩
    have read := statementList_of_located located
    refine ⟨read, ?_, ?_⟩
    · rw [tagNames_of_read read, Stmt.eraseAll, Stmt.allMentions_mapAllSpans]
      exact congrArg tags p_eq
    · rw [bindings_of_read read]
      exact congrArg bindings p_eq

theorem ofStatements_mapAllSpans (f : Span → Span) (body : List Stmt) :
    ofStatements (Stmt.mapAllSpans f body) = (ofStatements body).mapSpans f := by
  rw [ofStatements, Stmt.allMentions_mapAllSpans, Stmt.allDeclarations_mapAllSpans]
  rfl

theorem ofTokens_append {vs : List Token} {p q : Program} (first : ofTokens us = .ok p)
    (second : ofTokens vs = .ok q) :
    ofTokens (us ++ vs) = .ok (ofStatements (p.statements ++ q.statements)) := by
  have located := (ofTokens_eq_ok_iff_located.mp first).1
  have located' := (ofTokens_eq_ok_iff_located.mp second).1
  exact ofTokens_eq_ok_iff_located.mpr ⟨located.append located', rfl⟩

theorem ofTokens_shift {p : Program} (read : ofTokens us = .ok p) :
    ofTokens (us.map (·.shift distance lines)) = .ok (p.mapSpans (·.shift distance)) := by
  obtain ⟨located, p_eq⟩ := ofTokens_eq_ok_iff_located.mp read
  have shifted_eq := congrArg (mapSpans (·.shift distance)) p_eq
  rw [← ofStatements_mapAllSpans] at shifted_eq
  exact ofTokens_eq_ok_iff_located.mpr ⟨located.shift distance lines, shifted_eq⟩

theorem exists_of_ofTokens_shift {q : Program}
    (read : ofTokens (us.map (·.shift distance lines)) = .ok q) :
    ∃ p, ofTokens us = .ok p ∧ q = p.mapSpans (·.shift distance) := by
  have phrase := statements_of_read (ofTokens_eq_ok_iff.mp read).1
  rw [lexemes_shift] at phrase
  obtain ⟨body, body_read, -⟩ := read_of_statements phrase
  have here : ofTokens us = .ok ⟨body, tagNames us, _⟩ :=
    ofTokens_eq_ok_iff.mpr ⟨body_read, rfl, rfl⟩
  exact ⟨_, here, Except.ok.inj (read.symm.trans (ofTokens_shift distance lines here))⟩

/-- Two programs under each other are one program, the lower one further on. -/
theorem ofSource_join {upper lower : String} {vs : List Token} {p q : Program}
    (first : ofSource upper = .ok (us, p)) (second : ofSource lower = .ok (vs, q)) :
    ofSource (upper ++ "\n" ++ lower) =
      .ok (us ++ vs.map (·.shift (upper.length + 1) (Token.lines upper)),
        ofStatements (p.statements ++
          Stmt.mapAllSpans (·.shift (upper.length + 1)) q.statements)) := by
  obtain ⟨scanned, read⟩ := ofSource_eq_ok_iff.mp first
  obtain ⟨scanned', read'⟩ := ofSource_eq_ok_iff.mp second
  exact ofSource_eq_ok_iff.mpr ⟨scan_join scanned scanned',
    ofTokens_append read (ofTokens_shift _ _ read')⟩

/-- The text is read as these statements, wherever in it they stand. -/
def Reads (source : String) (body : List Stmt) : Prop :=
  ∃ ts p, ofSource source = .ok (ts, p) ∧ Stmt.eraseAll p.statements = body

theorem reads_iff {source : String} {body : List Stmt} :
    Reads source body ↔ ∃ ts, scan source = .ok ts ∧ Grammar.Statements (lexemes ts) body := by
  constructor
  · rintro ⟨ts, p, accepted, rfl⟩
    obtain ⟨scanned, read⟩ := ofSource_eq_ok_iff.mp accepted
    exact ⟨ts, scanned, statements_of_read (ofTokens_eq_ok_iff.mp read).1⟩
  · rintro ⟨ts, scanned, phrase⟩
    obtain ⟨p, accepted, erase_eq⟩ := exists_of_scan scanned phrase
    exact ⟨ts, p, accepted, erase_eq⟩

theorem Reads.join {upper lower : String} {body rest : List Stmt} (first : Reads upper body)
    (second : Reads lower rest) : Reads (upper ++ "\n" ++ lower) (body ++ rest) := by
  obtain ⟨us, scanned, phrase⟩ := reads_iff.mp first
  obtain ⟨vs, scanned', phrase'⟩ := reads_iff.mp second
  refine reads_iff.mpr ⟨_, scan_join scanned scanned', ?_⟩
  have lexemes_eq : lexemes (us ++ vs.map (·.shift (upper.length + 1) (Token.lines upper))) =
      lexemes us ++ lexemes vs := by
    rw [← lexemes_shift vs (upper.length + 1) (Token.lines upper)]
    exact List.map_append
  rw [lexemes_eq]
  exact phrase.append phrase'

end Program

theorem Expr.exists_of_ofTokens_shift {e : Expr}
    (read : Expr.ofTokens (us.map (·.shift distance lines)) = .ok e) :
    ∃ e', Expr.ofTokens us = .ok e' ∧ e = e'.mapSpans (·.shift distance) := by
  have phrase := comparison_of_read (ofTokens_eq_ok_iff.mp read)
  rw [lexemes_shift] at phrase
  obtain ⟨e', here, -⟩ := read_of_comparison phrase
  have there := wholeComparison_of_located
    ((located_of_wholeComparison here).shift distance lines)
  exact ⟨e', ofTokens_eq_ok_iff.mpr here,
    Except.ok.inj ((ofTokens_eq_ok_iff.mp read).symm.trans there)⟩

end TagScript
