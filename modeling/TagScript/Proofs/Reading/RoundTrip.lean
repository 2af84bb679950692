import TagScript.Proofs.Reading.Declarations
import TagScript.Proofs.Reading.Rendering

/-! The canonical text of a program whose names are stable is read as the same
program, up to spans. Without stable names it need not be: the canonical text of
a name may be read as another name, or not at all. -/
namespace TagScript

open Grammar Reading Token

namespace Program

theorem erase_of_ofTokens {ts : List Token} {p : Program} (h : ofTokens ts = .ok p) :
    p.erase = ⟨Stmt.eraseAll p.statements,
      (Stmt.allMentions (Stmt.eraseAll p.statements)).eraseDups,
      Stmt.allDeclarations (Stmt.eraseAll p.statements)⟩ := by
  obtain ⟨read, tags_eq, bindings_eq⟩ := ofTokens_eq_ok_iff.mp h
  rw [erase, mapSpans, tags_eq, bindings_eq, tagNames_of_read read, bindings_of_read read,
    Stmt.eraseAll, Stmt.allDeclarations_mapAllSpans]

theorem canonical_mapSpans (f : Span → Span) (p : Program) :
    (p.mapSpans f).canonical = p.canonical := by
  rw [canonical, canonical, mapSpans, Stmt.lines_mapAllSpans]

theorem canonical_eq_of_erase_eq {p q : Program} (h : p.erase = q.erase) :
    p.canonical = q.canonical := by
  have same := congrArg canonical h
  rwa [erase, erase, canonical_mapSpans, canonical_mapSpans] at same

theorem ofSource_of_row {pieces : List Piece} {trees : List Stmt} (row : Piece.Row pieces [])
    (phrase : Statements (Piece.leaves pieces) trees) :
    ∃ ts p, ofSource (String.ofList (pieces.flatMap Piece.text)) = .ok (ts, p) ∧
      lexemes ts = Piece.leaves pieces ∧ Stmt.eraseAll p.statements = trees := by
  have lexemes_eq := Piece.lexemes_allTokens 0 1 pieces
  obtain ⟨p, accepted, erase_eq⟩ := exists_of_scan row.scan_eq (lexemes_eq ▸ phrase)
  exact ⟨_, p, accepted, lexemes_eq, erase_eq⟩

/-- The canonical text of a tree is read as this tree, from the lexemes of the
pieces that the text was put together from. -/
theorem ofSource_lines {xs : List Lexeme} {trees : List Stmt} (phrase : Statements xs trees)
    (plain : ∀ x ∈ xs, x.Plain) :
    ∃ ts p, ofSource (String.ofList (Stmt.lines trees)) = .ok (ts, p) ∧
      lexemes ts = Piece.leaves (Stmt.linePieces trees) ∧ Stmt.eraseAll p.statements = trees := by
  obtain ⟨row, phrase'⟩ := written_of_statements phrase plain
  rw [← Stmt.text_linePieces]
  exact ofSource_of_row (row []) phrase'

theorem exists_reread {source : String} {ts : List Token} {p : Program}
    (accepted : ofSource source = .ok (ts, p)) (stable : ∀ t ∈ ts, t.Stable) :
    ∃ ts' p', ofSource p.canonical = .ok (ts', p') ∧ p'.erase = p.erase := by
  obtain ⟨scanned, read⟩ := ofSource_eq_ok_iff.mp accepted
  have phrase := statements_of_read (ofTokens_eq_ok_iff.mp read).1
  obtain ⟨ts', p', accepted', -, erase_eq⟩ := ofSource_lines phrase (plain_of_scan scanned stable)
  refine ⟨ts', p', ?_, ?_⟩
  · rwa [Stmt.eraseAll, Stmt.lines_mapAllSpans] at accepted'
  · rw [erase_of_ofTokens (ofSource_eq_ok_iff.mp accepted').2, erase_of_ofTokens read, erase_eq]

theorem exists_declaration :
    ∃ ts p, ofSource "@go x = TRUE\n@go\n" = .ok (ts, p) ∧ ∀ t ∈ ts, t.Stable := by
  have assigned : Statement [⟨.identifier, "x"⟩, ⟨.equal, "="⟩, ⟨.boolean, "TRUE"⟩]
      (.assign ⟨"x", none, .nowhere⟩ (.scalar (.boolean true .nowhere)) .nowhere) :=
    .assign (.whole rfl) rfl (.scalar (.term (.factor (.boolean rfl))))
  have declared := Statement.declare (x := ⟨.tag, "go"⟩) rfl assigned
  have invoked : Statement [⟨.tag, "go"⟩, ⟨.empty, ""⟩] (.invoke "go" .nowhere) := .invoke rfl rfl
  have phrase := Statements.cons declared (.cons invoked .nil)
  have go : Lexeme.Plain ⟨.tag, "go"⟩ :=
    .of_tag (by decide) (by decide) (by decide)
  have x : Lexeme.Plain ⟨.identifier, "x"⟩ :=
    .of_name (by decide) (by decide) (by decide)
  have plain : ∀ y ∈ [(⟨.tag, "go"⟩ : Lexeme), ⟨.identifier, "x"⟩, ⟨.equal, "="⟩,
      ⟨.boolean, "TRUE"⟩, ⟨.tag, "go"⟩, ⟨.empty, ""⟩], y.Plain := by
    simp only [List.forall_mem_cons]
    exact ⟨go, x, .of_closed (by decide), .of_closed (by decide), go, .of_closed (by decide), nofun⟩
  obtain ⟨ts, p, accepted, lexemes_eq, -⟩ := ofSource_lines phrase plain
  refine ⟨ts, p, accepted, fun t mem => stable_of_plain (plain _ ?_)⟩
  have among : t.toLexeme ∈ lexemes ts := List.mem_map_of_mem mem
  rwa [lexemes_eq] at among

/-- A program whose names are stable is read again from its canonical text, with
the same statements, tags and bindings up to spans and the same canonical text. -/
theorem ofSource_canonical {source : String} {ts : List Token} {p : Program}
    (accepted : ofSource source = .ok (ts, p)) (stable : ∀ t ∈ ts, t.Stable) :
    ∃ ts' p', ofSource p.canonical = .ok (ts', p') ∧
      Stmt.eraseAll p'.statements = Stmt.eraseAll p.statements ∧ p'.tags = p.tags ∧
      p'.bindings.map (Binding.mapSpans fun _ => .nowhere) =
        p.bindings.map (Binding.mapSpans fun _ => .nowhere) ∧
      p'.canonical = p.canonical := by
  obtain ⟨ts', p', accepted', erase_eq⟩ := exists_reread accepted stable
  have tags_eq : p'.erase.tags = p.erase.tags := congrArg tags erase_eq
  exact ⟨ts', p', accepted', congrArg statements erase_eq, tags_eq, congrArg bindings erase_eq,
    canonical_eq_of_erase_eq erase_eq⟩

theorem ofSource_canonical_declaration :
    ∃ ts p, ofSource "@go x = TRUE\n@go\n" = .ok (ts, p) ∧ (∀ t ∈ ts, t.Stable) ∧
      ∃ ts' p', ofSource p.canonical = .ok (ts', p') ∧
        Stmt.eraseAll p'.statements = Stmt.eraseAll p.statements ∧ p'.tags = p.tags ∧
        p'.bindings.map (Binding.mapSpans fun _ => .nowhere) =
          p.bindings.map (Binding.mapSpans fun _ => .nowhere) ∧
        p'.canonical = p.canonical := by
  obtain ⟨ts, p, accepted, stable⟩ := exists_declaration
  exact ⟨ts, p, accepted, stable, ofSource_canonical accepted stable⟩

end Program

end TagScript
