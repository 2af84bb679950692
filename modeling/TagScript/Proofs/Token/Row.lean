import TagScript.Proofs.Reading.Grammar
import TagScript.Proofs.Token.Layout

/-! Texts that are put together from pieces. Such a text is cut into the same
pieces again when each of them stops where the next one begins, and then its
lexemes are theirs. -/
namespace TagScript

open Unicode

namespace Token

def shift (t : Token) (distance lines : Nat) : Token :=
  { t with span := t.span.shift distance, line := t.line + lines }

theorem lexemes_shift (ts : List Token) (distance lines : Nat) :
    lexemes (ts.map (·.shift distance lines)) = lexemes ts := by
  rw [lexemes, lexemes, List.map_map]
  rfl

end Token

namespace Piece

/-- The pieces keep apart when they stand in this order before `rest`. -/
def Row : List Piece → List Char → Prop
  | [], _ => True
  | piece :: pieces, rest =>
    (piece.Formed ∧ piece.InRange ∧ piece.StopsBefore (pieces.flatMap text ++ rest)) ∧
      Row pieces rest

@[simp] theorem row_nil (rest : List Char) : Row [] rest := trivial

theorem row_append {pieces others : List Piece} {rest : List Char} :
    Row (pieces ++ others) rest ↔
      Row pieces (others.flatMap text ++ rest) ∧ Row others rest := by
  induction pieces with
  | nil => simp
  | cons piece pieces ih =>
    simp only [List.cons_append, Row, ih, List.flatMap_append, List.append_assoc, and_assoc]

theorem Row.alone {pieces : List Piece} {rest : List Char} (row : Row pieces rest) :
    Row pieces [] := by
  induction pieces with
  | nil => trivial
  | cons piece pieces ih =>
    obtain ⟨⟨formed, range, stops⟩, others⟩ := row
    refine ⟨⟨formed, range, fun c next => stops c ?_⟩, ih others⟩
    rw [List.append_nil, Option.mem_def] at next
    rw [Option.mem_def, List.head?_append, next, Option.some_or]

/-- Of what follows a row only the last piece has to keep apart. -/
theorem row_iff_last {pieces : List Piece} {rest : List Char} :
    Row pieces rest ↔ Row pieces [] ∧ ∀ piece ∈ pieces.getLast?, piece.StopsBefore rest := by
  constructor
  · intro row
    refine ⟨row.alone, fun piece mem => ?_⟩
    obtain ⟨pieces, rfl⟩ := List.getLast?_eq_some_iff.mp mem
    exact (row_append.mp row).2.1.2.2
  · rintro ⟨row, last⟩
    induction pieces with
    | nil => trivial
    | cons piece pieces ih =>
      obtain ⟨⟨formed, range, stops⟩, others⟩ := row
      cases pieces with
      | nil => exact ⟨⟨formed, range, last piece rfl⟩, trivial⟩
      | cons other pieces =>
        refine ⟨⟨formed, range, ?_⟩, ih others last⟩
        obtain ⟨c, cs, text_eq⟩ := List.exists_cons_of_ne_nil others.1.1.text_ne_nil
        simpa [text_eq] using stops

theorem Row.munch {pieces : List Piece} (row : Row pieces []) :
    Munch (pieces.flatMap text) pieces ∧ ∀ piece ∈ pieces, piece.InRange := by
  induction pieces with
  | nil => exact ⟨.nil, nofun⟩
  | cons piece pieces ih =>
    rcases row with ⟨⟨formed, range, stops⟩, others⟩
    rw [List.append_nil] at stops
    have further := ih others
    refine ⟨?_, List.forall_mem_cons.mpr ⟨range, further.2⟩⟩
    rw [List.flatMap_cons]
    exact .cons formed (formed.longest_iff.mpr stops) further.1

theorem Row.scan_eq {pieces : List Piece} (row : Row pieces []) :
    Token.scan (String.ofList (pieces.flatMap text)) = .ok (allTokens 0 1 pieces) := by
  rw [Token.scan_eq_ok_iff, String.toList_ofList]
  exact ⟨pieces, row.munch.1, row.munch.2, rfl⟩

def leaves : List Piece → List Lexeme
  | [] => []
  | piece :: rest =>
    piece.lexeme?.toList ++ ((if piece.isolated rest then [⟨.empty, ""⟩] else []) ++ leaves rest)

theorem allTokens_shift (position line distance lines : Nat) (pieces : List Piece) :
    allTokens (position + distance) (line + lines) pieces =
      (allTokens position line pieces).map (·.shift distance lines) := by
  induction pieces generalizing position line with
  | nil => rfl
  | cons piece pieces ih =>
    have here : piece.tokens (position + distance) (line + lines) (piece.isolated pieces) =
        (piece.tokens position line (piece.isolated pieces)).map (·.shift distance lines) := by
      unfold tokens
      cases piece.lexeme? with
      | none => rfl
      | some x =>
        dsimp only
        split <;>
          simp only [List.map_cons, List.map_nil, Token.shift, Span.shift, Nat.add_right_comm]
    have next_line : (if piece = newline then line + lines + 1 else line + lines) =
        (if piece = newline then line + 1 else line) + lines := by
      split <;> omega
    rw [allTokens, allTokens, List.map_append, here, ← ih, next_line, Nat.add_right_comm]

theorem lexemes_allTokens (position line : Nat) (pieces : List Piece) :
    Token.lexemes (allTokens position line pieces) = leaves pieces := by
  induction pieces generalizing position line with
  | nil => rfl
  | cons piece pieces ih =>
    rw [allTokens, Token.lexemes, List.map_append, leaves, ← List.append_assoc]
    congr 1
    · cases piece with
      | tag letters =>
        simp only [tokens, lexeme?]
        split <;> rfl
      | _ => rfl
    · exact ih _ _

theorem lineEnds_append {pieces others : List Piece} (h : lineEnds others = true) :
    lineEnds (pieces ++ others) = lineEnds pieces := by
  induction pieces with
  | nil => exact h
  | cons piece pieces ih =>
    cases piece with
    | blank c => exact ih
    | _ => rfl

/-- The pieces have the same tags that stand alone when these others follow. -/
def Unmoved (others : List Piece) : List Piece → Prop
  | [] => True
  | piece :: rest => piece.isolated (rest ++ others) = piece.isolated rest ∧
      Unmoved others rest

theorem unmoved_of_lineEnds {others : List Piece} (h : lineEnds others = true)
    (pieces : List Piece) : Unmoved others pieces := by
  induction pieces with
  | nil => trivial
  | cons piece pieces ih =>
    refine ⟨?_, ih⟩
    cases piece with
    | tag letters => exact lineEnds_append h
    | _ => rfl

theorem unmoved_of_no_tag {pieces : List Piece} (h : ∀ letters, tag letters ∉ pieces)
    (others : List Piece) : Unmoved others pieces := by
  induction pieces with
  | nil => trivial
  | cons piece pieces ih =>
    refine ⟨?_, ih fun letters mem => h letters (List.mem_cons_of_mem _ mem)⟩
    cases piece with
    | tag letters => exact absurd List.mem_cons_self (h letters)
    | _ => rfl

theorem Unmoved.leaves_append {pieces others : List Piece} (h : Unmoved others pieces) :
    leaves (pieces ++ others) = leaves pieces ++ leaves others := by
  induction pieces with
  | nil => rfl
  | cons piece pieces ih =>
    obtain ⟨same, further⟩ := h
    simp only [List.cons_append, leaves, ih further, same, List.append_assoc]

theorem Unmoved.allTokens_append {pieces others : List Piece} (h : Unmoved others pieces)
    (position line : Nat) :
    allTokens position line (pieces ++ others) = allTokens position line pieces ++
      allTokens (position + (pieces.flatMap text).length) (line + pieces.count newline)
        others := by
  induction pieces generalizing position line with
  | nil => rfl
  | cons piece pieces ih =>
    obtain ⟨same, further⟩ := h
    have here : piece.tokens position line (piece.isolated (pieces ++ others)) =
        piece.tokens position line (piece.isolated pieces) := by
      unfold tokens
      rw [same]
    have next_line : (if piece = newline then line + 1 else line) + pieces.count newline =
        line + (piece :: pieces).count newline := by
      rw [List.count_cons]
      simp only [beq_iff_eq]
      split <;> omega
    rw [List.cons_append, allTokens, allTokens, here, ih further, List.append_assoc, next_line,
      List.flatMap_cons, List.length_append, Nat.add_assoc]

theorem leaves_append_of_lineEnds {others : List Piece} (h : lineEnds others = true)
    (pieces : List Piece) : leaves (pieces ++ others) = leaves pieces ++ leaves others :=
  (unmoved_of_lineEnds h pieces).leaves_append

theorem leaves_append_of_no_tag {pieces : List Piece} (h : ∀ letters, tag letters ∉ pieces)
    (others : List Piece) : leaves (pieces ++ others) = leaves pieces ++ leaves others :=
  (unmoved_of_no_tag h others).leaves_append

theorem allTokens_eq_nil {pieces : List Piece} (h : ∀ piece ∈ pieces, piece.lexeme? = none)
    (position line : Nat) : allTokens position line pieces = [] := by
  induction pieces generalizing position line with
  | nil => rfl
  | cons piece pieces ih =>
    obtain ⟨here, others⟩ := List.forall_mem_cons.mp h
    rw [allTokens, tokens, here, ih others]
    rfl

theorem filter_leaves {pieces : List Piece} (formed : ∀ piece ∈ pieces, piece.Formed) :
    (leaves pieces).filter (·.kind ≠ .empty) = pieces.filterMap lexeme? := by
  induction pieces with
  | nil => rfl
  | cons piece pieces ih =>
    have further := ih fun p mem => formed p (List.mem_cons_of_mem _ mem)
    have alone : (if piece.isolated pieces then [(⟨.empty, ""⟩ : Lexeme)] else []).filter
        (·.kind ≠ .empty) = [] := by
      split <;> rfl
    rw [leaves, List.filter_append, List.filter_append, alone, List.nil_append, further]
    cases lexeme_eq : piece.lexeme? with
    | none => simp [lexeme_eq]
    | some x =>
      have kept := ((formed piece List.mem_cons_self).lexeme_kind lexeme_eq).1
      simp [lexeme_eq, kept]

theorem Formed.separator_mem {piece : Piece} (formed : piece.Formed) (h : piece.lexeme? = none) :
    ∃ c ∈ piece.text, c ∈ separators := by
  cases formed with
  | @blank c mem =>
    have table : ∀ c ∈ [' ', '\t', '\r'], c ∈ separators := forall_listed (by decide)
    exact ⟨c, List.mem_cons_self, table c mem⟩
  | newline => exact ⟨'\n', List.mem_cons_self, by decide⟩
  | comment => exact ⟨'-', List.mem_cons_self, by decide⟩
  | sign | number | word | tag => cases h

theorem Munch.formed {cs : List Char} {pieces : List Piece} (munch : Munch cs pieces) :
    cs = pieces.flatMap text ∧ ∀ piece ∈ pieces, piece.Formed := by
  induction munch with
  | nil => exact ⟨rfl, nofun⟩
  | cons formed _ _ ih =>
    rw [List.flatMap_cons, ← ih.1]
    exact ⟨rfl, List.forall_mem_cons.mpr ⟨formed, ih.2⟩⟩

/-- The row of longest pieces that a text is keeps apart. -/
theorem Munch.row {cs : List Char} {pieces : List Piece} (munch : Munch cs pieces)
    (range : ∀ piece ∈ pieces, piece.InRange) : Row pieces [] := by
  induction munch with
  | nil => trivial
  | @cons piece rest pieces formed longest others ih =>
    obtain ⟨here, range⟩ := List.forall_mem_cons.mp range
    refine ⟨⟨formed, here, ?_⟩, ih range⟩
    rw [List.append_nil, ← others.formed.1]
    exact formed.longest_iff.mp longest

theorem Row.formed {pieces : List Piece} {rest : List Char} (row : Row pieces rest) :
    ∀ piece ∈ pieces, piece.Formed :=
  row.alone.munch.1.formed.2

theorem Munch.eq_singleton {cs : List Char} {pieces : List Piece} {x : Lexeme}
    (munch : Munch cs pieces) (one : pieces.filterMap lexeme? = [x])
    (clear : ∀ c ∈ cs, c ∉ separators) : ∃ piece, pieces = [piece] ∧ cs = piece.text := by
  have formed := munch.formed
  have seen : ∀ piece ∈ pieces, piece.lexeme?.isSome = true := by
    intro piece mem
    cases lexeme_eq : piece.lexeme? with
    | some x => rfl
    | none =>
      obtain ⟨c, text_mem, separator⟩ := (formed.2 piece mem).separator_mem lexeme_eq
      refine absurd separator (clear c ?_)
      rw [formed.1]
      exact List.mem_flatMap.mpr ⟨piece, mem, text_mem⟩
  have length_eq : pieces.length = 1 := by
    rw [← List.filterMap_length_eq_length.mpr seen, one]
    rfl
  obtain ⟨piece, rfl⟩ := List.length_eq_one_iff.mp length_eq
  exact ⟨piece, rfl, formed.1.trans (List.append_nil _)⟩

end Piece

namespace Token

theorem visibleAfter_append {pieces : List Piece} (formed : ∀ piece ∈ pieces, piece.Formed)
    (before : List Char) (others : List Piece) :
    visibleAfter before (pieces ++ others) =
      visibleAfter before pieces ++ visibleAfter (before ++ pieces.flatMap Piece.text) others := by
  induction pieces generalizing before with
  | nil => simp [visibleAfter, Piece.allTokens, visible]
  | cons piece pieces ih =>
    obtain ⟨here, formed⟩ := List.forall_mem_cons.mp formed
    rw [List.cons_append, visibleAfter_cons here, visibleAfter_cons here, ih formed,
      List.append_assoc, List.flatMap_cons, List.append_assoc]

theorem visibleAfter_shift {longer cs : List Char} {distance : Nat}
    (length_eq : longer.length = cs.length + distance)
    (count_eq : longer.count '\n' = cs.count '\n') (pieces : List Piece) :
    visibleAfter longer pieces = (visibleAfter cs pieces).map (·.shift distance 0) := by
  have moved := Piece.allTokens_shift cs.length (1 + cs.count '\n') distance 0 pieces
  rw [Nat.add_zero] at moved
  rw [visibleAfter, visibleAfter, length_eq, count_eq, moved, visible, List.filter_map]
  rfl

end Token

end TagScript
