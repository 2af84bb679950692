import Mathlib
import TagScript.Proofs.Token.Stable

/-! Where the empty tokens of a text stand. Whether a tag stands alone is decided on the
characters behind it, before they are tokens. The visible tokens tell it as well: a comment goes
on to the end of its line, so that only the next visible token and its line count. All tokens
of a text are therefore its visible ones with the empty ones put back. -/
namespace TagScript

namespace Token

def ending (t : Token) : Token :=
  ⟨⟨.empty, ""⟩, ⟨t.span.stop, t.span.stop⟩, t.line⟩

/-- Nothing but a closing brace comes after the token on its line. -/
def LastInLine (t : Token) (rest : List Token) : Prop :=
  ∀ n ∈ rest.head?, t.line < n.line ∨ n.kind = .rightBrace

instance (t : Token) (rest : List Token) : Decidable (t.LastInLine rest) :=
  inferInstanceAs (Decidable (∀ n ∈ rest.head?, t.line < n.line ∨ n.kind = .rightBrace))

def endings (t : Token) (rest : List Token) : List Token :=
  if t.kind = .tag ∧ t.LastInLine rest then [t.ending] else []

/-- Visible tokens with an empty one after each tag that is the last in its line. -/
def withEndings : List Token → List Token
  | [] => []
  | t :: ts => t :: (t.endings ts ++ withEndings ts)

def EndsTags (ts : List Token) : Prop :=
  ∀ (us : List Token) (t : Token) (vs : List Token), ts = us ++ t :: vs → t.kind = .empty →
    ∃ tag ∈ us.getLast?, tag.kind = .tag ∧ t = tag.ending

end Token

theorem Lexeme.kind_ofWord_mem (letters : List Char) :
    (ofWord letters).kind ∈ .identifier :: keywords.map (·.2) := by
  obtain ⟨kind, mem, eq⟩ | ⟨-, eq⟩ := ofWord_cases letters
  · rw [eq]
    exact List.mem_cons_of_mem _ (List.mem_map_of_mem mem)
  · rw [eq]
    exact List.mem_cons_self

namespace Piece

open Token

variable {piece : Piece} {pieces : List Piece} {before : List Char} {t : Token}
variable {position line : Nat}

theorem tokens_of_none (h : piece.lexeme? = none) (position line : Nat) (alone : Bool) :
    piece.tokens position line alone = [] := by
  unfold tokens
  rw [h]

theorem tokens_of_some {x : Lexeme} (h : piece.lexeme? = some x) (position line : Nat)
    (alone : Bool) :
    piece.tokens position line alone =
      ⟨x, ⟨position, position + piece.text.length⟩, line⟩ ::
        if alone then [ending ⟨x, ⟨position, position + piece.text.length⟩, line⟩] else [] := by
  unfold tokens
  rw [h]
  rfl

theorem line_le_of_mem_allTokens (mem : t ∈ allTokens position line pieces) : line ≤ t.line := by
  induction pieces generalizing position line with
  | nil => cases mem
  | cons piece pieces ih =>
    rw [allTokens, List.mem_append] at mem
    rcases mem with here | later
    · cases lexeme_eq : piece.lexeme? with
      | none => simp [tokens_of_none lexeme_eq] at here
      | some x =>
        have same : t.line = line := by
          rw [tokens_of_some lexeme_eq] at here
          split at here <;> simp [ending] at here <;> grind
        omega
    · have bound := ih later
      split at bound <;> omega

theorem Formed.eq_newline (formed : piece.Formed) (mem : '\n' ∈ piece.text) :
    piece = .newline := by
  have count_pos := List.count_pos_iff.mpr mem
  rw [formed.count_newline] at count_pos
  split at count_pos
  · assumption
  · omega

theorem eq_newline_of_stopsBefore {text : List Char}
    (formed : ∀ other ∈ piece :: pieces, other.Formed)
    (stops : (comment text).StopsBefore ((piece :: pieces).flatMap Piece.text)) :
    piece = .newline := by
  have here := formed piece List.mem_cons_self
  obtain ⟨c, cs, text_eq⟩ := List.exists_cons_of_ne_nil here.text_ne_nil
  rw [List.flatMap_cons, text_eq] at stops
  obtain rfl : c = '\n' := stops c rfl
  exact here.eq_newline (text_eq ▸ List.mem_cons_self)

theorem lineEnds_of_stopsBefore {text : List Char} (formed : ∀ piece ∈ pieces, piece.Formed)
    (stops : (comment text).StopsBefore (pieces.flatMap Piece.text)) : lineEnds pieces = true := by
  cases pieces with
  | nil => rfl
  | cons piece pieces =>
    rw [eq_newline_of_stopsBefore formed stops]
    rfl

theorem lineEnds_of_lexeme {x : Lexeme} (h : piece.lexeme? = some x) :
    lineEnds (piece :: pieces) = (x.kind == .rightBrace) := by
  cases piece with
  | blank | newline | comment => cases h
  | sign | number | tag =>
    cases h
    rfl
  | word letters =>
    have other : ∀ kind ∈ .identifier :: keywords.map (·.2), (kind == .rightBrace) = false := by
      decide
    cases h
    exact (other _ (Lexeme.kind_ofWord_mem letters)).symm

/-- The pieces after a token end its line just when the visible tokens do. -/
theorem Row.lineEnds_iff (row : Row pieces []) (line_eq : t.line = 1 + before.count '\n') :
    lineEnds pieces = true ↔ t.LastInLine (visibleAfter before pieces) := by
  induction pieces generalizing before with
  | nil => simp [lineEnds, LastInLine, visibleAfter, allTokens, visible]
  | cons piece pieces ih =>
    obtain ⟨⟨formed, -, stops⟩, others⟩ := row
    have same_line (other : piece ≠ .newline) :
        t.line = 1 + (before ++ piece.text).count '\n' := by
      rw [List.count_append, formed.count_newline, if_neg other, line_eq, Nat.add_zero]
    rw [visibleAfter_cons formed]
    cases lexeme_eq : piece.lexeme? with
    | some x => simp [ofPiece?, lexeme_eq, lineEnds_of_lexeme, LastInLine, line_eq]
    | none =>
      rw [ofPiece?, lexeme_eq, Option.map_none, Option.toList_none, List.nil_append]
      cases piece with
      | blank c => exact ih others (same_line (by simp))
      | newline =>
        refine ⟨fun _ n mem => .inl ?_, fun _ => rfl⟩
        have mem' := List.mem_of_mem_head? mem
        have bound := line_le_of_mem_allTokens (List.mem_filter.mp mem').1
        simp [Piece.text] at bound
        omega
      | comment text =>
        rw [List.append_nil] at stops
        have ends := lineEnds_of_stopsBefore others.formed stops
        exact ⟨fun _ => (ih others (same_line (by simp))).mp ends, fun _ => rfl⟩
      | sign | number | word | tag => cases lexeme_eq

theorem Formed.isolated_iff {x : Lexeme} (formed : piece.Formed)
    (h : piece.lexeme? = some x) (rest : List Piece) :
    piece.isolated rest = true ↔ x.kind = .tag ∧ lineEnds rest = true := by
  cases piece with
  | tag letters =>
    cases h
    simp [isolated, Lexeme.ofTag]
  | blank | newline | comment | sign | number | word =>
    constructor
    · intro alone
      cases alone
    · rintro ⟨kind, -⟩
      obtain ⟨letters, other, -⟩ := formed.eq_tag h kind
      cases other

theorem Row.allTokens_eq (row : Row pieces []) (before : List Char) :
    allTokens before.length (1 + before.count '\n') pieces =
      withEndings (visibleAfter before pieces) := by
  induction pieces generalizing before with
  | nil => rfl
  | cons piece pieces ih =>
    obtain ⟨⟨formed, -, -⟩, others⟩ := row
    rw [allTokens_cons formed, visibleAfter_cons formed, ih others]
    cases lexeme_eq : piece.lexeme? with
    | none =>
      rw [tokens_of_none lexeme_eq, ofPiece?, lexeme_eq]
      rfl
    | some x =>
      let t : Token := ⟨x, ⟨before.length, before.length + piece.text.length⟩,
        1 + before.count '\n'⟩
      have same_line : t.line = 1 + (before ++ piece.text).count '\n' := by
        rw [List.count_append, formed.count_newline, if_neg]
        · rfl
        · rintro rfl
          cases lexeme_eq
      have alone : piece.isolated pieces = true ↔
          x.kind = .tag ∧ t.LastInLine (visibleAfter (before ++ piece.text) pieces) := by
        rw [formed.isolated_iff lexeme_eq, others.lineEnds_iff same_line]
      simp only [tokens_of_some lexeme_eq, ofPiece?, lexeme_eq, Option.map_some,
        Option.toList_some, withEndings, endings, alone, List.cons_append]
      rfl

end Piece

namespace Token

variable {source : String} {t : Token} {us ts vs ws : List Token}

theorem eq_withEndings_of_scan (scanned : scan source = .ok ts) :
    ts = withEndings (visible ts) := by
  obtain ⟨pieces, munch, range, rfl⟩ := scan_eq_ok_iff.mp scanned
  exact (munch.row range).allTokens_eq []

theorem forall_visible (ts : List Token) : ∀ t ∈ visible ts, t.kind ≠ .empty :=
  fun _ mem => of_decide_eq_true (List.mem_filter.mp mem).2

theorem visible_append (us vs : List Token) : visible (us ++ vs) = visible us ++ visible vs :=
  List.filter_append us vs

theorem visible_endings (t : Token) (rest : List Token) : visible (t.endings rest) = [] := by
  unfold endings
  split <;> rfl

theorem visible_withEndings (shown : ∀ t ∈ ws, t.kind ≠ .empty) :
    visible (withEndings ws) = ws := by
  induction ws with
  | nil => rfl
  | cons t ws ih =>
    obtain ⟨here, others⟩ := List.forall_mem_cons.mp shown
    have seen : visible [t] = [t] := List.filter_cons_of_pos (by simpa using here)
    rw [withEndings, ← List.singleton_append, visible_append, visible_append, seen,
      visible_endings, ih others]
    rfl

theorem of_withEndings_eq (shown : ∀ t ∈ ws, t.kind ≠ .empty)
    (h : withEndings ws = us ++ t :: vs) :
    (t.kind ≠ .empty ∧ vs = t.endings (visible vs) ++ withEndings (visible vs)) ∨
      ∃ tag ∈ us.getLast?, tag.kind = .tag ∧ t = tag.ending := by
  induction ws generalizing us with
  | nil => simp [withEndings] at h
  | cons u ws ih =>
    obtain ⟨here, others⟩ := List.forall_mem_cons.mp shown
    rw [withEndings] at h
    cases us with
    | nil =>
      obtain ⟨rfl, rfl⟩ := List.cons.inj h
      rw [visible_append, visible_endings, visible_withEndings others]
      exact .inl ⟨here, rfl⟩
    | cons u' us =>
      rw [List.cons_append, List.cons.injEq] at h
      obtain ⟨rfl, h⟩ := h
      have later {xs ys : List Token} (eq : withEndings ws = ys ++ t :: vs) :
          (t.kind ≠ .empty ∧ vs = t.endings (visible vs) ++ withEndings (visible vs)) ∨
            ∃ tag ∈ (xs ++ ys).getLast?, tag.kind = .tag ∧ t = tag.ending :=
        (ih others eq).imp_right fun ⟨tag, mem, ends⟩ =>
          ⟨tag, by rw [List.getLast?_append, Option.mem_def.mp mem]; rfl, ends⟩
      by_cases last : u.kind = .tag ∧ u.LastInLine ws
      · rw [endings, if_pos last] at h
        cases us with
        | nil =>
          obtain ⟨rfl, -⟩ := List.cons.inj h
          exact .inr ⟨u, rfl, last.1, rfl⟩
        | cons e us => exact @later [u, e] us (List.cons.inj h).2
      · rw [endings, if_neg last] at h
        exact @later [u] us h

theorem head?_endings_append (tag : t.kind = .tag) (shown : ∀ t ∈ ws, t.kind ≠ .empty) :
    (t.endings ws ++ withEndings ws).head? = some t.ending ↔ t.LastInLine ws := by
  by_cases last : t.LastInLine ws
  · simp [endings, tag, last]
  · simp only [endings, tag, last, and_false, if_false, List.nil_append, iff_false]
    cases ws with
    | nil => nofun
    | cons w ws =>
      intro same
      obtain rfl : w = t.ending := Option.some.inj same
      exact shown _ List.mem_cons_self rfl

theorem endsTags_withEndings (shown : ∀ t ∈ ws, t.kind ≠ .empty) : EndsTags (withEndings ws) := by
  intro us t vs eq empty
  obtain ⟨other, -⟩ | ends := of_withEndings_eq shown eq
  · exact absurd empty other
  · exact ends

/-- A tag is followed by its empty token just when no other token, unless a closing brace,
comes next on its line; and no empty token stands anywhere else. -/
theorem empty_iff_last_in_line (scanned : scan source = .ok ts) :
    (∀ (us : List Token) (t : Token) (vs : List Token), ts = us ++ t :: vs → t.kind = .tag →
      (vs.head? = some t.ending ↔ t.LastInLine (visible vs))) ∧
    EndsTags ts := by
  have whole := eq_withEndings_of_scan scanned
  constructor
  · intro us t vs eq tag
    obtain ⟨-, rest_eq⟩ | ⟨other, -, -, rfl⟩ :=
      of_withEndings_eq (forall_visible ts) (whole.symm.trans eq)
    · have ended := head?_endings_append tag (forall_visible vs)
      rwa [← rest_eq] at ended
    · cases tag
  · rw [whole]
    exact endsTags_withEndings (forall_visible ts)

/-- A comment, a tag, a brace and a sign after a tag. -/
theorem empty_iff_last_in_line_before_comment :
    ∃ ts, scan "@a\t->b\n@c @d \x7d@e-" = .ok ts ∧
      ts.map (·.kind) = [.tag, .empty, .tag, .tag, .empty, .rightBrace, .tag, .minus] ∧
      (∀ (us : List Token) (t : Token) (vs : List Token), ts = us ++ t :: vs → t.kind = .tag →
        (vs.head? = some t.ending ↔ t.LastInLine (visible vs))) ∧
      EndsTags ts := by
  obtain ⟨ts, scanned, kinds⟩ : ∃ ts, scan "@a\t->b\n@c @d \x7d@e-" = .ok ts ∧
      ts.map (·.kind) = [.tag, .empty, .tag, .tag, .empty, .rightBrace, .tag, .minus] :=
    ⟨_, by cbv, by cbv⟩
  exact ⟨ts, scanned, kinds, empty_iff_last_in_line scanned⟩

end Token

end TagScript
