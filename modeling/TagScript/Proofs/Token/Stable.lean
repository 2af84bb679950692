import TagScript.Proofs.Token.Row

/-! Tokens that can be written as they are kept. A name is kept in lower case,
which need not be read as the same name again: the lower case of a letter may
hold a character that is no letter. -/
namespace TagScript

open Unicode

/-- The token is scanned again when its text is written, after `@` for a tag. -/
structure Token.Stable (t : Token) : Prop where
  name : t.kind = .identifier →
    ∃ ts, Token.scan t.text = .ok ts ∧ Token.lexemes ts = [t.toLexeme]
  tag : t.kind = .tag →
    ∃ ts, Token.scan ("@" ++ t.text) = .ok ts ∧ Token.lexemes (Token.visible ts) = [t.toLexeme]

structure Lexeme.Plain (x : Lexeme) : Prop where
  name : x.kind = .identifier →
    (Piece.word x.text.toList).Formed ∧ Lexeme.ofWord x.text.toList = x
  tag : x.kind = .tag → (Piece.tag x.text.toList).Formed ∧ Lexeme.ofTag x.text.toList = x
  number : x.kind = .integer → (Piece.number x.text.toList).Formed

namespace Lexeme.Plain

variable {kind : Kind} {text : String}

theorem of_closed (h : kind ∉ [.identifier, .tag, .integer]) : Plain ⟨kind, text⟩ := by
  simp only [List.mem_cons, List.not_mem_nil, or_false, not_or] at h
  exact ⟨fun eq => absurd eq h.1, fun eq => absurd eq h.2.1, fun eq => absurd eq h.2.2⟩

theorem of_name (nonempty : text.toList ≠ []) (all : text.toList.all isAlphabetic = true)
    (word_eq : ofWord text.toList = ⟨.identifier, text⟩) : Plain ⟨.identifier, text⟩ := by
  refine ⟨fun _ => ⟨.word nonempty (List.all_eq_true.mp all), word_eq⟩, ?_, ?_⟩ <;> simp

theorem of_tag (nonempty : text.toList ≠ []) (all : text.toList.all isAlphabetic = true)
    (tag_eq : ofTag text.toList = ⟨.tag, text⟩) : Plain ⟨.tag, text⟩ := by
  refine ⟨?_, fun _ => ⟨.tag nonempty (List.all_eq_true.mp all), tag_eq⟩, ?_⟩ <;> simp

end Lexeme.Plain

namespace Piece

theorem Formed.lexeme_cases {piece : Piece} {x : Lexeme} (formed : piece.Formed)
    (h : piece.lexeme? = some x) :
    x.kind ∉ [.identifier, .tag, .integer] ∨
    (∃ letters, piece = .word letters ∧ Lexeme.ofWord letters = x ∧ x.kind = .identifier ∧
      lowercase letters = x.text.toList) ∨
    (∃ letters, piece = .tag letters ∧ Lexeme.ofTag letters = x ∧ x.kind = .tag ∧
      lowercase letters = x.text.toList) ∨
    piece = .number x.text.toList ∧ x.kind = .integer := by
  cases formed with
  | blank | newline | comment => cases h
  | sign mem =>
    have table : ∀ s ∈ signs, s.1 ∉ [.identifier, .tag, .integer] := by decide
    cases h
    exact .inl (table _ mem)
  | number =>
    cases h
    exact .inr (.inr (.inr ⟨by rw [String.toList_ofList], rfl⟩))
  | @word letters =>
    have table : ∀ entry ∈ keywords, entry.2 ∉ [.identifier, .tag, .integer] := by decide
    cases h
    obtain ⟨kind, mem, eq⟩ | ⟨-, eq⟩ := Lexeme.ofWord_cases letters
    · rw [eq]
      exact .inl (table _ mem)
    · rw [eq]
      exact .inr (.inl ⟨letters, rfl, eq, rfl, String.toList_ofList.symm⟩)
  | @tag letters =>
    cases h
    exact .inr (.inr (.inl ⟨letters, rfl, rfl, rfl, String.toList_ofList.symm⟩))

theorem Formed.eq_word {piece : Piece} {x : Lexeme} (formed : piece.Formed)
    (h : piece.lexeme? = some x) (kind : x.kind = .identifier) :
    ∃ letters, piece = .word letters ∧ Lexeme.ofWord letters = x ∧
      lowercase letters = x.text.toList := by
  rcases formed.lexeme_cases h with closed | word | ⟨_, _, _, other, _⟩ | ⟨_, other⟩
  · rw [kind] at closed
    exact absurd (by decide) closed
  · obtain ⟨letters, eq, word_eq, -, lower_eq⟩ := word
    exact ⟨letters, eq, word_eq, lower_eq⟩
  all_goals
    rw [kind] at other
    cases other

theorem Formed.eq_tag {piece : Piece} {x : Lexeme} (formed : piece.Formed)
    (h : piece.lexeme? = some x) (kind : x.kind = .tag) :
    ∃ letters, piece = .tag letters ∧ Lexeme.ofTag letters = x ∧
      lowercase letters = x.text.toList := by
  rcases formed.lexeme_cases h with closed | ⟨_, _, _, other, _⟩ | tag | ⟨_, other⟩
  · rw [kind] at closed
    exact absurd (by decide) closed
  · rw [kind] at other
    cases other
  · obtain ⟨letters, eq, tag_eq, -, lower_eq⟩ := tag
    exact ⟨letters, eq, tag_eq, lower_eq⟩
  · rw [kind] at other
    cases other

theorem Formed.eq_number {piece : Piece} {x : Lexeme} (formed : piece.Formed)
    (h : piece.lexeme? = some x) (kind : x.kind = .integer) : piece = .number x.text.toList := by
  rcases formed.lexeme_cases h with closed | ⟨_, _, _, other, _⟩ | ⟨_, _, _, other, _⟩ | number
  · rw [kind] at closed
    exact absurd (by decide) closed
  · rw [kind] at other
    cases other
  · rw [kind] at other
    cases other
  · exact number.1

theorem filterMap_eq_singleton_of_scan {source : String} {ts : List Token} {x : Lexeme}
    (scanned : Token.scan source = .ok ts)
    (one : (Token.lexemes ts).filter (·.kind ≠ .empty) = [x]) :
    ∃ pieces, Munch source.toList pieces ∧ pieces.filterMap lexeme? = [x] := by
  obtain ⟨pieces, munch, -, rfl⟩ := Token.scan_eq_ok_iff.mp scanned
  rw [lexemes_allTokens, filter_leaves munch.formed.2] at one
  exact ⟨pieces, munch, one⟩

end Piece

namespace Token

open Piece

theorem lexemes_visible (ts : List Token) :
    lexemes (visible ts) = (lexemes ts).filter (·.kind ≠ .empty) := by
  rw [lexemes, lexemes, visible, List.filter_map]
  rfl

theorem Stable.word {t : Token} (stable : t.Stable) (kind : t.kind = .identifier) :
    (Piece.word t.text.toList).Formed ∧ Lexeme.ofWord t.text.toList = t.toLexeme := by
  obtain ⟨ts, scanned, one⟩ := stable.name kind
  have seen : (lexemes ts).filter (·.kind ≠ .empty) = [t.toLexeme] := by
    simp [one, kind]
  obtain ⟨pieces, munch, one⟩ := filterMap_eq_singleton_of_scan scanned seen
  have mem : t.toLexeme ∈ pieces.filterMap lexeme? := by simp [one]
  obtain ⟨piece, piece_mem, lexeme_eq⟩ := List.mem_filterMap.mp mem
  have formed := munch.formed.2 piece piece_mem
  obtain ⟨letters, rfl, word_eq, lower_eq⟩ := formed.eq_word lexeme_eq kind
  have clear : ∀ c ∈ t.text.toList, c ∉ separators := by
    cases formed with
    | word _ all =>
      rw [← lower_eq]
      exact lowercase_not_mem_separators all
  obtain ⟨only, rfl, text_eq⟩ := munch.eq_singleton one clear
  rw [← List.mem_singleton.mp piece_mem] at text_eq
  have text_eq : t.text.toList = letters := text_eq
  rw [text_eq]
  exact ⟨formed, word_eq⟩

theorem Stable.tag_letters {t : Token} (stable : t.Stable) (kind : t.kind = .tag) :
    (Piece.tag t.text.toList).Formed ∧ Lexeme.ofTag t.text.toList = t.toLexeme := by
  obtain ⟨ts, scanned, one⟩ := stable.tag kind
  rw [lexemes_visible] at one
  obtain ⟨pieces, munch, one⟩ := filterMap_eq_singleton_of_scan scanned one
  have mem : t.toLexeme ∈ pieces.filterMap lexeme? := by simp [one]
  obtain ⟨piece, piece_mem, lexeme_eq⟩ := List.mem_filterMap.mp mem
  have formed := munch.formed.2 piece piece_mem
  obtain ⟨letters, rfl, tag_eq, lower_eq⟩ := formed.eq_tag lexeme_eq kind
  have source_eq : ("@" ++ t.text).toList = '@' :: t.text.toList := by
    rw [String.toList_append]
    rfl
  have clear : ∀ c ∈ ("@" ++ t.text).toList, c ∉ separators := by
    rw [source_eq, ← lower_eq, List.forall_mem_cons]
    cases formed with
    | tag _ all => exact ⟨by decide, lowercase_not_mem_separators all⟩
  obtain ⟨only, rfl, text_eq⟩ := munch.eq_singleton one clear
  rw [← List.mem_singleton.mp piece_mem, source_eq] at text_eq
  have text_eq : t.text.toList = letters := List.tail_eq_of_cons_eq text_eq
  rw [text_eq]
  exact ⟨formed, tag_eq⟩

theorem stable_of_plain {t : Token} (plain : t.toLexeme.Plain) : t.Stable := by
  constructor
  · intro kind
    obtain ⟨formed, word_eq⟩ := plain.name kind
    have row : Row [.word t.text.toList] [] := ⟨⟨formed, trivial, stopsBefore_nil _⟩, trivial⟩
    have text_eq : String.ofList ([Piece.word t.text.toList].flatMap text) = t.text := by
      simp [Piece.text]
    refine ⟨_, text_eq ▸ row.scan_eq, ?_⟩
    rw [lexemes_allTokens]
    exact congrArg (fun x => [x]) word_eq
  · intro kind
    obtain ⟨formed, tag_eq⟩ := plain.tag kind
    have row : Row [.tag t.text.toList] [] := ⟨⟨formed, trivial, stopsBefore_nil _⟩, trivial⟩
    have text_eq : String.ofList ([Piece.tag t.text.toList].flatMap text) = "@" ++ t.text := by
      apply String.toList_inj.mp
      simp [Piece.text]
    refine ⟨_, text_eq ▸ row.scan_eq, ?_⟩
    rw [lexemes_visible, lexemes_allTokens]
    exact congrArg (fun x => [x]) tag_eq

theorem lexeme_of_mem_leaves {pieces : List Piece} {x : Lexeme} (mem : x ∈ leaves pieces) :
    x.kind = .empty ∨ ∃ piece ∈ pieces, piece.lexeme? = some x := by
  induction pieces with
  | nil => cases mem
  | cons piece pieces ih =>
    simp only [leaves, List.mem_append, Option.mem_toList] at mem
    rcases mem with here | alone | later
    · exact .inr ⟨piece, List.mem_cons_self, here⟩
    · split at alone
      · rw [List.mem_singleton.mp alone]
        exact .inl rfl
      · cases alone
    · rcases ih later with empty | ⟨other, mem, eq⟩
      · exact .inl empty
      · exact .inr ⟨other, List.mem_cons_of_mem _ mem, eq⟩

/-- In a text whose names are stable every token can be written as it is kept. -/
theorem plain_of_scan {source : String} {ts : List Token} (scanned : scan source = .ok ts)
    (stable : ∀ t ∈ ts, t.Stable) : ∀ x ∈ lexemes ts, x.Plain := by
  intro x mem
  obtain ⟨t, t_mem, rfl⟩ := List.mem_map.mp mem
  refine ⟨(stable t t_mem).word, (stable t t_mem).tag_letters, fun kind => ?_⟩
  obtain ⟨pieces, munch, -, rfl⟩ := scan_eq_ok_iff.mp scanned
  rw [lexemes_allTokens] at mem
  rcases lexeme_of_mem_leaves mem with empty | ⟨piece, piece_mem, lexeme_eq⟩
  · rw [kind] at empty
    cases empty
  · have formed := munch.formed.2 piece piece_mem
    rw [← formed.eq_number lexeme_eq kind]
    exact formed

end Token

end TagScript
