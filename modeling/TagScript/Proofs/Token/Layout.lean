import TagScript.Proofs.Token.Lookahead

/-! Where the tokens of a text lie. Apart from the empty ones they are the
pieces that have a lexeme, each in its place; what lies between them is skipped. -/
namespace TagScript

open Unicode

def Span.slice (s : Span) (cs : List Char) : List Char :=
  (cs.drop s.start).take (s.stop - s.start)

theorem Span.slice_append (before text rest : List Char) :
    Span.slice ⟨before.length, before.length + text.length⟩ (before ++ (text ++ rest)) = text := by
  rw [slice, List.drop_left, Nat.add_sub_cancel_left, List.take_left]

/-- Which lexeme a text is, by the classes of the lexical grammar. -/
inductive Spells : List Char → Lexeme → Prop
  | sign {kind : Kind} {text : List Char} (mem : (kind, text) ∈ Piece.signs) :
      Spells text ⟨kind, String.ofList text⟩
  | integer {digits : List Char} (nonempty : digits ≠ [])
      (all : ∀ c ∈ digits, Decimal.isDigit c = true) :
      Spells digits ⟨.integer, String.ofList digits⟩
  | keyword {letters : List Char} {kind : Kind} (nonempty : letters ≠ [])
      (all : ∀ c ∈ letters, isAlphabetic c = true)
      (mem : (String.ofList (uppercase letters), kind) ∈ keywords) :
      Spells letters ⟨kind, String.ofList (uppercase letters)⟩
  | name {letters : List Char} (nonempty : letters ≠ [])
      (all : ∀ c ∈ letters, isAlphabetic c = true)
      (other : ∀ kind, (String.ofList (uppercase letters), kind) ∉ keywords) :
      Spells letters ⟨.identifier, String.ofList (lowercase letters)⟩
  | tag {letters : List Char} (nonempty : letters ≠ [])
      (all : ∀ c ∈ letters, isAlphabetic c = true) :
      Spells ('@' :: letters) ⟨.tag, String.ofList (lowercase letters)⟩

/-- A token of this kind can stand before the character. -/
def Kind.EndsBefore : Kind → Char → Prop
  | .identifier, c | .boolean, c | .tag, c | .printWord, c | .swapWord, c | .ifWord, c
  | .elseWord, c | .whileWord, c => isAlphabetic c = false
  | .integer, c => Decimal.isDigit c = false
  | .equal, c => c ≠ '='
  | .minus, c => c ≠ '-' ∧ c ≠ '>'
  | _, _ => True

def Skipped (cs : List Char) : Prop :=
  ∃ pieces : List Piece, cs = pieces.flatMap Piece.text ∧
    ∀ piece ∈ pieces, piece.Formed ∧ piece.lexeme? = none

namespace Token

/-- The tokens that stand for characters. -/
def visible (ts : List Token) : List Token :=
  ts.filter (·.kind ≠ .empty)

/-- What is left of a text from `position` on when the tokens are taken out. -/
def gaps (cs : List Char) (position : Nat) : List Token → List (List Char)
  | [] => [cs.drop position]
  | t :: ts => Span.slice ⟨position, t.span.start⟩ cs :: gaps cs t.span.stop ts

/-- The tokens lie in the text one after the other, each on the text that it is. -/
structure LaidOut (cs : List Char) (ts : List Token) : Prop where
  apart : ts.Pairwise fun a b => a.span.stop ≤ b.span.start
  inside : ∀ t ∈ ts, t.span.start < t.span.stop ∧ t.span.stop ≤ cs.length
  between : ∀ gap ∈ gaps cs 0 ts, Skipped gap
  spelled : ∀ t ∈ ts, ∀ x, Spells (t.span.slice cs) x ↔ x = t.toLexeme
  ended : ∀ t ∈ ts, ∀ c, cs[t.span.stop]? = some c → t.kind.EndsBefore c
  line : ∀ t ∈ ts, t.line = 1 + (cs.take t.span.start).count '\n'

end Token

theorem lookup_keywords_eq_some_iff {upper : String} {kind : Kind} :
    keywords.lookup upper = some kind ↔ (upper, kind) ∈ keywords := by
  constructor
  · intro h
    obtain ⟨before, after, eq, -⟩ := List.lookup_eq_some_iff.mp h
    rw [eq]
    exact List.mem_append_right _ List.mem_cons_self
  · intro mem
    have table : ∀ entry ∈ keywords, keywords.lookup entry.1 = some entry.2 := by decide
    exact table _ mem

theorem lookup_keywords_eq_none_iff {upper : String} :
    keywords.lookup upper = none ↔ ∀ kind, (upper, kind) ∉ keywords := by
  simp only [← lookup_keywords_eq_some_iff]
  cases keywords.lookup upper <;> simp

namespace Lexeme

theorem ofWord_cases (letters : List Char) :
    (∃ kind, (String.ofList (uppercase letters), kind) ∈ keywords ∧
      ofWord letters = ⟨kind, String.ofList (uppercase letters)⟩) ∨
    (∀ kind, (String.ofList (uppercase letters), kind) ∉ keywords) ∧
      ofWord letters = ⟨.identifier, String.ofList (lowercase letters)⟩ := by
  unfold ofWord
  dsimp only
  split
  · rename_i kind found
    exact .inl ⟨kind, lookup_keywords_eq_some_iff.mp found, rfl⟩
  · rename_i absent
    exact .inr ⟨lookup_keywords_eq_none_iff.mp absent, rfl⟩

theorem ofWord_of_mem_keywords {letters : List Char} {kind : Kind}
    (mem : (String.ofList (uppercase letters), kind) ∈ keywords) :
    ofWord letters = ⟨kind, String.ofList (uppercase letters)⟩ := by
  unfold ofWord
  simp only [lookup_keywords_eq_some_iff.mpr mem]

theorem ofWord_of_not_mem_keywords {letters : List Char}
    (absent : ∀ kind, (String.ofList (uppercase letters), kind) ∉ keywords) :
    ofWord letters = ⟨.identifier, String.ofList (lowercase letters)⟩ := by
  unfold ofWord
  simp only [lookup_keywords_eq_none_iff.mpr absent]

theorem ofWord_kind (letters : List Char) :
    (ofWord letters).kind ≠ .empty ∧
      ∀ c, isAlphabetic c = false → (ofWord letters).kind.EndsBefore c := by
  have table : ∀ entry ∈ keywords, entry.2 ≠ .empty ∧
      entry.2 ∈ [.printWord, .swapWord, .ifWord, .elseWord, .whileWord, .boolean] := by decide
  obtain ⟨kind, mem, eq⟩ | ⟨-, eq⟩ := ofWord_cases letters
  · rw [eq]
    obtain ⟨visible, among⟩ := table _ mem
    refine ⟨visible, fun c stop => ?_⟩
    simp only [List.mem_cons, List.not_mem_nil, or_false] at among
    rcases among with rfl | rfl | rfl | rfl | rfl | rfl <;> exact stop
  · rw [eq]
    exact ⟨nofun, fun c stop => stop⟩

end Lexeme

namespace Piece

theorem Formed.lexeme_kind {piece : Piece} {x : Lexeme} (formed : piece.Formed)
    (h : piece.lexeme? = some x) :
    x.kind ≠ .empty ∧ ∀ c, piece.StopsAt c → x.kind.EndsBefore c := by
  cases formed with
  | blank | newline | comment => cases h
  | @sign kind text mem =>
    have table : ∀ s ∈ signs, s.1 ≠ .empty := by decide
    cases h
    refine ⟨table _ mem, ?_⟩
    cases kind <;> simp [signs] at mem <;> exact fun c stop => stop
  | number | tag =>
    cases h
    exact ⟨by simp [Lexeme.ofTag], fun c stop => stop⟩
  | @word letters =>
    cases h
    exact Lexeme.ofWord_kind letters

theorem Formed.spells {piece : Piece} {x : Lexeme} (formed : piece.Formed)
    (h : piece.lexeme? = some x) : Spells piece.text x := by
  cases formed with
  | blank | newline | comment => cases h
  | sign mem => cases h; exact .sign mem
  | number nonempty all => cases h; exact .integer nonempty all
  | tag nonempty all => cases h; exact .tag nonempty all
  | @word letters nonempty all =>
    cases h
    obtain ⟨kind, mem, eq⟩ | ⟨absent, eq⟩ := Lexeme.ofWord_cases letters
    · rw [eq]
      exact .keyword nonempty all mem
    · rw [eq]
      exact .name nonempty all absent

theorem exists_of_spells {text : List Char} {x : Lexeme} (h : Spells text x) :
    ∃ piece : Piece, piece.Formed ∧ piece.text = text ∧ piece.lexeme? = some x := by
  cases h with
  | @sign kind _ mem => exact ⟨.sign kind text, .sign mem, rfl, rfl⟩
  | integer nonempty all => exact ⟨.number text, .number nonempty all, rfl, rfl⟩
  | keyword nonempty all mem =>
    exact ⟨.word text, .word nonempty all, rfl, congrArg some (Lexeme.ofWord_of_mem_keywords mem)⟩
  | name nonempty all absent =>
    exact ⟨.word text, .word nonempty all, rfl,
      congrArg some (Lexeme.ofWord_of_not_mem_keywords absent)⟩
  | @tag letters nonempty all => exact ⟨.tag letters, .tag nonempty all, rfl, rfl⟩

/-- The text of a piece decides which lexeme it is. -/
theorem Formed.spells_iff {piece : Piece} {x y : Lexeme} (formed : piece.Formed)
    (h : piece.lexeme? = some x) : Spells piece.text y ↔ y = x := by
  constructor
  · intro spells
    obtain ⟨other, formed', text_eq, lexeme_eq⟩ := exists_of_spells spells
    obtain rfl := formed'.eq_of_text_eq formed text_eq
    exact Option.some.inj (lexeme_eq.symm.trans h)
  · rintro rfl
    exact formed.spells h

theorem Formed.count_newline {piece : Piece} (formed : piece.Formed) :
    piece.text.count '\n' = if piece = .newline then 1 else 0 := by
  have no_newline {cs : List Char} {p : Char → Bool} (all : ∀ c ∈ cs, p c = true)
      (other : p '\n' = false) : cs.count '\n' = 0 := by
    rw [List.count_eq_zero]
    intro mem
    rw [all _ mem] at other
    cases other
  cases formed with
  | blank mem =>
    simp only [List.mem_cons, List.not_mem_nil, or_false] at mem
    rcases mem with rfl | rfl | rfl <;> rfl
  | newline => rfl
  | @comment c text opening line =>
    rw [if_neg nofun, List.count_eq_zero]
    simp only [Piece.text, List.mem_cons, not_or]
    refine ⟨by decide, ?_, line⟩
    rcases opening with rfl | rfl <;> decide
  | sign mem =>
    have table : ∀ s ∈ signs, s.2.count '\n' = 0 := by decide
    rw [if_neg nofun]
    exact table _ mem
  | number nonempty all =>
    rw [if_neg nofun]
    exact no_newline all rfl
  | word nonempty all =>
    rw [if_neg nofun]
    exact no_newline all (by decide)
  | tag nonempty all =>
    rw [if_neg nofun, text, List.count_cons_of_ne (by decide)]
    exact no_newline all (by decide)

end Piece

namespace Token

/-- The place of a visible token: a piece in the text that has its lexeme. -/
def At (cs : List Char) (t : Token) : Prop :=
  ∃ (before : List Char) (piece : Piece) (rest : List Char), cs = before ++ (piece.text ++ rest) ∧
    piece.Formed ∧ piece.StopsBefore rest ∧ piece.lexeme? = some t.toLexeme ∧
    t.span = ⟨before.length, before.length + piece.text.length⟩ ∧
    t.line = 1 + before.count '\n'

def visibleAfter (before : List Char) (pieces : List Piece) : List Token :=
  visible (Piece.allTokens before.length (1 + before.count '\n') pieces)

def ofPiece? (before : List Char) (piece : Piece) : Option Token :=
  piece.lexeme?.map fun x =>
    ⟨x, ⟨before.length, before.length + piece.text.length⟩, 1 + before.count '\n'⟩

theorem allTokens_cons {piece : Piece} (formed : piece.Formed) (before : List Char)
    (pieces : List Piece) :
    Piece.allTokens before.length (1 + before.count '\n') (piece :: pieces) =
      piece.tokens before.length (1 + before.count '\n') (piece.isolated pieces) ++
        Piece.allTokens (before ++ piece.text).length (1 + (before ++ piece.text).count '\n')
          pieces := by
  have next_line : (if piece = .newline then 1 + before.count '\n' + 1
      else 1 + before.count '\n') = 1 + (before ++ piece.text).count '\n' := by
    rw [List.count_append, formed.count_newline]
    split <;> rfl
  rw [Piece.allTokens, next_line, List.length_append]

theorem visibleAfter_cons {piece : Piece} (formed : piece.Formed) (before : List Char)
    (pieces : List Piece) :
    visibleAfter before (piece :: pieces) =
      (ofPiece? before piece).toList ++ visibleAfter (before ++ piece.text) pieces := by
  rw [visibleAfter, allTokens_cons formed, visible, List.filter_append, visibleAfter, visible]
  congr 1
  cases lexeme_eq : piece.lexeme? with
  | none => simp [Piece.tokens, ofPiece?, lexeme_eq]
  | some x =>
    have kept : x.kind ≠ .empty := (formed.lexeme_kind lexeme_eq).1
    simp only [Piece.tokens, ofPiece?, lexeme_eq]
    split <;> simp [kept]

theorem span_of_mem_ofPiece? {before : List Char} {piece : Piece} {t : Token}
    (h : t ∈ ofPiece? before piece) :
    t.span = ⟨before.length, before.length + piece.text.length⟩ := by
  obtain ⟨x, -, rfl⟩ := Option.map_eq_some_iff.mp h
  rfl

theorem at_of_mem_ofPiece? {before rest : List Char} {piece : Piece} {t : Token}
    (formed : piece.Formed) (stops : piece.StopsBefore rest) (h : t ∈ ofPiece? before piece) :
    At (before ++ (piece.text ++ rest)) t := by
  obtain ⟨x, lexeme_eq, rfl⟩ := Option.map_eq_some_iff.mp h
  exact ⟨before, piece, rest, rfl, formed, stops, lexeme_eq, rfl, rfl⟩

theorem at_of_mem_visibleAfter {before cs : List Char} {pieces : List Piece}
    (munch : Piece.Munch cs pieces) :
    ∀ t ∈ visibleAfter before pieces, At (before ++ cs) t ∧ before.length ≤ t.span.start := by
  induction munch generalizing before with
  | nil => exact nofun
  | @cons piece rest pieces formed longest others ih =>
    intro t mem
    rw [visibleAfter_cons formed, List.mem_append, Option.mem_toList] at mem
    rcases mem with here | later
    · refine ⟨at_of_mem_ofPiece? formed (formed.longest_iff.mp longest) here, ?_⟩
      exact Nat.le_of_eq (congrArg Span.start (span_of_mem_ofPiece? here)).symm
    · obtain ⟨place, bound⟩ := ih t later
      rw [List.append_assoc] at place
      rw [List.length_append] at bound
      exact ⟨place, Nat.le_of_add_right_le bound⟩

theorem pairwise_visibleAfter {before cs : List Char} {pieces : List Piece}
    (munch : Piece.Munch cs pieces) :
    (visibleAfter before pieces).Pairwise fun a b => a.span.stop ≤ b.span.start := by
  induction munch generalizing before with
  | nil => exact .nil
  | @cons piece rest pieces formed longest others ih =>
    rw [visibleAfter_cons formed, List.pairwise_append]
    refine ⟨?_, ih, ?_⟩
    · cases ofPiece? before piece with
      | none => exact .nil
      | some t => exact List.pairwise_singleton _ t
    · intro a here b later
      rw [span_of_mem_ofPiece? (Option.mem_toList.mp here), ← List.length_append]
      exact (at_of_mem_visibleAfter others b later).2

theorem skipped_of_mem_gaps (start before : List Char) {cs : List Char} {pieces : List Piece}
    (munch : Piece.Munch cs pieces) (skipped : Skipped before) :
    ∀ gap ∈ gaps (start ++ before ++ cs) start.length (visibleAfter (start ++ before) pieces),
      Skipped gap := by
  induction munch generalizing start before with
  | nil =>
    have tail : gaps (start ++ before ++ []) start.length [] = [before] := by simp [gaps]
    intro gap mem
    change gap ∈ gaps (start ++ before ++ []) start.length [] at mem
    rw [tail, List.mem_singleton] at mem
    exact mem ▸ skipped
  | @cons piece rest pieces formed longest others ih =>
    rw [visibleAfter_cons formed]
    cases lexeme_eq : piece.lexeme? with
    | none =>
      have longer : Skipped (before ++ piece.text) := by
        obtain ⟨ps, eq, all⟩ := skipped
        refine ⟨ps ++ [piece], by simp [eq], ?_⟩
        intro p mem
        rcases List.mem_append.mp mem with mem | mem
        · exact all p mem
        · rw [List.mem_singleton.mp mem]
          exact ⟨formed, lexeme_eq⟩
      have further := ih start (before ++ piece.text) longer
      simpa [ofPiece?, lexeme_eq] using further
    | some x =>
      have further := ih (start ++ before ++ piece.text) [] ⟨[], rfl, nofun⟩
      have gap_eq := Span.slice_append start before (piece.text ++ rest)
      simp only [List.append_nil, List.append_assoc, List.length_append] at further gap_eq ⊢
      simp only [ofPiece?, lexeme_eq, Option.map_some, Option.toList_some, List.singleton_append,
        gaps, List.forall_mem_cons, List.length_append, gap_eq]
      rw [Nat.add_assoc]
      exact ⟨skipped, further⟩

theorem map_visibleAfter (before : List Char) {cs : List Char} {pieces : List Piece}
    (munch : Piece.Munch cs pieces) :
    (visibleAfter before pieces).map (fun t => (t.span.slice (before ++ cs), t.toLexeme)) =
      pieces.filterMap fun piece => piece.lexeme?.map (piece.text, ·) := by
  induction munch generalizing before with
  | nil => rfl
  | @cons piece rest pieces formed longest others ih =>
    have further := ih (before ++ piece.text)
    rw [List.append_assoc] at further
    rw [visibleAfter_cons formed, List.map_append, further]
    cases lexeme_eq : piece.lexeme? with
    | none => simp [ofPiece?, lexeme_eq]
    | some x => simp [ofPiece?, lexeme_eq, Span.slice_append]

/-! What holds of every token in its place. -/

section At

variable {cs : List Char} {t : Token}

theorem At.inside (h : At cs t) : t.span.start < t.span.stop ∧ t.span.stop ≤ cs.length := by
  obtain ⟨before, piece, rest, rfl, formed, -, -, span_eq, -⟩ := h
  have length_pos := List.length_pos_iff.mpr formed.text_ne_nil
  rw [span_eq]
  simp only [List.length_append]
  omega

theorem At.spelled (h : At cs t) (x : Lexeme) : Spells (t.span.slice cs) x ↔ x = t.toLexeme := by
  obtain ⟨before, piece, rest, rfl, formed, -, lexeme_eq, span_eq, -⟩ := h
  rw [span_eq, Span.slice_append]
  exact formed.spells_iff lexeme_eq

theorem At.ended (h : At cs t) {c : Char} (next : cs[t.span.stop]? = some c) :
    t.kind.EndsBefore c := by
  obtain ⟨before, piece, rest, rfl, formed, stops, lexeme_eq, span_eq, -⟩ := h
  rw [span_eq, ← List.append_assoc, List.getElem?_append_right (by simp)] at next
  apply (formed.lexeme_kind lexeme_eq).2
  apply stops
  rw [Option.mem_def, List.head?_eq_getElem?, ← next]
  simp

theorem At.line (h : At cs t) : t.line = 1 + (cs.take t.span.start).count '\n' := by
  obtain ⟨before, piece, rest, rfl, -, -, -, span_eq, line_eq⟩ := h
  rw [line_eq, span_eq, List.take_left]

end At

theorem laidOut_visibleAfter {cs : List Char} {pieces : List Piece}
    (munch : Piece.Munch cs pieces) : LaidOut cs (visibleAfter [] pieces) := by
  have place : ∀ t ∈ visibleAfter [] pieces, At cs t :=
    fun t mem => (at_of_mem_visibleAfter munch t mem).1
  exact {
    apart := pairwise_visibleAfter munch
    inside := fun t mem => (place t mem).inside
    between := skipped_of_mem_gaps [] [] munch ⟨[], rfl, nofun⟩
    spelled := fun t mem => (place t mem).spelled
    ended := fun t mem c => (place t mem).ended
    line := fun t mem => (place t mem).line }

theorem scan_eq_ok_iff {source : String} {ts : List Token} :
    scan source = .ok ts ↔ ∃ pieces, Piece.Munch source.toList pieces ∧
      (∀ piece ∈ pieces, piece.InRange) ∧ Piece.allTokens 0 1 pieces = ts := by
  rw [scan_eq, Piece.map_eq_ok_iff]
  simp only [Piece.split_eq_ok_iff, and_assoc]

theorem laidOut_of_scan {source : String} {ts : List Token} (scanned : scan source = .ok ts) :
    LaidOut source.toList (visible ts) := by
  obtain ⟨pieces, munch, -, rfl⟩ := scan_eq_ok_iff.mp scanned
  exact laidOut_visibleAfter munch

/-- A text has tokens if and only if it is a row of longest pieces with all its
numbers in range, and then they are these pieces, laid out as in the text. -/
theorem scan_lossless (source : String) :
    ((∃ ts, scan source = .ok ts) ↔
      ∃ pieces, Piece.Munch source.toList pieces ∧ ∀ piece ∈ pieces, piece.InRange) ∧
    ∀ ts pieces, scan source = .ok ts → Piece.Munch source.toList pieces →
      (visible ts).map (fun t => (t.span.slice source.toList, t.toLexeme)) =
        pieces.filterMap (fun piece => piece.lexeme?.map (piece.text, ·)) ∧
      LaidOut source.toList (visible ts) := by
  constructor
  · simp only [scan_eq_ok_iff]
    constructor
    · rintro ⟨ts, pieces, munch, range, -⟩
      exact ⟨pieces, munch, range⟩
    · rintro ⟨pieces, munch, range⟩
      exact ⟨_, pieces, munch, range, rfl⟩
  · intro ts pieces scanned munch
    obtain ⟨others, munch', -, rfl⟩ := scan_eq_ok_iff.mp scanned
    obtain rfl := munch.unique munch'
    exact ⟨map_visibleAfter [] munch, laidOut_visibleAfter munch⟩

end Token

end TagScript
