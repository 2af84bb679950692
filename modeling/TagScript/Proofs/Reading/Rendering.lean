import TagScript.Proofs.Reading.Completeness
import TagScript.Proofs.Syntax.Pieces
import TagScript.Proofs.Token.Stable

/-! Canonical text is read back. The pieces of a canonical text keep apart, and
what they leave is a phrase of the grammar for the tree that was written:
arithmetic stands in parentheses wherever it is no factor, and the end of a line
comes right after every invocation of a tag. -/
namespace TagScript

open Grammar Piece

namespace Piece

/-- The characters before which words, numbers and signs end in canonical text. -/
def closers : List Char := [' ', ',', '[', ']', ')', '\n']

def Closes (cs : List Char) : Prop :=
  ∀ c ∈ cs.head?, c ∈ closers

theorem closes_cons {c : Char} {cs : List Char} (mem : c ∈ closers) : Closes (c :: cs) := by
  intro d head
  cases head
  exact mem

theorem Formed.stopsBefore_closes {piece : Piece} {rest : List Char} (formed : piece.Formed)
    (visible : piece.lexeme?.isSome = true) (closes : Closes rest) : piece.StopsBefore rest := by
  have table : ∀ c ∈ closers, c ∉ ['-', '>', '='] ∧ Decimal.isDigit c = false ∧
      Unicode.isAlphabetic c = false := Unicode.forall_listed (by decide)
  intro c head
  obtain ⟨other, no_digit, no_letter⟩ := table c (closes c head)
  cases formed with
  | blank | newline => exact trivial
  | comment => cases visible
  | @sign kind text mem =>
    cases kind with
    | minus => exact ⟨fun eq => other (by simp [eq]), fun eq => other (by simp [eq])⟩
    | equal => exact fun eq => other (by simp [eq])
    | _ => exact trivial
  | number => exact no_digit
  | word => exact no_letter
  | tag => exact no_letter

end Piece

/-- The pieces keep apart before what closes them, and leave a phrase. -/
structure Written (Phrase : List Lexeme → Prop) (pieces : List Piece) : Prop where
  row : ∀ rest, Closes rest → Row pieces rest
  phrase : Phrase (leaves pieces)

namespace Written

variable {P Q R : List Lexeme → Prop} {pieces others : List Piece}

theorem mono (h : Written P pieces) (weaker : ∀ {xs}, P xs → Q xs) : Written Q pieces :=
  ⟨h.row, weaker h.phrase⟩

theorem append (h : Written P pieces) (h' : Written Q others)
    (closes : ∀ rest, Closes (others.flatMap text ++ rest))
    (apart : leaves (pieces ++ others) = leaves pieces ++ leaves others)
    (join : ∀ {xs ys}, P xs → Q ys → R (xs ++ ys)) : Written R (pieces ++ others) := by
  refine ⟨fun rest closed => ?_, ?_⟩
  · exact row_append.mpr ⟨h.row _ (closes rest), h'.row rest closed⟩
  · rw [apart]
    exact join h.phrase h'.phrase

theorem single {piece : Piece} {x : Lexeme} (formed : piece.Formed) (range : piece.InRange)
    (lexeme_eq : piece.lexeme? = some x) (no_tag : ∀ letters, piece ≠ .tag letters)
    (phrase : P [x]) : Written P [piece] := by
  refine ⟨fun rest closed => ?_, ?_⟩
  · have stops := formed.stopsBefore_closes (by rw [lexeme_eq]; rfl) closed
    exact ⟨⟨formed, range, stops⟩, trivial⟩
  · have alone : piece.isolated [] = false := by
      cases piece with
      | tag letters => exact absurd rfl (no_tag letters)
      | _ => rfl
    simpa [leaves, lexeme_eq, alone] using phrase

theorem blank (h : Written P pieces) : Written P (.blank ' ' :: pieces) := by
  refine ⟨fun rest closed => ⟨⟨.blank (by decide), trivial, fun _ _ => trivial⟩, ?_⟩, h.phrase⟩
  exact h.row rest closed

theorem spaced {piece : Piece} {x : Lexeme} (formed : piece.Formed) (range : piece.InRange)
    (lexeme_eq : piece.lexeme? = some x) (no_tag : ∀ letters, piece ≠ .tag letters)
    (h : Written P pieces) (join : ∀ {xs}, P xs → Q (x :: xs)) :
    Written Q (piece :: .blank ' ' :: pieces) := by
  refine ⟨fun rest closed => ⟨⟨formed, range, ?_⟩, h.blank.row rest closed⟩, ?_⟩
  · exact formed.stopsBefore_closes (by rw [lexeme_eq]; rfl) (closes_cons (by decide))
  · have alone : piece.isolated (.blank ' ' :: pieces) = false := by
      cases piece with
      | tag letters => exact absurd rfl (no_tag letters)
      | _ => rfl
    have left : leaves (piece :: .blank ' ' :: pieces) = x :: leaves pieces := by
      rw [leaves, lexeme_eq, alone]
      rfl
    rw [left]
    exact join h.phrase

theorem signed {kind : Kind} {text : List Char} (mem : (kind, text) ∈ signs)
    (h : Written P pieces) (join : ∀ {xs}, P xs → Q (⟨kind, String.ofList text⟩ :: xs)) :
    Written Q (.blank ' ' :: .sign kind text :: .blank ' ' :: pieces) :=
  (spaced (.sign mem) trivial rfl nofun h join).blank

theorem enclose {kind kind' : Kind} {c c' : Char} (mem : (kind, [c]) ∈ signs)
    (mem' : (kind', [c']) ∈ signs) (free : kind ∉ [.minus, .equal])
    (free' : kind' ∉ [.minus, .equal]) (closes : c' ∈ closers)
    (h : Written P pieces) (no_tag : ∀ letters, Piece.tag letters ∉ pieces)
    (join : ∀ {xs}, P xs →
      Q (⟨kind, String.ofList [c]⟩ :: (xs ++ [⟨kind', String.ofList [c']⟩]))) :
    Written Q (Piece.enclose (.sign kind [c]) pieces (.sign kind' [c'])) := by
  have stops {kind : Kind} {c : Char} (free : kind ∉ [.minus, .equal]) (rest : List Char) :
      (Piece.sign kind [c]).StopsBefore rest := by
    intro d _
    cases kind <;> first | exact trivial | exact absurd (by decide) free
  refine ⟨fun rest closed => ?_, ?_⟩
  · refine ⟨⟨.sign mem, trivial, stops free _⟩, row_append.mpr ⟨?_, ?_⟩⟩
    · exact h.row _ (closes_cons closes)
    · exact ⟨⟨.sign mem', trivial, stops free' _⟩, trivial⟩
  · have inner : leaves (pieces ++ [Piece.sign kind' [c']]) =
        leaves pieces ++ [⟨kind', String.ofList [c']⟩] := leaves_append_of_no_tag no_tag _
    have whole : leaves (Piece.enclose (.sign kind [c]) pieces (.sign kind' [c'])) =
        ⟨kind, String.ofList [c]⟩ :: leaves (pieces ++ [.sign kind' [c']]) := rfl
    rw [whole, inner]
    exact join h.phrase

end Written

/-! Expressions. Any arithmetic is written as a factor. -/

section Expr

variable {xs ys : List Lexeme} {x : Lexeme}

theorem Lexeme.Plain.written_name (plain : x.Plain) (kind : x.kind = .identifier) :
    Written (· = [x]) [.word x.text.toList] :=
  .single (plain.name kind).1 trivial (congrArg some (plain.name kind).2) nofun rfl

theorem written_integer {n : Int64} (plain : x.Plain) (kind : x.kind = .integer)
    (value : Integer.read? x.text.toList = some n) :
    Written (Arithmetic .factor · (.integer n .nowhere)) (Expr.integer n .nowhere).pieces := by
  cases plain.number kind with
  | number nonempty all =>
    have digits_eq := Integer.text_of_read? nonempty all value
    have read_eq := (Integer.read?_digits nonempty all).trans value
    have small := (Integer.isSome_read?_of_digits nonempty all).mp (by rw [value]; rfl)
    rw [Expr.pieces, digits_eq]
    apply Written.single (.number (Decimal.digits_ne_nil _) (List.all_eq_true.mp
      (Decimal.all_isDigit_digits _))) _ rfl fun _ => Piece.noConfusion
    · apply Arithmetic.integer rfl
      rwa [String.toList_ofList]
    · exact Nat.le_trans (Nat.le_of_eq (Decimal.value_digits _)) small

theorem written_boolean (b : Bool) :
    Written (Arithmetic .factor · (.boolean b .nowhere)) (Expr.boolean b .nowhere).pieces := by
  cases b with
  | true =>
    have word : (Piece.word "TRUE".toList).Formed :=
      .word (by decide) (List.all_eq_true.mp (by decide))
    exact .single (x := ⟨.boolean, "TRUE"⟩) word trivial (by decide) nofun (.boolean rfl)
  | false =>
    have word : (Piece.word "FALSE".toList).Formed :=
      .word (by decide) (List.all_eq_true.mp (by decide))
    exact .single (x := ⟨.boolean, "FALSE"⟩) word trivial (by decide) nofun (.boolean rfl)

theorem written_index {P : List Lexeme → Prop} {index : Expr} (plain : x.Plain)
    (kind : x.kind = .identifier) (inner : Written (Arithmetic .factor · index) index.pieces)
    (join : ∀ {xs}, Arithmetic .sum xs index → P (x :: ⟨.leftBracket, "["⟩ ::
      (xs ++ [⟨.rightBracket, "]"⟩]))) :
    Written P (.word x.text.toList :: inBrackets index.pieces) := by
  have brackets : Written (fun ys => P (x :: ys)) (inBrackets index.pieces) :=
    .enclose (by decide) (by decide) (by decide) (by decide) (by decide) inner
      (fun _ => index.no_tag) fun phrase => join (.term (.factor phrase))
  apply (plain.written_name kind).append brackets
  · exact fun rest => closes_cons (by decide)
  · exact leaves_append_of_no_tag (by simp) _
  · rintro _ ys rfl phrase
    exact phrase

theorem BinaryOp.mem_signs (op : BinaryOp) : (op.kind, op.symbol.toList) ∈ signs := by
  cases op <;> decide

theorem written_binary {P Q : List Lexeme → Prop} {left right : Expr} (op : BinaryOp)
    (before : Written P left.pieces) (last : Written (Arithmetic .factor · right) right.pieces)
    (join : ∀ {xs ys}, P xs → Arithmetic .factor ys right →
      Q (xs ++ ⟨op.kind, op.symbol⟩ :: ys)) :
    Written Q (left.pieces ++ .blank ' ' :: op.piece :: .blank ' ' :: right.pieces) := by
  have tail : Written
      (fun zs => ∃ ys, zs = ⟨op.kind, op.symbol⟩ :: ys ∧ Arithmetic .factor ys right)
      (.blank ' ' :: op.piece :: .blank ' ' :: right.pieces) := by
    apply Written.signed op.mem_signs last
    intro ys phrase
    rw [String.ofList_toList]
    exact ⟨ys, rfl, phrase⟩
  apply before.append tail
  · exact fun rest => closes_cons (by decide)
  · exact leaves_append_of_no_tag (fun _ => left.no_tag) _
  · rintro xs _ phrase ⟨ys, rfl, phrase'⟩
    exact join phrase phrase'

theorem written_group {left right : Expr} {op : BinaryOp} (arithmetic : op.isComparison = false)
    (before : Written (Arithmetic .factor · left) left.pieces)
    (last : Written (Arithmetic .factor · right) right.pieces)
    (join : ∀ {xs ys}, Arithmetic .factor xs left → Arithmetic .factor ys right →
      Arithmetic .sum (xs ++ ⟨op.kind, op.symbol⟩ :: ys) (.binary left op right .nowhere)) :
    Written (Arithmetic .factor · (.binary left op right .nowhere))
      (Expr.binary left op right .nowhere).pieces := by
  have bare := written_binary (Q := (Arithmetic .sum · (.binary left op right .nowhere))) op before
    last join
  have no_tag : ∀ letters, Piece.tag letters ∉
      left.pieces ++ .blank ' ' :: op.piece :: .blank ' ' :: right.pieces := by
    intro letters
    simp [left.no_tag, right.no_tag, BinaryOp.piece]
  unfold Expr.pieces
  rw [if_neg (by rw [arithmetic]; decide)]
  apply bare.enclose (by decide) (by decide) (by decide) (by decide) (by decide) no_tag
  exact fun phrase => .group rfl phrase rfl

theorem written_of_arithmetic {level : Reading.Level} {e : Expr} (phrase : Arithmetic level xs e)
    (plain : ∀ x ∈ xs, x.Plain) : Written (Arithmetic .factor · e) e.pieces := by
  induction phrase with
  | integer kind value => exact written_integer (plain _ List.mem_cons_self) kind value
  | boolean kind => exact written_boolean _
  | named kind =>
    apply ((plain _ List.mem_cons_self).written_name kind).mono
    rintro _ rfl
    exact .named kind
  | element kind _ _ _ ih =>
    apply written_index (plain _ List.mem_cons_self) kind
    · exact ih fun x mem => plain x (by simp [mem])
    · exact fun phrase => .element kind rfl phrase rfl
  | group _ _ _ ih => exact ih fun x mem => plain x (by simp [mem])
  | factor _ ih | term _ ih => exact ih plain
  | product _ mem _ before_ih last_ih =>
    have table : ∀ s ∈ productSigns, s.1 = s.2.kind ∧ s.2.isComparison = false := by decide
    obtain ⟨kind_eq, arithmetic⟩ := table _ mem
    have before := before_ih fun x mem => plain x (by simp [mem])
    have last := last_ih fun x mem => plain x (by simp [mem])
    apply written_group arithmetic before last
    exact fun left right => .term (.product (.factor left) (kind_eq ▸ mem) right)
  | sum _ mem _ before_ih last_ih =>
    have table : ∀ s ∈ sumSigns, s.1 = s.2.kind ∧ s.2.isComparison = false := by decide
    obtain ⟨kind_eq, arithmetic⟩ := table _ mem
    have before := before_ih fun x mem => plain x (by simp [mem])
    have last := last_ih fun x mem => plain x (by simp [mem])
    apply written_group arithmetic before last
    exact fun left right => .sum (.term (.factor left)) (kind_eq ▸ mem) (.factor right)

theorem written_of_comparison {e : Expr} (phrase : Comparison xs e)
    (plain : ∀ x ∈ xs, x.Plain) : Written (Comparison · e) e.pieces := by
  induction phrase with
  | sum phrase =>
    apply (written_of_arithmetic phrase plain).mono
    exact fun phrase => .sum (.term (.factor phrase))
  | compare _ mem last ih =>
    have table : ∀ s ∈ comparisonSigns, s.1 = s.2.kind ∧ s.2.isComparison = true := by decide
    obtain ⟨kind_eq, comparison⟩ := table _ mem
    have before := ih fun x mem => plain x (by simp [mem])
    have last := written_of_arithmetic last fun x mem => plain x (by simp [mem])
    unfold Expr.pieces
    rw [if_pos comparison]
    apply written_binary _ before last
    exact fun left right => .compare left (kind_eq ▸ mem) (.term (.factor right))

theorem written_of_elements {es : List Expr} (phrase : Elements xs es)
    (plain : ∀ x ∈ xs, x.Plain) : Written (Elements · es) (Expr.listPieces es) := by
  induction phrase with
  | one phrase =>
    apply (written_of_arithmetic phrase plain).mono
    exact fun phrase => .one (.term (.factor phrase))
  | @more xs ys comma e es phrase _ others ih =>
    have first := written_of_arithmetic phrase fun x mem => plain x (by simp [mem])
    have further := ih fun x mem => plain x (by simp [mem])
    have nonempty : es = [] → False := by
      rintro rfl
      cases others
    have tail : Written (fun zs => ∃ ys, zs = ⟨.comma, ","⟩ :: ys ∧ Elements ys es)
        (.sign .comma [','] :: .blank ' ' :: Expr.listPieces es) := by
      apply Written.spaced (.sign (by decide)) trivial rfl nofun further
      exact fun phrase => ⟨_, rfl, phrase⟩
    rw [Expr.listPieces.eq_3 _ _ nonempty]
    apply first.append tail
    · exact fun rest => closes_cons (by decide)
    · exact leaves_append_of_no_tag (fun _ => e.no_tag) _
    · rintro xs _ phrase ⟨ys, rfl, others⟩
      exact .more (.term (.factor phrase)) rfl others

theorem written_of_stored {v : Rhs} (phrase : Stored xs v) (plain : ∀ x ∈ xs, x.Plain) :
    Written (Stored · v) v.pieces := by
  cases phrase with
  | scalar value =>
    apply (written_of_arithmetic value plain).mono
    exact fun phrase => .scalar (.term (.factor phrase))
  | emptyVector =>
    have nothing : Written (· = []) [] := ⟨fun _ _ => trivial, rfl⟩
    apply nothing.enclose (by decide) (by decide) (by decide) (by decide) (by decide) (by simp)
    rintro _ rfl
    exact .emptyVector rfl rfl
  | @vector _ _ xs es _ inner _ =>
    have elements := written_of_elements inner fun x mem => plain x (by simp [mem])
    apply elements.enclose (by decide) (by decide) (by decide) (by decide) (by decide)
      fun _ => Expr.no_tag_list es
    exact fun phrase => .vector rfl phrase rfl

theorem written_of_place {t : Target} (phrase : Grammar.Place xs t) (plain : ∀ x ∈ xs, x.Plain) :
    Written (Grammar.Place · t) t.pieces := by
  cases phrase with
  | whole kind =>
    apply ((plain _ List.mem_cons_self).written_name kind).mono
    rintro _ rfl
    exact .whole kind
  | element kind _ inner _ =>
    have index := written_of_arithmetic inner fun x mem => plain x (by simp [mem])
    apply written_index (plain _ List.mem_cons_self) kind index
    exact fun phrase => .element kind rfl phrase rfl

end Expr

/-! Statements. -/

section Stmt

variable {xs ys zs : List Lexeme} {x : Lexeme} {s : Stmt} {condition : Expr}
  {body other : List Stmt} {pieces : List Piece}

theorem lineEnds_pieces (s : Stmt) : lineEnds s.pieces = false := by
  cases s with
  | assign target value s =>
    unfold Stmt.pieces Target.pieces
    cases target.index <;> rfl
  | _ =>
    unfold Stmt.pieces
    rfl

theorem leaves_inBraces (pieces others : List Piece) : leaves (inBraces pieces ++ others) =
    ⟨.leftBrace, "\x7b"⟩ :: (leaves pieces ++ ⟨.rightBrace, "\x7d"⟩ :: leaves others) := by
  have inner : leaves (pieces ++ .sign .rightBrace ['}'] :: others) =
      leaves pieces ++ ⟨.rightBrace, "\x7d"⟩ :: leaves others :=
    leaves_append_of_lineEnds rfl pieces
  rw [← inner, inBraces, Piece.enclose]
  simp only [List.cons_append, List.append_assoc, List.nil_append]
  rfl

theorem written_braces (row : ∀ rest, Row pieces rest)
    (phrase : Statements (leaves pieces) body) :
    Written (Grammar.Block · body) (inBraces pieces) := by
  refine ⟨fun rest _ => ?_, ?_⟩
  · refine ⟨⟨.sign (by decide), trivial, fun _ _ => trivial⟩,
      ⟨.newline, trivial, fun _ _ => trivial⟩, row_append.mpr ⟨row _, ?_⟩⟩
    exact ⟨⟨.sign (by decide), trivial, fun _ _ => trivial⟩, trivial⟩
  · have whole := leaves_inBraces pieces []
    rw [List.append_nil] at whole
    rw [whole]
    exact .braces rfl phrase rfl

theorem written_word {P Q : List Lexeme → Prop} {letters : List Char} {x : Lexeme}
    (nonempty : letters ≠ []) (all : letters.all Unicode.isAlphabetic = true)
    (word_eq : Lexeme.ofWord letters = x) (h : Written P pieces)
    (join : ∀ {xs}, P xs → Q (x :: xs)) :
    Written Q (.word letters :: .blank ' ' :: pieces) :=
  .spaced (.word nonempty (List.all_eq_true.mp all)) trivial (congrArg some word_eq) nofun h join

theorem written_store {place stored : List Piece} {target : Target} {value : Rhs}
    (left : Written (Grammar.Place · target) place) (right : Written (Stored · value) stored)
    (no_tag : ∀ letters, Piece.tag letters ∉ place) :
    Written (Statement · (.assign target value .nowhere))
      (place ++ .blank ' ' :: .sign .equal ['='] :: .blank ' ' :: stored) := by
  have tail : Written (fun zs => ∃ ys, zs = ⟨.equal, "="⟩ :: ys ∧ Stored ys value)
      (.blank ' ' :: .sign .equal ['='] :: .blank ' ' :: stored) :=
    .signed (by decide) right fun phrase => ⟨_, rfl, phrase⟩
  apply left.append tail
  · exact fun rest => closes_cons (by decide)
  · exact leaves_append_of_no_tag no_tag _
  · rintro xs _ phrase ⟨ys, rfl, phrase'⟩
    exact .assign phrase rfl phrase'

theorem written_assign {target : Target} {value : Rhs} (left : Grammar.Place xs target)
    (right : Stored ys value) (plain : ∀ x ∈ xs, x.Plain) (plain' : ∀ x ∈ ys, x.Plain) :
    Written (Statement · (.assign target value .nowhere))
      (Stmt.assign target value .nowhere).pieces := by
  unfold Stmt.pieces
  exact written_store (written_of_place left plain) (written_of_stored right plain')
    fun _ => target.no_tag

theorem written_invoke (plain : x.Plain) (kind : x.kind = .tag) :
    Written (Statement · (.invoke x.text .nowhere)) (Stmt.invoke x.text .nowhere).pieces := by
  obtain ⟨formed, tag_eq⟩ := plain.tag kind
  refine ⟨fun rest closed => ⟨⟨formed, trivial, ?_⟩, trivial⟩, ?_⟩
  · exact formed.stopsBefore_closes rfl closed
  · have left : leaves (Stmt.invoke x.text .nowhere).pieces = [x, ⟨.empty, ""⟩] :=
      congrArg (fun y : Lexeme => [y, ⟨.empty, ""⟩]) tag_eq
    rw [left]
    exact .invoke kind rfl

theorem written_declare (plain : x.Plain) (kind : x.kind = .tag)
    (h : Written (Statement · s) s.pieces) :
    Written (Statement · (.declare x.text s .nowhere)) (Stmt.declare x.text s .nowhere).pieces := by
  obtain ⟨formed, tag_eq⟩ := plain.tag kind
  refine ⟨fun rest closed => ⟨⟨formed, trivial, ?_⟩, h.blank.row rest closed⟩, ?_⟩
  · exact formed.stopsBefore_closes rfl (closes_cons (by decide))
  · have goes_on : (Piece.tag x.text.toList).isolated (.blank ' ' :: s.pieces) = false :=
      lineEnds_pieces s
    have left : leaves (Stmt.declare x.text s .nowhere).pieces = x :: leaves s.pieces := by
      rw [Stmt.pieces, leaves, goes_on, lexeme?, tag_eq]
      rfl
    rw [left]
    exact .declare kind h.phrase

theorem written_swap {left right : Target} (first : Grammar.Place xs left)
    (second : Grammar.Place ys right) (plain : ∀ x ∈ xs, x.Plain) (plain' : ∀ x ∈ ys, x.Plain) :
    Written (Statement · (.swap left right .nowhere)) (Stmt.swap left right .nowhere).pieces := by
  have places : Written (fun zs => ∃ xs ys, zs = xs ++ ys ∧ Grammar.Place xs left ∧
      Grammar.Place ys right) (left.pieces ++ .blank ' ' :: right.pieces) := by
    apply (written_of_place first plain).append (written_of_place second plain').blank
    · exact fun rest => closes_cons (by decide)
    · exact leaves_append_of_no_tag (fun _ => left.no_tag) _
    · exact fun phrase phrase' => ⟨_, _, rfl, phrase, phrase'⟩
  unfold Stmt.pieces
  apply written_word (by decide) (by decide) (x := ⟨.swapWord, "SWAP"⟩) (by decide) places
  rintro _ ⟨xs, ys, rfl, phrase, phrase'⟩
  exact .swap rfl phrase phrase'

theorem written_test {P Q : List Lexeme → Prop} (test : Comparison xs condition)
    (plain : ∀ x ∈ xs, x.Plain) (h : Written P pieces)
    (join : ∀ {xs ys}, Comparison xs condition → P ys → Q (xs ++ ys)) :
    Written Q (condition.pieces ++ .blank ' ' :: pieces) := by
  apply (written_of_comparison test plain).append h.blank
  · exact fun rest => closes_cons (by decide)
  · exact leaves_append_of_no_tag (fun _ => condition.no_tag) _
  · exact join

theorem written_ifThen (test : Comparison xs condition) (plain : ∀ x ∈ xs, x.Plain)
    (block : Written (Grammar.Block · body) (inBraces (Stmt.linePieces body))) :
    Written (Statement · (.ifThen condition body .nowhere))
      (Stmt.ifThen condition body .nowhere).pieces := by
  have tested : Written (fun zs => ∃ xs ys, zs = xs ++ ys ∧ Comparison xs condition ∧
      Grammar.Block ys body) (condition.pieces ++ .blank ' ' :: inBraces (Stmt.linePieces body)) :=
    written_test test plain block fun phrase phrase' => ⟨_, _, rfl, phrase, phrase'⟩
  unfold Stmt.pieces
  apply written_word (by decide) (by decide) (x := ⟨.ifWord, "IF"⟩) (by decide) tested
  rintro _ ⟨xs, ys, rfl, phrase, phrase'⟩
  exact .ifThen rfl phrase phrase'

theorem written_loop (test : Comparison xs condition) (plain : ∀ x ∈ xs, x.Plain)
    (block : Written (Grammar.Block · body) (inBraces (Stmt.linePieces body))) :
    Written (Statement · (.loop condition body .nowhere))
      (Stmt.loop condition body .nowhere).pieces := by
  have tested : Written (fun zs => ∃ xs ys, zs = xs ++ ys ∧ Comparison xs condition ∧
      Grammar.Block ys body) (condition.pieces ++ .blank ' ' :: inBraces (Stmt.linePieces body)) :=
    written_test test plain block fun phrase phrase' => ⟨_, _, rfl, phrase, phrase'⟩
  unfold Stmt.pieces
  apply written_word (by decide) (by decide) (x := ⟨.whileWord, "WHILE"⟩) (by decide) tested
  rintro _ ⟨xs, ys, rfl, phrase, phrase'⟩
  exact .loop rfl phrase phrase'

theorem written_ifElse (test : Comparison xs condition) (plain : ∀ x ∈ xs, x.Plain)
    (block : Written (Grammar.Block · body) (inBraces (Stmt.linePieces body)))
    (block' : Written (Grammar.Block · other) (inBraces (Stmt.linePieces other))) :
    Written (Statement · (.ifElse condition body other .nowhere))
      (Stmt.ifElse condition body other .nowhere).pieces := by
  have otherwise : Written (fun zs => ∃ ys, zs = ⟨.elseWord, "ELSE"⟩ :: ys ∧ Grammar.Block ys other)
      (.word "ELSE".toList :: .blank ' ' :: inBraces (Stmt.linePieces other)) :=
    written_word (by decide) (by decide) (by decide) block' fun phrase => ⟨_, rfl, phrase⟩
  have blocks : Written (fun zs => ∃ xs ys, zs = xs ++ ⟨.elseWord, "ELSE"⟩ :: ys ∧
      Grammar.Block xs body ∧ Grammar.Block ys other) (inBraces (Stmt.linePieces body) ++
        .blank ' ' :: .word "ELSE".toList :: .blank ' ' :: inBraces (Stmt.linePieces other)) := by
    apply block.append otherwise.blank
    · exact fun rest => closes_cons (by decide)
    · rw [leaves_inBraces, ← List.append_nil (inBraces (Stmt.linePieces body)), leaves_inBraces]
      simp [leaves]
    · rintro xs _ phrase ⟨ys, rfl, phrase'⟩
      exact ⟨xs, ys, rfl, phrase, phrase'⟩
  have tested := written_test (Q := fun zs => ∃ xs ys, zs = xs ++ ys ∧ Comparison xs condition ∧
    ∃ us vs, ys = us ++ ⟨.elseWord, "ELSE"⟩ :: vs ∧ Grammar.Block us body ∧ Grammar.Block vs other)
    test plain blocks fun phrase phrase' => ⟨_, _, rfl, phrase, phrase'⟩
  unfold Stmt.pieces
  apply written_word (by decide) (by decide) (x := ⟨.ifWord, "IF"⟩) (by decide) tested
  rintro _ ⟨xs, _, rfl, phrase, us, vs, rfl, phrase', phrase''⟩
  exact .ifElse rfl phrase phrase' rfl phrase''

theorem written_print {value : Expr} (printed : Comparison xs value) (plain : ∀ x ∈ xs, x.Plain) :
    Written (Statement · (.print value .nowhere)) (Stmt.print value .nowhere).pieces := by
  unfold Stmt.pieces
  apply written_word (by decide) (by decide) (x := ⟨.printWord, "PRINT"⟩) (by decide)
    (written_of_comparison printed plain)
  exact fun phrase => .print rfl phrase

mutual

theorem written_of_statement {xs : List Lexeme} {s : Stmt} (phrase : Statement xs s)
    (plain : ∀ x ∈ xs, x.Plain) : Written (Statement · s) s.pieces := by
  match phrase with
  | .assign left _ right =>
    exact written_assign left right (fun x mem => plain x (by simp [mem]))
      fun x mem => plain x (by simp [mem])
  | .invoke kind _ => exact written_invoke (plain _ List.mem_cons_self) kind
  | .declare kind declared =>
    apply written_declare (plain _ List.mem_cons_self) kind
    exact written_of_statement declared fun x mem => plain x (by simp [mem])
  | .swap _ first second =>
    exact written_swap first second (fun x mem => plain x (by simp [mem]))
      fun x mem => plain x (by simp [mem])
  | .ifThen _ test block =>
    apply written_ifThen test fun x mem => plain x (by simp [mem])
    exact written_of_block block fun x mem => plain x (by simp [mem])
  | .ifElse _ test block _ block' =>
    apply written_ifElse test fun x mem => plain x (by simp [mem])
    · exact written_of_block block fun x mem => plain x (by simp [mem])
    · exact written_of_block block' fun x mem => plain x (by simp [mem])
  | .loop _ test block =>
    apply written_loop test fun x mem => plain x (by simp [mem])
    exact written_of_block block fun x mem => plain x (by simp [mem])
  | .print _ printed => exact written_print printed fun x mem => plain x (by simp [mem])

theorem written_of_block {xs : List Lexeme} {body : List Stmt} (phrase : Grammar.Block xs body)
    (plain : ∀ x ∈ xs, x.Plain) :
    Written (Grammar.Block · body) (inBraces (Stmt.linePieces body)) := by
  match phrase with
  | .braces _ inner _ =>
    have lines := written_of_statements inner fun x mem => plain x (by simp [mem])
    exact written_braces lines.1 lines.2

/-- Every statement ends its line, so its lines may stand before anything. -/
theorem written_of_statements {xs : List Lexeme} {body : List Stmt} (phrase : Statements xs body)
    (plain : ∀ x ∈ xs, x.Plain) :
    (∀ rest, Row (Stmt.linePieces body) rest) ∧
      Statements (leaves (Stmt.linePieces body)) body := by
  match phrase with
  | .nil => exact ⟨fun _ => trivial, .nil⟩
  | @Statements.cons xs ys s body first others =>
    have line := written_of_statement first fun x mem => plain x (by simp [mem])
    have lines := written_of_statements others fun x mem => plain x (by simp [mem])
    unfold Stmt.linePieces
    refine ⟨fun rest => row_append.mpr ⟨line.row _ (closes_cons (by decide)), ?_⟩, ?_⟩
    · exact ⟨⟨.newline, trivial, fun _ _ => trivial⟩, lines.1 rest⟩
    · rw [leaves_append_of_lineEnds rfl]
      exact .cons line.phrase lines.2

end

end Stmt

end TagScript
