import TagScript.Proofs.Reading.Declarations
import TagScript.Proofs.Syntax.Pieces
import TagScript.Proofs.Token.Row

/-! Formulas over whole numbers, and the texts in which they may be written: with parentheses at
least where the signs ask for them, and with blanks anywhere between numbers and signs. Such a
text is read as the formula that it is a text of. -/
namespace TagScript

open Piece (Row allTokens)

inductive Sign
  | plus
  | minus
  | times
deriving DecidableEq, Repr

namespace Sign

def char : Sign → Char
  | plus => '+'
  | minus => '-'
  | times => '*'

def op : Sign → BinaryOp
  | plus => .add
  | minus => .subtract
  | times => .multiply

def apply : Sign → Int → Int → Int
  | plus, a, b => a + b
  | minus, a, b => a - b
  | times, a, b => a * b

def strength : Sign → Nat
  | plus | minus => 1
  | times => 2

def piece (sign : Sign) : Piece :=
  .sign sign.op.kind [sign.char]

theorem formed_piece (sign : Sign) : sign.piece.Formed := by
  cases sign <;> exact .sign (by decide)

theorem stopsAt {c : Char} (sign : Sign) (other : c ≠ '-' ∧ c ≠ '>') : sign.piece.StopsAt c := by
  cases sign with
  | minus => exact other
  | plus | times => trivial

end Sign

inductive Formula
  | literal (n : Nat)
  | operation (left : Formula) (sign : Sign) (right : Formula)
deriving DecidableEq, Repr

namespace Formula

def value : Formula → Int
  | literal n => n
  | operation left sign right => sign.apply left.value right.value

/-- The subtrees: each comes after its own, and those on the left come first. -/
def subtrees : Formula → List Formula
  | literal n => [literal n]
  | operation left sign right => left.subtrees ++ right.subtrees ++ [operation left sign right]

end Formula

structure Numeral where
  digits : List Char
  nonempty : digits ≠ []
  all : ∀ c ∈ digits, Decimal.isDigit c = true
  small : Decimal.value digits ≤ 9223372036854775807

theorem Numeral.read?_digits (numeral : Numeral) :
    Integer.read? numeral.digits = some (Int64.ofInt (Decimal.value numeral.digits)) := by
  have small := numeral.small
  have range : Integer.smallest ≤ (Decimal.value numeral.digits : Int) ∧
      (Decimal.value numeral.digits : Int) ≤ Integer.largest := by
    simp only [Integer.smallest, Integer.largest]
    omega
  rw [Integer.read?_of_digits numeral.nonempty numeral.all, Integer.ofInt?, if_pos range]

structure Gap where
  chars : List Char
  blank : ∀ c ∈ chars, c ∈ [' ', '\t', '\r', '\n']

/-- A text of a formula, by how tightly its last operation binds. What is left of a sign binds at
least as tightly as the sign, and what is right of it binds tighter, or else it is in
parentheses. Anything may be in parentheses, any number of times. -/
inductive Writing : Nat → Type
  | literal (numeral : Numeral) : Writing 3
  | group {i : Nat} (before : Gap) (inner : Writing i) (after : Gap) : Writing 3
  | operation {i j : Nat} (left : Writing i) (before : Gap) (sign : Sign) (after : Gap)
      (right : Writing j) (left_binds : sign.strength ≤ i) (right_binds : sign.strength < j) :
      Writing sign.strength

namespace Piece

def ofBlank (c : Char) : Piece :=
  if c = '\n' then .newline else .blank c

@[simp] theorem text_ofBlank (c : Char) : (ofBlank c).text = [c] := by
  unfold ofBlank
  split
  case isTrue feed => rw [feed]; rfl
  case isFalse => rfl

@[simp] theorem lexeme?_ofBlank (c : Char) : (ofBlank c).lexeme? = none := by
  unfold ofBlank
  split <;> rfl

theorem row_ofBlank {c : Char} (blank : c ∈ [' ', '\t', '\r', '\n']) (rest : List Char) :
    (ofBlank c).Formed ∧ (ofBlank c).InRange ∧ (ofBlank c).StopsBefore rest := by
  unfold ofBlank
  split
  case isTrue => exact ⟨.newline, trivial, fun _ _ => trivial⟩
  case isFalse other =>
    have mem : c ∈ [' ', '\t', '\r'] := by simpa [other] using blank
    exact ⟨.blank mem, trivial, fun _ _ => trivial⟩

end Piece

namespace Gap

def empty : Gap :=
  ⟨[], List.forall_mem_nil _⟩

def pieces (gap : Gap) : List Piece :=
  gap.chars.map .ofBlank

theorem text_pieces (gap : Gap) : gap.pieces.flatMap Piece.text = gap.chars := by
  simp [pieces, List.flatMap_map]

theorem row (gap : Gap) (rest : List Char) : Row gap.pieces rest := by
  obtain ⟨chars, blank⟩ := gap
  induction chars with
  | nil => trivial
  | cons c cs ih =>
    obtain ⟨here, blank⟩ := List.forall_mem_cons.mp blank
    exact ⟨Piece.row_ofBlank here _, ih blank⟩

theorem forall_head {p : Char → Prop} (gap : Gap) {rest : List Char}
    (blank : ∀ c ∈ [' ', '\t', '\r', '\n'], p c) (next : ∀ c ∈ rest.head?, p c) :
    ∀ c ∈ (gap.chars ++ rest).head?, p c := by
  obtain ⟨chars, all⟩ := gap
  cases chars with
  | nil => exact next
  | cons b bs =>
    rintro c ⟨⟩
    exact blank b (all b List.mem_cons_self)

theorem lexeme?_of_mem {gap : Gap} {piece : Piece} (mem : piece ∈ gap.pieces) :
    piece.lexeme? = none := by
  obtain ⟨c, -, rfl⟩ := List.mem_map.mp mem
  exact Piece.lexeme?_ofBlank c

theorem no_tag (gap : Gap) (letters : List Char) : .tag letters ∉ gap.pieces :=
  fun mem => Option.some_ne_none _ (lexeme?_of_mem mem)

theorem allTokens_pieces (gap : Gap) (position line : Nat) :
    allTokens position line gap.pieces = [] :=
  Piece.allTokens_eq_nil (fun _ => lexeme?_of_mem) position line

theorem allTokens_append (gap : Gap) (others : List Piece) (position line : Nat) :
    allTokens position line (gap.pieces ++ others) =
      allTokens (position + gap.chars.length) (line + gap.pieces.count .newline) others := by
  rw [(Piece.unmoved_of_no_tag gap.no_tag others).allTokens_append, gap.allTokens_pieces,
    gap.text_pieces, List.nil_append]

end Gap

theorem Located.Arithmetic.operation {us vs : List Token} {t : Token} {left right : Expr}
    {i j : Nat} {sign : Sign} (kind : t.kind = sign.op.kind)
    (before : ∀ level : Reading.Level, 3 ≤ i + level.rank → Located.Arithmetic level us left)
    (last : ∀ level : Reading.Level, 3 ≤ j + level.rank → Located.Arithmetic level vs right)
    (left_binds : sign.strength ≤ i) (right_binds : sign.strength < j) {level : Reading.Level}
    (binds : 3 ≤ sign.strength + level.rank) :
    Located.Arithmetic level (us ++ t :: vs) (left.combine sign.op right) := by
  cases sign with
  | plus | minus =>
    cases level with
    | factor | term => exact absurd binds (by decide)
    | sum =>
      refine .sum (before .sum (Nat.add_le_add_right left_binds 2)) ?_
        (last .term (Nat.add_le_add_right right_binds 1))
      rw [kind]
      decide
  | times =>
    have mem : (t.kind, BinaryOp.multiply) ∈ Grammar.productSigns := by
      rw [kind]
      decide
    have product := Located.Arithmetic.product
      (before .term (Nat.add_le_add_right left_binds 1)) mem (last .factor right_binds)
    cases level with
    | factor => exact absurd binds (by decide)
    | term => exact product
    | sum => exact .term product

namespace Writing

variable {i : Nat}

def formula {i : Nat} : Writing i → Formula
  | literal numeral => .literal (Decimal.value numeral.digits)
  | group _ inner _ => inner.formula
  | operation left _ sign _ right _ _ => .operation left.formula sign right.formula

def chars {i : Nat} : Writing i → List Char
  | literal numeral => numeral.digits
  | group before inner after => '(' :: (before.chars ++ inner.chars ++ after.chars ++ [')'])
  | operation left before sign after right _ _ =>
    left.chars ++ before.chars ++ sign.char :: (after.chars ++ right.chars)

/-- Every formula has a text if its literals are not too large: all operations may be in
parentheses. -/
theorem exists_formula_eq {f : Formula}
    (small : ∀ n, .literal n ∈ f.subtrees → n ≤ 9223372036854775807) :
    ∃ w : Writing 3, w.formula = f := by
  induction f with
  | literal n =>
    have value_eq := Decimal.value_digits n
    have small := small n (List.mem_singleton.mpr rfl)
    refine ⟨literal ⟨Decimal.digits n, Decimal.digits_ne_nil n,
      List.all_eq_true.mp (Decimal.all_isDigit_digits n), by rwa [value_eq]⟩, ?_⟩
    rw [formula, value_eq]
  | operation left sign right ih ih' =>
    obtain ⟨v, rfl⟩ := ih fun n mem => small n (by simp [Formula.subtrees, mem])
    obtain ⟨w, rfl⟩ := ih' fun n mem => small n (by simp [Formula.subtrees, mem])
    have binds : sign.strength < 3 := by cases sign <;> decide
    exact ⟨group .empty (operation v .empty sign .empty w (Nat.le_of_lt binds) binds) .empty, rfl⟩

def extent (position : Nat) (w : Writing i) : Span :=
  ⟨position, position + w.chars.length⟩

def expr {i : Nat} (position : Nat) : Writing i → Expr
  | literal numeral =>
    .integer (Int64.ofInt (Decimal.value numeral.digits)) (extent position (literal numeral))
  | group before inner after =>
    (inner.expr (position + 1 + before.chars.length)).withSpan
      (extent position (group before inner after))
  | operation left before sign after right h h' =>
    .binary (left.expr position) sign.op
      (right.expr (position + left.chars.length + before.chars.length + 1 + after.chars.length))
      (extent position (operation left before sign after right h h'))

def pieces {i : Nat} : Writing i → List Piece
  | literal numeral => [.number numeral.digits]
  | group before inner after =>
    .sign .leftParen ['('] ::
      (before.pieces ++ (inner.pieces ++ (after.pieces ++ [.sign .rightParen [')']])))
  | operation left before sign after right _ _ =>
    left.pieces ++ (before.pieces ++ sign.piece :: (after.pieces ++ right.pieces))

theorem text_pieces (w : Writing i) : w.pieces.flatMap Piece.text = w.chars := by
  induction w with
  | literal numeral => simp [pieces, chars, Piece.text]
  | group before inner after ih =>
    simp [pieces, chars, Piece.text, ih, Gap.text_pieces]
  | operation left before sign after right _ _ ih ih' =>
    simp [pieces, chars, Piece.text, ih, ih', Gap.text_pieces, Sign.piece]

theorem no_tag (w : Writing i) (letters : List Char) : .tag letters ∉ w.pieces := by
  induction w with
  | literal numeral => simp [pieces]
  | group before inner after ih => simp [pieces, ih, Gap.no_tag]
  | operation left before sign after right _ _ ih ih' =>
    simp [pieces, ih, ih', Gap.no_tag, Sign.piece]

theorem allTokens_append (w : Writing i) (others : List Piece) (position line : Nat) :
    allTokens position line (w.pieces ++ others) = allTokens position line w.pieces ++
      allTokens (position + w.chars.length) (line + w.pieces.count .newline) others := by
  rw [(Piece.unmoved_of_no_tag w.no_tag others).allTokens_append, w.text_pieces]

theorem exists_head (w : Writing i) :
    ∃ c cs, w.chars = c :: cs ∧ (Decimal.isDigit c = true ∨ c = '(') := by
  induction w with
  | literal numeral =>
    obtain ⟨digits, nonempty, all, small⟩ := numeral
    obtain ⟨c, cs, rfl⟩ := List.exists_cons_of_ne_nil nonempty
    exact ⟨c, cs, rfl, .inl (all c List.mem_cons_self)⟩
  | group before inner after => exact ⟨'(', _, rfl, .inr rfl⟩
  | operation left before sign after right _ _ ih =>
    obtain ⟨c, cs, left_eq, head⟩ := ih
    refine ⟨c, cs ++ before.chars ++ sign.char :: (after.chars ++ right.chars), ?_, head⟩
    rw [chars, left_eq]
    simp

/-- The pieces of a text keep apart before anything but a digit. -/
theorem row (w : Writing i) {rest : List Char}
    (ends : ∀ c ∈ rest.head?, Decimal.isDigit c = false) : Row w.pieces rest := by
  have blank : ∀ c ∈ [' ', '\t', '\r', '\n'], Decimal.isDigit c = false :=
    Unicode.forall_listed (by decide)
  induction w generalizing rest with
  | literal numeral => exact ⟨⟨.number numeral.nonempty numeral.all, numeral.small, ends⟩, trivial⟩
  | group before inner after ih =>
    have close : Row [.sign .rightParen [')']] rest :=
      ⟨⟨.sign (by decide), trivial, fun _ _ => trivial⟩, trivial⟩
    refine ⟨⟨.sign (by decide), trivial, fun _ _ => trivial⟩, Piece.row_append.mpr
      ⟨before.row _, Piece.row_append.mpr ⟨ih ?_, Piece.row_append.mpr ⟨after.row _, close⟩⟩⟩⟩
    simp only [List.flatMap_append, Gap.text_pieces, List.append_assoc]
    refine after.forall_head blank ?_
    rintro c ⟨⟩
    rfl
  | operation left before sign after right _ _ ih ih' =>
    obtain ⟨c, cs, right_eq, head⟩ := right.exists_head
    refine Piece.row_append.mpr ⟨ih ?_, Piece.row_append.mpr ⟨before.row _,
      ⟨sign.formed_piece, trivial, ?_⟩, Piece.row_append.mpr ⟨after.row _, ih' ends⟩⟩⟩
    · have sign_ends : Decimal.isDigit sign.char = false := by cases sign <;> rfl
      simp only [List.flatMap_append, List.flatMap_cons, Gap.text_pieces, List.append_assoc]
      refine before.forall_head blank ?_
      rintro c ⟨⟩
      exact sign_ends
    · have other : ∀ d ∈ [' ', '\t', '\r', '\n'], d ≠ '-' ∧ d ≠ '>' :=
        Unicode.forall_listed (by decide)
      have apart : ∀ d ∈ [' ', '\t', '\r', '\n'], sign.piece.StopsAt d :=
        fun d mem => sign.stopsAt (other d mem)
      have next : sign.piece.StopsAt c := by
        refine sign.stopsAt ?_
        rcases head with digit | rfl
        · constructor <;> rintro rfl <;> cases digit
        · decide
      simp only [List.flatMap_append, Gap.text_pieces, text_pieces, right_eq, List.append_assoc,
        List.cons_append]
      refine after.forall_head apart ?_
      rintro c ⟨⟩
      exact next

theorem span_expr (w : Writing i) (position : Nat) :
    (w.expr position).span = w.extent position := by
  cases w with
  | group => exact Expr.span_withSpan _ _
  | literal | operation => rfl

theorem binds_pos (w : Writing i) : 0 < i := by
  cases w with
  | literal | group => decide
  | operation _ _ sign => cases sign <;> decide

theorem located (w : Writing i) (level : Reading.Level) (binds : 3 ≤ i + level.rank)
    (position line : Nat) :
    Located.Arithmetic level (allTokens position line w.pieces) (w.expr position) := by
  -- the level is free: a sum is read at its own level alone, and in parentheses at any
  induction w generalizing level position line with
  | literal numeral =>
    refine .of_factor (.integer rfl ?_) _
    rw [String.toList_ofList]
    exact numeral.read?_digits
  | group before inner after ih =>
    refine .of_factor ?_ _
    let inside := position + 1 + before.chars.length
    let stop := inside + inner.chars.length + after.chars.length
    have span_eq : Span.cover ⟨position, position + 1⟩ ⟨stop, stop + 1⟩ =
        extent position (group before inner after) := by
      simp only [Span.cover, extent, chars, List.length_cons, List.length_append, List.length_nil,
        Span.mk.injEq, stop, inside]
      omega
    have innermost := ih .sum (Nat.add_le_add_right inner.binds_pos 2)
    rw [pieces, allTokens, before.allTokens_append, inner.allTokens_append, after.allTokens_append,
      expr, ← span_eq]
    exact .group rfl (innermost inside _) rfl
  | @operation i j left before sign after right left_binds right_binds ih ih' =>
    let middle := position + left.chars.length + before.chars.length
    let further := middle + 1 + after.chars.length
    have span_eq : (left.extent position).cover (right.extent further) =
        extent position (operation left before sign after right left_binds right_binds) := by
      simp only [Span.cover, extent, chars, List.length_cons, List.length_append,
        Span.mk.injEq, further, middle]
      omega
    have combined : expr position (operation left before sign after right left_binds right_binds) =
        (left.expr position).combine sign.op (right.expr further) := by
      rw [Expr.combine, span_expr, span_expr, span_eq]
      rfl
    rw [pieces, left.allTokens_append, before.allTokens_append, allTokens, after.allTokens_append,
      combined]
    exact .operation rfl (fun level h => ih level h position line)
      (fun level h => ih' level h further _) left_binds right_binds binds

/-- The program that prints the formula, with blanks on both sides of its text. -/
def printed (before : Gap) (w : Writing i) (after : Gap) : String :=
  "PRINT " ++ String.ofList (before.chars ++ w.chars ++ after.chars)

def start (before : Gap) : Nat :=
  6 + before.chars.length

def printing (before : Gap) (w : Writing i) (after : Gap) : List Piece :=
  .word "PRINT".toList :: .blank ' ' :: (before.pieces ++ (w.pieces ++ after.pieces))

theorem text_printing (before : Gap) (w : Writing i) (after : Gap) :
    String.ofList ((w.printing before after).flatMap Piece.text) = w.printed before after := by
  simp only [printing, List.flatMap_cons, List.flatMap_append, Gap.text_pieces, text_pieces,
    printed, String.ofList_append, Piece.text, List.append_assoc]
  rfl

theorem row_printing (before : Gap) (w : Writing i) (after : Gap) :
    Row (w.printing before after) [] := by
  refine ⟨⟨.word (by decide) (List.all_eq_true.mp (by decide)), trivial, ?_⟩,
    ⟨.blank (by decide), trivial, fun _ _ => trivial⟩, Piece.row_append.mpr ⟨before.row _,
    Piece.row_append.mpr ⟨w.row ?_, after.row _⟩⟩⟩
  · rintro c ⟨⟩
    exact (by decide : Unicode.isAlphabetic ' ' = false)
  · rw [after.text_pieces]
    exact after.forall_head (Unicode.forall_listed (by decide)) nofun

theorem allTokens_printing (before : Gap) (w : Writing i) (after : Gap) :
    ∃ line, allTokens 0 1 (w.printing before after) =
      ⟨⟨.printWord, "PRINT"⟩, ⟨0, 5⟩, 1⟩ :: allTokens (start before) line w.pieces := by
  have opened (others : List Piece) :
      allTokens 0 1 (.word "PRINT".toList :: .blank ' ' :: others) =
        ⟨⟨.printWord, "PRINT"⟩, ⟨0, 5⟩, 1⟩ :: allTokens 6 1 others := rfl
  refine ⟨1 + before.pieces.count .newline, ?_⟩
  rw [printing, opened, before.allTokens_append, w.allTokens_append, after.allTokens_pieces,
    List.append_nil, start]

theorem ofSource_printed (before : Gap) (w : Writing i) (after : Gap) :
    ∃ ts span, Program.ofSource (w.printed before after) =
      .ok (ts, ⟨[.print (w.expr (start before)) span], [], []⟩) := by
  obtain ⟨line, tokens_eq⟩ := allTokens_printing before w after
  have value : Located.Arithmetic .sum (allTokens (start before) line w.pieces) _ :=
    w.located .sum (Nat.add_le_add_right w.binds_pos 2) (start before) line
  have print : Located.Statement (⟨⟨.printWord, "PRINT"⟩, ⟨0, 5⟩, 1⟩ :: _) _ :=
    .print rfl (.sum value)
  have read := Reading.statementList_of_located (.cons print .nil)
  refine ⟨_, _, Program.ofSource_eq_ok_iff.mpr ⟨?_, Program.ofTokens_eq_ok_iff.mpr ⟨read, ?_, ?_⟩⟩⟩
  · rw [← text_printing, (row_printing before w after).scan_eq, tokens_eq, List.append_nil]
  · rw [Reading.tagNames_of_read read]
    rfl
  · rw [Reading.bindings_of_read read]
    rfl

end Writing

end TagScript
