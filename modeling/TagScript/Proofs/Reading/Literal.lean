import TagScript.Machine.Evaluation
import TagScript.Proofs.Formula.Writing
import TagScript.Proofs.Reading.RoundTrip
import TagScript.Proofs.Reading.Shift
import TagScript.Proofs.Unicode.AsciiCase

/-! Literals: rows of digits, the two truth values, and vectors of rows of digits. An assignment of
one is read as the assignment of what it stands for, and each value that is no real and nowhere
negative is what its own text, taken as a literal, stands for. -/
namespace TagScript

open Grammar Piece

namespace Numeral

def value (numeral : Numeral) : Int64 :=
  Int64.ofInt (Decimal.value numeral.digits)

theorem toInt_value (numeral : Numeral) :
    numeral.value.toInt = Decimal.value numeral.digits := by
  have small := numeral.small
  exact Int64.toInt_ofInt_of_le (by omega) (by omega)

def ofInt (n : Int64) : Numeral where
  digits := Decimal.digits n.toInt.toNat
  nonempty := Decimal.digits_ne_nil _
  all := List.all_eq_true.mp (Decimal.all_isDigit_digits _)
  small := by
    rw [Decimal.value_digits]
    have := Int64.toInt_lt n
    omega

variable {n : Int64}

theorem value_ofInt (nonneg : 0 ≤ n) : (ofInt n).value = n := by
  have : 0 ≤ n.toInt := Int64.le_iff_toInt_le.mp nonneg
  rw [value, ofInt, Decimal.value_digits, Int.toNat_of_nonneg this, Int64.ofInt_toInt]

theorem digits_ofInt (nonneg : 0 ≤ n) : (ofInt n).digits = (Integer.text n).toList := by
  have : 0 ≤ n.toInt := Int64.le_iff_toInt_le.mp nonneg
  obtain ⟨k, eq⟩ := Int.eq_ofNat_of_zero_le this
  have digits_eq : (ofInt n).digits = Decimal.digits n.toInt.toNat := rfl
  rw [digits_eq, Integer.text, eq]
  exact String.toList_ofList.symm

def expr (numeral : Numeral) : Expr :=
  .integer numeral.value .nowhere

def listChars : List Numeral → List Char
  | [] => []
  | [numeral] => numeral.digits
  | numeral :: rest => numeral.digits ++ ',' :: ' ' :: listChars rest

def listPieces : List Numeral → List Piece
  | [] => []
  | [numeral] => [.number numeral.digits]
  | numeral :: rest => .number numeral.digits :: .sign .comma [','] :: .blank ' ' :: listPieces rest

end Numeral

inductive Literal
  | number (numeral : Numeral)
  | truth (b : Bool)
  | vector (elements : List Numeral)

namespace Literal

def chars : Literal → List Char
  | number numeral => numeral.digits
  | truth true => "TRUE".toList
  | truth false => "FALSE".toList
  | vector elements => '[' :: Numeral.listChars elements ++ [']']

def value : Literal → Value
  | number numeral => .integer numeral.value
  | truth b => .boolean b
  | vector elements => .vector (elements.map (·.value))

def rhs : Literal → Rhs
  | number numeral => .scalar numeral.expr
  | truth b => .scalar (.boolean b .nowhere)
  | vector elements => .vector (elements.map (·.expr)) .nowhere

def pieces : Literal → List Piece
  | number numeral => [.number numeral.digits]
  | truth b => (Expr.boolean b .nowhere).pieces
  | vector elements => inBrackets (Numeral.listPieces elements)

end Literal

/-! What a literal is read as. -/

theorem Numeral.text_listPieces (numerals : List Numeral) :
    (listPieces numerals).flatMap Piece.text = listChars numerals := by
  fun_induction listPieces numerals with
  | case1 => rfl
  | case2 numeral => simp [Piece.text, listChars]
  | case3 numeral rest nonempty ih =>
    rw [listChars.eq_3 _ _ nonempty]
    simp [Piece.text, ih]

theorem Literal.text_pieces (l : Literal) : l.pieces.flatMap Piece.text = l.chars := by
  cases l with
  | number numeral => simp [pieces, chars, Piece.text]
  | truth b => cases b <;> rfl
  | vector elements =>
    simp [pieces, chars, inBrackets, flatMap_text_enclose, Piece.text, Numeral.text_listPieces]

theorem Numeral.no_tag (numerals : List Numeral) (letters : List Char) :
    .tag letters ∉ listPieces numerals := by
  fun_induction listPieces numerals with
  | case1 => exact List.not_mem_nil
  | case2 numeral => simp
  | case3 numeral rest _ ih => simp [ih]

theorem Numeral.written (numeral : Numeral) :
    Written (Arithmetic .factor · numeral.expr) [.number numeral.digits] := by
  refine .single (.number numeral.nonempty numeral.all) numeral.small rfl nofun ?_
  refine .integer rfl ?_
  rw [String.toList_ofList]
  exact numeral.read?_digits

theorem Numeral.written_list {numerals : List Numeral} (nonempty : numerals ≠ []) :
    Written (Elements · (numerals.map expr)) (listPieces numerals) := by
  fun_induction listPieces numerals with
  | case1 => exact absurd rfl nonempty
  | case2 numeral => exact numeral.written.mono fun phrase => .one (.term (.factor phrase))
  | case3 numeral rest more ih =>
    have tail : Written (fun zs => ∃ ys, zs = ⟨.comma, ","⟩ :: ys ∧ Elements ys (rest.map expr))
        (.sign .comma [','] :: .blank ' ' :: listPieces rest) :=
      .spaced (.sign (by decide)) trivial rfl nofun (ih more) fun phrase => ⟨_, rfl, phrase⟩
    apply numeral.written.append tail
    · exact fun rest => closes_cons (by decide)
    · exact leaves_append_of_no_tag (by simp) _
    · rintro xs _ phrase ⟨ys, rfl, others⟩
      exact .more (.term (.factor phrase)) rfl others

theorem Literal.written (l : Literal) : Written (Stored · l.rhs) l.pieces := by
  cases l with
  | number numeral => exact numeral.written.mono fun phrase => .scalar (.term (.factor phrase))
  | truth b => exact (written_boolean b).mono fun phrase => .scalar (.term (.factor phrase))
  | vector elements =>
    by_cases empty : elements = []
    · have nothing : Written (· = []) [] := ⟨fun _ _ => trivial, rfl⟩
      rw [empty]
      apply nothing.enclose (by decide) (by decide) (by decide) (by decide) (by decide) (by simp)
      rintro _ rfl
      exact .emptyVector rfl rfl
    · apply (Numeral.written_list empty).enclose (by decide) (by decide) (by decide) (by decide)
        (by decide) (Numeral.no_tag elements)
      exact fun phrase => .vector rfl phrase rfl

structure Word where
  letters : List Char
  formed : (Piece.word letters).Formed
  name : String
  read : Lexeme.ofWord letters = ⟨.identifier, name⟩

def Literal.stored (l : Literal) (name : String) : Stmt :=
  .assign ⟨name, none, .nowhere⟩ l.rhs .nowhere

theorem Program.reads_stored (word : Word) (l : Literal) :
    Reads (String.ofList word.letters ++ " = " ++ String.ofList l.chars) [l.stored word.name] := by
  have place : Written (Grammar.Place · ⟨word.name, none, .nowhere⟩) [.word word.letters] :=
    .single word.formed trivial (congrArg some word.read) nofun (.whole rfl)
  have written := written_store place l.written (by simp)
  have phrase := Statements.cons written.phrase .nil
  rw [List.append_nil] at phrase
  obtain ⟨ts, p, accepted, -, erase_eq⟩ := ofSource_of_row (written.row [] nofun) phrase
  refine ⟨ts, p, ?_, erase_eq⟩
  rw [← accepted, ← l.text_pieces]
  refine congrArg ofSource (String.toList_inj.mp ?_)
  simp [Piece.text]

end TagScript
