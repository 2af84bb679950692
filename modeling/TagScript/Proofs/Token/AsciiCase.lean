import TagScript.Proofs.Token.Lookahead
import TagScript.Proofs.Unicode.AsciiCase

/-! Sources that differ in the case of letters of ASCII. They are cut at the same characters,
into pieces that differ in the same way, and such pieces leave the same tokens. -/
namespace TagScript

open Unicode

namespace Piece

def toLower : Piece → Piece
  | comment text => comment (text.map Char.toLower)
  | word letters => word (letters.map Char.toLower)
  | tag letters => tag (letters.map Char.toLower)
  | piece => piece

@[simp] theorem length_text_toLower (piece : Piece) :
    piece.toLower.text.length = piece.text.length := by
  cases piece <;> simp [toLower, text]

@[simp] theorem lexeme?_toLower (piece : Piece) : piece.toLower.lexeme? = piece.lexeme? := by
  cases piece <;>
    simp [toLower, lexeme?, Lexeme.ofWord, Lexeme.ofTag, uppercase_toLower, lowercase_toLower]

@[simp] theorem toLower_eq_newline (piece : Piece) : piece.toLower = newline ↔ piece = newline := by
  cases piece <;> simp [toLower]

@[simp] theorem lineEnds_map_toLower (pieces : List Piece) :
    lineEnds (pieces.map toLower) = lineEnds pieces := by
  induction pieces with
  | nil => rfl
  | cons piece pieces ih =>
    cases piece with
    | blank c => exact ih
    | _ => rfl

@[simp] theorem isolated_toLower (piece : Piece) (rest : List Piece) :
    piece.toLower.isolated (rest.map toLower) = piece.isolated rest := by
  cases piece with
  | tag letters => exact lineEnds_map_toLower rest
  | _ => rfl

theorem allTokens_map_toLower (position line : Nat) (pieces : List Piece) :
    allTokens position line (pieces.map toLower) = allTokens position line pieces := by
  induction pieces generalizing position line with
  | nil => rfl
  | cons piece pieces ih => simp [allTokens, tokens, ih]

/-! Cutting. No character that decides about the cut is a letter of ASCII. -/

theorem map_toLower_ofDigits (digits : List Char) :
    (ofDigits digits).map toLower = ofDigits digits := by
  unfold ofDigits
  split <;> rfl

theorem ofTagLetters_map_toLower (letters : List Char) :
    ofTagLetters (letters.map Char.toLower) = (ofTagLetters letters).map toLower := by
  cases letters <;> rfl

theorem first_toLower_of_mem_reserved {c : Char} (mem : c ∈ reserved) (cs : List Char) :
    first c (cs.map Char.toLower) = (first c cs).map toLower := by
  by_cases ahead : c ∈ ['-', '=', '!', '@']
  · have minus := head?_map_toLower (r := '-') (by decide) cs
    have angle := head?_map_toLower (r := '>') (by decide) cs
    have equal := head?_map_toLower (r := '=') (by decide) cs
    simp only [List.mem_cons, List.not_mem_nil, or_false] at ahead
    obtain rfl | rfl | rfl | rfl := ahead
    · have rest_eq : lineRest (cs.map Char.toLower) = (lineRest cs).map Char.toLower :=
        takeWhile_map_toLower (toLower_congr (fun c => decide (c ≠ '\n')) (by decide)) cs
      simp only [first_minus, minus, angle, rest_eq]
      split <;> rfl
    · simp only [first_equal, equal]
      split <;> rfl
    · simp only [first_exclamation, equal]
      split <;> rfl
    · rw [first_at, first_at, takeWhile_map_toLower isAlphabetic_toLower,
        ofTagLetters_map_toLower]
  · obtain ⟨kind, cut⟩ | cut | cut := first_of_mem_reserved mem ahead
    all_goals
      rw [cut, cut]
      rfl

theorem first_toLower (c : Char) (cs : List Char) :
    first c.toLower (cs.map Char.toLower) = (first c cs).map toLower := by
  have same_class : c.toLower ∈ reserved ↔ c ∈ reserved :=
    iff_of_eq (toLower_congr (· ∈ reserved) (by decide) c)
  by_cases mem : c ∈ reserved
  · have unchanged : ∀ r ∈ reserved, r.toLower = r := forall_listed (by decide)
    rw [unchanged c mem, first_toLower_of_mem_reserved mem]
  · rw [first_of_not_mem_reserved mem, first_of_not_mem_reserved (mt same_class.mp mem),
      isDigit_toLower, isAlphabetic_toLower, takeWhile_map_toLower isDigit_toLower,
      takeWhile_map_toLower isAlphabetic_toLower]
    split
    case isTrue digit =>
      have digits : ∀ d ∈ c :: cs.takeWhile Decimal.isDigit, Decimal.isDigit d = true :=
        fun d => mem_cons_takeWhile digit
      rw [← List.map_cons, map_toLower_of_isDigit digits, map_toLower_ofDigits]
    case isFalse =>
      split
      case isTrue letter => rfl
      case isFalse no_letter =>
        rw [toLower_of_not_isAlphabetic (Bool.of_not_eq_true no_letter)]
        rfl

theorem split_map_toLower (position : Nat) (cs : List Char) :
    split position (cs.map Char.toLower) = (split position cs).map (List.map toLower) := by
  fun_induction split position cs with
  | case1 position =>
    rw [List.map_nil, split]
    rfl
  | case2 position c cs e failed =>
    have failed' := first_toLower c cs
    rw [failed] at failed'
    rw [List.map_cons, split_of_error failed']
    rfl
  | case3 position c cs piece cut ih =>
    have cut' := first_toLower c cs
    rw [cut] at cut'
    rw [List.map_cons, split_of_ok cut', length_text_toLower, ← List.map_drop, ih]
    cases split (position + piece.text.length) (cs.drop (piece.text.length - 1)) <;> rfl

end Piece

namespace Token

theorem scan_toLower (source : String) : scan source.toLower = scan source := by
  rw [scan_eq, scan_eq, toList_toLower, Piece.split_map_toLower]
  cases Piece.split 0 source.toList with
  | error fault => rfl
  | ok pieces => exact congrArg Except.ok (Piece.allTokens_map_toLower 0 1 pieces)

theorem lines_toLower (source : String) : lines source.toLower = lines source := by
  have same : (· == '\n') ∘ Char.toLower = (· == '\n') :=
    funext (toLower_congr (· == '\n') (by decide))
  rw [lines, lines, toList_toLower, List.count_eq_countP, List.countP_map, same,
    List.count_eq_countP]

theorem scanJournal_toLower (source : String) :
    scanJournal source.toLower = scanJournal source := by
  rw [scanJournal, scanJournal, scan_toLower, lines_toLower]

end Token

end TagScript
