import TagScript.Proofs.Token.Row

/-! Texts put one under the other. Nothing that looks ahead looks past a line feed, and a
line feed ends the line for a tag, so neither text has a part in the tokens of the other. Each
is cut where it would be cut alone, and refused for what it would be refused for. -/
namespace TagScript

namespace Piece

open Unicode

variable {pieces others : List Piece}

theorem takeWhile_append_newline {p : Char → Bool} (stop : p '\n' = false) (cs ds : List Char) :
    (cs ++ '\n' :: ds).takeWhile p = cs.takeWhile p := by
  induction cs with
  | nil => simp [stop]
  | cons c cs ih => simp [List.takeWhile_cons, ih]

theorem head?_append_newline {c : Char} (other : c ≠ '\n') (cs ds : List Char) :
    (cs ++ '\n' :: ds).head? = some c ↔ cs.head? = some c := by
  cases cs with
  | nil => simp [other.symm]
  | cons d cs => rfl

theorem first_append_newline (c : Char) (cs ds : List Char) :
    first c (cs ++ '\n' :: ds) = first c cs := by
  have letters_eq := takeWhile_append_newline (p := isAlphabetic) (by decide) cs ds
  have digits_eq := takeWhile_append_newline (p := Decimal.isDigit) (by decide) cs ds
  have line_eq : lineRest (cs ++ '\n' :: ds) = lineRest cs :=
    takeWhile_append_newline (by decide) cs ds
  by_cases mem : c ∈ reserved
  · by_cases ahead : c ∈ ['-', '=', '!', '@']
    · simp only [List.mem_cons, List.not_mem_nil, or_false] at ahead
      rcases ahead with rfl | rfl | rfl | rfl
      · simp only [first_minus, line_eq, head?_append_newline (by decide : '-' ≠ '\n'),
          head?_append_newline (by decide : '>' ≠ '\n')]
      · simp only [first_equal, head?_append_newline (by decide : '=' ≠ '\n')]
      · simp only [first_exclamation, head?_append_newline (by decide : '=' ≠ '\n')]
      · rw [first_at, first_at, letters_eq]
    · obtain ⟨kind, same⟩ | same | same := first_of_mem_reserved mem ahead <;>
        rw [same, same]
  · rw [first_of_not_mem_reserved mem, first_of_not_mem_reserved mem, letters_eq, digits_eq]

theorem split_append_newline (position : Nat) (cs ds : List Char) :
    split position (cs ++ '\n' :: ds) = (do
      let pieces ← split position cs
      let others ← split (position + cs.length + 1) ds
      return pieces ++ newline :: others) := by
  fun_induction split position cs with
  | case1 position =>
    have cut : first '\n' ds = .ok newline := rfl
    rw [List.nil_append, split_of_ok cut]
    change (split (position + 1) ds).map _ = _
    cases split (position + 1) ds <;> rfl
  | case2 position c cs e failed =>
    have failed' : first c (cs ++ '\n' :: ds) = .error e := by rw [first_append_newline, failed]
    rw [List.cons_append, split_of_error failed']
    rfl
  | case3 position c cs piece cut ih =>
    have cut' : first c (cs ++ '\n' :: ds) = .ok piece := by rw [first_append_newline, cut]
    obtain ⟨formed, rest, text_eq, -⟩ := begins_of_first cut
    have length_pos := List.length_pos_iff.mpr formed.text_ne_nil
    have length_eq := congrArg List.length text_eq
    simp only [List.length_cons, List.length_append] at length_eq
    have inside : piece.text.length - 1 ≤ cs.length := by omega
    have next_eq : position + piece.text.length + (cs.drop (piece.text.length - 1)).length + 1 =
        position + (c :: cs).length + 1 := by
      simp only [List.length_drop, List.length_cons]
      omega
    rw [List.cons_append, split_of_ok cut', List.drop_append_of_le_length inside, ih, next_eq]
    cases split (position + piece.text.length) (cs.drop (piece.text.length - 1)) with
    | error f => rfl
    | ok pieces => cases split (position + (c :: cs).length + 1) ds <;> rfl

theorem split_shift (position distance : Nat) (cs : List Char) :
    split (position + distance) cs =
      (split position cs).mapError (·.mapSpan (·.shift distance)) := by
  fun_induction split position cs with
  | case1 position =>
    rw [split]
    rfl
  | case2 position c cs e failed =>
    rw [split_of_error failed, Nat.add_right_comm]
    rfl
  | case3 position c cs piece cut ih =>
    rw [split_of_ok cut, Nat.add_right_comm, ih]
    cases split (position + piece.text.length) (cs.drop (piece.text.length - 1)) <;> rfl

theorem count_newline_text (formed : ∀ piece ∈ pieces, piece.Formed) :
    (pieces.flatMap text).count '\n' = pieces.count newline := by
  induction pieces with
  | nil => rfl
  | cons piece pieces ih =>
    obtain ⟨here, formed⟩ := List.forall_mem_cons.mp formed
    rw [List.flatMap_cons, List.count_append, here.count_newline, ih formed, List.count_cons,
      Nat.add_comm]
    simp only [beq_iff_eq]

theorem allTokens_append_of_lineEnds (formed : ∀ piece ∈ pieces, piece.Formed)
    (ends : lineEnds others = true) (position line : Nat) :
    allTokens position line (pieces ++ others) =
      allTokens position line pieces ++
        allTokens (position + (pieces.flatMap text).length)
          (line + (pieces.flatMap text).count '\n') others := by
  rw [(unmoved_of_lineEnds ends pieces).allTokens_append, count_newline_text formed]

end Piece

namespace Token

variable {upper lower : String} {us vs : List Token}

theorem split_join (upper lower : String) :
    Piece.split 0 (upper ++ "\n" ++ lower).toList = (do
      let pieces ← Piece.split 0 upper.toList
      let others ← (Piece.split 0 lower.toList).mapError (·.mapSpan (·.shift (upper.length + 1)))
      return pieces ++ .newline :: others) := by
  have text_eq : (upper ++ "\n" ++ lower).toList = upper.toList ++ '\n' :: lower.toList := by
    simp [String.toList_append]
  rw [text_eq, Piece.split_append_newline, String.length_toList, Nat.add_assoc,
    Piece.split_shift]

/-- Two texts under each other have the tokens of both, those of the lower one further on. -/
theorem scan_join (first : scan upper = .ok us) (second : scan lower = .ok vs) :
    scan (upper ++ "\n" ++ lower) =
      .ok (us ++ vs.map (·.shift (upper.length + 1) (lines upper))) := by
  rw [scan_eq] at first second
  obtain ⟨pieces, cut, rfl⟩ := Piece.map_eq_ok_iff.mp first
  obtain ⟨others, cut', rfl⟩ := Piece.map_eq_ok_iff.mp second
  obtain ⟨text_eq, formed⟩ := (Piece.split_eq_ok_iff.mp cut).1.formed
  have tokens_eq := Piece.allTokens_shift 0 1 (upper.length + 1) (lines upper) others
  rw [scan_eq, split_join, cut, cut']
  change Except.ok (Piece.allTokens 0 1 (pieces ++ .newline :: others)) = _
  rw [Piece.allTokens_append_of_lineEnds formed rfl, ← text_eq, String.length_toList, ← tokens_eq,
    Piece.allTokens, if_pos rfl, lines]
  rfl

/-- Scanning distributes over texts put one under the other. An error of the upper text is the
error of both; the tokens and the error of the lower one stand further on. -/
theorem scan_append_newline (upper lower : String) :
    scan (upper ++ "\n" ++ lower) = (do
      let us ← scan upper
      let vs ← (scan lower).mapError (·.mapSpan (·.shift (upper.length + 1)))
      return us ++ vs.map (·.shift (upper.length + 1) (lines upper))) := by
  cases cut : Piece.split 0 upper.toList with
  | error f =>
    simp only [scan_eq, split_join, cut]
    rfl
  | ok pieces =>
    cases cut' : Piece.split 0 lower.toList with
    | error f =>
      simp only [scan_eq, split_join, cut, cut']
      rfl
    | ok others =>
      have first : scan upper = .ok (Piece.allTokens 0 1 pieces) := by rw [scan_eq, cut]; rfl
      have second : scan lower = .ok (Piece.allTokens 0 1 others) := by rw [scan_eq, cut']; rfl
      rw [scan_join first second, first, second]
      rfl

end Token

end TagScript
