import TagScript.Proofs.Token.Munch

/-! Looking ahead of a tag. Whether a tag stands alone is decided on the raw characters behind
it, which are cut into pieces only later. The pieces tell the same, whatever they are, so that a
text may as well be cut into all its pieces before any of them becomes a token. -/
namespace TagScript

namespace Piece

variable {cs rest : List Char}

def lineEnds : List Piece → Bool
  | [] => true
  | blank _ :: rest => lineEnds rest
  | newline :: _ | comment _ :: _ => true
  | sign kind _ :: _ => kind == .rightBrace
  | _ => false

/-- The piece is a tag that stands alone when these pieces follow it. -/
def isolated (piece : Piece) (rest : List Piece) : Bool :=
  match piece with
  | tag _ => lineEnds rest
  | _ => false

def allTokens (position line : Nat) : List Piece → List Token
  | [] => []
  | piece :: rest =>
    piece.tokens position line (piece.isolated rest) ++
      allTokens (position + piece.text.length) (if piece = newline then line + 1 else line) rest

theorem lineOver_blank {c : Char} (mem : c ∈ [' ', '\t', '\r']) (cs : List Char) :
    lineOver (c :: cs) = lineOver cs := by
  have skipped : [' ', '\t', '\r'].contains c = true := List.contains_iff_mem.mpr mem
  rw [lineOver, lineOver, List.dropWhile_cons_of_pos skipped]

theorem lineOver_cons {c : Char} (other : c ∉ [' ', '\t', '\r', '-']) (cs : List Char) :
    lineOver (c :: cs) = ['\n', '}'].contains c := by
  have stays : ¬[' ', '\t', '\r'].contains c = true := by
    intro blank
    exact other (List.mem_append_left ['-'] (List.contains_iff_mem.mp blank))
  rw [lineOver, List.dropWhile_cons_of_neg stays]
  split
  case h_1 eq => cases eq
  case h_2 eq =>
    cases eq
    rfl
  case h_3 eq =>
    cases eq
    rfl
  case h_4 eq | h_5 eq =>
    cases eq
    exact absurd (by decide) other
  case h_6 feed brace _ _ =>
    have feed : c ≠ '\n' := fun eq => feed cs (congrArg (· :: cs) eq)
    have brace : c ≠ '}' := fun eq => brace cs (congrArg (· :: cs) eq)
    simp [feed, brace]

theorem lineOver_of_not_mem_reserved {c : Char} (other : c ∉ reserved) (cs : List Char) :
    lineOver (c :: cs) = false := by
  have table : ∀ d ∈ [' ', '\t', '\r', '-', '\n', '}'], d ∈ reserved :=
    Unicode.forall_listed (by decide)
  have absent {listed : List Char} (sub : listed ⊆ [' ', '\t', '\r', '-', '\n', '}']) :
      c ∉ listed := fun mem => other (table c (sub mem))
  rw [lineOver_cons (absent (by decide)), ← Bool.not_eq_true, List.contains_iff_mem]
  exact absent (by decide)

theorem lineOver_comment {c : Char} (opening : c = '-' ∨ c = '>') (cs : List Char) :
    lineOver ('-' :: c :: cs) = true := by
  rcases opening with rfl | rfl <;> rfl

theorem lineOver_minus (stops : (sign .minus ['-']).StopsBefore rest) :
    lineOver ('-' :: rest) = false := by
  have stays : ('-' :: rest).dropWhile [' ', '\t', '\r'].contains = '-' :: rest := rfl
  rw [lineOver, stays]
  cases rest with
  | nil => rfl
  | cons d rest =>
    obtain ⟨dash, angle⟩ := stopsBefore_cons.mp stops
    split <;> grind

theorem lineOver_sign {kind : Kind} {text : List Char} (mem : (kind, text) ∈ signs)
    (stops : (sign kind text).StopsBefore rest) :
    lineOver (text ++ rest) = (kind == .rightBrace) := by
  by_cases minus : kind = .minus
  · subst minus
    have only : ∀ s ∈ signs, s.1 = .minus → s.2 = ['-'] := by decide
    obtain rfl : text = ['-'] := only _ mem rfl
    exact lineOver_minus stops
  · have table : ∀ s ∈ signs, s.1 ≠ .minus →
        s.2.head?.map (fun c => ([' ', '\t', '\r', '-'].contains c, ['\n', '}'].contains c)) =
          some (false, s.1 == .rightBrace) := by decide
    obtain ⟨c, more, rfl⟩ := List.exists_cons_of_ne_nil (Formed.sign mem).text_ne_nil
    obtain ⟨other, ends⟩ := Prod.mk.inj (Option.some.inj (table _ mem minus))
    have other : c ∉ [' ', '\t', '\r', '-'] := by simpa using other
    exact (lineOver_cons other _).trans ends

/-- The characters behind a tag tell whether it stands alone as the pieces do that they are cut
into. -/
theorem Munch.lineOver_eq {pieces : List Piece} (munch : Munch cs pieces) :
    lineOver cs = lineEnds pieces := by
  induction munch with
  | nil => rfl
  | @cons piece rest pieces formed longest others ih =>
    have stops := formed.longest_iff.mp longest
    cases formed with
    | blank mem => exact (lineOver_blank mem rest).trans ih
    | newline => rfl
    | comment opening line => exact lineOver_comment opening _
    | sign mem => exact lineOver_sign mem stops
    | @number digits nonempty all =>
      obtain ⟨d, digits, rfl⟩ := List.exists_cons_of_ne_nil nonempty
      exact lineOver_of_not_mem_reserved (not_mem_reserved (.inl (all d List.mem_cons_self))) _
    | @word letters nonempty all =>
      obtain ⟨d, letters, rfl⟩ := List.exists_cons_of_ne_nil nonempty
      exact lineOver_of_not_mem_reserved (not_mem_reserved (.inr (all d List.mem_cons_self))) _
    | tag => rfl

theorem Munch.standsAlone_eq {pieces : List Piece} (munch : Munch rest pieces) (piece : Piece) :
    piece.standsAlone rest = piece.isolated pieces := by
  cases piece with
  | tag => exact munch.lineOver_eq
  | _ => rfl

end Piece

namespace Token

open Piece

theorem scanFrom_eq (position line : Nat) (cs : List Char) :
    scanFrom position line cs = (split position cs).map (allTokens position line) := by
  fun_induction split position cs generalizing line with
  | case1 position =>
    rw [scanFrom]
    rfl
  | case2 position c cs e failed =>
    rw [scanFrom, failed]
    rfl
  | case3 position c cs piece cut ih =>
    rw [scanFrom, cut]
    dsimp only
    rw [ih]
    cases others : split (position + piece.text.length) (cs.drop (piece.text.length - 1)) with
    | error f => rfl
    | ok pieces =>
      have munch := (split_eq_ok_iff.mp others).1
      rw [munch.standsAlone_eq]
      rfl

/-- The tokens come from the pieces, as if the text were cut into these before. -/
theorem scan_eq (source : String) :
    scan source = (split 0 source.toList).map (allTokens 0 1) :=
  scanFrom_eq 0 1 source.toList

end Token

end TagScript
