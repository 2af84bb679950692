import Mathlib.Data.List.Chain
import TagScript.Proofs.Token.Row

/-! In which order the tokens of a text stand. Each begins where the one before it has
ended or later, and the empty ones stand only at the ends of tags. -/
namespace TagScript

namespace Token

/-- One token after the other, an empty one only right at the end of a tag. -/
structure Ordered (ts : List Token) : Prop where
  apart : ts.Pairwise fun a b => a.span.stop ≤ b.span.start
  proper : ∀ t ∈ ts, t.span.start ≤ t.span.stop
  attached : ts.IsChain fun a b =>
    b.kind = .empty → a.kind = .tag ∧ b.span = ⟨a.span.stop, a.span.stop⟩

def Opened (ts : List Token) : Prop :=
  ∀ t ∈ ts.head?, t.kind ≠ .empty

variable {t : Token} {us ts : List Token}

theorem ordered_nil : Ordered [] :=
  ⟨.nil, nofun, .nil⟩

theorem ordered_singleton (proper : t.span.start ≤ t.span.stop) : Ordered [t] where
  apart := List.pairwise_singleton _ t
  proper := List.forall_mem_singleton.mpr proper
  attached := .singleton t

theorem Ordered.part (ordered : Ordered ts) (sub : us <:+: ts) : Ordered us where
  apart := ordered.apart.sublist sub.sublist
  proper t mem := ordered.proper t (sub.subset mem)
  attached := List.IsChain.infix ordered.attached sub

theorem Ordered.append (first : Ordered us) (second : Ordered ts) (opened : Opened ts)
    (apart : ∀ a ∈ us, ∀ b ∈ ts, a.span.stop ≤ b.span.start) : Ordered (us ++ ts) where
  apart := List.pairwise_append.mpr ⟨first.apart, second.apart, apart⟩
  proper := List.forall_mem_append.mpr ⟨first.proper, second.proper⟩
  attached := List.isChain_append.mpr ⟨first.attached, second.attached,
    fun _ _ b mem empty => absurd empty (opened b mem)⟩

end Token

namespace Piece

open Token

variable {piece : Piece} {pieces : List Piece}

theorem Formed.ordered_tokens (formed : piece.Formed) (position line : Nat) (rest : List Piece) :
    Ordered (piece.tokens position line (piece.isolated rest)) ∧
      Opened (piece.tokens position line (piece.isolated rest)) ∧
      ∀ t ∈ piece.tokens position line (piece.isolated rest),
        position ≤ t.span.start ∧ t.span.stop ≤ position + piece.text.length := by
  unfold tokens
  cases lexeme_eq : piece.lexeme? with
  | none => exact ⟨ordered_nil, nofun, nofun⟩
  | some x =>
    have visible : x.kind ≠ .empty := (formed.lexeme_kind lexeme_eq).1
    have proper := Nat.le_add_right position piece.text.length
    dsimp only
    split
    case isFalse =>
      refine ⟨ordered_singleton proper, ?_, ?_⟩
      · rintro _ ⟨⟩
        exact visible
      · exact List.forall_mem_singleton.mpr ⟨Nat.le_refl _, Nat.le_refl _⟩
    case isTrue alone =>
      have tag : x.kind = .tag := by
        cases piece with
        | tag letters =>
          cases lexeme_eq
          rfl
        | _ => cases alone
      refine ⟨⟨?_, ?_, ?_⟩, ?_, ?_⟩
      · exact List.pairwise_pair.mpr (Nat.le_refl _)
      · simp [proper]
      · exact List.isChain_pair.mpr fun _ => ⟨tag, rfl⟩
      · rintro _ ⟨⟩
        exact visible
      · simp [proper]

theorem ordered_allTokens (formed : ∀ piece ∈ pieces, piece.Formed) (position line : Nat) :
    Ordered (allTokens position line pieces) ∧ Opened (allTokens position line pieces) ∧
      ∀ t ∈ allTokens position line pieces,
        position ≤ t.span.start ∧ t.span.stop ≤ position + (pieces.flatMap text).length := by
  induction pieces generalizing position line with
  | nil => exact ⟨ordered_nil, nofun, nofun⟩
  | cons piece pieces ih =>
    obtain ⟨here, others⟩ := List.forall_mem_cons.mp formed
    obtain ⟨ordered, opened, within⟩ := here.ordered_tokens position line pieces
    obtain ⟨ordered', opened', within'⟩ := ih others (position + piece.text.length)
      (if piece = newline then line + 1 else line)
    rw [allTokens, List.flatMap_cons, List.length_append]
    refine ⟨ordered.append ordered' opened' fun a mem b mem' =>
      Nat.le_trans (within a mem).2 (within' b mem').1, ?_, ?_⟩
    · cases tokens_eq : piece.tokens position line (piece.isolated pieces) with
      | nil => exact opened'
      | cons t ts =>
        rw [tokens_eq] at opened
        exact opened
    · intro t mem
      rcases List.mem_append.mp mem with mem | mem
      · have := within t mem
        omega
      · have := within' t mem
        omega

end Piece

namespace Token

variable {source : String} {ts : List Token}

theorem ordered_of_scan (scanned : scan source = .ok ts) :
    Ordered ts ∧ Opened ts ∧ ∀ t ∈ ts, t.span.stop ≤ source.length := by
  obtain ⟨pieces, munch, -, rfl⟩ := scan_eq_ok_iff.mp scanned
  obtain ⟨text_eq, formed⟩ := munch.formed
  obtain ⟨ordered, opened, within⟩ := Piece.ordered_allTokens formed 0 1
  rw [← text_eq, String.length_toList, Nat.zero_add] at within
  exact ⟨ordered, opened, fun t mem => (within t mem).2⟩

end Token

end TagScript
