import Mathlib.Logic.Relation
import TagScript.Machine.Store
import TagScript.Proofs.Syntax.Occurrences

/-! Which tags a statement may come to invoke: those that it invokes itself, and those
that their bodies invoke in turn. -/
namespace TagScript.TagTable

def Invokes (τ : TagTable) (tag other : String) : Prop :=
  ∃ body, τ[tag]? = some (some body) ∧ other ∈ body.invocations

/-- From some of these tags, invocations lead to the tag. -/
def Invocable (τ : TagTable) (tags : List String) (tag : String) : Prop :=
  ∃ first ∈ tags, Relation.ReflTransGen τ.Invokes first tag

variable {τ : TagTable} {tags others : List String} {tag other : String}

theorem Invocable.of_mem (mem : tag ∈ tags) : τ.Invocable tags tag :=
  ⟨tag, mem, .refl⟩

theorem Invocable.mono (h : τ.Invocable tags tag) (sub : ∀ tag ∈ tags, tag ∈ others) :
    τ.Invocable others tag := by
  obtain ⟨first, mem, path⟩ := h
  exact ⟨first, sub first mem, path⟩

theorem Invocable.of_body {body : Stmt} (mem : tag ∈ tags) (bound : τ[tag]? = some (some body))
    (h : τ.Invocable body.invocations other) : τ.Invocable tags other := by
  obtain ⟨first, inside, path⟩ := h
  exact ⟨tag, mem, .head ⟨body, bound, inside⟩ path⟩

end TagScript.TagTable
