import Mathlib
import TagScript.Proofs.Token.Stable
import TagScript.Proofs.Unicode.Folding

/-! Names are kept in lower case. What is kept is read as the same name again: it consists of
letters that are their own lower case, and it is no keyword, for a keyword would have been one
before. Only `İ` is lost in a name, since its lower case holds a character that is no letter. -/
namespace TagScript

open Unicode

/-! Letter by letter. -/

def Foreign (cs : List Char) : Prop :=
  ∀ entry ∈ keywords, ¬ cs <:+: entry.1.toList

/-- `d` is kept for the letter `c` of a name. No keyword comes of it. -/
structure Folds (c d : Char) : Prop where
  folded : Folded d
  upper : upper d = upper c ∨ Foreign (upper d)

variable {c d : Char} {letters kept : List Char}

theorem foreign_upper (beyond : 128 ≤ d.toNat) (dotless : d.toNat ≠ 305) (long : d.toNat ≠ 383) :
    Foreign (upper d) := by
  intro entry entry_mem
  obtain ⟨expansion, listed, eq⟩ | ⟨m, beyond, eq⟩ := upper_cases beyond dotless long
  · have table : ∀ expansion ∈ upperExpansions, ∀ entry ∈ keywords,
        ¬ expansion.2.map Char.ofNat <:+: entry.1.toList := by decide +kernel
    rw [eq]
    exact table expansion listed entry entry_mem
  · have table : ∀ entry ∈ keywords,
        (entry.1.toList.all fun c => 0 < c.toNat && c.toNat < 128) = true := by decide +kernel
    intro part
    rw [eq] at part
    have bound := List.all_eq_true.mp (table entry entry_mem) _
      (part.subset (List.mem_singleton_self _))
    rw [Bool.and_eq_true, decide_eq_true_eq, decide_eq_true_eq, toNat_ofNat] at bound
    split at bound <;> omega

theorem exists_folds (letter : isAlphabetic c = true) (other : c ≠ 'İ') :
    ∃ d, lower c = [d] ∧ Folds c d := by
  obtain ⟨d, lower_eq, folded, same | rfl | ⟨beyond, dotless, long⟩⟩ := exists_folded letter other
  · exact ⟨d, lower_eq, folded, .inl same⟩
  · have kelvin : ∀ entry ∈ keywords, ¬ upper 'k' <:+: entry.1.toList := by decide +kernel
    exact ⟨'k', lower_eq, folded, .inr kelvin⟩
  · exact ⟨d, lower_eq, folded, .inr (foreign_upper beyond dotless long)⟩

theorem folds_sigma : Folds 'Σ' 'ς' ∧ Folds 'Σ' 'σ' := by
  have forms : ∀ d ∈ ['ς', 'σ'],
      isAlphabetic d = true ∧ lower d = [d] ∧ upper d = upper 'Σ' :=
    forall_listed (by decide +kernel)
  simp only [List.forall_mem_cons] at forms
  obtain ⟨⟨letter, fixed, same⟩, ⟨letter', fixed', same'⟩, -⟩ := forms
  exact ⟨⟨⟨letter, fixed⟩, .inl same⟩, ⟨⟨letter', fixed'⟩, .inl same'⟩⟩

/-! Words. -/

theorem folds_lowercaseAfter (all : ∀ c ∈ letters, isAlphabetic c = true)
    (other : 'İ' ∉ letters) (before : List Char) :
    List.Forall₂ Folds letters (lowercaseAfter before letters) := by
  induction letters generalizing before with
  | nil => exact .nil
  | cons c after ih =>
    obtain ⟨letter, all⟩ := List.forall_mem_cons.mp all
    obtain ⟨ne, other⟩ := List.ne_and_not_mem_of_not_mem_cons other
    obtain ⟨d, eq, folds⟩ : ∃ d, (if c = 'Σ' then [if endsWord before after then 'ς' else 'σ']
        else lower c) = [d] ∧ Folds c d := by
      by_cases sigma : c = 'Σ'
      · subst sigma
        refine ⟨_, if_pos rfl, ?_⟩
        split
        · exact folds_sigma.1
        · exact folds_sigma.2
      · rw [if_neg sigma]
        exact exists_folds letter ne.symm
    rw [lowercaseAfter, eq]
    exact .cons folds (ih all other (c :: before))

theorem lowercaseAfter_of_folded (all : ∀ d ∈ kept, Folded d) (before : List Char) :
    lowercaseAfter before kept = kept := by
  induction kept generalizing before with
  | nil => rfl
  | cons d kept ih =>
    obtain ⟨folded, all⟩ := List.forall_mem_cons.mp all
    rw [lowercaseAfter, if_neg folded.ne_sigma, folded.fixed, ih all (d :: before),
      List.singleton_append]

theorem folded_of_folds (h : List.Forall₂ Folds letters kept) : ∀ d ∈ kept, Folded d := by
  induction h with
  | nil => exact nofun
  | cons folds _ ih => exact List.forall_mem_cons.mpr ⟨folds.folded, ih⟩

theorem uppercase_of_folds (h : List.Forall₂ Folds letters kept) {entry : String × Kind}
    (mem : entry ∈ keywords) (part : uppercase kept <:+: entry.1.toList) :
    uppercase kept = uppercase letters := by
  induction h with
  | nil => rfl
  | @cons c d letters kept folds _ ih =>
    change upper d ++ uppercase kept <:+: _ at part
    have same := folds.upper.resolve_right fun foreign =>
      foreign entry mem ((List.prefix_append _ _).isInfix.trans part)
    have rest := ih ((List.suffix_append _ _).isInfix.trans part)
    change upper d ++ uppercase kept = upper c ++ uppercase letters
    rw [same, rest]

theorem mem_lowercaseAfter_of_dotted (mem : 'İ' ∈ letters) (before : List Char) :
    Char.ofNat 775 ∈ lowercaseAfter before letters := by
  induction letters generalizing before with
  | nil => cases mem
  | cons c after ih =>
    rw [lowercaseAfter, List.mem_append]
    rcases List.mem_cons.mp mem with rfl | later
    · have leaves : Char.ofNat 775 ∈ lower 'İ' := by decide
      exact .inl leaves
    · exact .inr (ih later (c :: before))

theorem not_all_letters_of_dotted (mem : 'İ' ∈ letters) :
    ¬ ∀ d ∈ lowercase letters, isAlphabetic d = true := by
  have no_letter : isAlphabetic (Char.ofNat 775) ≠ true := by decide +kernel
  intro all
  exact no_letter (all _ (mem_lowercaseAfter_of_dotted mem []))

/-! Tokens. -/

structure Lexeme.KeptFrom (x : Lexeme) (letters : List Char) : Prop where
  nonempty : letters ≠ []
  all : ∀ c ∈ letters, isAlphabetic c = true
  kept : x.text.toList = lowercase letters
  word : x.kind = .identifier → ∀ kind, (String.ofList (uppercase letters), kind) ∉ keywords

theorem exists_keptFrom {cs : List Char} {x : Lexeme} (spells : Spells cs x)
    (name : x.kind = .identifier ∨ x.kind = .tag) :
    ∃ letters, x.KeptFrom letters ∧ ('İ' ∈ cs ↔ 'İ' ∈ letters) := by
  have table : ∀ kind ∈ Piece.signs.map (·.1) ++ keywords.map (·.2),
      ¬ (kind = .identifier ∨ kind = .tag) := by decide
  cases spells with
  | sign mem =>
    exact absurd name (table _ (List.mem_append_left _ (List.mem_map_of_mem mem)))
  | integer => simp at name
  | keyword _ _ mem =>
    exact absurd name (table _ (List.mem_append_right _ (List.mem_map_of_mem mem)))
  | name nonempty all other =>
    exact ⟨cs, ⟨nonempty, all, String.toList_ofList, fun _ => other⟩, Iff.rfl⟩
  | @tag letters nonempty all =>
    have apart : 'İ' ≠ '@' := by decide
    refine ⟨letters, ⟨nonempty, all, String.toList_ofList, nofun⟩, ?_⟩
    rw [List.mem_cons, or_iff_right apart]

theorem Lexeme.KeptFrom.plain {x : Lexeme} (origin : x.KeptFrom letters)
    (name : x.kind = .identifier ∨ x.kind = .tag) (other : 'İ' ∉ letters) :
    x.Plain ∧ ∀ c ∈ x.text.toList, isAlphabetic c = true := by
  have folds := folds_lowercaseAfter origin.all other []
  have kept : x.text.toList = lowercaseAfter [] letters := origin.kept
  rw [← kept] at folds
  have folded := folded_of_folds folds
  have all : ∀ c ∈ x.text.toList, isAlphabetic c = true := fun c mem => (folded c mem).letter
  have nonempty : x.text.toList ≠ [] := by
    intro empty
    rw [empty] at folds
    cases folds
    exact origin.nonempty rfl
  have same : String.ofList (lowercase x.text.toList) = x.text := by
    rw [lowercase, lowercaseAfter_of_folded folded, String.ofList_toList]
  refine ⟨?_, all⟩
  obtain ⟨kind, text⟩ := x
  rcases name with rfl | rfl
  · refine .of_name nonempty (List.all_eq_true.mpr all) ?_
    rw [ofWord_of_not_mem_keywords, same]
    intro kind mem
    have whole : uppercase text.toList <:+: (String.ofList (uppercase text.toList)).toList := by
      simp
    rw [show uppercase text.toList = _ from uppercase_of_folds folds mem whole] at mem
    exact origin.word rfl kind mem
  · exact .of_tag nonempty (List.all_eq_true.mpr all) (by rw [ofTag, same])

namespace Token

variable {source : String} {ts : List Token} {t : Token}

theorem Stable.all_letters (stable : t.Stable) (name : t.kind = .identifier ∨ t.kind = .tag) :
    ∀ c ∈ t.text.toList, isAlphabetic c = true := by
  rcases name with kind | kind
  · cases (stable.word kind).1 with
    | word _ all => exact all
  · cases (stable.tag_letters kind).1 with
    | tag _ all => exact all

/-- A name or a tag is kept as letters, and is scanned as the same name or tag again, just when
it is written without `İ`. -/
theorem stable_iff_undotted (scanned : scan source = .ok ts) (mem : t ∈ ts)
    (name : t.kind = .identifier ∨ t.kind = .tag) :
    ((∀ c ∈ t.text.toList, isAlphabetic c = true) ↔ 'İ' ∉ t.span.slice source.toList) ∧
      (t.Stable ↔ 'İ' ∉ t.span.slice source.toList) := by
  have shown : t.kind ≠ .empty := by rcases name with kind | kind <;> rw [kind] <;> decide
  have kept : t ∈ visible ts := List.mem_filter.mpr ⟨mem, decide_eq_true shown⟩
  have spells := ((laidOut_of_scan scanned).spelled t kept t.toLexeme).mpr rfl
  obtain ⟨letters, origin, same⟩ := exists_keptFrom spells name
  rw [same]
  have undotted (all : ∀ c ∈ t.text.toList, isAlphabetic c = true) : 'İ' ∉ letters := by
    rw [origin.kept] at all
    exact fun dotted => not_all_letters_of_dotted dotted all
  refine ⟨⟨undotted, fun other => (origin.plain name other).2⟩, fun stable => ?_, fun other => ?_⟩
  · exact undotted (stable.all_letters name)
  · exact stable_of_plain (origin.plain name other).1

set_option maxRecDepth 4000 in
/-- A sigma at the end of a word keeps its form. -/
theorem stable_of_final_sigma : ∃ ts t, scan "ΩΣ = 1" = .ok ts ∧ t ∈ ts ∧
    t.kind = .identifier ∧ t.text = "ως" ∧ t.Stable := by
  let t : Token := ⟨⟨.identifier, "ως"⟩, ⟨0, 2⟩, 1⟩
  obtain ⟨ts, scanned, mem⟩ : ∃ ts, scan "ΩΣ = 1" = .ok ts ∧ t ∈ ts :=
    ⟨_, by cbv, List.mem_cons_self⟩
  have undotted : 'İ' ∉ t.span.slice "ΩΣ = 1".toList := by decide
  exact ⟨ts, t, scanned, mem, rfl, rfl, (stable_iff_undotted scanned mem (.inl rfl)).2.mpr undotted⟩

set_option maxRecDepth 4000 in
/-- What is kept of `İ` is not even a text of the language. -/
theorem unstable_of_dotted : ∃ ts t, scan "İ = 1" = .ok ts ∧ t ∈ ts ∧ t.kind = .identifier ∧
    ¬ (∀ c ∈ t.text.toList, isAlphabetic c = true) ∧ ¬ t.Stable ∧
    scan t.text = .error ⟨.unexpected (Char.ofNat 775), 1, 2⟩ := by
  let t : Token := ⟨⟨.identifier, String.ofList ['i', Char.ofNat 775]⟩, ⟨0, 1⟩, 1⟩
  obtain ⟨ts, scanned, mem⟩ : ∃ ts, scan "İ = 1" = .ok ts ∧ t ∈ ts :=
    ⟨_, by cbv, List.mem_cons_self⟩
  have refused : scan t.text = .error ⟨.unexpected (Char.ofNat 775), 1, 2⟩ := by cbv
  have unstable : ¬ t.Stable := by
    intro stable
    obtain ⟨ts', scanned', -⟩ := stable.name rfl
    cases refused.symm.trans scanned'
  have no_letter : isAlphabetic (Char.ofNat 775) ≠ true := by decide +kernel
  have last : Char.ofNat 775 ∈ t.text.toList := by decide
  exact ⟨ts, t, scanned, mem, rfl, fun all => no_letter (all _ last), unstable, refused⟩

end Token

end TagScript
