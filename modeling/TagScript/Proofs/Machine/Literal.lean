import Mathlib
import TagScript.Proofs.Machine.Leading
import TagScript.Proofs.Machine.RoundTrip
import TagScript.Proofs.Reading.Literal

/-! Values are printed as they may be written. A program that assigns the text of a value stores
the value, so no two values have one text. -/
namespace TagScript

namespace Machine

variable {m m' : Machine}

theorem eq_of_mapSpans_eq {f : Span → Span} (untagged : m'.tags = ∅) (h : m.mapSpans f = m') :
    m = m' := by
  have nothing : m.tags = ∅ := by
    apply Std.ExtTreeMap.ext_getElem?
    intro tag
    have same := congrArg (·.tags[tag]?) h
    simp only [mapSpans, TagTable.getElem?_mapSpans, untagged, Std.ExtTreeMap.getElem?_empty,
      Option.map_eq_none_iff] at same
    rw [same, Std.ExtTreeMap.getElem?_empty]
  rw [← h, mapSpans_of_no_tags f nothing]

theorem exists_endsIn {source : String} {body : List Stmt} (reads : Program.Reads source body)
    (plain : Stmt.allMentions body = [] ∧ Stmt.allDeclarations body = []) :
    ∃ ts p, Program.ofSource source = .ok (ts, p) ∧ ∀ m m' : Machine, m.tags = ∅ → m'.tags = ∅ →
      Task.Lead (Task.sequence body) m m' → m.EndsIn p (.done m') := by
  obtain ⟨ts, p, accepted, body_eq⟩ := reads
  refine ⟨ts, p, accepted, fun m m' fresh untagged ⟨fuel, ends⟩ => ?_⟩
  have erase_eq := Program.erase_of_ofTokens (Program.ofSource_eq_ok_iff.mp accepted).2
  rw [body_eq, plain.1, plain.2] at erase_eq
  have run_eq : m.run fuel p.erase = some (.done m') := by
    rw [erase_eq]
    exact ends
  rw [Program.erase, ← mapSpans_of_no_tags (fun _ => .nowhere) fresh, run_mapSpans] at run_eq
  obtain ⟨outcome, ran, outcome_eq⟩ := Option.map_eq_some_iff.mp run_eq
  refine ⟨fuel, ran.trans ?_⟩
  cases outcome with
  | failed fault m'' => cases outcome_eq
  | done m'' => rw [eq_of_mapSpans_eq untagged (Outcome.done.inj outcome_eq)]

end Machine

namespace Literal

theorem mapM_evalInteger (σ : SymbolTable) (elements : List Numeral) :
    (elements.map (·.expr)).mapM σ.evalInteger = .ok (elements.map (·.value)) := by
  induction elements with
  | nil => rfl
  | cons numeral rest ih =>
    rw [List.map_cons, List.mapM_cons, ih]
    rfl

theorem evalRhs_rhs (σ : SymbolTable) (l : Literal) : σ.evalRhs l.rhs = .ok l.value := by
  cases l with
  | number | truth => rfl
  | vector elements =>
    rw [rhs, SymbolTable.evalRhs, mapM_evalInteger]
    rfl

end Literal

namespace Task

variable {m m' : Machine} {rest : List Task}

theorem lead_stored_iff {l : Literal} {name : String} :
    Lead (.perform (l.stored name) :: rest) m m' ↔
      Lead rest { m with symbols := m.symbols.assign name l.value } m' := by
  have assigned : m.assign ⟨name, none, .nowhere⟩ l.rhs =
      .ok { m with symbols := m.symbols.assign name l.value } := by
    rw [Machine.assign, l.evalRhs_rhs]
    rfl
  rw [Literal.stored, lead_of_changes_iff rfl, assigned]
  constructor
  · rintro ⟨_, ⟨⟩, leads⟩
    exact leads
  · exact fun leads => ⟨_, rfl, leads⟩

end Task

/-- The values that literals stand for: no reals, and nothing negative. -/
def Value.IsLiteral : Value → Prop
  | integer n => 0 ≤ n
  | real _ => False
  | boolean _ => True
  | vector elements => ∀ n ∈ elements, 0 ≤ n

theorem Numeral.listChars_ofInt {elements : List Int64} (nonneg : ∀ n ∈ elements, 0 ≤ n) :
    listChars (elements.map ofInt) = (Value.listText elements).toList := by
  fun_induction Value.listText elements with
  | case1 => rfl
  | case2 n => exact digits_ofInt (nonneg n List.mem_cons_self)
  | case3 n rest more ih =>
    obtain ⟨here, nonneg⟩ := List.forall_mem_cons.mp nonneg
    have nonempty : rest.map ofInt = [] → False := fun eq => more (List.map_eq_nil_iff.mp eq)
    rw [List.map_cons, listChars.eq_3 _ _ nonempty, ih nonneg, digits_ofInt here]
    simp

theorem Value.IsLiteral.exists_literal {v : Value} (h : v.IsLiteral) :
    ∃ l : Literal, l.value = v ∧ l.chars = v.text.toList := by
  cases v with
  | integer n =>
    exact ⟨.number (.ofInt n), congrArg integer (Numeral.value_ofInt h), Numeral.digits_ofInt h⟩
  | real x => exact h.elim
  | boolean b => exact ⟨.truth b, rfl, by cases b <;> rfl⟩
  | vector elements =>
    refine ⟨.vector (elements.map .ofInt), ?_, ?_⟩
    · rw [Literal.value, List.map_map]
      exact congrArg vector ((List.map_congr_left fun n mem => Numeral.value_ofInt (h n mem)).trans
        (List.map_id _))
    · rw [Literal.chars, Numeral.listChars_ofInt h]
      simp [Value.text]

def Word.ofAscii (name : String) (nonempty : name ≠ "")
    (letters : ∀ c ∈ name.toList, c.isAlpha = true)
    (free : name.toUpper ∉ keywords.map (·.1)) : Word where
  letters := name.toList
  formed := .word (mt String.toList_eq_nil_iff.mp nonempty)
    fun c mem => Unicode.isAlphabetic_of_isAlpha (letters c mem)
  name := name.toLower
  read := by
    have small : ∀ c ∈ name.toList, c.toNat < 128 :=
      fun c mem => Unicode.toNat_lt_of_isAlpha (letters c mem)
    have upper_eq : String.ofList (Unicode.uppercase name.toList) = name.toUpper := by
      rw [Unicode.uppercase_of_ascii small, ← String.toList_map, String.ofList_toList]
      rfl
    have lower_eq : String.ofList (Unicode.lowercase name.toList) = name.toLower := by
      rw [Unicode.lowercase, Unicode.lowercaseAfter_of_ascii small, ← Unicode.toList_toLower,
        String.ofList_toList]
    rw [Lexeme.ofWord_of_not_mem_keywords, lower_eq]
    rw [upper_eq]
    exact fun kind mem => free (List.mem_map_of_mem mem)

namespace Machine

theorem exists_stores (word : Word) {v : Value} (h : v.IsLiteral) :
    ∃ ts p, Program.ofSource (String.ofList word.letters ++ " = " ++ v.text) = .ok (ts, p) ∧
      ∀ m : Machine, m.tags = ∅ →
        m.EndsIn p (.done { m with symbols := m.symbols.assign word.name v }) := by
  obtain ⟨l, rfl, chars_eq⟩ := h.exists_literal
  have reads := Program.reads_stored word l
  rw [chars_eq, String.ofList_toList] at reads
  obtain ⟨ts, p, accepted, ends⟩ := exists_endsIn reads ⟨rfl, rfl⟩
  exact ⟨ts, p, accepted, fun m fresh => ends m _ fresh fresh
    (Task.lead_stored_iff.mpr (Task.lead_nil_iff.mpr rfl))⟩

/-- What the text of a value is stored as decides the value. -/
theorem eq_of_text_eq {v w : Value} (h : v.IsLiteral) (h' : w.IsLiteral) (same : v.text = w.text) :
    v = w := by
  have word : Word := .ofAscii "x" (by decide) (List.all_eq_true.mp (by decide))
    (by decide +kernel)
  obtain ⟨ts, p, accepted, stores⟩ := exists_stores word h
  obtain ⟨ts', p', accepted', stores'⟩ := exists_stores word h'
  rw [same, accepted'] at accepted
  cases accepted
  have machine_eq := Outcome.done.inj (Run.EndsIn.unique (stores {} rfl) (stores' {} rfl))
  have stored_eq := congrArg (·.symbols[word.name]?) machine_eq
  simpa [SymbolTable.assign] using stored_eq

/-- The text of an integer that is not negative, of a truth value or of a vector without negative
elements may be assigned to any name of letters of ASCII. Then a fresh machine finds this value
under the name in lower case, and all else as it was. So no two of these values have one text. -/
theorem stores_text :
    (∀ (v : Value) (name : String), v.IsLiteral → name ≠ "" →
      (∀ c ∈ name.toList, c.isAlpha = true) → name.toUpper ∉ keywords.map (·.1) →
      ∃ ts p, Program.ofSource (name ++ " = " ++ v.text) = .ok (ts, p) ∧
        ∀ m : Machine, m.tags = ∅ → ∃ σ : SymbolTable,
          m.EndsIn p (.done { m with symbols := σ }) ∧ σ[name.toLower]? = some v ∧
            ∀ other ≠ name.toLower, σ[other]? = m.symbols[other]?) ∧
      ∀ v w : Value, v.IsLiteral → w.IsLiteral → v.text = w.text → v = w := by
  refine ⟨fun v name h nonempty letters free => ?_, fun v w => eq_of_text_eq⟩
  obtain ⟨ts, p, accepted, stores⟩ := exists_stores (.ofAscii name nonempty letters free) h
  rw [Word.ofAscii, String.ofList_toList] at accepted
  refine ⟨ts, p, accepted, fun m fresh => ⟨_, stores m fresh, ?_, fun other ne => ?_⟩⟩
  · exact (SymbolTable.getElem?_assign _).trans (if_pos rfl)
  · exact (SymbolTable.getElem?_assign other).trans (if_neg ne.symm)

/-- A vector from the least to the greatest number, under a name with capitals. -/
theorem stores_text_vector :
    let v : Value := .vector [0, 42, 9223372036854775807]
    v.IsLiteral ∧ "Printed" ≠ "" ∧ (∀ c ∈ "Printed".toList, c.isAlpha = true) ∧
      "Printed".toUpper ∉ keywords.map (·.1) ∧
      ∃ ts p, Program.ofSource "Printed = [0, 42, 9223372036854775807]" = .ok (ts, p) ∧
        (∃ σ : SymbolTable, EndsIn {} p (.done { symbols := σ }) ∧ σ["printed"]? = some v ∧
          ∀ other ≠ "printed", σ[other]? = none) ∧
        v.text ≠ (Value.integer 42).text := by
  let v : Value := .vector [0, 42, 9223372036854775807]
  have literal : v.IsLiteral :=
    List.forall_mem_cons.mpr ⟨by decide, List.forall_mem_cons.mpr ⟨by decide,
      List.forall_mem_singleton.mpr (by decide)⟩⟩
  have letters : ∀ c ∈ "Printed".toList, c.isAlpha = true := List.all_eq_true.mp (by decide)
  have free : "Printed".toUpper ∉ keywords.map (·.1) := by decide +kernel
  obtain ⟨ts, p, accepted, stores⟩ := stores_text.1 v "Printed" literal (by decide) letters free
  have source_eq : "Printed" ++ " = " ++ v.text = "Printed = [0, 42, 9223372036854775807]" := by
    cbv
  have name_eq : "Printed".toLower = "printed" := by decide +kernel
  rw [source_eq] at accepted
  rw [name_eq] at stores
  have other : (Value.integer 42).IsLiteral := by
    change (0 : Int64) ≤ 42
    decide
  obtain ⟨σ, ends, stored, others⟩ := stores {} rfl
  refine ⟨literal, by decide, letters, free, ts, p, accepted, ⟨σ, ends, stored, ?_⟩,
    fun same => Value.noConfusion (stores_text.2 v (.integer 42) literal other same)⟩
  exact fun name ne => (others name ne).trans Std.ExtTreeMap.getElem?_empty

end Machine

end TagScript
