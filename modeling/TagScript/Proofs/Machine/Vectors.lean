import TagScript.Proofs.Machine.Exchange
import TagScript.Proofs.Machine.Lasting

/-! Vectors are arrays of a fixed length. An assignment to an element writes there and nowhere
else, so that a vector changes its length only when its variable is written as a whole; and a
run that does no more to it than to exchange its elements with each other permutes them. -/
namespace TagScript

namespace Stmt

def targets : Stmt → List Target
  | assign target _ _ => [target]
  | swap left right _ => [left, right]
  | declare .. | invoke .. | ifThen .. | ifElse .. | loop .. | print .. => []

/-- Of the variable, the statement writes elements alone. -/
def WritesElements (name : String) (s : Stmt) : Prop :=
  ∀ t ∈ s.targets, t.name = name → t.index ≠ none

/-- The statement does not write the variable, unless it exchanges two of its elements. -/
def ExchangesElements (name : String) : Stmt → Prop
  | assign target _ _ => target.name ≠ name
  | swap left right _ => left.name = name ∨ right.name = name →
    (left.name = name ∧ left.index ≠ none) ∧ right.name = name ∧ right.index ≠ none
  | declare .. | invoke .. | ifThen .. | ifElse .. | loop .. | print .. => True

instance (name : String) : DecidablePred (WritesElements name) :=
  fun s => inferInstanceAs (Decidable (∀ t ∈ s.targets, t.name = name → t.index ≠ none))

instance (name : String) : DecidablePred (ExchangesElements name)
  | assign target _ _ => inferInstanceAs (Decidable (target.name ≠ name))
  | swap left right _ => inferInstanceAs (Decidable (left.name = name ∨ right.name = name →
    (left.name = name ∧ left.index ≠ none) ∧ right.name = name ∧ right.index ≠ none))
  | declare .. | invoke .. | ifThen .. | ifElse .. | loop .. | print .. =>
    inferInstanceAs (Decidable True)

end Stmt

theorem Value.isSome_toInteger? (v : Value) : v.toInteger?.isSome ↔ v.type ≠ .vector := by
  cases v <;> simp [toInteger?, type]

theorem Value.asInteger_eq_ok_iff {span : Span} {v : Value} {n : Int64} :
    v.asInteger span = .ok n ↔ v.toInteger? = some n := by
  unfold asInteger
  cases v.toInteger? <;> simp

namespace SymbolTable

def vectorLength? (σ : SymbolTable) (name : String) : Option Nat :=
  match σ[name]? with
  | some (.vector elements) => some elements.length
  | _ => none

variable {σ : SymbolTable} {name : String} {c : Cell}

theorem vectorLength?_eq_some_iff {length : Nat} : σ.vectorLength? name = some length ↔
    ∃ elements, σ[name]? = some (.vector elements) ∧ elements.length = length := by
  unfold vectorLength?
  split <;> simp_all

theorem vectorLength?_put (kept : c.name = name → c.position ≠ none) (v : Value) :
    (σ.put c v).vectorLength? name = σ.vectorLength? name := by
  obtain ⟨other, position⟩ := c
  by_cases same : other = name
  case neg =>
    unfold vectorLength?
    rw [getElem?_put_of_ne same]
  case pos =>
    subst same
    cases position with
    | none => exact absurd rfl (kept rfl)
    | some i =>
      cases v with
      | real | boolean | vector => rfl
      | integer n =>
        change (σ.setElement other i n).vectorLength? other = _
        unfold setElement
        split
        next elements found =>
          simp only [vectorLength?, getElem?_assign, if_true, found, List.length_set]
        next => rfl

end SymbolTable

namespace Machine

variable {m m' : Machine} {name : String} {index : Expr} {span : Span} {value : Rhs}

/-- An assignment to an element by what it finds: a value and an index that are no vectors, and
at the index an element. -/
theorem assign_element_eq_ok_iff : m.assign ⟨name, some index, span⟩ value = .ok m' ↔
    ∃ u v k n elements, m.symbols.eval index = .ok u ∧ m.symbols.evalRhs value = .ok v ∧
      u.toInteger? = some k ∧ v.toInteger? = some n ∧ 0 ≤ k ∧
      m.symbols[name]? = some (.vector elements) ∧ k.toInt.toNat < elements.length ∧
      m' = { m with
        symbols := m.symbols.assign name (.vector (elements.set k.toInt.toNat n)) } := by
  simp only [assign, Checked.bind_eq_ok_iff, SymbolTable.evalPosition_eq_ok_iff,
    SymbolTable.evalInteger, Value.asInteger_eq_ok_iff, SymbolTable.element_eq_ok_iff,
    SymbolTable.held_element]
  constructor
  · rintro ⟨_, ⟨k, ⟨u, index_eq, u_eq⟩, positive, rfl⟩, v, value_eq, n, v_eq, _,
      ⟨elements, _, found, at_k, -⟩, ⟨⟩⟩
    refine ⟨u, v, k, n, elements, index_eq, value_eq, u_eq, v_eq, positive, found,
      (List.getElem?_eq_some_iff.mp at_k).1, ?_⟩
    rw [SymbolTable.setElement_of_vector found]
  · rintro ⟨u, v, k, n, elements, index_eq, value_eq, u_eq, v_eq, positive, found, inside, rfl⟩
    refine ⟨_, ⟨k, ⟨u, index_eq, u_eq⟩, positive, rfl⟩, v, value_eq, n, v_eq, _,
      ⟨elements, _, found, List.getElem?_eq_getElem inside, rfl⟩, ?_⟩
    rw [SymbolTable.setElement_of_vector found]
    rfl

/-- The second machine has the number at the position of the vector, and all else as it was. -/
structure ElementWritten (m : Machine) (name : String) (position : Nat) (n : Int64)
    (m' : Machine) : Prop where
  vector : ∃ elements elements', m.symbols[name]? = some (.vector elements) ∧
    m'.symbols[name]? = some (.vector elements') ∧ elements'.length = elements.length ∧
    elements'[position]? = some n ∧ ∀ j ≠ position, elements'[j]? = elements[j]?
  others : ∀ other ≠ name, m'.symbols[other]? = m.symbols[other]?
  machine : m' = { m with symbols := m'.symbols }

theorem elementWritten_of_lt {elements : List Int64} {i : Nat}
    (found : m.symbols[name]? = some (.vector elements)) (inside : i < elements.length)
    (n : Int64) :
    m.ElementWritten name i n
      { m with symbols := m.symbols.assign name (.vector (elements.set i n)) } where
  vector := by
    refine ⟨elements, elements.set i n, found, ?_, List.length_set,
      List.getElem?_set_self inside, fun j ne => List.getElem?_set_ne ne.symm⟩
    rw [SymbolTable.getElem?_assign, if_pos rfl]
  others other ne := by rw [SymbolTable.getElem?_assign, if_neg ne.symm]
  machine := rfl

theorem exists_put_of_assign {target : Target} (h : m.assign target value = .ok m') :
    ∃ c v, target.Names m.symbols c ∧ m'.symbols = m.symbols.put c v := by
  obtain ⟨name, index, span⟩ := target
  cases index with
  | none =>
    obtain ⟨v, -, ⟨⟩⟩ := Checked.bind_eq_ok_iff.mp h
    exact ⟨⟨name, none⟩, v, .whole, rfl⟩
  | some index =>
    obtain ⟨u, -, k, n, elements, index_eq, -, u_eq, -, positive, found, -, rfl⟩ :=
      assign_element_eq_ok_iff.mp h
    have k_eq : m.symbols.evalInteger index = .ok k :=
      Checked.bind_eq_ok_iff.mpr ⟨u, index_eq, Value.asInteger_eq_ok_iff.mpr u_eq⟩
    refine ⟨⟨name, some k.toInt.toNat⟩, .integer n, .element k_eq positive, ?_⟩
    exact (SymbolTable.setElement_of_vector found _ _).symm

end Machine

namespace Target.Names

variable {σ : SymbolTable} {t : Target} {c : Cell}

theorem name_eq (h : t.Names σ c) : c.name = t.name := by
  cases h <;> rfl

theorem exists_element (h : t.Names σ c) (element : t.index ≠ none) :
    ∃ i, c = ⟨t.name, some i⟩ := by
  cases h with
  | whole => exact absurd rfl element
  | element => exact ⟨_, rfl⟩

end Target.Names

/-! Lengths. -/

namespace SymbolTable

variable {σ : SymbolTable} {name : String}

theorem vectorLength?_put_of_names {t : Target} {c : Cell} (named : t.Names σ c) (v : Value)
    (writes : t.name = name → t.index ≠ none) {ρ : SymbolTable} :
    (ρ.put c v).vectorLength? name = ρ.vectorLength? name := by
  apply vectorLength?_put
  rw [named.name_eq]
  intro same
  obtain ⟨i, rfl⟩ := named.exists_element (writes same)
  exact Option.some_ne_none i

/-- Where only elements of a variable are written, the length of its vector lasts. -/
theorem lasting_vectorLength? (name : String) (length : Option Nat) :
    Lasting (Stmt.WritesElements name) (·.vectorLength? name = length) where
  assign writes h now := by
    simp only [Stmt.WritesElements, Stmt.targets, List.forall_mem_cons] at writes
    obtain ⟨c, v, named, symbols_eq⟩ := Machine.exists_put_of_assign h
    rw [symbols_eq, vectorLength?_put_of_names named v writes.1, now]
  swap writes h now := by
    simp only [Stmt.WritesElements, Stmt.targets, List.forall_mem_cons] at writes
    obtain ⟨c, d, v, w, named, named', -, -, -, -, rfl⟩ := Machine.swap_eq_ok_iff.mp h
    rw [vectorLength?_put_of_names named' _ writes.2.1,
      vectorLength?_put_of_names named _ writes.1, now]

/-! Elements. -/

theorem held_of_vector {elements : List Int64} (found : σ[name]? = some (.vector elements))
    {i : Nat} {v : Value} :
    σ.held ⟨name, some i⟩ = some v ↔ ∃ n, elements[i]? = some n ∧ .integer n = v := by
  simp [held, found]

theorem perm_of_exchanged {elements : List Int64} (found : σ[name]? = some (.vector elements))
    {i j : Nat} {v w : Value} (at_i : σ.held ⟨name, some i⟩ = some v)
    (at_j : σ.held ⟨name, some j⟩ = some w) :
    ∃ now, ((σ.put ⟨name, some i⟩ (Cell.stored ⟨name, some i⟩ w)).put ⟨name, some j⟩
      (Cell.stored ⟨name, some j⟩ v))[name]? = some (.vector now) ∧ now.Perm elements := by
  obtain ⟨a, a_eq, rfl⟩ := (held_of_vector found).mp at_i
  obtain ⟨b, b_eq, rfl⟩ := (held_of_vector found).mp at_j
  obtain ⟨i_lt, rfl⟩ := List.getElem?_eq_some_iff.mp a_eq
  obtain ⟨j_lt, rfl⟩ := List.getElem?_eq_some_iff.mp b_eq
  refine ⟨(elements.set i elements[j]).set j elements[i], ?_, List.set_set_perm i_lt j_lt⟩
  have once : (σ.setElement name i elements[j])[name]? =
      some (.vector (elements.set i elements[j])) := by
    rw [setElement_of_vector found, getElem?_assign, if_pos rfl]
  change ((σ.setElement name i elements[j]).setElement name j elements[i])[name]? = _
  rw [setElement_of_vector once, getElem?_assign, if_pos rfl]

/-- Where nothing is done to a variable but to exchange its elements, a vector lasts up to the
order of its elements. -/
theorem lasting_perm (name : String) (elements : List Int64) :
    Lasting (Stmt.ExchangesElements name)
      (fun σ => ∃ now, σ[name]? = some (.vector now) ∧ now.Perm elements) where
  assign exchanges h now := by
    obtain ⟨c, v, named, symbols_eq⟩ := Machine.exists_put_of_assign h
    rw [symbols_eq, getElem?_put_of_ne]
    · exact now
    · rw [named.name_eq]
      exact exchanges
  swap {m m' left right span} exchanges h now := by
    obtain ⟨c, d, v, w, named, named', c_held, d_held, -, -, rfl⟩ := Machine.swap_eq_ok_iff.mp h
    by_cases touched : left.name = name ∨ right.name = name
    case neg =>
      obtain ⟨left_ne, right_ne⟩ := not_or.mp touched
      rw [← named.name_eq] at left_ne
      rw [← named'.name_eq] at right_ne
      dsimp only
      rw [getElem?_put_of_ne right_ne, getElem?_put_of_ne left_ne]
      exact now
    case pos =>
      obtain ⟨⟨left_eq, element⟩, right_eq, element'⟩ := exchanges touched
      obtain ⟨i, rfl⟩ := named.exists_element element
      obtain ⟨j, rfl⟩ := named'.exists_element element'
      obtain ⟨before, found, perm⟩ := now
      rw [left_eq] at c_held
      rw [right_eq] at d_held
      obtain ⟨after, after_eq, perm'⟩ := perm_of_exchanged found c_held d_held
      rw [left_eq, right_eq]
      exact ⟨after, after_eq, perm'.trans perm⟩

end SymbolTable

namespace Machine

/-- An assignment to an element succeeds just when its index and its value are found and are no
vectors, and the index is that of an element which there is. Then this element is the value as an
integer, and all else is as it was. A vector whose variable is never written as a whole, neither
by the statements nor by the tags that they come to invoke, keeps its length at each step and
however the run ends. -/
theorem vectors_keep_length (m : Machine) (name : String) :
    (∀ (index : Expr) (span : Span) (value : Rhs),
      ((∃ m', m.assign ⟨name, some index, span⟩ value = .ok m') ↔
        ∃ u v k elements, m.symbols.eval index = .ok u ∧ m.symbols.evalRhs value = .ok v ∧
          u.type ≠ .vector ∧ v.type ≠ .vector ∧ u.toInteger? = some k ∧ 0 ≤ k ∧
          m.symbols[name]? = some (.vector elements) ∧ k.toInt.toNat < elements.length) ∧
      ∀ m', m.assign ⟨name, some index, span⟩ value = .ok m' →
        ∃ u v k n, m.symbols.eval index = .ok u ∧ m.symbols.evalRhs value = .ok v ∧
          u.toInteger? = some k ∧ v.toInteger? = some n ∧
          m.ElementWritten name k.toInt.toNat n m') ∧
    ∀ elements body, m.symbols[name]? = some (.vector elements) →
      (∀ s ∈ body, m.tags.Throughout (Stmt.Everywhere (Stmt.WritesElements name)) s) →
      (Run.ofStatements body m).Always fun σ =>
        ∃ now, σ[name]? = some (.vector now) ∧ now.length = elements.length := by
  refine ⟨fun index span value => ⟨⟨?_, ?_⟩, ?_⟩, ?_⟩
  · rintro ⟨m', h⟩
    obtain ⟨u, v, k, n, elements, index_eq, value_eq, u_eq, v_eq, positive, found, inside, -⟩ :=
      assign_element_eq_ok_iff.mp h
    have u_number := u.isSome_toInteger?.mp (Option.isSome_of_eq_some u_eq)
    have v_number := v.isSome_toInteger?.mp (Option.isSome_of_eq_some v_eq)
    exact ⟨u, v, k, elements, index_eq, value_eq, u_number, v_number, u_eq, positive, found, inside⟩
  · rintro ⟨u, v, k, elements, index_eq, value_eq, -, v_number, u_eq, positive, found, inside⟩
    obtain ⟨n, v_eq⟩ := Option.isSome_iff_exists.mp (v.isSome_toInteger?.mpr v_number)
    exact ⟨_, assign_element_eq_ok_iff.mpr
      ⟨u, v, k, n, elements, index_eq, value_eq, u_eq, v_eq, positive, found, inside, rfl⟩⟩
  · intro m' h
    obtain ⟨u, v, k, n, elements, index_eq, value_eq, u_eq, v_eq, -, found, inside, rfl⟩ :=
      assign_element_eq_ok_iff.mp h
    exact ⟨u, v, k, n, index_eq, value_eq, u_eq, v_eq, elementWritten_of_lt found inside n⟩
  · intro elements body found writes
    have start : m.symbols.vectorLength? name = some elements.length :=
      SymbolTable.vectorLength?_eq_some_iff.mpr ⟨elements, found, rfl⟩
    have lasts := (SymbolTable.lasting_vectorLength? name _).always writes start
    simpa only [SymbolTable.vectorLength?_eq_some_iff] using lasts

/-- A copy is made, an element is written by a tag, and the run fails at an index that is too
large. -/
theorem vectors_keep_length_failed :
    ∃ (m : Machine) (body : List Stmt) (fault : Fault RuntimeError) (m' : Machine),
      m.symbols["v"]? = some (.vector [5, 6, 7]) ∧
      (∀ s ∈ body, m.tags.Throughout (Stmt.Everywhere (Stmt.WritesElements "v")) s) ∧
      (Run.ofStatements body m).EndsIn (.failed fault m') ∧
      fault.cause = .outOfRange 3 "v" 3 ∧ m'.symbols["v"]? = some (.vector [5, 1, 7]) ∧
      m'.symbols["w"]? = some (.vector [5, 6, 7]) ∧
      ∃ now, m'.symbols["v"]? = some (.vector now) ∧ now.length = 3 := by
  let once : Stmt := .assign ⟨"v", some (.integer 1 ⟨5, 6⟩), ⟨3, 7⟩⟩
    (.scalar (.boolean true ⟨10, 14⟩)) ⟨3, 14⟩
  let body : List Stmt :=
    [.assign ⟨"w", none, ⟨15, 16⟩⟩ (.scalar (.named "v" ⟨19, 20⟩)) ⟨15, 20⟩, .invoke "t" ⟨21, 23⟩,
      .assign ⟨"v", some (.integer 3 ⟨26, 27⟩), ⟨24, 28⟩⟩ (.scalar (.integer 0 ⟨31, 32⟩)) ⟨24, 32⟩]
  let m : Machine :=
    { symbols := (∅ : SymbolTable).assign "v" (.vector [5, 6, 7])
      tags := (∅ : TagTable).bind "t" once }
  have here : ∀ s ∈ body, s.Everywhere (Stmt.WritesElements "v") := by decide
  have writes : ∀ s ∈ body, m.tags.Throughout (Stmt.Everywhere (Stmt.WritesElements "v")) s :=
    fun s mem => TagTable.throughout_bind (by decide) (here s mem)
  have ends : (Run.ofStatements body m).EndsIn _ := ⟨7, rfl⟩
  obtain ⟨-, at_end⟩ := (vectors_keep_length m "v").2 [5, 6, 7] body rfl writes
  exact ⟨m, body, _, _, rfl, writes, ends, rfl, rfl, rfl, at_end _ ends⟩

/-- A vector of whose variable nothing is done but that its elements are exchanged, neither by the
statements nor by the tags that they come to invoke, is permuted at each step and however the
run ends. -/
theorem exchanges_permute {m : Machine} {name : String} {elements : List Int64} {body : List Stmt}
    (found : m.symbols[name]? = some (.vector elements))
    (exchanges : ∀ s ∈ body, m.tags.Throughout (Stmt.Everywhere (Stmt.ExchangesElements name)) s) :
    (Run.ofStatements body m).Always fun σ =>
      ∃ now, σ[name]? = some (.vector now) ∧ now.Perm elements :=
  (SymbolTable.lasting_perm name elements).always exchanges ⟨elements, found, .refl elements⟩

/-- A tag has a loop that exchanges two elements, and one with itself; then the run fails at an
index that is too large. -/
theorem exchanges_permute_failed :
    ∃ (m : Machine) (body : List Stmt) (fault : Fault RuntimeError) (m' : Machine),
      m.symbols["v"]? = some (.vector [3, 1, 2]) ∧
      (∀ s ∈ body, m.tags.Throughout (Stmt.Everywhere (Stmt.ExchangesElements "v")) s) ∧
      (Run.ofStatements body m).EndsIn (.failed fault m') ∧
      fault.cause = .outOfRange 9 "v" 3 ∧ m'.symbols["v"]? = some (.vector [2, 1, 3]) ∧
      ∃ now, m'.symbols["v"]? = some (.vector now) ∧ now.Perm [3, 1, 2] := by
  let once : Stmt := .loop (.named "go" ⟨9, 11⟩)
    [.swap ⟨"v", some (.integer 0 ⟨21, 22⟩), ⟨19, 23⟩⟩ ⟨"v", some (.integer 2 ⟨26, 27⟩), ⟨24, 28⟩⟩
        ⟨14, 28⟩,
      .swap ⟨"v", some (.integer 1 ⟨36, 37⟩), ⟨34, 38⟩⟩ ⟨"v", some (.integer 1 ⟨41, 42⟩), ⟨39, 43⟩⟩
        ⟨29, 43⟩,
      .assign ⟨"go", none, ⟨44, 46⟩⟩ (.scalar (.boolean false ⟨49, 54⟩)) ⟨44, 54⟩] ⟨3, 56⟩
  let body : List Stmt :=
    [.invoke "t" ⟨57, 59⟩,
      .swap ⟨"v", some (.integer 0 ⟨67, 68⟩), ⟨65, 69⟩⟩ ⟨"v", some (.integer 9 ⟨72, 73⟩), ⟨70, 74⟩⟩
        ⟨60, 74⟩]
  let m : Machine :=
    { symbols := ((∅ : SymbolTable).assign "v" (.vector [3, 1, 2])).assign "go" (.boolean true)
      tags := (∅ : TagTable).bind "t" once }
  have here : ∀ s ∈ body, s.Everywhere (Stmt.ExchangesElements "v") := by decide
  have exchanges :
      ∀ s ∈ body, m.tags.Throughout (Stmt.Everywhere (Stmt.ExchangesElements "v")) s :=
    fun s mem => TagTable.throughout_bind (by decide) (here s mem)
  have ends : (Run.ofStatements body m).EndsIn _ := ⟨10, rfl⟩
  have at_end := (exchanges_permute rfl exchanges).2 _ ends
  exact ⟨m, body, _, _, rfl, exchanges, ends, rfl, rfl, at_end⟩

end Machine

end TagScript
