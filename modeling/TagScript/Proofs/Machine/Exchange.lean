import TagScript.Proofs.Machine.Steps

/-! Exchanges, seen through the cells that they name: a variable, or one element of a vector.
Whatever the two cells have to do with each other, each comes to hold what the other held. -/
namespace TagScript

/-- A variable, or one element of the vector that it holds. -/
structure Cell where
  name : String
  position : Option Nat
deriving DecidableEq, Repr

namespace Cell

/-- Two variables, or two elements of one vector. A vector is not apart from its elements. -/
def Apart (c d : Cell) : Prop :=
  c.name ≠ d.name ∨ ∃ i j, c.position = some i ∧ d.position = some j ∧ i ≠ j

def Takes (c : Cell) (v : Value) : Prop :=
  c.position ≠ none → v.type = .integer ∨ v.type = .real

/-- What becomes of a value that is put into the cell: an element cuts a real off. -/
def stored (c : Cell) (v : Value) : Value :=
  match c.position, v with
  | some _, .real x => .integer x.truncate
  | _, v => v

variable {c d : Cell} {v : Value}

theorem Apart.symm (h : c.Apart d) : d.Apart c := by
  rcases h with names | ⟨i, j, hi, hj, ne⟩
  · exact .inl names.symm
  · exact .inr ⟨j, i, hj, hi, ne.symm⟩

theorem exists_stored {name : String} {i : Nat} (takes : Takes ⟨name, some i⟩ v) :
    ∃ n, stored ⟨name, some i⟩ v = .integer n := by
  have number := takes (Option.some_ne_none i)
  cases v with
  | integer n => exact ⟨n, rfl⟩
  | real x => exact ⟨x.truncate, rfl⟩
  | boolean | vector => simp [Value.type] at number

end Cell

namespace SymbolTable

def held (σ : SymbolTable) (c : Cell) : Option Value :=
  match c.position, σ[c.name]? with
  | none, v => v
  | some i, some (.vector elements) => elements[i]?.map .integer
  | some _, _ => none

def put (σ : SymbolTable) (c : Cell) (v : Value) : SymbolTable :=
  match c.position, v with
  | none, v => σ.assign c.name v
  | some i, .integer n => σ.setElement c.name i n
  | some _, _ => σ

variable {σ : SymbolTable} {c d : Cell} {name : String} {i : Nat} {n : Int64} {v w : Value}

theorem getElem?_assign (other : String) :
    (σ.assign name v)[other]? = if name = other then some v else σ[other]? := by
  simp only [assign, Std.ExtTreeMap.getElem?_insert, Std.LawfulEqCmp.compare_eq_iff_eq]

theorem assign_self (h : σ[name]? = some v) : σ.assign name v = σ := by
  apply Std.ExtTreeMap.ext_getElem?
  intro other
  rw [getElem?_assign]
  split
  next same => rw [← same, h]
  next => rfl

theorem held_element : σ.held ⟨name, some i⟩ = some v ↔
    ∃ elements n, σ[name]? = some (.vector elements) ∧ elements[i]? = some n ∧ .integer n = v := by
  simp only [held]
  cases σ[name]? with
  | none => simp
  | some value => cases value <;> simp

theorem held_congr {σ' : SymbolTable} (h : σ'[c.name]? = σ[c.name]?) : σ'.held c = σ.held c := by
  rw [held, held, h]

theorem setElement_of_vector {elements : List Int64} (h : σ[name]? = some (.vector elements))
    (i : Nat) (n : Int64) :
    σ.setElement name i n = σ.assign name (.vector (elements.set i n)) := by
  rw [setElement, h]

theorem getElem?_put_of_ne {other : String} (ne : c.name ≠ other) (v : Value) :
    (σ.put c v)[other]? = σ[other]? := by
  unfold put
  split
  · rw [getElem?_assign, if_neg ne]
  · unfold setElement
    split
    · rw [getElem?_assign, if_neg ne]
    · rfl
  · rfl

theorem held_put_of_apart (apart : d.Apart c) (v : Value) : (σ.put c v).held d = σ.held d := by
  obtain ⟨other, position⟩ := d
  obtain ⟨name, position'⟩ := c
  by_cases same : name = other
  case neg => exact held_congr (getElem?_put_of_ne same v)
  case pos =>
    subst same
    obtain ⟨j, i, ⟨⟩, ⟨⟩, ne⟩ := apart.resolve_left (not_not_intro rfl)
    cases v with
    | integer n =>
      change (σ.setElement name i n).held ⟨name, some j⟩ = _
      unfold setElement
      split
      next elements found =>
        simp only [held, found, getElem?_assign, if_pos, List.getElem?_set_ne ne.symm]
      next => rfl
    | real | boolean | vector => rfl

theorem held_put_stored (there : σ.held c = some v) (takes : c.Takes w) :
    (σ.put c (c.stored w)).held c = some (c.stored w) := by
  obtain ⟨name, position⟩ := c
  cases position with
  | none => exact (getElem?_assign name).trans (if_pos rfl)
  | some i =>
    obtain ⟨n, stored_eq⟩ := Cell.exists_stored takes
    obtain ⟨elements, old, found, at_i, -⟩ := held_element.mp there
    rw [stored_eq]
    change (σ.setElement name i n).held ⟨name, some i⟩ = _
    rw [setElement_of_vector found, held_element]
    have inside : i < elements.length := (List.getElem?_eq_some_iff.mp at_i).1
    exact ⟨_, n, (getElem?_assign name).trans (if_pos rfl), List.getElem?_set_self inside, rfl⟩

theorem put_held (h : σ.held c = some v) : σ.put c v = σ := by
  obtain ⟨name, position⟩ := c
  cases position with
  | none => exact assign_self h
  | some i =>
    obtain ⟨elements, n, found, at_i, rfl⟩ := held_element.mp h
    change σ.setElement name i n = σ
    obtain ⟨inside, rfl⟩ := List.getElem?_eq_some_iff.mp at_i
    rw [setElement_of_vector found, List.set_getElem_self]
    exact assign_self found

theorem stored_of_held (h : σ.held c = some v) : c.stored v = v := by
  obtain ⟨name, position⟩ := c
  cases position with
  | none => rfl
  | some i =>
    obtain ⟨elements, n, -, -, rfl⟩ := held_element.mp h
    rfl

/-- Two cells that take each other's values are one cell or apart: what a vector holds is no
number, so it is not exchanged with an element of its own. -/
theorem eq_or_apart_of_takes (hc : σ.held c = some v) (hd : σ.held d = some w)
    (c_takes : c.Takes w) (d_takes : d.Takes v) : c = d ∨ c.Apart d := by
  have no_element {name : String} {j : Nat} {v w : Value} (whole : σ.held ⟨name, none⟩ = some v)
      (element : σ.held ⟨name, some j⟩ = some w) (takes : Cell.Takes ⟨name, some j⟩ v) : False := by
    obtain ⟨elements, n, found, -⟩ := held_element.mp element
    obtain rfl : v = .vector elements := Option.some.inj (whole.symm.trans found)
    obtain ⟨n, ⟨⟩⟩ := Cell.exists_stored takes
  obtain ⟨name, p⟩ := c
  obtain ⟨name', q⟩ := d
  by_cases same : name = name'
  case neg => exact .inr (.inl same)
  case pos =>
    subst same
    cases p with
    | none =>
      cases q with
      | none => exact .inl rfl
      | some j => exact (no_element hc hd d_takes).elim
    | some i =>
      cases q with
      | none => exact (no_element hd hc c_takes).elim
      | some j =>
        by_cases eq : i = j
        · exact .inl (by rw [eq])
        · exact .inr (.inr ⟨i, j, rfl, rfl, eq⟩)

section Exchanged

variable (hc : σ.held c = some v) (hd : σ.held d = some w) (c_takes : c.Takes w)
  (d_takes : d.Takes v)
include hc hd

theorem exchanged_self (same : c = d) : (σ.put c (c.stored w)).put d (d.stored v) = σ := by
  subst same
  obtain rfl : v = w := Option.some.inj (hc.symm.trans hd)
  rw [stored_of_held hc, put_held hc, put_held hc]

include c_takes d_takes

theorem held_exchanged_left :
    ((σ.put c (c.stored w)).put d (d.stored v)).held c = some (c.stored w) := by
  rcases eq_or_apart_of_takes hc hd c_takes d_takes with same | apart
  · rw [exchanged_self hc hd same]
    subst same
    rw [stored_of_held hd, hd]
  · rw [held_put_of_apart apart, held_put_stored hc c_takes]

theorem held_exchanged_right :
    ((σ.put c (c.stored w)).put d (d.stored v)).held d = some (d.stored v) := by
  rcases eq_or_apart_of_takes hc hd c_takes d_takes with same | apart
  · rw [exchanged_self hc hd same]
    subst same
    rw [stored_of_held hc, hc]
  · have still : (σ.put c (c.stored w)).held d = some w := by
      rw [held_put_of_apart apart.symm, hd]
    exact held_put_stored still d_takes

end Exchanged

/-! What an exchange reads, and which cells its targets name. -/

theorem whole_eq_ok_iff {span : Span} :
    σ.whole name span = .ok v ↔ σ.held ⟨name, none⟩ = some v := by
  change _ ↔ σ[name]? = some v
  unfold whole
  cases σ[name]? <;> simp

theorem element_eq_ok_iff {span : Span} :
    σ.element name i span = .ok n ↔ σ.held ⟨name, some i⟩ = some (.integer n) := by
  simp only [held, element]
  cases σ[name]? with
  | none => simp
  | some value =>
    cases value with
    | vector elements => cases h : elements[i]? <;> simp [h]
    | _ => simp

/-- What a target at position `p` gives to a cell at position `q`. -/
def given (σ : SymbolTable) (t : Target) (span : Span) : (p q : Option Nat) → Checked Value
  | none, none => σ.whole t.name t.span
  | none, some _ => .integer <$> σ.exchangeable t span
  | some i, _ => .integer <$> σ.element t.name i t.span

theorem given_eq_ok_iff {t : Target} {span : Span} {p : Option Nat} :
    σ.given t span p c.position = .ok w ↔
      ∃ v, σ.held ⟨t.name, p⟩ = some v ∧ c.Takes v ∧ c.stored v = w := by
  obtain ⟨name, q⟩ := c
  cases p with
  | some i =>
    simp only [given, Checked.map_eq_ok_iff, element_eq_ok_iff]
    constructor
    · rintro ⟨n, there, rfl⟩
      exact ⟨.integer n, there, fun _ => .inl rfl, by cases q <;> rfl⟩
    · rintro ⟨v, there, -, stored_eq⟩
      obtain ⟨elements, n, -, -, rfl⟩ := held_element.mp there
      exact ⟨n, there, by rw [← stored_eq]; cases q <;> rfl⟩
  | none =>
    cases q with
    | none => simp [given, whole_eq_ok_iff, Cell.Takes, Cell.stored]
    | some j =>
      simp only [given, Checked.map_eq_ok_iff, exchangeable, Checked.bind_eq_ok_iff,
        whole_eq_ok_iff]
      constructor
      · rintro ⟨n, ⟨v, there, number⟩, rfl⟩
        refine ⟨v, there, ?_⟩
        cases v with
        | integer =>
          cases number
          exact ⟨fun _ => .inl rfl, rfl⟩
        | real =>
          cases number
          exact ⟨fun _ => .inr rfl, rfl⟩
        | boolean | vector => cases number
      · rintro ⟨v, there, takes, rfl⟩
        obtain ⟨n, stored_eq⟩ := Cell.exists_stored takes
        refine ⟨n, ⟨v, there, ?_⟩, stored_eq.symm⟩
        cases v with
        | integer | real =>
          cases stored_eq
          rfl
        | boolean | vector => cases stored_eq

theorem evalPosition_eq_ok_iff {e : Expr} :
    σ.evalPosition e = .ok i ↔ ∃ n, σ.evalInteger e = .ok n ∧ 0 ≤ n ∧ n.toInt.toNat = i := by
  unfold evalPosition
  rw [Checked.bind_eq_ok_iff]
  apply exists_congr
  intro n
  unfold asPosition
  split
  next negative => simp [Int64.not_le.mpr negative]
  next positive => simp [Int64.not_lt.mp positive]

end SymbolTable

/-- The target names the cell: its index, if it has one, is an integer that is not negative. -/
inductive Target.Names (σ : SymbolTable) : Target → Cell → Prop
  | whole {name : String} {span : Span} : Names σ ⟨name, none, span⟩ ⟨name, none⟩
  | element {name : String} {index : Expr} {span : Span} {n : Int64}
      (value : σ.evalInteger index = .ok n) (positive : 0 ≤ n) :
      Names σ ⟨name, some index, span⟩ ⟨name, some n.toInt.toNat⟩

theorem Target.names_iff {σ : SymbolTable} {t : Target} {c : Cell} :
    t.Names σ c ↔ σ.targetPosition t = .ok c.position ∧ c = ⟨t.name, c.position⟩ := by
  obtain ⟨name, index, span⟩ := t
  obtain ⟨name', position⟩ := c
  cases index with
  | none =>
    constructor
    · rintro ⟨⟩
      exact ⟨rfl, rfl⟩
    · rintro ⟨⟨⟩, ⟨⟩⟩
      exact .whole
  | some index =>
    unfold SymbolTable.targetPosition
    dsimp only
    rw [Checked.bind_eq_ok_iff]
    simp only [SymbolTable.evalPosition_eq_ok_iff]
    constructor
    · rintro (_ | ⟨value, positive⟩)
      exact ⟨⟨_, ⟨_, value, positive, rfl⟩, rfl⟩, rfl⟩
    · rintro ⟨⟨_, ⟨n, value, positive, rfl⟩, ⟨⟩⟩, ⟨⟩⟩
      exact .element value positive

namespace Machine

variable {m m' : Machine} {left right : Target} {span : Span} {c d : Cell} {v w : Value}

theorem swap_eq (left right : Target) (span : Span) : m.swap left right span = (do
    let p ← m.symbols.targetPosition left
    let q ← m.symbols.targetPosition right
    let v ← m.symbols.given left span p q
    let w ← m.symbols.given right span q p
    return { m with symbols := (m.symbols.put ⟨left.name, p⟩ w).put ⟨right.name, q⟩ v }) := by
  unfold swap
  dsimp only
  congr
  funext p
  congr
  funext q
  cases p <;> cases q <;> simp only [SymbolTable.given, bind_map_left] <;> rfl

/-- An exchange by its cells: both are there, each takes what the other holds, and so it is. -/
theorem swap_eq_ok_iff :
    m.swap left right span = .ok m' ↔ ∃ c d v w, left.Names m.symbols c ∧
      right.Names m.symbols d ∧ m.symbols.held c = some v ∧ m.symbols.held d = some w ∧
      c.Takes w ∧ d.Takes v ∧ m' = { m with
        symbols := (m.symbols.put c (c.stored w)).put d (d.stored v) } := by
  simp only [swap_eq, Checked.bind_eq_ok_iff, Target.names_iff]
  constructor
  · rintro ⟨p, left_eq, q, right_eq, v', left_given, w', right_given, ⟨⟩⟩
    obtain ⟨v, c_held, d_takes, rfl⟩ :=
      SymbolTable.given_eq_ok_iff (c := ⟨right.name, q⟩).mp left_given
    obtain ⟨w, d_held, c_takes, rfl⟩ :=
      SymbolTable.given_eq_ok_iff (c := ⟨left.name, p⟩).mp right_given
    exact ⟨⟨left.name, p⟩, ⟨right.name, q⟩, v, w, ⟨left_eq, rfl⟩, ⟨right_eq, rfl⟩, c_held, d_held,
      c_takes, d_takes, rfl⟩
  · rintro ⟨c, d, v, w, ⟨left_eq, c_eq⟩, ⟨right_eq, d_eq⟩, c_held, d_held, c_takes, d_takes, rfl⟩
    rw [c_eq] at c_held
    rw [d_eq] at d_held
    refine ⟨_, left_eq, _, right_eq, _, SymbolTable.given_eq_ok_iff.mpr ⟨v, c_held, d_takes, rfl⟩,
      _, SymbolTable.given_eq_ok_iff.mpr ⟨w, d_held, c_takes, rfl⟩, ?_⟩
    rw [← c_eq, ← d_eq]
    rfl

/-- An exchange succeeds just when both targets name cells that are there and take each other's
values. Then each cell holds what the other held before, as an element holds it if it is one,
and all that is apart from both is as it was. -/
theorem swap_exchanges (m : Machine) (left right : Target) (span : Span) :
    ((∃ m', m.swap left right span = .ok m') ↔
      ∃ c d v w, left.Names m.symbols c ∧ right.Names m.symbols d ∧ m.symbols.held c = some v ∧
        m.symbols.held d = some w ∧ c.Takes w ∧ d.Takes v) ∧
    ∀ m', m.swap left right span = .ok m' →
      ∃ c d v w, left.Names m.symbols c ∧ right.Names m.symbols d ∧ m.symbols.held c = some v ∧
        m.symbols.held d = some w ∧ m'.symbols.held c = some (c.stored w) ∧
        m'.symbols.held d = some (d.stored v) ∧
        (∀ other : Cell, other.Apart c → other.Apart d →
          m'.symbols.held other = m.symbols.held other) ∧
        m' = { m with symbols := m'.symbols } ∧ (c = d → m' = m) := by
  constructor
  · constructor
    · rintro ⟨m', h⟩
      obtain ⟨c, d, v, w, named, named', c_held, d_held, c_takes, d_takes, -⟩ := swap_eq_ok_iff.mp h
      exact ⟨c, d, v, w, named, named', c_held, d_held, c_takes, d_takes⟩
    · rintro ⟨c, d, v, w, named, named', c_held, d_held, c_takes, d_takes⟩
      exact ⟨_, swap_eq_ok_iff.mpr
        ⟨c, d, v, w, named, named', c_held, d_held, c_takes, d_takes, rfl⟩⟩
  · intro m' h
    obtain ⟨c, d, v, w, named, named', c_held, d_held, c_takes, d_takes, rfl⟩ :=
      swap_eq_ok_iff.mp h
    refine ⟨c, d, v, w, named, named', c_held, d_held, ?_, ?_, fun other from_c from_d => ?_, rfl,
      fun same => ?_⟩
    · exact SymbolTable.held_exchanged_left c_held d_held c_takes d_takes
    · exact SymbolTable.held_exchanged_right c_held d_held c_takes d_takes
    · rw [SymbolTable.held_put_of_apart from_d, SymbolTable.held_put_of_apart from_c]
    · rw [SymbolTable.exchanged_self c_held d_held same]

/-- The index is looked up before the variable that it reads is exchanged. -/
example :
    let σ := ((∅ : SymbolTable).assign "i" (.integer 1)).assign "v" (.vector [5, 6, 7])
    (Machine.swap { symbols := σ } ⟨"i", none, ⟨5, 6⟩⟩
      ⟨"v", some (.named "i" ⟨9, 10⟩), ⟨7, 11⟩⟩ ⟨0, 11⟩).toOption.map
        (fun m => (m.symbols["i"]?, m.symbols["v"]?)) =
      some (some (.integer 6), some (.vector [5, 1, 7])) := rfl

end Machine

end TagScript
