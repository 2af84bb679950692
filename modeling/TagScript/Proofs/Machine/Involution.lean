import TagScript.Proofs.Machine.Leading

/-! The same exchange made twice. The second one gives each cell back what it held, up to what
an element has cut off from a real; so it undoes the first, as long as the targets still name the
same cells and no real has been through an element. -/
namespace TagScript

def Value.withElement (i : Nat) (n : Int64) : Value → Value
  | vector elements => vector (elements.set i n)
  | v => v

namespace Cell

variable {c d : Cell} {v w : Value}

def overwrite (c : Cell) (v : Value) (old : Option Value) : Option Value :=
  match c.position, v with
  | none, v => some v
  | some i, .integer n => old.map (Value.withElement i n)
  | some _, _ => old

theorem overwrite_overwrite (takes : c.Takes w) (v : Value) (old : Option Value) :
    c.overwrite (c.stored w) (c.overwrite v old) = c.overwrite (c.stored w) old := by
  obtain ⟨name, position⟩ := c
  cases position with
  | none => rfl
  | some i =>
    have twice (m n : Int64) (u : Value) :
        Value.withElement i n (Value.withElement i m u) = Value.withElement i n u := by
      cases u <;> simp only [Value.withElement, List.set_set]
    obtain ⟨n, stored_eq⟩ := exists_stored takes
    rw [stored_eq]
    cases v with
    | integer m =>
      simp only [overwrite, Option.map_map]
      exact congrArg (Option.map · old) (funext (twice m n))
    | real | boolean | vector => rfl

theorem overwrite_comm {i j : Nat} (left : c.position = some i) (right : d.position = some j)
    (ne : i ≠ j) (v w : Value) (old : Option Value) :
    d.overwrite w (c.overwrite v old) = c.overwrite v (d.overwrite w old) := by
  have swapped (m n : Int64) (u : Value) : Value.withElement j n (Value.withElement i m u) =
      Value.withElement i m (Value.withElement j n u) := by
    cases u with
    | vector elements => exact congrArg Value.vector (List.set_comm m n ne)
    | integer | real | boolean => rfl
  unfold overwrite
  rw [left, right]
  cases v with
  | integer m =>
    cases w with
    | integer n =>
      simp only [Option.map_map]
      exact congrArg (Option.map · old) (funext (swapped m n))
    | real | boolean | vector => rfl
  | real | boolean | vector => rfl

end Cell

namespace SymbolTable

variable {σ : SymbolTable} {c d : Cell} {v w : Value}

theorem getElem?_put (other : String) : (σ.put c v)[other]? =
    if c.name = other then c.overwrite v σ[other]? else σ[other]? := by
  by_cases same : c.name = other
  case neg => rw [getElem?_put_of_ne same, if_neg same]
  case pos =>
    subst same
    rw [if_pos rfl]
    obtain ⟨name, position⟩ := c
    cases position with
    | none => exact (getElem?_assign name).trans (if_pos rfl)
    | some i =>
      cases v with
      | real | boolean | vector => rfl
      | integer n =>
        change (σ.setElement name i n)[name]? = σ[name]?.map (Value.withElement i n)
        cases found : σ[name]? with
        | none => simp only [setElement, found, Option.map_none]
        | some old =>
          cases old with
          | vector elements =>
            rw [setElement_of_vector found, getElem?_assign, if_pos rfl]
            rfl
          | integer | real | boolean =>
            simp only [setElement, found]
            rfl

theorem put_put_stored (takes : c.Takes w) (σ : SymbolTable) (v : Value) :
    (σ.put c v).put c (c.stored w) = σ.put c (c.stored w) := by
  apply Std.ExtTreeMap.ext_getElem?
  intro other
  simp only [getElem?_put]
  split
  · exact Cell.overwrite_overwrite takes v _
  · rfl

theorem put_comm (apart : c.Apart d) (σ : SymbolTable) (v w : Value) :
    (σ.put c v).put d w = (σ.put d w).put c v := by
  apply Std.ExtTreeMap.ext_getElem?
  intro other
  simp only [getElem?_put]
  by_cases left : c.name = other <;> by_cases right : d.name = other
  · obtain ⟨i, j, i_eq, j_eq, ne⟩ := apart.resolve_left (not_not_intro (left.trans right.symm))
    simp only [if_pos left, if_pos right]
    exact Cell.overwrite_comm i_eq j_eq ne v w _
  · simp only [if_pos left, if_neg right]
  · simp only [if_neg left, if_pos right]
  · simp only [if_neg left, if_neg right]

/-- What a cell held is taken back by it as the other cell has stored it. -/
theorem takes_stored (hc : σ.held c = some v) (d : Cell) :
    c.Takes (d.stored v) ∧ c.stored (d.stored v) = d.stored v := by
  obtain ⟨name, position⟩ := c
  cases position with
  | none => exact ⟨fun whole => absurd rfl whole, rfl⟩
  | some i =>
    obtain ⟨elements, n, -, -, rfl⟩ := held_element.mp hc
    have same : d.stored (.integer n) = .integer n := by
      obtain ⟨other, position⟩ := d
      cases position <;> rfl
    rw [same]
    exact ⟨fun _ => .inl rfl, rfl⟩

/-- Two exchanges of two cells leave what one write to each of them does. -/
theorem exchanged_twice (hc : σ.held c = some v) (hd : σ.held d = some w) (c_takes : c.Takes w)
    (d_takes : d.Takes v) :
    (((σ.put c (c.stored w)).put d (d.stored v)).put c (d.stored v)).put d (c.stored w) =
      (σ.put c (d.stored v)).put d (c.stored w) := by
  obtain ⟨takes, stored_eq⟩ := takes_stored hc d
  obtain ⟨takes', stored_eq'⟩ := takes_stored hd c
  rcases eq_or_apart_of_takes hc hd c_takes d_takes with same | apart
  · rw [exchanged_self hc hd same]
  · rw [← put_comm apart, ← stored_eq, put_put_stored takes, stored_eq, ← stored_eq',
      put_put_stored takes']

/-- A variable that is exchanged with an element holds an integer. -/
def LendsInteger (σ : SymbolTable) (lender borrower : Target) : Prop :=
  lender.index = none → borrower.index ≠ none → ∃ n, σ[lender.name]? = some (.integer n)

theorem stored_of_lends {lender borrower : Target} (named : lender.Names σ c)
    (named' : borrower.Names σ d) (lends : σ.LendsInteger lender borrower)
    (hc : σ.held c = some v) : d.stored v = v := by
  cases named' with
  | whole => rfl
  | element =>
    cases named with
    | element =>
      obtain ⟨elements, n, -, -, rfl⟩ := held_element.mp hc
      rfl
    | whole =>
      obtain ⟨n, found⟩ := lends rfl (Option.some_ne_none _)
      cases hc.symm.trans found
      rfl

end SymbolTable

namespace Machine

variable {m m' : Machine} {left right : Target} {span : Span}

theorem endsIn_swap_iff :
    (Run.ofStatements [.swap left right span] m).EndsIn (.done m') ↔
      m.swap left right span = .ok m' := by
  refine (Task.lead_of_changes_iff rfl).trans ⟨?_, fun h => ⟨m', h, Task.lead_nil_iff.mpr rfl⟩⟩
  rintro ⟨_, h, leads⟩
  rw [Task.lead_nil_iff.mp leads]
  exact h

/-- An exchange whose targets still name the same cells after it can be made again. Then each
cell holds what it held at first, cut off if an element has held it in between. -/
theorem swap_twice (h : m.swap left right span = .ok m')
    (left_same : m'.symbols.targetPosition left = m.symbols.targetPosition left)
    (right_same : m'.symbols.targetPosition right = m.symbols.targetPosition right) :
    ∃ c d v w, left.Names m.symbols c ∧ right.Names m.symbols d ∧ m.symbols.held c = some v ∧
      m.symbols.held d = some w ∧ m'.swap left right span = .ok { m with
        symbols := (m.symbols.put c (d.stored v)).put d (c.stored w) } := by
  obtain ⟨c, d, v, w, named, named', hc, hd, c_takes, d_takes, rfl⟩ := swap_eq_ok_iff.mp h
  refine ⟨c, d, v, w, named, named', hc, hd, ?_⟩
  dsimp only at left_same right_same
  have again : left.Names _ c := Target.names_iff.mpr (left_same ▸ Target.names_iff.mp named)
  have again' : right.Names _ d := Target.names_iff.mpr (right_same ▸ Target.names_iff.mp named')
  obtain ⟨takes, stored_eq⟩ := SymbolTable.takes_stored hc d
  obtain ⟨takes', stored_eq'⟩ := SymbolTable.takes_stored hd c
  refine swap_eq_ok_iff.mpr ⟨c, d, c.stored w, d.stored v, again, again',
    SymbolTable.held_exchanged_left hc hd c_takes d_takes,
    SymbolTable.held_exchanged_right hc hd c_takes d_takes, takes, takes', ?_⟩
  rw [stored_eq, stored_eq', SymbolTable.exchanged_twice hc hd c_takes d_takes]

/-- An exchange that succeeds, and after which the targets are at the same positions as before,
is undone by being made once more. A variable that is exchanged with an element has to hold an
integer for this; all else may hold anything. -/
theorem swap_involutive
    (done : (Run.ofStatements [.swap left right span] m).EndsIn (.done m'))
    (left_same : m'.symbols.targetPosition left = m.symbols.targetPosition left)
    (right_same : m'.symbols.targetPosition right = m.symbols.targetPosition right)
    (left_lends : m.symbols.LendsInteger left right)
    (right_lends : m.symbols.LendsInteger right left) :
    (Run.ofStatements [.swap left right span] m').EndsIn (.done m) := by
  obtain ⟨c, d, v, w, named, named', hc, hd, again⟩ :=
    swap_twice (endsIn_swap_iff.mp done) left_same right_same
  rw [endsIn_swap_iff, again, SymbolTable.stored_of_lends named named' left_lends hc,
    SymbolTable.stored_of_lends named' named right_lends hd, SymbolTable.put_held hc,
    SymbolTable.put_held hd]

/-- An element whose index is read from the vector itself, and a variable. -/
theorem swap_involutive_nested :
    ∃ (m m' : Machine) (left right : Target) (span : Span),
      m.symbols["v"]? = some (.vector [2, 6, 7]) ∧ m.symbols["x"]? = some (.integer 9) ∧
      m'.symbols["v"]? = some (.vector [2, 6, 9]) ∧ m'.symbols["x"]? = some (.integer 7) ∧
      (Run.ofStatements [.swap left right span] m).EndsIn (.done m') ∧
      m'.symbols.targetPosition left = m.symbols.targetPosition left ∧
      m'.symbols.targetPosition right = m.symbols.targetPosition right ∧
      m.symbols.LendsInteger left right ∧ m.symbols.LendsInteger right left ∧
      (Run.ofStatements [.swap left right span] m').EndsIn (.done m) := by
  let m : Machine :=
    { symbols := ((∅ : SymbolTable).assign "v" (.vector [2, 6, 7])).assign "x" (.integer 9) }
  let m' : Machine := { symbols := (m.symbols.setElement "v" 2 9).assign "x" (.integer 7) }
  have done : (Run.ofStatements [.swap
      ⟨"v", some (.element "v" (.integer 0 ⟨9, 10⟩) ⟨7, 11⟩), ⟨5, 12⟩⟩ ⟨"x", none, ⟨13, 14⟩⟩
      ⟨0, 14⟩] m).EndsIn (.done m') := endsIn_swap_iff.mpr rfl
  have right_lends : m.symbols.LendsInteger ⟨"x", none, ⟨13, 14⟩⟩
      ⟨"v", some (.element "v" (.integer 0 ⟨9, 10⟩) ⟨7, 11⟩), ⟨5, 12⟩⟩ := fun _ _ => ⟨9, rfl⟩
  exact ⟨m, m', _, _, _, rfl, rfl, rfl, rfl, done, rfl, rfl, nofun, right_lends,
    swap_involutive done rfl rfl nofun right_lends⟩

/-- A real does not come back through an element. -/
example :
    let σ := ((∅ : SymbolTable).assign "v" (.vector [5])).assign "x" (.real (.quotient 5 2))
    let left : Target := ⟨"v", some (.integer 0 ⟨7, 8⟩), ⟨5, 9⟩⟩
    let right : Target := ⟨"x", none, ⟨10, 11⟩⟩
    let twice := (Machine.swap { symbols := σ } left right ⟨0, 11⟩).bind (·.swap left right ⟨0, 11⟩)
    twice.toOption.map (fun m' => (m'.symbols["v"]?, m'.symbols["x"]?)) =
      some (some (.vector [5]), some (.integer 2)) := by
  rfl

end Machine

end TagScript
