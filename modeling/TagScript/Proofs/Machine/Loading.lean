import TagScript.Machine.Basic

/-! What a program adds to the table of tags: a key for each tag that it mentions, and
the bodies of its bindings, which take the place of those that there were. -/
namespace TagScript

namespace Binding

def last? (bindings : List Binding) (tag : String) : Option Stmt :=
  ((bindings.filter (·.1 = tag)).getLast?).map (·.2)

theorem last?_append (first second : List Binding) (tag : String) :
    last? (first ++ second) tag = (last? second tag).or (last? first tag) := by
  rw [last?, List.filter_append, List.getLast?_append, Option.map_or]
  rfl

theorem last?_cons (binding : Binding) (bindings : List Binding) (tag : String) :
    last? (binding :: bindings) tag =
      (last? bindings tag).or (if binding.1 = tag then some binding.2 else none) := by
  rw [← List.singleton_append, last?_append]
  by_cases same : binding.1 = tag <;> simp [last?, same]

theorem mem_of_last? {bindings : List Binding} {tag : String} {body : Stmt}
    (h : last? bindings tag = some body) : (tag, body) ∈ bindings := by
  obtain ⟨⟨own, _⟩, last, rfl⟩ := Option.map_eq_some_iff.mp h
  obtain ⟨mem, same⟩ := List.mem_filter.mp (List.mem_of_getLast? last)
  rw [← of_decide_eq_true same]
  exact mem

theorem last?_eq_none_iff {bindings : List Binding} {tag : String} :
    last? bindings tag = none ↔ tag ∉ bindings.map (·.1) := by
  rw [last?, Option.map_eq_none_iff, List.getLast?_eq_none_iff, List.filter_eq_nil_iff,
    List.mem_map]
  simp only [decide_eq_true_eq, not_exists, not_and]

end Binding

namespace TagTable

variable {τ : TagTable} {tag other : String} {body : Stmt}

theorem getElem?_declare (τ : TagTable) (tag other : String) :
    (τ.declare tag)[other]? = if tag = other ∧ tag ∉ τ then some none else τ[other]? := by
  rw [declare, Std.ExtTreeMap.getElem?_insertIfNew]
  simp only [Std.LawfulEqCmp.compare_eq_iff_eq]

theorem getElem?_bind (τ : TagTable) (tag other : String) (body : Stmt) :
    (τ.bind tag body)[other]? = if tag = other then some (some body) else τ[other]? := by
  rw [bind, Std.ExtTreeMap.getElem?_insert]
  simp only [Std.LawfulEqCmp.compare_eq_iff_eq]

theorem mem_declare : other ∈ τ.declare tag ↔ other = tag ∨ other ∈ τ := by
  rw [declare, Std.ExtTreeMap.mem_insertIfNew, Std.LawfulEqCmp.compare_eq_iff_eq, eq_comm]

theorem mem_bind : other ∈ τ.bind tag body ↔ other = tag ∨ other ∈ τ := by
  rw [bind, Std.ExtTreeMap.mem_insert, Std.LawfulEqCmp.compare_eq_iff_eq, eq_comm]

theorem mem_declareAll {tags : List String} :
    other ∈ tags.foldl declare τ ↔ other ∈ tags ∨ other ∈ τ := by
  induction tags generalizing τ with
  | nil => simp
  | cons tag tags ih => rw [List.foldl_cons, ih, mem_declare, List.mem_cons, or_left_comm, or_assoc]

theorem mem_bindAll {bindings : List Binding} :
    other ∈ bindings.foldl (fun τ binding => τ.bind binding.1 binding.2) τ ↔
      other ∈ bindings.map (·.1) ∨ other ∈ τ := by
  induction bindings generalizing τ with
  | nil => simp
  | cons binding bindings ih =>
    rw [List.foldl_cons, ih, mem_bind, List.map_cons, List.mem_cons, or_left_comm, or_assoc]

theorem getElem?_declareAll (τ : TagTable) (tags : List String) (tag : String) :
    (tags.foldl declare τ)[tag]? = τ[tag]?.or (if tag ∈ tags then some none else none) := by
  induction tags generalizing τ with
  | nil => exact Option.or_none.symm
  | cons other tags ih =>
    rw [List.foldl_cons, ih, getElem?_declare]
    by_cases same : other = tag
    · subst same
      by_cases mem : other ∈ τ <;> simp [mem]
    · simp [same, Ne.symm same]

theorem getElem?_bindAll (τ : TagTable) (bindings : List Binding) (tag : String) :
    (bindings.foldl (fun τ binding => τ.bind binding.1 binding.2) τ)[tag]? =
      ((Binding.last? bindings tag).map some).or τ[tag]? := by
  induction bindings generalizing τ with
  | nil => rfl
  | cons binding bindings ih =>
    rw [List.foldl_cons, ih, getElem?_bind, Binding.last?_cons, Option.map_or, Option.or_assoc]
    by_cases same : binding.1 = tag <;> simp [same]

theorem bound_of_declareAll {tags : List String}
    (h : (tags.foldl declare τ)[other]? = some (some body)) : τ[other]? = some (some body) := by
  rw [getElem?_declareAll, Option.or_eq_some_iff] at h
  rcases h with bound | ⟨-, noted⟩
  · exact bound
  · split at noted <;> cases noted

theorem bound_of_bindAll {bindings : List Binding}
    (h : (bindings.foldl (fun τ binding => τ.bind binding.1 binding.2) τ)[other]? =
      some (some body)) :
    (other, body) ∈ bindings ∨ other ∉ bindings.map (·.1) ∧ τ[other]? = some (some body) := by
  rw [getElem?_bindAll, Option.or_eq_some_iff] at h
  rcases h with inside | ⟨outside, bound⟩
  · obtain ⟨last, last_eq, same⟩ := Option.map_eq_some_iff.mp inside
    cases same
    exact .inl (Binding.mem_of_last? last_eq)
  · exact .inr ⟨Binding.last?_eq_none_iff.mp (Option.map_eq_none_iff.mp outside), bound⟩

def takeUp (τ : TagTable) (p : Program) : TagTable :=
  p.bindings.foldl (fun τ binding => τ.bind binding.1 binding.2) (p.tags.foldl declare τ)

theorem getElem?_takeUp (τ : TagTable) (p : Program) (tag : String) :
    (τ.takeUp p)[tag]? =
      ((Binding.last? p.bindings tag).map some).or
        (τ[tag]?.or (if tag ∈ p.tags then some none else none)) := by
  rw [takeUp, getElem?_bindAll, getElem?_declareAll]

/-- Some programs taken up one after the other are taken up like one that has the tags
of all and the bindings of all. -/
theorem getElem?_takeUpAll (τ : TagTable) (programs : List Program) (tag : String) :
    (programs.foldl takeUp τ)[tag]? =
      ((Binding.last? (programs.flatMap (·.bindings)) tag).map some).or
        (τ[tag]?.or (if tag ∈ programs.flatMap (·.tags) then some none else none)) := by
  induction programs generalizing τ with
  | nil => exact Option.or_none.symm
  | cons p programs ih =>
    have mentioned : (if tag ∈ p.tags ++ programs.flatMap (·.tags) then some (none : Option Stmt)
        else none) = (if tag ∈ p.tags then some none else none).or
          (if tag ∈ programs.flatMap (·.tags) then some none else none) := by
      by_cases here : tag ∈ p.tags <;> simp [here]
    rw [List.foldl_cons, ih, getElem?_takeUp, List.flatMap_cons, List.flatMap_cons,
      Binding.last?_append, Option.map_or, mentioned]
    simp only [Option.or_assoc]

theorem takeUp_takeUp {τ : TagTable} {p q whole : Program}
    (tags : ∀ tag, tag ∈ whole.tags ↔ tag ∈ p.tags ∨ tag ∈ q.tags)
    (bindings : whole.bindings = p.bindings ++ q.bindings) :
    τ.takeUp whole = (τ.takeUp p).takeUp q := by
  apply Std.ExtTreeMap.ext_getElem?
  intro tag
  have both := getElem?_takeUpAll τ [p, q] tag
  simp only [List.foldl_cons, List.foldl_nil, List.flatMap_cons, List.flatMap_nil, List.append_nil,
    List.mem_append, ← tags, ← bindings] at both
  rw [both, getElem?_takeUp]

theorem mem_takeUpAll {programs : List Program} :
    tag ∈ programs.foldl takeUp τ ↔
      tag ∈ τ ∨ ∃ p ∈ programs, tag ∈ p.tags ∨ tag ∈ p.bindings.map (·.1) := by
  induction programs generalizing τ with
  | nil => simp
  | cons p programs ih =>
    rw [List.foldl_cons, ih, takeUp, mem_bindAll, mem_declareAll]
    simp only [List.mem_cons, exists_eq_or_imp]
    grind

end TagTable

namespace Machine

variable {m : Machine} {p : Program} {tag : String} {body : Stmt}

theorem mem_load : tag ∈ (m.load p).tags ↔
    tag ∈ p.bindings.map (·.1) ∨ tag ∈ p.tags ∨ tag ∈ m.tags := by
  rw [← TagTable.mem_declareAll, ← TagTable.mem_bindAll]
  rfl

theorem bound_of_load (h : (m.load p).tags[tag]? = some (some body)) :
    (tag, body) ∈ p.bindings ∨
      tag ∉ p.bindings.map (·.1) ∧ m.tags[tag]? = some (some body) := by
  rcases TagTable.bound_of_bindAll h with inside | ⟨outside, bound⟩
  · exact .inl inside
  · exact .inr ⟨outside, TagTable.bound_of_declareAll bound⟩

end Machine

end TagScript
