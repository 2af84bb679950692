import TagScript.Proofs.Machine.Steps

/-! Two runs side by side. If the one comes, for each step of the other, to a step of
its own that goes as that one does, then neither ends without the other. -/
namespace TagScript

inductive Checked.Both {α β : Type} (R : α → β → Prop) : Checked α → Checked β → Prop
  | ok {a : α} {b : β} (related : R a b) : Both R (.ok a) (.ok b)
  | error (fault : Fault RuntimeError) : Both R (.error fault) (.error fault)

inductive Progress.Both (R : Run → Run → Prop) (S : Outcome → Outcome → Prop) :
    Progress → Progress → Prop
  | goes {r r' : Run} (related : R r r') : Both R S (.goes r) (.goes r')
  | ends {o o' : Outcome} (related : S o o') : Both R S (.ends o) (.ends o')

namespace Checked

variable {α β γ δ : Type} {R : α → β → Prop} {Q : γ → δ → Prop}

theorem Both.of_eq {x y : Checked α} (h : x = y) : Both Eq x y := by
  subst h
  cases x with
  | ok a => exact .ok rfl
  | error fault => exact .error fault

theorem Both.bind {x : Checked α} {y : Checked β} {f : α → Checked γ} {g : β → Checked δ}
    (first : Both R x y) (step : ∀ a b, R a b → Both Q (f a) (g b)) :
    Both Q (x >>= f) (y >>= g) := by
  cases first with
  | ok related => exact step _ _ related
  | error fault => exact .error fault

theorem Both.map {x : Checked α} {y : Checked β} {f : α → γ} {g : β → δ} (h : Both R x y)
    (step : ∀ a b, R a b → Q (f a) (g b)) : Both Q (f <$> x) (g <$> y) := by
  cases h with
  | ok related => exact .ok (step _ _ related)
  | error fault => exact .error fault

/-! Both read the same first. -/

theorem Both.bind_of_eq {x y : Checked α} {f : α → Checked γ} {g : α → Checked δ} (h : x = y)
    (step : ∀ a, Both Q (f a) (g a)) : Both Q (x >>= f) (y >>= g) :=
  (of_eq h).bind fun a _ same => same ▸ step a

theorem Both.map_of_eq {x y : Checked α} {f : α → γ} {g : α → δ} (h : x = y)
    (step : ∀ a, Q (f a) (g a)) : Both Q (f <$> x) (g <$> y) :=
  (of_eq h).map fun a _ same => same ▸ step a

end Checked

namespace Run

def Diverges (r : Run) : Prop :=
  ∀ fuel, r.finish fuel = none

variable {R : Run → Run → Prop} {S : Outcome → Outcome → Prop} {r r' q q' : Run}
  {outcome : Outcome}

theorem diverges_or_ends (r : Run) : r.Diverges ∨ ∃ outcome, r.EndsIn outcome := by
  by_cases h : r.Diverges
  · exact .inl h
  · obtain ⟨fuel, ne⟩ := Classical.not_forall.mp h
    obtain ⟨outcome, finish_eq⟩ := Option.ne_none_iff_exists'.mp ne
    exact .inr ⟨outcome, fuel, finish_eq⟩

theorem Diverges.of_next (h : r.Diverges) (step : r.next = .goes q) : q.Diverges := by
  intro fuel
  have later := h (fuel + 1)
  rw [finish, step] at later
  exact later

theorem Diverges.not_ends (h : r.Diverges) : r.next ≠ .ends outcome := by
  intro next_eq
  obtain ⟨fuel, finish_eq⟩ := EndsIn.now next_eq
  cases (h fuel).symm.trans finish_eq

theorem Diverges.of_reaches (reaches : r.Reaches q) (h : q.Diverges) : r.Diverges := by
  obtain diverges | ⟨outcome, ends⟩ := r.diverges_or_ends
  · exact diverges
  · obtain ⟨fuel, finish_eq⟩ := (EndsIn.iff_of_reaches reaches).mp ends
    cases (h fuel).symm.trans finish_eq

theorem Diverges.append {m : Machine} {tasks : List Task} (h : Diverges ⟨tasks, m⟩)
    (rest : List Task) : Diverges ⟨tasks ++ rest, m⟩ := by
  intro fuel
  induction fuel generalizing tasks m with
  | zero => rfl
  | succ fuel ih =>
    cases next_eq : next ⟨tasks, m⟩ with
    | ends outcome => exact absurd next_eq h.not_ends
    | goes r' =>
      rw [finish, next_append rest next_eq]
      exact ih (h.of_next next_eq)

theorem finish_of_reaches (reaches : r.Reaches q) {fuel : Nat} (h : r.finish fuel = some outcome) :
    ∃ left ≤ fuel, q.finish left = some outcome := by
  induction reaches with
  | refl => exact ⟨fuel, Nat.le_refl _, h⟩
  | tail _ step ih =>
    obtain ⟨left, le, finish_eq⟩ := ih
    cases left with
    | zero => cases finish_eq
    | succ left =>
      rw [finish, step] at finish_eq
      exact ⟨left, Nat.le_of_succ_le le, finish_eq⟩

theorem resume_both {m m' : Machine} {rest rest' : List Task}
    {result result' : Checked (List Task × Machine)}
    (h : Checked.Both (fun x y => R ⟨x.1 ++ rest, x.2⟩ ⟨y.1 ++ rest', y.2⟩) result result')
    (failing : ∀ fault, result = .error fault →
      S (.failed fault { m with depth := m.depth - rest.countP Task.isLeave })
        (.failed fault { m' with depth := m'.depth - rest'.countP Task.isLeave })) :
    Progress.Both R S (resume rest m result) (resume rest' m' result') := by
  cases h with
  | ok related => exact .goes related
  | error fault => exact .ends (failing fault rfl)

/-- The first run comes to a step like the next one of the second. -/
def CatchesUp (R : Run → Run → Prop) (S : Outcome → Outcome → Prop) (r r' : Run) : Prop :=
  ∃ q, r.Reaches q ∧ Progress.Both R S q.next r'.next

section

variable (step : ∀ r r', R r r' → CatchesUp R S r r')
include step

theorem exists_end_of_catchesUp (fuel : Nat) (h : R r r') (ends : r'.finish fuel = some outcome) :
    ∃ o, r.EndsIn o ∧ S o outcome := by
  induction fuel generalizing r r' with
  | zero => cases ends
  | succ fuel ih =>
    obtain ⟨q, reaches, both⟩ := step r r' h
    rw [finish] at ends
    generalize next_eq : q.next = progress, r'.next = progress' at both ends
    cases both with
    | goes related =>
      obtain ⟨o, ends_in, alike⟩ := ih related ends
      exact ⟨o, (EndsIn.iff_of_reaches (reaches.tail next_eq)).mpr ends_in, alike⟩
    | ends related =>
      cases ends
      exact ⟨_, (EndsIn.iff_of_reaches reaches).mpr (.now next_eq), related⟩

theorem diverges_of_catchesUp (h : R r r') (diverges : r'.Diverges) : r.Diverges := by
  intro fuel
  rw [Option.eq_none_iff_forall_ne_some]
  intro outcome finish_eq
  -- the first run has less fuel left each time that it has made a step of the second
  induction fuel using Nat.strongRecOn generalizing r r' with
  | ind fuel ih =>
    obtain ⟨q, reaches, both⟩ := step r r' h
    obtain ⟨left, le, left_eq⟩ := finish_of_reaches reaches finish_eq
    generalize next_eq : q.next = progress, next_eq' : r'.next = progress' at both
    cases both with
    | goes related =>
      cases left with
      | zero => cases left_eq
      | succ left =>
        rw [finish, next_eq] at left_eq
        exact ih left le related (diverges.of_next next_eq') left_eq
    | ends => exact diverges.not_ends next_eq'

/-- Both go on for ever, or both end. -/
theorem alike_of_catchesUp (h : R r r') :
    r.Diverges ∧ r'.Diverges ∨ ∃ o o', r.EndsIn o ∧ r'.EndsIn o' ∧ S o o' := by
  obtain diverges | ⟨o', fuel, finish_eq⟩ := r'.diverges_or_ends
  · exact .inl ⟨diverges_of_catchesUp step h diverges, diverges⟩
  · obtain ⟨o, ends, alike⟩ := exists_end_of_catchesUp step fuel h finish_eq
    exact .inr ⟨o, o', ends, ⟨fuel, finish_eq⟩, alike⟩

end

end Run

end TagScript
