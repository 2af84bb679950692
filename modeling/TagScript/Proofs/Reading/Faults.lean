import TagScript.Proofs.Reading.Furthest
import TagScript.Proofs.Reading.Sites
import TagScript.Proofs.Token.Order

/-! Which tokens are blamed. A reader that fails blames the token that it is at, or an
operator that it has just taken, or the end. It is never at an empty token: such a token
comes right after a tag, and a reader that has taken the tag takes it too. -/
namespace TagScript

def ParseError.atEnd : ParseError → Bool
  | .missing _ none | .noStatement none | .noExpression none => true
  | _ => false

namespace Reading

def Failure.Placed (P : Span → Prop) (f : Failure) : Prop :=
  match f.site with
  | none => f.cause.atEnd = true
  | some s => f.cause.atEnd = false ∧ P s

/-- Empty tokens come only after tags, and the others have the property in their spans. -/
structure Clean (P : Span → Prop) (ts : List Token) : Prop where
  sited : Sited P ts
  opened : Token.Opened ts
  attached : ts.IsChain fun a b => b.kind = .empty → a.kind = .tag

variable {P : Span → Prop} {t : Token} {ts : List Token}

theorem Clean.head (h : Clean P (t :: ts)) : P t.span :=
  h.sited.head (h.opened t rfl)

theorem Clean.drop_one (h : Clean P (t :: ts)) (opened : Token.Opened ts) : Clean P ts :=
  ⟨h.sited.tail, opened, h.attached.tail⟩

theorem opened_of_isChain (h : (t :: ts).IsChain fun a b => b.kind = .empty → a.kind = .tag)
    (other : t.kind ≠ .tag) : Token.Opened ts := by
  intro u mem empty
  obtain ⟨ts, rfl⟩ := List.head?_eq_some_iff.mp mem
  exact other ((List.isChain_cons_cons.mp h).1 empty)

theorem Clean.tail (h : Clean P (t :: ts)) (other : t.kind ≠ .tag) : Clean P ts :=
  h.drop_one (opened_of_isChain h.attached other)

/-- What a pass should come to that may leave `n` tokens. -/
def Leaves (P : Span → Prop) (n : Nat) : Except Failure (List Token) → Prop
  | .ok rest => rest.length ≤ n ∧ Clean P rest
  | .error f => f.Placed P

/-- From at most `n` clean tokens the pass leaves clean ones, or it blames as it should. -/
def Careful (P : Span → Prop) (n : Nat) (p : Pass) : Prop :=
  ∀ ts, ts.length ≤ n → Clean P ts → Leaves P n (p ts)

variable {n m : Nat} {p q : Pass}

theorem Leaves.mono {x : Except Failure (List Token)} (h : Leaves P m x) (le : m ≤ n) :
    Leaves P n x := by
  cases x with
  | ok rest => exact ⟨Nat.le_trans h.1 le, h.2⟩
  | error f => exact h

namespace Careful

theorem andThen (first : Careful P n p) (second : Careful P n q) : Careful P n (p >=> q) := by
  intro ts le clean
  have after := first ts le clean
  change Leaves P n (p ts >>= q)
  cases passed : p ts with
  | error f =>
    rw [passed] at after
    exact after
  | ok rest =>
    rw [passed] at after
    exact second rest after.1 after.2

theorem ok : Careful P n .ok :=
  fun _ le clean => ⟨le, clean⟩

theorem expect (expected : Expected) : Careful P n (pass (expect expected)) := by
  intro ts le clean
  cases ts with
  | nil => rfl
  | cons t ts =>
    rw [pass_expect]
    by_cases kind : t.kind = expected.kind
    · rw [if_pos kind]
      refine ⟨Nat.le_of_succ_le le, clean.tail ?_⟩
      rw [kind]
      cases expected <;> nofun
    · rw [if_neg kind]
      exact ⟨rfl, clean.head⟩

theorem branch {kind : Kind} {yes no : Pass} (other : kind ≠ .tag)
    (of_yes : ∀ m, m < n → Careful P m yes) (of_no : Careful P n no) :
    Careful P n (branch kind yes no) := by
  intro ts le clean
  cases ts with
  | nil => exact of_no [] le clean
  | cons t ts =>
    rw [Reading.branch]
    by_cases same : t.kind = kind
    · rw [if_pos same]
      exact (of_yes _ le ts (Nat.le_refl _) (clean.tail (same ▸ other))).mono (Nat.le_of_succ_le le)
    · rw [if_neg same]
      exact of_no _ le clean

end Careful

theorem length_lt_of_pass {α : Type} {read : (ts : List Token) → Attempt (Parsed α ts.length)}
    {rest : List Token} (h : pass read ts = .ok rest) : rest.length < ts.length := by
  rw [pass, Attempt.left] at h
  cases read_eq : (read ts).result with
  | error f =>
    rw [read_eq] at h
    cases h
  | ok p =>
    rw [read_eq] at h
    cases h
    exact p.fits

section Arithmetic

variable {operator? : Kind → Option BinaryOp} {level : Level}

theorem careful_chain (signs : ∀ kind, (operator? kind).isSome → kind ≠ .tag)
    (operand : Careful P n (pass (arithmetic level))) :
    Careful P n (chainPass operator? level) := by
  intro ts le clean
  induction ts using length_induction with
  | step ts ih =>
    cases ts with
    | nil =>
      rw [chainPass_nil]
      exact ⟨le, clean⟩
    | cons t ts =>
      rw [chainPass_cons]
      by_cases sign : (operator? t.kind).isSome
      · rw [if_pos sign]
        change Leaves P n (signed (pass (arithmetic level)) (t :: ts) >>= _)
        rw [signed]
        by_cases opens : opensFactor ts
        · rw [if_pos opens]
          have after := operand ts (Nat.le_of_succ_le le) (clean.tail (signs _ sign))
          cases passed : pass (arithmetic level) ts with
          | error f =>
            rw [passed] at after
            exact after
          | ok rest =>
            rw [passed] at after
            exact ih rest (Nat.lt_succ_of_lt (length_lt_of_pass passed)) after.1 after.2
        · rw [if_neg opens]
          exact ⟨rfl, clean.head⟩
      · rw [if_neg sign]
        exact ⟨le, clean⟩

theorem careful_factor (inner : ∀ m, m < n → Careful P m (pass (arithmetic .sum))) :
    Careful P n (pass (arithmetic .factor)) := by
  intro ts le clean
  cases ts with
  | nil =>
    rw [pass_factor_nil]
    rfl
  | cons t ts =>
    have fewer := Nat.le_of_succ_le le
    have onward {q : Pass} (careful : Careful P ts.length q) (other : t.kind ≠ .tag) :
        Leaves P n (q ts) :=
      (careful ts (Nat.le_refl _) (clean.tail other)).mono fewer
    have closed (expected : Expected) (m : Nat) (lt : m < n) :
        Careful P m (pass (arithmetic .sum) >=> pass (expect expected)) :=
      (inner m lt).andThen (.expect expected)
    rw [pass_factor_cons]
    cases kind : t.kind with
    | integer =>
      dsimp only
      cases Integer.read? t.text.toList with
      | some value => exact onward .ok (by rw [kind]; nofun)
      | none => exact ⟨rfl, clean.head⟩
    | boolean => exact onward .ok (by rw [kind]; nofun)
    | identifier =>
      refine onward (.branch (by decide) (fun m lt => ?_) .ok) (by rw [kind]; nofun)
      exact closed .indexEnd m (Nat.lt_of_lt_of_le lt fewer)
    | leftParen => exact onward (closed .groupEnd _ le) (by rw [kind]; nofun)
    | _ => exact ⟨rfl, clean.head⟩

theorem careful_sum : Careful P n (pass (arithmetic .sum)) := by
  induction n using Nat.strongRecOn with
  | ind n ih =>
    have term : Careful P n (pass (arithmetic .term)) := by
      rw [pass_term]
      exact (careful_factor ih).andThen
        (careful_chain (fun kind => by cases kind <;> decide) (careful_factor ih))
    rw [pass_sum]
    exact term.andThen (careful_chain (fun kind => by cases kind <;> decide) term)

theorem careful_comparison : Careful P n (pass comparison) := by
  rw [pass_comparison]
  exact careful_sum.andThen (careful_chain (fun kind => by cases kind <;> decide) careful_sum)

theorem careful_target (use : TargetUse) : Careful P n (pass (target use)) := by
  rw [pass_target]
  exact (Careful.expect _).andThen
    (.branch (by decide) (fun _ _ => careful_sum.andThen (.expect _)) .ok)

theorem careful_commaList : Careful P n (pass commaList) := by
  induction n using Nat.strongRecOn with
  | ind n ih =>
    rw [pass_commaList]
    exact careful_sum.andThen (.branch (by decide) ih .ok)

theorem careful_rhs : Careful P n (pass rhs) := by
  rw [pass_rhs]
  refine .branch (by decide) (fun m _ => ?_) careful_sum
  exact .branch (by decide) (fun _ _ => .ok) (careful_commaList.andThen (.expect _))

end Arithmetic

theorem careful_assignment : Careful P n (pass assignment) := by
  rw [pass_assignment]
  exact (careful_target _).andThen ((Careful.expect _).andThen careful_rhs)

theorem careful_many {stops : Kind → Bool} (item : Careful P n (pass statement)) :
    Careful P n (manyPass stops) := by
  intro ts le clean
  induction ts using length_induction with
  | step ts ih =>
    cases ts with
    | nil =>
      rw [manyPass_nil]
      exact ⟨le, clean⟩
    | cons t ts =>
      rw [manyPass_cons]
      by_cases stop : stops t.kind
      · rw [if_pos stop]
        exact ⟨le, clean⟩
      · rw [if_neg stop]
        change Leaves P n (pass statement (t :: ts) >>= _)
        have after := item (t :: ts) le clean
        cases passed : pass statement (t :: ts) with
        | error f =>
          rw [passed] at after
          exact after
        | ok rest =>
          rw [passed] at after
          exact ih rest (length_lt_of_pass passed) after.1 after.2

theorem careful_block {owner : BlockOwner} (item : Careful P n (pass statement)) :
    Careful P n (blockPass owner) :=
  (Careful.expect _).andThen ((careful_many item).andThen (.expect _))

theorem careful_statement : Careful P n (pass statement) := by
  induction n using Nat.strongRecOn with
  | ind n ih =>
    intro ts le clean
    cases ts with
    | nil =>
      rw [pass_statement_nil]
      rfl
    | cons t ts =>
      have item : Careful P ts.length (pass statement) := ih _ le
      have onward {q : Pass} (careful : Careful P ts.length q) (other : t.kind ≠ .tag) :
          Leaves P n (q ts) :=
        (careful ts (Nat.le_refl _) (clean.tail other)).mono (Nat.le_of_succ_le le)
      rw [pass_statement_cons]
      cases kind : t.kind with
      | identifier => exact careful_assignment _ le clean
      | tag =>
        have fewer := Nat.le_of_succ_le le
        cases ts with
        | nil => exact (item [] (Nat.zero_le _) (clean.drop_one nofun)).mono fewer
        | cons u ts =>
          dsimp only [branch]
          by_cases alone : u.kind = .empty
          · rw [if_pos alone]
            have other : u.kind ≠ .tag := by rw [alone]; nofun
            exact ⟨Nat.le_of_succ_le fewer, clean.sited.tail.tail,
              opened_of_isChain clean.attached.tail other, clean.attached.tail.tail⟩
          · rw [if_neg alone]
            refine (item (u :: ts) (Nat.le_refl _) (clean.drop_one ?_)).mono fewer
            rintro _ ⟨⟩
            exact alone
      | swapWord =>
        exact onward ((careful_target _).andThen (careful_target _)) (by rw [kind]; nofun)
      | ifWord =>
        refine onward (careful_comparison.andThen ((careful_block item).andThen ?_))
          (by rw [kind]; nofun)
        exact .branch (by decide) (fun m lt => careful_block (ih m (Nat.lt_trans lt le))) .ok
      | whileWord =>
        exact onward (careful_comparison.andThen (careful_block item)) (by rw [kind]; nofun)
      | printWord => exact onward careful_comparison (by rw [kind]; nofun)
      | _ => exact ⟨rfl, clean.head⟩

def Placed (P : Span → Prop) (ts : List Token) (fault : Fault ParseError) : Prop :=
  fault.cause.atEnd = true ∧ fault.span = endOf ts ∨ fault.cause.atEnd = false ∧ P fault.span

theorem Failure.Placed.fault {f : Failure} (h : f.Placed P) (ts : List Token) :
    Reading.Placed P ts (f.fault ts) := by
  obtain ⟨cause, site⟩ := f
  cases site with
  | none => exact .inl ⟨h, rfl⟩
  | some span => exact .inr h

end Reading

open Reading

variable {P : Span → Prop} {ts : List Token} {fault : Fault ParseError}

theorem Program.placed_of_ofTokens (clean : Clean P ts)
    (failed : Program.ofTokens ts = .error fault) : Placed P ts fault := by
  obtain ⟨f, read, rfl⟩ := ofTokens_eq_error_iff.mp failed
  have careful : Careful P ts.length (manyPass fun _ => false) := careful_many careful_statement
  have after := careful ts (Nat.le_refl _) clean
  rw [manyPass_eq_error_iff.mpr read] at after
  exact Failure.Placed.fault after ts

theorem Expr.placed_of_ofTokens (clean : Clean P ts) (failed : Expr.ofTokens ts = .error fault) :
    Placed P ts fault := by
  have after := careful_comparison ts (Nat.le_refl _) clean
  rw [Reading.pass, Attempt.left] at after
  rw [Expr.ofTokens, wholeComparison, Attempt.result_bind] at failed
  cases read : (comparison ts).result with
  | error f =>
    rw [read] at failed after
    cases failed
    exact Failure.Placed.fault after ts
  | ok whole =>
    rw [read] at failed after
    obtain ⟨e, rest, fits⟩ := whole
    cases rest with
    | nil => cases failed
    | cons t rest =>
      cases failed
      exact .inr ⟨rfl, after.2.head⟩

end TagScript
