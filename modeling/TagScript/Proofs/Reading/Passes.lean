import TagScript.Reading.Program

/-! What reading leaves of the tokens. Which tokens a reader takes, and where it
fails, does not depend on the values that it has read, so each reader is here a
pass over the tokens, and the passes are put together as the readers are. -/
namespace TagScript.Reading

theorem length_induction {motive : List Token → Prop}
    (step : ∀ ts, (∀ rest, rest.length < ts.length → motive rest) → motive ts)
    (ts : List Token) : motive ts :=
  (measure List.length).wf.induction ts step

theorem length_lt_succ (ts : List Token) : ts.length < ts.length.succ :=
  Nat.lt_succ_self ts.length

/-- What is left of a list of tokens, or a failure. -/
abbrev Pass := List Token → Except Failure (List Token)

namespace Attempt

variable {α β : Type} {m n : Nat}

def left (x : Attempt (Parsed α n)) : Except Failure (List Token) :=
  x.result.map Parsed.rest

theorem left_bind {x : Attempt (Parsed α m)} {f : Parsed α m → Attempt (Parsed β n)} {next : Pass}
    (h : ∀ p, (f p).left = next p.rest) : (x >>= f).left = x.left >>= next := by
  rw [left, left, result_bind]
  cases x.result with
  | error e => rfl
  | ok p => exact h p

theorem left_visit_bind (v : Visit) (x : Attempt (Parsed α n)) :
    (visit v >>= fun _ => x).left = x.left := by
  rw [left, result_bind]
  rfl

theorem left_bind_ok (x : Attempt (Parsed α m)) {f : Parsed α m → Attempt (Parsed β n)}
    (h : ∀ p, (f p).left = .ok p.rest) : (x >>= f).left = x.left := by
  rw [left_bind h]
  cases x.left <;> rfl

end Attempt

def pass {α : Type} (read : (ts : List Token) → Attempt (Parsed α ts.length)) : Pass :=
  fun ts => (read ts).left

def branch (kind : Kind) (yes no : Pass) : Pass
  | [] => no []
  | t :: ts => if t.kind = kind then yes ts else no (t :: ts)

theorem branch_of_none {kind : Kind} {yes no : Pass} {ts : List Token}
    (h : accept? kind ts = none) : branch kind yes no ts = no ts := by
  cases ts with
  | nil => rfl
  | cons t ts =>
    by_cases same : t.kind = kind
    · rw [accept?, if_pos same] at h
      cases h
    · rw [branch, if_neg same]

theorem branch_of_some {kind : Kind} {yes no : Pass} {ts : List Token}
    {p : Parsed Token ts.length} (h : accept? kind ts = some p) :
    branch kind yes no ts = yes p.rest := by
  cases ts with
  | nil => cases h
  | cons t ts =>
    by_cases same : t.kind = kind
    · rw [accept?, if_pos same] at h
      cases h
      rw [branch, if_pos same]
    · rw [accept?, if_neg same] at h
      cases h

theorem pass_expect (expected : Expected) (t : Token) (ts : List Token) :
    pass (expect expected) (t :: ts) =
      if t.kind = expected.kind then .ok ts
      else .error ⟨.missing expected (some t.toLexeme), some t.span⟩ := by
  by_cases same : t.kind = expected.kind
  · simp only [pass, expect, if_pos same]
    rfl
  · simp only [pass, expect, if_neg same]
    rfl

def signed (operand : Pass) : Pass
  | [] => .ok []
  | t :: ts => if opensFactor ts then operand ts else .error ⟨.noOperand t.text, some t.span⟩

section Chain

variable {operator? : Kind → Option BinaryOp} {level : Level} {bound : Nat}

def chainPass (operator? : Kind → Option BinaryOp) (level : Level) : Pass := fun ts =>
  (chain operator? (fun rest _ => arithmetic level rest) (.boolean true ⟨0, 0⟩) ts
    (length_lt_succ ts)).left

theorem left_chain_nil (left : Expr) (h : [].length < bound) :
    (chain operator? (fun rest _ => arithmetic level rest) left [] h).left = .ok [] := by
  rw [chain]
  rfl

theorem left_chain_cons {next : Pass} {t : Token} {ts : List Token} (left : Expr)
    (h : (t :: ts).length < bound)
    (again : ∀ left rest h, rest.length < ts.length →
      (chain operator? (fun rest (_ : rest.length < bound) => arithmetic level rest)
        left rest h).left = next rest) :
    (chain operator? (fun rest _ => arithmetic level rest) left (t :: ts) h).left =
      if (operator? t.kind).isSome then (signed (pass (arithmetic level)) >=> next) (t :: ts)
      else .ok (t :: ts) := by
  rw [chain]
  cases operator? t.kind with
  | none => rfl
  | some op =>
    change _ = signed _ (t :: ts) >>= next
    rw [signed]
    by_cases opens : opensFactor ts
    · simp only [if_pos opens]
      exact Attempt.left_bind fun p => again _ _ _ p.fits
    · simp only [if_neg opens]
      rfl

/-- The operand on the left has no part in it, nor has the bound. -/
theorem left_chain (left : Expr) (ts : List Token) (h : ts.length < bound) :
    (chain operator? (fun rest _ => arithmetic level rest) left ts h).left =
      chainPass operator? level ts := by
  -- the chain goes on at what its operand leaves, which is no tail of the list by its form
  induction ts using length_induction generalizing left bound with
  | step ts ih =>
    cases ts with
    | nil => rw [chainPass, left_chain_nil, left_chain_nil]
    | cons t ts =>
      have again {bound} (left : Expr) (rest) (h : rest.length < bound)
          (fits : rest.length < ts.length) :
          (chain operator? (fun rest _ => arithmetic level rest) left rest h).left =
            chainPass operator? level rest :=
        ih rest (Nat.lt_succ_of_lt fits) left h
      rw [chainPass, left_chain_cons left h again, left_chain_cons _ _ again]

theorem chainPass_nil : chainPass operator? level [] = .ok [] :=
  left_chain_nil _ _

theorem chainPass_cons (t : Token) (ts : List Token) :
    chainPass operator? level (t :: ts) =
      if (operator? t.kind).isSome then
        (signed (pass (arithmetic level)) >=> chainPass operator? level) (t :: ts)
      else .ok (t :: ts) :=
  left_chain_cons _ _ fun left rest h _ => left_chain left rest h

end Chain

theorem pass_sum :
    pass (arithmetic .sum) = pass (arithmetic .term) >=> chainPass sumOperator? .term := by
  funext ts
  rw [pass, arithmetic, Attempt.left_visit_bind]
  exact Attempt.left_bind fun p => left_chain _ _ _

theorem pass_term :
    pass (arithmetic .term) = pass (arithmetic .factor) >=> chainPass productOperator? .factor := by
  funext ts
  rw [pass, arithmetic, Attempt.left_visit_bind]
  exact Attempt.left_bind fun p => left_chain _ _ _

theorem pass_comparison :
    pass comparison = pass (arithmetic .sum) >=> chainPass comparisonOperator? .sum := by
  funext ts
  rw [pass, comparison, Attempt.left_visit_bind]
  exact Attempt.left_bind fun p => left_chain _ _ _

theorem pass_factor_nil : pass (arithmetic .factor) [] = .error ⟨.noExpression none, none⟩ := by
  rw [pass, arithmetic, Attempt.left_visit_bind]
  rfl

theorem pass_factor_cons (t : Token) (ts : List Token) :
    pass (arithmetic .factor) (t :: ts) =
      match t.kind with
      | .integer =>
        match Integer.read? t.text.toList with
        | some _ => .ok ts
        | none => .error ⟨.badInteger t.text, some t.span⟩
      | .boolean => .ok ts
      | .identifier =>
        branch .leftBracket (pass (arithmetic .sum) >=> pass (expect .indexEnd)) .ok ts
      | .leftParen => (pass (arithmetic .sum) >=> pass (expect .groupEnd)) ts
      | .leftBracket => .error ⟨.strayVector, some t.span⟩
      | _ => .error ⟨.noExpression (some t.toLexeme), some t.span⟩ := by
  rw [pass, arithmetic, Attempt.left_visit_bind]
  generalize t.kind = kind
  cases kind with
  | integer => cases Integer.read? t.text.toList <;> rfl
  | identifier =>
    dsimp only
    split
    case _ accepted => exact (branch_of_none accepted).symm
    case _ opening accepted =>
      rw [branch_of_some accepted]
      refine Attempt.left_bind fun index => ?_
      exact Attempt.left_bind_ok _ fun _ => rfl
  | leftParen =>
    refine Attempt.left_bind fun inner => ?_
    exact Attempt.left_bind_ok _ fun _ => rfl
  | _ => rfl

theorem pass_target (use : TargetUse) :
    pass (target use) = pass (expect (.targetName use)) >=>
      branch .leftBracket (pass (arithmetic .sum) >=> pass (expect (.targetIndexEnd use))) .ok := by
  funext ts
  refine Attempt.left_bind fun name => ?_
  split
  case _ accepted => exact (branch_of_none accepted).symm
  case _ opening accepted =>
    rw [branch_of_some accepted]
    refine Attempt.left_bind fun index => ?_
    exact Attempt.left_bind_ok _ fun _ => rfl

theorem pass_commaList :
    pass commaList = pass (arithmetic .sum) >=> branch .comma (pass commaList) .ok := by
  funext ts
  rw [pass, commaList]
  refine Attempt.left_bind fun first => ?_
  split
  case _ accepted => exact (branch_of_none accepted).symm
  case _ comma accepted =>
    rw [branch_of_some accepted]
    exact Attempt.left_bind_ok _ fun _ => rfl

theorem pass_vector (opening : Token) :
    pass (vector opening) =
      branch .rightBracket .ok (pass commaList >=> pass (expect .vectorEnd)) := by
  funext ts
  rw [pass, vector, Attempt.left_visit_bind]
  split
  case _ close accepted => exact (branch_of_some accepted).symm
  case _ accepted =>
    rw [branch_of_none accepted]
    refine Attempt.left_bind fun elements => ?_
    exact Attempt.left_bind_ok _ fun _ => rfl

theorem pass_rhs :
    pass rhs = branch .leftBracket
      (branch .rightBracket .ok (pass commaList >=> pass (expect .vectorEnd)))
      (pass (arithmetic .sum)) := by
  funext ts
  rw [pass, rhs]
  split
  case _ opening accepted =>
    rw [branch_of_some accepted, ← pass_vector opening.value]
    exact Attempt.left_bind_ok _ fun _ => rfl
  case _ accepted =>
    rw [branch_of_none accepted]
    exact Attempt.left_bind_ok _ fun _ => rfl

theorem pass_assignment :
    pass assignment =
      pass (target .assignment) >=> (pass (expect .assignmentSign) >=> pass rhs) := by
  funext ts
  rw [pass, assignment, Attempt.left_visit_bind]
  refine Attempt.left_bind fun place => ?_
  refine Attempt.left_bind fun sign => ?_
  exact Attempt.left_bind_ok _ fun _ => rfl

theorem left_exchange (word : Token) (ts : List Token) :
    (exchange word ts).left = (pass (target .swap) >=> pass (target .swap)) ts := by
  rw [exchange, Attempt.left_visit_bind]
  refine Attempt.left_bind fun left => ?_
  exact Attempt.left_bind_ok _ fun _ => rfl

theorem left_output (word : Token) (ts : List Token) :
    (output word ts).left = pass comparison ts := by
  rw [output, Attempt.left_visit_bind]
  exact Attempt.left_bind_ok _ fun _ => rfl

section Many

variable {stops : Kind → Bool} {bound : Nat}

def manyPass (stops : Kind → Bool) : Pass := fun ts =>
  (many stops (fun rest _ => statement rest) ts (length_lt_succ ts)).left

theorem left_many_nil (h : [].length < bound) :
    (many stops (fun rest _ => statement rest) [] h).left = .ok [] := by
  rw [many]
  rfl

theorem left_many_cons {next : Pass} {t : Token} {ts : List Token} (h : (t :: ts).length < bound)
    (again : ∀ rest h, rest.length < (t :: ts).length →
      (many stops (fun rest (_ : rest.length < bound) => statement rest) rest h).left =
        next rest) :
    (many stops (fun rest _ => statement rest) (t :: ts) h).left =
      if stops t.kind then .ok (t :: ts) else (pass statement >=> next) (t :: ts) := by
  rw [many]
  by_cases stop : stops t.kind
  · simp only [if_pos stop]
    rfl
  · simp only [if_neg stop]
    refine Attempt.left_bind fun first => ?_
    rw [← again first.rest (Nat.lt_trans first.fits h) first.fits]
    exact Attempt.left_bind_ok _ fun _ => rfl

theorem left_many (ts : List Token) (h : ts.length < bound) :
    (many stops (fun rest _ => statement rest) ts h).left = manyPass stops ts := by
  induction ts using length_induction generalizing bound with
  | step ts ih =>
    cases ts with
    | nil => rw [manyPass, left_many_nil, left_many_nil]
    | cons t ts =>
      have again {bound} (rest) (h : rest.length < bound) (fits : rest.length < (t :: ts).length) :
          (many stops (fun rest _ => statement rest) rest h).left = manyPass stops rest :=
        ih rest fits h
      rw [manyPass, left_many_cons h again, left_many_cons _ again]

theorem manyPass_nil : manyPass stops [] = .ok [] :=
  left_many_nil _

theorem manyPass_cons (t : Token) (ts : List Token) :
    manyPass stops (t :: ts) =
      if stops t.kind then .ok (t :: ts) else (pass statement >=> manyPass stops) (t :: ts) :=
  left_many_cons _ fun rest h _ => left_many rest h

end Many

def blockPass (owner : BlockOwner) : Pass :=
  pass (expect (.blockStart owner)) >=>
    (manyPass (· == .rightBrace) >=> pass (expect (.blockEnd owner)))

theorem left_block {owner : BlockOwner} {bound : Nat} (ts : List Token) (h : ts.length < bound) :
    (block owner (fun rest _ => statement rest) ts h).left = blockPass owner ts := by
  refine Attempt.left_bind fun opening => ?_
  change _ = manyPass _ opening.rest >>= _
  rw [← left_many opening.rest (Nat.lt_trans opening.fits h)]
  refine Attempt.left_bind fun body => ?_
  exact Attempt.left_bind_ok _ fun _ => rfl

theorem pass_statement_nil : pass statement [] = .error ⟨.noStatement none, none⟩ := by
  rw [pass, statement, Attempt.left_visit_bind]
  rfl

theorem pass_statement_cons (t : Token) (ts : List Token) :
    pass statement (t :: ts) =
      match t.kind with
      | .identifier => pass assignment (t :: ts)
      | .tag => branch .empty .ok (pass statement) ts
      | .swapWord => (pass (target .swap) >=> pass (target .swap)) ts
      | .ifWord =>
        (pass comparison >=>
          (blockPass .ifWord >=> branch .elseWord (blockPass .elseWord) .ok)) ts
      | .whileWord => (pass comparison >=> blockPass .whileWord) ts
      | .printWord => pass comparison ts
      | _ => .error ⟨.noStatement (some t.toLexeme), some t.span⟩ := by
  rw [pass, statement, Attempt.left_visit_bind]
  generalize t.kind = kind
  cases kind with
  | identifier => rfl
  | tag =>
    dsimp only
    rw [Attempt.left_visit_bind]
    split
    case _ alone accepted => exact (branch_of_some accepted).symm
    case _ accepted =>
      rw [branch_of_none accepted]
      exact Attempt.left_bind_ok _ fun _ => rfl
  | swapWord =>
    rw [← left_exchange t]
    exact Attempt.left_bind_ok _ fun _ => rfl
  | ifWord =>
    dsimp only
    rw [Attempt.left_visit_bind]
    refine Attempt.left_bind fun condition => ?_
    change _ = blockPass _ condition.rest >>= _
    rw [← left_block condition.rest condition.fits]
    refine Attempt.left_bind fun body => ?_
    split
    case _ accepted => exact (branch_of_none accepted).symm
    case _ word accepted =>
      rw [branch_of_some accepted, ← left_block word.rest (Nat.lt_trans word.fits body.fits)]
      exact Attempt.left_bind_ok _ fun _ => rfl
  | whileWord =>
    dsimp only
    rw [Attempt.left_visit_bind]
    refine Attempt.left_bind fun condition => ?_
    rw [← left_block]
    exact Attempt.left_bind_ok _ fun _ => rfl
  | printWord =>
    rw [← left_output t]
    exact Attempt.left_bind_ok _ fun _ => rfl
  | _ => rfl

end TagScript.Reading
