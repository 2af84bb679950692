import TagScript.Proofs.Reading.Completeness
import TagScript.Proofs.Reading.Stuck

/-! Each construct takes a phrase of the grammar, or gets stuck after the beginning of
one that could have been continued. -/
namespace TagScript.Reading

open Grammar Token

theorem length_lt_of_split {ts us rest : List Token} {x : Lexeme} {xs : List Lexeme}
    (split : ts = us ++ rest) (eq : lexemes us = x :: xs) : rest.length < ts.length := by
  obtain ⟨t, us, rfl, -, -⟩ := List.map_eq_cons_iff.mp eq
  rw [split, List.length_append, List.length_cons]
  omega

def Phrase {α : Type} (derives : List Lexeme → α → Prop) (xs : List Lexeme) : Prop :=
  ∃ tree, derives xs tree

theorem exists_arithmetic (level : Level) : ∃ xs, Phrase (Arithmetic level) xs := by
  have first : Arithmetic .factor [⟨.boolean, "TRUE"⟩] _ := .boolean rfl
  cases level with
  | factor => exact ⟨_, _, first⟩
  | term => exact ⟨_, _, .factor first⟩
  | sum => exact ⟨_, _, .term (.factor first)⟩

section Chain

variable {operator? : Kind → Option BinaryOp} {level : Level} {ts : List Token}

def Signed (operator? : Kind → Option BinaryOp) (level : Level) (xs : List Lexeme) : Prop :=
  ∃ x ys, xs = x :: ys ∧ (operator? x.kind).isSome ∧ Phrase (Arithmetic level) ys

theorem goes_signed {t : Token} (sign : (operator? t.kind).isSome)
    (kind : t.kind ∈ operatorKinds)
    (operand : Goes (pass (arithmetic level)) (Phrase (Arithmetic level)) ts) :
    Goes (signed (pass (arithmetic level))) (Signed operator? level) (t :: ts) := by
  by_cases opens : opensFactor ts
  · have after : Goes (pass (arithmetic level))
        (fun ys => Signed operator? level (t.toLexeme :: ys)) ts :=
      operand.mono fun ys phrase => ⟨_, _, rfl, sign, phrase⟩
    refine after.cons (.inr ⟨opens, ?_⟩) fun ts' head_eq => ?_
    · rintro ⟨_, _, ⟨⟩, -, e, phrase⟩
      cases opensFactor_of_arithmetic phrase [] (show lexemes [] = [] from rfl)
    · rw [signed, opensFactor_congr head_eq, if_pos opens]
  · obtain ⟨ys, phrase⟩ := exists_arithmetic level
    refine .stuck [t] ts ⟨.noOperand t.text, some t.span⟩ rfl ⟨ys, _, _, rfl, sign, phrase⟩ ?_
      fun rest' head_eq => ?_
    · change _ = Option.map _ (if _ then _ else _)
      rw [if_pos ⟨kind, Bool.eq_false_iff.mpr opens⟩]
      rfl
    · rw [List.singleton_append, signed, opensFactor_congr head_eq, if_neg opens]

variable {derives : List Lexeme → Expr → Prop}
  (step : ∀ {xs ys x left op right}, derives xs left → operator? x.kind = some op →
    Arithmetic level ys right → derives (xs ++ x :: ys) (.binary left op right .nowhere))
  (kinds : ∀ kind, (operator? kind).isSome → kind ∈ operatorKinds)

include step in
theorem phrase_append_signed {xs ys : List Lexeme} (before : Phrase derives xs)
    (last : Signed operator? level ys) : Phrase derives (xs ++ ys) := by
  obtain ⟨left, before⟩ := before
  obtain ⟨x, ys, rfl, sign, right, last⟩ := last
  obtain ⟨op, operator⟩ := Option.isSome_iff_exists.mp sign
  exact ⟨_, step before operator last⟩

include step kinds in
theorem goes_chain {xs : List Lexeme} (before : Phrase derives xs) (ts : List Token)
    (operand : ∀ rest, rest.length < ts.length →
      Goes (pass (arithmetic level)) (Phrase (Arithmetic level)) rest) :
    Goes (chainPass operator? level) (fun ys => Phrase derives (xs ++ ys)) ts := by
  -- by what is left of the tokens; the phrase before grows by an operator and its operand
  induction ts using length_induction generalizing xs with
  | step ts ih =>
    have done : Phrase derives (xs ++ []) := by
      rw [List.append_nil]
      exact before
    cases ts with
    | nil => exact .finished done chainPass_nil
    | cons t ts =>
      by_cases sign : (operator? t.kind).isSome
      · have chained : Goes (signed (pass (arithmetic level)) >=> chainPass operator? level)
            (fun ys => Phrase derives (xs ++ ys)) (t :: ts) := by
          refine (goes_signed sign (kinds _ sign) (operand ts (Nat.lt_succ_self _))).andThen ?_ ?_
          · intro us rest split phrase
            have shorter : rest.length < (t :: ts).length := by
              obtain ⟨x, ys, eq, -⟩ := phrase
              exact length_lt_of_split split eq
            refine (ih rest shorter (phrase_append_signed step before phrase)
              fun rest' lt => operand rest' (Nat.lt_trans lt shorter)).mono fun ys whole => ?_
            rw [← List.append_assoc]
            exact whole
          · intro ys phrase
            refine ⟨[], ?_⟩
            rw [List.append_nil]
            exact phrase_append_signed step before phrase
        exact chained.congr_cons fun ts' => by rw [chainPass_cons, if_pos sign]
      · exact .stopped done fun ts' => by rw [chainPass_cons, if_neg sign]

include step kinds in
theorem goes_chained (first : ∀ {xs e}, Arithmetic level xs e → derives xs e)
    (operand : ∀ rest, rest.length ≤ ts.length →
      Goes (pass (arithmetic level)) (Phrase (Arithmetic level)) rest) :
    Goes (pass (arithmetic level) >=> chainPass operator? level) (Phrase derives) ts := by
  have alone {xs : List Lexeme} (phrase : Phrase (Arithmetic level) xs) : Phrase derives xs := by
    obtain ⟨e, phrase⟩ := phrase
    exact ⟨e, first phrase⟩
  refine (operand ts (Nat.le_refl _)).andThen (fun us rest split phrase => ?_) fun xs phrase => ?_
  · refine goes_chain step kinds (alone phrase) rest fun rest' lt => operand rest' ?_
    rw [split, List.length_append]
    omega
  · refine ⟨[], ?_⟩
    rw [List.append_nil]
    exact alone phrase

end Chain

section Arithmetic

variable {ts : List Token}

/-- Arithmetic may follow, if there are fewer tokens than these. -/
def GoesBelow (ts : List Token) : Prop :=
  ∀ rest, rest.length < ts.length →
    Goes (pass (arithmetic .sum)) (Phrase (Arithmetic .sum)) rest

theorem goes_indexed (expected : Expected) {M : List Lexeme → Prop} (index : GoesBelow ts)
    (named : M [])
    (element : ∀ opening xs close, opening.kind = .leftBracket → Phrase (Arithmetic .sum) xs →
      close.kind = expected.kind → M (opening :: (xs ++ [close]))) :
    Goes (branch .leftBracket (pass (arithmetic .sum) >=> pass (expect expected)) .ok) M ts := by
  refine .branch (by decide) ?_ (.nothing named fun _ _ => rfl)
  rintro opening rest rfl opens
  exact (index rest (Nat.lt_succ_self _)).closedBy expected fun xs close phrase closes =>
    element opening.toLexeme xs close opens phrase closes

theorem goes_factor (inner : GoesBelow ts) :
    Goes (pass (arithmetic .factor)) (Phrase (Arithmetic .factor)) ts := by
  have viable := exists_arithmetic .factor
  cases ts with
  | nil => exact .short ⟨.noExpression none, none⟩ viable rfl pass_factor_nil
  | cons t ts =>
    have deeper : GoesBelow ts := fun rest lt => inner rest (Nat.lt_succ_of_lt lt)
    cases kind : t.kind with
    | integer =>
      cases value : Integer.read? t.text.toList with
      | some n =>
        refine .take (.nothing ⟨_, .integer kind value⟩ fun _ _ => rfl) (by rw [kind]; decide)
          fun ts' => ?_
        simp only [pass_factor_cons, kind, value]
      | none =>
        refine .refused ⟨.badInteger t.text, some t.span⟩ viable rfl fun ts' => ?_
        simp only [pass_factor_cons, kind, value]
    | boolean =>
      refine .take (.nothing ⟨_, .boolean kind⟩ fun _ _ => rfl) (by rw [kind]; decide)
        fun ts' => ?_
      simp only [pass_factor_cons, kind]
    | identifier =>
      refine .take (goes_indexed .indexEnd deeper ⟨_, .named kind⟩ ?_) (by rw [kind]; decide)
        fun ts' => ?_
      · rintro opening xs close opens ⟨e, phrase⟩ closes
        exact ⟨_, .element kind opens phrase closes⟩
      · simp only [pass_factor_cons, kind]
    | leftParen =>
      refine .take ((inner ts (Nat.lt_succ_self _)).closedBy .groupEnd ?_) (by rw [kind]; decide)
        fun ts' => ?_
      · rintro xs close ⟨e, phrase⟩ closes
        exact ⟨_, .group kind phrase closes⟩
      · simp only [pass_factor_cons, kind]
    | leftBracket =>
      refine .refused ⟨.strayVector, some t.span⟩ viable rfl fun ts' => ?_
      simp only [pass_factor_cons, kind]
    | _ =>
      refine .refused ⟨.noExpression (some t.toLexeme), some t.span⟩ viable rfl fun ts' => ?_
      simp only [pass_factor_cons, kind]

theorem goes_term (inner : GoesBelow ts) :
    Goes (pass (arithmetic .term)) (Phrase (Arithmetic .term)) ts := by
  rw [pass_term]
  exact goes_chained
    (fun before operator last => .product before (productOperator?_eq_some_iff.mp operator) last)
    (fun kind => by cases kind <;> decide) .factor
    fun rest le => goes_factor fun rest' lt => inner rest' (Nat.lt_of_lt_of_le lt le)

theorem goes_sum_of_below (inner : GoesBelow ts) :
    Goes (pass (arithmetic .sum)) (Phrase (Arithmetic .sum)) ts := by
  rw [pass_sum]
  exact goes_chained
    (fun before operator last => .sum before (sumOperator?_eq_some_iff.mp operator) last)
    (fun kind => by cases kind <;> decide) .term
    fun rest le => goes_term fun rest' lt => inner rest' (Nat.lt_of_lt_of_le lt le)

theorem goes_sum (ts : List Token) :
    Goes (pass (arithmetic .sum)) (Phrase (Arithmetic .sum)) ts := by
  induction ts using length_induction with
  | step ts ih => exact goes_sum_of_below ih

theorem goes_comparison (ts : List Token) : Goes (pass comparison) (Phrase Comparison) ts := by
  rw [pass_comparison]
  exact goes_chained
    (fun before operator last =>
      .compare before (comparisonOperator?_eq_some_iff.mp operator) last)
    (fun kind => by cases kind <;> decide) .sum fun rest _ => goes_sum rest

theorem goes_target (use : TargetUse) (ts : List Token) :
    Goes (pass (target use)) (Phrase Grammar.Place) ts := by
  rw [pass_target]
  refine .opening (.targetName use) ?_ fun x kind => ⟨[], _, .whole kind⟩
  rintro t rest - kind
  refine goes_indexed (.targetIndexEnd use) (fun rest' _ => goes_sum rest') ⟨_, .whole kind⟩ ?_
  rintro opening xs close opens ⟨e, phrase⟩ closes
  exact ⟨_, .element kind opens phrase closes⟩

theorem goes_commaList (ts : List Token) : Goes (pass commaList) (Phrase Elements) ts := by
  induction ts using length_induction with
  | step ts ih =>
    rw [pass_commaList]
    have alone (xs : List Lexeme) (phrase : Phrase (Arithmetic .sum) xs) :
        Phrase Elements (xs ++ []) := by
      obtain ⟨e, phrase⟩ := phrase
      rw [List.append_nil]
      exact ⟨_, .one phrase⟩
    refine (goes_sum ts).andThen (fun us rest split phrase => ?_) fun xs phrase =>
      ⟨[], alone xs phrase⟩
    refine .branch (by decide) ?_ (.nothing (alone _ phrase) fun _ _ => rfl)
    rintro comma rest rfl separates
    have shorter : rest.length < ts.length := by
      rw [split, List.length_append, List.length_cons]
      omega
    refine (ih rest shorter).mono ?_
    rintro ys ⟨es, others⟩
    obtain ⟨e, phrase⟩ := phrase
    exact ⟨_, .more phrase separates others⟩

theorem goes_rhs (ts : List Token) : Goes (pass rhs) (Phrase Stored) ts := by
  rw [pass_rhs]
  refine .branch (by decide) ?_ ((goes_sum ts).mono ?_)
  · rintro opening rest rfl opens
    refine .branch (by decide) ?_ ((goes_commaList rest).closedBy .vectorEnd ?_)
    · rintro close rest rfl closes
      exact .nothing ⟨_, .emptyVector opens closes⟩ fun _ _ => rfl
    · rintro xs close ⟨es, inner⟩ closes
      exact ⟨_, .vector opens inner closes⟩
  · rintro xs ⟨e, phrase⟩
    exact ⟨_, .scalar phrase⟩

end Arithmetic

section Statement

variable {ts : List Token}

theorem exists_rhs : ∃ xs, Phrase Stored xs := by
  obtain ⟨xs, e, phrase⟩ := exists_arithmetic .sum
  exact ⟨xs, _, .scalar phrase⟩

theorem exists_statement : ∃ xs, Phrase Statement xs :=
  ⟨[⟨.tag, "t"⟩, ⟨.empty, ""⟩], _, .invoke rfl rfl⟩

theorem exists_block : ∃ xs, Phrase Grammar.Block xs :=
  ⟨[⟨.leftBrace, ""⟩, ⟨.rightBrace, ""⟩], _, .braces rfl .nil rfl⟩

theorem goes_assignment (ts : List Token) : Goes (pass assignment) (Phrase Statement) ts := by
  rw [pass_assignment]
  have whole {xs ys : List Lexeme} {sign : Lexeme} (left : Phrase Grammar.Place xs)
      (kind : sign.kind = .equal) (right : Phrase Stored ys) :
      Phrase Statement (xs ++ sign :: ys) := by
    obtain ⟨target, left⟩ := left
    obtain ⟨value, right⟩ := right
    exact ⟨_, .assign left kind right⟩
  obtain ⟨zs, value⟩ := exists_rhs
  refine (goes_target .assignment ts).andThen (fun us rest _ left => ?_) fun xs left =>
    ⟨⟨.equal, "="⟩ :: zs, whole left rfl value⟩
  refine .opening .assignmentSign (fun t rest' _ kind => ?_) fun x kind =>
    ⟨zs, whole left kind value⟩
  exact (goes_rhs rest').mono fun ys => whole left kind

theorem goes_exchange {word : Lexeme} (kind : word.kind = .swapWord) (ts : List Token) :
    Goes (pass (target .swap) >=> pass (target .swap)) (fun ys => Phrase Statement (word :: ys))
      ts := by
  refine (goes_target .swap ts).append (fun us rest _ _ => goes_target .swap rest) ?_
    ⟨[⟨.identifier, "x"⟩], _, .whole rfl⟩
  rintro xs ys ⟨left, first⟩ ⟨right, second⟩
  exact ⟨_, .swap kind first second⟩

def StatesBelow (ts : List Token) : Prop :=
  ∀ rest, rest.length < ts.length → Goes (pass statement) (Phrase Statement) rest

theorem goes_many {stops : Kind → Bool} (ts : List Token)
    (item : ∀ rest, rest.length ≤ ts.length → Goes (pass statement) (Phrase Statement) rest) :
    Goes (manyPass stops) (Phrase Statements) ts := by
  induction ts using length_induction with
  | step ts ih =>
    cases ts with
    | nil => exact .finished ⟨_, .nil⟩ manyPass_nil
    | cons t ts =>
      by_cases stop : stops t.kind
      · exact .stopped ⟨_, .nil⟩ fun ts' => by rw [manyPass_cons, if_pos stop]
      · have goes : Goes (pass statement >=> manyPass stops) (Phrase Statements) (t :: ts) := by
          refine (item _ (Nat.le_refl _)).append (K := Phrase Statements)
            (fun us rest split phrase => ?_) ?_ ⟨[], _, .nil⟩
          · obtain ⟨s, phrase⟩ := phrase
            obtain ⟨x, xs, eq, -⟩ := head_of_statement phrase
            have shorter := length_lt_of_split split eq
            exact ih rest shorter fun rest' le =>
              item rest' (Nat.le_trans le (Nat.le_of_lt shorter))
          · rintro xs ys ⟨s, first⟩ ⟨body, others⟩
            exact ⟨_, .cons first others⟩
        exact goes.congr_cons fun ts' => by rw [manyPass_cons, if_neg stop]

theorem goes_block (owner : BlockOwner) (item : StatesBelow ts) :
    Goes (blockPass owner) (Phrase Grammar.Block) ts := by
  refine .opening (.blockStart owner) ?_ fun x opens =>
    ⟨[⟨.rightBrace, ""⟩], _, .braces opens .nil rfl⟩
  rintro t rest rfl opens
  have inner : Goes (manyPass (· == .rightBrace)) (Phrase Statements) rest :=
    goes_many rest fun rest' le => item rest' (Nat.lt_succ_of_le le)
  refine inner.closedBy (.blockEnd owner) ?_
  rintro xs close ⟨body, phrase⟩ closes
  exact ⟨_, .braces opens phrase closes⟩

theorem goes_bodies {word : Lexeme} {xs : List Lexeme} {condition : Expr}
    (kind : word.kind = .ifWord) (test : Comparison xs condition) (item : StatesBelow ts) :
    Goes (blockPass .ifWord >=> branch .elseWord (blockPass .elseWord) .ok)
      (fun ys => Phrase Statement (word :: (xs ++ ys))) ts := by
  have alone (ys : List Lexeme) (block : Phrase Grammar.Block ys) :
      Phrase Statement (word :: (xs ++ (ys ++ []))) := by
    obtain ⟨body, block⟩ := block
    rw [List.append_nil]
    exact ⟨_, .ifThen kind test block⟩
  refine (goes_block .ifWord item).andThen (fun us rest split block => ?_) fun ys block =>
    ⟨[], alone ys block⟩
  refine .branch (by decide) ?_ (.nothing (alone _ block) fun _ _ => rfl)
  rintro otherwise rest rfl kind'
  have item' : StatesBelow rest := fun rest' lt => item rest' (by
    rw [split, List.length_append, List.length_cons]
    omega)
  refine (goes_block .elseWord item').mono ?_
  rintro zs ⟨other, block'⟩
  obtain ⟨body, block⟩ := block
  exact ⟨_, .ifElse kind test block kind' block'⟩

theorem goes_statement_of_below (item : StatesBelow ts) :
    Goes (pass statement) (Phrase Statement) ts := by
  cases ts with
  | nil => exact .short ⟨.noStatement none, none⟩ exists_statement rfl pass_statement_nil
  | cons t ts =>
    have whole : StatesBelow ts := fun rest lt => item rest (Nat.lt_succ_of_lt lt)
    have below {us rest : List Token} (split : ts = us ++ rest) : StatesBelow rest :=
      fun rest' lt => whole rest' (by
        rw [split, List.length_append]
        omega)
    cases kind : t.kind with
    | identifier =>
      refine (goes_assignment (t :: ts)).congr_cons fun ts' => ?_
      simp only [pass_statement_cons, kind]
    | tag =>
      have named : Goes (branch .empty .ok (pass statement))
          (fun ys => Phrase Statement (t.toLexeme :: ys)) ts := by
        refine .branch (by decide) ?_ ((item ts (Nat.lt_succ_self _)).mono ?_)
        · rintro alone rest rfl ends
          exact .nothing ⟨_, .invoke kind ends⟩ fun _ _ => rfl
        · rintro ys ⟨body, declared⟩
          exact ⟨_, .declare kind declared⟩
      refine named.take (by rw [kind]; decide) fun ts' => ?_
      simp only [pass_statement_cons, kind]
    | swapWord =>
      refine (goes_exchange kind ts).take (by rw [kind]; decide) fun ts' => ?_
      simp only [pass_statement_cons, kind]
    | ifWord =>
      have tested : Goes (pass comparison >=>
          (blockPass .ifWord >=> branch .elseWord (blockPass .elseWord) .ok))
          (fun ys => Phrase Statement (t.toLexeme :: ys)) ts := by
        refine (goes_comparison ts).andThen (fun us rest split test => ?_) ?_
        · obtain ⟨condition, test⟩ := test
          exact goes_bodies kind test (below split)
        · rintro xs ⟨condition, test⟩
          obtain ⟨ys, body, block⟩ := exists_block
          exact ⟨ys, _, .ifThen kind test block⟩
      refine tested.take (by rw [kind]; decide) fun ts' => ?_
      simp only [pass_statement_cons, kind]
    | whileWord =>
      have tested : Goes (pass comparison >=> blockPass .whileWord)
          (fun ys => Phrase Statement (t.toLexeme :: ys)) ts := by
        refine (goes_comparison ts).append
          (fun us rest split _ => goes_block .whileWord (below split)) ?_ exists_block
        rintro xs ys ⟨condition, test⟩ ⟨body, block⟩
        exact ⟨_, .loop kind test block⟩
      refine tested.take (by rw [kind]; decide) fun ts' => ?_
      simp only [pass_statement_cons, kind]
    | printWord =>
      have printed : Goes (pass comparison) (fun ys => Phrase Statement (t.toLexeme :: ys)) ts := by
        refine (goes_comparison ts).mono ?_
        rintro xs ⟨e, printed⟩
        exact ⟨_, .print kind printed⟩
      refine printed.take (by rw [kind]; decide) fun ts' => ?_
      simp only [pass_statement_cons, kind]
    | _ =>
      refine .refused ⟨.noStatement (some t.toLexeme), some t.span⟩ exists_statement rfl
        fun ts' => ?_
      simp only [pass_statement_cons, kind]

theorem goes_statement (ts : List Token) : Goes (pass statement) (Phrase Statement) ts := by
  induction ts using length_induction with
  | step ts ih => exact goes_statement_of_below ih

theorem goes_statements {stops : Kind → Bool} (ts : List Token) :
    Goes (manyPass stops) (Phrase Statements) ts :=
  goes_many ts fun rest _ => goes_statement rest

end Statement

end TagScript.Reading
