import TagScript.Proofs.Reading.Grammar
import TagScript.Reading.Program

/-! What is read is derived: when tokens are read as a construct, the tokens
that it took are a phrase of the grammar, and its tree is the tree of the phrase. -/
namespace TagScript.Reading

open Grammar Token

theorem result_bind_eq_ok_iff {α β : Type} {x : Attempt α} {f : α → Attempt β} {b : β} :
    (x >>= f).result = .ok b ↔ ∃ a, x.result = .ok a ∧ (f a).result = .ok b := by
  rw [Attempt.result_bind]
  cases x.result with
  | error e => simp [Except.bind]
  | ok a => simp [Except.bind]

theorem productOperator?_eq_some_iff {kind : Kind} {op : BinaryOp} :
    productOperator? kind = some op ↔ (kind, op) ∈ productSigns := by
  cases kind <;> cases op <;> decide

theorem sumOperator?_eq_some_iff {kind : Kind} {op : BinaryOp} :
    sumOperator? kind = some op ↔ (kind, op) ∈ sumSigns := by
  cases kind <;> cases op <;> decide

theorem comparisonOperator?_eq_some_iff {kind : Kind} {op : BinaryOp} :
    comparisonOperator? kind = some op ↔ (kind, op) ∈ comparisonSigns := by
  cases kind <;> cases op <;> decide

theorem expect_eq_ok {expected : Expected} {ts : List Token} {p : Parsed Token ts.length}
    (h : (expect expected ts).result = .ok p) :
    ts = p.value :: p.rest ∧ p.value.kind = expected.kind := by
  cases ts with
  | nil => cases h
  | cons t rest =>
    by_cases kind : t.kind = expected.kind
    · simp only [expect, if_pos kind] at h
      cases h
      exact ⟨rfl, kind⟩
    · simp only [expect, if_neg kind] at h
      cases h

theorem accept?_eq_some {kind : Kind} {ts : List Token} {p : Parsed Token ts.length}
    (h : accept? kind ts = some p) : ts = p.value :: p.rest ∧ p.value.kind = kind := by
  cases ts with
  | nil => cases h
  | cons t rest =>
    by_cases kind_eq : t.kind = kind
    · simp only [accept?, if_pos kind_eq] at h
      cases h
      exact ⟨rfl, kind_eq⟩
    · simp only [accept?, if_neg kind_eq] at h
      cases h

/-- The tokens before `rest` are a phrase. -/
def Took (Phrase : List Lexeme → Prop) (ts rest : List Token) : Prop :=
  ∃ us, ts = us ++ rest ∧ Phrase (lexemes us)

namespace Took

variable {P Q R : List Lexeme → Prop} {ts mid rest : List Token}

theorem nothing (h : P []) : Took P ts ts :=
  ⟨[], rfl, h⟩

theorem append (h : Took P ts mid) (h' : Took Q mid rest)
    (join : ∀ {xs ys}, P xs → Q ys → R (xs ++ ys)) : Took R ts rest := by
  obtain ⟨us, rfl, phrase⟩ := h
  obtain ⟨vs, rfl, phrase'⟩ := h'
  refine ⟨us ++ vs, (List.append_assoc us vs rest).symm, ?_⟩
  rw [lexemes, List.map_append]
  exact join phrase phrase'

theorem cons {t : Token} (h : ts = t :: mid) (h' : Took Q mid rest)
    (join : ∀ {ys}, Q ys → R (t.toLexeme :: ys)) : Took R ts rest := by
  obtain ⟨us, rfl, phrase⟩ := h'
  exact ⟨t :: us, h, join phrase⟩

theorem single {t : Token} (h : ts = t :: rest) (phrase : P [t.toLexeme]) : Took P ts rest :=
  ⟨[t], h, phrase⟩

theorem separated {t : Token} (h : Took P ts (t :: mid)) (h' : Took Q mid rest)
    (join : ∀ {xs ys}, P xs → Q ys → R (xs ++ t.toLexeme :: ys)) : Took R ts rest := by
  obtain ⟨us, rfl, phrase⟩ := h
  obtain ⟨vs, rfl, phrase'⟩ := h'
  refine ⟨us ++ t :: vs, (List.append_assoc us (t :: vs) rest).symm, ?_⟩
  rw [lexemes, List.map_append, List.map_cons]
  exact join phrase phrase'

theorem enclosed {opening close : Token} {after : List Token} (opens : ts = opening :: mid)
    (inner : Took P mid after) (closes : after = close :: rest)
    (join : ∀ {xs}, P xs → R (opening.toLexeme :: (xs ++ [close.toLexeme]))) :
    Took R ts rest :=
  cons opens (append inner (single (P := (· = [close.toLexeme])) closes rfl)
    fun phrase close_eq => close_eq ▸ join phrase) id

end Took

/-- A chain takes operators and operands, and folds them into what stands before. -/
theorem chain_took {operator? : Kind → Option BinaryOp} {bound : Nat}
    {operand : (ts : List Token) → ts.length < bound → Attempt (Parsed Expr ts.length)}
    {Whole Operand : List Lexeme → Expr → Prop}
    (operand_took : ∀ ts h p, (operand ts h).result = .ok p →
      Took (Operand · p.value.erase) ts p.rest)
    (fold : ∀ {xs ys sign left right op}, Whole xs left → operator? sign.kind = some op →
      Operand ys right → Whole (xs ++ sign :: ys) (.binary left op right .nowhere))
    {left : Expr} {before ts : List Token} (took : Took (Whole · left.erase) before ts)
    {h : ts.length < bound} {p : Parsed Expr bound}
    (read : (chain operator? operand left ts h).result = .ok p) :
    Took (Whole · p.value.erase) before p.rest := by
  fun_induction chain operator? operand left ts h with
  | case1 left h =>
    cases read
    exact took
  | case2 left t ts h stop =>
    cases read
    exact took
  | case3 left t ts h op operator opens _ ih =>
    obtain ⟨right, operand_read, further⟩ := result_bind_eq_ok_iff.mp read
    refine ih right ?_ further
    exact took.separated (operand_took _ _ _ operand_read)
      fun whole last => fold whole operator last
  | case4 => cases read

theorem arithmetic_took (level : Level) (ts : List Token) {p : Parsed Expr ts.length}
    (read : (arithmetic level ts).result = .ok p) :
    Took (Arithmetic level · p.value.erase) ts p.rest := by
  induction level, ts using arithmetic.induct with
  | case1 ts first_took operand_took =>
    rw [arithmetic] at read
    obtain ⟨-, -, read⟩ := result_bind_eq_ok_iff.mp read
    obtain ⟨first, first_read, further⟩ := result_bind_eq_ok_iff.mp read
    obtain ⟨us, ts_eq, phrase⟩ := first_took first_read
    exact chain_took (fun rest h q => operand_took rest h)
      (fun before sign last => .sum before (sumOperator?_eq_some_iff.mp sign) last)
      ⟨us, ts_eq, .term phrase⟩ further
  | case2 ts first_took operand_took =>
    rw [arithmetic] at read
    obtain ⟨-, -, read⟩ := result_bind_eq_ok_iff.mp read
    obtain ⟨first, first_read, further⟩ := result_bind_eq_ok_iff.mp read
    obtain ⟨us, ts_eq, phrase⟩ := first_took first_read
    exact chain_took (fun rest h q => operand_took rest h)
      (fun before sign last => .product before (productOperator?_eq_some_iff.mp sign) last)
      ⟨us, ts_eq, .factor phrase⟩ further
  | case3 =>
    rw [arithmetic] at read
    cases read
  | case4 t ts index_took group_took =>
    rw [arithmetic] at read
    obtain ⟨-, -, read⟩ := result_bind_eq_ok_iff.mp read
    split at read
    case _ kind =>
      split at read
      case _ n value =>
        cases read
        exact Took.single rfl (.integer kind value)
      case _ => cases read
    case _ kind =>
      cases read
      exact Took.single rfl (.boolean kind)
    case _ kind =>
      split at read
      case _ =>
        cases read
        exact Took.single rfl (.named kind)
      case _ opening accepted =>
        obtain ⟨index, index_read, read⟩ := result_bind_eq_ok_iff.mp read
        obtain ⟨close, close_read, read⟩ := result_bind_eq_ok_iff.mp read
        obtain ⟨opens, opening_kind⟩ := accept?_eq_some accepted
        obtain ⟨closes, close_kind⟩ := expect_eq_ok close_read
        cases read
        refine Took.cons rfl (Took.enclosed opens (index_took opening index_read) closes
          (R := fun ys => Arithmetic .factor (t.toLexeme :: ys)
            (.element t.text index.value.erase .nowhere)) ?_) id
        intro xs inner
        exact .element kind opening_kind inner close_kind
    case _ kind =>
      obtain ⟨inner, inner_read, read⟩ := result_bind_eq_ok_iff.mp read
      obtain ⟨close, close_read, read⟩ := result_bind_eq_ok_iff.mp read
      obtain ⟨closes, close_kind⟩ := expect_eq_ok close_read
      cases read
      refine Took.enclosed rfl (group_took inner_read) closes ?_
      intro xs phrase
      rw [Expr.erase_withSpan]
      exact .group kind phrase close_kind
    case _ => cases read
    case _ => cases read

theorem comparison_took {ts : List Token} {p : Parsed Expr ts.length}
    (read : (comparison ts).result = .ok p) : Took (Comparison · p.value.erase) ts p.rest := by
  obtain ⟨-, -, read⟩ := result_bind_eq_ok_iff.mp read
  obtain ⟨first, first_read, further⟩ := result_bind_eq_ok_iff.mp read
  obtain ⟨us, ts_eq, phrase⟩ := arithmetic_took .sum ts first_read
  exact chain_took (fun rest _ _ => arithmetic_took .sum rest)
    (fun before sign last => .compare before (comparisonOperator?_eq_some_iff.mp sign) last)
    ⟨us, ts_eq, .sum phrase⟩ further

theorem target_took {use : TargetUse} {ts : List Token} {p : Parsed Target ts.length}
    (read : (target use ts).result = .ok p) : Took (Grammar.Place · p.value.erase) ts p.rest := by
  obtain ⟨name, name_read, read⟩ := result_bind_eq_ok_iff.mp read
  obtain ⟨ts_eq, kind⟩ := expect_eq_ok name_read
  split at read
  case _ =>
    cases read
    exact Took.single ts_eq (.whole kind)
  case _ opening accepted =>
    obtain ⟨index, index_read, read⟩ := result_bind_eq_ok_iff.mp read
    obtain ⟨close, close_read, read⟩ := result_bind_eq_ok_iff.mp read
    obtain ⟨opens, opening_kind⟩ := accept?_eq_some accepted
    obtain ⟨closes, close_kind⟩ := expect_eq_ok close_read
    cases read
    refine Took.cons ts_eq (Took.enclosed opens (arithmetic_took .sum _ index_read) closes
      (R := fun ys => Grammar.Place (name.value.toLexeme :: ys)
        ⟨name.value.text, some index.value.erase, .nowhere⟩) ?_) id
    intro xs inner
    exact .element kind opening_kind inner close_kind

theorem commaList_took (ts : List Token) {p : Parsed (List Expr) ts.length}
    (read : (commaList ts).result = .ok p) :
    Took (Elements · (p.value.map Expr.erase)) ts p.rest := by
  induction ts using commaList.induct with
  | case1 ts others_took =>
    rw [commaList] at read
    obtain ⟨first, first_read, read⟩ := result_bind_eq_ok_iff.mp read
    have first_took := arithmetic_took .sum ts first_read
    split at read
    case _ =>
      cases read
      obtain ⟨us, ts_eq, phrase⟩ := first_took
      exact ⟨us, ts_eq, .one phrase⟩
    case _ comma accepted =>
      obtain ⟨others, others_read, read⟩ := result_bind_eq_ok_iff.mp read
      obtain ⟨first_rest, comma_kind⟩ := accept?_eq_some accepted
      cases read
      rw [first_rest] at first_took
      exact first_took.separated (others_took first comma others_read)
        fun phrase others => .more phrase comma_kind others

theorem vector_took {opening : Token} {ts : List Token} {p : Parsed Rhs ts.length}
    (opens : opening.kind = .leftBracket) (read : (vector opening ts).result = .ok p) :
    Took (Stored · p.value.erase) (opening :: ts) p.rest := by
  obtain ⟨-, -, read⟩ := result_bind_eq_ok_iff.mp read
  split at read
  case _ close accepted =>
    obtain ⟨ts_eq, close_kind⟩ := accept?_eq_some accepted
    cases read
    exact Took.cons rfl (Took.single (P := (· = [close.value.toLexeme])) ts_eq rfl)
      fun closed => closed ▸ .emptyVector opens close_kind
  case _ =>
    obtain ⟨elements, elements_read, read⟩ := result_bind_eq_ok_iff.mp read
    obtain ⟨close, close_read, read⟩ := result_bind_eq_ok_iff.mp read
    obtain ⟨closes, close_kind⟩ := expect_eq_ok close_read
    cases read
    exact Took.enclosed rfl (commaList_took ts elements_read) closes
      fun inner => .vector opens inner close_kind

theorem rhs_took {ts : List Token} {p : Parsed Rhs ts.length}
    (read : (rhs ts).result = .ok p) : Took (Stored · p.value.erase) ts p.rest := by
  unfold rhs at read
  split at read
  case _ opening accepted =>
    obtain ⟨elements, elements_read, read⟩ := result_bind_eq_ok_iff.mp read
    obtain ⟨ts_eq, kind⟩ := accept?_eq_some accepted
    cases read
    obtain ⟨us, eq, phrase⟩ := vector_took kind elements_read
    exact ⟨us, ts_eq.trans eq, phrase⟩
  case _ =>
    obtain ⟨value, value_read, read⟩ := result_bind_eq_ok_iff.mp read
    cases read
    obtain ⟨us, ts_eq, phrase⟩ := arithmetic_took .sum ts value_read
    exact ⟨us, ts_eq, .scalar phrase⟩

theorem assignment_took {ts : List Token} {p : Parsed Stmt ts.length}
    (read : (assignment ts).result = .ok p) : Took (Statement · p.value.erase) ts p.rest := by
  obtain ⟨-, -, read⟩ := result_bind_eq_ok_iff.mp read
  obtain ⟨place, place_read, read⟩ := result_bind_eq_ok_iff.mp read
  obtain ⟨sign, sign_read, read⟩ := result_bind_eq_ok_iff.mp read
  obtain ⟨value, value_read, read⟩ := result_bind_eq_ok_iff.mp read
  obtain ⟨place_rest, kind⟩ := expect_eq_ok sign_read
  have place_took := target_took place_read
  rw [place_rest] at place_took
  cases read
  exact place_took.separated (rhs_took value_read) fun left right => .assign left kind right

theorem exchange_took {word : Token} {ts : List Token} {p : Parsed Stmt ts.length}
    (kind : word.kind = .swapWord) (read : (exchange word ts).result = .ok p) :
    Took (Statement · p.value.erase) (word :: ts) p.rest := by
  obtain ⟨-, -, read⟩ := result_bind_eq_ok_iff.mp read
  obtain ⟨left, left_read, read⟩ := result_bind_eq_ok_iff.mp read
  obtain ⟨right, right_read, read⟩ := result_bind_eq_ok_iff.mp read
  cases read
  obtain ⟨us, ts_eq, first⟩ := target_took left_read
  obtain ⟨vs, rest_eq, second⟩ := target_took right_read
  refine ⟨word :: (us ++ vs), ?_, ?_⟩
  · rw [List.cons_append, List.append_assoc, ← rest_eq, ← ts_eq]
  · rw [lexemes, List.map_cons, List.map_append]
    exact .swap kind first second

theorem output_took {word : Token} {ts : List Token} {p : Parsed Stmt ts.length}
    (kind : word.kind = .printWord) (read : (output word ts).result = .ok p) :
    Took (Statement · p.value.erase) (word :: ts) p.rest := by
  obtain ⟨-, -, read⟩ := result_bind_eq_ok_iff.mp read
  obtain ⟨value, value_read, read⟩ := result_bind_eq_ok_iff.mp read
  cases read
  exact Took.cons rfl (comparison_took value_read) fun printed => .print kind printed

theorem many_took {stops : Kind → Bool} {bound : Nat}
    {item : (ts : List Token) → ts.length < bound → Attempt (Parsed Stmt ts.length)}
    (item_took : ∀ ts h p, (item ts h).result = .ok p →
      Took (Statement · p.value.erase) ts p.rest)
    {ts : List Token} {h : ts.length < bound} {p : Parsed (List Stmt) bound}
    (read : (many stops item ts h).result = .ok p) :
    Took (Statements · (Stmt.eraseAll p.value)) ts p.rest ∧
      ∀ t ∈ p.rest.head?, stops t.kind = true := by
  fun_induction many stops item ts h generalizing p with
  | case1 =>
    cases read
    exact ⟨Took.nothing .nil, nofun⟩
  | case2 t ts h stop =>
    cases read
    refine ⟨Took.nothing .nil, ?_⟩
    rintro _ ⟨⟩
    exact stop
  | case3 t ts h _ _ ih =>
    obtain ⟨first, first_read, read⟩ := result_bind_eq_ok_iff.mp read
    obtain ⟨others, others_read, read⟩ := result_bind_eq_ok_iff.mp read
    cases read
    obtain ⟨others_took, stop⟩ := ih first others_read
    exact ⟨(item_took _ _ _ first_read).append others_took fun phrase others =>
      .cons phrase others, stop⟩

theorem block_took {owner : BlockOwner} {bound : Nat}
    {item : (ts : List Token) → ts.length < bound → Attempt (Parsed Stmt ts.length)}
    (item_took : ∀ ts h p, (item ts h).result = .ok p →
      Took (Statement · p.value.erase) ts p.rest)
    {ts : List Token} {h : ts.length < bound} {p : Parsed Block bound}
    (read : (block owner item ts h).result = .ok p) :
    Took (Grammar.Block · (Stmt.eraseAll p.value.body)) ts p.rest := by
  obtain ⟨opening, opening_read, read⟩ := result_bind_eq_ok_iff.mp read
  obtain ⟨body, body_read, read⟩ := result_bind_eq_ok_iff.mp read
  obtain ⟨close, close_read, read⟩ := result_bind_eq_ok_iff.mp read
  obtain ⟨opens, opening_kind⟩ := expect_eq_ok opening_read
  obtain ⟨closes, close_kind⟩ := expect_eq_ok close_read
  cases read
  exact Took.enclosed opens (many_took item_took body_read).1 closes
    fun inner => .braces opening_kind inner close_kind

theorem statement_took (ts : List Token) {p : Parsed Stmt ts.length}
    (read : (statement ts).result = .ok p) : Took (Statement · p.value.erase) ts p.rest := by
  induction ts using statement.induct with
  | case1 =>
    rw [statement] at read
    cases read
  | case2 t ts body_took item_took =>
    have item_took' : ∀ rest (h : rest.length < ts.length) q, (statement rest).result = .ok q →
        Took (Statement · q.value.erase) rest q.rest := fun rest h q => item_took rest h
    rw [statement] at read
    obtain ⟨-, -, read⟩ := result_bind_eq_ok_iff.mp read
    split at read
    case _ => exact assignment_took read
    case _ kind =>
      obtain ⟨-, -, read⟩ := result_bind_eq_ok_iff.mp read
      split at read
      case _ alone accepted =>
        obtain ⟨ts_eq, ends⟩ := accept?_eq_some accepted
        cases read
        exact Took.cons rfl (Took.single (P := (· = [alone.value.toLexeme])) ts_eq rfl)
          fun closed => closed ▸ .invoke kind ends
      case _ =>
        obtain ⟨body, body_read, read⟩ := result_bind_eq_ok_iff.mp read
        obtain ⟨-, -, read⟩ := result_bind_eq_ok_iff.mp read
        cases read
        exact Took.cons rfl (body_took body_read) fun declared => .declare kind declared
    case _ kind =>
      obtain ⟨swap, swap_read, read⟩ := result_bind_eq_ok_iff.mp read
      cases read
      exact exchange_took kind swap_read
    case _ kind =>
      obtain ⟨-, -, read⟩ := result_bind_eq_ok_iff.mp read
      obtain ⟨condition, condition_read, read⟩ := result_bind_eq_ok_iff.mp read
      obtain ⟨body, body_read, read⟩ := result_bind_eq_ok_iff.mp read
      have test_took := comparison_took condition_read
      have body_took := block_took item_took' body_read
      split at read
      case _ =>
        cases read
        exact Took.cons rfl
          (test_took.append (R := fun ys => Statement (t.toLexeme :: ys)
            (.ifThen condition.value.erase (Stmt.eraseAll body.value.body) .nowhere))
            body_took fun test block => .ifThen kind test block) id
      case _ word accepted =>
        obtain ⟨other, other_read, read⟩ := result_bind_eq_ok_iff.mp read
        obtain ⟨body_rest, word_kind⟩ := accept?_eq_some accepted
        cases read
        rw [body_rest] at body_took
        obtain ⟨us, ts_eq, test⟩ := test_took
        obtain ⟨vs, rest_eq, block⟩ := body_took
        obtain ⟨ws, last_eq, block'⟩ := block_took item_took' other_read
        have whole_eq : ts = us ++ (vs ++ word.value :: (ws ++ other.rest)) := by
          rw [← last_eq, ← rest_eq]
          exact ts_eq
        refine ⟨t :: (us ++ (vs ++ word.value :: ws)), (congrArg (t :: ·) whole_eq).trans ?_, ?_⟩
        · simp only [List.cons_append, List.append_assoc]
        · simp only [lexemes, List.map_cons, List.map_append]
          exact .ifElse kind test block word_kind block'
    case _ kind =>
      obtain ⟨-, -, read⟩ := result_bind_eq_ok_iff.mp read
      obtain ⟨condition, condition_read, read⟩ := result_bind_eq_ok_iff.mp read
      obtain ⟨body, body_read, read⟩ := result_bind_eq_ok_iff.mp read
      cases read
      exact Took.cons rfl
        ((comparison_took condition_read).append (R := fun ys => Statement (t.toLexeme :: ys)
          (.loop condition.value.erase (Stmt.eraseAll body.value.body) .nowhere))
          (block_took item_took' body_read) fun test block => .loop kind test block) id
    case _ kind =>
      obtain ⟨print, print_read, read⟩ := result_bind_eq_ok_iff.mp read
      cases read
      exact output_took kind print_read
    case _ => cases read

theorem statements_of_read {ts : List Token} {body : List Stmt}
    (read : (statementList ts).result = .ok body) :
    Statements (lexemes ts) (Stmt.eraseAll body) := by
  obtain ⟨all, all_read, read⟩ := result_bind_eq_ok_iff.mp read
  obtain ⟨⟨us, ts_eq, phrase⟩, stop⟩ := many_took (fun rest _ _ => statement_took rest) all_read
  cases read
  cases rest_eq : all.rest with
  | nil =>
    rw [rest_eq, List.append_nil] at ts_eq
    exact ts_eq ▸ phrase
  | cons t rest =>
    rw [rest_eq] at stop
    cases stop t rfl

theorem comparison_of_read {ts : List Token} {e : Expr}
    (read : (wholeComparison ts).result = .ok e) : Comparison (lexemes ts) e.erase := by
  obtain ⟨whole, whole_read, read⟩ := result_bind_eq_ok_iff.mp read
  obtain ⟨us, ts_eq, phrase⟩ := comparison_took whole_read
  split at read
  case _ rest_eq =>
    cases read
    rw [rest_eq, List.append_nil] at ts_eq
    exact ts_eq ▸ phrase
  case _ => cases read

end TagScript.Reading
