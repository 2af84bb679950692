import TagScript.Proofs.Reading.Grammar
import TagScript.Reading.Statement

/-! The grammar with spans. The rules are those of the grammar, over tokens in place of
lexemes, and each tree says where its nodes lie: a token on its own span, anything larger
from its first part to its last. -/
namespace TagScript.Located

open Reading (Level)
open Grammar (productSigns sumSigns comparisonSigns)

inductive Arithmetic : Level → List Token → Expr → Prop
  | integer {t : Token} {n : Int64} (kind : t.kind = .integer)
      (value : Integer.read? t.text.toList = some n) :
      Arithmetic .factor [t] (.integer n t.span)
  | boolean {t : Token} (kind : t.kind = .boolean) :
      Arithmetic .factor [t] (.boolean (t.text = "TRUE") t.span)
  | named {t : Token} (kind : t.kind = .identifier) :
      Arithmetic .factor [t] (.named t.text t.span)
  | element {t opening close : Token} {us : List Token} {index : Expr}
      (kind : t.kind = .identifier) (opens : opening.kind = .leftBracket)
      (inner : Arithmetic .sum us index) (closes : close.kind = .rightBracket) :
      Arithmetic .factor (t :: opening :: (us ++ [close]))
        (.element t.text index (t.span.cover close.span))
  | group {opening close : Token} {us : List Token} {e : Expr}
      (opens : opening.kind = .leftParen) (inner : Arithmetic .sum us e)
      (closes : close.kind = .rightParen) :
      Arithmetic .factor (opening :: (us ++ [close]))
        (e.withSpan (opening.span.cover close.span))
  | factor {us : List Token} {e : Expr} (first : Arithmetic .factor us e) : Arithmetic .term us e
  | product {us vs : List Token} {sign : Token} {left right : Expr} {op : BinaryOp}
      (before : Arithmetic .term us left) (mem : (sign.kind, op) ∈ productSigns)
      (last : Arithmetic .factor vs right) :
      Arithmetic .term (us ++ sign :: vs) (left.combine op right)
  | term {us : List Token} {e : Expr} (first : Arithmetic .term us e) : Arithmetic .sum us e
  | sum {us vs : List Token} {sign : Token} {left right : Expr} {op : BinaryOp}
      (before : Arithmetic .sum us left) (mem : (sign.kind, op) ∈ sumSigns)
      (last : Arithmetic .term vs right) :
      Arithmetic .sum (us ++ sign :: vs) (left.combine op right)

theorem Arithmetic.of_factor {us : List Token} {e : Expr} (h : Arithmetic .factor us e)
    (level : Level) : Arithmetic level us e := by
  cases level with
  | factor => exact h
  | term => exact .factor h
  | sum => exact .term (.factor h)

inductive Comparison : List Token → Expr → Prop
  | sum {us : List Token} {e : Expr} (first : Arithmetic .sum us e) : Comparison us e
  | compare {us vs : List Token} {sign : Token} {left right : Expr} {op : BinaryOp}
      (before : Comparison us left) (mem : (sign.kind, op) ∈ comparisonSigns)
      (last : Arithmetic .sum vs right) :
      Comparison (us ++ sign :: vs) (left.combine op right)

inductive Elements : List Token → List Expr → Prop
  | one {us : List Token} {e : Expr} (first : Arithmetic .sum us e) : Elements us [e]
  | more {us vs : List Token} {comma : Token} {e : Expr} {es : List Expr}
      (first : Arithmetic .sum us e) (separates : comma.kind = .comma) (others : Elements vs es) :
      Elements (us ++ comma :: vs) (e :: es)

inductive Stored : List Token → Rhs → Prop
  | scalar {us : List Token} {e : Expr} (value : Arithmetic .sum us e) : Stored us (.scalar e)
  | emptyVector {opening close : Token} (opens : opening.kind = .leftBracket)
      (closes : close.kind = .rightBracket) :
      Stored [opening, close] (.vector [] (opening.span.cover close.span))
  | vector {opening close : Token} {us : List Token} {es : List Expr}
      (opens : opening.kind = .leftBracket) (inner : Elements us es)
      (closes : close.kind = .rightBracket) :
      Stored (opening :: (us ++ [close])) (.vector es (opening.span.cover close.span))

inductive Place : List Token → Target → Prop
  | whole {t : Token} (kind : t.kind = .identifier) : Place [t] ⟨t.text, none, t.span⟩
  | element {t opening close : Token} {us : List Token} {index : Expr}
      (kind : t.kind = .identifier) (opens : opening.kind = .leftBracket)
      (inner : Arithmetic .sum us index) (closes : close.kind = .rightBracket) :
      Place (t :: opening :: (us ++ [close])) ⟨t.text, some index, t.span.cover close.span⟩

mutual

inductive Statement : List Token → Stmt → Prop
  | assign {us vs : List Token} {sign : Token} {target : Target} {value : Rhs}
      (left : Place us target) (kind : sign.kind = .equal) (right : Stored vs value) :
      Statement (us ++ sign :: vs) (.assign target value (target.span.cover value.span))
  | invoke {t alone : Token} (kind : t.kind = .tag) (ends : alone.kind = .empty) :
      Statement [t, alone] (.invoke t.text t.span)
  | declare {t : Token} {us : List Token} {body : Stmt} (kind : t.kind = .tag)
      (declared : Statement us body) :
      Statement (t :: us) (.declare t.text body (t.span.cover body.span))
  | swap {word : Token} {us vs : List Token} {left right : Target} (kind : word.kind = .swapWord)
      (first : Place us left) (second : Place vs right) :
      Statement (word :: (us ++ vs)) (.swap left right (word.span.cover right.span))
  | ifThen {word : Token} {us vs : List Token} {condition : Expr} {block : Reading.Block}
      (kind : word.kind = .ifWord) (test : Comparison us condition) (body : Block vs block) :
      Statement (word :: (us ++ vs))
        (.ifThen condition block.body (word.span.cover block.close))
  | ifElse {word otherwise : Token} {us vs ws : List Token} {condition : Expr}
      {block block' : Reading.Block} (kind : word.kind = .ifWord) (test : Comparison us condition)
      (body : Block vs block) (kind' : otherwise.kind = .elseWord) (other : Block ws block') :
      Statement (word :: (us ++ (vs ++ otherwise :: ws)))
        (.ifElse condition block.body block'.body (word.span.cover block'.close))
  | loop {word : Token} {us vs : List Token} {condition : Expr} {block : Reading.Block}
      (kind : word.kind = .whileWord) (test : Comparison us condition) (body : Block vs block) :
      Statement (word :: (us ++ vs))
        (.loop condition block.body (word.span.cover block.close))
  | print {word : Token} {us : List Token} {value : Expr} (kind : word.kind = .printWord)
      (printed : Comparison us value) :
      Statement (word :: us) (.print value (word.span.cover value.span))

inductive Block : List Token → Reading.Block → Prop
  | braces {opening close : Token} {us : List Token} {body : List Stmt}
      (opens : opening.kind = .leftBrace) (inner : Statements us body)
      (closes : close.kind = .rightBrace) :
      Block (opening :: (us ++ [close])) ⟨body, close.span⟩

inductive Statements : List Token → List Stmt → Prop
  | nil : Statements [] []
  | cons {us vs : List Token} {s : Stmt} {rest : List Stmt} (first : Statement us s)
      (others : Statements vs rest) : Statements (us ++ vs) (s :: rest)

end

/-! Each phrase of the grammar has a tree with spans on the tokens that it is. -/

section Exists

open Token (lexemes)

variable {us : List Token}

theorem enclosed_of_lexemes {opening close : Lexeme} {xs : List Lexeme}
    (eq : lexemes us = opening :: (xs ++ [close])) :
    ∃ first vs last, us = first :: (vs ++ [last]) ∧ first.toLexeme = opening ∧
      lexemes vs = xs ∧ last.toLexeme = close := by
  obtain ⟨first, us, rfl, first_eq, eq'⟩ := List.map_eq_cons_iff.mp eq
  obtain ⟨vs, us, rfl, vs_eq, eq''⟩ := List.map_eq_append_iff.mp eq'
  obtain ⟨last, rfl, last_eq⟩ := List.map_eq_singleton_iff.mp eq''
  exact ⟨first, vs, last, rfl, first_eq, vs_eq, last_eq⟩

theorem joined_of_lexemes {x : Lexeme} {xs ys : List Lexeme}
    (eq : lexemes us = xs ++ x :: ys) :
    ∃ vs t ws, us = vs ++ t :: ws ∧ lexemes vs = xs ∧ t.toLexeme = x ∧ lexemes ws = ys := by
  obtain ⟨vs, us, rfl, vs_eq, eq'⟩ := List.map_eq_append_iff.mp eq
  obtain ⟨t, ws, rfl, t_eq, ws_eq⟩ := List.map_eq_cons_iff.mp eq'
  exact ⟨vs, t, ws, rfl, vs_eq, t_eq, ws_eq⟩

theorem exists_arithmetic {level : Level} {xs : List Lexeme} {tree : Expr}
    (phrase : Grammar.Arithmetic level xs tree) (eq : lexemes us = xs) :
    ∃ e, Arithmetic level us e ∧ e.erase = tree := by
  induction phrase generalizing us with
  | integer kind value =>
    obtain ⟨t, rfl, rfl⟩ := List.map_eq_singleton_iff.mp eq
    exact ⟨_, .integer kind value, rfl⟩
  | boolean kind =>
    obtain ⟨t, rfl, rfl⟩ := List.map_eq_singleton_iff.mp eq
    exact ⟨_, .boolean kind, rfl⟩
  | named kind =>
    obtain ⟨t, rfl, rfl⟩ := List.map_eq_singleton_iff.mp eq
    exact ⟨_, .named kind, rfl⟩
  | element kind opens _ closes ih =>
    obtain ⟨t, us, rfl, rfl, eq'⟩ := List.map_eq_cons_iff.mp eq
    obtain ⟨opening, vs, close, rfl, rfl, inner_eq, rfl⟩ := enclosed_of_lexemes eq'
    obtain ⟨index, inner, rfl⟩ := ih inner_eq
    exact ⟨_, .element kind opens inner closes, rfl⟩
  | group opens _ closes ih =>
    obtain ⟨opening, vs, close, rfl, rfl, inner_eq, rfl⟩ := enclosed_of_lexemes eq
    obtain ⟨e, inner, rfl⟩ := ih inner_eq
    exact ⟨_, .group opens inner closes, e.erase_withSpan _⟩
  | factor _ ih =>
    obtain ⟨e, first, rfl⟩ := ih eq
    exact ⟨e, .factor first, rfl⟩
  | product _ mem _ ih ih' =>
    obtain ⟨vs, sign, ws, rfl, left_eq, rfl, right_eq⟩ := joined_of_lexemes eq
    obtain ⟨left, before, rfl⟩ := ih left_eq
    obtain ⟨right, last, rfl⟩ := ih' right_eq
    exact ⟨_, .product before mem last, rfl⟩
  | term _ ih =>
    obtain ⟨e, first, rfl⟩ := ih eq
    exact ⟨e, .term first, rfl⟩
  | sum _ mem _ ih ih' =>
    obtain ⟨vs, sign, ws, rfl, left_eq, rfl, right_eq⟩ := joined_of_lexemes eq
    obtain ⟨left, before, rfl⟩ := ih left_eq
    obtain ⟨right, last, rfl⟩ := ih' right_eq
    exact ⟨_, .sum before mem last, rfl⟩

theorem exists_comparison {xs : List Lexeme} {tree : Expr} (phrase : Grammar.Comparison xs tree)
    (eq : lexemes us = xs) : ∃ e, Comparison us e ∧ e.erase = tree := by
  induction phrase generalizing us with
  | sum first =>
    obtain ⟨e, first', rfl⟩ := exists_arithmetic first eq
    exact ⟨e, .sum first', rfl⟩
  | compare _ mem last ih =>
    obtain ⟨vs, sign, ws, rfl, left_eq, rfl, right_eq⟩ := joined_of_lexemes eq
    obtain ⟨left, before, rfl⟩ := ih left_eq
    obtain ⟨right, last', rfl⟩ := exists_arithmetic last right_eq
    exact ⟨_, .compare before mem last', rfl⟩

theorem exists_elements {xs : List Lexeme} {trees : List Expr}
    (phrase : Grammar.Elements xs trees) (eq : lexemes us = xs) :
    ∃ es, Elements us es ∧ es.map Expr.erase = trees := by
  induction phrase generalizing us with
  | one first =>
    obtain ⟨e, first', rfl⟩ := exists_arithmetic first eq
    exact ⟨_, .one first', rfl⟩
  | more first separates _ ih =>
    obtain ⟨vs, comma, ws, rfl, first_eq, rfl, others_eq⟩ := joined_of_lexemes eq
    obtain ⟨e, first', rfl⟩ := exists_arithmetic first first_eq
    obtain ⟨es, others, rfl⟩ := ih others_eq
    exact ⟨_, .more first' separates others, rfl⟩

theorem exists_stored {xs : List Lexeme} {tree : Rhs} (phrase : Grammar.Stored xs tree)
    (eq : lexemes us = xs) : ∃ v, Stored us v ∧ v.erase = tree := by
  cases phrase with
  | scalar value =>
    obtain ⟨e, value', rfl⟩ := exists_arithmetic value eq
    exact ⟨_, .scalar value', rfl⟩
  | emptyVector opens closes =>
    obtain ⟨opening, us, rfl, rfl, eq'⟩ := List.map_eq_cons_iff.mp eq
    obtain ⟨close, rfl, rfl⟩ := List.map_eq_singleton_iff.mp eq'
    exact ⟨_, .emptyVector opens closes, rfl⟩
  | vector opens inner closes =>
    obtain ⟨opening, vs, close, rfl, rfl, inner_eq, rfl⟩ := enclosed_of_lexemes eq
    obtain ⟨es, inner', rfl⟩ := exists_elements inner inner_eq
    exact ⟨_, .vector opens inner' closes, rfl⟩

theorem exists_place {xs : List Lexeme} {tree : Target} (phrase : Grammar.Place xs tree)
    (eq : lexemes us = xs) : ∃ t, Place us t ∧ t.erase = tree := by
  cases phrase with
  | whole kind =>
    obtain ⟨t, rfl, rfl⟩ := List.map_eq_singleton_iff.mp eq
    exact ⟨_, .whole kind, rfl⟩
  | element kind opens inner closes =>
    obtain ⟨t, us, rfl, rfl, eq'⟩ := List.map_eq_cons_iff.mp eq
    obtain ⟨opening, vs, close, rfl, rfl, inner_eq, rfl⟩ := enclosed_of_lexemes eq'
    obtain ⟨index, inner', rfl⟩ := exists_arithmetic inner inner_eq
    exact ⟨_, .element kind opens inner' closes, rfl⟩

mutual

theorem exists_statement {us : List Token} {xs : List Lexeme} {tree : Stmt}
    (phrase : Grammar.Statement xs tree) (eq : lexemes us = xs) :
    ∃ s, Statement us s ∧ s.erase = tree := by
  match phrase with
  | .assign left kind right =>
    obtain ⟨vs, sign, ws, rfl, left_eq, rfl, right_eq⟩ := joined_of_lexemes eq
    obtain ⟨target, left', rfl⟩ := exists_place left left_eq
    obtain ⟨value, right', rfl⟩ := exists_stored right right_eq
    exact ⟨_, .assign left' kind right', rfl⟩
  | .invoke kind ends =>
    obtain ⟨t, us, rfl, rfl, eq'⟩ := List.map_eq_cons_iff.mp eq
    obtain ⟨alone, rfl, rfl⟩ := List.map_eq_singleton_iff.mp eq'
    exact ⟨_, .invoke kind ends, rfl⟩
  | .declare kind declared =>
    obtain ⟨t, us, rfl, rfl, eq'⟩ := List.map_eq_cons_iff.mp eq
    obtain ⟨body, declared', rfl⟩ := exists_statement declared eq'
    exact ⟨_, .declare kind declared', rfl⟩
  | .swap kind first second =>
    obtain ⟨word, us, rfl, rfl, eq'⟩ := List.map_eq_cons_iff.mp eq
    obtain ⟨us, vs, rfl, left_eq, right_eq⟩ := List.map_eq_append_iff.mp eq'
    obtain ⟨left, first', rfl⟩ := exists_place first left_eq
    obtain ⟨right, second', rfl⟩ := exists_place second right_eq
    exact ⟨_, .swap kind first' second', rfl⟩
  | .ifThen kind test body =>
    obtain ⟨word, us, rfl, rfl, eq'⟩ := List.map_eq_cons_iff.mp eq
    obtain ⟨us, vs, rfl, test_eq, body_eq⟩ := List.map_eq_append_iff.mp eq'
    obtain ⟨condition, test', rfl⟩ := exists_comparison test test_eq
    obtain ⟨block, body', rfl⟩ := exists_block body body_eq
    exact ⟨_, .ifThen kind test' body', rfl⟩
  | .ifElse kind test body kind' other =>
    obtain ⟨word, us, rfl, rfl, eq'⟩ := List.map_eq_cons_iff.mp eq
    obtain ⟨us, us', rfl, test_eq, eq''⟩ := List.map_eq_append_iff.mp eq'
    obtain ⟨vs, otherwise, ws, rfl, body_eq, rfl, other_eq⟩ := joined_of_lexemes eq''
    obtain ⟨condition, test', rfl⟩ := exists_comparison test test_eq
    obtain ⟨block, body', rfl⟩ := exists_block body body_eq
    obtain ⟨block', other', rfl⟩ := exists_block other other_eq
    exact ⟨_, .ifElse kind test' body' kind' other', rfl⟩
  | .loop kind test body =>
    obtain ⟨word, us, rfl, rfl, eq'⟩ := List.map_eq_cons_iff.mp eq
    obtain ⟨us, vs, rfl, test_eq, body_eq⟩ := List.map_eq_append_iff.mp eq'
    obtain ⟨condition, test', rfl⟩ := exists_comparison test test_eq
    obtain ⟨block, body', rfl⟩ := exists_block body body_eq
    exact ⟨_, .loop kind test' body', rfl⟩
  | .print kind printed =>
    obtain ⟨word, us, rfl, rfl, eq'⟩ := List.map_eq_cons_iff.mp eq
    obtain ⟨value, printed', rfl⟩ := exists_comparison printed eq'
    exact ⟨_, .print kind printed', rfl⟩

theorem exists_block {us : List Token} {xs : List Lexeme} {trees : List Stmt}
    (phrase : Grammar.Block xs trees) (eq : lexemes us = xs) :
    ∃ block, Block us block ∧ Stmt.eraseAll block.body = trees := by
  match phrase with
  | .braces opens inner closes =>
    obtain ⟨opening, vs, close, rfl, rfl, inner_eq, rfl⟩ := enclosed_of_lexemes eq
    obtain ⟨body, inner', rfl⟩ := exists_statements inner inner_eq
    exact ⟨_, .braces opens inner' closes, rfl⟩

theorem exists_statements {us : List Token} {xs : List Lexeme} {trees : List Stmt}
    (phrase : Grammar.Statements xs trees) (eq : lexemes us = xs) :
    ∃ body, Statements us body ∧ Stmt.eraseAll body = trees := by
  match phrase with
  | .nil =>
    obtain rfl := List.map_eq_nil_iff.mp eq
    exact ⟨_, .nil, rfl⟩
  | .cons first others =>
    obtain ⟨us, vs, rfl, first_eq, others_eq⟩ := List.map_eq_append_iff.mp eq
    obtain ⟨s, first', rfl⟩ := exists_statement first first_eq
    obtain ⟨body, others', rfl⟩ := exists_statements others others_eq
    exact ⟨_, .cons first' others', rfl⟩

end

end Exists

theorem Statements.append {us vs : List Token} {body rest : List Stmt} (first : Statements us body)
    (second : Statements vs rest) : Statements (us ++ vs) (body ++ rest) := by
  match first with
  | .nil => exact second
  | .cons first others =>
    rw [List.append_assoc]
    exact .cons first (others.append second)

end TagScript.Located
