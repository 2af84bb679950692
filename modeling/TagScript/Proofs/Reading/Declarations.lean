import TagScript.Proofs.Reading.Completeness

/-! The lists of tags and of bindings that come with a program are those of its
tree: tags in the order of their mention, bindings in the order in which their
declarations end. -/
namespace TagScript

namespace Stmt

mutual

/-- The tags that a statement names, in order and as often as it names them. -/
def mentions : Stmt → List String
  | .assign .. | .swap .. | .print .. => []
  | .declare tag body _ => tag :: body.mentions
  | .invoke tag _ => [tag]
  | .ifThen _ body _ | .loop _ body _ => Stmt.allMentions body
  | .ifElse _ body other _ => Stmt.allMentions body ++ Stmt.allMentions other

def allMentions : List Stmt → List String
  | [] => []
  | s :: rest => s.mentions ++ Stmt.allMentions rest

end

mutual

/-- The declarations in a statement, an inner one before the one around it. -/
def declarations : Stmt → List Binding
  | .assign .. | .invoke .. | .swap .. | .print .. => []
  | .declare tag body _ => body.declarations ++ [(tag, body)]
  | .ifThen _ body _ | .loop _ body _ => Stmt.allDeclarations body
  | .ifElse _ body other _ => Stmt.allDeclarations body ++ Stmt.allDeclarations other

def allDeclarations : List Stmt → List Binding
  | [] => []
  | s :: rest => s.declarations ++ Stmt.allDeclarations rest

end

end Stmt

mutual

theorem Stmt.declarations_mapSpans (f : Span → Span) (s : Stmt) :
    (s.mapSpans f).declarations = s.declarations.map (Binding.mapSpans f) := by
  match s with
  | .assign .. | .invoke .. | .swap .. | .print .. => rfl
  | .declare tag body s =>
    simp only [Stmt.mapSpans, declarations, body.declarations_mapSpans f, List.map_append,
      List.map_cons, List.map_nil, Binding.mapSpans]
  | .ifThen condition body s | .loop condition body s =>
    exact Stmt.allDeclarations_mapAllSpans f body
  | .ifElse condition body other s =>
    simp only [Stmt.mapSpans, declarations, Stmt.allDeclarations_mapAllSpans f body,
      Stmt.allDeclarations_mapAllSpans f other, List.map_append]

theorem Stmt.allDeclarations_mapAllSpans (f : Span → Span) (body : List Stmt) :
    Stmt.allDeclarations (Stmt.mapAllSpans f body) =
      (Stmt.allDeclarations body).map (Binding.mapSpans f) := by
  match body with
  | [] => rfl
  | s :: rest =>
    simp only [Stmt.mapAllSpans, Stmt.allDeclarations, s.declarations_mapSpans f,
      Stmt.allDeclarations_mapAllSpans f rest, List.map_append]

end

mutual

theorem Stmt.mentions_mapSpans (f : Span → Span) (s : Stmt) :
    (s.mapSpans f).mentions = s.mentions := by
  match s with
  | .assign .. | .invoke .. | .swap .. | .print .. => rfl
  | .declare tag body span => exact congrArg (tag :: ·) (body.mentions_mapSpans f)
  | .ifThen condition body span | .loop condition body span =>
    exact Stmt.allMentions_mapAllSpans f body
  | .ifElse condition body other span =>
    simp only [Stmt.mapSpans, mentions, Stmt.allMentions_mapAllSpans f body,
      Stmt.allMentions_mapAllSpans f other]

theorem Stmt.allMentions_mapAllSpans (f : Span → Span) (body : List Stmt) :
    Stmt.allMentions (Stmt.mapAllSpans f body) = Stmt.allMentions body := by
  match body with
  | [] => rfl
  | s :: rest =>
    simp only [Stmt.mapAllSpans, Stmt.allMentions, s.mentions_mapSpans f,
      Stmt.allMentions_mapAllSpans f rest]

end

namespace Grammar

def tagTexts (xs : List Lexeme) : List String :=
  (xs.filter (·.kind = .tag)).map (·.text)

theorem tagTexts_append (xs ys : List Lexeme) :
    tagTexts (xs ++ ys) = tagTexts xs ++ tagTexts ys := by
  rw [tagTexts, List.filter_append, List.map_append]
  rfl

theorem tagTexts_cons_of_other {x : Lexeme} {kind : Kind} (h : x.kind = kind)
    (other : kind ≠ .tag) (xs : List Lexeme) : tagTexts (x :: xs) = tagTexts xs := by
  rw [tagTexts, List.filter_cons_of_neg (by simp [h, other])]
  rfl

theorem tagTexts_cons_of_tag {x : Lexeme} (h : x.kind = .tag) (xs : List Lexeme) :
    tagTexts (x :: xs) = x.text :: tagTexts xs := by
  rw [tagTexts, List.filter_cons_of_pos (by simp [h])]
  rfl

theorem tagNames_eq (ts : List Token) :
    Reading.tagNames ts = (tagTexts (Token.lexemes ts)).eraseDups := by
  rw [Reading.tagNames, tagTexts, Token.lexemes, List.filter_map, List.map_map]
  rfl

/-! Only statements have tags in them. -/

section Tagless

variable {xs ys : List Lexeme} {opening close sign : Lexeme}

theorem tagTexts_enclosed (opens : opening.kind ≠ .tag) (closes : close.kind ≠ .tag) :
    tagTexts (opening :: (xs ++ [close])) = tagTexts xs := by
  rw [tagTexts_cons_of_other rfl opens, tagTexts_append, tagTexts_cons_of_other rfl closes]
  exact List.append_nil _

theorem tagTexts_separated (other : sign.kind ≠ .tag) :
    tagTexts (xs ++ sign :: ys) = tagTexts xs ++ tagTexts ys := by
  rw [tagTexts_append, tagTexts_cons_of_other rfl other]

theorem tagTexts_operation {op : BinaryOp} {signs : List (Kind × BinaryOp)}
    (mem : (sign.kind, op) ∈ signs) (apart : ∀ entry ∈ signs, entry.1 ≠ .tag)
    (before : tagTexts xs = []) (last : tagTexts ys = []) : tagTexts (xs ++ sign :: ys) = [] := by
  rw [tagTexts_separated (apart _ mem), before, last]
  rfl

theorem tagTexts_of_arithmetic {level : Reading.Level} {e : Expr} (phrase : Arithmetic level xs e) :
    tagTexts xs = [] := by
  induction phrase with
  | integer kind | boolean kind | named kind => exact tagTexts_cons_of_other kind (by decide) []
  | element kind opens _ closes ih =>
    rw [tagTexts_cons_of_other kind (by decide),
      tagTexts_enclosed (by rw [opens]; decide) (by rw [closes]; decide), ih]
  | group opens _ closes ih =>
    rw [tagTexts_enclosed (by rw [opens]; decide) (by rw [closes]; decide), ih]
  | factor _ ih | term _ ih => exact ih
  | product _ mem _ before last | sum _ mem _ before last =>
    exact tagTexts_operation mem (by decide) before last

theorem tagTexts_of_comparison {e : Expr} (phrase : Comparison xs e) : tagTexts xs = [] := by
  induction phrase with
  | sum phrase => exact tagTexts_of_arithmetic phrase
  | compare _ mem last ih =>
    exact tagTexts_operation mem (by decide) ih (tagTexts_of_arithmetic last)

theorem tagTexts_of_elements {es : List Expr} (phrase : Elements xs es) : tagTexts xs = [] := by
  induction phrase with
  | one phrase => exact tagTexts_of_arithmetic phrase
  | more phrase separates _ ih =>
    rw [tagTexts_separated (by rw [separates]; decide), tagTexts_of_arithmetic phrase, ih]
    rfl

theorem tagTexts_of_stored {v : Rhs} (phrase : Stored xs v) : tagTexts xs = [] := by
  cases phrase with
  | scalar value => exact tagTexts_of_arithmetic value
  | emptyVector opens closes =>
    rw [tagTexts_cons_of_other opens (by decide), tagTexts_cons_of_other closes (by decide)]
    rfl
  | vector opens inner closes =>
    rw [tagTexts_enclosed (by rw [opens]; decide) (by rw [closes]; decide),
      tagTexts_of_elements inner]

theorem tagTexts_of_place {t : Target} (phrase : Grammar.Place xs t) : tagTexts xs = [] := by
  cases phrase with
  | whole kind => exact tagTexts_cons_of_other kind (by decide) []
  | element kind opens inner closes =>
    rw [tagTexts_cons_of_other kind (by decide),
      tagTexts_enclosed (by rw [opens]; decide) (by rw [closes]; decide),
      tagTexts_of_arithmetic inner]

end Tagless

mutual

theorem tagTexts_of_statement {xs : List Lexeme} {s : Stmt} (phrase : Statement xs s) :
    tagTexts xs = s.mentions := by
  match phrase with
  | .assign left kind right =>
    rw [tagTexts_separated (by rw [kind]; decide), tagTexts_of_place left,
      tagTexts_of_stored right]
    rfl
  | .invoke kind ends =>
    rw [tagTexts_cons_of_tag kind, tagTexts_cons_of_other ends (by decide)]
    rfl
  | .declare kind declared =>
    rw [tagTexts_cons_of_tag kind, tagTexts_of_statement declared]
    rfl
  | .swap kind first second =>
    rw [tagTexts_cons_of_other kind (by decide), tagTexts_append, tagTexts_of_place first,
      tagTexts_of_place second]
    rfl
  | .ifThen kind test block | .loop kind test block =>
    rw [tagTexts_cons_of_other kind (by decide), tagTexts_append, tagTexts_of_comparison test,
      tagTexts_of_block block]
    rfl
  | .ifElse kind test block kind' block' =>
    rw [tagTexts_cons_of_other kind (by decide), tagTexts_append, tagTexts_of_comparison test,
      tagTexts_separated (by rw [kind']; decide), tagTexts_of_block block,
      tagTexts_of_block block']
    rfl
  | .print kind printed =>
    rw [tagTexts_cons_of_other kind (by decide), tagTexts_of_comparison printed]
    rfl

theorem tagTexts_of_block {xs : List Lexeme} {body : List Stmt} (phrase : Block xs body) :
    tagTexts xs = Stmt.allMentions body := by
  match phrase with
  | .braces opens inner closes =>
    rw [tagTexts_enclosed (by rw [opens]; decide) (by rw [closes]; decide),
      tagTexts_of_statements inner]

theorem tagTexts_of_statements {xs : List Lexeme} {body : List Stmt}
    (phrase : Statements xs body) : tagTexts xs = Stmt.allMentions body := by
  match phrase with
  | .nil => rfl
  | .cons first others =>
    rw [tagTexts_append, tagTexts_of_statement first, tagTexts_of_statements others]
    rfl

end

end Grammar

namespace Reading

open Grammar Token

theorem tagNames_of_read {ts : List Token} {body : List Stmt}
    (read : (statementList ts).result = .ok body) :
    tagNames ts = (Stmt.allMentions (Stmt.eraseAll body)).eraseDups := by
  rw [tagNames_eq, tagTexts_of_statements (statements_of_read read)]

/-! Only declarations leave bindings. -/

namespace Attempt

variable {α β : Type} {x : Attempt α} {f : α → Attempt β}

theorem bindings_bind_of_ok {a : α} (h : x.result = .ok a) :
    (x >>= f).bindings = x.bindings ++ (f a).bindings := by
  obtain ⟨visits, bindings, result⟩ := x
  cases h
  rfl

theorem bindings_bind_eq_nil (h : x.bindings = []) (h' : ∀ a, (f a).bindings = []) :
    (x >>= f).bindings = [] := by
  obtain ⟨visits, bindings, result⟩ := x
  cases result with
  | error e => exact h
  | ok a =>
    rw [bindings_bind_of_ok rfl, h, h' a]
    rfl

end Attempt

theorem bindings_expect (expected : Expected) (ts : List Token) :
    (expect expected ts).bindings = [] := by
  unfold expect
  split
  · rfl
  · split <;> rfl

theorem bindings_chain {operator? : Kind → Option BinaryOp} {bound : Nat}
    {operand : (ts : List Token) → ts.length < bound → Attempt (Parsed Expr ts.length)}
    (quiet : ∀ ts h, (operand ts h).bindings = []) (left : Expr) (ts : List Token)
    (h : ts.length < bound) : (chain operator? operand left ts h).bindings = [] := by
  fun_induction chain operator? operand left ts h with
  | case1 | case2 | case4 => rfl
  | case3 left t ts h op operator opens _ ih =>
    exact Attempt.bindings_bind_eq_nil (quiet _ _) ih

theorem bindings_arithmetic (level : Level) (ts : List Token) :
    (arithmetic level ts).bindings = [] := by
  induction level, ts using arithmetic.induct with
  | case1 ts first_quiet operand_quiet | case2 ts first_quiet operand_quiet =>
    rw [arithmetic]
    apply Attempt.bindings_bind_eq_nil rfl
    intro _
    apply Attempt.bindings_bind_eq_nil first_quiet
    exact fun first => bindings_chain (fun rest h => operand_quiet rest h) _ _ _
  | case3 =>
    rw [arithmetic]
    rfl
  | case4 t ts index_quiet group_quiet =>
    rw [arithmetic]
    apply Attempt.bindings_bind_eq_nil rfl
    intro _
    split
    · split <;> rfl
    · rfl
    · split
      · rfl
      · apply Attempt.bindings_bind_eq_nil (index_quiet _)
        intro index
        apply Attempt.bindings_bind_eq_nil (bindings_expect _ _)
        exact fun _ => rfl
    · apply Attempt.bindings_bind_eq_nil group_quiet
      intro inner
      apply Attempt.bindings_bind_eq_nil (bindings_expect _ _)
      exact fun _ => rfl
    · rfl
    · rfl

theorem bindings_comparison (ts : List Token) : (comparison ts).bindings = [] := by
  apply Attempt.bindings_bind_eq_nil rfl
  intro _
  apply Attempt.bindings_bind_eq_nil (bindings_arithmetic .sum ts)
  exact fun first => bindings_chain (fun rest _ => bindings_arithmetic .sum rest) _ _ _

theorem bindings_target (use : TargetUse) (ts : List Token) :
    (target use ts).bindings = [] := by
  apply Attempt.bindings_bind_eq_nil (bindings_expect _ _)
  intro name
  split
  · rfl
  · apply Attempt.bindings_bind_eq_nil (bindings_arithmetic .sum _)
    intro index
    apply Attempt.bindings_bind_eq_nil (bindings_expect _ _)
    exact fun _ => rfl

theorem bindings_commaList (ts : List Token) : (commaList ts).bindings = [] := by
  induction ts using commaList.induct with
  | case1 ts others_quiet =>
    rw [commaList]
    apply Attempt.bindings_bind_eq_nil (bindings_arithmetic .sum ts)
    intro first
    split
    · rfl
    · apply Attempt.bindings_bind_eq_nil (others_quiet _ _)
      exact fun _ => rfl

theorem bindings_vector (opening : Token) (ts : List Token) :
    (vector opening ts).bindings = [] := by
  apply Attempt.bindings_bind_eq_nil rfl
  intro _
  split
  · rfl
  · apply Attempt.bindings_bind_eq_nil (bindings_commaList ts)
    intro elements
    apply Attempt.bindings_bind_eq_nil (bindings_expect _ _)
    exact fun _ => rfl

theorem bindings_rhs (ts : List Token) : (rhs ts).bindings = [] := by
  unfold rhs
  split
  · apply Attempt.bindings_bind_eq_nil (bindings_vector _ _)
    exact fun _ => rfl
  · apply Attempt.bindings_bind_eq_nil (bindings_arithmetic .sum ts)
    exact fun _ => rfl

theorem bindings_assignment (ts : List Token) : (assignment ts).bindings = [] := by
  apply Attempt.bindings_bind_eq_nil rfl
  intro _
  apply Attempt.bindings_bind_eq_nil (bindings_target _ ts)
  intro place
  apply Attempt.bindings_bind_eq_nil (bindings_expect _ _)
  intro sign
  apply Attempt.bindings_bind_eq_nil (bindings_rhs _)
  exact fun _ => rfl

theorem bindings_exchange (word : Token) (ts : List Token) :
    (exchange word ts).bindings = [] := by
  apply Attempt.bindings_bind_eq_nil rfl
  intro _
  apply Attempt.bindings_bind_eq_nil (bindings_target _ ts)
  intro left
  apply Attempt.bindings_bind_eq_nil (bindings_target _ _)
  exact fun _ => rfl

theorem bindings_output (word : Token) (ts : List Token) : (output word ts).bindings = [] := by
  apply Attempt.bindings_bind_eq_nil rfl
  intro _
  apply Attempt.bindings_bind_eq_nil (bindings_comparison ts)
  exact fun _ => rfl

theorem bindings_many {stops : Kind → Bool} {bound : Nat}
    {item : (ts : List Token) → ts.length < bound → Attempt (Parsed Stmt ts.length)}
    (item_bindings : ∀ ts h p, (item ts h).result = .ok p →
      (item ts h).bindings = p.value.declarations)
    {ts : List Token} {h : ts.length < bound} {p : Parsed (List Stmt) bound}
    (read : (many stops item ts h).result = .ok p) :
    (many stops item ts h).bindings = Stmt.allDeclarations p.value := by
  fun_induction many stops item ts h generalizing p with
  | case1 | case2 =>
    cases read
    rfl
  | case3 t ts h _ _ ih =>
    obtain ⟨first, first_read, read⟩ := result_bind_eq_ok_iff.mp read
    obtain ⟨others, others_read, read⟩ := result_bind_eq_ok_iff.mp read
    cases read
    rw [Attempt.bindings_bind_of_ok first_read, Attempt.bindings_bind_of_ok others_read,
      item_bindings _ _ _ first_read, ih first others_read]
    exact congrArg _ (List.append_nil _)

theorem bindings_block {owner : BlockOwner} {bound : Nat}
    {item : (ts : List Token) → ts.length < bound → Attempt (Parsed Stmt ts.length)}
    (item_bindings : ∀ ts h p, (item ts h).result = .ok p →
      (item ts h).bindings = p.value.declarations)
    {ts : List Token} {h : ts.length < bound} {p : Parsed Block bound}
    (read : (block owner item ts h).result = .ok p) :
    (block owner item ts h).bindings = Stmt.allDeclarations p.value.body := by
  obtain ⟨opening, opening_read, read'⟩ := result_bind_eq_ok_iff.mp read
  obtain ⟨body, body_read, read'⟩ := result_bind_eq_ok_iff.mp read'
  obtain ⟨close, close_read, read'⟩ := result_bind_eq_ok_iff.mp read'
  cases read'
  rw [block, Attempt.bindings_bind_of_ok opening_read, Attempt.bindings_bind_of_ok body_read,
    Attempt.bindings_bind_of_ok close_read, bindings_expect, bindings_expect,
    bindings_many item_bindings body_read]
  exact List.append_nil _

theorem declarations_of_assignment {ts : List Token} {p : Parsed Stmt ts.length}
    (read : (assignment ts).result = .ok p) : p.value.declarations = [] := by
  obtain ⟨-, -, read⟩ := result_bind_eq_ok_iff.mp read
  obtain ⟨place, -, read⟩ := result_bind_eq_ok_iff.mp read
  obtain ⟨sign, -, read⟩ := result_bind_eq_ok_iff.mp read
  obtain ⟨value, -, read⟩ := result_bind_eq_ok_iff.mp read
  cases read
  rfl

theorem declarations_of_exchange {word : Token} {ts : List Token} {p : Parsed Stmt ts.length}
    (read : (exchange word ts).result = .ok p) : p.value.declarations = [] := by
  obtain ⟨-, -, read⟩ := result_bind_eq_ok_iff.mp read
  obtain ⟨left, -, read⟩ := result_bind_eq_ok_iff.mp read
  obtain ⟨right, -, read⟩ := result_bind_eq_ok_iff.mp read
  cases read
  rfl

theorem declarations_of_output {word : Token} {ts : List Token} {p : Parsed Stmt ts.length}
    (read : (output word ts).result = .ok p) : p.value.declarations = [] := by
  obtain ⟨-, -, read⟩ := result_bind_eq_ok_iff.mp read
  obtain ⟨value, -, read⟩ := result_bind_eq_ok_iff.mp read
  cases read
  rfl

theorem bindings_statement (ts : List Token) {p : Parsed Stmt ts.length}
    (read : (statement ts).result = .ok p) :
    (statement ts).bindings = p.value.declarations := by
  induction ts using statement.induct with
  | case1 =>
    rw [statement] at read
    cases read
  | case2 t ts body_bindings item_bindings =>
    have item_bindings' : ∀ rest (h : rest.length < ts.length) q,
        (statement rest).result = .ok q → (statement rest).bindings = q.value.declarations :=
      fun rest h q => item_bindings rest h
    rw [statement] at read ⊢
    obtain ⟨-, -, read⟩ := result_bind_eq_ok_iff.mp read
    rw [Attempt.bindings_bind_of_ok rfl]
    apply (List.nil_append _).trans
    split at read
    case _ =>
      rw [bindings_assignment, declarations_of_assignment read]
    case _ =>
      obtain ⟨-, -, read⟩ := result_bind_eq_ok_iff.mp read
      rw [Attempt.bindings_bind_of_ok rfl]
      apply (List.nil_append _).trans
      split at read
      case _ =>
        cases read
        rfl
      case _ =>
        obtain ⟨body, body_read, read⟩ := result_bind_eq_ok_iff.mp read
        obtain ⟨-, -, read⟩ := result_bind_eq_ok_iff.mp read
        cases read
        rw [Attempt.bindings_bind_of_ok body_read, body_bindings body_read]
        rfl
    case _ =>
      obtain ⟨swap, swap_read, read⟩ := result_bind_eq_ok_iff.mp read
      cases read
      rw [Attempt.bindings_bind_of_ok swap_read, bindings_exchange]
      exact (declarations_of_exchange swap_read).symm
    case _ =>
      obtain ⟨-, -, read⟩ := result_bind_eq_ok_iff.mp read
      obtain ⟨condition, condition_read, read⟩ := result_bind_eq_ok_iff.mp read
      obtain ⟨body, body_read, read⟩ := result_bind_eq_ok_iff.mp read
      rw [Attempt.bindings_bind_of_ok rfl, Attempt.bindings_bind_of_ok condition_read,
        bindings_comparison, Attempt.bindings_bind_of_ok body_read,
        bindings_block item_bindings' body_read]
      split at read
      case _ =>
        cases read
        exact List.append_nil _
      case _ word _ =>
        obtain ⟨other, other_read, read⟩ := result_bind_eq_ok_iff.mp read
        cases read
        rw [Attempt.bindings_bind_of_ok other_read, bindings_block item_bindings' other_read]
        exact congrArg (Stmt.allDeclarations body.value.body ++ ·) (List.append_nil _)
    case _ =>
      obtain ⟨-, -, read⟩ := result_bind_eq_ok_iff.mp read
      obtain ⟨condition, condition_read, read⟩ := result_bind_eq_ok_iff.mp read
      obtain ⟨body, body_read, read⟩ := result_bind_eq_ok_iff.mp read
      cases read
      rw [Attempt.bindings_bind_of_ok rfl, Attempt.bindings_bind_of_ok condition_read,
        bindings_comparison, Attempt.bindings_bind_of_ok body_read,
        bindings_block item_bindings' body_read]
      exact List.append_nil _
    case _ =>
      obtain ⟨print, print_read, read⟩ := result_bind_eq_ok_iff.mp read
      cases read
      rw [Attempt.bindings_bind_of_ok print_read, bindings_output]
      exact (declarations_of_output print_read).symm
    case _ => cases read

theorem bindings_of_read {ts : List Token} {body : List Stmt}
    (read : (statementList ts).result = .ok body) :
    (statementList ts).bindings = Stmt.allDeclarations body := by
  obtain ⟨all, all_read, read⟩ := result_bind_eq_ok_iff.mp read
  cases read
  rw [statementList, Attempt.bindings_bind_of_ok all_read,
    bindings_many (fun rest _ _ => bindings_statement rest) all_read]
  exact List.append_nil _

end Reading

end TagScript
