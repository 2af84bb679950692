import TagScript.Proofs.Reading.Located
import TagScript.Proofs.Reading.Soundness

/-! What is derived is read. Reading is greedy, so a phrase is read as a whole
where the token after it cannot continue it; which kinds can is known for each
construct. What is read is the tree with the spans that the phrase gives it. -/
namespace TagScript.Reading

open Grammar Token

def Ended (kinds : List Kind) (ts : List Token) : Prop :=
  ∀ t ∈ ts.head?, t.kind ∉ kinds

theorem ended_cons {kinds : List Kind} {t : Token} {ts : List Token} :
    Ended kinds (t :: ts) ↔ t.kind ∉ kinds := by
  simp [Ended]

theorem Ended.mono {kinds others : List Kind} {ts : List Token} (h : Ended kinds ts)
    (sub : ∀ kind ∈ others, kind ∈ kinds) : Ended others ts :=
  fun t mem among => h t mem (sub _ among)

theorem expect_of_kind (expected : Expected) {t : Token} {ts : List Token}
    (kind : t.kind = expected.kind) :
    (expect expected (t :: ts)).result = .ok ⟨t, ts, Nat.lt_succ_self ts.length⟩ := by
  simp only [expect, if_pos kind, Attempt.result_pure]

theorem accept?_of_kind {kind : Kind} {t : Token} {ts : List Token} (h : t.kind = kind) :
    accept? kind (t :: ts) = some ⟨t, ts, Nat.lt_succ_self ts.length⟩ := by
  simp only [accept?, if_pos h]

theorem accept?_eq_none {kind : Kind} {ts : List Token} (h : Ended [kind] ts) :
    accept? kind ts = none := by
  cases ts with
  | nil => rfl
  | cons t rest =>
    rw [ended_cons, List.mem_singleton] at h
    simp only [accept?, if_neg h]

theorem enclosed_append (first last : Token) (vs rest : List Token) :
    first :: (vs ++ [last]) ++ rest = first :: (vs ++ last :: rest) :=
  congrArg (first :: ·) (List.append_cons vs last rest).symm

theorem rest_lt_enclosed (first last : Token) (vs rest : List Token) :
    rest.length < (first :: (vs ++ last :: rest)).length := by
  simp only [List.length_cons, List.length_append]
  omega

/-- Tokens that are followed by none of these kinds are read as this value. -/
def Reads {α : Type} (read : (ts : List Token) → Attempt (Parsed α ts.length))
    (kinds : List Kind) (us : List Token) (a : α) : Prop :=
  ∀ ⦃ts rest : List Token⦄, ts = us ++ rest → Ended kinds rest →
    ∃ h, (read ts).result = .ok ⟨a, rest, h⟩

theorem Reads.single {α : Type} {read : (ts : List Token) → Attempt (Parsed α ts.length)}
    {kinds : List Kind} {t : Token} {a : α}
    (h : ∀ rest, Ended kinds rest →
      (read (t :: rest)).result = .ok ⟨a, rest, Nat.lt_succ_self rest.length⟩) :
    Reads read kinds [t] a := by
  rintro ts rest rfl ended
  exact ⟨_, h rest ended⟩

theorem Reads.before {α : Type} {read : (ts : List Token) → Attempt (Parsed α ts.length)}
    {kinds : List Kind} {us : List Token} {a : α} (h : Reads read kinds us a) {close : Token}
    (stop : close.kind ∉ kinds) (rest : List Token) :
    ∃ h, (read (us ++ close :: rest)).result = .ok ⟨a, close :: rest, h⟩ :=
  h rfl (ended_cons.mpr stop)

/-- The kinds that carry a factor on. -/
def factorTail : List Kind := [.leftBracket]

def termTail : List Kind := [.star, .slash] ++ factorTail

def sumTail : List Kind := [.plus, .minus] ++ termTail

def comparisonTail : List Kind := [.equalEqual, .bangEqual, .less, .greater] ++ sumTail

def statementTail : List Kind := .elseWord :: comparisonTail

def openers : List Kind :=
  [.identifier, .tag, .swapWord, .ifWord, .whileWord, .printWord]

def Level.tail : Level → List Kind
  | factor => factorTail
  | term => termTail
  | sum => sumTail

section Chain

variable {operator? : Kind → Option BinaryOp} {bound : Nat}
  {operand : (ts : List Token) → ts.length < bound → Attempt (Parsed Expr ts.length)}
  {left right : Expr} {ts rest : List Token}

theorem chain_stop (h : ts.length < bound) (stop : ∀ t ∈ ts.head?, operator? t.kind = none) :
    (chain operator? operand left ts h).result = .ok ⟨left, ts, h⟩ := by
  cases ts with
  | nil => rw [chain, Attempt.result_pure]
  | cons t rest =>
    rw [chain]
    split
    case _ => rfl
    case _ op operator =>
      rw [stop t rfl] at operator
      cases operator

theorem chain_step {t : Token} {op : BinaryOp} {h : (t :: ts).length < bound}
    {fits : rest.length < ts.length} (operator : operator? t.kind = some op)
    (opens : opensFactor ts = true)
    (read : (operand ts (Nat.lt_of_succ_lt h)).result = .ok ⟨right, rest, fits⟩) :
    (chain operator? operand left (t :: ts) h).result =
      (chain operator? operand (left.combine op right) rest
        (Nat.lt_trans fits (Nat.lt_of_succ_lt h))).result := by
  rw [chain]
  split
  case _ other =>
    rw [operator] at other
    cases other
  case _ op' other =>
    rw [operator] at other
    cases other
    rw [if_pos opens, Attempt.result_bind, read]
    rfl

end Chain

theorem opensFactor_of_located {level : Level} {us : List Token} {e : Expr}
    (located : Located.Arithmetic level us e) (rest : List Token) :
    opensFactor (us ++ rest) = true := by
  induction located generalizing rest with
  | integer kind | boolean kind | named kind | element kind | group kind =>
    simp only [opensFactor, List.cons_append, kind]
    decide
  | factor _ ih | term _ ih => exact ih rest
  | product _ _ _ ih | sum _ _ _ ih =>
    rw [List.append_assoc]
    exact ih _

theorem opensFactor_of_arithmetic {level : Level} {xs : List Lexeme} {e : Expr}
    (phrase : Arithmetic level xs e) {us : List Token} (rest : List Token)
    (eq : lexemes us = xs) : opensFactor (us ++ rest) = true := by
  obtain ⟨e', located, -⟩ := Located.exists_arithmetic phrase eq
  exact opensFactor_of_located located rest

/-- Reading comes to a chain right after the tokens, with their tree on the left. -/
def Chains (read : (ts : List Token) → Attempt (Parsed Expr ts.length))
    (operator? : Kind → Option BinaryOp) (operand : Level) (us : List Token) (e : Expr) : Prop :=
  ∀ ⦃ts rest : List Token⦄, ts = us ++ rest → Ended operand.tail rest →
    ∃ h, (read ts).result =
      (chain operator? (fun rest _ => arithmetic operand rest) e rest h :
        Attempt (Parsed Expr ts.length)).result

namespace Chains

variable {read : (ts : List Token) → Attempt (Parsed Expr ts.length)}
  {operator? : Kind → Option BinaryOp} {operand : Level} {us vs : List Token}
  {e left right : Expr}

theorem first {visit : Visit}
    (read_eq : ∀ ts, read ts = do
      .visit visit
      let first ← arithmetic operand ts
      chain operator? (fun rest _ => arithmetic operand rest) first.value first.rest first.fits)
    (h : Reads (arithmetic operand) operand.tail us e) :
    Chains read operator? operand us e := by
  intro ts rest ts_eq ended
  obtain ⟨fits, first_read⟩ := h ts_eq ended
  refine ⟨fits, ?_⟩
  rw [read_eq, Attempt.result_bind, Attempt.result_visit, Except.bind, Attempt.result_bind,
    first_read, Except.bind]

theorem step {sign : Token} {op : BinaryOp} {signs : List (Kind × BinaryOp)}
    (before : Chains read operator? operand us left) (mem : (sign.kind, op) ∈ signs)
    (operator : operator? sign.kind = some op) (apart : ∀ entry ∈ signs, entry.1 ∉ operand.tail)
    (located : Located.Arithmetic operand vs right)
    (last : Reads (arithmetic operand) operand.tail vs right) :
    Chains read operator? operand (us ++ sign :: vs) (left.combine op right) := by
  intro ts rest ts_eq ended
  rw [List.append_assoc, List.cons_append] at ts_eq
  obtain ⟨h, before_read⟩ := before ts_eq (ended_cons.mpr (apart _ mem))
  obtain ⟨h', last_read⟩ := last rfl ended
  refine ⟨Nat.lt_trans h' (Nat.lt_of_succ_lt h), ?_⟩
  rw [before_read]
  exact chain_step operator (opensFactor_of_located located rest) last_read

theorem reads {kinds : List Kind} (h : Chains read operator? operand us e)
    (stop : ∀ kind, kind ∉ kinds → operator? kind = none)
    (sub : ∀ kind ∈ operand.tail, kind ∈ kinds) : Reads read kinds us e := by
  intro ts rest ts_eq ended
  obtain ⟨fits, read_eq⟩ := h ts_eq (ended.mono sub)
  exact ⟨fits, read_eq.trans (chain_stop fits fun t mem => stop _ (ended t mem))⟩

end Chains

/-- How far reading at a level comes with tokens, whatever follows at that level. -/
def Loops : Level → List Token → Expr → Prop
  | .factor => Reads (arithmetic .factor) factorTail
  | .term => Chains (arithmetic .term) productOperator? .factor
  | .sum => Chains (arithmetic .sum) sumOperator? .term

theorem Loops.reads {level : Level} {us : List Token} {e : Expr} (h : Loops level us e) :
    Reads (arithmetic level) level.tail us e := by
  cases level with
  | factor => exact h
  | term =>
    refine Chains.reads h (fun kind other => ?_) (by decide)
    revert other
    cases kind <;> decide
  | sum =>
    refine Chains.reads h (fun kind other => ?_) (by decide)
    revert other
    cases kind <;> decide

theorem reads_element {t opening close : Token} {us : List Token} {index : Expr}
    (kind : t.kind = .identifier) (opens : opening.kind = .leftBracket)
    (inner : Reads (arithmetic .sum) sumTail us index) (closes : close.kind = .rightBracket) :
    Reads (arithmetic .factor) factorTail (t :: opening :: (us ++ [close]))
      (.element t.text index (t.span.cover close.span)) := by
  intro ts rest ts_eq ended
  rw [List.cons_append, enclosed_append] at ts_eq
  subst ts_eq
  obtain ⟨h, inner_read⟩ := inner.before (by rw [closes]; decide) rest
  refine ⟨Nat.lt_succ_of_lt (rest_lt_enclosed opening close us rest), ?_⟩
  rw [arithmetic]
  simp only [Attempt.result_bind, Attempt.result_visit, Except.bind, kind, accept?_of_kind opens,
    inner_read, expect_of_kind .indexEnd closes]
  rfl

theorem reads_group {opening close : Token} {us : List Token} {e : Expr}
    (opens : opening.kind = .leftParen) (inner : Reads (arithmetic .sum) sumTail us e)
    (closes : close.kind = .rightParen) :
    Reads (arithmetic .factor) factorTail (opening :: (us ++ [close]))
      (e.withSpan (opening.span.cover close.span)) := by
  intro ts rest ts_eq ended
  rw [enclosed_append] at ts_eq
  subst ts_eq
  obtain ⟨h, inner_read⟩ := inner.before (by rw [closes]; decide) rest
  refine ⟨rest_lt_enclosed opening close us rest, ?_⟩
  rw [arithmetic]
  simp only [Attempt.result_bind, Attempt.result_visit, Except.bind, opens, inner_read,
    expect_of_kind .groupEnd closes]
  rfl

theorem loops_of_located {level : Level} {us : List Token} {e : Expr}
    (located : Located.Arithmetic level us e) : Loops level us e := by
  induction located with
  | integer kind value =>
    refine Reads.single fun rest _ => ?_
    rw [arithmetic]
    simp only [Attempt.result_bind, Attempt.result_visit, Except.bind, kind, value]
    rfl
  | boolean kind =>
    refine Reads.single fun rest _ => ?_
    rw [arithmetic]
    simp only [Attempt.result_bind, Attempt.result_visit, Except.bind, kind]
    rfl
  | named kind =>
    refine Reads.single fun rest ended => ?_
    rw [arithmetic]
    simp only [Attempt.result_bind, Attempt.result_visit, Except.bind, kind,
      accept?_eq_none ended]
    rfl
  | element kind opens _ closes inner => exact reads_element kind opens inner.reads closes
  | group opens _ closes inner => exact reads_group opens inner.reads closes
  | factor _ first => exact Chains.first (fun ts => by rw [arithmetic]) first
  | product _ mem last before right =>
    exact before.step mem (productOperator?_eq_some_iff.mpr mem) (by decide) last right
  | term _ first => exact Chains.first (fun ts => by rw [arithmetic]) first.reads
  | sum _ mem last before right =>
    exact before.step mem (sumOperator?_eq_some_iff.mpr mem) (by decide) last right.reads

theorem reads_arithmetic {us : List Token} {e : Expr} (located : Located.Arithmetic .sum us e) :
    Reads (arithmetic .sum) sumTail us e :=
  (loops_of_located located).reads

theorem reads_comparison {us : List Token} {e : Expr} (located : Located.Comparison us e) :
    Reads comparison comparisonTail us e := by
  have chains : Chains comparison comparisonOperator? .sum us e := by
    induction located with
    | sum first => exact Chains.first (fun _ => rfl) (reads_arithmetic first)
    | compare _ mem last ih =>
      exact ih.step mem (comparisonOperator?_eq_some_iff.mpr mem) (by decide) last
        (reads_arithmetic last)
  refine chains.reads (fun kind other => ?_) (by decide)
  revert other
  cases kind <;> decide

theorem reads_target (use : TargetUse) {us : List Token} {place : Target}
    (located : Located.Place us place) : Reads (target use) factorTail us place := by
  cases located with
  | whole kind =>
    refine Reads.single fun rest ended => ?_
    rw [target]
    simp only [Attempt.result_bind, Except.bind, expect_of_kind (.targetName use) kind,
      accept?_eq_none ended]
    rfl
  | @element t opening close us index kind opens inner closes =>
    intro ts rest ts_eq ended
    rw [List.cons_append, enclosed_append] at ts_eq
    subst ts_eq
    obtain ⟨h, inner_read⟩ := (reads_arithmetic inner).before (by rw [closes]; decide) rest
    refine ⟨Nat.lt_succ_of_lt (rest_lt_enclosed opening close us rest), ?_⟩
    rw [target]
    simp only [Attempt.result_bind, Except.bind, expect_of_kind (.targetName use) kind,
      accept?_of_kind opens, inner_read, expect_of_kind (.targetIndexEnd use) closes]
    rfl

theorem reads_elements {us : List Token} {es : List Expr} (located : Located.Elements us es) :
    Reads commaList (.comma :: sumTail) us es := by
  induction located with
  | one first =>
    intro ts rest ts_eq ended
    obtain ⟨h, read⟩ := reads_arithmetic first ts_eq (ended.mono (by decide))
    refine ⟨h, ?_⟩
    have alone : accept? .comma rest = none := accept?_eq_none (ended.mono (by decide))
    rw [commaList]
    simp only [Attempt.result_bind, Except.bind, read, alone]
    rfl
  | @more us vs comma e es first separates _ ih =>
    intro ts rest ts_eq ended
    rw [List.append_assoc, List.cons_append] at ts_eq
    have stop : Ended sumTail (comma :: (vs ++ rest)) := by
      rw [ended_cons, separates]
      decide
    obtain ⟨h, read⟩ := reads_arithmetic first ts_eq stop
    obtain ⟨h', others_read⟩ := ih rfl ended
    refine ⟨Nat.lt_trans h' (Nat.lt_of_succ_lt h), ?_⟩
    rw [commaList]
    simp only [Attempt.result_bind, Except.bind, read, accept?_of_kind separates, others_read]
    rfl

theorem accept?_of_opensFactor (kind : Kind) {ts : List Token} (opens : opensFactor ts = true)
    (other : kind ∉ [.identifier, .boolean, .integer, .leftParen]) : accept? kind ts = none := by
  cases ts with
  | nil => rfl
  | cons t rest =>
    refine accept?_eq_none (ended_cons.mpr fun mem => other ?_)
    rw [← List.mem_singleton.mp mem]
    exact List.contains_iff_mem.mp opens

theorem opensFactor_of_elements {us : List Token} {es : List Expr}
    (located : Located.Elements us es) (rest : List Token) : opensFactor (us ++ rest) = true := by
  cases located with
  | one first => exact opensFactor_of_located first rest
  | more first =>
    rw [List.append_assoc]
    exact opensFactor_of_located first _

theorem reads_stored {us : List Token} {v : Rhs} (located : Located.Stored us v) :
    Reads rhs sumTail us v := by
  intro ts rest ts_eq ended
  cases located with
  | scalar value =>
    obtain ⟨h, read⟩ := reads_arithmetic value ts_eq ended
    refine ⟨h, ?_⟩
    have opens : opensFactor ts = true := ts_eq ▸ opensFactor_of_located value rest
    rw [rhs]
    simp only [accept?_of_opensFactor .leftBracket opens (by decide),
      Attempt.result_bind, Except.bind, read]
    rfl
  | emptyVector opens closes =>
    simp only [List.cons_append, List.nil_append] at ts_eq
    subst ts_eq
    refine ⟨Nat.lt_succ_of_lt (Nat.lt_succ_self _), ?_⟩
    rw [rhs]
    simp only [accept?_of_kind opens, vector, accept?_of_kind closes, Attempt.result_bind,
      Attempt.result_visit, Except.bind]
    rfl
  | @vector opening close us es opens inner closes =>
    rw [enclosed_append] at ts_eq
    subst ts_eq
    have stop : Ended (.comma :: sumTail) (close :: rest) := by
      rw [ended_cons, closes]
      decide
    obtain ⟨h, inner_read⟩ := reads_elements inner rfl stop
    have begins := opensFactor_of_elements inner (close :: rest)
    refine ⟨rest_lt_enclosed opening close us rest, ?_⟩
    rw [rhs]
    simp only [accept?_of_kind opens, vector,
      accept?_of_opensFactor .rightBracket begins (by decide), Attempt.result_bind,
      Attempt.result_visit, Except.bind, inner_read, expect_of_kind .vectorEnd closes]
    rfl

theorem head_of_located {us : List Token} {s : Stmt} (located : Located.Statement us s) :
    ∃ t vs, us = t :: vs ∧ t.kind ∈ openers := by
  cases located with
  | assign left =>
    cases left with
    | whole kind | element kind => exact ⟨_, _, rfl, by rw [kind]; decide⟩
  | invoke kind | declare kind | swap kind | ifThen kind | ifElse kind | loop kind | print kind =>
    exact ⟨_, _, rfl, by rw [kind]; decide⟩

theorem head_of_statement {xs : List Lexeme} {s : Stmt} (phrase : Statement xs s) :
    ∃ x ys, xs = x :: ys ∧ x.kind ∈ openers := by
  cases phrase with
  | assign left =>
    cases left with
    | whole kind | element kind => exact ⟨_, _, rfl, by rw [kind]; decide⟩
  | invoke kind | declare kind | swap kind | ifThen kind | ifElse kind | loop kind | print kind =>
    exact ⟨_, _, rfl, by rw [kind]; decide⟩

theorem ended_of_statements {us rest : List Token} {body : List Stmt}
    (located : Located.Statements us body) (ended : Ended statementTail rest) :
    Ended statementTail (us ++ rest) := by
  cases located with
  | nil => exact ended
  | cons first =>
    obtain ⟨t, vs, rfl, opens⟩ := head_of_located first
    have apart : ∀ kind ∈ openers, kind ∉ statementTail := by decide
    exact ended_cons.mpr (apart _ opens)

theorem reads_assignment {us vs : List Token} {sign : Token} {place : Target} {value : Rhs}
    (left : Located.Place us place) (kind : sign.kind = .equal) (right : Located.Stored vs value) :
    Reads assignment sumTail (us ++ sign :: vs)
      (.assign place value (place.span.cover value.span)) := by
  intro ts rest ts_eq ended
  rw [List.append_assoc, List.cons_append] at ts_eq
  have stop : Ended factorTail (sign :: (vs ++ rest)) := by
    rw [ended_cons, kind]
    decide
  obtain ⟨h, left_read⟩ := reads_target .assignment left ts_eq stop
  obtain ⟨h', right_read⟩ := reads_stored right rfl ended
  refine ⟨Nat.lt_trans h' (Nat.lt_of_succ_lt h), ?_⟩
  rw [assignment]
  simp only [Attempt.result_bind, Attempt.result_visit, Except.bind, left_read,
    expect_of_kind .assignmentSign kind, right_read]
  rfl

theorem ended_of_place {us : List Token} {place : Target} (located : Located.Place us place)
    (rest : List Token) : Ended factorTail (us ++ rest) := by
  cases located with
  | whole kind | element kind =>
    rw [List.cons_append, ended_cons, kind]
    decide

theorem reads_exchange (word : Token) {us vs : List Token} {left right : Target}
    (first : Located.Place us left) (second : Located.Place vs right) :
    Reads (exchange word) factorTail (us ++ vs)
      (.swap left right (word.span.cover right.span)) := by
  intro ts rest ts_eq ended
  rw [List.append_assoc] at ts_eq
  obtain ⟨h, left_read⟩ := reads_target .swap first ts_eq (ended_of_place second rest)
  obtain ⟨h', right_read⟩ := reads_target .swap second rfl ended
  refine ⟨Nat.lt_trans h' h, ?_⟩
  rw [exchange]
  simp only [Attempt.result_bind, Attempt.result_visit, Except.bind, left_read, right_read]
  rfl

def ReadsBlock (us : List Token) (b : Block) : Prop :=
  ∀ (owner : BlockOwner) ⦃bound : Nat⦄ ⦃ts rest : List Token⦄ (h : ts.length < bound),
    ts = us ++ rest → ∃ fits,
      (block owner (fun rest (_ : rest.length < bound) => statement rest) ts h).result =
        .ok ⟨b, rest, fits⟩

def ReadsMany (us : List Token) (body : List Stmt) : Prop :=
  ∀ (stops : Kind → Bool) ⦃bound : Nat⦄ ⦃ts rest : List Token⦄ (h : ts.length < bound),
    ts = us ++ rest → (∀ kind ∈ openers, stops kind = false) →
    Ended statementTail rest → (∀ t ∈ rest.head?, stops t.kind = true) → ∃ fits,
      (many stops (fun rest (_ : rest.length < bound) => statement rest) ts h).result =
        .ok ⟨body, rest, fits⟩

theorem readsMany_nil : ReadsMany [] [] := by
  intro stops bound ts rest h ts_eq _ _ stop
  rw [List.nil_append] at ts_eq
  subst ts_eq
  refine ⟨h, ?_⟩
  cases ts with
  | nil => rw [many, Attempt.result_pure]
  | cons t rest => rw [many, if_pos (stop t rfl), Attempt.result_pure]

theorem readsMany_cons {us vs : List Token} {s : Stmt} {body : List Stmt}
    (located : Located.Statement us s) (first : Reads statement statementTail us s)
    (all : Located.Statements vs body) (others : ReadsMany vs body) :
    ReadsMany (us ++ vs) (s :: body) := by
  intro stops bound ts rest h ts_eq opening ended stop
  rw [List.append_assoc] at ts_eq
  obtain ⟨fits, first_read⟩ := first ts_eq (ended_of_statements all ended)
  obtain ⟨fits', others_read⟩ := others stops (Nat.lt_trans fits h) rfl opening ended stop
  refine ⟨fits', ?_⟩
  obtain ⟨t, us, rfl, opens⟩ := head_of_located located
  rw [List.cons_append] at ts_eq
  subst ts_eq
  rw [many, if_neg (by rw [opening _ opens]; decide)]
  simp only [Attempt.result_bind, Except.bind, first_read, others_read]
  rfl

theorem readsBlock_braces {opening close : Token} {us : List Token} {body : List Stmt}
    (opens : opening.kind = .leftBrace) (inner : ReadsMany us body)
    (closes : close.kind = .rightBrace) :
    ReadsBlock (opening :: (us ++ [close])) ⟨body, close.span⟩ := by
  intro owner bound ts rest h ts_eq
  rw [enclosed_append] at ts_eq
  subst ts_eq
  have ended : Ended statementTail (close :: rest) := by
    rw [ended_cons, closes]
    decide
  have stop : ∀ t ∈ (close :: rest).head?, (t.kind == .rightBrace) = true := by
    rintro _ ⟨⟩
    rw [closes]
    decide
  obtain ⟨fits, inner_read⟩ :=
    inner (· == .rightBrace) (Nat.lt_of_succ_lt h) rfl (by decide) ended stop
  refine ⟨Nat.lt_of_succ_lt fits, ?_⟩
  rw [block]
  simp only [Attempt.result_bind, Except.bind, expect_of_kind (.blockStart owner) opens,
    inner_read, expect_of_kind (.blockEnd owner) closes]
  rfl

theorem ended_of_block {us : List Token} {b : Block} (located : Located.Block us b)
    (rest : List Token) : Ended comparisonTail (us ++ rest) := by
  cases located with
  | braces opens =>
    rw [List.cons_append, ended_cons, opens]
    decide

section Statement

variable {t word : Token} {us vs ws : List Token} {s : Stmt} {condition : Expr} {b b' : Block}

theorem reads_assign {sign : Token} {place : Target} {value : Rhs}
    (left : Located.Place us place) (kind : sign.kind = .equal) (right : Located.Stored vs value) :
    Reads statement statementTail (us ++ sign :: vs)
      (.assign place value (place.span.cover value.span)) := by
  intro ts rest ts_eq ended
  obtain ⟨h, read⟩ := reads_assignment left kind right ts_eq (ended.mono (by decide))
  have named : ∃ t ts', ts = t :: ts' ∧ t.kind = .identifier := by
    cases left with
    | whole kind | element kind => exact ⟨_, _, ts_eq, kind⟩
  obtain ⟨t, ts', rfl, name⟩ := named
  refine ⟨h, ?_⟩
  rw [statement]
  simp only [Attempt.result_bind, Attempt.result_visit, Except.bind, name, read]

theorem reads_swap {left right : Target} (kind : word.kind = .swapWord)
    (first : Located.Place us left) (second : Located.Place vs right) :
    Reads statement statementTail (word :: (us ++ vs))
      (.swap left right (word.span.cover right.span)) := by
  intro ts rest ts_eq ended
  rw [List.cons_append] at ts_eq
  subst ts_eq
  obtain ⟨h, read⟩ := reads_exchange word first second rfl (ended.mono (by decide))
  refine ⟨Nat.lt_succ_of_lt h, ?_⟩
  rw [statement]
  simp only [Attempt.result_bind, Attempt.result_visit, Except.bind, kind, read]
  rfl

theorem reads_print {value : Expr} (kind : word.kind = .printWord)
    (printed : Located.Comparison us value) :
    Reads statement statementTail (word :: us) (.print value (word.span.cover value.span)) := by
  intro ts rest ts_eq ended
  rw [List.cons_append] at ts_eq
  subst ts_eq
  obtain ⟨h, read⟩ := reads_comparison printed rfl (ended.mono (by decide))
  refine ⟨Nat.lt_succ_of_lt h, ?_⟩
  rw [statement]
  simp only [Attempt.result_bind, Attempt.result_visit, Except.bind, kind, output, read]
  rfl

theorem reads_invoke {alone : Token} (kind : t.kind = .tag) (ends : alone.kind = .empty) :
    Reads statement statementTail [t, alone] (.invoke t.text t.span) := by
  intro ts rest ts_eq ended
  simp only [List.cons_append, List.nil_append] at ts_eq
  subst ts_eq
  refine ⟨Nat.lt_succ_of_lt (Nat.lt_succ_self _), ?_⟩
  rw [statement]
  simp only [Attempt.result_bind, Attempt.result_visit, Except.bind, kind, accept?_of_kind ends]
  rfl

theorem reads_declare (kind : t.kind = .tag) (located : Located.Statement us s)
    (declared : Reads statement statementTail us s) :
    Reads statement statementTail (t :: us) (.declare t.text s (t.span.cover s.span)) := by
  intro ts rest ts_eq ended
  rw [List.cons_append] at ts_eq
  subst ts_eq
  obtain ⟨h, body_read⟩ := declared rfl ended
  have named : accept? .empty (us ++ rest) = none := by
    obtain ⟨u, us, rfl, opens⟩ := head_of_located located
    have apart : ∀ kind ∈ openers, kind ∉ [Kind.empty] := by decide
    exact accept?_eq_none (ended_cons.mpr (apart _ opens))
  refine ⟨Nat.lt_succ_of_lt h, ?_⟩
  rw [statement]
  simp only [Attempt.result_bind, Attempt.result_visit, Attempt.result_declare, Except.bind, kind,
    named, body_read]
  rfl

theorem reads_ifThen (kind : word.kind = .ifWord) (test : Located.Comparison us condition)
    (located : Located.Block vs b) (body : ReadsBlock vs b) :
    Reads statement statementTail (word :: (us ++ vs))
      (.ifThen condition b.body (word.span.cover b.close)) := by
  intro ts rest ts_eq ended
  rw [List.cons_append, List.append_assoc] at ts_eq
  subst ts_eq
  obtain ⟨h, test_read⟩ := reads_comparison test rfl (ended_of_block located rest)
  obtain ⟨fits, body_read⟩ := body .ifWord h rfl
  have alone : accept? .elseWord rest = none := accept?_eq_none (ended.mono (by decide))
  refine ⟨Nat.lt_succ_of_lt fits, ?_⟩
  rw [statement]
  simp only [Attempt.result_bind, Attempt.result_visit, Except.bind, kind, test_read, body_read,
    alone]
  rfl

theorem reads_ifElse {otherwise : Token} (kind : word.kind = .ifWord)
    (test : Located.Comparison us condition) (located : Located.Block vs b)
    (body : ReadsBlock vs b) (kind' : otherwise.kind = .elseWord) (other : ReadsBlock ws b') :
    Reads statement statementTail (word :: (us ++ (vs ++ otherwise :: ws)))
      (.ifElse condition b.body b'.body (word.span.cover b'.close)) := by
  intro ts rest ts_eq ended
  simp only [List.cons_append, List.append_assoc] at ts_eq
  subst ts_eq
  obtain ⟨h, test_read⟩ :=
    reads_comparison test rfl (ended_of_block located (otherwise :: (ws ++ rest)))
  obtain ⟨fits, body_read⟩ := body .ifWord h rfl
  obtain ⟨fits', other_read⟩ := other .elseWord (Nat.lt_of_succ_lt fits) rfl
  refine ⟨Nat.lt_succ_of_lt fits', ?_⟩
  rw [statement]
  simp only [Attempt.result_bind, Attempt.result_visit, Except.bind, kind, test_read, body_read,
    accept?_of_kind kind', other_read]
  rfl

theorem reads_loop (kind : word.kind = .whileWord) (test : Located.Comparison us condition)
    (located : Located.Block vs b) (body : ReadsBlock vs b) :
    Reads statement statementTail (word :: (us ++ vs))
      (.loop condition b.body (word.span.cover b.close)) := by
  intro ts rest ts_eq ended
  rw [List.cons_append, List.append_assoc] at ts_eq
  subst ts_eq
  obtain ⟨h, test_read⟩ := reads_comparison test rfl (ended_of_block located rest)
  obtain ⟨fits, body_read⟩ := body .whileWord h rfl
  refine ⟨Nat.lt_succ_of_lt fits, ?_⟩
  rw [statement]
  simp only [Attempt.result_bind, Attempt.result_visit, Except.bind, kind, test_read, body_read]
  rfl

end Statement

mutual

theorem reads_statement {us : List Token} {s : Stmt} (located : Located.Statement us s) :
    Reads statement statementTail us s := by
  match located with
  | .assign left kind right => exact reads_assign left kind right
  | .invoke kind ends => exact reads_invoke kind ends
  | .declare kind declared => exact reads_declare kind declared (reads_statement declared)
  | .swap kind first second => exact reads_swap kind first second
  | .ifThen kind test body => exact reads_ifThen kind test body (reads_block body)
  | .ifElse kind test body kind' other =>
    exact reads_ifElse kind test body (reads_block body) kind' (reads_block other)
  | .loop kind test body => exact reads_loop kind test body (reads_block body)
  | .print kind printed => exact reads_print kind printed

theorem reads_block {us : List Token} {b : Block} (located : Located.Block us b) :
    ReadsBlock us b := by
  match located with
  | .braces opens inner closes => exact readsBlock_braces opens (reads_statements inner) closes

theorem reads_statements {us : List Token} {body : List Stmt}
    (located : Located.Statements us body) : ReadsMany us body := by
  match located with
  | .nil => exact readsMany_nil
  | .cons first others =>
    exact readsMany_cons first (reads_statement first) others (reads_statements others)

end

/-- Tokens that are statements with these spans are read as them. -/
theorem statementList_of_located {ts : List Token} {body : List Stmt}
    (located : Located.Statements ts body) : (statementList ts).result = .ok body := by
  obtain ⟨h, read⟩ := reads_statements located (fun _ => false) (Nat.lt_succ_self ts.length)
    (List.append_nil ts).symm (fun _ _ => rfl) nofun nofun
  rw [statementList, Attempt.result_bind, read]
  rfl

theorem wholeComparison_of_located {ts : List Token} {e : Expr}
    (located : Located.Comparison ts e) : (wholeComparison ts).result = .ok e := by
  obtain ⟨h, read⟩ := reads_comparison located (List.append_nil ts).symm nofun
  rw [wholeComparison, Attempt.result_bind, read]
  rfl

theorem read_of_statements {ts : List Token} {trees : List Stmt}
    (phrase : Statements (lexemes ts) trees) :
    ∃ body, (statementList ts).result = .ok body ∧ Stmt.eraseAll body = trees := by
  obtain ⟨body, located, erase_eq⟩ := Located.exists_statements phrase rfl
  exact ⟨body, statementList_of_located located, erase_eq⟩

theorem read_of_comparison {ts : List Token} {tree : Expr}
    (phrase : Comparison (lexemes ts) tree) :
    ∃ e, (wholeComparison ts).result = .ok e ∧ e.erase = tree := by
  obtain ⟨e, located, erase_eq⟩ := Located.exists_comparison phrase rfl
  exact ⟨e, wholeComparison_of_located located, erase_eq⟩

theorem located_of_statementList {ts : List Token} {body : List Stmt}
    (read : (statementList ts).result = .ok body) : Located.Statements ts body := by
  obtain ⟨body', located, -⟩ := Located.exists_statements (statements_of_read read) rfl
  cases read.symm.trans (statementList_of_located located)
  exact located

theorem located_of_wholeComparison {ts : List Token} {e : Expr}
    (read : (wholeComparison ts).result = .ok e) : Located.Comparison ts e := by
  obtain ⟨e', located, -⟩ := Located.exists_comparison (comparison_of_read read) rfl
  cases read.symm.trans (wholeComparison_of_located located)
  exact located

end TagScript.Reading

namespace TagScript

open Grammar Reading Token

theorem Program.ofTokens_eq_ok_iff {ts : List Token} {p : Program} :
    Program.ofTokens ts = .ok p ↔ (statementList ts).result = .ok p.statements ∧
      p.tags = tagNames ts ∧ p.bindings = (statementList ts).bindings := by
  unfold Program.ofTokens
  dsimp only
  cases (statementList ts).result with
  | error f => simp
  | ok body =>
    obtain ⟨statements, tags, bindings⟩ := p
    simp only [Except.ok.injEq, Program.mk.injEq]
    constructor
    · rintro ⟨rfl, rfl, rfl⟩
      exact ⟨rfl, rfl, rfl⟩
    · rintro ⟨rfl, rfl, rfl⟩
      exact ⟨rfl, rfl, rfl⟩

theorem Expr.ofTokens_eq_ok_iff {ts : List Token} {e : Expr} :
    Expr.ofTokens ts = .ok e ↔ (wholeComparison ts).result = .ok e := by
  unfold Expr.ofTokens
  cases (wholeComparison ts).result with
  | error f => simp
  | ok e' => simp

theorem Program.ofSource_eq_ok_iff {source : String} {ts : List Token} {p : Program} :
    ofSource source = .ok (ts, p) ↔ scan source = .ok ts ∧ ofTokens ts = .ok p := by
  unfold ofSource
  cases scan source with
  | error e => simp
  | ok ts' =>
    dsimp only
    cases read : Program.ofTokens ts' with
    | error e =>
      constructor
      · exact nofun
      · rintro ⟨⟨⟩, read'⟩
        rw [read] at read'
        cases read'
    | ok p' =>
      constructor
      · rintro ⟨⟩
        exact ⟨rfl, read⟩
      · rintro ⟨⟨⟩, read'⟩
        rw [read] at read'
        cases read'
        rfl

theorem Program.exists_of_scan {source : String} {ts : List Token} {trees : List Stmt}
    (scanned : scan source = .ok ts) (phrase : Statements (lexemes ts) trees) :
    ∃ p, ofSource source = .ok (ts, p) ∧ Stmt.eraseAll p.statements = trees := by
  obtain ⟨body, read, erase_eq⟩ := read_of_statements phrase
  have accepted : ofTokens ts = .ok ⟨body, tagNames ts, (statementList ts).bindings⟩ :=
    ofTokens_eq_ok_iff.mpr ⟨read, rfl, rfl⟩
  exact ⟨_, ofSource_eq_ok_iff.mpr ⟨scanned, accepted⟩, erase_eq⟩

theorem Expr.ofSource_eq_ok_iff {source : String} {e : Expr} :
    ofSource source = .ok e ↔ ∃ ts, scan source = .ok ts ∧ ofTokens ts = .ok e := by
  unfold ofSource
  cases scan source with
  | error f => simp
  | ok ts =>
    simp only [Except.ok.injEq, exists_eq_left']
    cases ofTokens ts with
    | error f => simp
    | ok e' => simp

theorem Grammar.statements_iff_of_read {ts : List Token} {body : List Stmt}
    (read : (statementList ts).result = .ok body) {trees : List Stmt} :
    Statements (lexemes ts) trees ↔ trees = Stmt.eraseAll body := by
  constructor
  · intro phrase
    obtain ⟨body', read', erase_eq⟩ := read_of_statements phrase
    rw [read] at read'
    cases read'
    exact erase_eq.symm
  · rintro rfl
    exact statements_of_read read

theorem Grammar.comparison_iff_of_read {ts : List Token} {e : Expr}
    (read : (wholeComparison ts).result = .ok e) {tree : Expr} :
    Comparison (lexemes ts) tree ↔ tree = e.erase := by
  constructor
  · intro phrase
    obtain ⟨e', read', erase_eq⟩ := read_of_comparison phrase
    rw [read] at read'
    cases read'
    exact erase_eq.symm
  · rintro rfl
    exact comparison_of_read read

/-- Tokens are read as a program just when the grammar derives them, and as the
only tree that it gives them; so too for tokens that are one comparison. -/
theorem Reading.reads_iff_derives (ts : List Token) :
    ((∃ p, Program.ofTokens ts = .ok p) ↔ ∃ trees, Statements (lexemes ts) trees) ∧
    (∀ p, Program.ofTokens ts = .ok p →
      ∀ trees, Statements (lexemes ts) trees ↔ trees = Stmt.eraseAll p.statements) ∧
    ((∃ e, Expr.ofTokens ts = .ok e) ↔ ∃ tree, Comparison (lexemes ts) tree) ∧
    ∀ e, Expr.ofTokens ts = .ok e → ∀ tree, Comparison (lexemes ts) tree ↔ tree = e.erase := by
  refine ⟨⟨?_, ?_⟩, ?_, ⟨?_, ?_⟩, ?_⟩
  · rintro ⟨p, accepted⟩
    exact ⟨_, statements_of_read (Program.ofTokens_eq_ok_iff.mp accepted).1⟩
  · rintro ⟨trees, phrase⟩
    obtain ⟨body, read, -⟩ := read_of_statements phrase
    exact ⟨⟨body, tagNames ts, _⟩, Program.ofTokens_eq_ok_iff.mpr ⟨read, rfl, rfl⟩⟩
  · intro p accepted trees
    exact statements_iff_of_read (Program.ofTokens_eq_ok_iff.mp accepted).1
  · rintro ⟨e, accepted⟩
    exact ⟨_, comparison_of_read (Expr.ofTokens_eq_ok_iff.mp accepted)⟩
  · rintro ⟨tree, phrase⟩
    obtain ⟨e, read, -⟩ := read_of_comparison phrase
    exact ⟨e, Expr.ofTokens_eq_ok_iff.mpr read⟩
  · intro e accepted tree
    exact comparison_iff_of_read (Expr.ofTokens_eq_ok_iff.mp accepted)

end TagScript
