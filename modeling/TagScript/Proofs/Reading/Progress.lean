import TagScript.Proofs.Reading.Following

/-! Reading makes progress. Each procedure of the reader with a cursor does what the attempt
on the tokens ahead does, as long as its calls do so on what they are left with. A call is
left with fewer tokens than there were, or, on as many, with a smaller construct. So calls
need no more depth than three for each token and three besides, and no loop goes round for
ever, whatever the tokens are. -/
namespace TagScript.Cursor

open Reading

variable {tokens ts : List Token} {c : Nat} {t : Token}

def Agrees {α : Type} {bound : Nat} (tokens : List Token) (m : Reader α) (ts : List Token)
    (x : Attempt (Parsed α bound)) : Prop :=
  ∀ c, Ahead tokens c ts → Follows tokens c m x (Reads tokens)

/-- The test says whether there is a token and it is none that stops. -/
structure GoesOn (tokens : List Token) (goesOn : Reader Bool) (stops : Kind → Bool) : Prop where
  nil : ∀ c, Ahead tokens c [] → Yields tokens c goesOn false c
  cons : ∀ c t ts, Ahead tokens c (t :: ts) → Yields tokens c goesOn (!stops t.kind) c

theorem goesOn_beforeEnd : GoesOn tokens beforeEnd fun _ => false where
  nil _ ahead := (yields_atEnd ahead).andThen (yields_pure false)
  cons _ _ _ ahead := (yields_atEnd ahead).andThen (yields_pure true)

theorem goesOn_inBlock : GoesOn tokens inBlock (· == .rightBrace) where
  nil _ ahead := (yields_check ahead).andThen ((yields_atEnd ahead).andThen (yields_pure false))
  cons c t ts ahead := by
    have found : (accept? .rightBrace (t :: ts)).isSome = (t.kind == .rightBrace) :=
      isSome_accept? .rightBrace (t :: ts)
    rw [← found, ← Bool.and_true (!_)]
    exact (yields_check ahead).andThen ((yields_atEnd ahead).andThen (yields_pure _))

/-- The calls do what the attempts do, wherever the tokens are few enough for the depth. A
loop collects in front of it what the attempt puts together after it. -/
structure Serves (tokens : List Token) (call : Calls) (depth : Nat) : Prop where
  arithmetic : ∀ level ts, 3 * ts.length + level.rank < depth →
    Agrees tokens (call.arithmetic level) ts (Reading.arithmetic level ts)
  chain : ∀ {operator? level left ts} {bound : Nat} (h : ts.length < bound),
    3 * ts.length < depth → Agrees tokens (call.chain operator? level left) ts
      (Reading.chain operator? (fun rest _ => Reading.arithmetic level rest) left ts h)
  commaList : ∀ done ts, 3 * ts.length + 3 < depth → ∀ c, Ahead tokens c ts →
    Follows tokens c (call.commaList done) (Reading.commaList ts) fun all p d =>
      all = done ++ p.value ∧ Ahead tokens d p.rest
  statement : ∀ ts, 3 * ts.length < depth →
    Agrees tokens call.statement ts (Reading.statement ts)
  many : ∀ {goesOn stops}, GoesOn tokens goesOn stops → ∀ done {ts} {bound : Nat}
    (h : ts.length < bound), 3 * ts.length + 1 < depth → ∀ c, Ahead tokens c ts →
    Follows tokens c (call.many goesOn done)
      (Reading.many stops (fun rest _ => Reading.statement rest) ts h) fun all p d =>
      all = done ++ p.value ∧ Ahead tokens d p.rest ∧ c ≤ d

variable {call : Calls} {depth : Nat}

section Expressions

theorem follows_operand {level : Level} {x : Attempt (Parsed Expr ts.length)}
    (read : Agrees tokens (call.arithmetic level) ts x) (behind : Behind tokens c t)
    (ahead : Ahead tokens c ts) (opens : opensFactor ts) :
    Follows tokens c (operand call level) x (Reads tokens) := by
  refine yields_place.andThen ((yields_expectFactor behind ahead opens).andThen ?_)
  exact (read c ahead).complete .operand ahead (Nat.le_refl _)

theorem fails_operand {level : Level} (behind : Behind tokens c t) (ahead : Ahead tokens c ts)
    (opens : ¬opensFactor ts) :
    Fails tokens c (operand call level) (.noOperand t.text) (some t.span) :=
  yields_place.andThen (fails_expectFactor behind ahead opens).bind

variable (serves : Serves tokens call depth)

include serves

theorem agrees_chain {operator? : Kind → Option BinaryOp} {level : Level} (left : Expr)
    {bound : Nat} (h : ts.length < bound) (deep : 3 * ts.length < depth + 1) :
    Agrees tokens (chain call operator? level left) ts
      (Reading.chain operator? (fun rest _ => Reading.arithmetic level rest) left ts h) := by
  intro c ahead
  cases ts with
  | nil =>
    rw [Reading.chain]
    exact (yields_matchOperator_of_none ahead rfl).andThen (.pure ⟨rfl, ahead⟩)
  | cons t ts =>
    rw [Reading.chain]
    split
    case _ stop =>
      exact (yields_matchOperator_of_none ahead stop).andThen (.pure ⟨rfl, ahead⟩)
    case _ op operator =>
      refine (yields_matchOperator ahead operator).andThen ?_
      have shorter : 3 * ts.length + 3 ≤ depth := Nat.le_of_lt_succ deep
      by_cases opens : opensFactor ts
      · rw [if_pos opens]
        have rank_le : level.rank ≤ 2 := by cases level <;> decide
        have read := serves.arithmetic level ts (by omega)
        refine (follows_operand read ahead.behind ahead.tail opens).bind ?_
        rintro _ right d ⟨rfl, ahead'⟩
        have := right.fits
        exact serves.chain _ (by omega) d ahead'
      · rw [if_neg opens]
        exact (fails_operand ahead.behind ahead.tail opens).bind.follows

theorem follows_factor (deep : 3 * (t :: ts).length < depth + 1)
    (ahead : Ahead tokens c (t :: ts)) :
    Follows tokens c (arithmetic call .factor) (Reading.arithmetic .factor (t :: ts))
      (Reads tokens) := by
  have shorter : 3 * ts.length + 3 ≤ depth := Nat.le_of_lt_succ deep
  rw [Reading.arithmetic]
  refine yields_place.andThen (.visit _ ((yields_peek ahead).andThen ?_))
  refine Follows.complete ?_ .factor ahead (Nat.le_refl _)
  rw [List.head?_cons, factor]
  generalize t.kind = kind
  cases kind with
  | integer =>
    refine (yields_advance ahead).andThen ?_
    dsimp only
    cases Integer.read? t.text.toList with
    | none => exact (fails_failAt _ _).follows
    | some n => exact .pure ⟨rfl, ahead.tail⟩
  | boolean => exact (yields_advance ahead).andThen (.pure ⟨rfl, ahead.tail⟩)
  | identifier =>
    refine (yields_advance ahead).andThen ?_
    dsimp only
    split
    case _ other =>
      refine (yields_matchKind_of_none ahead.tail other).elseBranch ?_
      refine (yields_previous ahead.behind).andThen ?_
      rw [Span.cover_self]
      exact .pure ⟨rfl, ahead.tail⟩
    case _ opening accepted =>
      have := opening.fits
      have read := serves.arithmetic .sum opening.rest (by rw [Level.rank]; omega)
      refine (yields_matchKind ahead.tail accepted).thenBranch ?_
      refine (read _ (ahead.tail.past accepted)).bind ?_
      rintro _ index d ⟨rfl, after⟩
      refine (follows_consume after .indexEnd).bind ?_
      rintro _ close e ⟨⟨rfl, rest⟩, behind⟩
      exact (yields_previous behind).andThen (.pure ⟨rfl, rest⟩)
  | leftParen =>
    have read := serves.arithmetic .sum ts (by rw [Level.rank]; omega)
    refine (yields_advance ahead).andThen ((read _ ahead.tail).bind ?_)
    rintro _ inner d ⟨rfl, after⟩
    refine (follows_consume after .groupEnd).bind ?_
    rintro _ close e ⟨⟨rfl, rest⟩, -⟩
    exact .pure ⟨rfl, rest⟩
  | _ => exact (fails_failAt _ _).follows

theorem agrees_arithmetic (level : Level) (deep : 3 * ts.length + level.rank < depth + 1) :
    Agrees tokens (arithmetic call level) ts (Reading.arithmetic level ts) := by
  intro c ahead
  cases level with
  | sum =>
    have enough : 3 * ts.length + 1 < depth := Nat.lt_of_succ_lt_succ deep
    rw [Reading.arithmetic]
    refine yields_place.andThen (.visit _ ((serves.arithmetic .term ts enough c ahead).bind ?_))
    rintro _ first d ⟨rfl, ahead'⟩
    have := first.fits
    exact (serves.chain _ (by omega) d ahead').complete .expression ahead (Nat.le_refl _)
  | term =>
    have enough : 3 * ts.length < depth := Nat.lt_of_succ_lt_succ deep
    rw [Reading.arithmetic]
    refine yields_place.andThen (.visit _ ((serves.arithmetic .factor ts enough c ahead).bind ?_))
    rintro _ first d ⟨rfl, ahead'⟩
    have := first.fits
    exact (serves.chain _ (by omega) d ahead').complete .term ahead (Nat.le_refl _)
  | factor =>
    cases ts with
    | nil =>
      rw [Reading.arithmetic]
      refine yields_place.andThen (.visit _ ((yields_peek ahead).andThen ?_))
      rw [List.head?_nil, factor]
      exact (fails_failAtEnd _).bind.follows
    | cons t ts => exact follows_factor serves deep ahead

theorem agrees_comparison (deep : 3 * ts.length + 2 < depth) :
    Agrees tokens (comparison call) ts (Reading.comparison ts) := by
  intro c ahead
  refine yields_place.andThen (.visit _ ((serves.arithmetic .sum ts deep c ahead).bind ?_))
  rintro _ first d ⟨rfl, ahead'⟩
  have := first.fits
  exact (serves.chain _ (by omega) d ahead').complete .comparison ahead (Nat.le_refl _)

end Expressions

section Parts

variable (serves : Serves tokens call depth)

include serves

theorem agrees_target (use : TargetUse) (deep : 3 * ts.length ≤ depth) :
    Agrees tokens (target call use) ts (Reading.target use ts) := by
  intro c ahead
  refine yields_place.andThen ((follows_consume ahead _).bind ?_)
  rintro _ name d ⟨⟨rfl, ahead'⟩, behind⟩
  split
  case _ other =>
    refine (yields_matchKind_of_none ahead' other).elseBranch ?_
    refine (yields_previous behind).andThen ?_
    rw [Span.cover_self]
    refine Reads.complete ?_ .target ahead (Nat.le_refl _)
    exact ⟨rfl, ahead'⟩
  case _ opening accepted =>
    have := name.fits
    have := opening.fits
    have read := serves.arithmetic .sum opening.rest (by rw [Level.rank]; omega)
    refine (yields_matchKind ahead' accepted).thenBranch ?_
    refine (read _ (ahead'.past accepted)).bind ?_
    rintro _ index e ⟨rfl, after⟩
    refine (follows_consume after (.targetIndexEnd use)).bind ?_
    rintro _ close e ⟨⟨rfl, rest⟩, behind⟩
    refine (yields_previous behind).andThen ?_
    refine Reads.complete ?_ .target ahead (Nat.le_refl _)
    exact ⟨rfl, rest⟩

theorem follows_commaList (done : List Expr) (deep : 3 * ts.length + 3 < depth + 1)
    (ahead : Ahead tokens c ts) :
    Follows tokens c (commaList call done) (Reading.commaList ts) fun all p d =>
      all = done ++ p.value ∧ Ahead tokens d p.rest := by
  rw [Reading.commaList]
  refine (serves.arithmetic .sum ts (Nat.lt_of_succ_lt_succ deep) c ahead).bind ?_
  rintro _ first d ⟨rfl, ahead'⟩
  split
  case _ other =>
    refine (yields_matchKind_of_none ahead' other).elseBranch ?_
    exact .pure ⟨rfl, ahead'⟩
  case _ comma accepted =>
    have := first.fits
    have := comma.fits
    have again := serves.commaList (done ++ [first.value]) comma.rest (by omega)
    refine (yields_matchKind ahead' accepted).thenBranch ?_
    refine (again _ (ahead'.past accepted)).map ?_
    rintro _ others e ⟨rfl, rest⟩
    exact ⟨List.append_assoc _ _ _, rest⟩

omit serves in
theorem yields_elements {close : Parsed Token ts.length} (ahead : Ahead tokens c ts)
    (closed : accept? .rightBracket ts = some close) : Yields tokens c (elements call) [] c := by
  refine (yields_check_of_some ahead closed).thenBranch ?_
  exact yields_pure []

theorem follows_elements (deep : 3 * ts.length + 3 < depth) (ahead : Ahead tokens c ts)
    (other : accept? .rightBracket ts = none) :
    Follows tokens c (elements call) (Reading.commaList ts) (Reads tokens) := by
  refine (yields_check_of_none ahead other).elseBranch ?_
  exact serves.commaList [] ts deep c ahead

theorem follows_vector {opening : Token} (deep : 3 * ts.length + 3 < depth)
    (ahead : Ahead tokens c (opening :: ts)) :
    Follows tokens c (vector call) (Reading.vector opening ts) (Reads tokens) := by
  refine yields_place.andThen (.visit _ ((yields_advance ahead).andThen ?_))
  split
  case _ close accepted =>
    have closed := ahead.tail.of_accept? accepted
    refine (yields_elements ahead.tail accepted).andThen ?_
    have kind : close.value.kind = Expected.vectorEnd.kind := (accept?_eq_some accepted).2
    refine (yields_consume closed kind).andThen ?_
    refine Reads.complete ?_ .vector ahead (Nat.le_succ _)
    exact ⟨rfl, closed.tail⟩
  case _ other =>
    refine (follows_elements serves deep ahead.tail other).bind ?_
    rintro _ all d ⟨rfl, after⟩
    refine (follows_consume after .vectorEnd).bind ?_
    rintro _ close e ⟨⟨rfl, rest⟩, -⟩
    refine Reads.complete ?_ .vector ahead (Nat.le_succ _)
    exact ⟨rfl, rest⟩

theorem agrees_rhs (deep : 3 * ts.length + 2 < depth) :
    Agrees tokens (rhs call) ts (Reading.rhs ts) := by
  intro c ahead
  rw [Reading.rhs]
  split
  case _ opening accepted =>
    have := opening.fits
    refine (yields_check_of_some ahead accepted).thenBranch ?_
    have read := follows_vector serves (by omega) (ahead.of_accept? accepted)
    exact read.map fun _ _ _ reads => reads
  case _ other =>
    refine (yields_check_of_none ahead other).elseBranch ?_
    refine (serves.arithmetic .sum ts deep c ahead).bind ?_
    rintro _ value d ⟨rfl, rest⟩
    exact .pure ⟨rfl, rest⟩

end Parts

section Statements

/-- The reader has the statements of a block and is past the brace that closes it. -/
def BlockReads {n : Nat} (tokens : List Token) (body : List Stmt) (p : Parsed Block n)
    (d : Nat) : Prop :=
  body = p.value.body ∧ Ahead tokens d p.rest ∧ ∃ close, Behind tokens d close ∧
    close.span = p.value.close

variable (serves : Serves tokens call depth)

include serves

theorem agrees_assignment (deep : 3 * ts.length ≤ depth) :
    Agrees tokens (assignment call) ts (Reading.assignment ts) := by
  intro c ahead
  refine yields_place.andThen (.visit _ ((agrees_target serves .assignment deep c ahead).bind ?_))
  rintro _ left d ⟨rfl, ahead'⟩
  refine (follows_consume ahead' .assignmentSign).bind ?_
  rintro _ sign e ⟨⟨rfl, after⟩, -⟩
  have := left.fits
  have := sign.fits
  refine (agrees_rhs serves (by omega) _ after).bind ?_
  rintro _ value f ⟨rfl, rest⟩
  refine Reads.complete ?_ .assignment ahead (Nat.le_refl _)
  exact ⟨rfl, rest⟩

variable {word : Token}

theorem follows_swap (deep : 3 * ts.length + 3 ≤ depth) (ahead : Ahead tokens c (word :: ts)) :
    Follows tokens c (swap call) (exchange word ts) (Reads tokens) := by
  refine yields_place.andThen (.visit _ ((yields_advance ahead).andThen ?_))
  refine (agrees_target serves .swap (by omega) _ ahead.tail).bind ?_
  rintro _ left d ⟨rfl, ahead'⟩
  have := left.fits
  refine (agrees_target serves .swap (by omega) _ ahead').bind ?_
  rintro _ right e ⟨rfl, rest⟩
  refine Reads.complete ?_ .swap ahead (Nat.le_succ _)
  exact ⟨rfl, rest⟩

theorem follows_printStatement (deep : 3 * ts.length + 3 ≤ depth)
    (ahead : Ahead tokens c (word :: ts)) :
    Follows tokens c (printStatement call) (output word ts) (Reads tokens) := by
  refine yields_place.andThen (.visit _ ((yields_advance ahead).andThen ?_))
  refine (agrees_comparison serves deep _ ahead.tail).bind ?_
  rintro _ value d ⟨rfl, rest⟩
  refine Reads.complete ?_ .printStatement ahead (Nat.le_succ _)
  exact ⟨rfl, rest⟩

/-- Each statement takes tokens, so that the loop has fewer to go on with. -/
theorem follows_many {goesOn : Reader Bool} {stops : Kind → Bool}
    (test : GoesOn tokens goesOn stops) (done : List Stmt) {bound : Nat} (h : ts.length < bound)
    (deep : 3 * ts.length + 1 < depth + 1) (ahead : Ahead tokens c ts) :
    Follows tokens c (many call goesOn done)
      (Reading.many stops (fun rest _ => Reading.statement rest) ts h) fun all p d =>
      all = done ++ p.value ∧ Ahead tokens d p.rest ∧ c ≤ d := by
  cases ts with
  | nil =>
    rw [Reading.many]
    refine (test.nil c ahead).elseBranch (.pure ?_)
    exact ⟨(List.append_nil done).symm, ahead, Nat.le_refl c⟩
  | cons t ts =>
    have tested := test.cons c t ts ahead
    rw [Reading.many]
    cases stop : stops t.kind with
    | true =>
      rw [stop] at tested
      refine tested.elseBranch (.pure ?_)
      exact ⟨(List.append_nil done).symm, ahead, Nat.le_refl c⟩
    | false =>
      rw [stop] at tested
      have read := serves.statement (t :: ts) (Nat.lt_of_succ_lt_succ deep)
      refine tested.thenBranch ((read c ahead).bind ?_)
      rintro _ first d ⟨rfl, ahead'⟩
      have lt : c < d := ahead.lt_of_length_lt ahead' first.fits
      have := first.fits
      have again := serves.many test (done ++ [first.value]) (Nat.lt_trans first.fits h)
        (by omega)
      refine (again d ahead').map ?_
      rintro _ others e ⟨rfl, rest, le⟩
      exact ⟨List.append_assoc _ _ _, rest, Nat.le_trans (Nat.le_of_lt lt) le⟩

theorem follows_block (owner : BlockOwner) {bound : Nat} (h : ts.length < bound)
    (deep : 3 * ts.length ≤ depth) (ahead : Ahead tokens c ts) :
    Follows tokens c (block call owner)
      (Reading.block owner (fun rest (_ : rest.length < bound) => Reading.statement rest) ts h)
      (BlockReads tokens) := by
  rw [Reading.block]
  refine yields_place.andThen ((follows_consume ahead (.blockStart owner)).bind ?_)
  rintro _ opening d ⟨⟨rfl, opened⟩, -⟩
  have lt : c < d := ahead.lt_of_length_lt opened opening.fits
  have := opening.fits
  have read := serves.many goesOn_inBlock [] (Nat.lt_trans opening.fits h) (by omega)
  refine (read d opened).bind ?_
  rintro _ body e ⟨rfl, after, le⟩
  refine (follows_consume after (.blockEnd owner)).bind ?_
  rintro _ close f ⟨⟨rfl, rest⟩, behind⟩
  have lt' : e < f := after.lt_of_length_lt rest close.fits
  refine follows_complete .block ?_ ⟨List.nil_append _, rest, close.value, behind, rfl⟩
  exact Nat.lt_trans (Nat.lt_of_lt_of_le lt le) lt'

/-- The body of a declaration is read from all tokens after the tag, the statements of a
block from fewer. -/
theorem follows_statement (deep : 3 * (t :: ts).length ≤ depth) (ahead : Ahead tokens c (t :: ts)) :
    Follows tokens c (statement call) (Reading.statement (t :: ts)) (Reads tokens) := by
  have shorter : 3 * ts.length + 3 ≤ depth := deep
  rw [Reading.statement]
  refine yields_place.andThen (yields_read.andThen ?_)
  rw [ahead.length_sub]
  refine .visit _ ((yields_peek ahead).andThen ?_)
  refine Follows.complete ?_ .statement ahead (Nat.le_refl _)
  rw [List.head?_cons, construct]
  generalize t.kind = kind
  cases kind with
  | identifier => exact agrees_assignment serves deep c ahead
  | tag =>
    refine yields_place.andThen (.visit _ ((yields_advance ahead).andThen ?_))
    split
    case _ alone accepted =>
      refine (yields_matchKind ahead.tail accepted).thenBranch ?_
      refine Reads.complete ?_ .tagStatement ahead (Nat.le_refl _)
      exact ⟨rfl, ahead.tail.past accepted⟩
    case _ other =>
      refine (yields_matchKind_of_none ahead.tail other).elseBranch ?_
      refine (serves.statement ts (by omega) _ ahead.tail).bind ?_
      rintro _ body d ⟨rfl, rest⟩
      refine (follows_declare _ _).bind ?_
      rintro _ _ _ rfl
      refine Reads.complete ?_ .tagStatement ahead (Nat.le_refl _)
      exact ⟨rfl, rest⟩
  | swapWord => exact (follows_swap serves shorter ahead).map fun _ _ _ reads => reads
  | ifWord =>
    refine yields_place.andThen (.visit _ ((yields_advance ahead).andThen ?_))
    refine (agrees_comparison serves shorter _ ahead.tail).bind ?_
    rintro _ condition d ⟨rfl, ahead'⟩
    have := condition.fits
    refine (follows_block serves .ifWord _ (by omega) ahead').bind ?_
    rintro _ body e ⟨rfl, after, close, behind, close_eq⟩
    split
    case _ other =>
      refine (yields_matchKind_of_none after other).elseBranch ?_
      refine (yields_previous behind).andThen ?_
      rw [close_eq]
      refine Reads.complete ?_ .ifStatement ahead (Nat.le_refl _)
      exact ⟨rfl, after⟩
    case _ word accepted =>
      have := body.fits
      have := word.fits
      refine (yields_matchKind after accepted).thenBranch ?_
      refine (follows_block serves .elseWord _ (by omega) (after.past accepted)).bind ?_
      rintro _ other f ⟨rfl, rest, close, behind, close_eq⟩
      refine (yields_previous behind).andThen ?_
      rw [close_eq]
      refine Reads.complete ?_ .ifStatement ahead (Nat.le_refl _)
      exact ⟨rfl, rest⟩
  | whileWord =>
    refine yields_place.andThen (.visit _ ((yields_advance ahead).andThen ?_))
    refine (agrees_comparison serves shorter _ ahead.tail).bind ?_
    rintro _ condition d ⟨rfl, ahead'⟩
    have := condition.fits
    refine (follows_block serves .whileWord _ (by omega) ahead').bind ?_
    rintro _ body e ⟨rfl, rest, close, behind, close_eq⟩
    refine (yields_previous behind).andThen ?_
    rw [close_eq]
    refine Reads.complete ?_ .whileStatement ahead (Nat.le_refl _)
    exact ⟨rfl, rest⟩
  | printWord => exact (follows_printStatement serves shorter ahead).map fun _ _ _ reads => reads
  | _ => exact (fails_failAt _ _).follows

theorem agrees_statement (deep : 3 * ts.length < depth + 1) :
    Agrees tokens (statement call) ts (Reading.statement ts) := by
  intro c ahead
  cases ts with
  | nil =>
    rw [Reading.statement]
    refine yields_place.andThen (yields_read.andThen ?_)
    rw [ahead.length_sub]
    refine .visit _ ((yields_peek ahead).andThen ?_)
    rw [List.head?_nil, construct]
    exact (fails_failAtEnd _).bind.follows
  | cons t ts => exact follows_statement serves (Nat.le_of_lt_succ deep) ahead

end Statements

namespace Serves

/-- Calls of procedures serve one deeper than the calls that these make. -/
theorem next (serves : Serves tokens call depth) : Serves tokens call.next (depth + 1) where
  arithmetic level _ deep := agrees_arithmetic serves level deep
  chain h deep := agrees_chain serves _ h deep
  commaList done _ deep _ ahead := follows_commaList serves done deep ahead
  statement _ deep := agrees_statement serves deep
  many test done _ _ h deep _ ahead := follows_many serves test done h deep ahead

theorem nested (tokens : List Token) : ∀ depth, Serves tokens (.nested depth) depth
  | 0 => ⟨nofun, nofun, nofun, nofun, nofun⟩
  | depth + 1 => (nested tokens depth).next

end Serves

/-! The readings of a whole list. -/

theorem follows_statementList (deep : 3 * ts.length + 3 ≤ depth) :
    Follows ts 0 ((Calls.nested depth).many beforeEnd []) (statementList ts)
      fun all body _ => all = body := by
  have read := (Serves.nested ts depth).many goesOn_beforeEnd [] (Nat.lt_succ_self ts.length)
    (by omega)
  refine (read 0 rfl).map ?_
  rintro _ all d ⟨rfl, -⟩
  exact List.nil_append _

theorem follows_wholeComparison (deep : 3 * ts.length + 3 ≤ depth) :
    Follows ts 0 (wholeComparison (.nested depth)) (Reading.wholeComparison ts)
      fun e e' _ => e = e' := by
  refine (agrees_comparison (Serves.nested ts depth) deep 0 rfl).bind ?_
  rintro _ whole d ⟨rfl, ahead⟩
  refine (yields_peek ahead).andThen ?_
  cases whole.rest with
  | nil => exact .pure rfl
  | cons t rest => exact (fails_failAt _ _).follows

theorem ends_program (deep : 3 * ts.length + 3 ≤ depth) :
    ∃ s, program (.nested depth) ts .initial = some ((Program.ofTokens ts).mapError .fault, s) ∧
      Orderly ts.length s ∧ s.visits = (statementList ts).visits := by
  obtain ⟨r, s, run_eq, orderly, visits_eq, bindings_eq, alike⟩ :=
    follows_statementList deep .initial rfl .initial
  rw [program, run_bind, run_eq, Program.ofTokens]
  generalize statementList ts = attempt at visits_eq bindings_eq alike
  obtain ⟨visits, bindings, result⟩ := attempt
  cases alike with
  | value related =>
    subst related bindings_eq
    exact ⟨{ s with bindings := [] }, rfl, orderly.congr rfl rfl, visits_eq⟩
  | failure f => exact ⟨s, rfl, orderly, visits_eq⟩

theorem ends_wholeComparison (deep : 3 * ts.length + 3 ≤ depth) :
    ∃ s, wholeComparison (.nested depth) ts .initial =
        some ((Expr.ofTokens ts).mapError .fault, s) ∧
      Orderly ts.length s ∧ s.visits = (Reading.wholeComparison ts).visits := by
  obtain ⟨r, s, run_eq, orderly, visits_eq, -, alike⟩ :=
    follows_wholeComparison deep .initial rfl .initial
  refine ⟨s, run_eq.trans ?_, orderly, visits_eq⟩
  rw [Expr.ofTokens]
  generalize (Reading.wholeComparison ts).result = result at alike
  cases alike with
  | value related =>
    subst related
    rfl
  | failure f => rfl

/-- Whatever the tokens are, both readings come to an end, and never by a look out of range:
they have the value or the fault that the list has, and visit what is visited there. On the
way the cursor never goes back nor leaves the list, it is at 1 or more wherever the token
before it is looked up, and each construct that has been read has moved it on. That is so
when calls may be nested three deep for each token and three deep besides, and however much
deeper they may be. -/
theorem ends_in_order (ts : List Token) (extra : Nat) :
    (∃ s, program (.nested (3 * ts.length + 3 + extra)) ts .initial =
        some ((Program.ofTokens ts).mapError .fault, s) ∧
      Orderly ts.length s ∧ s.visits = (statementList ts).visits) ∧
    ∃ s, wholeComparison (.nested (3 * ts.length + 3 + extra)) ts .initial =
        some ((Expr.ofTokens ts).mapError .fault, s) ∧
      Orderly ts.length s ∧ s.visits = (Reading.wholeComparison ts).visits :=
  ⟨ends_program (Nat.le_add_right _ _), ends_wholeComparison (Nat.le_add_right _ _)⟩

/-- All constructs that a single word is end in the same place. -/
example : (wholeComparison (.nested 6) [⟨⟨.boolean, "TRUE"⟩, ⟨0, 4⟩, 1⟩] .initial).map
    (·.2.steps) = some [⟨.forward, 1⟩, ⟨.back, 1⟩, ⟨.read .factor 0, 1⟩, ⟨.read .term 0, 1⟩,
      ⟨.read .expression 0, 1⟩, ⟨.read .comparison 0, 1⟩] := by
  rfl

end TagScript.Cursor
