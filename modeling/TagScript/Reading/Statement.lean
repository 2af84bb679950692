import TagScript.Reading.Expression

/-! Statements. A statement is known by its first token; blocks hold statements
up to a closing brace. -/
namespace TagScript.Reading

def target (use : TargetUse) (ts : List Token) : Attempt (Parsed Target ts.length) := do
  let name ← expect (.targetName use) ts
  match accept? .leftBracket name.rest with
  | none => pure (name.map fun t => ⟨t.text, none, t.span⟩)
  | some opening => do
    let index ← arithmetic .sum opening.rest
    let close ← expect (.targetIndexEnd use) index.rest
    pure ⟨⟨name.value.text, some index.value, name.value.span.cover close.value.span⟩,
      close.rest, by
        have := name.fits
        have := opening.fits
        have := index.fits
        have := close.fits
        omega⟩

def commaList (ts : List Token) : Attempt (Parsed (List Expr) ts.length) := do
  let first ← arithmetic .sum ts
  match accept? .comma first.rest with
  | none => pure (first.map ([·]))
  | some comma => do
    let others ← commaList comma.rest
    pure ⟨first.value :: others.value, others.rest,
      Nat.lt_trans others.fits (Nat.lt_trans comma.fits first.fits)⟩
termination_by ts.length
decreasing_by exact Nat.lt_trans comma.fits first.fits

def vector (opening : Token) (ts : List Token) : Attempt (Parsed Rhs ts.length) := do
  .visit .vector
  match accept? .rightBracket ts with
  | some close => pure (close.map fun t => .vector [] (opening.span.cover t.span))
  | none => do
    let elements ← commaList ts
    let close ← expect .vectorEnd elements.rest
    pure ⟨.vector elements.value (opening.span.cover close.value.span), close.rest,
      Nat.lt_trans close.fits elements.fits⟩

def rhs (ts : List Token) : Attempt (Parsed Rhs ts.length) :=
  match accept? .leftBracket ts with
  | some opening => do
    let elements ← vector opening.value opening.rest
    pure (elements.widen (Nat.le_of_lt opening.fits))
  | none => do
    let value ← arithmetic .sum ts
    pure (value.map .scalar)

def assignment (ts : List Token) : Attempt (Parsed Stmt ts.length) := do
  .visit .assignment
  let place ← target .assignment ts
  let sign ← expect .assignmentSign place.rest
  let value ← rhs sign.rest
  pure ⟨.assign place.value value.value (place.value.span.cover value.value.span), value.rest, by
    have := place.fits
    have := sign.fits
    have := value.fits
    omega⟩

def exchange (word : Token) (ts : List Token) : Attempt (Parsed Stmt ts.length) := do
  .visit .swap
  let left ← target .swap ts
  let right ← target .swap left.rest
  pure ⟨.swap left.value right.value (word.span.cover right.value.span), right.rest,
    Nat.lt_trans right.fits left.fits⟩

def output (word : Token) (ts : List Token) : Attempt (Parsed Stmt ts.length) := do
  .visit .printStatement
  let value ← comparison ts
  pure (value.map fun e => .print e (word.span.cover e.span))

/-- Reads statements until the tokens end or one of a kind that stops them
comes. `item` reads one statement. -/
def many (stops : Kind → Bool) {bound : Nat}
    (item : (ts : List Token) → ts.length < bound → Attempt (Parsed Stmt ts.length)) :
    (ts : List Token) → ts.length < bound → Attempt (Parsed (List Stmt) bound)
  | [], h => pure ⟨[], [], h⟩
  | t :: ts, h =>
    if stops t.kind then pure ⟨[], t :: ts, h⟩
    else do
      let first ← item (t :: ts) h
      let others ← many stops item first.rest (Nat.lt_trans first.fits h)
      pure (others.map (first.value :: ·))
termination_by ts => ts.length
decreasing_by exact first.fits

structure Block where
  body : List Stmt
  close : Span

def block (owner : BlockOwner) {bound : Nat}
    (item : (ts : List Token) → ts.length < bound → Attempt (Parsed Stmt ts.length))
    (ts : List Token) (h : ts.length < bound) : Attempt (Parsed Block bound) := do
  let opening ← expect (.blockStart owner) ts
  let body ← many (· == .rightBrace) item opening.rest (Nat.lt_trans opening.fits h)
  let close ← expect (.blockEnd owner) body.rest
  pure ⟨⟨body.value, close.value.span⟩, close.rest, Nat.lt_trans close.fits body.fits⟩

def statement : (ts : List Token) → Attempt (Parsed Stmt ts.length)
  | [] => do
    .visit (.statement 0)
    .fail (.noStatement none) none
  | t :: ts => do
    .visit (.statement (ts.length + 1))
    match t.kind with
    | .identifier => assignment (t :: ts)
    | .tag => do
      .visit .tagStatement
      match accept? .empty ts with
      | some alone => pure ⟨.invoke t.text t.span, alone.rest, Nat.lt_succ_of_lt alone.fits⟩
      | none => do
        let body ← statement ts
        .declare t.text body.value
        pure ⟨.declare t.text body.value (t.span.cover body.value.span), body.rest,
          Nat.lt_succ_of_lt body.fits⟩
    | .swapWord => do
      let swap ← exchange t ts
      pure (swap.widen (Nat.le_succ _))
    | .ifWord => do
      .visit .ifStatement
      let condition ← comparison ts
      let body ← block .ifWord (fun rest (_ : rest.length < ts.length) => statement rest)
        condition.rest condition.fits
      match accept? .elseWord body.rest with
      | none =>
        pure ⟨.ifThen condition.value body.value.body (t.span.cover body.value.close), body.rest,
          Nat.lt_succ_of_lt body.fits⟩
      | some word => do
        let other ← block .elseWord (fun rest (_ : rest.length < ts.length) => statement rest)
          word.rest (Nat.lt_trans word.fits body.fits)
        pure ⟨.ifElse condition.value body.value.body other.value.body
          (t.span.cover other.value.close), other.rest, Nat.lt_succ_of_lt other.fits⟩
    | .whileWord => do
      .visit .whileStatement
      let condition ← comparison ts
      let body ← block .whileWord (fun rest (_ : rest.length < ts.length) => statement rest)
        condition.rest condition.fits
      pure ⟨.loop condition.value body.value.body (t.span.cover body.value.close), body.rest,
        Nat.lt_succ_of_lt body.fits⟩
    | .printWord => do
      let print ← output t ts
      pure (print.widen (Nat.le_succ _))
    | _ => .fail (.noStatement (some t.toLexeme)) t.span
termination_by ts => ts.length
decreasing_by all_goals simp only [List.length_cons]; omega

end TagScript.Reading
