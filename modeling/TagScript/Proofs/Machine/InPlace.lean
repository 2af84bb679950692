import Mathlib
import TagScript.Proofs.Machine.Exchange

/-! Statements that change the machine in place, access by access. Here a write that was made
before a failure would stay: nothing takes it back. None does, for every access that can fail
comes before the first write, and the second write of an exchange finds what the reads found. -/
namespace TagScript

def Outcome.result : Outcome → Checked Unit
  | done _ => .ok ()
  | failed f _ => .error f

/-- A computation that changes the machine as it goes, and keeps what it has changed when it
fails. -/
abbrev InPlace := ExceptT (Fault RuntimeError) (StateM Machine)

namespace InPlace

variable {α β : Type}

def runOn (act : InPlace α) (m : Machine) : Checked α × Machine :=
  act.run.run m

def look (read : SymbolTable → Checked α) : InPlace α :=
  ExceptT.mk fun m => (read m.symbols, m)

def check (x : Checked α) : InPlace α :=
  look fun _ => x

def write (change : SymbolTable → SymbolTable) : InPlace Unit :=
  modify fun m => { m with symbols := change m.symbols }

def assignVariable (name : String) (v : Value) : InPlace Unit :=
  write (·.assign name v)

/-- The element is looked up each time that it is written. -/
def setElement (name : String) (position : Nat) (n : Int64) (span : Span) : InPlace Unit := do
  let _ ← look (·.element name position span)
  write (·.setElement name position n)

def eval : Expr → InPlace Value
  | .integer n _ => return .integer n
  | .boolean b _ => return .boolean b
  | .named name span => look (·.whole name span)
  | .element name index span => do
    let n ← check ((← eval index).asInteger index.span)
    let position ← check (asPosition index.span n)
    return .integer (← look (·.element name position span))
  | .binary left op right span => do
    let a ← check ((← eval left).asInteger left.span)
    let b ← check ((← eval right).asInteger right.span)
    check (op.apply span a b)

def evalInteger (e : Expr) : InPlace Int64 := do
  check ((← eval e).asInteger e.span)

def evalPosition (e : Expr) : InPlace Nat := do
  check (asPosition e.span (← evalInteger e))

def evalRhs : Rhs → InPlace Value
  | .scalar e => eval e
  | .vector elements _ => do return .vector (← elements.mapM evalInteger)

def assign (target : Target) (value : Rhs) : InPlace Unit := do
  match target.index with
  | none => assignVariable target.name (← evalRhs value)
  | some index =>
    let position ← evalPosition index
    let n ← check ((← evalRhs value).asInteger value.span)
    setElement target.name position n target.span

def targetPosition (t : Target) : InPlace (Option Nat) :=
  match t.index with
  | none => return none
  | some index => do return some (← evalPosition index)

def swap (left right : Target) (span : Span) : InPlace Unit := do
  let leftPosition ← targetPosition left
  let rightPosition ← targetPosition right
  match leftPosition, rightPosition with
  | none, none =>
    let a ← look (·.whole left.name left.span)
    let b ← look (·.whole right.name right.span)
    assignVariable left.name b
    assignVariable right.name a
  | some i, none =>
    let a ← look (·.element left.name i left.span)
    let b ← look (·.exchangeable right span)
    setElement left.name i b left.span
    assignVariable right.name (.integer a)
  | none, some j =>
    let a ← look (·.exchangeable left span)
    let b ← look (·.element right.name j right.span)
    assignVariable left.name (.integer b)
    setElement right.name j a right.span
  | some i, some j =>
    let a ← look (·.element left.name i left.span)
    let b ← look (·.element right.name j right.span)
    setElement left.name i b left.span
    setElement right.name j a right.span

def print (value : Expr) : InPlace Unit := do
  let v ← eval value
  modify fun m => { m with output := m.output.emit v }

/-- The statements that have no statements in them and invoke none. -/
def ofStmt? : Stmt → Option (InPlace Unit)
  | .assign target value _ => some (assign target value)
  | .swap left right span => some (swap left right span)
  | .print value _ => some (print value)
  | .declare _ _ _ | .invoke _ _ | .ifThen _ _ _ | .ifElse _ _ _ _ | .loop _ _ _ => none

/-! What only reads leaves the machine as it is. -/

def Reads (act : InPlace α) (read : SymbolTable → Checked α) : Prop :=
  ∀ m, act.runOn m = (read m.symbols, m)

theorem runOn_bind (act : InPlace α) (next : α → InPlace β) (m : Machine) :
    (act >>= next).runOn m = match act.runOn m with
      | (.ok a, m') => (next a).runOn m'
      | (.error f, m') => (.error f, m') := by
  change ((act >>= next).run.run m : Checked β × Machine) = _
  rw [ExceptT.run_bind]
  simp only [runOn, StateT.run_bind]
  obtain ⟨result, m'⟩ := act.run.run m
  cases result <;> rfl

section Reading

variable {act : InPlace α} {read : SymbolTable → Checked α} {next : α → InPlace β}
  {nextRead : α → SymbolTable → Checked β}

theorem reads_look (read : SymbolTable → Checked α) : Reads (look read) read :=
  fun _ => rfl

theorem reads_check (x : Checked α) : Reads (check x) fun _ => x :=
  fun _ => rfl

theorem reads_pure (a : α) : Reads (pure a) fun _ => pure a :=
  fun _ => rfl

theorem Reads.runOn_bind (first : Reads act read) (next : α → InPlace β) (m : Machine) :
    (act >>= next).runOn m = match read m.symbols with
      | .ok a => (next a).runOn m
      | .error f => (.error f, m) := by
  rw [InPlace.runOn_bind, first m]
  cases read m.symbols <;> rfl

theorem Reads.bind (first : Reads act read) (second : ∀ a, Reads (next a) (nextRead a)) :
    Reads (act >>= next) fun σ => read σ >>= fun a => nextRead a σ := by
  intro m
  rw [first.runOn_bind]
  change _ = (read m.symbols >>= fun a => nextRead a m.symbols, m)
  cases read m.symbols with
  | error f => rfl
  | ok a => exact second a m

theorem Reads.mapM {f : β → InPlace α} {g : β → SymbolTable → Checked α}
    (each : ∀ b, Reads (f b) (g b)) (bs : List β) :
    Reads (bs.mapM f) fun σ => bs.mapM fun b => g b σ := by
  induction bs with
  | nil => exact reads_pure []
  | cons b bs ih =>
    simp only [List.mapM_cons]
    exact (each b).bind fun a => ih.bind fun rest => reads_pure (a :: rest)

end Reading

theorem reads_eval (e : Expr) : Reads (eval e) (·.eval e) := by
  induction e with
  | integer | boolean => exact reads_pure _
  | named => exact reads_look _
  | element name index span ih =>
    exact ih.bind fun v => (reads_check _).bind fun n => (reads_check _).bind fun position =>
      (reads_look _).bind fun n => reads_pure _
  | binary left op right span left_ih right_ih =>
    exact left_ih.bind fun v => (reads_check _).bind fun a =>
      right_ih.bind fun w => (reads_check _).bind fun b => reads_check _

theorem reads_evalInteger (e : Expr) : Reads (evalInteger e) (·.evalInteger e) :=
  (reads_eval e).bind fun _ => reads_check _

theorem reads_evalPosition (e : Expr) : Reads (evalPosition e) (·.evalPosition e) :=
  (reads_evalInteger e).bind fun _ => reads_check _

theorem reads_evalRhs (value : Rhs) : Reads (evalRhs value) (·.evalRhs value) := by
  cases value with
  | scalar e => exact reads_eval e
  | vector elements => exact (Reads.mapM reads_evalInteger elements).bind fun _ => reads_pure _

theorem reads_targetPosition (t : Target) : Reads (targetPosition t) (·.targetPosition t) := by
  unfold targetPosition SymbolTable.targetPosition
  cases t.index with
  | none => exact reads_pure none
  | some index => exact (reads_evalPosition index).bind fun _ => reads_pure _

/-! What writes has read before. -/

/-- A result and the machine after it. After a failure it is the machine before. -/
def settle (m : Machine) : Checked Machine → Checked Unit × Machine
  | .ok m' => (.ok (), m')
  | .error f => (.error f, m)

/-- Comes to the machine that `result` says, or fails as it says and changes nothing. -/
def Performs (act : InPlace Unit) (result : Machine → Checked Machine) : Prop :=
  ∀ m, act.runOn m = settle m (result m)

theorem Reads.performs {act : InPlace α} {read : SymbolTable → Checked α}
    {next : α → InPlace Unit} {result : α → Machine → Checked Machine}
    (first : Reads act read) (second : ∀ a, Performs (next a) (result a)) :
    Performs (act >>= next) fun m => read m.symbols >>= fun a => result a m := by
  intro m
  rw [first.runOn_bind]
  change _ = settle m (read m.symbols >>= fun a => result a m)
  cases read m.symbols with
  | error f => rfl
  | ok a => exact second a m

theorem performs_assign (target : Target) (value : Rhs) :
    Performs (assign target value) (·.assign target value) := by
  unfold assign Machine.assign
  cases target.index with
  | none => exact (reads_evalRhs value).performs fun v m => rfl
  | some index =>
    exact (reads_evalPosition index).performs fun position =>
      (reads_evalRhs value).performs fun v => (reads_check _).performs fun n =>
        (reads_look _).performs fun _ m => rfl

theorem performs_print (value : Expr) : Performs (print value) (·.print value) :=
  (reads_eval value).performs fun _ _ => rfl

/-! An exchange in place. -/

section Exchanged

variable {m : Machine} {c d : Cell} {v w : Value}

def put (c : Cell) (v : Value) (span : Span) : InPlace Unit :=
  match c.position, v with
  | none, v => assignVariable c.name v
  | some i, .integer n => setElement c.name i n span
  | some _, _ => return ()

theorem runOn_put (there : m.symbols.held c = some v) (takes : c.Takes w) (span : Span) :
    (put c (c.stored w) span).runOn m =
      (.ok (), { m with symbols := m.symbols.put c (c.stored w) }) := by
  obtain ⟨name, position⟩ := c
  cases position with
  | none => rfl
  | some i =>
    obtain ⟨n, stored_eq⟩ := Cell.exists_stored takes
    obtain ⟨elements, old, found, at_i, rfl⟩ := SymbolTable.held_element.mp there
    have element_eq : m.symbols.element name i span = .ok old :=
      SymbolTable.element_eq_ok_iff.mpr there
    rw [stored_eq]
    change (setElement name i n span).runOn m = _
    rw [setElement, (reads_look _).runOn_bind, element_eq]
    rfl

/-- The second write finds its cell, also when the first has written into the same. -/
theorem runOn_puts (hc : m.symbols.held c = some v) (hd : m.symbols.held d = some w)
    (c_takes : c.Takes w) (d_takes : d.Takes v) (span span' : Span) :
    (put c (c.stored w) span >>= fun _ => put d (d.stored v) span').runOn m =
      (.ok (), { m with
        symbols := (m.symbols.put c (c.stored w)).put d (d.stored v) }) := by
  have still_there : ∃ u, (m.symbols.put c (c.stored w)).held d = some u := by
    rcases SymbolTable.eq_or_apart_of_takes hc hd c_takes d_takes with rfl | apart
    · exact ⟨_, SymbolTable.held_put_stored hc c_takes⟩
    · exact ⟨w, (SymbolTable.held_put_of_apart apart.symm _).trans hd⟩
  obtain ⟨u, hd'⟩ := still_there
  rw [runOn_bind, runOn_put hc c_takes]
  exact runOn_put (m := { m with symbols := m.symbols.put c (c.stored w) }) hd' d_takes span'

end Exchanged

theorem look_map (f : α → β) (read : SymbolTable → Checked α) :
    look (fun σ => f <$> read σ) = f <$> look read := by
  simp only [map_eq_pure_bind]
  funext m
  exact (((reads_look read).bind fun a => reads_pure (f a)) m).symm

theorem swap_eq (left right : Target) (span : Span) : swap left right span = (do
    let p ← targetPosition left
    let q ← targetPosition right
    let v ← look (·.given left span p q)
    let w ← look (·.given right span q p)
    put ⟨left.name, p⟩ w left.span
    put ⟨right.name, q⟩ v right.span) := by
  unfold swap
  congr
  funext p
  congr
  funext q
  cases p <;> cases q <;> simp only [SymbolTable.given, look_map, bind_map_left] <;> rfl

theorem performs_swap (left right : Target) (span : Span) :
    Performs (swap left right span) (·.swap left right span) := by
  simp only [swap_eq, Machine.swap_eq]
  refine (reads_targetPosition left).performs fun p => (reads_targetPosition right).performs
    fun q m => ?_
  rw [(reads_look _).runOn_bind]
  cases left_eq : m.symbols.given left span p q with
  | error f => rfl
  | ok v' =>
    dsimp only
    rw [(reads_look _).runOn_bind]
    cases right_eq : m.symbols.given right span q p with
    | error f => rfl
    | ok w' =>
      obtain ⟨v, left_held, right_takes, rfl⟩ :=
        SymbolTable.given_eq_ok_iff (c := ⟨right.name, q⟩).mp left_eq
      obtain ⟨w, right_held, left_takes, rfl⟩ :=
        SymbolTable.given_eq_ok_iff (c := ⟨left.name, p⟩).mp right_eq
      exact runOn_puts left_held right_held left_takes right_takes left.span right.span

/-! Statements in place, and the runs of them. -/

variable {m : Machine} {s : Stmt} {act : InPlace Unit}

theorem exists_result (direct : ofStmt? s = some act) :
    ∃ result, Performs act result ∧
      ∀ m, Task.effect m (.perform s) = ([], ·) <$> result m := by
  cases s with
  | assign target value =>
    cases direct
    exact ⟨_, performs_assign target value, fun _ => rfl⟩
  | swap left right span =>
    cases direct
    exact ⟨_, performs_swap left right span, fun _ => rfl⟩
  | print value =>
    cases direct
    exact ⟨_, performs_print value, fun _ => rfl⟩
  | declare | invoke | ifThen | ifElse | loop => cases direct

/-- An assignment, an exchange or a printing that fails changes nothing: done in place, it
leaves the machine on which it was begun, as the run of it does. To find the value of an
expression changes nothing at all. -/
theorem failure_changes_nothing (m : Machine) :
    (∀ s act, ofStmt? s = some act → ∃ outcome, (Run.ofStatements [s] m).EndsIn outcome ∧
      act.runOn m = (outcome.result, outcome.machine) ∧
      ∀ f, outcome.result = .error f → outcome.machine = m) ∧
    (∀ e, (eval e).runOn m = (m.symbols.eval e, m)) ∧
    ∀ value, (evalRhs value).runOn m = (m.symbols.evalRhs value, m) := by
  refine ⟨fun s act direct => ?_, fun e => reads_eval e m, fun value => reads_evalRhs value m⟩
  obtain ⟨result, performs, effect_eq⟩ := exists_result direct
  have next_eq : (Run.ofStatements [s] m).next = Run.resume [] m (([], ·) <$> result m) := by
    rw [← effect_eq m]
    exact Run.next_cons (.perform s) [] m
  rw [performs m]
  cases result_eq : result m with
  | ok m' =>
    rw [result_eq] at next_eq
    exact ⟨.done m', .later next_eq (.now rfl), rfl, nofun⟩
  | error f =>
    rw [result_eq] at next_eq
    exact ⟨.failed f m, .now next_eq, rfl, fun _ _ => rfl⟩

/-- A truth value is not exchanged with an element, which is found before this is seen. -/
theorem refused_exchange_changes_nothing :
    let σ := ((∅ : SymbolTable).assign "v" (.vector [1, 2])).assign "b" (.boolean true)
    let m : Machine := { symbols := σ, depth := 3 }
    let left : Target := ⟨"v", some (.integer 0 ⟨7, 8⟩), ⟨5, 9⟩⟩
    let right : Target := ⟨"b", none, ⟨10, 11⟩⟩
    let fault : Fault RuntimeError := ⟨.notExchangeable .boolean "b", ⟨0, 11⟩⟩
    (swap left right ⟨0, 11⟩).runOn m = (.error fault, m) ∧
      (Run.ofStatements [.swap left right ⟨0, 11⟩] m).EndsIn (.failed fault m) := by
  intro σ m left right fault
  obtain ⟨outcome, ends, run_eq, unchanged⟩ :=
    (failure_changes_nothing m).1 (.swap left right ⟨0, 11⟩) _ rfl
  have refused : m.swap left right ⟨0, 11⟩ = .error fault := by cbv
  have failed : (swap left right ⟨0, 11⟩).runOn m = (.error fault, m) :=
    (performs_swap left right ⟨0, 11⟩ m).trans (congrArg (settle m) refused)
  have outcome_eq : outcome.result = .error fault := congrArg Prod.fst (run_eq.symm.trans failed)
  have same := unchanged fault outcome_eq
  cases outcome with
  | done => cases outcome_eq
  | failed f m' =>
    cases outcome_eq
    rw [show m' = m from same] at ends
    exact ⟨failed, ends⟩

end InPlace

end TagScript
