import TagScript.Proofs.Machine.Involution
import TagScript.Proofs.Machine.Literal
import TagScript.Proofs.Machine.Yields

/-! Bubble sort, as a program of the language. A pass carries the greatest element of what is not
yet sorted along to its end; what lies beyond it is sorted and nowhere less. Each of the two loops
goes by the list that is left to it, and none of its indices is ever out of range. -/
namespace TagScript.BubbleSort

open TagScript.SymbolTable (Yields getElem?_assign_of_ne)
open TagScript.Task (Lead sequence)

/-! The program. Its variables have these names. -/

def n : Expr := .named "n" .nowhere
def i : Expr := .named "i" .nowhere
def j : Expr := .named "j" .nowhere
def one : Expr := .integer 1 .nowhere
def next : Expr := .binary j .add one .nowhere
def last : Expr := .binary n .subtract one .nowhere

def store (name : String) (e : Expr) : Stmt :=
  .assign ⟨name, none, .nowhere⟩ (.scalar e) .nowhere

def wrongOrder : Expr :=
  .binary (.element "x" j .nowhere) .greater (.element "x" next .nowhere) .nowhere

def exchange : Stmt :=
  .swap ⟨"x", some j, .nowhere⟩ ⟨"x", some next, .nowhere⟩ .nowhere

def order : Stmt :=
  .ifThen wrongOrder [exchange] .nowhere

def inside : Expr := .binary j .less (.binary last .subtract i .nowhere) .nowhere
def step : List Stmt := [order, store "j" next]

def unsorted : Expr := .binary i .less last .nowhere
def pass : List Stmt :=
  [store "j" (.integer 0 .nowhere), .loop inside step .nowhere,
    store "i" (.binary i .add one .nowhere)]

def sorting : List Stmt :=
  [store "i" (.integer 0 .nowhere), .loop unsorted pass .nowhere,
    .print (.named "x" .nowhere) .nowhere]

def sortingText : String :=
  "i = 0\n" ++
  "WHILE i < n - 1 \x7b\n" ++
  "  j = 0\n" ++
  "  WHILE j < n - 1 - i \x7b\n" ++
  "    IF x[j] > x[j + 1] \x7b\n" ++
  "      SWAP x[j] x[j + 1]\n" ++
  "    \x7d\n" ++
  "    j = j + 1\n" ++
  "  \x7d\n" ++
  "  i = i + 1\n" ++
  "\x7d\n" ++
  "PRINT x\n"

structure Input where
  elements : List Numeral
  length : Numeral
  length_eq : Decimal.value length.digits = elements.length

namespace Input

def values (input : Input) : List Int64 :=
  input.elements.map (·.value)

def source (input : Input) : String :=
  "-- Bubble sort in place" ++ "\n" ++
  ("x = " ++ String.ofList (Literal.vector input.elements).chars ++ "\n" ++
  ("n = " ++ String.ofList (Literal.number input.length).chars ++ "\n" ++ sortingText))

def statements (input : Input) : List Stmt :=
  (Literal.vector input.elements).stored "x" :: (Literal.number input.length).stored "n" :: sorting

set_option maxRecDepth 1000 in
theorem reads_source (input : Input) : Program.Reads input.source input.statements := by
  have comment : Program.Reads "-- Bubble sort in place" [] := ⟨_, _, by cbv, rfl⟩
  have vector := Program.reads_stored
    ⟨['x'], .word (by decide) (List.all_eq_true.mp (by decide)), "x", by decide⟩
    (.vector input.elements)
  have length := Program.reads_stored
    ⟨['n'], .word (by decide) (List.all_eq_true.mp (by decide)), "n", by decide⟩
    (.number input.length)
  have loops : Program.Reads sortingText sorting := ⟨_, _, by cbv, rfl⟩
  exact comment.join (vector.join (length.join loops))

end Input

/-! What the machine holds. -/

/-- The vector, its length and how many passes have been made. -/
structure Between (output : Output) (elements : List Int64) (passes : Nat) (m : Machine) :
    Prop where
  output : m.output = output
  untagged : m.tags = ∅
  vector : m.symbols["x"]? = some (.vector elements)
  length : m.symbols.Yields n elements.length
  passes : m.symbols.Yields i passes

structure Within (output : Output) (elements : List Int64) (passes place : Nat) (m : Machine) :
    Prop extends Between output elements passes m where
  place : m.symbols.Yields j place

section Runs

variable {output : Output} {elements low rest top : List Int64} {passes place : Nat}
  {a b carry : Int64} {m : Machine}

theorem one_yields (σ : SymbolTable) : σ.Yields one 1 :=
  .integer 1

theorem Between.last_yields (h : Between output elements passes m) :
    m.symbols.Yields last (elements.length - 1) := by
  have range := h.length.in_range
  refine h.length.subtract (one_yields _) ?_
  simp only [Integer.smallest, Integer.largest] at range ⊢
  omega

theorem Between.unsorted_eq (h : Between output elements passes m) :
    m.symbols.evalCondition unsorted = .ok (decide ((passes : Int) < elements.length - 1)) :=
  h.passes.less h.last_yields

theorem Within.inside_eq (h : Within output elements passes place m) :
    m.symbols.evalCondition inside =
      .ok (decide ((place : Int) < elements.length - 1 - passes)) := by
  have range := h.last_yields.in_range
  have passes_range := h.passes.in_range
  refine h.place.less (h.last_yields.subtract h.passes ?_)
  simp only [Integer.smallest, Integer.largest] at range passes_range ⊢
  omega

theorem Within.next_yields (h : Within output elements passes place m)
    (lt : place < elements.length) : m.symbols.Yields next (place + 1 : Nat) := by
  have range := h.length.in_range
  refine h.place.add (one_yields _) ?_
  simp only [Integer.smallest, Integer.largest] at range ⊢
  omega

theorem Between.of_symbols (h : Between output elements passes m) {σ : SymbolTable}
    {others : List Int64} {more : Nat} (vector : σ["x"]? = some (.vector others))
    (length_eq : others.length = elements.length) (kept : σ["n"]? = m.symbols["n"]?)
    (counted : σ.Yields i more) : Between output others more { m with symbols := σ } where
  output := h.output
  untagged := h.untagged
  vector := vector
  length := by
    rw [length_eq]
    exact (Yields.named_congr kept).mpr h.length
  passes := counted

theorem Between.store_place (h : Between output elements passes m) {k : Int64}
    (eq : k.toInt = place) : Within output elements passes place
      { m with symbols := m.symbols.assign "j" (.integer k) } where
  toBetween := h.of_symbols ((getElem?_assign_of_ne (by decide)).trans h.vector) rfl
    (getElem?_assign_of_ne (by decide))
    ((Yields.named_congr (getElem?_assign_of_ne (by decide))).mpr h.passes)
  place := .named_assign eq

theorem Between.store_passes (h : Between output elements passes m) {k : Int64} {more : Nat}
    (eq : k.toInt = more) :
    Between output elements more { m with symbols := m.symbols.assign "i" (.integer k) } :=
  h.of_symbols ((getElem?_assign_of_ne (by decide)).trans h.vector) rfl
    (getElem?_assign_of_ne (by decide)) (.named_assign eq)

/-- Neither neighbour is out of range, since the second one is there. -/
theorem exchange_leads (h : Within output (low ++ a :: b :: rest) passes low.length m) :
    ∃ m', Lead [.perform exchange] m m' ∧
      Within output (low ++ b :: a :: rest) passes low.length m' := by
  have here : (low ++ a :: b :: rest)[low.length]? = some a := by simp
  have there : (low ++ a :: b :: rest)[low.length + 1]? = some b := by simp
  let σ := (m.symbols.put ⟨"x", some low.length⟩ (.integer b)).put ⟨"x", some (low.length + 1)⟩
    (.integer a)
  have swapped : m.swap ⟨"x", some j, .nowhere⟩ ⟨"x", some next, .nowhere⟩ .nowhere =
      .ok { m with symbols := σ } :=
    Machine.swap_eq_ok_iff.mpr ⟨_, _, .integer a, .integer b, h.place.names,
      (h.next_yields (by simp)).names, SymbolTable.held_element.mpr ⟨_, a, h.vector, here, rfl⟩,
      SymbolTable.held_element.mpr ⟨_, b, h.vector, there, rfl⟩, fun _ => .inl rfl,
      fun _ => .inl rfl, rfl⟩
  have kept {name : String} (other : "x" ≠ name) : σ[name]? = m.symbols[name]? := by
    rw [SymbolTable.getElem?_put_of_ne other, SymbolTable.getElem?_put_of_ne other]
  have vector : σ["x"]? = some (.vector (low ++ b :: a :: rest)) := by
    rw [SymbolTable.getElem?_put, if_pos rfl, SymbolTable.getElem?_put, if_pos rfl, h.vector]
    simp [Cell.overwrite, Value.withElement]
  have passes_kept := (Yields.named_congr (kept (by decide))).mpr h.passes
  refine ⟨_, (Task.lead_of_changes_iff rfl).mpr ⟨_, swapped, Task.lead_nil_iff.mpr rfl⟩, ?_⟩
  exact
    { toBetween := h.of_symbols vector (by simp) (kept (by decide)) passes_kept
      place := (Yields.named_congr (kept (by decide))).mpr h.place }

theorem order_leads (h : Within output (low ++ a :: b :: rest) passes low.length m) :
    ∃ c d m', Lead [.perform order] m m' ∧
      Within output (low ++ c :: d :: rest) passes low.length m' ∧ c ≤ d ∧ [c, d].Perm [a, b] := by
  have first : m.symbols.Yields (.element "x" j .nowhere) a.toInt :=
    h.place.element h.vector (by simp)
  have second : m.symbols.Yields (.element "x" next .nowhere) b.toInt :=
    (h.next_yields (by simp)).element h.vector (by simp)
  have test : m.symbols.evalCondition wrongOrder = .ok (decide (b.toInt < a.toInt)) :=
    first.greater second
  by_cases wrong : b.toInt < a.toInt
  · rw [decide_eq_true wrong] at test
    obtain ⟨m', leads, h'⟩ := exchange_leads h
    exact ⟨b, a, m', (Task.lead_ifThen_iff test).mpr leads, h',
      Int64.le_iff_toInt_le.mpr (Int.le_of_lt wrong), .swap ..⟩
  · rw [decide_eq_false wrong] at test
    exact ⟨a, b, m, (Task.lead_ifThen_iff test).mpr (Task.lead_nil_iff.mpr rfl), h,
      Int64.le_iff_toInt_le.mpr (Int.not_lt.mp wrong), .refl _⟩

theorem advance_leads (h : Within output elements passes place m) (lt : place < elements.length) :
    ∃ m', Lead [.perform (store "j" next)] m m' ∧
      Within output elements passes (place + 1) m' := by
  obtain ⟨k, eq, leads⟩ := Task.lead_of_yields (h.next_yields lt) "j" .nowhere .nowhere
  exact ⟨_, leads, h.store_place eq⟩

/-- The steps of a pass, by the elements that it has still to come to. -/
theorem steps_lead (h : Within output (low ++ carry :: (rest ++ top)) top.length low.length m)
    (le : ∀ a ∈ low, a ≤ carry) : ∃ low' greatest m', Lead [.again inside step] m m' ∧
      Between output (low' ++ greatest :: top) top.length m' ∧
      (low' ++ [greatest]).Perm (low ++ carry :: rest) ∧ ∀ a ∈ low', a ≤ greatest := by
  induction rest generalizing low carry m with
  | nil =>
    have test := h.inside_eq
    rw [decide_eq_false (by
      simp only [List.length_append, List.length_cons, List.length_nil]
      omega)] at test
    exact ⟨low, carry, m, (Task.lead_again_iff test).mpr (Task.lead_nil_iff.mpr rfl), h.toBetween,
      .refl _, le⟩
  | cons b rest ih =>
    have test := h.inside_eq
    rw [decide_eq_true (by
      simp only [List.length_append, List.length_cons]
      omega)] at test
    obtain ⟨c, d, m₁, ordered, h₁, c_le, perm⟩ := order_leads h
    obtain ⟨m₂, advanced, h₂⟩ := advance_leads h₁ (by simp)
    have h₂ : Within output ((low ++ [c]) ++ d :: (rest ++ top)) top.length
        (low ++ [c]).length m₂ := by
      simpa using h₂
    have carry_le : carry ≤ d := by
      have mem : carry ∈ [c, d] := perm.mem_iff.mpr List.mem_cons_self
      rcases List.mem_cons.mp mem with rfl | mem
      · exact c_le
      · exact List.mem_singleton.mp mem ▸ Int64.le_refl _
    obtain ⟨low', greatest, m', leads, between, perm', le'⟩ := ih h₂ (by
      simp only [List.forall_mem_append, List.forall_mem_singleton]
      exact ⟨fun a mem => Int64.le_trans (le a mem) carry_le, c_le⟩)
    refine ⟨low', greatest, m', ?_, between, perm'.trans ?_, le'⟩
    · exact (Task.lead_again_iff test).mpr (ordered.append (advanced.append leads))
    · rw [List.append_assoc]
      exact (perm.append_right rest).append_left low

theorem pass_leads (h : Between output (carry :: (rest ++ top)) top.length m) :
    ∃ low greatest m', Lead (sequence pass) m m' ∧
      Between output (low ++ greatest :: top) (top.length + 1) m' ∧
      (low ++ [greatest]).Perm (carry :: rest) ∧ ∀ a ∈ low, a ≤ greatest := by
  have zero_yields : m.symbols.Yields (.integer 0 .nowhere) 0 := .integer 0
  obtain ⟨k, eq, started⟩ := Task.lead_of_yields zero_yields "j" .nowhere .nowhere
  have first : Within output ([] ++ carry :: (rest ++ top)) top.length ([] : List Int64).length _ :=
    h.store_place eq
  obtain ⟨low, greatest, m₁, stepped, h₁, perm, le⟩ := steps_lead first nofun
  have range := h₁.length.in_range
  have more : m₁.symbols.Yields (.binary i .add one .nowhere) (top.length + 1 : Nat) := by
    refine h₁.passes.add (one_yields _) ?_
    simp only [Integer.smallest, Integer.largest, List.length_append, List.length_cons] at range ⊢
    omega
  obtain ⟨k', eq', counted⟩ := Task.lead_of_yields more "i" .nowhere .nowhere
  have looped : Lead (sequence (pass.drop 1)) _ _ :=
    Task.lead_loop_iff.mpr (stepped.append counted)
  exact ⟨low, greatest, _, started.append looped, h₁.store_passes eq', perm, le⟩

/-- The passes, by what is not yet sorted. -/
theorem passes_lead {bottom top : List Int64} {m : Machine}
    (h : Between output (bottom ++ top) top.length m)
    (sorted : top.Pairwise (· ≤ ·)) (above : ∀ a ∈ bottom, ∀ b ∈ top, a ≤ b) :
    ∃ elements passes m', Lead [.again unsorted pass] m m' ∧ Between output elements passes m' ∧
      elements.Perm (bottom ++ top) ∧ elements.Pairwise (· ≤ ·) := by
  have test := h.unsorted_eq
  match bottom with
  | [] =>
    rw [decide_eq_false (by rw [List.nil_append]; omega)] at test
    exact ⟨top, _, m, (Task.lead_again_iff test).mpr (Task.lead_nil_iff.mpr rfl), h, .refl _,
      sorted⟩
  | [a] =>
    rw [decide_eq_false (by simp)] at test
    exact ⟨a :: top, _, m, (Task.lead_again_iff test).mpr (Task.lead_nil_iff.mpr rfl), h, .refl _,
      List.pairwise_cons.mpr ⟨above a List.mem_cons_self, sorted⟩⟩
  | carry :: b :: rest =>
    rw [decide_eq_true (by
      simp only [List.length_append, List.length_cons]
      omega)] at test
    have all : Between output (carry :: ((b :: rest) ++ top)) top.length m := h
    obtain ⟨low, greatest, m₁, passed, h₁, perm, le⟩ := pass_leads all
    have mem {a : Int64} (mem : a ∈ low ++ [greatest]) : ∀ b ∈ top, a ≤ b :=
      above a (perm.mem_iff.mp mem)
    have sorted' : (greatest :: top).Pairwise (· ≤ ·) :=
      List.pairwise_cons.mpr ⟨mem (by simp), sorted⟩
    have above' : ∀ a ∈ low, ∀ b ∈ greatest :: top, a ≤ b := fun a mem_low =>
      List.forall_mem_cons.mpr ⟨le a mem_low, mem (List.mem_append_left _ mem_low)⟩
    have shorter : low.length = rest.length + 1 := by simpa using perm.length_eq
    obtain ⟨elements, passes, m', leads, h', perm', elements_sorted⟩ :=
      passes_lead h₁ sorted' above'
    refine ⟨elements, passes, m', (Task.lead_again_iff test).mpr ?_, h', perm'.trans ?_,
      elements_sorted⟩
    · exact passed.append leads
    · rw [List.append_cons]
      exact perm.append_right top
termination_by bottom.length

end Runs

theorem Input.starts (input : Input) (output : Output) (limit : Nat) :
    ∃ m, Lead (sequence (input.statements.take 3)) { output, limit } m ∧
      Between output input.values 0 m := by
  let m : Machine :=
    { output, limit
      symbols := ((∅ : SymbolTable).assign "x" (.vector input.values)).assign "n"
        (.integer input.length.value) }
  have zero_yields : m.symbols.Yields (.integer 0 .nowhere) 0 := .integer 0
  obtain ⟨k, eq, started⟩ := Task.lead_of_yields zero_yields "i" .nowhere .nowhere
  refine ⟨_, Task.lead_stored_iff.mpr (Task.lead_stored_iff.mpr started), rfl, rfl, ?_, ?_,
    .named_assign eq⟩
  · rw [getElem?_assign_of_ne (by decide), getElem?_assign_of_ne (by decide),
      SymbolTable.getElem?_assign, if_pos rfl]
  · refine (Yields.named_congr (getElem?_assign_of_ne (by decide))).mpr (.named_assign ?_)
    rw [input.length.toInt_value, input.length_eq, values, List.length_map]

/-- For every list of literals of any length the program runs to its end. It prints one value, the
vector with the same elements in rising order, and leaves it in the variable. -/
theorem sorts (input : Input) :
    ∃ ts p, Program.ofSource input.source = .ok (ts, p) ∧
      ∀ (output : Output) (limit : Nat), ∃ sorted m,
        Machine.EndsIn { output, limit } p (.done m) ∧
        (match output with
          | .captured values => m.output = .captured (values.push (.vector sorted))
          | .console text => m.output = .console (text ++ (Value.vector sorted).text ++ "\n")) ∧
        m.symbols["x"]? = some (.vector sorted) ∧ sorted.Pairwise (· ≤ ·) ∧
        sorted.Perm input.values := by
  obtain ⟨ts, p, accepted, ends⟩ := Machine.exists_endsIn input.reads_source ⟨rfl, rfl⟩
  refine ⟨ts, p, accepted, fun output limit => ?_⟩
  obtain ⟨m, started, h⟩ := input.starts output limit
  have all : Between output (input.values ++ []) 0 m := by rwa [List.append_nil]
  obtain ⟨sorted, passes, m', passed, h', perm, pairwise⟩ := passes_lead all .nil nofun
  have printed : m'.print (.named "x" .nowhere) =
      .ok { m' with output := m'.output.emit (.vector sorted) } := by
    rw [Machine.print, SymbolTable.eval, SymbolTable.whole_eq_ok_iff.mpr h'.vector]
    rfl
  have print : Lead [.perform (.print (.named "x" .nowhere) .nowhere)] m' _ :=
    (Task.lead_of_changes_iff rfl).mpr ⟨_, printed, Task.lead_nil_iff.mpr rfl⟩
  have looped : Lead (sequence (input.statements.drop 3)) m _ :=
    Task.lead_loop_iff.mpr (passed.append print)
  refine ⟨sorted, _, ends _ _ rfl ?_ (started.append looped), ?_, h'.vector, pairwise, ?_⟩
  · exact h'.untagged
  · have emitted := congrArg (Output.emit (.vector sorted)) h'.output
    cases output <;> exact emitted
  · rwa [List.append_nil] at perm

example : Input.source ⟨[5, 3, 8, 4, 2].map .ofInt, .ofInt 5, by cbv⟩ =
    "-- Bubble sort in place\nx = [5, 3, 8, 4, 2]\nn = 5\n" ++ sortingText := by
  decide +kernel

end TagScript.BubbleSort
