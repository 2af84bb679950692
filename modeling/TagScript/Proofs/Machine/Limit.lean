import TagScript.Proofs.Machine.Invariants

/-! What the limit of active invocations does. It is exact, and all that it ever
does is to cut a run short: a run under a lower limit goes through the same steps
as one under a higher limit, up to the invocation that is one too many. -/
namespace TagScript

namespace Machine

def under (m : Machine) (limit depth : Nat) : Machine :=
  { m with limit, depth }

variable (m : Machine) (limit depth : Nat)

theorem assign_under (target : Target) (value : Rhs) :
    (m.under limit depth).assign target value =
      (·.under limit depth) <$> m.assign target value := by
  obtain ⟨name, index, span⟩ := target
  cases index with
  | none => simp only [assign, map_bind, map_pure, under]
  | some index => simp only [assign, map_bind, map_pure, under]

theorem swap_under (left right : Target) (span : Span) :
    (m.under limit depth).swap left right span =
      (·.under limit depth) <$> m.swap left right span := by
  simp only [swap, map_bind, under]
  refine bind_congr fun leftPosition => bind_congr fun rightPosition => ?_
  cases leftPosition <;> cases rightPosition <;> simp only [map_bind, map_pure]

theorem print_under (value : Expr) :
    (m.under limit depth).print value = (·.under limit depth) <$> m.print value := by
  simp only [print, map_bind, map_pure, under]

end Machine

namespace Task

variable (m : Machine) (limit depth : Nat)

theorem choice_under (condition : Expr) (yes no : List Task) :
    choice (m.under limit depth) condition yes no =
      Prod.map id (·.under limit depth) <$> choice m condition yes no := by
  rw [choice, choice, Functor.map_map]
  rfl

theorem changes_under {changed changed' : Checked Machine}
    (h : changed' = (·.under limit depth) <$> changed) :
    (([], ·) <$> changed' : Checked (List Task × Machine)) =
      Prod.map id (·.under limit depth) <$> (([], ·) <$> changed) := by
  rw [h, Functor.map_map, Functor.map_map]
  rfl

def Plain : Task → Prop
  | perform (.invoke _ _) | leave => False
  | _ => True

theorem plain_or (task : Task) :
    task.Plain ∨ (∃ tag span, task = perform (.invoke tag span)) ∨ task = leave := by
  cases task with
  | leave => exact .inr (.inr rfl)
  | again => exact .inl trivial
  | perform s =>
    cases s with
    | invoke tag span => exact .inr (.inl ⟨tag, span, rfl⟩)
    | assign | declare | swap | ifThen | ifElse | loop | print => exact .inl trivial

variable {m limit depth} {m' : Machine} {task : Task} {more : List Task}

/-- The limit and the depth count only where tags are entered and left. -/
theorem effect_under (plain : task.Plain) :
    task.effect (m.under limit depth) = Prod.map id (·.under limit depth) <$> task.effect m := by
  cases task with
  | leave => exact plain.elim
  | again condition body => exact choice_under m _ _ condition _ _
  | perform s =>
    cases s with
    | invoke => exact plain.elim
    | declare => rfl
    | assign => exact changes_under _ _ (m.assign_under _ _ _ _)
    | swap => exact changes_under _ _ (m.swap_under _ _ _ _ _)
    | print => exact changes_under _ _ (m.print_under _ _ _)
    | ifThen | ifElse | loop => exact choice_under m _ _ _ _ _

theorem Plain.active (plain : task.Plain) (h : task.effect m = .ok (more, m'))
    (rest : List Task) :
    (more ++ rest).countP isLeave = (task :: rest).countP isLeave := by
  cases effect_cases h with
  | within own inner => rw [List.countP_append, inner, Nat.zero_add, List.countP_cons, own]; rfl
  | enters | leaves => exact plain.elim

end Task

namespace Machine

variable {m : Machine} {tag : String} {span : Span} {fault : Fault RuntimeError}

theorem bodyOf_under_eq_error (h : m.bodyOf tag span = .error fault)
    (uncut : ∀ tag limit, fault.cause ≠ .tooDeep tag limit) (limit depth : Nat) :
    (m.under limit depth).bodyOf tag span = .error fault := by
  unfold bodyOf at h
  unfold bodyOf
  split at h
  next absent =>
    rw [show (m.under limit depth).tags[tag]? = none from absent]
    exact h
  next empty =>
    rw [show (m.under limit depth).tags[tag]? = some none from empty]
    exact h
  next body bound =>
    split at h
    · cases h
      exact absurd rfl (uncut tag m.limit)
    · cases h

end Machine

theorem Task.effect_under_eq_error {task : Task} {m : Machine} {fault : Fault RuntimeError}
    (h : task.effect m = .error fault) (uncut : ∀ tag limit, fault.cause ≠ .tooDeep tag limit)
    (limit depth : Nat) : task.effect (m.under limit depth) = .error fault := by
  obtain plain | ⟨tag, span, rfl⟩ | rfl := task.plain_or
  · rw [effect_under plain, h]
    rfl
  · have bodyOf_eq := Checked.map_eq_error_iff.mp h
    exact Checked.map_eq_error_iff.mpr
      (Machine.bodyOf_under_eq_error bodyOf_eq uncut limit depth)
  · cases h

namespace Outcome

def IsCut (outcome : Outcome) : Prop :=
  ∃ tag limit, outcome.fault?.map (·.cause) = some (.tooDeep tag limit)

def under (limit depth : Nat) : Outcome → Outcome
  | done m => done (m.under limit depth)
  | failed fault m => failed fault (m.under limit depth)

theorem fault?_under (limit depth : Nat) (outcome : Outcome) :
    (outcome.under limit depth).fault? = outcome.fault? := by
  cases outcome <;> rfl

theorem machine_under (limit depth : Nat) (outcome : Outcome) :
    (outcome.under limit depth).machine = outcome.machine.under limit depth := by
  cases outcome <;> rfl

end Outcome

namespace Run

def under (r : Run) (limit base : Nat) : Run :=
  ⟨r.tasks, r.machine.under limit (base + r.active)⟩

theorem level_under (r : Run) (limit base : Nat) : (r.under limit base).Level base :=
  rfl

variable {r r' : Run} {outcome other : Outcome} {limit base base' : Nat}

/-- A step that there is room for under the one limit is the same step under the
other if that leaves as much room. -/
theorem Level.next_under (level : r.Level base) (h : r.next = .goes r')
    (room : r.machine.limit + base' ≤ limit + base) :
    (r.under limit base').next = .goes (r'.under limit base') := by
  obtain ⟨task, rest, more, tasks_eq, tasks_eq', effect_eq⟩ := exists_effect h
  obtain ⟨tasks, m⟩ := r
  obtain ⟨tasks', m'⟩ := r'
  dsimp only at tasks_eq tasks_eq' effect_eq room
  subst tasks_eq tasks_eq'
  suffices task.effect (m.under limit (base' + (task :: rest).countP Task.isLeave)) =
      .ok (more, m'.under limit (base' + (more ++ rest).countP Task.isLeave)) by
    rw [under, next_cons]
    exact congrArg (resume rest _) this
  change m.depth = base + (task :: rest).countP Task.isLeave at level
  obtain plain | ⟨tag, span, rfl⟩ | rfl := task.plain_or
  · rw [Task.effect_under plain, effect_eq, plain.active effect_eq]
    rfl
  · obtain ⟨body, bound, ⟨⟩⟩ := Checked.map_eq_ok_iff.mp effect_eq
    obtain ⟨tag_eq, lt⟩ := Machine.bodyOf_eq_ok_iff.mp bound
    refine Checked.map_eq_ok_iff.mpr ⟨body, Machine.bodyOf_eq_ok_iff.mpr ⟨tag_eq, ?_⟩, ?_⟩
    · change base' + rest.countP Task.isLeave < limit
      change m.depth = base + rest.countP Task.isLeave at level
      omega
    · rw [List.cons_append, List.cons_append, List.nil_append,
        List.countP_cons_of_neg Bool.false_ne_true, List.countP_cons_of_neg Bool.false_ne_true,
        List.countP_cons_of_pos rfl]
      rfl
  · cases effect_eq
    rw [List.countP_cons_of_pos rfl]
    rfl

theorem Level.reaches_under (level : r.Level base) (h : r.Reaches r')
    (room : r.machine.limit + base' ≤ limit + base) :
    (r.under limit base').Reaches (r'.under limit base') := by
  induction h with
  | refl => exact .refl
  | tail reaches step ih =>
    refine ih.tail ((level.reaches reaches).next_under step ?_)
    rw [(grows_of_reaches reaches).limit]
    exact room

theorem Level.ends_under (level : r.Level base) (h : r.next = .ends outcome)
    (uncut : ¬outcome.IsCut) (limit base' : Nat) :
    (r.under limit base').next = .ends (outcome.under limit base') := by
  obtain ⟨tasks, m⟩ := r
  obtain ⟨tasks_eq, rfl⟩ | ⟨task, rest, fault, tasks_eq, effect_eq, rfl⟩ := ends_cases h
  · cases tasks_eq
    rfl
  · cases tasks_eq
    have own := isLeave_of_effect_error effect_eq
    have same := Task.effect_under_eq_error effect_eq
      (fun tag limit cause => uncut ⟨tag, limit, congrArg some cause⟩) limit
      (base' + (task :: rest).countP Task.isLeave)
    rw [under, next_cons]
    refine (congrArg (resume rest _) same).trans ?_
    rw [resume, fail, active, List.countP_cons_of_neg (Bool.eq_false_iff.mp own)]
    have depth : base' + rest.countP Task.isLeave - rest.countP Task.isLeave = base' :=
      Nat.add_sub_cancel ..
    change Progress.ends (.failed fault { m.under limit base' with
      depth := base' + rest.countP Task.isLeave - rest.countP Task.isLeave }) = _
    rw [depth]
    rfl

theorem EndsIn.under (h : r.EndsIn outcome) (level : r.Level base) (uncut : ¬outcome.IsCut)
    (room : r.machine.limit + base' ≤ limit + base) :
    (r.under limit base').EndsIn (outcome.under limit base') := by
  obtain ⟨last, reaches, last_eq⟩ := h.exists_last
  exact (iff_of_reaches (level.reaches_under reaches room)).mpr
    (.now ((level.reaches reaches).ends_under last_eq uncut limit base'))

/-- What was printed when a run ends is printed under a limit that leaves more room
as well, even if the run goes on there. -/
theorem EndsIn.printed_under (h : r.EndsIn outcome) (level : r.Level base)
    (room : r.machine.limit + base' ≤ limit + base) (h' : (r.under limit base').EndsIn other) :
    ∃ values, other.machine.output = outcome.machine.output.emitAll values := by
  obtain ⟨last, reaches, last_eq⟩ := h.exists_last
  have ends := (iff_of_reaches (level.reaches_under reaches room)).mp h'
  have output_eq : outcome.machine.output = last.machine.output := by
    obtain ⟨-, rfl⟩ | ⟨task, rest, fault, -, -, rfl⟩ := ends_cases last_eq <;> rfl
  rw [output_eq]
  exact (ends.grows (last.level_under limit base')).1.output

theorem within_limit_of_next (h : r.next = .goes r') (le : r.machine.depth ≤ r.machine.limit) :
    r'.machine.depth ≤ r'.machine.limit := by
  obtain ⟨task, rest, more, -, -, effect_eq⟩ := exists_effect h
  generalize r'.machine = m' at effect_eq ⊢
  cases Task.effect_cases effect_eq with
  | within _ _ grows depth =>
    rw [depth, grows.limit]
    exact le
  | enters bound => exact (Machine.bodyOf_eq_ok_iff.mp bound).2
  | leaves => exact Nat.le_trans (Nat.sub_le _ _) le

theorem within_limit_of_reaches (h : r.Reaches r') (le : r.machine.depth ≤ r.machine.limit) :
    r'.machine.depth ≤ r'.machine.limit := by
  induction h with
  | refl => exact le
  | tail _ step ih => exact within_limit_of_next step ih

/-- No more invocations are ever active than the limit says. -/
theorem Level.active_le (level : r.Level 0) (h : r.Reaches r')
    (le : r.machine.depth ≤ r.machine.limit) : r'.active ≤ r.machine.limit := by
  calc
    r'.active = r'.machine.depth := ((level.reaches h).trans (Nat.zero_add _)).symm
    _ ≤ r'.machine.limit := within_limit_of_reaches h le
    _ = r.machine.limit := (grows_of_reaches h).limit

def Succeeds (r : Run) : Prop :=
  ∃ m, r.EndsIn (.done m)

theorem succeeds_leaves (count : Nat) (m : Machine) :
    Succeeds ⟨List.replicate count .leave, m⟩ := by
  induction count generalizing m with
  | zero => exact ⟨m, .now rfl⟩
  | succ count ih =>
    obtain ⟨m', ends⟩ := ih { m with depth := m.depth - 1 }
    exact ⟨m', .later rfl ends⟩

/-- An invocation succeeds if there is room for it and the body succeeds one level deeper. -/
theorem succeeds_invoke_iff {m : Machine} {tag : String} {body : Stmt} (span : Span)
    (rest : List Task) (bound : m.tags[tag]? = some (some body)) :
    Succeeds ⟨.perform (.invoke tag span) :: rest, m⟩ ↔
      m.depth < m.limit ∧
        Succeeds ⟨.perform body :: .leave :: rest, { m with depth := m.depth + 1 }⟩ := by
  cases bodyOf_eq : m.bodyOf tag span with
  | error fault =>
    have next_eq : next ⟨.perform (.invoke tag span) :: rest, m⟩ = fail rest m fault := by
      rw [next_cons, Task.effect, bodyOf_eq]
      rfl
    constructor
    · rintro ⟨m', ends⟩
      cases ends.unique (.now next_eq)
    · rintro ⟨lt, -⟩
      cases bodyOf_eq.symm.trans (Machine.bodyOf_eq_ok_iff.mpr ⟨bound, lt⟩)
  | ok body' =>
    obtain ⟨bound', lt⟩ := Machine.bodyOf_eq_ok_iff.mp bodyOf_eq
    cases bound.symm.trans bound'
    have next_eq : next ⟨.perform (.invoke tag span) :: rest, m⟩ =
        .goes ⟨.perform body :: .leave :: rest, { m with depth := m.depth + 1 }⟩ := by
      rw [next_cons, Task.effect, bodyOf_eq]
      rfl
    constructor
    · rintro ⟨m', ends⟩
      exact ⟨lt, m', ends.of_next next_eq⟩
    · rintro ⟨-, m', ends⟩
      exact ⟨m', .later next_eq ends⟩

theorem reaches_of_untagged {m : Machine} {s : Stmt}
    (h : Succeeds (ofStatements [s] (m.under 0 0))) (le : m.depth ≤ m.limit) (rest : List Task) :
    ∃ m', Reaches ⟨.perform s :: rest, m⟩ ⟨rest, m'⟩ := by
  obtain ⟨m', ends⟩ := h
  have room : (m.under 0 0).limit + m.depth ≤ m.limit + (m.under 0 0).depth :=
    Nat.le_trans (Nat.le_of_eq (Nat.zero_add _)) le
  have ends' := ends.under (level_ofStatements [s] (m.under 0 0)) (by rintro ⟨_, _, ⟨⟩⟩) room
  exact ⟨_, ends'.reaches_append rest⟩

end Run

/-- Each of these tags invokes the next, and the last has the given body. -/
inductive TagTable.Chain (τ : TagTable) (last : Stmt) : List String → Prop
  | last {tag : String} : τ[tag]? = some (some last) → Chain τ last [tag]
  | link {tag next : String} {span : Span} {rest : List String} :
    τ[tag]? = some (some (.invoke next span)) → Chain τ last (next :: rest) →
      Chain τ last (tag :: next :: rest)

/-- A chain needs as much room as it is long. -/
theorem TagTable.Chain.succeeds_iff {last : Stmt} {m : Machine} {first : String}
    {others : List String} (chain : m.tags.Chain last (first :: others))
    (untagged : Run.Succeeds (.ofStatements [last] (m.under 0 0))) (span : Span) (count : Nat) :
    Run.Succeeds ⟨.perform (.invoke first span) :: List.replicate count .leave, m⟩ ↔
      m.depth + (first :: others).length ≤ m.limit := by
  induction others generalizing m first span count with
  | nil =>
    cases chain with
    | last bound =>
      refine (Run.succeeds_invoke_iff span _ bound).trans ⟨And.left, fun lt => ⟨lt, ?_⟩⟩
      obtain ⟨m', reaches⟩ := Run.reaches_of_untagged
        (m := { m with depth := m.depth + 1 }) untagged lt (List.replicate (count + 1) .leave)
      obtain ⟨m'', ends⟩ := Run.succeeds_leaves (count + 1) m'
      exact ⟨m'', (Run.EndsIn.iff_of_reaches reaches).mpr ends⟩
  | cons next others ih =>
    cases chain with
    | link bound chain =>
      rename Span => link
      refine (Run.succeeds_invoke_iff span _ bound).trans ?_
      rw [List.length_cons]
      have deeper := ih (m := { m with depth := m.depth + 1 }) chain untagged link (count + 1)
      refine (and_congr_right fun _ => deeper).trans ?_
      change _ ∧ m.depth + 1 + _ ≤ m.limit ↔ _
      omega

namespace Machine

theorem start_under {m : Machine} (idle : m.depth = 0) (p : Program) (d d' : Nat) :
    (({ m with limit := d } : Machine).start p).under d' 0 =
      ({ m with limit := d' } : Machine).start p := by
  obtain ⟨symbols, tags, output, limit, depth⟩ := m
  cases idle
  rw [Run.under, start, Run.active_ofStatements]
  rfl

/-- A limit is exact and all that it does is to cut runs short. No more invocations
than it says are ever active. A run that it does not cut ends in the same way under
a higher limit; one that it cuts has printed the beginning of what is printed there.
So tags in a chain can be invoked exactly if the limit is no less than their number,
where the last has a statement that succeeds without tags, as it does if it succeeds
under the limit 0. -/
theorem limit_exact {m : Machine} (idle : m.depth = 0) {d d' : Nat} (le : d ≤ d') (p : Program) :
    (∀ r, (({ m with limit := d } : Machine).start p).Reaches r → r.active ≤ d) ∧
    (∀ o, EndsIn { m with limit := d } p o → ¬o.IsCut →
      ∃ o', EndsIn { m with limit := d' } p o' ∧ o'.fault? = o.fault? ∧
        o'.machine = { o.machine with limit := d' }) ∧
    (∀ o o', EndsIn { m with limit := d } p o → o.IsCut → EndsIn { m with limit := d' } p o' →
      ∃ values, o'.machine.output = o.machine.output.emitAll values) ∧
    ∀ last first others span, m.tags.Chain last (first :: others) →
      Run.Succeeds (.ofStatements [last] { m with limit := 0 }) →
      (Run.Succeeds (.ofStatements [.invoke first span] { m with limit := d }) ↔
        (first :: others).length ≤ d) := by
  have level : (({ m with limit := d } : Machine).start p).Level 0 := by
    rw [← idle]
    exact Run.level_ofStatements _ _
  have same := start_under idle p d d'
  refine ⟨fun r reaches => ?_, fun o ends uncut => ?_, fun o o' ends _ ends' => ?_, ?_⟩
  · exact level.active_le reaches (Nat.le_trans (Nat.le_of_eq idle) (Nat.zero_le d))
  · obtain ⟨last, reaches, last_eq⟩ := Run.EndsIn.exists_last ends
    have depth : o.machine.depth = 0 := (level.reaches reaches).ends last_eq
    have ends' : (({ m with limit := d } : Machine).start p).under d' 0 |>.EndsIn (o.under d' 0) :=
      Run.EndsIn.under ends level uncut le
    rw [same] at ends'
    refine ⟨o.under d' 0, ends', o.fault?_under d' 0, ?_⟩
    rw [Outcome.machine_under, Machine.under, ← depth]
  · have ends'' : (({ m with limit := d } : Machine).start p).under d' 0 |>.EndsIn o' := by
      rw [same]
      exact ends'
    exact Run.EndsIn.printed_under ends level le ends''
  · intro last first others span chain untagged
    have fresh : m.under 0 0 = { m with limit := 0 } := by rw [Machine.under, ← idle]
    have succeeds_iff := chain.succeeds_iff (m := { m with limit := d })
      (by rw [← fresh] at untagged; exact untagged) span 0
    refine succeeds_iff.trans ?_
    change m.depth + _ ≤ d ↔ _
    rw [idle, Nat.zero_add]

/-- Two tags in a chain are one too many for the limit 1, which cuts the run after
its first line. -/
theorem limit_exact_two_tags :
    ∃ (m : Machine) (last : Stmt) (p : Program) (o o' : Outcome),
      m.depth = 0 ∧ m.tags.Chain last ["a", "b"] ∧
      Run.Succeeds (.ofStatements [last] { m with limit := 0 }) ∧
      ¬Run.Succeeds (.ofStatements [.invoke "a" ⟨6, 8⟩] { m with limit := 1 }) ∧
      EndsIn { m with limit := 1 } p o ∧ o.IsCut ∧ EndsIn { m with limit := 2 } p o' ∧
      ∃ values, o'.machine.output = o.machine.output.emitAll values := by
  let last : Stmt := .print (.boolean true ⟨0, 1⟩) ⟨0, 1⟩
  let m : Machine := { tags := ((∅ : TagTable).bind "a" (.invoke "b" ⟨2, 4⟩)).bind "b" last }
  let p : Program := ⟨[last, .invoke "a" ⟨6, 8⟩], ["a", "b"], []⟩
  have chain : m.tags.Chain last ["a", "b"] := .link rfl (.last rfl)
  have untagged : Run.Succeeds (.ofStatements [last] { m with limit := 0 }) := ⟨_, 2, rfl⟩
  obtain ⟨o, ends, cut⟩ : ∃ o, EndsIn { m with limit := 1 } p o ∧ o.IsCut :=
    ⟨_, ⟨9, rfl⟩, _, _, rfl⟩
  obtain ⟨o', ends'⟩ : ∃ o', EndsIn { m with limit := 2 } p o' := ⟨_, 9, rfl⟩
  obtain ⟨-, -, printed, succeeds_iff⟩ :=
    limit_exact (m := m) rfl (show 1 ≤ 2 by decide) p
  refine ⟨m, last, p, o, o', rfl, chain, untagged, ?_, ends, cut, ends',
    printed o o' ends cut ends'⟩
  rw [succeeds_iff last "a" ["b"] _ chain untagged]
  decide

end Machine

end TagScript
