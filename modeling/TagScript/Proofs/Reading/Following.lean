import TagScript.Proofs.Reading.Cursor
import TagScript.Proofs.Reading.Soundness

/-! When a reader with a cursor does what an attempt does. It comes to an end, with the value
of the attempt or with its failure, it notes what the attempt notes, and its steps are in
order: the cursor never goes back nor leaves the list, there is a token before it wherever
one is looked up, and a construct that has been read has taken a token. -/
namespace TagScript

open Reading

theorem Reading.Attempt.bind_pure {α : Type} (x : Attempt α) : x >>= pure = x := by
  obtain ⟨visits, bindings, result⟩ := x
  cases result with
  | error f => rfl
  | ok a =>
    change (⟨visits ++ [], bindings ++ [], .ok a⟩ : Attempt α) = _
    rw [List.append_nil, List.append_nil]

namespace Cursor

/-- A token is looked up with the cursor at 1 or more; a construct ends after it begins. -/
def Step.Sound : Step → Prop
  | ⟨.forward, _⟩ => True
  | ⟨.back, place⟩ => 0 < place
  | ⟨.read _ start, place⟩ => start < place

/-- The way to a state is in order, when there are `count` tokens. -/
structure Orderly (count : Nat) (s : State) : Prop where
  within : s.place ≤ count
  /-- The cursor has nowhere been past the place where it is now. -/
  passed : ∀ step ∈ s.steps, step.place ≤ s.place
  /-- It has never gone back. -/
  rising : s.steps.Pairwise fun earlier later => earlier.place ≤ later.place
  sound : ∀ step ∈ s.steps, step.Sound

namespace Orderly

variable {n : Nat} {s : State} {act : Act}

theorem initial : Orderly n State.initial :=
  ⟨Nat.zero_le n, nofun, .nil, nofun⟩

theorem congr {s' : State} (h : Orderly n s) (place_eq : s'.place = s.place)
    (steps_eq : s'.steps = s.steps) : Orderly n s' := by
  obtain ⟨place, visits, bindings, steps⟩ := s'
  subst place_eq steps_eq
  exact ⟨h.within, h.passed, h.rising, h.sound⟩

theorem note (h : Orderly n s) (sound : Step.Sound ⟨act, s.place⟩) :
    Orderly n { s with steps := s.steps ++ [⟨act, s.place⟩] } where
  within := h.within
  passed := List.forall_mem_append.mpr ⟨h.passed, List.forall_mem_singleton.mpr (Nat.le_refl _)⟩
  rising := by
    refine List.pairwise_append.mpr ⟨h.rising, List.pairwise_singleton _ _, ?_⟩
    intro earlier mem
    exact List.forall_mem_singleton.mpr (h.passed earlier mem)
  sound := List.forall_mem_append.mpr ⟨h.sound, List.forall_mem_singleton.mpr sound⟩

theorem forward (h : Orderly n s) (more : s.place < n) :
    Orderly n { s with place := s.place + 1 } where
  within := more
  passed step mem := Nat.le_succ_of_le (h.passed step mem)
  rising := h.rising
  sound := h.sound

end Orderly

section Judgement

variable {α β γ δ : Type} {tokens : List Token}

/-- Two ends alike: related values, or the same failure. None is out of range. -/
inductive Alike (tokens : List Token) (R : α → β → Prop) :
    Except Stop α → Except Failure β → Prop
  | value {a : α} {b : β} (related : R a b) : Alike tokens R (.ok a) (.ok b)
  | failure (f : Failure) : Alike tokens R (.error (.fault (f.fault tokens))) (.error f)

/-- From the place `c` the reader does what the attempt does. Where both have a value,
`R` holds of the values and of the place that the reader has come to. -/
def Follows (tokens : List Token) (c : Nat) (m : Reader α) (x : Attempt β)
    (R : α → β → Nat → Prop) : Prop :=
  ∀ s, s.place = c → Orderly tokens.length s → ∃ r s', m tokens s = some (r, s') ∧
    Orderly tokens.length s' ∧ s'.visits = s.visits ++ x.visits ∧
    s'.bindings = s.bindings ++ x.bindings ∧ Alike tokens (R · · s'.place) r x.result

def Yields (tokens : List Token) (c : Nat) (m : Reader α) (a : α) (c' : Nat) : Prop :=
  Follows tokens c m (pure () : Attempt Unit) fun b _ d => b = a ∧ d = c'

def Fails (tokens : List Token) (c : Nat) (m : Reader α) (cause : ParseError)
    (site : Option Span) : Prop :=
  Follows tokens c m (Attempt.fail cause site : Attempt Unit) fun _ _ _ => False

theorem run_bind (m : Reader α) (f : α → Reader β) (tokens : List Token) (s : State) :
    (m >>= f) tokens s = (m tokens s).bind fun
      | (.ok a, s') => f a tokens s'
      | (.error stop, s') => some (.error stop, s') := by
  change (m tokens s).bind _ = _
  refine congrArg _ (funext fun result => ?_)
  obtain ⟨r, s'⟩ := result
  cases r <;> rfl

variable {c c' : Nat} {m : Reader α} {x : Attempt β} {f : α → Reader γ} {g : β → Attempt δ}
  {R : α → β → Nat → Prop} {S : γ → δ → Nat → Prop}

theorem Follows.bind (first : Follows tokens c m x R)
    (next : ∀ a b d, R a b d → Follows tokens d (f a) (g b) S) :
    Follows tokens c (m >>= f) (x >>= g) S := by
  intro s at_c orderly
  obtain ⟨r, s', run_eq, orderly', visits_eq, bindings_eq, alike⟩ := first s at_c orderly
  obtain ⟨visits, bindings, result⟩ := x
  rw [run_bind, run_eq]
  cases alike with
  | value related =>
    obtain ⟨r', s'', run_eq', orderly'', visits_eq', bindings_eq', alike'⟩ :=
      next _ _ _ related s' rfl orderly'
    refine ⟨r', s'', run_eq', orderly'', ?_, ?_, alike'⟩
    · rw [visits_eq', visits_eq, List.append_assoc]
      rfl
    · rw [bindings_eq', bindings_eq, List.append_assoc]
      rfl
  | failure f => exact ⟨_, s', rfl, orderly', visits_eq, bindings_eq, .failure f⟩

theorem Follows.pure {a : α} {b : β} (related : R a b c) :
    Follows tokens c (pure a) (pure b) R := by
  intro s at_c orderly
  subst at_c
  exact ⟨_, s, rfl, orderly, (List.append_nil _).symm, (List.append_nil _).symm, .value related⟩

theorem Follows.map {h : β → δ} {S : α → δ → Nat → Prop} (first : Follows tokens c m x R)
    (related : ∀ a b d, R a b d → S a (h b) d) :
    Follows tokens c m (x >>= fun b => Pure.pure (h b)) S := by
  intro s at_c orderly
  obtain ⟨r, s', run_eq, orderly', visits_eq, bindings_eq, alike⟩ := first s at_c orderly
  obtain ⟨visits, bindings, result⟩ := x
  cases alike with
  | value ok =>
    refine ⟨_, s', run_eq, orderly', ?_, ?_, .value (related _ _ _ ok)⟩
    · rw [visits_eq]
      exact congrArg _ (List.append_nil _).symm
    · rw [bindings_eq]
      exact congrArg _ (List.append_nil _).symm
  | failure f => exact ⟨_, s', run_eq, orderly', visits_eq, bindings_eq, .failure f⟩

theorem Follows.andThen {S : γ → β → Nat → Prop} (first : Follows tokens c m x R)
    (next : ∀ a b d, R a b d → Follows tokens d (f a) (Pure.pure b) S) :
    Follows tokens c (m >>= f) x S := by
  rw [← Attempt.bind_pure x]
  exact first.bind next

theorem Fails.bind {cause : ParseError} {site : Option Span} (h : Fails tokens c m cause site) :
    Fails tokens c (m >>= f) cause site :=
  Follows.bind (g := fun _ => Attempt.fail cause site) h nofun

theorem Fails.follows {cause : ParseError} {site : Option Span} (h : Fails tokens c m cause site) :
    Follows tokens c m (Attempt.fail cause site) R := by
  intro s at_c orderly
  obtain ⟨r, s', run_eq, orderly', visits_eq, bindings_eq, alike⟩ := h s at_c orderly
  cases alike with
  | failure => exact ⟨_, s', run_eq, orderly', visits_eq, bindings_eq, .failure ⟨cause, site⟩⟩

theorem Yields.andThen {a : α} {y : Attempt δ} (first : Yields tokens c m a c')
    (next : Follows tokens c' (f a) y S) : Follows tokens c (m >>= f) y S := by
  refine Follows.bind (g := fun _ => y) first ?_
  rintro _ _ _ ⟨rfl, rfl⟩
  exact next

section Branches

variable {test : Reader Bool} {yes no : Reader γ} {y : Attempt δ}

theorem Yields.thenBranch (h : Yields tokens c test true c') (next : Follows tokens c' yes y S) :
    Follows tokens c (test >>= fun b => if b then yes else no) y S := by
  refine h.andThen ?_
  rw [if_pos rfl]
  exact next

theorem Yields.elseBranch (h : Yields tokens c test false c') (next : Follows tokens c' no y S) :
    Follows tokens c (test >>= fun b => if b then yes else no) y S := by
  refine h.andThen ?_
  rw [if_neg Bool.false_ne_true]
  exact next

end Branches

theorem Yields.pure {a : α} {b : β} (h : Yields tokens c m a c') (related : R a b c') :
    Follows tokens c m (pure b) R := by
  refine Follows.map (h := fun _ => b) h ?_
  rintro _ _ _ ⟨rfl, rfl⟩
  exact related

end Judgement

/-! The steps of a reader. -/

section Steps

variable {α β : Type} {tokens : List Token} {c : Nat}

theorem yields_of_run {m : Reader α} {a : α} {d : Nat}
    (run : ∀ s, s.place = c → Orderly tokens.length s → ∃ s', m tokens s = some (.ok a, s') ∧
      s'.place = d ∧ Orderly tokens.length s' ∧ s'.visits = s.visits ∧ s'.bindings = s.bindings) :
    Yields tokens c m a d := by
  intro s at_c orderly
  obtain ⟨s', run_eq, at_d, orderly', visits_eq, bindings_eq⟩ := run s at_c orderly
  exact ⟨_, s', run_eq, orderly', visits_eq.trans (List.append_nil _).symm,
    bindings_eq.trans (List.append_nil _).symm, .value ⟨rfl, at_d⟩⟩

theorem fails_of_run {m : Reader α} {cause : ParseError} {site : Option Span}
    (run : ∀ s, m tokens s = some (.error (.fault (Failure.fault tokens ⟨cause, site⟩)), s)) :
    Fails tokens c m cause site := by
  intro s _ orderly
  exact ⟨_, s, run s, orderly, (List.append_nil _).symm, (List.append_nil _).symm,
    .failure ⟨cause, site⟩⟩

theorem yields_pure (a : α) : Yields tokens c (pure a) a c :=
  Follows.pure ⟨rfl, rfl⟩

theorem yields_read : Yields tokens c read tokens c :=
  yields_of_run fun s at_c orderly => ⟨s, rfl, at_c, orderly, rfl, rfl⟩

theorem yields_place : Yields tokens c place c c :=
  yields_of_run fun s at_c orderly => ⟨s, at_c ▸ rfl, at_c, orderly, rfl, rfl⟩

theorem yields_note {act : Act} (sound : Step.Sound ⟨act, c⟩) :
    Yields tokens c (note act) () c := by
  refine yields_of_run fun s at_c orderly => ?_
  subst at_c
  exact ⟨_, rfl, rfl, orderly.note sound, rfl, rfl⟩

theorem yields_forward (more : c < tokens.length) : Yields tokens c forward () (c + 1) := by
  refine yields_of_run fun s at_c orderly => ?_
  subst at_c
  have sound : Step.Sound ⟨.forward, s.place + 1⟩ := trivial
  exact ⟨_, rfl, rfl, (orderly.forward more).note sound, rfl, rfl⟩

theorem follows_visit (v : Visit) :
    Follows tokens c (visit v) (Attempt.visit v) fun _ _ d => d = c := by
  intro s at_c orderly
  exact ⟨_, _, rfl, orderly.congr rfl rfl, rfl, (List.append_nil _).symm, .value at_c⟩

theorem follows_declare (tag : String) (body : Stmt) :
    Follows tokens c (declare tag body) (Attempt.declare tag body) fun _ _ d => d = c := by
  intro s at_c orderly
  exact ⟨_, _, rfl, orderly.congr rfl rfl, (List.append_nil _).symm, rfl, .value at_c⟩

theorem fails_failAt (cause : ParseError) (span : Span) :
    Fails tokens c (failAt cause span : Reader α) cause (some span) :=
  fails_of_run fun _ => rfl

theorem fails_failAtEnd (cause : ParseError) :
    Fails tokens c (failAtEnd cause : Reader α) cause none :=
  fails_of_run fun _ => rfl

variable {R : α → β → Nat → Prop}

theorem Follows.visit {m : Reader α} {x : Attempt β} (v : Visit) (next : Follows tokens c m x R) :
    Follows tokens c (Cursor.visit v >>= fun _ => m) (Attempt.visit v >>= fun _ => x) R := by
  refine (follows_visit v).bind ?_
  rintro _ _ _ rfl
  exact next

end Steps

/-! Which tokens there are at a place. -/

section Places

variable {tokens ts : List Token} {c : Nat} {t : Token}

def Ahead (tokens : List Token) (c : Nat) (ts : List Token) : Prop :=
  tokens.drop c = ts

def Behind (tokens : List Token) (c : Nat) (t : Token) : Prop :=
  ∃ before, c = before + 1 ∧ tokens[before]? = some t

namespace Ahead

theorem getElem?_eq (h : Ahead tokens c ts) : tokens[c]? = ts.head? := by
  rw [← h, List.head?_drop]

theorem lt_length (h : Ahead tokens c (t :: ts)) : c < tokens.length :=
  (List.getElem?_eq_some_iff.mp h.getElem?_eq).1

theorem tail (h : Ahead tokens c (t :: ts)) : Ahead tokens (c + 1) ts := by
  rw [Ahead, ← List.drop_drop, h]
  rfl

theorem behind (h : Ahead tokens c (t :: ts)) : Behind tokens (c + 1) t :=
  ⟨c, rfl, h.getElem?_eq⟩

theorem atEnd_eq (h : Ahead tokens c ts) : decide (tokens.length ≤ c) = ts.isEmpty := by
  rw [← h, Bool.eq_iff_iff, decide_eq_true_iff, List.isEmpty_iff, List.drop_eq_nil_iff]

theorem length_sub (h : Ahead tokens c ts) : tokens.length - c = ts.length := by
  rw [← h, List.length_drop]

theorem of_accept? {kind : Kind} {p : Parsed Token ts.length} (h : Ahead tokens c ts)
    (accepted : accept? kind ts = some p) : Ahead tokens c (p.value :: p.rest) :=
  (accept?_eq_some accepted).1 ▸ h

theorem past {kind : Kind} {p : Parsed Token ts.length} (h : Ahead tokens c ts)
    (accepted : accept? kind ts = some p) : Ahead tokens (c + 1) p.rest :=
  (h.of_accept? accepted).tail

theorem lt_of_length_lt {d : Nat} {us : List Token} (h : Ahead tokens c ts)
    (h' : Ahead tokens d us) (fits : us.length < ts.length) : c < d := by
  rw [← h.length_sub, ← h'.length_sub] at fits
  omega

end Ahead

theorem yields_atEnd (ahead : Ahead tokens c ts) : Yields tokens c atEnd ts.isEmpty c := by
  rw [← ahead.atEnd_eq]
  exact yields_read.andThen (yields_place.andThen (yields_pure _))

theorem yields_peek (ahead : Ahead tokens c ts) : Yields tokens c peek ts.head? c := by
  rw [← ahead.getElem?_eq]
  exact yields_read.andThen (yields_place.andThen (yields_pure _))

section Check

variable {kind : Kind}

theorem isSome_accept? (kind : Kind) (ts : List Token) :
    (accept? kind ts).isSome = ts.head?.any (·.kind = kind) := by
  cases ts with
  | nil => rfl
  | cons t ts =>
    by_cases same : t.kind = kind
    · rw [accept?, if_pos same]
      exact (decide_eq_true same).symm
    · rw [accept?, if_neg same]
      exact (decide_eq_false same).symm

theorem yields_check (ahead : Ahead tokens c ts) :
    Yields tokens c (check kind) (accept? kind ts).isSome c := by
  rw [isSome_accept?]
  exact (yields_peek ahead).andThen (yields_pure _)

theorem yields_check_of_some {p : Parsed Token ts.length} (ahead : Ahead tokens c ts)
    (accepted : accept? kind ts = some p) : Yields tokens c (check kind) true c := by
  have found : Yields tokens c (check kind) _ c := yields_check ahead
  rwa [accepted] at found

theorem yields_check_of_none (ahead : Ahead tokens c ts) (other : accept? kind ts = none) :
    Yields tokens c (check kind) false c := by
  have found : Yields tokens c (check kind) _ c := yields_check ahead
  rwa [other] at found

end Check

theorem yields_previous (behind : Behind tokens c t) : Yields tokens c previous t c := by
  obtain ⟨before, rfl, found⟩ := behind
  have sound : Step.Sound ⟨.back, before + 1⟩ := Nat.zero_lt_succ before
  refine (yields_note sound).andThen ?_
  refine yields_place.andThen (yields_read.andThen ?_)
  rw [found]
  exact yields_pure t

theorem yields_advance (ahead : Ahead tokens c (t :: ts)) :
    Yields tokens c advance t (c + 1) := by
  refine (yields_atEnd ahead).elseBranch ?_
  exact (yields_forward ahead.lt_length).andThen (yields_previous ahead.behind)

/-- The reader has the value that was parsed, and has come to the tokens left after it. -/
def Reads {α : Type} {n : Nat} (tokens : List Token) (a : α) (p : Parsed α n) (d : Nat) : Prop :=
  a = p.value ∧ Ahead tokens d p.rest

theorem yields_consume {expected : Expected} (ahead : Ahead tokens c (t :: ts))
    (kind : t.kind = expected.kind) : Yields tokens c (consume expected) t (c + 1) :=
  (yields_check_of_some ahead (if_pos kind)).thenBranch (yields_advance ahead)

theorem follows_consume (ahead : Ahead tokens c ts) (expected : Expected) :
    Follows tokens c (consume expected) (expect expected ts) fun a p d =>
      Reads tokens a p d ∧ Behind tokens d a := by
  cases ts with
  | nil =>
    refine (yields_check_of_none ahead rfl).elseBranch ?_
    exact (yields_peek ahead).andThen (fails_failAtEnd _).follows
  | cons t ts =>
    by_cases kind : t.kind = expected.kind
    · rw [expect, if_pos kind]
      exact (yields_consume ahead kind).pure ⟨⟨rfl, ahead.tail⟩, ahead.behind⟩
    · rw [expect, if_neg kind]
      refine (yields_check_of_none ahead (if_neg kind)).elseBranch ?_
      exact (yields_peek ahead).andThen (fails_failAt _ _).follows

theorem yields_matchKind {kind : Kind} {p : Parsed Token ts.length} (ahead : Ahead tokens c ts)
    (accepted : accept? kind ts = some p) : Yields tokens c (matchKind kind) true (c + 1) := by
  refine (yields_check_of_some ahead accepted).thenBranch ?_
  exact (yields_advance (ahead.of_accept? accepted)).andThen (yields_pure true)

theorem yields_matchKind_of_none {kind : Kind} (ahead : Ahead tokens c ts)
    (other : accept? kind ts = none) : Yields tokens c (matchKind kind) false c :=
  (yields_check_of_none ahead other).elseBranch (yields_pure false)

section Operators

variable {operator? : Kind → Option BinaryOp}

theorem yields_matchOperator {op : BinaryOp} (ahead : Ahead tokens c (t :: ts))
    (operator : operator? t.kind = some op) :
    Yields tokens c (matchOperator operator?) (some op) (c + 1) := by
  refine (yields_peek ahead).andThen ?_
  simp only [List.head?_cons, Option.bind_some, operator]
  exact (yields_advance ahead).andThen (yields_pure _)

theorem yields_matchOperator_of_none (ahead : Ahead tokens c ts)
    (other : ts.head?.bind (operator? ·.kind) = none) :
    Yields tokens c (matchOperator operator?) none c := by
  refine (yields_peek ahead).andThen ?_
  rw [other]
  exact yields_pure none

end Operators

theorem opensFactor_head? (ts : List Token) : opensFactor ts.head?.toList = opensFactor ts := by
  cases ts <;> rfl

theorem yields_expectFactor (behind : Behind tokens c t) (ahead : Ahead tokens c ts)
    (opens : opensFactor ts) : Yields tokens c expectFactor () c := by
  refine (yields_previous behind).andThen ((yields_peek ahead).andThen ?_)
  rw [opensFactor_head?, if_pos opens]
  exact yields_pure ()

theorem fails_expectFactor (behind : Behind tokens c t) (ahead : Ahead tokens c ts)
    (opens : ¬opensFactor ts) : Fails tokens c expectFactor (.noOperand t.text) (some t.span) := by
  refine (yields_previous behind).andThen ((yields_peek ahead).andThen ?_)
  rw [opensFactor_head?, if_neg opens]
  exact fails_failAt _ _

section Complete

variable {α β : Type} {n start : Nat}

theorem follows_complete {R : α → β → Nat → Prop} {a : α} {b : β} (production : Production)
    (lt : start < c) (related : R a b c) :
    Follows tokens c (complete production start a) (pure b) R := by
  have sound : Step.Sound ⟨.read production start, c⟩ := lt
  exact (yields_note sound).andThen (.pure related)

theorem Reads.complete {a : α} {p : Parsed α n} (reads : Reads tokens a p c)
    (production : Production) (begun : Ahead tokens start ts) (le : n ≤ ts.length) :
    Follows tokens c (Cursor.complete production start a) (pure p) (Reads tokens) :=
  follows_complete production
    (begun.lt_of_length_lt reads.2 (Nat.lt_of_lt_of_le p.fits le)) reads

theorem Follows.complete {m : Reader α} {x : Attempt (Parsed α n)}
    (first : Follows tokens c m x (Reads tokens)) (production : Production)
    (begun : Ahead tokens start ts) (le : n ≤ ts.length) :
    Follows tokens c (m >>= Cursor.complete production start) x (Reads tokens) :=
  first.andThen fun _ _ _ reads => reads.complete production begun le

end Complete

end Places

end Cursor

end TagScript
