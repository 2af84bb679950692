import TagScript.Proofs.Reading.Grammar
import TagScript.Proofs.Reading.Passes

/-! How passes over tokens get stuck. A pass looks one token ahead and no further, and
as long as it goes on, what it has taken is the beginning of a phrase. So when it fails,
the tokens before could have been continued and the token at which it fails could not.
Passes that are like this can be put together to others that are. -/
namespace TagScript.Reading

open Grammar Token

def operatorKinds : List Kind :=
  [.plus, .minus, .star, .slash, .equalEqual, .bangEqual, .less, .greater]

/-- The token to blame when `us` have been taken and nothing of `rest` can be: an operator
at the end of `us` if it lacks its right operand, or else the first token of `rest`. -/
def blamed (us rest : List Token) : Option Token :=
  match us.getLast? with
  | none => rest.head?
  | some t => if t.kind ∈ operatorKinds ∧ opensFactor rest = false then some t else rest.head?

/-- The last of the tokens is no operator. -/
def Closed (us : List Token) : Prop :=
  ∀ t ∈ us.getLast?, t.kind ∉ operatorKinds

theorem closed_singleton {t : Token} (h : t.kind ∉ operatorKinds) : Closed [t] := by
  rintro _ ⟨⟩
  exact h

theorem getLast?_append_of_ne_nil (us : List Token) {vs : List Token} (h : vs ≠ []) :
    (us ++ vs).getLast? = vs.getLast? := by
  rw [List.getLast?_append, List.getLast?_eq_some_getLast h, Option.some_or]

theorem Closed.append {us vs : List Token} (h : Closed us) (h' : Closed vs) :
    Closed (us ++ vs) := by
  by_cases empty : vs = []
  · rw [empty, List.append_nil]
    exact h
  · rw [Closed, getLast?_append_of_ne_nil us empty]
    exact h'

theorem blamed_append {us vs rest : List Token} (h : vs = [] → Closed us ∨ opensFactor rest) :
    blamed (us ++ vs) rest = blamed vs rest := by
  by_cases empty : vs = []
  · rw [empty, List.append_nil, blamed, blamed]
    cases last : us.getLast? with
    | none => rfl
    | some t =>
      refine if_neg fun lacks => ?_
      obtain closed | opens := h empty
      · exact closed t last lacks.1
      · rw [lacks.2] at opens
        cases opens
  · rw [blamed, getLast?_append_of_ne_nil us empty, blamed]

theorem opensFactor_congr {ts ts' : List Token} (h : ts'.head? = ts.head?) :
    opensFactor ts' = opensFactor ts := by
  cases ts <;> cases ts' <;> cases h <;> rfl

theorem head?_append_congr (us : List Token) {rest rest' : List Token}
    (h : rest'.head? = rest.head?) : (us ++ rest').head? = (us ++ rest).head? := by
  cases us with
  | nil => exact h
  | cons t us => rfl

/-- A pass takes a phrase, or it gets stuck after the beginning of one. Either way it
has looked at no more than the next token. -/
inductive Goes (p : Pass) (L : List Lexeme → Prop) (ts : List Token) : Prop
  | well (us rest : List Token) (split : ts = us ++ rest) (phrase : L (lexemes us))
      (closed : Closed us) (same : ∀ rest', rest'.head? = rest.head? → p (us ++ rest') = .ok rest')
  | stuck (us rest : List Token) (f : Failure) (split : ts = us ++ rest)
      (viable : ∃ ys, L (lexemes us ++ ys)) (site : f.site = (blamed us rest).map (·.span))
      (same : ∀ rest', rest'.head? = rest.head? → p (us ++ rest') = .error f)

namespace Goes

variable {p q : Pass} {L M : List Lexeme → Prop} {ts : List Token}

theorem mono (h : Goes p L ts) (sub : ∀ xs, L xs → M xs) : Goes p M ts := by
  cases h with
  | well us rest split phrase closed same =>
    exact .well us rest split (sub _ phrase) closed same
  | stuck us rest f split viable site same =>
    obtain ⟨ys, phrase⟩ := viable
    exact .stuck us rest f split ⟨ys, sub _ phrase⟩ site same

theorem congr (h : Goes q L ts) (eq : ∀ ts', ts'.head? = ts.head? → p ts' = q ts') :
    Goes p L ts := by
  cases h with
  | well us rest split phrase closed same =>
    subst split
    exact .well us rest rfl phrase closed fun rest' head_eq =>
      (eq _ (head?_append_congr us head_eq)).trans (same rest' head_eq)
  | stuck us rest f split viable site same =>
    subst split
    exact .stuck us rest f rfl viable site fun rest' head_eq =>
      (eq _ (head?_append_congr us head_eq)).trans (same rest' head_eq)

theorem nothing (phrase : L []) (eq : ∀ ts', ts'.head? = ts.head? → p ts' = .ok ts') :
    Goes p L ts :=
  .well [] ts rfl phrase nofun eq

theorem congr_cons {t : Token} (h : Goes q L (t :: ts)) (eq : ∀ ts', p (t :: ts') = q (t :: ts')) :
    Goes p L (t :: ts) := by
  refine h.congr fun ts' head_eq => ?_
  obtain ⟨ts'', rfl⟩ := List.head?_eq_some_iff.mp head_eq
  exact eq ts''

theorem stopped {t : Token} (phrase : L []) (eq : ∀ ts', p (t :: ts') = .ok (t :: ts')) :
    Goes p L (t :: ts) :=
  congr_cons (.nothing phrase fun _ _ => rfl) eq

theorem finished (phrase : L []) (eq : p [] = .ok []) : Goes p L [] := by
  refine .nothing phrase fun ts' head_eq => ?_
  rw [List.head?_eq_none_iff.mp head_eq]
  exact eq

theorem refused {t : Token} (f : Failure) (viable : ∃ ys, L ys) (site : f.site = some t.span)
    (eq : ∀ ts', p (t :: ts') = .error f) : Goes p L (t :: ts) :=
  congr_cons (q := fun _ => .error f) (.stuck [] (t :: ts) f rfl viable site fun _ _ => rfl) eq

theorem short (f : Failure) (viable : ∃ ys, L ys) (site : f.site = none) (eq : p [] = .error f) :
    Goes p L [] := by
  refine .stuck [] [] f rfl viable site fun ts' head_eq => ?_
  rw [List.head?_eq_none_iff.mp head_eq]
  exact eq

theorem cons {t : Token} (h : Goes q (fun ys => L (t.toLexeme :: ys)) ts)
    (whole : t.kind ∉ operatorKinds ∨ opensFactor ts ∧ ¬L [t.toLexeme])
    (eq : ∀ ts', ts'.head? = ts.head? → p (t :: ts') = q ts') : Goes p L (t :: ts) := by
  cases h with
  | well us rest split phrase closed same =>
    subst split
    refine .well (t :: us) rest rfl phrase ?_ fun rest' head_eq =>
      (eq _ (head?_append_congr us head_eq)).trans (same rest' head_eq)
    obtain kind | ⟨-, lacks⟩ := whole
    · exact (closed_singleton kind).append closed
    · have some_taken : us ≠ [] := by
        rintro rfl
        exact lacks phrase
      rw [Closed, ← List.singleton_append, getLast?_append_of_ne_nil [t] some_taken]
      exact closed
  | stuck us rest f split viable site same =>
    subst split
    refine .stuck (t :: us) rest f rfl viable ?_ fun rest' head_eq =>
      (eq _ (head?_append_congr us head_eq)).trans (same rest' head_eq)
    have blamed_eq : blamed ([t] ++ us) rest = blamed us rest := by
      refine blamed_append fun empty => ?_
      obtain kind | ⟨opens, -⟩ := whole
      · exact .inl (closed_singleton kind)
      · rw [empty] at opens
        exact .inr opens
    rw [site, ← blamed_eq]
    rfl

theorem take {t : Token} (h : Goes q (fun ys => L (t.toLexeme :: ys)) ts)
    (kind : t.kind ∉ operatorKinds) (eq : ∀ ts', p (t :: ts') = q ts') : Goes p L (t :: ts) :=
  h.cons (.inl kind) fun ts' _ => eq ts'

/-- One pass after the other. Whatever the first takes can be completed, since it may
get stuck before the second begins. -/
theorem andThen (first : Goes p L ts)
    (next : ∀ us rest, ts = us ++ rest → L (lexemes us) →
      Goes q (fun ys => M (lexemes us ++ ys)) rest)
    (complete : ∀ xs, L xs → ∃ zs, M (xs ++ zs)) : Goes (p >=> q) M ts := by
  cases first with
  | well us rest split phrase closed same =>
    -- the first looks at the next token, which stays the same if the second takes none
    have passes {rest' : List Token} (head_eq : rest'.head? = rest.head?) :
        (p >=> q) (us ++ rest') = q rest' := by
      change p (us ++ rest') >>= q = q rest'
      rw [same rest' head_eq]
      rfl
    cases next us rest split phrase with
    | well vs rest split' phrase' closed' same' =>
      subst split split'
      refine .well (us ++ vs) rest (List.append_assoc ..).symm ?_ (closed.append closed') ?_
      · rw [lexemes, List.map_append]
        exact phrase'
      · intro rest' head_eq
        rw [List.append_assoc, passes (head?_append_congr vs head_eq), same' rest' head_eq]
    | stuck vs rest f split' viable site same' =>
      subst split split'
      refine .stuck (us ++ vs) rest f (List.append_assoc ..).symm ?_ ?_ ?_
      · obtain ⟨ys, phrase'⟩ := viable
        refine ⟨ys, ?_⟩
        rw [lexemes, List.map_append, List.append_assoc]
        exact phrase'
      · rw [site, blamed_append fun _ => .inl closed]
      · intro rest' head_eq
        rw [List.append_assoc, passes (head?_append_congr vs head_eq), same' rest' head_eq]
  | stuck us rest f split viable site same =>
    obtain ⟨ys, phrase⟩ := viable
    obtain ⟨zs, whole⟩ := complete _ phrase
    rw [List.append_assoc] at whole
    refine .stuck us rest f split ⟨ys ++ zs, whole⟩ site fun rest' head_eq => ?_
    change p (us ++ rest') >>= q = .error f
    rw [same rest' head_eq]
    rfl

theorem expect {expected : Expected} (phrase : ∀ x : Lexeme, x.kind = expected.kind → L [x]) :
    Goes (pass (expect expected)) L ts := by
  have viable : ∃ ys, L ys := ⟨_, phrase ⟨expected.kind, ""⟩ rfl⟩
  cases ts with
  | nil => exact .short ⟨.missing expected none, none⟩ viable rfl rfl
  | cons t ts =>
    by_cases same : t.kind = expected.kind
    · have kind : t.kind ∉ operatorKinds := by
        rw [same]
        cases expected <;> simp only [Expected.kind] <;> decide
      refine .take (q := .ok) (.nothing (phrase _ same) fun _ _ => rfl) kind fun ts' => ?_
      rw [pass_expect, if_pos same]
    · refine .refused ⟨.missing expected (some t.toLexeme), some t.span⟩ viable rfl fun ts' => ?_
      rw [pass_expect, if_neg same]

theorem branch {kind : Kind} {yes no : Pass} (apart : kind ∉ operatorKinds)
    (of_yes : ∀ t rest, ts = t :: rest → t.kind = kind →
      Goes yes (fun ys => L (t.toLexeme :: ys)) rest)
    (of_no : Goes no L ts) : Goes (branch kind yes no) L ts := by
  cases ts with
  | nil =>
    refine of_no.congr fun ts' head_eq => ?_
    rw [List.head?_eq_none_iff.mp head_eq]
    rfl
  | cons t ts =>
    by_cases same : t.kind = kind
    · refine .take (of_yes t ts rfl same) (by rw [same]; exact apart) fun ts' => ?_
      rw [Reading.branch, if_pos same]
    · exact of_no.congr_cons fun ts' => by rw [Reading.branch, if_neg same]

theorem append {K : List Lexeme → Prop} (first : Goes p L ts)
    (next : ∀ us rest, ts = us ++ rest → L (lexemes us) → Goes q K rest)
    (whole : ∀ xs ys, L xs → K ys → M (xs ++ ys)) (viable : ∃ ys, K ys) :
    Goes (p >=> q) M ts := by
  refine first.andThen (fun us rest split phrase => ?_) fun xs phrase => ?_
  · exact (next us rest split phrase).mono fun ys => whole _ ys phrase
  · obtain ⟨ys, phrase'⟩ := viable
    exact ⟨ys, whole xs ys phrase phrase'⟩

theorem closedBy (expected : Expected) (inner : Goes p L ts)
    (whole : ∀ xs close, L xs → close.kind = expected.kind → M (xs ++ [close])) :
    Goes (p >=> pass (Reading.expect expected)) M ts := by
  refine inner.andThen (fun us rest _ phrase => ?_) fun xs phrase => ?_
  · exact .expect fun close kind => whole _ close phrase kind
  · exact ⟨_, whole xs ⟨expected.kind, ""⟩ phrase rfl⟩

theorem opening (expected : Expected)
    (inner : ∀ t rest, ts = t :: rest → t.kind = expected.kind →
      Goes q (fun ys => M (t.toLexeme :: ys)) rest)
    (viable : ∀ x : Lexeme, x.kind = expected.kind → ∃ ys, M (x :: ys)) :
    Goes (pass (Reading.expect expected) >=> q) M ts := by
  refine andThen (L := fun xs => ∃ x : Lexeme, xs = [x] ∧ x.kind = expected.kind)
    (.expect fun x kind => ⟨x, rfl, kind⟩) ?_ ?_
  · rintro us rest split ⟨x, eq, kind⟩
    obtain ⟨t, rfl, rfl⟩ := List.map_eq_singleton_iff.mp eq
    exact inner t rest split kind
  · rintro _ ⟨x, rfl, kind⟩
    exact viable x kind

end Goes

end TagScript.Reading
