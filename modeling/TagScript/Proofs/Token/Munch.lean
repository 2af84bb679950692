import TagScript.Proofs.Numeral.Integer
import TagScript.Proofs.Unicode.Letters
import TagScript.Token.Scan

/-! The lexical grammar on its own: which pieces there are, and how a text is
cut into them, each piece the longest that begins where it does. Cutting finds
exactly this row of pieces, and fails only where there is none or where a
number is too large. -/
namespace TagScript.Piece

open Unicode

def signs : List (Kind × List Char) :=
  [(.leftParen, ['(']), (.rightParen, [')']), (.leftBrace, ['{']), (.rightBrace, ['}']),
   (.leftBracket, ['[']), (.rightBracket, [']']), (.comma, [',']), (.plus, ['+']),
   (.star, ['*']), (.slash, ['/']), (.less, ['<']), (.greater, ['>']), (.minus, ['-']),
   (.equal, ['=']), (.equalEqual, ['=', '=']), (.bangEqual, ['!', '='])]

/-- The piece belongs to the lexical grammar. The size of a number is no part
of its form. -/
inductive Formed : Piece → Prop
  | blank {c : Char} (mem : c ∈ [' ', '\t', '\r']) : Formed (blank c)
  | newline : Formed newline
  | comment {c : Char} {text : List Char} (opening : c = '-' ∨ c = '>') (line : '\n' ∉ text) :
      Formed (comment ('-' :: c :: text))
  | sign {kind : Kind} {text : List Char} (mem : (kind, text) ∈ signs) : Formed (sign kind text)
  | number {digits : List Char} (nonempty : digits ≠ [])
      (all : ∀ c ∈ digits, Decimal.isDigit c = true) : Formed (number digits)
  | word {letters : List Char} (nonempty : letters ≠ [])
      (all : ∀ c ∈ letters, isAlphabetic c = true) : Formed (word letters)
  | tag {letters : List Char} (nonempty : letters ≠ [])
      (all : ∀ c ∈ letters, isAlphabetic c = true) : Formed (tag letters)

/-- No piece of the grammar that `cs` begins with is longer. -/
def Longest (piece : Piece) (cs : List Char) : Prop :=
  ∀ other : Piece, other.Formed → other.text <+: cs → other.text.length ≤ piece.text.length

/-- The text is this row of pieces, each the longest where it begins. -/
inductive Munch : List Char → List Piece → Prop
  | nil : Munch [] []
  | cons {piece : Piece} {rest : List Char} {pieces : List Piece} (formed : piece.Formed)
      (longest : piece.Longest (piece.text ++ rest)) (others : Munch rest pieces) :
      Munch (piece.text ++ rest) (piece :: pieces)

def InRange : Piece → Prop
  | number digits => Decimal.value digits ≤ 9223372036854775807
  | _ => True

/-- The piece does not go on with this character. -/
def StopsAt : Piece → Char → Prop
  | comment _, c => c = '\n'
  | sign .minus _, c => c ≠ '-' ∧ c ≠ '>'
  | sign .equal _, c => c ≠ '='
  | number _, c => Decimal.isDigit c = false
  | word _, c | tag _, c => isAlphabetic c = false
  | _, _ => True

def StopsBefore (piece : Piece) (rest : List Char) : Prop :=
  ∀ c ∈ rest.head?, piece.StopsAt c

theorem stopsBefore_nil (piece : Piece) : piece.StopsBefore [] :=
  nofun

@[simp] theorem stopsBefore_cons {piece : Piece} {c : Char} {rest : List Char} :
    piece.StopsBefore (c :: rest) ↔ piece.StopsAt c := by
  simp [StopsBefore]

theorem Formed.text_ne_nil {piece : Piece} (h : piece.Formed) : piece.text ≠ [] := by
  cases h with
  | blank | newline | comment | tag => exact List.cons_ne_nil _ _
  | sign mem =>
    have table : ∀ s ∈ signs, s.2 ≠ [] := by decide
    exact table _ mem
  | number nonempty => exact nonempty
  | word nonempty => exact nonempty

/-! Runs of characters of one class, which numbers, words, tags and comments are. -/

section Runs

variable {p : Char → Bool} {c : Char}

theorem takeWhile_append_of_stop {cs rest : List Char} (inside : ∀ c ∈ cs, p c = true)
    (stop : ∀ c ∈ rest.head?, p c = false) : (cs ++ rest).takeWhile p = cs := by
  rw [List.takeWhile_append_of_pos inside]
  cases rest with
  | nil => simp
  | cons c rest => simp [stop c rfl]

theorem mem_takeWhile {cs : List Char} (h : c ∈ cs.takeWhile p) : p c = true :=
  List.all_eq_true.mp List.all_takeWhile c h

theorem stop_of_mem_head?_dropWhile {cs : List Char} (h : c ∈ (cs.dropWhile p).head?) :
    p c = false := by
  have stop := List.head?_dropWhile_not p cs
  rw [Option.mem_def] at h
  rwa [h] at stop

theorem mem_cons_takeWhile {d : Char} {cs : List Char} (first : p d = true)
    (h : c ∈ d :: cs.takeWhile p) : p c = true := by
  rcases List.mem_cons.mp h with rfl | mem
  · exact first
  · exact mem_takeWhile mem

end Runs

/-! What `first` cuts off, by the character that it finds. -/

/-- The characters with which every piece but numbers and words begins. -/
def reserved : List Char :=
  ['(', ')', '{', '}', '[', ']', ',', '+', '*', '/', '<', '>', '-', '=', '!', '@', ' ', '\r',
   '\t', '\n']

theorem not_mem_reserved {c : Char} (h : Decimal.isDigit c = true ∨ isAlphabetic c = true) :
    c ∉ reserved := by
  have table : ∀ r ∈ reserved, Decimal.isDigit r = false ∧ isAlphabetic r = false :=
    forall_listed (by decide)
  intro mem
  obtain ⟨digit, letter⟩ := table c mem
  rw [digit, letter] at h
  simp at h

theorem first_of_not_mem_reserved {c : Char} (h : c ∉ reserved) (cs : List Char) :
    first c cs =
      if Decimal.isDigit c then ofDigits (c :: cs.takeWhile Decimal.isDigit)
      else if isAlphabetic c then .ok (word (c :: cs.takeWhile isAlphabetic))
      else .error (.unexpected c) := by
  unfold first
  split
  · rename_i kind single
    unfold sign? at single
    split at single <;> first | exact absurd (by decide) h | cases single
  · split <;> first | exact absurd (by decide) h | rfl

theorem first_of_isDigit {c : Char} (h : Decimal.isDigit c = true) (cs : List Char) :
    first c cs = ofDigits (c :: cs.takeWhile Decimal.isDigit) := by
  rw [first_of_not_mem_reserved (not_mem_reserved (.inl h)), if_pos h]

theorem first_of_isAlphabetic {c : Char} (h : isAlphabetic c = true) (cs : List Char) :
    first c cs = .ok (word (c :: cs.takeWhile isAlphabetic)) := by
  have no_digit : ¬ Decimal.isDigit c = true := by
    intro digit
    rw [isAlphabetic_of_isDigit digit] at h
    cases h
  rw [first_of_not_mem_reserved (not_mem_reserved (.inr h)), if_neg no_digit, if_pos h]

theorem first_of_minus {rest : List Char} (stops : (sign .minus ['-']).StopsBefore rest) :
    first '-' rest = .ok (sign .minus ['-']) := by
  cases rest with
  | nil => rfl
  | cons d rest =>
    have other : d ≠ '-' ∧ d ≠ '>' := stopsBefore_cons.mp stops
    unfold first
    simp only [sign?]
    split <;> grind

theorem first_of_equal {rest : List Char} (stops : (sign .equal ['=']).StopsBefore rest) :
    first '=' rest = .ok (sign .equal ['=']) := by
  cases rest with
  | nil => rfl
  | cons d rest =>
    have other : d ≠ '=' := stopsBefore_cons.mp stops
    unfold first
    simp only [sign?]
    split <;> grind

/-! The equations of `first` at the characters that look ahead. -/

theorem first_minus (cs : List Char) :
    first '-' cs =
      if cs.head? = some '-' ∨ cs.head? = some '>' then .ok (comment ('-' :: lineRest cs))
      else .ok (sign .minus ['-']) := by
  split
  case isTrue opening =>
    rcases opening with opening | opening <;>
      obtain ⟨tail, rfl⟩ := List.head?_eq_some_iff.mp opening <;> rfl
  case isFalse other =>
    refine first_of_minus fun d next => ?_
    rw [Option.mem_def.mp next] at other
    simpa [StopsAt] using other

theorem first_equal (cs : List Char) :
    first '=' cs =
      if cs.head? = some '=' then .ok (sign .equalEqual ['=', '='])
      else .ok (sign .equal ['=']) := by
  split
  case isTrue again =>
    obtain ⟨tail, rfl⟩ := List.head?_eq_some_iff.mp again
    rfl
  case isFalse other =>
    refine first_of_equal fun d next eq => other ?_
    rw [Option.mem_def.mp next, eq]

theorem first_exclamation (cs : List Char) :
    first '!' cs =
      if cs.head? = some '=' then .ok (sign .bangEqual ['!', '='])
      else .error (.unexpected '!') := by
  split
  case isTrue again =>
    obtain ⟨tail, rfl⟩ := List.head?_eq_some_iff.mp again
    rfl
  case isFalse other =>
    cases cs with
    | nil => rfl
    | cons d cs =>
      unfold first
      simp only [sign?]
      split <;> grind

theorem first_at (cs : List Char) : first '@' cs = ofTagLetters (cs.takeWhile isAlphabetic) :=
  rfl

theorem first_of_mem_reserved {c : Char} (mem : c ∈ reserved) (other : c ∉ ['-', '=', '!', '@']) :
    (∃ kind, ∀ cs, first c cs = .ok (sign kind [c])) ∨ (∀ cs, first c cs = .ok (blank c)) ∨
      ∀ cs, first c cs = .ok newline := by
  have table : ∀ r ∈ reserved, r ∉ ['-', '=', '!', '@'] →
      (sign? r).isSome = true ∨ r ∈ [' ', '\r', '\t', '\n'] := forall_listed (by decide)
  obtain single | space := table c mem other
  · obtain ⟨kind, sign_eq⟩ := Option.isSome_iff_exists.mp single
    refine .inl ⟨kind, fun cs => ?_⟩
    unfold first
    rw [sign_eq]
  · simp only [List.mem_cons, List.not_mem_nil, or_false] at space
    rcases space with rfl | rfl | rfl | rfl
    · exact .inr (.inl fun cs => rfl)
    · exact .inr (.inl fun cs => rfl)
    · exact .inr (.inl fun cs => rfl)
    · exact .inr (.inr fun cs => rfl)

theorem first_of_mem_signs {kind : Kind} {c : Char} {text rest : List Char}
    (mem : (kind, c :: text) ∈ signs) (stops : (sign kind (c :: text)).StopsBefore rest) :
    first c (text ++ rest) = .ok (sign kind (c :: text)) := by
  have table : ∀ s ∈ signs, s.2.head?.bind sign? = some s.1 ∧ s.2.length = 1 ∨
      s ∈ [(.minus, ['-']), (.equal, ['=']), (.equalEqual, ['=', '=']),
        (.bangEqual, ['!', '='])] := by decide
  obtain ⟨single, short⟩ | other := table _ mem
  · obtain rfl : text = [] := List.length_eq_zero_iff.mp (Nat.succ.inj short)
    have single : sign? c = some kind := single
    unfold first
    rw [single]
  · simp only [List.mem_cons, Prod.mk.injEq, List.cons.injEq, List.not_mem_nil, or_false] at other
    obtain ⟨rfl, rfl, rfl⟩ | ⟨rfl, rfl, rfl⟩ | ⟨rfl, rfl, rfl⟩ | ⟨rfl, rfl, rfl⟩ := other
    · exact first_of_minus stops
    · exact first_of_equal stops
    · rfl
    · rfl

def checked : Piece → Except LexError Piece
  | number digits => ofDigits digits
  | piece => .ok piece

theorem Formed.checked_eq_ok_iff {piece other : Piece} (formed : piece.Formed) :
    piece.checked = .ok other ↔ piece = other ∧ piece.InRange := by
  cases formed with
  | number nonempty all =>
    simp only [checked, ofDigits, InRange, Integer.isSome_read?_of_digits nonempty all]
    split
    · rename_i small
      simp [small]
    · rename_i large
      simp [large]
  | _ => simp [checked, InRange]

/-- Cutting gives the piece that the text begins with, up to its size. -/
theorem Formed.first_eq_checked {piece : Piece} {c : Char} {cs rest : List Char}
    (formed : piece.Formed) (stops : piece.StopsBefore rest) (h : c :: cs = piece.text ++ rest) :
    first c cs = piece.checked := by
  cases formed with
  | blank mem =>
    simp only [List.mem_cons, List.not_mem_nil, or_false] at mem
    obtain ⟨rfl, rfl⟩ := List.cons.inj h
    rcases mem with rfl | rfl | rfl <;> rfl
  | newline =>
    obtain ⟨rfl, rfl⟩ := List.cons.inj h
    rfl
  | @comment d text opening line =>
    obtain ⟨rfl, rfl⟩ : c = '-' ∧ cs = d :: text ++ rest := List.cons.inj h
    have opened : first '-' (d :: text ++ rest) =
        .ok (.comment ('-' :: lineRest (d :: text ++ rest))) := by
      rcases opening with rfl | rfl <;> rfl
    have whole : lineRest (d :: text ++ rest) = d :: text := by
      apply takeWhile_append_of_stop
      · intro x mem
        rcases List.mem_cons.mp mem with rfl | mem
        · rcases opening with rfl | rfl <;> rfl
        · exact decide_eq_true fun newline => line (newline ▸ mem)
      · intro x next
        exact decide_eq_false fun other => other (stops x next)
    rw [opened, whole]
    rfl
  | @sign kind text mem =>
    cases text with
    | nil => simp [signs] at mem
    | cons d text =>
      obtain ⟨rfl, rfl⟩ := List.cons.inj h
      exact first_of_mem_signs mem stops
  | @number digits nonempty all =>
    cases digits with
    | nil => exact absurd rfl nonempty
    | cons d digits =>
      obtain ⟨rfl, rfl⟩ : c = d ∧ cs = digits ++ rest := List.cons.inj h
      rw [first_of_isDigit (all c List.mem_cons_self), takeWhile_append_of_stop _ stops]
      · rfl
      · exact fun x mem => all x (List.mem_cons_of_mem c mem)
  | @word letters nonempty all =>
    cases letters with
    | nil => exact absurd rfl nonempty
    | cons d letters =>
      obtain ⟨rfl, rfl⟩ : c = d ∧ cs = letters ++ rest := List.cons.inj h
      rw [first_of_isAlphabetic (all c List.mem_cons_self), takeWhile_append_of_stop _ stops]
      · rfl
      · exact fun x mem => all x (List.mem_cons_of_mem c mem)
  | @tag letters nonempty all =>
    obtain ⟨rfl, rfl⟩ : c = '@' ∧ cs = letters ++ rest := List.cons.inj h
    have opened : first '@' (letters ++ rest) =
        ofTagLetters ((letters ++ rest).takeWhile isAlphabetic) := rfl
    rw [opened, takeWhile_append_of_stop all stops, ofTagLetters, if_neg nonempty]
    rfl

/-! The other way round: what was cut off is the longest piece there. -/

/-- `cs` begins with the piece, and no longer with it after that. -/
def Begins (piece : Piece) (cs : List Char) : Prop :=
  piece.Formed ∧ ∃ rest, cs = piece.text ++ rest ∧ piece.StopsBefore rest

theorem begins_comment {d : Char} (opening : d = '-' ∨ d = '>') (tail : List Char) :
    (comment ('-' :: lineRest (d :: tail))).Begins ('-' :: d :: tail) := by
  have goes_on : lineRest (d :: tail) = d :: lineRest tail := by
    rcases opening with rfl | rfl <;> rfl
  refine ⟨?_, (d :: tail).dropWhile (· ≠ '\n'), ?_, ?_⟩
  · rw [goes_on]
    refine .comment opening fun mem => ?_
    exact of_decide_eq_true (mem_takeWhile mem) rfl
  · simp only [text, lineRest, List.cons_append, List.takeWhile_append_dropWhile]
  · intro c next
    have stop : ¬ c ≠ '\n' := of_decide_eq_false (stop_of_mem_head?_dropWhile next)
    show c = '\n'
    exact Decidable.not_not.mp stop

theorem begins_sign {kind : Kind} {text rest : List Char} (mem : (kind, text) ∈ signs)
    (stops : (sign kind text).StopsBefore rest) : (sign kind text).Begins (text ++ rest) :=
  ⟨.sign mem, rest, rfl, stops⟩

theorem begins_tag {letters cs : List Char} {piece : Piece}
    (letters_eq : letters = cs.takeWhile isAlphabetic) (h : ofTagLetters letters = .ok piece) :
    piece.Begins ('@' :: cs) := by
  unfold ofTagLetters at h
  split at h
  · cases h
  · rename_i nonempty
    cases h
    subst letters_eq
    refine ⟨.tag nonempty fun d => mem_takeWhile, cs.dropWhile isAlphabetic, ?_, ?_⟩
    · simp only [text, List.cons_append, List.takeWhile_append_dropWhile]
    · exact fun d => stop_of_mem_head?_dropWhile

theorem begins_number {c : Char} {cs : List Char} {piece : Piece} (digit : Decimal.isDigit c = true)
    (h : ofDigits (c :: cs.takeWhile Decimal.isDigit) = .ok piece) : piece.Begins (c :: cs) := by
  unfold ofDigits at h
  split at h
  · cases h
    refine ⟨.number (List.cons_ne_nil _ _) fun d => mem_cons_takeWhile digit,
      cs.dropWhile Decimal.isDigit, ?_, fun d => stop_of_mem_head?_dropWhile⟩
    simp only [text, List.cons_append, List.takeWhile_append_dropWhile]
  · cases h

theorem begins_word {c : Char} (letter : isAlphabetic c = true) (cs : List Char) :
    (word (c :: cs.takeWhile isAlphabetic)).Begins (c :: cs) := by
  refine ⟨.word (List.cons_ne_nil _ _) fun d => mem_cons_takeWhile letter,
    cs.dropWhile isAlphabetic, ?_, fun d => stop_of_mem_head?_dropWhile⟩
  simp only [text, List.cons_append, List.takeWhile_append_dropWhile]

theorem begins_sign? {c : Char} {kind : Kind} (h : sign? c = some kind) (cs : List Char) :
    (sign kind [c]).Begins (c :: cs) := by
  unfold sign? at h
  split at h <;> cases h <;> exact begins_sign (by decide) fun _ _ => trivial

theorem begins_of_first {piece : Piece} {c : Char} {cs : List Char} (h : first c cs = .ok piece) :
    piece.Begins (c :: cs) := by
  unfold first at h
  split at h
  case _ kind single => cases h; exact begins_sign? single cs
  case _ =>
    split at h
    case _ => cases h; exact begins_comment (.inl rfl) _
    case _ => cases h; exact begins_comment (.inr rfl) _
    case _ no_dash no_angle =>
      cases h
      refine begins_sign (by decide) fun d next => ?_
      obtain ⟨tail, rfl⟩ := List.head?_eq_some_iff.mp next
      exact ⟨fun eq => no_dash tail (by rw [eq]), fun eq => no_angle tail (by rw [eq])⟩
    case _ => cases h; exact begins_sign (by decide) fun _ _ => trivial
    case _ no_equal =>
      cases h
      refine begins_sign (by decide) fun d next eq => ?_
      obtain ⟨tail, rfl⟩ := List.head?_eq_some_iff.mp next
      exact no_equal tail (by rw [eq])
    case _ => cases h; exact begins_sign (by decide) fun _ _ => trivial
    case _ => cases h
    case _ => exact begins_tag rfl h
    case _ => cases h; exact ⟨.blank (by decide), cs, rfl, fun _ _ => trivial⟩
    case _ => cases h; exact ⟨.blank (by decide), cs, rfl, fun _ _ => trivial⟩
    case _ => cases h; exact ⟨.blank (by decide), cs, rfl, fun _ _ => trivial⟩
    case _ => cases h; exact ⟨.newline, cs, rfl, fun _ _ => trivial⟩
    case _ =>
      split at h
      case _ digit => exact begins_number digit h
      case _ =>
        split at h
        case _ letter => cases h; exact begins_word letter cs
        case _ => cases h

theorem first_eq_ok_iff {piece : Piece} {c : Char} {cs : List Char} :
    first c cs = .ok piece ↔ piece.Begins (c :: cs) ∧ piece.InRange := by
  constructor
  · intro h
    refine ⟨begins_of_first h, ?_⟩
    obtain ⟨formed, rest, eq, stops⟩ := begins_of_first h
    rw [formed.first_eq_checked stops eq, formed.checked_eq_ok_iff] at h
    exact h.2
  · rintro ⟨⟨formed, rest, eq, stops⟩, range⟩
    rw [formed.first_eq_checked stops eq, formed.checked_eq_ok_iff]
    exact ⟨rfl, range⟩

/-! The character after a piece decides whether the piece is the longest. -/

theorem eq_of_checked_eq {piece other : Piece} (h : piece.checked = other.checked) :
    piece = other := by
  cases piece <;> cases other <;> grind [checked, ofDigits]

theorem Formed.not_stopsAt {piece other : Piece} {c : Char} {more : List Char}
    (formed : piece.Formed) (longer : other.Formed) (h : other.text = piece.text ++ c :: more) :
    ¬ piece.StopsAt c := by
  intro stops
  cases start : other.text with
  | nil => exact longer.text_ne_nil start
  | cons d rest =>
    have whole := longer.first_eq_checked (stopsBefore_nil other) (by rw [List.append_nil, start])
    have part := formed.first_eq_checked (stopsBefore_cons.mpr stops) (by rw [← h, start])
    have same : piece = other := eq_of_checked_eq (part.symm.trans whole)
    rw [same] at h
    simpa using congrArg List.length h

theorem forall_mem_append_singleton {p : Char → Bool} {cs : List Char} {c : Char}
    (all : ∀ d ∈ cs, p d = true) (last : ¬ p c = false) : ∀ d ∈ cs ++ [c], p d = true := by
  intro d mem
  rcases List.mem_append.mp mem with mem | mem
  · exact all d mem
  · rw [List.mem_singleton.mp mem]
    exact Bool.of_not_eq_false last

theorem Formed.exists_longer {piece : Piece} {c : Char} (formed : piece.Formed)
    (h : ¬ piece.StopsAt c) : ∃ other : Piece, other.Formed ∧ other.text = piece.text ++ [c] := by
  cases formed with
  | blank | newline => exact absurd trivial h
  | @comment d text opening line =>
    refine ⟨.comment ('-' :: d :: (text ++ [c])), .comment opening ?_, rfl⟩
    intro mem
    rcases List.mem_append.mp mem with mem | mem
    · exact line mem
    · exact h (List.mem_singleton.mp mem).symm
  | @sign kind text mem =>
    cases kind with
    | minus =>
      have text_eq : text = ['-'] := by simpa [signs] using mem
      have opening : c = '-' ∨ c = '>' := by
        simp only [StopsAt] at h
        grind
      exact ⟨.comment ['-', c], .comment opening List.not_mem_nil, by rw [text_eq]; rfl⟩
    | equal =>
      have text_eq : text = ['='] := by simpa [signs] using mem
      have again : c = '=' := Classical.not_not.mp h
      exact ⟨.sign .equalEqual ['=', '='], .sign (by decide), by rw [text_eq, again]; rfl⟩
    | _ => exact absurd trivial h
  | @number digits nonempty all =>
    have nonempty' := List.append_ne_nil_of_left_ne_nil nonempty [c]
    exact ⟨.number (digits ++ [c]), .number nonempty' (forall_mem_append_singleton all h), rfl⟩
  | @word letters nonempty all =>
    have nonempty' := List.append_ne_nil_of_left_ne_nil nonempty [c]
    exact ⟨.word (letters ++ [c]), .word nonempty' (forall_mem_append_singleton all h), rfl⟩
  | @tag letters nonempty all =>
    have nonempty' := List.append_ne_nil_of_left_ne_nil nonempty [c]
    exact ⟨.tag (letters ++ [c]), .tag nonempty' (forall_mem_append_singleton all h), rfl⟩

theorem Formed.longest_iff {piece : Piece} {rest : List Char} (formed : piece.Formed) :
    piece.Longest (piece.text ++ rest) ↔ piece.StopsBefore rest := by
  constructor
  · intro longest c next
    obtain ⟨tail, rfl⟩ := List.head?_eq_some_iff.mp next
    refine Classical.byContradiction fun goes_on => ?_
    obtain ⟨other, longer, text_eq⟩ := formed.exists_longer goes_on
    have bound := longest other longer ⟨tail, by rw [text_eq, List.append_assoc]; rfl⟩
    rw [text_eq, List.length_append] at bound
    exact Nat.not_succ_le_self _ bound
  · intro stops other longer pre
    refine Nat.le_of_not_lt fun lt => ?_
    obtain ⟨more, text_eq⟩ := List.prefix_of_prefix_length_le (List.prefix_append _ _) pre
      (Nat.le_of_lt lt)
    cases more with
    | nil => simp [← text_eq] at lt
    | cons c more =>
      apply formed.not_stopsAt longer text_eq.symm
      apply stops
      rw [← text_eq, List.prefix_append_right_inj] at pre
      obtain ⟨rest', rfl⟩ := pre
      rfl

/-! Whole texts. -/

@[simp] theorem munch_nil_iff {pieces : List Piece} : Munch [] pieces ↔ pieces = [] := by
  constructor
  · intro h
    generalize cs_eq : ([] : List Char) = cs at h
    cases h with
    | nil => rfl
    | cons formed =>
      exact absurd (List.append_eq_nil_iff.mp cs_eq.symm).1 formed.text_ne_nil
  · rintro rfl
    exact .nil

theorem eq_nil_of_munch_nil {cs : List Char} (h : Munch cs []) : cs = [] := by
  cases h
  rfl

theorem munch_cons_iff {piece : Piece} {cs : List Char} {pieces : List Piece} :
    Munch cs (piece :: pieces) ↔
      piece.Begins cs ∧ Munch (cs.drop piece.text.length) pieces := by
  constructor
  · intro h
    cases h with
    | cons formed longest others =>
      rw [List.drop_left]
      exact ⟨⟨formed, _, rfl, formed.longest_iff.mp longest⟩, others⟩
  · rintro ⟨⟨formed, rest, rfl, stops⟩, others⟩
    rw [List.drop_left] at others
    exact .cons formed (formed.longest_iff.mpr stops) others

theorem checked_of_begins {piece : Piece} {c : Char} {cs : List Char} (h : piece.Begins (c :: cs)) :
    first c cs = piece.checked := by
  obtain ⟨formed, rest, eq, stops⟩ := h
  exact formed.first_eq_checked stops eq

theorem Begins.unique {piece other : Piece} {cs : List Char} (h : piece.Begins cs)
    (h' : other.Begins cs) : piece = other := by
  cases cs with
  | nil =>
    obtain ⟨formed, rest, eq, -⟩ := h
    exact absurd (List.append_eq_nil_iff.mp eq.symm).1 formed.text_ne_nil
  | cons c cs => exact eq_of_checked_eq ((checked_of_begins h).symm.trans (checked_of_begins h'))

theorem Munch.unique {cs : List Char} {pieces others : List Piece} (h : Munch cs pieces)
    (h' : Munch cs others) : pieces = others := by
  induction pieces generalizing cs others with
  | nil =>
    cases eq_nil_of_munch_nil h
    exact (munch_nil_iff.mp h').symm
  | cons piece pieces ih =>
    cases others with
    | nil =>
      cases eq_nil_of_munch_nil h'
      cases munch_nil_iff.mp h
    | cons other others =>
      obtain ⟨begins, munch⟩ := munch_cons_iff.mp h
      obtain ⟨begins', munch'⟩ := munch_cons_iff.mp h'
      obtain rfl := begins.unique begins'
      rw [ih munch munch']

theorem Formed.eq_of_text_eq {piece other : Piece} (h : piece.Formed) (h' : other.Formed)
    (text_eq : piece.text = other.text) : piece = other := by
  have begins : piece.Begins piece.text := ⟨h, [], (List.append_nil _).symm, stopsBefore_nil _⟩
  have begins' : other.Begins other.text := ⟨h', [], (List.append_nil _).symm, stopsBefore_nil _⟩
  rw [text_eq] at begins
  exact begins.unique begins'

theorem map_eq_ok_iff {ε α β : Type} {f : α → β} {x : Except ε α} {b : β} :
    x.map f = .ok b ↔ ∃ a, x = .ok a ∧ f a = b := by
  cases x with
  | error e => simp [Except.map]
  | ok a => simp [Except.map]

def split (position : Nat) : List Char → Except (Fault LexError) (List Piece)
  | [] => .ok []
  | c :: cs =>
    match first c cs with
    | .error e => .error ⟨e, position, position + e.width⟩
    | .ok piece =>
      (split (position + piece.text.length) (cs.drop (piece.text.length - 1))).map (piece :: ·)
termination_by cs => cs.length
decreasing_by simp only [List.length_drop, List.length_cons]; omega

theorem split_of_error {c : Char} {cs : List Char} {e : LexError} (failed : first c cs = .error e)
    (position : Nat) :
    split position (c :: cs) = .error ⟨e, position, position + e.width⟩ := by
  rw [split, failed]

theorem split_of_ok {piece : Piece} {c : Char} {cs : List Char} (cut : first c cs = .ok piece)
    (position : Nat) :
    split position (c :: cs) =
      (split (position + piece.text.length) (cs.drop (piece.text.length - 1))).map
        (piece :: ·) := by
  rw [split, cut]

/-- Cutting a text finds the one row of longest pieces that it is. -/
theorem split_eq_ok_iff {position : Nat} {cs : List Char} {pieces : List Piece} :
    split position cs = .ok pieces ↔ Munch cs pieces ∧ ∀ piece ∈ pieces, piece.InRange := by
  fun_induction split position cs generalizing pieces with
  | case1 position =>
    rw [munch_nil_iff, Except.ok.injEq]
    constructor
    · rintro rfl
      exact ⟨rfl, nofun⟩
    · exact fun h => h.1.symm
  | case2 position c cs e failed =>
    refine ⟨nofun, fun ⟨munch, range⟩ => ?_⟩
    cases pieces with
    | nil => cases eq_nil_of_munch_nil munch
    | cons piece pieces =>
      have begins := (munch_cons_iff.mp munch).1
      rw [first_eq_ok_iff.mpr ⟨begins, range piece List.mem_cons_self⟩] at failed
      cases failed
  | case3 position c cs piece cut ih =>
    obtain ⟨begins, in_range⟩ := first_eq_ok_iff.mp cut
    have length_pos : 0 < piece.text.length := List.length_pos_iff.mpr begins.1.text_ne_nil
    have drop_eq : cs.drop (piece.text.length - 1) = (c :: cs).drop piece.text.length := by
      rw [← Nat.sub_add_cancel length_pos, List.drop_succ_cons, Nat.add_sub_cancel]
    rw [drop_eq] at ih ⊢
    rw [map_eq_ok_iff]
    constructor
    · rintro ⟨others, split_others, rfl⟩
      obtain ⟨munch, range⟩ := ih.mp split_others
      exact ⟨munch_cons_iff.mpr ⟨begins, munch⟩, List.forall_mem_cons.mpr ⟨in_range, range⟩⟩
    · rintro ⟨munch, range⟩
      cases pieces with
      | nil => cases eq_nil_of_munch_nil munch
      | cons other others =>
        obtain ⟨begins_other, munch_others⟩ := munch_cons_iff.mp munch
        obtain ⟨range_other, range_others⟩ := List.forall_mem_cons.mp range
        have same := first_eq_ok_iff.mpr ⟨begins_other, range_other⟩
        rw [cut, Except.ok.injEq] at same
        subst same
        exact ⟨others, ih.mpr ⟨munch_others, range_others⟩, rfl⟩

end TagScript.Piece
