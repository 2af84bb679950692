import TagScript.Proofs.Token.Endings

/-! Layout put into a text: blanks beside its tokens, and comments at the ends of its lines. It
comes between two pieces or makes a comment longer. All other pieces are cut as before, so
that the tokens are the same, and those behind it stand further on. -/
namespace TagScript

open Unicode

namespace Token

def insertAt (source : String) (position : Nat) (text : List Char) : String :=
  String.ofList (source.toList.take position ++ (text ++ source.toList.drop position))

/-- Layout that can be put into a text with these tokens. -/
inductive Padding (source : String) (ts : List Token) : Nat → List Char → Prop
  | blanks {t : Token} {position : Nat} {text : List Char} (mem : t ∈ visible ts)
      (beside : position = t.span.start ∨ position = t.span.stop)
      (all : ∀ c ∈ text, c ∈ [' ', '\t', '\r']) : Padding source ts position text
  | comment {position : Nat} {blank sign : Char} {text : List Char}
      (ends : position = source.length ∨ source.toList[position]? = some '\n')
      (mem : blank ∈ [' ', '\t', '\r']) (opening : sign = '-' ∨ sign = '>') (line : '\n' ∉ text) :
      Padding source ts position (blank :: '-' :: sign :: text)

def makeRoom (t : Token) (position distance : Nat) : Token :=
  if position ≤ t.span.start then t.shift distance 0 else t

end Token

namespace Piece

open Token

variable {piece : Piece} {pieces before after : List Piece} {cs rest : List Char}
variable {position : Nat}

/-- Pieces that leave no token and end no line. -/
def Slack (pieces : List Piece) : Prop :=
  ∀ piece ∈ pieces, piece.lexeme? = none ∧ piece ≠ newline

/-- The second row is the first one with the text put in at `position`, where nothing but
slack has changed. -/
inductive Widened : List Piece → List Piece → Nat → List Char → Prop
  | mk {before old new after : List Piece} {text : List Char} (slack_old : Slack old)
      (slack_new : Slack new) (row : Row (before ++ (new ++ after)) [])
      (text_eq : new.flatMap Piece.text = old.flatMap Piece.text ++ text) :
      Widened (before ++ (old ++ after)) (before ++ (new ++ after))
        ((before ++ old).flatMap Piece.text).length text

/-! The tokens of a row that was widened. -/

theorem slack_comment (text : List Char) : Slack [comment text] := by
  simp [Slack, lexeme?]

theorem Slack.newline_not_mem (slack : Slack pieces) (formed : ∀ piece ∈ pieces, piece.Formed) :
    '\n' ∉ pieces.flatMap text := by
  intro mem
  obtain ⟨piece, piece_mem, text_mem⟩ := List.mem_flatMap.mp mem
  exact (slack piece piece_mem).2 ((formed piece piece_mem).eq_newline text_mem)

theorem Slack.visibleAfter_append (slack : Slack pieces)
    (formed : ∀ piece ∈ pieces, piece.Formed) (before : List Char) (others : List Piece) :
    visibleAfter before (pieces ++ others) =
      visibleAfter (before ++ pieces.flatMap text) others := by
  have unseen : visibleAfter before pieces = [] := by
    rw [visibleAfter, allTokens_eq_nil fun piece mem => (slack piece mem).1]
    rfl
  rw [Token.visibleAfter_append formed, unseen, List.nil_append]

theorem makeRoom_of_mem_before (row : Row pieces rest)
    (inside : (pieces.flatMap text).length ≤ position) (distance : Nat) :
    ∀ t ∈ visibleAfter [] pieces, t.makeRoom position distance = t := by
  intro t mem
  have place := (at_of_mem_visibleAfter row.alone.munch.1 t mem).1.inside
  rw [List.nil_append] at place
  rw [makeRoom, if_neg (by omega)]

theorem makeRoom_of_mem_after (row : Row pieces []) (outside : position ≤ cs.length)
    (distance : Nat) :
    ∀ t ∈ visibleAfter cs pieces, t.makeRoom position distance = t.shift distance 0 := by
  intro t mem
  have bound := (at_of_mem_visibleAfter row.munch.1 t mem).2
  rw [makeRoom, if_pos (by omega)]

theorem Widened.visibleAfter_eq {wider : List Piece} (widened : Widened pieces wider position cs)
    (row : Row pieces []) :
    visibleAfter [] wider = (visibleAfter [] pieces).map (·.makeRoom position cs.length) := by
  cases widened with
  | @mk before old new after _ slack_old slack_new row' text_eq =>
    obtain ⟨row_before, row_rest⟩ := row_append.mp row
    obtain ⟨row_old, row_after⟩ := row_append.mp row_rest
    have row_new := (row_append.mp (row_append.mp row').2).1
    have inside : (before.flatMap Piece.text).length ≤
        ((before ++ old).flatMap Piece.text).length := by simp
    have unmoved := makeRoom_of_mem_before row_before inside cs.length
    have moved := makeRoom_of_mem_after row_after
      (Nat.le_refl ((before ++ old).flatMap Piece.text).length) cs.length
    have shifted : visibleAfter ((before ++ new).flatMap Piece.text) after =
        (visibleAfter ((before ++ old).flatMap Piece.text) after).map (·.shift cs.length 0) := by
      apply visibleAfter_shift
      · simp only [List.flatMap_append, text_eq, List.length_append]
        omega
      · simp only [List.flatMap_append, List.count_append,
          List.count_eq_zero.mpr (slack_old.newline_not_mem row_old.formed),
          List.count_eq_zero.mpr (slack_new.newline_not_mem row_new.formed)]
    rw [visibleAfter_append row_before.formed, visibleAfter_append row_before.formed,
      slack_old.visibleAfter_append row_old.formed, slack_new.visibleAfter_append row_new.formed,
      List.nil_append, ← List.flatMap_append, ← List.flatMap_append, shifted, List.map_append,
      List.map_congr_left unmoved, List.map_congr_left moved, List.map_id']

theorem Widened.text_eq {wider : List Piece} (widened : Widened pieces wider position cs) :
    wider.flatMap text = (pieces.flatMap text).take position ++
      (cs ++ (pieces.flatMap text).drop position) := by
  cases widened with
  | @mk before old new after _ _ _ _ text_eq =>
    have parted : (before ++ (old ++ after)).flatMap Piece.text =
        (before ++ old).flatMap Piece.text ++ after.flatMap Piece.text := by
      rw [← List.append_assoc, List.flatMap_append]
    rw [parted, List.take_left, List.drop_left]
    simp only [List.flatMap_append, text_eq, List.append_assoc]

theorem Widened.row {wider : List Piece} (widened : Widened pieces wider position cs) :
    Row wider [] := by
  obtain ⟨-, -, row, -⟩ := widened
  exact row

/-! Rows that can be widened. -/

theorem stopsAt_blank {c : Char} (other : ∀ text, piece ≠ comment text)
    (mem : c ∈ [' ', '\t', '\r']) : piece.StopsAt c := by
  have table : ∀ c ∈ [' ', '\t', '\r'], c ≠ '-' ∧ c ≠ '>' ∧ c ≠ '=' ∧
      Decimal.isDigit c = false ∧ isAlphabetic c = false := forall_listed (by decide)
  obtain ⟨dash, angle, equal, digit, letter⟩ := table c mem
  cases piece with
  | comment text => exact absurd rfl (other text)
  | sign kind =>
    cases kind with
    | minus => exact ⟨dash, angle⟩
    | equal => exact equal
    | _ => trivial
  | number => exact digit
  | word | tag => exact letter
  | blank | newline => trivial

theorem widened_between {slack : List Piece} (row : Row (before ++ after) [])
    (last : ∀ text, comment text ∉ before.getLast?) (unseen : Slack slack)
    (row_slack : Row slack (after.flatMap text)) (text_eq : slack.flatMap text = cs)
    (opens : ∀ c ∈ cs.head?, c ∈ [' ', '\t', '\r']) :
    Widened (before ++ after) (before ++ (slack ++ after)) (before.flatMap text).length cs := by
  have widened := @Widened.mk before [] slack after cs nofun unseen ?_ text_eq
  · rwa [List.append_nil] at widened
  obtain ⟨row_before, row_after⟩ := row_append.mp row
  refine row_append.mpr ⟨?_, row_append.mpr ⟨by rwa [List.append_nil], row_after⟩⟩
  cases cs with
  | nil => rwa [List.flatMap_append, text_eq]
  | cons c cs =>
    refine row_iff_last.mpr ⟨row_before.alone, fun piece mem => ?_⟩
    rw [List.flatMap_append, text_eq]
    exact stopsBefore_cons.mpr
      (stopsAt_blank (fun text eq => last text (eq ▸ mem)) (opens c rfl))

theorem widened_comment {opened : List Char}
    (row : Row (before ++ ([comment opened] ++ after)) []) (line : '\n' ∉ cs) :
    Widened (before ++ ([comment opened] ++ after)) (before ++ ([comment (opened ++ cs)] ++ after))
      ((before ++ [comment opened]).flatMap text).length cs := by
  obtain ⟨row_before, row_comment⟩ := row_append.mp row
  obtain ⟨⟨⟨formed, -, stops⟩, -⟩, row_after⟩ := row_append.mp row_comment
  cases formed with
  | @comment c text opening line' =>
    have longer : (comment ('-' :: c :: text ++ cs)).Formed :=
      .comment opening (List.not_mem_append line' line)
    have last := (row_iff_last.mp row_before).2
    have wider : Row (before ++ ([comment ('-' :: c :: text ++ cs)] ++ after)) [] :=
      row_append.mpr ⟨row_iff_last.mpr ⟨row_before.alone, last⟩,
        row_append.mpr ⟨⟨⟨longer, trivial, stops⟩, trivial⟩, row_after⟩⟩
    exact .mk (slack_comment _) (slack_comment _) wider (by simp [Piece.text])

theorem exists_parted_of_ends (formed : ∀ piece ∈ pieces, piece.Formed)
    (inside : position ≤ (pieces.flatMap text).length)
    (ends : ∀ c ∈ (pieces.flatMap text)[position]?, c = '\n') :
    ∃ before after, pieces = before ++ after ∧ position = (before.flatMap text).length := by
  induction pieces generalizing position with
  | nil => exact ⟨[], [], rfl, Nat.le_zero.mp inside⟩
  | cons piece pieces ih =>
    obtain ⟨here, formed⟩ := List.forall_mem_cons.mp formed
    rw [List.flatMap_cons, List.length_append] at inside
    rw [List.flatMap_cons] at ends
    by_cases within : position < piece.text.length
    · rw [List.getElem?_append_left within, List.getElem?_eq_getElem within] at ends
      have newline := ends _ rfl
      obtain rfl := here.eq_newline (newline ▸ List.getElem_mem within)
      exact ⟨[], _, rfl, Nat.lt_one_iff.mp within⟩
    · rw [List.getElem?_append_right (Nat.le_of_not_lt within)] at ends
      obtain ⟨before, after, rfl, position_eq⟩ := ih formed (by omega) ends
      refine ⟨piece :: before, after, rfl, ?_⟩
      rw [List.flatMap_cons, List.length_append]
      omega

theorem exists_parted_of_mem {t : Token} (formed : ∀ piece ∈ pieces, piece.Formed)
    (mem : t ∈ visibleAfter cs pieces) :
    ∃ before piece after, pieces = before ++ piece :: after ∧ piece.lexeme? = some t.toLexeme ∧
      t.span.start = cs.length + (before.flatMap text).length ∧
      t.span.stop = cs.length + ((before ++ [piece]).flatMap text).length := by
  induction pieces generalizing cs with
  | nil => cases mem
  | cons piece pieces ih =>
    obtain ⟨here, formed⟩ := List.forall_mem_cons.mp formed
    rw [visibleAfter_cons here, List.mem_append, Option.mem_toList] at mem
    rcases mem with mem | mem
    · obtain ⟨x, lexeme_eq, rfl⟩ := Option.map_eq_some_iff.mp mem
      exact ⟨[], piece, pieces, rfl, lexeme_eq, rfl, by simp⟩
    · obtain ⟨before, other, after, rfl, lexeme_eq, start_eq, stop_eq⟩ := ih formed mem
      refine ⟨piece :: before, other, after, rfl, lexeme_eq, ?_, ?_⟩
      · simp only [start_eq, List.flatMap_cons, List.length_append]
        omega
      · simp only [stop_eq, List.cons_append, List.flatMap_cons, List.length_append]
        omega

theorem row_blanks (all : ∀ c ∈ cs, c ∈ [' ', '\t', '\r']) (rest : List Char) :
    Row (cs.map blank) rest := by
  induction cs with
  | nil => trivial
  | cons c cs ih =>
    obtain ⟨here, others⟩ := List.forall_mem_cons.mp all
    exact ⟨⟨.blank here, trivial, fun _ _ => trivial⟩, ih others⟩

theorem slack_blanks (cs : List Char) : Slack (cs.map blank) := by
  simp [Slack, lexeme?]

theorem text_blanks (cs : List Char) : (cs.map blank).flatMap text = cs := by
  rw [List.flatMap_map]
  exact List.flatMap_singleton' cs

theorem widened_of_blanks (row : Row (before ++ after) [])
    (last : ∀ text, comment text ∉ before.getLast?)
    (all : ∀ c ∈ cs, c ∈ [' ', '\t', '\r']) :
    ∃ wider, Widened (before ++ after) wider (before.flatMap text).length cs := by
  have opens : ∀ c ∈ cs.head?, c ∈ [' ', '\t', '\r'] :=
    fun c mem => all c (List.mem_of_mem_head? mem)
  exact ⟨_, widened_between row last (slack_blanks cs) (row_blanks all _) (text_blanks cs) opens⟩

theorem widened_of_comment {c d : Char} (row : Row (before ++ after) [])
    (ends : ∀ c ∈ (after.flatMap text).head?, c = '\n') (mem : c ∈ [' ', '\t', '\r'])
    (opening : d = '-' ∨ d = '>') (line : '\n' ∉ cs) :
    ∃ wider,
      Widened (before ++ after) wider (before.flatMap text).length (c :: '-' :: d :: cs) := by
  have formed : (comment ('-' :: d :: cs)).Formed := .comment opening line
  have row_slack : Row [blank c, comment ('-' :: d :: cs)] (after.flatMap text) :=
    ⟨⟨.blank mem, trivial, fun _ _ => trivial⟩, ⟨formed, trivial, ends⟩, trivial⟩
  have unseen : Slack [blank c, comment ('-' :: d :: cs)] := by simp [Slack, lexeme?]
  have text_eq : [blank c, comment ('-' :: d :: cs)].flatMap text = c :: '-' :: d :: cs := by
    simp [text]
  by_cases last : ∃ opened, comment opened ∈ before.getLast?
  · -- a comment that is there already goes on with the new one
    obtain ⟨opened, mem'⟩ := last
    obtain ⟨before, rfl⟩ := List.getLast?_eq_some_iff.mp mem'
    rw [List.append_assoc] at row ⊢
    exact ⟨_, widened_comment row (text_eq ▸ unseen.newline_not_mem row_slack.formed)⟩
  · have other : ∀ text, comment text ∉ before.getLast? := fun text mem => last ⟨text, mem⟩
    have opens : ∀ b ∈ (c :: '-' :: d :: cs).head?, b ∈ [' ', '\t', '\r'] := by simpa using mem
    exact ⟨_, widened_between row other unseen row_slack text_eq opens⟩

end Piece

namespace Token

open Piece

variable {source : String} {ts : List Token} {position : Nat} {text : List Char}

theorem Padding.exists_widened {pieces : List Piece}
    (text_eq : source.toList = pieces.flatMap Piece.text) (row : Row pieces [])
    (padding : Padding source (allTokens 0 1 pieces) position text) :
    ∃ wider, Widened pieces wider position text := by
  cases padding with
  | @blanks t position text mem beside all =>
    have mem : t ∈ visibleAfter [] pieces := mem
    obtain ⟨before, piece, after, rfl, lexeme_eq, start_eq, stop_eq⟩ :=
      exists_parted_of_mem row.formed mem
    rw [List.length_nil, Nat.zero_add] at start_eq stop_eq
    rcases beside with rfl | rfl
    · rw [start_eq]
      apply widened_of_blanks row _ all
      intro opened mem
      have apart := (row_iff_last.mp (row_append.mp row).1).2 _ mem
      rw [List.append_nil] at apart
      rw [eq_newline_of_stopsBefore (row_append.mp row).2.formed apart] at lexeme_eq
      cases lexeme_eq
    · rw [List.append_cons] at row ⊢
      rw [stop_eq]
      apply widened_of_blanks row _ all
      intro opened mem
      rw [List.getLast?_concat] at mem
      cases mem
      cases lexeme_eq
  | @comment position blank sign text ends mem opening line =>
    rw [← String.length_toList, text_eq] at ends
    have inside : position ≤ (pieces.flatMap Piece.text).length := by
      rcases ends with rfl | next
      · exact Nat.le_refl _
      · exact Nat.le_of_lt (List.getElem?_eq_some_iff.mp next).1
    have next : ∀ c ∈ (pieces.flatMap Piece.text)[position]?, c = '\n' := by
      rcases ends with rfl | next
      · simp
      · simp [next]
    obtain ⟨before, after, rfl, rfl⟩ := exists_parted_of_ends row.formed inside next
    refine widened_of_comment row ?_ mem opening line
    rw [List.flatMap_append, List.getElem?_append_right (Nat.le_refl _), Nat.sub_self,
      ← List.head?_eq_getElem?] at next
    exact next

theorem Padding.scan_eq (padding : Padding source ts position text)
    (scanned : scan source = .ok ts) :
    scan (insertAt source position text) =
      .ok (withEndings ((visible ts).map (·.makeRoom position text.length))) := by
  obtain ⟨pieces, munch, range, rfl⟩ := scan_eq_ok_iff.mp scanned
  have row := munch.row range
  obtain ⟨wider, widened⟩ := padding.exists_widened munch.formed.1 row
  have scanned' := widened.row.scan_eq
  have tokens_eq : allTokens 0 1 wider = withEndings (visibleAfter [] wider) :=
    widened.row.allTokens_eq []
  rw [widened.text_eq, ← munch.formed.1, tokens_eq, widened.visibleAfter_eq row] at scanned'
  exact scanned'

theorem makeRoom_toLexeme (t : Token) (position distance : Nat) :
    (t.makeRoom position distance).toLexeme = t.toLexeme := by
  unfold makeRoom
  split <;> rfl

theorem makeRoom_line (t : Token) (position distance : Nat) :
    (t.makeRoom position distance).line = t.line := by
  unfold makeRoom
  split <;> rfl

theorem map_withEndings {f : Token → Token} (lexeme_eq : ∀ t, (f t).toLexeme = t.toLexeme)
    (line_eq : ∀ t, (f t).line = t.line) (ws : List Token) :
    (withEndings (ws.map f)).map (fun t => (t.toLexeme, t.line)) =
      (withEndings ws).map (fun t => (t.toLexeme, t.line)) := by
  induction ws with
  | nil => rfl
  | cons t ws ih =>
    have last : (f t).LastInLine (ws.map f) ↔ t.LastInLine ws := by
      cases ws <;> simp [LastInLine, lexeme_eq, line_eq]
    simp only [List.map_cons, withEndings, List.map_append, ih, lexeme_eq, line_eq, endings, last]
    split <;> simp [ending, line_eq]

/-- Layout put into a text moves the visible tokens behind it by its length. The others stay, each
empty token stands at the end of its tag, and all lexemes and lines are the same. -/
theorem Padding.exists_scan (padding : Padding source ts position text)
    (scanned : scan source = .ok ts) :
    ∃ ts', scan (insertAt source position text) = .ok ts' ∧
      ts'.map (fun t => (t.toLexeme, t.line)) = ts.map (fun t => (t.toLexeme, t.line)) ∧
      visible ts' = (visible ts).map (·.makeRoom position text.length) ∧ EndsTags ts' := by
  have shown : ∀ t ∈ (visible ts).map (·.makeRoom position text.length), t.kind ≠ .empty := by
    intro t mem
    obtain ⟨u, u_mem, rfl⟩ := List.mem_map.mp mem
    rw [makeRoom_toLexeme]
    exact forall_visible ts u u_mem
  refine ⟨_, padding.scan_eq scanned, ?_, visible_withEndings shown, endsTags_withEndings shown⟩
  rw [map_withEndings (makeRoom_toLexeme · position text.length)
    (makeRoom_line · position text.length), ← eq_withEndings_of_scan scanned]

end Token

end TagScript
