import TagScript.Proofs.Syntax.Spans
import TagScript.Syntax.Canonical
import TagScript.Token.Scan

/-! Canonical text as a row of pieces. It does not depend on spans. -/
namespace TagScript

namespace Piece

def enclose (opening : Piece) (inner : List Piece) (close : Piece) : List Piece :=
  opening :: (inner ++ [close])

def inParens (inner : List Piece) : List Piece :=
  enclose (.sign .leftParen ['(']) inner (.sign .rightParen [')'])

def inBrackets (inner : List Piece) : List Piece :=
  enclose (.sign .leftBracket ['[']) inner (.sign .rightBracket [']'])

/-- The brace that opens a block is the last on its line. -/
def inBraces (inner : List Piece) : List Piece :=
  enclose (.sign .leftBrace ['{']) (.newline :: inner) (.sign .rightBrace ['}'])

theorem flatMap_text_enclose (opening close : Piece) (inner : List Piece) :
    (enclose opening inner close).flatMap text =
      opening.text ++ (inner.flatMap text ++ close.text) := by
  simp [enclose]

end Piece

open Piece (enclose inParens inBrackets inBraces flatMap_text_enclose)

def BinaryOp.kind : BinaryOp → Kind
  | add => .plus
  | subtract => .minus
  | multiply => .star
  | divide => .slash
  | equal => .equalEqual
  | notEqual => .bangEqual
  | less => .less
  | greater => .greater

def BinaryOp.piece (op : BinaryOp) : Piece :=
  .sign op.kind op.symbol.toList

def Expr.pieces : Expr → List Piece
  | integer n _ => [.number (Integer.text n).toList]
  | boolean true _ => [.word "TRUE".toList]
  | boolean false _ => [.word "FALSE".toList]
  | named name _ => [.word name.toList]
  | element name index _ => .word name.toList :: inBrackets index.pieces
  | binary left op right _ =>
    let bare := left.pieces ++ .blank ' ' :: op.piece :: .blank ' ' :: right.pieces
    if op.isComparison then bare else inParens bare

def Expr.listPieces : List Expr → List Piece
  | [] => []
  | [e] => e.pieces
  | e :: es => e.pieces ++ .sign .comma [','] :: .blank ' ' :: listPieces es

def Rhs.pieces : Rhs → List Piece
  | scalar value => value.pieces
  | vector elements _ => inBrackets (Expr.listPieces elements)

def Target.pieces (t : Target) : List Piece :=
  match t.index with
  | none => [.word t.name.toList]
  | some index => .word t.name.toList :: inBrackets index.pieces

mutual

def Stmt.pieces : Stmt → List Piece
  | .assign target value _ =>
    target.pieces ++ .blank ' ' :: .sign .equal ['='] :: .blank ' ' :: value.pieces
  | .declare tag body _ => .tag tag.toList :: .blank ' ' :: body.pieces
  | .invoke tag _ => [.tag tag.toList]
  | .swap left right _ =>
    .word "SWAP".toList :: .blank ' ' :: (left.pieces ++ .blank ' ' :: right.pieces)
  | .ifThen condition body _ =>
    .word "IF".toList :: .blank ' ' ::
      (condition.pieces ++ .blank ' ' :: inBraces (Stmt.linePieces body))
  | .ifElse condition body other _ =>
    .word "IF".toList :: .blank ' ' ::
      (condition.pieces ++ .blank ' ' :: (inBraces (Stmt.linePieces body) ++
        .blank ' ' :: .word "ELSE".toList :: .blank ' ' :: inBraces (Stmt.linePieces other)))
  | .loop condition body _ =>
    .word "WHILE".toList :: .blank ' ' ::
      (condition.pieces ++ .blank ' ' :: inBraces (Stmt.linePieces body))
  | .print value _ => .word "PRINT".toList :: .blank ' ' :: value.pieces

def Stmt.linePieces : List Stmt → List Piece
  | [] => []
  | s :: rest => s.pieces ++ .newline :: Stmt.linePieces rest

end

theorem Expr.text_pieces (e : Expr) : e.pieces.flatMap Piece.text = e.chars := by
  induction e with
  | integer n s => simp [pieces, chars, Piece.text]
  | boolean b s => cases b <;> simp [pieces, chars, Piece.text]
  | named name s => simp [pieces, chars, Piece.text]
  | element name index s ih =>
    simp [pieces, chars, inBrackets, flatMap_text_enclose, Piece.text, ih]
  | binary left op right s left_ih right_ih =>
    unfold pieces chars
    dsimp only
    split
    next => simp [Piece.text, BinaryOp.piece, left_ih, right_ih]
    next => simp [inParens, flatMap_text_enclose, Piece.text, BinaryOp.piece, left_ih, right_ih]

theorem Expr.text_listPieces (es : List Expr) :
    (listPieces es).flatMap Piece.text = listChars es := by
  fun_induction listPieces es with
  | case1 => rfl
  | case2 e => exact e.text_pieces
  | case3 e es nonempty ih =>
    rw [listChars.eq_3 _ _ nonempty]
    simp [Piece.text, ih, e.text_pieces]

theorem Rhs.text_pieces (v : Rhs) : v.pieces.flatMap Piece.text = v.chars := by
  cases v with
  | scalar e => exact e.text_pieces
  | vector es s =>
    simp [pieces, chars, inBrackets, flatMap_text_enclose, Piece.text, Expr.text_listPieces]

theorem Target.text_pieces (t : Target) : t.pieces.flatMap Piece.text = t.chars := by
  unfold pieces chars
  cases t.index with
  | none => simp [Piece.text]
  | some index => simp [inBrackets, flatMap_text_enclose, Piece.text, index.text_pieces]

namespace Stmt

/-! The text of each kind of statement. -/

section Chars

variable (target left right : Target) (value : Rhs) (condition e : Expr) (tag : String)
  (s : Stmt) (body other rest : List Stmt) (span : Span)

theorem chars_assign :
    (assign target value span).chars = target.chars ++ " = ".toList ++ value.chars := rfl

theorem chars_declare :
    (declare tag s span).chars = '@' :: tag.toList ++ ' ' :: s.chars := rfl

theorem chars_invoke : (invoke tag span).chars = '@' :: tag.toList := rfl

theorem chars_swap :
    (swap left right span).chars = "SWAP ".toList ++ left.chars ++ ' ' :: right.chars := rfl

theorem chars_ifThen : (ifThen condition body span).chars =
    "IF ".toList ++ condition.chars ++ " \x7b\n".toList ++ lines body ++ ['}'] := rfl

theorem chars_ifElse : (ifElse condition body other span).chars =
    "IF ".toList ++ condition.chars ++ " \x7b\n".toList ++ lines body ++
      "\x7d ELSE \x7b\n".toList ++ lines other ++ ['}'] := rfl

theorem chars_loop : (loop condition body span).chars =
    "WHILE ".toList ++ condition.chars ++ " \x7b\n".toList ++ lines body ++ ['}'] := rfl

theorem chars_print : (print e span).chars = "PRINT ".toList ++ e.chars := rfl

theorem lines_cons : lines (s :: rest) = s.chars ++ '\n' :: lines rest := rfl

end Chars

mutual

theorem text_pieces (s : Stmt) : s.pieces.flatMap Piece.text = s.chars := by
  match s with
  | .assign target value s =>
    rw [pieces, chars_assign]
    simp [Piece.text, target.text_pieces, value.text_pieces]
  | .declare tag body s =>
    rw [pieces, chars_declare]
    simp [Piece.text, text_pieces body]
  | .invoke tag s =>
    rw [pieces, chars_invoke]
    simp [Piece.text]
  | .swap left right s =>
    rw [pieces, chars_swap]
    simp [Piece.text, left.text_pieces, right.text_pieces]
  | .ifThen condition body s =>
    rw [pieces, chars_ifThen]
    simp [inBraces, flatMap_text_enclose, Piece.text, condition.text_pieces, text_linePieces body]
  | .ifElse condition body other s =>
    rw [pieces, chars_ifElse]
    simp [inBraces, flatMap_text_enclose, Piece.text, condition.text_pieces, text_linePieces body,
      text_linePieces other]
  | .loop condition body s =>
    rw [pieces, chars_loop]
    simp [inBraces, flatMap_text_enclose, Piece.text, condition.text_pieces, text_linePieces body]
  | .print value s =>
    rw [pieces, chars_print]
    simp [Piece.text, value.text_pieces]

theorem text_linePieces (body : List Stmt) :
    (linePieces body).flatMap Piece.text = lines body := by
  match body with
  | [] => rfl
  | s :: rest =>
    rw [linePieces, lines_cons]
    simp [Piece.text, text_pieces s, text_linePieces rest]

end

end Stmt

/-! Expressions have no tags in them. -/

section NoTag

variable {letters : List Char}

theorem Expr.no_tag (e : Expr) : Piece.tag letters ∉ e.pieces := by
  induction e with
  | integer | named => simp [pieces]
  | boolean b => cases b <;> simp [pieces]
  | element name index s ih => simp [pieces, inBrackets, enclose, ih]
  | binary left op right s left_ih right_ih =>
    unfold pieces
    dsimp only
    split <;> simp [inParens, enclose, BinaryOp.piece, left_ih, right_ih]

theorem Expr.no_tag_list (es : List Expr) : Piece.tag letters ∉ listPieces es := by
  fun_induction listPieces es with
  | case1 => exact List.not_mem_nil
  | case2 e => exact e.no_tag
  | case3 e es _ ih => simp [e.no_tag, ih]

theorem Target.no_tag (t : Target) : Piece.tag letters ∉ t.pieces := by
  unfold pieces
  cases t.index with
  | none => simp
  | some index => simp [inBrackets, enclose, index.no_tag]

end NoTag

/-! Spans have no place in canonical text. -/

theorem Expr.chars_mapSpans (f : Span → Span) (e : Expr) : (e.mapSpans f).chars = e.chars := by
  induction e with
  | integer | named => rfl
  | boolean b => cases b <;> rfl
  | element name index s ih => simp only [mapSpans, chars, ih]
  | binary left op right s left_ih right_ih => simp only [mapSpans, chars, left_ih, right_ih]

theorem Expr.listChars_mapSpans (f : Span → Span) (es : List Expr) :
    listChars (es.map (mapSpans f)) = listChars es := by
  fun_induction listChars es with
  | case1 => rfl
  | case2 e => exact e.chars_mapSpans f
  | case3 e es nonempty ih =>
    have nonempty' : es.map (mapSpans f) = [] → False :=
      fun eq => nonempty (List.map_eq_nil_iff.mp eq)
    rw [List.map_cons, listChars.eq_3 _ _ nonempty', ih, chars_mapSpans]

theorem Rhs.chars_mapSpans (f : Span → Span) (v : Rhs) : (v.mapSpans f).chars = v.chars := by
  cases v with
  | scalar e => exact e.chars_mapSpans f
  | vector es s => simp only [mapSpans, chars, Expr.listChars_mapSpans]

theorem Target.chars_mapSpans (f : Span → Span) (t : Target) :
    (t.mapSpans f).chars = t.chars := by
  obtain ⟨name, index, s⟩ := t
  cases index with
  | none => rfl
  | some index => simp only [mapSpans, chars, Option.map_some, index.chars_mapSpans]

mutual

theorem Stmt.chars_mapSpans (f : Span → Span) (s : Stmt) : (s.mapSpans f).chars = s.chars := by
  match s with
  | .assign target value s =>
    simp only [mapSpans, chars_assign, target.chars_mapSpans, value.chars_mapSpans]
  | .declare tag body s => simp only [mapSpans, chars_declare, body.chars_mapSpans f]
  | .invoke tag s => simp only [mapSpans, chars_invoke]
  | .swap left right s =>
    simp only [mapSpans, chars_swap, left.chars_mapSpans, right.chars_mapSpans]
  | .ifThen condition body s =>
    simp only [mapSpans, chars_ifThen, condition.chars_mapSpans, Stmt.lines_mapAllSpans f body]
  | .ifElse condition body other s =>
    simp only [mapSpans, chars_ifElse, condition.chars_mapSpans, Stmt.lines_mapAllSpans f body,
      Stmt.lines_mapAllSpans f other]
  | .loop condition body s =>
    simp only [mapSpans, chars_loop, condition.chars_mapSpans, Stmt.lines_mapAllSpans f body]
  | .print value s => simp only [mapSpans, chars_print, value.chars_mapSpans]

theorem Stmt.lines_mapAllSpans (f : Span → Span) (body : List Stmt) :
    Stmt.lines (Stmt.mapAllSpans f body) = Stmt.lines body := by
  match body with
  | [] => rfl
  | s :: rest =>
    simp only [Stmt.mapAllSpans, Stmt.lines_cons, s.chars_mapSpans f, Stmt.lines_mapAllSpans f rest]

end

end TagScript
