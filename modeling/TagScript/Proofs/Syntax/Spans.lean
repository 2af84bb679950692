import TagScript.Diagnostic
import TagScript.Syntax.Basic

/-! Trees with their spans changed, and trees without them. What a tree says is
what stays when every span is replaced by one and the same. -/
namespace TagScript

def Span.nowhere : Span := ⟨0, 0⟩

def Fault.mapSpan (f : Span → Span) {ε : Type} (fault : Fault ε) : Fault ε :=
  ⟨fault.cause, f fault.span⟩

namespace Expr

def mapSpans (f : Span → Span) : Expr → Expr
  | integer n s => integer n (f s)
  | boolean b s => boolean b (f s)
  | named name s => named name (f s)
  | element name index s => element name (index.mapSpans f) (f s)
  | binary left op right s => binary (left.mapSpans f) op (right.mapSpans f) (f s)

def erase (e : Expr) : Expr :=
  e.mapSpans fun _ => .nowhere

@[simp] theorem span_mapSpans (f : Span → Span) (e : Expr) : (e.mapSpans f).span = f e.span := by
  cases e <;> rfl

theorem mapSpans_id (e : Expr) : e.mapSpans id = e := by
  induction e with
  | integer | boolean | named => rfl
  | element _ _ _ ih => rw [mapSpans, ih, id]
  | binary _ _ _ _ left_ih right_ih => rw [mapSpans, left_ih, right_ih, id]

theorem withSpan_span (e : Expr) : e.withSpan e.span = e := by
  cases e <;> rfl

theorem withSpan_withSpan (e : Expr) (s t : Span) : (e.withSpan s).withSpan t = e.withSpan t := by
  cases e <;> rfl

theorem mapSpans_withSpan (f : Span → Span) (e : Expr) (s : Span) :
    (e.withSpan s).mapSpans f = (e.mapSpans f).withSpan (f s) := by
  cases e <;> rfl

@[simp] theorem erase_withSpan (e : Expr) (s : Span) : (e.withSpan s).erase = e.erase := by
  cases e <;> rfl

end Expr

namespace Rhs

def mapSpans (f : Span → Span) : Rhs → Rhs
  | scalar e => scalar (e.mapSpans f)
  | vector elements s => vector (elements.map (Expr.mapSpans f)) (f s)

def erase (v : Rhs) : Rhs :=
  v.mapSpans fun _ => .nowhere

@[simp] theorem span_mapSpans (f : Span → Span) (v : Rhs) : (v.mapSpans f).span = f v.span := by
  cases v with
  | scalar e => exact e.span_mapSpans f
  | vector => rfl

theorem mapSpans_id (v : Rhs) : v.mapSpans id = v := by
  cases v with
  | scalar e => rw [mapSpans, e.mapSpans_id]
  | vector elements s => rw [mapSpans, funext Expr.mapSpans_id, List.map_id', id]

end Rhs

namespace Target

def mapSpans (f : Span → Span) (t : Target) : Target :=
  ⟨t.name, t.index.map (Expr.mapSpans f), f t.span⟩

def erase (t : Target) : Target :=
  t.mapSpans fun _ => .nowhere

theorem mapSpans_id (t : Target) : t.mapSpans id = t := by
  rw [mapSpans, funext Expr.mapSpans_id, Option.map_id_fun', id, id]

end Target

mutual

def Stmt.mapSpans (f : Span → Span) : Stmt → Stmt
  | .assign target value s => .assign (target.mapSpans f) (value.mapSpans f) (f s)
  | .declare tag body s => .declare tag (body.mapSpans f) (f s)
  | .invoke tag s => .invoke tag (f s)
  | .swap left right s => .swap (left.mapSpans f) (right.mapSpans f) (f s)
  | .ifThen condition body s => .ifThen (condition.mapSpans f) (Stmt.mapAllSpans f body) (f s)
  | .ifElse condition body other s =>
    .ifElse (condition.mapSpans f) (Stmt.mapAllSpans f body) (Stmt.mapAllSpans f other) (f s)
  | .loop condition body s => .loop (condition.mapSpans f) (Stmt.mapAllSpans f body) (f s)
  | .print value s => .print (value.mapSpans f) (f s)

def Stmt.mapAllSpans (f : Span → Span) : List Stmt → List Stmt
  | [] => []
  | s :: rest => s.mapSpans f :: Stmt.mapAllSpans f rest

end

namespace Stmt

def erase (s : Stmt) : Stmt :=
  s.mapSpans fun _ => .nowhere

def eraseAll (statements : List Stmt) : List Stmt :=
  mapAllSpans (fun _ => .nowhere) statements

@[simp] theorem span_mapSpans (f : Span → Span) (s : Stmt) : (s.mapSpans f).span = f s.span := by
  cases s <;> rfl

theorem mapAllSpans_eq_map (f : Span → Span) (statements : List Stmt) :
    mapAllSpans f statements = statements.map (mapSpans f) := by
  induction statements with
  | nil => rfl
  | cons s rest ih => rw [mapAllSpans, ih, List.map_cons]

end Stmt

mutual

theorem Stmt.mapSpans_id (s : Stmt) : s.mapSpans id = s := by
  match s with
  | .assign target value _ => rw [mapSpans, target.mapSpans_id, value.mapSpans_id, id]
  | .declare _ body _ => rw [mapSpans, body.mapSpans_id, id]
  | .invoke .. => rfl
  | .swap left right _ => rw [mapSpans, left.mapSpans_id, right.mapSpans_id, id]
  | .ifThen condition body _ | .loop condition body _ =>
    rw [mapSpans, condition.mapSpans_id, Stmt.mapAllSpans_id body, id]
  | .ifElse condition body other _ =>
    rw [mapSpans, condition.mapSpans_id, Stmt.mapAllSpans_id body, Stmt.mapAllSpans_id other, id]
  | .print value _ => rw [mapSpans, value.mapSpans_id, id]

theorem Stmt.mapAllSpans_id (statements : List Stmt) : mapAllSpans id statements = statements := by
  match statements with
  | [] => rfl
  | s :: rest => rw [mapAllSpans, s.mapSpans_id, Stmt.mapAllSpans_id rest]

end

def Binding.mapSpans (f : Span → Span) (b : Binding) : Binding :=
  (b.1, b.2.mapSpans f)

namespace Program

def mapSpans (f : Span → Span) (p : Program) : Program :=
  ⟨Stmt.mapAllSpans f p.statements, p.tags, p.bindings.map (Binding.mapSpans f)⟩

def erase (p : Program) : Program :=
  p.mapSpans fun _ => .nowhere

end Program

end TagScript
