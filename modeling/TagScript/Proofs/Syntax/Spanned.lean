import TagScript.Syntax.Basic

/-! Trees with a property in all their spans, those in the bodies of declarations
included. -/
namespace TagScript

variable (P : Span → Prop)

def Expr.Spanned : Expr → Prop
  | integer _ s | boolean _ s | named _ s => P s
  | element _ index s => index.Spanned ∧ P s
  | binary left _ right s => left.Spanned ∧ right.Spanned ∧ P s

def Rhs.Spanned : Rhs → Prop
  | scalar value => value.Spanned P
  | vector elements s => (∀ e ∈ elements, e.Spanned P) ∧ P s

def Target.Spanned (t : Target) : Prop :=
  (∀ index ∈ t.index, index.Spanned P) ∧ P t.span

mutual

def Stmt.Spanned : Stmt → Prop
  | .assign target value s => target.Spanned P ∧ value.Spanned P ∧ P s
  | .declare _ body s => body.Spanned ∧ P s
  | .invoke _ s => P s
  | .swap left right s => left.Spanned P ∧ right.Spanned P ∧ P s
  | .ifThen condition body s | .loop condition body s =>
    condition.Spanned P ∧ Stmt.AllSpanned body ∧ P s
  | .ifElse condition body other s =>
    condition.Spanned P ∧ Stmt.AllSpanned body ∧ Stmt.AllSpanned other ∧ P s
  | .print value s => value.Spanned P ∧ P s

def Stmt.AllSpanned : List Stmt → Prop
  | [] => True
  | s :: rest => s.Spanned ∧ Stmt.AllSpanned rest

end

variable {P}

theorem Stmt.allSpanned_iff {body : List Stmt} :
    Stmt.AllSpanned P body ↔ ∀ s ∈ body, s.Spanned P := by
  induction body with
  | nil => simp [AllSpanned]
  | cons s rest ih => simp [AllSpanned, ih]

theorem Expr.Spanned.span {e : Expr} (h : e.Spanned P) : P e.span := by
  cases e with
  | integer | boolean | named => exact h
  | element => exact h.2
  | binary => exact h.2.2

theorem Expr.Spanned.withSpan {e : Expr} {s : Span} (h : e.Spanned P) (hs : P s) :
    (e.withSpan s).Spanned P := by
  cases e with
  | integer | boolean | named => exact hs
  | element => exact ⟨h.1, hs⟩
  | binary => exact ⟨h.1, h.2.1, hs⟩

theorem Rhs.Spanned.span {v : Rhs} (h : v.Spanned P) : P v.span := by
  cases v with
  | scalar value => exact Expr.Spanned.span h
  | vector => exact h.2

theorem Stmt.Spanned.span {s : Stmt} (h : s.Spanned P) : P s.span := by
  cases s with
  | invoke => exact h
  | declare | print => exact h.2
  | assign | swap | ifThen | loop => exact h.2.2
  | ifElse => exact h.2.2.2

/-! The spans of a tree one by one. A property in all its spans is one of each. -/

def Expr.spans : Expr → List Span
  | integer _ s | boolean _ s | named _ s => [s]
  | element _ index s => index.spans ++ [s]
  | binary left _ right s => left.spans ++ (right.spans ++ [s])

def Rhs.spans : Rhs → List Span
  | scalar value => value.spans
  | vector elements s => elements.flatMap Expr.spans ++ [s]

def Target.spans (t : Target) : List Span :=
  t.index.toList.flatMap Expr.spans ++ [t.span]

mutual

def Stmt.spans : Stmt → List Span
  | .assign target value s => target.spans ++ (value.spans ++ [s])
  | .declare _ body s => body.spans ++ [s]
  | .invoke _ s => [s]
  | .swap left right s => left.spans ++ (right.spans ++ [s])
  | .ifThen condition body s | .loop condition body s =>
    condition.spans ++ (Stmt.allSpans body ++ [s])
  | .ifElse condition body other s =>
    condition.spans ++ (Stmt.allSpans body ++ (Stmt.allSpans other ++ [s]))
  | .print value s => value.spans ++ [s]

def Stmt.allSpans : List Stmt → List Span
  | [] => []
  | s :: rest => s.spans ++ Stmt.allSpans rest

end

theorem Expr.spanned_iff {e : Expr} : e.Spanned P ↔ ∀ s ∈ e.spans, P s := by
  induction e with
  | integer | boolean | named => simp only [Spanned, spans, List.forall_mem_singleton]
  | element name index span ih =>
    simp only [Spanned, spans, ih, List.forall_mem_append, List.forall_mem_singleton]
  | binary left op right span left_ih right_ih =>
    simp only [Spanned, spans, left_ih, right_ih, List.forall_mem_append, List.forall_mem_singleton]

theorem Rhs.spanned_iff {v : Rhs} : v.Spanned P ↔ ∀ s ∈ v.spans, P s := by
  cases v with
  | scalar value => exact Expr.spanned_iff
  | vector elements span =>
    simp only [Spanned, spans, Expr.spanned_iff, List.forall_mem_append, List.forall_mem_flatMap,
      List.forall_mem_singleton]

theorem Target.spanned_iff {t : Target} : t.Spanned P ↔ ∀ s ∈ t.spans, P s := by
  simp only [Spanned, spans, Expr.spanned_iff, List.forall_mem_append, List.forall_mem_flatMap,
    List.forall_mem_singleton, Option.mem_toList, Option.mem_def]

mutual

theorem Stmt.spanned_iff {s : Stmt} : s.Spanned P ↔ ∀ span ∈ s.spans, P span := by
  match s with
  | .assign .. | .swap .. =>
    simp only [Spanned, spans, Target.spanned_iff, Rhs.spanned_iff, List.forall_mem_append,
      List.forall_mem_singleton]
  | .declare .. =>
    simp only [Spanned, spans, Stmt.spanned_iff, List.forall_mem_append, List.forall_mem_singleton]
  | .invoke .. => simp only [Spanned, spans, List.forall_mem_singleton]
  | .ifThen .. | .loop .. | .ifElse .. =>
    simp only [Spanned, spans, Expr.spanned_iff, Stmt.allSpanned_iff_spans, List.forall_mem_append,
      List.forall_mem_singleton]
  | .print .. =>
    simp only [Spanned, spans, Expr.spanned_iff, List.forall_mem_append, List.forall_mem_singleton]

theorem Stmt.allSpanned_iff_spans {body : List Stmt} :
    Stmt.AllSpanned P body ↔ ∀ span ∈ Stmt.allSpans body, P span := by
  match body with
  | [] => exact (iff_true_intro (List.forall_mem_nil _)).symm
  | s :: rest =>
    simp only [AllSpanned, allSpans, Stmt.spanned_iff, Stmt.allSpanned_iff_spans,
      List.forall_mem_append]

end

/-! What has a property in all its spans has every weaker one too. -/

variable {Q : Span → Prop}

theorem Stmt.Spanned.mono {s : Stmt} (h : s.Spanned P) (weaker : ∀ span, P span → Q span) :
    s.Spanned Q :=
  spanned_iff.mpr fun span mem => weaker span (spanned_iff.mp h span mem)

theorem Stmt.AllSpanned.mono {body : List Stmt} (h : Stmt.AllSpanned P body)
    (weaker : ∀ span, P span → Q span) : Stmt.AllSpanned Q body :=
  allSpanned_iff_spans.mpr fun span mem => weaker span (allSpanned_iff_spans.mp h span mem)

end TagScript
