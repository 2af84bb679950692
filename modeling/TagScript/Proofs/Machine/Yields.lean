import TagScript.Proofs.Formula.Evaluation
import TagScript.Proofs.Machine.Leading

/-! Expressions that have integers as values, with the integers taken as whole numbers: sums and
differences are exact as long as they are in range, and comparisons are those of the numbers. -/
namespace TagScript

namespace SymbolTable

def Yields (σ : SymbolTable) (e : Expr) (k : Int) : Prop :=
  ∃ n : Int64, σ.eval e = .ok (.integer n) ∧ n.toInt = k

variable {σ σ' : SymbolTable} {e left right : Expr} {k a b : Int} {name : String} {span : Span}

theorem getElem?_assign_of_ne {other : String} {v : Value} (ne : name ≠ other) :
    (σ.assign name v)[other]? = σ[other]? :=
  (getElem?_assign other).trans (if_neg ne)

namespace Yields

theorem evalInteger (h : σ.Yields e k) : ∃ n : Int64, σ.evalInteger e = .ok n ∧ n.toInt = k := by
  obtain ⟨n, eval_eq, toInt_eq⟩ := h
  refine ⟨n, ?_, toInt_eq⟩
  rw [SymbolTable.evalInteger, eval_eq]
  rfl

theorem in_range (h : σ.Yields e k) : Integer.smallest ≤ k ∧ k ≤ Integer.largest := by
  obtain ⟨n, -, rfl⟩ := h
  have low := Int64.le_toInt n
  have high := Int64.toInt_lt n
  simp only [Integer.smallest, Integer.largest]
  omega

theorem integer (n : Int64) : σ.Yields (.integer n span) n.toInt :=
  ⟨n, rfl, rfl⟩

theorem named_iff :
    σ.Yields (.named name span) k ↔ ∃ n : Int64, σ[name]? = some (.integer n) ∧ n.toInt = k := by
  simp only [Yields, eval, whole_eq_ok_iff]
  exact Iff.rfl

theorem named_assign {n : Int64} (eq : n.toInt = k) :
    (σ.assign name (.integer n)).Yields (.named name span) k :=
  named_iff.mpr ⟨n, (getElem?_assign name).trans (if_pos rfl), eq⟩

theorem named_congr (h : σ'[name]? = σ[name]?) :
    σ'.Yields (.named name span) k ↔ σ.Yields (.named name span) k := by
  rw [named_iff, named_iff, h]

theorem operation (h : σ.Yields left a) (h' : σ.Yields right b) (sign : Sign)
    (fits : Integer.smallest ≤ sign.apply a b ∧ sign.apply a b ≤ Integer.largest) :
    σ.Yields (.binary left sign.op right span) (sign.apply a b) := by
  obtain ⟨x, left_eq, rfl⟩ := h.evalInteger
  obtain ⟨y, right_eq, rfl⟩ := h'.evalInteger
  have ofInt_eq : Integer.ofInt? (sign.apply x.toInt y.toInt) = some (Int64.ofInt _) := if_pos fits
  refine ⟨_, ?_, Integer.toInt_of_ofInt? ofInt_eq⟩
  rw [eval_binary, left_eq, right_eq]
  exact (sign.apply_op span x y).trans (by rw [ofInt_eq]; rfl)

theorem add (h : σ.Yields left a) (h' : σ.Yields right b)
    (fits : Integer.smallest ≤ a + b ∧ a + b ≤ Integer.largest) :
    σ.Yields (.binary left .add right span) (a + b) :=
  h.operation h' .plus fits

theorem subtract (h : σ.Yields left a) (h' : σ.Yields right b)
    (fits : Integer.smallest ≤ a - b ∧ a - b ≤ Integer.largest) :
    σ.Yields (.binary left .subtract right span) (a - b) :=
  h.operation h' .minus fits

theorem less (h : σ.Yields left a) (h' : σ.Yields right b) :
    σ.evalCondition (.binary left .less right span) = .ok (decide (a < b)) := by
  obtain ⟨x, left_eq, rfl⟩ := h.evalInteger
  obtain ⟨y, right_eq, rfl⟩ := h'.evalInteger
  rw [evalCondition, eval_binary, left_eq, right_eq]
  exact congrArg Except.ok (decide_eq_decide.mpr Int64.lt_iff_toInt_lt)

theorem greater (h : σ.Yields left a) (h' : σ.Yields right b) :
    σ.evalCondition (.binary left .greater right span) = .ok (decide (b < a)) := by
  obtain ⟨x, left_eq, rfl⟩ := h.evalInteger
  obtain ⟨y, right_eq, rfl⟩ := h'.evalInteger
  rw [evalCondition, eval_binary, left_eq, right_eq]
  exact congrArg Except.ok (decide_eq_decide.mpr Int64.lt_iff_toInt_lt)

theorem evalPosition {i : Nat} (h : σ.Yields e i) : σ.evalPosition e = .ok i := by
  obtain ⟨n, eval_eq, toInt_eq⟩ := h.evalInteger
  rw [evalPosition_eq_ok_iff]
  refine ⟨n, eval_eq, ?_, ?_⟩
  · rw [Int64.le_iff_toInt_le, toInt_eq]
    exact Int.natCast_nonneg i
  · rw [toInt_eq, Int.toNat_natCast]

theorem names {i : Nat} (h : σ.Yields e i) :
    Target.Names σ ⟨name, some e, span⟩ ⟨name, some i⟩ := by
  have position_eq : σ.targetPosition ⟨name, some e, span⟩ = some <$> σ.evalPosition e := rfl
  rw [Target.names_iff, position_eq, h.evalPosition]
  exact ⟨rfl, rfl⟩

theorem element {i : Nat} {elements : List Int64} {n : Int64} (h : σ.Yields e i)
    (vector : σ[name]? = some (.vector elements)) (at_i : elements[i]? = some n) :
    σ.Yields (.element name e span) n.toInt := by
  refine ⟨n, ?_, rfl⟩
  have held : σ.held ⟨name, some i⟩ = some (.integer n) :=
    held_element.mpr ⟨elements, n, vector, at_i, rfl⟩
  rw [eval_element, h.evalPosition]
  exact congrArg (Except.map Value.integer) (element_eq_ok_iff.mpr held)

end Yields

end SymbolTable

theorem Task.lead_of_yields {m : Machine} {e : Expr} {k : Int} (h : m.symbols.Yields e k)
    (name : String) (span span' : Span) : ∃ n : Int64, n.toInt = k ∧
      Lead [.perform (.assign ⟨name, none, span⟩ (.scalar e) span')] m
        { m with symbols := m.symbols.assign name (.integer n) } := by
  obtain ⟨n, eval_eq, toInt_eq⟩ := h
  refine ⟨n, toInt_eq, (lead_of_changes_iff rfl).mpr ⟨_, ?_, lead_nil_iff.mpr rfl⟩⟩
  rw [Machine.assign, SymbolTable.evalRhs, eval_eq]
  rfl

end TagScript
