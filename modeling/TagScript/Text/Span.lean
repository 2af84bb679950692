/-! Stretches of a text, counted in characters from 0. -/
namespace TagScript

/-- The characters from `start` up to, and not including, `stop`. -/
structure Span where
  start : Nat
  stop : Nat
deriving DecidableEq, Repr, Inhabited

namespace Span

def point (position : Nat) : Span :=
  ⟨position, position + 1⟩

def cover (a b : Span) : Span :=
  ⟨min a.start b.start, max a.stop b.stop⟩

def shift (s : Span) (distance : Nat) : Span :=
  ⟨s.start + distance, s.stop + distance⟩

/-- The span moved into a text of the given length, so that it designates at
least one character. What lies past the end becomes the last character. -/
def clampTo (s : Span) (length : Nat) : Span :=
  let start := min s.start (length - 1)
  ⟨start, min (max s.stop (start + 1)) (max length (start + 1))⟩

@[simp] theorem cover_self (s : Span) : s.cover s = s := by
  simp [cover]

end Span

end TagScript
