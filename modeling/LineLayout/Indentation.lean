import LineLayout.Trail

/-!
# Saved indentation

The margin of a line is the indent plus a continuation that only a broken line has. Both are saved
when the margin moves in, and taken back when it moves out again.
-/

namespace LineLayout

/-- The two parts of a margin, in spaces. -/
structure Margin where
  indent : Nat := 0
  continuation : Nat := 0
deriving DecidableEq

namespace Margin

/-- Spaces in front of a line with this margin. -/
def width (margin : Margin) : Nat :=
  margin.indent + margin.continuation

end Margin

/-- The margins saved so far, the one to take back first on top. -/
abbrev SavedMargins : Type :=
  Trail Margin

namespace SavedMargins

/-- The margin saved last; with nothing saved it is the empty one. -/
def last (saved : SavedMargins) : Margin :=
  saved.peek?.getD {}

/-- Whether nothing is saved. -/
def isEmpty (saved : SavedMargins) : Bool :=
  saved.top == 0

end SavedMargins

end LineLayout
