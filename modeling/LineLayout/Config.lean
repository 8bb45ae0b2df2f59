/-!
# Layout settings

A line should not be wider than the width limit, and a step of indentation is one indent unit.

Columns are counted up to `maxColumns`, the largest count that fits into a machine word. Two sums
are cut off there, as `addColumns` does: the columns of a line with one more run on it, and the two
steps of `Config.wrapIndent`. All others are exact sums of natural numbers, however large: the parts
of a margin (`Margin.width`), a margin that moves in (`Layout.moveIn`), a line that continues deeper
(`Layout.continueBy`) and a line with a closing parenthesis on it (`Layout.writeClosing`). In
machine words these would overflow beyond `maxColumns`, so there the layout agrees with one in
machine words only as long as none of them gets so large. That takes an indent unit near `2 ^ 63`,
or as many columns on one line as `maxColumns`.
-/

namespace LineLayout

/-- The largest number of columns that is told apart from a larger one. -/
def maxColumns : Nat :=
  0xffffffffffffffff

/-- The sum of two column counts, as far as columns are counted. -/
def addColumns (a b : Nat) : Nat :=
  min (a + b) maxColumns

/-- How wide a line may be, and how many spaces one step of indentation has. -/
structure Config where
  widthLimit : Nat := 80
  indentUnit : Nat := 2
deriving DecidableEq

namespace Config

/-- Extra margin of a line that continues a broken one: two steps. -/
def wrapIndent (config : Config) : Nat :=
  addColumns config.indentUnit config.indentUnit

/-- Whether something of the given width, put at the given column, ends past the limit. -/
def exceeds (config : Config) (column width : Nat) : Bool :=
  config.widthLimit < addColumns column width

end Config

end LineLayout
