import LineLayout.Text.Bytes

/-!
# Places in a script

A place is named by its line and by its column on that line. Lines end at line feeds, and both are
counted from one; columns count characters.
-/

namespace LineLayout.Script

/-- A place by its line and column. -/
structure Location where
  line : Nat
  column : Nat
deriving DecidableEq

namespace Location

/-- The place behind the given text. -/
def behind (text : List Char) : Location where
  line := text.count '\n' + 1
  column := (text.reverse.takeWhile (· ≠ '\n')).length + 1

/-- The place `offset` bytes into the source; an offset at which no character ends names the end of
the source. -/
def atOffset (source : String) (offset : Nat) : Location :=
  behind ((Text.upTo? source offset).getD source).toList

/-- The place as messages name it. -/
def toText (place : Location) : String :=
  toString place.line ++ ":" ++ toString place.column

end Location

end LineLayout.Script
