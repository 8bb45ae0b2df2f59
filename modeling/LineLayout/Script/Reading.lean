import LineLayout.Event
import LineLayout.Script.Item

/-!
# Reading scripts

`read` takes a source apart into items and stops at the first one that is not well-formed. `parse`
gives the tokens of a script that is well-formed to its end.
-/

namespace LineLayout.Script

/-- The items read from the front of a script, and what stopped the reading before its end. -/
structure Reading where
  items : List Item
  stop? : Option Stop
deriving DecidableEq

/-- Reads items off a sequence of lexemes. -/
def Reading.ofLexemes : List Placed → Reading
  | [] => ⟨[], none⟩
  | first :: rest =>
    match _ : item first rest with
    | .error stop => ⟨[], some stop⟩
    | .ok (one, after) =>
      let reading := Reading.ofLexemes after
      ⟨one :: reading.items, reading.stop?⟩
termination_by lexemes => lexemes.length
decreasing_by
  rename_i taken
  exact Nat.lt_succ_of_le (length_item_le taken)

/-- Reads a script as far as it is well-formed. -/
def read (source : String) : Reading :=
  Reading.ofLexemes (lexemes source.toList)

/-- The tokens that a script says. -/
def parse (source : String) : Except Error (List Token) :=
  let reading := read source
  match reading.stop? with
  | some stop => .error (stop.error source)
  | none => .ok (reading.items.map Item.token)

/-- What happens while a script is read. -/
def trace (source : String) : List Event :=
  let reading := read source
  let tokens := reading.items.map Item.token
  let scanned := tokens.map fun token => Event.scanned token.mnemonic token.width
  match reading.stop? with
  | some _ => scanned
  | none => scanned ++ [.parsed tokens.length]

end LineLayout.Script
