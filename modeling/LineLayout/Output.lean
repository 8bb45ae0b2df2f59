import LineLayout.Text.Bytes

/-!
# Output

The text laid out so far. It grows at its end, and can be cut back to a size it had before:
`truncate_write` says that the cut takes back exactly what was written since.
-/

namespace LineLayout

/-- The text laid out so far. -/
structure Output where
  text : String := ""
deriving DecidableEq

namespace Output

/-- The length of the text in bytes. -/
def size (out : Output) : Nat :=
  out.text.utf8ByteSize

/-- Writes text at the end. -/
def write (out : Output) (text : String) : Output :=
  ⟨out.text ++ text⟩

/-- Ends the line. -/
def newline (out : Output) : Output :=
  out.write "\n"

/-- Writes one character. -/
def writeChar (out : Output) (c : Char) : Output :=
  out.write (String.ofList [c])

/-- Writes `count` spaces. -/
def spaces (out : Output) (count : Nat) : Output :=
  out.write (String.ofList (List.replicate count ' '))

/-- Cuts the text back to `size` bytes; a size at which no character ends cuts nothing. -/
def truncate (out : Output) (size : Nat) : Output :=
  match Text.upTo? out.text size with
  | some kept => ⟨kept⟩
  | none => out

theorem size_write (out : Output) (text : String) :
    (out.write text).size = out.size + text.utf8ByteSize :=
  String.utf8ByteSize_append

theorem write_write (out : Output) (s t : String) :
    (out.write s).write t = out.write (s ++ t) := by
  simp [write, String.append_assoc]

theorem truncate_write (out : Output) (text : String) :
    (out.write text).truncate out.size = out := by
  have cut : Text.upTo? (out.text ++ text) out.text.utf8ByteSize = some out.text :=
    Text.upTo?_eq_some_iff.2 ⟨rfl, text, rfl⟩
  simp [truncate, write, size, cut]

end Output

end LineLayout
