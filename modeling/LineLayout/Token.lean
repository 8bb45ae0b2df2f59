/-!
# Tokens

A stream to lay out holds runs of text and marks. A run separates what is written from what is
measured, so markup passes through without moving a line break. A mark has no width of its own: it
ends a line, offers a place to break one, changes the indentation, or opens or closes a bracket.
-/

namespace LineLayout

/-- A piece of text and the number of columns it counts for. -/
structure TextRun where
  text : String
  width : Nat
deriving DecidableEq

/-- A run that counts one column for each of its characters. -/
def TextRun.plain (text : String) : TextRun :=
  ⟨text, text.length⟩

/-- A kind of bracket pair: a list, whose delimiters the producer writes as text, or a soft
parenthesis, which shows only when its content is broken over lines. -/
inductive Bracket where
  | list
  | paren
deriving DecidableEq

/-- A token without text. -/
inductive Mark where
  /-- Always ends the line. -/
  | hardBreak
  /-- May break the line, with a deeper margin. -/
  | softBreak
  /-- Ends the line and moves the margin one unit in. -/
  | indent
  /-- Ends the line and takes back the margin of the matching `indent`. -/
  | dedent
  /-- May break the line between two items of a list. -/
  | separator
  | opener (bracket : Bracket)
  | closer (bracket : Bracket)
deriving DecidableEq

namespace Mark

/-- Every mark, in the order in which they are numbered. -/
def all : List Mark :=
  [hardBreak, softBreak, indent, dedent, opener .list, separator, closer .list, opener .paren,
    closer .paren]

/-- The word that stands for the mark in scripts, listings and messages. -/
def mnemonic : Mark → String
  | hardBreak => "NL"
  | softBreak => "NBR"
  | indent => "INDENT"
  | dedent => "DEDENT"
  | opener .list => "LIST"
  | separator => "LI"
  | closer .list => "LIST_END"
  | opener .paren => "SLP"
  | closer .paren => "SRP"

/-- The mark that a word stands for. -/
def ofMnemonic? (word : String) : Option Mark :=
  all.find? (·.mnemonic = word)

theorem ofMnemonic?_mnemonic (m : Mark) : ofMnemonic? m.mnemonic = some m := by
  rcases m with _ | _ | _ | _ | _ | (_ | _) | (_ | _) <;> rfl

end Mark

/-- A run of text, or a mark. -/
inductive Token where
  | text (run : TextRun)
  | mark (mark : Mark)
deriving DecidableEq

namespace Token

/-- Text that is written as it is and counts one column for each character. -/
def plain (text : String) : Token :=
  .text (TextRun.plain text)

/-- The word for the token's kind. -/
def mnemonic : Token → String
  | text _ => "TEXT"
  | mark m => m.mnemonic

/-- The number of the token's kind: text first, then the marks in their order. -/
def ordinal : Token → Nat
  | text _ => 0
  | mark m => Mark.all.idxOf m + 1

/-- Columns the token counts for. -/
def width : Token → Nat
  | text run => run.width
  | mark _ => 0

end Token

end LineLayout
