import LineLayout.Text.Invisible

/-!
# Quoted text

Text is shown in quotes so that it can be told apart from what stands around it. The quote itself,
the backslash and characters that one would not see are written as escapes. Which characters those
are changes from one version of Unicode to the next, so they are a parameter.
-/

namespace LineLayout.Text

/-- The escape for a character by its code point. -/
def codePointEscape (c : Char) : List Char :=
  "\\u\x7b".toList ++ Nat.toDigits 16 c.toNat ++ ['\x7d']

/-- What is written for a character between two quotes `quote`, if one would not see those that are
`hidden`. -/
def quotedChar (hidden : Char → Bool) (quote c : Char) : List Char :=
  if c = '\x00' then ['\\', '0']
  else if c = '\t' then ['\\', 't']
  else if c = '\r' then ['\\', 'r']
  else if c = '\n' then ['\\', 'n']
  else if c = '\\' ∨ c = quote then ['\\', c]
  else if hidden c then codePointEscape c
  else [c]

/-- The text between two quotes `quote`. -/
def quoted (hidden : Char → Bool) (quote : Char) (text : List Char) : List Char :=
  quote :: text.flatMap (quotedChar hidden quote) ++ [quote]

/-- A string in double quotes. -/
def showString (text : String) (hidden : Char → Bool := isInvisible) : String :=
  String.ofList (quoted hidden '"' text.toList)

/-- A character in single quotes. -/
def showChar (c : Char) : String :=
  String.ofList (quoted isInvisible '\'' [c])

end LineLayout.Text
