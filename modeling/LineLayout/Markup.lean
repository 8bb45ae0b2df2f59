import LineLayout.Token

/-!
# Runs with markup

Runs whose written text carries markup are measured by the text a reader sees: an escaped
character counts once, and the tags around a styled run count for nothing.
-/

namespace LineLayout

namespace Markup

/-- What is written for a character of the text between tags. -/
def escapeChar : Char → List Char
  | '&' => "&amp;".toList
  | '<' => "&lt;".toList
  | '>' => "&gt;".toList
  | c => [c]

/-- The text with the characters that would read as markup written as entities. -/
def escape (text : String) : String :=
  String.ofList (text.toList.flatMap escapeChar)

end Markup

namespace Token

/-- Text written with its markup characters escaped. -/
def escaped (text : String) : Token :=
  .text ⟨Markup.escape text, text.length⟩

/-- Escaped text inside a span of the given class. -/
def styled (style text : String) : Token :=
  .text ⟨"<span class='" ++ style ++ "'>" ++ Markup.escape text ++ "</span>", text.length⟩

/-- Escaped text in the style of keywords. -/
def keyword (text : String) : Token :=
  styled "kw" text

/-- Markup that is written as it is and takes no room. -/
def tag (markup : String) : Token :=
  .text ⟨markup, 0⟩

end Token

end LineLayout
