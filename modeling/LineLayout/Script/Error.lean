import LineLayout.Script.Location
import LineLayout.Text.Quoted

/-!
# Script errors

What can be wrong with a script, and where.
-/

namespace LineLayout.Script

/-- A word that makes a token out of what follows it. -/
inductive Directive where
  /-- Markup of no width. -/
  | tag
  /-- Text in a named style. -/
  | style
  /-- Text in the style of keywords. -/
  | keyword
deriving DecidableEq

namespace Directive

/-- Every directive. -/
def all : List Directive :=
  [tag, style, keyword]

/-- The word for the directive in scripts. -/
def word : Directive → String
  | tag => "TAG"
  | style => "STYLE"
  | keyword => "KW"

/-- The directive that a word stands for. -/
def ofWord? (word : String) : Option Directive :=
  all.find? (·.word = word)

end Directive

/-- What a directive takes. -/
inductive Argument where
  | string
  | styleName
deriving DecidableEq

/-- The argument as messages name it. -/
def Argument.description : Argument → String
  | string => "a string"
  | styleName => "a style name"

/-- What can be wrong at a place of a script. -/
inductive Problem where
  /-- A name where a token is due. -/
  | unknownToken (name : String)
  | unterminatedString
  /-- A backslash in front of a character that it does not escape. -/
  | invalidEscape (escape : Char)
  /-- A character that starts nothing. -/
  | unexpectedCharacter (found : Char)
  | missingArgument (directive : Directive) (expected : Argument)
deriving DecidableEq

/-- The words for a problem. -/
def Problem.message : Problem → String
  | unknownToken name => "unknown token `" ++ name ++ "`"
  | unterminatedString => "unterminated string"
  | invalidEscape escape => "invalid escape `\\" ++ String.ofList [escape] ++ "`"
  | unexpectedCharacter found => "unexpected character " ++ Text.showChar found
  | missingArgument directive expected => directive.word ++ " expects " ++ expected.description

/-- A problem and the place at which it was met. -/
structure Error where
  problem : Problem
  place : Location
deriving DecidableEq

/-- What is wrong and where. -/
def Error.message (error : Error) : String :=
  error.place.toText ++ ": " ++ error.problem.message

end LineLayout.Script
