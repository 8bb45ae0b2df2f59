import LineLayout.Config
import LineLayout.Command.Error

/-!
# Arguments of the render command

One argument is the path of the script, the others set the width limit and the indent unit. Of
several settings of one kind the last holds; of several arguments at fault the first is reported.
-/

namespace LineLayout

/-- A decimal text without the plus sign it may start with. -/
def dropPlus : List Char → List Char
  | '+' :: digits => digits
  | digits => digits

/-- The value of decimal digits. -/
def decimalValue (digits : List Char) : Nat :=
  digits.foldl (fun value c => 10 * value + (c.toNat - '0'.toNat)) 0

/-- The number that a text denotes: decimal digits, possibly behind a plus sign, for a number up to
the largest count of columns. -/
def count? (text : List Char) : Option Nat :=
  let digits := dropPlus text
  if digits ≠ [] ∧ digits.all Char.isDigit ∧ decimalValue digits ≤ maxColumns then
    some (decimalValue digits)
  else none

/-- What an argument is, taken by itself. -/
inductive Argument where
  | width (limit : Nat)
  | indent (unit : Nat)
  | path
  | refused (refusal : Refusal)
deriving DecidableEq

namespace Argument

/-- What an argument is that sets the width limit. A line has at least one column. -/
def ofWidth (value : List Char) : Argument :=
  match count? value with
  | none => refused .notACount
  | some 0 => refused .zeroWidth
  | some limit => width limit

/-- What an argument is that sets the indent unit. It may be zero. -/
def ofIndent (value : List Char) : Argument :=
  match count? value with
  | none => refused .notACount
  | some unit => indent unit

/-- An argument that starts with a hyphen is an option, except for the hyphen by itself, which is
the path of standard input. -/
def ofText (text : String) : Argument :=
  match "--width=".toList.isPrefixOf? text.toList with
  | some value => ofWidth value
  | none =>
    match "--indent=".toList.isPrefixOf? text.toList with
    | some value => ofIndent value
    | none =>
      if ['-'].isPrefixOf text.toList ∧ text ≠ "-" then refused .unknownOption else path

end Argument

/-- What to render, and how. -/
structure RenderOptions where
  path : String
  config : Config
deriving DecidableEq

namespace RenderOptions

/-- Reads the remaining arguments, with the path and the settings found so far. -/
def collect (path? : Option String) (config : Config) :
    List String → Except CommandError RenderOptions
  | [] =>
    match path? with
    | some path => .ok ⟨path, config⟩
    | none => .error .missingPath
  | arg :: args =>
    match Argument.ofText arg with
    | .width limit => collect path? { config with widthLimit := limit } args
    | .indent unit => collect path? { config with indentUnit := unit } args
    | .refused refusal => .error (.invalidOption arg refusal)
    | .path =>
      match path? with
      | none => collect (some arg) config args
      | some _ => .error (.invalidOption arg .secondPath)

/-- Reads the arguments of the render command; what they leave open is as usual. -/
def parse (args : List String) : Except CommandError RenderOptions :=
  collect none {} args

end RenderOptions

end LineLayout
