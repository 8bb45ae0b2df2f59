import LineLayout.Command.Error
import LineLayout.Script.Reading

/-!
# Listing the tokens of a script

Each token has one line: its number, its kind, and for text also the text in quotes and its width.
-/

namespace LineLayout

/-- A token on one line. -/
def Token.describe (token : Token) (hidden : Char → Bool := Text.isInvisible) : String :=
  match token with
  | .text run =>
    token.mnemonic ++ " " ++ Text.showString run.text hidden ++ " width=" ++ toString run.width
  | .mark _ => token.mnemonic

/-- A number right-aligned in four columns. -/
def alignedIndex (index : Nat) : String :=
  let digits := toString index
  String.ofList (List.replicate (4 - digits.length) ' ') ++ digits

/-- The line of the listing for the token with the given number. -/
def listingLine (token : Token) (index : Nat) (hidden : Char → Bool := Text.isInvisible) :
    String :=
  "  " ++ alignedIndex index ++ "  " ++ token.describe hidden ++ "\n"

/-- The whole listing: a line that counts the tokens, and a line for each. -/
def listing (path : String) (tokens : List Token) (hidden : Char → Bool := Text.isInvisible) :
    String :=
  "Tokens for '" ++ path ++ "' (" ++ toString tokens.length ++ " tokens):\n" ++
    String.join (tokens.mapIdx fun index token => listingLine token index hidden)

/-- Lists the tokens that a script says. -/
def listSource (path source : String) (hidden : Char → Bool := Text.isInvisible) :
    Except CommandError String :=
  match Script.parse source with
  | .error error => .error (.script path error)
  | .ok tokens => .ok (listing path tokens hidden)

end LineLayout
