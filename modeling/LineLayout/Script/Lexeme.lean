import LineLayout.Token
import LineLayout.Script.Error

/-!
# Lexemes

A script is a sequence of words and string literals, with blanks and comments between them.
`lexemes` cuts a source into them. A place where none starts gives a stray lexeme, behind which
nothing is read. Each lexeme comes with the source from its first character on, which says where
it stands.
-/

namespace LineLayout.Script

/-! ## Gaps -/

/-- Spaces, tabs, carriage returns, line feeds and form feeds. -/
def isBlank (c : Char) : Bool :=
  c = ' ' || c = '\t' || c = '\r' || c = '\n' || c = '\x0c'

/-- The source behind the gap it starts with. A gap is any mix of blanks and comments, and a comment
runs from a number sign up to the end of its line. -/
def dropGap (inComment : Bool) : List Char → List Char
  | [] => []
  | c :: rest =>
    if inComment then dropGap (c ≠ '\n') rest
    else if isBlank c then dropGap false rest
    else if c = '#' then dropGap true rest
    else c :: rest

theorem length_dropGap_le (inComment : Bool) (source : List Char) :
    (dropGap inComment source).length ≤ source.length := by
  induction source generalizing inComment with
  | nil => exact Nat.le_refl _
  | cons c rest ih =>
    unfold dropGap
    split
    · exact Nat.le_succ_of_le (ih _)
    split
    · exact Nat.le_succ_of_le (ih _)
    split
    · exact Nat.le_succ_of_le (ih _)
    · exact Nat.le_refl _

/-! ## Words -/

/-- A letter or an underscore. -/
def isWordStart (c : Char) : Bool :=
  c.isAlpha || c = '_'

/-- A letter, a digit or an underscore. -/
def isWordPart (c : Char) : Bool :=
  c.isAlphanum || c = '_'

/-! ## String literals -/

/-- The quotes of a string literal say how its text is written: as it is, or escaped. -/
inductive Quote where
  | plain
  | escaping
deriving DecidableEq

/-- The character that opens and closes the literal. -/
def Quote.char : Quote → Char
  | plain => '"'
  | escaping => '\''

/-- The kind of literal that a character opens. -/
def Quote.ofChar? (c : Char) : Option Quote :=
  if c = '"' then some .plain else if c = '\'' then some .escaping else none

/-- A character of a literal, as it stands or behind a backslash. -/
inductive Piece where
  | char (c : Char)
  | escape (c : Char)
deriving DecidableEq

/-- The pieces up to the closing quote and the source behind it. A literal ends on its line. -/
def literal? (quote : Char) : List Char → Option (List Piece × List Char)
  | [] => none
  | c :: rest =>
    if c = quote then some ([], rest)
    else if c = '\n' then none
    else if c = '\\' then
      match rest with
      | [] => none
      | escape :: rest =>
        if escape = '\n' then none
        else (literal? quote rest).map fun (pieces, after) => (.escape escape :: pieces, after)
    else (literal? quote rest).map fun (pieces, after) => (.char c :: pieces, after)

theorem length_literal?_le {quote : Char} {source after : List Char} {pieces : List Piece}
    (read : literal? quote source = some (pieces, after)) : after.length ≤ source.length := by
  fun_induction literal? quote source generalizing pieces with
  | case1 => cases read
  | case2 => cases read; exact Nat.le_succ _
  | case3 => cases read
  | case4 => cases read
  | case5 => cases read
  | case6 _ _ _ _ _ ih =>
    obtain ⟨⟨tail, last⟩, inner, same⟩ := Option.map_eq_some_iff.1 read
    cases same
    exact Nat.le_succ_of_le (Nat.le_succ_of_le (ih inner))
  | case7 _ _ _ _ _ ih =>
    obtain ⟨⟨tail, last⟩, inner, same⟩ := Option.map_eq_some_iff.1 read
    cases same
    exact Nat.le_succ_of_le (ih inner)

/-! ## Lexemes -/

/-- A word or a literal, told by what it is good for. -/
inductive Lexeme where
  | mark (mark : Mark)
  | directive (directive : Directive)
  /-- A word that is not reserved. -/
  | name (name : String)
  | string (quote : Quote) (pieces : List Piece)
  /-- No lexeme starts here. -/
  | stray (problem : Problem)
deriving DecidableEq

/-- A word is reserved if it stands for a mark or a directive. -/
def Lexeme.ofWord (word : String) : Lexeme :=
  match Mark.ofMnemonic? word, Directive.ofWord? word with
  | some m, _ => .mark m
  | none, some d => .directive d
  | none, none => .name word

/-- The lexeme at the start of `c :: rest` and the source behind it, with nothing behind a stray
one. -/
def Lexeme.atStart (c : Char) (rest : List Char) : Lexeme × List Char :=
  if isWordStart c then
    (.ofWord (String.ofList (c :: rest.takeWhile isWordPart)), rest.dropWhile isWordPart)
  else
    match Quote.ofChar? c with
    | some quote =>
      match literal? c rest with
      | some (pieces, after) => (.string quote pieces, after)
      | none => (.stray .unterminatedString, [])
    | none => (.stray (.unexpectedCharacter c), [])

theorem Lexeme.length_atStart_le (c : Char) (rest : List Char) :
    (Lexeme.atStart c rest).2.length ≤ rest.length := by
  unfold Lexeme.atStart
  split
  · exact (List.dropWhile_suffix isWordPart).length_le
  split
  · split
    · exact length_literal?_le ‹_›
    · exact Nat.zero_le _
  · exact Nat.zero_le _

/-- A lexeme, with the source from its first character on. -/
structure Placed where
  lexeme : Lexeme
  here : List Char
deriving DecidableEq

/-- The lexemes of a source, up to its end or to a stray one. -/
def lexemes (source : List Char) : List Placed :=
  match _ : dropGap false source with
  | [] => []
  | c :: rest => ⟨(Lexeme.atStart c rest).1, c :: rest⟩ :: lexemes (Lexeme.atStart c rest).2
termination_by source.length
decreasing_by
  rename_i start
  have gap := length_dropGap_le false source
  have shorter := Lexeme.length_atStart_le c rest
  rw [start, List.length_cons] at gap
  omega

end LineLayout.Script
