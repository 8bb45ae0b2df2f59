import LineLayout.Markup
import LineLayout.Script.Lexeme

/-!
# Items

A script says a token with one to three lexemes: a mark, a string, or a directive and its
arguments. `item` takes one such item off the front of a sequence of lexemes.
-/

namespace LineLayout.Script

/-- One token as a script says it. -/
inductive Item where
  | mark (mark : Mark)
  | text (text : String)
  | escaped (text : String)
  | tag (markup : String)
  | keyword (text : String)
  | styled (style text : String)
deriving DecidableEq

/-- The token that an item says. -/
def Item.token : Item → Token
  | mark m => .mark m
  | text t => .plain t
  | escaped t => .escaped t
  | tag t => .tag t
  | keyword t => .keyword t
  | styled style t => .styled style t

/-- The item that a bare string is. -/
def Quote.item (text : String) : Quote → Item
  | plain => .text text
  | escaping => .escaped text

/-- Why reading stopped, with the source from there on. -/
structure Stop where
  problem : Problem
  here : List Char
deriving DecidableEq

/-- The error that a stop in a source is. -/
def Stop.error (source : String) (stop : Stop) : Error where
  problem := stop.problem
  place := .atOffset source (source.utf8ByteSize - Text.byteLength stop.here)

/-! ## Strings -/

/-- The character that an escape stands for. -/
def unescapeChar? : Char → Option Char
  | '\\' => some '\\'
  | 'n' => some '\n'
  | 't' => some '\t'
  | '"' => some '"'
  | '\'' => some '\''
  | _ => none

/-- The text of a literal whose remaining pieces stand at `here`. -/
def unescape (here : List Char) : List Piece → Except Stop (List Char)
  | [] => .ok []
  | .char c :: pieces => (unescape (here.drop 1) pieces).map (c :: ·)
  | .escape c :: pieces =>
    match unescapeChar? c with
    | some d => (unescape (here.drop 2) pieces).map (d :: ·)
    | none => .error ⟨.invalidEscape c, here⟩

/-- The text of a literal whose opening quote stands at `here`. -/
def literalText (here : List Char) (pieces : List Piece) : Except Stop String :=
  (unescape (here.drop 1) pieces).map String.ofList

/-! ## Arguments -/

/-- The string that a directive at `here` takes, and the lexemes behind it. -/
def stringArgument (directive : Directive) (here : List Char) :
    List Placed → Except Stop (String × List Placed)
  | ⟨.string _ pieces, start⟩ :: rest => (literalText start pieces).map (·, rest)
  | ⟨.stray problem, start⟩ :: _ => .error ⟨problem, start⟩
  | _ => .error ⟨.missingArgument directive .string, here⟩

/-- The name that a style directive at `here` takes, and the lexemes behind it. -/
def nameArgument (here : List Char) : List Placed → Except Stop (String × List Placed)
  | ⟨.name name, _⟩ :: rest => .ok (name, rest)
  | ⟨.stray problem, start⟩ :: _ => .error ⟨problem, start⟩
  | _ => .error ⟨.missingArgument .style .styleName, here⟩

/-- The item that starts with the lexeme `first`, and the lexemes behind it. -/
def item (first : Placed) (rest : List Placed) : Except Stop (Item × List Placed) :=
  match first.lexeme with
  | .mark mark => .ok (.mark mark, rest)
  | .string quote pieces => (literalText first.here pieces).map fun text => (quote.item text, rest)
  | .directive .tag =>
    (stringArgument .tag first.here rest).map fun (markup, rest) => (.tag markup, rest)
  | .directive .keyword =>
    (stringArgument .keyword first.here rest).map fun (text, rest) => (.keyword text, rest)
  | .directive .style =>
    match nameArgument first.here rest with
    | .ok (style, rest) =>
      (stringArgument .style first.here rest).map fun (text, rest) => (.styled style text, rest)
    | .error stop => .error stop
  | .name name => .error ⟨.unknownToken name, first.here⟩
  | .stray problem => .error ⟨problem, first.here⟩

theorem length_stringArgument_le {directive : Directive} {here : List Char}
    {lexemes after : List Placed} {text : String}
    (taken : stringArgument directive here lexemes = .ok (text, after)) :
    after.length ≤ lexemes.length := by
  unfold stringArgument at taken
  split at taken
  · rename_i pieces start rest
    cases read : literalText start pieces with
    | error stop => rw [read] at taken; cases taken
    | ok text => rw [read] at taken; cases taken; exact Nat.le_succ _
  · cases taken
  · cases taken

theorem length_nameArgument_le {here : List Char} {lexemes after : List Placed} {name : String}
    (taken : nameArgument here lexemes = .ok (name, after)) : after.length ≤ lexemes.length := by
  unfold nameArgument at taken
  split at taken <;> cases taken
  exact Nat.le_succ _

theorem length_item_le {first : Placed} {rest after : List Placed} {one : Item}
    (taken : item first rest = .ok (one, after)) : after.length ≤ rest.length := by
  unfold item at taken
  split at taken
  · cases taken
    exact Nat.le_refl _
  · rename_i pieces _
    cases read : literalText first.here pieces with
    | error stop => rw [read] at taken; cases taken
    | ok text => rw [read] at taken; cases taken; exact Nat.le_refl _
  · cases read : stringArgument .tag first.here rest with
    | error stop => rw [read] at taken; cases taken
    | ok pair => rw [read] at taken; cases taken; exact length_stringArgument_le read
  · cases read : stringArgument .keyword first.here rest with
    | error stop => rw [read] at taken; cases taken
    | ok pair => rw [read] at taken; cases taken; exact length_stringArgument_le read
  · split at taken
    · rename_i style tail named
      cases read : stringArgument .style first.here tail with
      | error stop => rw [read] at taken; cases taken
      | ok pair =>
        rw [read] at taken
        cases taken
        exact Nat.le_trans (length_stringArgument_le read) (length_nameArgument_le named)
    · cases taken
  · cases taken
  · cases taken

end LineLayout.Script
