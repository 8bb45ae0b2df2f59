import LineLayout.Token
import LineLayout.Trail

/-!
# Open brackets

The brackets open at a place in the stream form a stack. A bracket is opened flat, on the hope
that its content fits on the line; it may later be broken, and closes in the shape it then has.
-/

namespace LineLayout

/-- Whether the content of a bracket stays on one line or is broken over lines. -/
inductive Shape where
  | flat
  | broken
deriving DecidableEq

/-- The innermost bracket around a place, if any. -/
inductive ListState where
  | outside
  | inside (bracket : Bracket) (shape : Shape)
deriving DecidableEq

namespace ListState

/-- The same bracket, broken over lines. -/
def wrapped : ListState → ListState
  | outside => outside
  | inside bracket _ => inside bracket .broken

/-- The marks that open and close the bracket. -/
def delimiters? : ListState → Option (Mark × Mark)
  | outside => none
  | inside bracket _ => some (.opener bracket, .closer bracket)

/-- A broken bracket moved the margin in, so closing it moves the margin out. -/
def dedentsOnClose : ListState → Bool
  | inside _ .broken => true
  | _ => false

/-- What is written where the bracket opens: a broken soft parenthesis shows. -/
def openingChar? : ListState → Option Char
  | inside .paren .broken => some '('
  | _ => none

/-- What is written where the bracket closes. -/
def closingChar? : ListState → Option Char
  | inside .paren .broken => some ')'
  | _ => none

end ListState

/-- An open bracket, and how many brackets are open with it. -/
structure ListFrame where
  state : ListState
  depth : Nat
deriving DecidableEq

/-- The open brackets, the innermost on top. -/
abbrev OpenLists : Type :=
  Trail ListFrame

namespace OpenLists

/-- The innermost bracket. -/
def state (lists : OpenLists) : ListState :=
  match lists.peek? with
  | some frame => frame.state
  | none => .outside

/-- How many brackets are open. -/
def depth (lists : OpenLists) : Nat :=
  match lists.peek? with
  | some frame => frame.depth
  | none => 0

/-- Opens a bracket inside of the innermost one. -/
def enter (lists : OpenLists) (state : ListState) : OpenLists :=
  lists.push ⟨state, lists.depth + 1⟩

/-- Closes the innermost bracket and gives the state it ended in. -/
def leave? (lists : OpenLists) : Option (ListState × OpenLists) :=
  match lists.pop? with
  | some (⟨.inside bracket shape, _⟩, rest) => some (.inside bracket shape, rest)
  | _ => none

/-- What stays open when the innermost bracket is closed. -/
def leave (lists : OpenLists) : OpenLists :=
  match lists.leave? with
  | some (_, rest) => rest
  | none => lists

theorem leave?_cases (lists : OpenLists) :
    lists.leave? = none ∨
      ∃ bracket shape rest, lists.leave? = some (.inside bracket shape, rest) := by
  unfold leave?
  split
  · exact Or.inr ⟨_, _, _, rfl⟩
  · exact Or.inl rfl

theorem leave_of_leave? {lists rest : OpenLists} {state : ListState}
    (left : lists.leave? = some (state, rest)) : lists.leave = rest := by
  rw [leave, left]

theorem state_of_leave? {lists rest : OpenLists} {state : ListState}
    (left : lists.leave? = some (state, rest)) : lists.state = state := by
  unfold leave? Trail.pop? at left
  unfold OpenLists.state Trail.peek?
  cases topmost : lists.entry? lists.top with
  | none => simp [topmost] at left
  | some entry =>
    obtain ⟨⟨_ | ⟨bracket, shape⟩, depth⟩, below⟩ := entry
    · simp [topmost] at left
    · simp only [topmost, Option.map_some, Option.some.injEq, Prod.mk.injEq] at left
      exact left.1

theorem state_of_leave?_eq_none {lists : OpenLists} (bottom : lists.leave? = none) :
    lists.state = .outside := by
  unfold leave? Trail.pop? at bottom
  unfold OpenLists.state Trail.peek?
  cases topmost : lists.entry? lists.top with
  | none => rfl
  | some entry =>
    obtain ⟨⟨_ | ⟨bracket, shape⟩, depth⟩, below⟩ := entry
    · rfl
    · simp [topmost] at bottom

end OpenLists

end LineLayout
