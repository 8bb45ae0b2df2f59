import LineLayout.Fault
import LineLayout.Layout.Basic

/-!
# One token

`step` lays out the token at the cursor. Text that would overflow the line, and a mark that ends
the line while a more welcome break is pending, do not go forward: the layout goes back to the best
pending candidate, breaks the line there, and reads the tokens after it again.

A token that does not fit the nesting is refused with a fault, and the cursor stays on it.
-/

namespace LineLayout

/-- What laying out tokens leads to: a layout to go on with, or a fault and what it left behind. -/
inductive Outcome where
  | done (layout : Layout)
  | rejected (fault : Fault) (layout : Layout)

namespace Layout

/-! ## Breaking the line -/

/-- Writes what shows where a bracket opens. The line ends right behind it, so it is not counted. -/
def writeOpening (l : Layout) (state : ListState) : Layout :=
  match state.openingChar? with
  | some c =>
    let l := l.writeMargin
    { l with output := l.output.writeChar c }
  | none => l

/-- Breaks the line behind the opening of a bracket and lays its content out over lines. -/
def wrapList (l : Layout) (config : Config) (bracket : Bracket) : Layout :=
  let state := (ListState.inside bracket .flat).wrapped
  let l := (l.writeOpening state).startLine.saveMargin.moveIn config.wrapIndent
  { l with lists := l.lists.enter state }

/-- Breaks the line in the way of a candidate. -/
def breakLine (l : Layout) (config : Config) : BreakKind → Layout
  | .soft => l.startLine.continueBy config.wrapIndent
  | .separator => l.startLine.continueBy 0
  | .opener bracket => l.wrapList config bracket

/-- Goes back to a pending candidate and breaks the line there. -/
def breakAt (l : Layout) (config : Config) (choice : Choice) : Layout :=
  let c := choice.candidate
  let rewound := (l.note (.rewound c.kind c.priority (l.cursor + 1) (c.index + 1))).restore c.before
  (rewound.noteDiscarded choice.older.length).breakLine config c.kind

/-! ## Ending the line -/

/-- The pending candidate that goes before a hard break. -/
def overriding? (l : Layout) : Option Choice :=
  l.pending.bestAbove? (Priority.hardBreak l.lists.depth)

/-- Ends the line for good; the next one starts at the margin saved last. -/
def commitLine (l : Layout) : Layout :=
  let l := l.continueBy 0
  (l.note (.committed (l.cursor + 1) l.margin.indent)).startLine

/-- Takes the margin saved last back and goes on. -/
def takeBackMargin (l : Layout) : Outcome :=
  match l.saved.pop? with
  | some (margin, saved) => .done { l with margin := margin, saved := saved }.advance
  | none => .rejected (.unindented l.cursor) l

/-! ## Tokens -/

/-- Writes text and goes on, or breaks the line first if the text does not fit. -/
def text (l : Layout) (config : Config) (run : TextRun) : Layout :=
  let l := l.writeMargin
  let overflow? :=
    if config.exceeds l.column run.width then l.pending.bestForOverflow? config.widthLimit else none
  match overflow? with
  | some choice => l.breakAt config choice
  | none =>
    { l with
      output := l.output.write run.text
      column := addColumns l.column run.width }.advance

/-- Ends the line, or breaks it first where that is more welcome. -/
def hardBreak (l : Layout) (config : Config) : Layout :=
  match l.overriding? with
  | some choice => l.breakAt config choice
  | none => l.commitLine.advance

/-- The margin to come back to is saved before the line ends, and forgotten again by going back. -/
def indent (l : Layout) (config : Config) : Layout :=
  let l := l.saveMargin
  match l.overriding? with
  | some choice => l.breakAt config choice
  | none => (l.commitLine.moveIn config.indentUnit).advance

/-- Ends the line and moves the margin out. Whether there is a margin to take back is asked first,
so that a stream that lacks one leaves the line as it is. -/
def dedent (l : Layout) (config : Config) : Outcome :=
  if l.saved.isEmpty then .rejected (.unindented l.cursor) l
  else
    match l.overriding? with
    | some choice => .done (l.breakAt config choice)
    | none => l.commitLine.takeBackMargin

/-- Writes what shows where a bracket closes. -/
def writeClosing (l : Layout) (state : ListState) : Layout :=
  match state.closingChar? with
  | some c =>
    let l := l.writeMargin
    { l with
      output := l.output.writeChar c
      column := l.column + 1 }
  | none => l

/-- Closes the innermost bracket, in the shape it has. -/
def closeList (l : Layout) (bracket : Bracket) : Outcome :=
  let state := l.lists.state
  match state.delimiters? with
  | some (.opener opened, closer) =>
    if closer = .closer bracket then
      let closed := { l with lists := l.lists.leave }.writeClosing state
      if state.dedentsOnClose then closed.takeBackMargin else .done closed.advance
    else .rejected (.mismatched l.cursor opened bracket) l
  | _ => .rejected (.unopened l.cursor bracket) l

theorem closeList_of_leave? {l : Layout} {opened : Bracket} {shape : Shape} {rest : OpenLists}
    (left : l.lists.leave? = some (.inside opened shape, rest)) (bracket : Bracket) :
    l.closeList bracket =
      if opened = bracket then
        let closed := { l with lists := rest }.writeClosing (.inside opened shape)
        if (ListState.inside opened shape).dedentsOnClose then closed.takeBackMargin
        else .done closed.advance
      else .rejected (.mismatched l.cursor opened bracket) l := by
  simp only [closeList, OpenLists.state_of_leave? left, OpenLists.leave_of_leave? left,
    ListState.delimiters?, Mark.closer.injEq]

theorem closeList_of_bottom {l : Layout} (bottom : l.lists.leave? = none) (bracket : Bracket) :
    l.closeList bracket = .rejected (.unopened l.cursor bracket) l := by
  simp only [closeList, OpenLists.state_of_leave?_eq_none bottom, ListState.delimiters?]

/-- Lays out one token, the one at the cursor. -/
def step (l : Layout) (config : Config) : Token → Outcome
  | .text run => .done (l.text config run)
  | .mark .hardBreak => .done (l.hardBreak config)
  | .mark .softBreak => .done (l.record .soft)
  | .mark .separator => .done (l.record .separator)
  | .mark .indent => .done (l.indent config)
  | .mark .dedent => l.dedent config
  | .mark (.opener bracket) => .done (l.openList bracket)
  | .mark (.closer bracket) => l.closeList bracket

end Layout

end LineLayout
