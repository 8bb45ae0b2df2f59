import LineLayout.Config
import LineLayout.Output
import LineLayout.ListContext
import LineLayout.Event

/-!
# The state of a layout

What is written, where the line and the margin stand, which brackets are open, and which breaks are
pending. A layout also knows how to go back: `snapshot` notes where it stands, and `restore` returns
there, just past the token it stood in front of.

The pending candidates were left by tokens in front of the cursor, the newer by later ones. Every
operation keeps that order, so it is part of the type.

Margins are exact: unlike the columns of a run they are summed without the bound `maxColumns`.
-/

namespace LineLayout

/-- A layout under way: what is written and where it stands, and what it needs to go back. -/
structure Layout where
  output : Output := {}
  /-- Columns used on the line, its margin included. -/
  column : Nat := 0
  margin : Margin := {}
  /-- The number of the next token. -/
  cursor : Nat := 0
  lists : OpenLists := {}
  saved : SavedMargins := {}
  pending : Pending := []
  /-- What happened so far, the latest first. -/
  journal : List Event := []
  descending : Pending.Descending cursor pending := by trivial

namespace Layout

/-- The token that left the oldest pending candidate, or the cursor if none is pending: the output
in front of it is final. -/
def horizon (l : Layout) : Nat :=
  l.pending.horizon l.cursor

/-- Goes on to the next token. -/
def advance (l : Layout) : Layout :=
  { l with
    cursor := l.cursor + 1
    descending := l.descending.mono (Nat.le_succ _) }

/-- Adds to the journal. -/
def note (l : Layout) (event : Event) : Layout :=
  { l with journal := event :: l.journal }

/-- Notes that candidates are dropped, if there are any. -/
def noteDiscarded (l : Layout) (count : Nat) : Layout :=
  if count = 0 then l else l.note (.discarded count)

/-! ## Writing -/

/-- Writes the margin if nothing is on the line yet. -/
def writeMargin (l : Layout) : Layout :=
  if l.column = 0 then
    { l with output := l.output.spaces l.margin.width, column := l.margin.width }
  else l

/-- Starts a line. What was pending on the last one can no longer be chosen. -/
def startLine (l : Layout) : Layout :=
  let l := l.noteDiscarded l.pending.length
  { l with
    output := l.output.newline
    column := 0
    pending := []
    descending := trivial }

/-! ## Margins -/

/-- Saves the margin, to be taken back later. -/
def saveMargin (l : Layout) : Layout :=
  { l with saved := l.saved.push l.margin }

/-- Moves the margin in. -/
def moveIn (l : Layout) (columns : Nat) : Layout :=
  { l with margin := { l.margin with indent := l.margin.indent + columns } }

/-- Lets the line continue `extra` columns deeper than the margin saved last. -/
def continueBy (l : Layout) (extra : Nat) : Layout :=
  { l with margin := { l.margin with continuation := l.saved.last.continuation + extra } }

/-! ## Candidates -/

/-- The state of the layout, as far as going back needs it. -/
def snapshot (l : Layout) : Snapshot where
  index := l.cursor
  size := l.output.size
  column := l.column
  margin := l.margin
  saved := l.saved.bookmark
  lists := l.lists.bookmark

/-- Goes back to a snapshot and past the token in front of which it was taken. -/
def restore (l : Layout) (before : Snapshot) : Layout :=
  { l with
    output := l.output.truncate before.size
    column := before.column
    margin := before.margin
    cursor := before.index + 1
    lists := l.lists.rewind before.lists
    saved := l.saved.rewind before.saved
    pending := []
    descending := trivial }

/-- Leaves a candidate at the current token and goes on. -/
def record (l : Layout) (kind : BreakKind) : Layout :=
  let c := Candidate.ofKind kind l.lists.depth l.snapshot
  let l := l.note (.recorded kind c.priority l.column)
  { l with
    cursor := l.cursor + 1
    pending := c :: l.pending
    descending := ⟨Nat.lt_succ_self _, l.descending⟩ }

/-- Opens a bracket, flat, and leaves a candidate to break it. Going back leads to the state
outside the bracket, but the priority counts the bracket too. -/
def openList (l : Layout) (bracket : Bracket) : Layout :=
  let c := Candidate.ofKind (.opener bracket) (l.lists.depth + 1) l.snapshot
  let l := l.note (.opened c.kind c.priority l.column)
  { l with
    cursor := l.cursor + 1
    lists := l.lists.enter (.inside bracket .flat)
    pending := c :: l.pending
    descending := ⟨Nat.lt_succ_self _, l.descending⟩ }

end Layout

end LineLayout
