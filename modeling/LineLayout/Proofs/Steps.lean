import LineLayout.Engine

/-!
# What a step does

A step either goes forward past the token at the cursor, or it goes back to a pending candidate.
`Forward` and `Back` list the ways, one for each kind of token, with the guard under which the step
takes it, and `step_cases` says that there are no others. Whoever asks what a step changes looks
through these lists and need not open `step`.
-/

namespace LineLayout

/-- The break that a token offers, if it offers one. -/
def Token.breakKind? : Token → Option BreakKind
  | .mark .softBreak => some .soft
  | .mark .separator => some .separator
  | .mark (.opener bracket) => some (.opener bracket)
  | _ => none

/-- Whether a token ends its line by itself. -/
def Token.endsLine : Token → Bool
  | .mark .hardBreak => true
  | .mark .indent => true
  | .mark .dedent => true
  | _ => false

/-- A token that offers a break does not end its line by itself. -/
theorem Token.endsLine_eq_false {token : Token} {kind : BreakKind}
    (breaks : token.breakKind? = some kind) : token.endsLine = false := by
  rcases token with run | mark
  · cases breaks
  · cases mark <;> first | rfl | cases breaks

/-- The token at which the line was broken, if that is what happened. -/
def Event.broken? : Event → Option Nat
  | .rewound _ _ _ resumed => some (resumed - 1)
  | _ => none

/-- Some spaces. -/
def Text.blank (count : Nat) : String :=
  String.ofList (List.replicate count ' ')

theorem Text.blank_zero : Text.blank 0 = "" := rfl

namespace Layout

/-- The tokens at which the line was broken so far, the latest first. -/
def fired (l : Layout) : List Nat :=
  l.journal.filterMap Event.broken?

/-! ## The parts of a step in one form each -/

/-- Writes a run where the line stands and goes on. -/
def putText (l : Layout) (run : TextRun) : Layout :=
  { l with
    output := l.output.write run.text
    column := addColumns l.column run.width }.advance

/-- Leaves a candidate at the current token and goes on. -/
def offer (l : Layout) : BreakKind → Layout
  | .soft => l.record .soft
  | .separator => l.record .separator
  | .opener bracket => l.openList bracket

/-- The events that tell of `count` dropped candidates. -/
def discarding (count : Nat) : List Event :=
  if count = 0 then [] else [.discarded count]

@[simp]
theorem filterMap_discarding (count : Nat) :
    (discarding count).filterMap Event.broken? = [] := by
  unfold discarding
  split <;> rfl

theorem noteDiscarded_eq (l : Layout) (count : Nat) :
    l.noteDiscarded count = { l with journal := discarding count ++ l.journal } := by
  unfold noteDiscarded discarding
  split <;> rfl

theorem writeMargin_eq (l : Layout) :
    l.writeMargin =
      { l with
        output := l.output.write (Text.blank (if l.column = 0 then l.margin.width else 0))
        column := if l.column = 0 then l.margin.width else l.column } := by
  unfold writeMargin
  split
  · rfl
  · simp [Output.write, Text.blank_zero]

theorem startLine_eq (l : Layout) :
    l.startLine =
      { l with
        output := l.output.newline
        column := 0
        pending := []
        journal := discarding l.pending.length ++ l.journal
        descending := trivial } := by
  simp [startLine, noteDiscarded_eq]

theorem commitLine_eq (l : Layout) :
    l.commitLine =
      { l with
        output := l.output.newline
        column := 0
        margin := ⟨l.margin.indent, l.saved.last.continuation⟩
        pending := []
        journal := discarding l.pending.length ++
          .committed (l.cursor + 1) l.margin.indent :: l.journal
        descending := trivial } := by
  simp [commitLine, startLine_eq, continueBy, note]

theorem writeOpening_eq (l : Layout) (bracket : Bracket) :
    l.writeOpening (.inside bracket .broken) =
      if bracket = .paren then
        { l.writeMargin with output := l.writeMargin.output.write "(" }
      else l := by
  cases bracket <;> rfl

theorem writeClosing_eq (l : Layout) (bracket : Bracket) (shape : Shape) :
    l.writeClosing (.inside bracket shape) =
      if bracket = .paren ∧ shape = .broken then
        { l.writeMargin with
          output := l.writeMargin.output.write ")"
          column := l.writeMargin.column + 1 }
      else l := by
  cases bracket <;> cases shape <;> rfl

theorem saved_writeClosing (l : Layout) (bracket : Bracket) (shape : Shape) :
    (l.writeClosing (.inside bracket shape)).saved = l.saved := by
  rw [writeClosing_eq]
  split
  · rw [writeMargin_eq]
  · rfl

theorem lists_writeClosing (l : Layout) (bracket : Bracket) (shape : Shape) :
    (l.writeClosing (.inside bracket shape)).lists = l.lists := by
  rw [writeClosing_eq]
  split
  · rw [writeMargin_eq]
  · rfl

/-! ## Going forward -/

/-- `Forward l config token next`: laying out `token` in front of `l` goes on to `next`. -/
inductive Forward (l : Layout) (config : Config) : Token → Layout → Prop
  /-- A run is written if it fits, or if there is nowhere to break the line. -/
  | text {run : TextRun}
      (fits : config.exceeds l.writeMargin.column run.width = true → l.pending = []) :
      Forward l config (.text run) (l.writeMargin.putText run)
  | hardBreak (unopposed : l.overriding? = none) :
      Forward l config (.mark .hardBreak) l.commitLine.advance
  | indent (unopposed : l.overriding? = none) :
      Forward l config (.mark .indent) (l.saveMargin.commitLine.moveIn config.indentUnit).advance
  | dedent {margin : Margin} {saved : SavedMargins} (unopposed : l.overriding? = none)
      (popped : l.saved.pop? = some (margin, saved)) :
      Forward l config (.mark .dedent)
        { l.commitLine with margin := margin, saved := saved }.advance
  | offer {token : Token} (kind : BreakKind) (breaks : token.breakKind? = some kind) :
      Forward l config token (l.offer kind)
  | closeFlat {bracket : Bracket} {rest : OpenLists}
      (left : l.lists.leave? = some (.inside bracket .flat, rest)) :
      Forward l config (.mark (.closer bracket)) { l with lists := rest }.advance
  | closeBroken {bracket : Bracket} {rest : OpenLists} {margin : Margin} {saved : SavedMargins}
      (left : l.lists.leave? = some (.inside bracket .broken, rest))
      (popped : l.saved.pop? = some (margin, saved)) :
      Forward l config (.mark (.closer bracket))
        { { l with lists := rest }.writeClosing (.inside bracket .broken) with
          margin := margin, saved := saved }.advance

/-! ## Going back -/

/-- `Back l config token choice next`: instead of laying out `token` in front of `l`, the layout
breaks the line at `choice` and goes on with `next`. -/
inductive Back (l : Layout) (config : Config) : Token → Choice → Layout → Prop
  | overflow {run : TextRun} {choice : Choice}
      (exceeds : config.exceeds l.writeMargin.column run.width = true)
      (chosen : l.pending.bestForOverflow? config.widthLimit = some choice) :
      Back l config (.text run) choice (l.writeMargin.breakAt config choice)
  | hardBreak {choice : Choice} (chosen : l.overriding? = some choice) :
      Back l config (.mark .hardBreak) choice (l.breakAt config choice)
  | indent {choice : Choice} (chosen : l.overriding? = some choice) :
      Back l config (.mark .indent) choice (l.saveMargin.breakAt config choice)
  | dedent {choice : Choice} (indented : l.saved.isEmpty = false)
      (chosen : l.overriding? = some choice) :
      Back l config (.mark .dedent) choice (l.breakAt config choice)

theorem Back.mem {l next : Layout} {config : Config} {token : Token} {choice : Choice}
    (back : Back l config token choice next) : choice.candidate ∈ l.pending := by
  cases back with
  | overflow exceeds chosen => exact Pending.mem_of_bestForOverflow? chosen
  | hardBreak chosen => exact Pending.mem_of_bestAbove? chosen
  | indent chosen => exact Pending.mem_of_bestAbove? chosen
  | dedent indented chosen => exact Pending.mem_of_bestAbove? chosen

/-! ## Refusing a token -/

/-- Both trails are well-founded stacks. -/
structure Sound (l : Layout) : Prop where
  lists : l.lists.Sound
  saved : l.saved.Sound

/-- `Refused l token fault left`: the token in front of `l` does not fit the nesting. A bracket that
closes is taken off before its margin is missed. -/
inductive Refused (l : Layout) : Token → Fault → Layout → Prop
  | dedent (bottom : l.saved.pop? = none) : Refused l (.mark .dedent) (.unindented l.cursor) l
  | unopened {bracket : Bracket} (bottom : l.lists.leave? = none) :
      Refused l (.mark (.closer bracket)) (.unopened l.cursor bracket) l
  | mismatched {opened bracket : Bracket} {shape : Shape} {rest : OpenLists}
      (left : l.lists.leave? = some (.inside opened shape, rest)) (other : opened ≠ bracket) :
      Refused l (.mark (.closer bracket)) (.mismatched l.cursor opened bracket) l
  | unsaved {bracket : Bracket} {rest : OpenLists}
      (left : l.lists.leave? = some (.inside bracket .broken, rest))
      (bottom : l.saved.pop? = none) :
      Refused l (.mark (.closer bracket)) (.unindented l.cursor)
        ({ l with lists := rest }.writeClosing (.inside bracket .broken))

/-! ## There is no other way -/

section Cases

variable {l next left : Layout} {config : Config} {fault : Fault}

theorem takeBackMargin_done (taken : l.takeBackMargin = .done next) :
    ∃ margin saved, l.saved.pop? = some (margin, saved) ∧
      next = { l with margin := margin, saved := saved }.advance := by
  unfold takeBackMargin at taken
  split at taken
  · rename_i margin saved popped
    cases taken
    exact ⟨margin, saved, popped, rfl⟩
  · cases taken

theorem text_cases (run : TextRun) :
    Forward l config (.text run) (l.text config run) ∨
      ∃ choice, Back l config (.text run) choice (l.text config run) := by
  unfold text
  dsimp only
  by_cases exceeds : config.exceeds l.writeMargin.column run.width = true
  · rw [if_pos exceeds]
    cases chosen : l.writeMargin.pending.bestForOverflow? config.widthLimit with
    | some choice =>
      rw [pending_writeMargin] at chosen
      exact Or.inr ⟨choice, .overflow exceeds chosen⟩
    | none =>
      rw [pending_writeMargin] at chosen
      exact Or.inl (.text fun _ => Pending.bestForOverflow?_eq_none_iff.1 chosen)
  · rw [if_neg exceeds]
    exact Or.inl (.text fun h => absurd h exceeds)

theorem hardBreak_cases :
    Forward l config (.mark .hardBreak) (l.hardBreak config) ∨
      ∃ choice, Back l config (.mark .hardBreak) choice (l.hardBreak config) := by
  unfold hardBreak
  cases chosen : l.overriding? with
  | some choice => exact Or.inr ⟨choice, .hardBreak chosen⟩
  | none => exact Or.inl (.hardBreak chosen)

theorem indent_cases :
    Forward l config (.mark .indent) (l.indent config) ∨
      ∃ choice, Back l config (.mark .indent) choice (l.indent config) := by
  unfold indent
  dsimp only
  -- saving the margin changes neither the candidates nor the depth
  rw [show l.saveMargin.overriding? = l.overriding? from rfl]
  cases chosen : l.overriding? with
  | some choice => exact Or.inr ⟨choice, .indent chosen⟩
  | none => exact Or.inl (.indent chosen)

theorem dedent_cases (done : l.dedent config = .done next) :
    Forward l config (.mark .dedent) next ∨
      ∃ choice, Back l config (.mark .dedent) choice next := by
  unfold dedent at done
  split at done
  · cases done
  rename_i indented
  cases chosen : l.overriding? with
  | some choice =>
    rw [chosen] at done
    cases done
    exact Or.inr ⟨choice, .dedent (by simpa using indented) chosen⟩
  | none =>
    rw [chosen] at done
    obtain ⟨margin, saved, popped, rfl⟩ := takeBackMargin_done done
    rw [commitLine_eq] at popped
    exact Or.inl (.dedent chosen popped)

theorem closeList_cases {bracket : Bracket} (done : l.closeList bracket = .done next) :
    Forward l config (.mark (.closer bracket)) next := by
  rcases OpenLists.leave?_cases l.lists with bottom | ⟨opened, shape, rest, left⟩
  · rw [closeList_of_bottom bottom] at done
    cases done
  · rw [closeList_of_leave? left] at done
    dsimp only at done
    split at done
    · rename_i same
      subst same
      cases shape with
      | flat =>
        cases opened <;> cases done <;> exact .closeFlat left
      | broken =>
        obtain ⟨margin, saved, popped, rfl⟩ := takeBackMargin_done done
        refine .closeBroken left ?_
        rw [← popped, saved_writeClosing]
    · cases done

/-- A step that gives a layout went forward or went back. -/
theorem step_cases {token : Token} (done : l.step config token = .done next) :
    Forward l config token next ∨ ∃ choice, Back l config token choice next := by
  rcases token with run | mark
  · cases done
    exact text_cases run
  cases mark with
  | hardBreak => cases done; exact hardBreak_cases
  | softBreak => cases done; exact Or.inl (.offer .soft rfl)
  | separator => cases done; exact Or.inl (.offer .separator rfl)
  | indent => cases done; exact indent_cases
  | dedent => exact dedent_cases done
  | opener bracket => cases done; exact Or.inl (.offer (.opener bracket) rfl)
  | closer bracket => exact Or.inl (closeList_cases done)

theorem takeBackMargin_rejected (taken : l.takeBackMargin = .rejected fault left) :
    l.saved.pop? = none ∧ fault = .unindented l.cursor ∧ left = l := by
  unfold takeBackMargin at taken
  split at taken
  · cases taken
  · rename_i bottom
    cases taken
    exact ⟨bottom, rfl, rfl⟩

theorem pop?_eq_none_iff_isEmpty {saved : SavedMargins} (top_le : saved.top ≤ saved.entries.size) :
    saved.pop? = none ↔ saved.isEmpty = true := by
  obtain ⟨entries, top⟩ := saved
  cases top with
  | zero => simp [Trail.pop?, Trail.entry?, SavedMargins.isEmpty]
  | succ index =>
    simp only [Trail.pop?, Trail.entry?, SavedMargins.isEmpty, Option.map_eq_none_iff,
      Array.getElem?_eq_none_iff]
    simp only at top_le
    exact ⟨fun short => by omega, fun empty => by simp at empty⟩

theorem dedent_refused (sound : l.Sound)
    (rejected : l.dedent config = .rejected fault left) :
    Refused l (.mark .dedent) fault left := by
  unfold dedent at rejected
  split at rejected
  · rename_i empty
    cases rejected
    exact .dedent ((pop?_eq_none_iff_isEmpty sound.saved.top_le).2 empty)
  · rename_i filled
    split at rejected
    · cases rejected
    · -- the margin that the first test saw is still there
      obtain ⟨bottom, -, -⟩ := takeBackMargin_rejected rejected
      rw [commitLine_eq] at bottom
      exact absurd ((pop?_eq_none_iff_isEmpty sound.saved.top_le).1 bottom) filled

theorem closeList_refused {bracket : Bracket}
    (rejected : l.closeList bracket = .rejected fault left) :
    Refused l (.mark (.closer bracket)) fault left := by
  rcases OpenLists.leave?_cases l.lists with bottom | ⟨opened, shape, rest, inner⟩
  · rw [closeList_of_bottom bottom] at rejected
    cases rejected
    exact .unopened bottom
  · rw [closeList_of_leave? inner] at rejected
    dsimp only at rejected
    split at rejected
    · rename_i same
      subst same
      cases shape with
      | flat => cases rejected
      | broken =>
        obtain ⟨bottom, rfl, rfl⟩ := takeBackMargin_rejected rejected
        rw [cursor_writeClosing]
        rw [saved_writeClosing] at bottom
        exact .unsaved inner bottom
    · rename_i other
      cases rejected
      exact .mismatched inner other

/-- What is refused under sound trails is one of the faults above. -/
theorem step_refused {token : Token} (sound : l.Sound)
    (rejected : l.step config token = .rejected fault left) : Refused l token fault left := by
  rcases token with run | mark
  · cases rejected
  cases mark with
  | dedent => exact dedent_refused sound rejected
  | closer bracket => exact closeList_refused rejected
  | hardBreak | softBreak | separator | indent | opener => cases rejected

end Cases

end Layout

end LineLayout
