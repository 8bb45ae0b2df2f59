import LineLayout.Proofs.Choice
import LineLayout.Proofs.History

/-!
# The wording does not matter

What is done with a run is decided by the width that it declares, not by what it says. Two streams
that differ in the wording of their runs only (`Token.outline`) are laid out in step: beside each
layout of the one stands a layout of the other that is `Alike`, though their outputs have different
sizes and are cut back to different places. `Alike.step` says so of a token and `Alike.run` of a
stream.
-/

namespace LineLayout

/-- A token without its wording. -/
def Token.outline : Token → Token
  | .text run => .text ⟨"", run.width⟩
  | .mark m => .mark m

/-- Whether the token is a run. -/
def Token.isText : Token → Bool
  | .text _ => true
  | .mark _ => false

/-- Without their wording, two runs are of the same width and two marks are the same. -/
theorem Token.outline_cases {token other : Token} (same : token.outline = other.outline) :
    (∃ run words, token = .text run ∧ other = .text ⟨words, run.width⟩) ∨
      ∃ m, token = .mark m ∧ other = .mark m := by
  rcases token with run | m <;> rcases other with run' | m'
  · have width : run.width = run'.width := congrArg Token.width same
    exact Or.inl ⟨run, run'.text, rfl, by rw [width]⟩
  · cases same
  · cases same
  · cases same
    exact Or.inr ⟨m, rfl, rfl⟩

/-- Beside each token of a stream stands one of the other stream with the same outline. -/
theorem exists_outline {tokens others : List Token}
    (same : tokens.map Token.outline = others.map Token.outline) {index : Nat} {token : Token}
    (read : tokens[index]? = some token) :
    ∃ other, others[index]? = some other ∧ token.outline = other.outline := by
  have outlines : others[index]?.map Token.outline = some token.outline := by
    rw [← List.getElem?_map, ← same, List.getElem?_map, read, Option.map_some]
  obtain ⟨other, read', outline⟩ := Option.map_eq_some_iff.1 outlines
  exact ⟨other, read', outline.symm⟩

/-! ## Candidates without sizes -/

/-- A candidate without the size that the output had. -/
def Candidate.outline (c : Candidate) : Candidate :=
  { c with before := { c.before with size := 0 } }

/-- A choice without the sizes that the output had. -/
def Choice.outline (choice : Choice) : Choice :=
  ⟨choice.candidate.outline, choice.older.map Candidate.outline⟩

theorem Candidate.unseen_outline : Candidate.Unseen fun c _ => c.outline :=
  ⟨fun _ _ => rfl, fun _ _ => rfl⟩

theorem Choice.relabel_outline :
    (fun choice : Choice => choice.relabel fun c _ => c.outline) = Choice.outline := by
  funext choice
  rw [Choice.relabel, Pending.relabel_eq_map]
  rfl

/-- The choice for a line that overflows does not look at sizes. -/
theorem Pending.bestForOverflow?_map_outline (limit : Nat) (pending : Pending) :
    bestForOverflow? limit (pending.map Candidate.outline) =
      (bestForOverflow? limit pending).map Choice.outline := by
  rw [← relabel_eq_map, bestForOverflow?_relabel Candidate.unseen_outline, Choice.relabel_outline]

/-- The choice for a hard break does not look at sizes. -/
theorem Pending.bestAbove?_map_outline (threshold : Priority) (pending : Pending) :
    bestAbove? threshold (pending.map Candidate.outline) =
      (bestAbove? threshold pending).map Choice.outline := by
  rw [← relabel_eq_map, bestAbove?_relabel Candidate.unseen_outline, Choice.relabel_outline]

namespace Layout

/-! ## Layouts that differ in their text only -/

/-- Two layouts that differ in nothing but what is written, and in how much that is. -/
structure Alike (l m : Layout) : Prop where
  column : l.column = m.column
  margin : l.margin = m.margin
  cursor : l.cursor = m.cursor
  lists : l.lists = m.lists
  saved : l.saved = m.saved
  pending : l.pending.map Candidate.outline = m.pending.map Candidate.outline
  journal : l.journal = m.journal

namespace Alike

variable {l m : Layout} {config : Config}

theorem refl (l : Layout) : Alike l l :=
  ⟨rfl, rfl, rfl, rfl, rfl, rfl, rfl⟩

theorem length_pending (alike : Alike l m) : l.pending.length = m.pending.length := by
  simpa using congrArg List.length alike.pending

theorem overriding? (alike : Alike l m) :
    l.overriding?.map Choice.outline = m.overriding?.map Choice.outline := by
  have above (pending : Pending) (threshold : Priority) :
      (pending.bestAbove? threshold).map Choice.outline =
        Pending.bestAbove? threshold (pending.map Candidate.outline) :=
    (Pending.bestAbove?_map_outline threshold pending).symm
  rw [Layout.overriding?, Layout.overriding?, above, above, alike.pending, alike.lists]

/-! ### The parts of a step -/

theorem advance (alike : Alike l m) : Alike l.advance m.advance :=
  { alike with cursor := congrArg (· + 1) alike.cursor }

theorem writeMargin (alike : Alike l m) : Alike l.writeMargin m.writeMargin := by
  rw [writeMargin_eq, writeMargin_eq]
  refine { alike with column := ?_ }
  show (if l.column = 0 then l.margin.width else l.column) = _
  rw [alike.column, alike.margin]

theorem putText (alike : Alike l m) (run : TextRun) (words : String) :
    Alike (l.putText run) (m.putText ⟨words, run.width⟩) :=
  { alike.advance with column := congrArg (addColumns · run.width) alike.column }

theorem startLine (alike : Alike l m) : Alike l.startLine m.startLine := by
  rw [startLine_eq, startLine_eq]
  refine { alike with column := rfl, pending := rfl, journal := ?_ }
  show discarding l.pending.length ++ l.journal = _
  rw [alike.length_pending, alike.journal]

theorem saveMargin (alike : Alike l m) : Alike l.saveMargin m.saveMargin := by
  refine { alike with saved := ?_ }
  show l.saved.push l.margin = m.saved.push m.margin
  rw [alike.saved, alike.margin]

theorem moveIn (alike : Alike l m) (columns : Nat) :
    Alike (l.moveIn columns) (m.moveIn columns) := by
  refine { alike with margin := ?_ }
  show Margin.mk (l.margin.indent + columns) l.margin.continuation = _
  rw [alike.margin]
  rfl

theorem continueBy (alike : Alike l m) (extra : Nat) :
    Alike (l.continueBy extra) (m.continueBy extra) := by
  refine { alike with margin := ?_ }
  show Margin.mk l.margin.indent (l.saved.last.continuation + extra) = _
  rw [alike.margin, alike.saved]
  rfl

theorem commitLine (alike : Alike l m) : Alike l.commitLine m.commitLine := by
  have continued := alike.continueBy 0
  refine startLine { continued with journal := ?_ }
  show Event.committed (l.cursor + 1) l.margin.indent :: l.journal = _
  rw [alike.cursor, alike.margin, alike.journal]
  rfl

theorem candidate (alike : Alike l m) (kind : BreakKind) :
    (l.candidate kind).outline = (m.candidate kind).outline := by
  cases kind <;>
    simp [Layout.candidate, Candidate.ofKind, Candidate.outline, snapshot, alike.cursor,
      alike.column, alike.margin, alike.saved, alike.lists]

theorem offer (alike : Alike l m) (kind : BreakKind) : Alike (l.offer kind) (m.offer kind) := by
  have pending : (l.offer kind).pending.map Candidate.outline =
      (m.offer kind).pending.map Candidate.outline := by
    rw [pending_offer, pending_offer, List.map_cons, List.map_cons, alike.candidate,
      alike.pending]
  have next : l.cursor + 1 = m.cursor + 1 := congrArg (· + 1) alike.cursor
  cases kind with
  | soft | separator =>
    refine { alike with cursor := next, pending := pending, journal := ?_ }
    simp [Layout.offer, record, note, alike.lists, alike.column, alike.journal, Candidate.ofKind]
  | opener bracket =>
    refine { alike with cursor := next, pending := pending, lists := ?_, journal := ?_ }
    · simp [Layout.offer, openList, note, alike.lists]
    · simp [Layout.offer, openList, note, alike.lists, alike.column, alike.journal,
        Candidate.ofKind]

theorem writeOpening (alike : Alike l m) (bracket : Bracket) :
    Alike (l.writeOpening (.inside bracket .broken))
      (m.writeOpening (.inside bracket .broken)) := by
  rw [writeOpening_eq, writeOpening_eq]
  split
  · exact { alike.writeMargin with }
  · exact alike

theorem breakLine (alike : Alike l m) (config : Config) (kind : BreakKind) :
    Alike (l.breakLine config kind) (m.breakLine config kind) := by
  cases kind with
  | soft => exact alike.startLine.continueBy _
  | separator => exact alike.startLine.continueBy _
  | opener bracket =>
    have moved := (alike.writeOpening bracket).startLine.saveMargin.moveIn config.wrapIndent
    exact { moved with lists := congrArg (OpenLists.enter · _) moved.lists }

theorem note (alike : Alike l m) (event : Event) : Alike (l.note event) (m.note event) :=
  { alike with journal := congrArg (event :: ·) alike.journal }

theorem noteDiscarded (alike : Alike l m) (count : Nat) :
    Alike (l.noteDiscarded count) (m.noteDiscarded count) := by
  rw [noteDiscarded_eq, noteDiscarded_eq]
  exact { alike with journal := congrArg (discarding count ++ ·) alike.journal }

/-- Going back cuts the outputs at sizes of their own, and else does the same to both. -/
theorem restore (alike : Alike l m) {c c' : Candidate} (same : c.outline = c'.outline) :
    Alike (l.restore c.before) (m.restore c'.before) where
  column := congrArg (·.before.column) same
  margin := congrArg (·.before.margin) same
  cursor := congrArg (·.before.index + 1) same
  lists := by
    have marks : c.before.lists = c'.before.lists := congrArg (·.before.lists) same
    show l.lists.rewind c.before.lists = m.lists.rewind c'.before.lists
    rw [alike.lists, marks]
  saved := by
    have marks : c.before.saved = c'.before.saved := congrArg (·.before.saved) same
    show l.saved.rewind c.before.saved = m.saved.rewind c'.before.saved
    rw [alike.saved, marks]
  pending := rfl
  journal := alike.journal

theorem breakAt (alike : Alike l m) (config : Config) {choice choice' : Choice}
    (same : choice.outline = choice'.outline) :
    Alike (l.breakAt config choice) (m.breakAt config choice') := by
  have candidates : choice.candidate.outline = choice'.candidate.outline :=
    congrArg Choice.candidate same
  have kinds : choice.candidate.kind = choice'.candidate.kind :=
    (congrArg Candidate.kind candidates :)
  have priorities : choice.candidate.priority = choice'.candidate.priority :=
    (congrArg Candidate.priority candidates :)
  have indices : choice.candidate.index = choice'.candidate.index :=
    (congrArg Candidate.index candidates :)
  have counts : choice.older.length = choice'.older.length := by
    simpa [Choice.outline] using congrArg (·.older.length) same
  unfold Layout.breakAt
  dsimp only
  rw [kinds, priorities, indices, counts, alike.cursor]
  exact (((alike.note _).restore candidates).noteDiscarded _).breakLine config _

end Alike

end Layout

/-! ## Steps in step -/

/-- Two outcomes that differ in what is written only. -/
inductive Outcome.Alike : Outcome → Outcome → Prop
  | done {l m : Layout} (alike : l.Alike m) : Alike (.done l) (.done m)
  | rejected {l m : Layout} {fault fault' : Fault} (same : fault = fault') (alike : l.Alike m) :
      Alike (.rejected fault l) (.rejected fault' m)

namespace Layout.Alike

variable {l m : Layout}

/-- If both layouts look for a choice that they find alike, both find one or neither does. -/
theorem choice_cases {found found' : Option Choice}
    (same : found.map Choice.outline = found'.map Choice.outline) :
    (found = none ∧ found' = none) ∨
      ∃ choice choice', found = some choice ∧ found' = some choice' ∧
        choice.outline = choice'.outline := by
  cases found with
  | none => exact Or.inl ⟨rfl, by simpa using same.symm⟩
  | some choice =>
    cases found' with
    | none => cases same
    | some choice' => exact Or.inr ⟨choice, choice', rfl, rfl, by simpa using same⟩

theorem text (alike : Alike l m) (config : Config) (run : TextRun) (words : String) :
    Alike (l.text config run) (m.text config ⟨words, run.width⟩) := by
  have margin := alike.writeMargin
  have found : (l.writeMargin.pending.bestForOverflow? config.widthLimit).map Choice.outline =
      (m.writeMargin.pending.bestForOverflow? config.widthLimit).map Choice.outline := by
    rw [← Pending.bestForOverflow?_map_outline, margin.pending,
      Pending.bestForOverflow?_map_outline]
  have exceeds : config.exceeds l.writeMargin.column run.width =
      config.exceeds m.writeMargin.column run.width := by rw [margin.column]
  unfold Layout.text
  dsimp only
  rw [exceeds]
  by_cases past : config.exceeds m.writeMargin.column run.width = true
  · rw [if_pos past, if_pos past]
    rcases choice_cases found with ⟨none, none'⟩ | ⟨choice, choice', some, some', same⟩
    · rw [none, none']
      exact margin.putText run words
    · rw [some, some']
      exact margin.breakAt config same
  · rw [if_neg past, if_neg past]
    exact margin.putText run words

theorem hardBreak (alike : Alike l m) (config : Config) :
    Alike (l.hardBreak config) (m.hardBreak config) := by
  unfold Layout.hardBreak
  rcases choice_cases alike.overriding? with ⟨none, none'⟩ | ⟨choice, choice', some, some', same⟩
  · rw [none, none']
    exact alike.commitLine.advance
  · rw [some, some']
    exact alike.breakAt config same

theorem indent (alike : Alike l m) (config : Config) :
    Alike (l.indent config) (m.indent config) := by
  have saved := alike.saveMargin
  unfold Layout.indent
  dsimp only
  rcases choice_cases saved.overriding? with ⟨none, none'⟩ | ⟨choice, choice', some, some', same⟩
  · rw [none, none']
    exact (saved.commitLine.moveIn config.indentUnit).advance
  · rw [some, some']
    exact saved.breakAt config same

theorem takeBackMargin (alike : Alike l m) : l.takeBackMargin.Alike m.takeBackMargin := by
  unfold Layout.takeBackMargin
  rw [alike.saved]
  cases m.saved.pop? with
  | some entry => exact .done (advance { alike with margin := rfl, saved := rfl })
  | none => exact .rejected (congrArg Fault.unindented alike.cursor) alike

theorem dedent (alike : Alike l m) (config : Config) :
    (l.dedent config).Alike (m.dedent config) := by
  unfold Layout.dedent
  rw [alike.saved]
  split
  · exact .rejected (congrArg Fault.unindented alike.cursor) alike
  rcases choice_cases alike.overriding? with ⟨none, none'⟩ | ⟨choice, choice', some, some', same⟩
  · rw [none, none']
    exact alike.commitLine.takeBackMargin
  · rw [some, some']
    exact .done (alike.breakAt config same)

theorem writeClosing (alike : Alike l m) (bracket : Bracket) (shape : Shape) :
    Alike (l.writeClosing (.inside bracket shape)) (m.writeClosing (.inside bracket shape)) := by
  rw [writeClosing_eq, writeClosing_eq]
  split
  · exact { alike.writeMargin with column := congrArg (· + 1) alike.writeMargin.column }
  · exact alike

theorem closeList (alike : Alike l m) (bracket : Bracket) :
    (l.closeList bracket).Alike (m.closeList bracket) := by
  rcases OpenLists.leave?_cases m.lists with bottom | ⟨opened, shape, rest, left⟩
  · rw [closeList_of_bottom (alike.lists ▸ bottom), closeList_of_bottom bottom]
    exact .rejected (congrArg (Fault.unopened · bracket) alike.cursor) alike
  · rw [closeList_of_leave? (alike.lists ▸ left), closeList_of_leave? left]
    have inner : Alike { l with lists := rest } { m with lists := rest } :=
      { alike with lists := rfl }
    have closed := inner.writeClosing opened shape
    split
    · dsimp only
      split
      · exact closed.takeBackMargin
      · exact .done closed.advance
    · exact .rejected (congrArg (Fault.mismatched · opened bracket) alike.cursor) alike

/-- Tokens that differ in their wording only lead from layouts that are alike to such layouts. -/
theorem step (alike : Alike l m) (config : Config) {token other : Token}
    (same : token.outline = other.outline) :
    (l.step config token).Alike (m.step config other) := by
  rcases Token.outline_cases same with ⟨run, words, rfl, rfl⟩ | ⟨mark, rfl, rfl⟩
  · exact .done (alike.text config run words)
  cases mark with
  | hardBreak => exact .done (alike.hardBreak config)
  | softBreak => exact .done (alike.offer .soft)
  | separator => exact .done (alike.offer .separator)
  | indent => exact .done (alike.indent config)
  | dedent => exact alike.dedent config
  | opener bracket => exact .done (alike.offer (.opener bracket))
  | closer bracket => exact alike.closeList bracket

theorem run (alike : Alike l m) (config : Config) {tokens others : Array Token}
    (same : tokens.toList.map Token.outline = others.toList.map Token.outline) :
    (l.run config tokens).Alike (m.run config others) := by
  have reads {l m : Layout} (alike : Alike l m) {token : Token}
      (read : tokens[l.cursor]? = some token) :
      ∃ other, others[m.cursor]? = some other ∧ token.outline = other.outline := by
    rw [alike.cursor, ← Array.getElem?_toList] at read
    rw [← Array.getElem?_toList]
    exact exists_outline same read
  fun_induction Layout.run l config tokens generalizing m with
  | case1 l read =>
    have sizes : tokens.size = others.size := by simpa using congrArg List.length same
    have read' : others[m.cursor]? = none := by
      rw [Array.getElem?_eq_none_iff] at read ⊢
      rwa [← sizes, ← alike.cursor]
    rw [run_of_end read']
    exact .done alike
  | case2 l token read next taken ih =>
    obtain ⟨other, read', outline⟩ := reads alike read
    have stepped := alike.step config outline
    rw [taken] at stepped
    generalize taken' : m.step config other = outcome at stepped
    cases stepped with
    | done alike =>
      rw [run_of_done read' taken']
      exact ih alike
  | case3 l token read fault left taken =>
    obtain ⟨other, read', outline⟩ := reads alike read
    have stepped := alike.step config outline
    rw [taken] at stepped
    generalize taken' : m.step config other = outcome at stepped
    cases stepped with
    | rejected same alike =>
      rw [run_of_rejected read' taken']
      exact .rejected same alike

end Layout.Alike

end LineLayout
