import LineLayout.Proofs.Steps

/-!
# Going back is exact

A snapshot holds no text and no stack: it holds the size of the output and the positions in the two
trails. It leads back to the layout it was taken of as long as nothing below those marks has
changed. `Keeps` says that, every way forward preserves it, and `breakAt_eq` draws the conclusion:
breaking the line at a candidate of a layout that is kept is the same as breaking the line there
and then.
-/

namespace LineLayout

namespace Trail

variable {α : Type} {later trail past : Trail α}

/-- A later trail still has every entry of a past one. -/
def Keeps (later past : Trail α) : Prop :=
  ∃ entries, later.entries = past.entries ++ entries

theorem Keeps.refl (trail : Trail α) : trail.Keeps trail :=
  ⟨#[], by simp⟩

theorem Keeps.trans (first : later.Keeps trail) (second : trail.Keeps past) : later.Keeps past := by
  obtain ⟨newer, h⟩ := first
  obtain ⟨older, h'⟩ := second
  exact ⟨older ++ newer, by rw [h, h', Array.append_assoc]⟩

theorem keeps_push (trail : Trail α) (value : α) : (trail.push value).Keeps trail :=
  ⟨#[⟨value, trail.top⟩], by simp [push]⟩

/-- Popping leaves the entry behind. -/
theorem keeps_of_pop? {value : α} {rest : Trail α} (popped : trail.pop? = some (value, rest)) :
    rest.Keeps trail := by
  obtain ⟨entry, _, same⟩ := Option.map_eq_some_iff.1 popped
  cases same
  exact Keeps.refl _

theorem Keeps.rewind (keeps : later.Keeps past) : later.rewind past.bookmark = past := by
  obtain ⟨entries, h⟩ := keeps
  refine rewind_bookmark ?_
  rw [h]
  simp

end Trail

theorem OpenLists.pop?_of_leave? {lists rest : OpenLists} {state : ListState}
    (left : lists.leave? = some (state, rest)) :
    ∃ depth, lists.pop? = some (⟨state, depth⟩, rest) := by
  unfold leave? at left
  split at left
  · rename_i bracket shape depth below popped
    cases left
    exact ⟨depth, popped⟩
  · cases left

namespace Layout

variable {later l past next : Layout} {config : Config} {token : Token}

/-- Nothing that the past layout held is lost: the output and both trails only grew. -/
structure Keeps (later past : Layout) : Prop where
  output : ∃ text, later.output = past.output.write text
  lists : later.lists.Keeps past.lists
  saved : later.saved.Keeps past.saved

theorem Keeps.refl (l : Layout) : l.Keeps l :=
  ⟨⟨"", by simp [Output.write]⟩, .refl _, .refl _⟩

theorem Keeps.trans (first : later.Keeps l) (second : l.Keeps past) : later.Keeps past where
  output := by
    obtain ⟨newer, h⟩ := first.output
    obtain ⟨older, h'⟩ := second.output
    exact ⟨older ++ newer, by rw [h, h', Output.write_write]⟩
  lists := first.lists.trans second.lists
  saved := first.saved.trans second.saved

/-! ## The parts of a step -/

theorem keeps_writeMargin (l : Layout) : l.writeMargin.Keeps l := by
  rw [writeMargin_eq]
  exact ⟨⟨_, rfl⟩, .refl _, .refl _⟩

theorem keeps_commitLine (l : Layout) : l.commitLine.Keeps l := by
  rw [commitLine_eq]
  exact ⟨⟨_, rfl⟩, .refl _, .refl _⟩

theorem keeps_saveMargin (l : Layout) : l.saveMargin.Keeps l :=
  ⟨⟨"", by simp [Output.write, saveMargin]⟩, .refl _, Trail.keeps_push _ _⟩

theorem keeps_writeClosing (l : Layout) (bracket : Bracket) (shape : Shape) :
    (l.writeClosing (.inside bracket shape)).Keeps l := by
  rw [writeClosing_eq]
  split
  · refine Keeps.trans ?_ (keeps_writeMargin l)
    exact ⟨⟨_, rfl⟩, .refl _, .refl _⟩
  · exact .refl l

theorem keeps_offer (l : Layout) (kind : BreakKind) : (l.offer kind).Keeps l := by
  have same : ∃ text, l.output = l.output.write text := ⟨"", by simp [Output.write]⟩
  cases kind with
  | soft => exact ⟨same, .refl _, .refl _⟩
  | separator => exact ⟨same, .refl _, .refl _⟩
  | opener bracket => exact ⟨same, Trail.keeps_push _ _, .refl _⟩

theorem sound_offer (sound : l.Sound) (kind : BreakKind) : (l.offer kind).Sound := by
  cases kind with
  | soft => exact ⟨sound.lists, sound.saved⟩
  | separator => exact ⟨sound.lists, sound.saved⟩
  | opener bracket => exact ⟨sound.lists.push _, sound.saved⟩

/-! ## The ways forward -/

theorem Forward.keeps (forward : Forward l config token next) : next.Keeps l := by
  cases forward with
  | text fits =>
    refine Keeps.trans ?_ (keeps_writeMargin l)
    exact ⟨⟨_, rfl⟩, .refl _, .refl _⟩
  | hardBreak _ =>
    have committed := keeps_commitLine l
    exact ⟨committed.output, committed.lists, committed.saved⟩
  | indent _ =>
    have committed := keeps_commitLine l.saveMargin
    exact Keeps.trans ⟨committed.output, committed.lists, committed.saved⟩ (keeps_saveMargin l)
  | dedent _ popped =>
    have committed := keeps_commitLine l
    exact ⟨committed.output, committed.lists, Trail.keeps_of_pop? popped⟩
  | offer kind _ => exact keeps_offer l kind
  | closeFlat left =>
    obtain ⟨depth, popped⟩ := OpenLists.pop?_of_leave? left
    exact ⟨(Keeps.refl l).output, Trail.keeps_of_pop? popped, .refl _⟩
  | @closeBroken bracket rest _ _ left popped =>
    obtain ⟨depth, opened⟩ := OpenLists.pop?_of_leave? left
    have closing := keeps_writeClosing { l with lists := rest } bracket .broken
    exact ⟨closing.output, closing.lists.trans (Trail.keeps_of_pop? opened),
      Trail.keeps_of_pop? popped⟩

theorem sound_writeClosing (sound : l.Sound) (bracket : Bracket) (shape : Shape) :
    (l.writeClosing (.inside bracket shape)).Sound := by
  rw [writeClosing_eq]
  split
  · rw [writeMargin_eq]
    exact ⟨sound.lists, sound.saved⟩
  · exact sound

theorem Forward.sound (forward : Forward l config token next) (sound : l.Sound) : next.Sound := by
  cases forward with
  | text fits =>
    rw [writeMargin_eq]
    exact ⟨sound.lists, sound.saved⟩
  | hardBreak _ =>
    rw [commitLine_eq]
    exact ⟨sound.lists, sound.saved⟩
  | indent _ =>
    rw [commitLine_eq]
    exact ⟨sound.lists, sound.saved.push _⟩
  | dedent _ popped =>
    rw [commitLine_eq]
    exact ⟨sound.lists, sound.saved.of_pop? popped⟩
  | offer kind _ => exact sound_offer sound kind
  | closeFlat left =>
    obtain ⟨depth, popped⟩ := OpenLists.pop?_of_leave? left
    exact ⟨sound.lists.of_pop? popped, sound.saved⟩
  | @closeBroken bracket rest _ _ left popped =>
    obtain ⟨depth, opened⟩ := OpenLists.pop?_of_leave? left
    have inner : Sound { l with lists := rest } := ⟨sound.lists.of_pop? opened, sound.saved⟩
    exact ⟨(sound_writeClosing inner bracket .broken).lists, sound.saved.of_pop? popped⟩

/-! ## Breaking the line at a candidate -/

/-- A past layout that goes on behind its token, with nothing pending and another journal. -/
def resume (past : Layout) (journal : List Event) : Layout :=
  { past with
    cursor := past.cursor + 1
    pending := []
    journal := journal
    descending := trivial }

theorem restore_snapshot (keeps : later.Keeps past) :
    later.restore past.snapshot = past.resume later.journal := by
  obtain ⟨text, output⟩ := keeps.output
  have written : later.output.truncate past.output.size = past.output := by
    rw [output, Output.truncate_write]
  simp only [restore, snapshot, resume, written, keeps.lists.rewind, keeps.saved.rewind]

/-- Breaking at a candidate of a kept layout breaks the line in that layout. -/
theorem breakAt_eq (keeps : later.Keeps past) {choice : Choice}
    (before : choice.candidate.before = past.snapshot) :
    ∃ journal, later.breakAt config choice =
        (past.resume journal).breakLine config choice.candidate.kind ∧
      journal.filterMap Event.broken? = past.cursor :: later.fired := by
  have index : choice.candidate.index = past.cursor := by rw [Candidate.index, before]; rfl
  refine ⟨discarding choice.older.length ++
    .rewound choice.candidate.kind choice.candidate.priority (later.cursor + 1)
      (past.cursor + 1) :: later.journal, ?_, ?_⟩
  · have kept : Keeps (later.note (.rewound choice.candidate.kind choice.candidate.priority
        (later.cursor + 1) (past.cursor + 1))) past := ⟨keeps.output, keeps.lists, keeps.saved⟩
    unfold breakAt
    dsimp only
    rw [index, before, restore_snapshot kept, noteDiscarded_eq]
    rfl
  · rw [List.filterMap_append, filterMap_discarding]
    rfl

end Layout

end LineLayout
