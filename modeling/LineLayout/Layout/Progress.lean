import LineLayout.Layout.Step

/-!
# Every step makes progress

Laying out tokens goes back again and again, and still comes to an end. `step_progress` is why: a
step either goes forward and loses no ground, or it goes back to a candidate and moves the horizon
past the token that left it. So the steps that are left, as `remaining` bounds them, grow fewer.
-/

namespace LineLayout.Layout

/-! ## What the parts of a step do to the cursor and to the pending candidates -/

@[simp]
theorem cursor_writeMargin (l : Layout) : l.writeMargin.cursor = l.cursor := by
  unfold writeMargin; split <;> rfl

@[simp]
theorem pending_writeMargin (l : Layout) : l.writeMargin.pending = l.pending := by
  unfold writeMargin; split <;> rfl

@[simp]
theorem cursor_noteDiscarded (l : Layout) (count : Nat) :
    (l.noteDiscarded count).cursor = l.cursor := by
  unfold noteDiscarded; split <;> rfl

@[simp]
theorem cursor_startLine (l : Layout) : l.startLine.cursor = l.cursor := by
  simp [startLine]

@[simp]
theorem pending_startLine (l : Layout) : l.startLine.pending = [] := rfl

@[simp]
theorem cursor_writeOpening (l : Layout) (state : ListState) :
    (l.writeOpening state).cursor = l.cursor := by
  unfold writeOpening; split <;> simp

@[simp]
theorem cursor_writeClosing (l : Layout) (state : ListState) :
    (l.writeClosing state).cursor = l.cursor := by
  unfold writeClosing; split <;> simp

@[simp]
theorem pending_writeClosing (l : Layout) (state : ListState) :
    (l.writeClosing state).pending = l.pending := by
  unfold writeClosing; split <;> simp

@[simp]
theorem cursor_breakLine (l : Layout) (config : Config) (kind : BreakKind) :
    (l.breakLine config kind).cursor = l.cursor := by
  cases kind <;> simp [breakLine, continueBy, wrapList, moveIn, saveMargin]

@[simp]
theorem pending_breakLine (l : Layout) (config : Config) (kind : BreakKind) :
    (l.breakLine config kind).pending = [] := by
  cases kind <;> rfl

@[simp]
theorem cursor_breakAt (l : Layout) (config : Config) (choice : Choice) :
    (l.breakAt config choice).cursor = choice.candidate.index + 1 := by
  simp [breakAt, restore, Candidate.index]

@[simp]
theorem pending_breakAt (l : Layout) (config : Config) (choice : Choice) :
    (l.breakAt config choice).pending = [] := by
  simp [breakAt]

@[simp]
theorem cursor_commitLine (l : Layout) : l.commitLine.cursor = l.cursor := by
  simp [commitLine, continueBy, note]

@[simp]
theorem pending_commitLine (l : Layout) : l.commitLine.pending = [] := rfl

/-! ## Progress -/

/-- Either a step forward that loses no ground, or a new horizon. -/
def Progress (l next : Layout) : Prop :=
  (next.cursor = l.cursor + 1 ∧ l.horizon ≤ next.horizon) ∨ l.horizon < next.horizon

theorem horizon_le_cursor (l : Layout) : l.horizon ≤ l.cursor :=
  Pending.horizon_le l.descending

/-- Going forward with the same candidates, fewer, or one more keeps the ground. -/
theorem Progress.forward {l next : Layout} (cursor : next.cursor = l.cursor + 1)
    (pending : next.pending = l.pending ∨ next.pending = [] ∨
      ∃ c : Candidate, c.index = l.cursor ∧ next.pending = c :: l.pending) :
    Progress l next := by
  refine Or.inl ⟨cursor, ?_⟩
  unfold horizon
  rcases pending with same | none | ⟨c, index, more⟩
  · rw [same, cursor]
    exact Pending.horizon_mono (Nat.le_succ _)
  · rw [none, cursor]
    exact Nat.le_succ_of_le l.horizon_le_cursor
  · exact Nat.le_of_eq (by rw [more, Pending.horizon, index])

/-- Going back to a pending candidate moves the horizon past it. -/
theorem Progress.back {l : Layout} (config : Config) {choice : Choice}
    (member : choice.candidate ∈ l.pending) : Progress l (l.breakAt config choice) := by
  refine Or.inr ?_
  simp only [horizon, pending_breakAt, cursor_breakAt, Pending.horizon]
  exact Nat.lt_succ_of_le (Pending.horizon_le_index l.descending member)

theorem Progress.of_eq {l m next : Layout} (cursor : m.cursor = l.cursor)
    (pending : m.pending = l.pending) (progress : Progress m next) : Progress l next := by
  simpa [Progress, horizon, cursor, pending] using progress

theorem Progress.horizon_le {l next : Layout} (progress : Progress l next) :
    l.horizon ≤ next.horizon := by
  rcases progress with ⟨-, ground⟩ | ground
  · exact ground
  · exact Nat.le_of_lt ground

theorem text_progress (l : Layout) (config : Config) (run : TextRun) :
    Progress l (l.text config run) := by
  refine Progress.of_eq (cursor_writeMargin l) (pending_writeMargin l) ?_
  unfold text
  dsimp only
  split
  · rename_i choice chosen
    split at chosen
    · exact Progress.back config (Pending.mem_of_bestForOverflow? chosen)
    · cases chosen
  · exact Progress.forward rfl (Or.inl rfl)

theorem hardBreak_progress (l : Layout) (config : Config) : Progress l (l.hardBreak config) := by
  unfold hardBreak
  split
  · rename_i choice chosen
    exact Progress.back config (Pending.mem_of_bestAbove? chosen)
  · exact Progress.forward (by simp [advance]) (Or.inr (Or.inl rfl))

theorem indent_progress (l : Layout) (config : Config) : Progress l (l.indent config) := by
  refine Progress.of_eq (m := l.saveMargin) rfl rfl ?_
  unfold indent
  dsimp only
  split
  · rename_i choice chosen
    exact Progress.back config (Pending.mem_of_bestAbove? chosen)
  · exact Progress.forward (by simp [advance, moveIn]) (Or.inr (Or.inl rfl))

theorem takeBackMargin_progress {l next : Layout} (taken : l.takeBackMargin = .done next) :
    next.cursor = l.cursor + 1 ∧ next.pending = l.pending := by
  unfold takeBackMargin at taken
  split at taken <;> cases taken
  exact ⟨rfl, rfl⟩

theorem dedent_progress {l next : Layout} {config : Config}
    (done : l.dedent config = .done next) : Progress l next := by
  unfold dedent at done
  split at done
  · cases done
  split at done
  · rename_i choice chosen
    cases done
    exact Progress.back config (Pending.mem_of_bestAbove? chosen)
  · obtain ⟨cursor, pending⟩ := takeBackMargin_progress done
    exact Progress.forward (by simpa using cursor) (Or.inr (Or.inl pending))

theorem closeList_progress {l next : Layout} {bracket : Bracket}
    (done : l.closeList bracket = .done next) : Progress l next := by
  rcases OpenLists.leave?_cases l.lists with bottom | ⟨opened, shape, rest, inner⟩
  · rw [closeList_of_bottom bottom] at done
    cases done
  · rw [closeList_of_leave? inner] at done
    dsimp only at done
    split at done
    · split at done
      · obtain ⟨cursor, pending⟩ := takeBackMargin_progress done
        exact Progress.forward (by simpa using cursor) (Or.inl (by simpa using pending))
      · cases done
        exact Progress.forward (by simp [advance]) (Or.inl (by simp [advance]))
    · cases done

theorem step_progress {l next : Layout} {config : Config} {token : Token}
    (done : l.step config token = .done next) : Progress l next := by
  rcases token with run | mark
  · cases done
    exact text_progress l config run
  cases mark with
  | hardBreak => cases done; exact hardBreak_progress l config
  | softBreak => cases done; exact Progress.forward rfl (Or.inr (Or.inr ⟨_, rfl, rfl⟩))
  | separator => cases done; exact Progress.forward rfl (Or.inr (Or.inr ⟨_, rfl, rfl⟩))
  | indent => cases done; exact indent_progress l config
  | dedent => exact dedent_progress done
  | opener bracket => cases done; exact Progress.forward rfl (Or.inr (Or.inr ⟨_, rfl, rfl⟩))
  | closer bracket => exact closeList_progress done

/-- A bound on the steps of a run to the end of `length` tokens. Each new horizon is further on, and
between two of them each token is read at most once. -/
def remaining (l : Layout) (length : Nat) : Nat :=
  (length - l.horizon) * (length + 1) + (length - l.cursor)

theorem remaining_lt {l next : Layout} {length : Nat} (inside : l.cursor < length)
    (progress : Progress l next) : next.remaining length < l.remaining length := by
  have behind := l.horizon_le_cursor
  unfold remaining
  rcases progress with ⟨cursor, ground⟩ | ground
  · have rounds : (length - next.horizon) * (length + 1) ≤ (length - l.horizon) * (length + 1) :=
      Nat.mul_le_mul_right _ (by omega)
    omega
  · have rounds : (length - next.horizon + 1) * (length + 1) ≤
        (length - l.horizon) * (length + 1) := Nat.mul_le_mul_right _ (by omega)
    rw [Nat.add_mul] at rounds
    omega

end LineLayout.Layout
