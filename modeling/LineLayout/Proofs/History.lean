import LineLayout.Proofs.Rewind

/-!
# How a layout comes about

`Reached` are the layouts that steps lead to, with all their going back and reading again.
`Straight` are those that come about by reading each token once: at a token that offers a break the
line is broken at once, or the candidate is left and never chosen. `Reached.straight` says that
going back gives nothing new: what is reached has a straight history, in which the line is broken
exactly at the tokens that the journal names.

The rest of the file is what straight histories keep: sound trails, and lines that are broken
further and further on.
-/

namespace LineLayout

namespace Layout

/-! ## Histories -/

section Histories

variable (tokens : List Token) (usable : Config → Prop)

/-- The layouts that steps lead to, each step under some usable settings. -/
inductive Reached : Layout → Prop
  | start : Reached {}
  | step {l next : Layout} {config : Config} {token : Token} (reached : Reached l)
      (allowed : usable config) (read : tokens[l.cursor]? = some token)
      (done : l.step config token = .done next) : Reached next

/-- The layouts that come about without going back. -/
inductive Straight : Layout → Prop
  | start : Straight {}
  | forward {l next : Layout} {config : Config} {token : Token} (straight : Straight l)
      (allowed : usable config) (read : tokens[l.cursor]? = some token)
      (forward : Forward l config token next) : Straight next
  /-- The line is broken at the token. What the journal tells besides does not matter. -/
  | broken {past : Layout} {config : Config} {token : Token} {kind : BreakKind}
      {journal : List Event} (straight : Straight past) (allowed : usable config)
      (read : tokens[past.cursor]? = some token) (breaks : token.breakKind? = some kind)
      (told : journal.filterMap Event.broken? = past.cursor :: past.fired) :
      Straight ((past.resume journal).breakLine config kind)

end Histories

/-! ## What going forward leaves pending -/

section Forward

variable {l next : Layout} {config : Config} {token : Token}

/-- The candidate that a layout leaves at its token. A bracket that opens counts itself. -/
def candidate (l : Layout) : BreakKind → Candidate
  | .opener bracket => .ofKind (.opener bracket) (l.lists.depth + 1) l.snapshot
  | kind => .ofKind kind l.lists.depth l.snapshot

@[simp]
theorem kind_candidate (l : Layout) (kind : BreakKind) : (l.candidate kind).kind = kind := by
  cases kind <;> rfl

@[simp]
theorem before_candidate (l : Layout) (kind : BreakKind) :
    (l.candidate kind).before = l.snapshot := by
  cases kind <;> rfl

@[simp]
theorem index_candidate (l : Layout) (kind : BreakKind) : (l.candidate kind).index = l.cursor := by
  cases kind <;> rfl

@[simp]
theorem pending_offer (l : Layout) (kind : BreakKind) :
    (l.offer kind).pending = l.candidate kind :: l.pending := by
  cases kind <;> rfl

theorem fired_commitLine (l : Layout) : l.commitLine.fired = l.fired := by
  simp only [fired, commitLine_eq, List.filterMap_append, filterMap_discarding]
  rfl

theorem Forward.cursor (forward : Forward l config token next) : next.cursor = l.cursor + 1 := by
  cases forward with
  | text _ => simp [putText, advance]
  | hardBreak _ => simp [advance]
  | indent _ => simp [advance, moveIn, saveMargin]
  | dedent _ _ => simp [advance]
  | offer kind _ => cases kind <;> rfl
  | closeFlat _ => rfl
  | closeBroken _ _ => simp [advance]

theorem Forward.fired (forward : Forward l config token next) : next.fired = l.fired := by
  cases forward with
  | text _ => simp [Layout.fired, putText, advance, writeMargin_eq]
  | hardBreak _ => exact fired_commitLine l
  | indent _ => exact fired_commitLine l.saveMargin
  | dedent _ _ => exact fired_commitLine l
  | offer kind _ => cases kind <;> rfl
  | closeFlat _ => rfl
  | @closeBroken bracket _ _ _ _ _ =>
    cases bracket <;> simp [Layout.fired, advance, writeClosing_eq, writeMargin_eq]

/-- A refused step breaks no line. -/
theorem Refused.fired {fault : Fault} {left : Layout}
    (refused : Refused l token fault left) : left.fired = l.fired := by
  cases refused with
  | @unsaved bracket rest _ _ =>
    cases bracket <;> simp [Layout.fired, writeClosing_eq, writeMargin_eq]
  | _ => rfl

/-- A token that ends the line drops the candidates, one that offers a break adds one, and any
other leaves them. -/
theorem Forward.pending (forward : Forward l config token next) :
    (token.endsLine = true ∧ token.breakKind? = none ∧ next.pending = []) ∨
      (∃ kind, token.endsLine = false ∧ token.breakKind? = some kind ∧
        next.pending = l.candidate kind :: l.pending) ∨
      (token.endsLine = false ∧ token.breakKind? = none ∧ next.pending = l.pending) := by
  cases forward with
  | text _ => exact Or.inr (Or.inr ⟨rfl, rfl, by simp [putText, advance]⟩)
  | hardBreak _ => exact Or.inl ⟨rfl, rfl, rfl⟩
  | indent _ => exact Or.inl ⟨rfl, rfl, rfl⟩
  | dedent _ _ => exact Or.inl ⟨rfl, rfl, rfl⟩
  | offer kind breaks =>
    exact Or.inr (Or.inl ⟨kind, Token.endsLine_eq_false breaks, breaks, pending_offer l kind⟩)
  | closeFlat _ => exact Or.inr (Or.inr ⟨rfl, rfl, rfl⟩)
  | closeBroken _ _ => exact Or.inr (Or.inr ⟨rfl, rfl, by simp [advance]⟩)

end Forward

/-! ## Going back gives nothing new -/

section Straight

variable {tokens : List Token} {usable : Config → Prop} {l past next : Layout} {config : Config}
  {token : Token} {c : Candidate}

/-- The layout `past` left the candidate `c`, and `l` can still go back to it. -/
structure Recalls (tokens : List Token) (usable : Config → Prop) (l : Layout) (c : Candidate)
    (past : Layout) : Prop where
  reached : Reached tokens usable past
  straight : Straight tokens usable past
  offered : ∃ token kind, tokens[past.cursor]? = some token ∧ token.breakKind? = some kind ∧
    c = past.candidate kind
  fired : past.fired = l.fired
  kept : l.Keeps past

theorem Recalls.forward (recalls : Recalls tokens usable l c past)
    (forward : Forward l config token next) : Recalls tokens usable next c past :=
  { recalls with
    fired := recalls.fired.trans forward.fired.symm
    kept := forward.keeps.trans recalls.kept }

/-- Going back leads to where the line is broken at once. -/
theorem Back.straight {choice : Choice} (back : Back l config token choice next)
    (allowed : usable config) (recalls : Recalls tokens usable l choice.candidate past) :
    Straight tokens usable next := by
  obtain ⟨offering, kind, read, breaks, same⟩ := recalls.offered
  have before : choice.candidate.before = past.snapshot := by rw [same, before_candidate]
  have kind_eq : choice.candidate.kind = kind := by rw [same, kind_candidate]
  -- a line that ends or overflows may have written a margin or saved one before it goes back
  have broken {m : Layout} (grown : m.Keeps l) (told : m.fired = l.fired) :
      Straight tokens usable (m.breakAt config choice) := by
    obtain ⟨journal, landed, names⟩ := breakAt_eq (grown.trans recalls.kept) before
    rw [landed, kind_eq]
    refine .broken recalls.straight allowed read breaks ?_
    rw [names, told, recalls.fired]
  cases back with
  | overflow _ _ => exact broken (keeps_writeMargin l) (by simp [Layout.fired, writeMargin_eq])
  | hardBreak _ => exact broken (.refl l) rfl
  | indent _ => exact broken (keeps_saveMargin l) rfl
  | dedent _ _ => exact broken (.refl l) rfl

/-- A layout that is reached has a straight history, and every candidate pending in it can be gone
back to. -/
theorem Reached.recalls (reached : Reached tokens usable l) :
    Straight tokens usable l ∧ ∀ c ∈ l.pending, ∃ past, Recalls tokens usable l c past := by
  induction reached with
  | start => exact ⟨.start, fun c member => by cases member⟩
  | @step l next config token reached allowed read done ih =>
    obtain ⟨straight, recalled⟩ := ih
    rcases step_cases done with forward | ⟨choice, back⟩
    · refine ⟨.forward straight allowed read forward, ?_⟩
      intro c member
      have older (pending : c ∈ l.pending) : ∃ past, Recalls tokens usable next c past := by
        obtain ⟨past, recalls⟩ := recalled c pending
        exact ⟨past, recalls.forward forward⟩
      rcases forward.pending with ⟨-, -, none⟩ | ⟨kind, -, breaks, more⟩ | ⟨-, -, same⟩
      · rw [none] at member
        cases member
      · rw [more] at member
        cases member with
        | head =>
          exact ⟨l, reached, straight, ⟨token, kind, read, breaks, rfl⟩, forward.fired.symm,
            forward.keeps⟩
        | tail _ member => exact older member
      · rw [same] at member
        exact older member
    · obtain ⟨past, recalls⟩ := recalled choice.candidate back.mem
      refine ⟨back.straight allowed recalls, ?_⟩
      intro c member
      have none : next.pending = [] := by cases back <;> simp
      rw [none] at member
      cases member

theorem Reached.straight (reached : Reached tokens usable l) : Straight tokens usable l :=
  reached.recalls.1

end Straight

/-! ## What straight histories keep -/

section Facts

variable {tokens : List Token} {usable : Config → Prop} {l : Layout}

theorem fired_startLine (l : Layout) : l.startLine.fired = l.fired := by
  simp only [fired, startLine_eq, List.filterMap_append, filterMap_discarding]
  rfl

theorem fired_breakLine (l : Layout) (config : Config) (kind : BreakKind) :
    (l.breakLine config kind).fired = l.fired := by
  cases kind with
  | soft => exact fired_startLine l
  | separator => exact fired_startLine l
  | opener bracket =>
    refine (fired_startLine (l.writeOpening (.inside bracket .broken))).trans ?_
    rw [writeOpening_eq]
    split
    · rw [writeMargin_eq]
      rfl
    · rfl

theorem sound_startLine (sound : l.Sound) : l.startLine.Sound := by
  rw [startLine_eq]
  exact ⟨sound.lists, sound.saved⟩

theorem sound_writeOpening (sound : l.Sound) (bracket : Bracket) :
    (l.writeOpening (.inside bracket .broken)).Sound := by
  rw [writeOpening_eq]
  split
  · rw [writeMargin_eq]
    exact ⟨sound.lists, sound.saved⟩
  · exact sound

theorem sound_breakLine (sound : l.Sound) (config : Config) (kind : BreakKind) :
    (l.breakLine config kind).Sound := by
  cases kind with
  | soft => exact ⟨(sound_startLine sound).lists, (sound_startLine sound).saved⟩
  | separator => exact ⟨(sound_startLine sound).lists, (sound_startLine sound).saved⟩
  | opener bracket =>
    have opened := sound_startLine (sound_writeOpening sound bracket)
    exact ⟨opened.lists.push _, opened.saved.push _⟩

theorem Straight.sound (straight : Straight tokens usable l) : l.Sound := by
  induction straight with
  | start => exact ⟨.empty, .empty⟩
  | forward _ _ _ forward ih => exact forward.sound ih
  | @broken past config _ kind journal _ _ _ _ _ ih =>
    have resumed : (past.resume journal).Sound := ⟨ih.lists, ih.saved⟩
    exact sound_breakLine resumed config kind

theorem fired_resume_breakLine {past : Layout} {journal : List Event}
    (told : journal.filterMap Event.broken? = past.cursor :: past.fired) (config : Config)
    (kind : BreakKind) :
    ((past.resume journal).breakLine config kind).fired = past.cursor :: past.fired := by
  rw [fired_breakLine]
  exact told

/-- The line was broken in front of the cursor only, and only where a token offers a break. -/
theorem Straight.of_mem_fired (straight : Straight tokens usable l) {index : Nat}
    (member : index ∈ l.fired) :
    index < l.cursor ∧ ∃ token kind, tokens[index]? = some token ∧
      token.breakKind? = some kind := by
  induction straight with
  | start => cases member
  | forward _ _ _ forward ih =>
    rw [forward.fired] at member
    obtain ⟨below, offered⟩ := ih member
    rw [forward.cursor]
    exact ⟨Nat.lt_succ_of_lt below, offered⟩
  | broken _ _ read breaks told ih =>
    rw [fired_resume_breakLine told] at member
    rw [cursor_breakLine]
    cases member with
    | head => exact ⟨Nat.lt_succ_self _, _, _, read, breaks⟩
    | tail _ member =>
      obtain ⟨below, offered⟩ := ih member
      exact ⟨Nat.lt_succ_of_lt below, offered⟩

/-- The line is broken further on each time. -/
theorem Straight.pairwise_fired (straight : Straight tokens usable l) :
    l.fired.Pairwise (· > ·) := by
  induction straight with
  | start => exact List.Pairwise.nil
  | forward _ _ _ forward ih => rwa [forward.fired]
  | broken straight _ _ _ told ih =>
    rw [fired_resume_breakLine told]
    exact List.Pairwise.cons (fun index member => (straight.of_mem_fired member).1) ih

end Facts

end Layout

end LineLayout
