import LineLayout.Proofs.Runs

/-!
# The past of an engine

`Leads` tells the life of an engine token by token. Its `past` are the engines that stood in front
of the tokens read so far, those read again after going back included; a run is a number of such
readings (`Leads.run`).

Two engines of one life stand on the same line if no line was started in between, which `lines`
counts. Along a line nothing is lost, and the candidates pending are those that the line was offered
(`Leads.mem_pending_iff`). So going back to a candidate is going back to the engine that stood in
front of its token (`restore_pending_eq`).
-/

namespace LineLayout

/-- Whether an event tells that a line was started: behind one that ended for good, or at a
candidate that the layout went back to. -/
def Event.startsLine : Event → Bool
  | .committed .. => true
  | .rewound .. => true
  | _ => false

namespace Layout

/-! ## Starting a line or staying on it -/

/-- How many lines were started so far. -/
def lines (l : Layout) : Nat :=
  l.journal.countP Event.startsLine

/-- A line was started, and nothing is pending on it. -/
structure StartsLine (l next : Layout) : Prop where
  lines : next.lines = l.lines + 1
  pending : next.pending = []
  newline : ∃ body : Output, next.output = body.newline

/-- No line was started: nothing is lost, and a candidate may be pending in front of the others. -/
structure StaysOnLine (l : Layout) (offered? : Option Candidate) (next : Layout) : Prop where
  lines : next.lines = l.lines
  keeps : next.Keeps l
  pending : next.pending = offered?.toList ++ l.pending

/-- The candidate that a layout leaves at a token, if the token offers a break. -/
def candidate? (l : Layout) (token : Token) : Option Candidate :=
  token.breakKind?.map l.candidate

section Steps

variable {l next left : Layout} {config : Config} {token : Token} {fault : Fault}

theorem countP_discarding (count : Nat) : (discarding count).countP Event.startsLine = 0 := by
  unfold discarding
  split <;> rfl

theorem lines_commitLine (l : Layout) : l.commitLine.lines = l.lines + 1 := by
  simp [lines, commitLine_eq, countP_discarding, List.countP_cons, Event.startsLine]

theorem journal_breakLine (l : Layout) (config : Config) (kind : BreakKind) :
    (l.breakLine config kind).journal = discarding l.pending.length ++ l.journal := by
  cases kind with
  | soft | separator => simp [breakLine, continueBy, startLine_eq]
  | opener bracket =>
    have opening : (l.writeOpening (.inside bracket .broken)).journal = l.journal ∧
        (l.writeOpening (.inside bracket .broken)).pending = l.pending := by
      rw [writeOpening_eq]
      split <;> simp [writeMargin_eq]
    simp [breakLine, wrapList, moveIn, saveMargin, startLine_eq, ListState.wrapped, opening]

theorem output_breakLine (l : Layout) (config : Config) (kind : BreakKind) :
    ∃ opening, (l.breakLine config kind).output = (l.output.write opening).newline := by
  cases kind with
  | soft | separator =>
    exact ⟨"", by simp [breakLine, continueBy, startLine_eq, Output.write]⟩
  | opener bracket =>
    have opening : ∃ text, (l.writeOpening (.inside bracket .broken)).output =
        l.output.write text := by
      rw [writeOpening_eq]
      split
      · rw [writeMargin_eq]
        exact ⟨_ ++ "(", by simp [Output.write, String.append_assoc]; rfl⟩
      · exact ⟨"", by simp [Output.write]⟩
    obtain ⟨text, written⟩ := opening
    exact ⟨text, by simp [breakLine, wrapList, moveIn, saveMargin, startLine_eq,
      ListState.wrapped, written]⟩

theorem journal_breakAt (l : Layout) (config : Config) (choice : Choice) :
    (l.breakAt config choice).journal =
      discarding choice.older.length ++
        .rewound choice.candidate.kind choice.candidate.priority (l.cursor + 1)
          (choice.candidate.index + 1) :: l.journal := by
  simp [breakAt, journal_breakLine, noteDiscarded_eq, restore, note, discarding]

theorem lines_breakAt (l : Layout) (config : Config) (choice : Choice) :
    (l.breakAt config choice).lines = l.lines + 1 := by
  simp [lines, journal_breakAt, countP_discarding, List.countP_cons, Event.startsLine]

theorem fired_breakAt (l : Layout) (config : Config) (choice : Choice) :
    (l.breakAt config choice).fired = choice.candidate.index :: l.fired := by
  simp [fired, journal_breakAt, Event.broken?]

theorem startsLine_commitLine (l : Layout) : StartsLine l l.commitLine where
  lines := lines_commitLine l
  pending := pending_commitLine l
  newline := ⟨l.output, by rw [commitLine_eq]⟩

theorem startsLine_breakAt (l : Layout) (config : Config) (choice : Choice) :
    StartsLine l (l.breakAt config choice) where
  lines := lines_breakAt l config choice
  pending := pending_breakAt l config choice
  newline := by
    obtain ⟨opening, written⟩ := output_breakLine _ config choice.candidate.kind
    exact ⟨_, written⟩

/-- Going forward starts a line, or stays on it and leaves what the token offers. -/
theorem Forward.line (forward : Forward l config token next) :
    StartsLine l next ∨ StaysOnLine l (l.candidate? token) next := by
  have keeps := forward.keeps
  cases forward with
  | text _ =>
    refine Or.inr ⟨?_, keeps, ?_⟩
    · simp [lines, putText, advance, writeMargin_eq]
    · simp [putText, advance, candidate?, Token.breakKind?]
  | hardBreak _ =>
    have starts := startsLine_commitLine l
    exact Or.inl ⟨starts.lines, starts.pending, starts.newline⟩
  | indent _ =>
    have starts := startsLine_commitLine l.saveMargin
    exact Or.inl ⟨starts.lines, starts.pending, starts.newline⟩
  | dedent _ _ =>
    have starts := startsLine_commitLine l
    exact Or.inl ⟨starts.lines, starts.pending, starts.newline⟩
  | offer kind breaks =>
    refine Or.inr ⟨?_, keeps, ?_⟩
    · cases kind <;> rfl
    · simp [candidate?, breaks]
  | closeFlat _ => exact Or.inr ⟨rfl, keeps, rfl⟩
  | @closeBroken bracket _ _ _ _ _ =>
    refine Or.inr ⟨?_, keeps, ?_⟩
    · cases bracket <;> simp [lines, advance, writeClosing_eq, writeMargin_eq]
    · simp [advance, candidate?, Token.breakKind?]

/-- Before it goes back, a layout may have written a margin or saved one. -/
theorem Back.exists_breakAt {choice : Choice} (back : Back l config token choice next) :
    ∃ m : Layout, m.Keeps l ∧ m.journal = l.journal ∧ next = m.breakAt config choice := by
  cases back with
  | overflow _ _ =>
    exact ⟨l.writeMargin, keeps_writeMargin l, by rw [writeMargin_eq], rfl⟩
  | hardBreak _ => exact ⟨l, .refl l, rfl, rfl⟩
  | indent _ => exact ⟨l.saveMargin, keeps_saveMargin l, rfl, rfl⟩
  | dedent _ _ => exact ⟨l, .refl l, rfl, rfl⟩

theorem Back.startsLine {choice : Choice} (back : Back l config token choice next) :
    StartsLine l next := by
  obtain ⟨m, -, told, rfl⟩ := back.exists_breakAt
  have starts := startsLine_breakAt m config choice
  refine ⟨?_, starts.pending, starts.newline⟩
  rw [starts.lines, Layout.lines, told, Layout.lines]

theorem Refused.staysOnLine (refused : Refused l token fault left) :
    StaysOnLine l (l.candidate? token) left := by
  cases refused with
  | @unsaved bracket rest opened _ =>
    obtain ⟨depth, popped⟩ := OpenLists.pop?_of_leave? opened
    have closing := keeps_writeClosing { l with lists := rest } bracket .broken
    refine ⟨?_, ⟨closing.output, closing.lists.trans (Trail.keeps_of_pop? popped),
      closing.saved⟩, ?_⟩
    · cases bracket <;> simp [lines, writeClosing_eq, writeMargin_eq]
    · simp [candidate?, Token.breakKind?]
  | _ => exact ⟨rfl, .refl l, rfl⟩

end Steps

/-! ## Before and after -/

/-- The layout `past` stood on an earlier line than `later`, or on the same one and is kept. -/
def Precedes (past later : Layout) : Prop :=
  past.lines < later.lines ∨ past.lines = later.lines ∧ later.Keeps past

theorem Precedes.trans {past l later : Layout} (first : Precedes past l) (second : Precedes l later) :
    Precedes past later := by
  rcases first with earlier | ⟨same, kept⟩
  · rcases second with earlier' | ⟨same', -⟩
    · exact Or.inl (Nat.lt_trans earlier earlier')
    · exact Or.inl (same' ▸ earlier)
  · rcases second with earlier' | ⟨same', kept'⟩
    · exact Or.inl (same ▸ earlier')
    · exact Or.inr ⟨same.trans same', kept'.trans kept⟩

end Layout

namespace Engine

/-! ## Reading token by token -/

/-- Lays out one token. -/
def read (engine : Engine) (token : Token) : Engine :=
  engine.settle (engine.layout.step engine.config token)

/-- `Leads stream first past engine`: reading tokens of the stream one by one, and changes of the
settings in between, lead from `first` to `engine`. The `past` are the engines in front of each
token that was read, the latest first. -/
inductive Leads (stream : List Token) (first : Engine) : List Engine → Engine → Prop
  | refl : Leads stream first [] first
  | read {past : List Engine} {engine : Engine} {token : Token}
      (leads : Leads stream first past engine) (sane : engine.fault? = none)
      (next : stream[engine.layout.cursor]? = some token) :
      Leads stream first (engine :: past) (engine.read token)
  | setConfig {past : List Engine} {engine : Engine} (config : Config)
      (leads : Leads stream first past engine) :
      Leads stream first past (engine.setConfig config)

variable {stream : List Token} {first engine : Engine} {past : List Engine} {token : Token}

theorem settle_of_layout (config : Config) (l l' : Layout) (outcome : Outcome) :
    settle { config := config, layout := l } outcome =
      settle { config := config, layout := l' } outcome := by
  cases outcome <;> rfl

/-- A run is reading up to the end of its slice or up to a fault. -/
theorem Leads.run {slice : Array Token} (leads : Leads stream first past engine)
    (part : slice.toList <+: stream) :
    ∃ more, Leads stream first (more ++ past) (engine.run slice) := by
  cases faulty : engine.fault? with
  | some fault => exact ⟨[], by simpa [Engine.run, faulty] using leads⟩
  | none =>
    simp only [Engine.run, faulty]
    obtain ⟨config, l, fault?⟩ := engine
    dsimp only at faulty ⊢
    subst faulty
    fun_induction Layout.run l config slice generalizing past with
    | case1 l read => exact ⟨[], leads⟩
    | case2 l token read next taken ih =>
      have stepped := leads.read rfl (Layout.getElem?_of_slice part read)
      simp only [Engine.read, taken, settle] at stepped
      obtain ⟨more, led⟩ := ih stepped
      rw [settle_of_layout config next l] at led
      exact ⟨more ++ [_], by simpa using led⟩
    | case3 l token read fault left taken =>
      have stepped := leads.read rfl (Layout.getElem?_of_slice part read)
      simp only [Engine.read, taken] at stepped
      exact ⟨[_], stepped⟩

/-- Whatever runs and settings led to an engine, reading token by token leads there too. -/
theorem Reachable.exists_leads (reachable : Reachable stream engine) :
    ∃ config past, Leads stream { config := config } past engine := by
  induction reachable with
  | create config => exact ⟨config, [], .refl⟩
  | run _ part ih =>
    obtain ⟨config, past, leads⟩ := ih
    obtain ⟨more, led⟩ := leads.run part
    exact ⟨config, _, led⟩
  | setConfig config _ ih =>
    obtain ⟨initial, past, leads⟩ := ih
    exact ⟨initial, past, leads.setConfig config⟩

theorem Stands.read (stands : Stands stream engine) (sane : engine.fault? = none)
    (next : stream[engine.layout.cursor]? = some token) : Stands stream (engine.read token) := by
  cases stands with
  | stopped _ _ _ faulty => simp [sane] at faulty
  | working reached _ =>
    unfold Engine.read
    cases taken : engine.layout.step engine.config token with
    | done l => exact .working (.step reached trivial next taken) sane
    | rejected fault left => exact .stopped reached next taken rfl

theorem Leads.stands (leads : Leads stream first past engine) (stands : Stands stream first) :
    Stands stream engine := by
  induction leads with
  | refl => exact stands
  | read _ sane next ih => exact ih.read sane next
  | setConfig config _ ih =>
    cases ih with
    | working reached sane => exact .working reached sane
    | stopped reached read rejected faulty => exact .stopped reached read rejected faulty

theorem stands_create (stream : List Token) (config : Config) :
    Stands stream { config := config } :=
  .working .start rfl

theorem Stands.sound (stands : Stands stream engine) (sane : engine.fault? = none) :
    engine.layout.Sound := by
  cases stands with
  | stopped _ _ _ faulty => simp [sane] at faulty
  | working reached _ => exact reached.straight.sound

/-- Reading a token starts a line or stays on it, whether or not the token is refused. -/
theorem read_line (sound : engine.layout.Sound) (token : Token) :
    Layout.StartsLine engine.layout (engine.read token).layout ∨
      Layout.StaysOnLine engine.layout (engine.layout.candidate? token)
        (engine.read token).layout := by
  unfold Engine.read
  cases taken : engine.layout.step engine.config token with
  | done l =>
    rcases Layout.step_cases taken with forward | ⟨choice, back⟩
    · exact forward.line
    · exact Or.inl back.startsLine
  | rejected fault left => exact Or.inr (Layout.step_refused sound taken).staysOnLine

/-- What came before is on an earlier line, or on this one and kept. -/
theorem Leads.precedes (leads : Leads stream first past engine) (stands : Stands stream first)
    {earlier : Engine} (member : earlier ∈ past) :
    Layout.Precedes earlier.layout engine.layout := by
  induction leads with
  | refl => cases member
  | setConfig config _ ih => exact ih member
  | @read past engine token leads sane next ih =>
    have onward : Layout.Precedes engine.layout (engine.read token).layout := by
      rcases read_line ((leads.stands stands).sound sane) token with starts | stays
      · exact Or.inl (by rw [starts.lines]; exact Nat.lt_succ_self _)
      · exact Or.inr ⟨stays.lines.symm, stays.keeps⟩
    cases member with
    | head => exact onward
    | tail _ member => exact (ih member).trans onward

theorem Leads.keeps_of_lines (leads : Leads stream first past engine)
    (stands : Stands stream first) {earlier : Engine} (member : earlier ∈ past)
    (same : earlier.layout.lines = engine.layout.lines) :
    engine.layout.Keeps earlier.layout := by
  rcases leads.precedes stands member with before | ⟨-, kept⟩
  · omega
  · exact kept

theorem Leads.lines_le (leads : Leads stream first past engine) (stands : Stands stream first)
    {earlier : Engine} (member : earlier ∈ engine :: past) :
    earlier.layout.lines ≤ engine.layout.lines := by
  cases member with
  | head => exact Nat.le_refl _
  | tail _ member =>
    rcases leads.precedes stands member with before | ⟨same, -⟩
    · exact Nat.le_of_lt before
    · exact Nat.le_of_eq same

/-! ## What is pending -/

/-- `OfferedOnLine stream past engine c`: since the line of the engine was started, a token was read
that offers a break, and it left the candidate `c`. -/
def OfferedOnLine (stream : List Token) (past : List Engine) (engine : Engine) (c : Candidate) :
    Prop :=
  ∃ earlier ∈ past, earlier.layout.lines = engine.layout.lines ∧
    ∃ token kind, stream[earlier.layout.cursor]? = some token ∧ token.breakKind? = some kind ∧
      c = earlier.layout.candidate kind

theorem offeredOnLine_cons_iff {next : Engine} {c : Candidate}
    (read : stream[engine.layout.cursor]? = some token)
    (same : next.layout.lines = engine.layout.lines) :
    OfferedOnLine stream (engine :: past) next c ↔
      engine.layout.candidate? token = some c ∨ OfferedOnLine stream past engine c := by
  unfold OfferedOnLine Layout.candidate?
  rw [same, Option.map_eq_some_iff]
  constructor
  · rintro ⟨earlier, member, line, other, kind, read', breaks, rfl⟩
    cases member with
    | head =>
      rw [read, Option.some.injEq] at read'
      exact Or.inl ⟨kind, read' ▸ breaks, rfl⟩
    | tail _ member => exact Or.inr ⟨earlier, member, line, other, kind, read', breaks, rfl⟩
  · rintro (⟨kind, breaks, rfl⟩ | ⟨earlier, member, offered⟩)
    · exact ⟨engine, List.mem_cons_self, rfl, token, kind, read, breaks, rfl⟩
    · exact ⟨earlier, List.mem_cons_of_mem engine member, offered⟩

/-- The candidates pending are exactly those that the line was offered. -/
theorem Leads.mem_pending_iff {config : Config} {c : Candidate}
    (leads : Leads stream { config := config } past engine) :
    c ∈ engine.layout.pending ↔ OfferedOnLine stream past engine c := by
  induction leads with
  | refl => simp [OfferedOnLine]
  | setConfig config _ ih => exact ih
  | @read past engine token leads sane next ih =>
    have stands := leads.stands (stands_create stream config)
    rcases read_line (stands.sound sane) token with starts | stays
    · rw [starts.pending]
      refine iff_of_false List.not_mem_nil ?_
      -- nothing that came before stands on the new line
      rintro ⟨earlier, member, same, -⟩
      have before := leads.lines_le (stands_create stream config) member
      rw [starts.lines] at same
      omega
    · rw [offeredOnLine_cons_iff next stays.lines, ← ih, stays.pending, List.mem_append,
        Option.mem_toList]

/-! ## Going back -/

/-- Whatever was written, opened, closed, saved or taken back since, going back to a pending
candidate leads to the state in which the engine stood in front of the token that left it, and on
behind that token. -/
theorem restore_pending_eq {config : Config} {c : Candidate}
    (leads : Leads stream { config := config } past engine) (pending : c ∈ engine.layout.pending) :
    ∃ earlier ∈ past, ∃ token kind,
      stream[c.index]? = some token ∧ token.breakKind? = some kind ∧
      earlier.layout.cursor = c.index ∧ earlier.layout.candidate kind = c ∧
      earlier.layout.lines = engine.layout.lines ∧
      (engine.layout.restore c.before).output.text = earlier.layout.output.text ∧
      (engine.layout.restore c.before).column = earlier.layout.column ∧
      (engine.layout.restore c.before).margin = earlier.layout.margin ∧
      (engine.layout.restore c.before).lists = earlier.layout.lists ∧
      (engine.layout.restore c.before).saved = earlier.layout.saved ∧
      (engine.layout.restore c.before).cursor = c.index + 1 := by
  obtain ⟨earlier, member, same, token, kind, read, breaks, rfl⟩ := leads.mem_pending_iff.1 pending
  have keeps := leads.keeps_of_lines (stands_create stream config) member same
  refine ⟨earlier, member, token, kind, ?_⟩
  rw [Layout.index_candidate, Layout.before_candidate, Layout.restore_snapshot keeps]
  exact ⟨read, breaks, rfl, rfl, same, rfl, rfl, rfl, rfl, rfl, rfl⟩

/-- The list is closed again and the settings have changed, and the engine can still go back into
the list. -/
theorem restore_pending_eq_closed :
    let stream : List Token :=
      [.plain "f(", .mark (.opener .list), .plain "a, ", .mark .separator, .plain "b",
        .mark (.closer .list), .plain ")"]
    let engine := ((Engine.run { config := ⟨80, 2⟩ } (stream.take 5).toArray).setConfig ⟨40, 4⟩).run
      stream.toArray
    ∃ past, Leads stream { config := ⟨80, 2⟩ } past engine ∧ engine.layout.lists.depth = 0 ∧
      ∃ c ∈ engine.layout.pending, c.index = 3 ∧
        ∃ earlier ∈ past, earlier.layout.cursor = 3 ∧
          (engine.layout.restore c.before).lists = earlier.layout.lists ∧
          (engine.layout.restore c.before).lists.depth = 1 ∧
          (engine.layout.restore c.before).output.text = "f(a, " := by
  intro stream engine
  have created : Leads stream { config := ⟨80, 2⟩ } [] { config := ⟨80, 2⟩ } := .refl
  have part : (stream.take 5).toArray.toList <+: stream := List.take_prefix 5 stream
  have whole : stream.toArray.toList <+: stream := List.prefix_refl stream
  obtain ⟨older, begun⟩ := created.run part
  obtain ⟨newer, leads⟩ := (begun.setConfig ⟨40, 4⟩).run whole
  have pending : ∃ c ∈ engine.layout.pending, c.index = 3 ∧
      (engine.layout.restore c.before).lists.depth = 1 ∧
      (engine.layout.restore c.before).output.text = "f(a, " := by decide +kernel
  obtain ⟨c, member, index, depth, text⟩ := pending
  obtain ⟨earlier, before, _, _, _, _, cursor, _, _, _, _, _, lists, _⟩ :=
    restore_pending_eq leads member
  exact ⟨_, leads, by decide +kernel, c, member, index, earlier, before, cursor.trans index, lists,
    depth, text⟩

end Engine

end LineLayout
