import LineLayout.Proofs.Past
import LineLayout.Proofs.Selection

/-!
# No access misses

A layout keeps numbers in place of what they stand for: the tops of its trails, the sizes to cut the
output back to, the positions of candidates. `Checked` lays out as `Layout` does, but gives up with
a `Miss` wherever such a number does not lead to what it should: at a top that is no entry, at a cut
that is behind the output or inside of a character, at a position where nothing is pending, and at
a margin that is gone although the layout has just seen it.

`Checks checked plain safe` compares the two. Wherever the checked one gives a result it is that of
the plain one, and if it is `safe` it does give one. So `checks_step` says exactly what a step
relies on, namely `Layout.Safe`: both trails in range, and for every pending candidate a way back to
it. An engine relies on it all its life (`accesses_never_miss`).
-/

namespace LineLayout

/-- An access that does not find what it looks for. -/
inductive Miss where
  /-- The top of a trail is behind its entries. -/
  | entry
  /-- The output ends before the size to cut it back to, or no character ends there. -/
  | cut
  /-- No candidate is pending at the position. -/
  | candidate
  /-- No margin is saved, although one was before the line ended. -/
  | margin
deriving DecidableEq

/-- The top of the trail is the number of an entry, or zero. -/
def Trail.InRange {α : Type} (trail : Trail α) : Prop :=
  trail.top ≤ trail.entries.size

instance {α : Type} (trail : Trail α) : Decidable trail.InRange :=
  inferInstanceAs (Decidable (_ ≤ _))

/-! ## Laying out with checks -/

namespace Checked

variable {α : Type}

/-- The topmost entry; at the bottom there is none to look for. -/
def top (trail : Trail α) : Except Miss (Option (Trail.Entry α)) :=
  if trail.InRange then .ok (trail.entry? trail.top) else .error .entry

/-- The topmost value and the trail without it; the top has to be an entry. -/
def pop? (trail : Trail α) : Except Miss (Option (α × Trail α)) := do
  let topmost? ← top trail
  return topmost?.map fun entry => (entry.value, { trail with top := entry.below })

/-- The margin saved last. -/
def last (saved : SavedMargins) : Except Miss Margin := do
  let topmost? ← top saved
  return (topmost?.map (·.value)).getD {}

/-- The innermost bracket. -/
def state (lists : OpenLists) : Except Miss ListState := do
  match ← top lists with
  | some entry => return entry.value.state
  | none => return .outside

/-- How many brackets are open. -/
def depth (lists : OpenLists) : Except Miss Nat := do
  match ← top lists with
  | some entry => return entry.value.depth
  | none => return 0

/-- Opens a bracket, with one more open than were counted before. -/
def enter (lists : OpenLists) (state : ListState) : Except Miss OpenLists := do
  let depth ← depth lists
  return lists.push ⟨state, depth + 1⟩

/-- What stays open when the innermost bracket is closed. -/
def leave (lists : OpenLists) : Except Miss OpenLists := do
  match ← pop? lists with
  | some (⟨.inside _ _, _⟩, rest) => return rest
  | _ => return lists

/-- Cuts the output back to a size it had. -/
def cut (out : Output) (size : Nat) : Except Miss Output :=
  if String.Pos.Raw.IsValid out.text ⟨size⟩ then .ok (out.truncate size) else .error .cut

/-- Takes the candidate at a position. -/
def take (pending : Pending) (position : Nat) : Except Miss Choice :=
  match pending.choice? position with
  | some choice => .ok choice
  | none => .error .candidate

example : cut ⟨"é"⟩ 1 = .error .cut := by decide
example : take [] 0 = .error .candidate := by decide

/-! ### Breaking the line -/

/-- Continues the line behind the margin saved last, which has to be found. -/
def continueBy (l : Layout) (extra : Nat) : Except Miss Layout := do
  let margin ← last l.saved
  return { l with margin := { l.margin with continuation := margin.continuation + extra } }

/-- Breaks the line behind an opening; the brackets around it have to be counted. -/
def wrapList (l : Layout) (config : Config) (bracket : Bracket) : Except Miss Layout := do
  let state := (ListState.inside bracket .flat).wrapped
  let l := (l.writeOpening state).startLine.saveMargin.moveIn config.wrapIndent
  let lists ← enter l.lists state
  return { l with lists := lists }

/-- Breaks the line in the way of a candidate, with the checks of that way. -/
def breakLine (l : Layout) (config : Config) : BreakKind → Except Miss Layout
  | .soft => continueBy l.startLine config.wrapIndent
  | .separator => continueBy l.startLine 0
  | .opener bracket => wrapList l config bracket

/-- Goes back to a snapshot whose size the output has to have had. -/
def restore (l : Layout) (before : Snapshot) : Except Miss Layout := do
  let output ← cut l.output before.size
  return { l.restore before with output := output }

/-- Goes back to the candidate at a position and breaks the line there. -/
def breakAt (l : Layout) (config : Config) (position : Nat) : Except Miss Layout := do
  let choice ← take l.pending position
  let c := choice.candidate
  let rewound ←
    restore (l.note (.rewound c.kind c.priority (l.cursor + 1) (c.index + 1))) c.before
  breakLine (rewound.noteDiscarded choice.older.length) config c.kind

/-! ### Tokens -/

/-- The position of the candidate that goes before a hard break. -/
def overriding? (l : Layout) : Except Miss (Option Nat) := do
  let depth ← depth l.lists
  return (l.pending.bestAbove? (Priority.hardBreak depth)).map Choice.position

/-- Ends the line for good. -/
def commitLine (l : Layout) : Except Miss Layout := do
  let l ← continueBy l 0
  return (l.note (.committed (l.cursor + 1) l.margin.indent)).startLine

/-- Takes the margin saved last back, or refuses the token if none is saved. -/
def takeBackMargin (l : Layout) : Except Miss Outcome := do
  match ← pop? l.saved with
  | some (margin, saved) => return .done { l with margin := margin, saved := saved }.advance
  | none => return .rejected (.unindented l.cursor) l

/-- Writes text, or breaks the line at the position chosen for it. -/
def text (l : Layout) (config : Config) (run : TextRun) : Except Miss Layout :=
  let l := l.writeMargin
  let overflow? :=
    if config.exceeds l.column run.width then l.pending.bestForOverflow? config.widthLimit else none
  match overflow? with
  | some choice => breakAt l config choice.position
  | none => return l.putText run

/-- Leaves a candidate, as deep as the brackets counted. -/
def record (l : Layout) (kind : BreakKind) : Except Miss Layout := do
  let depth ← depth l.lists
  let c := Candidate.ofKind kind depth l.snapshot
  return { l.note (.recorded kind c.priority l.column) with
    cursor := l.cursor + 1
    pending := c :: l.pending
    descending := ⟨Nat.lt_succ_self _, l.descending⟩ }

/-- Opens a bracket and leaves a candidate, which counts the bracket just opened. -/
def openList (l : Layout) (bracket : Bracket) : Except Miss Layout := do
  let lists ← enter l.lists (.inside bracket .flat)
  let depth ← depth lists
  let c := Candidate.ofKind (.opener bracket) depth l.snapshot
  return { l.note (.opened c.kind c.priority l.column) with
    cursor := l.cursor + 1
    lists := lists
    pending := c :: l.pending
    descending := ⟨Nat.lt_succ_self _, l.descending⟩ }

/-- Ends the line, or breaks it at the position that goes before that. -/
def hardBreak (l : Layout) (config : Config) : Except Miss Layout := do
  match ← overriding? l with
  | some position => breakAt l config position
  | none => return (← commitLine l).advance

/-- Ends the line and moves the margin in, or breaks the line first. -/
def indent (l : Layout) (config : Config) : Except Miss Layout := do
  let l := l.saveMargin
  match ← overriding? l with
  | some position => breakAt l config position
  | none => return ((← commitLine l).moveIn config.indentUnit).advance

/-- The margin that the first test sees has to be there when the line has ended. -/
def dedent (l : Layout) (config : Config) : Except Miss Outcome := do
  match ← top l.saved with
  | none => return .rejected (.unindented l.cursor) l
  | some _ =>
    match ← overriding? l with
    | some position => return .done (← breakAt l config position)
    | none =>
      let l ← commitLine l
      match ← pop? l.saved with
      | some (margin, saved) => return .done { l with margin := margin, saved := saved }.advance
      | none => throw .margin

/-- Closes the innermost bracket, read first and then left. -/
def closeList (l : Layout) (bracket : Bracket) : Except Miss Outcome := do
  let state ← state l.lists
  match state.delimiters? with
  | some (.opener opened, closer) =>
    if closer = .closer bracket then
      let lists ← leave l.lists
      let closed := { l with lists := lists }.writeClosing state
      if state.dedentsOnClose then takeBackMargin closed else return .done closed.advance
    else return .rejected (.mismatched l.cursor opened bracket) l
  | _ => return .rejected (.unopened l.cursor bracket) l

/-- Lays out one token with all checks. -/
def step (l : Layout) (config : Config) : Token → Except Miss Outcome
  | .text run => return .done (← text l config run)
  | .mark .hardBreak => return .done (← hardBreak l config)
  | .mark .softBreak => return .done (← record l .soft)
  | .mark .separator => return .done (← record l .separator)
  | .mark .indent => return .done (← indent l config)
  | .mark .dedent => dedent l config
  | .mark (.opener bracket) => return .done (← openList l bracket)
  | .mark (.closer bracket) => closeList l bracket

end Checked

/-! ## With checks and without -/

/-- Where the checked computation gives a result it is the plain one, and it does if it is safe. -/
structure Checks {α : Type} (checked : Except Miss α) (plain : α) (safe : Prop) : Prop where
  same : ∀ {a : α}, checked = .ok a → a = plain
  hits : safe → checked = .ok plain

namespace Checks

variable {α β : Type} {safe : Prop}

theorem pure (a : α) : Checks (Pure.pure a) a safe where
  same := by
    rintro b ⟨⟩
    rfl
  hits := fun _ => rfl

/-- What comes second may rely on what the first check has found. -/
theorem bind_of_ok {checked : Except Miss α} {next : α → Except Miss β} {a : α} {b : β}
    (first : Checks checked a safe) (second : checked = .ok a → Checks (next a) b safe) :
    Checks (checked >>= next) b safe where
  same := by
    intro c given
    cases found : checked with
    | error miss => rw [found] at given; cases given
    | ok a' =>
      obtain rfl := first.same found
      rw [found] at given
      exact (second found).same given
  hits := by
    intro h
    have found := first.hits h
    have next := (second found).hits h
    rw [found]
    exact next

theorem bind {checked : Except Miss α} {next : α → Except Miss β} {a : α} {b : β}
    (first : Checks checked a safe) (second : Checks (next a) b safe) :
    Checks (checked >>= next) b safe :=
  first.bind_of_ok fun _ => second

theorem of_ite {a : α} {miss : Miss} {p : Prop} [Decidable p] (holds : safe → p) :
    Checks (if p then .ok a else .error miss) a safe where
  same := by
    intro b given
    split at given
    · exact (Except.ok.inj given).symm
    · cases given
  hits := fun h => if_pos (holds h)

end Checks

/-! ## What a step relies on -/

namespace Trail

variable {α : Type} {later trail : Trail α} {mark : Bookmark}

/-- Going back is in range in a longer trail too. -/
theorem Keeps.inRange_rewind (keeps : later.Keeps trail) (inRange : (trail.rewind mark).InRange) :
    (later.rewind mark).InRange := by
  obtain ⟨entries, grown⟩ := keeps
  simp only [InRange, Trail.rewind, Array.size_shrink, grown, Array.size_append] at inRange ⊢
  omega

end Trail

namespace Layout

/-- From the layout there is a way back to the snapshot. -/
structure LeadsBack (l : Layout) (before : Snapshot) : Prop where
  size : String.Pos.Raw.IsValid l.output.text ⟨before.size⟩
  lists : (l.lists.rewind before.lists).InRange
  saved : (l.saved.rewind before.saved).InRange

/-- Both trails are in range, and so they are behind a way back to any pending candidate. -/
structure Safe (l : Layout) : Prop where
  lists : l.lists.InRange
  saved : l.saved.InRange
  back : ∀ c ∈ l.pending, l.LeadsBack c.before

variable {later l past : Layout} {before : Snapshot}

theorem LeadsBack.of_keeps (back : l.LeadsBack before) (keeps : later.Keeps l) :
    later.LeadsBack before where
  size := by
    obtain ⟨front, rest, split, size⟩ := String.Pos.Raw.isValid_iff_exists_append.1 back.size
    obtain ⟨text, grown⟩ := keeps.output
    refine String.Pos.Raw.isValid_iff_exists_append.2 ⟨front, rest ++ text, ?_, size⟩
    rw [grown, Output.write, split, String.append_assoc]
  lists := keeps.lists.inRange_rewind back.lists
  saved := keeps.saved.inRange_rewind back.saved

theorem leadsBack_snapshot (sound : l.Sound) : l.LeadsBack l.snapshot where
  size := String.Pos.Raw.isValid_iff_exists_append.2 ⟨l.output.text, "", by simp, rfl⟩
  lists := by
    rw [show l.lists.rewind l.snapshot.lists = l.lists from (Trail.Keeps.refl _).rewind]
    exact sound.lists.top_le
  saved := by
    rw [show l.saved.rewind l.snapshot.saved = l.saved from (Trail.Keeps.refl _).rewind]
    exact sound.saved.top_le

/-- Whatever was done so far, the next step is safe. -/
theorem Reached.safe {tokens : List Token} {usable : Config → Prop}
    (reached : Reached tokens usable l) : l.Safe := by
  obtain ⟨straight, recalled⟩ := reached.recalls
  refine ⟨straight.sound.lists.top_le, straight.sound.saved.top_le, ?_⟩
  intro c member
  obtain ⟨past, recalls⟩ := recalled c member
  obtain ⟨_, _, -, -, rfl⟩ := recalls.offered
  rw [before_candidate]
  exact (leadsBack_snapshot recalls.straight.sound).of_keeps recalls.kept

end Layout

/-! ## Each part of a step -/

namespace Checked

open Layout

variable {α : Type} {safe : Prop} {l : Layout} {config : Config}

/-! ### Trails -/

theorem checks_top {trail : Trail α} (inRange : safe → trail.InRange) :
    Checks (top trail) (trail.entry? trail.top) safe :=
  .of_ite inRange

theorem inRange_of_top {trail : Trail α} {topmost? : Option (Trail.Entry α)}
    (found : top trail = .ok topmost?) : trail.InRange := by
  unfold top at found
  split at found
  · assumption
  · cases found

theorem checks_pop? {trail : Trail α} (inRange : safe → trail.InRange) :
    Checks (pop? trail) trail.pop? safe :=
  (checks_top inRange).bind (.pure _)

theorem checks_last {saved : SavedMargins} (inRange : safe → saved.InRange) :
    Checks (last saved) saved.last safe :=
  (checks_top inRange).bind (.pure _)

theorem checks_state {lists : OpenLists} (inRange : safe → lists.InRange) :
    Checks (state lists) lists.state safe := by
  refine (checks_top inRange).bind ?_
  unfold OpenLists.state Trail.peek?
  cases lists.entry? lists.top <;> exact .pure _

theorem checks_depth {lists : OpenLists} (inRange : safe → lists.InRange) :
    Checks (depth lists) lists.depth safe := by
  refine (checks_top inRange).bind ?_
  unfold OpenLists.depth Trail.peek?
  cases lists.entry? lists.top <;> exact .pure _

theorem checks_enter {lists : OpenLists} (inRange : safe → lists.InRange) (state : ListState) :
    Checks (enter lists state) (lists.enter state) safe :=
  (checks_depth inRange).bind (.pure _)

theorem checks_leave {lists : OpenLists} (inRange : safe → lists.InRange) :
    Checks (leave lists) lists.leave safe := by
  refine (checks_pop? inRange).bind ?_
  unfold OpenLists.leave OpenLists.leave?
  rcases Trail.pop? lists with _ | ⟨⟨_ | _, _⟩, _⟩ <;> exact .pure _

/-! ### Breaking the line -/

theorem checks_continueBy (saved : safe → l.saved.InRange) (extra : Nat) :
    Checks (continueBy l extra) (l.continueBy extra) safe :=
  (checks_last saved).bind (.pure _)

theorem checks_breakLine (lists : safe → l.lists.InRange) (saved : safe → l.saved.InRange)
    (kind : BreakKind) : Checks (breakLine l config kind) (l.breakLine config kind) safe := by
  have started : l.startLine.saved = l.saved := by rw [startLine_eq]
  cases kind with
  | soft => exact checks_continueBy (started ▸ saved) _
  | separator => exact checks_continueBy (started ▸ saved) _
  | opener bracket =>
    have same : ((l.writeOpening (.inside bracket .broken)).startLine.saveMargin.moveIn
        config.wrapIndent).lists = l.lists := by
      cases bracket <;>
        simp [moveIn, saveMargin, startLine_eq, writeOpening_eq, writeMargin_eq]
    exact (checks_enter (same ▸ lists) _).bind (.pure _)

theorem checks_restore {before : Snapshot} (back : safe → l.LeadsBack before) :
    Checks (restore l before) (l.restore before) safe :=
  (Checks.of_ite fun h => (back h).size).bind (.pure _)

theorem checks_take {pending : Pending} {choice : Choice}
    (suffix : choice.candidate :: choice.older <:+ pending) :
    Checks (take pending choice.position) choice safe := by
  unfold take
  rw [Pending.choice?_of_suffix suffix]
  exact .pure choice

theorem checks_breakAt {choice : Choice} (suffix : choice.candidate :: choice.older <:+ l.pending)
    (back : safe → l.LeadsBack choice.candidate.before) :
    Checks (breakAt l config choice.position) (l.breakAt config choice) safe := by
  refine (checks_take suffix).bind ((checks_restore ?_).bind (checks_breakLine ?_ ?_ _))
  · exact fun h => ⟨(back h).size, (back h).lists, (back h).saved⟩
  · rw [noteDiscarded_eq]
    exact fun h => (back h).lists
  · rw [noteDiscarded_eq]
    exact fun h => (back h).saved

/-! ### Tokens -/

theorem checks_overriding? (lists : safe → l.lists.InRange) :
    Checks (overriding? l) (l.overriding?.map Choice.position) safe :=
  (checks_depth lists).bind (.pure _)

theorem checks_commitLine (saved : safe → l.saved.InRange) :
    Checks (commitLine l) l.commitLine safe :=
  (checks_continueBy saved 0).bind (.pure _)

theorem checks_takeBackMargin (saved : safe → l.saved.InRange) :
    Checks (takeBackMargin l) l.takeBackMargin safe := by
  refine (checks_pop? saved).bind ?_
  unfold Layout.takeBackMargin
  rcases l.saved.pop? with _ | ⟨_, _⟩ <;> exact .pure _

/-- Breaking the line at the chosen candidate, from where a candidate can be gone back to. -/
theorem checks_breakAt_of_safe {m : Layout} {choice : Choice}
    (suffix : choice.candidate :: choice.older <:+ m.pending) (pending : m.pending = l.pending)
    (keeps : m.Keeps l) :
    Checks (breakAt m config choice.position) (m.breakAt config choice) l.Safe := by
  refine checks_breakAt suffix fun safe => ?_
  have member : choice.candidate ∈ l.pending := pending ▸ suffix.subset List.mem_cons_self
  exact (safe.back _ member).of_keeps keeps

theorem checks_text (run : TextRun) :
    Checks (text l config run) (l.text config run) l.Safe := by
  unfold text Layout.text
  dsimp only
  generalize overflow : (if config.exceeds l.writeMargin.column run.width then
    l.writeMargin.pending.bestForOverflow? config.widthLimit else none) = overflow?
  cases overflow? with
  | none => exact .pure _
  | some choice =>
    split at overflow
    · exact checks_breakAt_of_safe (Pending.suffix_of_bestForOverflow? overflow)
        (pending_writeMargin l) (keeps_writeMargin l)
    · cases overflow

theorem checks_record (kind : BreakKind) : Checks (record l kind) (l.record kind) l.Safe :=
  (checks_depth Safe.lists).bind (.pure _)

theorem checks_openList (bracket : Bracket) :
    Checks (openList l bracket) (l.openList bracket) l.Safe := by
  have top : (l.lists.enter (.inside bracket .flat)).InRange := by
    simp [Trail.InRange, OpenLists.enter, Trail.push]
  have counted : (l.lists.enter (.inside bracket .flat)).depth = l.lists.depth + 1 := by
    simp [OpenLists.depth, OpenLists.enter, Trail.push, Trail.peek?, Trail.entry?]
  refine (checks_enter Safe.lists _).bind ((checks_depth fun _ => top).bind ?_)
  rw [counted]
  exact .pure _

theorem checks_hardBreak : Checks (hardBreak l config) (l.hardBreak config) l.Safe := by
  refine (checks_overriding? Safe.lists).bind ?_
  unfold Layout.hardBreak
  cases chosen : l.overriding? with
  | some choice => exact checks_breakAt_of_safe (Pending.suffix_of_bestAbove? chosen) rfl (.refl l)
  | none => exact (checks_commitLine Safe.saved).bind (.pure _)

theorem checks_indent : Checks (indent l config) (l.indent config) l.Safe := by
  have unchanged (safe : l.Safe) : l.saveMargin.lists.InRange := safe.lists
  refine (checks_overriding? unchanged).bind ?_
  unfold Layout.indent
  dsimp only
  cases chosen : l.saveMargin.overriding? with
  | some choice =>
    exact checks_breakAt_of_safe (Pending.suffix_of_bestAbove? chosen) rfl (keeps_saveMargin l)
  | none =>
    have pushed : l.saveMargin.saved.InRange := by simp [Trail.InRange, saveMargin, Trail.push]
    exact (checks_commitLine fun _ => pushed).bind (.pure _)

theorem checks_dedent : Checks (dedent l config) (l.dedent config) l.Safe := by
  refine (checks_top Safe.saved).bind_of_ok fun found => ?_
  -- in range, a trail without a topmost entry is an empty one
  have bottom : l.saved.entry? l.saved.top = none ↔ l.saved.isEmpty = true := by
    rw [← pop?_eq_none_iff_isEmpty (inRange_of_top found), Trail.pop?, Option.map_eq_none_iff]
  unfold Layout.dedent
  cases here : l.saved.entry? l.saved.top with
  | none =>
    rw [if_pos (bottom.1 here)]
    exact .pure _
  | some entry =>
    rw [if_neg (by simp [← bottom, here])]
    refine (checks_overriding? Safe.lists).bind ?_
    cases chosen : l.overriding? with
    | some choice =>
      exact (checks_breakAt_of_safe (Pending.suffix_of_bestAbove? chosen) rfl (.refl l)).bind
        (.pure _)
    | none =>
      have committed : l.commitLine.saved = l.saved := by rw [commitLine_eq]
      have popped : l.commitLine.saved.pop? =
          some (entry.value, { l.saved with top := entry.below }) := by
        rw [committed, Trail.pop?, here, Option.map_some]
      refine (checks_commitLine Safe.saved).bind ((checks_pop? (committed ▸ Safe.saved)).bind ?_)
      unfold Layout.takeBackMargin
      rw [popped]
      exact .pure _

theorem checks_closeList (bracket : Bracket) :
    Checks (closeList l bracket) (l.closeList bracket) l.Safe := by
  refine (checks_state Safe.lists).bind ?_
  unfold Layout.closeList
  cases l.lists.state with
  | outside => exact .pure _
  | inside opened shape =>
    dsimp only [ListState.delimiters?]
    split
    · refine (checks_leave Safe.lists).bind ?_
      split
      · refine checks_takeBackMargin fun safe => ?_
        rw [saved_writeClosing]
        exact safe.saved
      · exact .pure _
    · exact .pure _

theorem checks_step (l : Layout) (config : Config) (token : Token) :
    Checks (step l config token) (l.step config token) l.Safe := by
  rcases token with run | mark
  · exact (checks_text run).bind (.pure _)
  cases mark with
  | hardBreak => exact checks_hardBreak.bind (.pure _)
  | softBreak => exact (checks_record .soft).bind (.pure _)
  | separator => exact (checks_record .separator).bind (.pure _)
  | indent => exact checks_indent.bind (.pure _)
  | dedent => exact checks_dedent
  | opener bracket => exact (checks_openList bracket).bind (.pure _)
  | closer bracket => exact checks_closeList bracket

/-! ## Runs -/

/-- Lays out the tokens from the cursor on, with checks. -/
def run (l : Layout) (config : Config) (tokens : Array Token) : Except Miss Outcome :=
  match _ : tokens[l.cursor]? with
  | none => .ok (.done l)
  | some token =>
    match _ : step l config token with
    | .error miss => .error miss
    | .ok (.done next) => run next config tokens
    | .ok (.rejected fault left) => .ok (.rejected fault left)
termination_by l.remaining tokens.size
decreasing_by
  rename_i read taken
  -- where the checked step gets on, it is the plain one, which makes progress
  have same := (checks_step l config token).same taken
  exact remaining_lt (Array.getElem?_eq_some_iff.1 read).1 (step_progress same.symm)

theorem run_of_end {tokens : Array Token} (read : tokens[l.cursor]? = none) :
    run l config tokens = .ok (.done l) := by
  rw [run]
  split
  · rfl
  · simp_all

theorem run_of_done {tokens : Array Token} {token : Token} {next : Layout}
    (read : tokens[l.cursor]? = some token) (taken : step l config token = .ok (.done next)) :
    run l config tokens = run next config tokens := by
  rw [run]
  split
  · simp_all
  · split <;> simp_all

theorem run_of_rejected {tokens : Array Token} {token : Token} {fault : Fault} {left : Layout}
    (read : tokens[l.cursor]? = some token)
    (taken : step l config token = .ok (.rejected fault left)) :
    run l config tokens = .ok (.rejected fault left) := by
  rw [run]
  split
  · simp_all
  · split <;> simp_all

/-- From where steps lead, a whole run misses nothing. -/
theorem run_eq {stream : List Token} {usable : Config → Prop} {slice : Array Token}
    (reached : Reached stream usable l) (allowed : usable config)
    (part : slice.toList <+: stream) : run l config slice = .ok (l.run config slice) := by
  fun_induction Layout.run l config slice with
  | case1 l read => exact run_of_end read
  | case2 l token read next taken ih =>
    have hit := (checks_step l config token).hits reached.safe
    rw [taken] at hit
    rw [run_of_done read hit]
    exact ih (.step reached allowed (getElem?_of_slice part read) taken)
  | case3 l token read fault left taken =>
    have hit := (checks_step l config token).hits reached.safe
    rw [taken] at hit
    exact run_of_rejected read hit

end Checked

/-! ## Engines -/

/-- What a refused token leaves behind is safe too. -/
theorem Layout.Refused.safe {l left : Layout} {token : Token} {fault : Fault}
    (refused : Refused l token fault left) (sound : l.Sound) (safe : l.Safe) : left.Safe := by
  have stays := refused.staysOnLine
  cases refused with
  | @unsaved bracket rest inner bottom =>
    obtain ⟨depth, popped⟩ := OpenLists.pop?_of_leave? inner
    refine ⟨?_, ?_, ?_⟩
    · rw [lists_writeClosing]
      exact (sound.lists.of_pop? popped).top_le
    · rw [saved_writeClosing]
      exact safe.saved
    · rw [pending_writeClosing]
      exact fun c member => (safe.back c member).of_keeps stays.keeps
  | _ => exact safe

namespace Engine

/-- Lays out the tokens that are not laid out yet, with checks. -/
def checkedRun (engine : Engine) (tokens : Array Token) : Except Miss Engine :=
  match engine.fault? with
  | some _ => .ok engine
  | none => do return engine.settle (← Checked.run engine.layout engine.config tokens)

variable {stream : List Token} {engine : Engine}

theorem Reachable.safe (reachable : Reachable stream engine) : engine.layout.Safe := by
  cases reachable.stands with
  | working reached _ => exact reached.safe
  | stopped reached _ rejected _ =>
    have sound := reached.straight.sound
    exact (Layout.step_refused sound rejected).safe sound reached.safe

/-- However an engine came to stand where it stands, its trails are in range, it can go back to
every pending candidate, and no access of a further run misses: with checks the run gives what it
gives without them. -/
theorem accesses_never_miss (reachable : Reachable stream engine) :
    engine.layout.Safe ∧
      ∀ slice : Array Token, slice.toList <+: stream →
        engine.checkedRun slice = .ok (engine.run slice) := by
  refine ⟨reachable.safe, ?_⟩
  intro slice part
  cases faulty : engine.fault? with
  | some fault => simp only [checkedRun, Engine.run, faulty]
  | none =>
    simp only [checkedRun, Engine.run, faulty]
    rw [Checked.run_eq (reachable.reached faulty) trivial part]
    rfl

/-- Letters of several bytes, two lines broken under different settings, and a token that is refused
in the end. -/
theorem accesses_never_miss_refused :
    let stream : List Token :=
      [.plain "λx", .mark (.opener .paren), .plain "αβγ", .mark .softBreak, .plain "δε",
        .mark (.closer .paren), .mark .indent, .plain "ζ", .mark .dedent, .mark .dedent]
    let engine := (Engine.run { config := ⟨4, 2⟩ } (stream.take 3).toArray).setConfig ⟨6, 1⟩
    Reachable stream engine ∧ engine.layout.fired = [1] ∧
      (engine.run stream.toArray).layout.fired = [3, 1] ∧
      (engine.run stream.toArray).fault? = some (.unindented 9) ∧
      engine.checkedRun stream.toArray = .ok (engine.run stream.toArray) := by
  intro stream engine
  have reachable : Reachable stream engine :=
    .setConfig ⟨6, 1⟩ (.run (.create ⟨4, 2⟩) (List.take_prefix 3 stream))
  obtain ⟨-, hits⟩ := accesses_never_miss reachable
  exact ⟨reachable, by decide +kernel, by decide +kernel, by decide +kernel,
    hits stream.toArray (List.prefix_refl _)⟩

end Engine

end LineLayout
