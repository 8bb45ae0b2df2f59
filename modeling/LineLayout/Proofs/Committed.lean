import LineLayout.Proofs.Past

/-!
# What is committed stays

The output in front of the oldest pending candidate is committed: an engine only goes back to
pending candidates, and later ones are left behind what is written by then. `Committed` is that
invariant, one reading keeps it (`Committed.read`), and so does a whole life (`Leads.committed`).
When a line starts nothing is pending, so the output is committed up to the start of each line.
-/

namespace LineLayout

theorem Output.exists_write_of_size_le {a b : Output} {s t : String}
    (same : a.write s = b.write t) (le : a.size ≤ b.size) : ∃ text, b = a.write text := by
  have texts : a.text.toList ++ s.toList = b.text.toList ++ t.toList := by
    have joined : a.text ++ s = b.text ++ t := congrArg Output.text same
    rw [← String.toList_append, ← String.toList_append, joined]
  rcases List.append_eq_append_iff.1 texts with ⟨rest, longer, -⟩ | ⟨rest, longer, -⟩
  · refine ⟨String.ofList rest, ?_⟩
    obtain ⟨text⟩ := b
    simp only [write, Output.mk.injEq]
    rw [← String.ofList_toList (s := text), longer, String.ofList_append, String.ofList_toList]
  · -- then both are equally long, and nothing is left of the rest
    have size : a.size = b.size + Text.byteLength rest := by
      simp only [Output.size, ← Text.byteLength_toList, longer, Text.byteLength_append]
    have none : rest = [] := by
      cases rest with
      | nil => rfl
      | cons c cs =>
        have := c.utf8Size_pos
        simp only [Text.byteLength] at size
        omega
    refine ⟨"", ?_⟩
    rw [none, List.append_nil] at longer
    obtain ⟨text⟩ := b
    simp only [write, String.append_empty, Output.mk.injEq]
    exact String.toList_inj.1 longer.symm

namespace Layout

variable {l past next : Layout} {config : Config} {token : Token} {choice : Choice} {kept : Output}

/-- How much of the output is committed: what was written when the oldest pending candidate was
left, or all of it if none is pending. -/
def committedSize (l : Layout) : Nat :=
  match l.pending.getLast? with
  | some oldest => oldest.before.size
  | none => l.output.size

/-- The output goes on from `kept`, and no pending candidate goes back further. -/
structure Committed (l : Layout) (kept : Output) : Prop where
  written : ∃ text, l.output = kept.write text
  ahead : ∀ c ∈ l.pending, kept.size ≤ c.before.size

theorem Committed.size_le (committed : Committed l kept) : kept.size ≤ l.output.size := by
  obtain ⟨text, written⟩ := committed.written
  rw [written, Output.size_write]
  exact Nat.le_add_right _ _

theorem Committed.stays (committed : Committed l kept)
    (stays : StaysOnLine l (l.candidate? token) next) : Committed next kept where
  written := by
    obtain ⟨text, written⟩ := committed.written
    obtain ⟨more, grown⟩ := stays.keeps.output
    exact ⟨text ++ more, by rw [grown, written, Output.write_write]⟩
  ahead := by
    intro c member
    rw [stays.pending, List.mem_append, Option.mem_toList] at member
    rcases member with offered | older
    · obtain ⟨kind, -, rfl⟩ := Option.map_eq_some_iff.1 offered
      rw [before_candidate]
      exact committed.size_le
    · exact committed.ahead c older

theorem Committed.starts (starts : StartsLine l next)
    (written : ∃ text, next.output = kept.write text) : Committed next kept where
  written := written
  ahead := by
    intro c member
    rw [starts.pending] at member
    cases member

theorem Back.output (back : Back l config token choice next) (keeps : l.Keeps past)
    (before : choice.candidate.before = past.snapshot) :
    ∃ text, next.output = past.output.write text := by
  obtain ⟨m, grown, -, rfl⟩ := back.exists_breakAt
  obtain ⟨journal, landed, -⟩ := breakAt_eq (grown.trans keeps) before
  obtain ⟨opening, written⟩ :=
    output_breakLine (past.resume journal) config choice.candidate.kind
  rw [landed, written]
  exact ⟨opening ++ "\n", Output.write_write _ _ _⟩

/-- A step keeps what is committed, as long as each pending candidate leads back to a layout that
is kept. -/
theorem Committed.step (committed : Committed l kept)
    (recalled : ∀ c ∈ l.pending, ∃ past : Layout, l.Keeps past ∧ c.before = past.snapshot)
    (done : l.step config token = .done next) : Committed next kept := by
  rcases step_cases done with forward | ⟨choice, back⟩
  · rcases forward.line with starts | stays
    · refine .starts starts ?_
      obtain ⟨text, written⟩ := committed.written
      obtain ⟨more, grown⟩ := forward.keeps.output
      exact ⟨text ++ more, by rw [grown, written, Output.write_write]⟩
    · exact committed.stays stays
  · refine .starts back.startsLine ?_
    obtain ⟨past, keeps, before⟩ := recalled choice.candidate back.mem
    obtain ⟨more, landed⟩ := back.output keeps before
    -- what is committed is no longer than the output that the layout goes back to
    have le : kept.size ≤ past.output.size := by
      have ahead := committed.ahead choice.candidate back.mem
      rwa [before] at ahead
    obtain ⟨text, written⟩ := committed.written
    obtain ⟨since, grown⟩ := keeps.output
    obtain ⟨between, longer⟩ := Output.exists_write_of_size_le (written.symm.trans grown) le
    exact ⟨between ++ more, by rw [landed, longer, Output.write_write]⟩

end Layout

namespace Engine

variable {stream : List Token} {config : Config} {past more : List Engine}
  {first engine later : Engine} {token : Token} {kept : Output}

theorem Leads.trans (leads : Leads stream first past engine)
    (further : Leads stream engine more later) : Leads stream first (more ++ past) later := by
  induction further with
  | refl => exact leads
  | read _ sane next ih => exact ih.read sane next
  | setConfig config _ ih => exact ih.setConfig config

/-- An engine that stood in front of a token has read it, and went on from there. -/
theorem Leads.split (leads : Leads stream first past engine) {earlier : Engine}
    (member : earlier ∈ past) :
    ∃ older newer token, Leads stream first older earlier ∧ earlier.fault? = none ∧
      stream[earlier.layout.cursor]? = some token ∧
      Leads stream (earlier.read token) newer engine := by
  induction leads with
  | refl => cases member
  | setConfig config _ ih =>
    obtain ⟨older, newer, token, before, sane, next, after⟩ := ih member
    exact ⟨older, newer, token, before, sane, next, after.setConfig config⟩
  | @read past engine token leads sane next ih =>
    cases member with
    | head => exact ⟨past, [], token, leads, sane, next, .refl⟩
    | tail _ member =>
      obtain ⟨older, newer, token', before, sane', next', after⟩ := ih member
      exact ⟨older, _, token', before, sane', next', after.read sane next⟩

theorem Leads.exists_keeps (leads : Leads stream { config := config } past engine) {c : Candidate}
    (pending : c ∈ engine.layout.pending) :
    ∃ earlier : Engine, engine.layout.Keeps earlier.layout ∧
      c.before = earlier.layout.snapshot := by
  obtain ⟨earlier, member, same, -, kind, -, -, rfl⟩ := leads.mem_pending_iff.1 pending
  have keeps := leads.keeps_of_lines (stands_create stream config) member same
  exact ⟨earlier, keeps, Layout.before_candidate _ kind⟩

/-! ## Reading keeps what is committed -/

theorem Leads.committed_read (leads : Leads stream { config := config } past engine)
    (sane : engine.fault? = none) (token : Token) (committed : engine.layout.Committed kept) :
    (engine.read token).layout.Committed kept := by
  unfold Engine.read
  cases taken : engine.layout.step engine.config token with
  | done next =>
    refine committed.step ?_ taken
    intro c pending
    obtain ⟨earlier, keeps, before⟩ := leads.exists_keeps pending
    exact ⟨earlier.layout, keeps, before⟩
  | rejected fault left =>
    have sound := (leads.stands (stands_create stream config)).sound sane
    exact committed.stays (Layout.step_refused sound taken).staysOnLine

theorem Leads.committed (leads : Leads stream { config := config } past engine)
    (further : Leads stream engine more later) (committed : engine.layout.Committed kept) :
    later.layout.Committed kept := by
  induction further with
  | refl => exact committed
  | read further sane _ ih => exact (leads.trans further).committed_read sane _ ih
  | setConfig _ _ ih => exact ih

theorem Leads.pairwise_size (leads : Leads stream { config := config } past engine) :
    engine.layout.pending.Pairwise fun newer older => older.before.size ≤ newer.before.size := by
  induction leads with
  | refl => exact List.Pairwise.nil
  | setConfig _ _ ih => exact ih
  | @read past engine token leads sane next ih =>
    have sound := (leads.stands (stands_create stream config)).sound sane
    rcases read_line sound token with starts | stays
    · rw [starts.pending]
      exact List.Pairwise.nil
    · rw [stays.pending]
      unfold Layout.candidate?
      cases token.breakKind? with
      | none => exact ih
      | some kind =>
        refine List.Pairwise.cons ?_ ih
        intro c older
        obtain ⟨earlier, keeps, before⟩ := leads.exists_keeps older
        obtain ⟨text, written⟩ := keeps.output
        rw [before, Layout.before_candidate]
        simp [Layout.snapshot, written, Output.size_write]

theorem Leads.exists_committed (leads : Leads stream { config := config } past engine) :
    ∃ kept : Output, kept.size = engine.layout.committedSize ∧ engine.layout.Committed kept := by
  unfold Layout.committedSize
  cases last : engine.layout.pending.getLast? with
  | none =>
    have empty : engine.layout.pending = [] := List.getLast?_eq_none_iff.1 last
    refine ⟨engine.layout.output, rfl, ⟨"", by simp [Output.write]⟩, ?_⟩
    intro c member
    simp [empty] at member
  | some oldest =>
    obtain ⟨newer, split⟩ := List.getLast?_eq_some_iff.1 last
    have ordered := leads.pairwise_size
    rw [split, List.pairwise_append] at ordered
    obtain ⟨earlier, keeps, before⟩ := leads.exists_keeps (List.mem_of_getLast? last)
    refine ⟨earlier.layout.output, ?_, keeps.output, ?_⟩
    · exact (congrArg Snapshot.size before).symm
    · intro c member
      have oldest_le : oldest.before.size ≤ c.before.size := by
        rw [split, List.mem_append, List.mem_singleton] at member
        rcases member with newer' | rfl
        · exact ordered.2.2 c newer' oldest (List.mem_singleton_self oldest)
        · exact Nat.le_refl _
      rwa [before] at oldest_le

/-- Whatever is read later and under whatever settings, the output in front of the oldest pending
candidate stays as it is. So does the output up to the start of each line, with the line end in
front of it. -/
theorem committed_output_stays (leads : Leads stream { config := config } past engine)
    (further : Leads stream engine more later) :
    (∃ kept rest, Text.upTo? engine.text engine.layout.committedSize = some kept ∧
      later.text = kept ++ rest) ∧
    ∀ earlier ∈ past, ∀ token, stream[earlier.layout.cursor]? = some token →
      earlier.layout.lines < (earlier.read token).layout.lines →
      ∃ body rest, (earlier.read token).text = body ++ "\n" ∧
        later.text = (earlier.read token).text ++ rest := by
  constructor
  · obtain ⟨kept, size, committed⟩ := leads.exists_committed
    obtain ⟨text, written⟩ := committed.written
    obtain ⟨rest, later_written⟩ := (leads.committed further committed).written
    refine ⟨kept.text, rest, ?_, congrArg Output.text later_written⟩
    exact Text.upTo?_eq_some_iff.2 ⟨size, text, congrArg Output.text written⟩
  · intro earlier member token next more_lines
    obtain ⟨older, newer, token', before, sane, next', after⟩ := leads.split member
    obtain rfl : token = token' := by simpa using next.symm.trans next'
    have sound := (before.stands (stands_create stream config)).sound sane
    rcases read_line sound token with starts | stays
    · obtain ⟨body, newline⟩ := starts.newline
      -- nothing is pending when a line starts, so all of the output is committed
      have committed : (earlier.read token).layout.Committed (earlier.read token).layout.output :=
        .starts starts ⟨"", by simp [Output.write]⟩
      obtain ⟨rest, written⟩ :=
        ((before.read sane next).committed (after.trans further) committed).written
      exact ⟨body.text, rest, congrArg Output.text newline, congrArg Output.text written⟩
    · have same := stays.lines
      omega

/-- A soft break is pending when the settings change, and the engine goes back to it in the next
run. What stood in front of it is still there, and so is the line in front. -/
theorem committed_output_stays_resized :
    let stream : List Token :=
      [.plain "alpha", .mark .hardBreak, .plain "beta", .mark .softBreak, .plain "gamma",
        .plain "delta"]
    let inside := Engine.read { config := ⟨80, 2⟩ } (.plain "alpha")
    let begun := inside.read (.mark .hardBreak)
    let engine := begun.run (stream.take 5).toArray
    let later := (engine.setConfig ⟨12, 1⟩).run stream.toArray
    engine.text = "alpha\nbetagamma" ∧ later.text = "alpha\nbeta\n  gammadelta" ∧
      engine.layout.committedSize = 10 ∧
      (∃ kept rest, Text.upTo? engine.text 10 = some kept ∧ later.text = kept ++ rest) ∧
      begun.text = "alpha\n" ∧ ∃ rest, later.text = begun.text ++ rest := by
  intro stream inside begun engine later
  have created : Leads stream { config := ⟨80, 2⟩ } [] { config := ⟨80, 2⟩ } := .refl
  have started : Leads stream _ _ begun := (created.read rfl rfl).read rfl rfl
  have part : (stream.take 5).toArray.toList <+: stream := List.take_prefix 5 stream
  have whole : stream.toArray.toList <+: stream := List.prefix_refl stream
  obtain ⟨newer, leads⟩ := started.run part
  have standing : Leads stream engine [] engine := .refl
  obtain ⟨more, further⟩ := (standing.setConfig ⟨12, 1⟩).run whole
  obtain ⟨kept, lines⟩ := committed_output_stays leads further
  have size : engine.layout.committedSize = 10 := by decide +kernel
  rw [show Engine.run begun _ = engine from rfl, size] at kept
  have member : inside ∈ newer ++ [inside, { config := ⟨80, 2⟩ }] := by simp
  obtain ⟨_, rest, -, final⟩ := lines inside member (.mark .hardBreak) rfl (by decide +kernel)
  exact ⟨by decide +kernel, by decide +kernel, size, kept, by decide +kernel, rest, final⟩

end Engine

end LineLayout
