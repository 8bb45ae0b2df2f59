import LineLayout.Proofs.Incremental
import LineLayout.Proofs.Open

/-!
# Changing the indent unit

A printer lays out what it has collected before it takes new settings over. But candidates of the
tokens laid out may still be pending, and an overflow later on goes back to them: a soft break or a
bracket is then broken by the new unit, and tokens emitted before the change move with it.

That is the only way. Behind the oldest pending candidate no token ends its line, so nothing that is
read again looks at the unit, and breaking at a separator does not either (`Reached.run_congr`).
-/

namespace LineLayout

theorem Pending.horizon_mem {pending : Pending} (filled : pending ≠ []) (bound : Nat) :
    horizon bound pending ∈ pending.map Candidate.index := by
  induction pending generalizing bound with
  | nil => exact absurd rfl filled
  | cons c older ih =>
    by_cases none : older = []
    · rw [none]
      exact List.mem_cons_self
    · exact List.mem_cons_of_mem _ (ih none c.index)

namespace Layout

variable {tokens : List Token} {usable : Config → Prop} {l next : Layout} {first second : Config}
  {token : Token} {slice : Array Token}

/-! ## Behind the oldest candidate -/

/-- From the oldest pending candidate on, no token has ended its line. -/
theorem Straight.endsLine_of_horizon_le (straight : Straight tokens usable l) {index : Nat}
    (after : l.horizon ≤ index) (before : index < l.cursor) (read : tokens[index]? = some token) :
    token.endsLine = false := by
  by_cases none : l.pending = []
  · rw [horizon, none] at after
    exact absurd before (Nat.not_lt.2 after)
  · have oldest := Pending.horizon_mem none l.cursor
    obtain ⟨-, -, together⟩ := (straight.mem_pending_iff _).1 oldest
    by_contra ends
    exact together index after before (Or.inr ⟨token, read, by simpa using ends⟩)

theorem Straight.index_notMem_fired (straight : Straight tokens usable l) {c : Candidate}
    (pending : c ∈ l.pending) : c.index ∉ l.fired := by
  obtain ⟨below, -, together⟩ := (straight.mem_pending_iff _).1 (List.mem_map_of_mem pending)
  intro broken
  exact together c.index (Nat.le_refl _) below (Or.inl broken)

theorem Reached.kind_of_separator (reached : Reached tokens usable l) {c : Candidate}
    (pending : c ∈ l.pending) (read : tokens[c.index]? = some (.mark .separator)) :
    c.kind = .separator := by
  obtain ⟨past, recalls⟩ := reached.recalls.2 c pending
  obtain ⟨token, kind, read', breaks, rfl⟩ := recalls.offered
  rw [index_candidate, read', Option.some.injEq] at read
  subst read
  cases breaks
  rfl

/-! ## Steps that do not look at the unit -/

theorem Back.step_eq {choice : Choice} (back : Back l first token choice next) :
    l.step first token = .done next := by
  cases back with
  | overflow exceeds chosen => simp [step, Layout.text, exceeds, chosen]
  | hardBreak chosen => simp [step, Layout.hardBreak, chosen]
  | indent chosen =>
    -- saving the margin changes neither the candidates nor the depth
    have chosen' : l.saveMargin.overriding? = some _ := chosen
    simp [step, Layout.indent, chosen']
  | dedent indented chosen => simp [step, Layout.dedent, indented, chosen]

theorem breakAt_of_separator (l : Layout) {choice : Choice}
    (kind : choice.candidate.kind = .separator) :
    l.breakAt first choice = l.breakAt second choice := by
  unfold breakAt
  dsimp only
  rw [kind]
  rfl

/-- As long as the line is broken at separators only, a token that does not end its line does the
same under settings that differ in the unit only. -/
theorem step_congr (limit : first.widthLimit = second.widthLimit) (whole : token.endsLine = false)
    (separators : ∀ choice next, Back l first token choice next →
      choice.candidate.kind = .separator) :
    l.step first token = l.step second token := by
  rcases token with run | mark
  · have exceeds : first.exceeds l.writeMargin.column run.width =
        second.exceeds l.writeMargin.column run.width := by
      unfold Config.exceeds
      rw [limit]
    unfold step text
    dsimp only
    rw [← exceeds, ← limit]
    split
    · rename_i choice chosen
      split at chosen
      · rename_i past
        rw [pending_writeMargin] at chosen
        have kind := separators choice _ (.overflow past chosen)
        rw [breakAt_of_separator _ kind]
      · cases chosen
    · rfl
  cases mark with
  | hardBreak | indent | dedent => cases whole
  | softBreak | separator | opener | closer => rfl

/-! ## Runs that do not look at the unit -/

/-- Settings that differ in the unit only lay the rest of a stream out in the same way, if no token
that may be read ends its line and the line is broken at separators only. -/
theorem Reached.run_congr (reached : Reached slice.toList usable l) (allowed : usable first)
    (limit : first.widthLimit = second.widthLimit)
    (whole : ∀ index token, l.horizon ≤ index → slice[index]? = some token →
      token.endsLine = false)
    (separators : ∀ index ∈ (l.run first slice).layout.fired,
      index ∈ l.fired ∨ slice[index]? = some (.mark .separator)) :
    l.run first slice = l.run second slice := by
  fun_induction run l first slice with
  | case1 l read => rw [run_of_end read]
  | case2 l token read next taken ih =>
    have reached' := reached.step allowed (by simpa using read) taken
    obtain ⟨more, later, -⟩ := reached'.fired_run allowed
    have same : l.step first token = l.step second token := by
      apply step_congr limit (whole _ _ l.horizon_le_cursor read)
      intro choice next' back
      obtain rfl : next' = next := Outcome.done.inj (back.step_eq.symm.trans taken)
      have broken : choice.candidate.index ∈ (next'.run first slice).layout.fired := by
        rw [later, back.fired]
        simp
      rcases separators _ broken with before | separator
      · exact absurd before (reached.straight.index_notMem_fired back.mem)
      · exact reached.kind_of_separator back.mem (by simpa using separator)
    have ground := (step_progress taken).horizon_le
    rw [run_of_done read (same ▸ taken)]
    apply ih reached'
    · intro index token after
      exact whole index token (Nat.le_trans ground after)
    · intro index member
      rcases separators index member with before | separator
      · left
        rcases step_cases taken with forward | ⟨choice, back⟩
        · rwa [forward.fired]
        · rw [back.fired]
          exact List.mem_cons_of_mem _ before
      · exact Or.inr separator
  | case3 l token read fault left taken =>
    have same : l.step first token = l.step second token := by
      apply step_congr limit (whole _ _ l.horizon_le_cursor read)
      intro choice next back
      rw [back.step_eq] at taken
      cases taken
    rw [run_of_rejected read (same ▸ taken)]

end Layout

/-! ## Sessions -/

namespace Printer

/-- A printer that collects tokens, changes its settings and collects some more. -/
def session (initial : Config) (before : List Token) (config : Config) (after : List Token) :
    Printer :=
  (((ofConfig initial).emitAll before).setConfig config).1.emitAll after

/-- What is emitted before the change is laid out under the old settings, and the change is made
unless a token was refused. -/
theorem session_eq (initial : Config) (before : List Token) (config : Config)
    (after : List Token) :
    session initial before config after =
      { tokens := (before ++ after).toArray
        engine :=
          match (Engine.run { config := initial } before.toArray).fault? with
          | some _ => Engine.run { config := initial } before.toArray
          | none => (Engine.run { config := initial } before.toArray).setConfig config } := by
  have collected : ((ofConfig initial).emitAll before).tokens = before.toArray := by
    simp [ofConfig, emitAll]
  have created : ((ofConfig initial).emitAll before).engine = { config := initial } := rfl
  have careful := (careful_ofConfig initial).emitAll before
  rw [session, careful.setConfig_eq, collected, created]
  cases (Engine.run { config := initial } before.toArray).fault? <;> simp [emitAll]

theorem careful_session (initial : Config) (before : List Token) (config : Config)
    (after : List Token) : Careful (session initial before config after) :=
  (((careful_ofConfig initial).emitAll before).setConfig config).emitAll after

theorem Careful.render_of_sane {printer : Printer} (careful : Careful printer)
    (sane : printer.render.1.engine.fault? = none) :
    printer.render.2 = .ok printer.render.1.engine.text := by
  rw [careful.render_eq] at sane ⊢
  rw [Engine.result, sane]

end Printer

namespace Engine

/-- Settings that differ in the unit only lay out runs of text in the same way behind a stream that
is laid out, if these break the line at separators only. -/
theorem run_setConfig_congr {initial first second : Config} {before after : List Token}
    (sane : (Engine.run { config := initial } before.toArray).fault? = none)
    (limit : first.widthLimit = second.widthLimit)
    (texts : ∀ token ∈ after, ∃ run, token = .text run)
    (separators : ∀ index ∈ (((Engine.run { config := initial } before.toArray).setConfig first).run
        (before ++ after).toArray).layout.fired,
      index ∈ (Engine.run { config := initial } before.toArray).layout.fired ∨
        (before ++ after)[index]? = some (.mark .separator)) :
    (((Engine.run { config := initial } before.toArray).setConfig first).run
        (before ++ after).toArray).result =
      (((Engine.run { config := initial } before.toArray).setConfig second).run
        (before ++ after).toArray).result := by
  have part : before.toArray.toList <+: (before ++ after).toArray.toList := by simp
  have ends : Layout.Ends (before ++ after).toArray.toList (fun _ => True) initial before.toArray
      (Layout.run {} initial before.toArray) := Layout.run_ends .start trivial part
  simp only [Engine.run, setConfig] at sane separators ⊢
  generalize Layout.run {} initial before.toArray = outcome at ends sane separators
  cases ends with
  | refused _ _ _ => cases sane
  | @finished l reached read =>
    simp only [settle] at separators ⊢
    have same : l.run first (before ++ after).toArray = l.run second (before ++ after).toArray := by
      apply reached.run_congr trivial limit
      · intro index token behind read'
        rcases Nat.lt_or_ge index l.cursor with passed | ahead
        · exact reached.straight.endsLine_of_horizon_le behind passed (by simpa using read')
        · have emitted : before.length ≤ index := Nat.le_trans (by simpa using read) ahead
          rw [List.getElem?_toArray, List.getElem?_append_right emitted] at read'
          obtain ⟨run, rfl⟩ := texts token (List.mem_of_getElem? read')
          rfl
      · intro index member
        rw [← layout_settle { config := first, layout := l }] at member
        rw [List.getElem?_toArray]
        exact separators index member
    rw [same]
    cases l.run second (before ++ after).toArray <;> rfl

end Engine

/-- A change of the indent unit affects only what is emitted afterwards, except that the line may be
broken by the new unit at a soft break or at a bracket emitted before. If the runs of text emitted
after the change break the line at separators only, they are laid out in the same way under either
unit, and so is what was emitted before. -/
theorem unit_change_only_through_rewind {initial : Config} {before after : List Token}
    (limit unit other : Nat) (texts : ∀ token ∈ after, ∃ run, token = .text run)
    (separators : ∀ index ∈
        (Printer.session initial before ⟨limit, unit⟩ after).render.1.engine.layout.fired,
      index ∈ (Engine.run { config := initial } before.toArray).layout.fired ∨
        (before ++ after)[index]? = some (.mark .separator)) :
    (Printer.session initial before ⟨limit, unit⟩ after).render.2 =
      (Printer.session initial before ⟨limit, other⟩ after).render.2 := by
  have careful (config : Config) := Printer.careful_session initial before config after
  simp only [(careful _).render_eq] at separators ⊢
  simp only [Printer.session_eq] at separators ⊢
  cases sane : (Engine.run { config := initial } before.toArray).fault? with
  | some fault => rfl
  | none =>
    simp only [sane] at separators ⊢
    exact Engine.run_setConfig_congr sane rfl texts separators

/-- The run emitted after the change breaks the line at the separator, and what stands behind that
moves to the next line under either unit. -/
theorem unit_change_only_through_rewind_separator :
    let before : List Token := [.plain "ab", .mark .separator, .plain "c"]
    let after : List Token := [.plain "def"]
    (Printer.session {} before ⟨4, 1⟩ after).render.1.engine.layout.fired = [1] ∧
      (Printer.session {} before ⟨4, 1⟩ after).render.2 =
        (Printer.session {} before ⟨4, 7⟩ after).render.2 ∧
      (Printer.session {} before ⟨4, 7⟩ after).render.2 = .ok "ab\ncdef" := by
  intro before after
  have fired : (Printer.session {} before ⟨4, 1⟩ after).render.1.engine.layout.fired = [1] := by
    decide +kernel
  have separators : ∀ index ∈
      (Printer.session {} before ⟨4, 1⟩ after).render.1.engine.layout.fired,
      index ∈ (Engine.run { config := {} } before.toArray).layout.fired ∨
        (before ++ after)[index]? = some (.mark .separator) := by
    rw [fired]
    decide +kernel
  have sane : (Printer.session {} before ⟨4, 7⟩ after).render.1.engine.fault? = none := by
    decide +kernel
  have text : (Printer.session {} before ⟨4, 7⟩ after).render.1.engine.text = "ab\ncdef" := by
    decide +kernel
  have texts : ∀ token ∈ after, ∃ run, token = .text run := by
    intro token member
    exact ⟨_, List.mem_singleton.1 member⟩
  refine ⟨fired, unit_change_only_through_rewind 4 1 7 texts separators, ?_⟩
  rw [(Printer.careful_session _ _ _ _).render_of_sane sane, text]

/-- A soft break emitted before the change is broken by the new unit, and the run behind it moves,
though it was emitted before the change too. -/
theorem unit_change_moves_earlier_tokens :
    let before : List Token := [.plain "ab", .mark .softBreak, .plain "c"]
    let after : List Token := [.plain "def"]
    (Printer.session {} before ⟨4, 1⟩ after).render.2 = .ok "ab\n  cdef" ∧
      (Printer.session {} before ⟨4, 2⟩ after).render.2 = .ok "ab\n    cdef" ∧
      ¬ ∀ (initial : Config) (before after : List Token) (limit unit other : Nat),
        (∀ token ∈ after, ∃ run, token = .text run) →
          (Printer.session initial before ⟨limit, unit⟩ after).render.2 =
            (Printer.session initial before ⟨limit, other⟩ after).render.2 := by
  intro before after
  have sane : (Printer.session {} before ⟨4, 1⟩ after).render.1.engine.fault? = none := by
    decide +kernel
  have text : (Printer.session {} before ⟨4, 1⟩ after).render.1.engine.text = "ab\n  cdef" := by
    decide +kernel
  have sane' : (Printer.session {} before ⟨4, 2⟩ after).render.1.engine.fault? = none := by
    decide +kernel
  have text' : (Printer.session {} before ⟨4, 2⟩ after).render.1.engine.text =
      "ab\n    cdef" := by decide +kernel
  have narrow : (Printer.session {} before ⟨4, 1⟩ after).render.2 = .ok "ab\n  cdef" := by
    rw [(Printer.careful_session _ _ _ _).render_of_sane sane, text]
  have deep : (Printer.session {} before ⟨4, 2⟩ after).render.2 = .ok "ab\n    cdef" := by
    rw [(Printer.careful_session _ _ _ _).render_of_sane sane', text']
  refine ⟨narrow, deep, ?_⟩
  intro unaffected
  have same := unaffected {} before after 4 1 2 (by
    intro token member
    exact ⟨_, List.mem_singleton.1 member⟩)
  rw [narrow, deep, Except.ok.injEq] at same
  exact absurd same (by decide)

end LineLayout
