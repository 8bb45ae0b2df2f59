import LineLayout.Proofs.Page

/-!
# Going back is sound

An engine that lays out a stream goes back and reads tokens again as often as it takes. In the end
it stands where one pass over the tokens leads that breaks the line at the tokens the engine went
back to, and nowhere else: the same text and column, the same margins, saved or not, the same open
brackets, and the same fault if there is one.
-/

namespace LineLayout

namespace Layout

variable {tokens : List Token} {l : Layout} {config : Config}

/-- A straight history under one configuration is one pass under it. -/
theorem Straight.laid_of_config (straight : Straight tokens (· = config) l) :
    Page.lay (fun _ => config) l.fired (tokens.take l.cursor) = .ok l.page := by
  obtain ⟨settings, uniform, laid⟩ := straight.laid
  rw [← laid]
  apply lay_take_congr
  intro index below
  exact ⟨(uniform index below).symm, Iff.rfl⟩

theorem Straight.laid_all (straight : Straight tokens (· = config) l)
    (done : tokens.length ≤ l.cursor) :
    Page.lay (fun _ => config) l.fired tokens = .ok l.page := by
  rw [← straight.laid_of_config, List.take_of_length_le done]

end Layout

namespace Engine

/-- The page on which an engine stands, and the fault it stands at. -/
def reading (engine : Engine) : Except (Fault × Page) Page :=
  match engine.fault? with
  | some fault => .error (fault, engine.layout.page)
  | none => .ok engine.layout.page

theorem reading_eq_ok {engine : Engine} {page : Page} (read : engine.reading = .ok page) :
    engine.fault? = none ∧ engine.layout.page = page := by
  unfold reading at read
  split at read
  · cases read
  · rename_i sane
    exact ⟨sane, Except.ok.inj read⟩

theorem run_ends (config : Config) (tokens : Array Token) :
    Layout.Ends tokens.toList (· = config) config tokens (Layout.run {} config tokens) :=
  Layout.run_ends .start rfl (List.prefix_refl _)

theorem reached_run {config : Config} {tokens : Array Token}
    (sane : (Engine.run { config := config } tokens).fault? = none) :
    Layout.Reached tokens.toList (· = config) (Engine.run { config := config } tokens).layout ∧
      (Engine.run { config := config } tokens).layout.cursor = tokens.size := by
  have ends := run_ends config tokens
  simp only [Engine.run] at sane ⊢
  generalize Layout.run {} config tokens = outcome at ends sane
  cases ends with
  | refused _ _ _ => cases sane
  | @finished last reached read =>
    have done : tokens.toList.length ≤ last.cursor := by simpa using read
    exact ⟨reached, Page.cursor_of_lay (reached.straight.laid_all done)⟩

theorem straight_run {config : Config} {tokens : Array Token}
    (sane : (Engine.run { config := config } tokens).fault? = none) :
    Layout.Straight tokens.toList (· = config) (Engine.run { config := config } tokens).layout ∧
      (Engine.run { config := config } tokens).layout.cursor = tokens.size := by
  obtain ⟨reached, cursor⟩ := reached_run sane
  exact ⟨reached.straight, cursor⟩

/-- The page of an engine and its fault are those of one pass with the line broken where the engine
went back to. -/
theorem reading_run (config : Config) (tokens : Array Token) :
    (Engine.run { config := config } tokens).reading =
      Page.lay (fun _ => config) (Engine.run { config := config } tokens).layout.fired
        tokens.toList := by
  have ends := run_ends config tokens
  simp only [Engine.run]
  generalize Layout.run {} config tokens = outcome at ends
  cases ends with
  | @finished last reached read =>
    have done : tokens.toList.length ≤ last.cursor := by simpa using read
    exact (reached.straight.laid_all done).symm
  | @refused last left fault token reached read rejected =>
    have straight := reached.straight
    have refused := Layout.step_refused straight.sound rejected
    have read' : tokens.toList[last.cursor]? = some token := by simpa using read
    have stopped :
        Page.lay (fun _ => config) last.fired tokens.toList = .error (fault, left.page) :=
      Page.lay_eq_error read' rfl straight.laid_of_config
        (Layout.page_refused refused straight.sound _)
    rw [settle, refused.fired, stopped]
    rfl

/-- Laying out a stream with going back is laying it out in one pass, with the line broken exactly
at the tokens that were gone back to. Each of these offers a break. -/
theorem reading_run_eq_lay (config : Config) (tokens : Array Token) :
    (Engine.run { config := config } tokens).reading =
        Page.lay (fun _ => config) (Engine.run { config := config } tokens).layout.fired
          tokens.toList ∧
      ∀ index ∈ (Engine.run { config := config } tokens).layout.fired, ∃ token kind,
        tokens[index]? = some token ∧ token.breakKind? = some kind := by
  refine ⟨reading_run config tokens, ?_⟩
  intro index member
  have ends := run_ends config tokens
  simp only [Engine.run] at member
  generalize Layout.run {} config tokens = outcome at ends member
  cases ends with
  | finished reached _ => simpa using (reached.straight.of_mem_fired member).2
  | refused reached _ rejected =>
    have straight := reached.straight
    rw [settle, (Layout.step_refused straight.sound rejected).fired] at member
    simpa using (straight.of_mem_fired member).2

end Engine

end LineLayout
