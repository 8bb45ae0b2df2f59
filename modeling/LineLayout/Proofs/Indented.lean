import LineLayout.Proofs.Incremental
import LineLayout.Proofs.WellNested

/-!
# Indents are taken back

An indent saves the margin, and its dedent takes the margin back. Between them brackets may save
and take back margins of their own, on the same stack, and which of them do is not known in advance:
that depends on where the line is broken. But whatever is broken, a balanced word leaves both stacks
as it found them (`Page.layFrom_balanced`). So the dedent behind it finds the margin that its indent
saved.

The engine may go back many times on its way, but never in front of the line that the indent ends.
-/

namespace LineLayout

/-! ## Balanced words on a page -/

namespace Page

/-- What a pair that is opened on the page `outer` leaves on the two stacks. -/
def Opened (outer inner : Page) : Pair → Prop
  | .bracket bracket => ∃ shape, inner.lists = .inside bracket shape :: outer.lists ∧
      inner.saved = if shape = .broken then outer.margin :: outer.saved else outer.saved
  | .indentation => inner.lists = outer.lists ∧ inner.saved = outer.margin :: outer.saved

variable {outer page : Page} {token : Token} {pair : Pair} {word : List Token}

theorem Opened.congr {inner page : Page} (opened : Opened outer inner pair)
    (lists : page.lists = inner.lists) (saved : page.saved = inner.saved) :
    Opened outer page pair := by
  cases pair with
  | bracket bracket =>
    obtain ⟨shape, lists', saved'⟩ := opened
    exact ⟨shape, lists.trans lists', saved.trans saved'⟩
  | indentation => exact ⟨lists.trans opened.1, saved.trans opened.2⟩

theorem place_of_plainPair (unopened : token.opensPair? = none) (bare : token.closesPair? = none)
    (config : Config) (broken : Bool) (page : Page) :
    ∃ next, page.place config broken token = .ok next ∧ next.lists = page.lists ∧
      next.saved = page.saved := by
  rcases token with run | mark
  · exact ⟨_, rfl, lists_writeMargin page, saved_writeMargin page⟩
  cases mark with
  | hardBreak => exact ⟨_, rfl, rfl, rfl⟩
  | softBreak => cases broken <;> exact ⟨_, rfl, rfl, rfl⟩
  | separator => cases broken <;> exact ⟨_, rfl, rfl, rfl⟩
  | indent | opener => cases unopened
  | dedent | closer => cases bare

theorem place_of_opensPair (opened : token.opensPair? = some pair) (config : Config)
    (broken : Bool) (page : Page) :
    ∃ next, page.place config broken token = .ok next ∧ Opened page next pair := by
  rcases token with run | mark
  · cases opened
  cases mark with
  | indent => cases opened; exact ⟨_, rfl, rfl, rfl⟩
  | opener bracket =>
    cases opened
    refine ⟨_, rfl, _, lists_offer_opener page config broken bracket, ?_⟩
    rw [saved_offer_opener]
    cases broken <;> rfl
  | hardBreak | softBreak | separator | dedent | closer => cases opened

theorem takeBackMargin_of_saved {margin : Margin} {saved : List Margin}
    (top : page.saved = margin :: saved) :
    page.takeBackMargin = .ok { page with margin := margin, saved := saved }.advance := by
  rw [takeBackMargin, top]

theorem dedent_of_saved {margin : Margin} {saved : List Margin}
    (top : page.saved = margin :: saved) :
    page.dedent = .ok { page.startLine with margin := margin, saved := saved }.advance := by
  have same : page.startLine.saved = margin :: saved := top
  rw [dedent, top]
  exact takeBackMargin_of_saved same

/-- A token that closes a pair is laid out on any page with the stacks that the pair left, and takes
off what the pair put on them. -/
theorem place_of_closesPair (closed : token.closesPair? = some pair) (config : Config)
    (broken : Bool) (inside : Opened outer page pair) :
    ∃ next, page.place config broken token = .ok next ∧ next.lists = outer.lists ∧
      next.saved = outer.saved := by
  rcases token with run | mark
  · cases closed
  cases mark with
  | dedent =>
    cases closed
    obtain ⟨lists, saved⟩ := inside
    exact ⟨_, dedent_of_saved saved, lists, rfl⟩
  | closer bracket =>
    cases closed
    obtain ⟨shape, lists, saved⟩ := inside
    rw [place, closeList, lists]
    simp only [if_true]
    cases shape with
    | flat => exact ⟨_, rfl, rfl, saved⟩
    | broken =>
      have top : ({ page with lists := outer.lists }.writeClosing bracket).saved =
          outer.margin :: outer.saved := (saved_writeClosing _ bracket).trans saved
      exact ⟨_, takeBackMargin_of_saved top, lists_writeClosing _ bracket, rfl⟩
  | hardBreak | softBreak | separator | indent | opener => cases closed

theorem exists_of_lay_indent {settings : Nat → Config} {breaks : List Nat} {front : List Token}
    (laid : lay settings breaks (front ++ [.mark .indent]) = .ok page) :
    ∃ before : Page,
      page = (before.startLine.moveIn (settings before.cursor).indentUnit).advance := by
  rw [lay_concat] at laid
  cases before : lay settings breaks front with
  | error _ => rw [before] at laid; cases laid
  | ok before' =>
    rw [before] at laid
    exact ⟨before', (Except.ok.inj laid).symm⟩

/-- Whatever is broken, a balanced word is laid out, and both stacks are then as they were. -/
theorem layFrom_balanced (balanced : Balanced Token.opensPair? Token.closesPair? word)
    (settings : Nat → Config) (breaks : List Nat) (page : Page) :
    ∃ next, layFrom settings breaks page word = .ok next ∧ next.lists = page.lists ∧
      next.saved = page.saved := by
  induction balanced generalizing page with
  | nil => exact ⟨page, rfl, rfl, rfl⟩
  | @plain token rest unopened bare _ ih =>
    obtain ⟨behind, placed, lists, saved⟩ := place_of_plainPair unopened bare
      (settings page.cursor) (decide (page.cursor ∈ breaks)) page
    obtain ⟨next, laid, lists', saved'⟩ := ih behind
    refine ⟨next, ?_, lists'.trans lists, saved'.trans saved⟩
    rw [layFrom_cons, placed]
    exact laid
  | @pair left right pair inner rest opened closed _ _ ihInner ihRest =>
    obtain ⟨entered, placed, inside⟩ := place_of_opensPair opened
      (settings page.cursor) (decide (page.cursor ∈ breaks)) page
    -- the inner word gives the stacks back, so the pair is still the innermost one
    obtain ⟨filled, laidInner, lists, saved⟩ := ihInner entered
    have still : Opened page filled pair := inside.congr lists saved
    obtain ⟨left', placed', lists', saved'⟩ := place_of_closesPair closed
      (settings filled.cursor) (decide (filled.cursor ∈ breaks)) still
    obtain ⟨next, laid, lists'', saved''⟩ := ihRest left'
    refine ⟨next, ?_, lists''.trans lists', saved''.trans saved'⟩
    rw [layFrom_cons, placed]
    show layFrom settings breaks entered (inner ++ right :: rest) = .ok next
    rw [layFrom_append, laidInner]
    show layFrom settings breaks filled (right :: rest) = .ok next
    rw [layFrom_cons, placed']
    exact laid

end Page

/-! ## Where a line has ended -/

theorem ListFrame.Counted.ext {frames others : List ListFrame} (counted : Counted frames)
    (counted' : Counted others) (same : frames.map (·.state) = others.map (·.state)) :
    frames = others := by
  induction frames generalizing others with
  | nil => exact (List.map_eq_nil_iff.1 same.symm).symm
  | cons frame outer ih =>
    obtain ⟨other, outer', rfl, state, below⟩ := List.map_eq_cons_iff.1 same.symm
    obtain rfl := ih counted.2 counted'.2 below.symm
    have depth : frame.depth = other.depth := counted.1.trans counted'.1.symm
    have same : frame = other := by
      cases frame
      cases other
      simp only [ListFrame.mk.injEq]
      exact ⟨state.symm, depth⟩
    rw [same]

theorem Layout.Straight.pending_of_endsLine {tokens : List Token} {usable : Config → Prop}
    {l : Layout} {index : Nat} {token : Token} (straight : Straight tokens usable l)
    (cursor : l.cursor = index + 1) (read : tokens[index]? = some token)
    (ends : token.endsLine = true) : l.pending = [] := by
  rw [List.eq_nil_iff_forall_not_mem]
  intro c member
  have offered := (straight.mem_pending_iff _).1 (List.mem_map_of_mem member)
  rw [cursor] at offered
  exact not_offersBefore_succ (Or.inr ⟨token, read, ends⟩) offered

namespace Engine

variable {config : Config} {front body : List Token} {token : Token}

theorem pending_of_endsLine (ends : token.endsLine = true)
    (sane : (Engine.run { config := config } (front ++ [token]).toArray).fault? = none) :
    (Engine.run { config := config } (front ++ [token]).toArray).layout.pending = [] := by
  obtain ⟨straight, cursor⟩ := straight_run sane
  exact straight.pending_of_endsLine (by simpa using cursor) (by simp) ends

theorem fired_run {engine : Engine} {slice : Array Token} (sane : engine.fault? = none)
    (reached : Layout.Reached slice.toList (fun _ => True) engine.layout) :
    ∃ more, (engine.run slice).layout.fired = more ++ engine.layout.fired ∧
      ∀ index ∈ more, engine.layout.horizon ≤ index := by
  simp only [Engine.run, sane, layout_settle]
  exact reached.fired_run trivial

/-- Once a line has ended, no token that follows makes the engine go back in front of its end: one
pass leads over what was read to the page where the engine stood. -/
theorem lay_of_endsLine (ends : token.endsLine = true)
    (sane : (Engine.run { config := config } (front ++ [token]).toArray).fault? = none)
    (rest : List Token) :
    Page.lay (fun _ => config)
        (Engine.run { config := config } (front ++ [token] ++ rest).toArray).layout.fired
        (front ++ [token]) =
      .ok (Engine.run { config := config } (front ++ [token]).toArray).layout.page := by
  have part : (front ++ [token]).toArray.toList <+: (front ++ [token] ++ rest).toArray.toList :=
    List.prefix_append _ rest
  obtain ⟨straight, cursor⟩ := straight_run sane
  have none := pending_of_endsLine ends sane
  obtain ⟨more, fired, behind⟩ :=
    fired_run sane ((Reachable.run (.create config) part).reached sane)
  rw [← run_run _ part, fired, ← straight.laid_all (by simp [cursor])]
  apply Page.layFrom_congr
  intro index _ below
  refine ⟨rfl, ?_⟩
  rw [List.mem_append]
  constructor
  · rintro (later | broken)
    · have after := behind index later
      rw [Layout.horizon, none, Pending.horizon, cursor] at after
      simp at below after
      omega
    · exact broken
  · exact Or.inr

/-- An indent is taken back by its dedent, whatever nested tokens stand between them and wherever
these break the line: the indent is the old one and so is the continuation, the margin that the
indent saved is no longer saved, the same brackets are open, and the line has ended. -/
theorem dedent_restores_indent
    (nested : Balanced Token.opensPair? Token.closesPair? body)
    (sane : (Engine.run { config := config } (front ++ [Token.mark .indent]).toArray).fault? =
      none) :
    let inner := Engine.run { config := config } (front ++ [Token.mark .indent]).toArray
    let outer := Engine.run { config := config }
      (front ++ [Token.mark .indent] ++ body ++ [Token.mark .dedent]).toArray
    outer.fault? = none ∧
      outer.layout.margin.indent + config.indentUnit = inner.layout.margin.indent ∧
      outer.layout.margin.continuation = inner.layout.margin.continuation ∧
      inner.layout.saved.toList = outer.layout.margin :: outer.layout.saved.toList ∧
      outer.layout.lists.toList = inner.layout.lists.toList ∧
      outer.layout.column = 0 ∧ outer.layout.pending = [] := by
  intro inner outer
  have indented : Page.lay (fun _ => config) outer.layout.fired (front ++ [.mark .indent]) =
      .ok inner.layout.page := by
    have laid := lay_of_endsLine (by rfl) sane (body ++ [.mark .dedent])
    rwa [← List.append_assoc] at laid
  obtain ⟨page, moved⟩ := Page.exists_of_lay_indent indented
  have margin : inner.layout.margin =
      ⟨page.margin.indent + config.indentUnit, page.margin.continuation⟩ :=
    congrArg Page.margin moved
  have saved : inner.layout.saved.toList = page.margin :: page.saved := congrArg Page.saved moved
  -- the body leaves the margin on top that the indent has saved
  obtain ⟨filled, laid, lists, stack⟩ := Page.layFrom_balanced nested (fun _ => config)
    outer.layout.fired inner.layout.page
  have top : filled.saved = page.margin :: page.saved := stack.trans saved
  have reads : outer.reading = .ok
      { filled.startLine with margin := page.margin, saved := page.saved }.advance := by
    refine (reading_run config _).trans ?_
    show Page.lay (fun _ => config) outer.layout.fired
      (front ++ [.mark .indent] ++ body ++ [.mark .dedent]) = _
    rw [Page.lay_concat, Page.lay_append, indented]
    simp only [Except.bind, laid]
    exact Page.dedent_of_saved top
  obtain ⟨sane', ends⟩ := reading_eq_ok reads
  have margin' : outer.layout.margin = page.margin := congrArg Page.margin ends
  have saved' : outer.layout.saved.toList = page.saved := congrArg Page.saved ends
  obtain ⟨straight, -⟩ := straight_run sane
  obtain ⟨straight', -⟩ := straight_run sane'
  refine ⟨sane', ?_, ?_, ?_, ?_, congrArg Page.column ends, pending_of_endsLine rfl sane'⟩
  · rw [margin', margin]
  · rw [margin', margin]
  · rw [margin', saved', saved]
  · apply straight'.counted.ext straight.counted
    exact (congrArg Page.lists ends).trans lists

/-- Between the indent and its dedent, a list is broken over lines and saves a margin of its own,
and the dedent itself makes the engine go back to the last separator. -/
theorem dedent_restores_indent_broken :
    let front : List Token := [.plain "f"]
    let body : List Token :=
      [.plain "g(", .mark (.opener .list), .plain "abc", .mark .separator, .plain "def)",
        .mark (.closer .list), .mark .separator, .plain "h"]
    let inner := Engine.run { config := ⟨8, 2⟩ } (front ++ [Token.mark .indent]).toArray
    let outer := Engine.run { config := ⟨8, 2⟩ }
      (front ++ [Token.mark .indent] ++ body ++ [Token.mark .dedent]).toArray
    Balanced Token.opensPair? Token.closesPair? body ∧ inner.fault? = none ∧
      inner.layout.margin.indent = 2 ∧ outer.layout.fired = [8, 5, 3] ∧
      outer.text = "f\n  g(\n      abc\n      def)\n  h\n" ∧
      outer.layout.margin.indent + 2 = 2 ∧
      outer.layout.lists.toList = inner.layout.lists.toList := by
  intro front body inner outer
  have items : Balanced Token.opensPair? Token.closesPair?
      [.plain "abc", .mark .separator, .plain "def)"] :=
    .plain rfl rfl (.plain rfl rfl (.plain rfl rfl .nil))
  have after : Balanced Token.opensPair? Token.closesPair? [.mark .separator, .plain "h"] :=
    .plain rfl rfl (.plain rfl rfl .nil)
  have nested : Balanced Token.opensPair? Token.closesPair? body :=
    .plain (by rfl) (by rfl) (.pair (by rfl) (by rfl) items after)
  have sane : inner.fault? = none := by decide +kernel
  have indent : inner.layout.margin.indent = 2 := by decide +kernel
  obtain ⟨-, restored, -, -, lists, -⟩ := dedent_restores_indent nested sane
  exact ⟨nested, sane, indent, by decide +kernel, by decide +kernel, restored.trans indent, lists⟩

end Engine

end LineLayout
