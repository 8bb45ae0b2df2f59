import LineLayout.Proofs.Whole
import Mathlib.Data.List.TakeWhile

/-!
# A flat bracket stays on its line

No line ends inside a flat bracket (`Leads.wholeUpTo`), and what follows from that is said here of
engines and of what they write. Brackets break from the outside in: around a broken one every
bracket is broken (`WholeAt.mem_breaks_of_split`). As long as a bracket is flat, the candidate to
break it is pending and the engine is still on the line where it opened. And when it closes flat,
nothing between its ends has written a line feed; otherwise it shows its ends as a broken bracket
does (`Bracket.Shows`).
-/

namespace LineLayout

/-! ## Broken brackets lie outside -/

section Order

variable {tokens : List Token} {breaks : List Nat} {position index : Nat} {bracket : Bracket}
  {inner outer : List (Nat × Bracket)}

theorem WholeAt.mem_breaks_of_split (whole : WholeAt tokens breaks position)
    (split : openBrackets (tokens.take position) = inner ++ (index, bracket) :: outer)
    (broken : index ∈ breaks) : ∀ entry ∈ outer, entry.1 ∈ breaks := by
  intro entry member
  by_contra flat
  obtain ⟨before, below, -⟩ := unclosed_take_split split
  have around : entry ∈ openBrackets (tokens.take position) := by
    rw [split]
    exact List.mem_append_right inner (List.mem_cons_of_mem _ member)
  have after : entry.1 < index := by
    rw [below] at member
    exact (of_mem_openBrackets_take member).1
  exact whole entry around flat index after.le before (Or.inl broken)

/-- The open brackets are flat ones inside of broken ones. -/
theorem WholeAt.exists_split (whole : WholeAt tokens breaks position) :
    ∃ inner outer, openBrackets (tokens.take position) = inner ++ outer ∧
      (∀ entry ∈ inner, entry.1 ∉ breaks) ∧ ∀ entry ∈ outer, entry.1 ∈ breaks := by
  let flat : Nat × Bracket → Bool := fun entry => decide (entry.1 ∉ breaks)
  have split := (List.takeWhile_append_dropWhile (p := flat)
    (l := openBrackets (tokens.take position))).symm
  refine ⟨_, _, split, ?_, ?_⟩
  · intro entry member
    have holds : flat entry = true := List.mem_takeWhile_imp member
    exact of_decide_eq_true holds
  · cases rest : (openBrackets (tokens.take position)).dropWhile flat with
    | nil =>
      intro entry member
      cases member
    | cons entry outer =>
      have broken : entry.1 ∈ breaks := by
        have first := List.head?_dropWhile_not flat (openBrackets (tokens.take position))
        rw [rest] at first
        simpa [flat] using first
      rw [rest] at split
      intro other member
      rcases List.mem_cons.1 member with rfl | below
      · exact broken
      · exact whole.mem_breaks_of_split split broken other below

end Order

/-! ## What a pass writes at a token -/

/-- What a bracket of a shape shows where it opens and where it closes. -/
def Bracket.Shows : Bracket → Shape → String → String → Prop
  | _, .flat, left, right => left = "" ∧ right = ""
  | .list, .broken, left, right => left = "\n" ∧ right = ""
  | .paren, .broken, left, right =>
    (∃ count, left = Text.blank count ++ "(\n") ∧ ∃ count, right = Text.blank count ++ ")"

theorem Bracket.shows_of_leaves {bracket : Bracket} {shape : Shape} {left right : String}
    (opens : (Token.mark (.opener bracket)).Leaves left) (shown : left ≠ "" ↔ shape = .broken)
    (closes : (Token.mark (.closer bracket)).Leaves right)
    (shown' : bracket = .paren → (right ≠ "" ↔ shape = .broken)) :
    bracket.Shows shape left right := by
  cases bracket with
  | list =>
    cases shape with
    | flat => exact ⟨by simpa using shown, closes⟩
    | broken => exact ⟨opens.resolve_left (shown.2 rfl), closes⟩
  | paren =>
    have both := shown' rfl
    cases shape with
    | flat => exact ⟨by simpa using shown, by simpa using both⟩
    | broken => exact ⟨opens.resolve_left (shown.2 rfl), closes.resolve_left (both.2 rfl)⟩

namespace Page

section Pass

variable (settings : Nat → Config) (breaks : List Nat) (tokens : List Token)

/-- In a pass that breaks the line at `breaks`, the token `index` leads from `before` to `after`. -/
structure Turns (index : Nat) (before after : Page) : Prop where
  before : lay settings breaks (tokens.take index) = .ok before
  after : lay settings breaks (tokens.take (index + 1)) = .ok after

/-- In the pass, the token `index` adds the block to the text. -/
def Adds (index : Nat) (block : String) : Prop :=
  ∃ before after, Turns settings breaks tokens index before after ∧
    after.text = before.text ++ block

/-- In the pass, the token `index` is a mark and adds a line feed. -/
def FeedsLine (index : Nat) : Prop :=
  ∃ mark block, tokens[index]? = some (.mark mark) ∧ Adds settings breaks tokens index block ∧
    '\n' ∈ block.toList

/-- In the pass, the bracket that opens at the token `opening` closes at the token `closing`, in the
given shape. -/
structure Encloses (bracket : Bracket) (shape : Shape) (opening closing : Nat) : Prop where
  innermost : ∃ outer, openBrackets (tokens.take closing) = (opening, bracket) :: outer
  shows : ∃ left right, Adds settings breaks tokens opening left ∧
    Adds settings breaks tokens closing right ∧ bracket.Shows shape left right
  /-- Closing takes the bracket off and, if it is broken, the margin that was saved last. -/
  leaves : ∃ inside after, Turns settings breaks tokens closing inside after ∧
    inside.lists = .inside bracket shape :: after.lists ∧
    (shape = .broken → inside.saved = after.margin :: after.saved)

end Pass

variable {settings : Nat → Config} {breaks : List Nat} {tokens : List Token} {index last : Nat}
  {token : Token} {config : Config} {page before after next : Page} {bracket : Bracket}

theorem exists_turns (laid : lay settings breaks (tokens.take last) = .ok page)
    (below : index < last) : ∃ before after, Turns settings breaks tokens index before after := by
  obtain ⟨before, laidBefore⟩ := exists_lay_take laid index
  obtain ⟨after, laidAfter⟩ := exists_lay_take laid (index + 1)
  rw [List.take_take, Nat.min_eq_left below.le] at laidBefore
  rw [List.take_take, Nat.min_eq_left below] at laidAfter
  exact ⟨before, after, laidBefore, laidAfter⟩

theorem Turns.placed (turns : Turns settings breaks tokens index before after)
    (read : tokens[index]? = some token) :
    before.place (settings index) (decide (index ∈ breaks)) token = .ok after := by
  have inside := (List.getElem?_eq_some_iff.1 read).1
  have cursor : before.cursor = index := by
    have counted := lay_induction (fun _ _ => True) trivial (fun _ _ _ => trivial) turns.before
    rw [counted.1, List.length_take_of_le inside.le]
  have laid := turns.after
  rw [lay_take_succ read, turns.before, Except.bind, cursor] at laid
  exact laid

theorem newline_notMem_of_place {mark : Mark} {block : String}
    (whole : (Token.mark mark).endsLine = false)
    (placed : page.place config false (.mark mark) = .ok next)
    (added : next.text = page.text ++ block) : '\n' ∉ block.toList := by
  cases mark with
  | hardBreak | indent | dedent => cases whole
  | softBreak | separator | opener bracket =>
    cases placed
    have same : page.text ++ "" = page.text ++ block := String.append_empty.trans added
    rw [← (String.append_right_inj _).1 same]
    exact List.not_mem_nil
  | closer bracket =>
    obtain ⟨shape, block', text, -, leaves, -⟩ := place_closes rfl placed
    rw [added, String.append_right_inj] at text
    subst text
    cases bracket with
    | list =>
      cases leaves
      exact List.not_mem_nil
    | paren =>
      rcases leaves with rfl | ⟨count, rfl⟩
      · exact List.not_mem_nil
      · simp [Text.blank]

theorem Turns.opener (turns : Turns settings breaks tokens index before after)
    (read : tokens[index]? = some (.mark (.opener bracket))) :
    ∃ left, after.text = before.text ++ left ∧ (Token.mark (.opener bracket)).Leaves left ∧
      (left ≠ "" ↔ shapeIn breaks index = .broken) := by
  have placed := turns.placed read
  obtain ⟨shape, left, text, entered, leaves, shown⟩ := place_opens rfl placed
  have lists : before.lists = (openBrackets (tokens.take index)).map (openState breaks) :=
    lists_of_lay turns.before
  rw [lists_place lists placed] at entered
  obtain ⟨same, -⟩ := List.cons.inj entered
  obtain ⟨-, rfl⟩ := ListState.inside.inj same
  exact ⟨left, text, leaves, shown⟩

theorem Turns.closer (turns : Turns settings breaks tokens index before after)
    (read : tokens[index]? = some (.mark (.closer bracket))) :
    ∃ opening outer right, openBrackets (tokens.take index) = (opening, bracket) :: outer ∧
      before.lists = .inside bracket (shapeIn breaks opening) :: after.lists ∧
      after.text = before.text ++ right ∧ (Token.mark (.closer bracket)).Leaves right ∧
      (bracket = .paren → (right ≠ "" ↔ shapeIn breaks opening = .broken)) ∧
      (shapeIn breaks opening = .broken → before.saved = after.margin :: after.saved) := by
  have placed := turns.placed read
  obtain ⟨shape, right, text, top, leaves, shown⟩ := place_closes rfl placed
  have lists : before.lists = (openBrackets (tokens.take index)).map (openState breaks) :=
    lists_of_lay turns.before
  obtain ⟨opening, outer, split, rfl, -⟩ := openState_top (lists.symm.trans top)
  refine ⟨opening, outer, right, split, top, text, leaves, shown, ?_⟩
  intro broken
  rcases saved_closeList placed top with ⟨flat, -⟩ | ⟨-, taken⟩
  · rw [broken] at flat
    cases flat
  · exact taken

/-- Each bracket that closes in a pass has opened in it, in the shape that the breaks tell. -/
theorem exists_encloses (laid : lay settings breaks (tokens.take last) = .ok page)
    (below : index < last) (read : tokens[index]? = some (.mark (.closer bracket))) :
    ∃ opening, Encloses settings breaks tokens bracket (shapeIn breaks opening) opening index := by
  obtain ⟨inside, after, turns⟩ := exists_turns laid below
  obtain ⟨opening, outer, right, split, top, text, leaves, shown, takesBack⟩ := turns.closer read
  have around : (opening, bracket) ∈ openBrackets (tokens.take index) := by
    rw [split]
    exact List.mem_cons_self
  obtain ⟨before, opener, -⟩ := of_mem_openBrackets_take around
  obtain ⟨outside, entered, turns'⟩ := exists_turns laid (before.trans below)
  obtain ⟨left, text', leaves', shown'⟩ := turns'.opener opener
  have shows := Bracket.shows_of_leaves leaves' shown' leaves shown
  exact ⟨opening, ⟨outer, split⟩, ⟨left, right, ⟨_, _, turns', text'⟩, ⟨_, _, turns, text⟩, shows⟩,
    inside, after, turns, top, takesBack⟩

theorem Encloses.shape_eq {shape : Shape} {opening closing : Nat}
    (encloses : Encloses settings breaks tokens bracket shape opening closing) :
    shape = shapeIn breaks opening := by
  obtain ⟨outer, split⟩ := encloses.innermost
  obtain ⟨inside, after, turns, top, -⟩ := encloses.leaves
  have lists := lists_of_lay turns.before
  rw [top, split] at lists
  exact (ListState.inside.inj (List.cons.inj lists).1).2

/-- Inside a flat bracket no mark writes a line feed. -/
theorem not_feedsLine {position : Nat} {entry : Nat × Bracket}
    (whole : WholeAt tokens breaks position) (around : entry ∈ openBrackets (tokens.take position))
    (flat : entry.1 ∉ breaks) (after : entry.1 ≤ index) (below : index < position) :
    ¬ FeedsLine settings breaks tokens index := by
  rintro ⟨mark, block, read, ⟨before, next, turns, added⟩, feed⟩
  have together := whole entry around flat index after below
  have unbroken : index ∉ breaks := fun broken => together (Or.inl broken)
  have ends : (Token.mark mark).endsLine = false := by
    by_contra ended
    exact together (Or.inr ⟨_, read, by simpa using ended⟩)
  have placed := turns.placed read
  rw [decide_eq_false unbroken] at placed
  exact newline_notMem_of_place ends placed added feed

end Page

namespace Engine

variable {stream : List Token} {config : Config} {past : List Engine} {engine : Engine}

/-! ## Where an engine stands -/

/-- An engine stands where a straight history leads. A token that is refused there changes little:
it may take a broken bracket off. -/
theorem Leads.exists_straight (leads : Leads stream { config := config } past engine) :
    ∃ last : Layout, Layout.Straight stream (fun _ => True) last ∧
      engine.layout.cursor = last.cursor ∧ engine.layout.fired = last.fired ∧
      engine.layout.pending = last.pending ∧ (engine.fault? = none → engine.layout = last) ∧
      (engine.layout.lists = last.lists ∨
        ∃ bracket, last.lists.leave? = some (.inside bracket .broken, engine.layout.lists)) := by
  cases leads.stands (stands_create stream config) with
  | working reached _ =>
    exact ⟨_, reached.straight, rfl, rfl, rfl, fun _ => rfl, Or.inl rfl⟩
  | @stopped last _ _ _ reached _ rejected faulty =>
    have refused := Layout.step_refused reached.straight.sound rejected
    refine ⟨last, reached.straight, refused.cursor, refused.fired, refused.pending, ?_,
      refused.lists⟩
    intro sane
    rw [sane] at faulty
    cases faulty

theorem Leads.lists_cases (leads : Leads stream { config := config } past engine) :
    engine.layout.lists.toList.map (·.state) =
        (openBrackets (stream.take engine.layout.cursor)).map (openState engine.layout.fired) ∨
      ∃ index bracket outer,
        openBrackets (stream.take engine.layout.cursor) = (index, bracket) :: outer ∧
        index ∈ engine.layout.fired ∧
        engine.layout.lists.toList.map (·.state) = outer.map (openState engine.layout.fired) := by
  obtain ⟨last, straight, cursor, fired, -, -, lists⟩ := leads.exists_straight
  have standing := straight.lists_eq
  rw [cursor, fired]
  rcases lists with same | ⟨bracket, left⟩
  · rw [same]
    exact Or.inl standing
  · obtain ⟨depth, frames⟩ := OpenLists.toList_of_leave? straight.sound.lists left
    rw [frames, List.map_cons] at standing
    obtain ⟨index, outer, split, broken, below⟩ := openState_top standing.symm
    exact Or.inr ⟨index, bracket, outer, split, shapeIn_eq_broken_iff.1 broken, below.symm⟩

theorem Leads.exists_states (leads : Leads stream { config := config } past engine)
    (shallow : ∀ earlier ∈ past, earlier.layout.lists.depth ≤ 1023) :
    ∃ inner outer : List (Nat × Bracket),
      engine.layout.lists.toList.map (·.state) =
        (inner ++ outer).map (openState engine.layout.fired) ∧
      (∀ entry ∈ inner, entry.1 ∉ engine.layout.fired) ∧
      ∀ entry ∈ outer, entry.1 ∈ engine.layout.fired := by
  have whole := leads.wholeUpTo shallow engine.layout.cursor le_rfl
  rcases leads.lists_cases with standing | ⟨index, bracket, outer, split, broken, standing⟩
  · obtain ⟨inner, outer, split, flat, broken⟩ := whole.exists_split
    rw [split] at standing
    exact ⟨inner, outer, standing, flat, broken⟩
  · have around := whole.mem_breaks_of_split (split.trans (List.nil_append _).symm) broken
    refine ⟨[], outer, standing, ?_, around⟩
    intro entry member
    cases member

theorem Leads.shallow (leads : Leads stream { config := config } past engine)
    (short : stream.length ≤ 1023) : ∀ earlier ∈ past, earlier.layout.lists.depth ≤ 1023 := by
  intro earlier member
  obtain ⟨older, newer, token, led, sane, -, -⟩ := leads.split member
  rw [(led.straight sane).depth_eq]
  calc (openBrackets (stream.take earlier.layout.cursor)).length
      _ ≤ (stream.take earlier.layout.cursor).length := length_unclosed_le _
      _ ≤ stream.length := List.length_take_le' _ _
      _ ≤ 1023 := short

/-- Brackets break from the outside in. As long as an engine never has more than 1023 of them open,
its open brackets are broken ones and then flat ones, from the outermost to the innermost. -/
theorem outer_brackets_broken_first (leads : Leads stream { config := config } past engine)
    (shallow : ∀ earlier ∈ past, earlier.layout.lists.depth ≤ 1023) :
    ∃ outer inner, engine.layout.lists.toList.reverse.map (·.state) = outer ++ inner ∧
      (∀ state ∈ outer, ∃ bracket, state = .inside bracket .broken) ∧
      ∀ state ∈ inner, ∃ bracket, state = .inside bracket .flat := by
  obtain ⟨inner, outer, states, flat, broken⟩ := leads.exists_states shallow
  refine ⟨(outer.map (openState engine.layout.fired)).reverse,
    (inner.map (openState engine.layout.fired)).reverse, ?_, ?_, ?_⟩
  · rw [List.map_reverse, states, List.map_append, List.reverse_append]
  · intro state member
    obtain ⟨entry, among, rfl⟩ := List.mem_map.1 (List.mem_reverse.1 member)
    exact ⟨entry.2, by rw [openState, shapeIn_eq_broken_iff.2 (broken entry among)]⟩
  · intro state member
    obtain ⟨entry, among, rfl⟩ := List.mem_map.1 (List.mem_reverse.1 member)
    exact ⟨entry.2, by rw [openState, shapeIn_eq_flat_iff.2 (flat entry among)]⟩

/-- The outer list is broken, and two brackets inside it are still flat. -/
theorem outer_brackets_broken_first_nested :
    let stream : List Token :=
      [.plain "f(", .mark (.opener .list), .plain "aaaa, ", .mark .separator, .plain "g(",
        .mark (.opener .list), .plain "b", .mark (.opener .paren), .plain "c"]
    let engine := Engine.run { config := ⟨8, 2⟩ } stream.toArray
    ∃ past, Leads stream { config := ⟨8, 2⟩ } past engine ∧
      (∀ earlier ∈ past, earlier.layout.lists.depth ≤ 1023) ∧
      engine.layout.lists.toList.reverse.map (·.state) =
        [.inside .list .broken, .inside .list .flat, .inside .paren .flat] ∧
      ∃ outer inner, engine.layout.lists.toList.reverse.map (·.state) = outer ++ inner ∧
        (∀ state ∈ outer, ∃ bracket, state = .inside bracket .broken) ∧
        ∀ state ∈ inner, ∃ bracket, state = .inside bracket .flat := by
  intro stream engine
  have created : Leads stream { config := ⟨8, 2⟩ } [] { config := ⟨8, 2⟩ } := .refl
  have whole : stream.toArray.toList <+: stream := List.prefix_refl stream
  obtain ⟨past, leads⟩ := created.run whole
  have shallow := leads.shallow (by decide)
  exact ⟨_, leads, shallow, by decide +kernel, outer_brackets_broken_first leads shallow⟩

/-! ## The candidate of a flat bracket -/

theorem Leads.exists_opener (leads : Leads stream { config := config } past engine) {index : Nat}
    {bracket : Bracket} (opener : stream[index]? = some (.mark (.opener bracket)))
    (offered : OffersBefore stream engine.layout.fired engine.layout.cursor index) :
    ∃ earlier ∈ past, earlier.layout.cursor = index ∧
      earlier.layout.candidate (.opener bracket) ∈ engine.layout.pending ∧
      earlier.layout.lines = engine.layout.lines := by
  obtain ⟨last, straight, cursor, fired, pending, -, -⟩ := leads.exists_straight
  rw [cursor, fired] at offered
  obtain ⟨c, member, rfl⟩ := List.mem_map.1 ((straight.mem_pending_iff index).2 offered)
  rw [← pending] at member
  obtain ⟨earlier, before, same, token, kind, read, breaks, rfl⟩ := leads.mem_pending_iff.1 member
  rw [Layout.index_candidate, read, Option.some.injEq] at opener
  subst opener
  cases breaks
  exact ⟨earlier, before, (Layout.index_candidate _ _).symm, member, same⟩

/-- A flat bracket among the open ones of an engine has its candidate pending, on the same line. -/
theorem Leads.flat_pending (leads : Leads stream { config := config } past engine)
    (shallow : ∀ earlier ∈ past, earlier.layout.lists.depth ≤ 1023) {position depth : Nat}
    {bracket : Bracket}
    (frame : engine.layout.lists.toList[position]? = some ⟨.inside bracket .flat, depth⟩) :
    ∃ index, (openBrackets (stream.take engine.layout.cursor))[position]? = some (index, bracket) ∧
      ∃ earlier ∈ past, earlier.layout.cursor = index ∧
        earlier.layout.candidate (.opener bracket) ∈ engine.layout.pending ∧
        earlier.layout.lines = engine.layout.lines := by
  have whole := leads.wholeUpTo shallow engine.layout.cursor le_rfl
  have state : (engine.layout.lists.toList.map (·.state))[position]? =
      some (.inside bracket .flat) := by rw [List.getElem?_map, frame]; rfl
  rcases leads.lists_cases with standing | ⟨first, _, outer, split, broken, standing⟩
  · rw [standing, List.getElem?_map, Option.map_eq_some_iff] at state
    obtain ⟨⟨index, opened⟩, found, same⟩ := state
    obtain ⟨rfl, shape⟩ := ListState.inside.inj same
    have flat : index ∉ engine.layout.fired := shapeIn_eq_flat_iff.1 shape
    have member := List.mem_of_getElem? found
    obtain ⟨below, opener, -⟩ := of_mem_openBrackets_take member
    have offered : OffersBefore stream engine.layout.fired engine.layout.cursor index :=
      ⟨below, ⟨_, .opener opened, opener, rfl⟩, whole _ member flat⟩
    exact ⟨index, found, leads.exists_opener opener offered⟩
  · -- the brackets around a broken one are not flat
    rw [standing, List.getElem?_map, Option.map_eq_some_iff] at state
    obtain ⟨entry, found, same⟩ := state
    have flat := shapeIn_eq_flat_iff.1 (ListState.inside.inj same).2
    have around := whole.mem_breaks_of_split (split.trans (List.nil_append _).symm) broken
    exact absurd (around entry (List.mem_of_getElem? found)) flat

/-- A flat bracket stays on its line, as long as the engine never has more than 1023 brackets open.
While it is open and flat, its own candidate is pending, and the engine that left it stood on the
line on which the engine stands. What is written is written by one pass over the tokens, and there
each bracket that closes is flat or broken at both ends, as `Page.Encloses` says. A bracket that
closes flat encloses no line feed but those of the text, so one that encloses a line feed is
broken. -/
theorem flat_brackets_stay_on_line (leads : Leads stream { config := config } past engine)
    (shallow : ∀ earlier ∈ past, earlier.layout.lists.depth ≤ 1023) :
    (∀ (position depth : Nat) (bracket : Bracket),
      engine.layout.lists.toList[position]? = some ⟨.inside bracket .flat, depth⟩ →
      ∃ index,
        (openBrackets (stream.take engine.layout.cursor))[position]? = some (index, bracket) ∧
        ∃ earlier ∈ past, earlier.layout.cursor = index ∧
          earlier.layout.candidate (.opener bracket) ∈ engine.layout.pending ∧
          earlier.layout.lines = engine.layout.lines) ∧
    ∃ settings page,
      Page.lay settings engine.layout.fired (stream.take engine.layout.cursor) = .ok page ∧
      (engine.fault? = none → engine.layout.page = page) ∧
      ∀ closing bracket, closing < engine.layout.cursor →
        stream[closing]? = some (.mark (.closer bracket)) →
        ∃ opening shape,
          Page.Encloses settings engine.layout.fired stream bracket shape opening closing ∧
          (shape = .flat → ∀ index, opening < index → index < closing →
            ¬ Page.FeedsLine settings engine.layout.fired stream index) := by
  refine ⟨fun position depth bracket frame => leads.flat_pending shallow frame, ?_⟩
  have whole := leads.wholeUpTo shallow
  obtain ⟨last, straight, cursor, fired, -, stands, -⟩ := leads.exists_straight
  obtain ⟨settings, -, laid⟩ := straight.laid
  rw [← cursor, ← fired] at laid
  refine ⟨settings, last.page, laid, fun sane => by rw [stands sane], ?_⟩
  intro closing bracket below closer
  obtain ⟨opening, encloses⟩ := Page.exists_encloses laid below closer
  refine ⟨opening, _, encloses, ?_⟩
  intro flat index behind ahead
  obtain ⟨outer, split⟩ := encloses.innermost
  have around : (opening, bracket) ∈ openBrackets (stream.take closing) := by
    rw [split]
    exact List.mem_cons_self
  exact Page.not_feedsLine (whole closing below.le) around (shapeIn_eq_flat_iff.1 flat) behind.le
    ahead

/-- The soft parenthesis is broken over lines, the list in it closes flat, and another list is open
when the stream ends. -/
theorem flat_brackets_stay_on_line_open :
    let stream : List Token :=
      [.plain "f", .mark (.opener .paren), .plain "aaa,", .mark .separator,
        .mark (.opener .list), .plain "b", .mark (.closer .list), .mark (.closer .paren),
        .mark (.opener .list), .plain "c"]
    let engine := Engine.run { config := ⟨5, 1⟩ } stream.toArray
    engine.text = "f(\n  aaa,\n  b)c" ∧
      ∃ past, Leads stream { config := ⟨5, 1⟩ } past engine ∧
        (∀ earlier ∈ past, earlier.layout.lists.depth ≤ 1023) ∧
        engine.layout.lists.toList = [⟨.inside .list .flat, 1⟩] ∧
        (∃ earlier ∈ past, earlier.layout.cursor = 8 ∧
          earlier.layout.candidate (.opener .list) ∈ engine.layout.pending ∧
          earlier.layout.lines = engine.layout.lines) ∧
        ∃ settings page, Page.lay settings [3, 1] stream = .ok page ∧ engine.layout.page = page ∧
          Page.Encloses settings [3, 1] stream .paren .broken 1 7 ∧
          Page.Encloses settings [3, 1] stream .list .flat 4 6 ∧
          ∀ index, 4 < index → index < 6 → ¬ Page.FeedsLine settings [3, 1] stream index := by
  intro stream engine
  have created : Leads stream { config := ⟨5, 1⟩ } [] { config := ⟨5, 1⟩ } := .refl
  have whole : stream.toArray.toList <+: stream := List.prefix_refl stream
  obtain ⟨past, leads⟩ := created.run whole
  have shallow := leads.shallow (by decide)
  have frames : engine.layout.lists.toList = [⟨.inside .list .flat, 1⟩] := by decide +kernel
  have cursor : engine.layout.cursor = 10 := by decide +kernel
  have fired : engine.layout.fired = [3, 1] := by decide +kernel
  have sane : engine.fault? = none := by decide +kernel
  obtain ⟨pending, settings, page, laid, stands, closes⟩ := flat_brackets_stay_on_line leads shallow
  rw [fired, cursor] at laid closes
  obtain ⟨_, shape, paren, -⟩ := closes 7 .paren (by decide) rfl
  obtain ⟨_, parenOpens⟩ := paren.innermost
  cases parenOpens
  obtain rfl : shape = .broken := paren.shape_eq
  obtain ⟨_, inner, list, stays⟩ := closes 6 .list (by decide) rfl
  obtain ⟨_, listOpens⟩ := list.innermost
  cases listOpens
  obtain rfl : inner = .flat := list.shape_eq
  refine ⟨by decide +kernel, _, leads, shallow, frames, ?_, settings, page, laid, stands sane, paren,
    list, stays rfl⟩
  obtain ⟨index, found, opened⟩ := pending 0 1 .list (by rw [frames]; rfl)
  rw [cursor] at found
  cases found
  exact opened

end Engine

end LineLayout
