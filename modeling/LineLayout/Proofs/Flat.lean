import LineLayout.Proofs.Line
import LineLayout.Proofs.WellNested
import LineLayout.Proofs.Whole

/-!
# Lines that fit

The tokens that end a line cut a stream into source lines (`Source`). If the line is never broken,
an engine writes them as they are: each behind its indents, and the empty ones as nothing
(`Page.flat_of_lay`). It does not go back as long as they fit, for then no run overflows.

A token that ends a line outside of all brackets does not make it go back either. What is pending
on the line may be as welcome as the line end, but never more: a break inside a bracket is halved
at least once, and so is a bracket that opens (`BreakKind.priority_le_hardBreak`).
-/

namespace LineLayout

/-! ## Source lines -/

/-- A line as the tokens have it: how many indents are open around it, and its runs. -/
structure SourceLine where
  indents : Nat := 0
  runs : List TextRun := []
deriving DecidableEq

namespace SourceLine

/-- Columns of the line, with `unit` of them for each indent. -/
def width (unit : Nat) (line : SourceLine) : Nat :=
  unit * line.indents + (line.runs.map TextRun.width).sum

/-- Spaces in front of the line. A line without runs has none. -/
def indentation (unit : Nat) (line : SourceLine) : Nat :=
  if line.runs = [] then 0 else unit * line.indents

/-- The line on one line. -/
def text (unit : Nat) (line : SourceLine) : String :=
  Text.blank (line.indentation unit) ++ String.join (line.runs.map TextRun.text)

/-- Both lines have the same indents, and the second one goes on where the first one stops. -/
def Extends (line longer : SourceLine) : Prop :=
  longer.indents = line.indents ∧ line.runs <+: longer.runs

theorem Extends.width_le {line longer : SourceLine} (more : line.Extends longer) (unit : Nat) :
    line.width unit ≤ longer.width unit := by
  obtain ⟨same, rest, runs⟩ := more
  simp only [width, same, ← runs, List.map_append, List.sum_append]
  omega

end SourceLine

/-- The lines of a stream: those that have ended, and the one that has not. -/
structure Source where
  ended : List SourceLine := []
  last : SourceLine := {}
deriving DecidableEq

namespace Source

/-- All lines, the one that has not ended included. -/
def lines (source : Source) : List SourceLine :=
  source.ended ++ [source.last]

/-- Ends the line. So many indents are open around the next one. -/
def endLine (source : Source) (indents : Nat) : Source :=
  ⟨source.lines, ⟨indents, []⟩⟩

/-- The lines with one token more. -/
def read (source : Source) : Token → Source
  | .text run => { source with last := ⟨source.last.indents, source.last.runs ++ [run]⟩ }
  | .mark .hardBreak => source.endLine source.last.indents
  | .mark .indent => source.endLine (source.last.indents + 1)
  | .mark .dedent => source.endLine (source.last.indents - 1)
  | .mark _ => source

/-- The lines of a stream. -/
def ofTokens (tokens : List Token) : Source :=
  tokens.foldl read {}

/-- What stands in front of the last line. -/
def front (unit : Nat) (source : Source) : String :=
  String.join (source.ended.map fun line => line.text unit ++ "\n")

variable {source : Source} {unit : Nat}

theorem ofTokens_concat (tokens : List Token) (token : Token) :
    ofTokens (tokens ++ [token]) = (ofTokens tokens).read token := by
  simp [ofTokens]

theorem front_endLine (source : Source) (unit indents : Nat) :
    (source.endLine indents).front unit = source.front unit ++ source.last.text unit ++ "\n" := by
  simp [front, endLine, lines, String.append_assoc]

theorem intercalate_lines (source : Source) (unit : Nat) :
    "\n".intercalate (source.lines.map (·.text unit)) =
      source.front unit ++ source.last.text unit := by
  obtain ⟨ended, last⟩ := source
  simp only [lines, front]
  induction ended with
  | nil => simp
  | cons line ended ih =>
    rw [List.cons_append, List.map_cons, String.intercalate_cons_of_ne_nil (by simp), ih]
    simp [String.append_assoc]

theorem exists_extends_read (token : Token) {line : SourceLine} (member : line ∈ source.lines) :
    ∃ longer ∈ (source.read token).lines, line.Extends longer := by
  have kept {later : Source} (lines : ∃ last, later.lines = source.lines ++ [last]) :
      ∃ longer ∈ later.lines, line.Extends longer := by
    obtain ⟨last, split⟩ := lines
    exact ⟨line, by simp [split, member], rfl, List.prefix_refl _⟩
  rcases token with run | mark
  · rcases List.mem_append.1 member with ended | last
    · exact ⟨line, List.mem_append_left _ ended, rfl, List.prefix_refl _⟩
    · obtain rfl := List.mem_singleton.1 last
      exact ⟨_, List.mem_append_right _ (List.mem_singleton.2 rfl), rfl, List.prefix_append _ _⟩
  cases mark with
  | hardBreak | indent | dedent => exact kept ⟨_, rfl⟩
  | softBreak | separator | opener | closer => exact ⟨line, member, rfl, List.prefix_refl _⟩

theorem exists_extends_append (tokens rest : List Token) {line : SourceLine}
    (member : line ∈ (ofTokens tokens).lines) :
    ∃ longer ∈ (ofTokens (tokens ++ rest)).lines, line.Extends longer := by
  induction rest using List.reverseRecOn with
  | nil => exact ⟨line, by simpa using member, rfl, List.prefix_refl _⟩
  | append_singleton rest token ih =>
    obtain ⟨longer, among, more⟩ := ih
    obtain ⟨longest, among', more'⟩ := exists_extends_read token among
    rw [← List.append_assoc, ofTokens_concat]
    exact ⟨longest, among', more'.1.trans more.1, more.2.trans more'.2⟩

theorem exists_ofTokens_eq {tokens : List Token}
    (whole : ∀ token ∈ tokens, token.endsLine = false) :
    ∃ runs, ofTokens tokens = ⟨[], ⟨0, runs⟩⟩ ∧
      (runs.map TextRun.width).sum = (tokens.map Token.width).sum ∧
      ∀ run ∈ runs, .text run ∈ tokens := by
  induction tokens using List.reverseRecOn with
  | nil => exact ⟨[], rfl, rfl, by simp⟩
  | append_singleton tokens token ih =>
    obtain ⟨runs, source, width, among⟩ := ih fun other member => whole other (by simp [member])
    have last := whole token (by simp)
    rw [ofTokens_concat, source]
    rcases token with run | mark
    · refine ⟨runs ++ [run], rfl, by simp [width, Token.width], ?_⟩
      intro other member
      rcases List.mem_append.1 member with earlier | here
      · exact List.mem_append_left _ (among other earlier)
      · rw [List.mem_singleton.1 here]
        simp
    cases mark with
    | hardBreak | indent | dedent => cases last
    | softBreak | separator | opener | closer =>
      refine ⟨runs, rfl, by simp [width, Token.width], ?_⟩
      exact fun other member => List.mem_append_left _ (among other member)

end Source

/-! ## A page without breaks -/

/-- The margins that so many indents save, if nothing else saves one. -/
def indentMargins (unit : Nat) : Nat → List Margin
  | 0 => []
  | indents + 1 => ⟨unit * indents, 0⟩ :: indentMargins unit indents

namespace Page

variable {config : Config} {page next : Page} {source : Source} {tokens : List Token}
  {token : Token} {unit : Nat}

/-- The page holds the source lines, one for one. -/
structure Flat (unit : Nat) (source : Source) (page : Page) : Prop where
  margin : page.margin = ⟨unit * source.last.indents, 0⟩
  saved : page.saved = indentMargins unit source.last.indents
  line : page.Line (source.front unit) (source.last.indentation unit) (source.last.runs.map .run)

theorem Flat.text (flat : page.Flat unit source) :
    page.text = source.front unit ++ source.last.text unit := by
  rw [flat.line.text, SourceLine.text, Ink.spell_map_run]

theorem Flat.column_le (flat : page.Flat unit source) :
    page.writeMargin.column ≤ source.last.width unit := by
  have le := flat.line.column_le
  rw [Ink.total_map_run] at le
  have indented : source.last.indentation unit ≤ unit * source.last.indents := by
    unfold SourceLine.indentation
    split <;> omega
  unfold writeMargin
  split
  · simp [flat.margin, Margin.width, SourceLine.width]
  · rw [SourceLine.width]
    omega

theorem Flat.putText (flat : page.Flat unit source) (run : TextRun) :
    (page.putText run).Flat unit (source.read (.text run)) where
  margin := (margin_writeMargin page).trans flat.margin
  saved := (saved_writeMargin page).trans flat.saved
  line := by
    have put := flat.line.putText run
    have indentation : (if source.last.runs.map Ink.run = [] then page.margin.width
        else source.last.indentation unit) = unit * source.last.indents := by
      split
      · simp [flat.margin, Margin.width]
      · rename_i some
        rw [SourceLine.indentation, if_neg (by simpa using some)]
    rw [indentation] at put
    simpa [Source.read, Source.front, SourceLine.indentation] using put

theorem Flat.keep (flat : page.Flat unit source) (text : next.text = page.text)
    (column : next.column = page.column) (margin : next.margin = page.margin)
    (saved : next.saved = page.saved) : next.Flat unit source where
  margin := margin.trans flat.margin
  saved := saved.trans flat.saved
  line := flat.line.keep text column (Nat.le_of_eq (congrArg Margin.width margin))

theorem Flat.endLine (flat : page.Flat unit source) {indents : Nat}
    (ends : token.endsLine = true) (placed : page.place config false token = .ok next)
    (margin : next.margin = ⟨unit * indents, 0⟩) (saved : next.saved = indentMargins unit indents) :
    next.Flat unit (source.endLine indents) where
  margin := margin
  saved := saved
  line := by
    obtain ⟨block, text, leaves⟩ := place_leaves placed
    have newline : block = "\n" := by
      rcases token with run | mark
      · cases ends
      · cases mark <;> first | exact leaves | cases ends
    rw [newline, flat.text, ← Source.front_endLine source unit indents] at text
    rw [← text]
    exact line_of_endsLine ends placed

/-- Where no line is broken, a token does to the page what it does to the source lines. -/
theorem Flat.place (flat : page.Flat config.indentUnit source)
    (lists : page.lists = (openBrackets tokens).map (openState []))
    (placed : page.place config false token = .ok next) :
    next.Flat config.indentUnit (source.read token) := by
  rcases token with run | mark
  · cases placed
    exact flat.putText run
  cases mark with
  | hardBreak =>
    apply flat.endLine rfl placed
    · cases placed
      simp only [advance, continueBy, startLine, write, flat.margin, flat.saved]
      cases source.last.indents <;> rfl
    · cases placed
      exact flat.saved
  | indent =>
    apply flat.endLine rfl placed
    · cases placed
      simp only [advance, moveIn, startLine, write, flat.margin, Nat.mul_succ]
    · cases placed
      simp only [advance, moveIn, startLine, write, flat.margin, flat.saved, indentMargins]
  | dedent =>
    have taken := saved_dedent placed
    rw [flat.saved] at taken
    cases indents : source.last.indents with
    | zero => rw [indents] at taken; cases taken
    | succ outer =>
      rw [indents, indentMargins, List.cons.injEq] at taken
      rw [Source.read, indents]
      exact flat.endLine rfl placed taken.1.symm taken.2.symm
  | softBreak | separator | opener =>
    cases placed
    exact flat.keep rfl rfl rfl rfl
  | closer bracket =>
    rcases closeList_cases placed with ⟨rest, -, rfl⟩ | ⟨rest, -, -, top, -, -⟩
    · exact flat.keep rfl rfl rfl rfl
    · obtain ⟨opener, -, -, broken, -⟩ := openState_top (lists.symm.trans top)
      exact absurd (shapeIn_eq_broken_iff.1 broken) List.not_mem_nil

theorem flat_of_lay (laid : lay (fun _ => config) [] tokens = .ok page) :
    page.Flat config.indentUnit (Source.ofTokens tokens) := by
  refine (lay_induction (fun tokens page => page.lists = (openBrackets tokens).map (openState []) ∧
    page.Flat config.indentUnit (Source.ofTokens tokens)) ?_ ?_ laid).2.2
  · exact ⟨rfl, rfl, rfl, Line.blank⟩
  · intro tokens page next token ⟨lists, flat⟩ _ placed
    refine ⟨?_, ?_⟩
    · rw [openBrackets, unclosed_concat]
      exact lists_place lists placed
    · rw [Source.ofTokens_concat]
      exact flat.place lists placed

end Page

/-! ## Priorities on a line -/

theorem Token.eq_of_separator {token : Token} (breaks : token.breakKind? = some .separator) :
    token = .mark .separator := by
  rcases token with run | mark
  · cases breaks
  · cases mark <;> cases breaks
    rfl

/-- A line end outside of all brackets is at least as welcome as any break, a separator outside of
all brackets aside. -/
theorem BreakKind.priority_le_hardBreak (kind : BreakKind) {around : Nat}
    (inside : kind = .separator → 0 < around) :
    kind.priority (kind.depthIn around) ≤ Priority.hardBreak 0 := by
  have halves {few many : Nat} (le : few ≤ many) :
      (Priority.scaled few 0).units ≤ (Priority.scaled many 0).units := by
    rw [Priority.units_scaled few (by decide), Priority.units_scaled many (by decide)]
    exact Nat.mul_le_mul_right _ le
  rw [Priority.le_iff_units]
  cases kind with
  | soft =>
    calc (Priority.scaled 2 around).units
        _ ≤ (Priority.scaled 2 0).units := Priority.scaled_le_scaled 2 (Nat.zero_le around)
        _ ≤ (Priority.scaled 3 0).units := halves (by decide)
  | separator =>
    calc (Priority.scaled 4 around).units
        _ ≤ (Priority.scaled 4 1).units := Priority.scaled_le_scaled 4 (inside rfl)
        _ ≤ (Priority.scaled 2 0).units := Priority.scaled_double_succ_le 2 0
        _ ≤ (Priority.scaled 3 0).units := halves (by decide)
  | opener bracket =>
    calc (Priority.scaled 6 (around + 1)).units
        _ ≤ (Priority.scaled 6 1).units := Priority.scaled_le_scaled 6 (Nat.le_add_left 1 around)
        _ ≤ (Priority.scaled 3 0).units := Priority.scaled_double_succ_le 3 0

/-! ## Going back -/

namespace Layout

variable {tokens : List Token} {usable : Config → Prop} {l : Layout} {config : Config}
  {token : Token}

/-- If no step goes back, the line is never broken. -/
theorem Reached.fired_eq_nil (reached : Reached tokens usable l)
    (onward : ∀ {l next : Layout} {config : Config} {token : Token} {choice : Choice},
      Straight tokens usable l → l.fired = [] → usable config → tokens[l.cursor]? = some token →
      ¬ Back l config token choice next) : l.fired = [] := by
  induction reached with
  | start => rfl
  | step reached allowed read done ih =>
    rcases step_cases done with forward | ⟨choice, back⟩
    · rw [forward.fired]
      exact ih
    · exact absurd back (onward reached.straight ih allowed read)

theorem Straight.not_exceeds (straight : Straight tokens (· = config) l) (whole : l.fired = [])
    {run : TextRun} (read : tokens[l.cursor]? = some (.text run))
    (fits : ∀ line ∈ (Source.ofTokens tokens).lines,
      line.width config.indentUnit ≤ config.widthLimit) :
    config.exceeds l.writeMargin.column run.width = false := by
  have laid := straight.laid_of_config
  rw [whole] at laid
  have column : l.writeMargin.column ≤
      (Source.ofTokens (tokens.take l.cursor)).last.width config.indentUnit := by
    have le := (Page.flat_of_lay laid).column_le
    rw [← page_writeMargin] at le
    exact le
  have split : tokens.take (l.cursor + 1) = tokens.take l.cursor ++ [.text run] := by
    rw [List.take_add_one, read, Option.toList_some]
  -- the source line goes on to the end of the line in the whole stream
  obtain ⟨line, member, more⟩ := Source.exists_extends_append (tokens.take (l.cursor + 1))
    (tokens.drop (l.cursor + 1)) (List.mem_append_right _ (List.mem_singleton.2 rfl))
  rw [List.take_append_drop] at member
  have room := (more.width_le config.indentUnit).trans (fits line member)
  rw [split, Source.ofTokens_concat] at room
  simp only [Source.read, SourceLine.width, List.map_append, List.map_cons, List.map_nil,
    List.sum_append, List.sum_cons, List.sum_nil] at room column
  have short : addColumns l.writeMargin.column run.width ≤ config.widthLimit :=
    (Nat.min_le_left _ _).trans (by omega)
  simpa [Config.exceeds] using short

/-- Outside of all brackets, nothing pending goes before a line end, if separators stand inside of
brackets only. -/
theorem Straight.overriding?_eq_none (straight : Straight tokens usable l)
    (outside : openBrackets (tokens.take l.cursor) = [])
    (enclosed : ∀ index, tokens[index]? = some (.mark .separator) →
      openBrackets (tokens.take index) ≠ []) :
    l.overriding? = none := by
  cases chosen : l.overriding? with
  | none => rfl
  | some choice =>
    have above : Priority.hardBreak l.lists.depth < choice.candidate.priority :=
      (Pending.highestNewest_of_bestAbove? l.descending chosen).1
    obtain ⟨token, kind, read, breaks, priority⟩ :=
      straight.priority_of_mem (Pending.mem_of_bestAbove? chosen)
    have inside : kind = .separator →
        0 < (openBrackets (tokens.take choice.candidate.index)).length := by
      rintro rfl
      obtain rfl := Token.eq_of_separator breaks
      exact List.length_pos_of_ne_nil (enclosed _ read)
    have le := kind.priority_le_hardBreak inside
    rw [straight.depth_eq, outside, priority] at above
    exact absurd above (Nat.not_lt_of_le le)

end Layout

namespace Engine

variable {config : Config} {tokens : List Token}

/-- If the source lines fit and no line end is overridden, an engine never goes back, and it writes
the source lines. -/
theorem run_of_fits (sane : (Engine.run { config := config } tokens.toArray).fault? = none)
    (unopposed : ∀ {l : Layout} {token : Token}, Layout.Straight tokens (· = config) l →
      tokens[l.cursor]? = some token → token.endsLine = true → l.overriding? = none)
    (fits : ∀ line ∈ (Source.ofTokens tokens).lines,
      line.width config.indentUnit ≤ config.widthLimit) :
    (Engine.run { config := config } tokens.toArray).layout.fired = [] ∧
      (Engine.run { config := config } tokens.toArray).text =
        "\n".intercalate ((Source.ofTokens tokens).lines.map (·.text config.indentUnit)) := by
  obtain ⟨reached, cursor⟩ := reached_run sane
  have whole : (Engine.run { config := config } tokens.toArray).layout.fired = [] := by
    apply reached.fired_eq_nil
    rintro l next config' token choice straight unbroken rfl read back
    rcases back.cause with ⟨run, rfl, exceeds, -⟩ | ⟨ends, chosen⟩
    · rw [straight.not_exceeds unbroken read fits] at exceeds
      cases exceeds
    · rw [unopposed straight read ends] at chosen
      cases chosen
  have laid := reached.straight.laid_all (Nat.le_of_eq cursor.symm)
  rw [whole] at laid
  refine ⟨whole, ?_⟩
  rw [Source.intercalate_lines]
  exact (Page.flat_of_lay laid).text

end Engine

/-- A stream whose source lines fit is laid out flat: nothing is ever broken, and the output is its
source lines, each behind its indents. The stream is well-nested or the front part of one that is,
lines end outside of all brackets, and separators stand inside of one. -/
theorem flat_if_lines_fit (config : Config) {front missing : List Token}
    (nested : Balanced Token.opensPair? Token.closesPair? (front ++ missing))
    (outside : ∀ index token, front[index]? = some token → token.endsLine = true →
      openBrackets (front.take index) = [])
    (enclosed : ∀ index, front[index]? = some (.mark .separator) →
      openBrackets (front.take index) ≠ [])
    (fits : ∀ line ∈ (Source.ofTokens front).lines,
      line.width config.indentUnit ≤ config.widthLimit) :
    (Engine.run { config := config } front.toArray).layout.fired = [] ∧
      renderTokens config front.toArray =
        .ok ("\n".intercalate
          ((Source.ofTokens front).lines.map (·.text config.indentUnit))) := by
  have sane := Engine.fault?_run_of_fits
    (nestingFault?_of_innermost (nested.closesInnermost apart_pairs)) config
  have flat := Engine.run_of_fits sane
    (fun straight read ends => straight.overriding?_eq_none (outside _ _ read ends) enclosed) fits
  refine ⟨flat.1, ?_⟩
  rw [renderTokens, Engine.result, sane, flat.2]

/-- A closed list whose break is as welcome as the line end, an indented line that begins with an
empty run, and one without runs. The dedent that is missing does not matter. -/
theorem flat_if_lines_fit_indented :
    let front : List Token :=
      [.plain "f(", .mark (.opener .list), .plain "a, ", .mark .separator, .plain "b",
        .mark (.closer .list), .plain ")", .mark .indent, .plain "", .plain "g", .mark .hardBreak,
        .mark .softBreak, .mark .hardBreak, .plain "h"]
    Balanced Token.opensPair? Token.closesPair? (front ++ [.mark .dedent]) ∧
      (Engine.run { config := ⟨7, 2⟩ } front.toArray).layout.fired = [] ∧
      renderTokens ⟨7, 2⟩ front.toArray = .ok "f(a, b)\n  g\n\n  h" := by
  intro front
  let items : List Token := [.plain "a, ", .mark .separator, .plain "b"]
  let body : List Token :=
    [.plain "", .plain "g", .mark .hardBreak, .mark .softBreak, .mark .hardBreak, .plain "h"]
  have inside : Balanced Token.opensPair? Token.closesPair? items :=
    .plain rfl rfl (.plain rfl rfl (.plain rfl rfl .nil))
  have call : Balanced Token.opensPair? Token.closesPair?
      (.plain "f(" :: .mark (.opener .list) :: (items ++ [.mark (.closer .list), .plain ")"])) :=
    .plain (by rfl) (by rfl) (.pair (by rfl) (by rfl) inside (.plain rfl rfl .nil))
  have indented : Balanced Token.opensPair? Token.closesPair? body :=
    .plain rfl rfl (.plain rfl rfl (.plain rfl rfl (.plain rfl rfl (.plain rfl rfl
      (.plain rfl rfl .nil)))))
  have block : Balanced Token.opensPair? Token.closesPair?
      (.mark .indent :: (body ++ [.mark .dedent])) := .pair (by rfl) (by rfl) indented .nil
  have nested : Balanced Token.opensPair? Token.closesPair? (front ++ [.mark .dedent]) :=
    call.append block
  have outside : ∀ index token, front[index]? = some token → token.endsLine = true →
      openBrackets (front.take index) = [] := by
    have checked : ∀ index < 14, (∃ token ∈ front[index]?, token.endsLine = true) →
        openBrackets (front.take index) = [] := by decide
    intro index token read ends
    exact checked index (List.getElem?_eq_some_iff.1 read).1 ⟨token, read, ends⟩
  have enclosed : ∀ index, front[index]? = some (.mark .separator) →
      openBrackets (front.take index) ≠ [] := by
    have checked : ∀ index < 14, front[index]? = some (.mark .separator) →
        openBrackets (front.take index) ≠ [] := by decide
    intro index read
    exact checked index (List.getElem?_eq_some_iff.1 read).1 read
  have fits : ∀ line ∈ (Source.ofTokens front).lines, line.width 2 ≤ 7 := by decide
  have flat := flat_if_lines_fit ⟨7, 2⟩ nested outside enclosed fits
  have text : "\n".intercalate ((Source.ofTokens front).lines.map (·.text 2)) =
      "f(a, b)\n  g\n\n  h" := by decide +kernel
  exact ⟨nested, flat.1, flat.2.trans (congrArg Except.ok text)⟩

end LineLayout
