import LineLayout.Markup
import LineLayout.Proofs.Backtracking
import LineLayout.Proofs.Wording

/-!
# Skeletons

Streams that differ in the wording of their runs only are broken at the same tokens, so one pass
over either of them writes the same spaces, line feeds and parentheses, and the runs in the same
places. What the two texts have in common is a `Skeleton`, which refers to runs by their numbers.
Each stream puts its own words in.
-/

namespace LineLayout

/-! ## Skeletons -/

/-- A part of a text that is laid out. The words of a run are told by its number only. -/
inductive Part where
  | space
  | newline
  | opening
  | closing
  | words (index : Nat)
deriving DecidableEq

/-- A text that is laid out, without the words of its runs. -/
abbrev Skeleton : Type :=
  List Part

/-- The text of a part, in the wording of the tokens. -/
def Part.fill (tokens : List Token) : Part → String
  | space => " "
  | newline => "\n"
  | opening => "("
  | closing => ")"
  | words index =>
    match tokens[index]? with
    | some (.text run) => run.text
    | _ => ""

/-- The run that a part refers to. -/
def Part.reference? : Part → Option Nat
  | words index => some index
  | _ => none

namespace Skeleton

/-- The text of a skeleton, in the wording of the tokens. -/
def fill (skeleton : Skeleton) (tokens : List Token) : String :=
  String.join (skeleton.map (Part.fill tokens))

/-- The numbers of the runs that a skeleton refers to, in the order in which it does. -/
def references (skeleton : Skeleton) : List Nat :=
  skeleton.filterMap Part.reference?

theorem fill_append (skeleton parts : Skeleton) (tokens : List Token) :
    fill (skeleton ++ parts) tokens = skeleton.fill tokens ++ parts.fill tokens := by
  rw [fill, List.map_append, String.join_append]
  rfl

theorem fill_spaces (count : Nat) (tokens : List Token) :
    fill (List.replicate count .space) tokens = Text.blank count := by
  induction count with
  | zero => rfl
  | succ count ih =>
    rw [List.replicate_succ, fill, List.map_cons, String.join_cons, ← fill, ih, Text.blank,
      Text.blank, List.replicate_succ, String.ofList_cons]
    rfl

end Skeleton

/-- The numbers of the runs among the first tokens. -/
def runsBefore (tokens : List Token) (count : Nat) : List Nat :=
  (List.range count).filter fun index => tokens[index]?.any Token.isText

theorem runsBefore_succ {tokens : List Token} {index : Nat} {token : Token}
    (read : tokens[index]? = some token) :
    runsBefore tokens (index + 1) =
      runsBefore tokens index ++ if token.isText then [index] else [] := by
  simp [runsBefore, List.range_succ, List.filter_append, read, List.filter_cons]

namespace Page

/-- Two pages that differ in the wording only: one skeleton gives both texts. It refers to the runs
that are laid out, to each once and in their order. -/
structure Alike (first second : List Token) (page other : Page) : Prop where
  column : page.column = other.column
  margin : page.margin = other.margin
  lists : page.lists = other.lists
  saved : page.saved = other.saved
  cursor : page.cursor = other.cursor
  drawn : ∃ skeleton : Skeleton, skeleton.references = runsBefore first page.cursor ∧
    page.text = skeleton.fill first ∧ other.text = skeleton.fill second

namespace Alike

variable {first second : List Token} {page other : Page} {token token' : Token} {config : Config}

theorem write (alike : Alike first second page other) (parts : Skeleton)
    (bare : parts.references = []) :
    Alike first second (page.write (parts.fill first)) (other.write (parts.fill second)) := by
  obtain ⟨skeleton, references, text, text'⟩ := alike.drawn
  refine { alike with drawn := ⟨skeleton ++ parts, ?_, ?_, ?_⟩ }
  · rw [Skeleton.references, List.filterMap_append, ← Skeleton.references, references,
      ← Skeleton.references, bare, List.append_nil]
    rfl
  · rw [Skeleton.fill_append, ← text]
    rfl
  · rw [Skeleton.fill_append, ← text']
    rfl

theorem writeMargin (alike : Alike first second page other) :
    Alike first second page.writeMargin other.writeMargin := by
  unfold Page.writeMargin
  rw [alike.column, alike.margin]
  split
  · have bare : Skeleton.references (List.replicate other.margin.width .space) = [] := by
      simp [Skeleton.references, Part.reference?]
    have written := alike.write _ bare
    rw [Skeleton.fill_spaces, Skeleton.fill_spaces] at written
    exact { written with column := rfl }
  · exact alike

theorem startLine (alike : Alike first second page other) :
    Alike first second page.startLine other.startLine :=
  { alike.write [.newline] rfl with column := rfl }

/-- A token without words adds nothing that a skeleton refers to. -/
theorem advance (alike : Alike first second page other) (read : first[page.cursor]? = some token)
    (wordless : token.isText = false) : Alike first second page.advance other.advance := by
  obtain ⟨skeleton, references, texts⟩ := alike.drawn
  refine { alike with cursor := congrArg (· + 1) alike.cursor, drawn := ⟨skeleton, ?_, texts⟩ }
  show _ = runsBefore first (page.cursor + 1)
  rw [runsBefore_succ read, wordless, references]
  simp

/-- A run adds its margin and a reference to itself. -/
theorem putText (alike : Alike first second page other) {run : TextRun} {words : String}
    (read : first[page.cursor]? = some (.text run))
    (read' : second[page.cursor]? = some (.text ⟨words, run.width⟩)) :
    Alike first second (page.putText run) (other.putText ⟨words, run.width⟩) := by
  have margin := alike.writeMargin
  obtain ⟨skeleton, references, text, text'⟩ := margin.drawn
  refine { margin with
    column := congrArg (addColumns · run.width) margin.column
    cursor := congrArg (· + 1) margin.cursor
    drawn := ⟨skeleton ++ [.words page.cursor], ?_, ?_, ?_⟩ }
  · show _ = runsBefore first (page.writeMargin.cursor + 1)
    rw [Skeleton.references, List.filterMap_append, ← Skeleton.references, references,
      cursor_writeMargin, runsBefore_succ read]
    rfl
  · rw [Skeleton.fill_append, ← text]
    simp [Page.putText, Page.advance, Page.write, Skeleton.fill, Part.fill, read]
  · rw [Skeleton.fill_append, ← text']
    simp [Page.putText, Page.advance, Page.write, Skeleton.fill, Part.fill, read']

theorem continueBy (alike : Alike first second page other) (extra : Nat) :
    Alike first second (page.continueBy extra) (other.continueBy extra) := by
  refine { alike with margin := ?_ }
  unfold Page.continueBy
  rw [alike.margin, alike.saved]

theorem moveIn (alike : Alike first second page other) (columns : Nat) :
    Alike first second (page.moveIn columns) (other.moveIn columns) := by
  refine { alike with margin := ?_, saved := ?_ }
  · unfold Page.moveIn
    rw [alike.margin]
  · unfold Page.moveIn
    rw [alike.margin, alike.saved]

theorem enter (alike : Alike first second page other) (state : ListState) :
    Alike first second (page.enter state) (other.enter state) :=
  { alike with lists := congrArg (state :: ·) alike.lists }

theorem breakLine (alike : Alike first second page other) (config : Config) (kind : BreakKind) :
    Alike first second (page.breakLine config kind) (other.breakLine config kind) := by
  rcases kind with _ | _ | (_ | _)
  · exact alike.startLine.continueBy _
  · exact alike.startLine.continueBy 0
  · exact (alike.startLine.moveIn _).enter _
  · exact ((alike.writeMargin.write [.opening] rfl).startLine.moveIn _).enter _

theorem pass (alike : Alike first second page other) (kind : BreakKind) :
    Alike first second (page.pass kind) (other.pass kind) := by
  cases kind with
  | soft | separator => exact alike
  | opener bracket => exact alike.enter _

theorem offer (alike : Alike first second page other) (read : first[page.cursor]? = some token)
    (wordless : token.isText = false) (config : Config) (broken : Bool) (kind : BreakKind) :
    Alike first second (page.offer config broken kind) (other.offer config broken kind) := by
  have behind := alike.advance read wordless
  unfold Page.offer
  split
  · rw [← breakLine_advance, ← breakLine_advance]
    exact behind.breakLine config kind
  · have passed := behind.pass kind
    cases kind <;> exact passed

end Alike

/-- Two ends of a pass that differ in the wording only. -/
inductive SameReading (first second : List Token) :
    Except (Fault × Page) Page → Except (Fault × Page) Page → Prop
  | ok {page other : Page} (alike : Alike first second page other) :
      SameReading first second (.ok page) (.ok other)
  | error {fault fault' : Fault} {page other : Page} (same : fault = fault')
      (alike : Alike first second page other) :
      SameReading first second (.error (fault, page)) (.error (fault', other))

namespace Alike

variable {first second : List Token} {page other : Page} {token token' : Token}

theorem takeBackMargin (alike : Alike first second page other)
    (read : first[page.cursor]? = some token) (wordless : token.isText = false) :
    SameReading first second page.takeBackMargin other.takeBackMargin := by
  unfold Page.takeBackMargin
  rw [alike.saved]
  cases other.saved with
  | nil => exact .error (congrArg Fault.unindented alike.cursor) alike
  | cons margin saved =>
    have taken : Alike first second { page with margin := margin, saved := saved }
        { other with margin := margin, saved := saved } :=
      { alike with margin := rfl, saved := rfl }
    exact .ok (taken.advance read wordless)

theorem dedent (alike : Alike first second page other) (read : first[page.cursor]? = some token)
    (wordless : token.isText = false) : SameReading first second page.dedent other.dedent := by
  unfold Page.dedent
  rw [alike.saved]
  cases other.saved with
  | nil => exact .error (congrArg Fault.unindented alike.cursor) alike
  | cons _ _ => exact alike.startLine.takeBackMargin read wordless

theorem writeClosing (alike : Alike first second page other) (bracket : Bracket) :
    Alike first second (page.writeClosing bracket) (other.writeClosing bracket) := by
  cases bracket with
  | list => exact alike
  | paren =>
    have margin := alike.writeMargin
    exact { margin.write [.closing] rfl with column := congrArg (· + 1) margin.column }

theorem closeList (alike : Alike first second page other) (read : first[page.cursor]? = some token)
    (wordless : token.isText = false) (bracket : Bracket) :
    SameReading first second (page.closeList bracket) (other.closeList bracket) := by
  unfold Page.closeList
  rw [alike.lists]
  split
  · rename_i opened shape rest lists
    have inner : Alike first second { page with lists := rest } { other with lists := rest } :=
      { alike with lists := rfl }
    split
    · cases shape with
      | flat => exact .ok (inner.advance read wordless)
      | broken =>
        refine (inner.writeClosing bracket).takeBackMargin ?_ wordless
        cases bracket with
        | list => exact read
        | paren => exact (congrArg (first[·]?) (cursor_writeMargin _)).trans read
    · exact .error (congrArg (Fault.mismatched · opened bracket) alike.cursor) alike
  · exact .error (congrArg (Fault.unopened · bracket) alike.cursor) alike

theorem place (alike : Alike first second page other) (config : Config) (broken : Bool)
    (read : first[page.cursor]? = some token) (read' : second[page.cursor]? = some token')
    (same : token.outline = token'.outline) :
    SameReading first second (page.place config broken token)
      (other.place config broken token') := by
  rcases Token.outline_cases same with ⟨run, words, rfl, rfl⟩ | ⟨mark, rfl, rfl⟩
  · exact .ok (alike.putText read read')
  cases mark with
  | hardBreak => exact .ok ((alike.startLine.continueBy 0).advance read rfl)
  | softBreak => exact .ok (alike.offer read rfl config broken .soft)
  | separator => exact .ok (alike.offer read rfl config broken .separator)
  | indent => exact .ok ((alike.startLine.moveIn config.indentUnit).advance read rfl)
  | dedent => exact alike.dedent read rfl
  | opener bracket => exact .ok (alike.offer read rfl config broken (.opener bracket))
  | closer bracket => exact alike.closeList read rfl bracket

end Alike

variable {first second : List Token}

/-- One pass over either stream, with the line broken at the same tokens. -/
theorem sameReading_lay_take (same : first.map Token.outline = second.map Token.outline)
    (settings : Nat → Config) (breaks : List Nat) {count : Nat} (inside : count ≤ first.length) :
    SameReading first second (lay settings breaks (first.take count))
      (lay settings breaks (second.take count)) := by
  induction count with
  | zero => exact .ok ⟨rfl, rfl, rfl, rfl, rfl, [], rfl, rfl, rfl⟩
  | succ count ih =>
    have read : first[count]? = some first[count] := List.getElem?_eq_getElem inside
    obtain ⟨other, read', outline⟩ := exists_outline same read
    have before := ih (Nat.le_of_succ_le inside)
    rw [lay_take_succ read, lay_take_succ read']
    generalize laid : lay settings breaks (first.take count) = reading at before
    generalize lay settings breaks (second.take count) = reading' at before
    cases before with
    | error same alike => exact .error same alike
    | @ok page page' alike =>
      have cursor : page.cursor = count := by
        rw [cursor_of_lay laid, List.length_take_of_le (Nat.le_of_succ_le inside)]
      simp only [Except.bind, ← alike.cursor, cursor]
      exact alike.place _ _ (cursor ▸ read) (cursor ▸ read') outline

theorem sameReading_lay (same : first.map Token.outline = second.map Token.outline)
    (settings : Nat → Config) (breaks : List Nat) :
    SameReading first second (lay settings breaks first) (lay settings breaks second) := by
  have lengths : first.length = second.length := by simpa using congrArg List.length same
  have whole := sameReading_lay_take same settings breaks (Nat.le_refl first.length)
  rw [List.take_length, lengths, List.take_length] at whole
  exact whole

end Page

/-! ## Engines -/

namespace Engine

variable {first second : List Token} {engine other : Engine}

/-- Engines that read the same, up to the wording, stand on pages that are alike. -/
theorem alike_of_sameReading (same : Page.SameReading first second engine.reading other.reading) :
    Page.Alike first second engine.layout.page other.layout.page := by
  unfold reading at same
  cases faulty : engine.fault? <;> cases faulty' : other.fault? <;>
    simp only [faulty, faulty'] at same
  · cases same with
    | ok alike => exact alike
  · cases same
  · cases same
  · cases same with
    | error _ alike => exact alike

/-- How far a stream is laid out, where the line and the margin stand, what is open, what is pending
and whether a token is refused does not depend on the wording of the runs. And the text is that of a
skeleton which does not depend on it either, and which refers to each run that is laid out once, in
the order of the stream. -/
theorem layout_independent_of_wording (config : Config) {tokens others : Array Token}
    (same : tokens.map Token.outline = others.map Token.outline) :
    (Engine.run { config := config } tokens).fault? =
        (Engine.run { config := config } others).fault? ∧
      (Engine.run { config := config } tokens).layout.cursor =
        (Engine.run { config := config } others).layout.cursor ∧
      (Engine.run { config := config } tokens).layout.column =
        (Engine.run { config := config } others).layout.column ∧
      (Engine.run { config := config } tokens).layout.margin =
        (Engine.run { config := config } others).layout.margin ∧
      (Engine.run { config := config } tokens).layout.lists.depth =
        (Engine.run { config := config } others).layout.lists.depth ∧
      (Engine.run { config := config } tokens).layout.pending.length =
        (Engine.run { config := config } others).layout.pending.length ∧
      ∃ skeleton : Skeleton,
        skeleton.references =
          runsBefore tokens.toList (Engine.run { config := config } tokens).layout.cursor ∧
        (Engine.run { config := config } tokens).text = skeleton.fill tokens.toList ∧
        (Engine.run { config := config } others).text = skeleton.fill others.toList := by
  have outlines : tokens.toList.map Token.outline = others.toList.map Token.outline := by
    rw [← Array.toList_map, same, Array.toList_map]
  have outcomes := (Layout.Alike.refl {}).run config outlines
  have engines : (Engine.run { config := config } tokens).fault? =
      (Engine.run { config := config } others).fault? ∧
      (Engine.run { config := config } tokens).layout.Alike
        (Engine.run { config := config } others).layout := by
    simp only [Engine.run]
    generalize Layout.run {} config tokens = outcome at outcomes
    generalize Layout.run {} config others = outcome' at outcomes
    cases outcomes with
    | done alike => exact ⟨rfl, alike⟩
    | rejected same alike => exact ⟨congrArg some same, alike⟩
  obtain ⟨faults, alike⟩ := engines
  -- the line is broken at the same tokens, so both texts come from one pass each over alike tokens
  have fired : (Engine.run { config := config } tokens).layout.fired =
      (Engine.run { config := config } others).layout.fired := by
    rw [Layout.fired, alike.journal, Layout.fired]
  have readings := Page.sameReading_lay outlines (fun _ => config)
    (Engine.run { config := config } tokens).layout.fired
  rw [← reading_run config tokens, fired, ← reading_run config others] at readings
  exact ⟨faults, alike.cursor, alike.column, alike.margin, congrArg OpenLists.depth alike.lists,
    alike.length_pending, (alike_of_sameReading readings).drawn⟩

/-- Runs with markup and a character of several bytes in place of plain ones: the outputs are cut
back to different sizes, twice, and the lines are broken at the same places. -/
theorem layout_independent_of_wording_markup :
    let tokens : Array Token :=
      #[.plain "f(", .mark (.opener .list), .plain "a<b", .mark .separator, .plain "cd",
        .plain ")", .mark (.closer .list)]
    let others : Array Token :=
      #[.plain "é(", .mark (.opener .list), .escaped "a<b", .mark .separator, .keyword "de",
        .plain ")", .mark (.closer .list)]
    tokens.map Token.outline = others.map Token.outline ∧
      (Engine.run { config := ⟨5, 1⟩ } tokens).text = "f(\n  a<b\n  cd)" ∧
      (Engine.run { config := ⟨5, 1⟩ } others).text =
        "é(\n  a&lt;b\n  <span class='kw'>de</span>)" ∧
      ∃ skeleton : Skeleton,
        skeleton.references = [0, 2, 4, 5] ∧
        skeleton.fill tokens.toList = "f(\n  a<b\n  cd)" ∧
        skeleton.fill others.toList = "é(\n  a&lt;b\n  <span class='kw'>de</span>)" := by
  intro tokens others
  have same : tokens.map Token.outline = others.map Token.outline := by decide +kernel
  have text : (Engine.run { config := ⟨5, 1⟩ } tokens).text = "f(\n  a<b\n  cd)" := by
    decide +kernel
  have text' : (Engine.run { config := ⟨5, 1⟩ } others).text =
      "é(\n  a&lt;b\n  <span class='kw'>de</span>)" := by decide +kernel
  have runs : runsBefore tokens.toList (Engine.run { config := ⟨5, 1⟩ } tokens).layout.cursor =
      [0, 2, 4, 5] := by decide +kernel
  obtain ⟨-, -, -, -, -, -, skeleton, references, filled, filled'⟩ :=
    layout_independent_of_wording ⟨5, 1⟩ same
  exact ⟨same, text, text', skeleton, references.trans runs, filled.symm.trans text,
    filled'.symm.trans text'⟩

end Engine

end LineLayout
