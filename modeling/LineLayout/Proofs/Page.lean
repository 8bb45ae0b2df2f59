import LineLayout.Proofs.Runs
import Mathlib.Data.List.Induction

/-!
# Laying out in one pass

`lay` reads each token once, from left to right. It measures nothing and has no candidates: the
tokens at which the line is broken are given. What it keeps is a `Page`, with plain stacks in place
of trails.

`Layout.page` is the page of a layout. `page_forward`, `page_breakLine` and `page_refused` say that
going forward, breaking the line and refusing a token do to the page what `place` does, so that a
straight history is one pass over the tokens (`Straight.laid`).
-/

namespace LineLayout

/-- What a pass has written, where it stands, and its two stacks. -/
structure Page where
  text : String := ""
  /-- Columns used on the line, its margin included. -/
  column : Nat := 0
  margin : Margin := {}
  /-- The open brackets, the innermost first. -/
  lists : List ListState := []
  /-- The saved margins, the one to take back first in front. -/
  saved : List Margin := []
  /-- The number of the next token. -/
  cursor : Nat := 0
deriving DecidableEq

namespace Page

/-- Writes text at the end. -/
def write (page : Page) (text : String) : Page :=
  { page with text := page.text ++ text }

/-- Goes on to the next token. -/
def advance (page : Page) : Page :=
  { page with cursor := page.cursor + 1 }

/-- Writes the margin if nothing is on the line yet. -/
def writeMargin (page : Page) : Page :=
  if page.column = 0 then
    { page.write (Text.blank page.margin.width) with column := page.margin.width }
  else page

/-- Starts a line. -/
def startLine (page : Page) : Page :=
  { page.write "\n" with column := 0 }

/-- Lets the line continue `extra` columns deeper than the margin saved last. -/
def continueBy (page : Page) (extra : Nat) : Page :=
  { page with
    margin := ⟨page.margin.indent, (page.saved.headD {}).continuation + extra⟩ }

/-- Saves the margin and moves it in. -/
def moveIn (page : Page) (columns : Nat) : Page :=
  { page with
    margin := ⟨page.margin.indent + columns, page.margin.continuation⟩
    saved := page.margin :: page.saved }

/-- Opens a bracket. -/
def enter (page : Page) (state : ListState) : Page :=
  { page with lists := state :: page.lists }

/-! ## Tokens -/

/-- Breaks the line at a token that offers it. -/
def breakLine (page : Page) (config : Config) : BreakKind → Page
  | .soft => page.startLine.continueBy config.wrapIndent
  | .separator => page.startLine.continueBy 0
  | .opener .list => (page.startLine.moveIn config.wrapIndent).enter (.inside .list .broken)
  | .opener .paren =>
    ((page.writeMargin.write "(").startLine.moveIn config.wrapIndent).enter (.inside .paren .broken)

/-- Leaves the line whole at a token that offers to break it. -/
def pass (page : Page) : BreakKind → Page
  | .opener bracket => page.enter (.inside bracket .flat)
  | _ => page

/-- Lays out a token that offers a break, with the line broken there or not. -/
def offer (page : Page) (config : Config) (broken : Bool) (kind : BreakKind) : Page :=
  (if broken then page.breakLine config kind else page.pass kind).advance

/-- Writes a run, behind the margin if it is the first on its line. -/
def putText (page : Page) (run : TextRun) : Page :=
  { page.writeMargin.write run.text with
    column := addColumns page.writeMargin.column run.width }.advance

/-- Takes the margin saved last back and goes on. -/
def takeBackMargin (page : Page) : Except (Fault × Page) Page :=
  match page.saved with
  | margin :: saved => .ok { page with margin := margin, saved := saved }.advance
  | [] => .error (.unindented page.cursor, page)

/-- Ends the line and takes the margin saved last back. -/
def dedent (page : Page) : Except (Fault × Page) Page :=
  match page.saved with
  | _ :: _ => page.startLine.takeBackMargin
  | [] => .error (.unindented page.cursor, page)

/-- Writes the end of a bracket that is broken over lines. -/
def writeClosing (page : Page) : Bracket → Page
  | .list => page
  | .paren => { page.writeMargin.write ")" with column := page.writeMargin.column + 1 }

/-- Closes the innermost bracket, which has to be of this kind, in the shape it has. -/
def closeList (page : Page) (bracket : Bracket) : Except (Fault × Page) Page :=
  match page.lists with
  | .inside opened shape :: rest =>
    if opened = bracket then
      match shape with
      | .flat => .ok { page with lists := rest }.advance
      | .broken => ({ page with lists := rest }.writeClosing bracket).takeBackMargin
    else .error (.mismatched page.cursor opened bracket, page)
  | _ => .error (.unopened page.cursor bracket, page)

/-- Lays out one token. If it offers a break, `broken` tells whether the line is broken there. -/
def place (config : Config) (broken : Bool) (page : Page) : Token → Except (Fault × Page) Page
  | .text run => .ok (page.putText run)
  | .mark .hardBreak => .ok (page.startLine.continueBy 0).advance
  | .mark .softBreak => .ok (page.offer config broken .soft)
  | .mark .separator => .ok (page.offer config broken .separator)
  | .mark .indent => .ok (page.startLine.moveIn config.indentUnit).advance
  | .mark .dedent => page.dedent
  | .mark (.opener bracket) => .ok (page.offer config broken (.opener bracket))
  | .mark (.closer bracket) => page.closeList bracket

/-- Lays out tokens in one pass, each under its own settings, and breaks the line at the tokens with
the given numbers. A fault comes with the page that it leaves. -/
def layFrom (settings : Nat → Config) (breaks : List Nat) (page : Page) (tokens : List Token) :
    Except (Fault × Page) Page :=
  tokens.foldlM
    (fun page token => page.place (settings page.cursor) (decide (page.cursor ∈ breaks)) token) page

/-- Lays out tokens in one pass on an empty page. -/
def lay (settings : Nat → Config) (breaks : List Nat) (tokens : List Token) :
    Except (Fault × Page) Page :=
  layFrom settings breaks {} tokens

theorem breakLine_advance (page : Page) (config : Config) (kind : BreakKind) :
    page.advance.breakLine config kind = (page.breakLine config kind).advance := by
  rcases kind with _ | _ | (_ | _)
  · rfl
  · rfl
  · rfl
  · by_cases empty : page.column = 0 <;>
      simp [breakLine, writeMargin, advance, empty, write, startLine, moveIn, enter]

theorem place_of_breakKind? {token : Token} {kind : BreakKind}
    (breaks : token.breakKind? = some kind) (config : Config) (broken : Bool) (page : Page) :
    page.place config broken token = .ok (page.offer config broken kind) := by
  rcases token with run | mark
  · cases breaks
  · cases mark <;> cases breaks <;> rfl

/-! ## One pass -/

section Pass

variable {settings : Nat → Config} {breaks : List Nat} {page next : Page}

theorem cursor_takeBackMargin (taken : page.takeBackMargin = .ok next) :
    next.cursor = page.cursor + 1 := by
  unfold takeBackMargin at taken
  split at taken
  · cases taken
    rfl
  · cases taken

theorem cursor_writeMargin (page : Page) : page.writeMargin.cursor = page.cursor := by
  unfold writeMargin
  split <;> rfl

theorem cursor_closeList {bracket : Bracket} (closed : page.closeList bracket = .ok next) :
    next.cursor = page.cursor + 1 := by
  unfold closeList at closed
  split at closed
  · split at closed
    · split at closed
      · cases closed
        rfl
      · rw [cursor_takeBackMargin closed]
        cases bracket with
        | list => rfl
        | paren => exact congrArg (· + 1) (cursor_writeMargin _)
    · cases closed
  · cases closed

theorem cursor_offer (page : Page) (config : Config) (broken : Bool) (kind : BreakKind) :
    (page.offer config broken kind).cursor = page.cursor + 1 := by
  rcases kind with _ | _ | (_ | _) <;> cases broken <;>
    simp [offer, breakLine, pass, advance, enter, moveIn, continueBy, startLine, write,
      cursor_writeMargin]

theorem cursor_place {config : Config} {broken : Bool} {token : Token}
    (placed : page.place config broken token = .ok next) : next.cursor = page.cursor + 1 := by
  rcases token with run | mark
  · cases placed
    exact congrArg (· + 1) (cursor_writeMargin page)
  cases mark with
  | hardBreak => cases placed; rfl
  | softBreak => cases placed; exact cursor_offer page config broken .soft
  | separator => cases placed; exact cursor_offer page config broken .separator
  | indent => cases placed; rfl
  | dedent =>
    rw [place, dedent] at placed
    split at placed
    · have same : page.startLine.cursor = page.cursor := rfl
      rw [cursor_takeBackMargin placed, same]
    · cases placed
  | opener bracket => cases placed; exact cursor_offer page config broken (.opener bracket)
  | closer bracket => exact cursor_closeList placed

theorem saved_takeBackMargin (taken : page.takeBackMargin = .ok next) :
    page.saved = next.margin :: next.saved := by
  unfold takeBackMargin at taken
  split at taken
  · rename_i margin saved top
    cases taken
    exact top
  · cases taken

theorem saved_writeMargin (page : Page) : page.writeMargin.saved = page.saved := by
  unfold writeMargin
  split <;> rfl

theorem margin_writeMargin (page : Page) : page.writeMargin.margin = page.margin := by
  unfold writeMargin
  split <;> rfl

theorem saved_writeClosing (page : Page) (bracket : Bracket) :
    (page.writeClosing bracket).saved = page.saved := by
  cases bracket with
  | list => rfl
  | paren => exact saved_writeMargin page

/-- A broken bracket that closes takes the margin back that was saved last. -/
theorem saved_closeList {bracket : Bracket} {shape : Shape} {rest : List ListState}
    (closed : page.closeList bracket = .ok next)
    (top : page.lists = .inside bracket shape :: rest) :
    (shape = .flat ∧ next.saved = page.saved) ∨
      (shape = .broken ∧ page.saved = next.margin :: next.saved) := by
  rw [closeList, top] at closed
  simp only [if_true] at closed
  cases shape with
  | flat =>
    cases closed
    exact Or.inl ⟨rfl, rfl⟩
  | broken =>
    refine Or.inr ⟨rfl, ?_⟩
    rw [← saved_takeBackMargin closed, saved_writeClosing]

theorem layFrom_cons (token : Token) (tokens : List Token) :
    layFrom settings breaks page (token :: tokens) =
      (page.place (settings page.cursor) (decide (page.cursor ∈ breaks)) token).bind
        fun next => layFrom settings breaks next tokens := rfl

theorem layFrom_append (first last : List Token) :
    layFrom settings breaks page (first ++ last) =
      (layFrom settings breaks page first).bind fun next => layFrom settings breaks next last :=
  List.foldlM_append

theorem lay_append (first last : List Token) :
    lay settings breaks (first ++ last) =
      (lay settings breaks first).bind fun page => layFrom settings breaks page last :=
  layFrom_append first last

theorem lay_concat (tokens : List Token) (token : Token) :
    lay settings breaks (tokens ++ [token]) =
      (lay settings breaks tokens).bind fun page =>
        page.place (settings page.cursor) (decide (page.cursor ∈ breaks)) token := by
  rw [lay_append]
  cases lay settings breaks tokens with
  | error _ => rfl
  | ok page =>
    simp only [Except.bind, layFrom_cons]
    cases page.place (settings page.cursor) (decide (page.cursor ∈ breaks)) token <;> rfl

theorem lay_take_succ {tokens : List Token} {index : Nat} {token : Token}
    (read : tokens[index]? = some token) :
    lay settings breaks (tokens.take (index + 1)) =
      (lay settings breaks (tokens.take index)).bind fun page =>
        page.place (settings page.cursor) (decide (page.cursor ∈ breaks)) token := by
  rw [List.take_add_one, read, Option.toList_some, lay_concat]

/-- In front of a token that is laid out lies a page on which it is placed. -/
theorem exists_placed {tokens : List Token} {index : Nat} {token : Token}
    (read : tokens[index]? = some token)
    (laid : lay settings breaks (tokens.take (index + 1)) = .ok next) :
    ∃ page, lay settings breaks (tokens.take index) = .ok page ∧
      page.place (settings page.cursor) (decide (page.cursor ∈ breaks)) token = .ok next := by
  rw [lay_take_succ read] at laid
  cases front : lay settings breaks (tokens.take index) with
  | error _ => rw [front] at laid; cases laid
  | ok page =>
    rw [front] at laid
    exact ⟨page, rfl, laid⟩

/-- What a pass over the tokens keeps as long as each token does holds at its end. -/
theorem lay_induction (Holds : List Token → Page → Prop) (start : Holds [] {})
    (step : ∀ {tokens : List Token} {page next : Page} {token : Token}, Holds tokens page →
      page.cursor = tokens.length →
      page.place (settings tokens.length) (decide (tokens.length ∈ breaks)) token = .ok next →
      Holds (tokens ++ [token]) next)
    {tokens : List Token} {page : Page} (laid : lay settings breaks tokens = .ok page) :
    page.cursor = tokens.length ∧ Holds tokens page := by
  induction tokens using List.reverseRecOn generalizing page with
  | nil =>
    cases laid
    exact ⟨rfl, start⟩
  | append_singleton tokens token ih =>
    rw [lay_concat] at laid
    cases before : lay settings breaks tokens with
    | error _ => rw [before] at laid; cases laid
    | ok middle =>
      rw [before] at laid
      obtain ⟨cursor, holds⟩ := ih before
      have placed : middle.place (settings tokens.length) (decide (tokens.length ∈ breaks)) token =
          .ok page := by rw [← cursor]; exact laid
      refine ⟨?_, step holds cursor placed⟩
      rw [cursor_place placed, cursor, List.length_append]
      rfl

theorem cursor_of_lay {tokens : List Token} (laid : lay settings breaks tokens = .ok page) :
    page.cursor = tokens.length :=
  (lay_induction (fun _ _ => True) trivial (fun _ _ _ => trivial) laid).1

/-- A token that cannot be laid out ends the pass. -/
theorem lay_eq_error {tokens : List Token} {index : Nat} {token : Token} {fault : Fault × Page}
    (read : tokens[index]? = some token) (cursor : page.cursor = index)
    (laid : lay settings breaks (tokens.take index) = .ok page)
    (placed : page.place (settings index) (decide (index ∈ breaks)) token = .error fault) :
    lay settings breaks tokens = .error fault := by
  rw [← List.take_append_drop (index + 1) tokens, lay_append, lay_take_succ read, laid]
  simp only [Except.bind, cursor, placed]

/-- One pass looks at the settings and breaks of the tokens it reads only. -/
theorem layFrom_congr {others : Nat → Config} {breaks' : List Nat} {tokens : List Token}
    (same : ∀ index, page.cursor ≤ index → index < page.cursor + tokens.length →
      settings index = others index ∧ (index ∈ breaks ↔ index ∈ breaks')) :
    layFrom settings breaks page tokens = layFrom others breaks' page tokens := by
  induction tokens generalizing page with
  | nil => rfl
  | cons token tokens ih =>
    obtain ⟨config, broken⟩ := same page.cursor (Nat.le_refl _) (by simp)
    rw [layFrom_cons, layFrom_cons, config, decide_eq_decide.2 broken]
    cases placed : page.place (others page.cursor) (decide (page.cursor ∈ breaks')) token with
    | error _ => rfl
    | ok middle =>
      refine ih fun index after before => same index ?_ ?_
      · rw [cursor_place placed] at after
        omega
      · rw [cursor_place placed] at before
        rw [List.length_cons]
        omega

end Pass

end Page

/-- The page of a layout. -/
def Layout.page (l : Layout) : Page where
  text := l.output.text
  column := l.column
  margin := l.margin
  lists := l.lists.toList.map (·.state)
  saved := l.saved.toList
  cursor := l.cursor

namespace Layout

/-! ## The parts of a step, on the page -/

section Parts

variable {l : Layout}

theorem page_advance (l : Layout) : l.advance.page = l.page.advance := rfl

theorem page_writeMargin (l : Layout) : l.writeMargin.page = l.page.writeMargin := by
  unfold writeMargin Page.writeMargin
  have same : l.page.column = l.column := rfl
  rw [same]
  split <;> rfl

theorem page_putText (l : Layout) (run : TextRun) :
    (l.writeMargin.putText run).page = l.page.putText run := by
  rw [Page.putText, ← page_writeMargin]
  rfl

theorem page_startLine (l : Layout) : l.startLine.page = l.page.startLine := by
  rw [startLine_eq]
  rfl

theorem page_continueBy (l : Layout) (extra : Nat) :
    (l.continueBy extra).page = l.page.continueBy extra := by
  have last : l.saved.last = l.saved.toList.headD {} := by
    rw [SavedMargins.last, Trail.peek?_eq_head?, List.headD_eq_head?_getD]
  simp [continueBy, Page.continueBy, page, last]

theorem page_commitLine (l : Layout) : l.commitLine.page = l.page.startLine.continueBy 0 := by
  have committed : l.commitLine.page = (l.continueBy 0).page.startLine := page_startLine _
  rw [committed, page_continueBy]
  rfl

theorem page_moveIn (sound : l.Sound) (columns : Nat) :
    (l.saveMargin.moveIn columns).page = l.page.moveIn columns := by
  simp [moveIn, saveMargin, page, Page.moveIn, Trail.toList_push sound.saved]

theorem page_enter (sound : l.Sound) (state : ListState) :
    Layout.page { l with lists := l.lists.enter state } = l.page.enter state := by
  simp [page, Page.enter, OpenLists.enter, Trail.toList_push sound.lists]

theorem page_writeClosing (l : Layout) (bracket : Bracket) :
    (l.writeClosing (.inside bracket .broken)).page = l.page.writeClosing bracket := by
  cases bracket with
  | list => rfl
  | paren =>
    simp only [writeClosing_eq, and_self, if_true, Page.writeClosing]
    rw [← page_writeMargin]
    rfl

theorem page_offer (sound : l.Sound) (kind : BreakKind) :
    (l.offer kind).page = (l.page.pass kind).advance := by
  cases kind with
  | soft => rfl
  | separator => rfl
  | opener bracket => exact congrArg Page.advance (page_enter sound _)

theorem page_breakLine (sound : l.Sound) (config : Config) (kind : BreakKind) :
    (l.breakLine config kind).page = l.page.breakLine config kind := by
  cases kind with
  | soft => rw [breakLine, page_continueBy, page_startLine, Page.breakLine]
  | separator => rw [breakLine, page_continueBy, page_startLine, Page.breakLine]
  | opener bracket =>
    have opened := sound_startLine (sound_writeOpening sound bracket)
    have moved : ((l.writeOpening (.inside bracket .broken)).startLine.saveMargin.moveIn
        config.wrapIndent).Sound := ⟨opened.lists, opened.saved.push _⟩
    refine (page_enter moved (.inside bracket .broken)).trans ?_
    rw [page_moveIn opened, page_startLine, writeOpening_eq]
    cases bracket with
    | list => rfl
    | paren =>
      rw [if_pos rfl, Page.breakLine, ← page_writeMargin]
      rfl

end Parts

/-! ## Steps on the page -/

section Steps

variable {l next : Layout} {config : Config} {token : Token}

theorem page_of_leave? (sound : l.Sound) {state : ListState} {rest : OpenLists}
    (left : l.lists.leave? = some (state, rest)) :
    l.page.lists = state :: rest.toList.map (·.state) := by
  obtain ⟨depth, popped⟩ := OpenLists.pop?_of_leave? left
  rw [page, Trail.toList_of_pop? sound.lists popped]
  rfl

theorem takeBackMargin_of_pop? (sound : l.Sound) {margin : Margin} {saved : SavedMargins}
    (popped : l.saved.pop? = some (margin, saved)) :
    l.page.takeBackMargin =
      .ok (Layout.page { l with margin := margin, saved := saved }.advance) := by
  have top : l.page.saved = margin :: saved.toList := Trail.toList_of_pop? sound.saved popped
  rw [Page.takeBackMargin, top]
  rfl

theorem takeBackMargin_of_pop?_eq_none (bottom : l.saved.pop? = none) :
    l.page.takeBackMargin = .error (.unindented l.cursor, l.page) := by
  have empty : l.page.saved = [] := Trail.pop?_eq_none_iff.1 bottom
  rw [Page.takeBackMargin, empty]
  rfl

theorem closeList_of_broken (sound : l.Sound) {bracket : Bracket} {rest : OpenLists}
    (left : l.lists.leave? = some (.inside bracket .broken, rest)) :
    l.page.closeList bracket =
      ({ l with lists := rest }.writeClosing (.inside bracket .broken)).page.takeBackMargin := by
  rw [Page.closeList, page_of_leave? sound left, page_writeClosing]
  simp only [if_true]
  rfl

theorem closeList_of_leave?_eq_none (sound : l.Sound) (bottom : l.lists.leave? = none)
    (bracket : Bracket) :
    l.page.closeList bracket = .error (.unopened l.cursor bracket, l.page) := by
  unfold Page.closeList
  split
  · rename_i opened shape rest lists
    -- a bracket on top of the page is one that could be left
    cases popped : l.lists.pop? with
    | none => simp [page, Trail.pop?_eq_none_iff.1 popped] at lists
    | some pair =>
      obtain ⟨⟨state, depth⟩, below⟩ := pair
      simp only [page, Trail.toList_of_pop? sound.lists popped, List.map_cons,
        List.cons.injEq] at lists
      simp [OpenLists.leave?, popped, lists.1] at bottom
  · rfl

/-- Going forward is laying out the token without breaking the line. -/
theorem page_forward (forward : Forward l config token next) (sound : l.Sound) :
    l.page.place config false token = .ok next.page := by
  cases forward with
  | text _ => rw [Page.place, page_putText]
  | hardBreak _ => rw [Page.place, page_advance, page_commitLine]
  | indent _ =>
    have last : l.saveMargin.saved.last = l.margin := by
      rw [SavedMargins.last, Trail.peek?_eq_head?, saveMargin, Trail.toList_push sound.saved]
      rfl
    rw [Page.place, page_advance, commitLine_eq, last]
    simp [page, moveIn, saveMargin, Page.moveIn, Page.startLine, Page.write, Output.newline,
      Output.write, Trail.toList_push sound.saved]
  | @dedent margin saved _ popped =>
    have top : l.page.saved = margin :: saved.toList := Trail.toList_of_pop? sound.saved popped
    rw [Page.place, Page.dedent, top]
    simp only [Page.takeBackMargin, Page.startLine, Page.write, top]
    rw [page_advance, commitLine_eq]
    rfl
  | offer kind breaks =>
    rw [Page.place_of_breakKind? breaks, page_offer sound]
    rfl
  | closeFlat left =>
    rw [Page.place, Page.closeList, page_of_leave? sound left]
    simp only [if_true]
    rfl
  | @closeBroken bracket rest _ _ left popped =>
    obtain ⟨depth, opened⟩ := OpenLists.pop?_of_leave? left
    have inner : Sound { l with lists := rest } := ⟨sound.lists.of_pop? opened, sound.saved⟩
    rw [Page.place, closeList_of_broken sound left]
    refine takeBackMargin_of_pop? (sound_writeClosing inner bracket .broken) ?_
    rw [saved_writeClosing]
    exact popped

/-- A refused token is one that cannot be laid out on the page, and leaves the same page. -/
theorem page_refused {fault : Fault} {left : Layout} (refused : Refused l token fault left)
    (sound : l.Sound) (broken : Bool) :
    l.page.place config broken token = .error (fault, left.page) := by
  cases refused with
  | dedent bottom =>
    have empty : l.page.saved = [] := Trail.pop?_eq_none_iff.1 bottom
    rw [Page.place, Page.dedent, empty]
    rfl
  | unopened bottom => rw [Page.place, closeList_of_leave?_eq_none sound bottom]
  | mismatched left other =>
    rw [Page.place, Page.closeList, page_of_leave? sound left]
    simp only [if_neg other]
    rfl
  | @unsaved bracket rest left bottom =>
    rw [Page.place, closeList_of_broken sound left, takeBackMargin_of_pop?_eq_none]
    · rw [cursor_writeClosing]
    · rw [saved_writeClosing]
      exact bottom

end Steps

/-! ## A straight history is one pass -/

section Straight

variable {tokens : List Token} {usable : Config → Prop} {l : Layout} {config : Config}

theorem lay_take_congr {settings others : Nat → Config} {breaks breaks' : List Nat} {count : Nat}
    (same : ∀ index < count,
      settings index = others index ∧ (index ∈ breaks ↔ index ∈ breaks')) :
    Page.lay settings breaks (tokens.take count) = Page.lay others breaks' (tokens.take count) := by
  refine Page.layFrom_congr fun index _ below => same index ?_
  have short : (tokens.take count).length ≤ count := List.length_take_le count tokens
  have start : ({} : Page).cursor = 0 := rfl
  omega

/-- One more token, laid out under settings of its own. The breaks may change from it on. -/
theorem exists_laid_succ {settings : Nat → Config} {breaks breaks' : List Nat} {index : Nat}
    {token : Token} {page next : Page} (read : tokens[index]? = some token)
    (cursor : page.cursor = index) (allowedBefore : ∀ earlier < index, usable (settings earlier))
    (laid : Page.lay settings breaks (tokens.take index) = .ok page) (allowed : usable config)
    (same : ∀ earlier < index, earlier ∈ breaks' ↔ earlier ∈ breaks)
    (placed : page.place config (decide (index ∈ breaks')) token = .ok next) :
    ∃ extended : Nat → Config, (∀ earlier < index + 1, usable (extended earlier)) ∧
      Page.lay extended breaks' (tokens.take (index + 1)) = .ok next := by
  refine ⟨fun earlier => if earlier = index then config else settings earlier, ?_, ?_⟩
  · intro earlier below
    dsimp only
    by_cases here : earlier = index
    · rw [if_pos here]
      exact allowed
    · rw [if_neg here]
      exact allowedBefore earlier (by omega)
  · have before : Page.lay (fun earlier => if earlier = index then config else settings earlier)
        breaks' (tokens.take index) = .ok page := by
      rw [← laid]
      apply lay_take_congr
      intro earlier below
      exact ⟨if_neg (by omega), same earlier below⟩
    rw [Page.lay_take_succ read, before]
    simp only [Except.bind, cursor, if_true]
    exact placed

theorem Straight.laid (straight : Straight tokens usable l) :
    ∃ settings : Nat → Config, (∀ index < l.cursor, usable (settings index)) ∧
      Page.lay settings l.fired (tokens.take l.cursor) = .ok l.page := by
  induction straight with
  | start =>
    refine ⟨fun _ => {}, fun index below => absurd below (Nat.not_lt_zero index), ?_⟩
    simp [Page.lay, Page.layFrom, page, Trail.toList, Trail.chain, pure, Except.pure]
  | @forward l next config token straight allowed read forward ih =>
    obtain ⟨settings, allowedBefore, laid⟩ := ih
    -- the line is broken in front of the cursor only
    have whole : l.cursor ∉ l.fired := fun member =>
      Nat.lt_irrefl _ (straight.of_mem_fired member).1
    rw [forward.cursor, forward.fired]
    apply exists_laid_succ read rfl allowedBefore laid allowed
    · intro earlier _
      exact Iff.rfl
    · rw [decide_eq_false whole]
      exact page_forward forward straight.sound
  | @broken past config token kind journal straight allowed read breaks told ih =>
    obtain ⟨settings, allowedBefore, laid⟩ := ih
    have resumed : (past.resume journal).Sound := ⟨straight.sound.lists, straight.sound.saved⟩
    have here : decide (past.cursor ∈ past.cursor :: past.fired) = true := by simp
    rw [cursor_breakLine, fired_resume_breakLine told]
    apply exists_laid_succ read rfl allowedBefore laid allowed
    · intro earlier below
      rw [List.mem_cons]
      exact ⟨fun member => member.resolve_left (by omega), Or.inr⟩
    · rw [here, Page.place_of_breakKind? breaks, page_breakLine resumed]
      exact congrArg Except.ok (Page.breakLine_advance past.page config kind).symm

end Straight

end Layout

end LineLayout
