import LineLayout.Proofs.Misfit
import LineLayout.Proofs.TextLines

/-!
# What stands on a line

`lineInk` is what the tokens have written on the line of a place: its runs, and an end for each
soft parenthesis that is broken over lines and closes there. `Page.Line` says how it stands on a
page: in front of it a margin, written once, and the column counts the margin and the ink.

The margin is written when the column is zero, and it is still zero behind a run without width. What
is written then is nothing all the same. A margin that is taken back is no wider than the one it
replaces (`Page.narrows_of_lay`), so if the margin was empty when the line began it stays empty to
the end of the line.
-/

namespace LineLayout

namespace Page

/-! ## Margins -/

section Margins

variable {settings : Nat → Config} {breaks : List Nat} {page next : Page} {config : Config}
  {broken : Bool} {tokens : List Token} {token : Token}

theorem exists_of_takeBackMargin (taken : page.takeBackMargin = .ok next) :
    ∃ margin saved, page.saved = margin :: saved ∧
      next = { page with margin := margin, saved := saved }.advance := by
  unfold takeBackMargin at taken
  split at taken
  · rename_i margin saved top
    cases taken
    exact ⟨margin, saved, top, rfl⟩
  · cases taken

theorem closeList_cases {bracket : Bracket} (closed : page.closeList bracket = .ok next) :
    (∃ rest, page.lists = .inside bracket .flat :: rest ∧
      next = { page with lists := rest }.advance) ∨
    ∃ rest margin saved, page.lists = .inside bracket .broken :: rest ∧
      page.saved = margin :: saved ∧
      next = { { page with lists := rest }.writeClosing bracket with
        margin := margin, saved := saved }.advance := by
  unfold closeList at closed
  split at closed
  · rename_i opened shape rest lists
    split at closed
    · rename_i same
      subst same
      cases shape with
      | flat =>
        cases closed
        exact Or.inl ⟨rest, lists, rfl⟩
      | broken =>
        obtain ⟨margin, saved, top, rfl⟩ := exists_of_takeBackMargin closed
        rw [saved_writeClosing] at top
        exact Or.inr ⟨rest, margin, saved, lists, top, rfl⟩
    · cases closed
  · cases closed

/-- What a token does to the margin and to the saved margins. -/
theorem margins_place (placed : page.place config broken token = .ok next) :
    (next.margin = page.margin ∧ next.saved = page.saved) ∨
    (∃ extra, (extra = 0 ∨ token = .mark .softBreak ∧ extra = config.wrapIndent) ∧
      next.margin = ⟨page.margin.indent, (page.saved.headD {}).continuation + extra⟩ ∧
      next.saved = page.saved) ∨
    (∃ columns, (columns = config.indentUnit ∨ columns = config.wrapIndent) ∧
      next.margin = ⟨page.margin.indent + columns, page.margin.continuation⟩ ∧
      next.saved = page.margin :: page.saved) ∨
    page.saved = next.margin :: next.saved := by
  rcases token with run | mark
  · cases placed
    exact Or.inl ⟨margin_writeMargin page, saved_writeMargin page⟩
  cases mark with
  | hardBreak =>
    cases placed
    exact Or.inr (Or.inl ⟨0, Or.inl rfl, rfl, rfl⟩)
  | softBreak =>
    cases placed
    cases broken
    · exact Or.inl ⟨rfl, rfl⟩
    · exact Or.inr (Or.inl ⟨config.wrapIndent, Or.inr ⟨rfl, rfl⟩, rfl, rfl⟩)
  | separator =>
    cases placed
    cases broken
    · exact Or.inl ⟨rfl, rfl⟩
    · exact Or.inr (Or.inl ⟨0, Or.inl rfl, rfl, rfl⟩)
  | indent =>
    cases placed
    exact Or.inr (Or.inr (Or.inl ⟨config.indentUnit, Or.inl rfl, rfl, rfl⟩))
  | dedent => exact Or.inr (Or.inr (Or.inr (saved_dedent placed)))
  | opener bracket =>
    cases placed
    cases broken with
    | false => exact Or.inl ⟨rfl, rfl⟩
    | true =>
      have saved := saved_offer_opener page config true bracket
      refine Or.inr (Or.inr (Or.inl ⟨config.wrapIndent, Or.inr rfl, ?_, saved⟩))
      cases bracket with
      | list => rfl
      | paren =>
        show (⟨page.writeMargin.margin.indent + config.wrapIndent,
          page.writeMargin.margin.continuation⟩ : Margin) = _
        rw [margin_writeMargin]
  | closer bracket =>
    rcases closeList_cases placed with ⟨rest, -, rfl⟩ | ⟨rest, margin, saved, -, top, rfl⟩
    · exact Or.inl ⟨rfl, rfl⟩
    · exact Or.inr (Or.inr (Or.inr top))

/-- No saved margin is wider than one that was saved after it. -/
def Narrows (margins : List Margin) : Prop :=
  margins.IsChain fun inner outer =>
    outer.indent ≤ inner.indent ∧ outer.continuation ≤ inner.continuation

theorem Narrows.place (narrows : Narrows (page.margin :: page.saved))
    (placed : page.place config broken token = .ok next) :
    Narrows (next.margin :: next.saved) := by
  unfold Narrows at narrows ⊢
  rcases margins_place placed with ⟨margin, saved⟩ | ⟨extra, -, margin, saved⟩ |
    ⟨columns, -, margin, saved⟩ | taken
  · rw [margin, saved]
    exact narrows
  · rw [margin, saved]
    cases below : page.saved with
    | nil => exact List.isChain_singleton _
    | cons outer rest =>
      rw [below, List.isChain_cons_cons] at narrows
      exact List.isChain_cons_cons.2 ⟨⟨narrows.1.1, Nat.le_add_right _ _⟩, narrows.2⟩
  · rw [margin, saved]
    exact List.isChain_cons_cons.2 ⟨⟨Nat.le_add_right _ _, Nat.le_refl _⟩, narrows⟩
  · rw [taken] at narrows
    exact (List.isChain_cons_cons.1 narrows).2

theorem narrows_of_lay (laid : lay settings breaks tokens = .ok page) :
    Narrows (page.margin :: page.saved) := by
  refine (lay_induction (fun _ page => Narrows (page.margin :: page.saved)) ?_ ?_ laid).2
  · exact List.isChain_singleton _
  · intro tokens page next token narrows _ placed
    exact narrows.place placed

theorem width_le_of_narrows {margin : Margin} {saved : List Margin}
    (narrows : Narrows (page.margin :: page.saved)) (top : page.saved = margin :: saved) :
    margin.width ≤ page.margin.width := by
  rw [top] at narrows
  obtain ⟨indent, continuation⟩ := (List.isChain_cons_cons.1 narrows).1
  exact Nat.add_le_add indent continuation

end Margins

end Page

/-! ## Ink -/

/-- What a token writes on its line, the margin in front of it aside. -/
inductive Ink where
  | run (run : TextRun)
  /-- The end of a soft parenthesis that shows. -/
  | closing
deriving DecidableEq

namespace Ink

/-- What the ink spells. -/
def text : Ink → String
  | run r => r.text
  | closing => ")"

/-- Columns that the ink counts for. -/
def width : Ink → Nat
  | run r => r.width
  | closing => 1

/-- Columns that the ink of a line counts for. -/
def total (ink : List Ink) : Nat :=
  (ink.map width).sum

/-- What the ink of a line spells. -/
def spell (ink : List Ink) : String :=
  String.join (ink.map text)

theorem total_map_run (runs : List TextRun) :
    total (runs.map .run) = (runs.map TextRun.width).sum := by
  rw [total, List.map_map]
  rfl

theorem spell_map_run (runs : List TextRun) :
    spell (runs.map .run) = String.join (runs.map TextRun.text) := by
  rw [spell, List.map_map]
  rfl

end Ink

/-- What a token writes behind the tokens in front of it, if the line is broken at `breaks`: a run
is written as it is, and a soft parenthesis shows where it closes if it is broken over lines. -/
def Token.ink (breaks : List Nat) (front : List Token) : Token → List Ink
  | .text run => [.run run]
  | .mark (.closer .paren) =>
    match openBrackets front with
    | (opener, _) :: _ => if opener ∈ breaks then [.closing] else []
    | [] => []
  | _ => []

/-- A bracket shows where it closes if it is a soft parenthesis and broken over lines. -/
theorem Token.ink_closer {breaks : List Nat} {front : List Token} {bracket : Bracket} {opener : Nat}
    {outer : List (Nat × Bracket)} (innermost : openBrackets front = (opener, bracket) :: outer) :
    Token.ink breaks front (.mark (.closer bracket)) =
      if bracket = .paren ∧ opener ∈ breaks then [.closing] else [] := by
  cases bracket with
  | list => rfl
  | paren => simp [Token.ink, innermost]

theorem Token.eq_of_mem_ink {breaks : List Nat} {front : List Token} {token : Token}
    {run : TextRun} (member : .run run ∈ token.ink breaks front) : token = .text run := by
  unfold Token.ink at member
  split at member
  · cases List.mem_singleton.1 member
    rfl
  · split at member
    · split at member <;> simp at member
    · cases member
  · cases member

section Ink

variable (tokens : List Token) (breaks : List Nat)

instance : DecidablePred (EndsLine tokens breaks) := fun index =>
  decidable_of_iff (index ∈ breaks ∨ ∃ token ∈ tokens[index]?, token.endsLine = true) Iff.rfl

/-- What stands on the line in front of the token `last`, the margin aside. -/
def lineInk : Nat → List Ink
  | 0 => []
  | index + 1 =>
    if EndsLine tokens breaks index then []
    else lineInk index ++ (tokens[index]?).elim [] (Token.ink breaks (tokens.take index))

variable {tokens breaks} {index : Nat} {token : Token}

theorem lineInk_succ_of_endsLine (ends : EndsLine tokens breaks index) :
    lineInk tokens breaks (index + 1) = [] := by
  rw [lineInk, if_pos ends]

theorem lineInk_succ (read : tokens[index]? = some token)
    (whole : ¬ EndsLine tokens breaks index) :
    lineInk tokens breaks (index + 1) =
      lineInk tokens breaks index ++ token.ink breaks (tokens.take index) := by
  rw [lineInk, if_neg whole, read]
  rfl

end Ink

/-! ## Ink on a page -/

namespace Page

/-- The line of a page: behind `before` come `indentation` spaces and the ink. -/
structure Line (page : Page) (before : String) (indentation : Nat) (ink : List Ink) : Prop where
  begins : before = "" ∨ ∃ earlier, before = earlier ++ "\n"
  text : page.text = before ++ (Text.blank indentation ++ Ink.spell ink)
  empty : ink = [] → indentation = 0 ∧ page.column = 0
  /-- Behind some ink, writing the margin writes nothing. -/
  settled : ink ≠ [] → page.column = 0 → page.margin.width = 0
  column_le : page.column ≤ indentation + Ink.total ink
  /-- The column is exact, as far as columns are counted. -/
  counted : page.column = indentation + Ink.total ink ∨ maxColumns ≤ page.column

section Line

variable {settings : Nat → Config} {breaks : List Nat} {page next : Page} {config : Config}
  {tokens front : List Token} {token : Token} {before : String} {indentation : Nat}
  {ink : List Ink}

theorem writeMargin_eq_self (settled : page.column = 0 → page.margin.width = 0) :
    page.writeMargin = page := by
  unfold writeMargin
  split
  · rename_i zero
    rw [settled zero, Text.blank_zero, ← zero]
    simp [write]
  · rfl

theorem Line.blank : ({} : Page).Line "" 0 [] where
  begins := Or.inl rfl
  text := rfl
  empty := fun _ => ⟨rfl, rfl⟩
  settled := fun some => absurd rfl some
  column_le := Nat.le_refl 0
  counted := Or.inl rfl

theorem Line.start {earlier : String} (text : page.text = earlier ++ "\n")
    (column : page.column = 0) : page.Line page.text 0 [] where
  begins := Or.inr ⟨earlier, text⟩
  text := by simp [Text.blank_zero, Ink.spell]
  empty := fun _ => ⟨rfl, column⟩
  settled := fun some => absurd rfl some
  column_le := by simp [column]
  counted := Or.inl (by simp [column, Ink.total])

theorem Line.keep (line : page.Line before indentation ink) (text : next.text = page.text)
    (column : next.column = page.column) (margin : next.margin.width ≤ page.margin.width) :
    next.Line before indentation ink where
  begins := line.begins
  text := text.trans line.text
  empty := by rw [column]; exact line.empty
  settled := by
    intro some zero
    have none := line.settled some (column ▸ zero)
    omega
  column_le := column ▸ line.column_le
  counted := column ▸ line.counted

theorem Line.put (line : page.Line before indentation ink) (piece : Ink)
    (text : next.text = page.writeMargin.text ++ piece.text)
    (column_le : next.column ≤ page.writeMargin.column + piece.width)
    (counted : next.column = page.writeMargin.column + piece.width ∨ maxColumns ≤ next.column)
    (margin : next.margin.width ≤ page.margin.width) :
    next.Line before (if ink = [] then page.margin.width else indentation) (ink ++ [piece]) := by
  have some : ink ++ [piece] ≠ [] := by simp
  have most : 0 < maxColumns := by decide
  have total : Ink.total (ink ++ [piece]) = Ink.total ink + piece.width := by simp [Ink.total]
  have spelled : Ink.spell (ink ++ [piece]) = Ink.spell ink ++ piece.text := by
    simp [Ink.spell, String.join_append]
  by_cases first : ink = []
  · obtain ⟨none, zero⟩ := line.empty first
    have written : page.writeMargin.text = before ++ Text.blank page.margin.width := by
      have start := line.text
      rw [none, first] at start
      simp [writeMargin, zero, write, start, Ink.spell, Text.blank_zero]
    have column : page.writeMargin.column = page.margin.width := by simp [writeMargin, zero]
    rw [column] at column_le counted
    subst first
    rw [if_pos rfl]
    refine ⟨line.begins, ?_, fun absent => absurd absent some, ?_, ?_, ?_⟩
    · rw [text, written, spelled, String.append_assoc]
      simp [Ink.spell]
    · intro _ zero'
      omega
    · rw [total]
      simp only [Ink.total, List.map_nil, List.sum_nil]
      omega
    · rw [total]
      simp only [Ink.total, List.map_nil, List.sum_nil]
      omega
  · rw [writeMargin_eq_self (line.settled first)] at text column_le counted
    have le := line.column_le
    have exact' := line.counted
    rw [if_neg first]
    refine ⟨line.begins, ?_, fun absent => absurd absent some, ?_, ?_, ?_⟩
    · rw [text, line.text, spelled, String.append_assoc, String.append_assoc]
    · intro _ zero
      have none := line.settled first (by omega)
      omega
    · rw [total]
      omega
    · rw [total]
      omega

theorem Line.putText (line : page.Line before indentation ink) (run : TextRun) :
    (page.putText run).Line before (if ink = [] then page.margin.width else indentation)
      (ink ++ [.run run]) := by
  apply line.put (.run run) rfl (Nat.min_le_left _ _)
  · show addColumns _ _ = _ ∨ maxColumns ≤ addColumns _ _
    unfold addColumns
    simp only [Ink.width]
    omega
  · exact Nat.le_of_eq (congrArg Margin.width (margin_writeMargin page))

/-- A token that ends its line leaves an empty one. -/
theorem line_of_endsLine (ends : token.endsLine = true)
    (placed : page.place config false token = .ok next) : next.Line next.text 0 [] := by
  rcases token with run | mark
  · cases ends
  cases mark with
  | hardBreak => cases placed; exact Line.start rfl rfl
  | indent => cases placed; exact Line.start rfl rfl
  | dedent =>
    rw [place, dedent] at placed
    split at placed
    · obtain ⟨margin, saved, -, rfl⟩ := exists_of_takeBackMargin placed
      exact Line.start rfl rfl
    · cases placed
  | softBreak | separator | opener | closer => cases ends

theorem line_of_broken {kind : BreakKind} (breaks : token.breakKind? = some kind)
    (placed : page.place config true token = .ok next) : next.Line next.text 0 [] := by
  rw [place_of_breakKind? breaks] at placed
  cases placed
  rcases kind with _ | _ | (_ | _) <;> exact Line.start rfl rfl

/-- A token that neither ends its line nor is broken at adds its ink. -/
theorem Line.place (line : page.Line before indentation ink)
    (narrows : Narrows (page.margin :: page.saved))
    (lists : page.lists = (openBrackets front).map (openState breaks))
    (whole : token.endsLine = false) (placed : page.place config false token = .ok next) :
    ∃ indentation', next.Line before indentation' (ink ++ token.ink breaks front) := by
  rcases token with run | mark
  · cases placed
    exact ⟨_, line.putText run⟩
  cases mark with
  | hardBreak | indent | dedent => cases whole
  | softBreak | separator | opener =>
    cases placed
    refine ⟨indentation, ?_⟩
    rw [Token.ink, List.append_nil]
    · exact line.keep rfl rfl (Nat.le_refl _)
    all_goals simp
  | closer bracket =>
    rcases closeList_cases placed with ⟨rest, top, rfl⟩ | ⟨rest, margin, saved, top, below, rfl⟩
    · obtain ⟨opener, outer, innermost, flat, -⟩ := openState_top (lists.symm.trans top)
      refine ⟨indentation, ?_⟩
      rw [Token.ink_closer innermost, if_neg fun broken => shapeIn_eq_flat_iff.1 flat broken.2,
        List.append_nil]
      exact line.keep rfl rfl (Nat.le_refl _)
    · obtain ⟨opener, outer, innermost, broken, -⟩ := openState_top (lists.symm.trans top)
      rw [Token.ink_closer innermost]
      have narrower := width_le_of_narrows narrows below
      cases bracket with
      | list =>
        refine ⟨indentation, ?_⟩
        rw [if_neg fun shows => Bracket.noConfusion shows.1, List.append_nil]
        exact line.keep rfl rfl narrower
      | paren =>
        rw [if_pos ⟨rfl, shapeIn_eq_broken_iff.1 broken⟩]
        have written : ({ page with lists := rest } : Page).writeMargin =
            { page.writeMargin with lists := rest } := by
          by_cases first : page.column = 0 <;> simp [writeMargin, write, first]
        refine ⟨_, line.put .closing ?_ ?_ ?_ narrower⟩
        · exact congrArg (·.text ++ ")") written
        · exact Nat.le_of_eq (congrArg (·.column + 1) written)
        · exact Or.inl (congrArg (·.column + 1) written)

/-- How the line stands on a page that is laid out. -/
theorem exists_line_of_lay (offered : ∀ index ∈ breaks, Offers tokens index) {count : Nat}
    (within : count ≤ tokens.length)
    (laid : lay settings breaks (tokens.take count) = .ok page) :
    ∃ before indentation, page.Line before indentation (lineInk tokens breaks count) := by
  induction count generalizing page with
  | zero =>
    rw [List.take_zero] at laid
    cases laid
    exact ⟨"", 0, Line.blank⟩
  | succ index ih =>
    obtain ⟨token, read⟩ : ∃ token, tokens[index]? = some token :=
      ⟨_, List.getElem?_eq_getElem within⟩
    obtain ⟨earlier, front, placed⟩ := exists_placed read laid
    rw [cursor_of_lay front, List.length_take_of_le (Nat.le_of_lt within)] at placed
    by_cases broken : index ∈ breaks
    · obtain ⟨other, kind, read', offers⟩ := offered index broken
      rw [read, Option.some.injEq] at read'
      rw [decide_eq_true broken] at placed
      rw [lineInk_succ_of_endsLine (Or.inl broken)]
      exact ⟨_, _, line_of_broken (read' ▸ offers) placed⟩
    rw [decide_eq_false broken] at placed
    cases ends : token.endsLine with
    | true =>
      rw [lineInk_succ_of_endsLine (Or.inr ⟨token, read, ends⟩)]
      exact ⟨_, _, line_of_endsLine ends placed⟩
    | false =>
      obtain ⟨before, indentation, line⟩ := ih (Nat.le_of_lt within) front
      rw [lineInk_succ read (not_endsLine read broken ends)]
      obtain ⟨indentation', line'⟩ :=
        line.place (narrows_of_lay front) (lists_of_lay front) ends placed
      exact ⟨before, indentation', line'⟩

end Line

end Page

/-! ## Plain runs -/

/-- The run counts a column for each of its characters, and holds no line feed. -/
def TextRun.IsPlain (run : TextRun) : Prop :=
  run.width = run.text.length ∧ '\n' ∉ run.text.toList

instance (run : TextRun) : Decidable run.IsPlain :=
  inferInstanceAs (Decidable (run.width = run.text.length ∧ '\n' ∉ run.text.toList))

/-- Every run of the stream is plain. -/
def PlainRuns (tokens : List Token) : Prop :=
  ∀ run, .text run ∈ tokens → run.IsPlain

namespace Ink

variable {ink : List Ink}

theorem newline_notMem_spell (plain : ∀ run, .run run ∈ ink → run.IsPlain) :
    '\n' ∉ (spell ink).toList := by
  simp only [spell, String.toList_join, List.flatMap_map, List.mem_flatMap, not_exists, not_and]
  intro piece member
  cases piece with
  | run run => exact (plain run member).2
  | closing => decide

theorem length_spell (plain : ∀ run, .run run ∈ ink → run.IsPlain) :
    (spell ink).length = total ink := by
  rw [spell, total, String.length_join, List.map_map]
  congr 1
  apply List.map_congr_left
  intro piece member
  cases piece with
  | run run => exact (plain run member).1.symm
  | closing => rfl

end Ink

section Plain

variable {tokens : List Token} {breaks : List Nat} {count : Nat}

theorem mem_of_mem_lineInk {run : TextRun} (member : .run run ∈ lineInk tokens breaks count) :
    .text run ∈ tokens := by
  induction count with
  | zero => cases member
  | succ index ih =>
    rw [lineInk] at member
    split at member
    · cases member
    rcases List.mem_append.1 member with earlier | here
    · exact ih earlier
    cases read : tokens[index]? with
    | none => rw [read] at here; cases here
    | some token =>
      rw [read] at here
      obtain rfl := Token.eq_of_mem_ink here
      exact List.mem_of_getElem? read

theorem newline_notMem_blank (count : Nat) : '\n' ∉ (Text.blank count).toList := by
  rw [Text.blank, String.toList_ofList, List.mem_replicate]
  exact fun member => absurd member.2 (by decide)

theorem length_blank (count : Nat) : (Text.blank count).length = count := by
  rw [Text.blank, String.length_ofList, List.length_replicate]

/-- The characters of a line of plain runs are its margin and what its ink counts for. -/
theorem Page.Line.length_lastLine {page : Page} {before : String} {indentation : Nat}
    (line : page.Line before indentation (lineInk tokens breaks count)) (plain : PlainRuns tokens) :
    (Text.lastLine page.text).length = indentation + Ink.total (lineInk tokens breaks count) := by
  have runs : ∀ run, .run run ∈ lineInk tokens breaks count → run.IsPlain :=
    fun run member => plain run (mem_of_mem_lineInk member)
  have whole : '\n' ∉
      (Text.blank indentation ++ Ink.spell (lineInk tokens breaks count)).toList := by
    rw [String.toList_append, List.mem_append, not_or]
    exact ⟨newline_notMem_blank _, Ink.newline_notMem_spell runs⟩
  rw [line.text, Text.lastLine_append line.begins whole, String.length_toList,
    String.length_append, length_blank, Ink.length_spell runs]

end Plain

/-! ## The line of a layout -/

namespace Layout

variable {stream : List Token} {usable : Config → Prop} {l : Layout}

theorem Straight.exists_line_of_lay {settings : Nat → Config} {count : Nat} {page : Page}
    (straight : Straight stream usable l) (within : count ≤ stream.length)
    (laid : Page.lay settings l.fired (stream.take count) = .ok page) :
    ∃ before indentation, page.Line before indentation (lineInk stream l.fired count) :=
  Page.exists_line_of_lay (fun _ member => (straight.of_mem_fired member).2) within laid

theorem Straight.exists_line (straight : Straight stream usable l) :
    ∃ before indentation, l.page.Line before indentation (lineInk stream l.fired l.cursor) := by
  obtain ⟨settings, -, laid⟩ := straight.laid
  have within : l.cursor ≤ stream.length := by
    have cursor : l.cursor = (stream.take l.cursor).length := Page.cursor_of_lay laid
    rw [List.length_take] at cursor
    omega
  exact straight.exists_line_of_lay within laid

/-- Wherever a layout stands, its line is a margin and what the tokens since the last line end have
written: the margin is there once and in front of everything else, it is not there before
something is written, and it is not written again. The column counts the margin, the runs by their
declared widths and each parenthesis that shows, as far as columns are counted. If a run counts its
characters and has no line feed, that is the number of characters behind the last line feed. -/
theorem margin_first_and_column_counted (reached : Reached stream usable l) :
    ∃ before indentation, (before = "" ∨ ∃ earlier, before = earlier ++ "\n") ∧
      l.output.text =
        before ++ (Text.blank indentation ++ Ink.spell (lineInk stream l.fired l.cursor)) ∧
      (lineInk stream l.fired l.cursor = [] → indentation = 0) ∧
      (lineInk stream l.fired l.cursor ≠ [] → l.writeMargin.output = l.output) ∧
      (indentation + Ink.total (lineInk stream l.fired l.cursor) ≤ maxColumns →
        l.column = indentation + Ink.total (lineInk stream l.fired l.cursor)) ∧
      (PlainRuns stream → (Text.lastLine l.output.text).length ≤ maxColumns →
        l.column = (Text.lastLine l.output.text).length) := by
  obtain ⟨before, indentation, line⟩ := reached.straight.exists_line
  have counted (le : indentation + Ink.total (lineInk stream l.fired l.cursor) ≤ maxColumns) :
      l.column = indentation + Ink.total (lineInk stream l.fired l.cursor) := by
    have column_le : l.column ≤ indentation + Ink.total (lineInk stream l.fired l.cursor) :=
      line.column_le
    rcases line.counted with same | most
    · exact same
    · exact Nat.le_antisymm column_le (le.trans most)
  refine ⟨before, indentation, line.begins, line.text, fun none => (line.empty none).1, ?_,
    counted, ?_⟩
  · intro some
    have same : l.page.writeMargin.text = l.page.text :=
      congrArg Page.text (Page.writeMargin_eq_self (line.settled some))
    rw [← page_writeMargin] at same
    exact congrArg Output.mk same
  · intro plain
    have length : (Text.lastLine l.output.text).length = _ := line.length_lastLine plain
    rw [length]
    exact counted

/-- A soft parenthesis is broken over lines behind an empty run, and again inside. Where it closes,
the margin is taken back, and the line goes on. -/
theorem margin_first_and_column_counted_paren :
    let stream : List Token :=
      [.plain "", .mark (.opener .paren), .plain "alpha", .mark .softBreak, .plain "beta",
        .mark (.closer .paren), .plain "!"]
    let engine := Engine.run { config := ⟨8, 2⟩ } stream.toArray
    Reached stream (fun _ => True) engine.layout ∧
      engine.text = "(\n    alpha\n        beta)!" ∧ engine.layout.margin.width = 0 ∧
      lineInk stream engine.layout.fired engine.layout.cursor =
        [.run (.plain "beta"), .closing, .run (.plain "!")] ∧
      engine.layout.column = (Text.lastLine engine.text).length := by
  intro stream engine
  have sane : engine.fault? = none := by decide +kernel
  have part : stream.toArray.toList <+: stream := List.prefix_refl stream
  have reached : Reached stream (fun _ => True) engine.layout :=
    (Engine.Reachable.run (.create ⟨8, 2⟩) part).reached sane
  have text : engine.text = "(\n    alpha\n        beta)!" := by decide +kernel
  have plain : PlainRuns stream := by
    intro run member
    simp only [stream, Token.plain, TextRun.plain, List.mem_cons, Token.text.injEq, reduceCtorEq,
      false_or, List.not_mem_nil, or_false] at member
    rcases member with rfl | rfl | rfl | rfl <;> decide
  obtain ⟨-, -, -, -, -, -, -, counted⟩ := margin_first_and_column_counted reached
  refine ⟨reached, text, by decide +kernel, by decide +kernel, counted plain ?_⟩
  show (Text.lastLine engine.text).length ≤ maxColumns
  rw [text]
  decide +kernel

end Layout

end LineLayout
