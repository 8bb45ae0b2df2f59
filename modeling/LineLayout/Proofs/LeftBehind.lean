import LineLayout.Proofs.Misfit
import LineLayout.Proofs.Refusal
import LineLayout.Proofs.Whole

/-!
# What a refused token leaves behind

An engine reads tokens again when it goes back, so the token that it refuses in the end could be one
that it had taken before, with another layout in front of it. That does not happen. The more lines
are broken, the more margins are saved (`Page.Accounts`), so a token that was taken once is taken
whenever it is read again (`Page.exists_place_of_subset`). Hence a token is refused the first time
it is read, and the engine stands where the tokens in front of it have led (`Engine.refused_run`).

It stands there unchanged, but for one case. A bracket that closes is taken off, and its end is
written, before its margin is missed. The margin of a broken bracket can be missing only if a dedent
has taken it that strayed into the bracket.
-/

namespace LineLayout

/-! ## Saved margins, whatever strays -/

namespace Page

variable {settings others : Nat → Config} {breaks more : List Nat} {page wider next : Page}
  {config : Config} {broken : Bool} {tokens : List Token} {token : Token}

/-- The saved margins and those that dedents took back are as many as the indents and the broken
brackets that are open. Which dedent took which margin is not looked at. -/
def Accounts (tokens : List Token) (page : Page) : Prop :=
  page.saved.length + tokens.countP (·.dedents?.isSome) =
    tokens.countP (·.indents?.isSome) + page.brokenCount

theorem Accounts.place (accounts : Accounts tokens page)
    (placed : page.place config broken token = .ok next) :
    Accounts (tokens ++ [token]) next := by
  unfold Accounts at accounts ⊢
  simp only [List.countP_append, List.countP_singleton]
  cases dedents : token.dedents? with
  | some _ =>
    obtain rfl := Token.eq_of_dedents? dedents
    have lists : next.brokenCount = page.brokenCount :=
      congrArg (List.countP _) (place_plain rfl rfl placed).1
    have unindented : (Token.mark .dedent).indents? = none := rfl
    rw [saved_dedent placed, List.length_cons] at accounts
    simp only [unindented, Option.isSome_some, Option.isSome_none, if_true, Bool.false_eq_true,
      if_false]
    omega
  | none =>
    cases indents : token.indents? with
    | some _ =>
      obtain rfl := Token.eq_of_indents? indents
      cases placed
      show page.saved.length + 1 + _ = _ + page.brokenCount
      simp only [Option.isSome_some, Option.isSome_none, if_true, Bool.false_eq_true, if_false]
      omega
    | none =>
      have same := length_saved_place indents dedents placed
      simp only [Option.isSome_none, Bool.false_eq_true, if_false]
      omega

theorem accounts_of_lay (laid : lay settings breaks tokens = .ok page) : Accounts tokens page := by
  refine (lay_induction Accounts rfl ?_ laid).2
  intro tokens page next token accounts _ placed
  exact accounts.place placed

theorem brokenCount_map_le (subset : breaks ⊆ more) (pairs : List (Nat × Bracket)) :
    (pairs.map (openState breaks)).countP ListState.dedentsOnClose ≤
      (pairs.map (openState more)).countP ListState.dedentsOnClose := by
  rw [List.countP_map, List.countP_map]
  apply List.countP_mono_left
  rintro ⟨index, bracket⟩ _ dedents
  have member : index ∈ breaks := by
    by_contra whole
    simp [openState, shapeIn, whole, ListState.dedentsOnClose] at dedents
  simp [openState, shapeIn, subset member, ListState.dedentsOnClose]

/-- If no margin is saved where more lines are broken, none is saved where fewer are, and the same
brackets are broken. -/
theorem saved_eq_nil_of_subset (laid : lay settings breaks tokens = .ok page)
    (laid' : lay others more tokens = .ok wider) (subset : breaks ⊆ more)
    (empty : wider.saved = []) :
    page.saved = [] ∧ wider.brokenCount = page.brokenCount := by
  have fewer := accounts_of_lay laid
  have many := accounts_of_lay laid'
  have le : page.brokenCount ≤ wider.brokenCount := by
    rw [brokenCount, brokenCount, lists_of_lay laid, lists_of_lay laid']
    exact brokenCount_map_le subset _
  unfold Accounts at fewer many
  rw [empty, List.length_nil] at many
  exact ⟨List.length_eq_zero_iff.1 (by omega), by omega⟩

theorem exists_closeList_of_subset {bracket : Bracket}
    (laid : lay settings breaks tokens = .ok page)
    (laid' : lay others more tokens = .ok wider) (subset : breaks ⊆ more)
    (closed : page.closeList bracket = .ok next) :
    ∃ next', wider.closeList bracket = .ok next' := by
  cases refused : wider.closeList bracket with
  | ok next' => exact ⟨next', rfl⟩
  | error reason =>
    exfalso
    obtain ⟨shape, -, -, top, -⟩ := closeList_ok closed
    obtain ⟨index, outer, split, shaped, below⟩ :=
      openState_top ((lists_of_lay laid).symm.trans top)
    have top' := lists_of_lay laid'
    rw [split, List.map_cons] at top'
    rcases closeList_error refused with ⟨opened, shape', rest, lists, other, -⟩ |
      ⟨rest, lists, empty⟩ | ⟨bottom, -⟩
    · rw [lists] at top'
      obtain ⟨same, -⟩ := ListState.inside.inj (List.cons.inj top').1
      exact other same
    · obtain ⟨none, same⟩ := saved_eq_nil_of_subset laid laid' subset empty
      rw [lists] at top'
      obtain ⟨-, under⟩ := List.cons.inj top'
      have le := brokenCount_map_le subset outer
      rw [below, ← under] at le
      rcases saved_closeList closed top with ⟨rfl, -⟩ | ⟨-, taken⟩
      · -- a flat bracket that is broken now has saved one margin more
        rw [brokenCount, brokenCount, lists, top, List.countP_cons_of_pos rfl,
          List.countP_cons_of_neg (by simp [ListState.dedentsOnClose])] at same
        omega
      · rw [none] at taken
        cases taken
    · exact bottom _ _ _ top'

/-- A token that is taken is taken with more lines broken too. -/
theorem exists_place_of_subset (laid : lay settings breaks tokens = .ok page)
    (laid' : lay others more tokens = .ok wider) (subset : breaks ⊆ more)
    (placed : page.place config broken token = .ok next) (config' : Config) (broken' : Bool) :
    ∃ next', wider.place config' broken' token = .ok next' := by
  rcases token with run | mark
  · exact ⟨_, rfl⟩
  cases mark with
  | hardBreak | softBreak | separator | indent | opener bracket => exact ⟨_, rfl⟩
  | closer bracket => exact exists_closeList_of_subset laid laid' subset placed
  | dedent =>
    cases refused : wider.place config' broken' (.mark .dedent) with
    | ok next' => exact ⟨next', rfl⟩
    | error reason =>
      have empty := (saved_eq_nil_of_subset laid laid' subset (dedent_error refused).1).1
      rw [saved_dedent placed] at empty
      cases empty

end Page

/-! ## Refused at once -/

theorem OpenLists.ne_of_leave? {lists rest : OpenLists} {state : ListState}
    (sound : Trail.Sound lists) (left : lists.leave? = some (state, rest)) : rest ≠ lists := by
  rintro rfl
  obtain ⟨depth, frames⟩ := toList_of_leave? sound left
  exact List.cons_ne_self _ _ frames.symm

namespace Layout

variable {l left : Layout} {config : Config} {token : Token} {fault : Fault}

theorem Refused.fault_cursor (refused : Refused l token fault left) : fault.cursor = l.cursor := by
  cases refused <;> rfl

/-- What a refused token leaves behind: the layout, or the layout without a bracket that closes and
lacks its margin. -/
theorem Refused.left_cases (refused : Refused l token fault left) :
    (left = l ∧ ∀ bracket, token = .mark (.closer bracket) → fault ≠ .unindented l.cursor) ∨
      ∃ bracket rest, token = .mark (.closer bracket) ∧ fault = .unindented l.cursor ∧
        l.lists.leave? = some (.inside bracket .broken, rest) ∧
        left = { l with lists := rest }.writeClosing (.inside bracket .broken) := by
  cases refused with
  | dedent _ => exact Or.inl ⟨rfl, fun bracket closer => by cases closer⟩
  | unopened _ => exact Or.inl ⟨rfl, fun bracket _ unindented => by cases unindented⟩
  | mismatched _ _ => exact Or.inl ⟨rfl, fun bracket _ unindented => by cases unindented⟩
  | @unsaved bracket rest left _ => exact Or.inr ⟨bracket, rest, rfl, rfl, left, rfl⟩

/-- A step refuses a token that cannot be laid out on the page; it does not go back instead. -/
theorem exists_rejected {reason : Fault × Page} (sound : l.Sound)
    (unplaced : l.page.place config false token = .error reason) :
    ∃ fault left, l.step config token = .rejected fault left := by
  cases taken : l.step config token with
  | rejected fault left => exact ⟨fault, left, rfl⟩
  | done next =>
    exfalso
    rcases step_cases taken with forward | ⟨choice, back⟩
    · rw [page_forward forward sound] at unplaced
      cases unplaced
    · cases back with
      | overflow | hardBreak | indent => cases unplaced
      | dedent indented _ =>
        have bottom : l.saved.pop? = none :=
          Trail.pop?_eq_none_iff.2 (Page.dedent_error unplaced).1
        rw [(pop?_eq_none_iff_isEmpty sound.saved.top_le).1 bottom] at indented
        cases indented

theorem Straight.exists_rejected {tokens : List Token} {last : Layout}
    (straight : Straight tokens (· = config) l) (straight' : Straight tokens (· = config) last)
    (same : l.cursor = last.cursor) (subset : l.fired ⊆ last.fired)
    (refused : Refused last token fault left) :
    ∃ fault left, l.step config token = .rejected fault left := by
  have laid := straight.laid_of_config
  have laid' := straight'.laid_of_config
  rw [← same] at laid'
  cases placed : l.page.place config false token with
  | error reason => exact Layout.exists_rejected straight.sound placed
  | ok next =>
    obtain ⟨next', taken⟩ := Page.exists_place_of_subset laid laid' subset placed config false
    rw [page_refused refused straight'.sound] at taken
    cases taken

end Layout

namespace Engine

variable {config : Config} {tokens : Array Token} {fault : Fault}

theorem exists_refused (failed : (Engine.run { config := config } tokens).fault? = some fault) :
    ∃ last token, Layout.Reached tokens.toList (· = config) last ∧
      tokens[last.cursor]? = some token ∧ last.cursor = fault.cursor ∧
      Layout.Refused last token fault (Engine.run { config := config } tokens).layout := by
  have ends := run_ends config tokens
  simp only [Engine.run] at failed ⊢
  generalize Layout.run {} config tokens = outcome at ends failed
  cases ends with
  | finished _ _ => cases failed
  | @refused last left fault' token reached read rejected =>
    obtain rfl : fault' = fault := Option.some.inj failed
    have refused := Layout.step_refused reached.straight.sound rejected
    exact ⟨last, token, reached, read, refused.fault_cursor.symm, refused⟩

theorem run_take (failed : (Engine.run { config := config } tokens).fault? = some fault) :
    let front := tokens.take fault.cursor
    ∃ l, Layout.run {} config front = .done l ∧ l.cursor = fault.cursor ∧
      Layout.Reached tokens.toList (· = config) l ∧
      l.run config tokens = Layout.run {} config tokens := by
  intro front
  have part : front.toList <+: tokens.toList := by
    simpa [front] using List.take_prefix fault.cursor tokens.toList
  obtain ⟨last, token, -, read, cursor, refused⟩ := exists_refused failed
  have inside : fault.cursor < tokens.size := cursor ▸ (Array.getElem?_eq_some_iff.1 read).1
  have size : front.size = fault.cursor := by simpa [front] using inside.le
  have ends : Layout.Ends tokens.toList (· = config) config front (Layout.run {} config front) :=
    Layout.run_ends .start rfl part
  have whole := Layout.andRun_run {} config part
  cases outcome : Layout.run {} config front with
  | rejected fault' left =>
    -- the run would have stopped there for good
    have below := Layout.cursor_lt_of_rejected outcome
    rw [outcome, Outcome.andRun] at whole
    have stopped : (Engine.run { config := config } tokens).layout = left := by
      simp [Engine.run, ← whole, settle]
    rw [size, ← stopped, refused.cursor, cursor] at below
    exact absurd below (Nat.lt_irrefl _)
  | done l =>
    rw [outcome] at ends whole
    cases ends with
    | finished reached _ =>
      have sane : (Engine.run { config := config } front).fault? = none := by
        simp [Engine.run, outcome, settle]
      have ended := (reached_run sane).2
      rw [size] at ended
      exact ⟨l, rfl, by simpa [Engine.run, outcome, settle] using ended, reached, whole⟩

/-- A token that is refused is refused as soon as the tokens in front of it are laid out. -/
theorem refused_run (failed : (Engine.run { config := config } tokens).fault? = some fault) :
    let before := Engine.run { config := config } (tokens.take fault.cursor)
    before.fault? = none ∧ before.layout.cursor = fault.cursor ∧
      ∃ token, tokens[fault.cursor]? = some token ∧
        Layout.Refused before.layout token fault
          (Engine.run { config := config } tokens).layout := by
  intro before
  obtain ⟨l, front, here, reached, whole⟩ := run_take failed
  obtain ⟨last, token, reachedLast, read, cursor, refused⟩ := exists_refused failed
  have standing : before = { config := config, layout := l } := by
    simp [before, Engine.run, front, settle]
  have outcome : (Engine.run { config := config } tokens).layout =
      (l.run config tokens).layout := by
    rw [whole, Engine.run, layout_settle]
  have subset : l.fired ⊆ last.fired := by
    obtain ⟨more, fired, -⟩ := reached.fired_run rfl
    rw [← outcome, refused.fired] at fired
    exact fired ▸ List.subset_append_right more l.fired
  obtain ⟨fault', left, rejected⟩ :=
    reached.straight.exists_rejected reachedLast.straight (here.trans cursor.symm) subset refused
  have read' : tokens[l.cursor]? = some token := by rw [here, ← cursor, read]
  have stopped : Layout.run {} config tokens = .rejected fault' left := by
    rw [← whole, Layout.run_of_rejected read' rejected]
  have same : (Engine.run { config := config } tokens) =
      { config := config, layout := left, fault? := some fault' } := by
    simp [Engine.run, stopped, settle]
  rw [same] at failed ⊢
  obtain rfl : fault' = fault := Option.some.inj failed
  rw [standing]
  exact ⟨rfl, here, token, here ▸ read', Layout.step_refused reached.straight.sound rejected⟩

end Engine

/-! ## What is left behind -/

theorem exists_misfit {tokens : List Token} {fault : Fault}
    (found : nestingFault? tokens = some fault) :
    ∃ token, tokens[fault.cursor]? = some token ∧
      misfit? (tokens.take fault.cursor) token = some fault := by
  induction tokens using List.reverseRecOn with
  | nil => cases found
  | append_singleton tokens last ih =>
    rw [nestingFault?_concat, Option.or_eq_some_iff] at found
    rcases found with earlier | ⟨-, here⟩
    · have below := cursor_of_nestingFault? earlier
      rw [List.getElem?_append_left below, List.take_append_of_le_length below.le]
      exact ih earlier
    · rw [cursor_of_misfit? here, List.take_left]
      exact ⟨last, by simp, here⟩

/-- The refused token closes a bracket, and it is refused for lack of a margin. -/
def ClosesUnsaved (tokens : Array Token) (fault : Fault) : Prop :=
  fault = .unindented fault.cursor ∧
    ∃ bracket, tokens[fault.cursor]? = some (.mark (.closer bracket))

namespace Engine

variable {config : Config} {tokens : Array Token} {fault : Fault}

/-- A broken bracket lacks its margin only if a dedent has strayed into a bracket. -/
theorem strayDedent_of_closesUnsaved
    (failed : (Engine.run { config := config } tokens).fault? = some fault)
    (unsaved : ClosesUnsaved tokens fault) : StrayDedent tokens.toList := by
  by_contra tidy
  rw [fault?_run config tidy] at failed
  obtain ⟨token, read, misfit⟩ := exists_misfit failed
  obtain ⟨unindented, bracket, closer⟩ := unsaved
  rw [Array.getElem?_toList, closer, Option.some.injEq] at read
  rw [← read, unindented] at misfit
  unfold misfit? at misfit
  dsimp only at misfit
  split at misfit
  · cases misfit
  · split at misfit <;> cases misfit

/-- A refused token leaves the layout as the tokens in front of it have left it: the output and the
column, the margin and the saved ones, the open brackets and the pending candidates, all of it. The
tokens in front are laid out without a fault, and the cursor stands at the refused one.

The exception is a bracket that closes and has no margin to take back. It is taken off the open
brackets, and its end is written, before it is refused; all else stays. That takes a dedent that has
strayed into a bracket and taken a margin that was not its own. -/
theorem refused_token_leaves_layout
    (failed : (Engine.run { config := config } tokens).fault? = some fault) :
    let before := Engine.run { config := config } (tokens.take fault.cursor)
    let stopped := Engine.run { config := config } tokens
    before.fault? = none ∧ before.layout.cursor = fault.cursor ∧
      stopped.layout.cursor = fault.cursor ∧
      (stopped.layout = before.layout ↔ ¬ ClosesUnsaved tokens fault) ∧
      (ClosesUnsaved tokens fault → StrayDedent tokens.toList ∧ ∃ bracket rest,
        before.layout.lists.leave? = some (.inside bracket .broken, rest) ∧
        stopped.layout =
          { before.layout with lists := rest }.writeClosing (.inside bracket .broken)) := by
  intro before stopped
  obtain ⟨sane, cursor, token, read, refused⟩ := refused_run failed
  refine ⟨sane, cursor, refused.cursor.trans cursor, ?_⟩
  rcases refused.left_cases with ⟨same, other⟩ | ⟨bracket, rest, closer, unindented, left, taken⟩
  · have saved : ¬ ClosesUnsaved tokens fault := by
      rintro ⟨unindented, bracket, closer⟩
      rw [read, Option.some.injEq] at closer
      exact other bracket closer (unindented.trans (congrArg Fault.unindented cursor.symm))
    exact ⟨⟨fun _ => saved, fun _ => same⟩, fun unsaved => absurd unsaved saved⟩
  · have unsaved : ClosesUnsaved tokens fault :=
      ⟨unindented.trans (congrArg Fault.unindented cursor), bracket, closer ▸ read⟩
    refine ⟨⟨?_, fun saved => absurd unsaved saved⟩,
      fun _ => ⟨strayDedent_of_closesUnsaved failed unsaved, bracket, rest, left, taken⟩⟩
    -- one bracket less is open
    intro same
    have lists := congrArg Layout.lists (taken.symm.trans same)
    rw [Layout.lists_writeClosing] at lists
    exact absurd lists (OpenLists.ne_of_leave? (straight_run sane).1.sound.lists left)

/-- The list is broken, and read a second time, before the parenthesis is refused. -/
theorem refused_token_leaves_layout_unopened :
    let tokens : Array Token :=
      #[.mark (.opener .list), .plain "abc", .plain "def", .mark (.closer .list),
        .mark (.closer .paren), .plain "g"]
    (Engine.run { config := ⟨4, 2⟩ } tokens).fault? = some (.unopened 4 .paren) ∧
      (Engine.run { config := ⟨4, 2⟩ } tokens).layout =
        (Engine.run { config := ⟨4, 2⟩ } (tokens.take 4)).layout ∧
      (Engine.run { config := ⟨4, 2⟩ } tokens).text = "\n    abcdef" := by
  intro tokens
  have failed : (Engine.run { config := ⟨4, 2⟩ } tokens).fault? = some (.unopened 4 .paren) := by
    decide +kernel
  obtain ⟨-, -, -, untouched, -⟩ := refused_token_leaves_layout failed
  refine ⟨failed, untouched.2 ?_, by decide +kernel⟩
  rintro ⟨unindented, -⟩
  cases unindented

/-- A dedent strays into a parenthesis that is broken over lines and takes its margin. The closing
parenthesis is then refused, but it stands in the output, and nothing is open any more. -/
theorem refused_parenthesis_is_written :
    let tokens : Array Token :=
      #[.mark (.opener .paren), .plain "abc", .plain "def", .mark .dedent, .mark (.closer .paren)]
    let before := Engine.run { config := ⟨4, 2⟩ } (tokens.take 4)
    let stopped := Engine.run { config := ⟨4, 2⟩ } tokens
    stopped.fault? = some (.unindented 4) ∧
      before.text = "(\n    abcdef\n" ∧ stopped.text = "(\n    abcdef\n)" ∧
      before.layout.column = 0 ∧ stopped.layout.column = 1 ∧
      before.layout.lists.depth = 1 ∧ stopped.layout.lists.depth = 0 ∧
      stopped.layout ≠ before.layout := by
  intro tokens before stopped
  have column : before.layout.column = 0 := by decide +kernel
  have column' : stopped.layout.column = 1 := by decide +kernel
  refine ⟨by decide +kernel, by decide +kernel, by decide +kernel, column, column',
    by decide +kernel, by decide +kernel, ?_⟩
  intro same
  rw [same, column] at column'
  cases column'

end Engine

end LineLayout
