import LineLayout.Proofs.Open

/-!
# Which token does not fit

Whether a token fits the nesting can be read off the tokens in front of it: a closing bracket has to
match the innermost open one, and a dedent needs an indent that is still open. `nestingFault?` is
the fault of the first token that does not fit.

An engine finds out in another way. It pops margins off a stack, on which broken brackets have put
theirs as well, so a dedent inside a broken bracket takes the margin of the bracket where none of an
indent is left (`StrayDedent`). That apart, the saved margins are as many as the open indents and
the broken brackets together (`Page.follows_of_lay`), so the engine stops where `nestingFault?`
says, under whatever settings.
-/

namespace LineLayout

/-- Whether a token moves the margin in. -/
def Token.indents? : Token → Option Unit
  | .mark .indent => some ()
  | _ => none

/-- Whether a token takes back what an indent moved in. -/
def Token.dedents? : Token → Option Unit
  | .mark .dedent => some ()
  | _ => none

theorem Token.eq_of_indents? {token : Token} {u : Unit} (indents : token.indents? = some u) :
    token = .mark .indent := by
  rcases token with run | mark
  · cases indents
  · cases mark <;> cases indents
    rfl

theorem Token.eq_of_dedents? {token : Token} {u : Unit} (dedents : token.dedents? = some u) :
    token = .mark .dedent := by
  rcases token with run | mark
  · cases dedents
  · cases mark <;> cases dedents
    rfl

/-- The indents that a word leaves open, each with the number of its token. -/
def openIndents (tokens : List Token) : List (Nat × Unit) :=
  unclosed Token.indents? Token.dedents? tokens

/-! ## The first misfit -/

/-- The fault of a token that does not fit behind the tokens in front of it. -/
def misfit? (front : List Token) : Token → Option Fault
  | .mark (.closer closed) =>
    match openBrackets front with
    | [] => some (.unopened front.length closed)
    | (_, opened) :: _ =>
      if opened = closed then none else some (.mismatched front.length opened closed)
  | .mark .dedent => if openIndents front = [] then some (.unindented front.length) else none
  | _ => none

/-- The fault of the first token that does not fit, behind the tokens in front. -/
def nestingFaultFrom? (front : List Token) : List Token → Option Fault
  | [] => none
  | token :: rest => (misfit? front token).or (nestingFaultFrom? (front ++ [token]) rest)

/-- The fault of the first token that does not fit. -/
def nestingFault? (tokens : List Token) : Option Fault :=
  nestingFaultFrom? [] tokens

/-- The first token that does not fit is a dedent, and stands inside a bracket. -/
def StrayDedent (tokens : List Token) : Prop :=
  ∃ position, nestingFault? tokens = some (.unindented position) ∧
    openBrackets (tokens.take position) ≠ []

section Misfits

variable {front tokens rest : List Token} {token : Token} {fault : Fault}

theorem nestingFaultFrom?_append (front tokens rest : List Token) :
    nestingFaultFrom? front (tokens ++ rest) =
      (nestingFaultFrom? front tokens).or (nestingFaultFrom? (front ++ tokens) rest) := by
  induction tokens generalizing front with
  | nil => simp [nestingFaultFrom?]
  | cons token tokens ih => simp [nestingFaultFrom?, ih, Option.or_assoc]

theorem nestingFault?_append (tokens rest : List Token) :
    nestingFault? (tokens ++ rest) =
      (nestingFault? tokens).or (nestingFaultFrom? tokens rest) :=
  nestingFaultFrom?_append [] tokens rest

theorem nestingFault?_concat (tokens : List Token) (token : Token) :
    nestingFault? (tokens ++ [token]) = (nestingFault? tokens).or (misfit? tokens token) := by
  rw [nestingFault?_append]
  simp [nestingFaultFrom?]

/-- What follows a token that does not fit is not looked at. -/
theorem nestingFault?_of_misfit (fits : nestingFault? front = none)
    (misfit : misfit? front token = some fault) (rest : List Token) :
    nestingFault? (front ++ token :: rest) = some fault := by
  rw [nestingFault?_append, fits, nestingFaultFrom?, misfit]
  rfl

theorem cursor_of_misfit? (misfit : misfit? front token = some fault) :
    fault.cursor = front.length := by
  unfold misfit? at misfit
  split at misfit
  · split at misfit
    · cases misfit
      rfl
    · split at misfit <;> cases misfit
      rfl
  · split at misfit <;> cases misfit
    rfl
  · cases misfit

theorem cursor_of_nestingFault? (found : nestingFault? tokens = some fault) :
    fault.cursor < tokens.length := by
  induction tokens using List.reverseRecOn with
  | nil => cases found
  | append_singleton tokens token ih =>
    rw [nestingFault?_concat, Option.or_eq_some_iff] at found
    rw [List.length_append, List.length_singleton]
    rcases found with earlier | ⟨-, here⟩
    · exact Nat.lt_succ_of_lt (ih earlier)
    · exact Nat.lt_succ_of_le (cursor_of_misfit? here).le

theorem StrayDedent.append (stray : StrayDedent tokens) (rest : List Token) :
    StrayDedent (tokens ++ rest) := by
  obtain ⟨position, found, inside⟩ := stray
  have below : position < tokens.length := cursor_of_nestingFault? found
  refine ⟨position, ?_, ?_⟩
  · rw [nestingFault?_append, found]
    rfl
  · rw [List.take_append_of_le_length below.le]
    exact inside

end Misfits

/-! ## Saved margins -/

namespace Page

variable {settings : Nat → Config} {breaks : List Nat} {page next left : Page} {config : Config}
  {broken : Bool} {tokens : List Token} {token : Token} {fault : Fault}

/-- How many brackets have saved a margin. -/
def brokenCount (page : Page) : Nat :=
  page.lists.countP ListState.dedentsOnClose

theorem brokenCount_of_lists {state : ListState} (lists : page.lists = state :: next.lists) :
    page.brokenCount = next.brokenCount + if state.dedentsOnClose then 1 else 0 := by
  rw [brokenCount, lists, List.countP_cons, brokenCount]

theorem saved_offer_opener (page : Page) (config : Config) (broken : Bool) (bracket : Bracket) :
    (page.offer config broken (.opener bracket)).saved =
      if broken then page.margin :: page.saved else page.saved := by
  cases broken with
  | false => rfl
  | true =>
    cases bracket with
    | list => rfl
    | paren =>
      show page.writeMargin.margin :: page.writeMargin.saved = page.margin :: page.saved
      rw [saved_writeMargin, margin_writeMargin]

theorem saved_offer (page : Page) (config : Config) (broken : Bool) (kind : BreakKind) :
    (page.offer config broken kind).saved.length + page.brokenCount =
      page.saved.length + (page.offer config broken kind).brokenCount := by
  cases kind with
  | soft | separator => cases broken <;> rfl
  | opener bracket =>
    rw [saved_offer_opener, brokenCount_of_lists (lists_offer_opener page config broken bracket)]
    cases broken with
    | false => rfl
    | true =>
      simp only [ListState.dedentsOnClose, if_true, List.length_cons]
      omega

theorem length_saved_closeList {bracket : Bracket} (closed : page.closeList bracket = .ok next) :
    next.saved.length + page.brokenCount = page.saved.length + next.brokenCount := by
  obtain ⟨shape, -, -, lists, -⟩ := closeList_ok closed
  rw [brokenCount_of_lists lists]
  rcases saved_closeList closed lists with ⟨rfl, same⟩ | ⟨rfl, taken⟩
  · rw [same]
    rfl
  · rw [taken]
    simp only [List.length_cons, ListState.dedentsOnClose, if_true]
    omega

/-- Only an indent saves a margin for itself, and only a dedent takes one back for itself. -/
theorem length_saved_place (unindented : token.indents? = none) (undedented : token.dedents? = none)
    (placed : page.place config broken token = .ok next) :
    next.saved.length + page.brokenCount = page.saved.length + next.brokenCount := by
  rcases token with run | mark
  · cases placed
    have saved : (page.putText run).saved = page.saved := saved_writeMargin page
    have lists : (page.putText run).lists = page.lists := lists_writeMargin page
    rw [brokenCount, brokenCount, saved, lists]
  cases mark with
  | indent => cases unindented
  | dedent => cases undedented
  | hardBreak => cases placed; rfl
  | softBreak => cases placed; exact saved_offer page config broken .soft
  | separator => cases placed; exact saved_offer page config broken .separator
  | opener bracket => cases placed; exact saved_offer page config broken (.opener bracket)
  | closer bracket => exact length_saved_closeList placed

theorem saved_dedent (placed : page.dedent = .ok next) :
    page.saved = next.margin :: next.saved := by
  unfold dedent at placed
  split at placed
  · have same : page.startLine.saved = page.saved := rfl
    rw [← same, saved_takeBackMargin placed]
  · cases placed

/-! ## One pass finds the first misfit -/

/-- There is a saved margin for each open indent and for each broken bracket. -/
def Tallies (tokens : List Token) (page : Page) : Prop :=
  page.saved.length = (openIndents tokens).length + page.brokenCount

/-- What a pass keeps: the brackets that are open are those of the tokens and, unless there was a
stray dedent, every token fits and the saved margins are accounted for. -/
structure Follows (breaks : List Nat) (tokens : List Token) (page : Page) : Prop where
  lists : page.lists = (openBrackets tokens).map (openState breaks)
  fits : StrayDedent tokens ∨ nestingFault? tokens = none ∧ Tallies tokens page

theorem misfit?_of_place (lists : page.lists = (openBrackets tokens).map (openState breaks))
    (undedented : token.dedents? = none) (placed : page.place config broken token = .ok next) :
    misfit? tokens token = none := by
  cases closed : token.closes? with
  | some bracket =>
    obtain ⟨shape, -, -, top, -⟩ := place_closes closed placed
    obtain ⟨index, outer, split, -, -⟩ := openState_top (lists.symm.trans top)
    rw [Token.eq_of_closes? closed]
    simp [misfit?, split]
  | none =>
    rcases token with run | mark
    · rfl
    cases mark with
    | closer bracket => cases closed
    | dedent => cases undedented
    | hardBreak | softBreak | indent | separator | opener bracket => rfl

theorem Tallies.place (tally : Tallies tokens page) (undedented : token.dedents? = none)
    (placed : page.place config broken token = .ok next) : Tallies (tokens ++ [token]) next := by
  unfold Tallies openIndents at tally ⊢
  rw [unclosed_concat]
  cases indents : token.indents? with
  | none =>
    have same := length_saved_place indents undedented placed
    rw [nestBy, indents, undedented]
    simp only [Option.isSome_none, Bool.false_eq_true, if_false]
    omega
  | some _ =>
    obtain rfl := Token.eq_of_indents? indents
    cases placed
    show page.saved.length + 1 = _ + 1 + page.brokenCount
    omega

theorem Follows.dedent (follows : Follows breaks tokens page)
    (placed : page.place config broken (.mark .dedent) = .ok next) :
    StrayDedent (tokens ++ [.mark .dedent]) ∨
      nestingFault? (tokens ++ [.mark .dedent]) = none ∧
        Tallies (tokens ++ [.mark .dedent]) next := by
  rcases follows.fits with stray | ⟨fits, tally⟩
  · exact Or.inl (stray.append _)
  have lists : next.lists = page.lists := (place_plain rfl rfl placed).1
  have saved := saved_dedent placed
  unfold Tallies at tally ⊢
  rw [saved, List.length_cons] at tally
  rw [StrayDedent, nestingFault?_concat, fits, brokenCount, lists, ← brokenCount]
  cases indents : openIndents tokens with
  | nil =>
    refine Or.inl ⟨tokens.length, by simp [misfit?, indents], ?_⟩
    rw [List.take_left]
    intro none
    rw [brokenCount, follows.lists, none, indents] at tally
    cases tally
  | cons entry outer =>
    refine Or.inr ⟨by simp [misfit?, indents], ?_⟩
    have taken : openIndents (tokens ++ [.mark .dedent]) = outer := by
      rw [openIndents, unclosed_concat, ← openIndents, indents]
      rfl
    rw [taken]
    rw [indents, List.length_cons] at tally
    omega

theorem Follows.place (follows : Follows breaks tokens page)
    (placed : page.place config (decide (tokens.length ∈ breaks)) token = .ok next) :
    Follows breaks (tokens ++ [token]) next where
  lists := by
    rw [openBrackets, unclosed_concat]
    exact lists_place follows.lists placed
  fits := by
    cases dedents : token.dedents? with
    | some _ =>
      obtain rfl := Token.eq_of_dedents? dedents
      exact follows.dedent placed
    | none =>
      rcases follows.fits with stray | ⟨fits, tally⟩
      · exact Or.inl (stray.append _)
      · refine Or.inr ⟨?_, tally.place dedents placed⟩
        rw [nestingFault?_concat, fits, misfit?_of_place follows.lists dedents placed]
        rfl

theorem follows_of_lay (laid : lay settings breaks tokens = .ok page) :
    page.cursor = tokens.length ∧ Follows breaks tokens page := by
  refine lay_induction (Follows breaks) ⟨rfl, Or.inr ⟨rfl, rfl⟩⟩ ?_ laid
  intro tokens page next token follows _ placed
  exact follows.place placed

theorem takeBackMargin_error (taken : page.takeBackMargin = .error (fault, left)) :
    page.saved = [] ∧ fault = .unindented page.cursor := by
  unfold takeBackMargin at taken
  split at taken
  · cases taken
  · rename_i empty
    cases taken
    exact ⟨empty, rfl⟩

theorem dedent_error (refused : page.dedent = .error (fault, left)) :
    page.saved = [] ∧ fault = .unindented page.cursor := by
  unfold dedent at refused
  split at refused
  · obtain ⟨empty, rfl⟩ := takeBackMargin_error refused
    exact ⟨empty, rfl⟩
  · rename_i empty
    cases refused
    exact ⟨empty, rfl⟩

theorem closeList_error {bracket : Bracket}
    (refused : page.closeList bracket = .error (fault, left)) :
    (∃ opened shape rest, page.lists = .inside opened shape :: rest ∧ opened ≠ bracket ∧
      fault = .mismatched page.cursor opened bracket) ∨
    (∃ rest, page.lists = .inside bracket .broken :: rest ∧ page.saved = []) ∨
    ((∀ opened shape rest, page.lists ≠ .inside opened shape :: rest) ∧
      fault = .unopened page.cursor bracket) := by
  unfold closeList at refused
  split at refused
  · rename_i opened shape rest lists
    split at refused
    · rename_i same
      subst same
      cases shape with
      | flat => cases refused
      | broken =>
        obtain ⟨empty, -⟩ := takeBackMargin_error refused
        rw [saved_writeClosing] at empty
        exact Or.inr (Or.inl ⟨rest, lists, empty⟩)
    · rename_i other
      cases refused
      exact Or.inl ⟨opened, shape, rest, lists, other, rfl⟩
  · rename_i bottom
    cases refused
    exact Or.inr (Or.inr ⟨bottom, rfl⟩)

theorem misfit?_of_closeList_error {bracket : Bracket} (cursor : page.cursor = tokens.length)
    (lists : page.lists = (openBrackets tokens).map (openState breaks))
    (tally : Tallies tokens page) (refused : page.closeList bracket = .error (fault, left)) :
    misfit? tokens (.mark (.closer bracket)) = some fault := by
  rcases closeList_error refused with ⟨opened, shape, rest, top, other, rfl⟩ | ⟨rest, top, empty⟩ |
    ⟨bottom, rfl⟩
  · obtain ⟨index, outer, split, -, -⟩ := openState_top (lists.symm.trans top)
    simp [misfit?, split, if_neg other, cursor]
  · have counted : page.brokenCount = 0 := by
      rw [Tallies, empty, List.length_nil] at tally
      omega
    rw [brokenCount, top, List.countP_cons_of_pos rfl] at counted
    cases counted
  · cases outer : openBrackets tokens with
    | nil => simp [misfit?, outer, cursor]
    | cons entry rest =>
      rw [outer] at lists
      exact absurd lists (bottom _ _ _)

/-- A token that cannot be laid out does not fit. -/
theorem misfit?_of_error (cursor : page.cursor = tokens.length)
    (lists : page.lists = (openBrackets tokens).map (openState breaks))
    (tally : Tallies tokens page)
    (refused : page.place config broken token = .error (fault, left)) :
    misfit? tokens token = some fault := by
  rcases token with run | mark
  · cases refused
  cases mark with
  | hardBreak | softBreak | separator | indent | opener bracket => cases refused
  | closer bracket => exact misfit?_of_closeList_error cursor lists tally refused
  | dedent =>
    obtain ⟨empty, rfl⟩ := dedent_error refused
    have closed : openIndents tokens = [] := by
      rw [Tallies, empty, List.length_nil] at tally
      exact List.length_eq_zero_iff.1 (by omega)
    simp [misfit?, closed, cursor]

end Page

/-! ## The fault of an engine -/

namespace Engine

variable {tokens : Array Token} {fault : Fault}

/-- Unless a dedent strays into a bracket, an engine stops at the first token that does not fit. -/
theorem fault?_run (config : Config) (tidy : ¬ StrayDedent tokens.toList) :
    (Engine.run { config := config } tokens).fault? = nestingFault? tokens.toList := by
  have ends := run_ends config tokens
  simp only [Engine.run]
  generalize Layout.run {} config tokens = outcome at ends
  cases ends with
  | @finished last reached read =>
    have done : tokens.toList.length ≤ last.cursor := by simpa using read
    obtain ⟨-, follows⟩ := Page.follows_of_lay (reached.straight.laid_all done)
    rcases follows.fits with stray | ⟨fits, -⟩
    · exact absurd stray tidy
    · exact fits.symm
  | @refused last left fault token reached read rejected =>
    have straight := reached.straight
    have read' : tokens.toList[last.cursor]? = some token := by simpa using read
    have split := take_append_cons_drop read'
    obtain ⟨cursor, follows⟩ := Page.follows_of_lay straight.laid_of_config
    rcases follows.fits with stray | ⟨fits, tally⟩
    · have whole := stray.append (token :: tokens.toList.drop (last.cursor + 1))
      rw [split] at whole
      exact absurd whole tidy
    · have stopped : last.page.place config false token = .error (fault, left.page) :=
        Layout.page_refused (Layout.step_refused straight.sound rejected) straight.sound false
      have misfit := Page.misfit?_of_error cursor follows.lists tally stopped
      have found := nestingFault?_of_misfit fits misfit (tokens.toList.drop (last.cursor + 1))
      rw [split] at found
      exact found.symm

end Engine

variable {tokens : Array Token} {fault : Fault}

theorem renderTokens_eq_error_iff {config : Config} :
    renderTokens config tokens = .error fault ↔
      (Engine.run { config := config } tokens).fault? = some fault := by
  rw [renderTokens, Engine.result]
  cases (Engine.run { config := config } tokens).fault? <;> simp

/-- Whether a stream is malformed, and where and how, is told by the stream alone. Unless its first
misfit is a dedent that strays into a bracket, it is refused under all settings or under none, and
with the fault of the first token that does not fit. -/
theorem faults_independent_of_settings (tidy : ¬ StrayDedent tokens.toList) (first second : Config)
    (fault : Fault) :
    (renderTokens first tokens = .error fault ↔ renderTokens second tokens = .error fault) ∧
      (renderTokens first tokens = .error fault ↔ nestingFault? tokens.toList = some fault) := by
  rw [renderTokens_eq_error_iff, renderTokens_eq_error_iff, Engine.fault?_run first tidy,
    Engine.fault?_run second tidy]
  exact ⟨Iff.rfl, Iff.rfl⟩

/-- An indent and a list cross each other, and a parenthesis closes the list. The list is broken
over lines under the one settings and flat under the other, and the fault is the same. -/
theorem faults_independent_of_settings_crossing :
    let tokens : Array Token :=
      #[.mark .indent, .mark (.opener .list), .plain "abc", .plain "def", .mark .dedent,
        .mark (.closer .paren)]
    ¬ StrayDedent tokens.toList ∧
      renderTokens ⟨80, 2⟩ tokens = .error (.mismatched 5 .list .paren) ∧
      renderTokens ⟨4, 2⟩ tokens = .error (.mismatched 5 .list .paren) := by
  intro tokens
  have first : nestingFault? tokens.toList = some (.mismatched 5 .list .paren) := by decide
  have tidy : ¬ StrayDedent tokens.toList := by
    rintro ⟨position, found, -⟩
    rw [first] at found
    cases found
  exact ⟨tidy, (faults_independent_of_settings tidy ⟨80, 2⟩ ⟨4, 2⟩ _).2.2 first,
    (faults_independent_of_settings tidy ⟨4, 2⟩ ⟨80, 2⟩ _).2.2 first⟩

/-- A dedent that strays into a list is refused if the list is flat, and taken for the end of its
margin if the list is broken over lines. -/
theorem stray_dedent_depends_on_settings :
    let tokens : Array Token :=
      #[.mark (.opener .list), .plain "abc", .plain "def", .mark .dedent]
    StrayDedent tokens.toList ∧ renderTokens ⟨80, 2⟩ tokens = .error (.unindented 3) ∧
      renderTokens ⟨4, 2⟩ tokens = .ok "\n    abcdef\n" ∧
      ¬ ∀ fault, renderTokens ⟨80, 2⟩ tokens = .error fault ↔
        renderTokens ⟨4, 2⟩ tokens = .error fault := by
  intro tokens
  have wide : renderTokens ⟨80, 2⟩ tokens = .error (.unindented 3) :=
    renderTokens_eq_error_iff.2 (by decide +kernel)
  have sane : (Engine.run { config := ⟨4, 2⟩ } tokens).fault? = none := by decide +kernel
  have text : (Engine.run { config := ⟨4, 2⟩ } tokens).text = "\n    abcdef\n" := by decide +kernel
  have narrow : renderTokens ⟨4, 2⟩ tokens = .ok "\n    abcdef\n" := by
    rw [renderTokens, Engine.result, sane, text]
  refine ⟨⟨3, by decide, by decide⟩, wide, narrow, ?_⟩
  intro same
  have refused := (same _).1 wide
  rw [narrow] at refused
  cases refused

end LineLayout
