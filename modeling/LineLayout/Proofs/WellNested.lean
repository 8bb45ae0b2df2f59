import LineLayout.Proofs.Misfit

/-!
# Well-nested streams

Brackets and indents together form three kinds of pairs (`Pair`). In a balanced word, and so in
every front part of one, each closing token closes the innermost open pair
(`Balanced.closesInnermost`). Brackets and indents are then nested as if the others were not there
(`unclosed_part`), so no token is a misfit, and the first closing token that does not fit behind
such a front part is refused with the fault that its place among the open pairs tells.
-/

namespace LineLayout

/-! ## Closing the innermost pair -/

section Innermost

variable {β γ : Type} {opens closes : Token → Option β} {front tokens rest word : List Token}
  {token : Token}

/-- No token both opens a pair and closes one. -/
def Apart (opens closes : Token → Option β) : Prop :=
  ∀ {token : Token} {pair : β}, opens token = some pair → closes token = none

/-- Each token that closes a pair closes the innermost one, of the same kind. -/
def ClosesInnermost (opens closes : Token → Option β) (tokens : List Token) : Prop :=
  ∀ front token rest pair, tokens = front ++ token :: rest → closes token = some pair →
    ∃ index outer, unclosed opens closes front = (index, pair) :: outer

theorem ClosesInnermost.of_append (innermost : ClosesInnermost opens closes (tokens ++ rest)) :
    ClosesInnermost opens closes tokens := by
  intro front token after pair split closed
  refine innermost front token (after ++ rest) pair ?_ closed
  rw [split, List.append_assoc, List.cons_append]

theorem ClosesInnermost.concat (innermost : ClosesInnermost opens closes tokens)
    (last : ∀ pair, closes token = some pair →
      ∃ index outer, unclosed opens closes tokens = (index, pair) :: outer) :
    ClosesInnermost opens closes (tokens ++ [token]) := by
  intro front closing after pair split closed
  rcases List.append_eq_append_iff.1 split with ⟨more, rfl, tail⟩ | ⟨more, rfl, tail⟩
  · cases more with
    | nil =>
      cases tail
      rw [List.append_nil]
      exact last pair closed
    | cons _ more => simp at tail
  · cases more with
    | nil =>
      cases tail
      rw [List.append_nil] at last
      exact last pair closed
    | cons first more =>
      cases tail
      exact innermost front closing more pair rfl closed

/-- Behind tokens that close what is innermost, so does a balanced word, and it leaves the pairs
open that were open before. -/
theorem Balanced.behind (apart : Apart opens closes) (balanced : Balanced opens closes word)
    (innermost : ClosesInnermost opens closes front) :
    ClosesInnermost opens closes (front ++ word) ∧
      unclosed opens closes (front ++ word) = unclosed opens closes front := by
  induction balanced generalizing front with
  | nil =>
    rw [List.append_nil]
    exact ⟨innermost, rfl⟩
  | @plain token rest unopened bare _ ih =>
    have before : ClosesInnermost opens closes (front ++ [token]) := by
      apply innermost.concat
      intro pair closed
      rw [bare] at closed
      cases closed
    have same : unclosed opens closes (front ++ [token]) = unclosed opens closes front := by
      rw [unclosed_concat, nestBy, unopened, bare]
      rfl
    obtain ⟨after, left⟩ := ih before
    rw [List.append_assoc, List.singleton_append] at after left
    exact ⟨after, left.trans same⟩
  | @pair left right pair inner rest opened closed _ _ ihInner ihRest =>
    have entered : unclosed opens closes (front ++ [left]) =
        (front.length, pair) :: unclosed opens closes front := by
      rw [unclosed_concat, nestBy, opened]
    have before : ClosesInnermost opens closes (front ++ [left]) := by
      apply innermost.concat
      intro other closes'
      rw [apart opened] at closes'
      cases closes'
    obtain ⟨inside, kept⟩ := ihInner before
    rw [entered] at kept
    -- the pair is the innermost one again where it closes
    have closing : ClosesInnermost opens closes (front ++ [left] ++ inner ++ [right]) := by
      apply inside.concat
      intro other closes'
      rw [closed, Option.some.injEq] at closes'
      exact ⟨_, _, closes' ▸ kept⟩
    have unopened : opens right = none := by
      cases opens' : opens right with
      | none => rfl
      | some other =>
        rw [apart opens'] at closed
        cases closed
    have outside : unclosed opens closes (front ++ [left] ++ inner ++ [right]) =
        unclosed opens closes front := by
      rw [unclosed_concat, nestBy, unopened, closed, kept]
      rfl
    obtain ⟨after, same⟩ := ihRest closing
    have regroup : front ++ [left] ++ inner ++ [right] ++ rest =
        front ++ left :: (inner ++ right :: rest) := by simp
    rw [regroup] at after same
    exact ⟨after, same.trans outside⟩

theorem Balanced.closesInnermost (apart : Apart opens closes)
    (balanced : Balanced opens closes (front ++ rest)) : ClosesInnermost opens closes front := by
  have start : ClosesInnermost opens closes [] := by
    intro before token after pair split
    simp at split
  have whole := (balanced.behind apart start).1
  rw [List.nil_append] at whole
  exact whole.of_append

/-- Where each token closes what is innermost, the pairs of one kind are open as if the others were
not there. -/
theorem unclosed_part (apart : Apart opens closes) (part : β → Option γ)
    (innermost : ClosesInnermost opens closes tokens) :
    unclosed (fun token => (opens token).bind part) (fun token => (closes token).bind part) tokens =
      (unclosed opens closes tokens).filterMap fun entry => (part entry.2).map (entry.1, ·) := by
  induction tokens using List.reverseRecOn with
  | nil => rfl
  | append_singleton tokens token ih =>
    have before := ih innermost.of_append
    rw [unclosed_concat, unclosed_concat, before, nestBy, nestBy]
    cases opened : opens token with
    | some pair =>
      rw [apart opened]
      cases chosen : part pair <;> simp [chosen]
    | none =>
      cases closed : closes token with
      | none => simp
      | some pair =>
        obtain ⟨index, outer, top⟩ := innermost tokens token [] pair rfl closed
        rw [top]
        cases chosen : part pair <;> simp [chosen]

end Innermost

/-! ## The three kinds of pairs -/

/-- What opens and closes: brackets of two kinds, and indentation. -/
inductive Pair where
  | bracket (bracket : Bracket)
  | indentation
deriving DecidableEq

/-- The bracket of a pair. -/
def Pair.bracket? : Pair → Option Bracket
  | bracket b => some b
  | indentation => none

/-- Whether a pair is indentation. -/
def Pair.indentation? : Pair → Option Unit
  | bracket _ => none
  | indentation => some ()

/-- The pair that a token opens. -/
def Token.opensPair? : Token → Option Pair
  | .mark (.opener bracket) => some (.bracket bracket)
  | .mark .indent => some .indentation
  | _ => none

/-- The pair that a token closes. -/
def Token.closesPair? : Token → Option Pair
  | .mark (.closer bracket) => some (.bracket bracket)
  | .mark .dedent => some .indentation
  | _ => none

/-- The pairs that a word leaves open, the innermost first. -/
def openPairs (tokens : List Token) : List (Nat × Pair) :=
  unclosed Token.opensPair? Token.closesPair? tokens

/-- The brackets among the pairs that a word leaves open, the innermost first. -/
def unmatchedBrackets (tokens : List Token) : List Bracket :=
  (openPairs tokens).filterMap (·.2.bracket?)

section Pairs

variable {front tokens missing : List Token} {token : Token} {fault : Fault} {config : Config}

theorem Token.table_ext {α : Type} {table other : Token → α}
    (text : ∀ run, table (.text run) = other (.text run))
    (mark : ∀ mark, table (.mark mark) = other (.mark mark)) : table = other := by
  funext token
  cases token with
  | text run => exact text run
  | mark m => exact mark m

theorem apart_pairs : Apart Token.opensPair? Token.closesPair? := by
  intro token pair opened
  rcases token with run | mark
  · rfl
  · cases mark <;> first | rfl | cases opened

theorem openBrackets_eq
    (innermost : ClosesInnermost Token.opensPair? Token.closesPair? tokens) :
    openBrackets tokens =
      (openPairs tokens).filterMap fun entry => entry.2.bracket?.map (entry.1, ·) := by
  have opens : Token.opens? = fun token => token.opensPair?.bind Pair.bracket? :=
    Token.table_ext (fun _ => rfl) fun mark => by cases mark <;> rfl
  have closes : Token.closes? = fun token => token.closesPair?.bind Pair.bracket? :=
    Token.table_ext (fun _ => rfl) fun mark => by cases mark <;> rfl
  rw [openBrackets, opens, closes, unclosed_part apart_pairs Pair.bracket? innermost]
  rfl

theorem openIndents_eq
    (innermost : ClosesInnermost Token.opensPair? Token.closesPair? tokens) :
    openIndents tokens =
      (openPairs tokens).filterMap fun entry => entry.2.indentation?.map (entry.1, ·) := by
  have indents : Token.indents? = fun token => token.opensPair?.bind Pair.indentation? :=
    Token.table_ext (fun _ => rfl) fun mark => by cases mark <;> rfl
  have dedents : Token.dedents? = fun token => token.closesPair?.bind Pair.indentation? :=
    Token.table_ext (fun _ => rfl) fun mark => by cases mark <;> rfl
  rw [openIndents, indents, dedents, unclosed_part apart_pairs Pair.indentation? innermost]
  rfl

theorem map_openBrackets
    (innermost : ClosesInnermost Token.opensPair? Token.closesPair? tokens) :
    (openBrackets tokens).map Prod.snd = unmatchedBrackets tokens := by
  rw [openBrackets_eq innermost, List.map_filterMap, unmatchedBrackets]
  congr 1
  funext entry
  cases entry.2.bracket? <;> rfl

theorem misfit?_of_innermost {pair : Pair} {index : Nat} {outer : List (Nat × Pair)}
    (innermost : ClosesInnermost Token.opensPair? Token.closesPair? tokens)
    (closed : token.closesPair? = some pair) (top : openPairs tokens = (index, pair) :: outer) :
    misfit? tokens token = none := by
  have brackets := openBrackets_eq innermost
  have indents := openIndents_eq innermost
  rw [top] at brackets indents
  rcases token with run | mark
  · cases closed
  cases mark with
  | closer bracket =>
    cases closed
    rw [misfit?, brackets]
    simp [Pair.bracket?]
  | dedent =>
    cases closed
    rw [misfit?, indents]
    simp [Pair.indentation?]
  | hardBreak | softBreak | indent | separator | opener bracket => cases closed

/-- Where each token closes what is innermost, all of them fit. -/
theorem nestingFault?_of_innermost
    (innermost : ClosesInnermost Token.opensPair? Token.closesPair? tokens) :
    nestingFault? tokens = none := by
  induction tokens using List.reverseRecOn with
  | nil => rfl
  | append_singleton tokens token ih =>
    have fits : misfit? tokens token = none := by
      cases closed : token.closesPair? with
      | some pair =>
        obtain ⟨index, outer, top⟩ := innermost tokens token [] pair rfl closed
        exact misfit?_of_innermost innermost.of_append closed top
      | none =>
        rcases token with run | mark
        · rfl
        · cases mark <;> first | rfl | cases closed
    rw [nestingFault?_concat, ih innermost.of_append, fits]
    rfl

/-! ## What an engine makes of them -/

/-- If nothing is refused, the brackets that are open in the end are those that the tokens left
open. -/
theorem Engine.depth_run {tokens : Array Token}
    (sane : (Engine.run { config := config } tokens).fault? = none) :
    (Engine.run { config := config } tokens).layout.lists.depth =
      (openBrackets tokens.toList).length := by
  obtain ⟨straight, cursor⟩ := straight_run sane
  rw [straight.depth_eq, cursor, ← Array.length_toList, List.take_length]

theorem Engine.fault?_run_of_fits (fits : nestingFault? front = none) (config : Config) :
    (Engine.run { config := config } front.toArray).fault? = none := by
  have tidy : ¬ StrayDedent front := by
    rintro ⟨position, found, -⟩
    rw [fits] at found
    cases found
  exact (Engine.fault?_run config tidy).trans fits

theorem renderTokens_of_misfit (fits : nestingFault? front = none)
    (misfit : misfit? front token = some fault)
    (outside : ∀ position, fault = .unindented position → openBrackets front = [])
    (config : Config) (rest : List Token) :
    renderTokens config (front ++ token :: rest).toArray = .error fault := by
  have found := nestingFault?_of_misfit fits misfit rest
  have tidy : ¬ StrayDedent (front ++ token :: rest) := by
    rintro ⟨position, found', inside⟩
    rw [found, Option.some.injEq] at found'
    have here : position = front.length := by
      rw [← cursor_of_misfit? misfit, found']
      rfl
    rw [here, List.take_left] at inside
    exact inside (outside position found')
  rw [renderTokens_eq_error_iff, Engine.fault?_run config tidy]
  exact found

/-- A front part of a well-nested stream is laid out under all settings, and as many brackets are
open then as it leaves unmatched. Behind it, a closing bracket is refused as unopened if no bracket
is open, and as mismatched if the innermost open one is of the other kind, and a dedent is refused
if nothing is open. The fault names the token, whatever follows it. -/
theorem well_nested_accepted
    (nested : Balanced Token.opensPair? Token.closesPair? (front ++ missing)) (config : Config) :
    (∃ text, renderTokens config front.toArray = .ok text) ∧
    (Engine.run { config := config } front.toArray).layout.lists.depth =
      (unmatchedBrackets front).length ∧
    ∀ rest : List Token,
      (∀ closed, unmatchedBrackets front = [] →
        renderTokens config (front ++ .mark (.closer closed) :: rest).toArray =
          .error (.unopened front.length closed)) ∧
      (∀ opened closed outer, unmatchedBrackets front = opened :: outer → opened ≠ closed →
        renderTokens config (front ++ .mark (.closer closed) :: rest).toArray =
          .error (.mismatched front.length opened closed)) ∧
      (openPairs front = [] →
        renderTokens config (front ++ .mark .dedent :: rest).toArray =
          .error (.unindented front.length)) := by
  have innermost := nested.closesInnermost apart_pairs
  have fits := nestingFault?_of_innermost innermost
  have sane := Engine.fault?_run_of_fits fits config
  have brackets := map_openBrackets innermost
  refine ⟨⟨_, by rw [renderTokens, Engine.result, sane]⟩, ?_, ?_⟩
  · rw [Engine.depth_run sane, ← brackets, List.length_map]
  · intro rest
    refine ⟨?_, ?_, ?_⟩
    · intro closed none
      have empty : openBrackets front = [] := List.map_eq_nil_iff.1 (brackets.trans none)
      apply renderTokens_of_misfit fits
      · rw [misfit?, empty]
      · intro position unindented
        cases unindented
    · intro opened closed outer top other
      obtain ⟨⟨index, opened'⟩, below, split, rfl, -⟩ :=
        List.map_eq_cons_iff.1 (brackets.trans top)
      apply renderTokens_of_misfit fits
      · rw [misfit?, split]
        exact if_neg other
      · intro position unindented
        cases unindented
    · intro none
      have empty : openBrackets front = [] := by rw [openBrackets_eq innermost, none]; rfl
      have closed : openIndents front = [] := by rw [openIndents_eq innermost, none]; rfl
      apply renderTokens_of_misfit fits
      · rw [misfit?, closed]
        rfl
      · intro position _
        exact empty

/-- A list inside an indent inside a soft parenthesis. Broken over lines or not, both brackets are
counted, and a parenthesis that closes the list is refused, naming the list. -/
theorem well_nested_accepted_crossed :
    let front : List Token :=
      [.mark (.opener .paren), .plain "a", .mark .indent, .plain "b", .mark (.opener .list),
        .plain "cd", .mark .separator, .plain "ef"]
    let missing : List Token :=
      [.mark (.closer .list), .mark .dedent, .mark (.closer .paren)]
    Balanced Token.opensPair? Token.closesPair? (front ++ missing) ∧
      (Engine.run { config := ⟨6, 2⟩ } front.toArray).text =
        "(\n    a\n      b\n          cd\n          ef" ∧
      (Engine.run { config := ⟨6, 2⟩ } front.toArray).layout.lists.depth = 2 ∧
      renderTokens ⟨6, 2⟩ (front ++ .mark (.closer .paren) :: missing).toArray =
        .error (.mismatched 8 .list .paren) := by
  intro front missing
  let items : List Token := [.plain "cd", .mark .separator, .plain "ef"]
  have flat : Balanced Token.opensPair? Token.closesPair? items :=
    .plain rfl rfl (.plain rfl rfl (.plain rfl rfl .nil))
  let list : List Token := .mark (.opener .list) :: (items ++ [.mark (.closer .list)])
  have bracketed : Balanced Token.opensPair? Token.closesPair? list :=
    .pair (by rfl) (by rfl) flat .nil
  let lines : List Token := .mark .indent :: (.plain "b" :: list ++ [.mark .dedent])
  have indented : Balanced Token.opensPair? Token.closesPair? lines :=
    .pair (by rfl) (by rfl) (.plain (by rfl) (by rfl) bracketed) .nil
  have whole : Balanced Token.opensPair? Token.closesPair?
      (.mark (.opener .paren) :: (.plain "a" :: lines ++ [.mark (.closer .paren)])) :=
    .pair (by rfl) (by rfl) (.plain (by rfl) (by rfl) indented) .nil
  have nested : Balanced Token.opensPair? Token.closesPair? (front ++ missing) := whole
  obtain ⟨-, depth, behind⟩ := well_nested_accepted nested ⟨6, 2⟩
  obtain ⟨-, mismatched, -⟩ := behind missing
  exact ⟨nested, by decide +kernel, depth,
    mismatched .list .paren [.paren] (by decide) (by decide)⟩

end Pairs

end LineLayout
