import LineLayout.Proofs.Page
import LineLayout.Proofs.Nesting

/-!
# One block for each token

Whatever is broken, taken back and written again, the output of an engine is a sequence of blocks,
one for each token laid out, in the order of the tokens. `Token.Leaves` says what the block of a
token can look like: nothing but its own text, spaces in front of it, line feeds and the two
characters of a soft parenthesis. A soft parenthesis shows at both ends or at neither.

The blocks are those of a single pass over the tokens (`Page.Writes`), so nothing in this file
looks at candidates or at going back.
-/

namespace LineLayout

/-- What a token can add to the output. -/
def Token.Leaves : Token → String → Prop
  | .text run, block => ∃ count, block = Text.blank count ++ run.text
  | .mark .hardBreak, block => block = "\n"
  | .mark .indent, block => block = "\n"
  | .mark .dedent, block => block = "\n"
  | .mark .softBreak, block => block = "" ∨ block = "\n"
  | .mark .separator, block => block = "" ∨ block = "\n"
  | .mark (.opener .list), block => block = "" ∨ block = "\n"
  | .mark (.closer .list), block => block = ""
  | .mark (.opener .paren), block => block = "" ∨ ∃ count, block = Text.blank count ++ "(\n"
  | .mark (.closer .paren), block => block = "" ∨ ∃ count, block = Text.blank count ++ ")"

namespace Page

variable {config : Config} {broken : Bool} {page next : Page} {token : Token}

/-! ## The block of a token -/

theorem text_writeMargin (page : Page) :
    ∃ count, page.writeMargin.text = page.text ++ Text.blank count := by
  unfold writeMargin
  split
  · exact ⟨_, rfl⟩
  · exact ⟨0, by simp [Text.blank_zero]⟩

theorem text_takeBackMargin (taken : page.takeBackMargin = .ok next) :
    next.text = page.text ∧ next.lists = page.lists := by
  unfold takeBackMargin at taken
  split at taken
  · cases taken
    exact ⟨rfl, rfl⟩
  · cases taken

theorem lists_writeMargin (page : Page) : page.writeMargin.lists = page.lists := by
  unfold writeMargin
  split <;> rfl

theorem lists_writeClosing (page : Page) (bracket : Bracket) :
    (page.writeClosing bracket).lists = page.lists := by
  cases bracket with
  | list => rfl
  | paren => exact lists_writeMargin page

/-- A bracket that opens is flat, or the line is broken behind it and it shows what it is. -/
theorem offer_opener (page : Page) (config : Config) (broken : Bool) (bracket : Bracket) :
    ∃ shape block, (page.offer config broken (.opener bracket)).text = page.text ++ block ∧
      (page.offer config broken (.opener bracket)).lists = .inside bracket shape :: page.lists ∧
      (Token.mark (.opener bracket)).Leaves block ∧ (block ≠ "" ↔ shape = .broken) := by
  cases broken with
  | false =>
    refine ⟨.flat, "", by simp [offer, pass, enter, advance], rfl, ?_, by simp⟩
    cases bracket <;> exact Or.inl rfl
  | true =>
    cases bracket with
    | list => exact ⟨.broken, "\n", rfl, rfl, Or.inr rfl, by simp⟩
    | paren =>
      obtain ⟨count, margin⟩ := text_writeMargin page
      refine ⟨.broken, Text.blank count ++ "(\n", ?_, ?_, Or.inr ⟨count, rfl⟩, by simp⟩
      · simp [offer, breakLine, enter, moveIn, startLine, write, advance, margin,
          String.append_assoc]
      · simp [offer, breakLine, enter, moveIn, startLine, write, advance, lists_writeMargin]

theorem closeList_ok {bracket : Bracket} (closed : page.closeList bracket = .ok next) :
    ∃ shape block, next.text = page.text ++ block ∧
      page.lists = .inside bracket shape :: next.lists ∧
      (Token.mark (.closer bracket)).Leaves block ∧
      (bracket = .paren → (block ≠ "" ↔ shape = .broken)) := by
  unfold closeList at closed
  split at closed
  · rename_i opened shape rest lists
    split at closed
    · rename_i same
      subst same
      cases shape with
      | flat =>
        cases closed
        refine ⟨.flat, "", by simp [advance], lists, ?_, by simp⟩
        cases opened
        · rfl
        · exact Or.inl rfl
      | broken =>
        obtain ⟨text, below⟩ := text_takeBackMargin closed
        cases opened with
        | list =>
          exact ⟨.broken, "", by simpa [writeClosing] using text, by rw [lists, below]; rfl, rfl,
            fun list => by cases list⟩
        | paren =>
          obtain ⟨count, margin⟩ := text_writeMargin { page with lists := rest }
          refine ⟨.broken, Text.blank count ++ ")", ?_, ?_, Or.inr ⟨count, rfl⟩, by simp⟩
          · rw [text, ← String.append_assoc, ← margin]
            rfl
          · rw [lists, below, writeClosing]
            exact congrArg _ (lists_writeMargin { page with lists := rest }).symm
    · cases closed
  · cases closed

theorem place_plain (unopened : token.opens? = none) (unclosed : token.closes? = none)
    (placed : page.place config broken token = .ok next) :
    next.lists = page.lists ∧ ∃ block, next.text = page.text ++ block ∧ token.Leaves block := by
  rcases token with run | mark
  · cases placed
    obtain ⟨count, margin⟩ := text_writeMargin page
    refine ⟨lists_writeMargin page, Text.blank count ++ run.text, ?_, count, rfl⟩
    rw [← String.append_assoc, ← margin]
    rfl
  cases mark with
  | hardBreak => cases placed; exact ⟨rfl, "\n", rfl, rfl⟩
  | softBreak =>
    cases placed
    cases broken
    · exact ⟨rfl, "", by simp [offer, pass, advance], Or.inl rfl⟩
    · exact ⟨rfl, "\n", rfl, Or.inr rfl⟩
  | separator =>
    cases placed
    cases broken
    · exact ⟨rfl, "", by simp [offer, pass, advance], Or.inl rfl⟩
    · exact ⟨rfl, "\n", rfl, Or.inr rfl⟩
  | indent => cases placed; exact ⟨rfl, "\n", rfl, rfl⟩
  | dedent =>
    rw [place, dedent] at placed
    split at placed
    · obtain ⟨text, lists⟩ := text_takeBackMargin placed
      exact ⟨lists, "\n", text, rfl⟩
    · cases placed
  | opener bracket => cases unopened
  | closer bracket => cases unclosed

theorem place_opens {bracket : Bracket} (opened : token.opens? = some bracket)
    (placed : page.place config broken token = .ok next) :
    ∃ shape block, next.text = page.text ++ block ∧
      next.lists = .inside bracket shape :: page.lists ∧ token.Leaves block ∧
      (block ≠ "" ↔ shape = .broken) := by
  obtain rfl := Token.eq_of_opens? opened
  cases placed
  exact offer_opener page config broken bracket

theorem place_closes {bracket : Bracket} (closed : token.closes? = some bracket)
    (placed : page.place config broken token = .ok next) :
    ∃ shape block, next.text = page.text ++ block ∧
      page.lists = .inside bracket shape :: next.lists ∧ token.Leaves block ∧
      (bracket = .paren → (block ≠ "" ↔ shape = .broken)) := by
  obtain rfl := Token.eq_of_closes? closed
  exact closeList_ok placed

theorem place_leaves (placed : page.place config broken token = .ok next) :
    ∃ block, next.text = page.text ++ block ∧ token.Leaves block := by
  cases opened : token.opens? with
  | some bracket =>
    obtain ⟨_, block, text, _, leaves, _⟩ := place_opens opened placed
    exact ⟨block, text, leaves⟩
  | none =>
    cases closed : token.closes? with
    | some bracket =>
      obtain ⟨_, block, text, _, leaves, _⟩ := place_closes closed placed
      exact ⟨block, text, leaves⟩
    | none => exact (place_plain opened closed placed).2

/-! ## The blocks of one pass -/

/-- Laying out the tokens one after the other, each in some way, leads from `page` to `next`, and
each token adds the block that stands beside it. -/
inductive Writes : Page → List (Token × String) → Page → Prop
  | nil (page : Page) : Writes page [] page
  | cons {page middle next : Page} {config : Config} {broken : Bool} {token : Token}
      {block : String} {written : List (Token × String)}
      (placed : page.place config broken token = .ok middle)
      (added : middle.text = page.text ++ block) (rest : Writes middle written next) :
      Writes page ((token, block) :: written) next

namespace Writes

variable {written first last : List (Token × String)}

theorem text_eq (writes : Writes page written next) :
    next.text = page.text ++ String.join (written.map Prod.snd) := by
  induction writes with
  | nil page => simp
  | cons _ added _ ih => rw [ih, added, List.map_cons, String.join_cons, String.append_assoc]

theorem leaves (writes : Writes page written next) : ∀ entry ∈ written, entry.1.Leaves entry.2 := by
  induction writes with
  | nil page => intro entry member; cases member
  | cons placed added _ ih =>
    intro entry member
    cases member with
    | head =>
      obtain ⟨block, text, leaves⟩ := place_leaves placed
      rw [added, String.append_right_inj] at text
      exact text ▸ leaves
    | tail _ member => exact ih entry member

theorem split (writes : Writes page (first ++ last) next) :
    ∃ middle, Writes page first middle ∧ Writes middle last next := by
  induction first generalizing page with
  | nil => exact ⟨page, .nil page, writes⟩
  | cons entry first ih =>
    cases writes with
    | cons placed added rest =>
      obtain ⟨middle, before, after⟩ := ih rest
      exact ⟨middle, .cons placed added before, after⟩

end Writes

theorem exists_writes {settings : Nat → Config} {breaks : List Nat} {tokens : List Token}
    (laid : layFrom settings breaks page tokens = .ok next) :
    ∃ written, written.map Prod.fst = tokens ∧ Writes page written next := by
  induction tokens generalizing page with
  | nil =>
    cases laid
    exact ⟨[], rfl, .nil _⟩
  | cons token tokens ih =>
    rw [layFrom_cons] at laid
    cases placed : page.place (settings page.cursor) (decide (page.cursor ∈ breaks)) token with
    | error _ => rw [placed] at laid; cases laid
    | ok middle =>
      rw [placed] at laid
      obtain ⟨written, tokens_eq, writes⟩ := ih laid
      obtain ⟨block, added, _⟩ := place_leaves placed
      exact ⟨(token, block) :: written, by rw [List.map_cons, tokens_eq], .cons placed added writes⟩

/-! ## Brackets among the blocks -/

/-- A balanced piece closes what it opens. -/
theorem Writes.lists_eq_of_balanced {written : List (Token × String)} {tokens : List Token}
    (balanced : Balanced Token.opens? Token.closes? tokens) (writes : Writes page written next)
    (read : written.map Prod.fst = tokens) : next.lists = page.lists := by
  induction balanced generalizing page next written with
  | nil =>
    rw [List.map_eq_nil_iff] at read
    subst read
    cases writes
    rfl
  | plain unopened unclosed _ ih =>
    cases writes with
    | nil => cases read
    | cons placed _ rest =>
      obtain ⟨rfl, readRest⟩ := List.cons.inj read
      rw [ih rest readRest, (place_plain unopened unclosed placed).1]
  | pair opened closed _ _ ihInner ihRest =>
    cases writes with
    | nil => cases read
    | cons placed _ after =>
      obtain ⟨rfl, readAfter⟩ := List.cons.inj read
      obtain ⟨inner, others, rfl, readInner, readOthers⟩ := List.map_eq_append_iff.1 readAfter
      obtain ⟨middle, inside, outside⟩ := after.split
      cases outside with
      | nil => cases readOthers
      | cons placed' _ rest =>
        obtain ⟨rfl, readRest⟩ := List.cons.inj readOthers
        obtain ⟨shape, _, _, entered, _⟩ := place_opens opened placed
        obtain ⟨shape', _, _, left, _⟩ := place_closes closed placed'
        rw [ihInner inside readInner, entered] at left
        rw [ihRest rest readRest]
        exact (List.cons.inj left).2.symm

/-- The opener of a bracket that is open stands in front of a balanced piece. -/
theorem Writes.exists_opener {start : Page} (empty : start.lists = [])
    {written : List (Token × String)} (writes : Writes start written page) {bracket : Bracket}
    {shape : Shape} {rest : List ListState} (top : page.lists = .inside bracket shape :: rest) :
    ∃ before left inner middle, written = before ++ (.mark (.opener bracket), left) :: inner ∧
      Balanced Token.opens? Token.closes? (inner.map Prod.fst) ∧
      Writes start before middle ∧ middle.lists = rest := by
  induction length : written.length using Nat.strongRecOn generalizing written page bracket shape
    rest with
  | ind count ih =>
    rcases List.eq_nil_or_concat written with rfl | ⟨init, ⟨token, block⟩, rfl⟩
    · cases writes
      rw [empty] at top
      cases top
    rw [List.concat_eq_append] at writes length ⊢
    have shorter : init.length < count := by
      rw [← length, List.length_append]
      exact Nat.lt_succ_self _
    obtain ⟨middle, before, last⟩ := writes.split
    cases last with
    | cons placed added done =>
      cases done
      cases opened : token.opens? with
      | some opening =>
        obtain ⟨shape', _, _, entered, _⟩ := place_opens opened placed
        rw [entered, List.cons.injEq, ListState.inside.injEq] at top
        obtain ⟨⟨rfl, -⟩, below⟩ := top
        obtain rfl := Token.eq_of_opens? opened
        exact ⟨init, block, [], middle, rfl, .nil, before, below⟩
      | none =>
        cases closed : token.closes? with
        | some closing =>
          -- the bracket that closes here opened behind the one that is looked for
          obtain ⟨shape', _, _, left, _⟩ := place_closes closed placed
          obtain ⟨before', block', inner', middle', rfl, balanced', writes', below⟩ :=
            ih init.length shorter before left rfl
          have shorter' : before'.length < count := by
            rw [List.length_append] at shorter
            omega
          obtain ⟨before'', block'', inner, middle'', rfl, balanced, writes'', below'⟩ :=
            ih before'.length shorter' writes' (below.trans top) rfl
          refine ⟨before'', block'',
            inner ++ (.mark (.opener closing), block') :: (inner' ++ [(token, block)]), middle'',
            by simp, ?_, writes'', below'⟩
          rw [List.map_append, List.map_cons, List.map_append]
          exact balanced.append (.pair rfl closed balanced' .nil)
        | none =>
          rw [(place_plain opened closed placed).1] at top
          obtain ⟨before', block', inner, middle', rfl, balanced, writes', below⟩ :=
            ih init.length shorter before top rfl
          refine ⟨before', block', inner ++ [(token, block)], middle', by simp, ?_, writes', below⟩
          rw [List.map_append]
          exact balanced.append (.plain opened closed .nil)

/-- A soft parenthesis shows where it closes exactly if it shows where it opens. -/
theorem Writes.paren_iff {before inner after : List (Token × String)} {left right : String}
    (writes : Writes page
      (before ++ (.mark (.opener .paren), left) ::
        (inner ++ (.mark (.closer .paren), right) :: after)) next)
    (balanced : Balanced Token.opens? Token.closes? (inner.map Prod.fst)) :
    right ≠ "" ↔ left ≠ "" := by
  obtain ⟨atLeft, _, fromLeft⟩ := writes.split
  cases fromLeft with
  | cons placedLeft addedLeft rest =>
    obtain ⟨atRight, inside, fromRight⟩ := rest.split
    cases fromRight with
    | cons placedRight addedRight _ =>
      obtain ⟨shape, block, text, entered, -, shows⟩ := place_opens rfl placedLeft
      obtain ⟨shape', block', text', closed, -, shows'⟩ := place_closes rfl placedRight
      rw [addedLeft, String.append_right_inj] at text
      rw [addedRight, String.append_right_inj] at text'
      rw [inside.lists_eq_of_balanced balanced rfl, entered] at closed
      obtain ⟨same, -⟩ := List.cons.inj closed
      obtain ⟨-, rfl⟩ := ListState.inside.inj same
      rw [text, text', shows, shows' rfl]

end Page

namespace Engine

variable {stream : List Token} {engine : Engine}

/-- The output of an engine without a fault is one block for each token in front of the cursor, in
order. Each closing of a soft parenthesis has its opening in front of it, and shows exactly if that
one shows. -/
theorem text_eq_join_blocks (reachable : Reachable stream engine)
    (sane : engine.fault? = none) :
    ∃ written : List (Token × String),
      written.map Prod.fst = stream.take engine.layout.cursor ∧
      engine.text = String.join (written.map Prod.snd) ∧
      (∀ entry ∈ written, entry.1.Leaves entry.2) ∧
      (∀ before right after, written = before ++ (.mark (.closer .paren), right) :: after →
        ∃ outer left inner, before = outer ++ (.mark (.opener .paren), left) :: inner ∧
          Balanced Token.opens? Token.closes? (inner.map Prod.fst)) ∧
      ∀ outer left inner right after,
        written = outer ++ (.mark (.opener .paren), left) ::
          (inner ++ (.mark (.closer .paren), right) :: after) →
        Balanced Token.opens? Token.closes? (inner.map Prod.fst) → (right ≠ "" ↔ left ≠ "") := by
  obtain ⟨settings, -, laid⟩ := (reachable.reached sane).straight.laid
  obtain ⟨written, read, writes⟩ := Page.exists_writes laid
  refine ⟨written, read, ?_, writes.leaves, ?_, ?_⟩
  · exact writes.text_eq.trans (by simp)
  · rintro before right after rfl
    obtain ⟨middle, front, back⟩ := writes.split
    cases back with
    | cons placed _ _ =>
      obtain ⟨shape, _, _, top, _⟩ := Page.place_closes rfl placed
      obtain ⟨outer, left, inner, _, split, balanced, _⟩ := front.exists_opener rfl top
      exact ⟨outer, left, inner, split, balanced⟩
  · rintro outer left inner right after rfl balanced
    exact writes.paren_iff balanced

/-- A soft parenthesis that is broken over lines, by settings that come when it is open already. -/
theorem text_eq_join_blocks_resized :
    let stream : List Token :=
      [.plain "f", .mark (.opener .paren), .plain "ab", .mark .separator, .plain "cd",
        .mark (.closer .paren), .plain ";"]
    let engine := ((Engine.run { config := ⟨9, 1⟩ } (stream.take 3).toArray).setConfig ⟨4, 1⟩).run
      stream.toArray
    Reachable stream engine ∧ engine.fault? = none ∧ engine.text = "f(\n  ab\n  cd);" ∧
      ∃ written : List (Token × String), written.map Prod.fst = stream ∧
        engine.text = String.join (written.map Prod.snd) ∧
        ∀ entry ∈ written, entry.1.Leaves entry.2 := by
  intro stream engine
  have reachable : Reachable stream engine :=
    .run (.setConfig ⟨4, 1⟩ (.run (.create ⟨9, 1⟩) (List.take_prefix 3 stream)))
      (List.prefix_refl _)
  have sane : engine.fault? = none := by decide +kernel
  have all : engine.layout.cursor = 7 := by decide +kernel
  obtain ⟨written, read, text, leaves, -⟩ := text_eq_join_blocks reachable sane
  rw [all] at read
  exact ⟨reachable, sane, by decide +kernel, written, read, text, leaves⟩

end Engine

end LineLayout
