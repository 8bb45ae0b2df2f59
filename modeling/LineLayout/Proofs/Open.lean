import LineLayout.Proofs.Blocks
import LineLayout.Proofs.Forced
import LineLayout.Proofs.Width

/-!
# Open brackets

The brackets that are open in a layout are those that the tokens read so far have left open,
whatever the layout went through. A bracket is broken exactly if the line was broken at the token
that opened it (`Page.lists_of_lay`), and how many brackets are open is known from the tokens alone
(`Straight.depth_eq`). So is the priority of a pending candidate (`Straight.priority_of_mem`).
-/

namespace LineLayout

/-- The brackets that a word leaves open, the innermost first, each with the number of the token
that opened it. -/
def openBrackets (tokens : List Token) : List (Nat × Bracket) :=
  unclosed Token.opens? Token.closes? tokens

/-- The shape of a bracket opened by the token `index`, if the line is broken at `breaks`. -/
def shapeIn (breaks : List Nat) (index : Nat) : Shape :=
  if index ∈ breaks then .broken else .flat

theorem shapeIn_eq_broken_iff {breaks : List Nat} {index : Nat} :
    shapeIn breaks index = .broken ↔ index ∈ breaks := by
  unfold shapeIn
  split <;> simp [*]

theorem shapeIn_eq_flat_iff {breaks : List Nat} {index : Nat} :
    shapeIn breaks index = .flat ↔ index ∉ breaks := by
  unfold shapeIn
  split <;> simp [*]

/-- The state of an open bracket. -/
def openState (breaks : List Nat) (entry : Nat × Bracket) : ListState :=
  .inside entry.2 (shapeIn breaks entry.1)

theorem openState_top {breaks : List Nat} {pairs : List (Nat × Bracket)} {bracket : Bracket}
    {shape : Shape} {rest : List ListState}
    (top : pairs.map (openState breaks) = .inside bracket shape :: rest) :
    ∃ index outer, pairs = (index, bracket) :: outer ∧ shapeIn breaks index = shape ∧
      outer.map (openState breaks) = rest := by
  obtain ⟨entry, outer, split, same, below⟩ := List.map_eq_cons_iff.1 top
  obtain ⟨rfl, shaped⟩ := ListState.inside.inj same
  exact ⟨entry.1, outer, split, shaped, below⟩

/-- A bracket that is open was opened by a token in front, with fewer brackets around it. -/
theorem of_mem_openBrackets_take {tokens : List Token} {position : Nat} {entry : Nat × Bracket}
    (member : entry ∈ openBrackets (tokens.take position)) :
    entry.1 < position ∧ tokens[entry.1]? = some (.mark (.opener entry.2)) ∧
      (openBrackets (tokens.take entry.1)).length <
        (openBrackets (tokens.take position)).length := by
  obtain ⟨inner, outer, split⟩ := List.append_of_mem member
  obtain ⟨below, rfl, token, read, opened⟩ := unclosed_take_split split
  refine ⟨below, ?_, ?_⟩
  · rw [read, Token.eq_of_opens? opened]
  · rw [split, List.length_append, List.length_cons, openBrackets]
    omega

theorem of_mem_openBrackets_take_succ {tokens : List Token} {position : Nat} {token : Token}
    {entry : Nat × Bracket} (read : tokens[position]? = some token)
    (member : entry ∈ openBrackets (tokens.take (position + 1))) :
    (entry.1 = position ∧ token = .mark (.opener entry.2)) ∨
      entry ∈ openBrackets (tokens.take position) := by
  obtain ⟨inner, outer, split⟩ := List.append_of_mem member
  rw [openBrackets, unclosed_take_succ read] at split
  rcases nestBy_split split with ⟨here, opened, -⟩ | ⟨front, before⟩
  · exact Or.inl ⟨here, Token.eq_of_opens? opened⟩
  · refine Or.inr ?_
    rw [openBrackets, before]
    exact List.mem_append_right front List.mem_cons_self

/-! ## Open brackets on the page -/

namespace Page

variable {settings : Nat → Config} {breaks : List Nat} {page next : Page} {config : Config}
  {tokens : List Token} {token : Token}

theorem lists_offer_opener (page : Page) (config : Config) (broken : Bool) (bracket : Bracket) :
    (page.offer config broken (.opener bracket)).lists =
      .inside bracket (if broken then .broken else .flat) :: page.lists := by
  cases broken with
  | false => rfl
  | true =>
    cases bracket with
    | list => rfl
    | paren => exact congrArg (ListState.inside .paren .broken :: ·) (lists_writeMargin page)

theorem lists_place {pairs : List (Nat × Bracket)} {index : Nat}
    (before : page.lists = pairs.map (openState breaks))
    (placed : page.place config (decide (index ∈ breaks)) token = .ok next) :
    next.lists = (nestBy Token.opens? Token.closes? index token pairs).map (openState breaks) := by
  unfold nestBy
  cases opened : token.opens? with
  | some bracket =>
    obtain rfl := Token.eq_of_opens? opened
    cases placed
    rw [lists_offer_opener, before]
    simp [openState, shapeIn]
  | none =>
    cases closed : token.closes? with
    | some bracket =>
      obtain ⟨shape, block, -, top, -⟩ := place_closes closed placed
      have below : next.lists = page.lists.tail := by rw [top, List.tail_cons]
      simp [below, before]
    | none =>
      rw [(place_plain opened closed placed).1, before]
      rfl

/-- On a page that is laid out, the open brackets are those that the tokens left open, and those at
which the line is broken are broken. -/
theorem lists_of_lay (laid : lay settings breaks tokens = .ok page) :
    page.lists = (openBrackets tokens).map (openState breaks) := by
  refine (lay_induction (fun tokens page =>
    page.lists = (openBrackets tokens).map (openState breaks)) rfl ?_ laid).2
  intro tokens page next token holds _ placed
  rw [openBrackets, unclosed_concat]
  exact lists_place holds placed

end Page

/-! ## How many brackets are open -/

/-- Each open bracket counts itself and those around it. -/
def ListFrame.Counted : List ListFrame → Prop
  | [] => True
  | frame :: outer => frame.depth = outer.length + 1 ∧ Counted outer

theorem OpenLists.depth_eq_length {lists : OpenLists} (counted : ListFrame.Counted lists.toList) :
    lists.depth = lists.toList.length := by
  rw [OpenLists.depth, Trail.peek?_eq_head?]
  cases frames : lists.toList with
  | nil => rfl
  | cons frame outer =>
    rw [frames] at counted
    exact counted.1

theorem OpenLists.counted_enter {lists : OpenLists} (sound : Trail.Sound lists)
    (counted : ListFrame.Counted lists.toList) (state : ListState) :
    ListFrame.Counted (lists.enter state).toList := by
  rw [OpenLists.enter, Trail.toList_push sound]
  exact ⟨congrArg (· + 1) (depth_eq_length counted), counted⟩

theorem OpenLists.toList_of_leave? {lists rest : OpenLists} {state : ListState}
    (sound : Trail.Sound lists) (left : lists.leave? = some (state, rest)) :
    ∃ depth, lists.toList = ⟨state, depth⟩ :: rest.toList := by
  obtain ⟨depth, popped⟩ := pop?_of_leave? left
  exact ⟨depth, Trail.toList_of_pop? sound popped⟩

namespace Layout

variable {tokens : List Token} {usable : Config → Prop} {l next : Layout} {config : Config}
  {token : Token}

theorem Forward.lists (forward : Forward l config token next) :
    next.lists = l.lists ∨ (∃ bracket, next.lists = l.lists.enter (.inside bracket .flat)) ∨
      ∃ state, l.lists.leave? = some (state, next.lists) := by
  cases forward with
  | text _ => exact Or.inl (by simp [putText, advance, writeMargin_eq])
  | hardBreak _ => exact Or.inl (by simp [advance, commitLine_eq])
  | indent _ => exact Or.inl (by simp [advance, moveIn, saveMargin, commitLine_eq])
  | dedent _ _ => exact Or.inl (by simp [advance, commitLine_eq])
  | offer kind _ =>
    cases kind with
    | soft | separator => exact Or.inl rfl
    | opener bracket => exact Or.inr (Or.inl ⟨bracket, rfl⟩)
  | closeFlat left => exact Or.inr (Or.inr ⟨_, left⟩)
  | @closeBroken bracket rest _ _ left _ =>
    refine Or.inr (Or.inr ⟨.inside bracket .broken, left.trans ?_⟩)
    simp [advance, lists_writeClosing]

theorem lists_breakLine (l : Layout) (config : Config) (kind : BreakKind) :
    (l.breakLine config kind).lists = l.lists ∨
      ∃ bracket, (l.breakLine config kind).lists = l.lists.enter (.inside bracket .broken) := by
  cases kind with
  | soft | separator => exact Or.inl (by simp [breakLine, continueBy, startLine_eq])
  | opener bracket =>
    refine Or.inr ⟨bracket, ?_⟩
    cases bracket <;>
      simp [breakLine, wrapList, moveIn, saveMargin, startLine_eq, ListState.wrapped,
        writeOpening_eq, writeMargin_eq]

theorem Straight.counted (straight : Straight tokens usable l) :
    ListFrame.Counted l.lists.toList := by
  induction straight with
  | start => simp [Trail.toList_empty, ListFrame.Counted]
  | forward straight _ _ forward ih =>
    rcases forward.lists with same | ⟨bracket, entered⟩ | ⟨state, left⟩
    · rw [same]
      exact ih
    · rw [entered]
      exact OpenLists.counted_enter straight.sound.lists ih _
    · obtain ⟨depth, frames⟩ := OpenLists.toList_of_leave? straight.sound.lists left
      rw [frames] at ih
      exact ih.2
  | @broken past config _ kind journal straight _ _ _ _ ih =>
    rcases lists_breakLine (past.resume journal) config kind with same | ⟨bracket, entered⟩
    · rw [same]
      exact ih
    · rw [entered]
      exact OpenLists.counted_enter straight.sound.lists ih _

theorem Straight.lists_eq (straight : Straight tokens usable l) :
    l.lists.toList.map (·.state) =
      (openBrackets (tokens.take l.cursor)).map (openState l.fired) := by
  obtain ⟨settings, -, laid⟩ := straight.laid
  exact Page.lists_of_lay laid

theorem Straight.depth_eq (straight : Straight tokens usable l) :
    l.lists.depth = (openBrackets (tokens.take l.cursor)).length := by
  have lengths := congrArg List.length straight.lists_eq
  rw [List.length_map, List.length_map] at lengths
  rw [OpenLists.depth_eq_length straight.counted, lengths]

end Layout

/-! ## The priority of what is pending -/

/-- How many brackets a break counts as open, if `around` of them are open around it. -/
def BreakKind.depthIn : BreakKind → Nat → Nat
  | .opener _, around => around + 1
  | _, around => around

namespace Layout

variable {tokens : List Token} {usable : Config → Prop} {l : Layout} {c : Candidate}

/-- The tokens alone tell how welcome a pending candidate is. -/
theorem Straight.priority_of_mem (straight : Straight tokens usable l) (member : c ∈ l.pending) :
    ∃ token kind, tokens[c.index]? = some token ∧ token.breakKind? = some kind ∧
      c.priority = kind.priority (kind.depthIn (openBrackets (tokens.take c.index)).length) := by
  induction straight with
  | start => cases member
  | @forward l next config token straight _ read forward ih =>
    rcases forward.pending with ⟨-, -, none⟩ | ⟨kind, -, breaks, more⟩ | ⟨-, -, same⟩
    · rw [none] at member
      cases member
    · rw [more] at member
      cases member with
      | head =>
        have depth : l.breakDepth kind = kind.depthIn l.lists.depth := by cases kind <;> rfl
        refine ⟨token, kind, ?_, breaks, ?_⟩
        · rw [index_candidate, read]
        · rw [priority_candidate, depth, straight.depth_eq, index_candidate]
      | tail _ member => exact ih member
    · rw [same] at member
      exact ih member
  | broken _ _ _ _ _ _ =>
    rw [pending_breakLine] at member
    cases member

end Layout

end LineLayout
