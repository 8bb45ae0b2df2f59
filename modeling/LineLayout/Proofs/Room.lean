import LineLayout.Proofs.Flat
import Mathlib.Tactic.Ring

/-!
# Lists that fit

An element is a sequence of words with soft breaks between them, and may have a list of elements
behind it. However deep such lists are nested, their lines fit if there is room for the margin of
the innermost list and one word.

Two things make that so. Each broken list moves the margin in by one step and lets it continue by
another one at most, so that the margins on a page are like a staircase (`Page.Stepped`). And in
front of each word stands a token that offers a break (`Reader.Describes`): a word that does not fit
behind others would be put on a line of its own.
-/

namespace LineLayout

/-! ## Elements -/

/-- Words with soft breaks between them, at least one. -/
structure Words where
  first : String
  more : List String := []

/-- Words as a stream. -/
def Words.tokens (words : Words) : List Token :=
  .plain words.first :: words.more.flatMap fun word => [.mark .softBreak, .plain word]

mutual
/-- Words, and perhaps a list behind them. -/
inductive Element where
  | words (words : Words)
  | listed (words : Words) (items : Items)
/-- The elements of a list, at least one. -/
inductive Items where
  | last (item : Element)
  | more (item : Element) (rest : Items)
end

mutual
/-- An element as a stream. -/
def Element.tokens : Element → List Token
  | .words words => words.tokens
  | .listed words items =>
    words.tokens ++ .mark (.opener .list) :: (items.tokens ++ [.mark (.closer .list)])
/-- The elements of a list as a stream, with separators between them. -/
def Items.tokens : Items → List Token
  | .last item => item.tokens
  | .more item rest => item.tokens ++ .mark .separator :: rest.tokens
end

mutual
/-- How deep lists are nested. -/
def Element.depth : Element → Nat
  | .words _ => 0
  | .listed _ items => items.depth + 1
/-- How deep lists are nested inside of the items. -/
def Items.depth : Items → Nat
  | .last item => item.depth
  | .more item rest => max item.depth rest.depth
end

theorem Words.balanced (words : Words) :
    Balanced Token.opensPair? Token.closesPair? words.tokens := by
  refine .plain rfl rfl ?_
  induction words.more with
  | nil => exact .nil
  | cons word more ih => exact .plain rfl rfl (.plain rfl rfl ih)

mutual
theorem Element.balanced (element : Element) :
    Balanced Token.opensPair? Token.closesPair? element.tokens := by
  cases element with
  | words words =>
    rw [Element.tokens]
    exact words.balanced
  | listed words items =>
    rw [Element.tokens]
    exact words.balanced.append (.pair rfl rfl items.balanced .nil)
theorem Items.balanced (items : Items) :
    Balanced Token.opensPair? Token.closesPair? items.tokens := by
  cases items with
  | last item =>
    rw [Items.tokens]
    exact item.balanced
  | more item rest =>
    rw [Items.tokens]
    exact item.balanced.append (.plain rfl rfl rest.balanced)
end

/-! ## What stands in front of a token of an element -/

/-- How many lists are open, and whether a word may follow. -/
structure Reader where
  depth : Nat := 0
  ready : Bool := true
deriving DecidableEq

namespace Reader

/-- Reads a token of an element in which at most `most` lists are open at a time. -/
def read (most : Nat) (reader : Reader) : Token → Option Reader
  | .text run =>
    if reader.ready = true ∧ run.width = run.text.length then some ⟨reader.depth, false⟩ else none
  | .mark .softBreak => some ⟨reader.depth, true⟩
  | .mark .separator => some ⟨reader.depth, true⟩
  | .mark (.opener .list) => if reader.depth < most then some ⟨reader.depth + 1, true⟩ else none
  | .mark (.closer .list) => some ⟨reader.depth - 1, false⟩
  | .mark _ => none

/-- Reads tokens one after the other. -/
def readAll (most : Nat) (reader : Reader) (tokens : List Token) : Option Reader :=
  tokens.foldlM (read most) reader

variable {most : Nat} {reader next : Reader} {tokens front : List Token} {token : Token}

theorem readAll_append (first last : List Token) :
    readAll most reader (first ++ last) =
      (readAll most reader first).bind fun next => readAll most next last :=
  List.foldlM_append

theorem readAll_words (depth : Nat) (words : Words) :
    readAll most ⟨depth, true⟩ words.tokens = some ⟨depth, false⟩ := by
  have start : read most ⟨depth, true⟩ (.plain words.first) = some ⟨depth, false⟩ := by
    simp [read, Token.plain, TextRun.plain]
  rw [Words.tokens, readAll, List.foldlM_cons, start]
  show readAll most ⟨depth, false⟩ _ = _
  induction words.more with
  | nil => rfl
  | cons word more ih =>
    rw [List.flatMap_cons, readAll_append]
    simpa [readAll, read, Token.plain, TextRun.plain] using ih

mutual
/-- The tokens of an element can be read if there is room for its lists, and they close them. -/
theorem readAll_element (depth : Nat) (element : Element) (room : depth + element.depth ≤ most) :
    readAll most ⟨depth, true⟩ element.tokens = some ⟨depth, false⟩ := by
  cases element with
  | words words =>
    rw [Element.tokens]
    exact readAll_words depth words
  | listed words items =>
    rw [Element.depth] at room
    have inside := readAll_items (depth + 1) items (by omega)
    have opened : read most ⟨depth, false⟩ (.mark (.opener .list)) = some ⟨depth + 1, true⟩ :=
      if_pos (by show depth < most; omega)
    rw [Element.tokens, readAll_append, readAll_words]
    show readAll most ⟨depth, false⟩ (_ :: _) = _
    rw [readAll, List.foldlM_cons, opened]
    show readAll most ⟨depth + 1, true⟩ _ = _
    rw [readAll_append, inside]
    rfl
theorem readAll_items (depth : Nat) (items : Items) (room : depth + items.depth ≤ most) :
    readAll most ⟨depth, true⟩ items.tokens = some ⟨depth, false⟩ := by
  cases items with
  | last item =>
    rw [Items.tokens]
    rw [Items.depth] at room
    exact readAll_element depth item room
  | more item rest =>
    rw [Items.depth] at room
    rw [Items.tokens, readAll_append, readAll_element depth item (by omega)]
    exact readAll_items depth rest (by omega)
end

/-- What can be read: a word where it may follow, a break, and the two ends of a list. -/
theorem read_cases (taken : reader.read most token = some next) :
    (∃ run, token = .text run ∧ reader.ready = true ∧ run.width = run.text.length ∧
      next = ⟨reader.depth, false⟩) ∨
    ((token = .mark .softBreak ∨ token = .mark .separator) ∧ next = ⟨reader.depth, true⟩) ∨
    (token = .mark (.opener .list) ∧ reader.depth < most ∧ next = ⟨reader.depth + 1, true⟩) ∨
    (token = .mark (.closer .list) ∧ next = ⟨reader.depth - 1, false⟩) := by
  unfold read at taken
  split at taken
  · split at taken <;> cases taken
    rename_i run may
    exact Or.inl ⟨run, rfl, may.1, may.2, rfl⟩
  · cases taken
    exact Or.inr (Or.inl ⟨Or.inl rfl, rfl⟩)
  · cases taken
    exact Or.inr (Or.inl ⟨Or.inr rfl, rfl⟩)
  · split at taken <;> cases taken
    rename_i less
    exact Or.inr (Or.inr (Or.inl ⟨rfl, less, rfl⟩))
  · cases taken
    exact Or.inr (Or.inr (Or.inr ⟨rfl, rfl⟩))
  · cases taken

theorem of_read_text {run : TextRun} (taken : reader.read most (.text run) = some next) :
    reader.ready = true ∧ run.width = run.text.length := by
  rcases read_cases taken with ⟨other, same, ready, plain, -⟩ | ⟨here | here, -⟩ | ⟨here, -⟩ |
    ⟨here, -⟩
  · cases same
    exact ⟨ready, plain⟩
  all_goals cases here

/-- The reader has counted the open lists, and a word may follow at the start and behind a token
that offers a break. -/
structure Describes (most : Nat) (front : List Token) (reader : Reader) : Prop where
  depth : (openBrackets front).length = reader.depth
  depth_le : reader.depth ≤ most
  ready : reader.ready = true → ∀ index, front.length = index + 1 → Offers front index

theorem Describes.read (describes : Describes most front reader)
    (taken : reader.read most token = some next) : Describes most (front ++ [token]) next := by
  obtain ⟨depth, depth_le, -⟩ := describes
  have here (kind : BreakKind) (breaks : token.breakKind? = some kind) (index : Nat)
      (length : (front ++ [token]).length = index + 1) : Offers (front ++ [token]) index := by
    rw [List.length_append, List.length_singleton, Nat.succ_inj] at length
    exact ⟨token, kind, by simp [← length], breaks⟩
  have brackets : openBrackets (front ++ [token]) =
      nestBy Token.opens? Token.closes? front.length token (openBrackets front) :=
    unclosed_concat front token
  rcases read_cases taken with ⟨run, rfl, -, -, rfl⟩ | ⟨soft, rfl⟩ | ⟨rfl, less, rfl⟩ | ⟨rfl, rfl⟩
  · exact ⟨by rw [brackets]; exact depth, depth_le, by simp⟩
  · rcases soft with rfl | rfl
    · exact ⟨by rw [brackets]; exact depth, depth_le, fun _ => here .soft rfl⟩
    · exact ⟨by rw [brackets]; exact depth, depth_le, fun _ => here .separator rfl⟩
  · refine ⟨?_, less, fun _ => here (.opener .list) rfl⟩
    rw [brackets]
    exact congrArg (· + 1) depth
  · refine ⟨?_, (Nat.sub_le _ _).trans depth_le, by simp⟩
    rw [brackets]
    show (openBrackets front).tail.length = reader.depth - 1
    rw [List.length_tail, depth]

theorem describes_of_readAll (taken : readAll most {} front = some reader) :
    Describes most front reader := by
  induction front using List.reverseRecOn generalizing reader with
  | nil =>
    cases taken
    exact ⟨rfl, Nat.zero_le most, fun _ index length => by cases length⟩
  | append_singleton front token ih =>
    rw [readAll_append, Option.bind_eq_some_iff] at taken
    obtain ⟨before, readFront, readToken⟩ := taken
    have last : before.read most token = some reader := by simpa [readAll] using readToken
    exact (ih readFront).read last

theorem exists_of_readAll (taken : readAll most {} tokens = some reader) {index : Nat}
    (read : tokens[index]? = some token) :
    ∃ before next, Describes most (tokens.take index) before ∧
      before.read most token = some next := by
  rw [← take_append_cons_drop read, readAll_append, Option.bind_eq_some_iff] at taken
  obtain ⟨before, readFront, rest⟩ := taken
  rw [readAll, List.foldlM_cons] at rest
  obtain ⟨next, readToken, -⟩ := Option.bind_eq_some_iff.1 rest
  exact ⟨before, next, describes_of_readAll readFront, readToken⟩

end Reader

/-! ## Margins -/

namespace Page

variable {settings : Nat → Config} {breaks : List Nat} {page next : Page} {config : Config}
  {broken : Bool} {tokens : List Token} {token : Token} {step soft : Nat}

/-- The margins, the latest first, are moved in by one step at most for each that was saved before,
and continue by one more `soft` at most. -/
def Stepped (step soft : Nat) : List Margin → Prop
  | [] => True
  | margin :: saved => margin.indent ≤ step * saved.length ∧
      margin.continuation ≤ soft * (saved.length + 1) ∧ Stepped step soft saved

theorem Stepped.place (stepped : Stepped step soft (page.margin :: page.saved))
    (unit_le : config.indentUnit ≤ step) (wrap_le : config.wrapIndent ≤ step)
    (soft_le : token = .mark .softBreak → config.wrapIndent ≤ soft)
    (placed : page.place config broken token = .ok next) :
    Stepped step soft (next.margin :: next.saved) := by
  obtain ⟨indent, continuation, outer⟩ := stepped
  rcases margins_place placed with ⟨margin, saved⟩ | ⟨extra, less, margin, saved⟩ |
    ⟨columns, less, margin, saved⟩ | taken
  · rw [margin, saved]
    exact ⟨indent, continuation, outer⟩
  · rw [margin, saved]
    refine ⟨indent, ?_, outer⟩
    have extra_le : extra ≤ soft := by
      rcases less with rfl | ⟨here, rfl⟩
      · exact Nat.zero_le soft
      · exact soft_le here
    have below : (page.saved.headD {}).continuation ≤ soft * page.saved.length := by
      cases top : page.saved with
      | nil => exact Nat.zero_le _
      | cons margin saved =>
        rw [top] at outer
        exact outer.2.1
    rw [Nat.mul_succ]
    exact Nat.add_le_add below extra_le
  · rw [margin, saved]
    have columns_le : columns ≤ step := by
      rcases less with rfl | rfl
      · exact unit_le
      · exact wrap_le
    refine ⟨?_, ?_, indent, continuation, outer⟩
    · rw [List.length_cons, Nat.mul_succ]
      exact Nat.add_le_add indent columns_le
    · exact continuation.trans (Nat.mul_le_mul_left soft (by simp))
  · rw [taken] at outer
    exact outer

theorem stepped_of_lay (step soft : Nat)
    (wrap_le : ∀ index, (settings index).indentUnit ≤ step ∧ (settings index).wrapIndent ≤ step)
    (soft_le : .mark .softBreak ∈ tokens → ∀ index, (settings index).wrapIndent ≤ soft)
    (laid : lay settings breaks tokens = .ok page) :
    Stepped step soft (page.margin :: page.saved) := by
  refine (lay_induction (fun tokens page =>
    (.mark .softBreak ∈ tokens → ∀ index, (settings index).wrapIndent ≤ soft) →
      Stepped step soft (page.margin :: page.saved)) ?_ ?_ laid).2 soft_le
  · intro _
    exact ⟨Nat.zero_le _, Nat.zero_le _, trivial⟩
  · intro tokens page next token stepped _ placed soft_le
    have before := stepped fun member => soft_le (List.mem_append_left _ member)
    refine before.place (wrap_le _).1 (wrap_le _).2 ?_ placed
    rintro rfl
    exact soft_le (by simp) _

theorem width_le_of_stepped {depth : Nat}
    (stepped : Stepped step soft (page.margin :: page.saved)) (le : page.saved.length ≤ depth) :
    page.margin.width ≤ step * depth + soft * (depth + 1) := by
  obtain ⟨indent, continuation, -⟩ := stepped
  calc page.margin.indent + page.margin.continuation
      _ ≤ step * page.saved.length + soft * (page.saved.length + 1) :=
        Nat.add_le_add indent continuation
      _ ≤ step * depth + soft * (depth + 1) :=
        Nat.add_le_add (Nat.mul_le_mul_left step le)
          (Nat.mul_le_mul_left soft (Nat.succ_le_succ le))

theorem length_saved_le (fits : nestingFault? tokens = none) (bare : .mark .indent ∉ tokens)
    (laid : lay settings breaks tokens = .ok page) :
    page.saved.length ≤ (openBrackets tokens).length := by
  obtain ⟨-, lists, fit⟩ := follows_of_lay laid
  have tally : Tallies tokens page := by
    rcases fit with ⟨position, found, -⟩ | ⟨-, tally⟩
    · rw [fits] at found
      cases found
    · exact tally
  have none : openIndents tokens = [] := by
    rw [List.eq_nil_iff_forall_not_mem]
    intro entry member
    obtain ⟨inner, outer, split⟩ := List.append_of_mem member
    obtain ⟨-, token, read, indents⟩ := unclosed_split split
    obtain rfl := Token.eq_of_indents? indents
    exact bare (List.mem_of_getElem? read)
  have broken : page.brokenCount ≤ page.lists.length := List.countP_le_length
  rw [lists, List.length_map] at broken
  rw [tally, none, List.length_nil, Nat.zero_add]
  exact broken

end Page

/-! ## Lines of a page -/

theorem Token.Leaves.cases {token : Token} {block : String} (leaves : token.Leaves block)
    (opener : token ≠ .mark (.opener .paren)) (closer : token ≠ .mark (.closer .paren)) :
    (∃ run count, token = .text run ∧ block = Text.blank count ++ run.text) ∨ block = "" ∨
      block = "\n" := by
  rcases token with run | mark
  · obtain ⟨count, rfl⟩ := leaves
    exact Or.inl ⟨run, count, rfl, rfl⟩
  cases mark with
  | hardBreak | indent | dedent => exact Or.inr (Or.inr leaves)
  | softBreak | separator => exact Or.inr leaves
  | opener bracket =>
    cases bracket with
    | list => exact Or.inr leaves
    | paren => exact absurd rfl opener
  | closer bracket =>
    cases bracket with
    | list => exact Or.inr (Or.inl leaves)
    | paren => exact absurd rfl closer

/-- Without soft parentheses, a line with something on it was the last line behind one of its
runs. -/
theorem Page.exists_of_mem_lines {settings : Nat → Config} {breaks : List Nat} {tokens : List Token}
    {page : Page} {line : List Char} {count : Nat} (plain : PlainRuns tokens)
    (opener : .mark (.opener .paren) ∉ tokens) (closer : .mark (.closer .paren) ∉ tokens)
    (laid : lay settings breaks (tokens.take count) = .ok page)
    (member : line ∈ Text.lines page.text) :
    line = [] ∨ ∃ position run behind, tokens[position]? = some (.text run) ∧
      lay settings breaks (tokens.take (position + 1)) = .ok behind ∧
      line = Text.lastLine behind.text := by
  induction count generalizing page with
  | zero =>
    rw [List.take_zero] at laid
    cases laid
    exact Or.inl (by simpa [Text.lines] using member)
  | succ index ih =>
    cases read : tokens[index]? with
    | none =>
      have short := List.getElem?_eq_none_iff.1 read
      rw [List.take_of_length_le (by omega)] at laid
      exact ih (by rwa [List.take_of_length_le short]) member
    | some token =>
      have among := List.mem_of_getElem? read
      obtain ⟨earlier, front, placed⟩ := exists_placed read laid
      obtain ⟨block, text, leaves⟩ := place_leaves placed
      rw [text] at member
      rcases leaves.cases (by rintro rfl; exact opener among) (by rintro rfl; exact closer among)
        with ⟨run, blanks, rfl, rfl⟩ | rfl | rfl
      · have whole : '\n' ∉ (Text.blank blanks ++ run.text).toList := by
          rw [String.toList_append, List.mem_append, not_or]
          exact ⟨newline_notMem_blank blanks, (plain run among).2⟩
        rcases Text.mem_lines_append whole member with before | here
        · exact ih front before
        · exact Or.inr ⟨index, run, page, read, laid, by rw [text]; exact here⟩
      · rw [String.append_empty] at member
        exact ih front member
      · rcases Text.mem_lines_newline member with before | empty
        · exact ih front before
        · exact Or.inl empty

/-! ## Room for one word -/

namespace Reader

variable {most : Nat} {reader : Reader} {tokens : List Token} {mark : Mark}

theorem mark_of_readAll (taken : readAll most {} tokens = some reader)
    (member : .mark mark ∈ tokens) :
    mark = .softBreak ∨ mark = .separator ∨ mark = .opener .list ∨ mark = .closer .list := by
  obtain ⟨index, read⟩ := List.getElem?_of_mem member
  obtain ⟨before, next, -, step⟩ := exists_of_readAll taken read
  rcases read_cases step with ⟨run, here, -⟩ | ⟨here | here, -⟩ | ⟨here, -⟩ | ⟨here, -⟩ <;>
    cases here <;> simp

theorem endsLine_of_readAll (taken : readAll most {} tokens = some reader) :
    ∀ token ∈ tokens, token.endsLine = false := by
  intro token member
  rcases token with run | mark
  · rfl
  · rcases mark_of_readAll taken member with rfl | rfl | rfl | rfl <;> rfl

theorem plainRuns_of_readAll (taken : readAll most {} tokens = some reader)
    (whole : ∀ run, .text run ∈ tokens → '\n' ∉ run.text.toList) : PlainRuns tokens := by
  intro run member
  obtain ⟨index, read⟩ := List.getElem?_of_mem member
  obtain ⟨before, next, -, step⟩ := exists_of_readAll taken read
  exact ⟨(of_read_text step).2, whole run member⟩

/-- Where a word stands on a line that offers no break in front of it, nothing stands in front of it
either. -/
theorem lineInk_eq_nil {breaks : List Nat} {position : Nat} {run : TextRun}
    (taken : readAll most {} tokens = some reader) (read : tokens[position]? = some (.text run))
    (alone : ∀ index, ¬ OffersBefore tokens breaks position index) :
    lineInk tokens breaks position = [] := by
  obtain ⟨before, next, describes, step⟩ := exists_of_readAll taken read
  cases position with
  | zero => rfl
  | succ index =>
    have within : index + 1 ≤ tokens.length := Nat.le_of_lt (List.getElem?_eq_some_iff.1 read).1
    obtain ⟨token, kind, here, breaks'⟩ :=
      describes.ready (of_read_text step).1 index (List.length_take_of_le within)
    rw [List.getElem?_take_of_lt (Nat.lt_succ_self index)] at here
    by_cases broken : index ∈ breaks
    · exact lineInk_succ_of_endsLine (Or.inl broken)
    · refine absurd ?_ (alone index)
      rw [offersBefore_succ_iff (not_endsLine here broken (Token.endsLine_eq_false breaks'))]
      exact Or.inl ⟨rfl, token, kind, here, breaks'⟩

/-- In front of a token of an element, the margin is that of the lists that are open there. -/
theorem margin_width_le {breaks : List Nat} {config : Config} {token : Token} {page : Page}
    {soft position : Nat} (taken : readAll most {} tokens = some reader)
    (fits : nestingFault? tokens = none)
    (soft_le : .mark .softBreak ∈ tokens → config.wrapIndent ≤ soft)
    (read : tokens[position]? = some token)
    (laid : Page.lay (fun _ => config) breaks (tokens.take position) = .ok page) :
    page.margin.width ≤ 2 * config.indentUnit * most + soft * (most + 1) := by
  obtain ⟨before, -, describes, -⟩ := exists_of_readAll taken read
  have fits' : nestingFault? (tokens.take position) = none := by
    rw [← List.take_append_drop position tokens, nestingFault?_append,
      Option.or_eq_none_iff] at fits
    exact fits.1
  have bare : .mark .indent ∉ tokens.take position := by
    intro member
    have other := mark_of_readAll taken (List.mem_of_mem_take member)
    simp at other
  have saved : page.saved.length ≤ most :=
    (Page.length_saved_le fits' bare laid).trans (describes.depth.trans_le describes.depth_le)
  have wrap_le : config.wrapIndent ≤ 2 * config.indentUnit :=
    (Nat.min_le_left _ _).trans (by omega)
  have stepped := Page.stepped_of_lay (2 * config.indentUnit) soft
    (fun _ => ⟨by omega, wrap_le⟩) (fun member _ => soft_le (List.mem_of_mem_take member)) laid
  exact Page.width_le_of_stepped stepped saved

end Reader

/-- Where a layout has put the words of an element, each ends within the limit, if there is room for
it behind the margin. -/
theorem Layout.Straight.column_le_of_room {tokens : List Token} {config : Config} {l : Layout}
    {most soft position : Nat} {reader : Reader} {run : TextRun} {page : Page}
    (straight : Straight tokens (· = config) l)
    (taken : Reader.readAll most {} tokens = some reader) (fits : nestingFault? tokens = none)
    (soft_le : .mark .softBreak ∈ tokens → config.wrapIndent ≤ soft)
    (room : 2 * config.indentUnit * most + soft * (most + 1) + run.width ≤ config.widthLimit)
    (below : position < l.cursor) (read : tokens[position]? = some (.text run))
    (laid : Page.lay (fun _ => config) l.fired (tokens.take (position + 1)) = .ok page) :
    page.column ≤ config.widthLimit := by
  by_contra past
  -- a word past the limit had no break in front of it, so it is the first on its line
  have alone := straight.not_offersBefore below read laid (Nat.lt_of_not_le past)
  have blank := Reader.lineInk_eq_nil taken read alone
  have within : position ≤ tokens.length := Nat.le_of_lt (List.getElem?_eq_some_iff.1 read).1
  obtain ⟨before, front, placed⟩ := Page.exists_placed read laid
  obtain ⟨_, _, line⟩ := straight.exists_line_of_lay within front
  rw [blank] at line
  have column : before.writeMargin.column = before.margin.width := by
    simp [Page.writeMargin, (line.empty rfl).2]
  have margin := Reader.margin_width_le taken fits soft_le read front
  apply past
  cases placed
  show addColumns before.writeMargin.column run.width ≤ config.widthLimit
  rw [column]
  exact (Nat.min_le_left _ _).trans (by omega)

/-! ## Elements fit -/

namespace Element

variable {config : Config} {element : Element}

theorem nestingFault?_tokens (element : Element) : nestingFault? element.tokens = none := by
  have balanced := element.balanced
  rw [← List.append_nil element.tokens] at balanced
  exact nestingFault?_of_innermost (balanced.closesInnermost apart_pairs)

theorem fault?_run (config : Config) (element : Element) :
    (Engine.run { config := config } element.tokens.toArray).fault? = none :=
  Engine.fault?_run_of_fits element.nestingFault?_tokens config

theorem exists_readAll (element : Element) :
    ∃ reader, Reader.readAll element.depth {} element.tokens = some reader :=
  ⟨_, Reader.readAll_element 0 element (Nat.le_of_eq (Nat.zero_add _))⟩

/-- Where columns are counted beyond the limit, each line ends with a word that fits. -/
theorem length_le_of_room {soft : Nat} {line : List Char} (plain : PlainRuns element.tokens)
    (soft_le : .mark .softBreak ∈ element.tokens → config.wrapIndent ≤ soft)
    (room : ∀ run, .text run ∈ element.tokens → 2 * config.indentUnit * element.depth +
      soft * (element.depth + 1) + run.width ≤ config.widthLimit)
    (counted : config.widthLimit < maxColumns)
    (member : line ∈ Text.lines (Engine.run { config := config } element.tokens.toArray).text) :
    line.length ≤ config.widthLimit := by
  obtain ⟨reader, taken⟩ := element.exists_readAll
  obtain ⟨straight, cursor⟩ := Engine.straight_run (fault?_run config element)
  have bare (bracket : Mark) (paren : bracket = .opener .paren ∨ bracket = .closer .paren) :
      .mark bracket ∉ element.tokens := by
    intro member
    have other := Reader.mark_of_readAll taken member
    rcases paren with rfl | rfl <;> simp at other
  have laid := straight.laid_of_config
  rcases Page.exists_of_mem_lines plain (bare _ (Or.inl rfl)) (bare _ (Or.inr rfl)) laid member
    with rfl | ⟨position, run, page, read, behind, rfl⟩
  · exact Nat.zero_le _
  · have within := (List.getElem?_eq_some_iff.1 read).1
    have column := straight.column_le_of_room taken element.nestingFault?_tokens soft_le
      (room run (List.mem_of_getElem? read)) (by rw [cursor]; exact within) read behind
    obtain ⟨_, _, lined⟩ := straight.exists_line_of_lay within behind
    rw [lined.length_lastLine plain]
    rcases lined.counted with same | most
    · rw [← same]
      exact column
    · omega

/-- Where no column is counted beyond the limit, nothing is broken: the one line fits if its columns
can be counted. -/
theorem length_le_of_uncounted {line : List Char} (plain : PlainRuns element.tokens)
    (few : (element.tokens.map Token.width).sum ≤ maxColumns)
    (uncounted : maxColumns ≤ config.widthLimit)
    (member : line ∈ Text.lines (Engine.run { config := config } element.tokens.toArray).text) :
    line.length ≤ config.widthLimit := by
  obtain ⟨reader, taken⟩ := element.exists_readAll
  have whole := Reader.endsLine_of_readAll taken
  obtain ⟨runs, source, width, among⟩ := Source.exists_ofTokens_eq whole
  have unopposed {l : Layout} {token : Token} (_ : l.Straight element.tokens (· = config))
      (read : element.tokens[l.cursor]? = some token) (ends : token.endsLine = true) :
      l.overriding? = none := by
    rw [whole token (List.mem_of_getElem? read)] at ends
    cases ends
  have fits : ∀ line ∈ (Source.ofTokens element.tokens).lines,
      line.width config.indentUnit ≤ config.widthLimit := by
    intro line member
    rw [source] at member
    obtain rfl := List.mem_singleton.1 member
    simp only [SourceLine.width, width]
    omega
  have text : (Engine.run { config := config } element.tokens.toArray).text =
      Ink.spell (runs.map .run) := by
    rw [(Engine.run_of_fits (fault?_run config element) unopposed fits).2, source,
      Ink.spell_map_run]
    simp [Source.lines, SourceLine.text, SourceLine.indentation, Text.blank_zero]
  have plain' : ∀ run, .run run ∈ runs.map Ink.run → run.IsPlain := by
    intro run member
    rw [List.mem_map_of_injective (fun _ _ => Ink.run.inj)] at member
    exact plain run (among run member)
  rw [text, Text.lines, List.splitOn_eq_singleton (Ink.newline_notMem_spell plain'),
    List.mem_singleton] at member
  rw [member, String.length_toList, Ink.length_spell plain', Ink.total_map_run, width]
  omega

/-- Whatever lists are nested in an element, all its lines fit if the limit leaves room for a word
behind four indent units for each level of nesting and two more, or behind two units for each level
if there is no soft break. Columns have to be counted to the limit, or at least to the end of the
element. -/
theorem lines_fit_with_room (element : Element) (config : Config) (longest : Nat)
    (short : ∀ run, .text run ∈ element.tokens →
      '\n' ∉ run.text.toList ∧ run.text.length ≤ longest)
    (counted : config.widthLimit < maxColumns ∨
      (element.tokens.map Token.width).sum ≤ maxColumns)
    (room : 4 * config.indentUnit * element.depth + 2 * config.indentUnit + longest ≤
        config.widthLimit ∨
      .mark .softBreak ∉ element.tokens ∧
        2 * config.indentUnit * element.depth + longest ≤ config.widthLimit) :
    ∃ text, renderTokens config element.tokens.toArray = .ok text ∧
      ∀ line ∈ Text.lines text, line.length ≤ config.widthLimit := by
  obtain ⟨reader, taken⟩ := element.exists_readAll
  have plain := Reader.plainRuns_of_readAll taken fun run member => (short run member).1
  refine ⟨(Engine.run { config := config } element.tokens.toArray).text, ?_, ?_⟩
  · rw [renderTokens, Engine.result, fault?_run]
  intro line member
  rcases Nat.lt_or_ge config.widthLimit maxColumns with less | uncounted
  · obtain ⟨soft, soft_le, bound⟩ : ∃ soft,
        (.mark .softBreak ∈ element.tokens → config.wrapIndent ≤ soft) ∧
        2 * config.indentUnit * element.depth + soft * (element.depth + 1) + longest ≤
          config.widthLimit := by
      rcases room with wide | ⟨bare, narrow⟩
      · refine ⟨2 * config.indentUnit, fun _ => (Nat.min_le_left _ _).trans (by omega), ?_⟩
        calc 2 * config.indentUnit * element.depth +
              2 * config.indentUnit * (element.depth + 1) + longest
            _ = 4 * config.indentUnit * element.depth + 2 * config.indentUnit + longest := by ring
            _ ≤ config.widthLimit := wide
      · exact ⟨0, fun member => absurd member bare, by omega⟩
    refine length_le_of_room plain soft_le ?_ less member
    intro run among
    rw [(plain run among).1]
    have le := (short run among).2
    omega
  · exact length_le_of_uncounted plain (counted.resolve_left (Nat.not_lt_of_le uncounted)) uncounted
      member

/-- A list behind a broken line of words, with a broken line inside, takes all the room. -/
theorem lines_fit_with_room_tight :
    let element : Element := .listed ⟨"abc", ["def", "ghi", "jkl"]⟩
      (.more (.words ⟨"mno", ["pqr"]⟩) (.last (.words ⟨"stu", []⟩)))
    element.depth = 1 ∧
      (∃ text, renderTokens ⟨9, 1⟩ element.tokens.toArray = .ok text ∧
        ∀ line ∈ Text.lines text, line.length ≤ 9) ∧
      (Engine.run { config := ⟨9, 1⟩ } element.tokens.toArray).text =
        "abcdefghi\n  jkl\n    mno\n      pqr\n    stu" := by
  intro element
  have short : ∀ run, .text run ∈ element.tokens →
      '\n' ∉ run.text.toList ∧ run.text.length ≤ 3 := by
    intro run member
    simp only [element, Element.tokens, Items.tokens, Words.tokens, Token.plain, TextRun.plain,
      List.flatMap_cons, List.flatMap_nil, List.cons_append, List.nil_append, List.append_nil,
      List.mem_cons, Token.text.injEq, reduceCtorEq, false_or, List.not_mem_nil, or_false] at member
    rcases member with rfl | rfl | rfl | rfl | rfl | rfl | rfl <;> decide
  exact ⟨rfl, lines_fit_with_room element ⟨9, 1⟩ 3 short (Or.inl (by decide)) (Or.inl (by decide)),
    by decide +kernel⟩

end Element

end LineLayout
