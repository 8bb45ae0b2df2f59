import LineLayout.Proofs.Grammar
import LineLayout.Proofs.Places

/-!
# Where reading stops

Reading stops at a phrase that cannot be completed: it starts with a name, its directive lacks an
argument, a lexeme in it is stray, or a literal in it has an escape that is not known. `Halts` says
which, for the lexemes from the start of that phrase on, and where the stop points at. Reading stops
exactly if, behind some whole phrases, it halts (`Reading.ofLexemes_of_halts`, `exists_halts`).

An `Opening` is the part of a phrase in front of the lexeme at which reading halts.
-/

namespace LineLayout.Script

/-! ## Literals with an unknown escape -/

/-- Whether a piece of a literal stands for a character. -/
def Piece.Known : Piece → Prop
  | char _ => True
  | escape c => c ∈ ['\\', 'n', 't', '"', '\'']

theorem error_of_map {ε α β : Type} {result : Except ε α} {f : α → β} {error : ε}
    (failed : result.map f = .error error) : result = .error error := by
  cases result with
  | error _ => exact congrArg _ (Except.error.inj failed)
  | ok _ => cases failed

section Escapes

variable {good bad pieces : List Piece} {c : Char} {here rest : List Char} {stop : Stop}

theorem unescapeChar?_eq_none_iff :
    unescapeChar? c = none ↔ c ∉ ['\\', 'n', 't', '"', '\''] := by
  unfold unescapeChar?
  split <;> simp_all

/-- A literal fails at the first escape that is not known. -/
theorem unescape_of_unknown (known : ∀ piece ∈ good, piece.Known)
    (unknown : c ∉ ['\\', 'n', 't', '"', '\'']) :
    unescape (good.flatMap Piece.chars ++ '\\' :: c :: rest) (good ++ .escape c :: bad) =
      .error ⟨.invalidEscape c, '\\' :: c :: rest⟩ := by
  induction good with
  | nil => simp [unescape, unescapeChar?_eq_none_iff.2 unknown]
  | cons piece good ih =>
    rw [List.forall_mem_cons] at known
    have behind := ih known.2
    cases piece with
    | char d => simp [unescape, Piece.chars, behind, Except.map]
    | escape d =>
      have stands : unescapeChar? d ≠ none := fun none =>
        unescapeChar?_eq_none_iff.1 none known.1
      obtain ⟨e, read⟩ := Option.ne_none_iff_exists'.1 stands
      simp [unescape, Piece.chars, behind, Except.map, read]

theorem exists_unknown (failed : unescape here pieces = .error stop) :
    ∃ good c bad, pieces = good ++ .escape c :: bad ∧ (∀ piece ∈ good, piece.Known) ∧
      c ∉ ['\\', 'n', 't', '"', '\''] := by
  induction pieces generalizing here stop with
  | nil => cases failed
  | cons piece pieces ih =>
    -- a piece in front that is known only adds to the good ones
    have later {there : List Char} {stop : Stop} (known : piece.Known)
        (failed : unescape there pieces = .error stop) :
        ∃ good c bad, piece :: pieces = good ++ .escape c :: bad ∧
          (∀ piece ∈ good, piece.Known) ∧ c ∉ ['\\', 'n', 't', '"', '\''] := by
      obtain ⟨good, c, bad, rfl, goods, unknown⟩ := ih failed
      exact ⟨piece :: good, c, bad, rfl, List.forall_mem_cons.2 ⟨known, goods⟩, unknown⟩
    cases piece with
    | char d =>
      rw [unescape] at failed
      exact later trivial (error_of_map failed)
    | escape d =>
      rw [unescape] at failed
      cases read : unescapeChar? d with
      | none =>
        exact ⟨[], d, pieces, rfl, by simp, unescapeChar?_eq_none_iff.1 read⟩
      | some e =>
        rw [read] at failed
        refine later ?_ (error_of_map failed)
        by_contra unknown
        rw [unescapeChar?_eq_none_iff.2 unknown] at read
        cases read

end Escapes

/-! ## Phrases that are not complete -/

/-- The lexemes of a phrase in front of the one that is due. -/
inductive Opening where
  /-- No phrase has begun. -/
  | empty
  | directive (directive : Directive)
  | styled (style : { word : String // word ∉ reservedWords })

namespace Opening

/-- The lexemes that have been read. -/
def lexemes : Opening → List Lexeme
  | empty => []
  | directive d => [.directive d]
  | styled style => [.directive .style, .name style]

/-- The argument that is due, and the directive it is due to. -/
def due? : Opening → Option (Directive × Argument)
  | empty => none
  | directive .style => some (.style, .styleName)
  | directive d => some (d, .string)
  | styled _ => some (.style, .string)

theorem due_cases (opening : Opening) :
    opening = .empty ∨ opening = .directive .style ∨
      ∃ directive, opening.due? = some (directive, .string) := by
  cases opening with
  | empty => exact Or.inl rfl
  | directive d =>
    cases d with
    | style => exact Or.inr (Or.inl rfl)
    | tag | keyword => exact Or.inr (Or.inr ⟨_, rfl⟩)
  | styled style => exact Or.inr (Or.inr ⟨_, rfl⟩)

theorem eq_empty {opening : Opening} (none : opening.due? = none) : opening = .empty := by
  rcases opening.due_cases with rfl | rfl | ⟨directive, string⟩
  · rfl
  · cases none
  · cases string.symm.trans none

theorem exists_cons (opening : Opening) {front : List Placed} {pair : Directive × Argument}
    (opened : front.map (·.lexeme) = opening.lexemes) (due : opening.due? = some pair) :
    ∃ first tail, front = first :: tail := by
  cases front with
  | cons first tail => exact ⟨first, tail, rfl⟩
  | nil =>
    cases opening with
    | empty => cases due
    | directive | styled => cases opened

theorem of_cons {opening : Opening} {first : Placed} {front : List Placed}
    (opened : (first :: front).map (·.lexeme) = opening.lexemes) :
    (∃ d, opening = .directive d ∧ first.lexeme = .directive d ∧ front = []) ∨
      ∃ style start, opening = .styled style ∧ first.lexeme = .directive .style ∧
        front = [⟨.name style, start⟩] := by
  rw [List.map_cons] at opened
  cases opening with
  | empty => cases opened
  | directive d =>
    obtain ⟨here, none⟩ := List.cons.inj opened
    exact Or.inl ⟨d, rfl, here, List.map_eq_nil_iff.1 none⟩
  | styled style =>
    obtain ⟨here, more⟩ := List.cons.inj opened
    obtain ⟨⟨named, start⟩, tail, rfl, rfl, none⟩ := List.map_eq_cons_iff.1 more
    obtain rfl := List.map_eq_nil_iff.1 none
    exact Or.inr ⟨style, start, rfl, here, rfl⟩

end Opening

/-- Whether the argument is missing in front of a lexeme. A stray lexeme comes first. -/
def Argument.Missing : Argument → Lexeme → Prop
  | _, .stray _ => False
  | string, .string _ _ => False
  | styleName, .name _ => False
  | _, _ => True

/-- `Halts placed stop`: the phrase that starts the lexemes cannot be completed. -/
inductive Halts : List Placed → Stop → Prop
  | unknown {here : List Char} {rest : List Placed} (word : String) :
      Halts (⟨.name word, here⟩ :: rest) ⟨.unknownToken word, here⟩
  | missing {opening : Opening} {first : Placed} {front rest : List Placed}
      {directive : Directive} {expected : Argument}
      (opened : (first :: front).map (·.lexeme) = opening.lexemes)
      (due : opening.due? = some (directive, expected))
      (absent : ∀ next ∈ rest.head?, expected.Missing next.lexeme) :
      Halts (first :: (front ++ rest)) ⟨.missingArgument directive expected, first.here⟩
  | stray {opening : Opening} {front rest : List Placed} {problem : Problem} {here : List Char}
      (opened : front.map (·.lexeme) = opening.lexemes) :
      Halts (front ++ ⟨.stray problem, here⟩ :: rest) ⟨problem, here⟩
  /-- A literal where a string is due. The stop points into it. -/
  | escape {opening : Opening} {front rest : List Placed} {quote : Quote} {good bad : List Piece}
      {c : Char} {after : List Char} (opened : front.map (·.lexeme) = opening.lexemes)
      (due : opening ≠ .directive .style) (known : ∀ piece ∈ good, piece.Known)
      (unknown : c ∉ ['\\', 'n', 't', '"', '\'']) :
      Halts
        (front ++ ⟨.string quote (good ++ .escape c :: bad),
          quote.char :: (good.flatMap Piece.chars ++ '\\' :: c :: after)⟩ :: rest)
        ⟨.invalidEscape c, '\\' :: c :: after⟩

section Items

variable {first : Placed} {front rest : List Placed} {opening : Opening} {directive : Directive}
  {stop : Stop}

theorem item_of_opening (opened : (first :: front).map (·.lexeme) = opening.lexemes)
    (due : opening.due? = some (directive, .string)) :
    ∃ make : String → Item, ∀ rest, item first (front ++ rest) =
      (stringArgument directive first.here rest).map fun (text, after) => (make text, after) := by
  rcases Opening.of_cons opened with ⟨d, rfl, here, rfl⟩ | ⟨style, start, rfl, here, rfl⟩
  · cases d with
    | style => cases due
    | tag =>
      cases due
      exact ⟨.tag, fun rest => by rw [item, here]; rfl⟩
    | keyword =>
      cases due
      exact ⟨.keyword, fun rest => by rw [item, here]; rfl⟩
  · cases due
    exact ⟨.styled style, fun rest => by rw [item, here]; rfl⟩

theorem stringArgument_of_missing (here : List Char)
    (absent : ∀ next ∈ rest.head?, Argument.string.Missing next.lexeme) :
    stringArgument directive here rest = .error ⟨.missingArgument directive .string, here⟩ := by
  cases rest with
  | nil => rfl
  | cons next rest =>
    have misses := absent next rfl
    obtain ⟨lexeme, start⟩ := next
    cases lexeme with
    | string | stray => exact misses.elim
    | mark | directive | name => rfl

theorem nameArgument_of_missing (here : List Char)
    (absent : ∀ next ∈ rest.head?, Argument.styleName.Missing next.lexeme) :
    nameArgument here rest = .error ⟨.missingArgument .style .styleName, here⟩ := by
  cases rest with
  | nil => rfl
  | cons next rest =>
    have misses := absent next rfl
    obtain ⟨lexeme, start⟩ := next
    cases lexeme with
    | name | stray => exact misses.elim
    | mark | directive | string => rfl

theorem literalText_of_unknown {quote : Quote} {good bad : List Piece} {c : Char}
    {after : List Char} (known : ∀ piece ∈ good, piece.Known)
    (unknown : c ∉ ['\\', 'n', 't', '"', '\'']) :
    literalText (quote.char :: (good.flatMap Piece.chars ++ '\\' :: c :: after))
        (good ++ .escape c :: bad) = .error ⟨.invalidEscape c, '\\' :: c :: after⟩ := by
  rw [literalText, List.drop_one, List.tail_cons, unescape_of_unknown known unknown]
  rfl

theorem item_of_style (here : first.lexeme = .directive .style)
    (failed : nameArgument first.here rest = .error stop) : item first rest = .error stop := by
  rw [item, here]
  simp only [failed]

theorem Halts.exists_item {placed : List Placed} (halts : Halts placed stop) :
    ∃ first rest, placed = first :: rest ∧ item first rest = .error stop := by
  cases halts with
  | unknown word => exact ⟨_, _, rfl, rfl⟩
  | @missing opening first front rest directive expected opened due absent =>
    refine ⟨first, front ++ rest, rfl, ?_⟩
    rcases opening.due_cases with rfl | rfl | ⟨d, string⟩
    · cases due
    · cases due
      obtain ⟨here, none⟩ := List.cons.inj opened
      obtain rfl := List.map_eq_nil_iff.1 none
      exact item_of_style here (nameArgument_of_missing first.here absent)
    · obtain ⟨rfl, rfl⟩ := Prod.mk.inj (Option.some.inj (string.symm.trans due))
      obtain ⟨make, taken⟩ := item_of_opening opened string
      rw [taken, stringArgument_of_missing first.here absent]
      rfl
  | @stray opening front rest problem start opened =>
    rcases opening.due_cases with rfl | rfl | ⟨d, string⟩
    · obtain rfl := List.map_eq_nil_iff.1 opened
      exact ⟨_, _, rfl, rfl⟩
    · obtain ⟨first, tail, rfl, here, none⟩ := List.map_eq_cons_iff.1 opened
      obtain rfl := List.map_eq_nil_iff.1 none
      exact ⟨first, _, rfl, item_of_style here rfl⟩
    · obtain ⟨first, tail, rfl⟩ := opening.exists_cons opened string
      obtain ⟨make, taken⟩ := item_of_opening opened string
      exact ⟨first, _, rfl, by rw [List.append_eq, taken]; rfl⟩
  | @escape opening front rest quote good bad c after opened due known unknown =>
    have failed : literalText (quote.char :: (good.flatMap Piece.chars ++ '\\' :: c :: after))
        (good ++ .escape c :: bad) = .error ⟨.invalidEscape c, '\\' :: c :: after⟩ :=
      literalText_of_unknown known unknown
    rcases opening.due_cases with rfl | rfl | ⟨d, string⟩
    · obtain rfl := List.map_eq_nil_iff.1 opened
      refine ⟨_, _, rfl, ?_⟩
      simp only [item, failed]
      rfl
    · exact absurd rfl due
    · obtain ⟨first, tail, rfl⟩ := opening.exists_cons opened string
      obtain ⟨make, taken⟩ := item_of_opening opened string
      refine ⟨first, _, rfl, ?_⟩
      rw [List.append_eq, taken, stringArgument, failed]
      rfl

/-- A string among the lexemes of a source is spelled where it stands. -/
def Placed.Spelt : Placed → Prop
  | ⟨.string quote pieces, here⟩ => ∃ after, StartsLiteral quote pieces here after
  | _ => True

/-- A literal that has no text has an escape that is not known. -/
theorem halts_of_literalText {quote : Quote} {pieces : List Piece} {here : List Char}
    (spelt : Placed.Spelt ⟨.string quote pieces, here⟩)
    (opened : front.map (·.lexeme) = opening.lexemes) (due : opening ≠ .directive .style)
    (failed : literalText here pieces = .error stop) :
    Halts (front ++ ⟨.string quote pieces, here⟩ :: rest) stop := by
  obtain ⟨good, c, bad, rfl, known, unknown⟩ := exists_unknown (error_of_map failed)
  obtain ⟨after, rfl, -⟩ := spelt
  have split : (good ++ .escape c :: bad).flatMap Piece.chars ++ quote.char :: after =
      good.flatMap Piece.chars ++ '\\' :: c :: (bad.flatMap Piece.chars ++ quote.char :: after) := by
    simp [Piece.chars]
  rw [split] at failed ⊢
  rw [literalText_of_unknown known unknown] at failed
  cases failed
  exact .escape opened due known unknown

theorem halts_of_stringArgument (spelt : ∀ placed ∈ rest, placed.Spelt)
    (opened : (first :: front).map (·.lexeme) = opening.lexemes)
    (due : opening.due? = some (directive, .string))
    (failed : stringArgument directive first.here rest = .error stop) :
    Halts (first :: (front ++ rest)) stop := by
  cases rest with
  | nil =>
    cases failed
    exact .missing opened due (by simp)
  | cons next rest =>
    obtain ⟨lexeme, start⟩ := next
    have missing (absent : Argument.string.Missing lexeme) :
        ∀ next ∈ (⟨lexeme, start⟩ :: rest : List Placed).head?,
          Argument.string.Missing next.lexeme := by
      rintro _ ⟨⟩
      exact absent
    cases lexeme with
    | mark | directive | name =>
      cases failed
      exact .missing opened due (missing trivial)
    | stray problem =>
      cases failed
      exact .stray opened
    | string quote pieces =>
      have other : opening ≠ .directive .style := by
        rintro rfl
        cases due
      exact halts_of_literalText (spelt _ List.mem_cons_self) opened other (error_of_map failed)

theorem halts_of_style {here : List Char} (spelt : ∀ placed ∈ rest, placed.Spelt)
    (lexed : ∀ placed ∈ rest, placed.lexeme.Lexed)
    (failed : item ⟨.directive .style, here⟩ rest = .error stop) :
    Halts (⟨.directive .style, here⟩ :: rest) stop := by
  have opened : [(⟨.directive .style, here⟩ : Placed)].map (·.lexeme) =
      (Opening.directive .style).lexemes := rfl
  cases rest with
  | nil =>
    cases failed
    exact .missing opened rfl (by simp)
  | cons next rest =>
    rw [List.forall_mem_cons] at spelt lexed
    obtain ⟨lexeme, start⟩ := next
    have missing (absent : Argument.styleName.Missing lexeme) :
        ∀ next ∈ (⟨lexeme, start⟩ :: rest : List Placed).head?,
          Argument.styleName.Missing next.lexeme := by
      rintro _ ⟨⟩
      exact absent
    cases lexeme with
    | mark | directive | string =>
      cases failed
      exact .missing opened rfl (missing trivial)
    | stray problem =>
      cases failed
      exact .stray opened
    | name word =>
      have named : [(⟨.directive .style, here⟩ : Placed), ⟨.name word, start⟩].map (·.lexeme) =
          (Opening.styled ⟨word, lexed.1⟩).lexemes := rfl
      exact halts_of_stringArgument spelt.2 named rfl (error_of_map failed)

/-- Where no item is read, the phrase cannot be completed. -/
theorem halts_of_item (spelt : ∀ placed ∈ first :: rest, placed.Spelt)
    (lexed : ∀ placed ∈ first :: rest, placed.lexeme.Lexed)
    (failed : item first rest = .error stop) : Halts (first :: rest) stop := by
  obtain ⟨lexeme, here⟩ := first
  rw [List.forall_mem_cons] at spelt lexed
  have empty : ([] : List Placed).map (·.lexeme) = Opening.empty.lexemes := rfl
  cases lexeme with
  | mark m => cases failed
  | name word =>
    cases failed
    exact .unknown word
  | stray problem =>
    cases failed
    exact .stray empty
  | string quote pieces =>
    exact halts_of_literalText spelt.1 empty Opening.noConfusion (error_of_map failed)
  | directive d =>
    have opened : [(⟨.directive d, here⟩ : Placed)].map (·.lexeme) =
        (Opening.directive d).lexemes := rfl
    cases d with
    | tag | keyword => exact halts_of_stringArgument spelt.2 opened rfl (error_of_map failed)
    | style => exact halts_of_style spelt.2 lexed.2 failed

end Items

/-! ## Scripts that are not read to their end -/

/-- Whole phrases are read, and then what stands behind them. -/
theorem Reading.ofLexemes_append {front behind : List Placed} {phrases : List Phrase}
    (read : front.map (·.lexeme) = phrases.flatMap Phrase.lexemes) :
    Reading.ofLexemes (front ++ behind) =
      ⟨phrases.map Phrase.item ++ (Reading.ofLexemes behind).items,
        (Reading.ofLexemes behind).stop?⟩ := by
  induction phrases generalizing front with
  | nil =>
    obtain rfl := List.map_eq_nil_iff.1 read
    rfl
  | cons phrase phrases ih =>
    rw [List.flatMap_cons] at read
    obtain ⟨here, more, rfl, first, others⟩ := List.map_eq_append_iff.1 read
    cases here with
    | nil => exact absurd first.symm phrase.lexemes_ne_nil
    | cons start rest =>
      have split : start :: (rest ++ (more ++ behind)) = start :: rest ++ (more ++ behind) := rfl
      rw [List.append_assoc, List.cons_append, ofLexemes_of_item (item_of_phrase phrase split first),
        ih others]
      rfl

/-- Reading stops where it halts behind whole phrases. -/
theorem Reading.ofLexemes_of_halts {front behind : List Placed} {phrases : List Phrase}
    {stop : Stop} (read : front.map (·.lexeme) = phrases.flatMap Phrase.lexemes)
    (halts : Halts behind stop) :
    Reading.ofLexemes (front ++ behind) = ⟨phrases.map Phrase.item, some stop⟩ := by
  obtain ⟨first, rest, rfl, refused⟩ := halts.exists_item
  have stopped : Reading.ofLexemes (first :: rest) = ⟨[], some stop⟩ := by
    rw [ofLexemes]
    split
    · rename_i other
      rw [refused] at other
      cases other
      rfl
    · rename_i taken
      rw [refused] at taken
      cases taken
  rw [ofLexemes_append read, stopped, List.append_nil]

theorem exists_halts {placed : List Placed} {stop : Stop}
    (spelt : ∀ one ∈ placed, one.Spelt) (lexed : ∀ one ∈ placed, one.lexeme.Lexed)
    (stopped : (Reading.ofLexemes placed).stop? = some stop) :
    ∃ (phrases : List Phrase) (front behind : List Placed), placed = front ++ behind ∧
      front.map (·.lexeme) = phrases.flatMap Phrase.lexemes ∧ Halts behind stop := by
  fun_induction Reading.ofLexemes placed with
  | case1 => cases stopped
  | case2 first rest other refused =>
    cases stopped
    exact ⟨[], [], _, rfl, rfl, halts_of_item spelt lexed refused⟩
  | case3 first rest one after taken reading ih =>
    obtain ⟨phrase, front, split, here⟩ := exists_phrase lexed taken
    rw [split] at spelt lexed ⊢
    obtain ⟨phrases, more, behind, rfl, read, halts⟩ :=
      ih (fun other member => spelt other (List.mem_append_right front member))
        (fun other member => lexed other (List.mem_append_right front member)) stopped
    exact ⟨phrase :: phrases, front ++ more, behind, by simp, by simp [here, read], halts⟩

/-! ## Where lexemes stand -/

section Placed

variable {source : List Char} {placed : Placed}

theorem spelt_atStart (c : Char) (rest : List Char) :
    Placed.Spelt ⟨(Lexeme.atStart c rest).1, c :: rest⟩ := by
  unfold Lexeme.atStart
  split
  · generalize read : Lexeme.ofWord _ = lexeme
    cases lexeme with
    | string quote pieces => exact absurd read (Lexeme.ofWord_ne rfl _)
    | mark | directive | name | stray => trivial
  split
  · rename_i quote quoted
    split
    · rename_i pieces after inner
      have same := Quote.char_of_ofChar? quoted
      obtain ⟨rfl, onLine⟩ := of_literal? inner
      exact ⟨after, by rw [same], by rwa [same]⟩
    · trivial
  · trivial

theorem spelt_of_mem (member : placed ∈ lexemes source) : placed.Spelt := by
  fun_induction lexemes source with
  | case1 => cases member
  | case2 source c rest gap ih =>
    rcases List.mem_cons.1 member with rfl | behind
    · exact spelt_atStart c rest
    · exact ih behind

theorem dropGap_suffix (inComment : Bool) (source : List Char) :
    dropGap inComment source <:+ source := by
  induction source generalizing inComment with
  | nil => exact List.suffix_refl []
  | cons c rest ih =>
    unfold dropGap
    split_ifs
    · exact (ih _).trans (List.suffix_cons c rest)
    · exact (ih _).trans (List.suffix_cons c rest)
    · exact (ih _).trans (List.suffix_cons c rest)
    · exact List.suffix_refl _

theorem Lexeme.atStart_suffix (c : Char) (rest : List Char) :
    (Lexeme.atStart c rest).2 <:+ rest := by
  unfold Lexeme.atStart
  split
  · exact List.dropWhile_suffix isWordPart
  split
  · split
    · rename_i pieces after inner
      rw [(of_literal? inner).1]
      exact (List.suffix_cons c after).trans (List.suffix_append _ _)
    · exact List.nil_suffix
  · exact List.nil_suffix

theorem suffix_of_mem (member : placed ∈ lexemes source) : placed.here <:+ source := by
  fun_induction lexemes source with
  | case1 => cases member
  | case2 source c rest gap ih =>
    have start : c :: rest <:+ source := gap ▸ dropGap_suffix false source
    rcases List.mem_cons.1 member with rfl | behind
    · exact start
    · have later : rest <:+ source := (List.suffix_cons c rest).trans start
      exact (ih behind).trans ((Lexeme.atStart_suffix c rest).trans later)

theorem Halts.suffix {behind : List Placed} {stop : Stop} (halts : Halts behind stop)
    (suffix : ∀ placed ∈ behind, placed.here <:+ source) : stop.here <:+ source := by
  cases halts with
  | unknown word => exact suffix _ List.mem_cons_self
  | missing _ _ _ => exact suffix _ List.mem_cons_self
  | stray _ => exact suffix _ (List.mem_append_right _ List.mem_cons_self)
  | @escape _ _ _ quote good _ _ _ _ _ _ _ =>
    refine .trans ?_ (suffix _ (List.mem_append_right _ List.mem_cons_self))
    exact (List.suffix_append _ _).trans (List.suffix_cons _ _)

end Placed

/-! ## Errors -/

theorem Stop.error_eq {source : String} {stop : Stop} {before : List Char}
    (split : source.toList = before ++ stop.here) :
    stop.error source = ⟨stop.problem, .behind before⟩ := by
  have whole : source = String.ofList before ++ String.ofList stop.here := by
    rw [← String.ofList_append, ← split, String.ofList_toList]
  have offset : source.utf8ByteSize - Text.byteLength stop.here =
      (String.ofList before).utf8ByteSize := by
    rw [whole, String.utf8ByteSize_append, Text.utf8ByteSize_ofList stop.here]
    omega
  rw [error, offset, whole, Location.atOffset_append, String.toList_ofList]

/-- Where a script stops behind whole phrases, there is its error. -/
theorem parse_of_halts {source : String} {front behind : List Placed} {phrases : List Phrase}
    {stop : Stop} {before : List Char} (split : lexemes source.toList = front ++ behind)
    (read : front.map (·.lexeme) = phrases.flatMap Phrase.lexemes) (halts : Halts behind stop)
    (here : source.toList = before ++ stop.here) :
    parse source = .error ⟨stop.problem, .behind before⟩ := by
  have reading : Script.read source = ⟨phrases.map Phrase.item, some stop⟩ := by
    rw [Script.read, split, Reading.ofLexemes_of_halts read halts]
  rw [parse, reading, ← Stop.error_eq here]

theorem exists_stop {source : String} {error : Error} (failed : parse source = .error error) :
    ∃ (phrases : List Phrase) (front behind : List Placed) (stop : Stop) (before : List Char),
      lexemes source.toList = front ++ behind ∧
      front.map (·.lexeme) = phrases.flatMap Phrase.lexemes ∧ Halts behind stop ∧
      source.toList = before ++ stop.here ∧ error = ⟨stop.problem, .behind before⟩ := by
  unfold parse at failed
  dsimp only at failed
  cases stopped : (Script.read source).stop? with
  | none => rw [stopped] at failed; cases failed
  | some stop =>
    rw [stopped] at failed
    obtain ⟨phrases, front, behind, split, read, halts⟩ :=
      exists_halts (fun _ => spelt_of_mem) (fun _ => lexed_of_mem) stopped
    have inside : ∀ placed ∈ behind, placed.here <:+ source.toList := by
      intro placed member
      exact suffix_of_mem (split ▸ List.mem_append_right front member)
    obtain ⟨before, here⟩ := halts.suffix inside
    refine ⟨phrases, front, behind, stop, before, split, read, halts, here.symm, ?_⟩
    rw [← Stop.error_eq here.symm]
    exact (Except.error.inj failed).symm

end LineLayout.Script
