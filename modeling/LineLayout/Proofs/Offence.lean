import LineLayout.Proofs.Composition

/-!
# What a script error points at

An error names the first thing in a script that is not well-formed, and where it stands. `Offends`
says what that is, for each problem, in terms of the source alone: of the part in front of the place
and of the part from there on. In front stand only whole phrases, and perhaps the start of one that
still awaits its argument.
-/

namespace LineLayout.Script

/-! ## What a source starts with -/

/-- The source starts with a word that ends in front of `after`. -/
def StartsWord (word : String) (source after : List Char) : Prop :=
  source = word.toList ++ after ∧ IsWord word.toList ∧
    ∀ c ∈ after.head?, ¬ (IsLetter c ∨ IsDigit c)

/-- The first thing behind a gap is a word that is not reserved. -/
def LeadsToName (name : String) (source after : List Char) : Prop :=
  name ∉ reservedWords ∧
    ∃ gap start, IsGap gap ∧ source = gap ++ start ∧ StartsWord name start after

/-- The first thing behind a gap is a literal. -/
def LeadsToLiteral (source : List Char) : Prop :=
  ∃ gap start quote pieces after, IsGap gap ∧ source = gap ++ start ∧
    StartsLiteral quote pieces start after

/-- What follows the word of a directive is not the argument that it takes. The text of a style
follows its name. -/
def Directive.Lacks (source : List Char) : Directive → Argument → Prop
  | style, .styleName => ¬ ∃ name after, LeadsToName name source after
  | style, .string => ∃ name after, LeadsToName name source after ∧ ¬ LeadsToLiteral after
  | tag, .string => ¬ LeadsToLiteral source
  | keyword, .string => ¬ LeadsToLiteral source
  | tag, .styleName => False
  | keyword, .styleName => False

/-! ## Offences -/

/-- Nothing is wrong with the source. -/
def Parses (source : String) : Prop :=
  ∃ tokens, parse source = .ok tokens

/-- Nothing is wrong with the source, or only that it ends where an argument is due: with that in
the next line, nothing is wrong. -/
def Awaits (source : String) : Prop :=
  Parses source ∨
    (∃ directive expected place,
      parse source = .error ⟨.missingArgument directive expected, place⟩) ∧
    ∃ argument, Parses (source ++ "\n" ++ argument)

/-- The problem is found at the start of `back`, and behind `front`. -/
def Offends (front back : String) : Problem → Prop
  | .unknownToken name =>
    Parses front ∧ name ∉ reservedWords ∧ ∃ after, StartsWord name back.toList after
  | .missingArgument directive expected =>
    Parses front ∧
      ∃ after, StartsWord directive.word back.toList after ∧ directive.Lacks after expected
  | .unexpectedCharacter c =>
    Awaits front ∧ back.toList.head? = some c ∧
      c ∉ [' ', '\t', '\r', '\n', '\x0c', '#', '"', '\''] ∧ ¬ IsLetter c
  | .unterminatedString =>
    Awaits front ∧ ∃ quote : Quote, back.toList.head? = some quote.char ∧
      ¬ ∃ pieces after, StartsLiteral quote pieces back.toList after
  | .invalidEscape c =>
    ∃ (lead : String) (quote : Quote) (good bad : List Piece) (after : List Char),
      Awaits lead ∧
      front.toList = lead.toList ++ quote.char :: good.flatMap Piece.chars ∧
      back.toList = '\\' :: c :: (bad.flatMap Piece.chars ++ quote.char :: after) ∧
      (∀ piece ∈ good ++ .escape c :: bad, piece.OnLine quote.char) ∧
      (∀ piece ∈ good, piece.Known) ∧ c ∉ ['\\', 'n', 't', '"', '\'']

/-! ## Lexemes and the source -/

section Starts

variable {source after : List Char} {placed : Placed} {front others : List Placed}

theorem exists_start (split : lexemes source = placed :: others) :
    ∃ gap c rest, IsGap gap ∧ source = gap ++ c :: rest ∧
      placed = ⟨(Lexeme.atStart c rest).1, c :: rest⟩ ∧
      others = lexemes (Lexeme.atStart c rest).2 ∧ isBlank c = false ∧ c ≠ '#' := by
  rw [lexemes_eq] at split
  cases start : dropGap false source with
  | nil =>
    rw [start] at split
    cases split
  | cons c rest =>
    rw [start] at split
    obtain ⟨gap, isGap, rfl⟩ := exists_gap start
    cases split
    exact ⟨gap, c, rest, isGap, rfl, rfl, rfl, starts_of_dropGap start⟩

theorem lexemes_here (split : lexemes source = front ++ placed :: others) :
    lexemes placed.here = placed :: others := by
  induction front generalizing source with
  | nil =>
    obtain ⟨gap, c, rest, isGap, rfl, rfl, rfl, -⟩ := exists_start split
    rw [← lexemes_gap isGap (c :: rest)]
    exact split
  | cons first front ih =>
    obtain ⟨_, c, rest, _, _, _, behind, _⟩ := exists_start split
    exact ih behind.symm

theorem lexemes_of_startsWord {word : String} (starts : StartsWord word source after) :
    lexemes source = ⟨.ofWord word, source⟩ :: lexemes after := by
  obtain ⟨rfl, fits⟩ := starts
  have fits : (Spelled.word word).Fits after := fits
  obtain ⟨c, rest, split⟩ := (Spelled.word word).exists_chars fits
  obtain ⟨unblank, uncommented, read⟩ := (Spelled.word word).starts fits split
  have split : word.toList ++ after = c :: rest := split
  rw [split, lexemes_start unblank uncommented, read]
  rfl

theorem lexemes_of_startsLiteral {quote : Quote} {pieces : List Piece}
    (starts : StartsLiteral quote pieces source after) :
    lexemes source = ⟨.string quote pieces, source⟩ :: lexemes after := by
  obtain ⟨rfl, onLine⟩ := starts
  rw [lexemes_start quote.starts.1 quote.starts.2.1, Lexeme.atStart_literal onLine]

theorem exists_startsWord {word : String} (split : lexemes source = placed :: others)
    (read : placed.lexeme = .ofWord word) :
    ∃ gap after, IsGap gap ∧ source = gap ++ placed.here ∧ StartsWord word placed.here after ∧
      others = lexemes after := by
  obtain ⟨gap, c, rest, isGap, rfl, rfl, rfl, -⟩ := exists_start split
  have read : (Spelled.word word).lexeme = (Lexeme.atStart c rest).1 := read.symm
  obtain ⟨spelt, fits⟩ := Spelled.of_atStart read
  exact ⟨gap, _, isGap, rfl, ⟨spelt.symm, fits⟩, rfl⟩

theorem of_stray {problem : Problem} {here : List Char}
    (split : lexemes source = ⟨.stray problem, here⟩ :: others) :
    (∃ c rest, here = c :: rest ∧ problem = .unexpectedCharacter c ∧
      c ∉ [' ', '\t', '\r', '\n', '\x0c', '#', '"', '\''] ∧ ¬ IsLetter c) ∨
    ∃ (quote : Quote) (rest : List Char), here = quote.char :: rest ∧
      problem = .unterminatedString ∧ literal? quote.char rest = none := by
  obtain ⟨_, c, rest, _, _, same, _, unblank, uncommented⟩ := exists_start split
  obtain ⟨stray, rfl⟩ := Placed.mk.inj same
  unfold Lexeme.atStart at stray
  split at stray
  · exact absurd stray.symm (Lexeme.ofWord_ne rfl _)
  rename_i unlettered
  split at stray
  · rename_i quote quoted
    obtain rfl := Quote.char_of_ofChar? quoted
    split at stray
    · cases stray
    · rename_i unread
      cases stray
      exact Or.inr ⟨quote, rest, rfl, rfl, unread⟩
  · rename_i unquoted
    cases stray
    have outside : c ∉ [' ', '\t', '\r', '\n', '\x0c'] := fun member => by
      rw [isBlank_iff.2 member] at unblank
      cases unblank
    have other : c ≠ '"' ∧ c ≠ '\'' := by
      constructor <;> rintro rfl <;> cases unquoted
    refine Or.inl ⟨c, rest, rfl, rfl, ?_, fun letter => unlettered (isWordStart_iff.2 letter)⟩
    simpa [uncommented, other] using outside

end Starts

/-! ## In front of an offence -/

namespace Opening

/-- The opening as a script spells it. -/
def spelled : Opening → List Spelled
  | empty => []
  | directive d => [.word d.word]
  | styled style => [.word Directive.style.word, .word style]

theorem map_lexeme_spelled (opening : Opening) :
    opening.spelled.map Spelled.lexeme = opening.lexemes := by
  cases opening with
  | empty => rfl
  | directive d => simp [spelled, lexemes, Spelled.lexeme, Lexeme.ofWord_directive]
  | styled style =>
    simp [spelled, lexemes, Spelled.lexeme, Lexeme.ofWord_directive,
      Lexeme.ofWord_of_notMem style.2]

theorem exists_phrase {opening : Opening} {pair : Directive × Argument}
    (due : opening.due? = some pair) :
    ∃ (argument : String) (phrase : Phrase),
      opening.lexemes ++ (Script.lexemes argument.toList).map (·.lexeme) = phrase.lexemes := by
  let literal : Literal := ⟨.escaping, [], by simp⟩
  have string : (Script.lexemes "''".toList).map (·.lexeme) = [.string .escaping []] := by
    decide +kernel
  have named : (Script.lexemes "_''".toList).map (·.lexeme) =
      [.name "_", .string .escaping []] := by
    decide +kernel
  cases opening with
  | empty => cases due
  | directive d =>
    cases d with
    | tag => exact ⟨"''", .tag literal, by rw [string]; rfl⟩
    | keyword => exact ⟨"''", .keyword literal, by rw [string]; rfl⟩
    | style => exact ⟨"_''", .styled ⟨"_", by decide +kernel⟩ literal, by rw [named]; rfl⟩
  | styled style => exact ⟨"''", .styled style literal, by rw [string]; rfl⟩

end Opening

/-- A source that ends within a phrase awaits its argument. -/
theorem awaits_of_opening {source : String} {phrases : List Phrase} {opening : Opening}
    (read : (lexemes source.toList).map (·.lexeme) =
      phrases.flatMap Phrase.lexemes ++ opening.lexemes) : Awaits source := by
  obtain ⟨front, behind, split, whole, opened⟩ := List.map_eq_append_iff.1 read
  cases due : opening.due? with
  | none =>
    obtain rfl := Opening.eq_empty due
    rw [Opening.lexemes, List.append_nil] at read
    exact Or.inl ⟨_, parse_of_phrases read⟩
  | some pair =>
    obtain ⟨first, tail, rfl⟩ := opening.exists_cons opened due
    obtain ⟨before, here⟩ : first.here <:+ source.toList := suffix_of_mem (by simp [split])
    have halts : Halts (first :: (tail ++ [])) ⟨.missingArgument pair.1 pair.2, first.here⟩ :=
      .missing opened due (by simp)
    rw [List.append_nil] at halts
    obtain ⟨argument, phrase, completed⟩ := Opening.exists_phrase due
    have spelled : (lexemes source.toList).map (·.lexeme) =
        (phrases.flatMap Phrase.spelled ++ opening.spelled).map Spelled.lexeme := by
      rw [read, List.map_append, map_lexeme_flatMap, opening.map_lexeme_spelled]
    have all : (lexemes (source ++ "\n" ++ argument).toList).map (·.lexeme) =
        (phrases ++ [phrase]).flatMap Phrase.lexemes := by
      rw [toList_line, lexemes_line_of_spelled spelled, List.map_append, map_lexeme_before, read,
        List.append_assoc, completed, List.flatMap_append, List.flatMap_singleton]
    exact Or.inr ⟨⟨_, _, _, parse_of_halts split whole halts here.symm⟩,
      argument, _, parse_of_phrases all⟩

section Fronts

variable {source : List Char} {front part behind : List Placed} {phrases : List Phrase}
  {opening : Opening}

/-- The source can be cut behind whole phrases and the start of another one. -/
theorem exists_front (split : lexemes source = front ++ (part ++ behind))
    (read : front.map (·.lexeme) = phrases.flatMap Phrase.lexemes)
    (opened : part.map (·.lexeme) = opening.lexemes) :
    ∃ before : String, source = before.toList ++ sourceFrom behind ∧
      (lexemes before.toList).map (·.lexeme) =
        phrases.flatMap Phrase.lexemes ++ opening.lexemes := by
  have all : (front ++ part).map (·.lexeme) =
      (phrases.flatMap Phrase.spelled ++ opening.spelled).map Spelled.lexeme := by
    rw [List.map_append, List.map_append, read, opened, map_lexeme_flatMap,
      opening.map_lexeme_spelled]
  rw [← List.append_assoc] at split
  obtain ⟨before, stretches, rfl, cuts, found⟩ := exists_cuts_append split all
  refine ⟨String.ofList before, by rw [String.toList_ofList], ?_⟩
  rw [String.toList_ofList, cuts.map_lexemes, found, ← all, List.map_append, read, opened]

theorem exists_parsed (split : lexemes source = front ++ behind)
    (read : front.map (·.lexeme) = phrases.flatMap Phrase.lexemes) :
    ∃ before : String, source = before.toList ++ sourceFrom behind ∧ Parses before := by
  have empty : ([] : List Placed).map (·.lexeme) = Opening.empty.lexemes := rfl
  have split : lexemes source = front ++ ([] ++ behind) := split
  obtain ⟨before, rfl, all⟩ := exists_front split read empty
  rw [Opening.lexemes, List.append_nil] at all
  exact ⟨before, rfl, _, parse_of_phrases all⟩

theorem exists_awaits (split : lexemes source = front ++ (part ++ behind))
    (read : front.map (·.lexeme) = phrases.flatMap Phrase.lexemes)
    (opened : part.map (·.lexeme) = opening.lexemes) :
    ∃ before : String, source = before.toList ++ sourceFrom behind ∧ Awaits before := by
  obtain ⟨before, rfl, all⟩ := exists_front split read opened
  exact ⟨before, rfl, awaits_of_opening all⟩

end Fronts

/-! ## Where reading halts is an offence -/

section Offences

variable {source after : List Char} {front part rest : List Placed} {phrases : List Phrase}
  {opening : Opening}

theorem not_leadsToLiteral (absent : ∀ next ∈ (lexemes after).head?,
    Argument.string.Missing next.lexeme) : ¬ LeadsToLiteral after := by
  rintro ⟨gap, start, quote, pieces, behind, isGap, rfl, starts⟩
  rw [lexemes_gap isGap, lexemes_of_startsLiteral starts] at absent
  exact absent _ rfl

theorem not_leadsToName (absent : ∀ next ∈ (lexemes after).head?,
    Argument.styleName.Missing next.lexeme) : ¬ ∃ name behind, LeadsToName name after behind := by
  rintro ⟨name, behind, free, gap, start, isGap, rfl, starts⟩
  rw [lexemes_gap isGap, lexemes_of_startsWord starts] at absent
  have misses := absent _ rfl
  rw [Lexeme.ofWord_of_notMem free] at misses
  exact misses

theorem leadsToName_of_lexemes {name : String} {here : List Char} (free : name ∉ reservedWords)
    (split : lexemes source = ⟨.name name, here⟩ :: rest) :
    ∃ after, LeadsToName name source after ∧ rest = lexemes after := by
  obtain ⟨gap, after, isGap, rfl, starts, rfl⟩ :=
    exists_startsWord split (Lexeme.ofWord_of_notMem free).symm
  exact ⟨after, ⟨free, gap, here, isGap, rfl, starts⟩, rfl⟩

section Missing

variable {directive : Directive} {expected : Argument} {first : Placed}
  (opened : (first :: part).map (·.lexeme) = opening.lexemes)
  (due : opening.due? = some (directive, expected))
include opened due

theorem lexeme_of_due : first.lexeme = .directive directive := by
  rcases Opening.of_cons opened with ⟨d, rfl, here, rfl⟩ | ⟨style, start, rfl, here, rfl⟩
  · cases d <;> cases due <;> exact here
  · cases due
    exact here

/-- Behind the word of a directive, its argument is missing. -/
theorem lacks_of_missing (absent : ∀ next ∈ rest.head?, expected.Missing next.lexeme)
    (split : lexemes after = part ++ rest) : directive.Lacks after expected := by
  rcases Opening.of_cons opened with ⟨d, rfl, -, rfl⟩ | ⟨style, start, rfl, -, rfl⟩
  · obtain rfl : lexemes after = rest := split
    cases d with
    | tag | keyword =>
      cases due
      exact not_leadsToLiteral absent
    | style =>
      cases due
      exact not_leadsToName absent
  · cases due
    obtain ⟨behind, leads, rfl⟩ := leadsToName_of_lexemes style.2 split
    exact ⟨style, behind, leads, not_leadsToLiteral absent⟩

end Missing

end Offences

/-- Where reading halts behind whole phrases, there is an offence. -/
theorem Halts.exists_offends {source : List Char} {front behind : List Placed}
    {phrases : List Phrase} {stop : Stop} (split : lexemes source = front ++ behind)
    (read : front.map (·.lexeme) = phrases.flatMap Phrase.lexemes) (halts : Halts behind stop) :
    ∃ before : String, source = before.toList ++ stop.here ∧
      Offends before (String.ofList stop.here) stop.problem := by
  cases halts with
  | @unknown here rest word =>
    obtain ⟨before, same, parsed⟩ := exists_parsed split read
    have member : ⟨.name word, here⟩ ∈ lexemes source := by simp [split]
    have free : word ∉ reservedWords := lexed_of_mem member
    obtain ⟨_, after, _, _, starts, _⟩ :=
      exists_startsWord (lexemes_here split) (Lexeme.ofWord_of_notMem free).symm
    exact ⟨before, same, parsed, free, after, by rwa [String.toList_ofList]⟩
  | @missing opening first part rest directive expected opened due absent =>
    obtain ⟨before, same, parsed⟩ := exists_parsed split read
    have word : first.lexeme = .ofWord directive.word := by
      rw [Lexeme.ofWord_directive, lexeme_of_due opened due]
    obtain ⟨_, after, _, _, starts, behind⟩ := exists_startsWord (lexemes_here split) word
    have lacks := lacks_of_missing opened due absent behind.symm
    exact ⟨before, same, parsed, after, by rwa [String.toList_ofList], lacks⟩
  | @stray opening part rest problem here opened =>
    obtain ⟨before, same, awaits⟩ := exists_awaits split read opened
    rw [← List.append_assoc] at split
    rcases of_stray (lexemes_here split) with
      ⟨c, tail, rfl, rfl, outside, unlettered⟩ | ⟨quote, tail, rfl, rfl, unread⟩
    · exact ⟨before, same, awaits, by simp, outside, unlettered⟩
    · refine ⟨before, same, awaits, quote, by simp, ?_⟩
      rintro ⟨pieces, after, spelt, onLine⟩
      rw [String.toList_ofList] at spelt
      obtain rfl := (List.cons.inj spelt).2
      rw [literal?_append onLine] at unread
      cases unread
  | @escape opening part rest quote good bad c after opened due known unknown =>
    obtain ⟨lead, same, awaits⟩ := exists_awaits split read opened
    have member : ⟨.string quote (good ++ .escape c :: bad),
        quote.char :: (good.flatMap Piece.chars ++ '\\' :: c :: after)⟩ ∈ lexemes source := by
      simp [split]
    obtain ⟨behind, literal, onLine⟩ := spelt_of_mem member
    obtain rfl : after = bad.flatMap Piece.chars ++ quote.char :: behind := by
      simpa [Piece.chars] using literal
    refine ⟨String.ofList (lead.toList ++ quote.char :: good.flatMap Piece.chars), ?_, lead, quote,
      good, bad, behind, awaits, by simp, by simp, onLine, known, unknown⟩
    rw [same, sourceFrom, String.toList_ofList, List.append_assoc, List.cons_append]

/-- An error points at the first offence: the source is well-formed in front of it, except perhaps
for an argument that is still due where a literal is broken or a character starts nothing, and from
there on it is what the error says. -/
theorem offends_of_parse {source : String} {error : Error} (failed : parse source = .error error) :
    ∃ front back : String, source = front ++ back ∧
      error.place = .atOffset source front.utf8ByteSize ∧ Offends front back error.problem := by
  obtain ⟨phrases, placed, behind, stop, before, split, read, halts, here, rfl⟩ :=
    exists_stop failed
  obtain ⟨front, same, offends⟩ := halts.exists_offends split read
  obtain rfl : before = front.toList := List.append_cancel_right (here.symm.trans same)
  have whole : source = front ++ String.ofList stop.here := by
    rw [← String.toList_inj, same, String.toList_append, String.toList_ofList]
  refine ⟨front, String.ofList stop.here, whole, ?_, offends⟩
  rw [whole, Location.atOffset_append]

/-- In the argument of a directive, behind a character of two bytes, the first of two escapes that
are not known. -/
theorem offends_of_parse_escape :
    parse "\"é\"\nTAG 'a\\qb\\z'" = .error ⟨.invalidEscape 'q', ⟨2, 7⟩⟩ ∧
      ∃ front back : String, "\"é\"\nTAG 'a\\qb\\z'" = front ++ back ∧
        ⟨2, 7⟩ = Location.atOffset "\"é\"\nTAG 'a\\qb\\z'" front.utf8ByteSize ∧
        Offends front back (.invalidEscape 'q') := by
  have failed : parse "\"é\"\nTAG 'a\\qb\\z'" = .error ⟨.invalidEscape 'q', ⟨2, 7⟩⟩ := by
    decide +kernel
  exact ⟨failed, offends_of_parse failed⟩

end LineLayout.Script
