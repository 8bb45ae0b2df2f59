import LineLayout.Proofs.Spelling
import LineLayout.Script.Reading

/-!
# The grammar of scripts

A script is a sequence of phrases: a word for a mark, a string literal, or a word for a directive
and its arguments. A derivation of a source cuts it into stretches and takes its words and literals
together as phrases. A source is read as tokens exactly if it has a derivation, and the tokens are
those of its phrases; and no source has two (`parse_eq_ok_iff_derivation`).
-/

namespace LineLayout.Script

/-! ## Phrases -/

/-- The words that stand for a mark or a directive. -/
def reservedWords : List String :=
  Mark.all.map Mark.mnemonic ++ Directive.all.map Directive.word

example : reservedWords =
    ["NL", "NBR", "INDENT", "DEDENT", "LIST", "LI", "LIST_END", "SLP", "SRP", "TAG", "STYLE",
      "KW"] := rfl

/-- The character that a piece of a literal stands for. -/
def Piece.value : Piece → Char
  | char c => c
  | escape 'n' => '\n'
  | escape 't' => '\t'
  | escape c => c

/-- The text that a literal stands for. -/
def Literal.text (literal : Literal) : String :=
  String.ofList (literal.pieces.map Piece.value)

/-- One token as a script spells it. -/
inductive Phrase where
  | mark (mark : Mark)
  | text (literal : Literal)
  | tag (literal : Literal)
  | keyword (literal : Literal)
  | styled (style : { word : String // word ∉ reservedWords }) (literal : Literal)

namespace Phrase

/-- The words and literals that a phrase is made of. -/
def spelled : Phrase → List Spelled
  | mark m => [.word m.mnemonic]
  | text l => [.literal l]
  | tag l => [.word "TAG", .literal l]
  | keyword l => [.word "KW", .literal l]
  | styled style l => [.word "STYLE", .word style, .literal l]

/-- The token that a phrase says. -/
def token : Phrase → Token
  | mark m => .mark m
  | text l =>
    match l.quote with
    | .plain => .plain l.text
    | .escaping => .escaped l.text
  | tag l => .tag l.text
  | keyword l => .keyword l.text
  | styled style l => .styled style l.text

end Phrase

/-- A way to read a source: the stretches that it consists of, and the phrases that its words and
literals make up. -/
structure Derivation (source : String) where
  stretches : List Stretch
  phrases : List Phrase
  cuts : Cuts source.toList stretches
  spelled : stretches.filterMap Stretch.spelled? = phrases.flatMap Phrase.spelled

/-- The tokens that a source says if it is read so. -/
def Derivation.tokens {source : String} (derivation : Derivation source) : List Token :=
  derivation.phrases.map Phrase.token

/-! ## Reserved words -/

section Words

variable {word : String}

theorem Lexeme.ofWord_mnemonic (mark : Mark) : ofWord mark.mnemonic = .mark mark := by
  rw [ofWord, Mark.ofMnemonic?_mnemonic]

theorem Lexeme.ofWord_directive (directive : Directive) :
    ofWord directive.word = .directive directive := by
  cases directive <;> rfl

theorem Lexeme.ofWord_of_notMem (free : word ∉ reservedWords) : ofWord word = .name word := by
  rw [reservedWords, List.mem_append, not_or, List.mem_map, List.mem_map] at free
  have unmarked : Mark.ofMnemonic? word = none := by
    rw [Mark.ofMnemonic?, List.find?_eq_none]
    intro m member
    simpa using fun same => free.1 ⟨m, member, same⟩
  have undirected : Directive.ofWord? word = none := by
    rw [Directive.ofWord?, List.find?_eq_none]
    intro d member
    simpa using fun same => free.2 ⟨d, member, same⟩
  rw [ofWord, unmarked, undirected]

theorem Lexeme.notMem_of_ofWord {name : String} (read : ofWord word = .name name) :
    name ∉ reservedWords := by
  have same := congrArg word? read
  rw [word?_ofWord, word?, Option.some.injEq] at same
  rw [← same, reservedWords, List.mem_append, List.mem_map, List.mem_map]
  rintro (⟨m, -, rfl⟩ | ⟨d, -, rfl⟩)
  · rw [ofWord_mnemonic] at read
    cases read
  · rw [ofWord_directive] at read
    cases read

end Words

/-! ## Texts of literals -/

section Texts

variable {quote : Quote} {pieces : List Piece} {here : List Char}

theorem unescape_of_fits (fits : ∀ piece ∈ pieces, piece.Fits quote) (here : List Char) :
    unescape here pieces = .ok (pieces.map Piece.value) := by
  induction pieces generalizing here with
  | nil => rfl
  | cons piece pieces ih =>
    have behind := ih fun other member => fits other (List.mem_cons_of_mem piece member)
    cases piece with
    | char c => simp [unescape, behind, Except.map, Piece.value]
    | escape c =>
      have valid : c ∈ ['\\', 'n', 't', '"', '\''] := fits _ List.mem_cons_self
      have read : unescapeChar? c = some (Piece.escape c).value := by
        simp only [List.mem_cons, List.not_mem_nil, or_false] at valid
        rcases valid with rfl | rfl | rfl | rfl | rfl <;> rfl
      simp [unescape, behind, Except.map, read]

theorem exists_of_map_eq_ok {ε α β : Type} {result : Except ε α} {f : α → β} {mapped : β}
    (done : result.map f = .ok mapped) : ∃ value, result = .ok value ∧ f value = mapped := by
  cases result with
  | error _ => cases done
  | ok value => exact ⟨value, rfl, Except.ok.inj done⟩

theorem mem_of_unescape {text : List Char} (done : unescape here pieces = .ok text) {c : Char}
    (member : .escape c ∈ pieces) : c ∈ ['\\', 'n', 't', '"', '\''] := by
  induction pieces generalizing here text with
  | nil => cases member
  | cons piece pieces ih =>
    cases piece with
    | char d =>
      rw [unescape] at done
      obtain ⟨tail, inner, -⟩ := exists_of_map_eq_ok done
      exact ih inner (by simpa using member)
    | escape d =>
      rw [unescape] at done
      cases known : unescapeChar? d with
      | none => rw [known] at done; cases done
      | some e =>
        rw [known] at done
        rcases List.mem_cons.1 member with same | behind
        · cases same
          unfold unescapeChar? at known
          split at known <;> first | decide | cases known
        · obtain ⟨tail, inner, -⟩ := exists_of_map_eq_ok done
          exact ih inner behind

theorem Literal.literalText_eq (literal : Literal) (here : List Char) :
    literalText here literal.pieces = .ok literal.text := by
  rw [literalText, unescape_of_fits literal.fits]
  rfl

end Texts

/-! ## Items -/

namespace Phrase

/-- The item that a phrase is. -/
def item : Phrase → Item
  | mark m => .mark m
  | text l => l.quote.item l.text
  | tag l => .tag l.text
  | keyword l => .keyword l.text
  | styled style l => .styled style l.text

theorem token_item (phrase : Phrase) : phrase.item.token = phrase.token := by
  cases phrase with
  | text l =>
    rw [item, token]
    cases l.quote <;> rfl
  | mark | tag | keyword | styled => rfl

/-- The lexemes that a phrase is read as. -/
def lexemes : Phrase → List Lexeme
  | mark m => [.mark m]
  | text l => [.string l.quote l.pieces]
  | tag l => [.directive .tag, .string l.quote l.pieces]
  | keyword l => [.directive .keyword, .string l.quote l.pieces]
  | styled style l => [.directive .style, .name style, .string l.quote l.pieces]

theorem map_lexeme_spelled (phrase : Phrase) :
    phrase.spelled.map Spelled.lexeme = phrase.lexemes := by
  cases phrase with
  | mark m => simp [spelled, lexemes, Spelled.lexeme, Lexeme.ofWord_mnemonic]
  | text l => rfl
  | tag l => rfl
  | keyword l => rfl
  | styled style l =>
    have name := Lexeme.ofWord_of_notMem style.2
    simp only [spelled, lexemes, List.map_cons, List.map_nil, Spelled.lexeme, name]
    rfl

end Phrase

section Items

variable {first : Placed} {rest front after : List Placed} {literal : Literal}

theorem stringArgument_of_literal (directive : Directive) (here : List Char)
    (read : first.lexeme = .string literal.quote literal.pieces) :
    stringArgument directive here (first :: after) = .ok (literal.text, after) := by
  obtain ⟨lexeme, start⟩ := first
  subst read
  rw [stringArgument, literal.literalText_eq]
  rfl

theorem item_of_phrase (phrase : Phrase) (split : first :: rest = front ++ after)
    (read : front.map (·.lexeme) = phrase.lexemes) :
    item first rest = .ok (phrase.item, after) := by
  cases phrase with
  | mark m =>
    obtain ⟨p, tail, rfl, here, none⟩ := List.map_eq_cons_iff.1 read
    obtain rfl := List.map_eq_nil_iff.1 none
    cases split
    rw [item, here]
    rfl
  | text l =>
    obtain ⟨p, tail, rfl, here, none⟩ := List.map_eq_cons_iff.1 read
    obtain rfl := List.map_eq_nil_iff.1 none
    cases split
    rw [item, here]
    simp only [l.literalText_eq]
    rfl
  | tag l | keyword l =>
    obtain ⟨p, tail, rfl, here, more⟩ := List.map_eq_cons_iff.1 read
    obtain ⟨q, tail, rfl, argument, none⟩ := List.map_eq_cons_iff.1 more
    obtain rfl := List.map_eq_nil_iff.1 none
    cases split
    rw [item, here]
    simp only [List.append_eq, List.cons_append, stringArgument_of_literal _ _ argument]
    rfl
  | styled style l =>
    obtain ⟨p, tail, rfl, here, more⟩ := List.map_eq_cons_iff.1 read
    obtain ⟨⟨named, start⟩, tail, rfl, rfl, last⟩ := List.map_eq_cons_iff.1 more
    obtain ⟨q, tail, rfl, argument, none⟩ := List.map_eq_cons_iff.1 last
    obtain rfl := List.map_eq_nil_iff.1 none
    cases split
    rw [item, here]
    simp only [List.append_eq, List.cons_append, nameArgument,
      stringArgument_of_literal _ _ argument]
    rfl

/-- What the reader of lexemes has made sure of: a name is not reserved, and a literal holds neither
its quote nor a backslash as it stands and ends on its line. -/
def Lexeme.Lexed : Lexeme → Prop
  | name word => word ∉ reservedWords
  | string quote pieces => ∀ c, .char c ∈ pieces → c ≠ quote.char ∧ c ≠ '\\' ∧ c ≠ '\n'
  | _ => True

theorem Lexeme.lexed_atStart (c : Char) (rest : List Char) : (Lexeme.atStart c rest).1.Lexed := by
  unfold Lexeme.atStart
  split
  · generalize read : ofWord _ = lexeme
    cases lexeme with
    | name word => exact notMem_of_ofWord read
    | string quote pieces => exact absurd read (ofWord_ne rfl _)
    | mark | directive | stray => trivial
  split
  · rename_i quoted
    split
    · rename_i inner
      intro d member
      rw [Quote.char_of_ofChar? quoted]
      exact (of_literal? inner).2 _ member
    · trivial
  · trivial

theorem lexed_of_mem {source : List Char} {placed : Placed} (member : placed ∈ lexemes source) :
    placed.lexeme.Lexed := by
  fun_induction lexemes source with
  | case1 => cases member
  | case2 source c rest gap ih =>
    rcases List.mem_cons.1 member with rfl | behind
    · exact Lexeme.lexed_atStart c rest
    · exact ih behind

theorem exists_literal {quote : Quote} {pieces : List Piece} {here : List Char} {text : String}
    (lexed : (Lexeme.string quote pieces).Lexed) (done : literalText here pieces = .ok text) :
    ∃ literal : Literal, literal.quote = quote ∧ literal.pieces = pieces := by
  obtain ⟨chars, inner, -⟩ := exists_of_map_eq_ok done
  have fits : ∀ piece ∈ pieces, piece.Fits quote := by
    intro piece member
    cases piece with
    | char c => exact lexed c member
    | escape c => exact mem_of_unescape inner member
  exact ⟨⟨quote, pieces, fits⟩, rfl, rfl⟩

theorem exists_stringArgument {directive : Directive} {here : List Char} {text : String}
    (lexed : ∀ placed ∈ rest, placed.lexeme.Lexed)
    (taken : stringArgument directive here rest = .ok (text, after)) :
    ∃ (placed : Placed) (literal : Literal), rest = placed :: after ∧
      placed.lexeme = .string literal.quote literal.pieces := by
  unfold stringArgument at taken
  split at taken
  · obtain ⟨_, done, same⟩ := exists_of_map_eq_ok taken
    cases same
    obtain ⟨literal, rfl, rfl⟩ := exists_literal (lexed _ List.mem_cons_self) done
    exact ⟨_, literal, rfl, rfl⟩
  · cases taken
  · cases taken

theorem exists_nameArgument {here : List Char} {name : String}
    (lexed : ∀ placed ∈ rest, placed.lexeme.Lexed)
    (taken : nameArgument here rest = .ok (name, after)) :
    name ∉ reservedWords ∧ ∃ placed : Placed, rest = placed :: after ∧
      placed.lexeme = .name name := by
  unfold nameArgument at taken
  split at taken <;> cases taken
  exact ⟨lexed _ List.mem_cons_self, _, rfl, rfl⟩

theorem exists_phrase {one : Item} (lexed : ∀ placed ∈ first :: rest, placed.lexeme.Lexed)
    (taken : item first rest = .ok (one, after)) :
    ∃ (phrase : Phrase) (front : List Placed), first :: rest = front ++ after ∧
      front.map (·.lexeme) = phrase.lexemes := by
  obtain ⟨lexedFirst, lexedRest⟩ := List.forall_mem_cons.1 lexed
  unfold item at taken
  cases here : first.lexeme with
  | mark m =>
    rw [here] at taken
    cases taken
    exact ⟨.mark m, [first], rfl, by simp [here, Phrase.lexemes]⟩
  | string quote pieces =>
    rw [here] at taken lexedFirst
    obtain ⟨text, done, same⟩ := exists_of_map_eq_ok taken
    cases same
    obtain ⟨literal, rfl, rfl⟩ := exists_literal lexedFirst done
    exact ⟨.text literal, [first], rfl, by simp [here, Phrase.lexemes]⟩
  | directive directive =>
    rw [here] at taken
    cases directive with
    | tag =>
      obtain ⟨_, done, same⟩ := exists_of_map_eq_ok taken
      cases same
      obtain ⟨placed, literal, rfl, argument⟩ := exists_stringArgument lexedRest done
      exact ⟨.tag literal, [first, placed], rfl, by simp [here, argument, Phrase.lexemes]⟩
    | keyword =>
      obtain ⟨_, done, same⟩ := exists_of_map_eq_ok taken
      cases same
      obtain ⟨placed, literal, rfl, argument⟩ := exists_stringArgument lexedRest done
      exact ⟨.keyword literal, [first, placed], rfl, by simp [here, argument, Phrase.lexemes]⟩
    | style =>
      dsimp only at taken
      split at taken
      · rename_i style tail styled
        obtain ⟨free, placed, rfl, name⟩ := exists_nameArgument lexedRest styled
        obtain ⟨_, done, same⟩ := exists_of_map_eq_ok taken
        cases same
        obtain ⟨last, literal, rfl, argument⟩ :=
          exists_stringArgument (List.forall_mem_cons.1 lexedRest).2 done
        exact ⟨.styled ⟨style, free⟩ literal, [first, placed, last], rfl,
          by simp [here, name, argument, Phrase.lexemes]⟩
      · cases taken
  | name word => rw [here] at taken; cases taken
  | stray problem => rw [here] at taken; cases taken

end Items

/-! ## Scripts -/

theorem Reading.ofLexemes_of_item {first : Placed} {rest after : List Placed} {one : Item}
    (taken : item first rest = .ok (one, after)) :
    Reading.ofLexemes (first :: rest) =
      ⟨one :: (Reading.ofLexemes after).items, (Reading.ofLexemes after).stop?⟩ := by
  rw [ofLexemes]
  split
  · rename_i refused
    rw [taken] at refused
    cases refused
  · rename_i taken'
    rw [taken] at taken'
    cases taken'
    rfl

theorem Phrase.lexemes_ne_nil (phrase : Phrase) : phrase.lexemes ≠ [] := by
  cases phrase <;> exact List.cons_ne_nil _ _

/-- Phrases are read one after the other. -/
theorem Reading.ofLexemes_of_phrases {placed : List Placed} {phrases : List Phrase}
    (read : placed.map (·.lexeme) = phrases.flatMap Phrase.lexemes) :
    Reading.ofLexemes placed = ⟨phrases.map Phrase.item, none⟩ := by
  induction phrases generalizing placed with
  | nil =>
    obtain rfl := List.map_eq_nil_iff.1 read
    rw [ofLexemes]
    rfl
  | cons phrase phrases ih =>
    rw [List.flatMap_cons] at read
    cases placed with
    | nil =>
      have none := (List.append_eq_nil_iff.1 read.symm).1
      exact absurd none phrase.lexemes_ne_nil
    | cons first rest =>
      obtain ⟨front, after, split, here, behind⟩ := List.map_eq_append_iff.1 read
      rw [ofLexemes_of_item (item_of_phrase phrase split here), ih behind, List.map_cons]

/-- What is read to its end is a sequence of phrases. -/
theorem exists_phrases {placed : List Placed} (lexed : ∀ one ∈ placed, one.lexeme.Lexed)
    (ended : (Reading.ofLexemes placed).stop? = none) :
    ∃ phrases : List Phrase, placed.map (·.lexeme) = phrases.flatMap Phrase.lexemes := by
  fun_induction Reading.ofLexemes placed with
  | case1 => exact ⟨[], rfl⟩
  | case2 first rest stop refused => cases ended
  | case3 first rest one after taken reading ih =>
    obtain ⟨phrase, front, split, here⟩ := exists_phrase lexed taken
    rw [split] at lexed ⊢
    obtain ⟨phrases, behind⟩ :=
      ih (fun other member => lexed other (List.mem_append_right front member)) ended
    exact ⟨phrase :: phrases, by simp [here, behind]⟩

theorem map_lexeme_flatMap (phrases : List Phrase) :
    (phrases.flatMap Phrase.spelled).map Spelled.lexeme = phrases.flatMap Phrase.lexemes := by
  simp only [List.map_flatMap, Phrase.map_lexeme_spelled]

/-- Its lexemes tell a phrase, and where it ends. -/
theorem Phrase.eq_of_append {first second : Phrase} {after behind : List Lexeme}
    (same : first.lexemes ++ after = second.lexemes ++ behind) :
    first = second ∧ after = behind := by
  cases first <;> cases second <;> simp only [lexemes, List.cons_append, List.nil_append,
    List.cons.injEq, Lexeme.mark.injEq, Lexeme.name.injEq, Lexeme.string.injEq,
    Lexeme.directive.injEq, reduceCtorEq, false_and, true_and] at same
  case mark.mark => exact ⟨congrArg _ same.1, same.2⟩
  case text.text | tag.tag | keyword.keyword =>
    obtain ⟨⟨quote, pieces⟩, tail⟩ := same
    exact ⟨congrArg _ (Literal.ext quote pieces), tail⟩
  case styled.styled =>
    obtain ⟨name, ⟨quote, pieces⟩, tail⟩ := same
    exact ⟨congrArg₂ _ (Subtype.ext name) (Literal.ext quote pieces), tail⟩

theorem flatMap_lexemes_injective :
    Function.Injective fun phrases : List Phrase => phrases.flatMap Phrase.lexemes := by
  intro first second same
  dsimp only at same
  induction first generalizing second with
  | nil =>
    cases second with
    | nil => rfl
    | cons phrase phrases =>
      exact absurd (List.append_eq_nil_iff.1 same.symm).1 phrase.lexemes_ne_nil
  | cons phrase phrases ih =>
    cases second with
    | nil => exact absurd (List.append_eq_nil_iff.1 same).1 phrase.lexemes_ne_nil
    | cons phrase' phrases' =>
      rw [List.flatMap_cons, List.flatMap_cons] at same
      obtain ⟨rfl, behind⟩ := Phrase.eq_of_append same
      rw [ih behind]

theorem map_token_item (phrases : List Phrase) :
    (phrases.map Phrase.item).map Item.token = phrases.map Phrase.token := by
  simp [Phrase.token_item]

theorem parse_of_phrases {source : String} {phrases : List Phrase}
    (read : (lexemes source.toList).map (·.lexeme) = phrases.flatMap Phrase.lexemes) :
    parse source = .ok (phrases.map Phrase.token) := by
  rw [parse, Script.read, Reading.ofLexemes_of_phrases read]
  exact congrArg Except.ok (map_token_item phrases)

theorem Derivation.map_lexemes {source : String} (derivation : Derivation source) :
    (lexemes source.toList).map (·.lexeme) = derivation.phrases.flatMap Phrase.lexemes := by
  rw [derivation.cuts.map_lexemes, derivation.spelled, map_lexeme_flatMap]

theorem Derivation.parse_eq {source : String} (derivation : Derivation source) :
    parse source = .ok derivation.tokens :=
  parse_of_phrases derivation.map_lexemes

/-- What is read has a derivation. -/
theorem nonempty_derivation {source : String} {tokens : List Token}
    (read : parse source = .ok tokens) : Nonempty (Derivation source) := by
  have ended : (Reading.ofLexemes (lexemes source.toList)).stop? = none := by
    unfold parse Script.read at read
    dsimp only at read
    split at read
    · cases read
    · assumption
  obtain ⟨phrases, placed⟩ := exists_phrases (fun _ => lexed_of_mem) ended
  rw [← map_lexeme_flatMap] at placed
  obtain ⟨stretches, cuts, spelled⟩ := exists_cuts placed
  exact ⟨⟨stretches, phrases, cuts, spelled⟩⟩

/-- Scripts are read by their grammar. A source is read as tokens exactly if it can be cut into
blanks, comments, words and literals, where words and comments run as far as they can, so that the
words and literals are a sequence of phrases. The tokens are then those of the phrases, one for
each, and there is only one way to cut the source and to take its words together. -/
theorem parse_eq_ok_iff_derivation (source : String) :
    (∀ tokens, parse source = .ok tokens ↔
      ∃ derivation : Derivation source, derivation.tokens = tokens) ∧
    ∀ first second : Derivation source, first = second := by
  refine ⟨?_, ?_⟩
  · intro tokens
    constructor
    · intro read
      obtain ⟨derivation⟩ := nonempty_derivation read
      rw [derivation.parse_eq] at read
      exact ⟨derivation, Except.ok.inj read⟩
    · rintro ⟨derivation, rfl⟩
      exact derivation.parse_eq
  · rintro ⟨stretches, phrases, cuts, spelled⟩ ⟨stretches', phrases', cuts', spelled'⟩
    obtain rfl := cuts.unique cuts'
    have same : phrases.flatMap Phrase.lexemes = phrases'.flatMap Phrase.lexemes := by
      rw [← map_lexeme_flatMap, ← spelled, spelled', map_lexeme_flatMap]
    obtain rfl := flatMap_lexemes_injective same
    rfl

end LineLayout.Script
