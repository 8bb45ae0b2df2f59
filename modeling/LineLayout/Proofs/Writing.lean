import LineLayout.Proofs.Grammar
import Mathlib.Data.List.Forall2

/-!
# Writing scripts

Every item can be written down as a script says it. Between quotes, four characters of a text are
written with a backslash: the backslash itself, the line feed, the tabulator and the quote.
`Item.Spells` gives the lexemes of an item, with either quote for the argument of a directive, and
`Writes` puts any gaps between them. Whatever the quotes and the gaps, what is written is read as
the items it was written for.
-/

namespace LineLayout.Script

/-! ## Texts between quotes -/

namespace Quote

/-- A character as it is written between these quotes. -/
def escape (quote : Quote) (c : Char) : List Char :=
  if c = '\\' then ['\\', '\\']
  else if c = '\n' then ['\\', 'n']
  else if c = '\t' then ['\\', 't']
  else if c = quote.char then ['\\', quote.char]
  else [c]

/-- A text between these quotes. -/
def written (quote : Quote) (text : String) : List Char :=
  quote.char :: (text.toList.flatMap quote.escape ++ [quote.char])

/-- The piece of a literal that a character is written as. -/
def piece (quote : Quote) (c : Char) : Piece :=
  if c = '\\' then .escape '\\'
  else if c = '\n' then .escape 'n'
  else if c = '\t' then .escape 't'
  else if c = quote.char then .escape quote.char
  else .char c

theorem chars_piece (quote : Quote) (c : Char) : (quote.piece c).chars = quote.escape c := by
  unfold piece escape
  split_ifs <;> rfl

theorem value_piece (quote : Quote) (c : Char) : (quote.piece c).value = c := by
  unfold piece
  split_ifs with backslash newline tab same
  · exact backslash.symm
  · exact newline.symm
  · exact tab.symm
  · rw [same]
    cases quote <;> rfl
  · rfl

theorem fits_piece (quote : Quote) (c : Char) : (quote.piece c).Fits quote := by
  unfold piece
  split_ifs with backslash newline tab same
  · simp [Piece.Fits]
  · simp [Piece.Fits]
  · simp [Piece.Fits]
  · cases quote <;> simp [Piece.Fits, Quote.char]
  · exact ⟨same, backslash, newline⟩

/-- The literal that a text is written as. -/
def literal (quote : Quote) (text : String) : Literal where
  quote := quote
  pieces := text.toList.map quote.piece
  fits := by
    intro piece member
    obtain ⟨c, -, rfl⟩ := List.mem_map.1 member
    exact quote.fits_piece c

@[simp]
theorem chars_literal (quote : Quote) (text : String) :
    (quote.literal text).chars = quote.written text := by
  simp only [Literal.chars, literal, written, List.flatMap_map, chars_piece]

@[simp]
theorem text_literal (quote : Quote) (text : String) : (quote.literal text).text = text := by
  have values : (text.toList.map quote.piece).map Piece.value = text.toList := by
    simp [Function.comp_def, value_piece]
  rw [Literal.text, literal, values, String.ofList_toList]

end Quote

/-! ## Items -/

/-- The lexemes that an item is written with. The directives take their argument in either
quotes. -/
inductive Item.Spells : Item → List (List Char) → Prop
  | mark (m : Mark) : Spells (.mark m) [m.mnemonic.toList]
  | text (text : String) : Spells (.text text) [Quote.plain.written text]
  | escaped (text : String) : Spells (.escaped text) [Quote.escaping.written text]
  | tag (quote : Quote) (markup : String) :
      Spells (.tag markup) ["TAG".toList, quote.written markup]
  | keyword (quote : Quote) (text : String) :
      Spells (.keyword text) ["KW".toList, quote.written text]
  | styled {style : String} (word : IsWord style.toList) (free : style ∉ reservedWords)
      (quote : Quote) (text : String) :
      Spells (.styled style text) ["STYLE".toList, style.toList, quote.written text]

/-- The lexemes one after the other, each with a gap behind it. Two of them do not touch. -/
inductive Spaced : List (List Char) → List Char → Prop
  | nil : Spaced [] []
  | cons {lexeme gap rest : List Char} {lexemes : List (List Char)} (isGap : IsGap gap)
      (apart : lexemes ≠ [] → gap ≠ []) (behind : Spaced lexemes rest) :
      Spaced (lexeme :: lexemes) (lexeme ++ (gap ++ rest))

/-- A source in which the items are written. -/
def Writes (items : List Item) (source : String) : Prop :=
  ∃ (spellings : List (List (List Char))) (lead rest : List Char),
    List.Forall₂ Item.Spells items spellings ∧ IsGap lead ∧ Spaced spellings.flatten rest ∧
      source.toList = lead ++ rest

/-! ## What is written can be cut -/

namespace Spelled

/-- Whether a lexeme may stand in front of everything that ends a word. -/
def Whole (spelled : Spelled) : Prop :=
  ∀ after : List Char, (∀ c ∈ after.head?, ¬ (IsLetter c ∨ IsDigit c)) → spelled.Fits after

theorem whole_word {w : String} (isWord : IsWord w.toList) : (word w).Whole :=
  fun _ ends => ⟨isWord, ends⟩

@[simp]
theorem whole_literal (l : Literal) : (literal l).Whole :=
  fun _ _ => trivial

end Spelled

theorem whole_of_reserved : ∀ w ∈ reservedWords, (Spelled.word w).Whole := by
  have words : ∀ w ∈ reservedWords, IsWord w.toList := by decide +kernel
  exact fun w reserved => Spelled.whole_word (words w reserved)

/-- The lexemes of a phrase may stand apart if its style is a word. -/
theorem Phrase.whole (phrase : Phrase)
    (named : ∀ style literal, phrase = .styled style literal → IsWord style.val.toList) :
    ∀ spelled ∈ phrase.spelled, spelled.Whole := by
  cases phrase with
  | mark m =>
    have reserved : m.mnemonic ∈ reservedWords := by
      rcases m with _ | _ | _ | _ | _ | (_ | _) | (_ | _) <;> decide +kernel
    simpa [spelled] using whole_of_reserved _ reserved
  | text l => simp [spelled]
  | tag l => simpa [spelled] using whole_of_reserved "TAG" (by decide +kernel)
  | keyword l => simpa [spelled] using whole_of_reserved "KW" (by decide +kernel)
  | styled style l =>
    have word := Spelled.whole_word (named style l rfl)
    simpa [spelled] using ⟨whole_of_reserved "STYLE" (by decide +kernel), word⟩

theorem Item.Spells.exists_phrase {one : Item} {lexemes : List (List Char)}
    (spells : one.Spells lexemes) :
    ∃ phrase : Phrase, phrase.item = one ∧ phrase.spelled.map Spelled.chars = lexemes ∧
      ∀ spelled ∈ phrase.spelled, spelled.Whole := by
  cases spells with
  | mark m => exact ⟨.mark m, rfl, rfl, Phrase.whole _ (by simp)⟩
  | text text =>
    refine ⟨.text (Quote.plain.literal text), ?_, ?_, Phrase.whole _ (by simp)⟩
    · exact congrArg Item.text (Quote.text_literal .plain text)
    · simp [Phrase.spelled, Spelled.chars]
  | escaped text =>
    refine ⟨.text (Quote.escaping.literal text), ?_, ?_, Phrase.whole _ (by simp)⟩
    · exact congrArg Item.escaped (Quote.text_literal .escaping text)
    · simp [Phrase.spelled, Spelled.chars]
  | tag quote markup =>
    refine ⟨.tag (quote.literal markup), ?_, ?_, Phrase.whole _ (by simp)⟩
    · simp [Phrase.item]
    · simp [Phrase.spelled, Spelled.chars]
  | keyword quote text =>
    refine ⟨.keyword (quote.literal text), ?_, ?_, Phrase.whole _ (by simp)⟩
    · simp [Phrase.item]
    · simp [Phrase.spelled, Spelled.chars]
  | @styled style word free quote text =>
    refine ⟨.styled ⟨style, free⟩ (quote.literal text), ?_, ?_, Phrase.whole _ ?_⟩
    · simp [Phrase.item]
    · simp [Phrase.spelled, Spelled.chars]
    · rintro _ _ ⟨⟩
      exact word

/-- Lexemes with gaps between them are cut where they are written apart. -/
theorem Spaced.exists_cuts {lexemes : List (List Char)} {source : List Char} {words : List Spelled}
    (spaced : Spaced lexemes source) (spelled : words.map Spelled.chars = lexemes)
    (whole : ∀ word ∈ words, word.Whole) :
    ∃ stretches, Cuts source stretches ∧ stretches.filterMap Stretch.spelled? = words := by
  induction spaced generalizing words with
  | nil =>
    obtain rfl := List.map_eq_nil_iff.1 spelled
    exact ⟨[], .nil, rfl⟩
  | @cons lexeme gap rest lexemes isGap apart behind ih =>
    obtain ⟨word, words, rfl, rfl, others⟩ := List.map_eq_cons_iff.1 spelled
    rw [List.forall_mem_cons] at whole
    obtain ⟨stretches, cuts, found⟩ := ih others whole.2
    obtain ⟨front, cuts, none⟩ := isGap.exists_cuts cuts
    have ends : ∀ c ∈ (gap ++ rest).head?, ¬ (IsLetter c ∨ IsDigit c) := by
      cases gap with
      | cons c gap => exact isGap.head?
      | nil =>
        -- only the last lexeme may have nothing behind it
        have last : lexemes = [] := by
          by_contra more
          exact apart more rfl
        subst last
        cases behind
        simp
    have fits : (Stretch.spelled word).Fits (gap ++ rest) := whole.1 _ ends
    refine ⟨.spelled word :: (front ++ stretches), .cons fits cuts, ?_⟩
    simp [Stretch.spelled?, List.filterMap_append, none, found]

/-! ## What is written is read -/

end LineLayout.Script
