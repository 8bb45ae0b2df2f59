import LineLayout.Script.Lexeme
import Mathlib.Data.List.TakeWhile

/-!
# How scripts are spelled

The source of a script is a sequence of stretches: blanks and comments, words and string literals.
`Cuts` says which sequences spell a source. Words and comments run as far as they can, so there is
at most one (`Cuts.unique`), and its words and literals are what `lexemes` finds
(`Cuts.map_lexemes`). Wherever `lexemes` finds only words and literals, there is one
(`exists_cuts`).
-/

namespace LineLayout.Script

/-! ## Words -/

/-- A letter, or the underscore. -/
def IsLetter (c : Char) : Prop :=
  'A' ≤ c ∧ c ≤ 'Z' ∨ 'a' ≤ c ∧ c ≤ 'z' ∨ c = '_'

/-- A decimal digit. -/
def IsDigit (c : Char) : Prop :=
  '0' ≤ c ∧ c ≤ '9'

/-- Letters and digits, and a letter first. -/
def IsWord : List Char → Prop
  | [] => False
  | first :: rest => IsLetter first ∧ ∀ c ∈ rest, IsLetter c ∨ IsDigit c

theorem isWordStart_iff {c : Char} : isWordStart c = true ↔ IsLetter c := by
  unfold isWordStart IsLetter
  delta Char.isAlpha Char.isUpper Char.isLower
  simp [Char.le_def, or_assoc]

theorem isWordPart_iff {c : Char} : isWordPart c = true ↔ IsLetter c ∨ IsDigit c := by
  have split : isWordPart c = (isWordStart c || c.isDigit) := by
    simp only [isWordPart, isWordStart, Char.isAlphanum, Bool.or_assoc, Bool.or_comm c.isDigit]
  rw [split, Bool.or_eq_true, isWordStart_iff]
  simp [IsDigit, Char.isDigit, Char.le_def]

theorem isBlank_iff {c : Char} : isBlank c = true ↔ c ∈ [' ', '\t', '\r', '\n', '\x0c'] := by
  simp [isBlank, or_assoc]

instance : DecidablePred IsLetter := fun _ => inferInstanceAs (Decidable (_ ∨ _))

instance : DecidablePred IsDigit := fun _ => inferInstanceAs (Decidable (_ ∧ _))

instance : DecidablePred IsWord
  | [] => .isFalse id
  | first :: rest =>
    decidable_of_iff ((isWordStart first && rest.all isWordPart) = true)
      (by simp [IsWord, isWordStart_iff, isWordPart_iff])

theorem IsLetter.starts {c : Char} (letter : IsLetter c) : isBlank c = false ∧ c ≠ '#' := by
  constructor
  · by_contra blank
    have gap := isBlank_iff.1 (Bool.not_eq_false _ ▸ blank)
    simp only [List.mem_cons, List.not_mem_nil, or_false] at gap
    rcases gap with rfl | rfl | rfl | rfl | rfl <;> exact absurd letter (by decide)
  · rintro rfl
    exact absurd letter (by decide)

section Exact

variable {test : Char → Bool} {inside after : List Char}

theorem takeWhile_append_exact (all : ∀ c ∈ inside, test c = true)
    (ends : ∀ c ∈ after.head?, test c = false) : (inside ++ after).takeWhile test = inside := by
  rw [List.takeWhile_append_of_pos all, List.append_right_eq_self]
  cases after with
  | nil => rfl
  | cons c after => simp [ends c (by simp)]

theorem dropWhile_append_exact (all : ∀ c ∈ inside, test c = true)
    (ends : ∀ c ∈ after.head?, test c = false) : (inside ++ after).dropWhile test = after := by
  rw [List.dropWhile_append_of_pos all]
  cases after with
  | nil => rfl
  | cons c after => simp [ends c (by simp)]

theorem head?_dropWhile (test : Char → Bool) (source : List Char) :
    ∀ c ∈ (source.dropWhile test).head?, test c = false := by
  intro c member
  have stops := List.head?_dropWhile_not test source
  rw [Option.mem_def.1 member] at stops
  exact stops

theorem exists_word (rest : List Char) :
    ∃ parts after, rest = parts ++ after ∧ (∀ c ∈ parts, IsLetter c ∨ IsDigit c) ∧
      ∀ c ∈ after.head?, ¬ (IsLetter c ∨ IsDigit c) := by
  refine ⟨rest.takeWhile isWordPart, rest.dropWhile isWordPart, by simp, ?_, ?_⟩
  · intro c member
    exact isWordPart_iff.1 (List.mem_takeWhile_imp member)
  · intro c member
    rw [← isWordPart_iff, Bool.not_eq_true]
    exact head?_dropWhile isWordPart rest c member

end Exact

/-! ## String literals -/

/-- A piece as it is spelled. -/
def Piece.chars : Piece → List Char
  | char c => [c]
  | escape c => ['\\', c]

/-- Whether a piece may stand between quotes: any other character of the same line as it stands, and
five characters behind a backslash. -/
def Piece.Fits (quote : Quote) : Piece → Prop
  | char c => c ≠ quote.char ∧ c ≠ '\\' ∧ c ≠ '\n'
  | escape c => c ∈ ['\\', 'n', 't', '"', '\'']

/-- Whether a piece is read between quotes, whatever its escape: a literal ends on its line. -/
def Piece.OnLine (quote : Char) : Piece → Prop
  | char c => c ≠ quote ∧ c ≠ '\\' ∧ c ≠ '\n'
  | escape c => c ≠ '\n'

theorem Piece.Fits.onLine {quote : Quote} {piece : Piece} (fits : piece.Fits quote) :
    piece.OnLine quote.char := by
  cases piece with
  | char c => exact fits
  | escape c =>
    rintro rfl
    simp [Piece.Fits] at fits

/-- The source starts with a literal that is complete on its line, whatever its escapes. -/
def StartsLiteral (quote : Quote) (pieces : List Piece) (source after : List Char) : Prop :=
  source = quote.char :: (pieces.flatMap Piece.chars ++ quote.char :: after) ∧
    ∀ piece ∈ pieces, piece.OnLine quote.char

/-- A string literal that is well-formed. -/
@[ext]
structure Literal where
  quote : Quote
  pieces : List Piece
  fits : ∀ piece ∈ pieces, piece.Fits quote

/-- A literal as it is spelled, quotes included. -/
def Literal.chars (literal : Literal) : List Char :=
  literal.quote.char :: (literal.pieces.flatMap Piece.chars ++ [literal.quote.char])

theorem Quote.ofChar?_char (quote : Quote) : Quote.ofChar? quote.char = some quote := by
  cases quote <;> rfl

theorem Quote.char_of_ofChar? {c : Char} {quote : Quote} (read : Quote.ofChar? c = some quote) :
    quote.char = c := by
  unfold ofChar? at read
  split at read
  · rename_i same
    cases read
    exact same.symm
  split at read
  · rename_i same
    cases read
    exact same.symm
  · cases read

theorem Quote.starts (quote : Quote) :
    isBlank quote.char = false ∧ quote.char ≠ '#' ∧ isWordStart quote.char = false := by
  cases quote <;> decide

/-- Pieces are read up to the closing quote. Escapes are not looked at yet. -/
theorem literal?_append {quote : Quote} {pieces : List Piece}
    (onLine : ∀ piece ∈ pieces, piece.OnLine quote.char) (after : List Char) :
    literal? quote.char (pieces.flatMap Piece.chars ++ quote.char :: after) =
      some (pieces, after) := by
  induction pieces with
  | nil =>
    unfold literal?
    simp
  | cons piece pieces ih =>
    have here := onLine piece List.mem_cons_self
    have behind := ih fun other member => onLine other (List.mem_cons_of_mem piece member)
    cases piece with
    | char c =>
      obtain ⟨other, plain, sameLine⟩ := here
      unfold literal?
      simp [Piece.chars, other, plain, sameLine, behind]
    | escape c =>
      have backslash : '\\' ≠ quote.char := by cases quote <;> decide
      have sameLine : c ≠ '\n' := here
      unfold literal?
      simp [Piece.chars, backslash, sameLine, behind]

/-- A literal that is read is spelled by its pieces. -/
theorem of_literal? {quote : Char} {source after : List Char} {pieces : List Piece}
    (read : literal? quote source = some (pieces, after)) :
    source = pieces.flatMap Piece.chars ++ quote :: after ∧
      ∀ piece ∈ pieces, piece.OnLine quote := by
  fun_induction literal? quote source generalizing pieces with
  | case1 => cases read
  | case2 => cases read; simp
  | case3 => cases read
  | case4 => cases read
  | case5 => cases read
  | case6 escape rest sameLine _ _ ih =>
    obtain ⟨⟨tail, last⟩, inner, same⟩ := Option.map_eq_some_iff.1 read
    cases same
    obtain ⟨spelled, onLine⟩ := ih inner
    exact ⟨by simp [Piece.chars, spelled], List.forall_mem_cons.2 ⟨sameLine, onLine⟩⟩
  | case7 c rest other sameLine unescaped ih =>
    obtain ⟨⟨tail, last⟩, inner, same⟩ := Option.map_eq_some_iff.1 read
    cases same
    obtain ⟨spelled, onLine⟩ := ih inner
    refine ⟨by simp [Piece.chars, spelled], List.forall_mem_cons.2 ⟨?_, onLine⟩⟩
    exact ⟨other, unescaped, sameLine⟩

/-! ## Words and literals -/

/-- A lexeme as it is spelled. -/
inductive Spelled where
  | word (word : String)
  | literal (literal : Literal)

namespace Spelled

/-- The characters of a word or literal. -/
def chars : Spelled → List Char
  | word w => w.toList
  | literal l => l.chars

/-- Whether a word or literal may stand in front of `after`: a word does not end within a word. -/
def Fits (after : List Char) : Spelled → Prop
  | word w => IsWord w.toList ∧ ∀ c ∈ after.head?, ¬ (IsLetter c ∨ IsDigit c)
  | literal _ => True

/-- The lexeme that is read there. -/
def lexeme : Spelled → Lexeme
  | word w => .ofWord w
  | literal l => .string l.quote l.pieces

end Spelled

/-- The word that a lexeme is. -/
def Lexeme.word? : Lexeme → Option String
  | mark m => some m.mnemonic
  | directive d => some d.word
  | name w => some w
  | string _ _ => none
  | stray _ => none

theorem Lexeme.word?_ofWord (word : String) : (ofWord word).word? = some word := by
  unfold ofWord
  split
  · rename_i m found
    exact congrArg some (by simpa using List.find?_some found)
  · rename_i d _ found
    exact congrArg some (by simpa using List.find?_some found)
  · rfl

theorem Lexeme.ofWord_ne {lexeme : Lexeme} (none : lexeme.word? = none) (word : String) :
    ofWord word ≠ lexeme := by
  intro read
  rw [← read, word?_ofWord] at none
  cases none

namespace Spelled

variable {spelled : Spelled}

theorem eq_literal {quote : Quote} {pieces : List Piece}
    (read : spelled.lexeme = .string quote pieces) :
    ∃ fits, spelled = .literal ⟨quote, pieces, fits⟩ := by
  cases spelled with
  | word w => exact absurd read (Lexeme.ofWord_ne rfl w)
  | literal l =>
    cases read
    exact ⟨l.fits, rfl⟩

theorem eq_word {word : String} (read : spelled.lexeme.word? = some word) :
    spelled = .word word := by
  cases spelled with
  | word w =>
    rw [lexeme, Lexeme.word?_ofWord, Option.some.injEq] at read
    rw [read]
  | literal l => cases read

theorem lexeme_ne_stray (spelled : Spelled) (problem : Problem) :
    spelled.lexeme ≠ .stray problem := by
  cases spelled with
  | word w => exact Lexeme.ofWord_ne rfl w
  | literal l => exact Lexeme.noConfusion

theorem lexeme_injective : Function.Injective Spelled.lexeme := by
  intro first second same
  cases first with
  | word w =>
    rw [lexeme] at same
    exact (eq_word (by rw [← same, Lexeme.word?_ofWord])).symm
  | literal l =>
    obtain ⟨_, rfl⟩ := eq_literal same.symm
    rfl

end Spelled

/-! ## Reading one of them -/

theorem Spelled.exists_chars (spelled : Spelled) {after : List Char} (fits : spelled.Fits after) :
    ∃ c rest, spelled.chars ++ after = c :: rest := by
  cases spelled with
  | word w =>
    cases letters : w.toList with
    | nil => exact (letters ▸ fits.1 : IsWord []).elim
    | cons first rest => exact ⟨first, rest ++ after, by simp [chars, letters]⟩
  | literal l => exact ⟨_, _, rfl⟩

theorem Lexeme.atStart_word {first : Char} {parts after : List Char} (letter : IsLetter first)
    (lettered : ∀ c ∈ parts, IsLetter c ∨ IsDigit c)
    (maximal : ∀ c ∈ after.head?, ¬ (IsLetter c ∨ IsDigit c)) :
    Lexeme.atStart first (parts ++ after) = (.ofWord (String.ofList (first :: parts)), after) := by
  have inside : ∀ c ∈ parts, isWordPart c = true := fun c member =>
    isWordPart_iff.2 (lettered c member)
  have outside : ∀ c ∈ after.head?, isWordPart c = false := by
    intro c member
    rw [← Bool.not_eq_true, isWordPart_iff]
    exact maximal c member
  rw [atStart, if_pos (isWordStart_iff.2 letter), takeWhile_append_exact inside outside,
    dropWhile_append_exact inside outside]

theorem Lexeme.atStart_literal {quote : Quote} {pieces : List Piece}
    (onLine : ∀ piece ∈ pieces, piece.OnLine quote.char) (after : List Char) :
    Lexeme.atStart quote.char (pieces.flatMap Piece.chars ++ quote.char :: after) =
      (.string quote pieces, after) := by
  simp [atStart, quote.starts, Quote.ofChar?_char, literal?_append onLine]

theorem Spelled.starts (spelled : Spelled) {c : Char} {rest after : List Char}
    (fits : spelled.Fits after) (split : spelled.chars ++ after = c :: rest) :
    isBlank c = false ∧ c ≠ '#' ∧ Lexeme.atStart c rest = (spelled.lexeme, after) := by
  cases spelled with
  | word w =>
    obtain ⟨shape, maximal⟩ := fits
    cases letters : w.toList with
    | nil => exact (letters ▸ shape : IsWord []).elim
    | cons first parts =>
      rw [letters] at shape
      rw [chars, letters] at split
      cases split
      obtain ⟨letter, lettered⟩ := shape
      refine ⟨letter.starts.1, letter.starts.2, ?_⟩
      rw [List.append_eq, Lexeme.atStart_word letter lettered maximal, ← letters,
        String.ofList_toList]
      rfl
  | literal l =>
    obtain ⟨unblank, uncommented, -⟩ := l.quote.starts
    have tail : rest = l.pieces.flatMap Piece.chars ++ l.quote.char :: after := by
      simpa [chars, Literal.chars] using (List.cons.inj split).2.symm
    have head : c = l.quote.char := (List.cons.inj split).1.symm
    subst head tail
    have onLine : ∀ piece ∈ l.pieces, piece.OnLine l.quote.char := fun piece member =>
      (l.fits piece member).onLine
    exact ⟨unblank, uncommented, Lexeme.atStart_literal onLine after⟩

/-- What is read at a character is spelled there, if it is a word or literal. -/
theorem Spelled.of_atStart {spelled : Spelled} {c : Char} {rest : List Char}
    (read : spelled.lexeme = (Lexeme.atStart c rest).1) :
    spelled.chars ++ (Lexeme.atStart c rest).2 = c :: rest ∧
      spelled.Fits (Lexeme.atStart c rest).2 := by
  by_cases letter : isWordStart c = true
  · have letter := isWordStart_iff.1 letter
    obtain ⟨parts, after, rfl, lettered, maximal⟩ := exists_word rest
    rw [Lexeme.atStart_word letter lettered maximal] at read ⊢
    obtain rfl := eq_word (by rw [read, Lexeme.word?_ofWord])
    refine ⟨by simp [chars], ?_, maximal⟩
    rw [String.toList_ofList]
    exact ⟨letter, lettered⟩
  · rw [Lexeme.atStart, if_neg letter] at read ⊢
    cases quoted : Quote.ofChar? c with
    | none =>
      rw [quoted] at read
      exact absurd read (lexeme_ne_stray spelled _)
    | some quote =>
      cases inner : literal? c rest with
      | none =>
        rw [quoted, inner] at read
        exact absurd read (lexeme_ne_stray spelled _)
      | some pair =>
        obtain ⟨pieces, after⟩ := pair
        rw [quoted, inner] at read
        obtain ⟨fits, rfl⟩ := eq_literal read
        refine ⟨?_, trivial⟩
        have same := Quote.char_of_ofChar? quoted
        simp [chars, Literal.chars, same, (of_literal? inner).1]

/-! ## Stretches -/

/-- A blank, a comment, or a word or literal. -/
inductive Stretch where
  | blank (c : Char)
  | comment (text : List Char)
  | spelled (spelled : Spelled)

namespace Stretch

/-- The characters of a stretch. -/
def chars : Stretch → List Char
  | blank c => [c]
  | comment text => '#' :: text
  | spelled s => s.chars

/-- Whether a stretch may stand in front of `after`: a comment runs up to the end of its line. -/
def Fits (after : List Char) : Stretch → Prop
  | blank c => c ∈ [' ', '\t', '\r', '\n', '\x0c']
  | comment text => '\n' ∉ text ∧ ∀ c ∈ after.head?, c = '\n'
  | spelled s => s.Fits after

/-- The word or literal that a stretch is. -/
def spelled? : Stretch → Option Spelled
  | blank _ => none
  | comment _ => none
  | spelled s => some s

end Stretch

/-- The stretches spell the source, one behind the other, and each may stand in front of what
follows it. -/
inductive Cuts : List Char → List Stretch → Prop
  | nil : Cuts [] []
  | cons {stretch : Stretch} {after : List Char} {stretches : List Stretch}
      (fits : stretch.Fits after) (behind : Cuts after stretches) :
      Cuts (stretch.chars ++ after) (stretch :: stretches)

/-! ## Reading past gaps -/

theorem lexemes_eq (source : List Char) :
    lexemes source =
      match dropGap false source with
      | [] => []
      | c :: rest =>
        ⟨(Lexeme.atStart c rest).1, c :: rest⟩ :: lexemes (Lexeme.atStart c rest).2 := by
  rw [lexemes]
  split <;> rename_i gap <;> rw [gap]

@[simp]
theorem lexemes_nil : lexemes [] = [] := by
  rw [lexemes_eq]
  rfl

theorem lexemes_blank {c : Char} (blank : isBlank c = true) (after : List Char) :
    lexemes (c :: after) = lexemes after := by
  have gap : dropGap false (c :: after) = dropGap false after := by simp [dropGap, blank]
  rw [lexemes_eq, gap, ← lexemes_eq]

theorem dropGap_comment {text after : List Char} (inside : '\n' ∉ text)
    (ends : ∀ c ∈ after.head?, c = '\n') : dropGap true (text ++ after) = dropGap false after := by
  induction text with
  | nil =>
    cases after with
    | nil => rfl
    | cons c after =>
      have line : c = '\n' := ends c (by simp)
      simp [dropGap, line, isBlank]
  | cons c text ih =>
    rw [List.mem_cons, not_or] at inside
    have other : c ≠ '\n' := fun same => inside.1 same.symm
    simp [dropGap, other, ih inside.2]

theorem lexemes_comment {text after : List Char} (inside : '\n' ∉ text)
    (ends : ∀ c ∈ after.head?, c = '\n') : lexemes ('#' :: (text ++ after)) = lexemes after := by
  have gap : dropGap false ('#' :: (text ++ after)) = dropGap false after := by
    rw [← dropGap_comment inside ends]
    simp [dropGap, isBlank]
  rw [lexemes_eq, gap, ← lexemes_eq]

theorem lexemes_start {c : Char} {rest : List Char} (unblank : isBlank c = false)
    (uncommented : c ≠ '#') :
    lexemes (c :: rest) =
      ⟨(Lexeme.atStart c rest).1, c :: rest⟩ :: lexemes (Lexeme.atStart c rest).2 := by
  have gap : dropGap false (c :: rest) = c :: rest := by simp [dropGap, unblank, uncommented]
  rw [lexemes_eq, gap]

/-! ## The stretches of a source -/

/-- One stretch gives one lexeme, or none. -/
theorem Stretch.map_lexemes {stretch : Stretch} {after : List Char} (fits : stretch.Fits after) :
    (lexemes (stretch.chars ++ after)).map (·.lexeme) =
      (stretch.spelled?.map Spelled.lexeme).toList ++ (lexemes after).map (·.lexeme) := by
  cases stretch with
  | blank c =>
    have blank := isBlank_iff.2 fits
    show (lexemes (c :: after)).map _ = (lexemes after).map _
    rw [lexemes_blank blank]
  | comment text =>
    show (lexemes ('#' :: (text ++ after))).map _ = (lexemes after).map _
    rw [lexemes_comment fits.1 fits.2]
  | spelled s =>
    obtain ⟨c, rest, split⟩ := s.exists_chars fits
    obtain ⟨unblank, uncommented, read⟩ := s.starts fits split
    rw [chars, split, lexemes_start unblank uncommented, read]
    rfl

/-- The lexemes of a source are the words and literals that it is cut into. -/
theorem Cuts.map_lexemes {source : List Char} {stretches : List Stretch}
    (cuts : Cuts source stretches) :
    (lexemes source).map (·.lexeme) =
      (stretches.filterMap Stretch.spelled?).map Spelled.lexeme := by
  induction cuts with
  | nil => simp
  | @cons stretch after stretches fits behind ih =>
    rw [Stretch.map_lexemes fits, ih, List.filterMap_cons]
    cases stretch.spelled? <;> rfl

theorem comment_text {text after : List Char} (inside : '\n' ∉ text)
    (ends : ∀ c ∈ after.head?, c = '\n') : (text ++ after).takeWhile (· ≠ '\n') = text := by
  apply takeWhile_append_exact
  · intro c member
    have other : c ≠ '\n' := fun same => inside (same ▸ member)
    simpa using other
  · intro c member
    simpa using ends c member

theorem Stretch.exists_chars (stretch : Stretch) {after : List Char} (fits : stretch.Fits after) :
    ∃ c rest, stretch.chars ++ after = c :: rest := by
  cases stretch with
  | blank c => exact ⟨c, after, rfl⟩
  | comment text => exact ⟨'#', text ++ after, rfl⟩
  | spelled s => exact s.exists_chars fits

/-- What a stretch starts with tells what it is. -/
theorem Stretch.eq_of_append {first second : Stretch} {after behind : List Char}
    (fits : first.Fits after) (fits' : second.Fits behind)
    (same : first.chars ++ after = second.chars ++ behind) : first = second := by
  cases first with
  | blank c =>
    cases second with
    | blank d => cases same; rfl
    | comment text => cases same; exact absurd (isBlank_iff.2 fits) (by decide)
    | spelled s => cases (isBlank_iff.2 fits).symm.trans (s.starts fits' same.symm).1
  | comment text =>
    cases second with
    | blank d => cases same; exact absurd (isBlank_iff.2 fits') (by decide)
    | comment text' =>
      have texts : text ++ after = text' ++ behind := (List.cons.inj same).2
      rw [← comment_text fits.1 fits.2, texts, comment_text fits'.1 fits'.2]
    | spelled s => exact absurd rfl (s.starts fits' same.symm).2.1
  | spelled s =>
    cases second with
    | blank d => cases (isBlank_iff.2 fits').symm.trans (s.starts fits same).1
    | comment text => exact absurd rfl (s.starts fits same).2.1
    | spelled t =>
      obtain ⟨c, rest, split⟩ := s.exists_chars fits
      have read := (s.starts fits split).2.2
      rw [(t.starts fits' (same.symm.trans split)).2.2] at read
      rw [Spelled.lexeme_injective (congrArg Prod.fst read)]

/-- A source is cut into stretches in one way. -/
theorem Cuts.unique {source : List Char} {first second : List Stretch}
    (cuts : Cuts source first) (other : Cuts source second) : first = second := by
  induction cuts generalizing second with
  | nil =>
    generalize empty : ([] : List Char) = source at other
    cases other with
    | nil => rfl
    | @cons stretch after _ fits _ =>
      obtain ⟨c, rest, split⟩ := stretch.exists_chars fits
      rw [split] at empty
      cases empty
  | @cons stretch after stretches fits behind ih =>
    generalize same : stretch.chars ++ after = source at other
    cases other with
    | nil =>
      obtain ⟨c, rest, split⟩ := stretch.exists_chars fits
      rw [split] at same
      cases same
    | @cons stretch' after' stretches' fits' behind' =>
      obtain rfl := Stretch.eq_of_append fits fits' same
      obtain rfl := List.append_cancel_left same
      rw [ih behind']

theorem exists_comment (rest : List Char) :
    ∃ text after, rest = text ++ after ∧ '\n' ∉ text ∧ ∀ c ∈ after.head?, c = '\n' := by
  refine ⟨rest.takeWhile (· ≠ '\n'), rest.dropWhile (· ≠ '\n'), by simp, ?_, ?_⟩
  · intro member
    simpa using List.mem_takeWhile_imp member
  · intro c member
    simpa using head?_dropWhile (· ≠ '\n') rest c member

/-- Induction along a source, from one lexeme to the next and through the gaps between them. -/
@[elab_as_elim]
theorem source_induction {motive : List Char → Prop} (nil : motive [])
    (blank : ∀ c rest, isBlank c = true → motive rest → motive (c :: rest))
    (comment : ∀ text after, '\n' ∉ text → (∀ c ∈ after.head?, c = '\n') → motive after →
      motive ('#' :: (text ++ after)))
    (start : ∀ c rest, isBlank c = false → c ≠ '#' → motive (Lexeme.atStart c rest).2 →
      motive (c :: rest))
    (source : List Char) : motive source := by
  induction shorter : source.length using Nat.strong_induction_on generalizing source with
  | _ length ih =>
    subst shorter
    cases source with
    | nil => exact nil
    | cons c rest =>
      by_cases isGap : isBlank c = true
      · exact blank c rest isGap (ih _ (Nat.lt_succ_self _) rest rfl)
      by_cases isComment : c = '#'
      · subst isComment
        obtain ⟨text, after, rfl, inside, ends⟩ := exists_comment rest
        have shorter : after.length < ('#' :: (text ++ after)).length := by
          rw [List.length_cons, List.length_append]
          omega
        exact comment text after inside ends (ih _ shorter after rfl)
      · have shorter := Nat.lt_succ_of_le (Lexeme.length_atStart_le c rest)
        exact start c rest (by simpa using isGap) isComment (ih _ shorter _ rfl)

theorem Stretch.Fits.of_append {stretch : Stretch} {front back : List Char}
    (fits : stretch.Fits (front ++ back)) : stretch.Fits front := by
  have start {test : Char → Prop} (all : ∀ c ∈ (front ++ back).head?, test c) :
      ∀ c ∈ front.head?, test c := by
    cases front with
    | nil => simp
    | cons c front => exact all
  cases stretch with
  | blank c => exact fits
  | comment text => exact ⟨fits.1, start fits.2⟩
  | spelled s =>
    cases s with
    | word w => exact ⟨fits.1, start fits.2⟩
    | literal l => trivial

/-- The source from the first of its last lexemes on. -/
def sourceFrom : List Placed → List Char
  | [] => []
  | placed :: _ => placed.here

/-- A source in which only words and literals are found up to some lexeme can be cut into stretches
up to there. -/
theorem exists_cuts_append {source : List Char} {front behind : List Placed} {words : List Spelled}
    (split : lexemes source = front ++ behind)
    (read : front.map (·.lexeme) = words.map Spelled.lexeme) :
    ∃ before stretches, source = before ++ sourceFrom behind ∧ Cuts before stretches ∧
      stretches.filterMap Stretch.spelled? = words := by
  induction source using source_induction generalizing front words with
  | nil =>
    rw [lexemes_nil] at split
    obtain ⟨rfl, rfl⟩ := List.append_eq_nil_iff.1 split.symm
    exact ⟨[], [], rfl, .nil, (List.map_eq_nil_iff.1 read.symm).symm⟩
  | blank c rest blank ih =>
    rw [lexemes_blank blank] at split
    obtain ⟨before, stretches, rfl, cuts, spelled⟩ := ih split read
    have fits : (Stretch.blank c).Fits before := isBlank_iff.1 blank
    exact ⟨c :: before, .blank c :: stretches, rfl, .cons fits cuts, spelled⟩
  | comment text after inside ends ih =>
    rw [lexemes_comment inside ends] at split
    obtain ⟨before, stretches, rfl, cuts, spelled⟩ := ih split read
    have fits : (Stretch.comment text).Fits (before ++ sourceFrom behind) := ⟨inside, ends⟩
    refine ⟨'#' :: (text ++ before), .comment text :: stretches, by simp, ?_, spelled⟩
    exact .cons fits.of_append cuts
  | start c rest unblank uncommented ih =>
    rw [lexemes_start unblank uncommented] at split
    cases front with
    | nil =>
      obtain rfl := List.map_eq_nil_iff.1 read.symm
      rw [List.nil_append] at split
      exact ⟨[], [], by rw [← split]; rfl, .nil, rfl⟩
    | cons placed front =>
      obtain ⟨rfl, others⟩ := List.cons.inj split
      obtain ⟨first, words, rfl, here, more⟩ := List.map_eq_cons_iff.1 read.symm
      obtain ⟨spelt, fits⟩ := Spelled.of_atStart here
      obtain ⟨before, stretches, after, cuts, spelled⟩ := ih others more.symm
      rw [after] at spelt fits
      have fits' : (Stretch.spelled first).Fits (before ++ sourceFrom behind) := fits
      refine ⟨first.chars ++ before, .spelled first :: stretches, ?_, ?_, ?_⟩
      · rw [List.append_assoc, spelt]
      · exact .cons fits'.of_append cuts
      · simp [Stretch.spelled?, spelled]

/-- A source in which only words and literals are found can be cut into stretches. -/
theorem exists_cuts {source : List Char} {words : List Spelled}
    (read : (lexemes source).map (·.lexeme) = words.map Spelled.lexeme) :
    ∃ stretches, Cuts source stretches ∧ stretches.filterMap Stretch.spelled? = words := by
  have split : lexemes source = lexemes source ++ [] := (List.append_nil _).symm
  obtain ⟨before, stretches, same, cuts, spelled⟩ := exists_cuts_append split read
  rw [sourceFrom, List.append_nil] at same
  exact ⟨stretches, same ▸ cuts, spelled⟩

/-! ## Gaps -/

/-- What may stand between two lexemes: blanks, and comments with the line feed that ends them. -/
inductive IsGap : List Char → Prop
  | nil : IsGap []
  | blank {c : Char} {rest : List Char} (blank : c ∈ [' ', '\t', '\r', '\n', '\x0c'])
      (behind : IsGap rest) : IsGap (c :: rest)
  | comment {text rest : List Char} (inside : '\n' ∉ text) (behind : IsGap rest) :
      IsGap ('#' :: (text ++ '\n' :: rest))

section Gaps

variable {gap after : List Char} {stretches : List Stretch}

theorem IsGap.exists_cuts (isGap : IsGap gap) (cuts : Cuts after stretches) :
    ∃ front, Cuts (gap ++ after) (front ++ stretches) ∧ front.filterMap Stretch.spelled? = [] := by
  induction isGap with
  | nil => exact ⟨[], cuts, rfl⟩
  | @blank c rest blank behind ih =>
    obtain ⟨front, cuts, none⟩ := ih
    have fits : (Stretch.blank c).Fits (rest ++ after) := blank
    exact ⟨.blank c :: front, .cons fits cuts, none⟩
  | @comment text rest inside behind ih =>
    obtain ⟨front, cuts, none⟩ := ih
    have ends : (Stretch.blank '\n').Fits (rest ++ after) := by simp [Stretch.Fits]
    have fits : (Stretch.comment text).Fits ('\n' :: (rest ++ after)) := ⟨inside, by simp⟩
    refine ⟨.comment text :: .blank '\n' :: front, ?_, none⟩
    have split : '#' :: (text ++ '\n' :: rest) ++ after =
        (Stretch.comment text).chars ++ ((Stretch.blank '\n').chars ++ (rest ++ after)) := by
      simp [Stretch.chars]
    rw [split]
    exact .cons fits (.cons ends cuts)

theorem lexemes_gap (isGap : IsGap gap) (after : List Char) :
    lexemes (gap ++ after) = lexemes after := by
  induction isGap with
  | nil => rfl
  | blank blank _ ih => rw [List.cons_append, lexemes_blank (isBlank_iff.2 blank), ih]
  | @comment text rest inside _ ih =>
    have split : '#' :: (text ++ '\n' :: rest) ++ after =
        '#' :: (text ++ '\n' :: (rest ++ after)) := by
      simp
    rw [split, lexemes_comment inside (by simp), lexemes_blank (by decide), ih]

theorem starts_of_dropGap {inComment : Bool} {source rest : List Char} {c : Char}
    (start : dropGap inComment source = c :: rest) : isBlank c = false ∧ c ≠ '#' := by
  induction source generalizing inComment with
  | nil => cases start
  | cons d source ih =>
    unfold dropGap at start
    split_ifs at start with _ blank comment
    · exact ih start
    · exact ih start
    · exact ih start
    · cases start
      exact ⟨by simpa using blank, comment⟩

theorem exists_gap {source rest : List Char} {c : Char}
    (start : dropGap false source = c :: rest) : ∃ gap, IsGap gap ∧ source = gap ++ c :: rest := by
  induction shorter : source.length using Nat.strong_induction_on generalizing source with
  | _ length ih =>
    subst shorter
    cases source with
    | nil => cases start
    | cons d source =>
      simp only [dropGap, Bool.false_eq_true, if_false] at start
      split_ifs at start with blank comment
      · obtain ⟨gap, isGap, rfl⟩ := ih _ (Nat.lt_succ_self _) start rfl
        exact ⟨d :: gap, .blank (isBlank_iff.1 blank) isGap, rfl⟩
      · subst comment
        obtain ⟨text, after, rfl, inside, ends⟩ := exists_comment source
        rw [dropGap_comment inside ends] at start
        cases after with
        | nil => cases start
        | cons e after =>
          obtain rfl := ends e rfl
          have start : dropGap false after = c :: rest := start
          have shorter : after.length < ('#' :: (text ++ '\n' :: after)).length := by
            simp only [List.length_cons, List.length_append]
            omega
          obtain ⟨gap, isGap, rfl⟩ := ih _ shorter start rfl
          exact ⟨'#' :: (text ++ '\n' :: gap), .comment inside isGap, by simp⟩
      · exact ⟨[], .nil, start⟩

theorem IsGap.head? (isGap : IsGap gap) : ∀ c ∈ gap.head?, ¬ (IsLetter c ∨ IsDigit c) := by
  intro c member
  rw [← isWordPart_iff]
  cases isGap with
  | nil => cases member
  | blank blank _ =>
    cases member
    simp only [List.mem_cons, List.not_mem_nil, or_false] at blank
    rcases blank with rfl | rfl | rfl | rfl | rfl <;> decide
  | comment _ _ =>
    cases member
    decide

end Gaps

end LineLayout.Script
