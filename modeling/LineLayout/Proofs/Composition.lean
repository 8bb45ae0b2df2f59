import LineLayout.Proofs.Stops

/-!
# Scripts line by line

A line feed ends every lexeme, and it is no part of one: it ends words and comments, and a literal
that is still open on its line is unterminated with or without it. So the lexemes of two scripts
with a line feed between them are those of the first and those of the second, unless the first holds
a stray one, behind which nothing is read (`lexemes_line`). Only a directive at the end of the first
script looks beyond it, for its argument.
-/

namespace LineLayout.Script

/-! ## Lexemes up to the end of a line -/

theorem literal?_line {quote : Char} (other : quote ≠ '\n') (source later : List Char) :
    literal? quote (source ++ '\n' :: later) =
      (literal? quote source).map fun (pieces, after) => (pieces, after ++ '\n' :: later) := by
  fun_induction literal? quote source with
  | case1 | case3 =>
    unfold literal?
    simp [other.symm]
  | case2 =>
    unfold literal?
    simp
  | case4 | case5 =>
    unfold literal?
    simp [*]
  | case6 | case7 =>
    conv => lhs; unfold literal?
    simp [*, Function.comp_def]

theorem head?_line {test : Char → Prop} {after : List Char} (ends : ∀ c ∈ after.head?, test c)
    (line : test '\n') (later : List Char) : ∀ c ∈ (after ++ '\n' :: later).head?, test c := by
  cases after with
  | nil => simpa using line
  | cons c after => exact ends

theorem Lexeme.atStart_line (c : Char) (rest later : List Char) :
    (∃ problem, atStart c rest = (.stray problem, []) ∧
      atStart c (rest ++ '\n' :: later) = (.stray problem, [])) ∨
    atStart c (rest ++ '\n' :: later) =
      ((atStart c rest).1, (atStart c rest).2 ++ '\n' :: later) := by
  by_cases letter : isWordStart c = true
  · have letter := isWordStart_iff.1 letter
    obtain ⟨parts, after, rfl, lettered, maximal⟩ := exists_word rest
    have maximal' := head?_line maximal (by decide) later
    rw [List.append_assoc, atStart_word letter lettered maximal,
      atStart_word letter lettered maximal']
    exact Or.inr rfl
  · rw [atStart, atStart, if_neg letter, if_neg letter]
    cases quoted : Quote.ofChar? c with
    | none => exact Or.inl ⟨_, rfl, rfl⟩
    | some quote =>
      have other : c ≠ '\n' := by
        rintro rfl
        cases quoted
      dsimp only
      rw [literal?_line other]
      cases literal? c rest with
      | none => exact Or.inl ⟨_, rfl, rfl⟩
      | some pair => exact Or.inr rfl

/-- The same lexeme with more source behind it. -/
def Placed.before (later : List Char) (placed : Placed) : Placed :=
  ⟨placed.lexeme, placed.here ++ later⟩

theorem map_lexeme_before (later : List Char) (placed : List Placed) :
    (placed.map (·.before later)).map (·.lexeme) = placed.map (·.lexeme) := by
  rw [List.map_map]
  rfl

/-- Behind a line feed, lexemes are read as at the start of a source, and those in front of it are
not changed. Nothing is read behind a stray one. -/
theorem lexemes_line (source later : List Char) :
    lexemes (source ++ '\n' :: later) =
        (lexemes source).map (·.before ('\n' :: later)) ++ lexemes later ∨
      (∃ placed ∈ lexemes source, ∃ problem, placed.lexeme = .stray problem) ∧
        lexemes (source ++ '\n' :: later) = (lexemes source).map (·.before ('\n' :: later)) := by
  induction source using source_induction with
  | nil =>
    refine Or.inl ?_
    rw [List.nil_append, lexemes_blank (by decide)]
    simp
  | blank c rest blank ih =>
    rw [List.cons_append, lexemes_blank blank, lexemes_blank blank]
    exact ih
  | comment text after inside ends ih =>
    rw [List.cons_append, List.append_assoc, lexemes_comment inside ends,
      lexemes_comment inside (head?_line ends rfl later)]
    exact ih
  | start c rest unblank uncommented ih =>
    rw [List.cons_append, lexemes_start unblank uncommented, lexemes_start unblank uncommented]
    rcases Lexeme.atStart_line c rest later with ⟨problem, here, there⟩ | same
    · refine Or.inr ⟨⟨_, List.mem_cons_self, problem, ?_⟩, ?_⟩
      · rw [here]
      · rw [here, there]
        simp [Placed.before]
    · rw [same]
      rcases ih with behind | ⟨⟨placed, member, stray⟩, behind⟩
      · exact Or.inl (by rw [behind]; rfl)
      · exact Or.inr ⟨⟨placed, List.mem_cons_of_mem _ member, stray⟩, by rw [behind]; rfl⟩

/-! ## Stops up to the end of a line -/

/-- Only a missing argument can turn up later. -/
theorem Halts.before {behind : List Placed} {stop : Stop} (halts : Halts behind stop)
    (found : ∀ directive expected, stop.problem ≠ .missingArgument directive expected)
    (later : List Char) (more : List Placed) :
    Halts (behind.map (·.before later) ++ more) ⟨stop.problem, stop.here ++ later⟩ := by
  cases halts with
  | unknown word => exact .unknown word
  | missing _ _ _ => exact absurd rfl (found _ _)
  | @stray opening front rest problem here opened =>
    rw [List.map_append, List.append_assoc]
    exact .stray ((map_lexeme_before later front).trans opened)
  | @escape opening front rest quote good bad c after opened due known unknown =>
    have literal : Placed.before later ⟨.string quote (good ++ .escape c :: bad),
          quote.char :: (good.flatMap Piece.chars ++ '\\' :: c :: after)⟩ =
        ⟨.string quote (good ++ .escape c :: bad),
          quote.char :: (good.flatMap Piece.chars ++ '\\' :: c :: (after ++ later))⟩ := by
      simp [Placed.before]
    rw [List.map_append, List.append_assoc, List.map_cons, literal]
    exact .escape ((map_lexeme_before later front).trans opened) due known unknown

/-! ## Scripts -/

theorem exists_phrases_of_parse {source : String} {tokens : List Token}
    (read : parse source = .ok tokens) :
    ∃ phrases : List Phrase, phrases.map Phrase.token = tokens ∧
      (lexemes source.toList).map (·.lexeme) = phrases.flatMap Phrase.lexemes := by
  obtain ⟨derivation⟩ := nonempty_derivation read
  rw [derivation.parse_eq] at read
  exact ⟨derivation.phrases, Except.ok.inj read, derivation.map_lexemes⟩

theorem lexemes_line_of_spelled {source : List Char} {words : List Spelled}
    (read : (lexemes source).map (·.lexeme) = words.map Spelled.lexeme) (later : List Char) :
    lexemes (source ++ '\n' :: later) =
      (lexemes source).map (·.before ('\n' :: later)) ++ lexemes later := by
  rcases lexemes_line source later with lines | ⟨⟨placed, member, problem, stray⟩, -⟩
  · exact lines
  · have among : .stray problem ∈ words.map Spelled.lexeme :=
      read ▸ List.mem_map.2 ⟨placed, member, stray⟩
    obtain ⟨spelled, -, same⟩ := List.mem_map.1 among
    exact absurd same (spelled.lexeme_ne_stray problem)

section Scripts

variable {first second : String} {tokens more : List Token} {error : Error}

theorem toList_line (first second : String) :
    (first ++ "\n" ++ second).toList = first.toList ++ '\n' :: second.toList := by
  simp

theorem parse_line_of_ok (read : parse first = .ok tokens) (others : parse second = .ok more) :
    parse (first ++ "\n" ++ second) = .ok (tokens ++ more) := by
  obtain ⟨phrases, rfl, front⟩ := exists_phrases_of_parse read
  obtain ⟨phrases', rfl, behind⟩ := exists_phrases_of_parse others
  rw [← List.map_append]
  apply parse_of_phrases
  rw [toList_line, lexemes_line_of_spelled (front.trans (map_lexeme_flatMap _).symm),
    List.map_append, map_lexeme_before, front, behind, List.flatMap_append]

/-- An error behind a line feed is found as many lines further down. -/
theorem parse_line_of_error_behind (read : parse first = .ok tokens)
    (failed : parse second = .error error) :
    parse (first ++ "\n" ++ second) = .error
      ⟨error.problem,
        ⟨error.place.line + (first.toList.count '\n' + 1), error.place.column⟩⟩ := by
  obtain ⟨phrases, -, lines⟩ := exists_phrases_of_parse read
  obtain ⟨phrases', front, behind, stop, before, split, read', halts, here, rfl⟩ :=
    exists_stop failed
  have read'' : ((lexemes first.toList).map (·.before ('\n' :: second.toList)) ++ front).map
      (·.lexeme) = (phrases ++ phrases').flatMap Phrase.lexemes := by
    rw [List.map_append, map_lexeme_before, lines, read', List.flatMap_append]
  rw [← Location.behind_line]
  refine parse_of_halts ?_ read'' halts ?_
  · rw [toList_line, lexemes_line_of_spelled (lines.trans (map_lexeme_flatMap _).symm), split,
      List.append_assoc]
  · rw [toList_line, here, List.append_assoc, List.cons_append]

theorem parse_line_of_error (failed : parse first = .error error)
    (found : ∀ directive expected, error.problem ≠ .missingArgument directive expected)
    (second : String) : parse (first ++ "\n" ++ second) = .error error := by
  obtain ⟨phrases, front, behind, stop, before, split, read, halts, here, rfl⟩ :=
    exists_stop failed
  obtain ⟨more, lines⟩ : ∃ more, lexemes (first.toList ++ '\n' :: second.toList) =
      (lexemes first.toList).map (·.before ('\n' :: second.toList)) ++ more := by
    rcases lexemes_line first.toList second.toList with both | ⟨-, one⟩
    · exact ⟨_, both⟩
    · exact ⟨[], by rw [one, List.append_nil]⟩
  have split' : lexemes (first ++ "\n" ++ second).toList =
      front.map (·.before ('\n' :: second.toList)) ++
        (behind.map (·.before ('\n' :: second.toList)) ++ more) := by
    rw [toList_line, lines, split, List.map_append, List.append_assoc]
  have read' : (front.map (·.before ('\n' :: second.toList))).map (·.lexeme) =
      phrases.flatMap Phrase.lexemes := by
    rw [map_lexeme_before, read]
  have stays := parse_of_halts split' read' (halts.before found ('\n' :: second.toList) more)
    (by rw [toList_line, here, List.append_assoc])
  exact stays

end Scripts

/-- Scripts are read line by line. The tokens of two scripts with a line feed between them are those
of the first and those of the second; an error in the second is the same error, as many lines
further down as there are in front of it; and an error in the first stays as it is, unless an
argument was missing there. -/
theorem parse_line_feed (first second : String) :
    (∀ tokens, parse first = .ok tokens →
      (∀ more, parse second = .ok more →
        parse (first ++ "\n" ++ second) = .ok (tokens ++ more)) ∧
      ∀ error, parse second = .error error →
        parse (first ++ "\n" ++ second) = .error
          ⟨error.problem,
            ⟨error.place.line + (first.toList.count '\n' + 1), error.place.column⟩⟩) ∧
    ∀ error, parse first = .error error →
      (∀ directive expected, error.problem ≠ .missingArgument directive expected) →
      parse (first ++ "\n" ++ second) = .error error := by
  refine ⟨fun tokens read => ⟨fun more others => ?_, fun error failed => ?_⟩,
    fun error failed found => ?_⟩
  · exact parse_line_of_ok read others
  · exact parse_line_of_error_behind read failed
  · exact parse_line_of_error failed found second

/-- A comment without its line feed ends the first script, and the second has an error behind two
bytes that are one character; and a literal that is open at the end of the line stays open. -/
theorem parse_line_feed_open :
    (parse "TAG 'é'\n#'" = .ok [.tag "é"] ∧
      parse "NL" = .ok [.mark .hardBreak] ∧
      parse ("TAG 'é'\n#'" ++ "\n" ++ "NL") = .ok [.tag "é", .mark .hardBreak]) ∧
    (parse "'é' oops" = .error ⟨.unknownToken "oops", ⟨1, 5⟩⟩ ∧
      parse ("TAG 'é'\n#'" ++ "\n" ++ "'é' oops") = .error ⟨.unknownToken "oops", ⟨3, 5⟩⟩) ∧
    parse "KW 'a" = .error ⟨.unterminatedString, ⟨1, 4⟩⟩ ∧
      parse ("KW 'a" ++ "\n" ++ "'é' oops") = .error ⟨.unterminatedString, ⟨1, 4⟩⟩ := by
  have first : parse "TAG 'é'\n#'" = .ok [.tag "é"] := by decide +kernel
  have mark : parse "NL" = .ok [.mark .hardBreak] := by decide +kernel
  have unknown : parse "'é' oops" = .error ⟨.unknownToken "oops", ⟨1, 5⟩⟩ := by decide +kernel
  have unterminated : parse "KW 'a" = .error ⟨.unterminatedString, ⟨1, 4⟩⟩ := by decide +kernel
  refine ⟨⟨first, mark, ?_⟩, ⟨unknown, ?_⟩, unterminated, ?_⟩
  · exact ((parse_line_feed _ _).1 _ first).1 _ mark
  · exact ((parse_line_feed _ _).1 _ first).2 _ unknown
  · exact (parse_line_feed _ _).2 _ unterminated (by simp)

end LineLayout.Script
