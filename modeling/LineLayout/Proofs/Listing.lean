import LineLayout.Command.Listing
import LineLayout.Proofs.TextLines
import Mathlib.Data.List.Basic
import Mathlib.Tactic.SplitIfs

/-!
# Listings are unambiguous

A token can be read off its description. What is written for a character between quotes tells where
it ends and which character it is (`Text.unquoteChar?_quotedChar`), so quoted text tells where it
ends and what it is, whatever stands behind it. No description holds a line feed, so the lines of a
listing are its header and those of its tokens.

All this holds for any choice of the characters that are hidden.
-/

namespace LineLayout

/-! ## Digits -/

namespace Text

/-- The number that a hexadecimal digit stands for. -/
def hexDigit (c : Char) : Nat :=
  if c.isDigit then c.toNat - '0'.toNat else c.toNat - 'a'.toNat + 10

/-- The number that hexadecimal digits stand for. -/
def hexValue (digits : List Char) : Nat :=
  digits.foldl (fun value c => 16 * value + hexDigit c) 0

theorem hexDigit_digitChar {digit : Nat} (below : digit < 16) :
    hexDigit digit.digitChar = digit := by
  decide +revert

theorem hexValue_toDigits (n : Nat) : hexValue (Nat.toDigits 16 n) = n := by
  induction n using Nat.strongRecOn with
  | ind n ih =>
    rw [Nat.toDigits_eq_if (by decide)]
    split
    · rename_i below
      rw [hexValue, List.foldl_cons, List.foldl_nil, hexDigit_digitChar below]
      omega
    · rename_i above
      have front := ih (n / 16) (by omega)
      rw [hexValue] at front ⊢
      rw [List.foldl_append, List.foldl_cons, List.foldl_nil, front,
        hexDigit_digitChar (Nat.mod_lt n (by decide))]
      omega

theorem exists_digit {base n : Nat} {c : Char} (large : 1 < base) (small : base ≤ 16)
    (member : c ∈ Nat.toDigits base n) : ∃ digit < 16, c = Nat.digitChar digit := by
  induction n using Nat.strongRecOn with
  | ind n ih =>
    rw [Nat.toDigits_eq_if large] at member
    split at member
    · rename_i below
      exact ⟨n, Nat.lt_of_lt_of_le below small, List.mem_singleton.1 member⟩
    · rename_i above
      rcases List.mem_append.1 member with front | last
      · exact ih (n / base) (Nat.div_lt_self (by omega) large) front
      · have below : n % base < base := Nat.mod_lt n (by omega)
        exact ⟨n % base, Nat.lt_of_lt_of_le below small, List.mem_singleton.1 last⟩

theorem digitChar_ne {digit : Nat} (below : digit < 16) :
    digit.digitChar ≠ '\n' ∧ digit.digitChar ≠ '\x7d' := by
  decide +revert

theorem newline_notMem_toDigits {base : Nat} (large : 1 < base) (small : base ≤ 16) (n : Nat) :
    '\n' ∉ Nat.toDigits base n := by
  intro member
  obtain ⟨digit, below, same⟩ := exists_digit large small member
  exact (digitChar_ne below).1 same.symm

theorem newline_notMem_toString (n : Nat) : '\n' ∉ (toString n).toList := by
  rw [Nat.toString_eq_repr, Nat.toList_repr]
  exact newline_notMem_toDigits (by decide) (by decide) n

theorem toString_inj {n m : Nat} (same : toString n = toString m) : n = m := by
  rw [Nat.toString_eq_repr, Nat.toString_eq_repr, ← String.toList_inj, Nat.toList_repr,
    Nat.toList_repr] at same
  rw [← Nat.ofDigitChars_ten_toDigits (n := n), same, Nat.ofDigitChars_ten_toDigits]

/-! ## Quoted text -/

/-- The character that a letter behind a backslash stands for. -/
def meant : Char → Char
  | '0' => '\x00'
  | 't' => '\t'
  | 'r' => '\r'
  | 'n' => '\n'
  | c => c

/-- The first character of what stands between quotes, and what stands behind it. -/
def unquoteChar? : List Char → Option (Char × List Char)
  | '\\' :: 'u' :: '\x7b' :: rest =>
    some (Char.ofNat (hexValue (rest.takeWhile (· ≠ '\x7d'))),
      (rest.dropWhile (· ≠ '\x7d')).tail)
  | '\\' :: letter :: rest => some (meant letter, rest)
  | c :: rest => some (c, rest)
  | [] => none

/-- A character is written as a letter behind a backslash, by its code point, or as it is. -/
theorem quotedChar_cases (hidden : Char → Bool) (c : Char) :
    (∃ letter, quotedChar hidden '"' c = ['\\', letter] ∧ meant letter = c ∧ letter ≠ 'u' ∧
      letter ≠ '\n') ∨
    quotedChar hidden '"' c = codePointEscape c ∨
    quotedChar hidden '"' c = [c] ∧ c ≠ '\\' ∧ c ≠ '"' ∧ c ≠ '\n' := by
  unfold quotedChar
  split_ifs with zero tab return' newline self hide
  · exact Or.inl ⟨'0', rfl, zero.symm, by decide, by decide⟩
  · exact Or.inl ⟨'t', rfl, tab.symm, by decide, by decide⟩
  · exact Or.inl ⟨'r', rfl, return'.symm, by decide, by decide⟩
  · exact Or.inl ⟨'n', rfl, newline.symm, by decide, by decide⟩
  · refine Or.inl ⟨c, rfl, ?_⟩
    rcases self with rfl | rfl <;> decide
  · exact Or.inr (Or.inl rfl)
  · exact Or.inr (Or.inr ⟨rfl, fun same => self (Or.inl same), fun same => self (Or.inr same),
      newline⟩)

theorem unquoteChar?_codePointEscape (c : Char) (rest : List Char) :
    unquoteChar? (codePointEscape c ++ rest) = some (c, rest) := by
  have digits : ∀ d ∈ Nat.toDigits 16 c.toNat, decide (d ≠ '\x7d') = true := by
    intro d member
    obtain ⟨digit, below, rfl⟩ := exists_digit (by decide) (by decide) member
    exact decide_eq_true (digitChar_ne below).2
  have text : codePointEscape c ++ rest =
      '\\' :: 'u' :: '\x7b' :: (Nat.toDigits 16 c.toNat ++ '\x7d' :: rest) := by
    simp [codePointEscape]
  rw [text, unquoteChar?, List.takeWhile_append_of_pos digits, List.dropWhile_append_of_pos digits]
  simp [hexValue_toDigits]

/-- A character can be read off what is written for it, whatever stands behind that. -/
theorem unquoteChar?_quotedChar (hidden : Char → Bool) (c : Char) (rest : List Char) :
    unquoteChar? (quotedChar hidden '"' c ++ rest) = some (c, rest) := by
  rcases quotedChar_cases hidden c with ⟨letter, form, means, other, -⟩ | form | ⟨form, plain, -⟩
  · -- No letter is a `u`, so this is not taken for a code point even if a brace stands behind it.
    rw [form]
    simp [unquoteChar?, means, other]
  · rw [form, unquoteChar?_codePointEscape]
  · rw [form]
    simp [unquoteChar?, plain]

/-- What is written for a character does not start with the quote. -/
theorem quotedChar_append_ne (hidden : Char → Bool) (c : Char) (rest rest' : List Char) :
    quotedChar hidden '"' c ++ rest ≠ '"' :: rest' := by
  rcases quotedChar_cases hidden c with ⟨letter, form, -⟩ | form | ⟨form, -, other, -⟩
  · simp [form]
  · simp [form, codePointEscape]
  · simp [form, other]

theorem flatMap_quotedChar_inj {hidden : Char → Bool} {text text' rest rest' : List Char}
    (same : text.flatMap (quotedChar hidden '"') ++ '"' :: rest =
      text'.flatMap (quotedChar hidden '"') ++ '"' :: rest') : text = text' ∧ rest = rest' := by
  induction text generalizing text' with
  | nil =>
    cases text' with
    | nil => exact ⟨rfl, (List.cons.inj same).2⟩
    | cons d text' =>
      rw [List.flatMap_cons, List.append_assoc] at same
      exact absurd same.symm (quotedChar_append_ne hidden d _ rest)
  | cons c text ih =>
    cases text' with
    | nil =>
      rw [List.flatMap_cons, List.append_assoc] at same
      exact absurd same (quotedChar_append_ne hidden c _ rest')
    | cons d text' =>
      rw [List.flatMap_cons, List.flatMap_cons, List.append_assoc, List.append_assoc] at same
      have first := congrArg unquoteChar? same
      rw [unquoteChar?_quotedChar, unquoteChar?_quotedChar] at first
      obtain ⟨rfl, behind⟩ := Prod.mk.inj (Option.some.inj first)
      obtain ⟨rfl, rest⟩ := ih behind
      exact ⟨rfl, rest⟩

theorem quoted_append_inj {hidden : Char → Bool} {text text' rest rest' : List Char}
    (same : quoted hidden '"' text ++ rest = quoted hidden '"' text' ++ rest') :
    text = text' ∧ rest = rest' := by
  have inside : text.flatMap (quotedChar hidden '"') ++ '"' :: rest =
      text'.flatMap (quotedChar hidden '"') ++ '"' :: rest' := by simpa [quoted] using same
  exact flatMap_quotedChar_inj inside

theorem newline_notMem_quoted (hidden : Char → Bool) (text : List Char) :
    '\n' ∉ quoted hidden '"' text := by
  have inside (c : Char) : '\n' ∉ quotedChar hidden '"' c := by
    rcases quotedChar_cases hidden c with ⟨letter, form, -, -, other⟩ | form | ⟨form, -, -, other⟩
    · simp [form, other.symm]
    · simp [form, codePointEscape, newline_notMem_toDigits]
    · simp [form, other.symm]
  simp [quoted, inside]

end Text

/-! ## Descriptions -/

namespace Token

variable {hidden : Char → Bool}

theorem describe_text (run : TextRun) :
    ((Token.text run).describe hidden).toList =
      "TEXT ".toList ++
        (Text.quoted hidden '"' run.text.toList ++
          (" width=".toList ++ (toString run.width).toList)) := by
  simp [describe, mnemonic, Text.showString]

theorem describe_mark (mark : Mark) : (Token.mark mark).describe hidden = mark.mnemonic :=
  rfl

theorem describe_text_ne (run : TextRun) (mark : Mark) :
    (Token.text run).describe hidden ≠ (Token.mark mark).describe hidden := by
  intro same
  have first : ((Token.text run).describe hidden).toList.head? = mark.mnemonic.toList.head? := by
    rw [same, describe_mark]
  rw [describe_text] at first
  rcases mark with _ | _ | _ | _ | _ | (_ | _) | (_ | _) <;> cases first

/-- A token can be read off its description. -/
theorem describe_inj {token other : Token} (same : token.describe hidden = other.describe hidden) :
    token = other := by
  cases token with
  | text run =>
    cases other with
    | text run' =>
      have chars := congrArg String.toList same
      rw [describe_text, describe_text, List.append_cancel_left_eq] at chars
      obtain ⟨text, behind⟩ := Text.quoted_append_inj chars
      have width := Text.toString_inj (String.toList_inj.1 (List.append_cancel_left behind))
      obtain ⟨words, columns⟩ := run
      obtain ⟨words', columns'⟩ := run'
      cases String.toList_inj.1 text
      cases width
      rfl
    | mark mark => exact absurd same (describe_text_ne run mark)
  | mark mark =>
    cases other with
    | text run => exact absurd same.symm (describe_text_ne run mark)
    | mark mark' =>
      have read := congrArg Mark.ofMnemonic? same
      rw [describe_mark, describe_mark, Mark.ofMnemonic?_mnemonic, Mark.ofMnemonic?_mnemonic] at read
      exact congrArg Token.mark (Option.some.inj read)

theorem newline_notMem_describe (token : Token) : '\n' ∉ (token.describe hidden).toList := by
  cases token with
  | text run =>
    rw [describe_text]
    simp only [List.mem_append, not_or]
    exact ⟨by decide, Text.newline_notMem_quoted hidden _, by decide,
      Text.newline_notMem_toString run.width⟩
  | mark mark =>
    rw [describe_mark]
    rcases mark with _ | _ | _ | _ | _ | (_ | _) | (_ | _) <;> decide

end Token

/-! ## Listings -/

/-- The line above the tokens. -/
def listingHeader (path : String) (count : Nat) : String :=
  "Tokens for '" ++ path ++ "' (" ++ toString count ++ " tokens):"

/-- The line of the token with the given number. -/
def listingEntry (hidden : Char → Bool) (index : Nat) (token : Token) : String :=
  "  " ++ alignedIndex index ++ "  " ++ token.describe hidden

/-- The lines of the tokens, one for each. -/
def listingEntries (hidden : Char → Bool) (tokens : List Token) : List String :=
  tokens.mapIdx (listingEntry hidden)

section Listings

variable {hidden : Char → Bool} {path : String} {tokens others : List Token}

theorem listingEntry_inj {index : Nat} {token other : Token}
    (same : listingEntry hidden index token = listingEntry hidden index other) : token = other :=
  Token.describe_inj (String.append_right_inj _ |>.1 same)

theorem newline_notMem_listingEntry (index : Nat) (token : Token) :
    '\n' ∉ (listingEntry hidden index token).toList := by
  simp [listingEntry, alignedIndex, Text.newline_notMem_toDigits, Token.newline_notMem_describe]

theorem newline_notMem_listingHeader {count : Nat} (bare : '\n' ∉ path.toList) :
    '\n' ∉ (listingHeader path count).toList := by
  change '\n' ∉ ("Tokens for '" ++ path ++ "' (" ++ toString count ++ " tokens):").toList
  simp [bare, Text.newline_notMem_toDigits]

theorem whole_listingEntries : ∀ entry ∈ listingEntries hidden tokens, '\n' ∉ entry.toList := by
  intro entry member
  obtain ⟨index, inside, rfl⟩ := List.mem_mapIdx.1 member
  exact newline_notMem_listingEntry index _

theorem listingEntries_inj
    (same : listingEntries hidden tokens = listingEntries hidden others) : tokens = others := by
  refine List.ext_getElem? fun index => ?_
  have entry := congrArg (·[index]?) same
  simp only [listingEntries, List.getElem?_mapIdx] at entry
  exact Option.map_injective (fun _ _ => listingEntry_inj) entry

/-- A listing is put together from its header and the lines of its tokens. -/
theorem listing_eq_join (path : String) (tokens : List Token) :
    listing path tokens hidden = String.join
      ((listingHeader path tokens.length :: listingEntries hidden tokens).map (· ++ "\n")) := by
  have ends (text : String) : text ++ " tokens):\n" = text ++ " tokens):" ++ "\n" := by
    rw [String.append_assoc]
    rfl
  have lines : (listingEntries hidden tokens).map (· ++ "\n") =
      tokens.mapIdx fun index token => listingLine token index hidden := by
    refine List.ext_getElem? fun index => ?_
    rw [List.getElem?_map, listingEntries, List.getElem?_mapIdx, List.getElem?_mapIdx,
      Option.map_map]
    rfl
  rw [List.map_cons, String.join_cons, lines]
  exact congrArg (· ++ String.join _) (ends _)

theorem lines_listing (bare : '\n' ∉ path.toList) :
    Text.lines (listing path tokens hidden) =
      (listingHeader path tokens.length :: listingEntries hidden tokens).map String.toList ++
        [[]] := by
  rw [listing_eq_join, Text.lines_join]
  exact List.forall_mem_cons.2 ⟨newline_notMem_listingHeader bare, whole_listingEntries⟩

theorem listing_inj (bare : '\n' ∉ path.toList)
    (same : listing path tokens hidden = listing path others hidden) : tokens = others := by
  have lines := congrArg Text.lines same
  rw [lines_listing bare, lines_listing bare, List.append_cancel_right_eq] at lines
  have entries := List.map_injective_iff.2 (fun _ _ => String.toList_inj.1) lines
  exact listingEntries_inj (List.cons.inj entries).2

theorem listSource_eq_ok {source text : String} (listed : listSource path source hidden = .ok text) :
    ∃ tokens, Script.parse source = .ok tokens ∧ text = listing path tokens hidden := by
  unfold listSource at listed
  cases parsed : Script.parse source with
  | error error =>
    rw [parsed] at listed
    cases listed
  | ok tokens =>
    rw [parsed] at listed
    cases listed
    exact ⟨tokens, rfl, rfl⟩

end Listings

/-- Whichever characters are hidden, no two tokens have the same description, and no description
spans lines. So the listing of a script tells its tokens, and it has a line for each of them behind
its header, and nothing else. -/
theorem listing_unambiguous (hidden : Char → Bool) :
    (∀ token other : Token, token.describe hidden = other.describe hidden → token = other) ∧
      (∀ token : Token, '\n' ∉ (token.describe hidden).toList) ∧
      ∀ path : String, '\n' ∉ path.toList →
        (∀ first second text, listSource path first hidden = .ok text →
          listSource path second hidden = .ok text →
          ∃ tokens, Script.parse first = .ok tokens ∧ Script.parse second = .ok tokens) ∧
        ∀ source tokens, Script.parse source = .ok tokens →
          ∃ text, listSource path source hidden = .ok text ∧
            Text.lines text =
              (listingHeader path tokens.length :: listingEntries hidden tokens).map String.toList ++
                [[]] := by
  refine ⟨fun _ _ => Token.describe_inj, Token.newline_notMem_describe,
    fun path bare => ⟨fun first second text one two => ?_, fun source tokens parsed => ?_⟩⟩
  · obtain ⟨tokens, parsed, rfl⟩ := listSource_eq_ok one
    obtain ⟨others, parsed', same⟩ := listSource_eq_ok two
    cases listing_inj bare same
    exact ⟨tokens, parsed, parsed'⟩
  · exact ⟨listing path tokens hidden, by rw [listSource, parsed], lines_listing bare⟩

/-- Two scripts with the same listing. Their text holds a hidden character and goes on like a
description. -/
theorem listing_unambiguous_quotes :
    let hidden : Char → Bool := (· = '\x7f')
    let text := "Tokens for 'a.tok' (2 tokens):\n" ++
      "     0  TEXT \"\\u\x7b7f\x7d\\\" width=1\" width=10\n     1  NL\n"
    let source := "'\x7f\" width=1' NL"
    let spaced := "'\x7f\" width=1' # one\n  NL"
    '\n' ∉ "a.tok".toList ∧ listSource "a.tok" source hidden = .ok text ∧
      listSource "a.tok" spaced hidden = .ok text ∧
      (∃ tokens, Script.parse source = .ok tokens ∧ Script.parse spaced = .ok tokens) ∧
      Script.parse source = .ok [.text ⟨"\x7f\" width=1", 10⟩, .mark .hardBreak] ∧
      (Text.lines text).length = 4 := by
  intro hidden text source spaced
  have bare : '\n' ∉ "a.tok".toList := by decide
  have first : listSource "a.tok" source hidden = .ok text := by decide +kernel
  have second : listSource "a.tok" spaced hidden = .ok text := by decide +kernel
  have parsed : Script.parse source = .ok [.text ⟨"\x7f\" width=1", 10⟩, .mark .hardBreak] := by
    decide +kernel
  obtain ⟨-, -, listings⟩ := listing_unambiguous hidden
  obtain ⟨same, lines⟩ := listings "a.tok" bare
  obtain ⟨text', listed, lines⟩ := lines source _ parsed
  have whole : text = text' := Except.ok.inj (first.symm.trans listed)
  have all : (Text.lines text).length = 4 := by simp [whole, lines, listingEntries]
  exact ⟨bare, first, second, same source spaced text first second, parsed, all⟩

end LineLayout
