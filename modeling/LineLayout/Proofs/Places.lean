import LineLayout.Proofs.TextLines
import LineLayout.Script.Location
import Mathlib.Data.List.Induction

/-!
# The order of places

One character more moves a place one column on, or to the start of the next line
(`Location.behind_concat`). So places in a source come in the order of their offsets, and no two of
them are the same (`Location.precedes_behind_append`). Offsets count bytes and columns count
characters: an offset that lies inside of a character is no place of its own.
-/

namespace LineLayout

/-! ## Offsets -/

namespace Text

variable {source : String} {offset : Nat}

/-- Up to the offset, the source is made of whole characters. -/
def IsBoundary (source : String) (offset : Nat) : Prop :=
  ∃ front back, source = front ++ back ∧ front.utf8ByteSize = offset

/-- The offset lies between two bytes of one character. -/
def IsInside (source : String) (offset : Nat) : Prop :=
  ∃ front c back, source = front ++ String.singleton c ++ back ∧
    front.utf8ByteSize < offset ∧ offset < front.utf8ByteSize + c.utf8Size

theorem exists_between {front back front' back' : String} (same : front ++ back = front' ++ back')
    (le : front.utf8ByteSize ≤ front'.utf8ByteSize) : ∃ between, front' = front ++ between := by
  have chars : front.toList ++ back.toList = front'.toList ++ back'.toList := by
    rw [← String.toList_append, same, String.toList_append]
  rcases List.append_eq_append_iff.1 chars with ⟨between, longer, -⟩ | ⟨between, shorter, -⟩
  · exact ⟨String.ofList between, String.toList_inj.1 (by simp [longer])⟩
  · have longer : front = front' ++ String.ofList between := String.toList_inj.1 (by simp [shorter])
    have size := congrArg String.utf8ByteSize longer
    rw [String.utf8ByteSize_append] at size
    have empty : String.ofList between = "" := String.utf8ByteSize_eq_zero_iff.1 (by omega)
    exact ⟨"", by rw [longer, empty, String.append_empty, String.append_empty]⟩

theorem IsBoundary.le_size (boundary : IsBoundary source offset) :
    offset ≤ source.utf8ByteSize := by
  obtain ⟨front, back, rfl, rfl⟩ := boundary
  rw [String.utf8ByteSize_append]
  omega

theorem IsInside.not_isBoundary (inside : IsInside source offset) :
    ¬ IsBoundary source offset := by
  rintro ⟨front', back', split, rfl⟩
  obtain ⟨front, c, back, rfl, behind, ahead⟩ := inside
  have one : (front ++ String.singleton c).utf8ByteSize = front.utf8ByteSize + c.utf8Size := by
    rw [String.utf8ByteSize_append, String.utf8ByteSize_singleton]
  -- what `front'` has behind `front` is a part of the character, so it is nothing or all of it
  obtain ⟨part, rfl⟩ := exists_between ((String.append_assoc ..).symm.trans split) (by omega)
  obtain ⟨rest, whole⟩ := exists_between split.symm (by omega)
  have chars : part.toList ++ rest.toList = [c] := by
    rw [← String.toList_append, ← String.toList_singleton, ← (String.append_right_inj front).1
      (whole.trans (String.append_assoc ..))]
  rw [String.utf8ByteSize_append] at behind ahead
  rcases List.append_eq_singleton_iff.1 chars with ⟨none, -⟩ | ⟨all, -⟩
  · obtain rfl : part = "" := String.toList_inj.1 none
    simp at behind
  · obtain rfl : part = String.singleton c := String.toList_inj.1 (by simp [all])
    simp at ahead

end Text

/-! ## Places -/

namespace Script.Location

variable {source : String} {offset : Nat}

/-- One place is on an earlier line than another one, or further left on the same line. -/
def Precedes (place other : Location) : Prop :=
  place.line < other.line ∨ place.line = other.line ∧ place.column < other.column

theorem Precedes.trans {p q r : Location} (first : p.Precedes q) (second : q.Precedes r) :
    p.Precedes r := by
  unfold Precedes at *
  omega

theorem Precedes.ne {p q : Location} (precedes : p.Precedes q) : p ≠ q := by
  rintro rfl
  unfold Precedes at precedes
  omega

theorem behind_concat (text : List Char) (c : Char) :
    behind (text ++ [c]) =
      if c = '\n' then ⟨(behind text).line + 1, 1⟩
      else ⟨(behind text).line, (behind text).column + 1⟩ := by
  by_cases ends : c = '\n'
  · simp [behind, ends]
  · simp [behind, ends]

theorem precedes_behind_concat (text : List Char) (c : Char) :
    (behind text).Precedes (behind (text ++ [c])) := by
  rw [behind_concat]
  split
  · exact Or.inl (Nat.lt_succ_self _)
  · exact Or.inr ⟨rfl, Nat.lt_succ_self _⟩

/-- Further on in a text is a later place. -/
theorem precedes_behind_append (text : List Char) {more : List Char} (nonempty : more ≠ []) :
    (behind text).Precedes (behind (text ++ more)) := by
  induction more using List.reverseRecOn with
  | nil => exact absurd rfl nonempty
  | append_singleton more c ih =>
    rw [← List.append_assoc]
    have last := precedes_behind_concat (text ++ more) c
    by_cases empty : more = []
    · rw [empty, List.append_nil] at last ⊢
      exact last
    · exact (ih empty).trans last

/-- Line feeds in front are lines in front. -/
theorem behind_line (first front : List Char) :
    behind (first ++ '\n' :: front) =
      ⟨(behind front).line + (first.count '\n' + 1), (behind front).column⟩ := by
  induction front using List.reverseRecOn with
  | nil =>
    rw [behind_concat, if_pos rfl]
    simp [behind]
    omega
  | append_singleton front c ih =>
    rw [← List.cons_append, ← List.append_assoc, behind_concat, behind_concat, ih]
    split
    · simp only [Location.mk.injEq, and_true]
      omega
    · rfl

/-- A place is behind the whole lines in front of it, on a line of its own. -/
theorem behind_split {before line : String}
    (begins : before = "" ∨ ∃ earlier, before = earlier ++ "\n") (whole : '\n' ∉ line.toList) :
    behind (before ++ line).toList =
      ⟨(before ++ line).toList.count '\n' + 1, line.length + 1⟩ := by
  have column := congrArg List.length (Text.lastLine_append begins whole)
  rw [Text.lastLine, List.rtakeWhile, List.length_reverse, String.length_toList] at column
  rw [behind, column]

/-! ## Places by their offsets -/

theorem atOffset_append (front back : String) :
    atOffset (front ++ back) front.utf8ByteSize = behind front.toList := by
  have cut : Text.upTo? (front ++ back) front.utf8ByteSize = some front :=
    Text.upTo?_eq_some_iff.2 ⟨rfl, back, rfl⟩
  rw [atOffset, cut, Option.getD_some]

theorem atOffset_size (source : String) :
    atOffset source source.utf8ByteSize = behind source.toList := by
  simpa only [String.append_empty] using atOffset_append source ""

theorem atOffset_of_not_isBoundary (none : ¬ Text.IsBoundary source offset) :
    atOffset source offset = behind source.toList := by
  have uncut : Text.upTo? source offset = Option.none := by
    rw [Option.eq_none_iff_forall_ne_some]
    intro front cut
    obtain ⟨size, back, split⟩ := Text.upTo?_eq_some_iff.1 cut
    exact none ⟨front, back, split, size⟩
  rw [atOffset, uncut, Option.getD_none]

theorem precedes_atOffset {first second : Nat} (boundary : Text.IsBoundary source first)
    (boundary' : Text.IsBoundary source second) (lt : first < second) :
    (atOffset source first).Precedes (atOffset source second) := by
  obtain ⟨front, back, rfl, rfl⟩ := boundary
  obtain ⟨front', back', split, rfl⟩ := boundary'
  obtain ⟨between, rfl⟩ := Text.exists_between split (Nat.le_of_lt lt)
  have nonempty : between.toList ≠ [] := by
    intro empty
    obtain rfl : between = "" := String.toList_inj.1 empty
    simp at lt
  rw [atOffset_append, split, atOffset_append, String.toList_append]
  exact precedes_behind_append front.toList nonempty

/-- Places come in the order of their offsets, so that two offsets never share one. The line counts
the line feeds in front of the place, and the column the characters behind the last of them. An
offset past the end of the source or inside of a character names the end. -/
theorem places_in_order (source : String) :
    (∀ first second, Text.IsBoundary source first → Text.IsBoundary source second →
        first < second → (atOffset source first).Precedes (atOffset source second)) ∧
      (∀ first second, Text.IsBoundary source first → Text.IsBoundary source second →
        atOffset source first = atOffset source second → first = second) ∧
      (∀ front back, source = front ++ back → ∃ before line, front = before ++ line ∧
        (before = "" ∨ ∃ earlier, before = earlier ++ "\n") ∧ '\n' ∉ line.toList ∧
        (atOffset source front.utf8ByteSize).line = front.toList.count '\n' + 1 ∧
        (atOffset source front.utf8ByteSize).column = line.length + 1) ∧
      (∀ offset, source.utf8ByteSize < offset ∨ Text.IsInside source offset →
        atOffset source offset = atOffset source source.utf8ByteSize) := by
  refine ⟨fun first second => precedes_atOffset, ?_, ?_, ?_⟩
  · intro first second boundary boundary' same
    rcases Nat.lt_trichotomy first second with lt | eq | gt
    · exact absurd same (precedes_atOffset boundary boundary' lt).ne
    · exact eq
    · exact absurd same.symm (precedes_atOffset boundary' boundary gt).ne
  · rintro front back rfl
    obtain ⟨before, line, rfl, begins, whole⟩ := Text.exists_split front
    have place := behind_split begins whole
    refine ⟨before, line, rfl, begins, whole, ?_, ?_⟩
    · rw [atOffset_append, place]
    · rw [atOffset_append, place]
  · intro offset off
    rw [atOffset_size, atOffset_of_not_isBoundary]
    rcases off with past | inside
    · exact fun boundary => absurd boundary.le_size (Nat.not_le_of_lt past)
    · exact inside.not_isBoundary

/-- The characters of this source take two, one, one and three bytes. -/
theorem places_in_order_bytes :
    (atOffset "é\nb€" 2).Precedes (atOffset "é\nb€" 4) ∧
      atOffset "é\nb€" 5 = atOffset "é\nb€" 7 ∧ atOffset "é\nb€" 8 = atOffset "é\nb€" 7 := by
  obtain ⟨ordered, -, -, off⟩ := places_in_order "é\nb€"
  exact ⟨ordered 2 4 ⟨"é", "\nb€", rfl, rfl⟩ ⟨"é\nb", "€", rfl, rfl⟩ (by decide),
    off 5 (Or.inr ⟨"é\nb", '€', "", rfl, by decide, by decide⟩), off 8 (Or.inl (by decide))⟩

end Script.Location

end LineLayout
