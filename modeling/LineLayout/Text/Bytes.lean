/-!
# Byte offsets into text

Offsets into text count the bytes of its UTF-8 form. `upTo?` cuts text at such an offset, and only
where a character ends: `upTo?_eq_some_iff` says that it finds every such cut and nothing else.
-/

namespace LineLayout.Text

/-- The number of bytes that the characters take in UTF-8. -/
def byteLength : List Char → Nat
  | [] => 0
  | c :: cs => c.utf8Size + byteLength cs

/-- The text in front of an offset, if a character ends there. -/
def upTo? (text : String) (offset : Nat) : Option String :=
  (text.pos? ⟨offset⟩).map fun position => (text.sliceTo position).copy

theorem byteLength_append (s t : List Char) :
    byteLength (s ++ t) = byteLength s + byteLength t := by
  induction s with
  | nil => simp [byteLength]
  | cons c s ih => simp [byteLength, ih, Nat.add_assoc]

theorem utf8ByteSize_ofList (s : List Char) : (String.ofList s).utf8ByteSize = byteLength s := by
  induction s with
  | nil => rfl
  | cons c s ih =>
    rw [String.ofList_cons, String.utf8ByteSize_append, String.utf8ByteSize_singleton, ih]
    rfl

theorem byteLength_toList (text : String) : byteLength text.toList = text.utf8ByteSize := by
  rw [← utf8ByteSize_ofList, String.ofList_toList]

theorem offset_of_pos? {text : String} {offset : String.Pos.Raw} {position : text.Pos}
    (found : text.pos? offset = some position) : position.offset = offset := by
  simp only [String.pos?, String.Slice.pos?, Option.map_eq_some_iff] at found
  obtain ⟨inner, found, rfl⟩ := found
  split at found
  · cases found
    simp
  · cases found

theorem isSome_pos?_iff {text : String} {offset : String.Pos.Raw} :
    (text.pos? offset).isSome ↔ offset.IsValid text := by
  simp [String.pos?, String.Slice.pos?]

theorem upTo?_eq_some_iff {text kept : String} {offset : Nat} :
    upTo? text offset = some kept ↔
      kept.utf8ByteSize = offset ∧ ∃ rest, text = kept ++ rest := by
  constructor
  · intro cut
    obtain ⟨position, found, rfl⟩ := Option.map_eq_some_iff.1 cut
    have size := congrArg String.Pos.Raw.byteIdx position.splits.offset_eq_rawEndPos
    rw [offset_of_pos? found] at size
    exact ⟨size.symm, _, position.splits.eq_append⟩
  · rintro ⟨rfl, rest, rfl⟩
    have valid : String.Pos.Raw.IsValid (kept ++ rest) ⟨kept.utf8ByteSize⟩ :=
      String.Pos.Raw.isValid_iff_exists_append.2 ⟨kept, rest, rfl, rfl⟩
    obtain ⟨position, found⟩ := Option.isSome_iff_exists.1 (isSome_pos?_iff.2 valid)
    have splits : position.Splits kept rest := ⟨rfl, offset_of_pos? found⟩
    simp [upTo?, found, (position.splits.eq splits).1]

end LineLayout.Text
