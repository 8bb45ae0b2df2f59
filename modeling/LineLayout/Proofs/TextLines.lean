import Mathlib.Data.List.DropRight

/-!
# Lines of a text

Lines end at line feeds, and the last one has not ended. A text is cut in front of its last line by
`exists_split`, and put together from whole lines in `lines_join`.
-/

namespace LineLayout.Text

variable {text block : String} {line : List Char}

/-- The characters behind the last line feed. -/
def lastLine (text : String) : List Char :=
  text.toList.rtakeWhile (· ≠ '\n')

theorem lastLine_append {before line : String}
    (begins : before = "" ∨ ∃ earlier, before = earlier ++ "\n") (whole : '\n' ∉ line.toList) :
    lastLine (before ++ line) = line.toList := by
  have all : line.toList.reverse.all (· ≠ '\n') = true := by
    simp only [List.all_reverse, List.all_eq_true, decide_eq_true_eq]
    rintro c member rfl
    exact whole member
  rw [lastLine, String.toList_append, List.rtakeWhile, List.reverse_append,
    List.takeWhile_append_of_pos (by simpa using all)]
  rcases begins with rfl | ⟨earlier, rfl⟩
  · simp
  · simp

/-- The lines of a text. -/
def lines (text : String) : List (List Char) :=
  text.toList.splitOn '\n'

theorem lines_append {before line : String}
    (begins : before = "" ∨ ∃ earlier, before = earlier ++ "\n") (whole : '\n' ∉ line.toList) :
    lines (before ++ line) = (lines before).dropLast ++ [line.toList] := by
  have alone := List.splitOn_eq_singleton whole
  rcases begins with rfl | ⟨earlier, rfl⟩
  · simp [lines, alone]
  · have split : (earlier ++ "\n" ++ line).toList = earlier.toList ++ '\n' :: line.toList := by simp
    have split' : (earlier ++ "\n").toList = earlier.toList ++ '\n' :: [] := by simp
    rw [lines, lines, split, split', List.splitOn_append_cons_self, List.splitOn_append_cons_self,
      alone]
    simp

/-- A text is some whole lines, and a line that has not ended. -/
theorem exists_split (text : String) :
    ∃ before line, text = before ++ line ∧ (before = "" ∨ ∃ earlier, before = earlier ++ "\n") ∧
      '\n' ∉ line.toList := by
  obtain ⟨chars, rfl⟩ : ∃ chars, text = String.ofList chars := ⟨text.toList, by simp⟩
  induction chars using List.reverseRecOn with
  | nil => exact ⟨"", "", rfl, Or.inl rfl, by simp⟩
  | append_singleton chars c ih =>
    obtain ⟨before, line, same, begins, whole⟩ := ih
    rw [String.ofList_append]
    by_cases ends : c = '\n'
    · subst ends
      exact ⟨String.ofList chars ++ "\n", "", by simp, Or.inr ⟨_, rfl⟩, by simp⟩
    · refine ⟨before, line ++ String.ofList [c], by rw [same, String.append_assoc], begins, ?_⟩
      simpa [whole] using Ne.symm ends

theorem mem_lines_newline (member : line ∈ lines (text ++ "\n")) :
    line ∈ lines text ∨ line = [] := by
  have split : (text ++ "\n").toList = text.toList ++ '\n' :: [] := by simp
  rw [lines, split, List.splitOn_append_cons_self] at member
  simpa [lines] using member

theorem mem_lines_append (whole : '\n' ∉ block.toList) (member : line ∈ lines (text ++ block)) :
    line ∈ lines text ∨ line = lastLine (text ++ block) := by
  obtain ⟨before, last, rfl, begins, bare⟩ := exists_split text
  have whole' : '\n' ∉ (last ++ block).toList := by
    rw [String.toList_append, List.mem_append, not_or]
    exact ⟨bare, whole⟩
  rw [String.append_assoc] at member ⊢
  rw [lines_append begins whole', List.mem_append, List.mem_singleton] at member
  rw [lines_append begins bare, lastLine_append begins whole', List.mem_append]
  exact member.imp_left Or.inl

/-- The lines of a text are those it is put together from. -/
theorem lines_join {entries : List String} (whole : ∀ entry ∈ entries, '\n' ∉ entry.toList) :
    lines (String.join (entries.map (· ++ "\n"))) = entries.map String.toList ++ [[]] := by
  induction entries with
  | nil => simp [lines]
  | cons entry entries ih =>
    obtain ⟨bare, rest⟩ := List.forall_mem_cons.1 whole
    have split : (String.join ((entry :: entries).map (· ++ "\n"))).toList =
        entry.toList ++ '\n' :: (String.join (entries.map (· ++ "\n"))).toList := by
      simp [String.join_cons]
    rw [lines, split, List.splitOn_append_cons_self, List.splitOn_eq_singleton bare, ← lines, ih rest]
    simp

end LineLayout.Text
