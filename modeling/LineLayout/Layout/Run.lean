import LineLayout.Layout.Progress

/-!
# A whole stream

`run` lays tokens out from the cursor to the end of the stream. It may read a token many times, but
each step leaves fewer steps to go.
-/

namespace LineLayout.Layout

/-- Lays out the tokens from the cursor on. -/
def run (l : Layout) (config : Config) (tokens : Array Token) : Outcome :=
  match _ : tokens[l.cursor]? with
  | none => .done l
  | some token =>
    match _ : l.step config token with
    | .done next => next.run config tokens
    | .rejected fault left => .rejected fault left
termination_by l.remaining tokens.size
decreasing_by
  rename_i read taken
  exact remaining_lt (Array.getElem?_eq_some_iff.1 read).1 (step_progress taken)

theorem run_of_end {l : Layout} {config : Config} {tokens : Array Token}
    (read : tokens[l.cursor]? = none) : l.run config tokens = .done l := by
  rw [run]
  split
  · rfl
  · simp_all

theorem run_of_done {l next : Layout} {config : Config} {tokens : Array Token} {token : Token}
    (read : tokens[l.cursor]? = some token) (taken : l.step config token = .done next) :
    l.run config tokens = next.run config tokens := by
  rw [run]
  split
  · simp_all
  · split <;> simp_all

theorem run_of_rejected {l left : Layout} {config : Config} {tokens : Array Token} {token : Token}
    {fault : Fault} (read : tokens[l.cursor]? = some token)
    (taken : l.step config token = .rejected fault left) :
    l.run config tokens = .rejected fault left := by
  rw [run]
  split
  · simp_all
  · split <;> simp_all

end LineLayout.Layout
