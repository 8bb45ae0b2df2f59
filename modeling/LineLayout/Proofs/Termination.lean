import LineLayout.Proofs.Runs

/-!
# Laying out comes to an end

`runFor` is the loop of a run with a bound on its rounds. A number of rounds that only depends on
the length of the slice is enough from any layout, however often the layout goes back. Over the
whole life of an engine the line is broken at later and later tokens, so no token is gone back to
twice, and there are no more breaks than tokens that offer one.
-/

namespace LineLayout

namespace Layout

/-- The rounds of a run, `rounds` of them at most; nothing if that is not enough. -/
def runFor (config : Config) (slice : Array Token) : (rounds : Nat) → Layout → Option Outcome
  | 0, _ => none
  | rounds + 1, l =>
    match slice[l.cursor]? with
    | none => some (.done l)
    | some token =>
      match l.step config token with
      | .done next => runFor config slice rounds next
      | .rejected fault left => some (.rejected fault left)

variable {l : Layout} {config : Config} {slice : Array Token}

theorem runFor_eq_run {rounds : Nat} (enough : l.remaining slice.size < rounds) :
    runFor config slice rounds l = some (l.run config slice) := by
  induction rounds generalizing l with
  | zero => omega
  | succ rounds ih =>
    rw [runFor]
    cases read : slice[l.cursor]? with
    | none => rw [run_of_end read]
    | some token =>
      cases taken : l.step config token with
      | rejected fault left =>
        simp only [taken]
        rw [run_of_rejected read taken]
      | done next =>
        simp only [taken]
        rw [run_of_done read taken]
        have inside : l.cursor < slice.size := (Array.getElem?_eq_some_iff.1 read).1
        have fewer := remaining_lt inside (step_progress taken)
        exact ih (by omega)

theorem remaining_lt_sq (l : Layout) (length : Nat) :
    l.remaining length < (length + 1) * (length + 1) := by
  have rounds : (length - l.horizon) * (length + 1) ≤ length * (length + 1) :=
    Nat.mul_le_mul_right _ (Nat.sub_le _ _)
  have square : (length + 1) * (length + 1) = length * (length + 1) + (length + 1) :=
    Nat.succ_mul length (length + 1)
  unfold remaining
  omega

/-- How many of the tokens offer a break. -/
def breakCount (tokens : List Token) : Nat :=
  tokens.countP fun token => token.breakKind?.isSome

theorem breakCount_take_succ {tokens : List Token} {index : Nat} {token : Token}
    (read : tokens[index]? = some token) :
    breakCount (tokens.take (index + 1)) =
      breakCount (tokens.take index) + if token.breakKind?.isSome then 1 else 0 := by
  unfold breakCount
  rw [List.take_add_one, List.countP_append, read]
  simp [List.countP_cons]

theorem Straight.length_fired_le {tokens : List Token} {usable : Config → Prop}
    (straight : Straight tokens usable l) :
    l.fired.length ≤ breakCount (tokens.take l.cursor) := by
  induction straight with
  | start => exact Nat.zero_le _
  | forward _ _ read forward ih =>
    rw [forward.fired, forward.cursor, breakCount_take_succ read]
    exact Nat.le_add_right_of_le ih
  | broken _ _ read breaks told ih =>
    rw [fired_resume_breakLine told, cursor_breakLine]
    have offered := breakCount_take_succ read
    simp only [breaks, Option.isSome_some, if_true] at offered
    simpa [resume, offered] using ih

end Layout

namespace Engine

variable {stream : List Token} {engine : Engine}

/-- Whether or not it has met a fault, an engine broke the lines that a straight history breaks. -/
theorem Reachable.straight_fired (reachable : Reachable stream engine) :
    ∃ last, Layout.Straight stream (fun _ => True) last ∧ engine.layout.fired = last.fired := by
  cases reachable.stands with
  | working reached _ => exact ⟨_, reached.straight, rfl⟩
  | stopped reached _ rejected _ =>
    have straight := reached.straight
    exact ⟨_, straight, (Layout.step_refused straight.sound rejected).fired⟩

/-- However an engine came to stand where it stands, laying out any slice under any settings comes
to an end. Over its whole life the line is broken at later and later tokens, each of which offers a
break, and hence not more often than the stream offers one. -/
theorem runs_end_and_breaks_ascend (reachable : Reachable stream engine) :
    (∀ (config : Config) (slice : Array Token),
      ∃ rounds ≤ (slice.size + 1) * (slice.size + 1),
        Layout.runFor config slice rounds engine.layout =
          some (engine.layout.run config slice)) ∧
    engine.layout.fired.Pairwise (· > ·) ∧
    (∀ index ∈ engine.layout.fired, ∃ token kind,
      stream[index]? = some token ∧ token.breakKind? = some kind) ∧
    engine.layout.fired.length ≤ Layout.breakCount stream := by
  obtain ⟨last, straight, same⟩ := reachable.straight_fired
  rw [same]
  refine ⟨?_, straight.pairwise_fired, ?_, ?_⟩
  · intro config slice
    exact ⟨_, Nat.le_refl _, Layout.runFor_eq_run (Layout.remaining_lt_sq _ _)⟩
  · intro index member
    exact (straight.of_mem_fired member).2
  · have taken := (List.take_sublist last.cursor stream).countP_le
      (p := fun token => token.breakKind?.isSome)
    exact Nat.le_trans straight.length_fired_le taken

/-- The line is broken twice, the second time under other settings. -/
theorem runs_end_and_breaks_ascend_resized :
    let stream : List Token :=
      [.plain "alpha", .mark .softBreak, .plain "beta", .mark .softBreak, .plain "gamma"]
    let engine := ((Engine.run { config := ⟨8, 2⟩ } (stream.take 3).toArray).setConfig ⟨6, 1⟩).run
      stream.toArray
    Reachable stream engine ∧ engine.layout.fired = [3, 1] ∧
      engine.layout.fired.Pairwise (· > ·) ∧
      engine.layout.fired.length ≤ Layout.breakCount stream := by
  intro stream engine
  have reachable : Reachable stream engine :=
    .run (.setConfig ⟨6, 1⟩ (.run (.create ⟨8, 2⟩) (List.take_prefix 3 stream)))
      (List.prefix_refl _)
  obtain ⟨-, ascending, -, bounded⟩ := runs_end_and_breaks_ascend reachable
  exact ⟨reachable, by decide +kernel, ascending, bounded⟩

end Engine

end LineLayout
