import LineLayout.Proofs.History

/-!
# Runs and engines

A run is a sequence of steps under one configuration, and an engine goes from run to run while the
stream grows and the settings change. `run_ends` says where a run ends, and `Reachable.stands` where
an engine stands: in a layout that steps reach, or in one that a refused step left behind.
-/

namespace LineLayout

/-- The layout to go on with, or the one that a fault left behind. -/
def Outcome.layout : Outcome → Layout
  | .done l => l
  | .rejected _ l => l

theorem Engine.layout_settle (engine : Engine) (outcome : Outcome) :
    (engine.settle outcome).layout = outcome.layout := by
  cases outcome <;> rfl

namespace Layout

section Run

variable {tokens : List Token} {usable : Config → Prop} {l : Layout} {config : Config}
  {slice : Array Token}

/-- How laying out a slice ends: at its end, or at a token that is refused. -/
inductive Ends (tokens : List Token) (usable : Config → Prop) (config : Config)
    (slice : Array Token) : Outcome → Prop
  | finished {last : Layout} (reached : Reached tokens usable last)
      (read : slice[last.cursor]? = none) : Ends tokens usable config slice (.done last)
  | refused {last left : Layout} {fault : Fault} {token : Token}
      (reached : Reached tokens usable last) (read : slice[last.cursor]? = some token)
      (rejected : last.step config token = .rejected fault left) :
      Ends tokens usable config slice (.rejected fault left)

theorem getElem?_of_slice {slice : Array Token} (part : slice.toList <+: tokens) {index : Nat}
    {token : Token} (read : slice[index]? = some token) : tokens[index]? = some token := by
  obtain ⟨rest, rfl⟩ := part
  rw [← Array.getElem?_toList] at read
  rw [List.getElem?_append_left (List.getElem?_eq_some_iff.1 read).1]
  exact read

theorem cursor_of_rejected {token : Token} {left : Layout} {fault : Fault}
    (rejected : l.step config token = .rejected fault left) : left.cursor = l.cursor := by
  rcases token with run | mark
  · cases rejected
  cases mark with
  | hardBreak | softBreak | separator | indent | opener => cases rejected
  | dedent =>
    simp only [step, dedent] at rejected
    split at rejected
    · cases rejected
      rfl
    · split at rejected
      · cases rejected
      · obtain ⟨-, -, rfl⟩ := takeBackMargin_rejected rejected
        exact cursor_commitLine l
  | closer bracket =>
    cases closeList_refused rejected with
    | unopened | mismatched => rfl
    | unsaved => exact cursor_writeClosing _ _

/-- A run that stops stands in front of one of its tokens. -/
theorem cursor_lt_of_rejected {left : Layout} {fault : Fault}
    (stopped : l.run config slice = .rejected fault left) : left.cursor < slice.size := by
  fun_induction run l config slice with
  | case1 l read => cases stopped
  | case2 l token read next taken ih => exact ih stopped
  | case3 l token read fault' left' taken =>
    cases stopped
    rw [cursor_of_rejected taken]
    exact (Array.getElem?_eq_some_iff.1 read).1

theorem run_ends (reached : Reached tokens usable l) (allowed : usable config)
    (part : slice.toList <+: tokens) : Ends tokens usable config slice (l.run config slice) := by
  fun_induction run l config slice with
  | case1 l read => exact .finished reached read
  | case2 l token read next taken ih =>
    exact ih (.step reached allowed (getElem?_of_slice part read) taken)
  | case3 l token read fault left taken => exact .refused reached read taken

end Run

end Layout

namespace Engine

/-- The engines that runs over slices of one stream and changes of the settings lead to. The slices
that are read one after the other grow; a shorter one would change nothing. -/
inductive Reachable (stream : List Token) : Engine → Prop
  | create (config : Config) : Reachable stream { config := config }
  | run {engine : Engine} {slice : Array Token} (reachable : Reachable stream engine)
      (part : slice.toList <+: stream) : Reachable stream (engine.run slice)
  | setConfig {engine : Engine} (config : Config) (reachable : Reachable stream engine) :
      Reachable stream (engine.setConfig config)

/-- Where an engine stands. -/
inductive Stands (stream : List Token) : Engine → Prop
  | working {engine : Engine} (reached : Layout.Reached stream (fun _ => True) engine.layout)
      (sane : engine.fault? = none) : Stands stream engine
  | stopped {engine : Engine} {last : Layout} {config : Config} {token : Token} {fault : Fault}
      (reached : Layout.Reached stream (fun _ => True) last)
      (read : stream[last.cursor]? = some token)
      (rejected : last.step config token = .rejected fault engine.layout)
      (faulty : engine.fault? = some fault) : Stands stream engine

variable {stream : List Token} {engine : Engine}

theorem Stands.run {slice : Array Token} (stands : Stands stream engine)
    (part : slice.toList <+: stream) : Stands stream (engine.run slice) := by
  cases stands with
  | working reached sane =>
    have ends : Layout.Ends stream (fun _ => True) engine.config slice
        (engine.layout.run engine.config slice) := Layout.run_ends reached trivial part
    simp only [Engine.run, sane]
    generalize engine.layout.run engine.config slice = outcome at ends
    cases ends with
    | finished reached _ => exact .working reached sane
    | refused reached read rejected =>
      exact .stopped reached (Layout.getElem?_of_slice part read) rejected rfl
  | stopped reached read rejected faulty =>
    simp only [Engine.run, faulty]
    exact .stopped reached read rejected faulty

theorem Reachable.stands (reachable : Reachable stream engine) : Stands stream engine := by
  induction reachable with
  | create config => exact .working .start rfl
  | run _ part ih => exact ih.run part
  | setConfig config _ ih =>
    cases ih with
    | working reached sane => exact .working reached sane
    | stopped reached read rejected faulty => exact .stopped reached read rejected faulty

/-- An engine without a fault is one that steps alone lead to. -/
theorem Reachable.reached (reachable : Reachable stream engine) (sane : engine.fault? = none) :
    Layout.Reached stream (fun _ => True) engine.layout := by
  cases reachable.stands with
  | working reached _ => exact reached
  | stopped _ _ _ faulty => simp [faulty] at sane

end Engine

end LineLayout
