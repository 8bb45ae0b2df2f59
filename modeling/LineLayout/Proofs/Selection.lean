import LineLayout.Proofs.Choice

/-!
# Choices by position

Positions of pending candidates are counted from the oldest. `OverflowPosition` and `AbovePosition`
say which position a line that overflows and a line that ends are to be broken at, for any
candidates whatever, with any columns and priorities. The walks find just these positions.

Nothing here is said of the tokens that left the candidates, and the walks do not look at them. So
the candidates may as well be numbered by their positions (`numbered`), and then the newest one has
the largest number.
-/

namespace LineLayout

/-- The candidate as if the token with the given number had left it. -/
def Candidate.numbered (c : Candidate) (number : Nat) : Candidate :=
  { c with before := { c.before with index := number } }

namespace Pending

variable {limit : Nat} {threshold : Priority} {pending : Pending} {choice : Choice}
  {c d : Candidate} {i j : Nat}

/-! ## Walks give a candidate with those older than it -/

theorem walk_keeps {β : Type} (look : β → Candidate → Pending → β) (Good : β → Prop)
    (step : ∀ {found : β} {c : Candidate} {older : Pending}, c :: older <:+ pending → Good found →
      Good (look found c older))
    {found : β} {rest : Pending} (start : Good found) (suffix : rest <:+ pending) :
    Good (walk look found rest) := by
  induction rest generalizing found with
  | nil => exact start
  | cons c older ih => exact ih (step suffix start) ((List.suffix_cons c older).trans suffix)

theorem suffix_of_bestForOverflow? (chosen : bestForOverflow? limit pending = some choice) :
    choice.candidate :: choice.older <:+ pending := by
  cases pending with
  | nil => cases chosen
  | cons c older =>
    cases chosen
    rw [improve_eq_walk]
    refine walk_keeps _ (fun best : Choice => best.candidate :: best.older <:+ c :: older) ?_
      (List.suffix_refl _) (List.suffix_cons c older)
    intro best d rest here kept
    split
    · exact here
    · exact kept

theorem suffix_of_bestAbove? (chosen : bestAbove? threshold pending = some choice) :
    choice.candidate :: choice.older <:+ pending := by
  rw [bestAbove?, improveAbove_eq_walk] at chosen
  refine walk_keeps (preferAbove threshold)
    (fun best? => ∀ best ∈ best?, best.candidate :: best.older <:+ pending) ?_
    (fun _ absent => by cases absent) (List.suffix_refl pending) choice chosen
  intro best? d rest here kept best found
  unfold preferAbove at found
  split at found
  · cases found
    exact here
  · exact kept best found

theorem choice?_of_suffix (suffix : choice.candidate :: choice.older <:+ pending) :
    choice? choice.position pending = some choice := by
  obtain ⟨newer, rfl⟩ := suffix
  induction newer with
  | nil => exact if_pos rfl
  | cons d newer ih =>
    rw [List.cons_append, choice?, if_neg, ih]
    simp only [Choice.position, List.length_append, List.length_cons]
    omega

theorem reverse_of_suffix (suffix : choice.candidate :: choice.older <:+ pending) :
    pending.reverse[choice.position]? = some choice.candidate := by
  obtain ⟨newer, rfl⟩ := suffix
  simp [Choice.position]

/-! ## Candidates numbered by position -/

/-- Candidates numbered by their positions. -/
def numbered (pending : Pending) : Pending :=
  relabel (fun c older => c.numbered older.length) pending

theorem unseen_numbered : Candidate.Unseen fun c older => c.numbered older.length :=
  ⟨fun _ _ => rfl, fun _ _ => rfl⟩

theorem descending_numbered (pending : Pending) :
    Descending pending.length pending.numbered := by
  induction pending with
  | nil => trivial
  | cons c older ih => exact ⟨Nat.lt_succ_self older.length, ih⟩

theorem mem_numbered_iff :
    d ∈ pending.numbered ↔ ∃ i c, pending.reverse[i]? = some c ∧ Candidate.numbered c i = d := by
  induction pending with
  | nil => simp [numbered, relabel]
  | cons c older ih =>
    have last (i : Nat) (e : Candidate) : (older.reverse ++ [c])[i]? = some e ↔
        older.reverse[i]? = some e ∨ i = older.length ∧ e = c := by grind
    have cons : d ∈ numbered (c :: older) ↔ d = c.numbered older.length ∨ d ∈ numbered older :=
      List.mem_cons
    simp only [cons, ih, List.reverse_cons, last]
    constructor
    · rintro (rfl | ⟨i, e, here, rfl⟩)
      · exact ⟨older.length, c, Or.inr ⟨rfl, rfl⟩, rfl⟩
      · exact ⟨i, e, Or.inl here, rfl⟩
    · rintro ⟨i, e, here | ⟨rfl, rfl⟩, rfl⟩
      · exact Or.inr ⟨i, e, here, rfl⟩
      · exact Or.inl rfl

theorem numbered_mem (here : pending.reverse[i]? = some c) : c.numbered i ∈ pending.numbered :=
  mem_numbered_iff.2 ⟨i, c, here, rfl⟩

theorem exists_numbered_mem (member : c ∈ pending) : ∃ i, c.numbered i ∈ pending.numbered := by
  obtain ⟨i, here⟩ := List.getElem?_of_mem (List.mem_reverse.2 member)
  exact ⟨i, numbered_mem here⟩

/-! ## Positions to break at -/

/-- At position `i` stands `c`, and no candidate has a higher priority. -/
structure TopAt (pending : Pending) (i : Nat) (c : Candidate) : Prop where
  here : pending.reverse[i]? = some c
  highest : ∀ d ∈ pending, d.priority ≤ c.priority

/-- Where to break a line that overflows the limit. -/
inductive OverflowPosition (limit : Nat) (pending : Pending) (i : Nat) : Prop where
  /-- Of the highest priority and within the limit, and the newest of those. -/
  | within {c : Candidate} (top : TopAt pending i c) (inside : c.column ≤ limit)
      (newest : ∀ j d, TopAt pending j d → d.column ≤ limit → j ≤ i)
  /-- If none of the highest priority is within the limit, the newest of those furthest left. -/
  | beyond {c : Candidate} (top : TopAt pending i c)
      (outside : ∀ j d, TopAt pending j d → limit < d.column)
      (leftmost : ∀ j d, TopAt pending j d → c.column ≤ d.column)
      (newest : ∀ j d, TopAt pending j d → d.column = c.column → j ≤ i)

/-- Where to break a line that ends, instead of ending it: above the threshold, of the highest
priority, and the newest of those. -/
inductive AbovePosition (threshold : Priority) (pending : Pending) (i : Nat) : Prop where
  | intro {c : Candidate} (top : TopAt pending i c) (above : threshold < c.priority)
      (newest : ∀ j d, TopAt pending j d → j ≤ i)

theorem mem_of_reverse (here : pending.reverse[i]? = some c) : c ∈ pending :=
  List.mem_reverse.1 (List.mem_of_getElem? here)

theorem TopAt.of_numbered (here : pending.reverse[i]? = some c)
    (highest : ∀ d ∈ pending.numbered, d.priority ≤ c.priority) : TopAt pending i c := by
  refine ⟨here, fun d member => ?_⟩
  obtain ⟨j, member'⟩ := exists_numbered_mem member
  exact highest (d.numbered j) member'

theorem TopAt.mem (top : TopAt pending i c) : c ∈ pending :=
  mem_of_reverse top.here

theorem TopAt.priority_eq (top : TopAt pending i c) (other : TopAt pending j d) :
    d.priority = c.priority :=
  Priority.eq_iff_units.2 (Nat.le_antisymm (top.highest d other.mem) (other.highest c top.mem))

theorem OverflowPosition.unique (one : OverflowPosition limit pending i)
    (other : OverflowPosition limit pending j) : i = j := by
  cases one with
  | within top inside newest =>
    cases other with
    | within top' inside' newest' =>
      exact Nat.le_antisymm (newest' i _ top inside) (newest j _ top' inside')
    | beyond top' outside' => exact absurd inside (Nat.not_le_of_lt (outside' i _ top))
  | beyond top outside leftmost newest =>
    cases other with
    | within top' inside' => exact absurd inside' (Nat.not_le_of_lt (outside j _ top'))
    | beyond top' _ leftmost' newest' =>
      have level := Nat.le_antisymm (leftmost j _ top') (leftmost' i _ top)
      exact Nat.le_antisymm (newest' i _ top level) (newest j _ top' level.symm)

theorem AbovePosition.unique (one : AbovePosition threshold pending i)
    (other : AbovePosition threshold pending j) : i = j := by
  obtain ⟨top, -, newest⟩ := one
  obtain ⟨top', -, newest'⟩ := other
  exact Nat.le_antisymm (newest' i _ top) (newest j _ top')

/-- Within the limit, a line that overflows and a line that ends are broken at the same position. -/
theorem OverflowPosition.above (position : OverflowPosition limit pending i)
    (inside : ∀ c ∈ pending, c.column ≤ limit) (exists_above : ∃ c ∈ pending, threshold < c.priority) :
    AbovePosition threshold pending i := by
  obtain ⟨e, member, above⟩ := exists_above
  cases position with
  | within top _ newest =>
    exact ⟨top, Nat.lt_of_lt_of_le above (top.highest e member),
      fun j d top' => newest j d top' (inside d top'.mem)⟩
  | beyond top outside => exact absurd (inside _ top.mem) (Nat.not_le_of_lt (outside i _ top))

/-! ## The walks find them -/

theorem overflowPosition_of_bestForOverflow?
    (chosen : bestForOverflow? limit pending = some choice) :
    OverflowPosition limit pending choice.position := by
  have numbers : bestForOverflow? limit pending.numbered =
      some (choice.relabel fun c older => c.numbered older.length) := by
    rw [numbered, bestForOverflow?_relabel unseen_numbered, chosen, Option.map_some]
  have found : OverflowChoice limit (· ∈ pending.numbered)
      (choice.candidate.numbered choice.position) :=
    overflowChoice_of_bestForOverflow? (descending_numbered pending) numbers
  have top : TopAt pending choice.position choice.candidate :=
    .of_numbered (reverse_of_suffix (suffix_of_bestForOverflow? chosen)) found.highest
  have tied (j : Nat) (d : Candidate) (top' : TopAt pending j d) :
      d.priority = choice.candidate.priority := top.priority_eq top'
  by_cases inside : choice.candidate.column ≤ limit
  · refine .within top inside fun j d top' inside' => ?_
    exact (found.within (d.numbered j) (numbered_mem top'.here) (tied j d top') inside').2
  · have past : limit < choice.candidate.column := Nat.lt_of_not_le inside
    refine .beyond top (fun j d top' => ?_) (fun j d top' => ?_) (fun j d top' level => ?_)
    · by_contra inside'
      exact inside (found.within (d.numbered j) (numbered_mem top'.here) (tied j d top')
        (Nat.le_of_not_lt inside')).1
    · exact (found.beyond past (d.numbered j) (numbered_mem top'.here) (tied j d top')).1
    · exact (found.beyond past (d.numbered j) (numbered_mem top'.here) (tied j d top')).2 level

theorem abovePosition_of_bestAbove? (chosen : bestAbove? threshold pending = some choice) :
    AbovePosition threshold pending choice.position := by
  have numbers : bestAbove? threshold pending.numbered =
      some (choice.relabel fun c older => c.numbered older.length) := by
    rw [numbered, bestAbove?_relabel unseen_numbered, chosen, Option.map_some]
  have found : threshold < choice.candidate.priority ∧
      HighestNewest (· ∈ pending.numbered) (choice.candidate.numbered choice.position) :=
    highestNewest_of_bestAbove? (descending_numbered pending) numbers
  have top : TopAt pending choice.position choice.candidate :=
    .of_numbered (reverse_of_suffix (suffix_of_bestAbove? chosen)) found.2.highest
  refine ⟨top, found.1, fun j d top' => ?_⟩
  have tied : d.priority = choice.candidate.priority := top.priority_eq top'
  exact found.2.newest (d.numbered j) (numbered_mem top'.here) tied

theorem bestAbove?_eq_none_iff :
    bestAbove? threshold pending = none ↔ ¬ ∃ c ∈ pending, threshold < c.priority := by
  constructor
  · rintro nothing ⟨c, member, above⟩
    obtain ⟨j, member'⟩ := exists_numbered_mem member
    have nothing' : bestAbove? threshold pending.numbered = none := by
      rw [numbered, bestAbove?_relabel unseen_numbered, nothing, Option.map_none]
    have below : (c.numbered j).priority ≤ threshold :=
      le_of_bestAbove?_eq_none (descending_numbered pending) nothing' member'
    exact absurd above (Nat.not_lt_of_le below)
  · intro nothing
    rw [Option.eq_none_iff_forall_ne_some]
    intro choice chosen
    obtain ⟨top, above, -⟩ := abovePosition_of_bestAbove? chosen
    exact nothing ⟨_, top.mem, above⟩

theorem position_bestForOverflow?_iff :
    (bestForOverflow? limit pending).map Choice.position = some i ↔
      OverflowPosition limit pending i := by
  constructor
  · intro found
    obtain ⟨choice, chosen, rfl⟩ := Option.map_eq_some_iff.1 found
    exact overflowPosition_of_bestForOverflow? chosen
  · intro position
    cases chosen : bestForOverflow? limit pending with
    | none =>
      obtain rfl := bestForOverflow?_eq_none_iff.1 chosen
      cases position with
      | within top | beyond top => cases top.mem
    | some choice =>
      exact congrArg some ((overflowPosition_of_bestForOverflow? chosen).unique position)

theorem position_bestAbove?_iff :
    (bestAbove? threshold pending).map Choice.position = some i ↔
      AbovePosition threshold pending i := by
  constructor
  · intro found
    obtain ⟨choice, chosen, rfl⟩ := Option.map_eq_some_iff.1 found
    exact abovePosition_of_bestAbove? chosen
  · intro position
    cases chosen : bestAbove? threshold pending with
    | none =>
      obtain ⟨top, above, -⟩ := position
      exact absurd ⟨_, top.mem, above⟩ (bestAbove?_eq_none_iff.1 chosen)
    | some choice => exact congrArg some ((abovePosition_of_bestAbove? chosen).unique position)

/-- Both walks give their choice with its position, and nothing only if there is nothing to choose.
Which position it is depends on priorities and columns, and on age where those leave a tie. Where
all columns are within the limit and something is above the threshold, the walks agree. -/
theorem choices_by_position (pending : Pending) (limit : Nat) (threshold : Priority) :
    (bestForOverflow? limit pending = none ↔ pending = []) ∧
      (∀ i, (bestForOverflow? limit pending).map Choice.position = some i ↔
        OverflowPosition limit pending i) ∧
      (bestAbove? threshold pending = none ↔ ¬ ∃ c ∈ pending, threshold < c.priority) ∧
      (∀ i, (bestAbove? threshold pending).map Choice.position = some i ↔
        AbovePosition threshold pending i) ∧
      (∀ choice, bestForOverflow? limit pending = some choice ∨
        bestAbove? threshold pending = some choice →
          choice? choice.position pending = some choice) ∧
      ((∀ c ∈ pending, c.column ≤ limit) → (∃ c ∈ pending, threshold < c.priority) →
        bestForOverflow? limit pending = bestAbove? threshold pending) := by
  refine ⟨bestForOverflow?_eq_none_iff, fun i => position_bestForOverflow?_iff,
    bestAbove?_eq_none_iff, fun i => position_bestAbove?_iff, ?_, ?_⟩
  · rintro choice (chosen | chosen)
    · exact choice?_of_suffix (suffix_of_bestForOverflow? chosen)
    · exact choice?_of_suffix (suffix_of_bestAbove? chosen)
  · intro inside exists_above
    cases overflow : bestForOverflow? limit pending with
    | none =>
      obtain rfl := bestForOverflow?_eq_none_iff.1 overflow
      rfl
    | some choice =>
      have position := (overflowPosition_of_bestForOverflow? overflow).above inside exists_above
      obtain ⟨other, chosen, same⟩ := Option.map_eq_some_iff.1 (position_bestAbove?_iff.2 position)
      have here := choice?_of_suffix (suffix_of_bestForOverflow? overflow)
      have there := choice?_of_suffix (suffix_of_bestAbove? chosen)
      rw [chosen, ← here, ← same, there]

/-- Four candidates of one priority: three breaks outside of brackets, and one between items of a
list. None is within six columns, and of the two furthest left the second is the newer one. -/
theorem choices_by_position_tied :
    let pending : Pending :=
      [.ofKind .soft 0 { index := 8, column := 9 }, .ofKind .separator 1 { index := 6, column := 7 },
        .ofKind .soft 0 { index := 3, column := 7 }, .ofKind .soft 0 { index := 1, column := 12 }]
    OverflowPosition 6 pending 2 ∧ AbovePosition (.hardBreak 1) pending 3 ∧
      bestForOverflow? 12 pending = bestAbove? (.hardBreak 1) pending := by
  intro pending
  have narrow := choices_by_position pending 6 (.hardBreak 1)
  have wide := choices_by_position pending 12 (.hardBreak 1)
  exact ⟨(narrow.2.1 2).1 (by decide), (narrow.2.2.2.1 3).1 (by decide),
    wide.2.2.2.2.2 (by decide) (by decide)⟩

end Pending

end LineLayout
