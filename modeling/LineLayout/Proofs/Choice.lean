import LineLayout.Candidate
import Mathlib.Algebra.Order.Field.Rat
import Mathlib.Tactic.FieldSimp
import Mathlib.Tactic.GCongr
import Mathlib.Tactic.NormNum
import Mathlib.Tactic.Positivity

/-!
# Which candidate is chosen

Two walks through the pending candidates, from the newest to the oldest, find where to break a line:
one for a line that overflows, one for a line that ends. Here is what they find, said of the
candidates as a set: `OverflowChoice` and `HighestNewest`. Each has a lemma for one candidate
further (`OverflowChoice.step`, `AboveSoFar.step`) and one for a whole walk.

Priorities are compared as whole numbers of a tiny unit. `Priority.value` is the number that is
meant, and down to depth 1023 it is the weight halved once for each open bracket.
-/

namespace LineLayout

/-! ## Priorities as numbers -/

namespace Priority

/-- The number that a priority stands for. -/
def value (p : Priority) : ℚ :=
  p.units / 2 ^ 1024

theorem value_lt_value {p q : Priority} : p.value < q.value ↔ p < q := by
  unfold value
  rw [div_lt_div_iff_of_pos_right (by positivity), Nat.cast_lt, lt_iff_units]

theorem units_scaled (halves : Nat) {depth : Nat} (shallow : depth ≤ 1023) :
    (scaled halves depth).units = halves * 2 ^ (1023 - depth) := by
  rw [scaled, if_pos (Nat.lt_succ_of_le shallow), Nat.shiftLeft_eq]

theorem value_scaled (halves : Nat) {depth : Nat} (shallow : depth ≤ 1023) :
    (scaled halves depth).value = halves / 2 / 2 ^ depth := by
  have split : (2 : ℚ) ^ 1024 = 2 * 2 ^ depth * 2 ^ (1023 - depth) := by
    rw [mul_assoc, ← pow_add, ← pow_succ']
    congr 1
    omega
  rw [value, split, units_scaled halves shallow]
  push_cast
  field_simp

theorem scaled_of_deep (halves : Nat) {depth : Nat} (deep : 1023 < depth) :
    scaled halves depth = ⟨0⟩ :=
  if_neg (by omega)

/-- What goes before a hard break is above `1.5 * 2 ^ -depth`, however deep the hard break is: where
the unit no longer tells the thresholds apart, a priority is zero or at least twice as high. -/
theorem threshold_lt_value {kind : BreakKind} {depth around : Nat}
    (above : hardBreak depth < kind.priority around) :
    3 / 2 / 2 ^ depth < (kind.priority around).value := by
  by_cases shallow : depth ≤ 1023
  · have threshold : (hardBreak depth).value = 3 / 2 / 2 ^ depth := value_scaled 3 shallow
    rw [← threshold]
    exact value_lt_value.2 above
  · have deep : 1023 < depth := Nat.lt_of_not_le shallow
    have around_le : around ≤ 1023 := by
      by_contra deeper
      rw [BreakKind.priority, scaled_of_deep _ (Nat.lt_of_not_le deeper)] at above
      exact absurd (lt_iff_units.1 above) (Nat.not_lt_zero _)
    have weight : (2 : ℚ) ≤ kind.weight := by cases kind <;> norm_num [BreakKind.weight]
    rw [BreakKind.priority, value_scaled _ around_le]
    calc (3 : ℚ) / 2 / 2 ^ depth ≤ 3 / 2 / 2 ^ (around + 1) := by
          gcongr
          · norm_num
          · omega
      _ < 2 / 2 / 2 ^ around := by
          rw [pow_succ]
          field_simp
          norm_num
      _ ≤ kind.weight / 2 / 2 ^ around := by gcongr

end Priority

/-! ## Walks -/

namespace Pending

section Walks

variable {β : Type} {bound : Nat} {among : Candidate → Prop} {pending : Pending}

/-- A walk from the newest candidate to the oldest, which sees each one with those behind it. -/
def walk (look : β → Candidate → Pending → β) : β → Pending → β
  | found, [] => found
  | found, c :: older => walk look (look found c older) older

theorem improve_eq_walk (limit : Nat) (best : Choice) (pending : Pending) :
    improve limit best pending =
      walk (fun best c older => if c.beats limit best.candidate then ⟨c, older⟩ else best)
        best pending := by
  induction pending generalizing best with
  | nil => rfl
  | cons c older ih => exact ih _

theorem improveAbove_eq_walk (threshold : Priority) (best? : Option Choice) (pending : Pending) :
    improveAbove threshold best? pending = walk (preferAbove threshold) best? pending := by
  induction pending generalizing best? with
  | nil => rfl
  | cons c older ih => exact ih _

/-- What holds of the candidates seen so far, and goes over to one more that is older than all of
them, holds of all candidates in the end. -/
theorem walk_holds (look : β → Candidate → Pending → β) (Holds : (Candidate → Prop) → β → Prop)
    (step : ∀ {among : Candidate → Prop} {found : β} {c : Candidate} (older : Pending),
      Holds among found → (∀ d, among d → c.index < d.index) →
        Holds (fun d => among d ∨ d = c) (look found c older))
    {found : β} (start : Holds among found) (sorted : Descending bound pending)
    (newer : ∀ d, among d → bound ≤ d.index) :
    Holds (fun d => among d ∨ d ∈ pending) (walk look found pending) := by
  induction pending generalizing among found bound with
  | nil => simpa [walk] using start
  | cons c older ih =>
    obtain ⟨below, sorted⟩ := sorted
    have looked := step older start fun d member => Nat.lt_of_lt_of_le below (newer d member)
    have rest := ih looked sorted (by
      rintro d (member | rfl)
      · exact Nat.le_of_lt (Nat.lt_of_lt_of_le below (newer d member))
      · exact Nat.le_refl _)
    simpa only [walk, List.mem_cons, or_assoc] using rest

end Walks

end Pending

/-! ## What the walks look at -/

/-- Pending candidates, each one changed in view of those older than it. -/
def Pending.relabel (change : Candidate → Pending → Candidate) : Pending → Pending
  | [] => []
  | c :: older => change c older :: relabel change older

/-- A choice among candidates that are changed so. -/
def Choice.relabel (change : Candidate → Pending → Candidate) (choice : Choice) : Choice :=
  ⟨change choice.candidate choice.older, Pending.relabel change choice.older⟩

/-- The walks look at nothing that is changed. -/
structure Candidate.Unseen (change : Candidate → Pending → Candidate) : Prop where
  priority : ∀ c older, (change c older).priority = c.priority
  column : ∀ c older, (change c older).column = c.column

namespace Pending

variable {change : Candidate → Pending → Candidate}

theorem relabel_eq_map (change : Candidate → Candidate) (pending : Pending) :
    relabel (fun c _ => change c) pending = pending.map change := by
  induction pending with
  | nil => rfl
  | cons c older ih => rw [relabel, ih, List.map_cons]

theorem improve_relabel (unseen : Candidate.Unseen change) (limit : Nat) (best : Choice)
    (pending : Pending) :
    improve limit (best.relabel change) (relabel change pending) =
      (improve limit best pending).relabel change := by
  induction pending generalizing best with
  | nil => rfl
  | cons c older ih =>
    have beats : (change c older).beats limit (best.relabel change).candidate =
        c.beats limit best.candidate := by
      simp only [Candidate.beats, Choice.relabel, unseen.priority, unseen.column]
    rw [relabel, improve, improve, ← ih, beats]
    by_cases better : c.beats limit best.candidate = true
    · rw [if_pos better, if_pos better]
      rfl
    · rw [if_neg better, if_neg better]

theorem bestForOverflow?_relabel (unseen : Candidate.Unseen change) (limit : Nat)
    (pending : Pending) :
    bestForOverflow? limit (relabel change pending) =
      (bestForOverflow? limit pending).map (·.relabel change) := by
  cases pending with
  | nil => rfl
  | cons c older => exact congrArg some (improve_relabel unseen limit ⟨c, older⟩ older)

theorem preferAbove_relabel (unseen : Candidate.Unseen change) (threshold : Priority)
    (best? : Option Choice) (c : Candidate) (older : Pending) :
    preferAbove threshold (best?.map (·.relabel change)) (change c older) (relabel change older) =
      (preferAbove threshold best? c older).map (·.relabel change) := by
  have worse : (∀ best ∈ best?.map (·.relabel change), best.candidate.priority < c.priority) ↔
      ∀ best ∈ best?, best.candidate.priority < c.priority := by
    cases best? <;> simp [Choice.relabel, unseen.priority]
  unfold preferAbove
  simp only [unseen.priority, worse]
  split <;> rfl

theorem improveAbove_relabel (unseen : Candidate.Unseen change) (threshold : Priority)
    (best? : Option Choice) (pending : Pending) :
    improveAbove threshold (best?.map (·.relabel change)) (relabel change pending) =
      (improveAbove threshold best? pending).map (·.relabel change) := by
  induction pending generalizing best? with
  | nil => rfl
  | cons c older ih => rw [relabel, improveAbove, improveAbove, preferAbove_relabel unseen, ih]

theorem bestAbove?_relabel (unseen : Candidate.Unseen change) (threshold : Priority)
    (pending : Pending) :
    bestAbove? threshold (relabel change pending) =
      (bestAbove? threshold pending).map (·.relabel change) :=
  improveAbove_relabel unseen threshold none pending

end Pending

/-! ## A line that overflows -/

/-- `OverflowChoice limit among c`: of the candidates `among` which to choose, `c` is the one for a
line that overflows the limit. -/
structure OverflowChoice (limit : Nat) (among : Candidate → Prop) (c : Candidate) : Prop where
  member : among c
  highest : ∀ d, among d → d.priority ≤ c.priority
  /-- If some of that priority lie within the limit, it is the newest of them. -/
  within : ∀ d, among d → d.priority = c.priority → d.column ≤ limit →
    c.column ≤ limit ∧ d.index ≤ c.index
  /-- Otherwise it is the newest of those furthest left. -/
  beyond : limit < c.column → ∀ d, among d → d.priority = c.priority →
    c.column ≤ d.column ∧ (d.column = c.column → d.index ≤ c.index)

namespace OverflowChoice

variable {limit : Nat} {among : Candidate → Prop} {best c : Candidate}

theorem singleton (limit : Nat) (c : Candidate) : OverflowChoice limit (· = c) c where
  member := rfl
  highest := by rintro d rfl; exact Nat.le_refl _
  within := by rintro d rfl - inside; exact ⟨inside, Nat.le_refl _⟩
  beyond := by rintro - d rfl -; exact ⟨Nat.le_refl _, fun _ => Nat.le_refl _⟩

theorem replace (choice : OverflowChoice limit among best) (beats : c.beats limit best = true) :
    OverflowChoice limit (fun d => among d ∨ d = c) c := by
  rw [Candidate.beats_iff, Priority.lt_iff_units, Priority.eq_iff_units] at beats
  -- a candidate of the new priority is one of the old, and none of those lies within the limit
  have equal : ∀ d, among d → d.priority = c.priority →
      limit < best.column ∧ c.column < best.column ∧ d.priority = best.priority := by
    intro d member same
    have le := Priority.le_iff_units.1 (choice.highest d member)
    rw [Priority.eq_iff_units] at same ⊢
    omega
  refine ⟨Or.inr rfl, ?_, ?_, ?_⟩
  · rintro d (member | rfl)
    · have le := Priority.le_iff_units.1 (choice.highest d member)
      rw [Priority.le_iff_units]
      omega
    · exact Nat.le_refl _
  · rintro d (member | rfl) same inside
    · obtain ⟨past, -, old⟩ := equal d member same
      have := choice.within d member old inside
      omega
    · exact ⟨inside, Nat.le_refl _⟩
  · rintro - d (member | rfl) same
    · obtain ⟨past, left, old⟩ := equal d member same
      have := choice.beyond past d member old
      omega
    · exact ⟨Nat.le_refl _, fun _ => Nat.le_refl _⟩

theorem keep (choice : OverflowChoice limit among best) (loses : ¬ c.beats limit best = true)
    (older : c.index < best.index) : OverflowChoice limit (fun d => among d ∨ d = c) best := by
  rw [Candidate.beats_iff, Priority.lt_iff_units, Priority.eq_iff_units] at loses
  refine ⟨Or.inl choice.member, ?_, ?_, ?_⟩
  · rintro d (member | rfl)
    · exact choice.highest d member
    · rw [Priority.le_iff_units]
      omega
  · rintro d (member | rfl) same inside
    · exact choice.within d member same inside
    · rw [Priority.eq_iff_units] at same
      omega
  · rintro past d (member | rfl) same
    · exact choice.beyond past d member same
    · rw [Priority.eq_iff_units] at same
      omega

theorem step (choice : OverflowChoice limit among best) (newer : ∀ d, among d → c.index < d.index) :
    OverflowChoice limit (fun d => among d ∨ d = c) (if c.beats limit best then c else best) := by
  split
  · rename_i beats
    exact choice.replace beats
  · rename_i loses
    exact choice.keep loses (newer best choice.member)

end OverflowChoice

/-- The walk through the pending candidates finds the choice among all of them. -/
theorem Pending.overflowChoice_of_bestForOverflow? {limit bound : Nat} {pending : Pending}
    {choice : Choice} (sorted : Descending bound pending)
    (chosen : bestForOverflow? limit pending = some choice) :
    OverflowChoice limit (· ∈ pending) choice.candidate := by
  cases pending with
  | nil => cases chosen
  | cons c older =>
    cases chosen
    rw [improve_eq_walk]
    have start : OverflowChoice limit (· = c) (⟨c, older⟩ : Choice).candidate :=
      OverflowChoice.singleton limit c
    have walked := walk_holds
      (fun (best : Choice) c older => if c.beats limit best.candidate then ⟨c, older⟩ else best)
      (fun among best => OverflowChoice limit among best.candidate)
      (fun older choice newer => by simpa only [apply_ite] using choice.step newer)
      start sorted.2 (fun d same => Nat.le_of_eq (congrArg Candidate.index same.symm))
    simpa only [List.mem_cons] using walked

/-! ## A line that ends -/

/-- Of the candidates `among` which to choose, `c` is the newest of those with the highest
priority. -/
structure HighestNewest (among : Candidate → Prop) (c : Candidate) : Prop where
  member : among c
  highest : ∀ d, among d → d.priority ≤ c.priority
  newest : ∀ d, among d → d.priority = c.priority → d.index ≤ c.index

/-- What the walk has found above the threshold so far, if anything lies above it. -/
structure AboveSoFar (threshold : Priority) (among : Candidate → Prop) (best? : Option Choice) :
    Prop where
  found : ∀ best ∈ best?, threshold < best.candidate.priority ∧ HighestNewest among best.candidate
  below : best? = none → ∀ d, among d → d.priority ≤ threshold

namespace AboveSoFar

variable {threshold : Priority} {among : Candidate → Prop} {best? : Option Choice} {c : Candidate}

theorem lt_of_preferred (found : AboveSoFar threshold among best?) (above : threshold < c.priority)
    (better : ∀ best ∈ best?, best.candidate.priority < c.priority) (d : Candidate)
    (member : among d) : d.priority < c.priority := by
  rw [Priority.lt_iff_units] at above ⊢
  cases best? with
  | none =>
    have le := Priority.le_iff_units.1 (found.below rfl d member)
    omega
  | some best =>
    have le := Priority.le_iff_units.1 ((found.found best rfl).2.highest d member)
    have lt := Priority.lt_iff_units.1 (better best rfl)
    omega

theorem step (found : AboveSoFar threshold among best?) (newer : ∀ d, among d → c.index < d.index)
    (older : Pending) :
    AboveSoFar threshold (fun d => among d ∨ d = c)
      (Pending.preferAbove threshold best? c older) := by
  unfold Pending.preferAbove
  split
  · rename_i preferred
    have lower := found.lt_of_preferred preferred.1 preferred.2
    refine ⟨?_, fun none => by cases none⟩
    rintro best ⟨⟩
    refine ⟨preferred.1, Or.inr rfl, ?_, ?_⟩
    · rintro d (member | rfl)
      · exact Nat.le_of_lt (lower d member)
      · exact Nat.le_refl _
    · rintro d (member | rfl) same
      · have lt := lower d member
        rw [same] at lt
        exact absurd lt (Nat.lt_irrefl _)
      · exact Nat.le_refl _
  · rename_i passed
    constructor
    · intro best chosen
      obtain ⟨above, choice⟩ := found.found best chosen
      -- an older candidate above the choice would be above the threshold too
      have le : c.priority ≤ best.candidate.priority := by
        by_contra higher
        have lt : best.candidate.priority < c.priority := Nat.lt_of_not_le higher
        refine passed ⟨Nat.lt_trans above lt, ?_⟩
        intro other chosen'
        obtain rfl : best = other := Option.mem_unique chosen chosen'
        exact lt
      refine ⟨above, Or.inl choice.member, ?_, ?_⟩
      · rintro d (member | rfl)
        · exact choice.highest d member
        · exact le
      · rintro d (member | rfl) same
        · exact choice.newest d member same
        · exact Nat.le_of_lt (newer _ choice.member)
    · rintro rfl d (member | rfl)
      · exact found.below rfl d member
      · by_contra higher
        exact passed ⟨Nat.lt_of_not_le higher, fun _ absent => by simp at absent⟩

end AboveSoFar

theorem Pending.aboveSoFar_bestAbove? {bound : Nat} {pending : Pending}
    (sorted : Descending bound pending) (threshold : Priority) :
    AboveSoFar threshold (· ∈ pending) (bestAbove? threshold pending) := by
  have start : AboveSoFar threshold (fun _ => False) none :=
    ⟨fun _ absent => by simp at absent, fun _ _ => False.elim⟩
  have walked := walk_holds (preferAbove threshold) (AboveSoFar threshold)
    (fun older found newer => found.step newer older) start sorted fun _ => False.elim
  rw [bestAbove?, improveAbove_eq_walk]
  simpa only [false_or] using walked

/-- The walk through the pending candidates finds the newest of the highest, if it is above the
threshold. -/
theorem Pending.highestNewest_of_bestAbove? {threshold : Priority} {bound : Nat}
    {pending : Pending} {choice : Choice} (sorted : Descending bound pending)
    (chosen : bestAbove? threshold pending = some choice) :
    threshold < choice.candidate.priority ∧ HighestNewest (· ∈ pending) choice.candidate :=
  (aboveSoFar_bestAbove? sorted threshold).found choice chosen

theorem Pending.le_of_bestAbove?_eq_none {threshold : Priority} {bound : Nat} {pending : Pending}
    {c : Candidate} (sorted : Descending bound pending)
    (none : bestAbove? threshold pending = none) (member : c ∈ pending) :
    c.priority ≤ threshold :=
  (aboveSoFar_bestAbove? sorted threshold).below none c member

end LineLayout
