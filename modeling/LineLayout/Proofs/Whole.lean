import LineLayout.Proofs.Committed
import LineLayout.Proofs.Open

/-!
# No line ends inside a flat bracket

`WholeAt` says of a place among the tokens that no line ends between a flat bracket around it and
the place. The bracket that opens is more welcome as a break than whatever it contains, and than a
line end inside it (`BreakKind.priority_depthIn_lt`, `Priority.hardBreak_lt`). So as long as a flat
bracket is open, neither a run that does not fit nor a token that ends the line leads to a line end
inside it (`Straight.mem_fired_of_unopposed`, `Straight.mem_fired_of_back`).

One step keeps `WholeAt` at every place up to the cursor (`Layout.wholeUpTo_step`), also when it
goes back: the places in front of the candidate are untouched. Hence so does the life of an engine
(`Leads.wholeUpTo`), as long as no more than 1023 brackets are open at a time, where priorities are
still told apart.
-/

namespace LineLayout

/-! ## Priorities inside a bracket -/

namespace Priority

variable {few many outer inner depth : Nat}

theorem scaled_le_scaled (halves : Nat) (le : outer ≤ inner) :
    scaled halves inner ≤ scaled halves outer := by
  rw [le_iff_units]
  by_cases shallow : inner ≤ 1023
  · rw [units_scaled halves shallow, units_scaled halves (le.trans shallow)]
    exact Nat.mul_le_mul_left _ (Nat.pow_le_pow_right (by omega) (by omega))
  · rw [scaled_of_deep halves (by omega)]
    exact Nat.zero_le _

theorem scaled_lt_scaled (lt : few < many) (shallow : depth ≤ 1023) :
    scaled few depth < scaled many depth := by
  rw [lt_iff_units, units_scaled few shallow, units_scaled many shallow]
  exact Nat.mul_lt_mul_of_pos_right lt (by positivity)

theorem scaled_double_succ_le (halves depth : Nat) :
    scaled (2 * halves) (depth + 1) ≤ scaled halves depth := by
  rw [le_iff_units]
  by_cases shallow : depth + 1 ≤ 1023
  · have power : 2 ^ (1023 - depth) = 2 ^ (1023 - (depth + 1)) * 2 := by
      rw [← Nat.pow_succ]
      congr 1
      omega
    rw [units_scaled _ shallow, units_scaled halves (by omega), power]
    exact Nat.le_of_eq (by rw [Nat.mul_comm 2 halves, Nat.mul_assoc, Nat.mul_comm 2])
  · rw [scaled_of_deep _ (by omega)]
    exact Nat.zero_le _

end Priority

variable {bracket : Bracket} {depth around : Nat}

theorem BreakKind.priority_depthIn_le (kind : BreakKind) (around : Nat) :
    kind.priority (kind.depthIn around) ≤ Priority.scaled 4 around := by
  have weaker {halves : Nat} (le : halves ≤ 4) :
      Priority.scaled halves around ≤ Priority.scaled 4 around := by
    by_cases shallow : around ≤ 1023
    · rw [Priority.le_iff_units, Priority.units_scaled _ shallow, Priority.units_scaled _ shallow]
      exact Nat.mul_le_mul_right _ le
    · rw [Priority.scaled_of_deep _ (by omega), Priority.scaled_of_deep _ (by omega)]
      exact Nat.le_refl _
  cases kind with
  | soft => exact weaker (by decide)
  | separator => exact weaker (by decide)
  | opener bracket =>
    exact Nat.le_trans (Priority.scaled_double_succ_le 3 around) (weaker (by decide))

theorem BreakKind.priority_depthIn_lt (kind : BreakKind) (le : depth ≤ around)
    (shallow : depth ≤ 1023) :
    kind.priority (kind.depthIn around) < (BreakKind.opener bracket).priority depth := by
  rw [Priority.lt_iff_units]
  calc (kind.priority (kind.depthIn around)).units
      _ ≤ (Priority.scaled 4 around).units := kind.priority_depthIn_le around
      _ ≤ (Priority.scaled 4 depth).units := Priority.scaled_le_scaled 4 le
      _ < (Priority.scaled 6 depth).units := Priority.scaled_lt_scaled (by decide) shallow

/-- Breaking a bracket goes before any line end inside it. -/
theorem Priority.hardBreak_lt (le : depth ≤ around) (shallow : depth ≤ 1023) :
    Priority.hardBreak around < (BreakKind.opener bracket).priority depth := by
  rw [Priority.lt_iff_units]
  calc (Priority.hardBreak around).units
      _ ≤ (Priority.scaled 3 depth).units := Priority.scaled_le_scaled 3 le
      _ < (Priority.scaled 6 depth).units := Priority.scaled_lt_scaled (by decide) shallow

/-! ## Flat brackets and line ends -/

/-- No line ends between a flat bracket around the token `position` and that token. -/
def WholeAt (tokens : List Token) (breaks : List Nat) (position : Nat) : Prop :=
  ∀ entry ∈ openBrackets (tokens.take position), entry.1 ∉ breaks →
    ∀ between, entry.1 ≤ between → between < position → ¬ EndsLine tokens breaks between

/-- No line ends inside a flat bracket, up to the token `last`. -/
def WholeUpTo (tokens : List Token) (breaks : List Nat) (last : Nat) : Prop :=
  ∀ position ≤ last, WholeAt tokens breaks position

/-- Priorities are told apart wherever brackets are open, up to the token `last`. -/
def ShallowUpTo (tokens : List Token) (last : Nat) : Prop :=
  ∀ position ≤ last, (openBrackets (tokens.take position)).length ≤ 1023

namespace Layout

variable {tokens : List Token} {usable : Config → Prop} {l next : Layout} {config : Config}
  {token : Token} {choice : Choice} {entry : Nat × Bracket}

theorem Back.priority_le (back : Back l config token choice next) {c : Candidate}
    (member : c ∈ l.pending) : c.priority ≤ choice.candidate.priority := by
  rcases back.cause with ⟨run, -, -, chosen⟩ | ⟨-, chosen⟩
  · exact (Pending.overflowChoice_of_bestForOverflow? l.descending chosen).highest c member
  · exact (Pending.highestNewest_of_bestAbove? l.descending chosen).2.highest c member

theorem Back.cursor (back : Back l config token choice next) :
    next.cursor = choice.candidate.index + 1 := by
  obtain ⟨m, -, -, rfl⟩ := back.exists_breakAt
  exact cursor_breakAt m config choice

/-- A token that ends its line goes forward only if nothing pending goes before it. -/
theorem Forward.unopposed (forward : Forward l config token next) (ends : token.endsLine = true) :
    l.overriding? = none := by
  cases forward with
  | hardBreak unopposed | indent unopposed | dedent unopposed _ => exact unopposed
  | text _ | closeFlat _ | closeBroken _ _ => cases ends
  | offer kind breaks =>
    rw [Token.endsLine_eq_false breaks] at ends
    cases ends

/-- A bracket that opened on the line of the cursor is pending, as welcome as its depth tells. -/
theorem Straight.exists_opener_pending (straight : Straight tokens usable l)
    (opener : tokens[entry.1]? = some (.mark (.opener entry.2))) (below : entry.1 < l.cursor)
    (whole : ∀ between, entry.1 ≤ between → between < l.cursor →
      ¬ EndsLine tokens l.fired between) :
    ∃ c ∈ l.pending, c.index = entry.1 ∧
      c.priority = (BreakKind.opener entry.2).priority
        ((openBrackets (tokens.take entry.1)).length + 1) := by
  have offered : OffersBefore tokens l.fired l.cursor entry.1 :=
    ⟨below, ⟨_, .opener entry.2, opener, rfl⟩, whole⟩
  obtain ⟨c, member, index⟩ := List.mem_map.1 ((straight.mem_pending_iff entry.1).2 offered)
  obtain ⟨token, kind, read, breaks, priority⟩ := straight.priority_of_mem member
  rw [index, opener, Option.some.injEq] at read
  subst read
  cases breaks
  rw [index] at priority
  exact ⟨c, member, index, priority⟩

/-- Where a line ends by itself, every open bracket is broken. -/
theorem Straight.mem_fired_of_unopposed (straight : Straight tokens usable l)
    (whole : WholeAt tokens l.fired l.cursor)
    (shallow : (openBrackets (tokens.take l.cursor)).length ≤ 1023)
    (unopposed : l.overriding? = none) (member : entry ∈ openBrackets (tokens.take l.cursor)) :
    entry.1 ∈ l.fired := by
  by_contra flat
  obtain ⟨below, opener, depth⟩ := of_mem_openBrackets_take member
  obtain ⟨c, pending, -, priority⟩ :=
    straight.exists_opener_pending opener below (whole entry member flat)
  have le := Pending.le_of_bestAbove?_eq_none l.descending unopposed pending
  rw [priority, straight.depth_eq] at le
  exact absurd (Priority.hardBreak_lt depth (Nat.le_trans depth shallow)) (Nat.not_lt_of_le le)

theorem Straight.mem_fired_of_back (straight : Straight tokens usable l)
    (back : Back l config token choice next)
    (whole : WholeAt tokens l.fired choice.candidate.index)
    (shallow : (openBrackets (tokens.take choice.candidate.index)).length ≤ 1023)
    (member : entry ∈ openBrackets (tokens.take choice.candidate.index)) :
    entry.1 ∈ l.fired := by
  by_contra flat
  obtain ⟨below, opener, depth⟩ := of_mem_openBrackets_take member
  -- no line ended since the candidate was left, nor between the bracket and the candidate
  have offered : OffersBefore tokens l.fired l.cursor choice.candidate.index :=
    (straight.mem_pending_iff _).1 (List.mem_map_of_mem back.mem)
  have together : ∀ between, entry.1 ≤ between → between < l.cursor →
      ¬ EndsLine tokens l.fired between := by
    intro between after before
    by_cases early : between < choice.candidate.index
    · exact whole entry member flat between after early
    · exact offered.2.2 between (Nat.le_of_not_lt early) before
  obtain ⟨c, pending, -, priority⟩ :=
    straight.exists_opener_pending opener (Nat.lt_trans below offered.1) together
  obtain ⟨offering, kind, -, -, chosen⟩ := straight.priority_of_mem back.mem
  have le := back.priority_le pending
  rw [priority, chosen] at le
  exact absurd (kind.priority_depthIn_lt depth (Nat.le_trans depth shallow)) (Nat.not_lt_of_le le)

/-! ## One step -/

theorem wholeUpTo_forward (straight : Straight tokens usable l)
    (read : tokens[l.cursor]? = some token) (forward : Forward l config token next)
    (shallow : ShallowUpTo tokens l.cursor) (whole : WholeUpTo tokens l.fired l.cursor) :
    WholeUpTo tokens next.fired next.cursor := by
  rw [forward.fired, forward.cursor]
  intro position upTo
  rcases Nat.le_succ_iff.1 upTo with earlier | rfl
  · exact whole position earlier
  intro entry member flat between after before
  rcases of_mem_openBrackets_take_succ read member with ⟨here, rfl⟩ | outside
  · have same : between = l.cursor := by omega
    rw [same]
    exact straight.not_endsLine read rfl
  · rcases Nat.lt_succ_iff_lt_or_eq.1 before with inside | rfl
    · exact whole l.cursor le_rfl entry outside flat between after inside
    · cases ends : token.endsLine with
      | false => exact straight.not_endsLine read ends
      | true =>
        have broken := straight.mem_fired_of_unopposed (whole l.cursor le_rfl)
          (shallow l.cursor le_rfl) (forward.unopposed ends) outside
        exact absurd broken flat

theorem wholeUpTo_back (straight : Straight tokens usable l)
    (back : Back l config token choice next) (shallow : ShallowUpTo tokens l.cursor)
    (whole : WholeUpTo tokens l.fired l.cursor) : WholeUpTo tokens next.fired next.cursor := by
  have offered : OffersBefore tokens l.fired l.cursor choice.candidate.index :=
    (straight.mem_pending_iff _).1 (List.mem_map_of_mem back.mem)
  have behind : choice.candidate.index ≤ l.cursor := Nat.le_of_lt offered.1
  rw [back.fired, back.cursor]
  intro position upTo entry member flat between after before
  rw [List.mem_cons, not_or] at flat
  rcases Nat.le_succ_iff.1 upTo with earlier | rfl
  · -- the new break lies behind, so the line ends that count are the old ones
    rintro (broken | ended)
    · rcases List.mem_cons.1 broken with rfl | older
      · omega
      · exact whole position (earlier.trans behind) entry member flat.2 between after before
          (Or.inl older)
    · exact whole position (earlier.trans behind) entry member flat.2 between after before
        (Or.inr ended)
  · obtain ⟨offering, kind, read, -⟩ := offered.2.1
    rcases of_mem_openBrackets_take_succ read member with ⟨here, -⟩ | outside
    · exact absurd here flat.1
    · have broken := straight.mem_fired_of_back back (whole _ behind) (shallow _ behind) outside
      exact absurd broken flat.2

/-- One step, forward or back, ends no line inside a flat bracket. -/
theorem wholeUpTo_step (straight : Straight tokens usable l)
    (read : tokens[l.cursor]? = some token) (done : l.step config token = .done next)
    (shallow : ShallowUpTo tokens l.cursor) (whole : WholeUpTo tokens l.fired l.cursor) :
    WholeUpTo tokens next.fired next.cursor := by
  rcases step_cases done with forward | ⟨choice, back⟩
  · exact wholeUpTo_forward straight read forward shallow whole
  · exact wholeUpTo_back straight back shallow whole

theorem Refused.cursor {fault : Fault} {left : Layout} (refused : Refused l token fault left) :
    left.cursor = l.cursor := by
  cases refused with
  | unsaved _ _ => exact cursor_writeClosing _ _
  | _ => rfl

theorem Refused.pending {fault : Fault} {left : Layout} (refused : Refused l token fault left) :
    left.pending = l.pending := by
  cases refused with
  | unsaved _ _ => exact pending_writeClosing _ _
  | _ => rfl

theorem Refused.lists {fault : Fault} {left : Layout} (refused : Refused l token fault left) :
    left.lists = l.lists ∨
      ∃ bracket, l.lists.leave? = some (.inside bracket .broken, left.lists) := by
  cases refused with
  | @unsaved bracket rest opened _ =>
    refine Or.inr ⟨bracket, opened.trans ?_⟩
    rw [lists_writeClosing]
  | _ => exact Or.inl rfl

end Layout

/-! ## The life of an engine -/

namespace Engine

variable {stream : List Token} {config : Config} {past : List Engine} {engine : Engine}
  {token : Token} {position : Nat}

theorem Leads.straight (leads : Leads stream { config := config } past engine)
    (sane : engine.fault? = none) : Layout.Straight stream (fun _ => True) engine.layout := by
  cases leads.stands (stands_create stream config) with
  | working reached _ => exact reached.straight
  | stopped _ _ _ faulty =>
    rw [sane] at faulty
    cases faulty

theorem cursor_read_le (sound : engine.layout.Sound) (token : Token) :
    (engine.read token).layout.cursor ≤ engine.layout.cursor + 1 := by
  unfold Engine.read
  cases taken : engine.layout.step engine.config token with
  | rejected fault left =>
    have same := (Layout.step_refused sound taken).cursor
    exact same.trans_le (Nat.le_succ _)
  | done next =>
    rcases Layout.step_cases taken with forward | ⟨choice, back⟩
    · exact forward.cursor.le
    · have below := engine.layout.descending.index_lt back.mem
      exact back.cursor.trans_le (by omega)

theorem Leads.exists_of_lt_cursor (leads : Leads stream { config := config } past engine)
    (below : position < engine.layout.cursor) :
    ∃ earlier ∈ past, earlier.layout.cursor = position := by
  induction leads with
  | refl => exact absurd below (Nat.not_lt_zero position)
  | setConfig _ _ ih => exact ih below
  | @read past engine token leads sane next ih =>
    have upTo := cursor_read_le (leads.straight sane).sound token
    rcases Nat.lt_succ_iff_lt_or_eq.1 (Nat.lt_of_lt_of_le below upTo) with before | here
    · obtain ⟨earlier, member, cursor⟩ := ih before
      exact ⟨earlier, List.mem_cons_of_mem engine member, cursor⟩
    · exact ⟨engine, List.mem_cons_self, here.symm⟩

theorem Leads.shallowUpTo (leads : Leads stream { config := config } past engine)
    (sane : engine.fault? = none)
    (shallow : ∀ earlier ∈ engine :: past, earlier.layout.lists.depth ≤ 1023) :
    ShallowUpTo stream engine.layout.cursor := by
  intro position upTo
  rcases Nat.lt_or_eq_of_le upTo with before | rfl
  · obtain ⟨earlier, member, rfl⟩ := leads.exists_of_lt_cursor before
    obtain ⟨older, newer, token, led, sane', -, -⟩ := leads.split member
    rw [← (led.straight sane').depth_eq]
    exact shallow earlier (List.mem_cons_of_mem engine member)
  · rw [← (leads.straight sane).depth_eq]
    exact shallow engine List.mem_cons_self

/-- As long as the depth is not above 1023, no line ends inside a flat bracket. -/
theorem Leads.wholeUpTo (leads : Leads stream { config := config } past engine)
    (shallow : ∀ earlier ∈ past, earlier.layout.lists.depth ≤ 1023) :
    WholeUpTo stream engine.layout.fired engine.layout.cursor := by
  induction leads with
  | refl =>
    intro position upTo entry member
    obtain rfl : position = 0 := Nat.le_zero.1 upTo
    cases member
  | setConfig _ _ ih => exact ih shallow
  | @read past engine token leads sane next ih =>
    have whole := ih fun earlier member => shallow earlier (List.mem_cons_of_mem engine member)
    have straight := leads.straight sane
    unfold Engine.read
    cases taken : engine.layout.step engine.config token with
    | done l =>
      have shallowUpTo := leads.shallowUpTo sane shallow
      exact Layout.wholeUpTo_step straight next taken shallowUpTo whole
    | rejected fault left =>
      have refused := Layout.step_refused straight.sound taken
      simp only [settle, refused.fired, refused.cursor]
      exact whole

end Engine

end LineLayout
