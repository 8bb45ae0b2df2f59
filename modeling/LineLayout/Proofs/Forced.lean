import LineLayout.Proofs.Choice
import LineLayout.Proofs.Past

/-!
# Every break is forced

A line is broken at a candidate only if the next run of text does not fit, or if the line is about
to end and the candidate goes before that. And the candidate is the right one: the choice among
everything that the line was offered since it started.
-/

namespace LineLayout

namespace Layout

variable {l next : Layout} {config : Config} {token : Token} {choice : Choice}

/-- Why a layout goes back: text that does not fit, or the end of a line that gives way. -/
theorem Back.cause (back : Back l config token choice next) :
    (∃ run, token = .text run ∧ config.exceeds l.writeMargin.column run.width = true ∧
      l.pending.bestForOverflow? config.widthLimit = some choice) ∨
    token.endsLine = true ∧ l.overriding? = some choice := by
  cases back with
  | overflow exceeds chosen => exact Or.inl ⟨_, rfl, exceeds, chosen⟩
  | hardBreak chosen => exact Or.inr ⟨rfl, chosen⟩
  | indent chosen => exact Or.inr ⟨rfl, chosen⟩
  | dedent _ chosen => exact Or.inr ⟨rfl, chosen⟩

theorem Back.fired (back : Back l config token choice next) :
    next.fired = choice.candidate.index :: l.fired := by
  obtain ⟨m, -, told, rfl⟩ := back.exists_breakAt
  rw [fired_breakAt, Layout.fired, told, Layout.fired]

/-- A run breaks the lines that were broken before and perhaps some more, but none in front of the
oldest candidate that is pending. -/
theorem Reached.fired_run {usable : Config → Prop} {slice : Array Token}
    (reached : Reached slice.toList usable l) (allowed : usable config) :
    ∃ more, (l.run config slice).layout.fired = more ++ l.fired ∧
      ∀ index ∈ more, l.horizon ≤ index := by
  fun_induction run l config slice with
  | case1 l read => exact ⟨[], rfl, by simp⟩
  | case2 l token read next taken ih =>
    obtain ⟨more, later, behind⟩ := ih (.step reached allowed (by simpa using read) taken)
    rcases step_cases taken with forward | ⟨choice, back⟩
    · refine ⟨more, by rw [later, forward.fired], ?_⟩
      intro index member
      exact Nat.le_trans (step_progress taken).horizon_le (behind index member)
    · refine ⟨more ++ [choice.candidate.index], by rw [later, back.fired]; simp, ?_⟩
      intro index member
      rcases List.mem_append.1 member with member | member
      · exact Nat.le_trans (step_progress taken).horizon_le (behind index member)
      · rw [List.mem_singleton.1 member]
        exact Pending.horizon_le_index l.descending back.mem
  | case3 l token read fault left taken =>
    exact ⟨[], (step_refused reached.straight.sound taken).fired, by simp⟩

/-- How many brackets a break counts as open around it. A bracket that opens counts itself. -/
def breakDepth (l : Layout) : BreakKind → Nat
  | .opener _ => l.lists.depth + 1
  | _ => l.lists.depth

theorem priority_candidate (l : Layout) (kind : BreakKind) :
    (l.candidate kind).priority = kind.priority (l.breakDepth kind) := by
  cases kind <;> rfl

end Layout

namespace Engine

variable {stream : List Token} {config : Config} {past : List Engine} {engine : Engine}
  {token : Token} {position : Nat}

theorem exists_back_of_fired (sound : engine.layout.Sound)
    (fires : (engine.read token).layout.fired = position :: engine.layout.fired) :
    ∃ choice, choice.candidate.index = position ∧
      Layout.Back engine.layout engine.config token choice (engine.read token).layout := by
  unfold Engine.read at fires ⊢
  cases taken : engine.layout.step engine.config token with
  | rejected fault left =>
    rw [taken] at fires
    have same := (Layout.step_refused sound taken).fired
    simp [settle, same] at fires
  | done next =>
    rw [taken] at fires
    rcases Layout.step_cases taken with forward | ⟨choice, back⟩
    · simp [settle, forward.fired] at fires
    · have both := back.fired.symm.trans fires
      exact ⟨choice, (List.cons.inj both).1, back⟩

/-- Whenever an engine breaks the line at a token, it stands behind that token on the same line, and
either the next run of text does not fit and the token is the choice for that, or the next token
ends the line and the token is the newest of the most welcome ones, above one and a half halved for
each open bracket. What there is to choose from is every break that the line was offered. Down to
depth 1023 a priority is exactly the weight of its break, which is counted in halves, halved for
each open bracket. -/
theorem break_forced_and_chosen (leads : Leads stream { config := config } past engine)
    (sane : engine.fault? = none) (next : stream[engine.layout.cursor]? = some token)
    (fires : (engine.read token).layout.fired = position :: engine.layout.fired) :
    (∀ c, c ∈ engine.layout.pending ↔ OfferedOnLine stream past engine c) ∧
    (∃ c, c.index = position ∧ position < engine.layout.cursor ∧
      OfferedOnLine stream past engine c ∧
      ((∃ run, token = .text run ∧
          engine.config.exceeds engine.layout.writeMargin.column run.width = true ∧
          OverflowChoice engine.config.widthLimit (OfferedOnLine stream past engine) c) ∨
        (token.endsLine = true ∧ 3 / 2 / 2 ^ engine.layout.lists.depth < c.priority.value ∧
          HighestNewest (OfferedOnLine stream past engine) c))) ∧
    ∀ (l : Layout) (kind : BreakKind), l.breakDepth kind ≤ 1023 →
      (l.candidate kind).priority.value = kind.weight / 2 / 2 ^ l.breakDepth kind := by
  have offered : ∀ c, c ∈ engine.layout.pending ↔ OfferedOnLine stream past engine c :=
    fun c => leads.mem_pending_iff
  have among : (· ∈ engine.layout.pending) = OfferedOnLine stream past engine :=
    funext fun c => propext (offered c)
  have sound := (leads.stands (stands_create stream config)).sound sane
  obtain ⟨choice, index, back⟩ := exists_back_of_fired sound fires
  have member := (offered _).1 back.mem
  refine ⟨offered, ⟨choice.candidate, index, ?_, member, ?_⟩, ?_⟩
  · rw [← index]
    exact engine.layout.descending.index_lt back.mem
  · rcases back.cause with ⟨run, rfl, exceeds, chosen⟩ | ⟨ends, chosen⟩
    · have best := Pending.overflowChoice_of_bestForOverflow? engine.layout.descending chosen
      exact Or.inl ⟨run, rfl, exceeds, among ▸ best⟩
    · obtain ⟨above, best⟩ :=
        Pending.highestNewest_of_bestAbove? engine.layout.descending chosen
      obtain ⟨earlier, -, -, -, kind, -, -, left⟩ := member
      have priority : choice.candidate.priority = kind.priority (earlier.layout.breakDepth kind) :=
        left ▸ earlier.layout.priority_candidate kind
      rw [priority] at above
      refine Or.inr ⟨ends, ?_, among ▸ best⟩
      rw [priority]
      exact Priority.threshold_lt_value above
  · intro l kind shallow
    rw [Layout.priority_candidate]
    exact Priority.value_scaled kind.weight shallow

/-- The last run does not fit. The separator is nearer, but the list goes first. -/
theorem break_forced_and_chosen_list :
    let stream : List Token :=
      [.plain "f(", .mark (.opener .list), .plain "aaa, ", .mark .separator, .plain "bbb)",
        .mark (.closer .list)]
    let engine := Engine.run { config := ⟨8, 2⟩ } (stream.take 4).toArray
    ∃ past, Leads stream { config := ⟨8, 2⟩ } past engine ∧
      (engine.read (.plain "bbb)")).layout.fired = [1] ∧
      ∃ c, c.index = 1 ∧ OverflowChoice 8 (OfferedOnLine stream past engine) c := by
  intro stream engine
  have created : Leads stream { config := ⟨8, 2⟩ } [] { config := ⟨8, 2⟩ } := .refl
  have part : (stream.take 4).toArray.toList <+: stream := List.take_prefix 4 stream
  obtain ⟨past, leads⟩ := created.run part
  have sane : engine.fault? = none := by decide +kernel
  have next : stream[engine.layout.cursor]? = some (.plain "bbb)") := by decide +kernel
  have whole : engine.layout.fired = [] := by decide +kernel
  have fires : (engine.read (.plain "bbb)")).layout.fired = 1 :: engine.layout.fired := by
    decide +kernel
  have limit : engine.config.widthLimit = 8 := by decide +kernel
  obtain ⟨-, ⟨c, index, -, -, cause⟩, -⟩ := break_forced_and_chosen leads sane next fires
  refine ⟨_, leads, by rw [fires, whole], c, index, ?_⟩
  rcases cause with ⟨-, -, -, best⟩ | ⟨ends, -⟩
  · exact limit ▸ best
  · cases ends

end Engine

end LineLayout
