import LineLayout.Proofs.Backtracking

/-!
# When a line is too long

The candidates that are pending are exactly the tokens that offered a break since the line started
(`Straight.mem_pending_iff`). A run that does not fit takes one of them if there is one, so in what
is finally laid out a run ends past the limit only if its line offered no break in front of it.
-/

namespace LineLayout

/-! ## Lines -/

section Lines

variable (tokens : List Token) (breaks : List Nat)

/-- The token ends its line, by itself or because the line is broken at it. -/
def EndsLine (index : Nat) : Prop :=
  index ∈ breaks ∨ ∃ token, tokens[index]? = some token ∧ token.endsLine = true

/-- The token offers a break. -/
def Offers (index : Nat) : Prop :=
  ∃ token kind, tokens[index]? = some token ∧ token.breakKind? = some kind

/-- The token `index` offers a break between the start of the line and the token `last`: no line
ends from `index` on and in front of `last`. -/
def OffersBefore (last index : Nat) : Prop :=
  index < last ∧ Offers tokens index ∧
    ∀ between, index ≤ between → between < last → ¬ EndsLine tokens breaks between

variable {tokens breaks} {last index : Nat}

theorem not_endsLine {token : Token} (read : tokens[index]? = some token)
    (whole : index ∉ breaks) (runsOn : token.endsLine = false) :
    ¬ EndsLine tokens breaks index := by
  rintro (broken | ⟨other, read', ends⟩)
  · exact whole broken
  · rw [read, Option.some.injEq] at read'
    rw [read', ends] at runsOn
    cases runsOn

theorem not_offersBefore_succ (ends : EndsLine tokens breaks last) :
    ¬ OffersBefore tokens breaks (last + 1) index := by
  rintro ⟨below, -, together⟩
  exact together last (Nat.le_of_lt_succ below) (Nat.lt_succ_self last) ends

theorem offersBefore_succ_iff (whole : ¬ EndsLine tokens breaks last) :
    OffersBefore tokens breaks (last + 1) index ↔
      index = last ∧ Offers tokens last ∨ OffersBefore tokens breaks last index := by
  constructor
  · rintro ⟨below, offers, together⟩
    rcases Nat.lt_succ_iff_lt_or_eq.1 below with before | rfl
    · refine Or.inr ⟨before, offers, ?_⟩
      intro between after upTo
      exact together between after (Nat.lt_succ_of_lt upTo)
    · exact Or.inl ⟨rfl, offers⟩
  · rintro (⟨rfl, offers⟩ | ⟨before, offers, together⟩)
    · refine ⟨Nat.lt_succ_self _, offers, ?_⟩
      intro between after upTo
      have here : between = index := by omega
      rw [here]
      exact whole
    · refine ⟨Nat.lt_succ_of_lt before, offers, ?_⟩
      intro between after upTo
      rcases Nat.lt_succ_iff_lt_or_eq.1 upTo with earlier | rfl
      · exact together between after earlier
      · exact whole

theorem OffersBefore.of_cons {broken : Nat}
    (offered : OffersBefore tokens (broken :: breaks) last index) :
    OffersBefore tokens breaks last index := by
  obtain ⟨below, offers, together⟩ := offered
  refine ⟨below, offers, ?_⟩
  intro between after upTo ends
  apply together between after upTo
  rcases ends with member | ended
  · exact Or.inl (List.mem_cons_of_mem broken member)
  · exact Or.inr ended

end Lines

namespace Layout

variable {tokens : List Token} {usable : Config → Prop} {l : Layout} {config : Config}
  {token : Token}

/-! ## What is pending -/

theorem Straight.not_endsLine (straight : Straight tokens usable l)
    (read : tokens[l.cursor]? = some token) (whole : token.endsLine = false) :
    ¬ EndsLine tokens l.fired l.cursor :=
  LineLayout.not_endsLine read
    (fun member => Nat.lt_irrefl _ (straight.of_mem_fired member).1) whole

/-- The candidates pending are the breaks that the line offers in front of the cursor. -/
theorem Straight.mem_pending_iff (straight : Straight tokens usable l) (index : Nat) :
    index ∈ l.pending.map Candidate.index ↔ OffersBefore tokens l.fired l.cursor index := by
  induction straight with
  | start => simp [OffersBefore]
  | @forward l next config token straight allowed read forward ih =>
    rw [forward.cursor, forward.fired]
    rcases forward.pending with ⟨ended, -, none⟩ | ⟨kind, whole, breaks, more⟩ | ⟨whole, bare, same⟩
    · rw [none, List.map_nil]
      have ends : EndsLine tokens l.fired l.cursor := Or.inr ⟨token, read, ended⟩
      exact iff_of_false List.not_mem_nil (not_offersBefore_succ ends)
    · have offers : Offers tokens l.cursor := ⟨token, kind, read, breaks⟩
      rw [more, List.map_cons, List.mem_cons, index_candidate, ih,
        offersBefore_succ_iff (straight.not_endsLine read whole), and_iff_left offers]
    · have bare' : ¬ Offers tokens l.cursor := by
        rintro ⟨other, kind, read', breaks⟩
        rw [read, Option.some.injEq] at read'
        rw [← read', bare] at breaks
        cases breaks
      rw [same, ih, offersBefore_succ_iff (straight.not_endsLine read whole)]
      exact ⟨Or.inr, fun offered => offered.resolve_left fun here => bare' here.2⟩
  | @broken past config token kind journal straight allowed read breaks told ih =>
    rw [pending_breakLine, cursor_breakLine, fired_resume_breakLine told, List.map_nil]
    have ends : EndsLine tokens (past.cursor :: past.fired) past.cursor :=
      Or.inl List.mem_cons_self
    exact iff_of_false List.not_mem_nil (not_offersBefore_succ ends)

/-! ## Runs past the limit -/

/-- A run that is written past the limit is written on a line that offers no break. -/
theorem Forward.not_offersBefore {next : Layout} {run : TextRun}
    (straight : Straight tokens usable l) (forward : Forward l config (.text run) next)
    (past : config.widthLimit < next.column) (index : Nat) :
    ¬ OffersBefore tokens l.fired l.cursor index := by
  rw [← straight.mem_pending_iff]
  cases forward with
  | text fits =>
    have exceeds : config.exceeds l.writeMargin.column run.width = true :=
      decide_eq_true_iff.2 past
    rw [fits exceeds]
    exact List.not_mem_nil
  | offer kind breaks => cases breaks

/-- In a straight history, whatever ends past the limit had no break in front of it. -/
theorem Straight.not_offersBefore (straight : Straight tokens (· = config) l) {position : Nat}
    {run : TextRun} {page : Page} (below : position < l.cursor)
    (read : tokens[position]? = some (.text run))
    (laid : Page.lay (fun _ => config) l.fired (tokens.take (position + 1)) = .ok page)
    (past : config.widthLimit < page.column) (index : Nat) :
    ¬ OffersBefore tokens l.fired position index := by
  induction straight with
  | start => exact absurd below (Nat.not_lt_zero position)
  | @forward l next used token straight allowed read' forward ih =>
    rw [forward.fired] at laid ⊢
    rw [forward.cursor] at below
    rcases Nat.lt_succ_iff_lt_or_eq.1 below with before | rfl
    · exact ih before laid
    · have laidNext := (Straight.forward straight allowed read' forward).laid_of_config
      rw [forward.cursor, forward.fired, laid, Except.ok.injEq] at laidNext
      rw [read', Option.some.injEq] at read
      subst read allowed laidNext
      exact forward.not_offersBefore straight past index
  | @broken before used token kind journal straight allowed read' breaks told ih =>
    rw [fired_resume_breakLine told] at laid ⊢
    rw [cursor_breakLine] at below
    have upTo : position < before.cursor + 1 := below
    rcases Nat.lt_succ_iff_lt_or_eq.1 upTo with earlier | rfl
    · have same : ∀ other < position + 1,
          (other ∈ before.fired ↔ other ∈ before.cursor :: before.fired) := by
        intro other above
        rw [List.mem_cons]
        exact ⟨Or.inr, fun member => member.resolve_left (by omega)⟩
      intro offered
      apply ih earlier
      · rw [← laid]
        exact lay_take_congr fun other above => ⟨rfl, same other above⟩
      · exact offered.of_cons
    · rw [read, Option.some.injEq] at read'
      subst read'
      cases breaks

end Layout

theorem Page.exists_lay_take {settings : Nat → Config} {breaks : List Nat} {tokens : List Token}
    {final : Page} (laid : lay settings breaks tokens = .ok final) (count : Nat) :
    ∃ page, lay settings breaks (tokens.take count) = .ok page := by
  rw [← List.take_append_drop count tokens, lay_append] at laid
  cases front : lay settings breaks (tokens.take count) with
  | error fault => rw [front] at laid; cases laid
  | ok page => exact ⟨page, rfl⟩

/-- A stream that is rendered is laid out by one pass, and a run that ends past the limit in it has
no token in front of it on its line that offers a break. -/
theorem renderTokens_overflow_only_without_break {config : Config} {tokens : Array Token}
    {text : String} (rendered : renderTokens config tokens = .ok text) :
    ∃ final,
      Page.lay (fun _ => config) (Engine.run { config := config } tokens).layout.fired
        tokens.toList = .ok final ∧
      final.text = text ∧
      ∀ position run, tokens[position]? = some (.text run) →
        ∃ page,
          Page.lay (fun _ => config) (Engine.run { config := config } tokens).layout.fired
            (tokens.toList.take (position + 1)) = .ok page ∧
          (config.widthLimit < page.column → ∀ index,
            ¬ OffersBefore tokens.toList (Engine.run { config := config } tokens).layout.fired
              position index) := by
  have ends := Engine.run_ends config tokens
  unfold renderTokens at rendered
  simp only [Engine.run] at rendered ⊢
  generalize Layout.run {} config tokens = outcome at ends rendered
  cases ends with
  | refused _ _ _ => cases rendered
  | @finished last reached read =>
    cases rendered
    have straight := reached.straight
    have done : tokens.toList.length ≤ last.cursor := by simpa using read
    have laid := straight.laid_all done
    refine ⟨last.page, laid, rfl, ?_⟩
    intro position run read'
    obtain ⟨page, before⟩ := Page.exists_lay_take laid (position + 1)
    have read'' : tokens.toList[position]? = some (.text run) := by simpa using read'
    have below := (List.getElem?_eq_some_iff.1 read'').1
    refine ⟨page, before, ?_⟩
    intro past index
    exact straight.not_offersBefore (by omega) read'' before past index

/-- Neither word fits: the first has no break in front of it, the second starts a line. -/
theorem renderTokens_overflow_only_without_break_narrow :
    let tokens : Array Token := #[.plain "alpha", .mark .softBreak, .plain "beta"]
    renderTokens ⟨4, 1⟩ tokens = .ok "alpha\n  beta" ∧
      Page.lay (fun _ => ⟨4, 1⟩) [1] tokens.toList =
        .ok ⟨"alpha\n  beta", 6, ⟨0, 2⟩, [], [], 3⟩ ∧
      ∀ index, ¬ OffersBefore tokens.toList [1] 2 index := by
  intro tokens
  have sane : (Engine.run { config := ⟨4, 1⟩ } tokens).fault? = none := by decide +kernel
  have text : (Engine.run { config := ⟨4, 1⟩ } tokens).text = "alpha\n  beta" := by decide +kernel
  have rendered : renderTokens ⟨4, 1⟩ tokens = .ok "alpha\n  beta" := by
    rw [renderTokens, Engine.result, sane, text]
  have fired : (Engine.run { config := ⟨4, 1⟩ } tokens).layout.fired = [1] := by decide +kernel
  have laid : Page.lay (fun _ => ⟨4, 1⟩) [1] tokens.toList =
      .ok ⟨"alpha\n  beta", 6, ⟨0, 2⟩, [], [], 3⟩ := rfl
  obtain ⟨final, -, -, overflow⟩ := renderTokens_overflow_only_without_break rendered
  obtain ⟨page, before, alone⟩ := overflow 2 (.plain "beta") rfl
  rw [fired] at before alone
  have same : (.ok page : Except (Fault × Page) Page) =
      .ok ⟨"alpha\n  beta", 6, ⟨0, 2⟩, [], [], 3⟩ := before.symm.trans laid
  cases same
  exact ⟨rendered, laid, alone (by decide)⟩

end LineLayout
