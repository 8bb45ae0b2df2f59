import LineLayout.Command.Render
import LineLayout.Proofs.Runs

/-!
# Laying out in parts

An engine that has laid out the front of a stream goes on with the rest as if it had been given the
whole at once (`Engine.run_run`): a step looks at the token at the cursor only, and going back leads
to tokens that the front part holds too. So a printer that renders again and again while tokens are
added always gives what a single rendering of all of them gives, faults included.

A printer asks its engine only while some token is unread. That it misses no fault by this is the
invariant `Printer.Careful`: an engine stands in front of the token that it has refused.
-/

namespace LineLayout

/-- Goes on with a longer slice, unless a token was refused. -/
def Outcome.andRun (config : Config) (slice : Array Token) : Outcome → Outcome
  | .done l => l.run config slice
  | .rejected fault left => .rejected fault left

namespace Layout

variable {short long : Array Token}

/-- Laying out a front part first changes nothing. -/
theorem andRun_run (l : Layout) (config : Config) (part : short.toList <+: long.toList) :
    (l.run config short).andRun config long = l.run config long := by
  have reads {index : Nat} {token : Token} (read : short[index]? = some token) :
      long[index]? = some token := by
    rw [← Array.getElem?_toList]
    exact getElem?_of_slice part read
  fun_induction run l config short with
  | case1 l read => rfl
  | case2 l token read next taken ih => rw [ih, run_of_done (reads read) taken]
  | case3 l token read fault left taken => rw [run_of_rejected (reads read) taken, Outcome.andRun]

end Layout

namespace Engine

variable {short long : Array Token}

theorem run_run (engine : Engine) (part : short.toList <+: long.toList) :
    (engine.run short).run long = engine.run long := by
  cases faulty : engine.fault? with
  | some fault => simp [Engine.run, faulty]
  | none =>
    have whole := engine.layout.andRun_run engine.config part
    simp only [Engine.run, faulty]
    rw [← whole]
    cases engine.layout.run engine.config short with
    | done l => simp only [settle, faulty, Outcome.andRun]
    | rejected fault left => rfl

/-- Front parts that grow, laid out one after the other. -/
theorem foldl_run_take (engine : Engine) (stream : List Token) {lengths : List Nat} {last : Nat}
    (growing : (lengths ++ [last]).Pairwise (· ≤ ·)) :
    (lengths ++ [last]).foldl (fun engine length => engine.run (stream.take length).toArray)
        engine = engine.run (stream.take last).toArray := by
  induction lengths generalizing engine with
  | nil => rfl
  | cons length lengths ih =>
    rw [List.cons_append, List.pairwise_cons] at growing
    obtain ⟨least, growing⟩ := growing
    have le : length ≤ last := least last (by simp)
    rw [List.cons_append, List.foldl_cons, ih _ growing]
    exact run_run engine (List.take_prefix_take_left le)

/-- At the end of the tokens there is nothing to lay out. -/
theorem run_of_end {engine : Engine} {tokens : Array Token}
    (done : engine.layout.cursor = tokens.size) : engine.run tokens = engine := by
  cases faulty : engine.fault? with
  | some fault => simp [Engine.run, faulty]
  | none =>
    have read : tokens[engine.layout.cursor]? = none := by simp [done]
    simp only [Engine.run, faulty, Layout.run_of_end read, settle]
    rw [← faulty]

theorem run_of_fault {engine : Engine} {fault : Fault} (faulty : engine.fault? = some fault)
    (slice : Array Token) : engine.run slice = engine := by
  simp [Engine.run, faulty]

theorem answer_of_fault {engine : Engine} {fault : Fault} (faulty : engine.fault? = some fault) :
    engine.answer = .error fault := by
  rw [answer, faulty]

theorem answer_of_sane {engine : Engine} (sane : engine.fault? = none) :
    engine.answer = .ok () := by
  rw [answer, sane]

theorem cursor_lt_of_run_fault {engine : Engine} {fault : Fault} {tokens : Array Token}
    (sane : engine.fault? = none) (faulty : (engine.run tokens).fault? = some fault) :
    (engine.run tokens).layout.cursor < tokens.size := by
  simp only [Engine.run, sane] at faulty ⊢
  cases outcome : engine.layout.run engine.config tokens with
  | done l => simp [outcome, settle, sane] at faulty
  | rejected _ left => exact Layout.cursor_lt_of_rejected outcome

end Engine

namespace Printer

/-- What a producer does with a printer while the settings stay as they are. -/
inductive Op where
  | emit (token : Token)
  | emitText (text : String)
  | emitAll (tokens : List Token)
  | render

/-- The tokens that an operation emits. -/
def Op.emitted : Op → List Token
  | emit token => [token]
  | emitText text => [.plain text]
  | emitAll tokens => tokens
  | render => []

/-- The printer after an operation. -/
def perform (printer : Printer) : Op → Printer
  | .emit token => printer.emit token
  | .emitText text => printer.emitText text
  | .emitAll tokens => printer.emitAll tokens
  | .render => printer.render.1

theorem emit_eq_emitAll (printer : Printer) (token : Token) :
    printer.emit token = printer.emitAll [token] := by
  simp [emit, emitAll]

/-! ## What a printer relies on -/

/-- If a token was refused, the printer has it, and has not laid it out. -/
def Careful (printer : Printer) : Prop :=
  ∀ fault, printer.engine.fault? = some fault →
    printer.engine.layout.cursor < printer.tokens.size

section Careful

variable {printer : Printer}

theorem careful_ofConfig (config : Config) : Careful (ofConfig config) := by
  intro fault faulty
  cases faulty

theorem Careful.emitAll (careful : Careful printer) (tokens : List Token) :
    Careful (printer.emitAll tokens) := by
  intro fault faulty
  have size : (printer.emitAll tokens).tokens.size = printer.tokens.size + tokens.length := by
    rw [← Array.length_toList]
    simp [Printer.emitAll]
  rw [size]
  exact Nat.lt_add_right _ (careful fault faulty)

/-- Leaving out a run with nothing to lay out changes nothing. -/
theorem fst_flush (printer : Printer) :
    printer.flush.1 = { printer with engine := printer.engine.run printer.tokens } := by
  unfold flush hasUnread
  split
  · rfl
  · rename_i done
    rw [Engine.run_of_end (by simpa using done)]

theorem Careful.flush (careful : Careful printer) : Careful printer.flush.1 := by
  rw [fst_flush]
  intro fault faulty
  cases before : printer.engine.fault? with
  | none => exact Engine.cursor_lt_of_run_fault before faulty
  | some earlier =>
    have same := Engine.run_of_fault before printer.tokens
    rw [same] at faulty ⊢
    exact careful fault faulty

/-- Not to ask the engine is no loss: with nothing left to lay out there was no fault. -/
theorem Careful.flush_eq (careful : Careful printer) :
    printer.flush = ({ printer with engine := printer.engine.run printer.tokens },
      (printer.engine.run printer.tokens).answer) := by
  refine Prod.ext (fst_flush printer) ?_
  unfold Printer.flush hasUnread
  split
  · rfl
  · rename_i done
    have read : printer.engine.layout.cursor = printer.tokens.size := by simpa using done
    cases faulty : printer.engine.fault? with
    | some fault => exact absurd read (Nat.ne_of_lt (careful fault faulty))
    | none => rw [Engine.run_of_end read, Engine.answer_of_sane faulty]

theorem Careful.render_eq (careful : Careful printer) :
    printer.render = ({ printer with engine := printer.engine.run printer.tokens },
      (printer.engine.run printer.tokens).result) := by
  rw [Printer.render, careful.flush_eq]
  unfold Engine.answer Engine.result
  cases (printer.engine.run printer.tokens).fault? <;> rfl

theorem Careful.setConfig_eq (careful : Careful printer) (config : Config) :
    printer.setConfig config =
      ({ printer with
          engine :=
            match (printer.engine.run printer.tokens).fault? with
            | some _ => printer.engine.run printer.tokens
            | none => (printer.engine.run printer.tokens).setConfig config },
        (printer.engine.run printer.tokens).answer) := by
  rw [Printer.setConfig, careful.flush_eq]
  unfold Engine.answer
  cases (printer.engine.run printer.tokens).fault? <;> rfl

theorem Careful.setConfig (careful : Careful printer) (config : Config) :
    Careful (printer.setConfig config).1 := by
  have flushed := careful.flush
  unfold Printer.setConfig
  generalize printer.flush = outcome at flushed ⊢
  rcases outcome with ⟨next, _ | ⟨⟩⟩ <;> exact flushed

theorem Careful.render_render (careful : Careful printer) :
    printer.render.1.render = printer.render := by
  have again := careful.flush.render_eq
  rw [fst_flush] at again
  rw [careful.render_eq, again, Engine.run_run _ (List.prefix_refl _)]

end Careful

/-! ## What a printer has collected -/

/-- The printer has collected `tokens`, and its engine has laid out a front part of them. -/
structure Collected (config : Config) (tokens : List Token) (printer : Printer) : Prop where
  collected : printer.tokens.toList = tokens
  laid : ∃ front, front <+: tokens ∧
    printer.engine = Engine.run { config := config } front.toArray

variable {config : Config} {tokens : List Token} {printer : Printer}

theorem Collected.engine_run (collected : Collected config tokens printer) :
    printer.engine.run printer.tokens = Engine.run { config := config } tokens.toArray := by
  obtain ⟨front, part, laid⟩ := collected.laid
  have whole : printer.tokens = tokens.toArray := by simp [← collected.collected]
  rw [laid, whole]
  exact Engine.run_run _ part

theorem Collected.emitAll (collected : Collected config tokens printer) (more : List Token) :
    Collected config (tokens ++ more) (printer.emitAll more) where
  collected := by simp [Printer.emitAll, collected.collected]
  laid := by
    obtain ⟨front, part, laid⟩ := collected.laid
    exact ⟨front, part.trans (List.prefix_append tokens more), laid⟩

theorem Collected.careful (collected : Collected config tokens printer) : Careful printer := by
  obtain ⟨front, part, laid⟩ := collected.laid
  intro fault faulty
  rw [laid] at faulty ⊢
  have inside := Engine.cursor_lt_of_run_fault rfl faulty
  have shorter : front.toArray.size ≤ printer.tokens.size := by
    rw [← Array.length_toList, ← Array.length_toList, collected.collected]
    exact part.length_le
  exact Nat.lt_of_lt_of_le inside shorter

theorem Collected.perform (collected : Collected config tokens printer) (op : Op) :
    Collected config (tokens ++ op.emitted) (printer.perform op) := by
  cases op with
  | emit token =>
    rw [Printer.perform, emit_eq_emitAll]
    exact collected.emitAll [token]
  | emitText text =>
    rw [Printer.perform, emitText, emit_eq_emitAll]
    exact collected.emitAll [.plain text]
  | emitAll more => exact collected.emitAll more
  | render =>
    rw [Op.emitted, List.append_nil, Printer.perform, collected.careful.render_eq]
    exact ⟨collected.collected, tokens, List.prefix_refl tokens, collected.engine_run⟩

theorem Collected.foldl (collected : Collected config tokens printer) (ops : List Op) :
    Collected config (tokens ++ ops.flatMap Op.emitted) (ops.foldl Printer.perform printer) := by
  induction ops generalizing tokens printer with
  | nil => simpa using collected
  | cons op ops ih => simpa using ih (collected.perform op)

theorem collected_ofConfig (config : Config) : Collected config [] (ofConfig config) where
  collected := rfl
  laid := ⟨[], List.prefix_refl [], (Engine.run_of_end rfl).symm⟩

theorem Collected.render (collected : Collected config tokens printer) :
    printer.render.2 = renderTokens config tokens.toArray := by
  rw [collected.careful.render_eq, collected.engine_run, renderTokens]

end Printer

/-- Laying out in parts is laying out at once. Whatever was emitted and rendered before, rendering
gives the rendering of all tokens emitted so far, text or fault, and rendering again changes
nothing. An engine that is given longer and longer front parts of a stream stands in the end where
the last of them alone leads. And rendering a script is reading it and rendering its tokens. -/
theorem rendering_in_parts (config : Config) :
    (∀ ops : List Printer.Op,
      (ops.foldl Printer.perform (.ofConfig config)).render.2 =
          renderTokens config (ops.flatMap Printer.Op.emitted).toArray ∧
        (ops.foldl Printer.perform (.ofConfig config)).render.1.render =
          (ops.foldl Printer.perform (.ofConfig config)).render) ∧
    (∀ (stream : List Token) (lengths : List Nat) (last : Nat),
      (lengths ++ [last]).Pairwise (· ≤ ·) →
        (lengths ++ [last]).foldl (fun engine length => engine.run (stream.take length).toArray)
            { config := config } =
          Engine.run { config := config } (stream.take last).toArray) ∧
    ∀ path source : String, renderSource path source config =
      match Script.parse source with
      | .error error => .error (.script path error)
      | .ok tokens => (renderTokens config tokens.toArray).mapError (.layout path) := by
  refine ⟨?_, ?_, ?_⟩
  · intro ops
    have collected := (Printer.collected_ofConfig config).foldl ops
    exact ⟨collected.render, collected.careful.render_render⟩
  · intro stream lengths last growing
    exact Engine.foldl_run_take _ stream growing
  · intro path source
    unfold renderSource
    cases Script.parse source with
    | error error => rfl
    | ok tokens =>
      have collected := (Printer.collected_ofConfig config).emitAll tokens
      simp only [collected.render, List.nil_append]
      cases renderTokens config tokens.toArray <;> rfl

/-- The last front part makes the engine go back into what an earlier one has laid out. -/
theorem rendering_in_parts_rewound :
    let stream : List Token :=
      [.plain "alpha", .mark .softBreak, .plain "be", .mark .softBreak, .plain "gamma"]
    let engine := [2, 4, 4, 5].foldl
      (fun engine length => Engine.run engine (stream.take length).toArray) { config := ⟨8, 1⟩ }
    [2, 4, 4, 5].Pairwise (· ≤ ·) ∧
      engine = Engine.run { config := ⟨8, 1⟩ } (stream.take 5).toArray ∧
      engine.layout.fired = [3] ∧ engine.text = "alphabe\n  gamma" := by
  intro stream engine
  have growing : ([2, 4, 4] ++ [5]).Pairwise (· ≤ ·) := by decide
  obtain ⟨-, parts, -⟩ := rendering_in_parts ⟨8, 1⟩
  exact ⟨growing, parts stream [2, 4, 4] 5 growing, by decide +kernel, by decide +kernel⟩

end LineLayout
