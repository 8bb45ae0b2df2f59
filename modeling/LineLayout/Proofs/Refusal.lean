import LineLayout.Proofs.Incremental

/-!
# Faults are final

An engine that refuses a token keeps the fault, and no later run changes anything. A printer asks
its engine only while some token is unread, so it depends on more than that: the cursor has to stay
in front of the refused token (`Layout.cursor_lt_of_rejected`), which is then unread for good,
whatever is emitted behind it. `Stuck` says this of a printer. One action keeps it (`Stuck.act`),
hence any number of them, and a printer can answer with a fault only if it is stuck.
-/

namespace LineLayout

/-! ## Engines -/

namespace Engine

/-- What can be asked of an engine. -/
inductive Call where
  | run (slice : Array Token)
  | setConfig (config : Config)

/-- The engine after a call. -/
def call (engine : Engine) : Call → Engine
  | .run slice => engine.run slice
  | .setConfig config => engine.setConfig config

variable {engine : Engine} {fault : Fault}

/-- Calls to an engine with a fault change its settings at most. -/
theorem foldl_call_of_fault (faulty : engine.fault? = some fault) (calls : List Call) :
    (calls.foldl call engine).layout = engine.layout ∧
      (calls.foldl call engine).fault? = some fault := by
  induction calls generalizing engine with
  | nil => exact ⟨rfl, faulty⟩
  | cons next calls ih =>
    rw [List.foldl_cons]
    cases next with
    | run slice =>
      rw [call, run_of_fault faulty slice]
      exact ih faulty
    | setConfig config => exact ih faulty

end Engine

/-! ## Printers -/

namespace Printer

/-- Everything that a producer can do with a printer. -/
inductive Action where
  | op (op : Op)
  | setConfig (config : Config)
  | setWidthLimit (widthLimit : Nat)
  | setIndentUnit (indentUnit : Nat)

/-- Whether the tokens have to be laid out for the action, so that it can fail. -/
def Action.laysOut : Action → Bool
  | .op .render => true
  | .op _ => false
  | _ => true

/-- The printer after an action, and its answer: a fault, or perhaps the text. -/
def act (printer : Printer) : Action → Printer × Except Fault (Option String)
  | .op .render => (printer.render.1, printer.render.2.map some)
  | .op op => (printer.perform op, .ok none)
  | .setConfig config =>
    ((printer.setConfig config).1, (printer.setConfig config).2.map fun _ => none)
  | .setWidthLimit widthLimit =>
    ((printer.setWidthLimit widthLimit).1, (printer.setWidthLimit widthLimit).2.map fun _ => none)
  | .setIndentUnit indentUnit =>
    ((printer.setIndentUnit indentUnit).1, (printer.setIndentUnit indentUnit).2.map fun _ => none)

/-- The printer after some actions. -/
def actAll (printer : Printer) (actions : List Action) : Printer :=
  actions.foldl (fun printer action => (printer.act action).1) printer

variable {printer : Printer} {fault : Fault} {config : Config}

/-- An action that lays tokens out answers with the fault that stops this, if one does. If not, all
it may change besides are the settings. -/
theorem act_of_laysOut {action : Action} (laysOut : action.laysOut = true) (printer : Printer) :
    (∃ fault, printer.flush.2 = .error fault ∧
      printer.act action = (printer.flush.1, .error fault)) ∨
    (printer.flush.2 = .ok () ∧ ∃ config answer, printer.act action =
      ({ printer.flush.1 with engine := printer.flush.1.engine.setConfig config },
        .ok answer)) := by
  rcases flushed : printer.flush with ⟨next, fault | ⟨⟩⟩
  · refine Or.inl ⟨fault, rfl, ?_⟩
    rcases action with (_ | _ | _ | _) | config | widthLimit | indentUnit
    · cases laysOut
    · cases laysOut
    · cases laysOut
    · simp only [act, render, flushed, Except.map]
    · simp only [act, setConfig, flushed, Except.map]
    · simp only [act, setWidthLimit, setConfig, flushed, Except.map]
    · simp only [act, setIndentUnit, setConfig, flushed, Except.map]
  · refine Or.inr ⟨rfl, ?_⟩
    rcases action with (_ | _ | _ | _) | config | widthLimit | indentUnit
    · cases laysOut
    · cases laysOut
    · cases laysOut
    · -- rendering leaves the settings as they are
      refine ⟨next.engine.config, some next.engine.text, ?_⟩
      simp only [act, render, flushed, Except.map]
      rfl
    · refine ⟨config, none, ?_⟩
      simp only [act, setConfig, flushed, Except.map]
    · refine ⟨{ printer.config with widthLimit := widthLimit }, none, ?_⟩
      simp only [act, setWidthLimit, setConfig, flushed, Except.map]
    · refine ⟨{ printer.config with indentUnit := indentUnit }, none, ?_⟩
      simp only [act, setIndentUnit, setConfig, flushed, Except.map]

theorem act_of_not_laysOut {action : Action} (emits : action.laysOut = false) (printer : Printer) :
    ∃ tokens, printer.act action = (printer.emitAll tokens, .ok none) := by
  rcases action with (token | text | tokens | _) | config | widthLimit | indentUnit
  · exact ⟨[token], by rw [← emit_eq_emitAll]; rfl⟩
  · exact ⟨[.plain text], by rw [← emit_eq_emitAll]; rfl⟩
  · exact ⟨tokens, rfl⟩
  · cases emits
  · cases emits
  · cases emits
  · cases emits

/-! ## A printer that is stuck -/

/-- The engine stands at a fault, in front of a token that the printer has collected. -/
structure Stuck (fault : Fault) (printer : Printer) : Prop where
  faulty : printer.engine.fault? = some fault
  unread : printer.engine.layout.cursor < printer.tokens.size

theorem Stuck.hasUnread (stuck : Stuck fault printer) : printer.hasUnread = true :=
  bne_iff_ne.2 (Nat.ne_of_lt stuck.unread)

theorem Stuck.flush (stuck : Stuck fault printer) : printer.flush = (printer, .error fault) := by
  simp only [Printer.flush, stuck.hasUnread, if_true, Engine.run_of_fault stuck.faulty,
    Engine.answer_of_fault stuck.faulty]

theorem Stuck.careful (stuck : Stuck fault printer) : Careful printer :=
  fun _ _ => stuck.unread

theorem Stuck.emitAll (stuck : Stuck fault printer) (tokens : List Token) :
    Stuck fault (printer.emitAll tokens) where
  faulty := stuck.faulty
  unread := stuck.careful.emitAll tokens fault stuck.faulty

/-- A stuck printer stays stuck with the same engine, and answers with its fault. -/
theorem Stuck.act (stuck : Stuck fault printer) (action : Action) :
    Stuck fault (printer.act action).1 ∧ (printer.act action).1.engine = printer.engine ∧
      (action.laysOut = true → (printer.act action).2 = .error fault) := by
  cases laysOut : action.laysOut with
  | false =>
    obtain ⟨tokens, acted⟩ := act_of_not_laysOut laysOut printer
    rw [acted]
    exact ⟨stuck.emitAll tokens, rfl, fun asks => by cases asks⟩
  | true =>
    rcases act_of_laysOut laysOut printer with ⟨other, failed, acted⟩ | ⟨ended, -⟩
    · rw [stuck.flush] at failed acted
      cases failed
      rw [acted]
      exact ⟨stuck, rfl, fun _ => rfl⟩
    · rw [stuck.flush] at ended
      cases ended

theorem Stuck.actAll (stuck : Stuck fault printer) (actions : List Action) :
    Stuck fault (printer.actAll actions) ∧ (printer.actAll actions).engine = printer.engine := by
  induction actions generalizing printer with
  | nil => exact ⟨stuck, rfl⟩
  | cons action actions ih =>
    obtain ⟨next, engine, -⟩ := stuck.act action
    obtain ⟨last, same⟩ := ih next
    exact ⟨last, same.trans engine⟩

/-! ## Only a stuck printer fails -/

theorem Careful.stuck_of_flush (careful : Careful printer)
    (failed : printer.flush.2 = .error fault) : Stuck fault printer.flush.1 := by
  have ended := congrArg Prod.snd careful.flush_eq
  rw [failed] at ended
  have faulty : printer.flush.1.engine.fault? = some fault := by
    rw [fst_flush]
    unfold Engine.answer at ended
    split at ended <;> cases ended
    assumption
  exact ⟨faulty, careful.flush fault faulty⟩

theorem Careful.act (careful : Careful printer) (action : Action) :
    Careful (printer.act action).1 := by
  cases laysOut : action.laysOut with
  | false =>
    obtain ⟨tokens, acted⟩ := act_of_not_laysOut laysOut printer
    rw [acted]
    exact careful.emitAll tokens
  | true =>
    rcases act_of_laysOut laysOut printer with ⟨fault, -, acted⟩ | ⟨-, config, answer, acted⟩
    · rw [acted]
      exact careful.flush
    · rw [acted]
      exact careful.flush

theorem Careful.actAll (careful : Careful printer) (actions : List Action) :
    Careful (printer.actAll actions) := by
  induction actions generalizing printer with
  | nil => exact careful
  | cons action actions ih => exact ih (careful.act action)

/-- A careful printer that answers with a fault is stuck at it. -/
theorem Careful.stuck_of_error (careful : Careful printer) {action : Action}
    (failed : (printer.act action).2 = .error fault) : Stuck fault (printer.act action).1 := by
  cases laysOut : action.laysOut with
  | false =>
    obtain ⟨tokens, acted⟩ := act_of_not_laysOut laysOut printer
    rw [acted] at failed
    cases failed
  | true =>
    rcases act_of_laysOut laysOut printer with ⟨other, stopped, acted⟩ | ⟨-, config, answer, acted⟩
    · rw [acted] at failed ⊢
      cases failed
      exact careful.stuck_of_flush stopped
    · rw [acted] at failed
      cases failed

/-- The first fault that a printer answers with is final. Whatever is done with the printer after
that, its engine stays as it is, with its settings, its cursor, the text and all the rest of the
layout. Some token stays unread, so that the engine is always asked, and rendering and every change
of the settings answer with the same fault. And an engine at a fault stays there, with the layout as
it is, whatever slices it is run on. -/
theorem first_fault_final {before : List Action} {action : Action}
    (failed : (((ofConfig config).actAll before).act action).2 = .error fault) :
    let stopped := (((ofConfig config).actAll before).act action).1
    (∀ later : List Action,
      (stopped.actAll later).engine = stopped.engine ∧
        (stopped.actAll later).hasUnread = true ∧
        ∀ next : Action, next.laysOut = true →
          ((stopped.actAll later).act next).2 = .error fault) ∧
    ∀ (engine : Engine) (slice : Array Token), (engine.run slice).fault? = some fault →
      ∀ calls : List Engine.Call,
        (calls.foldl Engine.call (engine.run slice)).layout = (engine.run slice).layout ∧
        ∀ other : Array Token,
          (calls.foldl Engine.call (engine.run slice)).run other =
            calls.foldl Engine.call (engine.run slice) ∧
          ((calls.foldl Engine.call (engine.run slice)).run other).fault? = some fault := by
  intro stopped
  have stuck : Stuck fault stopped :=
    ((careful_ofConfig config).actAll before).stuck_of_error failed
  refine ⟨?_, ?_⟩
  · intro later
    obtain ⟨still, same⟩ := stuck.actAll later
    exact ⟨same, still.hasUnread, fun next asks => (still.act next).2.2 asks⟩
  · intro engine slice faulty calls
    obtain ⟨layout, still⟩ := Engine.foldl_call_of_fault faulty calls
    refine ⟨layout, fun other => ?_⟩
    rw [Engine.run_of_fault still]
    exact ⟨rfl, still⟩

/-- The closing mark is refused when the text is asked for. The tokens emitted after that would open
the list, and a change of the settings is tried, but nothing moves. -/
theorem first_fault_final_unopened :
    let before : List Action :=
      [.op (.emit (.plain "ab")), .setWidthLimit 9, .op (.emit (.mark (.closer .list)))]
    let later : List Action :=
      [.op (.emitText "c"), .setIndentUnit 4, .op (.emitAll [.mark (.opener .list)])]
    let stopped := (((ofConfig {}).actAll before).act (.op .render)).1
    (((ofConfig {}).actAll before).act (.op .render)).2 = .error (.unopened 1 .list) ∧
      (stopped.actAll later).tokens.size = 4 ∧
      (stopped.actAll later).engine = stopped.engine ∧
      (stopped.actAll later).config = ⟨9, 2⟩ ∧
      ((stopped.actAll later).act (.setConfig ⟨1, 1⟩)).2 = .error (.unopened 1 .list) := by
  intro before later stopped
  have failed : (((ofConfig {}).actAll before).act (.op .render)).2 =
      .error (.unopened 1 .list) := by
    have careful := (careful_ofConfig {}).actAll before
    have faulty : (((ofConfig {}).actAll before).engine.run
        ((ofConfig {}).actAll before).tokens).fault? = some (.unopened 1 .list) := by
      decide +kernel
    simp only [act, careful.render_eq, Engine.result, faulty, Except.map]
  obtain ⟨final, -⟩ := first_fault_final failed
  obtain ⟨engine, -, answers⟩ := final later
  refine ⟨failed, by decide +kernel, engine, ?_, answers (.setConfig ⟨1, 1⟩) rfl⟩
  rw [Printer.config, engine]
  decide +kernel

end Printer

end LineLayout
