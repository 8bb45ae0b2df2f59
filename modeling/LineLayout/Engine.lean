import LineLayout.Layout.Run

/-!
# Engine

An engine lays out one stream, possibly in several runs as tokens are added to its end. The
settings may change between runs. The first fault is final: later runs change nothing.
-/

namespace LineLayout

/-- The settings in force, the layout so far, and the fault at which it stopped, if it did. -/
structure Engine where
  config : Config := {}
  layout : Layout := {}
  fault? : Option Fault := none

namespace Engine

/-- Takes the outcome of a run over. -/
def settle (engine : Engine) : Outcome → Engine
  | .done layout => { engine with layout := layout }
  | .rejected fault layout => { engine with layout := layout, fault? := some fault }

/-- Lays out the tokens that are not laid out yet. -/
def run (engine : Engine) (tokens : Array Token) : Engine :=
  match engine.fault? with
  | some _ => engine
  | none => engine.settle (engine.layout.run engine.config tokens)

/-- Changes the settings for the tokens to come. -/
def setConfig (engine : Engine) (config : Config) : Engine :=
  { engine with config := config }

/-- The text laid out so far. -/
def text (engine : Engine) : String :=
  engine.layout.output.text

/-- What a run answers: the fault that stopped it, or one before it, if any. -/
def answer (engine : Engine) : Except Fault Unit :=
  match engine.fault? with
  | some fault => .error fault
  | none => .ok ()

/-- The text laid out, unless there was a fault. -/
def result (engine : Engine) : Except Fault String :=
  match engine.fault? with
  | some fault => .error fault
  | none => .ok engine.text

end Engine

/-- Lays out a complete stream. -/
def renderTokens (config : Config) (tokens : Array Token) : Except Fault String :=
  (Engine.run { config := config } tokens).result

/-- What happens while a complete stream is laid out. -/
def traceTokens (config : Config) (tokens : Array Token) : List Event :=
  .entered 0 tokens.size :: (Engine.run { config := config } tokens).layout.journal.reverse

end LineLayout
