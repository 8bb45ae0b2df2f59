import LineLayout.Engine

/-!
# Printer

A printer collects tokens and lays them out when asked. A change of settings holds for the tokens
emitted after it: those already collected are laid out first, under the old settings.

What was laid out is known by the cursor of the engine. If it stands behind the last token there is
nothing to do and nothing can fail, so the engine is not asked for a fault then.
-/

namespace LineLayout

/-- The tokens collected so far, and the engine that lays them out. -/
structure Printer where
  tokens : Array Token := #[]
  engine : Engine := {}

namespace Printer

/-- A printer that has collected nothing yet. -/
def ofConfig (config : Config) : Printer :=
  { engine := { config := config } }

/-- The settings in force. -/
def config (printer : Printer) : Config :=
  printer.engine.config

/-- Collects one token. -/
def emit (printer : Printer) (token : Token) : Printer :=
  { printer with tokens := printer.tokens.push token }

/-- Collects a run of plain text. -/
def emitText (printer : Printer) (text : String) : Printer :=
  printer.emit (.plain text)

/-- Collects tokens in their order. -/
def emitAll (printer : Printer) (tokens : List Token) : Printer :=
  { printer with tokens := printer.tokens ++ tokens }

/-- Whether some token is not laid out yet. -/
def hasUnread (printer : Printer) : Bool :=
  printer.engine.layout.cursor != printer.tokens.size

/-- Lays out every token that is not laid out yet. If there is none the engine is not asked. -/
def flush (printer : Printer) : Printer × Except Fault Unit :=
  if printer.hasUnread then
    let engine := printer.engine.run printer.tokens
    ({ printer with engine := engine }, engine.answer)
  else (printer, .ok ())

/-- Lays out the collected tokens and gives the whole text. -/
def render (printer : Printer) : Printer × Except Fault String :=
  match printer.flush with
  | (flushed, .ok ()) => (flushed, .ok flushed.engine.text)
  | (flushed, .error fault) => (flushed, .error fault)

/-- Changes the settings for the tokens to come; after a fault they stay. -/
def setConfig (printer : Printer) (config : Config) : Printer × Except Fault Unit :=
  match printer.flush with
  | (flushed, .ok ()) => ({ flushed with engine := flushed.engine.setConfig config }, .ok ())
  | (flushed, .error fault) => (flushed, .error fault)

/-- Changes the width limit for the tokens to come. -/
def setWidthLimit (printer : Printer) (widthLimit : Nat) : Printer × Except Fault Unit :=
  printer.setConfig { printer.config with widthLimit := widthLimit }

/-- Changes the indent unit for the tokens to come. -/
def setIndentUnit (printer : Printer) (indentUnit : Nat) : Printer × Except Fault Unit :=
  printer.setConfig { printer.config with indentUnit := indentUnit }

end Printer

end LineLayout
