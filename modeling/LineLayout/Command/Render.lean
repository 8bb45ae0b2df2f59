import LineLayout.Printer
import LineLayout.Command.Error
import LineLayout.Script.Reading

/-!
# Rendering a script

A script is read and its tokens are laid out. The path only says in messages which script it is.
-/

namespace LineLayout

/-- Lays out the tokens that a script says. -/
def renderSource (path source : String) (config : Config) : Except CommandError String :=
  match Script.parse source with
  | .error error => .error (.script path error)
  | .ok tokens =>
    match ((Printer.ofConfig config).emitAll tokens).render.2 with
    | .error fault => .error (.layout path fault)
    | .ok text => .ok text

/-- What happens while a printer lays out what it has collected. -/
def Printer.trace (printer : Printer) : List Event :=
  let start := printer.engine.layout.cursor
  let entered := if printer.hasUnread then [Event.entered start printer.tokens.size] else []
  entered ++ printer.flush.1.engine.layout.journal.reverse

/-- What happens while a script is read and laid out. -/
def traceSource (path source : String) (config : Config) : List Event :=
  match Script.parse source with
  | .error _ => Script.trace source
  | .ok tokens =>
    Script.trace source ++
      .rendering path tokens.length config.widthLimit config.indentUnit ::
        ((Printer.ofConfig config).emitAll tokens).trace

end LineLayout
