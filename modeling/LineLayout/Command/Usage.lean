/-!
# What the program says about itself
-/

namespace LineLayout.Usage

/-- Each text on a line of its own. -/
def lines (texts : List String) : String :=
  String.join (texts.map (· ++ "\n"))

/-- The commands, one a line. -/
def overview : String :=
  lines
    ["tokprint - backtracking token layout",
      "",
      "Usage: tokprint <command> [options]",
      "",
      "Commands:",
      "  render <file>   Lay out a token script",
      "  tokens <file>   Show the tokens a script parses to",
      "  help            Show this message",
      "  version         Show version information",
      "",
      "Set RUST_LOG=debug to trace rewinds."]

/-- How the render command is called. -/
def render : String :=
  lines
    ["Usage: tokprint render <file.tok> [options]",
      "",
      "Options:",
      "  --width=<n>    Maximum line width (default: 80)",
      "  --indent=<n>   Spaces per indent level (default: 2)",
      "",
      "Use '-' as the file to read from stdin."]

/-- How the command that lists tokens is called. -/
def tokens : String :=
  lines ["Usage: tokprint tokens <file.tok>"]

/-- The name of the program and its version. -/
def version : String :=
  lines ["tokprint 0.1.0-alpha.1"]

end LineLayout.Usage
