import LineLayout.Token
import LineLayout.Markup
import LineLayout.Config
import LineLayout.Trail
import LineLayout.Indentation
import LineLayout.ListContext
import LineLayout.Priority
import LineLayout.Candidate
import LineLayout.Event
import LineLayout.Fault
import LineLayout.Output
import LineLayout.Text.Bytes
import LineLayout.Text.Invisible
import LineLayout.Text.Quoted
import LineLayout.Layout.Basic
import LineLayout.Layout.Step
import LineLayout.Layout.Progress
import LineLayout.Layout.Run
import LineLayout.Engine
import LineLayout.Printer
import LineLayout.Script.Location
import LineLayout.Script.Error
import LineLayout.Script.Lexeme
import LineLayout.Script.Item
import LineLayout.Script.Reading
import LineLayout.Command.Error
import LineLayout.Command.Options
import LineLayout.Command.Render
import LineLayout.Command.Listing
import LineLayout.Command.Usage
import LineLayout.Command.Request
import LineLayout.Main
import LineLayout.Proofs.Steps
import LineLayout.Proofs.Rewind
import LineLayout.Proofs.History
import LineLayout.Proofs.Runs
import LineLayout.Proofs.Termination
import LineLayout.Proofs.Page
import LineLayout.Proofs.Backtracking
import LineLayout.Proofs.Nesting
import LineLayout.Proofs.Blocks
import LineLayout.Proofs.Width
import LineLayout.Proofs.Past
import LineLayout.Proofs.Committed
import LineLayout.Proofs.Choice
import LineLayout.Proofs.Forced
import LineLayout.Proofs.Incremental
import LineLayout.Proofs.Open
import LineLayout.Proofs.Whole
import LineLayout.Proofs.OneLine
import LineLayout.Proofs.Misfit
import LineLayout.Proofs.WellNested
import LineLayout.Proofs.Wording
import LineLayout.Proofs.Skeleton
import LineLayout.Proofs.Settings
import LineLayout.Proofs.Indented
import LineLayout.Proofs.Spelling
import LineLayout.Proofs.Grammar
import LineLayout.Proofs.Refusal
import LineLayout.Proofs.Line
import LineLayout.Proofs.Flat
import LineLayout.Proofs.Room
import LineLayout.Proofs.LeftBehind
import LineLayout.Proofs.Writing
import LineLayout.Proofs.Stops
import LineLayout.Proofs.Composition
import LineLayout.Proofs.Offence
import LineLayout.Proofs.Selection
import LineLayout.Proofs.TextLines
import LineLayout.Proofs.Places
import LineLayout.Proofs.Arguments
import LineLayout.Proofs.Listing
import LineLayout.Proofs.Persistence
import LineLayout.Proofs.Checked
