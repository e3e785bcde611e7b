import LineScript.Text.Ranges
import LineScript.Text.Blank
import LineScript.Text.Split
import LineScript.Text.Utf8
import LineScript.Text.Cluster.Ranges
import LineScript.Text.Cluster.Basic
import LineScript.Text.Draft
import LineScript.Number.Basic
import LineScript.Number.Rounding
import LineScript.Number.Shortest
import LineScript.Number.Arithmetic
import LineScript.Literal
import LineScript.Value
import LineScript.Log.Entry
import LineScript.Log.Wire
import LineScript.Command.Name
import LineScript.Failure
import LineScript.Outcome
import LineScript.Command.Basic
import LineScript.Command.Builtin
import LineScript.Registry
import LineScript.Argument
import LineScript.Journal
import LineScript.Expansion
import LineScript.Program
import LineScript.Interpreter
import LineScript.Shell.Options
import LineScript.Shell.Diagnostics
import LineScript.Shell.Folder
import LineScript.Shell.Report
import LineScript.Shell.Session
import LineScript.Main
import LineScript.Proofs.Forest
import LineScript.Proofs.Threading
import LineScript.Proofs.DepthFirst
import LineScript.Proofs.Walk
import LineScript.Proofs.Builtins
import LineScript.Proofs.Room
import LineScript.Proofs.Invariant
import LineScript.Proofs.Composition
import LineScript.Proofs.Halting
import LineScript.Proofs.Nesting
import LineScript.Proofs.Rules
import LineScript.Proofs.Retelling
import LineScript.Proofs.Conservation
import LineScript.Proofs.Limit
import LineScript.Proofs.Spacing
import LineScript.Proofs.Framing
import LineScript.Proofs.Layout
import LineScript.Proofs.HaltLine
import LineScript.Proofs.Agreement
import LineScript.Proofs.Operands
import LineScript.Proofs.Surplus
import LineScript.Proofs.Stack
import LineScript.Proofs.Encoding
import LineScript.Proofs.CommandLine
import LineScript.Proofs.Sources
import LineScript.Proofs.Delivery
import LineScript.Proofs.Sessions
import LineScript.Proofs.Digits
import LineScript.Proofs.WireForm
import LineScript.Proofs.Quoting
import LineScript.Proofs.Nearest
import LineScript.Proofs.Spelling
import LineScript.Proofs.Shortest
import LineScript.Proofs.Numerals
import LineScript.Proofs.LineBreaks
import LineScript.Proofs.Division
import LineScript.Proofs.Registration
import LineScript.Proofs.QuotedOperands
import LineScript.Proofs.Faults
import LineScript.Proofs.Preparation
