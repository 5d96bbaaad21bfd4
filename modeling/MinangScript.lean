import MinangScript.Main
import MinangScript.Proofs.CommandLine.Effects
import MinangScript.Proofs.Decimal.Literals
import MinangScript.Proofs.Environment.SaveRestore
import MinangScript.Proofs.JavaScript.Boundaries
import MinangScript.Proofs.JavaScript.Layout
import MinangScript.Proofs.JavaScript.ReadBack
import MinangScript.Proofs.JavaScript.Regexes
import MinangScript.Proofs.Json.Numbers
import MinangScript.Proofs.Json.RoundTrip
import MinangScript.Proofs.Lexer.Layout
import MinangScript.Proofs.Lexer.Lossless
import MinangScript.Proofs.Lexer.Positions
import MinangScript.Proofs.Machine.Concatenation
import MinangScript.Proofs.Machine.ForAsWhile
import MinangScript.Proofs.Machine.InStep
import MinangScript.Proofs.Machine.Isolation
import MinangScript.Proofs.Machine.LoopFree
import MinangScript.Proofs.Machine.Reachable
import MinangScript.Proofs.Machine.Scoping
import MinangScript.Proofs.Machine.Session
import MinangScript.Proofs.Parser.Neighbours
import MinangScript.Proofs.Parser.NestingBound
import MinangScript.Proofs.Parser.Truncation
import MinangScript.Proofs.Program.Printing
import MinangScript.Proofs.Project.Greeting
import MinangScript.Proofs.Repl.Runs
import MinangScript.Proofs.Settings.Persistence
import MinangScript.Proofs.Value.Table
