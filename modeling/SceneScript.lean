import SceneScript.Batch.Config
import SceneScript.Batch.Job
import SceneScript.Batch.Pool
import SceneScript.Block.Code
import SceneScript.Block.Layout
import SceneScript.Block.Link
import SceneScript.Call
import SceneScript.Collect
import SceneScript.Command.Options
import SceneScript.Command.Run
import SceneScript.Compile
import SceneScript.Decimal.Integer
import SceneScript.Decimal.Numeral
import SceneScript.Decimal.Shortest
import SceneScript.Directive
import SceneScript.Expr.Basic
import SceneScript.Expr.Parser
import SceneScript.Fault
import SceneScript.Instruction.Basic
import SceneScript.Instruction.Inspect
import SceneScript.Json.Basic
import SceneScript.Json.Decode
import SceneScript.Json.Reader
import SceneScript.Json.Writer
import SceneScript.Language
import SceneScript.Line
import SceneScript.Main
import SceneScript.Node
import SceneScript.Outline
import SceneScript.Program.Basic
import SceneScript.Program.NameSet
import SceneScript.Program.Saved
import SceneScript.Proofs.Block.Assembly
import SceneScript.Proofs.Block.Execution
import SceneScript.Proofs.Block.Flow
import SceneScript.Proofs.Block.Nesting
import SceneScript.Proofs.Block.Plan
import SceneScript.Proofs.Block.Reading
import SceneScript.Proofs.Block.Routine
import SceneScript.Proofs.Collect
import SceneScript.Proofs.Compile
import SceneScript.Proofs.Excerpt
import SceneScript.Proofs.Expr.Budget
import SceneScript.Proofs.Expr.Complete
import SceneScript.Proofs.Expr.Follow
import SceneScript.Proofs.Expr.Grammar
import SceneScript.Proofs.Expr.Lexeme
import SceneScript.Proofs.Expr.Sound
import SceneScript.Proofs.Line
import SceneScript.Proofs.Render.Call
import SceneScript.Proofs.Render.Clause
import SceneScript.Proofs.Render.Compile
import SceneScript.Proofs.Render.Expr
import SceneScript.Proofs.Render.Script
import SceneScript.Proofs.Text
import SceneScript.Statement
import SceneScript.Storage.FileTree
import SceneScript.Storage.Path
import SceneScript.Symbols
import SceneScript.Text.Blank
import SceneScript.Text.Letter
import SceneScript.Text.Quoted
import SceneScript.Text.Visible
import SceneScript.Value
import SceneScript.Proofs.Block.Acceptance
import SceneScript.Proofs.Block.Layout
import SceneScript.Proofs.Block.Counting
import SceneScript.Proofs.Block.Relocation
import SceneScript.Proofs.Fault
import SceneScript.Proofs.Decimal.Finite
import SceneScript.Proofs.Decimal.Numeral
import SceneScript.Proofs.Json.Scalar
import SceneScript.Proofs.Json.RoundTrip
import SceneScript.Proofs.Json.Faithful
import SceneScript.Proofs.Program.Saved
import SceneScript.Proofs.Program.Reload
import SceneScript.Proofs.Storage.Path
import SceneScript.Proofs.Storage.FileTree
import SceneScript.Proofs.Storage.Changes
import SceneScript.Proofs.Storage.Extension
import SceneScript.Proofs.Storage.Disk
import SceneScript.Proofs.Batch.Job
import SceneScript.Proofs.Batch.InTurn
import SceneScript.Proofs.Batch.Pool
import SceneScript.Proofs.Batch.Sequential
import SceneScript.Proofs.Batch.Folder
import SceneScript.Proofs.Batch.InPlace
import SceneScript.Proofs.Outline.Order
import SceneScript.Proofs.Block.Pairing
import SceneScript.Proofs.Render.Argument
import SceneScript.Proofs.Outline.Parts
import SceneScript.Proofs.Split.Balance
import SceneScript.Proofs.Split.Segments
import SceneScript.Proofs.Split.Pieces
import SceneScript.Proofs.Split.Agreement
import SceneScript.Proofs.Split.Unbalanced
import SceneScript.Proofs.Render.Shown
import SceneScript.Proofs.Render.Reshown
import SceneScript.Proofs.Block.Skip
import SceneScript.Proofs.Expr.FullWidth
import SceneScript.Proofs.Directive
import SceneScript.Proofs.Reformat
import SceneScript.Proofs.Decimal.Integer
import SceneScript.Proofs.Expr.Integer
