import Reactive.Bits
import Reactive.Block.Basic
import Reactive.Block.Event
import Reactive.Block.Listing
import Reactive.Block.Session
import Reactive.Block.Tree
import Reactive.Command.Basic
import Reactive.Command.Flags
import Reactive.Compile.Artifact
import Reactive.Compile.Options
import Reactive.Compile.Warning
import Reactive.Component.Basic
import Reactive.Component.Life
import Reactive.Component.Update
import Reactive.Css.Sheet
import Reactive.Css.Token
import Reactive.Dict
import Reactive.Dom.Basic
import Reactive.Eval.Builtins
import Reactive.Eval.Error
import Reactive.Eval.Globals
import Reactive.Eval.Interp
import Reactive.Eval.Machine
import Reactive.Eval.Methods
import Reactive.Eval.Operators
import Reactive.Eval.Sort
import Reactive.Expr.Lexer
import Reactive.Expr.Names
import Reactive.Expr.Parser
import Reactive.Expr.Printer
import Reactive.Expr.Syntax
import Reactive.Expr.Token
import Reactive.Folder
import Reactive.Form
import Reactive.Glob
import Reactive.Hash.Blake2b
import Reactive.Html.Basic
import Reactive.Html.Entity
import Reactive.Html.Tags
import Reactive.Json.Basic
import Reactive.Json.Reader
import Reactive.Log
import Reactive.Main
import Reactive.Number.Basic
import Reactive.Number.Binary64
import Reactive.Number.Decimal
import Reactive.Number.Numeral
import Reactive.Path
import Reactive.Play
import Reactive.Preview
import Reactive.Project
import Reactive.Schedule
import Reactive.Script
import Reactive.Shell
import Reactive.Suite.Basic
import Reactive.Suite.Report
import Reactive.Suite.Run
import Reactive.Template.EachHead
import Reactive.Template.Lexer
import Reactive.Template.Parser
import Reactive.Template.Position
import Reactive.Template.Projection
import Reactive.Template.Syntax
import Reactive.Template.Token
import Reactive.Text.Basic
import Reactive.Text.Case
import Reactive.Text.CodePoint
import Reactive.Text.Letter
import Reactive.Text.Printable
import Reactive.Text.Quoted
import Reactive.Trace
import Reactive.Value.Basic
import Reactive.Value.Memory
import Reactive.Value.Plain
import Reactive.View.Basic
import Reactive.View.Build
import Reactive.Proofs.Dict
import Reactive.Proofs.Run
import Reactive.Proofs.Schedule.Order
import Reactive.Proofs.Schedule.Cycle
import Reactive.Proofs.Schedule.Recompute
import Reactive.Proofs.Eval.Held
import Reactive.Proofs.Eval.Twin
import Reactive.Proofs.Eval.Sort
import Reactive.Proofs.Eval.Calls
import Reactive.Proofs.Eval.Lockstep
import Reactive.Proofs.Block.Outcome
import Reactive.Proofs.Block.Stage
import Reactive.Proofs.Block.Reading
import Reactive.Proofs.Block.Place
import Reactive.Proofs.Block.Change
import Reactive.Proofs.Block.Life
import Reactive.Proofs.Block.Attrs
import Reactive.Proofs.Block.Mounting
import Reactive.Proofs.Block.Patching
import Reactive.Proofs.Block.Alike
import Reactive.Proofs.Block.Parts
import Reactive.Proofs.Block.Rerender
import Reactive.Proofs.Eval.Keeps
import Reactive.Proofs.Block.Region
import Reactive.Proofs.Block.Steady
import Reactive.Proofs.Block.Settling
import Reactive.Proofs.Block.Ownership
import Reactive.Proofs.Block.Masks
import Reactive.Proofs.Expr.Grammar
import Reactive.Proofs.Expr.Lookahead
import Reactive.Proofs.Expr.Gives
import Reactive.Proofs.Expr.Sound
import Reactive.Proofs.Expr.Complete
import Reactive.Proofs.Text.Pieces
import Reactive.Proofs.Text.Encoding
import Reactive.Proofs.Expr.Lexing
import Reactive.Proofs.Expr.Quoting
import Reactive.Proofs.Expr.Braces
import Reactive.Proofs.Expr.Canonical
import Reactive.Proofs.Expr.Spelling
import Reactive.Proofs.Expr.RoundTrip
import Reactive.Proofs.Expr.Thunk
import Reactive.Proofs.Template.Tiling
import Reactive.Proofs.Template.Grammar
import Reactive.Proofs.Template.Document
import Reactive.Proofs.Template.Braces
import Reactive.Proofs.Template.RawText
import Reactive.Proofs.Expr.Tiling
import Reactive.Proofs.Expr.Places
import Reactive.Proofs.Component.Protection
import Reactive.Proofs.Component.Sound
import Reactive.Proofs.Text.Order
import Reactive.Proofs.Value.Akin
import Reactive.Proofs.Eval.Pair
import Reactive.Proofs.Eval.Together
import Reactive.Proofs.Eval.Substitution
import Reactive.Proofs.Component.Rest
import Reactive.Proofs.Component.Writes
import Reactive.Proofs.Eval.Scoping
import Reactive.Proofs.Component.Batches
import Reactive.Proofs.Expr.Identifiers
import Reactive.Proofs.View.Classified
import Reactive.Proofs.View.Recoded
import Reactive.Proofs.Eval.Agreed
import Reactive.Proofs.Eval.Arithmetic
import Reactive.Proofs.Eval.Chain
import Reactive.Proofs.Eval.Raising
import Reactive.Proofs.Eval.Unwinding
import Reactive.Proofs.Block.Scopes
import Reactive.Proofs.Block.Recoded
import Reactive.Proofs.Component.Probed
import Reactive.Proofs.Component.Frames
import Reactive.Proofs.Eval.Target
import Reactive.Proofs.Text.Words
import Reactive.Proofs.View.Classes
import Reactive.Proofs.Css.Purge
import Reactive.Proofs.Component.Classes
import Reactive.Proofs.Component.Synchrony
import Reactive.Proofs.Eval.Whole
import Reactive.Proofs.Block.Discreet
import Reactive.Proofs.Eval.Writing
import Reactive.Proofs.Eval.Touched
import Reactive.Proofs.Expr.Reported
import Reactive.Proofs.Template.Blame
import Reactive.Proofs.Cursor.Basic
import Reactive.Proofs.Cursor.Lexer
import Reactive.Proofs.Cursor.Lexing
import Reactive.Proofs.Cursor.Parser
import Reactive.Proofs.Cursor.Tape
import Reactive.Proofs.Cursor.Parsing
import Reactive.Proofs.Cursor.Place
import Reactive.Proofs.Cursor.NodeParser
import Reactive.Proofs.Cursor.NodeParsing
import Reactive.Proofs.Bits
import Reactive.Proofs.Template.EachHead
import Reactive.Proofs.Compile.Preimage
import Reactive.Proofs.Css.Keep
import Reactive.Proofs.Script.Groups
import Reactive.Proofs.Value.Orderly
import Reactive.Proofs.Value.Restored
import Reactive.Proofs.Value.Equality
import Reactive.Proofs.View.Lowering
import Reactive.Proofs.Css.Escape
