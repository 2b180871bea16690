import Cartridge.CString
import Cartridge.Code.Construct
import Cartridge.Code.Emission
import Cartridge.Code.Name
import Cartridge.Code.Page
import Cartridge.Code.Section
import Cartridge.Code.SourceMap
import Cartridge.Cutscene.Emit
import Cartridge.Cutscene.Fade
import Cartridge.Cutscene.Timeline
import Cartridge.Diagnostic
import Cartridge.Error
import Cartridge.Expr.Basic
import Cartridge.Expr.Fold
import Cartridge.Expr.Json
import Cartridge.Expr.Substitute
import Cartridge.Expr.Text
import Cartridge.Game.Basic
import Cartridge.Game.Declaration
import Cartridge.Game.Entity
import Cartridge.Game.Globals
import Cartridge.Game.Instance
import Cartridge.Game.Slots
import Cartridge.Game.Variable
import Cartridge.Json.Basic
import Cartridge.Json.Decode
import Cartridge.Json.Printer
import Cartridge.Json.Reader
import Cartridge.Json.Token
import Cartridge.Json.Value
import Cartridge.Location
import Cartridge.LogicBlock
import Cartridge.Lower.Expr
import Cartridge.Lower.Stmt
import Cartridge.Machine.Basic
import Cartridge.Machine.Emit
import Cartridge.Nav.Emit
import Cartridge.Nav.Grid
import Cartridge.Nav.Search
import Cartridge.Number.Binary
import Cartridge.Number.Domain
import Cartridge.Number.Fixed
import Cartridge.Number.Shortest
import Cartridge.Physics.Body
import Cartridge.Physics.Emit
import Cartridge.Physics.Simulation
import Cartridge.Physics.World
import Cartridge.Program.Check
import Cartridge.Program.Content
import Cartridge.Program.Generator
import Cartridge.Program.Options
import Cartridge.Program.Part
import Cartridge.Program.Preamble
import Cartridge.Proofs.Code.Defined
import Cartridge.Proofs.Code.Emission
import Cartridge.Proofs.Code.Laid
import Cartridge.Proofs.Code.Name
import Cartridge.Proofs.Code.Row
import Cartridge.Proofs.Code.Standing
import Cartridge.Proofs.Code.Visit
import Cartridge.Proofs.Cutscene.Playback
import Cartridge.Proofs.Cutscene.Schedule
import Cartridge.Proofs.Cutscene.Timeline
import Cartridge.Proofs.Expr.Every
import Cartridge.Proofs.Expr.Grammar
import Cartridge.Proofs.Expr.Inverse
import Cartridge.Proofs.Expr.Json
import Cartridge.Proofs.Expr.Reading
import Cartridge.Proofs.Expr.Regroup
import Cartridge.Proofs.Expr.Scan
import Cartridge.Proofs.Expr.Substitute
import Cartridge.Proofs.Expr.Token
import Cartridge.Proofs.Expr.Value
import Cartridge.Proofs.Fold.Compute
import Cartridge.Proofs.Fold.Ending
import Cartridge.Proofs.Fold.Every
import Cartridge.Proofs.Fold.Exact
import Cartridge.Proofs.Fold.Meaning
import Cartridge.Proofs.Fold.Modular
import Cartridge.Proofs.Fold.Normal
import Cartridge.Proofs.Fold.Quotient
import Cartridge.Proofs.Fold.Rule
import Cartridge.Proofs.Fold.Run
import Cartridge.Proofs.Fold.Step
import Cartridge.Proofs.Fold.Truth
import Cartridge.Proofs.Game.Erase
import Cartridge.Proofs.Game.Instance
import Cartridge.Proofs.Game.Json
import Cartridge.Proofs.Game.Tag
import Cartridge.Proofs.Game.Valid
import Cartridge.Proofs.Json.Reading
import Cartridge.Proofs.Json.Record
import Cartridge.Proofs.Json.Scan
import Cartridge.Proofs.Json.Value
import Cartridge.Proofs.Lower.Condition
import Cartridge.Proofs.Lower.Constant
import Cartridge.Proofs.Lower.Erase
import Cartridge.Proofs.Lower.Line
import Cartridge.Proofs.Lower.Quiet
import Cartridge.Proofs.Lower.Range
import Cartridge.Proofs.Lower.Resolve
import Cartridge.Proofs.Lower.Stmt
import Cartridge.Proofs.Lower.Subscript
import Cartridge.Proofs.Lower.Visit
import Cartridge.Proofs.Machine.Transition
import Cartridge.Proofs.Nav.Budget
import Cartridge.Proofs.Nav.Built
import Cartridge.Proofs.Nav.Change
import Cartridge.Proofs.Nav.Drawing
import Cartridge.Proofs.Nav.Moment
import Cartridge.Proofs.Nav.Optimal
import Cartridge.Proofs.Nav.Path
import Cartridge.Proofs.Nav.Place
import Cartridge.Proofs.Nav.Reachable
import Cartridge.Proofs.Nav.Tables
import Cartridge.Proofs.Nav.Unreachable
import Cartridge.Proofs.Nav.Walk
import Cartridge.Proofs.Number.Bits
import Cartridge.Proofs.Number.Digits
import Cartridge.Proofs.Number.Wrap
import Cartridge.Proofs.Physics.Checked
import Cartridge.Proofs.Physics.Contest
import Cartridge.Proofs.Physics.Damping
import Cartridge.Proofs.Physics.Exchange
import Cartridge.Proofs.Physics.Falling
import Cartridge.Proofs.Physics.Frame
import Cartridge.Proofs.Physics.Friction
import Cartridge.Proofs.Physics.Hits
import Cartridge.Proofs.Physics.Meeting
import Cartridge.Proofs.Physics.Obstacle
import Cartridge.Proofs.Physics.Play
import Cartridge.Proofs.Physics.Run
import Cartridge.Proofs.Physics.Safety
import Cartridge.Proofs.Physics.Separation
import Cartridge.Proofs.Physics.ZoneSearch
import Cartridge.Proofs.Program.Answer
import Cartridge.Proofs.Program.ByteRange
import Cartridge.Proofs.Program.Clean
import Cartridge.Proofs.Program.Closed
import Cartridge.Proofs.Program.Comment
import Cartridge.Proofs.Program.Definition
import Cartridge.Proofs.Program.Fault
import Cartridge.Proofs.Program.FunctionName
import Cartridge.Proofs.Program.Inert
import Cartridge.Proofs.Program.Line
import Cartridge.Proofs.Program.Location
import Cartridge.Proofs.Program.Mapped
import Cartridge.Proofs.Program.Naming
import Cartridge.Proofs.Program.Prototype
import Cartridge.Proofs.Program.Strict
import Cartridge.Proofs.Recorder.Chain
import Cartridge.Proofs.Recorder.Discipline
import Cartridge.Proofs.Recorder.Local
import Cartridge.Proofs.Recorder.Meaning
import Cartridge.Proofs.Save.Build
import Cartridge.Proofs.Save.Bytes
import Cartridge.Proofs.Save.Corruption
import Cartridge.Proofs.Save.Layout
import Cartridge.Proofs.Save.Overrun
import Cartridge.Proofs.Save.Rebuild
import Cartridge.Proofs.Save.Remainder
import Cartridge.Proofs.Save.Store
import Cartridge.Proofs.Stmt.Json
import Cartridge.Proofs.Stmt.Step
import Cartridge.Proofs.Stmt.Substitute
import Cartridge.Proofs.Stmt.Walk
import Cartridge.Proofs.Text.Comment
import Cartridge.Proofs.Text.Literal
import Cartridge.Proofs.Text.Unbroken
import Cartridge.Recorder.Basic
import Cartridge.Recorder.Json
import Cartridge.Recorder.Script
import Cartridge.Save.Checksum
import Cartridge.Save.Emit
import Cartridge.Save.Image
import Cartridge.Save.Schema
import Cartridge.Scene.Basic
import Cartridge.Scene.Emit
import Cartridge.Sha256
import Cartridge.Stmt.Basic
import Cartridge.Stmt.Json
import Cartridge.Stmt.Summary
import Cartridge.Text.Lines
