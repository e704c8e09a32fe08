import Habitat.Command
import Habitat.Container.Access
import Habitat.Container.Edit
import Habitat.Container.Graph
import Habitat.Container.List
import Habitat.Container.Map
import Habitat.Container.Matrix
import Habitat.Decimal.Binary
import Habitat.Decimal.Format
import Habitat.Decimal.Reader
import Habitat.Decimal.Shortest
import Habitat.Decimal.Word
import Habitat.Description.Basic
import Habitat.Description.Decode
import Habitat.Description.Encode
import Habitat.Description.Normal
import Habitat.Error
import Habitat.Expr.Basic
import Habitat.Expr.Codec
import Habitat.Expr.Eval
import Habitat.Expr.Fold
import Habitat.Expr.Operators
import Habitat.Json.Basic
import Habitat.Json.Number
import Habitat.Json.Reader
import Habitat.Json.Schema
import Habitat.Json.Writer
import Habitat.Main
import Habitat.Model
import Habitat.Proofs.Expr.Errors
import Habitat.Proofs.Run.Balance
import Habitat.Proofs.Run.Discipline
import Habitat.Proofs.Run.Leaves
import Habitat.Proofs.Run.Relocation
import Habitat.Proofs.Run.Traversal
import Habitat.Proofs.World.Change
import Habitat.Run.Arguments
import Habitat.Run.Codec
import Habitat.Run.Delegate
import Habitat.Run.Dispatch
import Habitat.Run.Edit
import Habitat.Run.Exec
import Habitat.Run.Flow
import Habitat.Run.Inspect
import Habitat.Run.Loop
import Habitat.Run.Machine
import Habitat.Run.Outcome
import Habitat.Run.Reach
import Habitat.Run.Scope
import Habitat.Run.Statement
import Habitat.Session
import Habitat.Statement.Basic
import Habitat.Statement.Build
import Habitat.Store.Basic
import Habitat.Store.Cast
import Habitat.Store.Equality
import Habitat.Store.Heap
import Habitat.Store.OfJson
import Habitat.Store.Tree
import Habitat.Text.Blank
import Habitat.Text.Hidden
import Habitat.Text.Quoted
import Habitat.Value.Basic
import Habitat.Value.Kind
import Habitat.World.Basic
import Habitat.World.Population
import Habitat.World.Record
import Habitat.World.Species
import Habitat.Proofs.World.Membership
import Habitat.Proofs.World.Hierarchy
import Habitat.Proofs.Run.Hosting
import Habitat.Proofs.Run.Settling
import Habitat.Proofs.Run.Signal
import Habitat.Proofs.Run.Rescue
import Habitat.Proofs.Run.Turns
import Habitat.Proofs.Run.Containment
import Habitat.Proofs.Run.Objects
import Habitat.Proofs.Model.Code
import Habitat.Proofs.Model.Calls
import Habitat.Proofs.Store.Footprint
import Habitat.Proofs.Container.Footprint
import Habitat.Proofs.World.Footprint
import Habitat.Proofs.Run.Footprint
import Habitat.Proofs.Run.Estates
import Habitat.Proofs.Run.Replay
import Habitat.Proofs.Run.Mimicry
import Habitat.Proofs.Run.Computing
import Habitat.Proofs.Run.Repetition
import Habitat.Proofs.Run.Recurrence
import Habitat.Proofs.Run.Independence
import Habitat.Proofs.Run.Pool
import Habitat.Proofs.Expr.Codec
import Habitat.Proofs.Description.RoundTrip
import Habitat.Proofs.Store.Reach
import Habitat.Proofs.Store.Depth
import Habitat.Proofs.World.Defaults
import Habitat.Proofs.Run.Vigil
import Habitat.Proofs.Run.Death
import Habitat.Proofs.Expr.Folding
import Habitat.Proofs.Expr.Typing
import Habitat.Proofs.Run.Ranges
import Habitat.Proofs.Statement.Building
import Habitat.Proofs.Model.Resolution
import Habitat.Proofs.Store.Document
import Habitat.Proofs.Container.Failure
import Habitat.Proofs.Run.Edits
import Habitat.Proofs.Expr.Constants
import Habitat.Proofs.Run.Types
import Habitat.Proofs.Run.Counting
import Habitat.Proofs.World.Losses
import Habitat.Proofs.Run.Capture
import Habitat.Proofs.Store.Equality
import Habitat.Proofs.Container.ReadBack
import Habitat.Proofs.World.Births
import Habitat.Proofs.World.Ways
import Habitat.Proofs.Run.Creation
import Habitat.Proofs.Run.Facets
import Habitat.Proofs.Run.Newborns
import Habitat.Proofs.Run.Release
import Habitat.Proofs.Store.Keys
import Habitat.Proofs.Container.Maps
import Habitat.Proofs.Container.Graphs
import Habitat.Proofs.Container.Matrices
import Habitat.Proofs.Container.Removal
import Habitat.Proofs.Run.Completion
import Habitat.Proofs.Container.Contents
import Habitat.Proofs.Store.Separation
import Habitat.Proofs.Store.Made
import Habitat.Proofs.Model.Inheritance
import Habitat.Proofs.World.Census
import Habitat.Proofs.World.Forgetting
import Habitat.Proofs.Model.Snapshot
import Habitat.Proofs.Run.Holding
import Habitat.Proofs.Run.Indifference
import Habitat.Proofs.Run.Singleton
