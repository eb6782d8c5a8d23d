import LiveBinding.Binding.Accessor
import LiveBinding.Binding.Basic
import LiveBinding.Binding.Compile
import LiveBinding.Binding.Operator
import LiveBinding.Command
import LiveBinding.Configuration.Basic
import LiveBinding.Configuration.Build
import LiveBinding.Configuration.Error
import LiveBinding.Configuration.Reading
import LiveBinding.Configuration.Validate
import LiveBinding.Configuration.Written
import LiveBinding.Declaration.Basic
import LiveBinding.Declaration.Fault
import LiveBinding.Declaration.Reading
import LiveBinding.Declaration.Token
import LiveBinding.Dependency
import LiveBinding.Document.Basic
import LiveBinding.Document.Content
import LiveBinding.Document.Fixture
import LiveBinding.Document.Markup
import LiveBinding.Document.Selector
import LiveBinding.Error
import LiveBinding.Fields
import LiveBinding.Hub
import LiveBinding.Inspect
import LiveBinding.Journal.Message
import LiveBinding.Json.Basic
import LiveBinding.Json.Reading
import LiveBinding.Json.Text
import LiveBinding.Main
import LiveBinding.Model.Basic
import LiveBinding.Model.Cycle
import LiveBinding.Model.Reading
import LiveBinding.Model.Store
import LiveBinding.Number.Basic
import LiveBinding.Number.Double
import LiveBinding.Number.Nearest
import LiveBinding.Number.Reading
import LiveBinding.Number.Shortest
import LiveBinding.Proofs.AllOrNothing
import LiveBinding.Proofs.AnyOrder
import LiveBinding.Proofs.Binding.Compile
import LiveBinding.Proofs.Binding.Meaning
import LiveBinding.Proofs.Coherence
import LiveBinding.Proofs.Configuration.Plan
import LiveBinding.Proofs.Configuration.Template
import LiveBinding.Proofs.Declaration.Grammar
import LiveBinding.Proofs.Document.Bare
import LiveBinding.Proofs.Fields
import LiveBinding.Proofs.Follower.Basic
import LiveBinding.Proofs.Follower.Dispatch
import LiveBinding.Proofs.Follower.Property
import LiveBinding.Proofs.Follower.Refresh
import LiveBinding.Proofs.Follower.Sound
import LiveBinding.Proofs.Follower.Write
import LiveBinding.Proofs.Model.Adopt
import LiveBinding.Proofs.Model.Basic
import LiveBinding.Proofs.Model.Cycle
import LiveBinding.Proofs.Model.Planned
import LiveBinding.Proofs.Model.Reading
import LiveBinding.Proofs.Model.Store
import LiveBinding.Proofs.Run.Apart
import LiveBinding.Proofs.Run.Attach
import LiveBinding.Proofs.Run.Build
import LiveBinding.Proofs.Run.Compute
import LiveBinding.Proofs.Run.Follows
import LiveBinding.Proofs.Run.Journal
import LiveBinding.Proofs.Run.Result
import LiveBinding.Proofs.Run.Script
import LiveBinding.Proofs.Run.Settle
import LiveBinding.Proofs.World.Apart
import LiveBinding.Proofs.World.Fit
import LiveBinding.Proofs.World.Put
import LiveBinding.Proofs.World.Registered
import LiveBinding.Proofs.World.Sound
import LiveBinding.Proofs.World.Unbind
import LiveBinding.Ref
import LiveBinding.Run.Attach
import LiveBinding.Run.Basic
import LiveBinding.Run.Bind
import LiveBinding.Run.Compute
import LiveBinding.Run.Dispatch
import LiveBinding.Run.Program
import LiveBinding.Run.Script
import LiveBinding.Run.Write
import LiveBinding.Template
import LiveBinding.Text.Blank
import LiveBinding.Text.Printable
import LiveBinding.View
import LiveBinding.World
import LiveBinding.Yaml.Cursor
import LiveBinding.Yaml.Layout
import LiveBinding.Yaml.Node
import LiveBinding.Yaml.Scalar
import LiveBinding.Yaml.Token
import LiveBinding.Yaml.Value
import LiveBinding.Proofs.Rejection
import LiveBinding.Proofs.Agreement
import LiveBinding.Proofs.Run.Cascade
import LiveBinding.Proofs.Propagation
import LiveBinding.Proofs.Document.Face
import LiveBinding.Proofs.Binding.Outline
import LiveBinding.Proofs.Follower.Slot
import LiveBinding.Proofs.Run.Install
import LiveBinding.Proofs.Ownership
import LiveBinding.Proofs.Page
import LiveBinding.Proofs.Accord
import LiveBinding.Proofs.Delivery
import LiveBinding.Proofs.Model.Data
import LiveBinding.Proofs.Model.Origin
import LiveBinding.Proofs.Run.News
import LiveBinding.Proofs.Run.Told
import LiveBinding.Proofs.Binding.Reading
import LiveBinding.Proofs.Reapplication
import LiveBinding.Proofs.Run.Telling
import LiveBinding.Proofs.Announcement
import LiveBinding.Proofs.Editing
import LiveBinding.Proofs.CycleSearch
import LiveBinding.Proofs.Declaration.Viable
import LiveBinding.Proofs.Declaration.Cut
import LiveBinding.Proofs.Declaration.Offsets
import LiveBinding.Proofs.Routing
import LiveBinding.Proofs.Document.Query
import LiveBinding.Proofs.Notification
import LiveBinding.Proofs.Run.Evaluation
import LiveBinding.Proofs.Run.Course
import LiveBinding.Proofs.World.Bound
import LiveBinding.Proofs.Run.Since
import LiveBinding.Proofs.Run.Passage
import LiveBinding.Proofs.Recomputation
import LiveBinding.Proofs.Document.Inside
import LiveBinding.Proofs.Configuration.Spelling
import LiveBinding.Proofs.Document.Mount
import LiveBinding.Proofs.Run.Aside
import LiveBinding.Proofs.Run.Stretch
import LiveBinding.Proofs.Follower.Reading
import LiveBinding.Proofs.Run.Renewals
import LiveBinding.Proofs.Residue
import LiveBinding.Proofs.Configuration.Report
import LiveBinding.Proofs.Document.Moves
import LiveBinding.Proofs.Declaration.Literal
import LiveBinding.Proofs.Model.Collector
