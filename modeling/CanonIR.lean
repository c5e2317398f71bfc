import CanonIR.Binding.Action
import CanonIR.Binding.Blocks
import CanonIR.Binding.Classify
import CanonIR.Binding.Contexts
import CanonIR.Binding.Gate
import CanonIR.Binding.Object
import CanonIR.Binding.Operation
import CanonIR.Binding.Registry
import CanonIR.Binding.Request
import CanonIR.Binding.Values
import CanonIR.Binding.World
import CanonIR.Cache.Script
import CanonIR.Cache.Weak
import CanonIR.Classification
import CanonIR.Drift
import CanonIR.Handle
import CanonIR.Kind.ConstExpr
import CanonIR.Kind.Forest
import CanonIR.Kind.Opcode
import CanonIR.Kind.Predicate
import CanonIR.Kind.Probe
import CanonIR.Kind.Type
import CanonIR.Kind.Value
import CanonIR.Kind.View
import CanonIR.Log.Event
import CanonIR.Log.Filter
import CanonIR.Memory.Graph
import CanonIR.Memory.Library
import CanonIR.Native.Call
import CanonIR.Native.Recorder
import CanonIR.Native.System
import CanonIR.Options
import CanonIR.Proofs.Binding.Classify
import CanonIR.Proofs.Binding.Gate
import CanonIR.Proofs.Binding.Operation
import CanonIR.Proofs.Binding.Place
import CanonIR.Proofs.Cache.Unswept
import CanonIR.Proofs.Cache.Weak
import CanonIR.Proofs.Freshness.Current
import CanonIR.Proofs.Freshness.Deletion
import CanonIR.Proofs.Freshness.Usage
import CanonIR.Proofs.Identity.Canonical
import CanonIR.Proofs.Identity.Interleaving
import CanonIR.Proofs.Identity.Navigation
import CanonIR.Proofs.Identity.Ownership
import CanonIR.Proofs.Identity.Primitive
import CanonIR.Proofs.Identity.Sound
import CanonIR.Proofs.Memory.Change
import CanonIR.Proofs.Memory.Deletion
import CanonIR.Proofs.Memory.Kind
import CanonIR.Proofs.Memory.WellFormed
import CanonIR.Proofs.Moves
import CanonIR.Proofs.Table
import CanonIR.Proofs.Taxonomy.Position
import CanonIR.Proofs.Taxonomy.Settled
import CanonIR.Session.Answer
import CanonIR.Session.Library
import CanonIR.Session.Run
import CanonIR.Session.State
import CanonIR.Session.Step
import CanonIR.Session.Wrapper
import CanonIR.Slots
import CanonIR.Table
import CanonIR.Text.Blank
import CanonIR.Text.Hex
import CanonIR.Proofs.Identity.Frame
import CanonIR.Proofs.Lifetime.Binding
import CanonIR.Proofs.Lifetime.Registry
import CanonIR.Proofs.Identity.Failure
import CanonIR.Proofs.Lifetime.Disposal
import CanonIR.Proofs.Memory.Growth
import CanonIR.Proofs.Shapes.Shaped
import CanonIR.Proofs.Shapes.Conversions
import CanonIR.Proofs.Shapes.InStep
import CanonIR.Proofs.Memory.Placed
import CanonIR.Proofs.Memory.Consistent
import CanonIR.Proofs.Deletion.Footprint
import CanonIR.Proofs.Deletion.Exact
import CanonIR.Proofs.Deletion.Afterwards
import CanonIR.Proofs.Policy.Under
import CanonIR.Proofs.Policy.Follow
import CanonIR.Proofs.Policy.Answer
import CanonIR.Proofs.Policy.Lockstep
import CanonIR.Proofs.Flow.Plan
import CanonIR.Proofs.Flow.Grounded
import CanonIR.Proofs.Flow.Yields
import CanonIR.Proofs.Flow.Walk
import CanonIR.Proofs.Flow.Inverse
import CanonIR.Proofs.Binding.Discipline
import CanonIR.Proofs.Walks.Instructions
import CanonIR.Proofs.Walks.Moving
import CanonIR.Proofs.Walks.Layout
import CanonIR.Proofs.Walks.Inserting
import CanonIR.Proofs.Walks.Straying
import CanonIR.Proofs.Walks.Severed
import CanonIR.Proofs.Taxonomy.Search
import CanonIR.Proofs.Cache.Sweeping
import CanonIR.Proofs.Cache.Chronicle
import CanonIR.Proofs.Types.Retained
import CanonIR.Proofs.Types.Integers
