import LiveGraph.Main
import LiveGraph.Proofs.Breakpoint.Concurrency
import LiveGraph.Proofs.Breakpoint.Reading
import LiveGraph.Proofs.Breakpoint.Roster
import LiveGraph.Proofs.Command.Toggling
import LiveGraph.Proofs.Sheet.LastValues
import LiveGraph.Proofs.Focus.Intact
import LiveGraph.Proofs.Focus.Following
import LiveGraph.Proofs.Focus.Stepping
import LiveGraph.Proofs.Graph.Roll
import LiveGraph.Proofs.Graph.Walks
import LiveGraph.Proofs.Index.Listing
import LiveGraph.Proofs.Lifecycle.Mirror
import LiveGraph.Proofs.Lock.Interleaving
import LiveGraph.Proofs.Network.GlitchFree
import LiveGraph.Proofs.Packed.Canonical
import LiveGraph.Proofs.Pattern.Blame
import LiveGraph.Proofs.Pattern.Canonical
import LiveGraph.Proofs.Pattern.Longest
import LiveGraph.Proofs.Pattern.Resolving
import LiveGraph.Proofs.Query.Clauses
import LiveGraph.Proofs.Reactive.Passes
import LiveGraph.Proofs.Reactive.Recording
import LiveGraph.Proofs.Snapshot.File
import LiveGraph.Proofs.Snapshot.Restoring
import LiveGraph.Proofs.Store.Integrity
import LiveGraph.Proofs.Store.Update
import LiveGraph.Proofs.Task.Guarding
import LiveGraph.Proofs.Task.Loading
import LiveGraph.Proofs.View.Replaying
