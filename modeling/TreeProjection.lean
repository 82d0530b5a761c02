import TreeProjection.Command.Folder
import TreeProjection.Command.Run
import TreeProjection.Host.Recording
import TreeProjection.Main
import TreeProjection.Proofs.Sample.Accepting
import TreeProjection.Query.Basic
import TreeProjection.Recognition.Script
import TreeProjection.Sample.Parse
import TreeProjection.Proofs.Layering
import TreeProjection.Proofs.CallingOff
import TreeProjection.Proofs.Limiting
import TreeProjection.Proofs.Balance
import TreeProjection.Proofs.Safety
import TreeProjection.Proofs.Sample.Terminating
import TreeProjection.Proofs.Sample.Mending
import TreeProjection.Proofs.Respacing
import TreeProjection.Proofs.Silence
import TreeProjection.Proofs.Predicting
import TreeProjection.Proofs.Anchoring
import TreeProjection.Proofs.Fetching
import TreeProjection.Proofs.Discarding
import TreeProjection.Proofs.Scheduling
import TreeProjection.Proofs.Counting
import TreeProjection.Proofs.Repeating
import TreeProjection.Proofs.Resyncing
import TreeProjection.Proofs.Unaware
import TreeProjection.Proofs.Retelling
import TreeProjection.Proofs.Labelling
import TreeProjection.Proofs.Keeping
import TreeProjection.Proofs.Enclosing
import TreeProjection.Proofs.Faltering
import TreeProjection.Proofs.Tracing
import TreeProjection.Proofs.Merging
import TreeProjection.Proofs.Grouping
import TreeProjection.Proofs.Collecting
import TreeProjection.Proofs.Printing
import TreeProjection.Proofs.Bounding
import TreeProjection.Proofs.Sample.Tiling
import TreeProjection.Proofs.Naming
import TreeProjection.Proofs.Widening
import TreeProjection.Proofs.Querying
import TreeProjection.Proofs.Listing
import TreeProjection.Proofs.Verbosity
import TreeProjection.Proofs.Passing
import TreeProjection.Proofs.Numbering
