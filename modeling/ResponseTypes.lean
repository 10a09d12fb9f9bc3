import ResponseTypes.Main
import ResponseTypes.Options.Validate
import ResponseTypes.Program.Filter
import ResponseTypes.Proofs.Build.Transparent
import ResponseTypes.Proofs.Plan.Growth
import ResponseTypes.Proofs.Plan.Effect
import ResponseTypes.Proofs.Build.Linked
import ResponseTypes.Proofs.Build.Purging
import ResponseTypes.Proofs.Plan.Agreeing
import ResponseTypes.Proofs.Build.Files
import ResponseTypes.Proofs.Build.Keeping
import ResponseTypes.Proofs.Build.History
import ResponseTypes.Proofs.Build.Closed
import ResponseTypes.Proofs.Build.Uses
import ResponseTypes.Proofs.Build.Permuted
import ResponseTypes.Proofs.Branch.Tags
import ResponseTypes.Proofs.Exact.Compiled
import ResponseTypes.Proofs.Exact.Composed
import ResponseTypes.Proofs.Exact.Finished
import ResponseTypes.Proofs.Exact.Compiling
import ResponseTypes.Proofs.Build.Sealed
import ResponseTypes.Proofs.Build.Removal
import ResponseTypes.Proofs.Build.Ending
import ResponseTypes.Proofs.Exact.Partition
import ResponseTypes.Proofs.Build.Registering
import ResponseTypes.Proofs.Build.Naming
import ResponseTypes.Proofs.Shape.Paths
import ResponseTypes.Proofs.Shape.Commuting
import ResponseTypes.Proofs.Build.Finalized
import ResponseTypes.Proofs.Shape.Elements
import ResponseTypes.Proofs.Shape.Described
import ResponseTypes.Proofs.Tracker.Recorded
import ResponseTypes.Proofs.Tracker.Untracked
import ResponseTypes.Proofs.Plan.Leaving
import ResponseTypes.Proofs.Branch.Tagged
import ResponseTypes.Proofs.Branch.Demanded
import ResponseTypes.Proofs.Output.Arrays
import ResponseTypes.Proofs.Output.Templates
import ResponseTypes.Proofs.Output.Comments
import ResponseTypes.Proofs.Text.Identifiers
import ResponseTypes.Proofs.Text.ShortNames
import ResponseTypes.Proofs.Build.Once
import ResponseTypes.Proofs.Build.Exported
