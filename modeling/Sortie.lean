import Sortie.Compile.Basic
import Sortie.Mission.Edit
import Sortie.Proofs.Archive.Starts
import Sortie.Proofs.Command.Reading
import Sortie.Proofs.Command.Waylist
import Sortie.Proofs.Compile.Decisions
import Sortie.Proofs.Compile.Flown
import Sortie.Proofs.Compile.Interleaving
import Sortie.Proofs.Compile.Layout
import Sortie.Proofs.Compile.Renumbering
import Sortie.Proofs.Compile.Sparing
import Sortie.Proofs.Mission.Passing
import Sortie.Proofs.Plan.Faithful
import Sortie.Proofs.Run.Acknowledgment
import Sortie.Proofs.Run.Climbs
import Sortie.Proofs.Run.Contradictions
import Sortie.Proofs.Run.Copies
import Sortie.Proofs.Run.Deadlines
import Sortie.Proofs.Run.Deferrals
import Sortie.Proofs.Run.Deliveries
import Sortie.Proofs.Run.Durations
import Sortie.Proofs.Run.Failures
import Sortie.Proofs.Run.Grounded
import Sortie.Proofs.Run.Heading
import Sortie.Proofs.Run.Keeping
import Sortie.Proofs.Run.Resumptions
import Sortie.Proofs.Run.Revisions
import Sortie.Proofs.Run.Stopping
import Sortie.Proofs.Run.Tidying
import Sortie.Proofs.Run.UnforcedStops
import Sortie.Run.Service
