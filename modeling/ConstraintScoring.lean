import ConstraintScoring.Config.Read
import ConstraintScoring.Formula.Program
import ConstraintScoring.Planning.MeetingConstraints
import ConstraintScoring.Planning.RosterConstraints
import ConstraintScoring.Proofs.Score.RoundTrip
import ConstraintScoring.Proofs.Score.Rounding
import ConstraintScoring.Proofs.Session.Attribution
import ConstraintScoring.Proofs.Session.Emptied
import ConstraintScoring.Proofs.Session.Freezing
import ConstraintScoring.Proofs.Session.OnePass
import ConstraintScoring.Proofs.Session.Ownership
import ConstraintScoring.Proofs.Session.Sharing
import ConstraintScoring.Proofs.Session.Sources
import ConstraintScoring.Proofs.Stream.Declarations
import ConstraintScoring.Proofs.Node.Life
import ConstraintScoring.Proofs.Node.Pairing
import ConstraintScoring.Proofs.Node.Existence
import ConstraintScoring.Proofs.Node.Grouping
import ConstraintScoring.Proofs.Node.Provenance
import ConstraintScoring.Proofs.Collector.Remaining
import ConstraintScoring.Proofs.Stream.Joining
import ConstraintScoring.Proofs.Session.UniquePairs
import ConstraintScoring.Proofs.Session.Stopping
import ConstraintScoring.Proofs.Score.Reading
import ConstraintScoring.Proofs.Node.Impact
import ConstraintScoring.Proofs.Stream.Overlap
import ConstraintScoring.Proofs.Analysis.Indictment
