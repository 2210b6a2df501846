import ForkJoin.Failure.Made
import ForkJoin.Main
import ForkJoin.Proofs.Demo.Programs
import ForkJoin.Proofs.Equal.Identity
import ForkJoin.Proofs.Flat.Compaction
import ForkJoin.Proofs.Flat.Refinement
import ForkJoin.Proofs.Run.Confluence
import ForkJoin.Proofs.Run.Deadlock
import ForkJoin.Proofs.Run.Slot
import ForkJoin.Proofs.Run.Transparent
import ForkJoin.Proofs.Serial
import ForkJoin.Proofs.Session.Isolation
import ForkJoin.Proofs.Session.Quiet
import ForkJoin.Proofs.TailLets.Run
import ForkJoin.Proofs.Run.Sequel
import ForkJoin.Proofs.Arity
import ForkJoin.Proofs.Session.Called
import ForkJoin.Proofs.Coincidence
import ForkJoin.Proofs.Exhaustion
import ForkJoin.Proofs.Run.Curtailed
import ForkJoin.Proofs.Session.Progress
import ForkJoin.Proofs.Demo.CommandLine
import ForkJoin.Proofs.Conditional
import ForkJoin.Proofs.Run.Bounded
import ForkJoin.Proofs.Run.Attribution
import ForkJoin.Proofs.Primitive.Run
import ForkJoin.Proofs.Flat.Chain
import ForkJoin.Proofs.Arguments
import ForkJoin.Proofs.Display.Unambiguous
