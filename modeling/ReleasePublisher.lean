import ReleasePublisher.Main
import ReleasePublisher.Proofs.FileSystem.Faces
import ReleasePublisher.Proofs.FileSystem.Trails
import ReleasePublisher.Proofs.FileSystem.Places
import ReleasePublisher.Proofs.FileSystem.Entries
import ReleasePublisher.Proofs.FileSystem.Effects
import ReleasePublisher.Proofs.Publication.Course
import ReleasePublisher.Proofs.Lock.Acquisition
import ReleasePublisher.Proofs.Publication.Calls
import ReleasePublisher.Proofs.Publication.Configuration
import ReleasePublisher.Proofs.Publication.Restoration
import ReleasePublisher.Proofs.Publication.Exclusion
import ReleasePublisher.Proofs.Publication.ExitStatus
import ReleasePublisher.Proofs.Lock.MutualExclusion
import ReleasePublisher.Proofs.Lock.Takeover
import ReleasePublisher.Proofs.Lock.Tenure
import ReleasePublisher.Proofs.Publication.Visitors
import ReleasePublisher.Proofs.Publication.Indifference
import ReleasePublisher.Proofs.Context.Dockerfile
import ReleasePublisher.Proofs.Context.Indifference
import ReleasePublisher.Proofs.Credentials.Lookup
import ReleasePublisher.Proofs.Credentials.Separation
import ReleasePublisher.Proofs.Publication.BaseContext
import ReleasePublisher.Proofs.Time.Calendar
import ReleasePublisher.Proofs.Time.Offsets
import ReleasePublisher.Proofs.CommandLine.Course
import ReleasePublisher.Proofs.CommandLine.ExitStatus
import ReleasePublisher.Proofs.Lock.Canonical
import ReleasePublisher.Proofs.CommandLine.Setup
import ReleasePublisher.Proofs.CommandLine.DryRun
import ReleasePublisher.Proofs.Plan.References
import ReleasePublisher.Proofs.Profile.Nesting
import ReleasePublisher.Proofs.Lock.Decision
import ReleasePublisher.Proofs.Lock.RoundTrip
import ReleasePublisher.Proofs.Credentials.StoredText
import ReleasePublisher.Proofs.Daemon.BuildOutcome
import ReleasePublisher.Proofs.Daemon.PushOutcome
import ReleasePublisher.Proofs.Daemon.Verdicts
import ReleasePublisher.Proofs.CommandLine.Preflight
import ReleasePublisher.Proofs.ProjectRoot
import ReleasePublisher.Proofs.CommandLine.Arrangement
