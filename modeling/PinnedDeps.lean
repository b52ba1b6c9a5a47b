import PinnedDeps.Library.Build
import PinnedDeps.Library
import PinnedDeps.Main
import PinnedDeps.Proofs.Library.Failing
import PinnedDeps.Proofs.Source.CrashSafety
import PinnedDeps.Proofs.Action.Recording
import PinnedDeps.Proofs.Cmake.Arguments
import PinnedDeps.Proofs.Library.Prefix
import PinnedDeps.Proofs.Archive.Confined
import PinnedDeps.Proofs.Source.Crowding
import PinnedDeps.Proofs.Archive.Occupied
import PinnedDeps.Proofs.Source.Wedging
import PinnedDeps.Proofs.Library.Gating
import PinnedDeps.Proofs.Library.HostPhase
import PinnedDeps.Proofs.Source.Verified
import PinnedDeps.Proofs.Source.Commuting
import PinnedDeps.Proofs.Library.Neighbours
import PinnedDeps.Proofs.Library.Exporting
import PinnedDeps.Proofs.Cmake.Reading
import PinnedDeps.Proofs.Library.TargetPhase
import PinnedDeps.Proofs.Library.Replacing
import PinnedDeps.Proofs.Library.Seen
import PinnedDeps.Proofs.Library.Configured
import PinnedDeps.Proofs.Toolchain.Pinning
import PinnedDeps.Proofs.Cmake.Editing
import PinnedDeps.Proofs.Source.Clearing
import PinnedDeps.Proofs.Document
import PinnedDeps.Proofs.CommandLine.Output
import PinnedDeps.Proofs.CommandLine.Reading
import PinnedDeps.Proofs.CommandLine.Exported
import PinnedDeps.Proofs.CommandLine.Agreement
import PinnedDeps.Proofs.Environ.History
import PinnedDeps.Proofs.Library.HostTools
import PinnedDeps.Proofs.Duration
