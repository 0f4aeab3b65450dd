import CompileWatch.Build.Once
import CompileWatch.FrontEnd.LineChecker
import CompileWatch.Proofs.Build.Agreement
import CompileWatch.Proofs.Build.EntryFiles
import CompileWatch.Proofs.Build.Rebuilt
import CompileWatch.Proofs.Config.Misspelt
import CompileWatch.Proofs.Config.RoundTrip
import CompileWatch.Proofs.Host.Canonical
import CompileWatch.Proofs.Module.Fallback
import CompileWatch.Proofs.Sources.Exact
import CompileWatch.Proofs.Shell.Commands
import CompileWatch.Proofs.Sources.OnePath
import CompileWatch.Proofs.Staging.Spellings
import CompileWatch.Proofs.Storage.Directories
import CompileWatch.Proofs.Storage.AllOrNothing
import CompileWatch.Proofs.Storage.Listing
import CompileWatch.Proofs.Storage.Switched
import CompileWatch.Proofs.Watch.Deadlines
import CompileWatch.Proofs.Watch.EditsKept
import CompileWatch.Proofs.Watch.EventLines
import CompileWatch.Proofs.Watch.FailedWrites
import CompileWatch.Proofs.Watch.Feedback
import CompileWatch.Proofs.Watch.Increments
import CompileWatch.Proofs.Watch.Independence
import CompileWatch.Proofs.Watch.Records
import CompileWatch.Proofs.Watch.Recovery
import CompileWatch.Proofs.Watch.Stopping
import CompileWatch.Staging
import CompileWatch.Storage.Rehearsed
import CompileWatch.Storage.Remote
import CompileWatch.Storage.Volume
import CompileWatch.Watch.Background
