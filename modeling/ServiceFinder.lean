import ServiceFinder.Config.Reading
import ServiceFinder.Config.Source
import ServiceFinder.Config.Writing
import ServiceFinder.Json.Reading
import ServiceFinder.Json.Writing
import ServiceFinder.Logging.Filter
import ServiceFinder.Node.Assembly
import ServiceFinder.Node.Run
import ServiceFinder.Registry.Definitions
import ServiceFinder.Registry.Source
import ServiceFinder.Service.Reading
import ServiceFinder.Proofs.Keyed
import ServiceFinder.Proofs.Registry.Local
import ServiceFinder.Proofs.Health.ServerStats
import ServiceFinder.Proofs.Health.Tracker
import ServiceFinder.Proofs.Health.Monitor
import ServiceFinder.Proofs.Health.Permit
import ServiceFinder.Proofs.Health.Probe
import ServiceFinder.Proofs.Balance.Selection
import ServiceFinder.Proofs.Node.Views
import ServiceFinder.Proofs.Node.Move
import ServiceFinder.Proofs.Node.Course
import ServiceFinder.Proofs.Node.Calls
import ServiceFinder.Proofs.Node.Moments
import ServiceFinder.Proofs.Node.Line
import ServiceFinder.Proofs.Node.History
import ServiceFinder.Proofs.Node.Updates
import ServiceFinder.Proofs.Node.Protection
import ServiceFinder.Proofs.Node.Asking
import ServiceFinder.Proofs.Node.Forced
import ServiceFinder.Proofs.Node.Filing
import ServiceFinder.Proofs.Node.First
import ServiceFinder.Proofs.Node.Punctual
import ServiceFinder.Proofs.Node.Settling
import ServiceFinder.Proofs.Node.Lookups
import ServiceFinder.Proofs.Node.Choosing
import ServiceFinder.Proofs.Node.Probing
import ServiceFinder.Proofs.Node.Evicting
import ServiceFinder.Proofs.Node.Members
import ServiceFinder.Proofs.Node.SweepJournal
import ServiceFinder.Proofs.Node.SweepLine
import ServiceFinder.Proofs.Node.Passes
import ServiceFinder.Proofs.Node.SweepTurns
import ServiceFinder.Proofs.Node.Sweeps
import ServiceFinder.Proofs.Node.Vanishing
import ServiceFinder.Proofs.Node.Tidying
import ServiceFinder.Proofs.Balance.Choice
import ServiceFinder.Proofs.Balance.Rotation
import ServiceFinder.Proofs.Health.Times
import ServiceFinder.Proofs.Health.Standalone
import ServiceFinder.Proofs.Health.Counting
import ServiceFinder.Proofs.Node.Requests
import ServiceFinder.Proofs.Node.Selecting
import ServiceFinder.Proofs.Node.Recovering
import ServiceFinder.Proofs.Node.Pushing
import ServiceFinder.Proofs.Node.SafeMode
import ServiceFinder.Proofs.Node.Rotating
import ServiceFinder.Proofs.Node.Notices
import ServiceFinder.Proofs.Node.Audience
import ServiceFinder.Proofs.Node.Reckoning
import ServiceFinder.Proofs.Node.Telling
import ServiceFinder.Proofs.Node.Watching
import ServiceFinder.Proofs.Node.Alone
import ServiceFinder.Proofs.Node.Pruning
import ServiceFinder.Proofs.Node.LastKnown
import ServiceFinder.Proofs.Node.Mapping
import ServiceFinder.Proofs.Node.Dropping
import ServiceFinder.Proofs.Node.Metering
import ServiceFinder.Proofs.Node.Solo
import ServiceFinder.Proofs.Node.Shuffling
import ServiceFinder.Proofs.Node.Unison
import ServiceFinder.Proofs.Node.Phases
import ServiceFinder.Proofs.Node.Pointwise
import ServiceFinder.Proofs.Health.Windows
import ServiceFinder.Proofs.Health.Grants
import ServiceFinder.Proofs.Health.Judging
import ServiceFinder.Proofs.Balance.Spending
import ServiceFinder.Proofs.Node.Spending
import ServiceFinder.Proofs.Node.Fitting
import ServiceFinder.Proofs.Node.Answering
import ServiceFinder.Proofs.Node.Finishing
import ServiceFinder.Proofs.Node.Spreading
import ServiceFinder.Proofs.Registry.Shelves
import ServiceFinder.Proofs.Node.Pulling
import ServiceFinder.Proofs.Health.Rates
import ServiceFinder.Proofs.Balance.Rounds
