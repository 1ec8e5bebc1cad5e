import Stoker.PackBuilder.Joins
import Stoker.PackBuilder.SplitBack
import Stoker.Packs.Sandbox
import Stoker.Packs.Pinned
import Stoker.Packs.Mirrored
import Stoker.Packs.Resynced
import Stoker.Accounts.LastAdmin
import Stoker.Lifecycle.BackfillRate
import Stoker.Lifecycle.Backpressure
import Stoker.Lifecycle.CountedOnce
import Stoker.Lifecycle.LostFleet
import Stoker.Lifecycle.NoEvents
import Stoker.Lifecycle.OneT0
import Stoker.Lifecycle.Pauses
import Stoker.Lifecycle.Sweep
import Stoker.Lifecycle.TargetCap
import Stoker.Lifecycle.WholeRate
import Stoker.Worker.Dealt
import Stoker.Worker.Exclusion
import Stoker.Worker.HecAccounting
import Stoker.Worker.Holds
import Stoker.Worker.Paused
import Stoker.Worker.Resend
import Stoker.Lifecycle.PinnedFleet
import Stoker.Configuration.Restored
import Stoker.Configuration.Reimport
import Stoker.Configuration.Source
import Stoker.Configuration.Fingerprints
import Stoker.Lifecycle.LeaseTable
import Stoker.Worker.Batches
import Stoker.Server.Advice
import Stoker.Worker.Sharded
import Stoker.Server.Maintained
import Stoker.Worker.Cadence
import Stoker.Worker.Measured
import Stoker.Worker.SocketReader
import Stoker.Worker.Rescaled
import Stoker.Worker.Bearer
import Stoker.PackBuilder.ResidualTrie
import Stoker.Packs.OneRow
