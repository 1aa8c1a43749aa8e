import Netsy.Bootstrap.Completeness
import Netsy.Bootstrap.DerivedCompaction
import Netsy.Bootstrap.Seed
import Netsy.ClientAPI.KeySafety
import Netsy.ClientAPI.StreamedReads
import Netsy.ClientAPI.TxnAnswer
import Netsy.CommonAPI.RangeResult
import Netsy.Datafile.Damage
import Netsy.Datafile.PublicReaders
import Netsy.Elector.ClearPrimary
import Netsy.Elector.ClusterPush
import Netsy.Elector.Deregistration
import Netsy.Elector.PreviousPrimary
import Netsy.Elector.Winner
import Netsy.Node.ElectorGuard
import Netsy.Node.PeerIdentity
import Netsy.Node.Reigns
import Netsy.Node.RevisionCounter
import Netsy.Node.RoleServices
import Netsy.Node.SelfDegrade
import Netsy.Primary.CommittedFiles
import Netsy.Primary.CompactionRollback
import Netsy.Primary.Drain
import Netsy.Primary.FlushRuns
import Netsy.Primary.FollowChannels
import Netsy.Primary.Reupload
import Netsy.Primary.Takeover
import Netsy.Primary.TxnMeaning
import Netsy.Replication.Convergence
import Netsy.Replication.InitialSync
import Netsy.Replication.PrefixAgreement
import Netsy.Replication.QuorumFallback
import Netsy.Snapshot.Cleanup
import Netsy.Watch.InboxSafety
import Netsy.Watch.Progress
import Netsy.Watch.StartRevision
