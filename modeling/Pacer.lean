import Pacer.Cache.StoreConcurrent
import Pacer.Cache.StoreCrash
import Pacer.Cache.StoreResize
import Pacer.Daemon.ServedVersion
import Pacer.Daemon.Headers
import Pacer.Daemon.Fence
import Pacer.Daemon.MultipartCommit
import Pacer.Daemon.Invalidation
import Pacer.Daemon.Footprint
import Pacer.Transport.WriteCompletion
import Pacer.Transport.LandingRange
import Pacer.Cache.StoreRefusal
import Pacer.Cache.ChunkTier
import Pacer.Daemon.ReadThrough
import Pacer.Daemon.RequesterRange
import Pacer.Operator.Reconcile
import Pacer.Daemon.SingleFlight
import Pacer.Daemon.ScatterCluster
import Pacer.Daemon.DeliveryWindows
import Pacer.Daemon.ScatterDigest
import Pacer.Daemon.PartPlacement
import Pacer.Cluster.StaticPeers
import Pacer.Transport.FirstContactOutcome
import Pacer.Transport.FirstContactLadder
import Pacer.Cluster.Membership
import Pacer.Cache.AdmissionWindow
import Pacer.Cluster.DirectoryRuns
import Pacer.Daemon.StagingAccounts
import Pacer.Daemon.DeliveryQuota
import Pacer.Backend.Retry
import Pacer.Daemon.XmlEntities
import Pacer.Transport.Announce
