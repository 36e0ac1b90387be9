import Momo.Common.Checksum
import Momo.Common.KeyVersions
import Momo.Common.Placement
import Momo.Common.VirtualPath
import Momo.Crypto.ChunkSize
import Momo.Crypto.OPRF
import Momo.Crypto.PartialOutput
import Momo.Storage.AssemblyRoundTrip
import Momo.Storage.AuditLog
import Momo.Storage.CrashSafety
import Momo.Storage.LeakFreedom
import Momo.Storage.Tombstones
import Momo.Storage.VerifyingReader
import Momo.Storage.VersionIsolation
import Momo.Transport.Announce
import Momo.Transport.ChunkedDelivery
import Momo.Transport.Listing
import Momo.Transport.S3Authorize
import Momo.Transport.S3Completion
import Momo.Transport.S3Range
import Momo.Transport.SigV4Binding
import Momo.P2P.Frames
import Momo.P2P.LeaseRuns
import Momo.P2P.MetadataRPC
import Momo.P2P.RingLocks
import Momo.Server.AuthGate
import Momo.Server.ForwardRuns
import Momo.Server.PeerCache
import Momo.Server.PropagateDelete
import Momo.Server.QueryList
import Momo.Server.Rebuild
import Momo.Server.ReplicationMode
import Momo.Server.Rollback
import Momo.Server.UploadRuns
import Momo.Server.VersionReplication
import Momo.Client.Connect
import Momo.Momofs.RenameRuns
import Momo.Metrics.Controller
