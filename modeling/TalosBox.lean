import TalosBox.RouterIsolation
import TalosBox.ProvisionDrain
import TalosBox.UpRequest
import TalosBox.MirrorOutage
import TalosBox.SpeakerStop
import TalosBox.PrunePreview
import TalosBox.BalloonFairness
import TalosBox.StartRollback
import TalosBox.BalloonHolds
import TalosBox.Preemptions
import TalosBox.BalloonCoverage
import TalosBox.WarmProgress
import TalosBox.PassWaiters
import TalosBox.NodeDisks
import TalosBox.ReplicaGate
import TalosBox.HelperSpeakers
import TalosBox.HelperDhcp
import TalosBox.HelperDescriptors
import TalosBox.ConsoleReplay
import TalosBox.QemuSuspend
import TalosBox.QmpClient
import TalosBox.QemuClose
import TalosBox.HelperSync
import TalosBox.DnsOwners
import TalosBox.KeyedMutex
import TalosBox.UpstreamRequest
import TalosBox.MirrorHandlers
import TalosBox.MirrorCacheKeys
import TalosBox.WarmExits
import TalosBox.ReadinessLog
import TalosBox.RebootLog
import TalosBox.RouteSelection
import TalosBox.ResolverFiles
import TalosBox.ClusterReservations
import TalosBox.DnsReconciler
