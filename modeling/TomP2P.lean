import TomP2P.Theory.Prepared
import TomP2P.Theory.Expiry
import TomP2P.Theory.DomainProtection
import TomP2P.Theory.PutAnswer
import TomP2P.Theory.AddressHash
import TomP2P.Theory.LivePeers
import TomP2P.Theory.LockedAccess
import TomP2P.Theory.Deadlock
import TomP2P.Theory.Broadcast
import TomP2P.Theory.Handover
import TomP2P.Theory.RelayBuffer
import TomP2P.Theory.Voting
import TomP2P.Theory.Notification
import TomP2P.Theory.ForkArray
import TomP2P.Theory.RoundTripTime
import TomP2P.Theory.Reservation
import TomP2P.Theory.Pruning
import TomP2P.Theory.SignatureConversion
import TomP2P.Theory.TrackerStorage
import TomP2P.Theory.DistributedTracker
import TomP2P.Theory.SyncDecision
import TomP2P.Theory.SyncAnswer
import TomP2P.Theory.ReplicaSelection
import TomP2P.Theory.FailureBound
import TomP2P.Theory.RandomSearch
import TomP2P.Theory.QueueMerge
import TomP2P.Theory.PeerMapFilter
import TomP2P.Theory.TimeMeasurement
import TomP2P.Theory.CheckInterval
import TomP2P.Theory.Maintenance
import TomP2P.Theory.Futures
import TomP2P.Theory.LeastRecentlyUsed
import TomP2P.Theory.RoutingQueue
import TomP2P.Theory.Subnet
import TomP2P.Theory.DiskExpiry
import TomP2P.Theory.FilteredGet
import TomP2P.Theory.DigestRange
import TomP2P.Theory.AddToList
import TomP2P.Theory.RemoveCalls
import TomP2P.Theory.MasterKey
import TomP2P.Theory.TrackerLifetime
import TomP2P.Theory.TrackerDigest
import TomP2P.Theory.TrackerDeparture
import TomP2P.Theory.TrackerAnswer
import TomP2P.Theory.AutoReplication
import TomP2P.Theory.DataEquality
import TomP2P.Theory.RollingChecksum
import TomP2P.Theory.NeighborCut
import TomP2P.Theory.CountingBloomFilter
import TomP2P.Theory.NumberConversions
import TomP2P.Theory.MessageStream
import TomP2P.Theory.VerifiedDatagrams
