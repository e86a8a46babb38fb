import DesAodv.Keyed
import DesAodv.Runs
import DesAodv.Chain
import DesAodv.Helper
import DesAodv.Message
import DesAodv.Timeslot
import DesAodv.RoutingTable
import DesAodv.RtSpec
import DesAodv.RtOps
import DesAodv.NextHopIndex
import DesAodv.ScheduleTable
import DesAodv.NeighborTable
import DesAodv.Logs
import DesAodv.Node
import DesAodv.Pipeline
import DesAodv.Daemon
import DesAodv.NodeSteps
import DesAodv.ReverseRoute
import DesAodv.DuplicateSuppression
import DesAodv.Freshness
import DesAodv.RerrMessages
import DesAodv.LostNeighbor
import DesAodv.RerrReception
import DesAodv.IndexAccess
import DesAodv.Sending
import DesAodv.LocalRepair
import DesAodv.RerrTruth
import DesAodv.Traffic
import DesAodv.BestCapture
import DesAodv.CaptureSteps
import DesAodv.Network
import DesAodv.LoopFreedom
import DesAodv.RerrProgress
import DesAodv.Frames
import DesAodv.PacketQueues
import DesAodv.Waiting
import DesAodv.DataOnce
import DesAodv.HopBound
import DesAodv.Bytes
import DesAodv.RerrWire
import DesAodv.RateLimit
import DesAodv.SeriesLife
import DesAodv.SeriesOwnership
import DesAodv.SeriesRuns
import DesAodv.SeriesLeaks
import DesAodv.SeriesMessages
import DesAodv.Numbers
import DesAodv.Authority
import DesAodv.LinkedList
import DesAodv.Deadlines
import DesAodv.TimedTable
import DesAodv.TimeslotLinks
import DesAodv.TimeslotMap
import DesAodv.ScheduleLinks
import DesAodv.ScheduleQueue
import DesAodv.RrepChoice
import DesAodv.RerrExact
import DesAodv.RerrAccess
import DesAodv.GossipQueue
import DesAodv.NeighborLiveness
import DesAodv.SinglyLinked
import DesAodv.FifoLinks
import DesAodv.PacketFifo
import DesAodv.PdrTracker
import DesAodv.HelloCount
import DesAodv.FirstContact
import DesAodv.BoundedSums
import DesAodv.PathMetric
import DesAodv.TrackerSettings
import DesAodv.LinkRates
import DesAodv.RouteLifetime
import DesAodv.LinkLoss
import DesAodv.TextBuffer
import DesAodv.Reports
import DesAodv.CircularOrder
import DesAodv.SequenceNumbers
import DesAodv.TimeslotShape
import DesAodv.RateLogs
import DesAodv.HoldQueueTask
import DesAodv.RouteKeeping
import DesAodv.HeardNeighbors
import DesAodv.DaemonTables
import DesAodv.Discovery
import DesAodv.Rounds
import DesAodv.PacketDelivery
import DesAodv.LockPrograms
import DesAodv.Locks
import DesAodv.Numerals
import DesAodv.Commands
import DesAodv.WholeDaemon
import DesAodv.DaemonSettings
import DesAodv.DaemonSurvival
import DesAodv.RouteSources
import DesAodv.DaemonRoutes
import DesAodv.Cascades
import DesAodv.FrameKinds
import DesAodv.Rest
import DesAodv.Overheard
import DesAodv.Originated
import DesAodv.Responses
import DesAodv.TwoWayLinks
import DesAodv.Ways
import DesAodv.DaemonParts
import DesAodv.PacketNumbers
import DesAodv.PacketOrigin
import DesAodv.RerrRate
import DesAodv.RerrTravel
