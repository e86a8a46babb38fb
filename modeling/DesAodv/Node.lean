import DesAodv.RoutingTable
import DesAodv.NeighborTable
import DesAodv.Logs

/-!
# The daemon

The global state of one daemon, the database functions on it, the RREQ series of
`aodv_pipeline.c` and the path metric of `aodv_metric.c`.
-/

namespace DesAodv

/-- A running series of RREQs. -/
structure RreqSeries where
  ptr : Nat
  msg : DessertMsg
  retries : Nat
  key : MacAddr
  stop : Bool
  deriving DecidableEq, Repr

/-- The allocated series, and `series_list`. -/
structure SeriesTable where
  heap : List RreqSeries
  seriesList : List Nat
  fresh : Nat
  fault : Bool
  deriving DecidableEq, Repr

/-- The settings and addresses of a daemon and its tables. `hung` is set when a periodic task does not
return any more. -/
structure Node where
  cfg : Config
  l25Defsrc : MacAddr
  meshiflist : List Meshif
  seqNumGlobal : UInt32
  dataSeqGlobal : UInt16
  seqNumHello : UInt16
  rt : Rt
  nt : NeighborTable
  st : List Schedule
  rreqLog : RateLog
  rerrLog : RateLog
  ds : DataSeq
  pb : PacketBuffer
  series : SeriesTable
  hung : Bool
  deriving DecidableEq, Repr

def seriesInit : SeriesTable := { heap := [], seriesList := [], fresh := 0, fault := false }

/-- The daemon after `aodv_db_init`. -/
def aodvDbInit (cfg : Config) (l25Defsrc : MacAddr) (meshiflist : List Meshif) : Node :=
  { cfg, l25Defsrc, meshiflist
    seqNumGlobal := 0
    dataSeqGlobal := 0
    seqNumHello := 0
    rt := aodvDbRtInit
    nt := dbNtInit cfg.helloInterval
    st := []
    rreqLog := rateLogInit
    rerrLog := rateLogInit
    ds := dbDsInit
    pb := pbInit
    series := seriesInit
    hung := false }

/-! ## The path metric -/

/-- What the radio and the PDR tracker know about the link to the last hop: the average RSSI, and the
values of `aodv_db_pdr_get_*` where they succeed. -/
structure LinkSample where
  avgRssi : Int8
  etxAdd : Option Metric
  etxMul : Option Metric
  pdr : Option Metric
  deriving DecidableEq, Repr

def aodvMetricDo (metricType : AodvMetric) (link : LinkSample) (metric : Metric) : Metric :=
  match metricType with
  | .hopCount => metric + 1
  | .rssi => metric + (hfRssi2interval link.avgRssi).toUInt16
  | .etxAdd =>
    let linkEtxAdd := link.etxAdd.getD aodvMaxMetric
    if aodvMaxMetric - linkEtxAdd > metric then metric + linkEtxAdd else aodvMaxMetric
  | .etxMul =>
    match link.etxMul with
    | some linkEtxMul => UInt16.ofNat (metric.toNat * linkEtxMul.toNat / (aodvMaxMetric.toNat / 32))
    | none => 0
  | .pdr =>
    match link.pdr with
    | some linkPdr => UInt16.ofNat (metric.toNat * linkPdr.toNat / aodvMaxMetric.toNat)
    | none => 0
  | .rfc => metric

namespace Node

/-! ## Database functions on several tables -/

def captRreq (n : Node) (destinationHost originatorHost prevHop : MacAddr) (iface : Meshif)
    (originatorSequenceNumber : UInt32) (metric : Metric) (hopCount : UInt8) (timestamp currTime : Timeval) :
    Node × CaptRreqResult :=
  let (rt, result) := aodvDbRtCaptRreq n.cfg.metricType n.rt destinationHost originatorHost prevHop iface
    originatorSequenceNumber metric hopCount timestamp currTime
  ({ n with rt }, result)

/-- `aodv_db_capt_rrep`. The neighbor table is independent of the routing table, so its update stands
before the rest. -/
def captRrep (n : Node) (destinationHost destinationHostNextHop : MacAddr) (outputIface : Meshif)
    (destinationSequenceNumber : UInt32) (metric : Metric) (hopCount : UInt8) (timestamp currTime : Timeval) :
    Node × Bool :=
  let nt :=
    if n.cfg.signalStrengthThreshold > 0 then dbNtResetRssi n.nt destinationHostNextHop outputIface else n.nt
  let (rt, used) := rtCaptRrep n.rt destinationHost destinationHostNextHop outputIface
    destinationSequenceNumber metric hopCount timestamp currTime
  ({ n with nt, rt }, used)

def getroute2dest (n : Node) (dhostEther : MacAddr) (timestamp currTime : Timeval) (flags : RtFlags) :
    Node × Option (MacAddr × Option Meshif) :=
  let (rt, route) := aodvDbRtGetroute2dest n.rt dhostEther timestamp currTime flags
  ({ n with rt }, route)

/-- The verdict of `aodv_db_getroute2dest`. -/
def routeTo (n : Node) (dhostEther : MacAddr) : Option (MacAddr × Option Meshif) :=
  (n.getroute2dest dhostEther 0 0 aodvFlagsUnused).2

def aodvDbCleanup (n : Node) (timestamp : Timeval) : Node :=
  let (nt, st) := dbNtCleanup n.nt n.st timestamp
  { n with
    nt, st
    ds := dbDsCleanup n.ds timestamp
    rt := aodvDbRtCleanup n.rt timestamp
    pb := pbCleanup n.pb timestamp }

def neighborReset (n : Node) : Node :=
  let (nt, st) := aodvDbNtNeighborReset n.nt n.st n.cfg.helloInterval
  { n with nt, st }

def routingReset (n : Node) : Node := { n with rt := (aodvDbRtRoutingReset n.rt).1 }

/-! ## RREQ series -/

/-- Following a pointer to a series; `none` after the series has been freed. -/
def seriesDeref (n : Node) (ptr : Nat) : Option RreqSeries := Keyed.lookup RreqSeries.ptr ptr n.series.heap

def seriesWrite (n : Node) (ptr : Nat) (f : RreqSeries → RreqSeries) : Node :=
  { n with series := { n.series with heap := Keyed.modify RreqSeries.ptr ptr f n.series.heap } }

def seriesFree (n : Node) (ptr : Nat) : Node :=
  { n with series := { n.series with heap := Keyed.erase RreqSeries.ptr ptr n.series.heap } }

def seriesFault (n : Node) : Node := { n with series := { n.series with fault := true } }

def findSeriesUnlocked (n : Node) (addr : MacAddr) : Option Nat :=
  n.series.seriesList.find? fun ptr => (n.seriesDeref ptr).any fun s => decide (s.key = addr)

def aodvPipelineNewSeries (n : Node) (msg : DessertMsg) : Node × Option Nat :=
  match n.findSeriesUnlocked msg.l25Dhost with
  | some _ => (n, none)
  | none =>
    let series : RreqSeries :=
      { ptr := n.series.fresh, msg, retries := 0, key := msg.l25Dhost, stop := false }
    ({ n with series := { n.series with
        heap := n.series.heap ++ [series]
        seriesList := n.series.seriesList ++ [series.ptr]
        fresh := n.series.fresh + 1 } }, some series.ptr)

def aodvPipelineDeleteSeries (n : Node) (ptr : Nat) : Node :=
  match n.seriesDeref ptr with
  | none => n.seriesFault
  | some series =>
    if series.stop then n
    else
      let n := { n with series := { n.series with seriesList := n.series.seriesList.erase ptr } }
      let n := n.seriesWrite ptr fun s => { s with stop := true }
      let (st, dropped) := aodvDbScDropschedule n.st series.msg.l25Dhost .repeatRreq
      let n := { n with st }
      if dropped then n.seriesFree ptr else n

def aodvPipelineDeleteSeriesEther (n : Node) (addr : MacAddr) : Node :=
  match n.findSeriesUnlocked addr with
  | none => n
  | some ptr => n.aodvPipelineDeleteSeries ptr

def aodvPipelineRescheduleSeries (n : Node) (when : Timeval) (ptr : Nat) : Node :=
  match n.seriesDeref ptr with
  | none => n.seriesFault
  | some series =>
    if series.stop then n.seriesFree ptr
    else { n with st := aodvDbScAddschedule n.st when series.msg.l25Dhost .repeatRreq (.series ptr) }

end Node

end DesAodv
