import DesAodv.Node

/-!
# Route requests, replies and errors

The message constructors and handlers of `aodv_pipeline.c`, with
`aodv_send_packets_from_buffer`. A handler reads the clock once. `meshsend`
lists what is handed to `dessert_meshsend`.
-/

namespace DesAodv

/-- What a mesh callback is given besides the message, and what the world answers it: the time, the state
of the link to the sender, the verdict of `aodv_gossip` where the gossip type is not `GOSSIP_NONE`, and
the count of the PDR tracker where it knows the sender. -/
structure RxEnv where
  lflags : LFlags
  iface : Meshif
  now : Timeval
  link : LinkSample
  gossip : Bool
  rcvdHellos : Option UInt8
  deriving DecidableEq, Repr

def dessertMsgNew : DessertMsg :=
  { ttl := 0, u8 := 0, u16 := 0, l2Shost := 0, l2Dhost := etherBroadcast, l25Shost := 0, l25Dhost := 0,
    exts := [], payload := [] }

namespace Node

/-! ## Constructors -/

/-- The originator sequence number is set when the message is sent. -/
def createRreq (n : Node) (dhostEther : MacAddr) (ttl : UInt8) (initialMetric : Metric) : DessertMsg :=
  let last := aodvDbRtGetDestinationSequenceNumber n.rt dhostEther
  { dessertMsgNew with
    ttl
    u16 := initialMetric
    l25Shost := n.l25Defsrc
    l25Dhost := dhostEther
    exts := [.rreq
      { flagU := last.isNone
        flagD := n.cfg.destOnly || aodvDbRtGetWarnStatus n.rt dhostEther
        destinationSequenceNumber := last.getD 0
        originatorSequenceNumber := 0 }] }

def createRrep (routeDest routeSource rrepNextHop : MacAddr) (destinationSequenceNumber : UInt32) (flags : UInt8)
    (hopCount : UInt8) (initialMetric : Metric) : DessertMsg :=
  { dessertMsgNew with
    ttl := ttlMax
    u8 := hopCount
    u16 := initialMetric
    l2Dhost := rrepNextHop
    l25Shost := routeDest
    l25Dhost := routeSource
    exts := [.rrep { flags, destinationSequenceNumber, lifetime := 0 }] }

/-! ## Originating route requests -/

/-- The ttl of the next ring. -/
def nextTtl (ringSearch : Bool) (ttl : UInt8) : UInt8 :=
  if ringSearch && decide (ttl ≤ ttlThreshold) then
    let ttl := ttl + ttlIncrement
    if ttl > ttlThreshold then ttlMax else ttl
  else ttl

/-- The originator sequence number written into the RREQ of a message. -/
def numberRreq (msg : DessertMsg) (seqNum : UInt32) : DessertMsg :=
  match msg.getRreq with
  | none => msg
  | some rreq => msg.setRreq { rreq with originatorSequenceNumber := seqNum }

def aodvSendRreqReal (n : Node) (ptr : Nat) (now : Timeval) : Node × List Sent :=
  match n.seriesDeref ptr with
  | none => (n.seriesFault, [])
  | some series =>
    let (rreqLog, rreqCount) := aodvDbRlGetrreqcount n.rreqLog now
    let n := { n with rreqLog }
    if rreqCount > rreqRatelimit then (n.aodvPipelineRescheduleSeries (hfTvAddMs now 20) ptr, [])
    else
      let seqNum := n.seqNumGlobal + 1
      let msg := numberRreq series.msg seqNum
      let n := { n with seqNumGlobal := seqNum, rreqLog := aodvDbRlPutrreq n.rreqLog now now }
      let n := n.seriesWrite ptr fun s => { s with msg }
      if series.retries ≥ rreqRetries then (n.aodvPipelineDeleteSeries ptr, [.mesh msg none])
      else
        let ringTraversalTime := 2 * nodeTraversalTime * min netDiameter msg.ttl.toNat
        let n := n.seriesWrite ptr fun s =>
          { s with retries := s.retries + 1, msg := { s.msg with ttl := nextTtl n.cfg.ringSearch s.msg.ttl } }
        (n.aodvPipelineRescheduleSeries (hfTvAddMs now ringTraversalTime) ptr, [.mesh msg none])

def aodvSendRreq (n : Node) (dhostEther : MacAddr) (now : Timeval) : Node × List Sent :=
  let ttl := if n.cfg.ringSearch then ttlStart else ttlMax
  let msg := n.createRreq dhostEther ttl n.cfg.metricStartvalue
  match n.aodvPipelineNewSeries msg with
  | (n, none) => (n, [])
  | (n, some ptr) => n.aodvSendRreqReal ptr now

def aodvSendRreqRepeat (n : Node) (ptr : Nat) (now : Timeval) : Node × List Sent := n.aodvSendRreqReal ptr now

/-! ## Buffered packets -/

/-- One turn of the loop that pops the packets for `etherDhost` and sends them. -/
def sendBuffered (etherDhost nextHop : MacAddr) (iface : Meshif) (acc : Node × List Sent) : Node × List Sent :=
  let n := acc.1
  match pbPopPacket n.pb etherDhost with
  | (pb, none) => ({ n with pb }, acc.2)
  | (pb, some msg) =>
    let seq := n.dataSeqGlobal + 1
    ({ n with pb, dataSeqGlobal := seq },
      acc.2 ++ [.mesh { msg with u16 := seq, l2Dhost := nextHop } (some iface)])

/-- The loop runs until the queue is empty: once for each packet in it. -/
def aodvSendPacketsFromBuffer (n : Node) (etherDhost nextHop : MacAddr) (iface : Meshif) : Node × List Sent :=
  let n := n.aodvPipelineDeleteSeriesEther etherDhost
  (n.pb.queue etherDhost).foldl (fun acc _ => sendBuffered etherDhost nextHop iface acc) (n, [])

/-! ## Handlers -/

def aodvDropErrors (n : Node) (env : RxEnv) (msg : DessertMsg) : Node × Verdict :=
  if env.lflags.l2Src then (n, .drop)
  else if env.lflags.l25Src then (n, .drop)
  else if msg.getRreq.isSome || msg.getRrep.isSome then
    let ((nt, st), neighbor) := dbNtCheck2Dneigh n.nt n.st msg.l2Shost env.iface env.now
    ({ n with nt, st }, if neighbor then .keep else .drop)
  else (n, .keep)

/-- The counts kept by the PDR tracker are not part of this state. -/
def aodvHandleHello (n : Node) (env : RxEnv) (msg : DessertMsg) : Node × List Sent × Verdict :=
  match msg.getHello with
  | none => (n, [], .keep)
  | some hello =>
    let msg : DessertMsg := { msg with ttl := msg.ttl - 1 }
    if msg.ttl ≥ 1 then
      let hello :=
        { hello with
          helloRcvdCount := env.rcvdHellos.getD hello.helloRcvdCount
          helloInterval := n.cfg.helloInterval }
      (n, [.mesh { msg.setHello hello with l2Dhost := msg.l2Shost } (some env.iface)], .drop)
    else if env.iface.hwaddr = msg.l2Dhost then
      let (nt, st) := dbNtCap2Dneigh n.cfg n.nt n.st msg.l2Shost msg.u16 env.iface env.now env.now
      ({ n with nt, st }, [], .drop)
    else (n, [], .drop)

/-- The received message after the hop has been counted: what RREQ and RREP handlers start with. -/
def countHop (n : Node) (env : RxEnv) (msg : DessertMsg) : DessertMsg :=
  { msg with
    ttl := if msg.ttl ≠ 0 then msg.ttl - 1 else msg.ttl
    u8 := msg.u8 + 1
    u16 := aodvMetricDo n.cfg.metricType env.link msg.u16 }

/-- The answer of the destination itself. -/
def rrepForMe (n : Node) (env : RxEnv) (msg : DessertMsg) (rreq : AodvMsgRreq) (result : CaptRreqResult) :
    Node × List Sent :=
  let seq := if result = .metricHit then n.seqNumGlobal + 1 else n.seqNumGlobal
  let seq :=
    if !rreq.flagU && decide (hfCompU32 rreq.destinationSequenceNumber seq > 0) then
      rreq.destinationSequenceNumber
    else seq
  let rrepMsg := createRrep n.l25Defsrc msg.l25Shost msg.l2Shost seq 0 0 n.cfg.metricStartvalue
  ({ n with seqNumGlobal := seq }, [.mesh rrepMsg (some env.iface)])

/-- The sequence number to answer a RREQ with, if it is to be answered here: the D flag is not set, the
next hop is known and the RREQ does not ask for a newer number. -/
def localRepair (rt : Rt) (rreq : AodvMsgRreq) (host : MacAddr) : Option UInt32 :=
  match aodvDbRtGetDestinationSequenceNumber rt host with
  | none => none
  | some ourDestSeqNum =>
    if rreq.flagD then none
    else if !rreq.flagU && decide (hfCompU32 rreq.destinationSequenceNumber ourDestSeqNum > 0) then none
    else some ourDestSeqNum

/-- The answer of a node on the way, or the rebroadcast. -/
def rrepOrRebroadcast (n : Node) (env : RxEnv) (msg : DessertMsg) (rreq : AodvMsgRreq) : List Sent :=
  match localRepair n.rt rreq msg.l25Dhost with
  | some ourDestSeqNum =>
    [.mesh (createRrep msg.l25Dhost msg.l25Shost msg.l2Shost ourDestSeqNum 0
      (aodvDbRtGetHopcount n.rt msg.l25Dhost) (aodvDbRtGetMetric n.rt msg.l25Dhost)) (some env.iface)]
  | none =>
    if n.cfg.gossipType = .gossipNone then
      if msg.ttl = 0 then [] else [.mesh msg none]
    else if env.gossip then [.mesh msg none] else []

/-- Process RREQ also as RREP. -/
def rreqAsRrep (n : Node) (env : RxEnv) (msg : DessertMsg) : Node × List Sent :=
  let (n, updatedRoute) := n.captRrep msg.l25Shost msg.l2Shost env.iface 0 msg.u16 msg.u8 env.now env.now
  if updatedRoute then n.aodvSendPacketsFromBuffer msg.l25Shost msg.l2Shost env.iface else (n, [])

/-- The second half of `aodv_handle_rreq`: the RREQ is not old. -/
def acceptRreq (n : Node) (env : RxEnv) (msg : DessertMsg) (rreq : AodvMsgRreq) (result : CaptRreqResult) :
    Node × List Sent :=
  let (n, buffered) := n.rreqAsRrep env msg
  if env.lflags.l25Dst then
    let (n, answer) := n.rrepForMe env msg rreq result
    (n, buffered ++ answer)
  else (n, buffered ++ n.rrepOrRebroadcast env msg rreq)

def aodvHandleRreq (n : Node) (env : RxEnv) (msg : DessertMsg) : Node × List Sent × Verdict :=
  match msg.getRreq with
  | none => (n, [], .keep)
  | some rreq =>
    let msg := n.countHop env msg
    let (n, captResult) := n.captRreq msg.l25Dhost msg.l25Shost msg.l2Shost env.iface
      rreq.originatorSequenceNumber msg.u16 msg.u8 env.now env.now
    if captResult = .old then (n, [], .drop)
    else
      let (n, sent) := n.acceptRreq env msg rreq captResult
      (n, sent, .drop)

/-- One interface address of a RERR, compared with the next hop towards a listed destination. -/
def rerrIface (dest : AodvMacSeq) (nextHop : MacAddr) (acc : Rt × Bool) (addr : MacAddr) : Rt × Bool :=
  if addr = nextHop then
    let (rt, invRoute) := aodvDbRtMarkrouteinv acc.1 dest.host dest.sequenceNumber
    (rt, acc.2 || invRoute)
  else acc

/-- One destination record of a RERR. Addresses beyond the array are not read from the message. -/
def rerrRecord (rerr : AodvMsgRerr) (acc : Rt × Bool) (dest : AodvMacSeq) : Rt × Bool :=
  match aodvDbRtGetnexthop acc.1 dest.host with
  | none => acc
  | some nextHop =>
    let beyond := decide (rerr.ifaces.length < rerr.ifaceAddrCount.toNat)
    (rerr.ifaces.take rerr.ifaceAddrCount.toNat).foldl (rerrIface dest nextHop)
      ({ acc.1 with fault := acc.1.fault || beyond }, acc.2)

/-- The own interface addresses, as many as fit. -/
def ownIfaces (n : Node) : List MacAddr := (n.meshiflist.take maxMeshIfacesCount).map Meshif.hwaddr

def aodvHandleRerr (n : Node) (_env : RxEnv) (msg : DessertMsg) : Node × List Sent × Verdict :=
  match msg.getRerr with
  | none => (n, [], .keep)
  | some rerr =>
    let (rt, rebroadcastRerr) := msg.records.foldl (rerrRecord rerr) (n.rt, false)
    let n := { n with rt }
    if rebroadcastRerr then
      let rerr := { rerr with
        ifaceAddrCount := UInt8.ofNat n.ownIfaces.length
        ifaces := n.ownIfaces ++ rerr.ifaces.drop n.ownIfaces.length }
      (n, [.mesh (msg.setRerr rerr) none], .drop)
    else (n, [], .drop)

def aodvHandleRrep (n : Node) (env : RxEnv) (msg : DessertMsg) : Node × List Sent × Verdict :=
  match msg.getRrep with
  | none => (n, [], .keep)
  | some rrep =>
    if !env.lflags.l2Dst then (n, [], .drop)
    else
      let msg := n.countHop env msg
      let (n, rrepUsed) := n.captRrep msg.l25Shost msg.l2Shost env.iface rrep.destinationSequenceNumber
        msg.u16 msg.u8 env.now env.now
      if !rrepUsed then (n, [], .drop)
      else if env.lflags.l25Dst then
        let (n, sent) := n.aodvSendPacketsFromBuffer msg.l25Shost msg.l2Shost env.iface
        (n, sent, .drop)
      else
        -- forward RREP to RREQ originator
        match n.getroute2dest msg.l25Dhost env.now env.now aodvFlagsUnused with
        | (n, none) => (n, [], .drop)
        | (n, some (nextHop, outputIface)) => (n, [.mesh { msg with l2Dhost := nextHop } outputIface], .drop)

end Node

end DesAodv
