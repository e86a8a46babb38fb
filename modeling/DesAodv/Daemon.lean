import DesAodv.Pipeline

/-!
# Forwarding, periodic tasks and the events of a daemon

`aodv_forward.c` and `aodv_periodic.c`, and the callbacks in the order in which
`main` registers them. `Node.step` is one event in the life of a daemon.
-/

namespace DesAodv

/-! ## Route error messages -/

section
variable (L : Libdessert)

/-- The length of the destination list, counted by `aodv_create_rerr` up to its limit. -/
def countDestlist (dlLen : Nat) : List AodvMacSeq → Nat
  | [] => dlLen
  | _ :: countIter => if dlLen ≤ L.maxMacSeqPerExt then countDestlist (dlLen + 1) countIter else dlLen

/-- The loop that moves the destination list into the message. Every turn that goes on takes an element
off the list, so as many turns as the list is long suffice. -/
def addRerrdls : Nat → DessertMsg → List AodvMacSeq → DessertMsg × List AodvMacSeq
  | 0, msg, destlist => (msg, destlist)
  | turns + 1, msg, destlist =>
    if destlist = [] then (msg, destlist)
    else
      let dlLen := countDestlist L 0 destlist
      match L.addRerrdl msg (destlist.take dlLen) with
      | none => (msg, destlist)
      | some msg => addRerrdls turns msg (destlist.drop dlLen)

namespace Node

/-- The message of `aodv_create_rerr` before any destination is added. -/
def rerrHeader (n : Node) : DessertMsg :=
  { dessertMsgNew with
    ttl := ttlMax
    l25Shost := n.l25Defsrc
    l25Dhost := etherBroadcast
    exts := [.rerr
      { flagN := true
        ifaceAddrCount := UInt8.ofNat n.meshiflist.length
        ifaces := n.meshiflist.map Meshif.hwaddr }] }

/-- The RERR, if there is anything to report, and what is left of the destination list. -/
def aodvCreateRerr (n : Node) (destlist : List AodvMacSeq) : Option (DessertMsg × List AodvMacSeq) :=
  if destlist = [] then none
  else some (addRerrdls L destlist.length n.rerrHeader destlist)

/-- The loop of the `AODV_SC_SEND_OUT_RERR` schedule, cut off after a number of turns: the RERRs sent, and
whether the loop has ended. -/
def sendRerrs (n : Node) : Nat → List AodvMacSeq → List DessertMsg × Bool
  | 0, _ => ([], false)
  | turns + 1, destlist =>
    match n.aodvCreateRerr L destlist with
    | none => ([], true)
    | some (rerrMsg, destlist) =>
      let (rest, ended) := n.sendRerrs turns destlist
      (rerrMsg :: rest, ended)

/-! ## Forwarding -/

def aodvForwardBroadcast (n : Node) (env : RxEnv) (msg : DessertMsg) : Node × List Sent × Verdict :=
  if env.lflags.l25Broadcast then
    if msg.ttl ≤ 0 then (n, [], .drop)
    else
      let msg : DessertMsg := { msg with ttl := msg.ttl - 1, u8 := msg.u8 + 1 }
      let (ds, accepted) := aodvDbDsCaptDataSeq n.ds msg.l25Shost msg.u16 env.now env.now
      let n := { n with ds }
      if !accepted then (n, [], .drop) else (n, [.mesh msg none, .sys msg], .drop)
  else (n, [], .keep)

def aodvForwardMulticast (n : Node) (env : RxEnv) (_msg : DessertMsg) : Node × List Sent × Verdict :=
  (n, [], if env.lflags.l25Multicast then .drop else .keep)

/-- The route to the destination is unknown: send a RERR, unless too many were sent. -/
def rerrUnroutable (n : Node) (env : RxEnv) (dhost : MacAddr) : Node × List Sent :=
  let (rerrLog, rerrCount) := aodvDbRlGetrerrcount n.rerrLog env.now
  let n := { n with rerrLog }
  if rerrCount ≥ rerrRatelimit then (n, [])
  else
    match n.aodvCreateRerr L [{ host := dhost, sequenceNumber := uint32Max }] with
    | none => (n, [])
    | some (rerrMsg, _) =>
      ({ n with rerrLog := aodvDbRlPutrerr n.rerrLog env.now env.now }, [.mesh rerrMsg none])

def aodvForward (n : Node) (env : RxEnv) (msg : DessertMsg) : Node × List Sent × Verdict :=
  if !env.lflags.l2Dst || env.lflags.l25Dst then (n, [], .keep)
  else if msg.ttl ≤ 0 then (n, [], .drop)
  else
    let msg : DessertMsg := { msg with ttl := msg.ttl - 1, u8 := msg.u8 + 1 }
    let (ds, accepted) := aodvDbDsCaptDataSeq n.ds msg.l25Shost msg.u16 env.now env.now
    let n := { n with ds }
    if !accepted then (n, [], .drop)
    else
      match n.getroute2dest msg.l25Dhost env.now env.now aodvFlagsUnused with
      | (n, some (nextHop, outputIface)) => (n, [.mesh { msg with l2Dhost := nextHop } outputIface], .drop)
      | (n, none) =>
        let (n, sent) := n.rerrUnroutable L env msg.l25Dhost
        (n, sent, .drop)

def aodvLocalUnicast (n : Node) (env : RxEnv) (msg : DessertMsg) : Node × List Sent × Verdict :=
  if env.lflags.l25Dst then
    if msg.ttl ≤ 0 then (n, [], .drop)
    else
      let msg : DessertMsg := { msg with ttl := msg.ttl - 1, u8 := msg.u8 + 1 }
      let (ds, accepted) := aodvDbDsCaptDataSeq n.ds msg.l25Shost msg.u16 env.now env.now
      let n := { n with ds }
      if !accepted then (n, [], .drop) else (n, [.sys msg], .drop)
  else (n, [], .drop)

/-- A packet from the system, as libdessert encapsulates it. -/
def sysMsg (l25Shost l25Dhost : MacAddr) (payload : List UInt8) : DessertMsg :=
  { dessertMsgNew with l25Shost, l25Dhost, payload }

/-- `aodv_sys_drop_multicast` and `aodv_sys2rp`. -/
def aodvSys2rp (n : Node) (msg : DessertMsg) (now : Timeval) : Node × List Sent :=
  let msg : DessertMsg := { msg with ttl := 255, u8 := 0 }
  if msg.l25Dhost = etherBroadcast then
    let seq := n.dataSeqGlobal + 1
    ({ n with dataSeqGlobal := seq }, [.mesh { msg with u16 := seq } none])
  else if msg.l25Dhost.getLsbD 40 then (n, [])
  else
    match n.getroute2dest msg.l25Dhost now now aodvFlagsRouteLocalUsed with
    | (n, some (nextHop, outputIface)) =>
      let seq := n.dataSeqGlobal + 1
      ({ n with dataSeqGlobal := seq }, [.mesh { msg with u16 := seq, l2Dhost := nextHop } outputIface])
    | (n, none) =>
      { n with pb := pbPushPacket n.pb msg.l25Dhost msg now now }.aodvSendRreq msg.l25Dhost now

/-! ## Periodic tasks -/

def aodvPeriodicSendHello (n : Node) : Node × List Sent :=
  let msg := { dessertMsgNew with
    ttl := 2
    u16 := n.seqNumHello
    exts := [.hello { helloRcvdCount := 0, helloInterval := n.cfg.helloInterval }] }
  ({ n with seqNumHello := n.seqNumHello + 1 }, [.mesh msg none])

/-- `aodv_send_rreq` for each destination of a list. -/
def sendRreqs (n : Node) (hosts : List MacAddr) (now : Timeval) : Node × List Sent :=
  hosts.foldl (fun acc host =>
    let (n, sent) := acc.1.aodvSendRreq host now
    (n, acc.2 ++ sent)) (n, [])

def aodvPeriodicSendRreq (n : Node) (now : Timeval) : Node × List Sent :=
  n.sendRreqs (aodvDbRtGetActiveRoutes n.rt) now

/-- The branch for `AODV_SC_SEND_OUT_RERR`: the schedule has been popped. -/
def scSendOutRerr (n : Node) (etherAddr : MacAddr) (now : Timeval) : Node × List Sent :=
  let (rerrLog, rerrCount) := aodvDbRlGetrerrcount n.rerrLog now
  let n := { n with rerrLog }
  if rerrCount ≥ rerrRatelimit then (n, [])
  else
    let (rt, found) := aodvDbRtInvOverNexthop n.rt etherAddr
    let n := { n with rt }
    if !found then (n, [])
    else
      let (rt, destlist) := aodvDbRtGetDestlist n.rt etherAddr
      let n := { n with rt }
      match destlist with
      | none => (n, [])
      | some destlist =>
        let (rerrs, ended) := n.sendRerrs L (destlist.length + 1) destlist
        let rerrLog := rerrs.foldl (fun log _ => aodvDbRlPutrerr log now now) n.rerrLog
        ({ n with rerrLog, hung := !ended }, rerrs.map fun rerrMsg => .mesh rerrMsg none)

/-- `avgRssi` is what the driver reports for the neighbor of an `AODV_SC_UPDATE_RSSI` schedule. -/
def aodvPeriodicScexecute (n : Node) (now : Timeval) (avgRssi : Int8) : Node × List Sent :=
  match aodvDbScPopschedule n.st now with
  | none => (n, [])
  | some (sc, st) =>
    let n := { n with st }
    match sc.scheduleId with
    | .repeatRreq =>
      match sc.scheduleParam with
      | .series ptr => n.aodvSendRreqRepeat ptr now
      | _ => (n.seriesFault, [])
    | .sendOutRerr => n.scSendOutRerr L sc.etherAddr now
    | .sendOutRwarn =>
      let (rt, head) := aodvDbRtGetWarnEndpointsFromNeighborAndSetWarn n.rt sc.etherAddr
      { n with rt }.sendRreqs (head.map AodvMacSeq.host) now
    | .updateRssi =>
      match sc.scheduleParam with
      | .iface iface =>
        let (nt, diff) := dbNtUpdateRssi n.nt sc.etherAddr iface avgRssi
        let n := { n with nt }
        if diff > n.cfg.signalStrengthThreshold then
          ({ n with st := aodvDbScAddschedule n.st now sc.etherAddr .sendOutRwarn .null }, [])
        else (n, [])
      | _ => (n, [])

end Node

/-! ## Events -/

inductive MeshCb
  | dropErrors | handleHello | handleRreq | handleRerr | handleRrep
  | forwardBroadcast | forwardMulticast | forward | localUnicast
  deriving DecidableEq, Repr

/-- What happens to a daemon: a mesh callback is called, a packet comes from the system, a command is
given, or a periodic task is due. -/
inductive NodeEvent
  | mesh (cb : MeshCb) (env : RxEnv) (msg : DessertMsg)
  | sysRx (l25Shost l25Dhost : MacAddr) (payload : List UInt8) (now : Timeval)
  | cliSendRreq (host : MacAddr) (now : Timeval)
  | routingReset
  | neighborReset
  | sendHello
  | sendRreq (now : Timeval)
  | cleanupDatabase (now : Timeval)
  | scexecute (now : Timeval) (avgRssi : Int8)
  deriving DecidableEq, Repr

/-- The callbacks in the order of the priorities `main` registers them with. -/
def meshPipeline : List MeshCb :=
  [.dropErrors, .handleHello, .handleRreq, .handleRerr, .handleRrep,
    .forwardBroadcast, .forwardMulticast, .forward, .localUnicast]

namespace Node

def callback (n : Node) (cb : MeshCb) (env : RxEnv) (msg : DessertMsg) : Node × List Sent × Verdict :=
  match cb with
  | .dropErrors =>
    let (n, verdict) := n.aodvDropErrors env msg
    (n, [], verdict)
  | .handleHello => n.aodvHandleHello env msg
  | .handleRreq => n.aodvHandleRreq env msg
  | .handleRerr => n.aodvHandleRerr env msg
  | .handleRrep => n.aodvHandleRrep env msg
  | .forwardBroadcast => n.aodvForwardBroadcast env msg
  | .forwardMulticast => n.aodvForwardMulticast env msg
  | .forward => n.aodvForward L env msg
  | .localUnicast => n.aodvLocalUnicast env msg

def handle (n : Node) : NodeEvent → Node × List Sent
  | .mesh cb env msg =>
    let (n, sent, _) := n.callback L cb env msg
    (n, sent)
  | .sysRx l25Shost l25Dhost payload now => n.aodvSys2rp (sysMsg l25Shost l25Dhost payload) now
  | .cliSendRreq host now => n.aodvSendRreq host now
  | .routingReset => (n.routingReset, [])
  | .neighborReset => (n.neighborReset, [])
  | .sendHello => if n.hung then (n, []) else n.aodvPeriodicSendHello
  | .sendRreq now => if n.hung then (n, []) else n.aodvPeriodicSendRreq now
  | .cleanupDatabase now => if n.hung then (n, []) else (n.aodvDbCleanup now, [])
  | .scexecute now avgRssi => if n.hung then (n, []) else n.aodvPeriodicScexecute L now avgRssi

def step (n : Node) (ev : NodeEvent) : Node := (n.handle L ev).1

/-- Run callbacks until one does not keep the message. -/
def runCallbacks (n : Node) (env : RxEnv) (msg : DessertMsg) : List MeshCb → Node × List Sent
  | [] => (n, [])
  | cb :: cbs =>
    match n.callback L cb env msg with
    | (n, sent, .drop) => (n, sent)
    | (n, sent, .keep) =>
      let (n, sent') := n.runCallbacks env msg cbs
      (n, sent ++ sent')

def receive (n : Node) (env : RxEnv) (msg : DessertMsg) : Node × List Sent :=
  n.runCallbacks L env msg meshPipeline

end Node

end

end DesAodv
