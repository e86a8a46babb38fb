import DesAodv.GossipQueue
import DesAodv.HelloCount
import DesAodv.Daemon
import DesAodv.Numerals

/-!
# Commands

`aodv_cli.c`: what can be set and shown while the daemon runs, and the parts of
the daemon that the settings reach: the two periodic tasks whose interval is set,
the PDR tracker and the hold queue.
-/

namespace DesAodv

open Numerals

/-- A whole daemon. A periodic task that is registered is given by its interval; `tracker` is an error when
the daemon has ended in a call of the PDR tracker. -/
structure Daemon where
  node : Node
  tracker : Except PdrFault PdrNeighborTable
  hold : HoldQueue
  helloSize : UInt16
  rreqSize : UInt16
  rreqInterval : UInt16
  trackingFactor : UInt16
  sendHelloPeriodic : Option Timeval
  sendRreqPeriodic : Option Timeval
  deriving DecidableEq

/-- What the commands use of the C library and of libdessert: the width of a `long`, the size of a message
without extensions, and `dessert_parse_mac`. -/
structure CliHost where
  longBits : Nat
  sizeofDessertMsg : Nat
  parseMac : String → Option MacAddr

inductive CliResult
  | ok | error | errorArg
  deriving DecidableEq, Repr

/-- The commands that set something, and `send_rreq`. -/
inductive CliCommand
  | setDestOnly | setRingSearch | setHelloSize | setHelloInterval | setRreqSize | setTrackingFactor
  | setGossip | setMetric | setPeriodicRreqInterval | setSignalStrengthThreshold | sendRreq
  deriving DecidableEq, Repr

/-! ## Names -/

/-- The comparisons of `cli_set_gossip`; any other name is none. -/
def gossipOfName (gossipString : String) : Option AodvGossip :=
  if gossipString = "GOSSIP_NONE" then some .gossipNone
  else if gossipString = "GOSSIP_0" then some .gossip0
  else if gossipString = "GOSSIP_1" then some .gossip1
  else if gossipString = "GOSSIP_3" then some .gossip3
  else if gossipString = "PISSOG_0" then some .pissog0
  else if gossipString = "PISSOG_3" then some .pissog3
  else none

def gossipName : AodvGossip → String
  | .gossipNone => "GOSSIP_NONE"
  | .gossip0 => "GOSSIP_0"
  | .gossip1 => "GOSSIP_1"
  | .gossip3 => "GOSSIP_3"
  | .pissog0 => "PISSOG_0"
  | .pissog3 => "PISSOG_3"

/-- The comparisons of `cli_set_metric`: the metric and its start value. -/
def metricOfName (metricString : String) : Option (AodvMetric × Metric) :=
  if metricString = "AODV_METRIC_HOP_COUNT" then some (.hopCount, 0)
  else if metricString = "AODV_METRIC_RSSI" then some (.rssi, 0)
  else if metricString = "AODV_METRIC_ETX_ADD" then some (.etxAdd, 0)
  else if metricString = "AODV_METRIC_ETX_MUL" then some (.etxMul, aodvMaxMetric)
  else if metricString = "AODV_METRIC_RFC" then some (.rfc, 0)
  else if metricString = "AODV_METRIC_PDR" then some (.pdr, aodvMaxMetric)
  else none

def metricName : AodvMetric → String
  | .hopCount => "AODV_METRIC_HOP_COUNT"
  | .rssi => "AODV_METRIC_RSSI"
  | .etxAdd => "AODV_METRIC_ETX_ADD"
  | .rfc => "AODV_METRIC_RFC"
  | .etxMul => "AODV_METRIC_ETX_MUL"
  | .pdr => "AODV_METRIC_PDR"

/-! ## Arguments -/

/-- An interval in milliseconds as the callers of `dessert_periodic_add` split it. -/
def intervalTv (interval : UInt16) : Timeval :=
  1000000 * (interval.toNat / 1000) + interval.toNat % 1000 * 1000

section
variable (H : CliHost)

def CliHost.minSize : UInt16 := UInt16.ofNat (H.sizeofDessertMsg + 14 + 2)

/-- The argument of a command that sets a packet size. -/
def CliHost.sizeArg : List String → Option UInt16
  | [arg] =>
    let psize := UInt16.ofNat (strtoul H.longBits arg.toList)
    if psize < H.minSize ∨ psize > 1500 then none else some psize
  | _ => none

/-- The argument of a command that switches something on or off. -/
def CliHost.modeArg : List String → Option Bool
  | [arg] =>
    match sscanfU H.longBits arg.toList with
    | none => none
    | some mode => if mode ≠ 0 ∧ mode ≠ 1 then none else some (decide (mode = 1))
  | _ => none

namespace Daemon

def setCfg (d : Daemon) (f : Config → Config) : Daemon := { d with node := { d.node with cfg := f d.node.cfg } }

/-- `aodv_db_pdr_upd_expected`. -/
def pdrUpdExpected (d : Daemon) (newInterval : UInt16) : Daemon :=
  { d with tracker := PdrOp.step d.tracker (.updExpected d.trackingFactor newInterval) }

/-! ## Commands that set -/

def cliSetDestOnly (d : Daemon) (argv : List String) : Daemon × CliResult :=
  match H.modeArg argv with
  | none => (d, .errorArg)
  | some destOnly => (d.setCfg fun cfg => { cfg with destOnly }, .ok)

def cliSetRingSearch (d : Daemon) (argv : List String) : Daemon × CliResult :=
  match H.modeArg argv with
  | none => (d, .errorArg)
  | some ringSearch => (d.setCfg fun cfg => { cfg with ringSearch }, .ok)

def cliSetHelloSize (d : Daemon) (argv : List String) : Daemon × CliResult :=
  match H.sizeArg argv with
  | none => (d, .error)
  | some helloSize => ({ d with helloSize }, .ok)

def cliSetRreqSize (d : Daemon) (argv : List String) : Daemon × CliResult :=
  match H.sizeArg argv with
  | none => (d, .error)
  | some rreqSize => ({ d with rreqSize }, .ok)

/-- Any interval is taken, 0 included. -/
def cliSetHelloInterval (d : Daemon) : List String → Daemon × CliResult
  | [arg] =>
    let helloInterval := UInt16.ofNat (strtoul H.longBits arg.toList)
    let d := d.setCfg fun cfg => { cfg with helloInterval }
    let d := { d with node := d.node.neighborReset, sendHelloPeriodic := some (intervalTv helloInterval) }
    (d.pdrUpdExpected helloInterval, .ok)
  | _ => (d, .error)

def cliSetTrackingFactor (d : Daemon) : List String → Daemon × CliResult
  | [arg] =>
    let ptrackingFactor := UInt16.ofNat (strtoul H.longBits arg.toList)
    if ptrackingFactor > 1000 then (d, .error)
    else ({ d with trackingFactor := ptrackingFactor }.pdrUpdExpected d.node.cfg.helloInterval, .ok)
  | _ => (d, .error)

/-- A name that is not known leaves the gossip type as it is; the routes are reset all the same. -/
def cliSetGossip (d : Daemon) : List String → Daemon × CliResult
  | [gossipString] =>
    let d :=
      match gossipOfName gossipString with
      | none => d
      | some gossipType => d.setCfg fun cfg => { cfg with gossipType }
    ({ d with node := d.node.routingReset }, .ok)
  | _ => (d, .errorArg)

def cliSetMetric (d : Daemon) : List String → Daemon × CliResult
  | [metricString] =>
    let d :=
      match metricOfName metricString with
      | none => d
      | some (metricType, metricStartvalue) => d.setCfg fun cfg => { cfg with metricType, metricStartvalue }
    ({ d with node := d.node.routingReset }, .ok)
  | _ => (d, .errorArg)

def cliSetPeriodicRreqInterval (d : Daemon) : List String → Daemon × CliResult
  | [arg] =>
    let rreqInterval := UInt16.ofInt (strtol H.longBits arg.toList)
    let d := { d with rreqInterval, sendRreqPeriodic := none }
    if rreqInterval = 0 then (d, .ok) else ({ d with sendRreqPeriodic := some (intervalTv rreqInterval) }, .ok)
  | _ => (d, .error)

def cliSetPreemptiveRreqSignalStrengthThreshold (d : Daemon) : List String → Daemon × CliResult
  | [arg] =>
    let signalStrengthThreshold := Int8.ofInt (strtol H.longBits arg.toList)
    let d := d.setCfg fun cfg => { cfg with signalStrengthThreshold }
    if signalStrengthThreshold = 0 then (d, .ok) else ({ d with node := d.node.neighborReset }, .ok)
  | _ => (d, .error)

/-- The second argument is printed, and not used. -/
def cliSendRreq (d : Daemon) (argv : List String) (now : Timeval) : Daemon × List Sent × CliResult :=
  match argv with
  | [address, _] =>
    match H.parseMac address with
    | none => (d, [], .errorArg)
    | some host =>
      let (node, sent) := d.node.aodvSendRreq host now
      ({ d with node }, sent, .ok)
  | _ => (d, [], .errorArg)

def cli (d : Daemon) (command : CliCommand) (argv : List String) (now : Timeval) : Daemon × List Sent × CliResult :=
  let set : Daemon × CliResult → Daemon × List Sent × CliResult := fun r => (r.1, [], r.2)
  match command with
  | .setDestOnly => set (d.cliSetDestOnly H argv)
  | .setRingSearch => set (d.cliSetRingSearch H argv)
  | .setHelloSize => set (d.cliSetHelloSize H argv)
  | .setHelloInterval => set (d.cliSetHelloInterval H argv)
  | .setRreqSize => set (d.cliSetRreqSize H argv)
  | .setTrackingFactor => set (d.cliSetTrackingFactor H argv)
  | .setGossip => set (d.cliSetGossip argv)
  | .setMetric => set (d.cliSetMetric argv)
  | .setPeriodicRreqInterval => set (d.cliSetPeriodicRreqInterval H argv)
  | .setSignalStrengthThreshold => set (d.cliSetPreemptiveRreqSignalStrengthThreshold H argv)
  | .sendRreq => d.cliSendRreq H argv now

/-! ## Commands that show -/

/-- The value in what the `show` command for a setting prints; none where there is no such command, or
where it prints that something is off. -/
def shown (d : Daemon) : CliCommand → Option String
  | .setHelloSize => some (String.ofList (printU d.helloSize.toNat))
  | .setHelloInterval => some (String.ofList (printU d.node.cfg.helloInterval.toNat))
  | .setRreqSize => some (String.ofList (printU d.rreqSize.toNat))
  | .setTrackingFactor => some (String.ofList (printU d.trackingFactor.toNat))
  | .setGossip => some (gossipName d.node.cfg.gossipType)
  | .setMetric => some (metricName d.node.cfg.metricType)
  | .setPeriodicRreqInterval =>
    if d.rreqInterval = 0 then none else some (String.ofList (printU d.rreqInterval.toNat))
  | .setSignalStrengthThreshold =>
    if d.node.cfg.signalStrengthThreshold = 0 then none
    else some (String.ofList (printD d.node.cfg.signalStrengthThreshold.toInt))
  | _ => none

end Daemon

end

end DesAodv
