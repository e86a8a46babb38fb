import DesAodv.Timeslot
import DesAodv.Message

/-!
# The routing table

`aodv_rt.c`: the routing entries with their timeslot, and the index `nht` from
next hops to the entries routed over them. Entries are allocated: `ptr` is the
address of one, and the timeslot and the index refer to entries by it. `fault`
records that an entry was accessed after it had been freed.
-/

namespace DesAodv

/-- The bits of `flags`. -/
structure RtFlags where
  routeInvalid : Bool
  nextHopUnknown : Bool
  routeWarn : Bool
  routeLocalUsed : Bool
  routeNew : Bool
  deriving DecidableEq, Repr

def aodvFlagsUnused : RtFlags :=
  { routeInvalid := false, nextHopUnknown := false, routeWarn := false, routeLocalUsed := false, routeNew := false }

def aodvFlagsRouteLocalUsed : RtFlags := { aodvFlagsUnused with routeLocalUsed := true }

/-- `f | g`. -/
def RtFlags.union (f g : RtFlags) : RtFlags :=
  { routeInvalid := f.routeInvalid || g.routeInvalid
    nextHopUnknown := f.nextHopUnknown || g.nextHopUnknown
    routeWarn := f.routeWarn || g.routeWarn
    routeLocalUsed := f.routeLocalUsed || g.routeLocalUsed
    routeNew := f.routeNew || g.routeNew }

structure RtEntry where
  ptr : Nat
  addr : MacAddr
  nextHop : MacAddr
  outputIface : Option Meshif
  sequenceNumber : UInt32
  metric : Metric
  hopCount : UInt8
  flags : RtFlags
  deriving DecidableEq, Repr

structure NhtDestlistEntry where
  destinationHost : MacAddr
  rtEntry : Nat
  deriving DecidableEq, Repr

structure NhtEntry where
  destinationHostNextHop : MacAddr
  destList : List NhtDestlistEntry
  deriving DecidableEq, Repr

/-- `rt` and `nht`; `fresh` is the address the next allocation returns. -/
structure Rt where
  entries : List RtEntry
  ts : Timeslot Nat
  nht : List NhtEntry
  fresh : Nat
  fault : Bool
  deriving DecidableEq, Repr

inductive CaptRreqResult
  | old | new | metricHit
  deriving DecidableEq, Repr

/-- The route is usable: neither `AODV_FLAGS_NEXT_HOP_UNKNOWN` nor `AODV_FLAGS_ROUTE_INVALID`. -/
def RtEntry.valid (e : RtEntry) : Bool := !e.flags.nextHopUnknown && !e.flags.routeInvalid

/-- `flags |= flags`. -/
def RtEntry.setFlags (flags : RtFlags) (e : RtEntry) : RtEntry := { e with flags := e.flags.union flags }

def RtEntry.markInvalid (e : RtEntry) : RtEntry := { e with flags := { e.flags with routeInvalid := true } }

def RtEntry.markWarn (e : RtEntry) : RtEntry := { e with flags := { e.flags with routeWarn := true } }

/-! ## The next hop index -/

def nhtFind (nht : List NhtEntry) (nextHop : MacAddr) : Option NhtEntry :=
  Keyed.lookup NhtEntry.destinationHostNextHop nextHop nht

def destFind (destList : List NhtDestlistEntry) (host : MacAddr) : Option NhtDestlistEntry :=
  Keyed.lookup NhtDestlistEntry.destinationHost host destList

def NhtEntry.mapDestList (f : List NhtDestlistEntry → List NhtDestlistEntry) (x : NhtEntry) : NhtEntry :=
  { x with destList := f x.destList }

def NhtDestlistEntry.setRtEntry (rtEntry : Nat) (x : NhtDestlistEntry) : NhtDestlistEntry :=
  { x with rtEntry }

/-- Delete the mapping from `nextHop` to `host`, and the next hop with its last destination. -/
def nhtRemove (nht : List NhtEntry) (nextHop host : MacAddr) : List NhtEntry :=
  match nhtFind nht nextHop with
  | none => nht
  | some nhtEntry =>
    let destList := Keyed.erase NhtDestlistEntry.destinationHost host nhtEntry.destList
    if destList = [] then Keyed.erase NhtEntry.destinationHostNextHop nextHop nht
    else Keyed.modify NhtEntry.destinationHostNextHop nextHop (NhtEntry.mapDestList fun _ => destList) nht

def destInsert (destList : List NhtDestlistEntry) (host : MacAddr) (rtEntry : Nat) : List NhtDestlistEntry :=
  match destFind destList host with
  | none => destList ++ [{ destinationHost := host, rtEntry }]
  | some _ => Keyed.modify NhtDestlistEntry.destinationHost host (NhtDestlistEntry.setRtEntry rtEntry) destList

/-- Insert the routing entry `rtEntry` for `host` in the destination list of `nextHop`. -/
def nhtInsert (nht : List NhtEntry) (nextHop host : MacAddr) (rtEntry : Nat) : List NhtEntry :=
  match nhtFind nht nextHop with
  | none => nht ++ [{ destinationHostNextHop := nextHop, destList := destInsert [] host rtEntry }]
  | some _ =>
    Keyed.modify NhtEntry.destinationHostNextHop nextHop
      (NhtEntry.mapDestList fun destList => destInsert destList host rtEntry) nht

namespace Rt

def find (rt : Rt) (host : MacAddr) : Option RtEntry := Keyed.lookup RtEntry.addr host rt.entries

/-- Following a pointer to an entry; `none` after the entry has been freed. -/
def deref (rt : Rt) (ptr : Nat) : Option RtEntry := Keyed.lookup RtEntry.ptr ptr rt.entries

/-- Writing through a pointer to an entry. -/
def write (rt : Rt) (ptr : Nat) (f : RtEntry → RtEntry) : Rt :=
  { rt with
    entries := Keyed.modify RtEntry.ptr ptr f rt.entries
    fault := rt.fault || (rt.deref ptr).isNone }

end Rt

/-! ## Entries and their timeslot -/

def purgeRtEntry (rt : Rt) (delObject : Nat) : Rt :=
  match rt.deref delObject with
  | none => { rt with fault := true }
  | some rtEntry =>
    { rt with
      nht := if rtEntry.flags.nextHopUnknown then rt.nht else nhtRemove rt.nht rtEntry.nextHop rtEntry.addr
      entries := Keyed.erase RtEntry.ptr delObject rt.entries }

def purgeRtEntries (rt : Rt) (purged : List (TimeslotElement Nat)) : Rt :=
  purged.foldl (fun rt el => purgeRtEntry rt el.object) rt

def aodvDbRtInit : Rt :=
  { entries := [], ts := timeslotCreate (msec myRouteTimeout), nht := [], fresh := 0, fault := false }

def rtTimeslotAddobject (rt : Rt) (timestamp currTime : Timeval) (object : Nat) : Rt :=
  let (ts, purged) := timeslotAddobject rt.ts timestamp currTime object
  purgeRtEntries { rt with ts } purged

/-- The values `rt_entry_create` sets: nothing is known about the destination. -/
def newRtEntry (ptr : Nat) (destinationHost : MacAddr) : RtEntry :=
  { ptr
    addr := destinationHost
    nextHop := 0
    outputIface := none
    sequenceNumber := 0
    metric := aodvMaxMetric
    hopCount := 255
    flags := { aodvFlagsUnused with nextHopUnknown := true, routeInvalid := true } }

def rtEntryCreate (rt : Rt) (destinationHost : MacAddr) (timestamp currTime : Timeval) : Rt × RtEntry :=
  let rtEntry := newRtEntry rt.fresh destinationHost
  (rtTimeslotAddobject { rt with fresh := rt.fresh + 1 } timestamp currTime rtEntry.ptr, rtEntry)

/-- `HASH_FIND`, and if not found `rt_entry_create` and `HASH_ADD`. -/
def rtFindOrCreate (rt : Rt) (host : MacAddr) (timestamp currTime : Timeval) : Rt × RtEntry :=
  match rt.find host with
  | some rtEntry => (rt, rtEntry)
  | none =>
    let (rt, rtEntry) := rtEntryCreate rt host timestamp currTime
    ({ rt with entries := rt.entries ++ [rtEntry] }, rtEntry)

/-! ## Captures -/

/-- What `aodv_db_rt_capt_rreq` writes into the entry of the originator. -/
def RtEntry.captRreq (prevHop : MacAddr) (iface : Meshif) (originatorSequenceNumber : UInt32)
    (metric : Metric) (hopCount : UInt8) (e : RtEntry) : RtEntry :=
  { e with
    nextHop := prevHop
    outputIface := some iface
    sequenceNumber := originatorSequenceNumber
    metric
    hopCount
    flags := { e.flags with routeNew := false } }

/-- What `aodv_db_rt_capt_rrep` writes into the entry of the destination. -/
def RtEntry.captRrep (nextHop : MacAddr) (iface : Meshif) (destinationSequenceNumber : UInt32)
    (metric : Metric) (hopCount : UInt8) (e : RtEntry) : RtEntry :=
  { e with
    nextHop
    outputIface := some iface
    sequenceNumber := destinationSequenceNumber
    metric
    hopCount
    flags := { e.flags with nextHopUnknown := false, routeInvalid := false, routeWarn := false } }

def aodvDbRtCaptRreq (metricType : AodvMetric) (rt : Rt) (destinationHost originatorHost prevHop : MacAddr)
    (iface : Meshif) (originatorSequenceNumber : UInt32) (metric : Metric) (hopCount : UInt8)
    (timestamp currTime : Timeval) : Rt × CaptRreqResult :=
  let rt := (rtFindOrCreate rt destinationHost timestamp currTime).1
  let (rt, origEntry) := rtFindOrCreate rt originatorHost timestamp currTime
  let seqNumCmp := hfCompU32 origEntry.sequenceNumber originatorSequenceNumber
  let newer := decide (seqNumCmp < 0)
  let sameSeqNum := decide (seqNumCmp = 0)
  let metricHit := decide (hfCompMetric metricType origEntry.metric metric < 0)
  if newer || (sameSeqNum && metricHit) then
    let result := if sameSeqNum && metricHit then .metricHit else .new
    (rt.write origEntry.ptr (RtEntry.captRreq prevHop iface originatorSequenceNumber metric hopCount), result)
  else (rt, .old)

/-- The part of `aodv_db_rt_capt_rrep` that works on the routing table and the index. -/
def rtCaptRrep (rt : Rt) (destinationHost destinationHostNextHop : MacAddr) (outputIface : Meshif)
    (destinationSequenceNumber : UInt32) (metric : Metric) (hopCount : UInt8)
    (timestamp currTime : Timeval) : Rt × Bool :=
  let (rt, rtEntry) := rtFindOrCreate rt destinationHost timestamp currTime
  let nextHopKnown := !rtEntry.flags.nextHopUnknown
  let old := decide (hfCompU32 rtEntry.sequenceNumber destinationSequenceNumber > 0)
  if nextHopKnown && old then (rt, false)
  else
    -- remove old next_hop_entry if found
    let nht := if nextHopKnown then nhtRemove rt.nht rtEntry.nextHop rtEntry.addr else rt.nht
    let rt := rt.write rtEntry.ptr
      (RtEntry.captRrep destinationHostNextHop outputIface destinationSequenceNumber metric hopCount)
    ({ rt with nht := nhtInsert nht destinationHostNextHop destinationHost rtEntry.ptr }, true)

/-! ## Lookups -/

/-- The next hop and output interface, when the route is valid; the entry's lifetime then starts anew. -/
def aodvDbRtGetroute2dest (rt : Rt) (destinationHost : MacAddr) (timestamp currTime : Timeval)
    (flags : RtFlags) : Rt × Option (MacAddr × Option Meshif) :=
  match rt.find destinationHost with
  | none => (rt, none)
  | some rtEntry =>
    if rtEntry.valid then
      let rt := rt.write rtEntry.ptr (RtEntry.setFlags flags)
      (rtTimeslotAddobject rt timestamp currTime rtEntry.ptr, some (rtEntry.nextHop, rtEntry.outputIface))
    else (rt, none)

namespace Rt

/-- The entry for a destination whose next hop is known. -/
def known (rt : Rt) (host : MacAddr) : Option RtEntry :=
  (rt.find host).filter fun e => !e.flags.nextHopUnknown

end Rt

def aodvDbRtGetnexthop (rt : Rt) (destinationHost : MacAddr) : Option MacAddr :=
  (rt.known destinationHost).map RtEntry.nextHop

def aodvDbRtGetDestinationSequenceNumber (rt : Rt) (dhostEther : MacAddr) : Option UInt32 :=
  (rt.known dhostEther).map RtEntry.sequenceNumber

def aodvDbRtGetHopcount (rt : Rt) (destinationHost : MacAddr) : UInt8 :=
  ((rt.known destinationHost).map RtEntry.hopCount).getD 255

def aodvDbRtGetMetric (rt : Rt) (destinationHost : MacAddr) : Metric :=
  ((rt.known destinationHost).map RtEntry.metric).getD aodvMaxMetric

def aodvDbRtGetWarnStatus (rt : Rt) (dhostEther : MacAddr) : Bool :=
  ((rt.known dhostEther).map fun e => e.flags.routeWarn).getD false

def aodvDbRtGetActiveRoutes (rt : Rt) : List MacAddr :=
  (rt.entries.filter fun e => e.flags.routeLocalUsed).map RtEntry.addr

/-! ## Invalidation -/

def aodvDbRtMarkrouteinv (rt : Rt) (destinationHost : MacAddr) (destinationSequenceNumber : UInt32) : Rt × Bool :=
  match rt.find destinationHost with
  | none => (rt, false)
  | some destination =>
    if hfCompU32 destination.sequenceNumber destinationSequenceNumber > 0 then (rt, false)
    else (rt.write destination.ptr RtEntry.markInvalid, true)

/-- The listed entries are read through the index. -/
def aodvDbRtGetDestlist (rt : Rt) (dhostNextHop : MacAddr) : Rt × Option (List AodvMacSeq) :=
  match nhtFind rt.nht dhostNextHop with
  | none => (rt, none)
  | some nhtEntry =>
    let read := nhtEntry.destList.map fun dest => rt.deref dest.rtEntry
    let destlist := (read.filterMap id).map fun e => { host := e.addr, sequenceNumber := e.sequenceNumber }
    ({ rt with fault := rt.fault || read.any Option.isNone }, some destlist)

def aodvDbRtInvOverNexthop (rt : Rt) (nextHop : MacAddr) : Rt × Bool :=
  match nhtFind rt.nht nextHop with
  | none => (rt, false)
  | some nhtEntry =>
    (nhtEntry.destList.foldl (fun rt dest => rt.write dest.rtEntry RtEntry.markInvalid) rt, true)

/-- One destination of `aodv_db_rt_get_warn_endpoints_from_neighbor_and_set_warn`. -/
def warnEndpoint (acc : Rt × List AodvMacSeq) (dest : NhtDestlistEntry) : Rt × List AodvMacSeq :=
  match acc.1.deref dest.rtEntry with
  | none => ({ acc.1 with fault := true }, acc.2)
  | some e =>
    if e.flags.routeWarn || !e.flags.routeLocalUsed then acc
    else
      (acc.1.write dest.rtEntry RtEntry.markWarn,
        acc.2 ++ [{ host := e.addr, sequenceNumber := e.sequenceNumber }])

def aodvDbRtGetWarnEndpointsFromNeighborAndSetWarn (rt : Rt) (neighbor : MacAddr) : Rt × List AodvMacSeq :=
  match nhtFind rt.nht neighbor with
  | none => (rt, [])
  | some nhtEntry => nhtEntry.destList.foldl warnEndpoint (rt, [])

def aodvDbRtRoutingReset (rt : Rt) : Rt × Nat :=
  ({ rt with entries := rt.entries.map RtEntry.markInvalid }, rt.entries.length)

def aodvDbRtCleanup (rt : Rt) (timestamp : Timeval) : Rt :=
  let (ts, purged) := timeslotPurgeobjects rt.ts timestamp
  purgeRtEntries { rt with ts } purged

end DesAodv
