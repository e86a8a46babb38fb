import DesAodv.Timeslot
import DesAodv.Message

/-!
# Rate logs, data sequence numbers and the packet buffer

`rreq_log.c` and `rerr_log.c` count the messages sent in the last second; `ds.c`
keeps the last data sequence number of each source; `packet_buffer.c` holds the
packets that wait for a route.
-/

namespace DesAodv

/-! ## Rate logs -/

/-- A counter, kept by the purge callback of its timeslot. The objects are the values of a counter
that no one follows as a pointer. -/
structure RateLog where
  ts : Timeslot Nat
  count : UInt32
  pseudoPointer : Nat
  deriving DecidableEq, Repr

def rateLogInit : RateLog := { ts := timeslotCreate (msec 1000), count := 0, pseudoPointer := 0 }

def decrementCounter (count : UInt32) (_ : TimeslotElement Nat) : UInt32 := count - 1

def rateLogPut (log : RateLog) (timestamp currTime : Timeval) : RateLog :=
  let (ts, purged) := timeslotAddobject log.ts timestamp currTime log.pseudoPointer
  { ts, count := purged.foldl decrementCounter log.count + 1, pseudoPointer := log.pseudoPointer + 1 }

/-- The count, after the expired events have been purged. -/
def rateLogCount (log : RateLog) (timestamp : Timeval) : RateLog × UInt32 :=
  let (ts, purged) := timeslotPurgeobjects log.ts timestamp
  let count := purged.foldl decrementCounter log.count
  ({ log with ts, count }, count)

def aodvDbRlPutrreq := rateLogPut
def aodvDbRlGetrreqcount := rateLogCount
def aodvDbRlPutrerr := rateLogPut
def aodvDbRlGetrerrcount := rateLogCount

/-! ## Data sequence numbers -/

structure DataPacketId where
  ptr : Nat
  srcAddr : MacAddr
  seqNum : UInt16
  deriving DecidableEq, Repr

structure DataSeq where
  entries : List DataPacketId
  ts : Timeslot Nat
  fresh : Nat
  deriving DecidableEq, Repr

def dbDsInit : DataSeq := { entries := [], ts := timeslotCreate (msec myRouteTimeout), fresh := 0 }

def dbNtOnDsTimeout (ds : DataSeq) (el : TimeslotElement Nat) : DataSeq :=
  { ds with entries := Keyed.erase DataPacketId.ptr el.object ds.entries }

def dsTimeslotAddobject (ds : DataSeq) (timestamp currTime : Timeval) (object : Nat) : DataSeq :=
  let (ts, purged) := timeslotAddobject ds.ts timestamp currTime object
  purged.foldl dbNtOnDsTimeout { ds with ts }

/-- The difference of two `uint16_t` is an `int`. -/
def dataSeqNewer (seqNum dataSeqNum : UInt16) : Bool :=
  decide ((seqNum.toNat : Int) - dataSeqNum.toNat > 32768) || decide (seqNum < dataSeqNum)

def aodvDbDsCaptDataSeq (ds : DataSeq) (srcAddr : MacAddr) (dataSeqNum : UInt16)
    (timestamp currTime : Timeval) : DataSeq × Bool :=
  match Keyed.lookup DataPacketId.srcAddr srcAddr ds.entries with
  | none =>
    let currEntry : DataPacketId := { ptr := ds.fresh, srcAddr, seqNum := dataSeqNum }
    let ds := { ds with entries := ds.entries ++ [currEntry], fresh := ds.fresh + 1 }
    (dsTimeslotAddobject ds timestamp currTime currEntry.ptr, true)
  | some currEntry =>
    if dataSeqNewer currEntry.seqNum dataSeqNum then
      let ds := { ds with
        entries := Keyed.modify DataPacketId.ptr currEntry.ptr (fun e => { e with seqNum := dataSeqNum })
          ds.entries }
      (dsTimeslotAddobject ds timestamp currTime currEntry.ptr, true)
    else (ds, false)

def dbDsCleanup (ds : DataSeq) (timestamp : Timeval) : DataSeq :=
  let (ts, purged) := timeslotPurgeobjects ds.ts timestamp
  purged.foldl dbNtOnDsTimeout { ds with ts }

/-! ## The packet buffer -/

/-- A queue, from `head` to `tail`. -/
structure PbEl where
  ptr : Nat
  dhostEther : MacAddr
  fl : List DessertMsg
  deriving DecidableEq, Repr

structure PacketBuffer where
  entries : List PbEl
  ts : Timeslot Nat
  fresh : Nat
  deriving DecidableEq, Repr

def pbInit : PacketBuffer := { entries := [], ts := timeslotCreate (msec blacklistTimeout), fresh := 0 }

def purgePackets (pb : PacketBuffer) (el : TimeslotElement Nat) : PacketBuffer :=
  { pb with entries := Keyed.erase PbEl.ptr el.object pb.entries }

def pbCleanup (pb : PacketBuffer) (timestamp : Timeval) : PacketBuffer :=
  let (ts, purged) := timeslotPurgeobjects pb.ts timestamp
  purged.foldl purgePackets { pb with ts }

def pbPushPacket (pb : PacketBuffer) (dhostEther : MacAddr) (msg : DessertMsg) (timestamp currTime : Timeval) :
    PacketBuffer :=
  let pb := pbCleanup pb timestamp
  let (pb, ptr) :=
    match Keyed.lookup PbEl.dhostEther dhostEther pb.entries with
    | some pbEl => (pb, pbEl.ptr)
    | none =>
      ({ pb with
          entries := pb.entries ++ [({ ptr := pb.fresh, dhostEther, fl := [] } : PbEl)]
          fresh := pb.fresh + 1 }, pb.fresh)
  let pb := { pb with entries := Keyed.modify PbEl.ptr ptr (fun x => { x with fl := x.fl ++ [msg] }) pb.entries }
  let (ts, purged) := timeslotAddobject pb.ts timestamp currTime ptr
  purged.foldl purgePackets { pb with ts }

def pbPopPacket (pb : PacketBuffer) (dhostEther : MacAddr) : PacketBuffer × Option DessertMsg :=
  match Keyed.lookup PbEl.dhostEther dhostEther pb.entries with
  | none => (pb, none)
  | some pbEl =>
    match pbEl.fl.tail with
    | [] =>
      ({ pb with
          entries := Keyed.erase PbEl.dhostEther dhostEther pb.entries
          ts := (timeslotDeleteobject pb.ts pbEl.ptr).1 }, pbEl.fl.head?)
    | rest =>
      ({ pb with entries := Keyed.modify PbEl.ptr pbEl.ptr (fun x => { x with fl := rest }) pb.entries },
        pbEl.fl.head?)

/-- The packets that wait for a route to `dhostEther`. -/
def PacketBuffer.queue (pb : PacketBuffer) (dhostEther : MacAddr) : List DessertMsg :=
  ((Keyed.lookup PbEl.dhostEther dhostEther pb.entries).map PbEl.fl).getD []

end DesAodv
