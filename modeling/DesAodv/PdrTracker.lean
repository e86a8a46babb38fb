import DesAodv.Timeslot

/-!
# The PDR tracker

`pdr.c`: for every neighbor the HELLO messages of a tracking interval. A neighbor
has a timeslot for its messages, and the table has one for the neighbors.
-/

namespace DesAodv

def pdrTrackingPurgeFactor : Nat := 2
def pdrMinTrackingInterval : Nat := 500

/-- What ends a call without a result. -/
inductive PdrFault
  | divisionByZero
  | useAfterFree
  deriving DecidableEq, Repr

structure PdrNeighborHelloMsg where
  ptr : Nat
  seqNum : UInt16
  deriving DecidableEq, Repr

structure PdrNeighborEntry where
  ptr : Nat
  etherNeighbor : MacAddr
  helloInterv : UInt16
  expectedHellos : UInt16
  rcvdHelloCount : UInt8
  nbRcvdHelloCount : UInt8
  ts : Timeslot Nat
  msgList : List PdrNeighborHelloMsg
  purgeTv : Timeval
  freshMsg : Nat
  deriving DecidableEq, Repr

structure PdrNeighborTable where
  entries : List PdrNeighborEntry
  nbExpectedHellos : UInt16
  ts : Timeslot Nat
  fresh : Nat
  deriving DecidableEq, Repr

/-! ## Intervals -/

def pdrExpectedHellos (trackingFactor helloInterv : UInt16) : Except PdrFault UInt16 :=
  if helloInterv.toNat * trackingFactor.toNat ≥ pdrMinTrackingInterval then .ok trackingFactor
  else if helloInterv = 0 then .error .divisionByZero
  else .ok (UInt16.ofNat (pdrMinTrackingInterval / helloInterv.toNat))

/-- Computed as a `uint32_t`. -/
def pdrPurgeTv (trackingFactor helloInterv : UInt16) : Timeval :=
  msec (UInt32.ofNat (helloInterv.toNat * trackingFactor.toNat * pdrTrackingPurgeFactor)).toNat

def pdrWatchInterval (trackingFactor helloInterv : UInt16) : Timeval :=
  if helloInterv.toNat * trackingFactor.toNat ≥ pdrMinTrackingInterval then
    msec (helloInterv.toNat * trackingFactor.toNat)
  else msec pdrMinTrackingInterval

/-- The timeslot is the one that the callers create for the new entry. -/
def pdrNeighborEntryCreate (trackingFactor : UInt16) (ptr : Nat) (etherNeighborAddr : MacAddr)
    (helloInterv : UInt16) : Except PdrFault PdrNeighborEntry := do
  let expectedHellos ← pdrExpectedHellos trackingFactor helloInterv
  .ok
    { ptr, etherNeighbor := etherNeighborAddr, helloInterv, expectedHellos, rcvdHelloCount := 0,
      nbRcvdHelloCount := 0, ts := timeslotCreate (pdrWatchInterval trackingFactor helloInterv), msgList := [],
      purgeTv := pdrPurgeTv trackingFactor helloInterv, freshMsg := 0 }

def pdrNeighborEntryUpdate (trackingFactor : UInt16) (updateEntry : PdrNeighborEntry) (newInterval : UInt16) :
    Except PdrFault PdrNeighborEntry := do
  let expectedHellos ← pdrExpectedHellos trackingFactor newInterval
  .ok
    { updateEntry with
      helloInterv := newInterval, expectedHellos, purgeTv := pdrPurgeTv trackingFactor newInterval }

/-! ## The table -/

def pdrNtPurgeHelloMsg (currEntry : PdrNeighborEntry) (el : TimeslotElement Nat) : PdrNeighborEntry :=
  { currEntry with
    msgList := Keyed.erase PdrNeighborHelloMsg.ptr el.object currEntry.msgList
    rcvdHelloCount := currEntry.rcvdHelloCount - 1 }

def pdrNtPurgeNb (nt : PdrNeighborTable) (el : TimeslotElement Nat) : PdrNeighborTable :=
  { nt with entries := Keyed.erase PdrNeighborEntry.ptr el.object nt.entries }

def aodvDbPdrNtInit (trackingFactor helloInterval : UInt16) : Except PdrFault PdrNeighborTable := do
  let nbExpectedHellos ← pdrExpectedHellos trackingFactor helloInterval
  .ok
    { entries := [], nbExpectedHellos, ts := timeslotCreate (pdrPurgeTv trackingFactor helloInterval), fresh := 0 }

def aodvDbPdrNtUpdExpected (nt : PdrNeighborTable) (trackingFactor newInterval : UInt16) :
    Except PdrFault PdrNeighborTable := do
  let nbExpectedHellos ← pdrExpectedHellos trackingFactor newInterval
  .ok { nt with nbExpectedHellos }

/-- The table is destroyed and set up anew. -/
def aodvDbPdrNtNeighborReset (nt : PdrNeighborTable) (trackingFactor helloInterval : UInt16) :
    Except PdrFault PdrNeighborTable := do
  let new ← aodvDbPdrNtInit trackingFactor helloInterval
  .ok { new with fresh := nt.fresh }

def aodvDbPdrNtCleanup (nt : PdrNeighborTable) (timestamp : Timeval) : PdrNeighborTable :=
  let (ts, purged) := timeslotPurgeobjects nt.ts timestamp
  purged.foldl pdrNtPurgeNb { nt with ts }

/-! ## Captures -/

/-- What both captures begin with: the entry of the neighbor, which is made or updated. -/
def pdrNtFindOrCreate (nt : PdrNeighborTable) (trackingFactor : UInt16) (etherNeighborAddr : MacAddr)
    (helloInterv : UInt16) : Except PdrFault (PdrNeighborTable × PdrNeighborEntry) :=
  match Keyed.lookup PdrNeighborEntry.etherNeighbor etherNeighborAddr nt.entries with
  | none => do
    let currEntry ← pdrNeighborEntryCreate trackingFactor nt.fresh etherNeighborAddr helloInterv
    .ok ({ nt with entries := nt.entries ++ [currEntry], fresh := nt.fresh + 1 }, currEntry)
  | some currEntry =>
    if currEntry.helloInterv ≠ helloInterv then do
      let updated ← pdrNeighborEntryUpdate trackingFactor currEntry helloInterv
      .ok ({ nt with entries := Keyed.modify PdrNeighborEntry.ptr currEntry.ptr (fun _ => updated) nt.entries },
        updated)
    else .ok (nt, currEntry)

/-- `timeslot_addobject_varpurge(pdr_nt.ts, timestamp, curr_entry, &(curr_entry->purge_tv));` -/
def pdrNtRenew (nt : PdrNeighborTable) (currEntry : PdrNeighborEntry) (timestamp currTime : Timeval) :
    PdrNeighborTable :=
  let (ts, purged) := timeslotAddobjectVarpurge nt.ts timestamp currTime currEntry.ptr currEntry.purgeTv
  purged.foldl pdrNtPurgeNb { nt with ts }

/-- What is done to the entry at an address, if it is still there. -/
def pdrNtWrite (nt : PdrNeighborTable) (ptr : Nat) (f : PdrNeighborEntry → PdrNeighborEntry) :
    Except PdrFault PdrNeighborTable :=
  match Keyed.lookup PdrNeighborEntry.ptr ptr nt.entries with
  | none => .error .useAfterFree
  | some _ => .ok { nt with entries := Keyed.modify PdrNeighborEntry.ptr ptr f nt.entries }

/-- The message with a sequence number, which is made when it is unknown. -/
def pdrHelloFindOrCreate (currEntry : PdrNeighborEntry) (helloSeq : UInt16) : PdrNeighborEntry × Nat :=
  match Keyed.lookup PdrNeighborHelloMsg.seqNum helloSeq currEntry.msgList with
  | some currHello => (currEntry, currHello.ptr)
  | none =>
    ({ currEntry with
        msgList := currEntry.msgList ++ [({ ptr := currEntry.freshMsg, seqNum := helloSeq } : PdrNeighborHelloMsg)]
        freshMsg := currEntry.freshMsg + 1 }, currEntry.freshMsg)

/-- What the capture of a HELLO does to the entry of its sender. The count goes up for a known sequence
number too. -/
def pdrCountHello (currEntry : PdrNeighborEntry) (helloSeq : UInt16) (timestamp currTime : Timeval) :
    PdrNeighborEntry :=
  let (currEntry, currHello) := pdrHelloFindOrCreate currEntry helloSeq
  let currEntry := { currEntry with rcvdHelloCount := currEntry.rcvdHelloCount + 1 }
  let (ts, purged) := timeslotAddobject currEntry.ts timestamp currTime currHello
  purged.foldl pdrNtPurgeHelloMsg { currEntry with ts }

/-- `currTime` and `currTime'` are the wall clock at the two additions to a timeslot. -/
def aodvDbPdrNtCapHello (nt : PdrNeighborTable) (trackingFactor : UInt16) (etherNeighborAddr : MacAddr)
    (helloSeq helloInterv : UInt16) (timestamp currTime currTime' : Timeval) : Except PdrFault PdrNeighborTable := do
  let (nt, currEntry) ← pdrNtFindOrCreate nt trackingFactor etherNeighborAddr helloInterv
  pdrNtWrite (pdrNtRenew nt currEntry timestamp currTime) currEntry.ptr fun e =>
    pdrCountHello e helloSeq timestamp currTime'

def aodvDbPdrNtCapHellorsp (nt : PdrNeighborTable) (trackingFactor : UInt16) (etherNeighborAddr : MacAddr)
    (helloInterv : UInt16) (helloCount : UInt8) (timestamp currTime : Timeval) : Except PdrFault PdrNeighborTable := do
  let (nt, currEntry) ← pdrNtFindOrCreate nt trackingFactor etherNeighborAddr helloInterv
  pdrNtWrite (pdrNtRenew nt currEntry timestamp currTime) currEntry.ptr fun e =>
    { e with nbRcvdHelloCount := helloCount }

/-! ## Rates -/

def pdrNtCleanup (currEntry : PdrNeighborEntry) (timestamp : Timeval) : PdrNeighborEntry :=
  let (ts, purged) := timeslotPurgeobjects currEntry.ts timestamp
  purged.foldl pdrNtPurgeHelloMsg { currEntry with ts }

/-- What every query begins with: the entry of the neighbor, after its expired messages have been purged. -/
def pdrNtFindCleaned (nt : PdrNeighborTable) (etherNeighborAddr : MacAddr) (timestamp : Timeval) :
    Option (PdrNeighborTable × PdrNeighborEntry) :=
  (Keyed.lookup PdrNeighborEntry.etherNeighbor etherNeighborAddr nt.entries).map fun currEntry =>
    ({ nt with
        entries := Keyed.modify PdrNeighborEntry.ptr currEntry.ptr (fun e => pdrNtCleanup e timestamp) nt.entries },
      pdrNtCleanup currEntry timestamp)

/-- The result is absent where the function returns false. -/
def aodvDbPdrNtGetPdr (nt : PdrNeighborTable) (etherNeighborAddr : MacAddr) (timestamp : Timeval) :
    PdrNeighborTable × Option Metric :=
  match pdrNtFindCleaned nt etherNeighborAddr timestamp with
  | none => (nt, none)
  | some (nt, e) =>
    if e.rcvdHelloCount.toNat ≥ e.expectedHellos.toNat then (nt, some aodvMaxMetric)
    else (nt, some (UInt16.ofNat (aodvMaxMetric.toNat * e.rcvdHelloCount.toNat / e.expectedHellos.toNat)))

def aodvDbPdrNtGetEtxMul (nt : PdrNeighborTable) (etherNeighborAddr : MacAddr) (timestamp : Timeval) :
    Except PdrFault (PdrNeighborTable × Option Metric) :=
  match pdrNtFindCleaned nt etherNeighborAddr timestamp with
  | none => .ok (nt, none)
  | some (nt, e) =>
    let rcvdHellos := min e.rcvdHelloCount.toNat e.expectedHellos.toNat
    let nbRcvdHellos := min e.nbRcvdHelloCount.toNat nt.nbExpectedHellos.toNat
    let roundTripPdr := aodvMaxMetric.toNat * rcvdHellos * nbRcvdHellos
    let expected := e.expectedHellos.toNat * nt.nbExpectedHellos.toNat
    if expected = 0 then .error .divisionByZero else .ok (nt, some (UInt16.ofNat (roundTripPdr / expected)))

/-- The check for a count of zero sets the result, which is then computed all the same. -/
def aodvDbPdrNtGetEtxAdd (nt : PdrNeighborTable) (etherNeighborAddr : MacAddr) (timestamp : Timeval) :
    Except PdrFault (PdrNeighborTable × Option Metric) :=
  match pdrNtFindCleaned nt etherNeighborAddr timestamp with
  | none => .ok (nt, none)
  | some (nt, e) =>
    let rcvdHellos := min e.rcvdHelloCount.toNat e.expectedHellos.toNat
    let nbRcvdHellos := min e.nbRcvdHelloCount.toNat nt.nbExpectedHellos.toNat
    let etx := 0x100 * e.expectedHellos.toNat * nt.nbExpectedHellos.toNat
    let rcvd := rcvdHellos * nbRcvdHellos
    if rcvd = 0 then .error .divisionByZero
    else .ok (nt, some (UInt16.ofNat (min (etx / rcvd) aodvMaxMetric.toNat)))

def aodvDbPdrNtGetRcvdhellocount (nt : PdrNeighborTable) (etherNeighborAddr : MacAddr) (timestamp : Timeval) :
    PdrNeighborTable × Option UInt8 :=
  match pdrNtFindCleaned nt etherNeighborAddr timestamp with
  | none => (nt, none)
  | some (nt, e) => (nt, some e.rcvdHelloCount)

end DesAodv
