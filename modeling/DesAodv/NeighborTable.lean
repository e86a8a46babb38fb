import DesAodv.Timeslot
import DesAodv.ScheduleTable

/-!
# The neighbor table

`nt.c`: the two-way neighbors, one entry for each address and interface, and what
their timeout does to the schedule table.
-/

namespace DesAodv

structure NeighborEntry where
  ptr : Nat
  etherNeighbor : MacAddr
  iface : Meshif
  lastHelloSeq : UInt16
  maxRssi : Int8
  deriving DecidableEq, Repr

def NeighborEntry.key (e : NeighborEntry) : MacAddr × Meshif := (e.etherNeighbor, e.iface)

structure NeighborTable where
  entries : List NeighborEntry
  ts : Timeslot Nat
  fresh : Nat
  deriving DecidableEq, Repr

def dbNtInit (helloInterval : UInt16) : NeighborTable :=
  { entries := []
    ts := timeslotCreate (msec (helloInterval.toNat * (allowedHelloLost + 1)))
    fresh := 0 }

def dbNtOnNeigborTimeout (nt : NeighborTable × List Schedule) (el : TimeslotElement Nat) :
    NeighborTable × List Schedule :=
  match Keyed.lookup NeighborEntry.ptr el.object nt.1.entries with
  | none => nt
  | some currEntry =>
    let st := aodvDbScAddschedule nt.2 el.purgeTime currEntry.etherNeighbor .sendOutRerr .null
    ({ nt.1 with entries := Keyed.erase NeighborEntry.ptr el.object nt.1.entries },
      (aodvDbScDropschedule st currEntry.etherNeighbor .updateRssi).1)

def dbNtCleanup (nt : NeighborTable) (st : List Schedule) (timestamp : Timeval) :
    NeighborTable × List Schedule :=
  let (ts, purged) := timeslotPurgeobjects nt.ts timestamp
  purged.foldl dbNtOnNeigborTimeout ({ nt with ts }, st)

def dbNtResetRssi (nt : NeighborTable) (etherNeighborAddr : MacAddr) (iface : Meshif) : NeighborTable :=
  { nt with
    entries := Keyed.modify NeighborEntry.key (etherNeighborAddr, iface)
      (fun e => { e with maxRssi := aodvSignalStrengthInit }) nt.entries }

/-- `avgRssi` is what the driver reports for the neighbor. -/
def dbNtUpdateRssi (nt : NeighborTable) (etherNeighborAddr : MacAddr) (iface : Meshif) (avgRssi : Int8) :
    NeighborTable × Int8 :=
  match Keyed.lookup NeighborEntry.key (etherNeighborAddr, iface) nt.entries with
  | none => (nt, 0)
  | some currEntry =>
    let new := if avgRssi ≠ 0 then avgRssi else aodvSignalStrengthInit
    let diff := currEntry.maxRssi - new
    if diff < 0 then
      ({ nt with
          entries := Keyed.modify NeighborEntry.key (etherNeighborAddr, iface)
            (fun e => { e with maxRssi := new }) nt.entries }, diff)
    else (nt, diff)

/-- A new table replaces the old one; its timeouts are dropped without their callback. -/
def aodvDbNtNeighborReset (nt : NeighborTable) (st : List Schedule) (helloInterval : UInt16) :
    NeighborTable × List Schedule :=
  ({ dbNtInit helloInterval with fresh := nt.fresh },
    nt.entries.foldl (fun st e => (aodvDbScDropschedule st e.etherNeighbor .updateRssi).1) st)

def dbNtCap2Dneigh (cfg : Config) (nt : NeighborTable) (st : List Schedule) (etherNeighborAddr : MacAddr)
    (helloSeq : UInt16) (iface : Meshif) (timestamp currTime : Timeval) : NeighborTable × List Schedule :=
  let (nt, ptr) :=
    match Keyed.lookup NeighborEntry.key (etherNeighborAddr, iface) nt.entries with
    | some currEntry => (nt, currEntry.ptr)
    | none =>
      let currEntry : NeighborEntry :=
        { ptr := nt.fresh, etherNeighbor := etherNeighborAddr, iface, lastHelloSeq := 0,
          maxRssi := aodvSignalStrengthInit }
      ({ nt with entries := nt.entries ++ [currEntry], fresh := nt.fresh + 1 }, nt.fresh)
  let nt := { nt with
    entries := Keyed.modify NeighborEntry.ptr ptr (fun e => { e with lastHelloSeq := helloSeq }) nt.entries }
  let st :=
    if cfg.signalStrengthThreshold > 0 then
      aodvDbScAddschedule st timestamp etherNeighborAddr .updateRssi (.iface iface)
    else st
  let (ts, purged) := timeslotAddobject nt.ts timestamp currTime ptr
  purged.foldl dbNtOnNeigborTimeout ({ nt with ts }, st)

def dbNtCheck2Dneigh (nt : NeighborTable) (st : List Schedule) (etherNeighborAddr : MacAddr) (iface : Meshif)
    (timestamp : Timeval) : (NeighborTable × List Schedule) × Bool :=
  let nt := dbNtCleanup nt st timestamp
  (nt, (Keyed.lookup NeighborEntry.key (etherNeighborAddr, iface) nt.1.entries).isSome)

/-! ## The schedules that repeat a RREQ are left alone -/

theorem onNeighborTimeout_repeats (nt : NeighborTable × List Schedule) (el : TimeslotElement Nat) :
    (repeatsOf (dbNtOnNeigborTimeout nt el).2).Perm (repeatsOf nt.2) := by
  unfold dbNtOnNeigborTimeout
  split
  · exact List.Perm.refl _
  · rename_i currEntry _
    apply (List.Perm.of_eq (drop_other_repeats _ currEntry.etherNeighbor (by decide))).trans
    exact add_other_repeats nt.2 el.purgeTime currEntry.etherNeighbor .null (by decide)

theorem foldl_onTimeout_repeats (purged : List (TimeslotElement Nat)) (nt : NeighborTable × List Schedule) :
    (repeatsOf (purged.foldl dbNtOnNeigborTimeout nt).2).Perm (repeatsOf nt.2) := by
  induction purged generalizing nt with
  | nil => exact List.Perm.refl _
  | cons el els ih => exact (ih (dbNtOnNeigborTimeout nt el)).trans (onNeighborTimeout_repeats nt el)

theorem ntCleanup_repeats (nt : NeighborTable) (st : List Schedule) (timestamp : Timeval) :
    (repeatsOf (dbNtCleanup nt st timestamp).2).Perm (repeatsOf st) :=
  foldl_onTimeout_repeats _ ({ nt with ts := (timeslotPurgeobjects nt.ts timestamp).1 }, st)

theorem neighborReset_repeats (nt : NeighborTable) (st : List Schedule) (helloInterval : UInt16) :
    repeatsOf (aodvDbNtNeighborReset nt st helloInterval).2 = repeatsOf st := by
  unfold aodvDbNtNeighborReset
  simp only
  induction nt.entries generalizing st with
  | nil => rfl
  | cons e es ih => exact (ih _).trans (drop_other_repeats st e.etherNeighbor (by decide))

theorem cap2Dneigh_repeats (cfg : Config) (nt : NeighborTable) (st : List Schedule) (etherNeighborAddr : MacAddr)
    (helloSeq : UInt16) (iface : Meshif) (timestamp currTime : Timeval) :
    (repeatsOf (dbNtCap2Dneigh cfg nt st etherNeighborAddr helloSeq iface timestamp currTime).2).Perm
      (repeatsOf st) := by
  unfold dbNtCap2Dneigh
  apply (foldl_onTimeout_repeats _ _).trans
  simp only
  split
  · exact add_other_repeats st timestamp etherNeighborAddr (.iface iface) (by decide)
  · exact List.Perm.refl _

end DesAodv
