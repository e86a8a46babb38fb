import DesAodv.NeighborTable
import DesAodv.TimeslotMap

/-!
# The liveness of neighbors

A neighbor is present from a HELLO on until the lifetime that the HELLO interval
allows has passed. The entries, their timeslot and the callback of the timeslot
together are a map from neighbors to deadlines, and every neighbor that the map
loses has had one RERR scheduled for it.
-/

namespace DesAodv

open Deadlines

abbrev NeighborKey := MacAddr × Meshif

/-- What `db_nt_init` computes. -/
def neighborTimeout (helloInterval : UInt16) : Timeval := msec (helloInterval.toNat * (allowedHelloLost + 1))

/-! ## Calls -/

/-- `helloInterval` is the setting at the time of the reset. -/
inductive NtOp
  | cap2Dneigh (cfg : Config) (etherNeighborAddr : MacAddr) (helloSeq : UInt16) (iface : Meshif)
      (timestamp currTime : Timeval)
  | check2Dneigh (etherNeighborAddr : MacAddr) (iface : Meshif) (timestamp : Timeval)
  | cleanup (timestamp : Timeval)
  | neighborReset (helloInterval : UInt16)
  deriving DecidableEq, Repr

namespace NtOp

def step (s : NeighborTable × List Schedule) : NtOp → NeighborTable × List Schedule
  | cap2Dneigh cfg addr helloSeq iface timestamp currTime =>
    dbNtCap2Dneigh cfg s.1 s.2 addr helloSeq iface timestamp currTime
  | check2Dneigh addr iface timestamp => (dbNtCheck2Dneigh s.1 s.2 addr iface timestamp).1
  | cleanup timestamp => dbNtCleanup s.1 s.2 timestamp
  | neighborReset helloInterval => aodvDbNtNeighborReset s.1 s.2 helloInterval

/-- The timestamps and wall clock readings of a call. -/
def times : NtOp → List Timeval
  | cap2Dneigh _ _ _ _ timestamp currTime => [timestamp, currTime]
  | check2Dneigh _ _ timestamp => [timestamp]
  | cleanup timestamp => [timestamp]
  | neighborReset _ => []

/-- The call is `db_nt_cap2Dneigh` for the neighbor. -/
def Captures (k : NeighborKey) : NtOp → Prop
  | cap2Dneigh _ addr _ iface _ _ => (addr, iface) = k
  | _ => False

end NtOp

/-- The table with the entry of the neighbor found or made, before its timeout is renewed, and the address
of the entry. -/
def NeighborTable.captured (nt : NeighborTable) (etherNeighborAddr : MacAddr) (helloSeq : UInt16) (iface : Meshif) :
    NeighborTable × Nat :=
  let (nt, ptr) :=
    match Keyed.lookup NeighborEntry.key (etherNeighborAddr, iface) nt.entries with
    | some currEntry => (nt, currEntry.ptr)
    | none =>
      let currEntry : NeighborEntry :=
        { ptr := nt.fresh, etherNeighbor := etherNeighborAddr, iface, lastHelloSeq := 0,
          maxRssi := aodvSignalStrengthInit }
      ({ nt with entries := nt.entries ++ [currEntry], fresh := nt.fresh + 1 }, nt.fresh)
  ({ nt with entries := Keyed.modify NeighborEntry.ptr ptr (fun e => { e with lastHelloSeq := helloSeq }) nt.entries },
    ptr)

/-- The hosts for which the callbacks of a purge call `aodv_db_sc_addschedule` with
`AODV_SC_SEND_OUT_RERR`, in this order. -/
def timeoutRequests : NeighborTable × List Schedule → List (TimeslotElement Nat) → List MacAddr
  | _, [] => []
  | nt, el :: els =>
    ((Keyed.lookup NeighborEntry.ptr el.object nt.1.entries).map NeighborEntry.etherNeighbor).toList ++
      timeoutRequests (dbNtOnNeigborTimeout nt el) els

def purgeRequests (s : NeighborTable × List Schedule) (timestamp : Timeval) : List MacAddr :=
  let (ts, purged) := timeslotPurgeobjects s.1.ts timestamp
  timeoutRequests ({ s.1 with ts }, s.2) purged

/-- The hosts for which a call requests that a RERR be sent. -/
def NtOp.requests (s : NeighborTable × List Schedule) : NtOp → List MacAddr
  | cap2Dneigh _ addr helloSeq iface timestamp currTime =>
    let (nt, ptr) := s.1.captured addr helloSeq iface
    let (ts, purged) := timeslotAddobject nt.ts timestamp currTime ptr
    timeoutRequests ({ nt with ts }, s.2) purged
  | check2Dneigh _ _ timestamp => purgeRequests s timestamp
  | cleanup timestamp => purgeRequests s timestamp
  | neighborReset _ => []

/-! ## The table as a map -/

namespace NeighborTable

def live (nt : NeighborTable) : NeighborKey → Option Timeval :=
  byKey NeighborEntry.key NeighborEntry.ptr nt.entries nt.ts.deadline

/-- The neighbor has an entry. -/
def Present (nt : NeighborTable) (k : NeighborKey) : Prop :=
  (Keyed.lookup NeighborEntry.key k nt.entries).isSome

/-- Entries and timeslot agree. -/
structure Ok (nt : NeighborTable) : Prop where
  ordered : nt.ts.Ordered
  tracked : Tracked NeighborEntry.key NeighborEntry.ptr nt.entries nt.ts.deadline
  allocated : ∀ e ∈ nt.entries, e.ptr < nt.fresh

theorem ok_empty (helloInterval : UInt16) (fresh : Nat) : Ok { dbNtInit helloInterval with fresh } :=
  ⟨Timeslot.ordered_create _, tracked_nil, fun _ he => nomatch he⟩

section
variable {nt : NeighborTable}

theorem Ok.present_iff (hn : nt.Ok) {k : NeighborKey} : nt.Present k ↔ nt.live k ≠ none := by
  rw [live, hn.tracked.byKey_ne_none, Present, Option.isSome_iff_ne_none, ne_eq, Keyed.lookup_eq_none]
  simp

/-! ## Timeouts -/

theorem onTimeout_entries (nt : NeighborTable × List Schedule) (el : TimeslotElement Nat) :
    (dbNtOnNeigborTimeout nt el).1 =
      { nt.1 with entries := Keyed.erase NeighborEntry.ptr el.object nt.1.entries } := by
  unfold dbNtOnNeigborTimeout
  split
  · rename_i h
    rw [Keyed.erase_absent (Keyed.lookup_eq_none.mp h)]
  · rfl

theorem foldl_onTimeout (purged : List (TimeslotElement Nat)) (s : NeighborTable × List Schedule) :
    (purged.foldl dbNtOnNeigborTimeout s).1 =
      { s.1 with
        entries := s.1.entries.filter fun e => decide (e.ptr ∉ purged.map TimeslotElement.object) } := by
  induction purged generalizing s with
  | nil => simp
  | cons el els ih =>
    rw [List.foldl_cons, ih, onTimeout_entries]
    simp only [Keyed.filter_erase, List.map_cons]

theorem timeoutRequests_eq (purged : List (TimeslotElement Nat)) (hn : (purged.map TimeslotElement.object).Nodup)
    (s : NeighborTable × List Schedule) : timeoutRequests s purged =
      (goneKeys NeighborEntry.key NeighborEntry.ptr s.1.entries (Timeslot.calls purged)).map fun g => g.1.1 := by
  induction purged generalizing s with
  | nil => rfl
  | cons el els ih =>
    obtain ⟨hel, hn'⟩ := List.nodup_cons.mp hn
    have hsame : goneKeys NeighborEntry.key NeighborEntry.ptr (dbNtOnNeigborTimeout s el).1.entries
        (Timeslot.calls els) = goneKeys NeighborEntry.key NeighborEntry.ptr s.1.entries (Timeslot.calls els) := by
      refine List.filterMap_congr fun g hg => ?_
      obtain ⟨el', hel', rfl⟩ := List.mem_map.mp hg
      have hne : el.object ≠ el'.object := fun h => hel (h ▸ List.mem_map_of_mem hel')
      rw [onTimeout_entries]
      simp only [Keyed.lookup_erase_ne NeighborEntry.ptr hne]
    rw [timeoutRequests, ih hn', hsame]
    cases hl : Keyed.lookup NeighborEntry.ptr el.object s.1.entries with
    | none => simp [goneKeys, Timeslot.calls, hl]
    | some e => simp [goneKeys, Timeslot.calls, hl, NeighborEntry.key]

/-- A purge of the timeslot with its callbacks is one of the map. -/
theorem purged_spec {ts : Timeslot Nat} {purged : List (TimeslotElement Nat)} {d : Nat → Option Timeval}
    {T : Timeval} (hord : ts.Ordered) (htracked : Tracked NeighborEntry.key NeighborEntry.ptr nt.entries d)
    (halloc : ∀ e ∈ nt.entries, e.ptr < nt.fresh) (hr : Removed d T (Timeslot.calls purged) ts.deadline)
    (st st' : List Schedule) :
    (purged.foldl dbNtOnNeigborTimeout ({ nt with ts }, st)).1.Ok ∧
      (purged.foldl dbNtOnNeigborTimeout ({ nt with ts }, st)).1.ts = ts ∧
      ∃ gone, Removed (byKey NeighborEntry.key NeighborEntry.ptr nt.entries d) T gone
          (purged.foldl dbNtOnNeigborTimeout ({ nt with ts }, st)).1.live ∧
        timeoutRequests ({ nt with ts }, st') purged = gone.map fun g => g.1.1 := by
  obtain ⟨ht, hg⟩ := Timeslot.tracked_purged htracked hr
  rw [foldl_onTimeout]
  refine ⟨⟨hord, ht, fun e he => halloc e (List.mem_of_mem_filter he)⟩, rfl, _, hg, ?_⟩
  exact timeoutRequests_eq purged (Timeslot.calls_objects purged ▸ hr.once) ({ nt with ts }, st')

theorem Ok.cleanup (hn : nt.Ok) (st : List Schedule) (timestamp : Timeval) :
    (dbNtCleanup nt st timestamp).1.Ok ∧ (dbNtCleanup nt st timestamp).1.ts.purgeTimeout = nt.ts.purgeTimeout ∧
      Unexpired (dbNtCleanup nt st timestamp).1.live timestamp ∧
      ∃ gone, Removed nt.live timestamp gone (dbNtCleanup nt st timestamp).1.live ∧
        purgeRequests (nt, st) timestamp = gone.map fun g => g.1.1 := by
  obtain ⟨hr, hu⟩ := hn.ordered.purge_removed timestamp
  obtain ⟨hok, hts, hgone⟩ := purged_spec (hn.ordered.purge timestamp) hn.tracked hn.allocated hr st st
  refine ⟨hok, ?_, ?_, hgone⟩
  · have hto := congrArg Timeslot.purgeTimeout hts
    rw [purge_timeout] at hto
    exact hto
  · intro k t hk
    obtain ⟨e, -, -, hd⟩ := (byKey_eq_some hok.tracked.keys).mp hk
    have hts' : (dbNtCleanup nt st timestamp).1.ts = (timeslotPurgeobjects nt.ts timestamp).1 := hts
    rw [hts'] at hd
    exact hu _ t hd

theorem Ok.captured (hn : nt.Ok) (addr : MacAddr) (helloSeq : UInt16) (iface : Meshif) (t : Timeval) :
    (nt.captured addr helloSeq iface).1.ts = nt.ts ∧
      (∀ e ∈ (nt.captured addr helloSeq iface).1.entries, e.ptr < (nt.captured addr helloSeq iface).1.fresh) ∧
      Tracked NeighborEntry.key NeighborEntry.ptr (nt.captured addr helloSeq iface).1.entries
        (Function.update nt.ts.deadline (nt.captured addr helloSeq iface).2 (some t)) ∧
      byKey NeighborEntry.key NeighborEntry.ptr (nt.captured addr helloSeq iface).1.entries
          (Function.update nt.ts.deadline (nt.captured addr helloSeq iface).2 (some t)) =
        Function.update nt.live (addr, iface) (some t) := by
  unfold NeighborTable.captured
  cases hl : Keyed.lookup NeighborEntry.key (addr, iface) nt.entries with
  | some e =>
    obtain ⟨he, hk⟩ := (Keyed.lookup_eq_some hn.tracked.keys).mp hl
    obtain ⟨ht, hb⟩ := hn.tracked.set he t
    obtain ⟨ht', hb'⟩ := ht.modify NeighborEntry.ptr e.ptr
      (f := fun e => { e with lastHelloSeq := helloSeq }) (fun _ => rfl) fun _ => rfl
    refine ⟨rfl, Keyed.allocated_modify hn.allocated fun _ => rfl, ht', ?_⟩
    rw [hk] at hb
    exact hb'.trans hb
  | none =>
    let new : NeighborEntry :=
      { ptr := nt.fresh, etherNeighbor := addr, iface, lastHelloSeq := 0, maxRssi := aodvSignalStrengthInit }
    have hptr : ∀ a ∈ nt.entries, a.ptr ≠ new.ptr := fun a ha => Nat.ne_of_lt (hn.allocated a ha)
    obtain ⟨ht, hb⟩ := hn.tracked.add (e := new) hl hptr t
    obtain ⟨ht', hb'⟩ := ht.modify NeighborEntry.ptr new.ptr
      (f := fun e => { e with lastHelloSeq := helloSeq }) (fun _ => rfl) fun _ => rfl
    have halloc : ∀ e ∈ nt.entries ++ [new], e.ptr < nt.fresh + 1 := Keyed.allocated_concat hn.allocated rfl
    refine ⟨rfl, Keyed.allocated_modify halloc fun _ => rfl, ht', ?_⟩
    exact hb'.trans hb

theorem Ok.cap2Dneigh (hn : nt.Ok) (st : List Schedule) (cfg : Config) (addr : MacAddr) (helloSeq : UInt16)
    (iface : Meshif) (timestamp currTime : Timeval) :
    let op := NtOp.cap2Dneigh cfg addr helloSeq iface timestamp currTime
    (op.step (nt, st)).1.Ok ∧ (op.step (nt, st)).1.ts.purgeTimeout = nt.ts.purgeTimeout ∧
      ∃ gone, Removed (Function.update nt.live (addr, iface) (some (timestamp + nt.ts.purgeTimeout))) currTime gone
          (op.step (nt, st)).1.live ∧
        op.requests (nt, st) = gone.map fun g => g.1.1 := by
  intro op
  obtain ⟨hts, halloc, htracked, hlive⟩ := hn.captured addr helloSeq iface (timestamp + nt.ts.purgeTimeout)
  obtain ⟨hord, hr⟩ := hn.ordered.add_removed timestamp currTime (nt.captured addr helloSeq iface).2
    nt.ts.purgeTimeout
  have hadd : timeslotAddobject (nt.captured addr helloSeq iface).1.ts timestamp currTime
      (nt.captured addr helloSeq iface).2 =
      timeslotAddobjectVarpurge nt.ts timestamp currTime (nt.captured addr helloSeq iface).2 nt.ts.purgeTimeout := by
    rw [hts]
    rfl
  rw [← hadd] at hord hr
  let st' :=
    if cfg.signalStrengthThreshold > 0 then aodvDbScAddschedule st timestamp addr .updateRssi (.iface iface) else st
  obtain ⟨hok, hts', gone, hgone, hreq⟩ := purged_spec hord htracked halloc hr st' st
  have hstep : op.step (nt, st) =
      (timeslotAddobject (nt.captured addr helloSeq iface).1.ts timestamp currTime
        (nt.captured addr helloSeq iface).2).2.foldl dbNtOnNeigborTimeout
        ({ (nt.captured addr helloSeq iface).1 with
            ts := (timeslotAddobject (nt.captured addr helloSeq iface).1.ts timestamp currTime
              (nt.captured addr helloSeq iface).2).1 }, st') := rfl
  rw [hlive] at hgone
  rw [hstep]
  refine ⟨hok, ?_, gone, hgone, hreq⟩
  rw [hts', hadd, add_timeout]

end

end NeighborTable

/-! ## Histories -/

/-- What a history of calls says: the last HELLO of each neighbor since the last reset, and the HELLO
interval that was set then. -/
structure NtHistory where
  last : NeighborKey → Option Timeval
  helloInterval : UInt16

namespace NtHistory

def step (h : NtHistory) : NtOp → NtHistory
  | .cap2Dneigh _ addr _ iface timestamp _ => { h with last := Function.update h.last (addr, iface) (some timestamp) }
  | .neighborReset helloInterval => { last := fun _ => none, helloInterval }
  | _ => h

def init (helloInterval : UInt16) : NtHistory := { last := fun _ => none, helloInterval }

def timeout (h : NtHistory) : Timeval := neighborTimeout h.helloInterval

end NtHistory

open NeighborTable

/-- At the time `clock` the table holds the neighbors whose last HELLO is recent, and of the others none
whose time has not come. -/
structure Follows (clock : Timeval) (h : NtHistory) (nt : NeighborTable) : Prop where
  ok : nt.Ok
  timeout : nt.ts.purgeTimeout = h.timeout
  live : ∀ k t, nt.live k = some t → ∃ t0, h.last k = some t0 ∧ t = t0 + h.timeout
  gone : ∀ k t0, h.last k = some t0 → nt.live k = none → t0 + h.timeout ≤ clock

namespace Follows

section
variable {clock : Timeval} {h : NtHistory} {nt : NeighborTable}

theorem start (clock : Timeval) (helloInterval : UInt16) (fresh : Nat) :
    Follows clock (.init helloInterval) { dbNtInit helloInterval with fresh } := by
  refine ⟨ok_empty helloInterval fresh, rfl, fun k t hk => ?_, fun k t0 hk => ?_⟩
  · cases hk
  · cases hk

theorem removed {now : Timeval} {d : NeighborKey → Option Timeval} {gone : List (NeighborKey × Timeval)}
    {nt' : NeighborTable} (hok : nt'.Ok) (hto : nt'.ts.purgeTimeout = h.timeout) (hr : Removed d now gone nt'.live)
    (hlive : ∀ k t, d k = some t → ∃ t0, h.last k = some t0 ∧ t = t0 + h.timeout)
    (hgone : ∀ k t0, h.last k = some t0 → d k = none → t0 + h.timeout ≤ now) : Follows now h nt' := by
  refine ⟨hok, hto, fun k t hk => hlive k t ((hr.rest k t).mp hk).1, fun k t0 hl hk => ?_⟩
  cases hd : d k with
  | none => exact hgone k t0 hl hd
  | some t =>
    -- the neighbor has just been removed, so its time has come
    obtain ⟨g, hg, rfl⟩ := List.mem_map.mp ((hr.gone k).mpr ⟨by rw [hd]; exact Option.some_ne_none t, hk⟩)
    obtain ⟨hdg, hle⟩ := hr.due _ _ hg
    obtain ⟨t0', hl', ht⟩ := hlive _ _ hdg
    obtain rfl := Option.some.inj (hl.symm.trans hl')
    rw [← ht]
    exact hle

theorem cleanup (hf : Follows clock h nt) (st : List Schedule) {timestamp : Timeval} (hle : clock ≤ timestamp) :
    Follows timestamp h (dbNtCleanup nt st timestamp).1 := by
  obtain ⟨hok, hto, -, gone, hr, -⟩ := hf.ok.cleanup st timestamp
  refine removed hok (hto.trans hf.timeout) hr hf.live fun k t0 hl hk => ?_
  exact Nat.le_trans (hf.gone k t0 hl hk) hle

theorem cap2Dneigh (hf : Follows clock h nt) (st : List Schedule) (cfg : Config) (addr : MacAddr)
    (helloSeq : UInt16) (iface : Meshif) {timestamp currTime : Timeval} (hle : clock ≤ currTime) :
    Follows currTime (h.step (.cap2Dneigh cfg addr helloSeq iface timestamp currTime))
      (dbNtCap2Dneigh cfg nt st addr helloSeq iface timestamp currTime).1 := by
  obtain ⟨hok, hto, gone, hr, -⟩ := hf.ok.cap2Dneigh st cfg addr helloSeq iface timestamp currTime
  refine removed hok (hto.trans hf.timeout) hr (fun k t hk => ?_) fun k t0 hl hk => ?_
  · by_cases hka : k = (addr, iface)
    · subst hka
      rw [Function.update_self] at hk
      refine ⟨timestamp, Function.update_self _ _ _, ?_⟩
      rw [← Option.some.inj hk, hf.timeout]
      rfl
    · rw [Function.update_of_ne hka] at hk
      obtain ⟨t0, hl, ht⟩ := hf.live k t hk
      exact ⟨t0, (Function.update_of_ne hka _ _).trans hl, ht⟩
  · by_cases hka : k = (addr, iface)
    · subst hka
      rw [Function.update_self] at hk
      cases hk
    · rw [Function.update_of_ne hka] at hk
      have hl' : h.last k = some t0 := (Function.update_of_ne hka _ _).symm.trans hl
      exact Nat.le_trans (hf.gone k t0 hl' hk) hle

theorem check (hf : Follows clock h nt) (st : List Schedule) (addr : MacAddr) (iface : Meshif) {timestamp : Timeval}
    (hle : clock ≤ timestamp) : (dbNtCheck2Dneigh nt st addr iface timestamp).2 = true ↔
      ∃ t0, h.last (addr, iface) = some t0 ∧ timestamp < t0 + h.timeout := by
  obtain ⟨hok, -, hu, gone, hr, -⟩ := hf.ok.cleanup st timestamp
  have hres : (dbNtCheck2Dneigh nt st addr iface timestamp).2 = true ↔
      (dbNtCleanup nt st timestamp).1.live (addr, iface) ≠ none := hok.present_iff
  rw [hres, Option.ne_none_iff_exists']
  constructor
  · intro ⟨t, ht⟩
    obtain ⟨t0, hl, rfl⟩ := hf.live _ t ((hr.rest _ t).mp ht).1
    exact ⟨t0, hl, hu _ _ ht⟩
  · intro ⟨t0, hl, hlt⟩
    have halive : nt.live (addr, iface) ≠ none := by
      intro hn
      exact absurd (Nat.lt_of_lt_of_le hlt (hf.gone _ t0 hl hn)) (Nat.not_lt.mpr hle)
    obtain ⟨t, ht⟩ := Option.ne_none_iff_exists'.mp halive
    obtain ⟨t0', hl', rfl⟩ := hf.live _ t ht
    obtain rfl := Option.some.inj (hl.symm.trans hl')
    refine ⟨_, (hr.rest _ _).mpr ⟨ht, fun hm => ?_⟩⟩
    obtain ⟨g, hg, hgk⟩ := List.mem_map.mp hm
    obtain ⟨hd, hdue⟩ := hr.due g.1 g.2 hg
    rw [hgk, ht] at hd
    rw [← Option.some.inj hd] at hdue
    exact absurd hlt (Nat.not_lt.mpr hdue)

end

/-- Along a run whose clock never goes back the table follows the history. -/
theorem run {clock : Timeval} {h : NtHistory} {s : NeighborTable × List Schedule} (hf : Follows clock h s.1)
    {pre post : List NtOp} (hclock : (clock :: (pre ++ post).flatMap NtOp.times).Pairwise (· ≤ ·)) :
    ∃ clock', Follows clock' (Runs.exec NtHistory.step h pre) (Runs.exec NtOp.step s pre).1 ∧
      (clock' :: post.flatMap NtOp.times).Pairwise (· ≤ ·) := by
  induction pre generalizing clock h s with
  | nil => exact ⟨clock, hf, hclock⟩
  | cons op pre ih =>
    rw [List.cons_append, List.flatMap_cons] at hclock
    cases op with
    | cap2Dneigh cfg addr helloSeq iface timestamp currTime =>
      obtain ⟨hle, htail⟩ := List.pairwise_cons.mp hclock
      have hle' := hle currTime (by simp [NtOp.times])
      exact ih (hf.cap2Dneigh s.2 cfg addr helloSeq iface hle') (List.pairwise_cons.mp htail).2
    | check2Dneigh addr iface timestamp =>
      obtain ⟨hle, htail⟩ := List.pairwise_cons.mp hclock
      exact ih (hf.cleanup s.2 (hle timestamp (by simp [NtOp.times]))) htail
    | cleanup timestamp =>
      obtain ⟨hle, htail⟩ := List.pairwise_cons.mp hclock
      exact ih (hf.cleanup s.2 (hle timestamp (by simp [NtOp.times]))) htail
    | neighborReset helloInterval => exact ih (start clock helloInterval s.1.fresh) hclock

end Follows

/-! ## Requests -/

namespace NtOp

/-- Every neighbor that has an entry or gets one in a call other than a reset, and has none afterwards,
has had one RERR requested; and no other. -/
def RequestsExpired (s : NeighborTable × List Schedule) (op : NtOp) : Prop :=
  ∃ gone : List NeighborKey, gone.Nodup ∧ op.requests s = gone.map Prod.fst ∧
    ∀ k, k ∈ gone ↔ (∀ helloInterval, op ≠ .neighborReset helloInterval) ∧ (s.1.Present k ∨ op.Captures k) ∧
      ¬ (op.step s).1.Present k

theorem requestsExpired_of_removed {s : NeighborTable × List Schedule} {op : NtOp} (hn : s.1.Ok)
    (hok : (op.step s).1.Ok) (hop : ∀ helloInterval, op ≠ .neighborReset helloInterval) {T : Timeval}
    {d : NeighborKey → Option Timeval} {gone : List (NeighborKey × Timeval)}
    (hd : ∀ k, d k ≠ none ↔ s.1.live k ≠ none ∨ op.Captures k)
    (hr : Removed d T gone (op.step s).1.live) (hreq : op.requests s = gone.map fun g => g.1.1) :
    op.RequestsExpired s := by
  refine ⟨gone.map Prod.fst, hr.once, ?_, fun k => ?_⟩
  · rw [hreq, List.map_map]
    rfl
  · rw [hr.gone, hd, ← hn.present_iff, and_iff_right hop, hok.present_iff, not_not]

theorem requestsExpired {s : NeighborTable × List Schedule} (hn : s.1.Ok) (op : NtOp) : op.RequestsExpired s := by
  cases op with
  | cap2Dneigh cfg addr helloSeq iface timestamp currTime =>
    obtain ⟨hok, -, gone, hr, hreq⟩ := hn.cap2Dneigh s.2 cfg addr helloSeq iface timestamp currTime
    refine requestsExpired_of_removed hn hok (fun _ h => nomatch h) (fun k => ?_) hr hreq
    by_cases hk : k = (addr, iface)
    · subst hk
      rw [Function.update_self]
      exact iff_of_true (Option.some_ne_none _) (.inr rfl)
    · rw [Function.update_of_ne hk]
      exact (or_iff_left fun hc => hk (Eq.symm hc)).symm
  | check2Dneigh addr iface timestamp =>
    obtain ⟨hok, -, -, gone, hr, hreq⟩ := hn.cleanup s.2 timestamp
    exact requestsExpired_of_removed hn hok (fun _ h => nomatch h) (fun k => (or_iff_left id).symm) hr hreq
  | cleanup timestamp =>
    obtain ⟨hok, -, -, gone, hr, hreq⟩ := hn.cleanup s.2 timestamp
    exact requestsExpired_of_removed hn hok (fun _ h => nomatch h) (fun k => (or_iff_left id).symm) hr hreq
  | neighborReset helloInterval =>
    refine ⟨[], List.nodup_nil, rfl, fun k => ?_⟩
    refine iff_of_false List.not_mem_nil fun h => ?_
    exact h.1 helloInterval rfl

/-- Two neighbors, of which the first is heard once and the second twice. -/
def twoNeighbors : List NtOp :=
  [.cap2Dneigh {} 2 1 ⟨1, 16⟩ 0 1, .cap2Dneigh {} 3 1 ⟨1, 16⟩ 10 10, .cap2Dneigh {} 3 2 ⟨1, 16⟩ 1000010 1000010,
    .cleanup 5000001]

/-- The cleanup lets the first neighbor go. -/
example : NtOp.requests (Runs.exec step (dbNtInit 1000, []) (twoNeighbors.take 3)) (.cleanup 5000001) = [2] := by
  decide

end NtOp

end DesAodv
