import DesAodv.ReverseRoute
import DesAodv.RerrMessages

/-!
# Routes over a lost neighbor

The `AODV_SC_SEND_OUT_RERR` schedule of a neighbor invalidates the entries that
the index lists under it, unless too many RERRs have been sent. The schedule is
gone either way.
-/

namespace DesAodv

namespace Rt

/-- The index refers to `e` under the next hop. -/
def listedUnder (rt : Rt) (nextHop : MacAddr) (e : RtEntry) : Bool :=
  (nhtFind rt.nht nextHop).any fun x => x.destList.any fun dest => decide (dest.rtEntry = e.ptr)

/-- Invalidation of the listed entries. -/
def markListed (rt : Rt) (nextHop : MacAddr) (e : RtEntry) : RtEntry :=
  if rt.listedUnder nextHop e then e.markInvalid else e

theorem foldl_markInvalid_entries (rt : Rt) (destList : List NhtDestlistEntry) :
    (destList.foldl (fun rt dest => rt.write dest.rtEntry RtEntry.markInvalid) rt).entries =
      rt.entries.map fun e =>
        if (destList.any fun dest => decide (dest.rtEntry = e.ptr)) = true then e.markInvalid else e := by
  induction destList generalizing rt with
  | nil => exact (List.map_id _).symm
  | cons d ds ih =>
    rw [List.foldl_cons, ih]
    simp only [write, Keyed.modify, List.map_map]
    apply List.map_congr_left
    intro e _
    simp only [Function.comp, List.any_cons]
    by_cases hd : e.ptr = d.rtEntry
    · simp [hd]
    · have hd' : ¬ d.rtEntry = e.ptr := fun h => hd h.symm
      simp [hd, hd']

theorem invOverNexthop_entries (rt : Rt) (nextHop : MacAddr) :
    (aodvDbRtInvOverNexthop rt nextHop).1.entries = rt.entries.map (rt.markListed nextHop) := by
  simp only [aodvDbRtInvOverNexthop]
  cases h : nhtFind rt.nht nextHop with
  | none =>
    have hm : rt.markListed nextHop = id := by
      funext e
      simp [markListed, listedUnder, h]
    rw [hm, List.map_id]
  | some x =>
    refine (foldl_markInvalid_entries rt x.destList).trans (List.map_congr_left fun e _ => ?_)
    simp [markListed, listedUnder, h]

theorem markListed_addr (rt : Rt) (nextHop : MacAddr) (e : RtEntry) : (rt.markListed nextHop e).addr = e.addr := by
  unfold markListed
  split <;> rfl

theorem find_invOverNexthop (rt : Rt) (nextHop host : MacAddr) :
    (aodvDbRtInvOverNexthop rt nextHop).1.find host = (rt.find host).map (rt.markListed nextHop) := by
  unfold find
  rw [invOverNexthop_entries]
  exact Keyed.lookup_map RtEntry.addr host _ (markListed_addr rt nextHop) rt.entries

/-- An exact index lists an entry under its next hop only, and there if it is known. -/
theorem Indexed.listedUnder_iff {rt : Rt} (hi : rt.Indexed) (hw : rt.WF) (hn : NhtOk rt.nht) {e : RtEntry}
    (he : e ∈ rt.entries) (nextHop : MacAddr) :
    rt.listedUnder nextHop e = true ↔ e.flags.nextHopUnknown = false ∧ e.nextHop = nextHop := by
  have hl : rt.listedUnder nextHop e = true ↔
      ∃ x ∈ rt.nht, x.destinationHostNextHop = nextHop ∧ ∃ d ∈ x.destList, d.rtEntry = e.ptr := by
    simp only [listedUnder, Option.any_eq_true, List.any_eq_true, decide_eq_true_eq, nhtFind,
      Keyed.lookup_eq_some hn.keys, and_assoc]
  rw [hl]
  refine ⟨fun h => ?_, fun h => ?_⟩
  · obtain ⟨x, hx, hxn, d, hd, hp⟩ := h
    obtain ⟨e', he', -, hk, hn', hp'⟩ := (hi.exact nextHop d.destinationHost e.ptr).mp ⟨x, hx, hxn, d, hd, rfl, hp⟩
    rw [← hw.ext_ptr he' he hp']
    exact ⟨hk, hn'⟩
  · obtain ⟨x, hx, hxn, d, hd, -, hp⟩ := (hi.exact nextHop e.addr e.ptr).mpr ⟨e, he, rfl, h.1, h.2, rfl⟩
    exact ⟨x, hx, hxn, d, hd, hp⟩

theorem find_getDestlist (rt : Rt) (nextHop host : MacAddr) :
    (aodvDbRtGetDestlist rt nextHop).1.find host = rt.find host := by
  unfold aodvDbRtGetDestlist
  split <;> rfl

end Rt

namespace Node

/-- Too many RERRs have been sent in the last second. -/
def rerrLimited (n : Node) (now : Timeval) : Bool :=
  decide ((aodvDbRlGetrerrcount n.rerrLog now).2 ≥ rerrRatelimit)

section
variable (L : Libdessert) (n : Node)

/-- The routing table after the `AODV_SC_SEND_OUT_RERR` schedule of a neighbor. -/
theorem find_scSendOutRerr (etherAddr : MacAddr) (now : Timeval) (host : MacAddr) :
    (n.scSendOutRerr L etherAddr now).1.rt.find host =
      if n.rerrLimited now then n.rt.find host else (n.rt.find host).map (n.rt.markListed etherAddr) := by
  unfold scSendOutRerr rerrLimited
  simp only [decide_eq_true_eq]
  split
  · rfl
  · have hi := Rt.find_invOverNexthop n.rt etherAddr host
    split
    · exact hi
    · have hd := (Rt.find_getDestlist (aodvDbRtInvOverNexthop n.rt etherAddr).1 etherAddr host).trans hi
      split <;> exact hd

variable {L n} {now : Timeval} {avgRssi : Int8} {sc : Schedule} {st : List Schedule}

theorem step_sendOutRerr (hh : n.hung = false) (hp : aodvDbScPopschedule n.st now = some (sc, st))
    (hs : sc.scheduleId = .sendOutRerr) :
    n.handle L (.scexecute now avgRssi) = ({ n with st } : Node).scSendOutRerr L sc.etherAddr now := by
  simp only [handle, hh, Bool.false_eq_true, if_false, aodvPeriodicScexecute, hp, hs]

theorem find_after_sendOutRerr (hh : n.hung = false) (hp : aodvDbScPopschedule n.st now = some (sc, st))
    (hs : sc.scheduleId = .sendOutRerr) (host : MacAddr) :
    (n.step L (.scexecute now avgRssi)).rt.find host =
      if n.rerrLimited now then n.rt.find host
      else (n.rt.find host).map (n.rt.markListed sc.etherAddr) := by
  simp only [step, step_sendOutRerr hh hp hs]
  exact find_scSendOutRerr L { n with st } sc.etherAddr now host

theorem noRouteOver_of_listed (hh : n.hung = false) (hp : aodvDbScPopschedule n.st now = some (sc, st))
    (hs : sc.scheduleId = .sendOutRerr)
    (h : ∀ e ∈ n.rt.entries, e.valid = true → e.nextHop = sc.etherAddr →
      n.rerrLimited now = false ∧ n.rt.listedUnder sc.etherAddr e = true)
    (host : MacAddr) (iface : Option Meshif) :
    (n.step L (.scexecute now avgRssi)).routeTo host ≠ some (sc.etherAddr, iface) := by
  intro hr
  obtain ⟨e', he', hv', hn', -⟩ := routeTo_eq_some.mp hr
  rw [find_after_sendOutRerr hh hp hs] at he'
  cases hlim : n.rerrLimited now with
  | true =>
    rw [hlim] at he'
    have hc := h e' (Rt.find_mem he') hv' hn'
    rw [hlim] at hc
    cases hc.1
  | false =>
    rw [hlim] at he'
    obtain ⟨e, he, rfl⟩ := Option.map_eq_some_iff.mp he'
    by_cases hl : n.rt.listedUnder sc.etherAddr e = true
    · have hm : n.rt.markListed sc.etherAddr e = e.markInvalid := if_pos hl
      rw [hm] at hv'
      simp [RtEntry.valid, RtEntry.markInvalid] at hv'
    · have hm : n.rt.markListed sc.etherAddr e = e := if_neg hl
      rw [hm] at hv' hn'
      exact hl (h e (Rt.find_mem he) hv' hn').2

/-- After the schedule of a lost neighbor has been popped no route leads over it exactly if, for every
valid route over it, the limit of RERRs was not reached and the index lists the route there. -/
theorem noRouteOver_iff (hn : Reachable L n) (hh : n.hung = false)
    (hp : aodvDbScPopschedule n.st now = some (sc, st)) (hs : sc.scheduleId = .sendOutRerr) :
    (∀ host iface, (n.step L (.scexecute now avgRssi)).routeTo host ≠ some (sc.etherAddr, iface)) ↔
      ∀ e ∈ n.rt.entries, e.valid = true → e.nextHop = sc.etherAddr →
        n.rerrLimited now = false ∧ n.rt.listedUnder sc.etherAddr e = true := by
  refine ⟨fun h e he hv hnh => ?_, noRouteOver_of_listed hh hp hs⟩
  have hno : ∀ e', (n.step L (.scexecute now avgRssi)).rt.find e.addr = some e' →
      e'.nextHop = sc.etherAddr → e'.valid = false := by
    intro e' he' hn'
    by_contra hv'
    exact h e.addr e'.outputIface (routeTo_eq_some.mpr ⟨e', he', by simpa using hv', hn', rfl⟩)
  rw [find_after_sendOutRerr hh hp hs, hn.wf.find_iff.mpr ⟨he, rfl⟩] at hno
  cases hlim : n.rerrLimited now with
  | true =>
    rw [hlim] at hno
    exact absurd (hno e rfl hnh) (by rw [hv]; exact Bool.noConfusion)
  | false =>
    rw [hlim] at hno
    refine ⟨rfl, ?_⟩
    by_contra hl
    have hm : n.rt.markListed sc.etherAddr e = e := if_neg hl
    exact absurd (hno e (by simp [hm]) hnh) (by rw [hv]; exact Bool.noConfusion)

/-- An exact index lists every entry under its next hop, so only the limit matters. -/
theorem noRouteOver_of_indexed (hr : Reachable L n) (hi : n.rt.Indexed) (hh : n.hung = false)
    (hp : aodvDbScPopschedule n.st now = some (sc, st)) (hs : sc.scheduleId = .sendOutRerr)
    (hlim : n.rerrLimited now = false) (host : MacAddr) (iface : Option Meshif) :
    (n.step L (.scexecute now avgRssi)).routeTo host ≠ some (sc.etherAddr, iface) := by
  refine noRouteOver_of_listed hh hp hs (fun e he hv hnh => ⟨hlim, ?_⟩) host iface
  have hk : e.flags.nextHopUnknown = false := by
    simp only [RtEntry.valid, Bool.and_eq_true, Bool.not_eq_true'] at hv
    exact hv.1
  exact (hi.listedUnder_iff hr.wf hr.nht he sc.etherAddr).mpr ⟨hk, hnh⟩

end

/-! ## A neighbor that is lost -/

/-- The last message of a handshake of hellos. -/
def helloFrom (neighbor : MacAddr) : DessertMsg :=
  { dessertMsgNew with
    ttl := 1
    l2Shost := neighbor
    l2Dhost := wlan.hwaddr
    exts := [.hello { helloRcvdCount := 0, helloInterval := 1000 }] }

def dataFrom (source destination : MacAddr) (seq : UInt16) : DessertMsg :=
  { dessertMsgNew with ttl := ttlMax, u16 := seq, l25Shost := source, l25Dhost := destination }

/-- A node with a route to 5 over its neighbor 1, when that has timed out. -/
def neighborLost : List NodeEvent :=
  [.mesh .handleHello (rxAt 0) (helloFrom 1), .mesh .handleRreq (rxAt 0) (rreqFrom 5 9 1 1 0),
    .cleanupDatabase 5500000]

def lostSchedule : Schedule :=
  { executeTs := 5000000, etherAddr := 1, scheduleId := .sendOutRerr, scheduleParam := .null }

theorem noRouteOver_lost :
    let n := Runs.exec (Node.step roomy) (aodvDbInit {} 8 [wlan]) neighborLost
    aodvDbScPopschedule n.st 5500000 = some (lostSchedule, []) ∧
      ∀ host iface, (n.step roomy (.scexecute 5500000 0)).routeTo host ≠ some (1, iface) :=
  ⟨by decide,
    (@noRouteOver_iff roomy _ 5500000 0 lostSchedule [] ⟨{}, 8, [wlan], neighborLost, rfl⟩ (by decide)
      (by decide) rfl).mpr (by decide)⟩

/-- In the same second ten packets arrive that cannot be forwarded. -/
def neighborLostInFlood : List NodeEvent :=
  neighborLost ++ (List.range 10).map fun i => .mesh .forward (rxAt 5500000) (dataFrom 7 77 (UInt16.ofNat (i + 1)))

theorem routeOver_after_flood :
    let n := Runs.exec (Node.step roomy) (aodvDbInit {} 8 [wlan]) neighborLostInFlood
    aodvDbScPopschedule n.st 5500000 = some (lostSchedule, []) ∧
      (n.step roomy (.scexecute 5500000 0)).routeTo 5 = some (1, some wlan) ∧
      (n.step roomy (.scexecute 5500000 0)).st = [] := by
  decide

end Node

end DesAodv
