import DesAodv.RtSpec
import DesAodv.Runs

/-!
# Operations on the routing table

`RtOp` lists what the handlers of a daemon do to its routing table, and
`Rt.step` is one such operation. The captures write the entry of one host;
every other operation leaves each entry as it was, invalidates it or drops it.
-/

namespace DesAodv

/-- `rreq` is the work of `aodv_handle_rreq`: the capture of the RREQ, and the forced capture as RREP
if it was not old. `overread` is the access to the address array of a RERR. -/
inductive RtOp
  | rreq (metricType : AodvMetric) (destinationHost originatorHost prevHop : MacAddr) (iface : Meshif)
      (originatorSequenceNumber : UInt32) (metric : Metric) (hopCount : UInt8) (now : Timeval)
  | rrep (destinationHost nextHop : MacAddr) (iface : Meshif) (destinationSequenceNumber : UInt32)
      (metric : Metric) (hopCount : UInt8) (now : Timeval)
  | getroute2dest (destinationHost : MacAddr) (now : Timeval) (localUsed : Bool)
  | markrouteinv (destinationHost : MacAddr) (destinationSequenceNumber : UInt32)
  | getDestlist (nextHop : MacAddr)
  | invOverNexthop (nextHop : MacAddr)
  | setWarn (neighbor : MacAddr)
  | routingReset
  | cleanup (now : Timeval)
  | overread (beyond : Bool)
  deriving DecidableEq, Repr

/-- Only flags are written. -/
def RtOp.flagsOnly : RtOp → Bool
  | .markrouteinv .. | .getDestlist _ | .invOverNexthop _ | .setWarn _ | .routingReset | .overread _ => true
  | _ => false

/-- Neither a RREQ nor a RREP is captured. -/
def RtOp.quiet : RtOp → Bool
  | .rreq .. | .rrep .. => false
  | _ => true

def RtOp.time : RtOp → Option Timeval
  | .rreq _ _ _ _ _ _ _ _ now => some now
  | .rrep _ _ _ _ _ _ now => some now
  | .getroute2dest _ now _ => some now
  | .cleanup now => some now
  | _ => none

def Rt.step (rt : Rt) : RtOp → Rt
  | .rreq metricType destinationHost originatorHost prevHop iface seq metric hopCount now =>
    let (rt, result) := aodvDbRtCaptRreq metricType rt destinationHost originatorHost prevHop iface seq metric
      hopCount now now
    if result = .old then rt
    else (rtCaptRrep rt originatorHost prevHop iface 0 metric hopCount now now).1
  | .rrep destinationHost nextHop iface seq metric hopCount now =>
    (rtCaptRrep rt destinationHost nextHop iface seq metric hopCount now now).1
  | .getroute2dest destinationHost now localUsed =>
    (aodvDbRtGetroute2dest rt destinationHost now now
      (if localUsed then aodvFlagsRouteLocalUsed else aodvFlagsUnused)).1
  | .markrouteinv destinationHost seq => (aodvDbRtMarkrouteinv rt destinationHost seq).1
  | .getDestlist nextHop => (aodvDbRtGetDestlist rt nextHop).1
  | .invOverNexthop nextHop => (aodvDbRtInvOverNexthop rt nextHop).1
  | .setWarn neighbor => (aodvDbRtGetWarnEndpointsFromNeighborAndSetWarn rt neighbor).1
  | .routingReset => (aodvDbRtRoutingReset rt).1
  | .cleanup now => aodvDbRtCleanup rt now
  | .overread beyond => { rt with fault := rt.fault || beyond }

/-! ## Captures -/

/-- The result of `aodv_db_rt_capt_rreq` for the stored entry of the originator. -/
def rreqResult (metricType : AodvMetric) (x : RtEntry) (seq : UInt32) (metric : Metric) : CaptRreqResult :=
  if hfCompU32 x.sequenceNumber seq = 0 ∧ hfCompMetric metricType x.metric metric < 0 then .metricHit
  else if hfCompU32 x.sequenceNumber seq < 0 then .new
  else .old

theorem rreqResult_ahead {metricType : AodvMetric} {x : RtEntry} {seq : UInt32} {metric : Metric}
    (h : 0 < hfCompU32 x.sequenceNumber seq) : rreqResult metricType x seq metric = .old := by
  unfold rreqResult
  rw [if_neg (fun h' => absurd h'.1 (Int.ne_of_gt h)), if_neg (Int.not_lt.mpr (Int.le_of_lt h))]

theorem rreqResult_behind {metricType : AodvMetric} {x : RtEntry} {seq : UInt32} {metric : Metric}
    (h : hfCompU32 x.sequenceNumber seq < 0) : rreqResult metricType x seq metric = .new := by
  unfold rreqResult
  rw [if_neg (fun h' => absurd h'.1 (Int.ne_of_lt h)), if_pos h]

/-- `aodv_db_rt_capt_rrep` uses the RREP for the stored entry of the destination. -/
def rrepUsed (x : RtEntry) (seq : UInt32) : Bool :=
  !(!x.flags.nextHopUnknown && decide (hfCompU32 x.sequenceNumber seq > 0))

/-- The entry of the originator after a RREQ that is not old. -/
def RtEntry.afterRreq (prevHop : MacAddr) (iface : Meshif) (seq : UInt32) (metric : Metric) (hopCount : UInt8)
    (x : RtEntry) : RtEntry :=
  let x := x.captRreq prevHop iface seq metric hopCount
  if rrepUsed x 0 then x.captRrep prevHop iface 0 metric hopCount else x

/-- The table in which a RREQ is judged, and the entry of the originator there: the entry of the
destination has been looked up or created before. -/
def Rt.judged (rt : Rt) (destinationHost originatorHost : MacAddr) (now : Timeval) : Rt × RtEntry :=
  rtFindOrCreate (rtFindOrCreate rt destinationHost now now).1 originatorHost now now

/-- The entry a RREQ finds for its originator. -/
def Rt.standing (rt : Rt) (destinationHost originatorHost : MacAddr) (now : Timeval) : Option RtEntry :=
  (rtFindOrCreate rt destinationHost now now).1.find originatorHost

/-- The sequence number that a RREQ with number `seq` leaves in the entry `x` if it is not old. -/
def RtEntry.numberAfter (x : RtEntry) (seq : UInt32) : UInt32 :=
  if x.flags.nextHopUnknown || decide (hfCompU32 seq 0 ≤ 0) then 0 else seq

namespace RtEntry

@[simp] theorem captRreq_ptr (p : MacAddr) (i : Meshif) (s : UInt32) (m : Metric) (c : UInt8) (e : RtEntry) :
    (e.captRreq p i s m c).ptr = e.ptr := rfl
@[simp] theorem captRreq_addr (p : MacAddr) (i : Meshif) (s : UInt32) (m : Metric) (c : UInt8) (e : RtEntry) :
    (e.captRreq p i s m c).addr = e.addr := rfl
@[simp] theorem captRrep_ptr (p : MacAddr) (i : Meshif) (s : UInt32) (m : Metric) (c : UInt8) (e : RtEntry) :
    (e.captRrep p i s m c).ptr = e.ptr := rfl
@[simp] theorem captRrep_addr (p : MacAddr) (i : Meshif) (s : UInt32) (m : Metric) (c : UInt8) (e : RtEntry) :
    (e.captRrep p i s m c).addr = e.addr := rfl
@[simp] theorem markInvalid_ptr (e : RtEntry) : e.markInvalid.ptr = e.ptr := rfl
@[simp] theorem markInvalid_addr (e : RtEntry) : e.markInvalid.addr = e.addr := rfl
@[simp] theorem markInvalid_twice (e : RtEntry) : e.markInvalid.markInvalid = e.markInvalid := rfl
@[simp] theorem markWarn_ptr (e : RtEntry) : e.markWarn.ptr = e.ptr := rfl
@[simp] theorem markWarn_addr (e : RtEntry) : e.markWarn.addr = e.addr := rfl

@[simp] theorem afterRreq_ptr (p : MacAddr) (i : Meshif) (s : UInt32) (m : Metric) (c : UInt8) (e : RtEntry) :
    (e.afterRreq p i s m c).ptr = e.ptr := by
  simp only [afterRreq]; split <;> rfl
@[simp] theorem afterRreq_addr (p : MacAddr) (i : Meshif) (s : UInt32) (m : Metric) (c : UInt8) (e : RtEntry) :
    (e.afterRreq p i s m c).addr = e.addr := by
  simp only [afterRreq]; split <;> rfl

/-- The forced RREP is used when the next hop was unknown or the RREQ's number is not ahead of 0. -/
theorem rrepUsed_captRreq (p : MacAddr) (i : Meshif) (s : UInt32) (m : Metric) (c : UInt8) (e : RtEntry) :
    rrepUsed (e.captRreq p i s m c) 0 = (e.flags.nextHopUnknown || decide (hfCompU32 s 0 ≤ 0)) := by
  have hk : (e.captRreq p i s m c).flags.nextHopUnknown = e.flags.nextHopUnknown := rfl
  have hs : (e.captRreq p i s m c).sequenceNumber = s := rfl
  simp only [rrepUsed, hk, hs, Bool.not_and, Bool.not_not, gt_iff_lt, ← decide_not, Int.not_lt]

theorem afterRreq_eq (p : MacAddr) (i : Meshif) (s : UInt32) (m : Metric) (c : UInt8) (e : RtEntry) :
    e.afterRreq p i s m c =
      if e.flags.nextHopUnknown || decide (hfCompU32 s 0 ≤ 0) then (e.captRreq p i s m c).captRrep p i 0 m c
      else e.captRreq p i s m c := by
  simp only [afterRreq, rrepUsed_captRreq]

theorem numberAfter_unknown {x : RtEntry} (hk : x.flags.nextHopUnknown = true) (seq : UInt32) :
    x.numberAfter seq = 0 := if_pos (by rw [hk, Bool.true_or])

theorem numberAfter_behind (x : RtEntry) {seq : UInt32} (hs : hfCompU32 seq 0 ≤ 0) : x.numberAfter seq = 0 :=
  if_pos (by rw [decide_eq_true hs, Bool.or_true])

theorem numberAfter_kept {x : RtEntry} (hk : x.flags.nextHopUnknown = false) {seq : UInt32}
    (hs : 0 < hfCompU32 seq 0) : x.numberAfter seq = seq :=
  if_neg (by rw [hk, Bool.false_or, decide_eq_false (Int.not_le.mpr hs)]; exact Bool.false_ne_true)

theorem numberAfter_cases (x : RtEntry) (seq : UInt32) : x.numberAfter seq = 0 ∨ x.numberAfter seq = seq := by
  unfold numberAfter
  split
  · exact .inl rfl
  · exact .inr rfl

theorem numberAfter_zero (x : RtEntry) : x.numberAfter 0 = 0 := (x.numberAfter_cases 0).elim id id

theorem afterRreq_route (p : MacAddr) (i : Meshif) (s : UInt32) (m : Metric) (c : UInt8) (e : RtEntry) :
    (e.afterRreq p i s m c).nextHop = p ∧ (e.afterRreq p i s m c).outputIface = some i ∧
      (e.afterRreq p i s m c).metric = m ∧ (e.afterRreq p i s m c).sequenceNumber = e.numberAfter s ∧
      (e.afterRreq p i s m c).flags.nextHopUnknown = false := by
  rw [afterRreq_eq, numberAfter]
  by_cases hu : (e.flags.nextHopUnknown || decide (hfCompU32 s 0 ≤ 0)) = true
  · rw [if_pos hu, if_pos hu]
    exact ⟨rfl, rfl, rfl, rfl, rfl⟩
  · rw [if_neg hu, if_neg hu]
    refine ⟨rfl, rfl, rfl, rfl, ?_⟩
    rw [Bool.not_eq_true, Bool.or_eq_false_iff] at hu
    exact hu.1

/-- The entry becomes valid unless it was marked invalid and the forced RREP is not used. -/
theorem afterRreq_valid (p : MacAddr) (i : Meshif) (s : UInt32) (m : Metric) (c : UInt8) (e : RtEntry) :
    (e.afterRreq p i s m c).valid = true ↔
      (e.flags.nextHopUnknown = false → e.flags.routeInvalid = true → hfCompU32 s 0 ≤ 0) := by
  rw [afterRreq_eq]
  by_cases hu : (e.flags.nextHopUnknown || decide (hfCompU32 s 0 ≤ 0)) = true
  · rw [if_pos hu]
    apply iff_of_true rfl
    intro hk _
    simpa [hk] using hu
  · rw [if_neg hu]
    rw [Bool.not_eq_true, Bool.or_eq_false_iff, decide_eq_false_iff_not] at hu
    have hv : (e.captRreq p i s m c).valid = (!e.flags.nextHopUnknown && !e.flags.routeInvalid) := rfl
    rw [hv, hu.1]
    cases hi : e.flags.routeInvalid with
    | false => simp
    | true => simpa using hu.2

end RtEntry

theorem captRreq_eq (metricType : AodvMetric) (rt : Rt) (destinationHost originatorHost prevHop : MacAddr)
    (iface : Meshif) (seq : UInt32) (metric : Metric) (hopCount : UInt8) (now : Timeval) :
    aodvDbRtCaptRreq metricType rt destinationHost originatorHost prevHop iface seq metric hopCount now now =
      let (rt, x) := rt.judged destinationHost originatorHost now
      let result := rreqResult metricType x seq metric
      (if result = .old then rt else rt.write x.ptr (RtEntry.captRreq prevHop iface seq metric hopCount),
        result) := by
  simp only [aodvDbRtCaptRreq, Rt.judged, rreqResult]
  by_cases hs : hfCompU32
      (rtFindOrCreate (rtFindOrCreate rt destinationHost now now).1 originatorHost now now).2.sequenceNumber
      seq = 0
  · simp only [hs]
    by_cases hm : hfCompMetric metricType
        (rtFindOrCreate (rtFindOrCreate rt destinationHost now now).1 originatorHost now now).2.metric
        metric < 0
    · simp [hm]
    · simp [hm]
  · by_cases hn : hfCompU32
        (rtFindOrCreate (rtFindOrCreate rt destinationHost now now).1 originatorHost now now).2.sequenceNumber
        seq < 0
    · simp [hs, hn]
    · simp [hs, hn]

theorem captRreq_snd (metricType : AodvMetric) (rt : Rt) (destinationHost originatorHost prevHop : MacAddr)
    (iface : Meshif) (seq : UInt32) (metric : Metric) (hopCount : UInt8) (timestamp currTime : Timeval) :
    (aodvDbRtCaptRreq metricType rt destinationHost originatorHost prevHop iface seq metric hopCount timestamp
        currTime).2 =
      rreqResult metricType
        (rtFindOrCreate (rtFindOrCreate rt destinationHost timestamp currTime).1 originatorHost timestamp currTime).2
        seq metric := by
  simp only [aodvDbRtCaptRreq, rreqResult]
  generalize (rtFindOrCreate (rtFindOrCreate rt destinationHost timestamp currTime).1 originatorHost timestamp
    currTime).2 = x
  by_cases hs : hfCompU32 x.sequenceNumber seq = 0
  · by_cases hm : hfCompMetric metricType x.metric metric < 0 <;> simp [hs, hm]
  · by_cases hn : hfCompU32 x.sequenceNumber seq < 0 <;> simp [hs, hn]

theorem captRrep_snd (rt : Rt) (host nextHop : MacAddr) (iface : Meshif) (seq : UInt32) (metric : Metric)
    (hopCount : UInt8) (timestamp currTime : Timeval) :
    (rtCaptRrep rt host nextHop iface seq metric hopCount timestamp currTime).2 =
      rrepUsed (rtFindOrCreate rt host timestamp currTime).2 seq := by
  simp only [rtCaptRrep, rrepUsed]
  split
  · rename_i h
    rw [h]
    rfl
  · rename_i h
    rw [Bool.not_eq_true] at h
    rw [h]
    rfl

section
variable {metricType : AodvMetric} {rt : Rt} {destinationHost originatorHost prevHop : MacAddr} {iface : Meshif}
  {seq : UInt32} {metric : Metric} {hopCount : UInt8} {now : Timeval}

theorem step_rreq_old
    (h : rreqResult metricType (rt.judged destinationHost originatorHost now).2 seq metric = .old) :
    rt.step (.rreq metricType destinationHost originatorHost prevHop iface seq metric hopCount now) =
      (rt.judged destinationHost originatorHost now).1 := by
  simp only [Rt.step, captRreq_eq, h, if_true]

variable (prevHop iface hopCount) in
theorem step_rreq_new
    (h : rreqResult metricType (rt.judged destinationHost originatorHost now).2 seq metric ≠ .old) :
    rt.step (.rreq metricType destinationHost originatorHost prevHop iface seq metric hopCount now) =
      (rtCaptRrep
        ((rt.judged destinationHost originatorHost now).1.write (rt.judged destinationHost originatorHost now).2.ptr
          (RtEntry.captRreq prevHop iface seq metric hopCount))
        originatorHost prevHop iface 0 metric hopCount now now).1 := by
  simp only [Rt.step, captRreq_eq, h, if_false]

end

theorem captRrep_eq {rt : Rt} {host : MacAddr} {x : RtEntry} (hx : rt.find host = some x) (nextHop : MacAddr)
    (iface : Meshif) (seq : UInt32) (metric : Metric) (hopCount : UInt8) (now : Timeval) :
    rtCaptRrep rt host nextHop iface seq metric hopCount now now =
      if rrepUsed x seq then
        ({ rt.write x.ptr (RtEntry.captRrep nextHop iface seq metric hopCount) with
            nht := nhtInsert
              (if x.flags.nextHopUnknown then rt.nht else nhtRemove rt.nht x.nextHop x.addr)
              nextHop host x.ptr }, true)
      else (rt, false) := by
  simp only [rtCaptRrep, Rt.findOrCreate_found hx, rrepUsed]
  by_cases hk : x.flags.nextHopUnknown = true <;>
    by_cases hs : hfCompU32 x.sequenceNumber seq > 0 <;> simp [hk, hs]

namespace Rt

section
variable {rt : Rt}

theorem WF.judged (hw : rt.WF) (destinationHost originatorHost : MacAddr) (now : Timeval) :
    (rt.judged destinationHost originatorHost now).1.WF ∧
      Grows rt (rt.judged destinationHost originatorHost now).1 ∧
      (rt.judged destinationHost originatorHost now).1.find originatorHost =
        some (rt.judged destinationHost originatorHost now).2 := by
  obtain ⟨hw₁, hg₁, -⟩ := hw.findOrCreate destinationHost now
  obtain ⟨hw₂, hg₂, hf⟩ := hw₁.findOrCreate originatorHost now
  exact ⟨hw₂, hg₁.trans hg₂, hf⟩

/-- The entry a RREQ is judged by is the one it finds, or a new one. -/
theorem judged_cases (rt : Rt) (destinationHost originatorHost : MacAddr) (now : Timeval) :
    (∃ x, rt.standing destinationHost originatorHost now = some x ∧
        rt.judged destinationHost originatorHost now = ((rtFindOrCreate rt destinationHost now now).1, x)) ∨
      rt.standing destinationHost originatorHost now = none ∧
        (rt.judged destinationHost originatorHost now).2 =
          newRtEntry (rtFindOrCreate rt destinationHost now now).1.fresh originatorHost := by
  cases h : rt.standing destinationHost originatorHost now with
  | some x => exact .inl ⟨x, rfl, findOrCreate_found h now now⟩
  | none =>
    refine .inr ⟨rfl, ?_⟩
    have h' : (rtFindOrCreate rt destinationHost now now).1.find originatorHost = none := h
    simp only [judged, rtFindOrCreate]
    simp only [rtFindOrCreate] at h'
    rw [h']
    rfl

theorem WF.nht (hw : rt.WF) (nht : List NhtEntry) : ({ rt with nht } : Rt).WF :=
  ⟨hw.addrs, hw.ptrs, hw.allocated, hw.timed, hw.timeout, hw.routed⟩

theorem WF.setFault (hw : rt.WF) (fault : Bool) : ({ rt with fault } : Rt).WF :=
  ⟨hw.addrs, hw.ptrs, hw.allocated, hw.timed, hw.timeout, hw.routed⟩

/-- The entry of one host is `y` now, and nothing else has changed among the entries. -/
structure Wrote (rt : Rt) (host : MacAddr) (y : RtEntry) (rt' : Rt) : Prop where
  find : ∀ h, rt'.find h = if h = host then some y else rt.find h
  ts : rt'.ts = rt.ts
  fresh : rt'.fresh = rt.fresh
  fault : rt'.fault = rt.fault

theorem WF.captRrep (hw : rt.WF) {host : MacAddr} {x : RtEntry} (hx : rt.find host = some x)
    (nextHop : MacAddr) (iface : Meshif) (seq : UInt32) (metric : Metric) (hopCount : UInt8) (now : Timeval) :
    (rtCaptRrep rt host nextHop iface seq metric hopCount now now).1.WF ∧
      Wrote rt host (if rrepUsed x seq then x.captRrep nextHop iface seq metric hopCount else x)
        (rtCaptRrep rt host nextHop iface seq metric hopCount now now).1 := by
  rw [captRrep_eq hx]
  by_cases hu : rrepUsed x seq = true
  · simp only [hu, if_true]
    have hw' := hw.write x.ptr (f := RtEntry.captRrep nextHop iface seq metric hopCount) (fun _ => rfl)
      (fun _ => rfl) fun _ _ _ => rfl
    refine ⟨hw'.nht _, ?_, rfl, rfl, ?_⟩
    · exact hw.find_write_entry (f := RtEntry.captRrep nextHop iface seq metric hopCount) (fun _ => rfl) hx
    · exact hw.fault_write (find_mem hx) (RtEntry.captRrep nextHop iface seq metric hopCount)
  · simp only [hu]
    refine ⟨hw, fun h => ?_, rfl, rfl, rfl⟩
    by_cases hh : h = host
    · rw [if_pos hh, hh]; exact hx
    · rw [if_neg hh]; rfl

theorem WF.captRreq (hw : rt.WF) {host : MacAddr} {x : RtEntry} (hx : rt.find host = some x)
    (prevHop : MacAddr) (iface : Meshif) (seq : UInt32) (metric : Metric) (hopCount : UInt8) :
    (rt.write x.ptr (RtEntry.captRreq prevHop iface seq metric hopCount)).WF ∧
      Wrote rt host (x.captRreq prevHop iface seq metric hopCount)
        (rt.write x.ptr (RtEntry.captRreq prevHop iface seq metric hopCount)) := by
  refine ⟨hw.write x.ptr (fun _ => rfl) (fun _ => rfl) fun _ _ _ => rfl, ?_, rfl, rfl, ?_⟩
  · exact hw.find_write_entry (f := RtEntry.captRreq prevHop iface seq metric hopCount) (fun _ => rfl) hx
  · exact hw.fault_write (find_mem hx) _

theorem Wrote.trans {r₁ r₂ r₃ : Rt} {host : MacAddr} {y z : RtEntry} (h : Wrote r₁ host y r₂)
    (h' : Wrote r₂ host z r₃) : Wrote r₁ host z r₃ := by
  refine ⟨fun k => ?_, h'.ts.trans h.ts, h'.fresh.trans h.fresh, h'.fault.trans h.fault⟩
  rw [h'.find, h.find]
  split <;> rfl

/-- A RREQ is judged by the entry of its originator and, unless it is old, written into it. -/
theorem WF.rreq (hw : rt.WF) (metricType : AodvMetric) (destinationHost originatorHost prevHop : MacAddr)
    (iface : Meshif) (seq : UInt32) (metric : Metric) (hopCount : UInt8) (now : Timeval) :
    let j := rt.judged destinationHost originatorHost now
    (rt.step (.rreq metricType destinationHost originatorHost prevHop iface seq metric hopCount now)).WF ∧
      Wrote j.1 originatorHost
        (if rreqResult metricType j.2 seq metric = .old then j.2
          else j.2.afterRreq prevHop iface seq metric hopCount)
        (rt.step (.rreq metricType destinationHost originatorHost prevHop iface seq metric hopCount now)) := by
  intro j
  obtain ⟨hwj, -, hf⟩ := hw.judged destinationHost originatorHost now
  by_cases ho : rreqResult metricType j.2 seq metric = .old
  · rw [step_rreq_old ho, if_pos ho]
    refine ⟨hwj, fun h => ?_, rfl, rfl, rfl⟩
    by_cases hh : h = originatorHost
    · rw [if_pos hh, hh]; exact hf
    · rw [if_neg hh]
  · rw [step_rreq_new _ _ _ ho, if_neg ho]
    obtain ⟨hw₁, h₁⟩ := hwj.captRreq hf prevHop iface seq metric hopCount
    have hf₁ := (h₁.find originatorHost).trans (if_pos rfl)
    obtain ⟨hw₂, h₂⟩ := hw₁.captRrep hf₁ prevHop iface 0 metric hopCount now
    exact ⟨hw₂, h₁.trans h₂⟩

theorem WF.step_rrep (hw : rt.WF) (host nextHop : MacAddr) (iface : Meshif) (seq : UInt32) (metric : Metric)
    (hopCount : UInt8) (now : Timeval) :
    rt.step (.rrep host nextHop iface seq metric hopCount now) =
      (rtCaptRrep (rtFindOrCreate rt host now now).1 host nextHop iface seq metric hopCount now now).1 := by
  obtain ⟨-, -, hf⟩ := hw.findOrCreate host now
  unfold step rtCaptRrep
  rw [@findOrCreate_found (rtFindOrCreate rt host now now).1 _ _ hf]

theorem WF.rrep (hw : rt.WF) (host nextHop : MacAddr) (iface : Meshif) (seq : UInt32) (metric : Metric)
    (hopCount : UInt8) (now : Timeval) :
    let j := rtFindOrCreate rt host now now
    (rt.step (.rrep host nextHop iface seq metric hopCount now)).WF ∧
      Wrote j.1 host (if rrepUsed j.2 seq then j.2.captRrep nextHop iface seq metric hopCount else j.2)
        (rt.step (.rrep host nextHop iface seq metric hopCount now)) := by
  intro j
  obtain ⟨hwj, -, hf⟩ := hw.findOrCreate host now
  rw [hw.step_rrep]
  exact hwj.captRrep hf nextHop iface seq metric hopCount now

end

end Rt

/-! ## The other operations -/

/-- `e'` is `e` except for flags other than `AODV_FLAGS_NEXT_HOP_UNKNOWN`, and not valid unless `e` is. -/
structure RtEntry.Weaker (e e' : RtEntry) : Prop where
  ptr : e'.ptr = e.ptr
  addr : e'.addr = e.addr
  nextHop : e'.nextHop = e.nextHop
  outputIface : e'.outputIface = e.outputIface
  sequenceNumber : e'.sequenceNumber = e.sequenceNumber
  metric : e'.metric = e.metric
  hopCount : e'.hopCount = e.hopCount
  unknown : e'.flags.nextHopUnknown = e.flags.nextHopUnknown
  invalid : e.flags.routeInvalid = true → e'.flags.routeInvalid = true

namespace RtEntry

theorem Weaker.refl (e : RtEntry) : e.Weaker e := ⟨rfl, rfl, rfl, rfl, rfl, rfl, rfl, rfl, id⟩

theorem Weaker.trans {a b c : RtEntry} (h : a.Weaker b) (h' : b.Weaker c) : a.Weaker c where
  ptr := h'.ptr.trans h.ptr
  addr := h'.addr.trans h.addr
  nextHop := h'.nextHop.trans h.nextHop
  outputIface := h'.outputIface.trans h.outputIface
  sequenceNumber := h'.sequenceNumber.trans h.sequenceNumber
  metric := h'.metric.trans h.metric
  hopCount := h'.hopCount.trans h.hopCount
  unknown := h'.unknown.trans h.unknown
  invalid := fun hi => h'.invalid (h.invalid hi)

theorem weaker_markInvalid (e : RtEntry) : e.Weaker e.markInvalid :=
  ⟨rfl, rfl, rfl, rfl, rfl, rfl, rfl, rfl, fun _ => rfl⟩

theorem weaker_markWarn (e : RtEntry) : e.Weaker e.markWarn :=
  ⟨rfl, rfl, rfl, rfl, rfl, rfl, rfl, rfl, id⟩

theorem weaker_setFlags {flags : RtFlags} (hf : flags.nextHopUnknown = false) (e : RtEntry) :
    e.Weaker (e.setFlags flags) := by
  refine ⟨rfl, rfl, rfl, rfl, rfl, rfl, rfl, ?_, ?_⟩
  · simp [setFlags, RtFlags.union, hf]
  · intro h; simp [setFlags, RtFlags.union, h]

theorem Weaker.valid {e e' : RtEntry} (h : e.Weaker e') (hv : e'.valid = true) : e.valid = true := by
  simp only [RtEntry.valid, Bool.and_eq_true, Bool.not_eq_true'] at hv ⊢
  refine ⟨h.unknown ▸ hv.1, ?_⟩
  cases hi : e.flags.routeInvalid with
  | false => rfl
  | true => rw [h.invalid hi] at hv; exact hv.2

end RtEntry

namespace Rt

/-- The entries of `rt'` are entries of `rt`, perhaps invalidated. -/
structure Shrinks (rt rt' : Rt) : Prop where
  entry : ∀ h e', rt'.find h = some e' → ∃ e, rt.find h = some e ∧ e.Weaker e'
  fresh : rt'.fresh = rt.fresh

theorem Shrinks.refl (rt : Rt) : Shrinks rt rt := ⟨fun _ e h => ⟨e, h, .refl e⟩, rfl⟩

theorem Shrinks.trans {r₁ r₂ r₃ : Rt} (h : Shrinks r₁ r₂) (h' : Shrinks r₂ r₃) : Shrinks r₁ r₃ := by
  refine ⟨fun k c hc => ?_, h'.fresh.trans h.fresh⟩
  obtain ⟨b, hb, hbc⟩ := h'.entry k c hc
  obtain ⟨a, ha, hab⟩ := h.entry k b hb
  exact ⟨a, ha, hab.trans hbc⟩

section
variable {rt : Rt}

theorem WF.shrinks_purged (hw : rt.WF) {rt' : Rt} {now : Timeval} {gone : List Nat}
    (hp : Purged now gone rt rt') : Shrinks rt rt' := by
  refine ⟨fun h e he => ?_, hp.fresh⟩
  rw [hw.find_purged hp] at he
  exact ⟨e, (Option.filter_eq_some_iff.mp he).1, .refl e⟩

theorem shrinks_write (p : Nat) {f : RtEntry → RtEntry} (hf : ∀ e : RtEntry, e.Weaker (f e)) :
    Shrinks rt (rt.write p f) := by
  refine ⟨fun h e' he => ?_, rfl⟩
  rw [find_write fun e => (hf e).addr] at he
  obtain ⟨e, hfe, rfl⟩ := Option.map_eq_some_iff.mp he
  refine ⟨e, hfe, ?_⟩
  split
  · exact hf e
  · exact .refl e

theorem WF.write_weaker (hw : rt.WF) (p : Nat) {f : RtEntry → RtEntry} (hf : ∀ e : RtEntry, e.Weaker (f e)) :
    (rt.write p f).WF := by
  apply hw.write p (fun e => (hf e).addr) (fun e => (hf e).ptr)
  intro e hr hk
  rw [(hf e).outputIface]
  exact hr ((hf e).unknown.symm.trans hk)

theorem WF.foldl_markInvalid (hw : rt.WF) (destList : List NhtDestlistEntry) :
    (destList.foldl (fun rt dest => rt.write dest.rtEntry RtEntry.markInvalid) rt).WF ∧
      Shrinks rt (destList.foldl (fun rt dest => rt.write dest.rtEntry RtEntry.markInvalid) rt) := by
  induction destList generalizing rt with
  | nil => exact ⟨hw, .refl rt⟩
  | cons d ds ih =>
    have hs : Shrinks rt (rt.write d.rtEntry RtEntry.markInvalid) :=
      shrinks_write d.rtEntry RtEntry.weaker_markInvalid
    obtain ⟨hw', hs'⟩ := ih (hw.write_weaker d.rtEntry RtEntry.weaker_markInvalid)
    exact ⟨hw', hs.trans hs'⟩

theorem WF.warnEndpoint (hw : rt.WF) (found : List AodvMacSeq) (dest : NhtDestlistEntry) :
    (warnEndpoint (rt, found) dest).1.WF ∧ Shrinks rt (warnEndpoint (rt, found) dest).1 := by
  simp only [DesAodv.warnEndpoint]
  split
  · exact ⟨hw.setFault true, fun h e he => ⟨e, he, .refl e⟩, rfl⟩
  · split
    · exact ⟨hw, .refl rt⟩
    · exact ⟨hw.write_weaker dest.rtEntry RtEntry.weaker_markWarn,
        shrinks_write dest.rtEntry RtEntry.weaker_markWarn⟩

theorem WF.foldl_warnEndpoint (hw : rt.WF) (found : List AodvMacSeq) (destList : List NhtDestlistEntry) :
    (destList.foldl DesAodv.warnEndpoint (rt, found)).1.WF ∧
      Shrinks rt (destList.foldl DesAodv.warnEndpoint (rt, found)).1 := by
  induction destList generalizing rt found with
  | nil => exact ⟨hw, .refl rt⟩
  | cons d ds ih =>
    obtain ⟨hw₁, hs₁⟩ := hw.warnEndpoint found d
    obtain ⟨hw₂, hs₂⟩ := ih hw₁ (DesAodv.warnEndpoint (rt, found) d).2
    exact ⟨hw₂, hs₁.trans hs₂⟩

theorem WF.getroute2dest (hw : rt.WF) (host : MacAddr) (now : Timeval) {flags : RtFlags}
    (hf : flags.nextHopUnknown = false) :
    (aodvDbRtGetroute2dest rt host now now flags).1.WF ∧
      Shrinks rt (aodvDbRtGetroute2dest rt host now now flags).1 := by
  simp only [aodvDbRtGetroute2dest]
  split
  · exact ⟨hw, .refl rt⟩
  · rename_i e he
    split
    · have hw₁ := hw.write_weaker e.ptr (RtEntry.weaker_setFlags hf)
      have hs₁ : Shrinks rt (rt.write e.ptr (RtEntry.setFlags flags)) :=
        shrinks_write e.ptr (RtEntry.weaker_setFlags hf)
      have he₁ : (rt.write e.ptr (RtEntry.setFlags flags)).find host = some (e.setFlags flags) :=
        (hw.find_write_entry (f := RtEntry.setFlags flags) (fun _ => rfl) he host).trans (if_pos rfl)
      obtain ⟨hp, hw₂⟩ := hw₁.renew (find_mem he₁) now
      exact ⟨hw₂, hs₁.trans (hw₁.shrinks_purged hp)⟩
    · exact ⟨hw, .refl rt⟩

theorem WF.routingReset (hw : rt.WF) :
    (aodvDbRtRoutingReset rt).1.WF ∧ Shrinks rt (aodvDbRtRoutingReset rt).1 := by
  have hm : ∀ {β : Type} (g : RtEntry → β), (∀ e, g e.markInvalid = g e) →
      (rt.entries.map RtEntry.markInvalid).map g = rt.entries.map g := by
    intro β g hg
    rw [List.map_map]
    exact List.map_congr_left fun e _ => hg e
  refine ⟨⟨?_, ?_, ?_, ?_, hw.timeout, ?_⟩, ?_, rfl⟩
  · exact (hm RtEntry.addr fun _ => rfl).symm ▸ hw.addrs
  · exact (hm RtEntry.ptr fun _ => rfl).symm ▸ hw.ptrs
  · intro e he
    obtain ⟨a, ha, rfl⟩ := List.mem_map.mp he
    exact hw.allocated a ha
  · exact (hm RtEntry.ptr fun _ => rfl).symm ▸ hw.timed
  · intro e he hk
    obtain ⟨a, ha, rfl⟩ := List.mem_map.mp he
    exact hw.routed a ha hk
  · intro h e' he
    have hl := Keyed.lookup_map RtEntry.addr h RtEntry.markInvalid (fun _ => rfl) rt.entries
    obtain ⟨e, hfe, rfl⟩ := Option.map_eq_some_iff.mp (hl.symm.trans he)
    exact ⟨e, hfe, RtEntry.weaker_markInvalid e⟩

end

section
variable {rt : Rt}

/-- An operation that captures nothing adds no entry and makes none valid. -/
theorem WF.step_quiet (hw : rt.WF) {op : RtOp} (hq : op.quiet = true) :
    (rt.step op).WF ∧ Shrinks rt (rt.step op) := by
  cases op with
  | rreq => cases hq
  | rrep => cases hq
  | getroute2dest host now localUsed =>
    refine hw.getroute2dest host now ?_
    cases localUsed <;> rfl
  | markrouteinv host seq =>
    simp only [step, aodvDbRtMarkrouteinv]
    split
    · exact ⟨hw, .refl rt⟩
    · split
      · exact ⟨hw, .refl rt⟩
      · exact ⟨hw.write_weaker _ RtEntry.weaker_markInvalid, shrinks_write _ RtEntry.weaker_markInvalid⟩
  | getDestlist nextHop =>
    simp only [step, aodvDbRtGetDestlist]
    split
    · exact ⟨hw, .refl rt⟩
    · exact ⟨hw.setFault _, fun h e he => ⟨e, he, .refl e⟩, rfl⟩
  | invOverNexthop nextHop =>
    simp only [step, aodvDbRtInvOverNexthop]
    split
    · exact ⟨hw, .refl rt⟩
    · exact hw.foldl_markInvalid _
  | setWarn neighbor =>
    simp only [step, aodvDbRtGetWarnEndpointsFromNeighborAndSetWarn]
    split
    · exact ⟨hw, .refl rt⟩
    · exact hw.foldl_warnEndpoint [] _
  | routingReset => exact hw.routingReset
  | cleanup now =>
    obtain ⟨gone, hp, hw'⟩ := hw.cleanup now
    exact ⟨hw', hw.shrinks_purged hp⟩
  | overread beyond => exact ⟨hw.setFault _, fun h e he => ⟨e, he, .refl e⟩, rfl⟩

theorem WF.step (hw : rt.WF) (op : RtOp) : (rt.step op).WF := by
  cases hq : op.quiet with
  | true => exact (hw.step_quiet hq).1
  | false =>
    cases op with
    | rreq => exact (hw.rreq ..).1
    | rrep => exact (hw.rrep ..).1
    | _ => cases hq

theorem WF.exec (hw : rt.WF) (ops : List RtOp) : (Runs.exec Rt.step rt ops).WF :=
  Runs.exec_inv (I := Rt.WF) (fun _ op h => h.step op) hw ops

theorem WF.exec_quiet (hw : rt.WF) {ops : List RtOp} (hq : ∀ op ∈ ops, op.quiet = true) :
    Shrinks rt (Runs.exec Rt.step rt ops) := by
  induction ops generalizing rt with
  | nil => exact .refl rt
  | cons op ops ih =>
    obtain ⟨hw', hs⟩ := hw.step_quiet (hq op List.mem_cons_self)
    exact hs.trans (ih hw' fun o ho => hq o (List.mem_cons_of_mem _ ho))

end

end Rt

end DesAodv
