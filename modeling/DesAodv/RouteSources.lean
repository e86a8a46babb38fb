import DesAodv.NodeSteps

/-!
# Where routes come from

A route that is in use after an event was in use before, or the event is a RREQ
or RREP of the destination that says it.
-/

namespace DesAodv

/-- What `aodv_db_getroute2dest` and the comparison of metrics use of an entry. -/
structure Route where
  nextHop : MacAddr
  outputIface : Option Meshif
  metric : Metric
  hopCount : UInt8
  deriving DecidableEq, Repr

def RtEntry.route (e : RtEntry) : Route :=
  { nextHop := e.nextHop, outputIface := e.outputIface, metric := e.metric, hopCount := e.hopCount }

/-! ## Operations on the routing table -/

namespace Rt

/-- There is an entry for the host that meets `p`, and it says `r`. -/
def Says (p : RtEntry → Prop) (rt : Rt) (host : MacAddr) (r : Route) : Prop :=
  ∃ e, rt.find host = some e ∧ p e ∧ e.route = r

/-- There is a valid entry for the host, and it says `r`. -/
def Uses (rt : Rt) (host : MacAddr) (r : Route) : Prop := rt.Says (fun e => e.valid = true) host r

/-- The next hop to the host is known, and the entry says `r`. -/
def Knows (rt : Rt) (host : MacAddr) (r : Route) : Prop := rt.Says (fun e => e.flags.nextHopUnknown = false) host r

/-- A property that no entry gains unless a route is captured. -/
structure Earned (p : RtEntry → Prop) : Prop where
  weaker : ∀ {e e' : RtEntry}, e.Weaker e' → p e' → p e
  known : ∀ {e : RtEntry}, p e → e.flags.nextHopUnknown = false

theorem valid_earned : Earned fun e => e.valid = true where
  weaker := fun hw hv => hw.valid hv
  known := fun hv => by
    simp only [RtEntry.valid, Bool.and_eq_true, Bool.not_eq_true'] at hv
    exact hv.1

theorem known_earned : Earned fun e => e.flags.nextHopUnknown = false where
  weaker := fun hw hv => hw.unknown.symm.trans hv
  known := fun h => h

section
variable {p : RtEntry → Prop} (hp : Earned p) {rt rt' : Rt} {host : MacAddr} {r : Route}
include hp

theorem Shrinks.said (h : Shrinks rt rt') (hu : rt'.Says p host r) : rt.Says p host r := by
  obtain ⟨e', he', hv, rfl⟩ := hu
  obtain ⟨e, he, hw⟩ := h.entry host e' he'
  refine ⟨e, he, hp.weaker hw hv, ?_⟩
  simp [RtEntry.route, hw.nextHop, hw.outputIface, hw.metric, hw.hopCount]

theorem Grows.said (h : Grows rt rt') (hu : rt'.Says p host r) : rt.Says p host r := by
  obtain ⟨e, he, hv, hr⟩ := hu
  exact ⟨e, h.known he (hp.known hv), hv, hr⟩

omit hp in
theorem Wrote.said {target : MacAddr} {y : RtEntry} (h : Wrote rt target y rt') (hu : rt'.Says p host r) :
    host = target ∧ p y ∧ y.route = r ∨ rt.Says p host r := by
  obtain ⟨e, he, hv, hr⟩ := hu
  rw [h.find] at he
  split at he
  · rename_i hh
    obtain rfl := Option.some.inj he
    exact .inl ⟨hh, hv, hr⟩
  · exact .inr ⟨e, he, hv, hr⟩

variable (hw : rt.WF)
include hw

theorem WF.said_rreq {metricType : AodvMetric} {destinationHost originatorHost prevHop : MacAddr} {iface : Meshif}
    {seq : UInt32} {metric : Metric} {hopCount : UInt8} {now : Timeval}
    (hu : (rt.step (.rreq metricType destinationHost originatorHost prevHop iface seq metric hopCount now)).Says p
      host r) :
    host = originatorHost ∧ r = ⟨prevHop, some iface, metric, hopCount⟩ ∨ rt.Says p host r := by
  obtain ⟨-, hg, hj⟩ := hw.judged destinationHost originatorHost now
  obtain ⟨-, hwr⟩ := hw.rreq metricType destinationHost originatorHost prevHop iface seq metric hopCount now
  rcases hwr.said hu with ⟨rfl, hv, hr⟩ | hu
  · split at hv
    · rename_i hold
      rw [if_pos hold] at hr
      exact .inr (hg.said hp ⟨_, hj, hv, hr⟩)
    · rename_i hnew
      rw [if_neg hnew] at hr
      obtain ⟨hnh, hif, hm, -, -⟩ := RtEntry.afterRreq_route prevHop iface seq metric hopCount
        (rt.judged destinationHost host now).2
      have hc : ((rt.judged destinationHost host now).2.afterRreq prevHop iface seq metric hopCount).hopCount =
          hopCount := by
        simp only [RtEntry.afterRreq]
        split <;> rfl
      refine .inl ⟨rfl, hr.symm.trans ?_⟩
      simp [RtEntry.route, hnh, hif, hm, hc]
  · exact .inr (hg.said hp hu)

theorem WF.said_rrep {destinationHost nextHop : MacAddr} {iface : Meshif} {seq : UInt32} {metric : Metric}
    {hopCount : UInt8} {now : Timeval}
    (hu : (rt.step (.rrep destinationHost nextHop iface seq metric hopCount now)).Says p host r) :
    host = destinationHost ∧ r = ⟨nextHop, some iface, metric, hopCount⟩ ∨ rt.Says p host r := by
  obtain ⟨-, hg, hf⟩ := hw.findOrCreate destinationHost now
  obtain ⟨-, hwr⟩ := hw.rrep destinationHost nextHop iface seq metric hopCount now
  rcases hwr.said hu with ⟨rfl, hv, hr⟩ | hu
  · split at hv
    · rename_i hused
      rw [if_pos hused] at hr
      exact .inl ⟨rfl, hr.symm⟩
    · rename_i hused
      rw [if_neg hused] at hr
      exact .inr (hg.said hp ⟨_, hf, hv, hr⟩)
  · exact .inr (hg.said hp hu)

end

theorem routingReset_uses {rt : Rt} {host : MacAddr} {r : Route} : ¬ (aodvDbRtRoutingReset rt).1.Uses host r := by
  intro hu
  obtain ⟨e, he, hv, -⟩ := hu
  obtain ⟨a, -, rfl⟩ := List.mem_map.mp (find_mem he)
  simp [RtEntry.valid, RtEntry.markInvalid] at hv

end Rt

/-! ## Events of a node -/

/-- The callback is given a message that it captures as a route to the source of the message. -/
def MeshCb.captures (cb : MeshCb) (lflags : LFlags) (msg : DessertMsg) : Bool :=
  match cb with
  | .handleRreq => msg.getRreq.isSome
  | .handleRrep => msg.getRrep.isSome && lflags.l2Dst
  | _ => false

/-- The route that a node captures. -/
def Node.captRoute (n : Node) (env : RxEnv) (msg : DessertMsg) : Route :=
  { nextHop := msg.l2Shost
    outputIface := some env.iface
    metric := aodvMetricDo n.cfg.metricType env.link msg.u16
    hopCount := msg.u8 + 1 }

theorem Node.said_step (L : Libdessert) {p : RtEntry → Prop} (hp : Rt.Earned p) {n : Node} (hw : n.rt.WF)
    {ev : NodeEvent} {host : MacAddr} {r : Route} (hu : (n.step L ev).rt.Says p host r) :
    (∃ cb env msg, ev = .mesh cb env msg ∧ cb.captures env.lflags msg = true ∧ msg.l25Shost = host ∧
      r = n.captRoute env msg) ∨ n.rt.Says p host r := by
  cases (step_rt L n ev).1 with
  | quiet h => exact .inr ((h.shrinks hw).said hp hu)
  | rreq env msg m he hm h =>
    rw [h] at hu
    rcases hw.said_rreq hp hu with ⟨rfl, hr⟩ | hu
    · exact .inl ⟨.handleRreq, env, msg, he, by simp [MeshCb.captures, hm], rfl, hr⟩
    · exact .inr hu
  | rrep env msg m he hm hd h =>
    rcases hw.said_rrep hp ((h.shrinks (hw.step _)).said hp hu) with ⟨rfl, hr⟩ | hu
    · exact .inl ⟨.handleRrep, env, msg, he, by simp [MeshCb.captures, hm, hd], rfl, hr⟩
    · exact .inr hu

end DesAodv
