import DesAodv.NodeSteps

/-!
# The reverse route of a RREQ

A RREQ that is not old is captured twice, with its own number and with 0. What
this leaves in the entry of the originator decides whether a RREP finds its way
back.
-/

namespace DesAodv

namespace Node

theorem routeTo_eq (n : Node) (host : MacAddr) :
    n.routeTo host = ((n.rt.find host).filter RtEntry.valid).map fun e => (e.nextHop, e.outputIface) := by
  simp only [routeTo, getroute2dest, aodvDbRtGetroute2dest]
  cases n.rt.find host with
  | none => rfl
  | some e => cases hv : e.valid <;> simp [hv, Option.filter_some]

theorem routeTo_eq_some {n : Node} {host nextHop : MacAddr} {iface : Option Meshif} :
    n.routeTo host = some (nextHop, iface) ↔
      ∃ e, n.rt.find host = some e ∧ e.valid = true ∧ e.nextHop = nextHop ∧ e.outputIface = iface := by
  rw [routeTo_eq]
  simp only [Option.map_eq_some_iff, Option.filter_eq_some_iff, Prod.mk.injEq, and_assoc]

theorem routeTo_eq_none {n : Node} {host : MacAddr} :
    n.routeTo host = none ↔ ∀ e, n.rt.find host = some e → e.valid = false := by
  rw [routeTo_eq]
  simp only [Option.map_eq_none_iff, Option.filter_eq_none_iff, Bool.not_eq_true]

theorem routeTo_isSome {n : Node} {host : MacAddr} :
    (n.routeTo host).isSome = true ↔ ∃ e, n.rt.find host = some e ∧ e.valid = true := by
  rw [routeTo_eq, Option.isSome_map]
  simp only [Option.isSome_iff_exists, Option.filter_eq_some_iff]

theorem getroute2dest_snd (n : Node) (host : MacAddr) (timestamp now : Timeval) (flags : RtFlags) :
    (n.getroute2dest host timestamp now flags).2 = n.routeTo host := by
  simp only [routeTo, getroute2dest, aodvDbRtGetroute2dest]
  split
  · rfl
  · split <;> rfl

theorem getroute2dest_none {n : Node} {host : MacAddr} (h : n.routeTo host = none) (timestamp now : Timeval)
    (flags : RtFlags) : n.getroute2dest host timestamp now flags = (n, none) := by
  rw [routeTo_eq_none] at h
  simp only [getroute2dest, aodvDbRtGetroute2dest]
  split
  · rfl
  · rename_i e he
    rw [if_neg (by rw [h e he]; exact Bool.false_ne_true)]

theorem routeTo_iface {n : Node} (hw : n.rt.WF) {host nextHop : MacAddr} {iface : Option Meshif}
    (h : n.routeTo host = some (nextHop, iface)) : iface.isSome = true := by
  obtain ⟨e, he, hv, -, rfl⟩ := routeTo_eq_some.mp h
  simp only [RtEntry.valid, Bool.and_eq_true, Bool.not_eq_true'] at hv
  exact hw.routed e (Rt.find_mem he) hv.1

section
variable {L : Libdessert} {n : Node} (hn : Reachable L n) {env : RxEnv} {msg : DessertMsg} {rreq : AodvMsgRreq}
include hn

theorem find_originator (hr : msg.getRreq = some rreq) (ho : n.judgeRreq env msg rreq ≠ .old) :
    (n.aodvHandleRreq env msg).1.rt.find msg.l25Shost =
      some ((n.rt.judged msg.l25Dhost msg.l25Shost env.now).2.afterRreq msg.l2Shost env.iface
        rreq.originatorSequenceNumber (n.countHop env msg).u16 (n.countHop env msg).u8) := by
  have h := (hn.wf.rreq n.cfg.metricType msg.l25Dhost msg.l25Shost msg.l2Shost env.iface
    rreq.originatorSequenceNumber (n.countHop env msg).u16 (n.countHop env msg).u8 env.now).2.find msg.l25Shost
  rw [(handleRreq_rt n env hr).1]
  exact h.trans ((if_pos rfl).trans (congrArg some (if_neg ho)))

/-- After a RREQ that is not old there is a route back over its previous hop exactly if the entry of the
originator was not marked invalid, or was not in use yet, or the number of the RREQ is not ahead of 0. -/
theorem reverseRoute_iff (hr : msg.getRreq = some rreq) (hc : n.captResult env msg rreq ≠ .old) :
    (n.aodvHandleRreq env msg).1.routeTo msg.l25Shost = some (msg.l2Shost, some env.iface) ↔
      ∀ x, n.rt.standing msg.l25Dhost msg.l25Shost env.now = some x → x.flags.nextHopUnknown = false →
        x.flags.routeInvalid = true → hfCompU32 rreq.originatorSequenceNumber 0 ≤ 0 := by
  rw [captRreq_result] at hc
  have hf := find_originator hn hr hc
  generalize hx : (n.rt.judged msg.l25Dhost msg.l25Shost env.now).2 = x at hf
  have hroute := x.afterRreq_route msg.l2Shost env.iface rreq.originatorSequenceNumber (n.countHop env msg).u16
    (n.countHop env msg).u8
  have hvalid := x.afterRreq_valid msg.l2Shost env.iface rreq.originatorSequenceNumber (n.countHop env msg).u16
    (n.countHop env msg).u8
  have hiff : (n.aodvHandleRreq env msg).1.routeTo msg.l25Shost = some (msg.l2Shost, some env.iface) ↔
      (x.flags.nextHopUnknown = false → x.flags.routeInvalid = true →
        hfCompU32 rreq.originatorSequenceNumber 0 ≤ 0) := by
    rw [routeTo_eq_some, ← hvalid]
    constructor
    · intro hs
      obtain ⟨e, he, hv, -, -⟩ := hs
      rw [Option.some.inj (hf.symm.trans he)]; exact hv
    · intro hv
      exact ⟨_, hf, hv, hroute.1, hroute.2.1⟩
  rw [hiff]
  rcases Rt.judged_cases n.rt msg.l25Dhost msg.l25Shost env.now with ⟨y, hy, hj⟩ | ⟨hnone, hnew⟩
  · have hyx : y = x := by rw [← hx, hj]
    constructor
    · intro h z hz
      rw [← Option.some.inj (hy.symm.trans hz), hyx]; exact h
    · intro h; exact hyx ▸ h y hy
  · -- a new entry has no next hop
    rw [hnew] at hx
    refine iff_of_true (fun hk => ?_) fun z hz => ?_
    · rw [← hx] at hk; cases hk
    · rw [hnone] at hz; cases hz

end

theorem reverseRoute_first :
    ((aodvDbInit {} 9 [wlan]).aodvHandleRreq (rxAt 0) (rreqFrom 5 9 1 1 0)).1.routeTo 5 = some (1, some wlan) :=
  (@reverseRoute_iff roomy _ ⟨{}, 9, [wlan], [], rfl⟩ (rxAt 0) (rreqFrom 5 9 1 1 0) _ rfl
    (by decide)).mpr (by decide)

/-- Two RREQs of one originator with a reset of the routing table in between. -/
def resetBetween : List NodeEvent := [.mesh .handleRreq (rxAt 0) (rreqFrom 5 9 1 1 0), .routingReset]

/-- The second RREQ is new, but its previous hop is not in use afterwards. -/
theorem no_reverseRoute_after_reset :
    let n := Runs.exec (Node.step roomy) (aodvDbInit {} 8 [wlan]) resetBetween
    let msg := rreqFrom 5 9 1 2 0
    n.captResult (rxAt 1) msg
        { flagU := true, flagD := false, destinationSequenceNumber := 0, originatorSequenceNumber := 2 } = .new ∧
      (n.aodvHandleRreq (rxAt 1) msg).1.routeTo 5 = none := by
  decide

end Node

end DesAodv
