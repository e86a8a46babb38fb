import DesAodv.LostNeighbor
import DesAodv.RerrReception

/-!
# Accesses to freed entries

The index is followed to the entries it refers to, and the records of a RERR to
the addresses it announces. `step_fault` says in which events an access goes
wrong.
-/

namespace DesAodv

namespace Rt

/-- The index refers to no freed entry under the next hop. -/
def live (rt : Rt) (nextHop : MacAddr) : Bool :=
  (nhtFind rt.nht nextHop).all fun x => x.destList.all fun dest => (rt.deref dest.rtEntry).isSome

theorem deref_write_isSome (rt : Rt) (p q : Nat) {f : RtEntry → RtEntry} (hf : ∀ e, (f e).ptr = e.ptr) :
    ((rt.write p f).deref q).isSome = (rt.deref q).isSome := by
  unfold deref write
  rw [Keyed.lookup_modify q p f hf, Option.isSome_map]

theorem foldl_markInvalid_fault (rt : Rt) (destList : List NhtDestlistEntry) :
    (destList.foldl (fun rt dest => rt.write dest.rtEntry RtEntry.markInvalid) rt).fault =
      (rt.fault || !destList.all fun dest => (rt.deref dest.rtEntry).isSome) := by
  induction destList generalizing rt with
  | nil => simp
  | cons d ds ih =>
    rw [List.foldl_cons, ih]
    have hd : (ds.all fun dest => ((rt.write d.rtEntry RtEntry.markInvalid).deref dest.rtEntry).isSome) =
        ds.all fun dest => (rt.deref dest.rtEntry).isSome := by
      congr 1
      funext dest
      exact deref_write_isSome rt d.rtEntry dest.rtEntry fun _ => rfl
    rw [hd, List.all_cons]
    simp only [write]
    cases rt.deref d.rtEntry <;> simp

theorem foldl_markInvalid_live (rt : Rt) (destList : List NhtDestlistEntry) (q : Nat) :
    ((destList.foldl (fun rt dest => rt.write dest.rtEntry RtEntry.markInvalid) rt).deref q).isSome =
      (rt.deref q).isSome := by
  induction destList generalizing rt with
  | nil => rfl
  | cons d ds ih => exact (ih _).trans (deref_write_isSome rt d.rtEntry q fun _ => rfl)

theorem foldl_markInvalid_nht (rt : Rt) (destList : List NhtDestlistEntry) :
    (destList.foldl (fun rt dest => rt.write dest.rtEntry RtEntry.markInvalid) rt).nht = rt.nht := by
  induction destList generalizing rt with
  | nil => rfl
  | cons d ds ih => exact ih _

theorem invOverNexthop_nht (rt : Rt) (nextHop : MacAddr) :
    (aodvDbRtInvOverNexthop rt nextHop).1.nht = rt.nht := by
  unfold aodvDbRtInvOverNexthop
  split
  · rfl
  · exact foldl_markInvalid_nht rt _

theorem invOverNexthop_fault (rt : Rt) (nextHop : MacAddr) :
    (aodvDbRtInvOverNexthop rt nextHop).1.fault = (rt.fault || !rt.live nextHop) := by
  unfold aodvDbRtInvOverNexthop live
  cases nhtFind rt.nht nextHop with
  | none => simp
  | some x => exact foldl_markInvalid_fault rt x.destList

theorem invOverNexthop_live (rt : Rt) (nextHop : MacAddr) :
    (aodvDbRtInvOverNexthop rt nextHop).1.live nextHop = rt.live nextHop := by
  unfold live
  rw [invOverNexthop_nht]
  cases h : nhtFind rt.nht nextHop with
  | none => rfl
  | some x =>
    simp only [aodvDbRtInvOverNexthop, h, Option.all_some]
    congr 1
    funext dest
    exact foldl_markInvalid_live rt x.destList dest.rtEntry

theorem getDestlist_fault (rt : Rt) (nextHop : MacAddr) :
    (aodvDbRtGetDestlist rt nextHop).1.fault = (rt.fault || !rt.live nextHop) := by
  unfold aodvDbRtGetDestlist live
  cases nhtFind rt.nht nextHop with
  | none => simp
  | some x =>
    simp only [Option.all_some, List.any_map]
    congr 1
    induction x.destList with
    | nil => rfl
    | cons d ds ih =>
      rw [List.any_cons, List.all_cons, ih, Bool.not_and]
      simp only [Function.comp, Option.not_isSome]

theorem foldl_warnEndpoint_fault (destList : List NhtDestlistEntry) (rt : Rt) (found : List AodvMacSeq) :
    (destList.foldl warnEndpoint (rt, found)).1.fault =
      (rt.fault || !destList.all fun dest => (rt.deref dest.rtEntry).isSome) := by
  induction destList generalizing rt found with
  | nil => simp
  | cons d ds ih =>
    rw [List.foldl_cons, List.all_cons]
    cases hd : rt.deref d.rtEntry with
    | none =>
      have hw : warnEndpoint (rt, found) d = ({ rt with fault := true }, found) := by
        simp only [warnEndpoint, hd]
      rw [hw, ih]
      simp
    | some e =>
      by_cases hf : (e.flags.routeWarn || !e.flags.routeLocalUsed) = true
      · have hw : warnEndpoint (rt, found) d = (rt, found) := by
          simp only [warnEndpoint, hd, hf, if_true]
        rw [hw, ih, Option.isSome_some, Bool.true_and]
      · have hw : warnEndpoint (rt, found) d = (rt.write d.rtEntry RtEntry.markWarn,
            found ++ [{ host := e.addr, sequenceNumber := e.sequenceNumber }]) := by
          simp only [warnEndpoint, hd, hf]
          rfl
        have hfault : (rt.write d.rtEntry RtEntry.markWarn).fault = rt.fault := by simp [write, hd]
        rw [hw, ih, hfault, Option.isSome_some, Bool.true_and]
        congr 2
        congr 1
        funext dest
        exact deref_write_isSome rt d.rtEntry dest.rtEntry fun _ => rfl

theorem setWarn_fault (rt : Rt) (neighbor : MacAddr) :
    (aodvDbRtGetWarnEndpointsFromNeighborAndSetWarn rt neighbor).1.fault = (rt.fault || !rt.live neighbor) := by
  unfold aodvDbRtGetWarnEndpointsFromNeighborAndSetWarn live
  cases nhtFind rt.nht neighbor with
  | none => simp
  | some x => exact foldl_warnEndpoint_fault x.destList rt []

section
variable {rt : Rt} (hw : rt.WF)
include hw

theorem WF.getroute2dest_fault (host : MacAddr) (now : Timeval) (flags : RtFlags)
    (hf : flags.nextHopUnknown = false) : (aodvDbRtGetroute2dest rt host now now flags).1.fault = rt.fault := by
  simp only [aodvDbRtGetroute2dest]
  split
  · rfl
  · rename_i e he
    split
    · have hw₁ := hw.write_weaker e.ptr (RtEntry.weaker_setFlags hf)
      have he₁ : (rt.write e.ptr (RtEntry.setFlags flags)).find host = some (e.setFlags flags) :=
        (hw.find_write_entry (f := RtEntry.setFlags flags) (fun _ => rfl) he host).trans (if_pos rfl)
      exact (hw₁.renew (find_mem he₁) now).1.fault.trans (hw.fault_write (find_mem he) _)
    · rfl

theorem WF.rreq_fault (metricType : AodvMetric) (destinationHost originatorHost prevHop : MacAddr)
    (iface : Meshif) (seq : UInt32) (metric : Metric) (hopCount : UInt8) (now : Timeval) :
    (rt.step (.rreq metricType destinationHost originatorHost prevHop iface seq metric hopCount now)).fault =
      rt.fault :=
  (hw.rreq ..).2.fault.trans (hw.judged destinationHost originatorHost now).2.1.fault

theorem WF.rrep_fault (host nextHop : MacAddr) (iface : Meshif) (seq : UInt32) (metric : Metric)
    (hopCount : UInt8) (now : Timeval) :
    (rt.step (.rrep host nextHop iface seq metric hopCount now)).fault = rt.fault :=
  (hw.rrep ..).2.fault.trans (hw.findOrCreate host now).2.1.fault

end

end Rt

/-! ## Events -/

namespace Node

section
variable (rerr : AodvMsgRerr) (dest : AodvMacSeq)

theorem rerrIfaces_fault (nextHop : MacAddr) (ifaces : List MacAddr) {acc : Rt × Bool} (hw : acc.1.WF) :
    (ifaces.foldl (rerrIface dest nextHop) acc).1.fault = acc.1.fault := by
  induction ifaces generalizing acc with
  | nil => rfl
  | cons a as ih =>
    rw [List.foldl_cons, ih ((rerrIface_quietly dest nextHop acc a).wf hw)]
    simp only [rerrIface]
    split
    · simp only [aodvDbRtMarkrouteinv]
      split
      · rfl
      · rename_i x hx
        split
        · rfl
        · exact hw.fault_write (Rt.find_mem hx) RtEntry.markInvalid
    · rfl

theorem rerrRecord_fault {acc : Rt × Bool} (hw : acc.1.WF) :
    (rerrRecord rerr acc dest).1.fault =
      (acc.1.fault || (decide (rerr.ifaces.length < rerr.ifaceAddrCount.toNat) &&
        (acc.1.known dest.host).isSome)) := by
  unfold rerrRecord aodvDbRtGetnexthop
  cases acc.1.known dest.host with
  | none => simp
  | some x =>
    simp only [Option.map_some, Option.isSome_some, Bool.and_true]
    exact rerrIfaces_fault dest x.nextHop _ (hw.setFault _)

theorem rerrRecord_known (host : MacAddr) {acc : Rt × Bool} (hw : acc.1.WF) :
    ((rerrRecord rerr acc dest).1.known host).isSome = (acc.1.known host).isSome := by
  unfold Rt.known
  rw [(rerrRecord_marked rerr dest hw).find]
  cases acc.1.find host with
  | none => rfl
  | some e =>
    rw [Option.map_some]
    split
    · simp only [Option.filter_some, RtEntry.markInvalid]
      split <;> rfl
    · rfl

theorem rerrRecords_fault (records : List AodvMacSeq) {acc : Rt × Bool} (hw : acc.1.WF) :
    (records.foldl (rerrRecord rerr) acc).1.fault =
      (acc.1.fault || (decide (rerr.ifaces.length < rerr.ifaceAddrCount.toNat) &&
        records.any fun dest => (acc.1.known dest.host).isSome)) := by
  induction records generalizing acc with
  | nil => simp
  | cons d ds ih =>
    have hk : (ds.any fun dest => ((rerrRecord rerr acc d).1.known dest.host).isSome) =
        ds.any fun dest => (acc.1.known dest.host).isSome := by
      congr 1
      funext dest
      exact rerrRecord_known rerr d dest.host hw
    rw [List.foldl_cons, ih ((rerrRecord_quietly rerr acc d).wf hw), rerrRecord_fault rerr d hw, hk,
      List.any_cons, Bool.or_assoc, Bool.and_or_distrib_left]

end

/-- The schedule that is due, if any, follows no reference to a freed entry. -/
def scheduleOk (n : Node) (now : Timeval) : Bool :=
  match aodvDbScPopschedule n.st now with
  | none => true
  | some (sc, _) =>
    match sc.scheduleId with
    | .sendOutRerr => n.rerrLimited now || n.rt.live sc.etherAddr
    | .sendOutRwarn => n.rt.live sc.etherAddr
    | _ => true

/-- The event follows no reference to a freed entry and reads no address that is not there. -/
def accessOk (n : Node) : NodeEvent → Bool
  | .mesh .handleRerr _ msg =>
    match msg.getRerr with
    | none => true
    | some rerr =>
      decide (rerr.ifaceAddrCount.toNat ≤ rerr.ifaces.length) ||
        !msg.records.any fun dest => (n.rt.known dest.host).isSome
  | .scexecute now _ => n.hung || n.scheduleOk now
  | _ => true

theorem handleRerr_fault {n : Node} (hw : n.rt.WF) (env : RxEnv) (msg : DessertMsg) :
    (n.aodvHandleRerr env msg).1.rt.fault = (n.rt.fault || !n.accessOk (.mesh .handleRerr env msg)) := by
  cases hr : msg.getRerr with
  | none => simp [aodvHandleRerr, accessOk, hr]
  | some rerr =>
    rw [handleRerr_rt n env hr, rerrRecords_fault rerr msg.records hw]
    simp only [accessOk, hr, Bool.not_or, Bool.not_not, ← decide_not, Nat.not_le]

theorem handleRrep_fault {n : Node} (hw : n.rt.WF) (env : RxEnv) (msg : DessertMsg) :
    (n.aodvHandleRrep env msg).1.rt.fault = n.rt.fault := by
  unfold aodvHandleRrep
  split
  · rfl
  · rename_i rrep _
    split
    · rfl
    · have hw' := (hw.rrep msg.l25Shost msg.l2Shost env.iface rrep.destinationSequenceNumber
        (n.countHop env msg).u16 (n.countHop env msg).u8 env.now).1
      have hf := hw.rrep_fault msg.l25Shost msg.l2Shost env.iface rrep.destinationSequenceNumber
        (n.countHop env msg).u16 (n.countHop env msg).u8 env.now
      have hrt : (n.captRrep (n.countHop env msg).l25Shost (n.countHop env msg).l2Shost env.iface
          rrep.destinationSequenceNumber (n.countHop env msg).u16 (n.countHop env msg).u8 env.now env.now).1.rt =
          n.rt.step (.rrep msg.l25Shost msg.l2Shost env.iface rrep.destinationSequenceNumber
            (n.countHop env msg).u16 (n.countHop env msg).u8 env.now) := rfl
      rw [← hrt] at hw' hf
      simp only
      generalize n.captRrep (n.countHop env msg).l25Shost (n.countHop env msg).l2Shost env.iface
        rrep.destinationSequenceNumber (n.countHop env msg).u16 (n.countHop env msg).u8 env.now env.now = r at *
      split
      · exact hf
      · split
        · exact (congrArg Rt.fault (sendPackets_frame r.1 msg.l25Shost msg.l2Shost env.iface).rt).trans hf
        · have hg := hw'.getroute2dest_fault msg.l25Dhost env.now aodvFlagsUnused rfl
          split
          · rename_i n' hn
            exact ((congrArg (fun r => r.1.rt.fault) hn).symm.trans hg).trans hf
          · rename_i n' nextHop outputIface hn
            exact ((congrArg (fun r => r.1.rt.fault) hn).symm.trans hg).trans hf

theorem sys2rp_fault {n : Node} (hw : n.rt.WF) (msg : DessertMsg) (now : Timeval) :
    (n.aodvSys2rp msg now).1.rt.fault = n.rt.fault := by
  unfold aodvSys2rp
  simp only
  split
  · rfl
  · split
    · rfl
    · have hg := hw.getroute2dest_fault msg.l25Dhost now aodvFlagsRouteLocalUsed rfl
      split
      · rename_i n' nextHop outputIface hn
        exact (congrArg (fun r => r.1.rt.fault) hn).symm.trans hg
      · rename_i n' hn
        have hs := congrArg Rt.fault (sendRreq_frame
          { n' with pb := pbPushPacket n'.pb msg.l25Dhost { msg with ttl := 255, u8 := 0 } now now }
          msg.l25Dhost now).rt
        exact hs.trans ((congrArg (fun r => r.1.rt.fault) hn).symm.trans hg)

section
variable (L : Libdessert) {n : Node} (hw : n.rt.WF)
include hw

theorem forward_fault (env : RxEnv) (msg : DessertMsg) :
    (n.aodvForward L env msg).1.rt.fault = n.rt.fault := by
  unfold aodvForward
  split
  · rfl
  · split
    · rfl
    · simp only
      split
      · rfl
      · have hg := hw.getroute2dest_fault msg.l25Dhost env.now aodvFlagsUnused rfl
        split
        · rename_i n' nextHop outputIface hn
          exact (congrArg (fun r => r.1.rt.fault) hn).symm.trans hg
        · rename_i n' hn
          have hs := congrArg Rt.fault (rerrUnroutable_frame L n' env msg.l25Dhost).rt
          exact hs.trans ((congrArg (fun r => r.1.rt.fault) hn).symm.trans hg)

omit hw in
theorem scSendOutRerr_fault (etherAddr : MacAddr) (now : Timeval) :
    (n.scSendOutRerr L etherAddr now).1.rt.fault =
      (n.rt.fault || !(n.rerrLimited now || n.rt.live etherAddr)) := by
  unfold scSendOutRerr rerrLimited
  simp only
  split
  · rename_i hlim
    simp [hlim]
  · rename_i hlim
    have hi := Rt.invOverNexthop_fault n.rt etherAddr
    have hd := Rt.getDestlist_fault (aodvDbRtInvOverNexthop n.rt etherAddr).1 etherAddr
    rw [hi, Rt.invOverNexthop_live] at hd
    rw [decide_eq_false hlim, Bool.false_or]
    split
    · exact hi
    · have hd' : (aodvDbRtGetDestlist (aodvDbRtInvOverNexthop n.rt etherAddr).1 etherAddr).1.fault =
          (n.rt.fault || !n.rt.live etherAddr) := by
        rw [hd, Bool.or_assoc, Bool.or_self]
      split <;> exact hd'

omit hw in
theorem scexecute_fault (now : Timeval) (avgRssi : Int8) :
    (n.aodvPeriodicScexecute L now avgRssi).1.rt.fault = (n.rt.fault || !n.scheduleOk now) := by
  unfold aodvPeriodicScexecute scheduleOk
  cases hp : aodvDbScPopschedule n.st now with
  | none => simp
  | some r =>
    obtain ⟨sc, st⟩ := r
    simp only
    cases hs : sc.scheduleId with
    | repeatRreq =>
      simp only [Bool.not_true, Bool.or_false]
      split
      · exact congrArg Rt.fault (sendRreqReal_frame _ _ now).rt
      · rfl
    | sendOutRerr => exact scSendOutRerr_fault L (n := { n with st }) sc.etherAddr now
    | sendOutRwarn =>
      exact (congrArg Rt.fault (sendRreqs_frame _ _ now).rt).trans (Rt.setWarn_fault n.rt sc.etherAddr)
    | updateRssi =>
      simp only [Bool.not_true, Bool.or_false]
      split
      · split <;> rfl
      · rfl

/-- An access goes wrong in the events that are not `accessOk`, and in no other. -/
theorem step_fault (ev : NodeEvent) : (n.step L ev).rt.fault = (n.rt.fault || !n.accessOk ev) := by
  have hok : ∀ {b : Bool}, b = n.rt.fault → b = (n.rt.fault || !true) := by simp
  cases ev with
  | mesh cb env msg =>
    cases cb with
    | dropErrors => exact hok (congrArg Rt.fault (dropErrors_frame n env msg).rt)
    | handleHello => exact hok (congrArg Rt.fault (handleHello_frame n env msg).rt)
    | handleRreq =>
      apply hok
      simp only [step, handle, callback]
      cases hr : msg.getRreq with
      | none => simp only [aodvHandleRreq, hr]
      | some rreq =>
        rw [(handleRreq_rt n env hr).1]
        exact hw.rreq_fault ..
    | handleRerr => exact handleRerr_fault hw env msg
    | handleRrep => exact hok (handleRrep_fault hw env msg)
    | forwardBroadcast => exact hok (congrArg Rt.fault (forwardBroadcast_frame n env msg).rt)
    | forwardMulticast => exact hok rfl
    | forward => exact hok (forward_fault L hw env msg)
    | localUnicast => exact hok (congrArg Rt.fault (localUnicast_frame n env msg).rt)
  | sysRx l25Shost l25Dhost payload now => exact hok (sys2rp_fault hw _ now)
  | cliSendRreq host now => exact hok (congrArg Rt.fault (sendRreq_frame n host now).rt)
  | routingReset => exact hok rfl
  | neighborReset => exact hok rfl
  | sendHello =>
    apply hok
    simp only [step, handle]
    split <;> rfl
  | sendRreq now =>
    apply hok
    simp only [step, handle]
    split
    · rfl
    · exact congrArg Rt.fault (sendRreqs_frame n _ now).rt
  | cleanupDatabase now =>
    apply hok
    simp only [step, handle]
    split
    · rfl
    · obtain ⟨gone, hp, -⟩ := hw.cleanup now
      exact hp.fault
  | scexecute now avgRssi =>
    simp only [step, handle]
    cases hh : n.hung with
    | true => simp [accessOk, hh]
    | false =>
      simp only [accessOk, hh, Bool.false_or]
      exact scexecute_fault L now avgRssi

end

end Node

end DesAodv
