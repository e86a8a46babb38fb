import DesAodv.CaptureSteps
import DesAodv.DaemonTables
import DesAodv.DataOnce
import DesAodv.HopBound
import DesAodv.LocalRepair

/-!
# The parts of a route discovery

What one daemon makes of a RREQ it has not seen, of the RREP that answers it and
of the data that follows, when it has nothing older in its way: the route to
where the frame comes from, and the frame it sends on.
-/

namespace DesAodv

open Deadlines

/-- What a radio reports about a reception. -/
structure Reception where
  now : Timeval
  link : LinkSample
  gossip : Bool
  rcvdHellos : Option UInt8
  deriving DecidableEq

namespace Node

/-- The daemon has the address `l25` and the one interface `iface`, and rebroadcasts without gossiping. -/
structure Placed (l25 : MacAddr) (iface : Meshif) (n : Node) : Prop where
  l25Defsrc : n.l25Defsrc = l25
  meshiflist : n.meshiflist = [iface]
  gossipNone : n.cfg.gossipType = .gossipNone
  sound : n.Sound
  stored : n.Stored

/-- RREQs and RREPs of the neighbor are let through before `due`. -/
def Hears (due : Timeval) (neighbor : MacAddr) (iface : Meshif) (n : Node) : Prop :=
  KeptUntil n.nt.live due (neighbor, iface)

/-- Nothing is known about the way to the host, and its entry is not purged before `due`. -/
def Ignores (due : Timeval) (host : MacAddr) (n : Node) : Prop :=
  n.rt.KeepsIf due host fun e => e.flags.nextHopUnknown = true

/-- There is a route to the host over the next hop, and it is not purged before `due`. -/
def Routes (due : Timeval) (host nextHop : MacAddr) (iface : Meshif) (n : Node) : Prop :=
  n.rt.Keeps due host fun e => e.valid = true ∧ e.nextHop = nextHop ∧ e.outputIface = some iface

/-- A RREQ of the host with the number is newer than what is known about it, and the RREP that it is taken for
is not in the way of the route back. -/
def Awaits (due : Timeval) (host : MacAddr) (seq : UInt32) (n : Node) : Prop :=
  n.rt.KeepsIf due host fun e => e.valid = true ∧ hfCompU32 e.sequenceNumber seq < 0

/-- The environment of a reception. -/
def rx (n : Node) (r : Reception) (msg : DessertMsg) : RxEnv :=
  Net.rxEnv n msg r.now r.link r.gossip r.rcvdHellos

theorem rx_congr {n n' : Node} (hl : n'.l25Defsrc = n.l25Defsrc) (hi : n'.meshiflist = n.meshiflist) (r : Reception)
    (msg : DessertMsg) : n'.rx r msg = n.rx r msg := by
  simp only [rx, Net.rxEnv, lflags, hl, hi]

/-- A frame from the daemon at the address `src`, for none of the own ones. -/
structure FromOther (src : MacAddr) (iface : Meshif) (l25 : MacAddr) (msg : DessertMsg) : Prop where
  l2Shost : msg.l2Shost = src
  l2 : iface.hwaddr ≠ src
  l25 : msg.l25Shost ≠ l25

section
variable {n : Node} {l25 : MacAddr} {iface : Meshif} (hp : n.Placed l25 iface) (r : Reception) {msg : DessertMsg}
  {src : MacAddr}
include hp

theorem Placed.rx_iface : (n.rx r msg).iface = iface := by
  simp [rx, Net.rxEnv, hp.meshiflist]

theorem Placed.rx_l2Dst : (n.rx r msg).lflags.l2Dst = decide (iface.hwaddr = msg.l2Dhost) := by
  simp [rx, Net.rxEnv, lflags, hp.meshiflist]

theorem Placed.rx_l25Dst : (n.rx r msg).lflags.l25Dst = decide (l25 = msg.l25Dhost) := by
  simp [rx, Net.rxEnv, lflags, hp.l25Defsrc]

theorem Placed.rx_other (hf : FromOther src iface l25 msg) :
    (n.rx r msg).lflags.l2Src = false ∧ (n.rx r msg).lflags.l25Src = false := by
  have h₁ : iface.hwaddr ≠ msg.l2Shost := hf.l2Shost ▸ hf.l2
  have h₂ : l25 ≠ msg.l25Shost := Ne.symm hf.l25
  simp [rx, Net.rxEnv, lflags, hp.meshiflist, hp.l25Defsrc, h₁, h₂]

/-! ## What stays as it is -/

/-- The daemon is where it was, it has the same record of data packets, and it hears whom it heard. -/
structure Stays (due : Timeval) (l25 : MacAddr) (iface : Meshif) (n n' : Node) : Prop where
  placed : n'.Placed l25 iface
  cfg : n'.cfg = n.cfg
  ds : n'.ds = n.ds
  hears : ∀ neighbor, n.Hears due neighbor iface → n'.Hears due neighbor iface

omit hp in
theorem Stays.trans {due : Timeval} {a b c : Node} (h : Stays due l25 iface a b) (h' : Stays due l25 iface b c) :
    Stays due l25 iface a c :=
  ⟨h'.placed, h'.cfg.trans h.cfg, h'.ds.trans h.ds, fun k hk => h'.hears k (h.hears k hk)⟩

theorem Placed.step (L : Libdessert) (ev : NodeEvent) : (n.step L ev).Placed l25 iface := by
  obtain ⟨-, hc, hl, hm⟩ := step_rt L n ev
  exact ⟨hl.trans hp.l25Defsrc, hm.trans hp.meshiflist, hc ▸ hp.gossipNone, hp.sound.step L ev,
    step_stored L hp.stored ev⟩

variable {due : Timeval}

/-- A RREQ or RREP of a neighbor that is heard passes `aodv_drop_errors`. -/
theorem Placed.dropErrors (hf : FromOther src iface l25 msg) (hr : (msg.getRreq.isSome || msg.getRrep.isSome) = true)
    (hh : n.Hears due src iface) (ht : r.now < due) :
    (n.aodvDropErrors (n.rx r msg) msg).2 = .keep ∧
      Stays due l25 iface n (n.aodvDropErrors (n.rx r msg) msg).1 ∧
      (n.aodvDropErrors (n.rx r msg) msg).1.rt = n.rt ∧ (n.aodvDropErrors (n.rx r msg) msg).1.pb = n.pb ∧
      (n.aodvDropErrors (n.rx r msg) msg).1.dataSeqGlobal = n.dataSeqGlobal := by
  obtain ⟨hl2, hl25⟩ := hp.rx_other r hf
  have hask : AsksForNeighbor (n.rx r msg) msg := ⟨hl2, hl25, hr⟩
  have hcalled : (n.aodvDropErrors (n.rx r msg) msg).1.nt = (dbNtCleanup n.nt n.st r.now).1 := by
    rcases dropErrors_nt n (n.rx r msg) msg with ⟨op, hop, hstep⟩ | ⟨hop, -⟩
    · rw [ntOp_dropErrors, if_pos hask] at hop
      obtain rfl := Option.some.inj hop
      exact congrArg Prod.fst hstep
    · rw [ntOp_dropErrors, if_pos hask] at hop
      cases hop
  obtain ⟨hok, -, -, gone, hrem, -⟩ := hp.sound.nt.cleanup n.st r.now
  have hkept : ∀ k, KeptUntil n.nt.live due k → KeptUntil (dbNtCleanup n.nt n.st r.now).1.live due k :=
    fun k hk => hrem.keptUntil hk ht
  have hplaced := hp.step ⟨0, fun _ _ => false⟩ (.mesh .dropErrors (n.rx r msg) msg)
  obtain ⟨nt, st, heq⟩ := dropErrors_eq n (n.rx r msg) msg
  refine ⟨?_, ⟨hplaced, by rw [heq], by rw [heq], fun k hk => ?_⟩, by rw [heq], by rw [heq], by rw [heq]⟩
  · rw [dropErrors_verdict n _ msg hask]
    obtain ⟨t, hl, -⟩ := hkept _ hh
    have hpres : (dbNtCleanup n.nt n.st r.now).1.Present (src, iface) :=
      hok.present_iff.mpr (by rw [hl]; exact Option.some_ne_none t)
    rw [hf.l2Shost, hp.rx_iface]
    exact hpres
  · unfold Hears
    rw [hcalled]
    exact hkept _ hk

theorem Stays.same {n' : Node} (hp' : n'.Placed l25 iface) (hc : n'.cfg = n.cfg) (hd : n'.ds = n.ds)
    (hs : NeighborTable.SameNeighbors n.nt n'.nt) : Stays due l25 iface n n' := by
  refine ⟨hp', hc, hd, fun k hk => ?_⟩
  unfold Hears
  rw [hs.live hp.sound.nt]
  exact hk

/-! ## RREQs -/

section
variable {rreq : AodvMsgRreq} (he : msg.exts = [.rreq rreq]) (ht : Timely due r.now)
  (hne : msg.l25Dhost ≠ msg.l25Shost) (hzero : hfCompU32 0 rreq.originatorSequenceNumber < 0)
  (hawait : n.Awaits due msg.l25Shost rreq.originatorSequenceNumber)
include he ht hne hzero hawait

/-- A new RREQ leaves a route to its originator over the previous hop. -/
theorem Placed.handleRreq :
    n.judgeRreq (n.rx r msg) msg rreq = .new ∧
      Stays due l25 iface n (n.aodvHandleRreq (n.rx r msg) msg).1 ∧
      (n.aodvHandleRreq (n.rx r msg) msg).1.Routes due msg.l25Shost msg.l2Shost iface ∧
      (n.Ignores due msg.l25Dhost → (n.aodvHandleRreq (n.rx r msg) msg).1.rt.Keeps due msg.l25Dhost
        fun e => e.flags.nextHopUnknown = true) := by
  have hr : msg.getRreq = some rreq := by simp [DessertMsg.getRreq, he]
  obtain ⟨hrt, hc, -, -⟩ := handleRreq_rt n (n.rx r msg) hr
  obtain ⟨hnew, hroute⟩ := hp.sound.rt.rreq_new ht hne hzero hawait n.cfg.metricType msg.l2Shost
    (n.rx r msg).iface (n.countHop (n.rx r msg) msg).u16 (n.countHop (n.rx r msg) msg).u8
  have hplaced := hp.step ⟨0, fun _ _ => false⟩ (.mesh .handleRreq (n.rx r msg) msg)
  refine ⟨hnew, Stays.same hp hplaced hc (handleRreq_work n _ msg).ds (handleRreq_nt n _ msg), ?_, fun hi => ?_⟩
  · unfold Routes
    rw [hrt, rreqOp, hp.rx_iface]
    rw [hp.rx_iface] at hroute
    exact hroute
  · rw [hrt]
    exact Rt.KeepsIf.rreq hp.sound.rt ht hi (fun _ => rfl) _ hne _ _ _ _ _

/-- It is rebroadcast by a daemon on the way that knows no route to the destination. -/
theorem Placed.rreq_passed (hd : l25 ≠ msg.l25Dhost) (hi : n.Ignores due msg.l25Dhost) (httl : 1 < msg.ttl.toNat) :
    .mesh (n.countHop (n.rx r msg) msg) none ∈ (n.aodvHandleRreq (n.rx r msg) msg).2.1 ∧
      (n.countHop (n.rx r msg) msg).ttl.toNat = msg.ttl.toNat - 1 := by
  have hr : msg.getRreq = some rreq := by simp [DessertMsg.getRreq, he]
  obtain ⟨hnew, hstays, -, hunknown⟩ := hp.handleRreq r he ht hne hzero hawait
  have ho : n.judgeRreq (n.rx r msg) msg rreq ≠ .old := by
    rw [hnew]
    decide
  have hdst : (n.rx r msg).lflags.l25Dst = false := by
    rw [hp.rx_l25Dst]
    exact decide_eq_false hd
  obtain ⟨buffered, -, hs⟩ := handleRreq_passed hp.stored hdst hr ho
  obtain ⟨e, hfind, hunk, -⟩ := hunknown hi
  have hrepair : localRepair (n.aodvHandleRreq (n.rx r msg) msg).1.rt rreq msg.l25Dhost = none := by
    refine Option.eq_none_iff_forall_ne_some.mpr fun seq hseq => ?_
    obtain ⟨x, hx, hk, -⟩ := localRepair_eq_some.mp hseq
    obtain rfl := Option.some.inj (hfind.symm.trans hx)
    rw [hunk] at hk
    cases hk
  have hne0 : msg.ttl ≠ 0 := by
    intro h
    rw [h] at httl
    exact absurd httl (by decide)
  have hpred : (msg.ttl - 1).toNat = msg.ttl.toNat - 1 := (Hop.toNat_pred hne0).2
  have hcount : (n.countHop (n.rx r msg) msg).ttl = msg.ttl - 1 := if_pos hne0
  have hlive : (n.countHop (n.rx r msg) msg).ttl ≠ 0 := by
    intro h
    rw [hcount] at h
    rw [h] at hpred
    have h0 : (0 : UInt8).toNat = 0 := rfl
    omega
  refine ⟨?_, by rw [hcount, hpred]⟩
  rw [hs]
  refine List.mem_append_right _ ?_
  unfold rrepOrRebroadcast
  simp only [countHop_l25Dhost, hrepair]
  rw [if_pos (hstays.cfg ▸ hp.gossipNone), if_neg hlive]
  exact List.mem_singleton_self _

/-- The destination answers it to the previous hop. -/
theorem Placed.rreq_answered (hd : l25 = msg.l25Dhost) :
    ∃ seq, .mesh (createRrep l25 msg.l25Shost msg.l2Shost seq 0 0 n.cfg.metricStartvalue) (some iface) ∈
      (n.aodvHandleRreq (n.rx r msg) msg).2.1 := by
  have hr : msg.getRreq = some rreq := by simp [DessertMsg.getRreq, he]
  obtain ⟨hnew, -⟩ := hp.handleRreq r he ht hne hzero hawait
  have ho : n.judgeRreq (n.rx r msg) msg rreq ≠ .old := by
    rw [hnew]
    decide
  have hdst : (n.rx r msg).lflags.l25Dst = true := by
    rw [hp.rx_l25Dst]
    exact decide_eq_true hd
  obtain ⟨buffered, seq, -, hs⟩ := handleRreq_answered hp.stored hdst hr ho
  refine ⟨seq, ?_⟩
  rw [hs, hp.l25Defsrc, hp.rx_iface]
  exact List.mem_append_right _ (List.mem_singleton_self _)

end

/-! ## RREPs -/

omit hp in
theorem Routes.routeTo {host nextHop : MacAddr} (h : n.Routes due host nextHop iface) :
    n.routeTo host = some (nextHop, some iface) := by
  obtain ⟨e, he, ⟨hv, hn, hi⟩, -⟩ := h
  exact routeTo_eq_some.mpr ⟨e, he, hv, hn, hi⟩

omit hp in
/-- The one packet that waits for the host is sent with the next number. -/
theorem sendPackets_one {n : Node} (hpb : n.pb.Ok) {host : MacAddr} {packet : DessertMsg}
    (hq : n.pb.queue host = [packet]) (nextHop : MacAddr) (iface : Meshif) :
    (n.aodvSendPacketsFromBuffer host nextHop iface).2 =
      [.mesh { packet with u16 := n.dataSeqGlobal + 1, l2Dhost := nextHop } (some iface)] := by
  obtain ⟨series, st, heq⟩ := deleteSeriesEther_eq n host
  obtain ⟨-, -, -, hpop⟩ := hpb.pop host
  rw [hq] at hpop
  simp only [aodvSendPacketsFromBuffer, heq, hq, List.foldl_cons, List.foldl_nil, sendBuffered]
  split
  · rename_i pb hnone
    rw [hnone] at hpop
    cases hpop
  · rename_i pb msg' hsome
    rw [hsome] at hpop
    obtain rfl := Option.some.inj hpop
    rfl

section
variable {rrep : AodvMsgRrep} (he : msg.exts = [.rrep rrep]) (ht : Timely due r.now)
  (hl2 : msg.l2Dhost = iface.hwaddr) (hi : n.Ignores due msg.l25Shost)
include he ht hl2 hi

omit he hl2 in
/-- A RREP for a host that is not known is used, and leaves a route over the previous hop. -/
theorem Placed.captRrep :
    let c := n.captRrep msg.l25Shost msg.l2Shost (n.rx r msg).iface rrep.destinationSequenceNumber
      (n.countHop (n.rx r msg) msg).u16 (n.countHop (n.rx r msg) msg).u8 r.now r.now
    c.2 = true ∧ c.1.rt.Clocked ∧ c.1.Routes due msg.l25Shost msg.l2Shost iface ∧
      ∀ host nextHop, host ≠ msg.l25Shost → n.Routes due host nextHop iface → c.1.Routes due host nextHop iface := by
  intro c
  obtain ⟨hused, hroute⟩ := hp.sound.rt.rrep_used ht hi msg.l2Shost (n.rx r msg).iface
    rrep.destinationSequenceNumber (n.countHop (n.rx r msg) msg).u16 (n.countHop (n.rx r msg) msg).u8
  rw [hp.rx_iface] at hroute
  refine ⟨(captRrep_used n _ _ _ _ _ _ _).trans hused, ?_, ?_, fun host nextHop hne h => ?_⟩
  · exact hp.sound.rt.step (.rrep msg.l25Shost msg.l2Shost (n.rx r msg).iface rrep.destinationSequenceNumber
      (n.countHop (n.rx r msg) msg).u16 (n.countHop (n.rx r msg) msg).u8 r.now)
  · unfold Routes
    have hrt : c.1.rt = n.rt.step (.rrep msg.l25Shost msg.l2Shost iface rrep.destinationSequenceNumber
        (n.countHop (n.rx r msg) msg).u16 (n.countHop (n.rx r msg) msg).u8 r.now) := by
      rw [← @Placed.rx_iface _ _ _ hp r msg]
      rfl
    rw [hrt]
    exact hroute
  · exact Rt.Keeps.rrep hp.sound.rt ht h hne _ _ _ _ _

/-- A daemon on the way that has a route back sends it there. -/
theorem Placed.rrep_passed (hd : l25 ≠ msg.l25Dhost) (hne : msg.l25Dhost ≠ msg.l25Shost) {nextHop : MacAddr}
    (hback : n.Routes due msg.l25Dhost nextHop iface) :
    Stays due l25 iface n (n.aodvHandleRrep (n.rx r msg) msg).1 ∧
      (n.aodvHandleRrep (n.rx r msg) msg).1.Routes due msg.l25Shost msg.l2Shost iface ∧
      .mesh { n.countHop (n.rx r msg) msg with l2Dhost := nextHop } (some iface) ∈
        (n.aodvHandleRrep (n.rx r msg) msg).2.1 := by
  have hr : msg.getRrep = some rrep := by simp [DessertMsg.getRrep, he]
  obtain ⟨hused, hclocked, hroute, hothers⟩ := @Placed.captRrep _ _ _ hp r msg _ rrep ht hi
  have hdst : (n.rx r msg).lflags.l2Dst = true := by
    rw [hp.rx_l2Dst]
    exact decide_eq_true hl2.symm
  have hdst' : (n.rx r msg).lflags.l25Dst = false := by
    rw [hp.rx_l25Dst]
    exact decide_eq_false hd
  obtain ⟨-, hc, -, -⟩ := handleRrep_rt n (n.rx r msg) hr hdst
  have hplaced := hp.step ⟨0, fun _ _ => false⟩ (.mesh .handleRrep (n.rx r msg) msg)
  have hstays : Stays due l25 iface n (n.aodvHandleRrep (n.rx r msg) msg).1 :=
    Stays.same hp hplaced hc (handleRrep_work n _ msg).ds (handleRrep_nt n _ msg)
  have hlook := (hothers _ _ hne hback).routeTo
  rw [← getroute2dest_snd _ _ r.now r.now aodvFlagsUnused] at hlook
  refine ⟨hstays, ?_, ?_⟩
  · have hnode := handleRrep_node n (n.rx r msg) hr hdst
    simp only [hdst', Bool.false_eq_true, if_false] at hnode
    rw [hnode]
    split
    · exact Rt.Keeps.getroute2dest hclocked ht hroute msg.l25Dhost
    · rename_i hf
      exact absurd hused hf
  · simp only [aodvHandleRrep, hr, hdst, hdst', countHop_l25Shost, countHop_l2Shost, countHop_l25Dhost,
      Bool.not_true, Bool.false_eq_true, if_false]
    have hnow : (n.rx r msg).now = r.now := rfl
    simp only [hnow, hused, Bool.not_true, Bool.false_eq_true, if_false]
    split
    · rename_i n' hn
      rw [hn] at hlook
      cases hlook
    · rename_i n' nextHop' outputIface hn
      rw [hn] at hlook
      obtain ⟨rfl, rfl⟩ := Prod.mk.inj (Option.some.inj hlook)
      exact List.mem_singleton_self _

/-- The originator sends what has waited for the route. -/
theorem Placed.rrep_arrived (hd : l25 = msg.l25Dhost) {packet : DessertMsg}
    (hq : n.pb.queue msg.l25Shost = [packet]) :
    Stays due l25 iface n (n.aodvHandleRrep (n.rx r msg) msg).1 ∧
      (n.aodvHandleRrep (n.rx r msg) msg).1.Routes due msg.l25Shost msg.l2Shost iface ∧
      .mesh { packet with u16 := n.dataSeqGlobal + 1, l2Dhost := msg.l2Shost } (some iface) ∈
        (n.aodvHandleRrep (n.rx r msg) msg).2.1 := by
  have hr : msg.getRrep = some rrep := by simp [DessertMsg.getRrep, he]
  obtain ⟨hused, hclocked, hroute, -⟩ := @Placed.captRrep _ _ _ hp r msg _ rrep ht hi
  have hdst : (n.rx r msg).lflags.l2Dst = true := by
    rw [hp.rx_l2Dst]
    exact decide_eq_true hl2.symm
  have hdst' : (n.rx r msg).lflags.l25Dst = true := by
    rw [hp.rx_l25Dst]
    exact decide_eq_true hd
  obtain ⟨-, hc, -, -⟩ := handleRrep_rt n (n.rx r msg) hr hdst
  have hplaced := hp.step ⟨0, fun _ _ => false⟩ (.mesh .handleRrep (n.rx r msg) msg)
  refine ⟨Stays.same hp hplaced hc (handleRrep_work n _ msg).ds (handleRrep_nt n _ msg), ?_, ?_⟩
  · have hnode := handleRrep_node n (n.rx r msg) hr hdst
    simp only [hdst', if_true] at hnode
    rw [hnode]
    split
    · unfold Routes
      rw [(sendPackets_frame _ msg.l25Shost msg.l2Shost (n.rx r msg).iface).rt]
      exact hroute
    · rename_i hf
      exact absurd hused hf
  · simp only [aodvHandleRrep, hr, hdst, hdst', countHop_l25Shost, countHop_l2Shost,
      Bool.not_true, Bool.false_eq_true, if_false, if_true]
    have hnow : (n.rx r msg).now = r.now := rfl
    simp only [hnow, hused, Bool.not_true, Bool.false_eq_true, if_false]
    rw [sendPackets_one (n := (n.captRrep msg.l25Shost msg.l2Shost (n.rx r msg).iface rrep.destinationSequenceNumber
      (n.countHop (n.rx r msg) msg).u16 (n.countHop (n.rx r msg) msg).u8 r.now r.now).1) hp.sound.pb.ok hq, hp.rx_iface]
    exact List.mem_singleton_self _

end

/-! ## Data -/

section
variable (L : Libdessert) (he : msg.exts = []) (hf : FromOther src iface l25 msg)
  (huni : msg.l25Dhost.getLsbD 40 = false) (httl : msg.ttl ≠ 0)
  (hnew : n.ds.takesAsNew msg.l25Shost msg.u16 = true)
include he hf huni

omit httl hnew in
/-- Data is for the last two callbacks. -/
theorem Placed.receive_data : n.receive L (n.rx r msg) msg =
    match n.aodvForward L (n.rx r msg) msg with
    | (n', sent, .drop) => (n', sent)
    | (n', sent, .keep) =>
      ((n'.aodvLocalUnicast (n.rx r msg) msg).1, sent ++ (n'.aodvLocalUnicast (n.rx r msg) msg).2.1) := by
  obtain ⟨hl2, hl25⟩ := hp.rx_other r hf
  have hcast : msg.l25Dhost ≠ etherBroadcast := by
    intro h
    rw [h] at huni
    exact absurd huni (by decide)
  have hb : (n.rx r msg).lflags.l25Broadcast = false := decide_eq_false hcast
  have hm : (n.rx r msg).lflags.l25Multicast = false := by
    simp only [rx, Net.rxEnv, lflags, huni, Bool.false_and]
  have h₁ : n.aodvDropErrors (n.rx r msg) msg = (n, .keep) := by
    simp [aodvDropErrors, hl2, hl25, DessertMsg.getRreq, DessertMsg.getRrep, he]
  simp only [receive, meshPipeline, runCallbacks, callback, h₁, aodvHandleHello, aodvHandleRreq, aodvHandleRerr,
    aodvHandleRrep, aodvForwardBroadcast, aodvForwardMulticast, DessertMsg.getHello, DessertMsg.getRreq,
    DessertMsg.getRerr, DessertMsg.getRrep, he, hb, hm, List.findSome?_nil, List.nil_append, Bool.false_eq_true,
    if_false]
  generalize n.aodvForward L (n.rx r msg) msg = result
  obtain ⟨n', sent, verdict⟩ := result
  cases verdict with
  | drop => rfl
  | keep =>
    simp only
    generalize n'.aodvLocalUnicast (n.rx r msg) msg = last
    obtain ⟨n'', sent', verdict⟩ := last
    cases verdict <;> simp

include httl hnew

/-- A daemon on the way with a route sends it on. -/
theorem Placed.data_passed (hl2 : msg.l2Dhost = iface.hwaddr) (hd : l25 ≠ msg.l25Dhost) {nextHop : MacAddr}
    (hroute : n.Routes due msg.l25Dhost nextHop iface) : (n.receive L (n.rx r msg) msg).2 =
      [.mesh { msg with ttl := msg.ttl - 1, u8 := msg.u8 + 1, l2Dhost := nextHop } (some iface)] := by
  have hmine : (n.rx r msg).lflags.l2Dst = true := (hp.rx_l2Dst r).trans (decide_eq_true hl2.symm)
  have hother : (n.rx r msg).lflags.l25Dst = false := (hp.rx_l25Dst r).trans (decide_eq_false hd)
  have hlook : ∀ ds, (Node.getroute2dest { n with ds } msg.l25Dhost r.now r.now aodvFlagsUnused).2 =
      some (nextHop, some iface) := by
    intro ds
    rw [getroute2dest_snd]
    exact hroute.routeTo
  have hcapt := @DataSeq.captDataSeq_eq n.ds msg.l25Shost msg.u16 r.now
  rw [if_pos hnew] at hcapt
  have hnow : (n.rx r msg).now = r.now := rfl
  have hforward : (n.aodvForward L (n.rx r msg) msg).2 =
      ([.mesh { msg with ttl := msg.ttl - 1, u8 := msg.u8 + 1, l2Dhost := nextHop } (some iface)], .drop) := by
    have hlook' := hlook (dsTimeslotAddobject (n.ds.recorded msg.l25Shost msg.u16).1 r.now r.now
      (n.ds.recorded msg.l25Shost msg.u16).2)
    unfold aodvForward
    simp only [hmine, hother, ttl_le_zero, httl, hnow, hcapt, Bool.not_true, Bool.or_self, Bool.false_eq_true, if_false]
    split
    · rename_i n' nextHop' outputIface hn
      rw [hn] at hlook'
      obtain ⟨rfl, rfl⟩ := Prod.mk.inj (Option.some.inj hlook')
      rfl
    · rename_i n' hn
      rw [hn] at hlook'
      cases hlook'
  rw [hp.receive_data r L he hf huni]
  generalize n.aodvForward L (n.rx r msg) msg = result at hforward ⊢
  obtain ⟨n', sent, verdict⟩ := result
  obtain ⟨rfl, rfl⟩ := Prod.mk.inj hforward
  rfl

/-- The daemon it is for hands it to the system. -/
theorem Placed.data_arrived (hd : l25 = msg.l25Dhost) : (n.receive L (n.rx r msg) msg).2 =
      [.sys { msg with ttl := msg.ttl - 1, u8 := msg.u8 + 1 }] := by
  have hmine : (n.rx r msg).lflags.l25Dst = true := (hp.rx_l25Dst r).trans (decide_eq_true hd)
  have hcapt := @DataSeq.captDataSeq_eq n.ds msg.l25Shost msg.u16 r.now
  rw [if_pos hnew] at hcapt
  have hnow : (n.rx r msg).now = r.now := rfl
  rw [hp.receive_data r L he hf huni]
  simp [aodvForward, aodvLocalUnicast, hmine, httl, hnow, hcapt]

end

/-! ## The packet that starts the discovery -/

/-- The ttl of the first RREQ of a series. -/
def firstTtl (n : Node) : UInt8 := if n.cfg.ringSearch then ttlStart else ttlMax

omit hp in
theorem Ignores.no_route {host : MacAddr} (h : n.Ignores due host) : n.routeTo host = none := by
  rw [routeTo_eq_none]
  intro e he
  simp [RtEntry.valid, (h e he).1]

omit hp in
/-- A series for a host without one starts with a RREQ at once, if the rate limit allows it. -/
theorem sendRreq_first {running : List Nat} (ho : n.Owned running) {host : MacAddr}
    (hs : n.findSeriesUnlocked host = none) {now : Timeval}
    (hrate : ¬ (aodvDbRlGetrreqcount n.rreqLog now).2 > rreqRatelimit) : (n.aodvSendRreq host now).2 =
      [.mesh (numberRreq (n.createRreq host n.firstTtl n.cfg.metricStartvalue) (n.seqNumGlobal + 1)) none] := by
  have hnone : n.findSeriesUnlocked (n.createRreq host n.firstTtl n.cfg.metricStartvalue).l25Dhost = none := hs
  have hderef := newSeries_deref ho hnone n.series.fresh
  rw [if_pos rfl] at hderef
  have hlog : (n.aodvPipelineNewSeries (n.createRreq host n.firstTtl n.cfg.metricStartvalue)).1.rreqLog = n.rreqLog ∧
      (n.aodvPipelineNewSeries (n.createRreq host n.firstTtl n.cfg.metricStartvalue)).1.seqNumGlobal =
        n.seqNumGlobal := by
    rw [newSeries_started hnone]
    exact ⟨rfl, rfl⟩
  have hptr : (n.aodvPipelineNewSeries (n.createRreq host n.firstTtl n.cfg.metricStartvalue)).2 =
      some n.series.fresh := by
    rw [newSeries_started hnone]
  rcases hres : n.aodvPipelineNewSeries (n.createRreq host n.firstTtl n.cfg.metricStartvalue) with ⟨n', ptr⟩
  simp only [hres] at hderef hlog hptr
  subst hptr
  have hsend : n.aodvSendRreq host now = n'.aodvSendRreqReal n.series.fresh now := by
    unfold firstTtl at hres
    simp only [aodvSendRreq, hres]
  simp only [hsend, aodvSendRreqReal, hderef, hlog.1, hlog.2]
  rw [if_neg hrate]
  split <;> rfl

/-- A packet for a host that is not known waits, and the daemon asks for the host with its next number. -/
theorem Placed.packet_waits {host : MacAddr} {now : Timeval} (hi : n.Ignores due host) (huni : host.getLsbD 40 = false)
    (hs : n.findSeriesUnlocked host = none) (hq : n.pb.queue host = [])
    (hrate : ¬ (aodvDbRlGetrreqcount n.rreqLog now).2 > rreqRatelimit) (payload : List UInt8) :
    let res := n.aodvSys2rp (sysMsg l25 host payload) now
    Stays due l25 iface n res.1 ∧ res.1.rt = n.rt ∧ res.1.dataSeqGlobal = n.dataSeqGlobal ∧
      res.1.pb.queue host = [{ sysMsg l25 host payload with ttl := 255, u8 := 0 }] ∧
      ∃ rreq, ∃ msg : DessertMsg, res.2 = [.mesh msg none] ∧ msg.exts = [.rreq rreq] ∧ msg.l25Shost = l25 ∧
        msg.l25Dhost = host ∧ msg.ttl = n.firstTtl ∧ rreq.originatorSequenceNumber = n.seqNumGlobal + 1 := by
  have hcast : host ≠ etherBroadcast := by
    intro h
    rw [h] at huni
    exact absurd huni (by decide)
  let waiting : DessertMsg := { sysMsg l25 host payload with ttl := 255, u8 := 0 }
  let n₁ : Node := { n with pb := pbPushPacket n.pb host waiting now now }
  have hres : n.aodvSys2rp (sysMsg l25 host payload) now = n₁.aodvSendRreq host now := by
    simp only [aodvSys2rp, sysMsg, hcast, huni, getroute2dest_none hi.no_route, if_false, Bool.false_eq_true]
    rfl
  have hplaced := hp.step ⟨0, fun _ _ => false⟩ (.sysRx l25 host payload now)
  have hplaced' : (n₁.aodvSendRreq host now).1.Placed l25 iface := hres ▸ hplaced
  have hone : n₁.Owned [] := hp.sound.tidy.series.congr rfl (List.Perm.refl _)
  have hsent := sendRreq_first hone hs hrate
  obtain ⟨series, st, rreqLog, seqNumGlobal, heq⟩ := sendRreq_work n₁ host now
  intro res
  rw [show res = n₁.aodvSendRreq host now from hres]
  rw [heq] at hplaced'
  refine ⟨?_, ?_, ?_, ?_, ?_⟩
  · rw [heq]
    exact ⟨hplaced', rfl, rfl, fun _ hk => hk⟩
  · rw [heq]
  · rw [heq]
  · rw [heq]
    exact hp.sound.pb.push_first host hq waiting now
  · exact ⟨_, _, hsent, rfl, hp.l25Defsrc, rfl, rfl, rfl⟩

/-! ## Receptions -/

/-- Before a RREQ or RREP is handled, only neighbors are forgotten. -/
theorem Placed.let_through (L : Libdessert) (hf : FromOther src iface l25 msg)
    (hr : (msg.getRreq.isSome || msg.getRrep.isSome) = true) (hh : n.Hears due src iface) (ht : r.now < due) :
    ∃ m, Stays due l25 iface n m ∧ m.rt = n.rt ∧ m.pb = n.pb ∧ m.dataSeqGlobal = n.dataSeqGlobal ∧
      (∀ rreq, msg.exts = [.rreq rreq] → n.receive L (n.rx r msg) msg =
        ((m.aodvHandleRreq (m.rx r msg) msg).1, (m.aodvHandleRreq (m.rx r msg) msg).2.1)) ∧
      ∀ rrep, msg.exts = [.rrep rrep] → n.receive L (n.rx r msg) msg =
        ((m.aodvHandleRrep (m.rx r msg) msg).1, (m.aodvHandleRrep (m.rx r msg) msg).2.1) := by
  obtain ⟨hkeep, hstays, hrt, hpb, hseq⟩ := hp.dropErrors r hf hr hh ht
  have hrx : (n.aodvDropErrors (n.rx r msg) msg).1.rx r msg = n.rx r msg := by
    apply rx_congr
    · exact hstays.placed.l25Defsrc.trans hp.l25Defsrc.symm
    · exact hstays.placed.meshiflist.trans hp.meshiflist.symm
  have hpass : (n.aodvDropErrors (n.rx r msg) msg).2 ≠ .drop := by
    rw [hkeep]
    exact fun h => nomatch h
  refine ⟨(n.aodvDropErrors (n.rx r msg) msg).1, hstays, hrt, hpb, hseq, fun rreq he => ?_, fun rrep he => ?_⟩
  · rw [receive_rreq L n _ he, if_neg hpass, hrx]
  · rw [receive_rrep L n _ he, if_neg hpass, hrx]

section
variable (L : Libdessert) {rreq : AodvMsgRreq} (he : msg.exts = [.rreq rreq]) (hf : FromOther src iface l25 msg)
  (hh : n.Hears due src iface) (ht : Timely due r.now) (hne : msg.l25Dhost ≠ msg.l25Shost)
  (hzero : hfCompU32 0 rreq.originatorSequenceNumber < 0)
  (hawait : n.Awaits due msg.l25Shost rreq.originatorSequenceNumber)
include he hf hh ht hne hzero hawait

/-- What a daemon on the way makes of a new RREQ. -/
theorem Placed.receives_rreq (hd : l25 ≠ msg.l25Dhost) (hi : n.Ignores due msg.l25Dhost) (httl : 1 < msg.ttl.toNat) :
    let res := n.receive L (n.rx r msg) msg
    Stays due l25 iface n res.1 ∧ res.1.Ignores due msg.l25Dhost ∧ res.1.Routes due msg.l25Shost src iface ∧
      ∃ msg', .mesh msg' none ∈ res.2 ∧ msg'.exts = msg.exts ∧ msg'.l25Shost = msg.l25Shost ∧
        msg'.l25Dhost = msg.l25Dhost ∧ msg'.ttl.toNat = msg.ttl.toNat - 1 := by
  have hr : (msg.getRreq.isSome || msg.getRrep.isSome) = true := by simp [DessertMsg.getRreq, he]
  obtain ⟨m, hm, hrt, -, -, hrreq, -⟩ := hp.let_through r L hf hr hh ht.1
  have hawait' : m.Awaits due msg.l25Shost rreq.originatorSequenceNumber := by
    unfold Awaits
    rw [hrt]
    exact hawait
  have hi' : m.Ignores due msg.l25Dhost := by
    unfold Ignores
    rw [hrt]
    exact hi
  obtain ⟨-, hstays, hroute, hunknown⟩ := hm.placed.handleRreq r he ht hne hzero hawait'
  obtain ⟨hsent, hcount⟩ := hm.placed.rreq_passed r he ht hne hzero hawait' hd hi' httl
  rw [hf.l2Shost] at hroute
  rw [hrreq rreq he]
  exact ⟨hm.trans hstays, (hunknown hi').keepsIf, hroute, _, hsent, rfl, rfl, rfl, hcount⟩

/-- What the destination makes of it. -/
theorem Placed.answers_rreq (hd : l25 = msg.l25Dhost) :
    let res := n.receive L (n.rx r msg) msg
    Stays due l25 iface n res.1 ∧ ∃ seq metric,
      .mesh (createRrep l25 msg.l25Shost src seq 0 0 metric) (some iface) ∈ res.2 := by
  have hr : (msg.getRreq.isSome || msg.getRrep.isSome) = true := by simp [DessertMsg.getRreq, he]
  obtain ⟨m, hm, hrt, -, -, hrreq, -⟩ := hp.let_through r L hf hr hh ht.1
  have hawait' : m.Awaits due msg.l25Shost rreq.originatorSequenceNumber := by
    unfold Awaits
    rw [hrt]
    exact hawait
  obtain ⟨-, hstays, -, -⟩ := hm.placed.handleRreq r he ht hne hzero hawait'
  obtain ⟨seq, hsent⟩ := hm.placed.rreq_answered r he ht hne hzero hawait' hd
  rw [hf.l2Shost] at hsent
  rw [hrreq rreq he]
  exact ⟨hm.trans hstays, seq, _, hsent⟩

end

section
variable (L : Libdessert) {rrep : AodvMsgRrep} (he : msg.exts = [.rrep rrep]) (hf : FromOther src iface l25 msg)
  (hh : n.Hears due src iface) (ht : Timely due r.now) (hl2 : msg.l2Dhost = iface.hwaddr)
  (hi : n.Ignores due msg.l25Shost)
include he hf hh ht hl2 hi

/-- What a daemon on the way back makes of a RREP. -/
theorem Placed.receives_rrep (hd : l25 ≠ msg.l25Dhost) (hne : msg.l25Dhost ≠ msg.l25Shost) {nextHop : MacAddr}
    (hback : n.Routes due msg.l25Dhost nextHop iface) :
    let res := n.receive L (n.rx r msg) msg
    Stays due l25 iface n res.1 ∧ res.1.Routes due msg.l25Shost src iface ∧
      ∃ msg', .mesh msg' (some iface) ∈ res.2 ∧ msg'.exts = msg.exts ∧ msg'.l2Dhost = nextHop ∧
        msg'.l25Shost = msg.l25Shost ∧ msg'.l25Dhost = msg.l25Dhost := by
  have hr : (msg.getRreq.isSome || msg.getRrep.isSome) = true := by simp [DessertMsg.getRrep, he]
  obtain ⟨m, hm, hrt, -, -, -, hrrep⟩ := hp.let_through r L hf hr hh ht.1
  have hi' : m.Ignores due msg.l25Shost := by
    unfold Ignores
    rw [hrt]
    exact hi
  have hback' : m.Routes due msg.l25Dhost nextHop iface := by
    unfold Routes
    rw [hrt]
    exact hback
  obtain ⟨hstays, hroute, hsent⟩ := hm.placed.rrep_passed r he ht hl2 hi' hd hne hback'
  rw [hf.l2Shost] at hroute
  rw [hrrep rrep he]
  exact ⟨hm.trans hstays, hroute, _, hsent, rfl, rfl, rfl, rfl⟩

/-- What the daemon that asked makes of it. -/
theorem Placed.ends_discovery (hd : l25 = msg.l25Dhost) {packet : DessertMsg}
    (hq : n.pb.queue msg.l25Shost = [packet]) :
    .mesh { packet with u16 := n.dataSeqGlobal + 1, l2Dhost := src } (some iface) ∈
      (n.receive L (n.rx r msg) msg).2 := by
  have hr : (msg.getRreq.isSome || msg.getRrep.isSome) = true := by simp [DessertMsg.getRrep, he]
  obtain ⟨m, hm, hrt, hpb, hseq, -, hrrep⟩ := hp.let_through r L hf hr hh ht.1
  have hi' : m.Ignores due msg.l25Shost := by
    unfold Ignores
    rw [hrt]
    exact hi
  have hq' : m.pb.queue msg.l25Shost = [packet] := by
    rw [hpb]
    exact hq
  obtain ⟨-, -, hsent⟩ := hm.placed.rrep_arrived r he ht hl2 hi' hd hq'
  rw [hf.l2Shost, hseq] at hsent
  rw [hrrep rrep he]
  exact hsent

end

end

end Node

end DesAodv
