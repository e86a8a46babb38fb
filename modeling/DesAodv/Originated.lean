import DesAodv.FrameKinds
import DesAodv.Sending

/-!
# What a daemon sends of its own accord

The RREQs among it start from the daemon, with no hop counted and the start value
of the metric; HELLOs go out for two hops.
-/

namespace DesAodv

theorem DessertMsg.OwnRreq.kind {l25 : MacAddr} {msg : DessertMsg} (h : msg.OwnRreq l25) : msg.kind = .rreq := by
  obtain ⟨-, rreq, he⟩ := h
  simp [DessertMsg.kind, DessertMsg.getHello, DessertMsg.getRreq, he]

/-- A RREQ as it is sent by its originator. -/
structure DessertMsg.Starts (l25 : MacAddr) (start : Metric) (msg : DessertMsg) : Prop where
  own : msg.OwnRreq l25
  hopCount : msg.u8 = 0
  metric : msg.u16 = start

theorem starts_steady (l25 : MacAddr) (start : Metric) : Steady (DessertMsg.Starts l25 start) where
  number := fun msg seqNum h => by
    refine ⟨(Node.ownRreq_steady l25).number msg seqNum h.own, ?_, ?_⟩
    · unfold Node.numberRreq
      split
      · exact h.hopCount
      · exact h.hopCount
    · unfold Node.numberRreq
      split
      · exact h.metric
      · exact h.metric
  ttl := fun _ _ h => ⟨h.own, h.hopCount, h.metric⟩

/-- What a daemon sends of its own accord: packets, RERRs, HELLOs and RREQs that start here. -/
inductive Sent.OwnAccord (l25 : MacAddr) (start : Metric) : Sent → Prop
  | packet {msg : DessertMsg} {iface : Option Meshif} (h : msg.exts = []) : OwnAccord l25 start (.mesh msg iface)
  | rerr {msg : DessertMsg} (h : msg.kind = .rerr) : OwnAccord l25 start (.mesh msg none)
  | hello {msg : DessertMsg} (h : msg.kind = .hello) (ht : msg.ttl = 2) : OwnAccord l25 start (.mesh msg none)
  | rreq {msg : DessertMsg} (h : msg.Starts l25 start) : OwnAccord l25 start (.mesh msg none)

namespace Node

/-- The daemon keeps its address and its settings, and only starts RREQs of its own. -/
structure Launches (l25 : MacAddr) (cfg : Config) (r : Node × List Sent) : Prop where
  address : r.1.l25Defsrc = l25
  settings : r.1.cfg = cfg
  series : r.1.SeriesAll (DessertMsg.Starts l25 cfg.metricStartvalue)
  sent : ∀ s ∈ r.2, s.OwnAccord l25 cfg.metricStartvalue

theorem sendRerrs_kind (L : Libdessert) (n : Node) (turns : Nat) (destlist : List AodvMacSeq) :
    ∀ m ∈ (n.sendRerrs L turns destlist).1, m.kind = .rerr := by
  induction turns generalizing destlist with
  | zero => simp [sendRerrs]
  | succ turns ih =>
    rw [sendRerrs]
    split
    · simp
    · rename_i rerrMsg rest hc
      intro m hm
      rcases List.mem_cons.mp hm with rfl | hm
      · exact createRerr_kind L hc
      · exact ih rest m hm

theorem scSendOutRerr_sent (L : Libdessert) (n : Node) (etherAddr : MacAddr) (now : Timeval) :
    ∀ s ∈ (n.scSendOutRerr L etherAddr now).2, ∃ m, s = .mesh m none ∧ m.kind = .rerr := by
  unfold scSendOutRerr
  simp only
  split
  · simp
  · split
    · simp
    · split
      · simp
      · intro s hs
        obtain ⟨m, hm, rfl⟩ := List.mem_map.mp hs
        exact ⟨m, rfl, sendRerrs_kind L _ _ _ m hm⟩

/-- The execution of a schedule sends RREQs of series, or nothing, unless it is that of a lost neighbor. -/
theorem scexecute_cases (L : Libdessert) {n : Node} (hst : n.Stored) (now : Timeval) (avgRssi : Int8) :
    (∃ rt nt st, SeriesWork { n with rt, nt, st } (n.aodvPeriodicScexecute L now avgRssi).1 ∧
      ∀ s ∈ (n.aodvPeriodicScexecute L now avgRssi).2, s.Own n.l25Defsrc) ∨
      ∃ st etherAddr, n.aodvPeriodicScexecute L now avgRssi = ({ n with st } : Node).scSendOutRerr L etherAddr now := by
  unfold aodvPeriodicScexecute
  split
  · exact .inl ⟨n.rt, n.nt, n.st, .refl n, by simp⟩
  · rename_i sc st _
    have hst' : ({ n with st } : Node).Stored := hst.congr rfl rfl rfl
    simp only
    split
    · split
      · exact .inl ⟨n.rt, n.nt, st, sendRreqReal_work _ _ now, (sendRreqReal_stored hst' _ now).2⟩
      · exact .inl ⟨n.rt, n.nt, st, ⟨_, _, _, _, rfl⟩, by simp⟩
    · exact .inr ⟨st, sc.etherAddr, rfl⟩
    · have hst'' : ({ n with
          st, rt := (aodvDbRtGetWarnEndpointsFromNeighborAndSetWarn n.rt sc.etherAddr).1 } : Node).Stored :=
        hst.congr rfl rfl rfl
      exact .inl ⟨_, n.nt, st, sendRreqs_work _ _ now, (sendRreqs_stored hst'' _ now).2⟩
    · split
      · split
        · exact .inl ⟨n.rt, _, st, ⟨_, _, _, _, rfl⟩, by simp⟩
        · exact .inl ⟨n.rt, _, st, ⟨_, _, _, _, rfl⟩, by simp⟩
      · exact .inl ⟨n.rt, n.nt, st, .refl _, by simp⟩

section
variable {l25 : MacAddr} {cfg : Config} {n : Node}

theorem Launches.append {r r' : Node × List Sent} (h : Launches l25 cfg r) (h' : Launches l25 cfg r') :
    Launches l25 cfg (r'.1, r.2 ++ r'.2) :=
  ⟨h'.address, h'.settings, h'.series, fun s hs => (List.mem_append.mp hs).elim (h.sent s) (h'.sent s)⟩

variable (h : Launches l25 cfg (n, []))
include h

theorem Launches.sends {n' : Node} {sent : List Sent} (hl : n'.l25Defsrc = n.l25Defsrc) (hc : n'.cfg = n.cfg)
    (hs : n'.series = n.series) (hsent : ∀ s ∈ sent, s.OwnAccord l25 cfg.metricStartvalue) :
    Launches l25 cfg (n', sent) :=
  ⟨hl.trans h.address, hc.trans h.settings, SeriesAll.congr h.series hs, hsent⟩

theorem Launches.same {n' : Node} (hl : n'.l25Defsrc = n.l25Defsrc) (hc : n'.cfg = n.cfg)
    (hs : n'.series = n.series) : Launches l25 cfg (n', []) := h.sends hl hc hs (by simp)

theorem sendRreqReal_launches (ptr : Nat) (now : Timeval) : Launches l25 cfg (n.aodvSendRreqReal ptr now) := by
  have hf := sendRreqReal_frame n ptr now
  refine ⟨hf.l25Defsrc.trans h.address, hf.cfg.trans h.settings,
    SeriesAll.sendRreqReal h.series (starts_steady l25 cfg.metricStartvalue) ptr now, ?_⟩
  unfold aodvSendRreqReal
  split
  · simp
  · rename_i series hs
    have hone : ∀ s ∈ [Sent.mesh (numberRreq series.msg (n.seqNumGlobal + 1)) none],
        s.OwnAccord l25 cfg.metricStartvalue := by
      intro s hs'
      rw [List.mem_singleton.mp hs']
      exact .rreq ((starts_steady _ _).number _ _ (SeriesAll.deref h.series hs))
    simp only
    split
    · simp
    · split
      · exact hone
      · exact hone

theorem createRreq_starts (host : MacAddr) (ttl : UInt8) :
    (n.createRreq host ttl n.cfg.metricStartvalue).Starts l25 cfg.metricStartvalue :=
  ⟨⟨h.address, _, rfl⟩, rfl, congrArg Config.metricStartvalue h.settings⟩

theorem sendRreq_launches (host : MacAddr) (now : Timeval) : Launches l25 cfg (n.aodvSendRreq host now) := by
  simp only [aodvSendRreq]
  have hf := newSeries_frame n (n.createRreq host (if n.cfg.ringSearch then ttlStart else ttlMax)
    n.cfg.metricStartvalue)
  have hs := SeriesAll.new h.series (createRreq_starts h host (if n.cfg.ringSearch then ttlStart else ttlMax))
  have hnew : Launches l25 cfg ((n.aodvPipelineNewSeries (n.createRreq host
      (if n.cfg.ringSearch then ttlStart else ttlMax) n.cfg.metricStartvalue)).1, []) :=
    ⟨hf.l25Defsrc.trans h.address, hf.cfg.trans h.settings, hs, by simp⟩
  split
  · rename_i n' heq
    rw [heq] at hnew
    exact hnew
  · rename_i n' ptr heq
    rw [heq] at hnew
    exact sendRreqReal_launches hnew ptr now

theorem sendRreqs_launches (hosts : List MacAddr) (now : Timeval) : Launches l25 cfg (n.sendRreqs hosts now) := by
  have hfold : ∀ acc : Node × List Sent, Launches l25 cfg acc → Launches l25 cfg (hosts.foldl (fun acc host =>
      ((acc.1.aodvSendRreq host now).1, acc.2 ++ (acc.1.aodvSendRreq host now).2)) acc) := by
    induction hosts with
    | nil => exact fun _ ha => ha
    | cons host hosts ih =>
      intro acc ha
      have hnode : Launches l25 cfg (acc.1, []) := ⟨ha.address, ha.settings, ha.series, by simp⟩
      exact ih _ (ha.append (sendRreq_launches hnode host now))
  exact hfold (n, []) h

theorem sys2rp_launches {msg : DessertMsg} (hm : msg.exts = []) (now : Timeval) :
    Launches l25 cfg (n.aodvSys2rp msg now) := by
  unfold aodvSys2rp
  simp only
  split
  · refine h.sends rfl rfl rfl fun s hs => ?_
    rw [List.mem_singleton.mp hs]
    exact .packet hm
  · split
    · exact h
    · split
      · rename_i n' nextHop outputIface hn
        obtain rfl := (Prod.mk.inj hn).1
        refine h.sends rfl rfl rfl fun s hs => ?_
        rw [List.mem_singleton.mp hs]
        exact .packet hm
      · rename_i n' hn
        obtain rfl := (Prod.mk.inj hn).1
        apply sendRreq_launches
        exact h.same rfl rfl rfl

variable (L : Libdessert)

theorem scexecute_launches (now : Timeval) (avgRssi : Int8) :
    Launches l25 cfg (n.aodvPeriodicScexecute L now avgRssi) := by
  unfold aodvPeriodicScexecute
  split
  · exact h
  · rename_i sc st _
    simp only
    split
    · split
      · apply sendRreqReal_launches
        exact h.same rfl rfl rfl
      · exact ⟨h.address, h.settings, h.series, by simp⟩
    · obtain ⟨rt, rerrLog, hung, heq⟩ := scSendOutRerr_eq L ({ n with st } : Node) sc.etherAddr now
      refine ⟨?_, ?_, ?_, fun s hs => ?_⟩
      · rw [heq]
        exact h.address
      · rw [heq]
        exact h.settings
      · rw [heq]
        exact h.series
      · obtain ⟨m, rfl, hm⟩ := scSendOutRerr_sent L _ _ _ s hs
        exact .rerr hm
    · apply sendRreqs_launches
      exact h.same rfl rfl rfl
    · split
      · split
        · exact h.same rfl rfl rfl
        · exact h.same rfl rfl rfl
      · exact h.same rfl rfl rfl

theorem handle_launches {ev : NodeEvent} (hev : ∀ cb env msg, ev ≠ .mesh cb env msg) :
    Launches l25 cfg (n.handle L ev) := by
  cases ev with
  | mesh cb env msg => exact absurd rfl (hev cb env msg)
  | sysRx l25Shost l25Dhost payload now => exact sys2rp_launches h rfl now
  | cliSendRreq host now => exact sendRreq_launches h host now
  | routingReset => exact h.same rfl rfl rfl
  | neighborReset => exact h.same rfl rfl rfl
  | sendHello =>
    simp only [handle]
    split
    · exact h
    · refine h.sends rfl rfl rfl fun s hs => ?_
      rw [List.mem_singleton.mp hs]
      exact .hello rfl rfl
  | sendRreq now =>
    simp only [handle]
    split
    · exact h
    · exact sendRreqs_launches h _ now
  | cleanupDatabase now =>
    simp only [handle]
    split
    · exact h
    · exact h.same rfl rfl rfl
  | scexecute now avgRssi =>
    simp only [handle]
    split
    · exact h
    · exact scexecute_launches h L now avgRssi

end

/-! ## What a daemon keeps -/

section
variable (L : Libdessert) {P : DessertMsg → Prop} {n : Node} (h : n.SeriesAll P) {env : RxEnv} {msg : DessertMsg}
include h

theorem SeriesAll.rreqAsRrep : (n.rreqAsRrep env msg).1.SeriesAll P := by
  have hc : (n.captRrep msg.l25Shost msg.l2Shost env.iface 0 msg.u16 msg.u8 env.now env.now).1.SeriesAll P := h
  simp only [Node.rreqAsRrep]
  split
  · exact hc.sendPackets _ _ _
  · exact hc

theorem SeriesAll.acceptRreq (rreq : AodvMsgRreq) (result : CaptRreqResult) :
    (n.acceptRreq env msg rreq result).1.SeriesAll P := by
  simp only [Node.acceptRreq]
  split
  · exact SeriesAll.congr h.rreqAsRrep rfl
  · exact h.rreqAsRrep

theorem SeriesAll.handleRreq : (n.aodvHandleRreq env msg).1.SeriesAll P := by
  unfold aodvHandleRreq
  split
  · exact h
  · rename_i rreq _
    have hc : (n.captRreq (n.countHop env msg).l25Dhost (n.countHop env msg).l25Shost (n.countHop env msg).l2Shost
      env.iface rreq.originatorSequenceNumber (n.countHop env msg).u16 (n.countHop env msg).u8 env.now
      env.now).1.SeriesAll P := h
    simp only
    split
    · exact hc
    · exact hc.acceptRreq rreq _

theorem SeriesAll.handleRrep : (n.aodvHandleRrep env msg).1.SeriesAll P := by
  unfold aodvHandleRrep
  split
  · exact h
  · rename_i rrep _
    have hc : (n.captRrep (n.countHop env msg).l25Shost (n.countHop env msg).l2Shost env.iface
      rrep.destinationSequenceNumber (n.countHop env msg).u16 (n.countHop env msg).u8 env.now env.now).1.SeriesAll P := h
    split
    · exact h
    · simp only
      split
      · exact hc
      · split
        · exact hc.sendPackets _ _ _
        · split
          · rename_i n' hn
            obtain rfl := (Prod.mk.inj hn).1
            exact h
          · rename_i n' nextHop outputIface hn
            obtain rfl := (Prod.mk.inj hn).1
            exact h

/-- No callback starts a series. -/
theorem SeriesAll.callback (cb : MeshCb) : (n.callback L cb env msg).1.SeriesAll P := by
  cases cb with
  | dropErrors =>
    obtain ⟨nt, st, heq⟩ := dropErrors_eq n env msg
    exact SeriesAll.congr h (by simp [Node.callback, heq])
  | handleHello =>
    obtain ⟨nt, st, heq⟩ := handleHello_eq n env msg
    exact SeriesAll.congr h (by simp [Node.callback, heq])
  | handleRreq => exact h.handleRreq
  | handleRerr =>
    obtain ⟨rt, heq⟩ := handleRerr_eq n env msg
    exact SeriesAll.congr h (by simp [Node.callback, heq])
  | handleRrep => exact h.handleRrep
  | forwardBroadcast =>
    obtain ⟨ds, heq⟩ := forwardBroadcast_eq n env msg
    exact SeriesAll.congr h (by simp [Node.callback, heq])
  | forwardMulticast => exact h
  | forward =>
    obtain ⟨ds, rt, rerrLog, heq⟩ := forward_eq L n env msg
    exact SeriesAll.congr h (by simp [Node.callback, heq])
  | localUnicast =>
    obtain ⟨ds, heq⟩ := localUnicast_eq n env msg
    exact SeriesAll.congr h (by simp [Node.callback, heq])

end

/-- A daemon with its address and settings, which has stored nothing but what it has made itself. -/
structure Keeps (l25 : MacAddr) (cfg : Config) (n : Node) : Prop where
  stored : n.Stored
  launches : Launches l25 cfg (n, [])

section
variable {l25 : MacAddr} {cfg : Config} {n : Node}

theorem init_keeps (l25 : MacAddr) (cfg : Config) (ifs : List Meshif) : (aodvDbInit cfg l25 ifs).Keeps l25 cfg :=
  ⟨init_stored _ _ _, ⟨rfl, rfl, by simp [aodvDbInit, seriesInit, SeriesAll], by simp⟩⟩

variable (L : Libdessert) (h : n.Keeps l25 cfg)
include h

theorem Keeps.step (ev : NodeEvent) : (n.step L ev).Keeps l25 cfg := by
  refine ⟨step_stored L h.stored ev, ?_⟩
  by_cases hev : ∃ cb env msg, ev = .mesh cb env msg
  · obtain ⟨cb, env, msg, rfl⟩ := hev
    obtain ⟨-, hc, hl, -⟩ := step_rt L n (.mesh cb env msg)
    have hseries := @SeriesAll.callback L _ _ h.launches.series env msg cb
    exact ⟨hl.trans h.launches.address, hc.trans h.launches.settings, hseries, by simp⟩
  · have hl := @handle_launches _ _ _ h.launches L ev fun cb env msg he => hev ⟨cb, env, msg, he⟩
    exact ⟨hl.address, hl.settings, hl.series, by simp⟩

end

end Node

end DesAodv
