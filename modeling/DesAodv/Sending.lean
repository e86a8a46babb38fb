import DesAodv.SeriesMessages

/-!
# The messages of a daemon

The packets a daemon keeps carry no AODV message, and the messages of its RREQ
series are its own RREQs. So whatever it sends from its own stores is data or an
own RREQ.
-/

namespace DesAodv

/-- An own RREQ of the node with address `l25`. -/
def DessertMsg.OwnRreq (l25 : MacAddr) (msg : DessertMsg) : Prop :=
  msg.l25Shost = l25 ∧ ∃ rreq, msg.exts = [.rreq rreq]

/-- A message without AODV messages on one mesh interface. -/
def Sent.Data (iface : Meshif) (s : Sent) : Prop := ∃ msg, s = .mesh msg (some iface) ∧ msg.exts = []

/-- An own RREQ on all mesh interfaces. -/
def Sent.Own (l25 : MacAddr) (s : Sent) : Prop := ∃ msg, s = .mesh msg none ∧ msg.OwnRreq l25

namespace Node

/-- What a daemon keeps to send it later. -/
structure Stored (n : Node) : Prop where
  packets : ∀ q ∈ n.pb.entries, ∀ msg ∈ q.fl, msg.exts = []
  series : ∀ s ∈ n.series.heap, s.msg.OwnRreq n.l25Defsrc

theorem Stored.congr {n n' : Node} (h : n.Stored) (hp : n'.pb = n.pb) (hs : n'.series = n.series)
    (hl : n'.l25Defsrc = n.l25Defsrc) : n'.Stored :=
  ⟨hp ▸ h.packets, by rw [hs, hl]; exact h.series⟩

theorem init_stored (cfg : Config) (l25Defsrc : MacAddr) (meshiflist : List Meshif) :
    (aodvDbInit cfg l25Defsrc meshiflist).Stored :=
  ⟨by simp [aodvDbInit, pbInit], by simp [aodvDbInit, seriesInit]⟩

/-! ## Series -/

theorem SeriesWork.stored {n n' : Node} (hw : SeriesWork n n') (h : n.Stored)
    (hs : n'.SeriesAll (DessertMsg.OwnRreq n.l25Defsrc)) : n'.Stored := by
  obtain ⟨_, _, _, _, rfl⟩ := hw
  exact ⟨h.packets, hs⟩

theorem seriesFault_stored {n : Node} (h : n.Stored) : n.seriesFault.Stored := ⟨h.packets, h.series⟩

theorem seriesDeref_own {n : Node} (h : n.Stored) {ptr : Nat} {s : RreqSeries} (hs : n.seriesDeref ptr = some s) :
    s.msg.OwnRreq n.l25Defsrc :=
  SeriesAll.deref h.series hs

theorem deleteSeriesEther_stored {n : Node} (h : n.Stored) (addr : MacAddr) :
    (n.aodvPipelineDeleteSeriesEther addr).Stored := by
  have hs := SeriesAll.deleteEther h.series addr
  obtain ⟨series, st, heq⟩ := deleteSeriesEther_eq n addr
  rw [heq] at hs ⊢
  exact ⟨h.packets, hs⟩

theorem newSeries_stored {n : Node} (h : n.Stored) {msg : DessertMsg} (hm : msg.OwnRreq n.l25Defsrc) :
    (n.aodvPipelineNewSeries msg).1.Stored :=
  (newSeries_work n msg).stored h (SeriesAll.new h.series hm)

theorem createRreq_own (n : Node) (host : MacAddr) (ttl : UInt8) (metric : Metric) :
    (n.createRreq host ttl metric).OwnRreq n.l25Defsrc := ⟨rfl, _, rfl⟩

theorem ownRreq_steady (l25 : MacAddr) : Steady (DessertMsg.OwnRreq l25) where
  number := fun msg seqNum h => by
    obtain ⟨hl, rreq, he⟩ := h
    have hg : msg.getRreq = some rreq := by simp [DessertMsg.getRreq, he]
    refine ⟨?_, { rreq with originatorSequenceNumber := seqNum }, ?_⟩
    · simp only [numberRreq, hg]
      exact hl
    · simp only [numberRreq, hg, DessertMsg.setRreq, he, DessertMsg.setExt]
  ttl := fun _ _ h => ⟨h.1, h.2⟩

theorem sendRreqReal_stored {n : Node} (h : n.Stored) (ptr : Nat) (now : Timeval) :
    (n.aodvSendRreqReal ptr now).1.Stored ∧ ∀ s ∈ (n.aodvSendRreqReal ptr now).2, s.Own n.l25Defsrc := by
  have hsteady := ownRreq_steady n.l25Defsrc
  refine ⟨(sendRreqReal_work n ptr now).stored h (SeriesAll.sendRreqReal h.series hsteady ptr now), ?_⟩
  unfold aodvSendRreqReal
  split
  · simp
  · rename_i series hs
    have hmsg := hsteady.number series.msg (n.seqNumGlobal + 1) (seriesDeref_own h hs)
    have hone : ∀ s ∈ [Sent.mesh (numberRreq series.msg (n.seqNumGlobal + 1)) none], s.Own n.l25Defsrc :=
      fun s hs' => ⟨_, List.mem_singleton.mp hs', hmsg⟩
    simp only
    split
    · simp
    · split
      · exact hone
      · exact hone

theorem sendRreq_stored {n : Node} (h : n.Stored) (host : MacAddr) (now : Timeval) :
    (n.aodvSendRreq host now).1.Stored ∧ ∀ s ∈ (n.aodvSendRreq host now).2, s.Own n.l25Defsrc := by
  simp only [aodvSendRreq]
  have hown := createRreq_own n host (if n.cfg.ringSearch then ttlStart else ttlMax) n.cfg.metricStartvalue
  have h' := newSeries_stored h hown
  have hl := (newSeries_frame n (n.createRreq host (if n.cfg.ringSearch then ttlStart else ttlMax)
    n.cfg.metricStartvalue)).l25Defsrc
  split
  · rename_i n' hn
    rw [hn] at h'
    exact ⟨h', by simp⟩
  · rename_i n' ptr hn
    rw [hn] at h' hl
    have hr := sendRreqReal_stored h' ptr now
    exact ⟨hr.1, fun s hs => hl ▸ hr.2 s hs⟩

theorem sendRreqs_stored {n : Node} (h : n.Stored) (hosts : List MacAddr) (now : Timeval) :
    (n.sendRreqs hosts now).1.Stored ∧ ∀ s ∈ (n.sendRreqs hosts now).2, s.Own n.l25Defsrc := by
  have hfold : ∀ (acc : Node × List Sent), acc.1.Stored → acc.1.l25Defsrc = n.l25Defsrc →
      (∀ s ∈ acc.2, s.Own n.l25Defsrc) →
      (hosts.foldl (fun acc host =>
        ((acc.1.aodvSendRreq host now).1, acc.2 ++ (acc.1.aodvSendRreq host now).2)) acc).1.Stored ∧
      ∀ s ∈ (hosts.foldl (fun acc host =>
        ((acc.1.aodvSendRreq host now).1, acc.2 ++ (acc.1.aodvSendRreq host now).2)) acc).2,
        s.Own n.l25Defsrc := by
    induction hosts with
    | nil => exact fun acc ha _ hs => ⟨ha, hs⟩
    | cons host hosts ih =>
      intro acc ha hl hs
      rw [List.foldl_cons]
      have hr := sendRreq_stored ha host now
      have hl' := (sendRreq_frame acc.1 host now).l25Defsrc.trans hl
      apply ih ((acc.1.aodvSendRreq host now).1, acc.2 ++ (acc.1.aodvSendRreq host now).2) hr.1 hl'
      intro s hs'
      rcases List.mem_append.mp hs' with hs' | hs'
      · exact hs s hs'
      · exact hl ▸ hr.2 s hs'
  exact hfold (n, []) h rfl (by simp)

/-! ## Packets -/

theorem foldl_purgePackets (purged : List (TimeslotElement Nat)) (pb : PacketBuffer) :
    ∀ q ∈ (purged.foldl purgePackets pb).entries, q ∈ pb.entries := by
  rw [Keyed.foldl_erase PacketBuffer.entries (fun _ _ => rfl) purged pb]
  exact fun q hq => List.mem_of_mem_filter hq

theorem pbCleanup_mem (pb : PacketBuffer) (timestamp : Timeval) :
    ∀ q ∈ (pbCleanup pb timestamp).entries, q ∈ pb.entries :=
  foldl_purgePackets (timeslotPurgeobjects pb.ts timestamp).2 { pb with ts := (timeslotPurgeobjects pb.ts timestamp).1 }

theorem pbPopPacket_spec {P : DessertMsg → Prop} {pb : PacketBuffer} (h : ∀ q ∈ pb.entries, ∀ msg ∈ q.fl, P msg)
    (host : MacAddr) :
    (∀ q ∈ (pbPopPacket pb host).1.entries, ∀ msg ∈ q.fl, P msg) ∧
      ∀ msg, (pbPopPacket pb host).2 = some msg → P msg := by
  unfold pbPopPacket
  cases hl : Keyed.lookup PbEl.dhostEther host pb.entries with
  | none => exact ⟨h, by simp⟩
  | some q =>
    have hq := h q (Keyed.lookup_mem hl)
    have hhead : ∀ msg, q.fl.head? = some msg → P msg := fun msg hm => hq msg (List.mem_of_mem_head? hm)
    simp only
    split
    · exact ⟨fun q' hq' => h q' (Keyed.mem_erase.mp hq').1, hhead⟩
    · refine ⟨fun q' hq' => ?_, hhead⟩
      obtain ⟨a, ha, rfl⟩ := Keyed.mem_modify hq'
      split
      · exact fun msg hm => hq msg (List.mem_of_mem_tail hm)
      · exact h a ha

theorem pbPushPacket_spec {P : DessertMsg → Prop} {pb : PacketBuffer} (h : ∀ q ∈ pb.entries, ∀ msg ∈ q.fl, P msg)
    (host : MacAddr) {msg : DessertMsg} (hm : P msg) (timestamp currTime : Timeval) :
    ∀ q ∈ (pbPushPacket pb host msg timestamp currTime).entries, ∀ m ∈ q.fl, P m := by
  have hpush : ∀ (es : List PbEl) (ptr : Nat), (∀ q ∈ es, ∀ m ∈ q.fl, P m) →
      ∀ q ∈ Keyed.modify PbEl.ptr ptr (fun x => { x with fl := x.fl ++ [msg] }) es, ∀ m ∈ q.fl, P m := by
    intro es ptr hes q hq
    obtain ⟨a, ha, rfl⟩ := Keyed.mem_modify hq
    split
    · intro m hm'
      rcases List.mem_append.mp hm' with hm' | hm'
      · exact hes a ha m hm'
      · rw [List.mem_singleton.mp hm']; exact hm
    · exact hes a ha
  have hclean : ∀ q ∈ (pbCleanup pb timestamp).entries, ∀ m ∈ q.fl, P m :=
    fun q hq => h q (pbCleanup_mem pb timestamp q hq)
  intro q hq
  have hq' := foldl_purgePackets _ _ q hq
  cases hl : Keyed.lookup PbEl.dhostEther host (pbCleanup pb timestamp).entries with
  | some x =>
    simp only [hl] at hq'
    exact hpush _ x.ptr hclean q hq'
  | none =>
    simp only [hl] at hq'
    refine hpush _ _ ?_ q hq'
    intro q' hq'
    rcases List.mem_append.mp hq' with hq' | hq'
    · exact hclean q' hq'
    · rw [List.mem_singleton.mp hq']; simp

theorem sendBuffered_stored (host nextHop : MacAddr) {iface : Meshif} {acc : Node × List Sent}
    (h : acc.1.Stored) (hs : ∀ s ∈ acc.2, s.Data iface) :
    (sendBuffered host nextHop iface acc).1.Stored ∧
      ∀ s ∈ (sendBuffered host nextHop iface acc).2, s.Data iface := by
  have hp := pbPopPacket_spec h.packets host
  unfold sendBuffered
  simp only
  split
  · rename_i pb hpop
    rw [hpop] at hp
    exact ⟨⟨hp.1, h.series⟩, hs⟩
  · rename_i pb msg hpop
    rw [hpop] at hp
    refine ⟨⟨hp.1, h.series⟩, fun s hs' => ?_⟩
    rcases List.mem_append.mp hs' with hs' | hs'
    · exact hs s hs'
    · exact ⟨_, List.mem_singleton.mp hs', hp.2 msg rfl⟩

theorem sendPackets_stored {n : Node} (h : n.Stored) (host nextHop : MacAddr) (iface : Meshif) :
    (n.aodvSendPacketsFromBuffer host nextHop iface).1.Stored ∧
      ∀ s ∈ (n.aodvSendPacketsFromBuffer host nextHop iface).2, s.Data iface := by
  have hfold : ∀ (packets : List DessertMsg) (acc : Node × List Sent), acc.1.Stored →
      (∀ s ∈ acc.2, s.Data iface) →
      (packets.foldl (fun acc _ => sendBuffered host nextHop iface acc) acc).1.Stored ∧
        ∀ s ∈ (packets.foldl (fun acc _ => sendBuffered host nextHop iface acc) acc).2,
          s.Data iface := by
    intro packets
    induction packets with
    | nil => exact fun acc ha hs => ⟨ha, hs⟩
    | cons p ps ih =>
      intro acc ha hs
      obtain ⟨ha', hs'⟩ := sendBuffered_stored host nextHop ha hs
      exact ih _ ha' hs'
  exact hfold _ _ (deleteSeriesEther_stored h host) (by simp)

/-! ## Events -/

theorem captRrep_stored {n : Node} (h : n.Stored) (host nextHop : MacAddr) (iface : Meshif) (seq : UInt32)
    (metric : Metric) (hopCount : UInt8) (timestamp now : Timeval) :
    (n.captRrep host nextHop iface seq metric hopCount timestamp now).1.Stored := h.congr rfl rfl rfl

theorem captRreq_stored {n : Node} (h : n.Stored) (destination originator prevHop : MacAddr) (iface : Meshif)
    (seq : UInt32) (metric : Metric) (hopCount : UInt8) (timestamp now : Timeval) :
    (n.captRreq destination originator prevHop iface seq metric hopCount timestamp now).1.Stored :=
  h.congr rfl rfl rfl

theorem getroute2dest_stored {n n' : Node} (h : n.Stored) {host : MacAddr} {timestamp now : Timeval}
    {flags : RtFlags} {route : Option (MacAddr × Option Meshif)}
    (hn : n.getroute2dest host timestamp now flags = (n', route)) : n'.Stored := by
  have h' : (n.getroute2dest host timestamp now flags).1.Stored := h.congr rfl rfl rfl
  rw [hn] at h'
  exact h'

theorem rreqAsRrep_stored {n : Node} (h : n.Stored) (env : RxEnv) (msg : DessertMsg) :
    (n.rreqAsRrep env msg).1.Stored ∧ ∀ s ∈ (n.rreqAsRrep env msg).2, s.Data env.iface := by
  have hr := captRrep_stored h msg.l25Shost msg.l2Shost env.iface 0 msg.u16 msg.u8 env.now env.now
  simp only [rreqAsRrep]
  split
  · exact sendPackets_stored hr msg.l25Shost msg.l2Shost env.iface
  · exact ⟨hr, by simp⟩

theorem acceptRreq_stored {n : Node} (h : n.Stored) (env : RxEnv) (msg : DessertMsg) (rreq : AodvMsgRreq)
    (result : CaptRreqResult) : (n.acceptRreq env msg rreq result).1.Stored := by
  have hr := (rreqAsRrep_stored h env msg).1
  simp only [acceptRreq]
  split
  · exact hr.congr rfl rfl rfl
  · exact hr

/-- A RREQ for this node that is not old: the packets for its originator, then the answer. -/
theorem acceptRreq_answered (n : Node) {env : RxEnv} (hd : env.lflags.l25Dst = true) (msg : DessertMsg)
    (rreq : AodvMsgRreq) (result : CaptRreqResult) :
    ∃ seq, (n.acceptRreq env msg rreq result).2 = (n.rreqAsRrep env msg).2 ++
      [.mesh (createRrep n.l25Defsrc msg.l25Shost msg.l2Shost seq 0 0 n.cfg.metricStartvalue)
        (some env.iface)] := by
  have hf := rreqAsRrep_frame env n msg
  have hl : (n.rreqAsRrep env msg).1.l25Defsrc = n.l25Defsrc := hf.l25Defsrc
  have hc : (n.rreqAsRrep env msg).1.cfg = n.cfg := hf.cfg
  simp only [acceptRreq, hd, if_true, rrepForMe, hl, hc]
  exact ⟨_, rfl⟩

/-- A RREQ for another node that is not old: the packets for its originator, then the answer or the
rebroadcast. -/
theorem acceptRreq_passed (n : Node) {env : RxEnv} (hd : env.lflags.l25Dst = false) (msg : DessertMsg)
    (rreq : AodvMsgRreq) (result : CaptRreqResult) :
    (n.acceptRreq env msg rreq result).2 =
      (n.rreqAsRrep env msg).2 ++ (n.acceptRreq env msg rreq result).1.rrepOrRebroadcast env msg rreq := by
  simp only [acceptRreq, hd, Bool.false_eq_true, if_false]

theorem handleRreq_passed {n : Node} (h : n.Stored) {env : RxEnv} (hd : env.lflags.l25Dst = false)
    {msg : DessertMsg} {rreq : AodvMsgRreq} (hr : msg.getRreq = some rreq)
    (ho : n.judgeRreq env msg rreq ≠ .old) :
    ∃ buffered : List Sent, (∀ s ∈ buffered, s.Data env.iface) ∧ (n.aodvHandleRreq env msg).2.1 =
      buffered ++ (n.aodvHandleRreq env msg).1.rrepOrRebroadcast env (n.countHop env msg) rreq := by
  have hb := (rreqAsRrep_stored (captRreq_stored h msg.l25Dhost msg.l25Shost msg.l2Shost env.iface
    rreq.originatorSequenceNumber (n.countHop env msg).u16 (n.countHop env msg).u8 env.now env.now) env
    (n.countHop env msg)).2
  rw [handleRreq_new n env hr ho]
  exact ⟨_, hb, acceptRreq_passed _ hd _ rreq _⟩

theorem handleRreq_answered {n : Node} (h : n.Stored) {env : RxEnv} (hd : env.lflags.l25Dst = true)
    {msg : DessertMsg} {rreq : AodvMsgRreq} (hr : msg.getRreq = some rreq)
    (ho : n.judgeRreq env msg rreq ≠ .old) :
    ∃ (buffered : List Sent) (seq : UInt32), (∀ s ∈ buffered, s.Data env.iface) ∧
      (n.aodvHandleRreq env msg).2.1 = buffered ++
        [.mesh (createRrep n.l25Defsrc msg.l25Shost msg.l2Shost seq 0 0 n.cfg.metricStartvalue)
          (some env.iface)] := by
  have hb := (rreqAsRrep_stored (captRreq_stored h msg.l25Dhost msg.l25Shost msg.l2Shost env.iface
    rreq.originatorSequenceNumber (n.countHop env msg).u16 (n.countHop env msg).u8 env.now env.now) env
    (n.countHop env msg)).2
  rw [handleRreq_new n env hr ho]
  obtain ⟨seq, hs⟩ := acceptRreq_answered (n.captRreq msg.l25Dhost msg.l25Shost msg.l2Shost env.iface
    rreq.originatorSequenceNumber (n.countHop env msg).u16 (n.countHop env msg).u8 env.now env.now).1 hd
    (n.countHop env msg) rreq (n.judgeRreq env msg rreq)
  exact ⟨_, seq, hb, hs⟩

theorem dropErrors_stored {n : Node} (h : n.Stored) (env : RxEnv) (msg : DessertMsg) :
    (n.aodvDropErrors env msg).1.Stored := by
  obtain ⟨nt, st, heq⟩ := dropErrors_eq n env msg
  rw [heq]
  exact h.congr rfl rfl rfl

theorem handleHello_stored {n : Node} (h : n.Stored) (env : RxEnv) (msg : DessertMsg) :
    (n.aodvHandleHello env msg).1.Stored := by
  obtain ⟨nt, st, heq⟩ := handleHello_eq n env msg
  rw [heq]
  exact h.congr rfl rfl rfl

theorem forwardBroadcast_stored {n : Node} (h : n.Stored) (env : RxEnv) (msg : DessertMsg) :
    (n.aodvForwardBroadcast env msg).1.Stored := by
  obtain ⟨ds, heq⟩ := forwardBroadcast_eq n env msg
  rw [heq]
  exact h.congr rfl rfl rfl

theorem localUnicast_stored {n : Node} (h : n.Stored) (env : RxEnv) (msg : DessertMsg) :
    (n.aodvLocalUnicast env msg).1.Stored := by
  obtain ⟨ds, heq⟩ := localUnicast_eq n env msg
  rw [heq]
  exact h.congr rfl rfl rfl

theorem handleRreq_stored {n : Node} (h : n.Stored) (env : RxEnv) (msg : DessertMsg) :
    (n.aodvHandleRreq env msg).1.Stored := by
  unfold aodvHandleRreq
  split
  · exact h
  · simp only
    split
    · exact captRreq_stored h _ _ _ _ _ _ _ _ _
    · exact acceptRreq_stored (captRreq_stored h _ _ _ _ _ _ _ _ _) env _ _ _

theorem handleRrep_stored {n : Node} (h : n.Stored) (env : RxEnv) (msg : DessertMsg) :
    (n.aodvHandleRrep env msg).1.Stored := by
  unfold aodvHandleRrep
  split
  · exact h
  · rename_i rrep _
    split
    · exact h
    · have hr := captRrep_stored h (n.countHop env msg).l25Shost (n.countHop env msg).l2Shost env.iface
        rrep.destinationSequenceNumber (n.countHop env msg).u16 (n.countHop env msg).u8 env.now env.now
      simp only
      generalize n.captRrep (n.countHop env msg).l25Shost (n.countHop env msg).l2Shost env.iface
        rrep.destinationSequenceNumber (n.countHop env msg).u16 (n.countHop env msg).u8 env.now env.now = r at hr
      split
      · exact hr
      · split
        · exact (sendPackets_stored hr msg.l25Shost msg.l2Shost env.iface).1
        · split
          · rename_i n' hn
            exact getroute2dest_stored hr hn
          · rename_i n' nextHop outputIface hn
            exact getroute2dest_stored hr hn

theorem sys2rp_stored {n : Node} (h : n.Stored) {msg : DessertMsg} (hm : msg.exts = []) (now : Timeval) :
    (n.aodvSys2rp msg now).1.Stored := by
  unfold aodvSys2rp
  simp only
  split
  · exact h.congr rfl rfl rfl
  · split
    · exact h
    · split
      · rename_i n' nextHop outputIface hn
        exact (getroute2dest_stored h hn).congr rfl rfl rfl
      · rename_i n' hn
        have h' := getroute2dest_stored h hn
        refine (sendRreq_stored ?_ msg.l25Dhost now).1
        refine ⟨pbPushPacket_spec h'.packets msg.l25Dhost ?_ now now, h'.series⟩
        exact hm

theorem cleanup_stored {n : Node} (h : n.Stored) (now : Timeval) : (n.aodvDbCleanup now).Stored :=
  ⟨fun q hq => h.packets q (pbCleanup_mem n.pb now q hq), h.series⟩

section
variable (L : Libdessert)

theorem forward_stored {n : Node} (h : n.Stored) (env : RxEnv) (msg : DessertMsg) :
    (n.aodvForward L env msg).1.Stored := by
  obtain ⟨ds, rt, rerrLog, heq⟩ := forward_eq L n env msg
  rw [heq]
  exact h.congr rfl rfl rfl

theorem scSendOutRerr_stored {n : Node} (h : n.Stored) (etherAddr : MacAddr) (now : Timeval) :
    (n.scSendOutRerr L etherAddr now).1.Stored := by
  obtain ⟨rt, rerrLog, hung, heq⟩ := scSendOutRerr_eq L n etherAddr now
  rw [heq]
  exact h.congr rfl rfl rfl

theorem scexecute_stored {n : Node} (h : n.Stored) (now : Timeval) (avgRssi : Int8) :
    (n.aodvPeriodicScexecute L now avgRssi).1.Stored := by
  unfold aodvPeriodicScexecute
  split
  · exact h
  · rename_i sc st _
    have h' : ({ n with st } : Node).Stored := h.congr rfl rfl rfl
    simp only
    split
    · split
      · exact (sendRreqReal_stored h' _ now).1
      · exact seriesFault_stored h'
    · exact scSendOutRerr_stored L h' sc.etherAddr now
    · refine (sendRreqs_stored ?_ _ now).1
      exact h.congr rfl rfl rfl
    · split
      · split <;> exact h.congr rfl rfl rfl
      · exact h'

theorem step_stored {n : Node} (h : n.Stored) (ev : NodeEvent) : (n.step L ev).Stored := by
  cases ev with
  | mesh cb env msg =>
    cases cb with
    | dropErrors => exact dropErrors_stored h env msg
    | handleHello => exact handleHello_stored h env msg
    | handleRreq => exact handleRreq_stored h env msg
    | handleRerr =>
      simp only [step, handle, callback, aodvHandleRerr]
      split
      · exact h
      · split <;> exact h.congr rfl rfl rfl
    | handleRrep => exact handleRrep_stored h env msg
    | forwardBroadcast => exact forwardBroadcast_stored h env msg
    | forwardMulticast => exact h
    | forward => exact forward_stored L h env msg
    | localUnicast => exact localUnicast_stored h env msg
  | sysRx l25Shost l25Dhost payload now => exact sys2rp_stored h rfl now
  | cliSendRreq host now => exact (sendRreq_stored h host now).1
  | routingReset => exact h.congr rfl rfl rfl
  | neighborReset => exact h.congr rfl rfl rfl
  | sendHello =>
    simp only [step, handle]
    split
    · exact h
    · exact h.congr rfl rfl rfl
  | sendRreq now =>
    simp only [step, handle]
    split
    · exact h
    · exact (sendRreqs_stored h _ now).1
  | cleanupDatabase now =>
    simp only [step, handle]
    split
    · exact h
    · exact cleanup_stored h now
  | scexecute now avgRssi =>
    simp only [step, handle]
    split
    · exact h
    · exact scexecute_stored L h now avgRssi

end

theorem Reachable.stored {L : Libdessert} {n : Node} (h : Reachable L n) : n.Stored :=
  h.inv init_stored fun _ ev hs => step_stored L hs ev

end Node

end DesAodv
