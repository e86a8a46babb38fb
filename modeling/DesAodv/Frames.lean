import DesAodv.Daemon

/-!
# What the functions of a daemon leave alone

Whatever sends RREQs works on the series, the schedules, the RREQ log and the
sequence number; whatever sends buffered packets works on the series, the
schedules, the buffer and the data sequence number.
-/

namespace DesAodv

namespace Node

/-! ## Route requests -/

theorem numberRreq_ttl (msg : DessertMsg) (seqNum : UInt32) : (numberRreq msg seqNum).ttl = msg.ttl := by
  unfold numberRreq
  split <;> rfl

theorem numberRreq_dest (msg : DessertMsg) (seqNum : UInt32) : (numberRreq msg seqNum).l25Dhost = msg.l25Dhost := by
  unfold numberRreq
  split <;> rfl

/-- Only what belongs to the RREQ series has changed. -/
def SeriesWork (n n' : Node) : Prop :=
  ∃ series st rreqLog seqNumGlobal, n' = { n with series, st, rreqLog, seqNumGlobal }

theorem SeriesWork.refl (n : Node) : SeriesWork n n := ⟨_, _, _, _, rfl⟩

theorem SeriesWork.trans {a b c : Node} (h : SeriesWork a b) (h' : SeriesWork b c) : SeriesWork a c := by
  obtain ⟨_, _, _, _, rfl⟩ := h
  obtain ⟨series, st, rreqLog, seqNumGlobal, rfl⟩ := h'
  exact ⟨series, st, rreqLog, seqNumGlobal, rfl⟩

theorem newSeries_work (n : Node) (msg : DessertMsg) : SeriesWork n (n.aodvPipelineNewSeries msg).1 := by
  unfold aodvPipelineNewSeries
  split
  · exact .refl n
  · exact ⟨_, _, _, _, rfl⟩

theorem rescheduleSeries_eq (n : Node) (when : Timeval) (ptr : Nat) :
    ∃ series st, n.aodvPipelineRescheduleSeries when ptr = { n with series, st } := by
  unfold aodvPipelineRescheduleSeries
  split
  · exact ⟨_, _, rfl⟩
  · split <;> exact ⟨_, _, rfl⟩

theorem deleteSeries_eq (n : Node) (ptr : Nat) :
    ∃ series st, n.aodvPipelineDeleteSeries ptr = { n with series, st } := by
  unfold aodvPipelineDeleteSeries
  split
  · exact ⟨_, _, rfl⟩
  · split
    · exact ⟨_, _, rfl⟩
    · simp only
      split <;> exact ⟨_, _, rfl⟩

theorem deleteSeriesEther_eq (n : Node) (addr : MacAddr) :
    ∃ series st, n.aodvPipelineDeleteSeriesEther addr = { n with series, st } := by
  unfold aodvPipelineDeleteSeriesEther
  split
  · exact ⟨_, _, rfl⟩
  · exact deleteSeries_eq n _

theorem rescheduleSeries_work (n : Node) (when : Timeval) (ptr : Nat) :
    SeriesWork n (n.aodvPipelineRescheduleSeries when ptr) := by
  obtain ⟨series, st, h⟩ := rescheduleSeries_eq n when ptr
  exact ⟨series, st, _, _, h⟩

theorem deleteSeries_work (n : Node) (ptr : Nat) : SeriesWork n (n.aodvPipelineDeleteSeries ptr) := by
  obtain ⟨series, st, h⟩ := deleteSeries_eq n ptr
  exact ⟨series, st, _, _, h⟩

theorem sendRreqReal_work (n : Node) (ptr : Nat) (now : Timeval) :
    SeriesWork n (n.aodvSendRreqReal ptr now).1 := by
  unfold aodvSendRreqReal
  split
  · exact ⟨_, _, _, _, rfl⟩
  · simp only
    split
    · refine SeriesWork.trans ?_ (rescheduleSeries_work _ _ _)
      exact ⟨_, _, _, _, rfl⟩
    · split
      · refine SeriesWork.trans ?_ (deleteSeries_work _ _)
        exact ⟨_, _, _, _, rfl⟩
      · refine SeriesWork.trans ?_ (rescheduleSeries_work _ _ _)
        exact ⟨_, _, _, _, rfl⟩

theorem sendRreq_work (n : Node) (host : MacAddr) (now : Timeval) : SeriesWork n (n.aodvSendRreq host now).1 := by
  simp only [aodvSendRreq]
  have h := newSeries_work n (n.createRreq host (if n.cfg.ringSearch then ttlStart else ttlMax)
    n.cfg.metricStartvalue)
  split
  · rename_i n' hn
    rw [hn] at h
    exact h
  · rename_i n' ptr hn
    rw [hn] at h
    exact h.trans (sendRreqReal_work n' ptr now)

theorem sendRreqs_work (n : Node) (hosts : List MacAddr) (now : Timeval) :
    SeriesWork n (n.sendRreqs hosts now).1 := by
  have h : ∀ (acc : Node × List Sent), SeriesWork acc.1 (hosts.foldl (fun acc host =>
      ((acc.1.aodvSendRreq host now).1, acc.2 ++ (acc.1.aodvSendRreq host now).2)) acc).1 := by
    induction hosts with
    | nil => exact fun acc => .refl acc.1
    | cons host hosts ih =>
      intro acc
      rw [List.foldl_cons]
      apply (sendRreq_work acc.1 host now).trans
      exact ih ((acc.1.aodvSendRreq host now).1, acc.2 ++ (acc.1.aodvSendRreq host now).2)
  exact h (n, [])

/-! ## Buffered packets -/

/-- Only what sending buffered packets works on has changed. -/
def BufferWork (n n' : Node) : Prop :=
  ∃ series st pb dataSeqGlobal, n' = { n with series, st, pb, dataSeqGlobal }

theorem BufferWork.refl (n : Node) : BufferWork n n := ⟨_, _, _, _, rfl⟩

theorem BufferWork.trans {a b c : Node} (h : BufferWork a b) (h' : BufferWork b c) : BufferWork a c := by
  obtain ⟨_, _, _, _, rfl⟩ := h
  obtain ⟨series, st, pb, dataSeqGlobal, rfl⟩ := h'
  exact ⟨series, st, pb, dataSeqGlobal, rfl⟩

theorem sendBuffered_work (host nextHop : MacAddr) (iface : Meshif) (acc : Node × List Sent) :
    BufferWork acc.1 (sendBuffered host nextHop iface acc).1 := by
  unfold sendBuffered
  simp only
  split <;> exact ⟨_, _, _, _, rfl⟩

theorem sendPackets_work (n : Node) (host nextHop : MacAddr) (iface : Meshif) :
    BufferWork n (n.aodvSendPacketsFromBuffer host nextHop iface).1 := by
  have h : ∀ (packets : List DessertMsg) (acc : Node × List Sent),
      BufferWork acc.1 (packets.foldl (fun acc _ => sendBuffered host nextHop iface acc) acc).1 := by
    intro packets
    induction packets with
    | nil => exact fun acc => .refl acc.1
    | cons p ps ih => exact fun acc => (sendBuffered_work host nextHop iface acc).trans (ih _)
  have hdel : BufferWork n (n.aodvPipelineDeleteSeriesEther host) := by
    obtain ⟨series, st, hd⟩ := deleteSeriesEther_eq n host
    exact ⟨series, st, _, _, hd⟩
  exact hdel.trans (h _ (n.aodvPipelineDeleteSeriesEther host, []))

/-! ## Handlers -/

/-- The handlers of RREQs and RREPs work on the routes, the neighbors, the sequence number and what
sending buffered packets works on. -/
def RouteWork (n n' : Node) : Prop :=
  ∃ rt nt series st pb dataSeqGlobal seqNumGlobal,
    n' = { n with rt, nt, series, st, pb, dataSeqGlobal, seqNumGlobal }

theorem BufferWork.route {n n' : Node} (h : BufferWork n n') : RouteWork n n' := by
  obtain ⟨series, st, pb, dataSeqGlobal, rfl⟩ := h
  exact ⟨_, _, series, st, pb, dataSeqGlobal, _, rfl⟩

theorem RouteWork.trans {a b c : Node} (h : RouteWork a b) (h' : RouteWork b c) : RouteWork a c := by
  obtain ⟨_, _, _, _, _, _, _, rfl⟩ := h
  obtain ⟨rt, nt, series, st, pb, dataSeqGlobal, seqNumGlobal, rfl⟩ := h'
  exact ⟨rt, nt, series, st, pb, dataSeqGlobal, seqNumGlobal, rfl⟩

theorem RouteWork.refl (n : Node) : RouteWork n n := ⟨_, _, _, _, _, _, _, rfl⟩

theorem captRreq_work (n : Node) (destination originator prevHop : MacAddr) (iface : Meshif) (seq : UInt32)
    (metric : Metric) (hopCount : UInt8) (timestamp now : Timeval) :
    RouteWork n (n.captRreq destination originator prevHop iface seq metric hopCount timestamp now).1 :=
  ⟨_, _, _, _, _, _, _, rfl⟩

theorem captRrep_work (n : Node) (host nextHop : MacAddr) (iface : Meshif) (seq : UInt32) (metric : Metric)
    (hopCount : UInt8) (timestamp now : Timeval) :
    RouteWork n (n.captRrep host nextHop iface seq metric hopCount timestamp now).1 :=
  ⟨_, _, _, _, _, _, _, rfl⟩

theorem rreqAsRrep_work (n : Node) (env : RxEnv) (msg : DessertMsg) : RouteWork n (n.rreqAsRrep env msg).1 := by
  have h := captRrep_work n msg.l25Shost msg.l2Shost env.iface 0 msg.u16 msg.u8 env.now env.now
  simp only [rreqAsRrep]
  split
  · exact h.trans (sendPackets_work _ msg.l25Shost msg.l2Shost env.iface).route
  · exact h

theorem rrepForMe_work (n : Node) (env : RxEnv) (msg : DessertMsg) (rreq : AodvMsgRreq) (result : CaptRreqResult) :
    RouteWork n (n.rrepForMe env msg rreq result).1 := ⟨_, _, _, _, _, _, _, rfl⟩

theorem acceptRreq_work (n : Node) (env : RxEnv) (msg : DessertMsg) (rreq : AodvMsgRreq)
    (result : CaptRreqResult) : RouteWork n (n.acceptRreq env msg rreq result).1 := by
  have h := rreqAsRrep_work n env msg
  simp only [acceptRreq]
  split
  · exact h.trans (rrepForMe_work _ env msg rreq result)
  · exact h

theorem handleRreq_work (n : Node) (env : RxEnv) (msg : DessertMsg) : RouteWork n (n.aodvHandleRreq env msg).1 := by
  unfold aodvHandleRreq
  split
  · exact .refl n
  · simp only
    split
    · exact captRreq_work n _ _ _ _ _ _ _ _ _
    · exact (captRreq_work n _ _ _ _ _ _ _ _ _).trans (acceptRreq_work _ env _ _ _)

theorem handleRrep_work (n : Node) (env : RxEnv) (msg : DessertMsg) : RouteWork n (n.aodvHandleRrep env msg).1 := by
  unfold aodvHandleRrep
  split
  · exact .refl n
  · split
    · exact .refl n
    · simp only
      split
      · exact captRrep_work n _ _ _ _ _ _ _ _
      · split
        · exact (captRrep_work n _ _ _ _ _ _ _ _).trans (sendPackets_work _ _ _ _).route
        · split
          · rename_i n' hn
            obtain rfl := (Prod.mk.inj hn).1
            exact ⟨_, _, _, _, _, _, _, rfl⟩
          · rename_i n' nextHop outputIface hn
            obtain rfl := (Prod.mk.inj hn).1
            exact ⟨_, _, _, _, _, _, _, rfl⟩

theorem handleRerr_eq (n : Node) (env : RxEnv) (msg : DessertMsg) :
    ∃ rt, (n.aodvHandleRerr env msg).1 = { n with rt } := by
  unfold aodvHandleRerr
  split
  · exact ⟨_, rfl⟩
  · simp only
    split <;> exact ⟨_, rfl⟩

theorem dropErrors_eq (n : Node) (env : RxEnv) (msg : DessertMsg) :
    ∃ nt st, (n.aodvDropErrors env msg).1 = { n with nt, st } := by
  unfold aodvDropErrors
  split
  · exact ⟨_, _, rfl⟩
  · split
    · exact ⟨_, _, rfl⟩
    · split <;> exact ⟨_, _, rfl⟩

theorem handleHello_eq (n : Node) (env : RxEnv) (msg : DessertMsg) :
    ∃ nt st, (n.aodvHandleHello env msg).1 = { n with nt, st } := by
  unfold aodvHandleHello
  split
  · exact ⟨_, _, rfl⟩
  · simp only
    split
    · exact ⟨_, _, rfl⟩
    · split <;> exact ⟨_, _, rfl⟩

/-! ## Data packets and route errors -/

theorem forwardBroadcast_eq (n : Node) (env : RxEnv) (msg : DessertMsg) :
    ∃ ds, (n.aodvForwardBroadcast env msg).1 = { n with ds } := by
  unfold aodvForwardBroadcast
  split
  · split
    · exact ⟨_, rfl⟩
    · simp only
      split <;> exact ⟨_, rfl⟩
  · exact ⟨_, rfl⟩

theorem localUnicast_eq (n : Node) (env : RxEnv) (msg : DessertMsg) :
    ∃ ds, (n.aodvLocalUnicast env msg).1 = { n with ds } := by
  unfold aodvLocalUnicast
  split
  · split
    · exact ⟨_, rfl⟩
    · simp only
      split <;> exact ⟨_, rfl⟩
  · exact ⟨_, rfl⟩

variable (L : Libdessert)

theorem forward_eq (n : Node) (env : RxEnv) (msg : DessertMsg) :
    ∃ ds rt rerrLog, (n.aodvForward L env msg).1 = { n with ds, rt, rerrLog } := by
  unfold aodvForward
  split
  · exact ⟨_, _, _, rfl⟩
  · split
    · exact ⟨_, _, _, rfl⟩
    · simp only
      split
      · exact ⟨_, _, _, rfl⟩
      · split
        · rename_i n' nextHop outputIface hn
          obtain rfl := (Prod.mk.inj hn).1
          exact ⟨_, _, _, rfl⟩
        · rename_i n' hn
          obtain rfl := (Prod.mk.inj hn).1
          unfold rerrUnroutable
          simp only
          split
          · exact ⟨_, _, _, rfl⟩
          · split <;> exact ⟨_, _, _, rfl⟩

theorem sys2rp_eq (n : Node) (msg : DessertMsg) (now : Timeval) :
    ∃ rt series st pb rreqLog seqNumGlobal dataSeqGlobal, (n.aodvSys2rp msg now).1 =
      { n with rt, series, st, pb, rreqLog, seqNumGlobal, dataSeqGlobal } := by
  unfold aodvSys2rp
  simp only
  split
  · exact ⟨_, _, _, _, _, _, _, rfl⟩
  · split
    · exact ⟨_, _, _, _, _, _, _, rfl⟩
    · split
      · rename_i n' nextHop outputIface hn
        obtain rfl := (Prod.mk.inj hn).1
        exact ⟨_, _, _, _, _, _, _, rfl⟩
      · rename_i n' hn
        obtain rfl := (Prod.mk.inj hn).1
        obtain ⟨series, st, rreqLog, seqNumGlobal, h⟩ := sendRreq_work _ msg.l25Dhost now
        exact ⟨_, series, st, _, rreqLog, seqNumGlobal, _, h⟩

theorem scSendOutRerr_eq (n : Node) (etherAddr : MacAddr) (now : Timeval) :
    ∃ rt rerrLog hung, (n.scSendOutRerr L etherAddr now).1 = { n with rt, rerrLog, hung } := by
  unfold scSendOutRerr
  simp only
  split
  · exact ⟨_, _, _, rfl⟩
  · split
    · exact ⟨_, _, _, rfl⟩
    · split <;> exact ⟨_, _, _, rfl⟩

end Node

end DesAodv
