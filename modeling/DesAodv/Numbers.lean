import DesAodv.SeriesMessages
import DesAodv.Traffic
import DesAodv.Frames
import DesAodv.Network

/-!
# The sequence numbers of one daemon

`ok host seq` says that `seq` may stand for `host`. A daemon that is given such
numbers only keeps and sends such numbers only, if 0 may stand for everyone and
its own numbers may stand for itself.
-/

namespace DesAodv

section
variable (ok : MacAddr → UInt32 → Prop)

def DessertMsg.Asks (msg : DessertMsg) : Prop :=
  ∀ rreq, msg.getRreq = some rreq → ok msg.l25Dhost rreq.destinationSequenceNumber

structure DessertMsg.Vouched (msg : DessertMsg) : Prop where
  originator : ∀ rreq, msg.getRreq = some rreq → ok msg.l25Shost rreq.originatorSequenceNumber
  asks : msg.Asks ok
  answers : ∀ rrep, msg.getRrep = some rrep → ok msg.l25Shost rrep.destinationSequenceNumber

def Sent.Vouched : Sent → Prop
  | .mesh msg _ => msg.Vouched ok
  | .sys _ => True

structure Node.Vouched (n : Node) : Prop where
  entries : ∀ host e, n.rt.find host = some e → ok host e.sequenceNumber
  series : n.SeriesAll (DessertMsg.Asks ok)

/-- An own RREQ with one of the next `k` numbers after `seq`. -/
def Sent.Numbered (l25 : MacAddr) (seq : UInt32) (k : Nat) (s : Sent) : Prop :=
  ∃ msg rreq, s = .mesh msg none ∧ msg.exts = [.rreq rreq] ∧ msg.l25Shost = l25 ∧
    ok msg.l25Dhost rreq.destinationSequenceNumber ∧ ∃ j ≤ k, rreq.originatorSequenceNumber = seq + UInt32.ofNat j

end

/-- Neither a RREQ nor a RREP. -/
def Sent.Free : Sent → Prop
  | .mesh msg _ => msg.Plain
  | .sys _ => True

def Sent.isRreq : Sent → Bool
  | .mesh msg _ => msg.getRreq.isSome
  | .sys _ => false

section
variable {ok : MacAddr → UInt32 → Prop} {msg msg' : DessertMsg} {s : Sent}

/-! ## Messages -/

theorem DessertMsg.Plain.vouched (h : msg.Plain) : msg.Vouched ok where
  originator := fun rreq hr => by
    rw [h.rreq] at hr
    cases hr
  asks := fun rreq hr => by
    rw [h.rreq] at hr
    cases hr
  answers := fun rrep hr => by
    rw [h.rrep] at hr
    cases hr

theorem Sent.Free.vouched (h : s.Free) : s.Vouched ok := by
  cases s with
  | mesh msg iface => exact DessertMsg.Plain.vouched h
  | sys msg => trivial

theorem Sent.Free.isRreq (h : s.Free) : s.isRreq = false := by
  cases s with
  | mesh msg iface =>
    have hm : msg.Plain := h
    simp [Sent.isRreq, hm.rreq]
  | sys msg => rfl

theorem Sent.Plain.free {iface : Meshif} (h : s.Plain iface) : s.Free := by
  cases s with
  | mesh msg i =>
    cases i with
    | some i => exact h.2
    | none => exact h
  | sys msg => trivial

theorem Sent.Data.free {iface : Meshif} (h : s.Data iface) : s.Free := h.plain.free

theorem DessertMsg.Vouched.congr (h : msg.Vouched ok) (hr : msg'.getRreq = msg.getRreq)
    (hp : msg'.getRrep = msg.getRrep) (hs : msg'.l25Shost = msg.l25Shost) (hd : msg'.l25Dhost = msg.l25Dhost) :
    msg'.Vouched ok := by
  refine ⟨fun rreq he => ?_, fun rreq he => ?_, fun rrep he => ?_⟩
  · rw [hs]
    exact h.originator rreq (hr ▸ he)
  · rw [hd]
    exact h.asks rreq (hr ▸ he)
  · rw [hs]
    exact h.answers rrep (hp ▸ he)

theorem DessertMsg.Vouched.imp {ok' : MacAddr → UInt32 → Prop} (hok : ∀ host seq, ok host seq → ok' host seq)
    (h : msg.Vouched ok) : msg.Vouched ok' :=
  ⟨fun rreq hr => hok _ _ (h.originator rreq hr), fun rreq hr => hok _ _ (h.asks rreq hr),
    fun rrep hr => hok _ _ (h.answers rrep hr)⟩

theorem Node.Vouched.imp {ok' : MacAddr → UInt32 → Prop} (hok : ∀ host seq, ok host seq → ok' host seq) {n : Node}
    (h : n.Vouched ok) : n.Vouched ok' :=
  ⟨fun host e he => hok _ _ (h.entries host e he), fun s hs rreq hr => hok _ _ (h.series s hs rreq hr)⟩

theorem Sent.Vouched.frames (h : s.Vouched ok) (n : Node) : ∀ f ∈ n.frames s, f.Vouched ok := by
  intro f hf
  cases s with
  | sys m => simp [Node.frames] at hf
  | mesh m iface =>
    have hm : m.Vouched ok := h
    cases iface with
    | some iface =>
      rw [List.mem_singleton.mp hf]
      exact hm.congr rfl rfl rfl rfl
    | none =>
      obtain ⟨iface, -, rfl⟩ := List.mem_map.mp hf
      exact hm.congr rfl rfl rfl rfl

theorem Sent.Numbered.isRreq {l25 : MacAddr} {seq : UInt32} {k : Nat} (h : s.Numbered ok l25 seq k) :
    s.isRreq = true := by
  obtain ⟨msg, rreq, rfl, he, -⟩ := h
  simp [Sent.isRreq, DessertMsg.getRreq, he]

theorem Sent.Numbered.vouched {l25 : MacAddr} {seq : UInt32} {k : Nat} (h : s.Numbered ok l25 seq k)
    (hown : ∀ j ≤ k, ok l25 (seq + UInt32.ofNat j)) : s.Vouched ok := by
  obtain ⟨msg, rreq, rfl, he, hl, hask, j, hj, hnum⟩ := h
  have hr : msg.getRreq = some rreq := by simp [DessertMsg.getRreq, he]
  have hp : msg.getRrep = none := by simp [DessertMsg.getRrep, he]
  refine ⟨fun rreq' hr' => ?_, fun rreq' hr' => ?_, fun rrep hr' => ?_⟩
  · obtain rfl := Option.some.inj (hr.symm.trans hr')
    rw [hl, hnum]
    exact hown j hj
  · obtain rfl := Option.some.inj (hr.symm.trans hr')
    exact hask
  · rw [hp] at hr'
    cases hr'

theorem getRreq_numberRreq {rreq : AodvMsgRreq} (h : msg.getRreq = some rreq) (seqNum : UInt32) :
    (Node.numberRreq msg seqNum).getRreq = some { rreq with originatorSequenceNumber := seqNum } := by
  unfold Node.numberRreq
  rw [h]
  apply DessertMsg.findSome?_setExt_self
  · intro e
    cases e with
    | rreq m => exact .inr ⟨_, rfl, rfl⟩
    | _ => exact .inl ⟨rfl, rfl⟩
  · exact Option.isSome_of_eq_some h

theorem asks_steady : Steady (DessertMsg.Asks ok) where
  number := fun msg seqNum h => by
    intro rreq hr
    rw [Node.numberRreq_dest]
    cases hm : msg.getRreq with
    | none =>
      have hsame : Node.numberRreq msg seqNum = msg := by
        unfold Node.numberRreq
        rw [hm]
      rw [hsame, hm] at hr
      cases hr
    | some rreq' =>
      rw [getRreq_numberRreq hm] at hr
      obtain rfl := Option.some.inj hr
      exact h rreq' hm
  ttl := fun _ _ h => h

end

namespace Node

section
variable {ok : MacAddr → UInt32 → Prop} {n : Node}

/-! ## Route requests -/

theorem createRreq_asks (h0 : ∀ host, ok host 0) (hv : n.Vouched ok) (host : MacAddr) (ttl : UInt8) (metric : Metric) :
    (n.createRreq host ttl metric).Asks ok := by
  intro rreq hr
  obtain rfl := Option.some.inj hr
  show ok host ((aodvDbRtGetDestinationSequenceNumber n.rt host).getD 0)
  unfold aodvDbRtGetDestinationSequenceNumber Rt.known
  cases hf : n.rt.find host with
  | none => exact h0 host
  | some e =>
    have he := hv.entries host e hf
    by_cases hk : e.flags.nextHopUnknown = true
    · simpa [Option.filter_some, hk] using h0 host
    · simpa [Option.filter_some, hk] using he

theorem rescheduleSeries_number (n : Node) (when : Timeval) (ptr : Nat) :
    (n.aodvPipelineRescheduleSeries when ptr).seqNumGlobal = n.seqNumGlobal := by
  obtain ⟨series, st, h⟩ := rescheduleSeries_eq n when ptr
  rw [h]

theorem deleteSeries_number (n : Node) (ptr : Nat) :
    (n.aodvPipelineDeleteSeries ptr).seqNumGlobal = n.seqNumGlobal := by
  obtain ⟨series, st, h⟩ := deleteSeries_eq n ptr
  rw [h]

/-- The counter has been incremented once for each RREQ. -/
structure Originates (ok : MacAddr → UInt32 → Prop) (n : Node) (r : Node × List Sent) : Prop where
  frame : Frame n r.1
  stored : r.1.Stored
  asks : r.1.SeriesAll (DessertMsg.Asks ok)
  counter : r.1.seqNumGlobal = n.seqNumGlobal + UInt32.ofNat r.2.length
  sent : ∀ s ∈ r.2, s.Numbered ok n.l25Defsrc n.seqNumGlobal r.2.length

theorem Originates.nothing (hst : n.Stored) (ha : n.SeriesAll (DessertMsg.Asks ok)) : Originates ok n (n, []) :=
  ⟨.refl n, hst, ha, by simp, by simp⟩

theorem Originates.trans {r r' : Node × List Sent} (h : Originates ok n r) (h' : Originates ok r.1 r') :
    Originates ok n (r'.1, r.2 ++ r'.2) := by
  refine ⟨h.frame.trans h'.frame, h'.stored, h'.asks, ?_, fun s hs => ?_⟩
  · rw [h'.counter, h.counter, List.length_append, UInt32.ofNat_add, UInt32.add_assoc]
  · rw [List.length_append]
    rcases List.mem_append.mp hs with hs | hs
    · obtain ⟨msg, rreq, heq, he, hl, hask, j, hj, hnum⟩ := h.sent s hs
      exact ⟨msg, rreq, heq, he, hl, hask, j, Nat.le_add_right_of_le hj, hnum⟩
    · obtain ⟨msg, rreq, heq, he, hl, hask, j, hj, hnum⟩ := h'.sent s hs
      refine ⟨msg, rreq, heq, he, hl.trans h.frame.l25Defsrc, hask, r.2.length + j, Nat.add_le_add_left hj _, ?_⟩
      rw [hnum, h.counter, UInt32.ofNat_add, UInt32.add_assoc]

theorem sendRreqReal_originates (hst : n.Stored) (ha : n.SeriesAll (DessertMsg.Asks ok)) (ptr : Nat) (now : Timeval) :
    Originates ok n (n.aodvSendRreqReal ptr now) := by
  refine ⟨sendRreqReal_frame n ptr now, (sendRreqReal_stored hst ptr now).1,
    ha.sendRreqReal asks_steady ptr now, ?_, ?_⟩
  · unfold aodvSendRreqReal
    split
    · simp [seriesFault]
    · simp only
      split
      · simp [rescheduleSeries_number]
      · split
        · exact deleteSeries_number _ ptr
        · exact rescheduleSeries_number _ _ ptr
  · intro s hs
    unfold aodvSendRreqReal at hs ⊢
    split at hs
    · cases hs
    · rename_i series hd
      obtain ⟨hl, rreq, he⟩ := seriesDeref_own hst hd
      have hr : series.msg.getRreq = some rreq := by simp [DessertMsg.getRreq, he]
      have hask : ok series.msg.l25Dhost rreq.destinationSequenceNumber := ha.deref hd rreq hr
      obtain ⟨hl', rreq', he'⟩ := (ownRreq_steady _).number _ (n.seqNumGlobal + 1) ⟨hl, rreq, he⟩
      have hr' : (numberRreq series.msg (n.seqNumGlobal + 1)).getRreq = some rreq' := by
        simp [DessertMsg.getRreq, he']
      rw [getRreq_numberRreq hr] at hr'
      obtain rfl := Option.some.inj hr'
      have hnum : (Sent.mesh (numberRreq series.msg (n.seqNumGlobal + 1)) none).Numbered ok n.l25Defsrc
          n.seqNumGlobal 1 := by
        refine ⟨_, _, rfl, he', hl', ?_, 1, Nat.le_refl 1, rfl⟩
        rw [numberRreq_dest]
        exact hask
      simp only at hs ⊢
      split at hs
      · cases hs
      · rename_i hc
        rw [if_neg hc]
        split at hs
        · rename_i hretry
          rw [if_pos hretry, List.mem_singleton.mp hs]
          exact hnum
        · rename_i hretry
          rw [if_neg hretry, List.mem_singleton.mp hs]
          exact hnum

variable (h0 : ∀ host, ok host 0)
include h0

theorem sendRreq_originates (hst : n.Stored) (hv : n.Vouched ok) (host : MacAddr) (now : Timeval) :
    Originates ok n (n.aodvSendRreq host now) := by
  simp only [aodvSendRreq]
  have hf := newSeries_frame n (n.createRreq host (if n.cfg.ringSearch then ttlStart else ttlMax)
    n.cfg.metricStartvalue)
  have hs := newSeries_stored hst (createRreq_own n host (if n.cfg.ringSearch then ttlStart else ttlMax)
    n.cfg.metricStartvalue)
  have ha := hv.series.new (createRreq_asks h0 hv host (if n.cfg.ringSearch then ttlStart else ttlMax)
    n.cfg.metricStartvalue)
  have hn : (n.aodvPipelineNewSeries (n.createRreq host (if n.cfg.ringSearch then ttlStart else ttlMax)
      n.cfg.metricStartvalue)).1.seqNumGlobal = n.seqNumGlobal := by
    unfold aodvPipelineNewSeries
    split <;> rfl
  have hnew : Originates ok n ((n.aodvPipelineNewSeries (n.createRreq host
      (if n.cfg.ringSearch then ttlStart else ttlMax) n.cfg.metricStartvalue)).1, []) :=
    ⟨hf, hs, ha, by simp [hn], by simp⟩
  split
  · rename_i n' heq
    rw [heq] at hnew
    exact hnew
  · rename_i n' ptr heq
    rw [heq] at hnew
    exact hnew.trans (sendRreqReal_originates hnew.stored hnew.asks ptr now)

theorem sendRreqs_originates (hst : n.Stored) (hv : n.Vouched ok) (hosts : List MacAddr) (now : Timeval) :
    Originates ok n (n.sendRreqs hosts now) := by
  have hfold : ∀ acc : Node × List Sent, Originates ok n acc → Originates ok n (hosts.foldl (fun acc host =>
      ((acc.1.aodvSendRreq host now).1, acc.2 ++ (acc.1.aodvSendRreq host now).2)) acc) := by
    induction hosts with
    | nil => exact fun _ ha => ha
    | cons host hosts ih =>
      intro acc ha
      have hva : acc.1.Vouched ok := ⟨ha.frame.rt.symm ▸ hv.entries, ha.asks⟩
      exact ih ((acc.1.aodvSendRreq host now).1, acc.2 ++ (acc.1.aodvSendRreq host now).2)
        (ha.trans (sendRreq_originates h0 ha.stored hva host now))
  exact hfold (n, []) (.nothing hst hv.series)

end

/-! ## What a daemon does of its own accord -/

section
variable {ok : MacAddr → UInt32 → Prop} {n : Node}

/-- The counter has been incremented once for each RREQ, and everything else sent carries no numbers. -/
structure Accounts (ok : MacAddr → UInt32 → Prop) (n : Node) (r : Node × List Sent) : Prop where
  asks : r.1.SeriesAll (DessertMsg.Asks ok)
  counter : r.1.seqNumGlobal = n.seqNumGlobal + UInt32.ofNat (r.2.countP Sent.isRreq)
  sent : ∀ s ∈ r.2, s.Numbered ok n.l25Defsrc n.seqNumGlobal (r.2.countP Sent.isRreq) ∨ s.Free

theorem Originates.accounts {r : Node × List Sent} (h : Originates ok n r) : Accounts ok n r := by
  have hcount : r.2.countP Sent.isRreq = r.2.length :=
    List.countP_eq_length.mpr fun s hs => (h.sent s hs).isRreq
  refine ⟨h.asks, ?_, fun s hs => .inl ?_⟩
  · rw [hcount]
    exact h.counter
  · rw [hcount]
    exact h.sent s hs

theorem accounts_free {r : Node × List Sent} (ha : r.1.SeriesAll (DessertMsg.Asks ok))
    (hn : r.1.seqNumGlobal = n.seqNumGlobal) (hfree : ∀ s ∈ r.2, s.Free) : Accounts ok n r := by
  have hcount : r.2.countP Sent.isRreq = 0 :=
    List.countP_eq_zero.mpr fun s hs => by simp [(hfree s hs).isRreq]
  refine ⟨ha, ?_, fun s hs => .inr (hfree s hs)⟩
  rw [hcount, hn]
  simp

theorem Accounts.congr {n' : Node} {r : Node × List Sent} (h : Accounts ok n' r) (hl : n'.l25Defsrc = n.l25Defsrc)
    (hn : n'.seqNumGlobal = n.seqNumGlobal) : Accounts ok n r := by
  refine ⟨h.asks, hn ▸ h.counter, ?_⟩
  rw [← hl, ← hn]
  exact h.sent

theorem entries_quiet (hw : n.rt.WF) (hv : n.Vouched ok) {rt : Rt} (hq : n.rt.Quietly rt) {host : MacAddr}
    {e : RtEntry} (he : rt.find host = some e) : ok host e.sequenceNumber := by
  obtain ⟨e', he', hweak⟩ := (hq.shrinks hw).entry host e he
  rw [hweak.sequenceNumber]
  exact hv.entries host e' he'

section
variable (h0 : ∀ host, ok host 0) (hst : n.Stored) (hv : n.Vouched ok)
include h0 hst hv

theorem sys2rp_accounts {msg : DessertMsg} (hm : msg.exts = []) (now : Timeval) :
    Accounts ok n (n.aodvSys2rp msg now) := by
  have hfree : ∀ (msg' : DessertMsg) (iface : Option Meshif), msg'.exts = msg.exts → (Sent.mesh msg' iface).Free := by
    intro msg' iface he
    refine ⟨?_, ?_⟩
    · simp [DessertMsg.getRreq, he, hm]
    · simp [DessertMsg.getRrep, he, hm]
  unfold aodvSys2rp
  simp only
  split
  · refine accounts_free hv.series rfl fun s hs => ?_
    rw [List.mem_singleton.mp hs]
    exact hfree _ none rfl
  · split
    · exact accounts_free hv.series rfl (by simp)
    · cases hr : n.routeTo msg.l25Dhost with
      | none =>
        rw [getroute2dest_none hr]
        simp only
        have hb : ∀ packet : DessertMsg, packet.exts = [] →
            ({ n with pb := pbPushPacket n.pb msg.l25Dhost packet now now } : Node).Stored :=
          fun packet hp => ⟨pbPushPacket_spec hst.packets msg.l25Dhost hp now now, hst.series⟩
        have ho := sendRreq_originates h0 (hb { msg with ttl := 255, u8 := 0 } hm) ⟨hv.entries, hv.series⟩
          msg.l25Dhost now
        exact ho.accounts.congr rfl rfl
      | some route =>
        have hsnd := (getroute2dest_snd n msg.l25Dhost now now aodvFlagsRouteLocalUsed).trans hr
        have hpair : n.getroute2dest msg.l25Dhost now now aodvFlagsRouteLocalUsed =
            ((n.getroute2dest msg.l25Dhost now now aodvFlagsRouteLocalUsed).1, some route) := Prod.ext rfl hsnd
        rw [hpair]
        refine accounts_free hv.series rfl fun s hs => ?_
        rw [List.mem_singleton.mp hs]
        exact hfree _ route.2 rfl

variable (hw : n.rt.WF) (L : Libdessert)
include hw

theorem scexecute_accounts (now : Timeval) (avgRssi : Int8) :
    Accounts ok n (n.aodvPeriodicScexecute L now avgRssi) := by
  have nothing : ∀ n' : Node, n'.series = n.series → n'.seqNumGlobal = n.seqNumGlobal → Accounts ok n (n', []) :=
    fun n' hs hn => accounts_free (hv.series.congr hs) hn (by simp)
  unfold aodvPeriodicScexecute
  split
  · exact nothing n rfl rfl
  · rename_i sc st _
    have hst' : ({ n with st } : Node).Stored := hst.congr rfl rfl rfl
    simp only
    split
    · split
      · rename_i ptr _
        have ho := sendRreqReal_originates hst' (hv.series.congr rfl) ptr now
        exact ho.accounts.congr rfl rfl
      · exact accounts_free hv.series rfl (by simp)
    · obtain ⟨rt, rerrLog, hung, heq⟩ := scSendOutRerr_eq L ({ n with st } : Node) sc.etherAddr now
      apply accounts_free
      · rw [heq]
        exact hv.series
      · rw [heq]
      · intro s hs
        unfold scSendOutRerr at hs
        simp only at hs
        split at hs
        · cases hs
        · split at hs
          · cases hs
          · split at hs
            · cases hs
            · obtain ⟨m, hm, rfl⟩ := List.mem_map.mp hs
              exact sendRerrs_plain L _ _ _ m hm
    · have hq := Rt.Quietly.of_step n.rt (.setWarn sc.etherAddr) rfl
      have hst'' : ({ n with
          st, rt := (aodvDbRtGetWarnEndpointsFromNeighborAndSetWarn n.rt sc.etherAddr).1 } : Node).Stored :=
        hst.congr rfl rfl rfl
      have hv' : ({ n with
          st, rt := (aodvDbRtGetWarnEndpointsFromNeighborAndSetWarn n.rt sc.etherAddr).1 } : Node).Vouched ok :=
        ⟨fun _ _ he => entries_quiet hw hv hq he, hv.series⟩
      exact (sendRreqs_originates h0 hst'' hv' _ now).accounts.congr rfl rfl
    · split
      · split
        · exact nothing _ rfl rfl
        · exact nothing _ rfl rfl
      · exact nothing _ rfl rfl

theorem handle_accounts {ev : NodeEvent} (hev : ∀ cb env msg, ev ≠ .mesh cb env msg) :
    Accounts ok n (n.handle L ev) := by
  have nothing : ∀ n' : Node, n'.series = n.series → n'.seqNumGlobal = n.seqNumGlobal → Accounts ok n (n', []) :=
    fun n' hs hn => accounts_free (hv.series.congr hs) hn (by simp)
  cases ev with
  | mesh cb env msg => exact absurd rfl (hev cb env msg)
  | sysRx l25Shost l25Dhost payload now => exact sys2rp_accounts h0 hst hv rfl now
  | cliSendRreq host now => exact (sendRreq_originates h0 hst hv host now).accounts
  | routingReset => exact nothing _ rfl rfl
  | neighborReset => exact nothing _ rfl rfl
  | sendHello =>
    simp only [handle]
    split
    · exact nothing n rfl rfl
    · refine accounts_free hv.series rfl fun s hs => ?_
      rw [List.mem_singleton.mp hs]
      exact ⟨rfl, rfl⟩
  | sendRreq now =>
    simp only [handle]
    split
    · exact nothing n rfl rfl
    · exact (sendRreqs_originates h0 hst hv _ now).accounts
  | cleanupDatabase now =>
    simp only [handle]
    split
    · exact nothing n rfl rfl
    · exact nothing _ rfl rfl
  | scexecute now avgRssi =>
    simp only [handle]
    split
    · exact nothing n rfl rfl
    · exact scexecute_accounts h0 hst hv hw L now avgRssi

end

end

/-! ## Captures -/

section
variable {ok : MacAddr → UInt32 → Prop} {n : Node} (h0 : ∀ host, ok host 0) (hw : n.rt.WF) (hv : n.Vouched ok)
  {env : RxEnv} {msg : DessertMsg} (hm : msg.Vouched ok)

theorem entries_grown (h0 : ∀ host, ok host 0) (hv : n.Vouched ok) {rt : Rt} (hg : Rt.Grows n.rt rt) {host : MacAddr}
    {e : RtEntry} (he : rt.find host = some e) : ok host e.sequenceNumber := by
  rcases hg.entry host e he with hold | ⟨p, -, rfl⟩
  · exact hv.entries host e hold
  · exact h0 host

include h0 hw hv hm

theorem entries_rreq {rreq : AodvMsgRreq} (hr : msg.getRreq = some rreq) {host : MacAddr} {e : RtEntry}
    (he : (n.rt.step (n.rreqOp env msg rreq)).find host = some e) : ok host e.sequenceNumber := by
  obtain ⟨-, hwr⟩ := hw.rreq n.cfg.metricType msg.l25Dhost msg.l25Shost msg.l2Shost env.iface
    rreq.originatorSequenceNumber (n.countHop env msg).u16 (n.countHop env msg).u8 env.now
  obtain ⟨-, hg, hf⟩ := hw.judged msg.l25Dhost msg.l25Shost env.now
  have he' := (hwr.find host).symm.trans he
  by_cases hh : host = msg.l25Shost
  · rw [if_pos hh] at he'
    obtain rfl := Option.some.inj he'
    rw [hh]
    split
    · exact entries_grown h0 hv hg hf
    · obtain ⟨-, -, -, hnum, -⟩ := RtEntry.afterRreq_route msg.l2Shost env.iface rreq.originatorSequenceNumber
        (n.countHop env msg).u16 (n.countHop env msg).u8 (n.rt.judged msg.l25Dhost msg.l25Shost env.now).2
      rw [hnum]
      rcases RtEntry.numberAfter_cases (n.rt.judged msg.l25Dhost msg.l25Shost env.now).2
        rreq.originatorSequenceNumber with hz | hs
      · rw [hz]
        exact h0 msg.l25Shost
      · rw [hs]
        exact hm.originator rreq hr
  · rw [if_neg hh] at he'
    exact entries_grown h0 hv hg he'

theorem entries_rrep {rrep : AodvMsgRrep} (hr : msg.getRrep = some rrep) {host : MacAddr} {e : RtEntry}
    (he : (n.rt.step (n.rrepOp env msg rrep)).find host = some e) : ok host e.sequenceNumber := by
  obtain ⟨-, hwr⟩ := hw.rrep msg.l25Shost msg.l2Shost env.iface rrep.destinationSequenceNumber
    (n.countHop env msg).u16 (n.countHop env msg).u8 env.now
  obtain ⟨-, hg, hf⟩ := hw.findOrCreate msg.l25Shost env.now
  have he' := (hwr.find host).symm.trans he
  by_cases hh : host = msg.l25Shost
  · rw [if_pos hh] at he'
    obtain rfl := Option.some.inj he'
    rw [hh]
    split
    · exact hm.answers rrep hr
    · exact entries_grown h0 hv hg hf
  · rw [if_neg hh] at he'
    exact entries_grown h0 hv hg he'

theorem entries_callback (L : Libdessert) (cb : MeshCb) {host : MacAddr} {e : RtEntry}
    (he : (n.step L (.mesh cb env msg)).rt.find host = some e) : ok host e.sequenceNumber := by
  cases (step_rt L n (.mesh cb env msg)).1 with
  | quiet h => exact entries_quiet hw hv h he
  | rreq env' msg' m hev hg h =>
    obtain ⟨-, rfl, rfl⟩ := NodeEvent.mesh.inj hev
    rw [h] at he
    exact entries_rreq h0 hw hv hm hg he
  | rrep env' msg' m hev hg hd h =>
    obtain ⟨-, rfl, rfl⟩ := NodeEvent.mesh.inj hev
    obtain ⟨e', he', hweak⟩ := (h.shrinks (hw.step _)).entry host e he
    rw [hweak.sequenceNumber]
    exact entries_rrep h0 hw hv hm hg he'

end

/-! ## What a daemon passes on -/

section
variable {ok : MacAddr → UInt32 → Prop} {n : Node} {env : RxEnv} {msg : DessertMsg} (L : Libdessert)

theorem PassedOn.vouched (hm : msg.Vouched ok) {s : Sent} (h : PassedOn L n env msg s) : s.Vouched ok := by
  cases h with
  | hello hello => exact hm.congr (DessertMsg.getRreq_setHello _ _) (DessertMsg.getRrep_setHello _ _) rfl rfl
  | rerr rerr => exact hm.congr (DessertMsg.getRreq_setRerr _ _) (DessertMsg.getRrep_setRerr _ _) rfl rfl
  | broadcast => exact hm.congr rfl rfl rfl rfl
  | data hroute => exact hm.congr rfl rfl rfl rfl
  | unroutable hs => exact (@rerrUnroutable_plain L env.iface _ env msg.l25Dhost s hs).free.vouched
  | sys m => trivial

theorem callback_passes (hm : msg.Vouched ok) {cb : MeshCb} (hq : cb ≠ .handleRreq) (hp : cb ≠ .handleRrep) :
    (n.callback L cb env msg).1.series = n.series ∧ (n.callback L cb env msg).1.seqNumGlobal = n.seqNumGlobal ∧
      ∀ s ∈ (n.callback L cb env msg).2.1, s.Vouched ok := by
  have hsent : ∀ s ∈ (n.callback L cb env msg).2.1, s.Vouched ok :=
    fun s hs => (callback_passedOn L hq hp s hs).vouched L hm
  cases cb with
  | handleRreq => exact absurd rfl hq
  | handleRrep => exact absurd rfl hp
  | dropErrors =>
    obtain ⟨nt, st, heq⟩ := dropErrors_eq n env msg
    exact ⟨by simp [callback, heq], by simp [callback, heq], hsent⟩
  | handleHello =>
    obtain ⟨nt, st, heq⟩ := handleHello_eq n env msg
    exact ⟨by simp [callback, heq], by simp [callback, heq], hsent⟩
  | handleRerr =>
    obtain ⟨rt, heq⟩ := handleRerr_eq n env msg
    exact ⟨by simp [callback, heq], by simp [callback, heq], hsent⟩
  | forwardBroadcast =>
    obtain ⟨ds, heq⟩ := forwardBroadcast_eq n env msg
    exact ⟨by simp [callback, heq], by simp [callback, heq], hsent⟩
  | forwardMulticast => simp [callback, aodvForwardMulticast]
  | forward =>
    obtain ⟨ds, rt, rerrLog, heq⟩ := forward_eq L n env msg
    exact ⟨by simp [callback, heq], by simp [callback, heq], hsent⟩
  | localUnicast =>
    obtain ⟨ds, heq⟩ := localUnicast_eq n env msg
    exact ⟨by simp [callback, heq], by simp [callback, heq], hsent⟩

end

/-! ## RREPs -/

section
variable {ok : MacAddr → UInt32 → Prop} {n : Node} {env : RxEnv} {msg : DessertMsg}

theorem sendPackets_number (n : Node) (host nextHop : MacAddr) (iface : Meshif) :
    (n.aodvSendPacketsFromBuffer host nextHop iface).1.seqNumGlobal = n.seqNumGlobal := by
  obtain ⟨series, st, pb, dataSeqGlobal, heq⟩ := sendPackets_work n host nextHop iface
  rw [heq]

theorem handleRrep_vouched (hst : n.Stored) (hv : n.Vouched ok) (hm : msg.Vouched ok) :
    (n.aodvHandleRrep env msg).1.SeriesAll (DessertMsg.Asks ok) ∧
      (n.aodvHandleRrep env msg).1.seqNumGlobal = n.seqNumGlobal ∧
      ∀ s ∈ (n.aodvHandleRrep env msg).2.1, s.Vouched ok := by
  unfold aodvHandleRrep
  split
  · exact ⟨hv.series, rfl, by simp⟩
  · rename_i rrep _
    split
    · exact ⟨hv.series, rfl, by simp⟩
    · have hst' : (n.captRrep (n.countHop env msg).l25Shost (n.countHop env msg).l2Shost env.iface
          rrep.destinationSequenceNumber (n.countHop env msg).u16 (n.countHop env msg).u8 env.now env.now).1.Stored :=
        captRrep_stored hst _ _ _ _ _ _ _ _
      have ha : (n.captRrep (n.countHop env msg).l25Shost (n.countHop env msg).l2Shost env.iface
          rrep.destinationSequenceNumber (n.countHop env msg).u16 (n.countHop env msg).u8 env.now
          env.now).1.SeriesAll (DessertMsg.Asks ok) := hv.series
      simp only
      split
      · exact ⟨ha, rfl, by simp⟩
      · split
        · obtain ⟨-, hdata⟩ := sendPackets_stored hst' (n.countHop env msg).l25Shost (n.countHop env msg).l2Shost
            env.iface
          exact ⟨ha.sendPackets _ _ _, sendPackets_number _ _ _ _, fun s hs => (hdata s hs).free.vouched⟩
        · split
          · rename_i n' hn
            obtain rfl := (Prod.mk.inj hn).1
            exact ⟨ha, rfl, by simp⟩
          · rename_i n' nextHop outputIface hn
            obtain rfl := (Prod.mk.inj hn).1
            refine ⟨ha, rfl, fun s hs => ?_⟩
            rw [List.mem_singleton.mp hs]
            exact hm.congr rfl rfl rfl rfl

/-! ## RREQs -/

/-- The number of the destination before the rule of RFC 6.6.1 is applied. -/
def ownNumber (n : Node) (result : CaptRreqResult) : UInt32 :=
  if result = .metricHit then n.seqNumGlobal + 1 else n.seqNumGlobal

theorem createRrep_vouched {host : MacAddr} {number : UInt32} (hk : ok host number) (source nextHop : MacAddr)
    (flags hopCount : UInt8) (metric : Metric) :
    (createRrep host source nextHop number flags hopCount metric).Vouched ok where
  originator := fun _ hr => by cases hr
  asks := fun _ hr => by cases hr
  answers := fun rrep hr => by
    obtain rfl := Option.some.inj hr
    exact hk

theorem rrepForMe_unraised {rreq : AodvMsgRreq} {result : CaptRreqResult}
    (hno : hfCompU32 rreq.destinationSequenceNumber (n.ownNumber result) ≤ 0) :
    n.rrepForMe env msg rreq result = ({ n with seqNumGlobal := n.ownNumber result },
      [.mesh (createRrep n.l25Defsrc msg.l25Shost msg.l2Shost (n.ownNumber result) 0 0 n.cfg.metricStartvalue)
        (some env.iface)]) := by
  have hd : decide (hfCompU32 rreq.destinationSequenceNumber (n.ownNumber result) > 0) = false :=
    decide_eq_false (Int.not_lt.mpr hno)
  unfold ownNumber at hd
  simp only [rrepForMe, ownNumber, hd, Bool.and_false, Bool.false_eq_true, if_false]

theorem rrepOrRebroadcast_vouched (hv : n.Vouched ok) (hm : msg.Vouched ok) (rreq : AodvMsgRreq) :
    ∀ s ∈ n.rrepOrRebroadcast env msg rreq, s.Vouched ok := by
  unfold rrepOrRebroadcast
  split
  · rename_i number hl
    intro s hs
    rw [List.mem_singleton.mp hs]
    have hk : ok msg.l25Dhost number := by
      have hnum : aodvDbRtGetDestinationSequenceNumber n.rt msg.l25Dhost = some number := by
        unfold localRepair at hl
        split at hl
        · cases hl
        · rename_i number' hn
          split at hl
          · cases hl
          · split at hl
            · cases hl
            · rw [hn, hl]
      obtain ⟨e, he, rfl⟩ := Option.map_eq_some_iff.mp hnum
      exact hv.entries msg.l25Dhost e (Option.filter_eq_some_iff.mp he).1
    exact createRrep_vouched hk _ _ _ _ _
  · split
    · split
      · simp
      · intro s hs
        rw [List.mem_singleton.mp hs]
        exact hm
    · split
      · intro s hs
        rw [List.mem_singleton.mp hs]
        exact hm
      · simp

theorem rreqAsRrep_vouched (hst : n.Stored) (ha : n.SeriesAll (DessertMsg.Asks ok)) :
    (n.rreqAsRrep env msg).1.SeriesAll (DessertMsg.Asks ok) ∧
      (n.rreqAsRrep env msg).1.seqNumGlobal = n.seqNumGlobal ∧
      ∀ s ∈ (n.rreqAsRrep env msg).2, s.Vouched ok := by
  obtain ⟨-, hdata⟩ := rreqAsRrep_stored hst env msg
  have ha' : (n.captRrep msg.l25Shost msg.l2Shost env.iface 0 msg.u16 msg.u8 env.now env.now).1.SeriesAll
      (DessertMsg.Asks ok) := ha
  refine ⟨?_, ?_, fun s hs => (hdata s hs).free.vouched⟩
  · simp only [rreqAsRrep]
    split
    · exact ha'.sendPackets _ _ _
    · exact ha'
  · simp only [rreqAsRrep]
    split
    · exact sendPackets_number _ _ _ _
    · rfl

variable (h0 : ∀ host, ok host 0) (hw : n.rt.WF) (hst : n.Stored) (hv : n.Vouched ok) (hm : msg.Vouched ok)
include h0 hw hst hv hm

theorem handleRreq_passes (hd : env.lflags.l25Dst = false) :
    (n.aodvHandleRreq env msg).1.SeriesAll (DessertMsg.Asks ok) ∧
      (n.aodvHandleRreq env msg).1.seqNumGlobal = n.seqNumGlobal ∧
      ∀ s ∈ (n.aodvHandleRreq env msg).2.1, s.Vouched ok := by
  cases hr : msg.getRreq with
  | none => simpa [aodvHandleRreq, hr] using hv.series
  | some rreq =>
    by_cases ho : n.judgeRreq env msg rreq = .old
    · rw [handleRreq_old n env hr ho]
      exact ⟨hv.series, rfl, by simp⟩
    · have hrt := (handleRreq_rt n env hr).1
      obtain ⟨buffered, hdata, hsent⟩ := handleRreq_passed hst hd hr ho
      rw [hsent]
      have hst' := captRreq_stored hst msg.l25Dhost msg.l25Shost msg.l2Shost env.iface
        rreq.originatorSequenceNumber (n.countHop env msg).u16 (n.countHop env msg).u8 env.now env.now
      have ha' : (n.captRreq msg.l25Dhost msg.l25Shost msg.l2Shost env.iface rreq.originatorSequenceNumber
          (n.countHop env msg).u16 (n.countHop env msg).u8 env.now env.now).1.SeriesAll (DessertMsg.Asks ok) :=
      hv.series
      obtain ⟨ha, hnum, -⟩ := @rreqAsRrep_vouched ok _ env (n.countHop env msg) hst' ha'
      have hnode : (n.aodvHandleRreq env msg).1 = ((n.captRreq msg.l25Dhost msg.l25Shost msg.l2Shost env.iface
          rreq.originatorSequenceNumber (n.countHop env msg).u16 (n.countHop env msg).u8 env.now env.now).1.rreqAsRrep
          env (n.countHop env msg)).1 := by
        rw [handleRreq_new n env hr ho]
        simp only [acceptRreq, hd, Bool.false_eq_true, if_false]
      have hv' : (n.aodvHandleRreq env msg).1.Vouched ok := by
        refine ⟨fun host e he => ?_, hnode ▸ ha⟩
        rw [hrt] at he
        exact entries_rreq h0 hw hv hm hr he
      refine ⟨hv'.series, by rw [hnode]; exact hnum, fun s hs => ?_⟩
      rcases List.mem_append.mp hs with hs | hs
      · exact (hdata s hs).free.vouched
      · have hm' : (n.countHop env msg).Vouched ok := hm.congr rfl rfl rfl rfl
        exact rrepOrRebroadcast_vouched hv' hm' rreq s hs

omit h0 hw hm in
theorem handleRreq_answers (hd : env.lflags.l25Dst = true) {rreq : AodvMsgRreq} (hr : msg.getRreq = some rreq)
    (hno : hfCompU32 rreq.destinationSequenceNumber (n.ownNumber (n.captResult env msg rreq)) ≤ 0)
    (hown : ok n.l25Defsrc (n.ownNumber (n.captResult env msg rreq))) :
    (n.aodvHandleRreq env msg).1.SeriesAll (DessertMsg.Asks ok) ∧
      (n.aodvHandleRreq env msg).1.seqNumGlobal = n.ownNumber (n.captResult env msg rreq) ∧
      ∀ s ∈ (n.aodvHandleRreq env msg).2.1, s.Vouched ok := by
  rw [captRreq_result] at hno hown ⊢
  by_cases ho : n.judgeRreq env msg rreq = .old
  · rw [handleRreq_old n env hr ho, ho]
    exact ⟨hv.series, rfl, by simp⟩
  · have hst' := captRreq_stored hst msg.l25Dhost msg.l25Shost msg.l2Shost env.iface
      rreq.originatorSequenceNumber (n.countHop env msg).u16 (n.countHop env msg).u8 env.now env.now
    have ha' : (n.captRreq msg.l25Dhost msg.l25Shost msg.l2Shost env.iface rreq.originatorSequenceNumber
        (n.countHop env msg).u16 (n.countHop env msg).u8 env.now env.now).1.SeriesAll (DessertMsg.Asks ok) :=
      hv.series
    obtain ⟨ha, hnum, hsent⟩ := @rreqAsRrep_vouched ok _ env (n.countHop env msg) hst' ha'
    have hl := (rreqAsRrep_frame env (n.captRreq msg.l25Dhost msg.l25Shost msg.l2Shost env.iface
      rreq.originatorSequenceNumber (n.countHop env msg).u16 (n.countHop env msg).u8 env.now env.now).1
      (n.countHop env msg)).l25Defsrc
    rw [handleRreq_new n env hr ho]
    simp only [acceptRreq, hd, if_true]
    generalize (n.captRreq msg.l25Dhost msg.l25Shost msg.l2Shost env.iface rreq.originatorSequenceNumber
      (n.countHop env msg).u16 (n.countHop env msg).u8 env.now env.now).1.rreqAsRrep env (n.countHop env msg) = r
      at ha hnum hsent hl ⊢
    have hown' : r.1.ownNumber (n.judgeRreq env msg rreq) = n.ownNumber (n.judgeRreq env msg rreq) := by
      unfold ownNumber
      rw [show r.1.seqNumGlobal = n.seqNumGlobal from hnum]
    rw [rrepForMe_unraised (hown' ▸ hno), hown']
    refine ⟨ha, rfl, fun s hs => ?_⟩
    rcases List.mem_append.mp hs with hs | hs
    · exact hsent s hs
    · rw [List.mem_singleton.mp hs]
      apply createRrep_vouched
      rw [show r.1.l25Defsrc = n.l25Defsrc from hl]
      exact hown

end

/-! ## One event -/

section
variable (L : Libdessert)

/-- How often a daemon increments its counter: for each RREQ it originates, and for a RREQ it answers as
destination because the metric was hit. -/
def increments (n : Node) : NodeEvent → Nat
  | .mesh .handleRreq env msg =>
    if env.lflags.l25Dst && msg.getRreq.any fun rreq => decide (n.captResult env msg rreq = .metricHit) then 1 else 0
  | .mesh _ _ _ => 0
  | ev => (n.handle L ev).2.countP Sent.isRreq

/-- The rule of RFC 6.6.1 sets the counter of the destination to the number in the RREQ. -/
def raises (n : Node) : NodeEvent → Bool
  | .mesh .handleRreq env msg =>
    env.lflags.l25Dst && msg.getRreq.any fun rreq =>
      decide (n.captResult env msg rreq ≠ .old) && !rreq.flagU &&
        decide (hfCompU32 rreq.destinationSequenceNumber (n.ownNumber (n.captResult env msg rreq)) > 0)
  | _ => false

variable {L} {n : Node}

theorem raises_eq_false {ev : NodeEvent} (h : ∀ env msg rreq, ev = .mesh .handleRreq env msg →
    env.lflags.l25Dst = true → msg.getRreq = some rreq →
      hfCompU32 rreq.destinationSequenceNumber (n.ownNumber (n.captResult env msg rreq)) ≤ 0) :
    n.raises ev = false := by
  unfold raises
  split
  · rename_i env msg
    cases hd : env.lflags.l25Dst with
    | false => rfl
    | true =>
      cases hr : msg.getRreq with
      | none => rfl
      | some rreq => simp [Int.not_lt.mpr (h env msg rreq rfl hd hr)]
  · rfl

theorem ownNumber_eq {env : RxEnv} {msg : DessertMsg} (hd : env.lflags.l25Dst = true) {rreq : AodvMsgRreq}
    (hr : msg.getRreq = some rreq) : n.ownNumber (n.captResult env msg rreq) =
      n.seqNumGlobal + UInt32.ofNat (n.increments L (.mesh .handleRreq env msg)) := by
  simp only [ownNumber, increments, hd, hr, Bool.true_and, Option.any_some, decide_eq_true_eq]
  split
  · rfl
  · simp

theorem increments_passed {env : RxEnv} {msg : DessertMsg} (hd : env.lflags.l25Dst = false) :
    n.increments L (.mesh .handleRreq env msg) = 0 := by
  simp [increments, hd]

variable {ok : MacAddr → UInt32 → Prop} (h0 : ∀ host, ok host 0) (hw : n.rt.WF) (hst : n.Stored)
  (hv : n.Vouched ok)
include h0 hw hst hv

/-- A daemon that knows and receives only numbers that are vouched for keeps and sends only such
numbers, and its counter is where its own increments have brought it. -/
theorem step_vouched (ev : NodeEvent)
    (hmsg : ∀ cb env msg, ev = .mesh cb env msg → msg.Vouched ok)
    (hno : ∀ env msg rreq, ev = .mesh .handleRreq env msg → env.lflags.l25Dst = true → msg.getRreq = some rreq →
      hfCompU32 rreq.destinationSequenceNumber (n.ownNumber (n.captResult env msg rreq)) ≤ 0)
    (hown : ∀ j ≤ n.increments L ev, ok n.l25Defsrc (n.seqNumGlobal + UInt32.ofNat j)) :
    (n.step L ev).Vouched ok ∧
      (n.step L ev).seqNumGlobal = n.seqNumGlobal + UInt32.ofNat (n.increments L ev) ∧
      ∀ s ∈ (n.handle L ev).2, s.Vouched ok := by
  by_cases hev : ∀ cb env msg, ev ≠ .mesh cb env msg
  · have hacc := handle_accounts h0 hst hv hw L hev
    have hinc : n.increments L ev = (n.handle L ev).2.countP Sent.isRreq := by
      cases ev with
      | mesh cb env msg => exact absurd rfl (hev cb env msg)
      | _ => rfl
    refine ⟨⟨fun host e he => entries_quiet hw hv (step_own_quiet hev).rt he, hacc.asks⟩, ?_, fun s hs => ?_⟩
    · rw [hinc]
      exact hacc.counter
    · rcases hacc.sent s hs with hnum | hfree
      · exact hnum.vouched (hinc ▸ hown)
      · exact hfree.vouched
  · simp only [ne_eq, not_forall, not_not] at hev
    obtain ⟨cb, env, msg, rfl⟩ := hev
    have hm := hmsg cb env msg rfl
    suffices h : (n.step L (.mesh cb env msg)).SeriesAll (DessertMsg.Asks ok) ∧
        (n.step L (.mesh cb env msg)).seqNumGlobal =
          n.seqNumGlobal + UInt32.ofNat (n.increments L (.mesh cb env msg)) ∧
        ∀ s ∈ (n.handle L (.mesh cb env msg)).2, s.Vouched ok from
      ⟨⟨fun host e he => entries_callback h0 hw hv hm L cb he, h.1⟩, h.2⟩
    by_cases hq : cb = .handleRreq
    · subst hq
      cases hd : env.lflags.l25Dst with
      | false =>
        obtain ⟨hs, hn, hsent⟩ := handleRreq_passes h0 hw hst hv hm hd
        rw [increments_passed hd]
        exact ⟨hs, hn.trans (by simp), hsent⟩
      | true =>
        cases hr : msg.getRreq with
        | none => simpa [step, handle, callback, aodvHandleRreq, increments, hr] using hv.series
        | some rreq =>
          have heq := @ownNumber_eq L n env msg hd rreq hr
          rw [← heq]
          refine handleRreq_answers hst hv hd hr (hno env msg rreq rfl hd hr) ?_
          rw [heq]
          exact hown _ (Nat.le_refl _)
    · by_cases hp : cb = .handleRrep
      · subst hp
        obtain ⟨hs, hn, hsent⟩ := @handleRrep_vouched ok n env msg hst hv hm
        exact ⟨hs, hn.trans (by simp [increments]), hsent⟩
      · obtain ⟨hs, hn, hsent⟩ := @callback_passes ok n env msg L hm cb hq hp
        have hinc : n.increments L (.mesh cb env msg) = 0 := by
          cases cb with
          | handleRreq => exact absurd rfl hq
          | _ => rfl
        rw [hinc]
        exact ⟨hv.series.congr hs, hn.trans (by simp), hsent⟩

end

end Node

end DesAodv
