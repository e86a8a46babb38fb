import DesAodv.PacketQueues
import DesAodv.SeriesOwnership
import DesAodv.CaptureSteps

/-!
# Packets that wait for a route

A packet waits while there is no route to its destination. Whatever makes a
route valid sends the packets that wait for it and stops the series that asks
for it, except a RREP that is passed on to another node.
-/

namespace DesAodv

namespace Node

theorem routeTo_ne_none {n : Node} {host : MacAddr} :
    n.routeTo host ≠ none ↔ ∃ e, n.rt.find host = some e ∧ e.valid = true :=
  Option.isSome_iff_ne_none.symm.trans routeTo_isSome

/-! ## Buffer and series -/

/-- The queues and the series between two calls. -/
structure Tidy (n : Node) : Prop where
  pb : n.pb.WF
  series : n.Owned []

theorem init_tidy (cfg : Config) (l25Defsrc : MacAddr) (meshiflist : List Meshif) :
    (aodvDbInit cfg l25Defsrc meshiflist).Tidy :=
  ⟨PacketBuffer.init_wf, start_owned (aodvDbInit cfg l25Defsrc meshiflist)⟩

section
variable {n n' : Node} (h : n.Tidy)
include h

theorem Tidy.congr (hpb : n'.pb = n.pb) (hs : n'.series = n.series)
    (hst : (repeatsOf n'.st).Perm (repeatsOf n.st)) : n'.Tidy := by
  refine ⟨?_, h.series.congr hs hst⟩
  rw [hpb]
  exact h.pb

theorem Tidy.sendRreq (host : MacAddr) (now : Timeval) :
    (n.aodvSendRreq host now).1.Tidy ∧ (n.aodvSendRreq host now).1.pb = n.pb := by
  have hown := h.series.sendRreq host now
  obtain ⟨series, st, rreqLog, seqNumGlobal, heq⟩ := sendRreq_work n host now
  rw [heq] at hown ⊢
  exact ⟨⟨h.pb, hown⟩, rfl⟩

theorem Tidy.sendRreqs (hosts : List MacAddr) (now : Timeval) :
    (n.sendRreqs hosts now).1.Tidy ∧ (n.sendRreqs hosts now).1.pb = n.pb := by
  have hfold : ∀ acc : Node × List Sent, acc.1.Tidy → acc.1.pb = n.pb →
      let n' := (hosts.foldl (fun acc host =>
        ((acc.1.aodvSendRreq host now).1, acc.2 ++ (acc.1.aodvSendRreq host now).2)) acc).1
      n'.Tidy ∧ n'.pb = n.pb := by
    induction hosts with
    | nil => exact fun _ ha hpb => ⟨ha, hpb⟩
    | cons host hosts ih =>
      intro acc ha hpb
      obtain ⟨ha', hpb'⟩ := ha.sendRreq host now
      exact ih ((acc.1.aodvSendRreq host now).1, acc.2 ++ (acc.1.aodvSendRreq host now).2) ha' (hpb'.trans hpb)
  exact hfold (n, []) h rfl

/-! ## Flushing -/

theorem Tidy.sendBuffered (host nextHop : MacAddr) (iface : Meshif) (sent : List Sent) :
    (sendBuffered host nextHop iface (n, sent)).1.Tidy ∧
      (∀ other, (Node.sendBuffered host nextHop iface (n, sent)).1.pb.queue other =
        if other = host then (n.pb.queue host).tail else n.pb.queue other) ∧
      (Node.sendBuffered host nextHop iface (n, sent)).1.series = n.series := by
  obtain ⟨hw, hq⟩ := h.pb.pop host
  have hcongr : ∀ {n' : Node}, n'.pb = (pbPopPacket n.pb host).1 → n'.series = n.series → n'.st = n.st →
      n'.Tidy ∧ (∀ other, n'.pb.queue other = if other = host then (n.pb.queue host).tail else n.pb.queue other) ∧
        n'.series = n.series := by
    intro n' hpb hs hst
    rw [← hpb] at hw hq
    exact ⟨⟨hw, h.series.congr hs (List.Perm.of_eq (by rw [hst]))⟩, hq, hs⟩
  unfold Node.sendBuffered
  simp only
  split
  · rename_i pb hp
    exact hcongr (by rw [hp]) rfl rfl
  · rename_i pb msg hp
    exact hcongr (by rw [hp]) rfl rfl

theorem Tidy.sendAll (host nextHop : MacAddr) (iface : Meshif) (packets : List DessertMsg) (sent : List Sent) :
    let n' := (packets.foldl (fun acc _ => Node.sendBuffered host nextHop iface acc) (n, sent)).1
    n'.Tidy ∧
      (∀ other, n'.pb.queue other =
        if other = host then (n.pb.queue host).drop packets.length else n.pb.queue other) ∧
      n'.series = n.series := by
  induction packets generalizing n sent with
  | nil =>
    refine ⟨h, fun other => ?_, rfl⟩
    by_cases ho : other = host
    · rw [if_pos ho, ho]
      rfl
    · rw [if_neg ho]
      rfl
  | cons p ps ih =>
    obtain ⟨ht, hq, hs⟩ := h.sendBuffered host nextHop iface sent
    obtain ⟨ht', hq', hs'⟩ := ih ht (Node.sendBuffered host nextHop iface (n, sent)).2
    refine ⟨ht', fun other => ?_, hs'.trans hs⟩
    refine (hq' other).trans ?_
    by_cases ho : other = host
    · rw [if_pos ho, if_pos ho, hq host, if_pos rfl, List.drop_tail]
      rfl
    · rw [if_neg ho, if_neg ho, hq other, if_neg ho]

theorem Tidy.deleteSeriesEther (host : MacAddr) :
    (n.aodvPipelineDeleteSeriesEther host).Tidy ∧ (n.aodvPipelineDeleteSeriesEther host).pb = n.pb ∧
      (n.aodvPipelineDeleteSeriesEther host).findSeriesUnlocked host = none := by
  have hpb : (n.aodvPipelineDeleteSeriesEther host).pb = n.pb := by
    obtain ⟨series, st, heq⟩ := deleteSeriesEther_eq n host
    rw [heq]
  have hown := h.series.deleteEther host
  refine ⟨⟨hpb ▸ h.pb, hown⟩, hpb, ?_⟩
  unfold aodvPipelineDeleteSeriesEther at hown ⊢
  split
  · assumption
  · rename_i p hp
    obtain ⟨hm, s, hs, hk⟩ := find_some hp
    obtain ⟨t, hl⟩ := (h.series.mem_list p).mp hm
    obtain rfl := Option.some.inj (hs.symm.trans hl.1)
    obtain hr | hsc := h.series.owned p s hl
    · cases hr
    · obtain ⟨-, hderef, -⟩ := h.series.delete_scheduled hl hsc
      simp only [hp] at hown
      -- another series to the same destination would have been there before
      rw [find_none_iff]
      intro q hq t ht hkt
      obtain ⟨t', hlt⟩ := (hown.mem_list q).mp hq
      obtain rfl := Option.some.inj (ht.symm.trans hlt.1)
      have hold := hderef q
      by_cases hqp : q = p
      · rw [if_pos hqp, ht] at hold
        cases hold
      · rw [if_neg hqp, ht] at hold
        exact hqp (h.series.keys q t p s ⟨hold.symm, hlt.2⟩ hl (hkt.trans hk.symm))

theorem Tidy.sendPackets (host nextHop : MacAddr) (iface : Meshif) :
    let n' := (n.aodvSendPacketsFromBuffer host nextHop iface).1
    n'.Tidy ∧ (∀ other, n'.pb.queue other = if other = host then [] else n.pb.queue other) ∧
      n'.findSeriesUnlocked host = none := by
  intro n'
  obtain ⟨ht, hpb, hf⟩ := h.deleteSeriesEther host
  obtain ⟨ht', hq', hs'⟩ := ht.sendAll host nextHop iface
    ((n.aodvPipelineDeleteSeriesEther host).pb.queue host) []
  refine ⟨ht', fun other => ?_, ?_⟩
  · refine (hq' other).trans ?_
    rw [List.drop_length, hpb]
  · refine Eq.trans ?_ hf
    unfold findSeriesUnlocked seriesDeref
    rw [show n'.series = _ from hs']

end

/-! ## Routes that become valid -/

theorem routes_grown {n n' : Node} (hg : Rt.Grows n.rt n'.rt) {host : MacAddr} (h : n'.routeTo host ≠ none) :
    n.routeTo host ≠ none := by
  obtain ⟨e, he, hv⟩ := routeTo_ne_none.mp h
  have hk : e.flags.nextHopUnknown = false := by
    simp only [RtEntry.valid, Bool.and_eq_true, Bool.not_eq_true'] at hv
    exact hv.1
  exact routeTo_ne_none.mpr ⟨e, hg.known he hk, hv⟩

section
variable {n n' : Node} (hw : n.rt.WF)
include hw

theorem routes_quiet (hq : n.rt.Quietly n'.rt) {host : MacAddr} (h : n'.routeTo host ≠ none) :
    n.routeTo host ≠ none := by
  obtain ⟨e', he', hv⟩ := routeTo_ne_none.mp h
  obtain ⟨e, he, hweak⟩ := (hq.shrinks hw).entry host e' he'
  exact routeTo_ne_none.mpr ⟨e, he, hweak.valid hv⟩

theorem captRreq_routes (destination originator prevHop : MacAddr) (iface : Meshif) (seq : UInt32) (metric : Metric)
    (hopCount : UInt8) (now : Timeval) :
    (n.captRreq destination originator prevHop iface seq metric hopCount now now).1.rt.WF ∧
      ∀ host, (n.captRreq destination originator prevHop iface seq metric hopCount now now).1.routeTo host ≠ none →
        n.routeTo host ≠ none := by
  obtain ⟨hwj, hg, hf⟩ := hw.judged destination originator now
  obtain ⟨hwc, hwr⟩ := hwj.captRreq hf prevHop iface seq metric hopCount
  have hj : ∀ host, ({ n with rt := (n.rt.judged destination originator now).1 } : Node).routeTo host ≠ none →
      n.routeTo host ≠ none := fun host h => routes_grown hg h
  have hrt : (n.captRreq destination originator prevHop iface seq metric hopCount now now).1.rt =
      if rreqResult n.cfg.metricType (n.rt.judged destination originator now).2 seq metric = .old then
        (n.rt.judged destination originator now).1
      else (n.rt.judged destination originator now).1.write (n.rt.judged destination originator now).2.ptr
        (RtEntry.captRreq prevHop iface seq metric hopCount) := by
    simp only [Node.captRreq, captRreq_eq]
  refine ⟨?_, fun host h => hj host ?_⟩
  · rw [hrt]
    split
    · exact hwj
    · exact hwc
  · obtain ⟨e, he, hv⟩ := routeTo_ne_none.mp h
    rw [hrt] at he
    apply routeTo_ne_none.mpr
    split at he
    · exact ⟨e, he, hv⟩
    · rw [hwr.find] at he
      split at he
      · rename_i hh
        obtain rfl := Option.some.inj he
        exact ⟨(n.rt.judged destination originator now).2, hh ▸ hf, hv⟩
      · exact ⟨e, he, hv⟩

theorem captRrep_routes (host nextHop : MacAddr) (iface : Meshif) (seq : UInt32) (metric : Metric) (hopCount : UInt8)
    (now : Timeval) {other : MacAddr}
    (h : (n.captRrep host nextHop iface seq metric hopCount now now).1.routeTo other ≠ none) :
    n.routeTo other ≠ none ∨
      other = host ∧ (n.captRrep host nextHop iface seq metric hopCount now now).2 = true := by
  obtain ⟨-, hg, hf⟩ := hw.findOrCreate host now
  obtain ⟨-, hwr⟩ := hw.rrep host nextHop iface seq metric hopCount now
  rw [captRrep_used]
  have hj : ∀ {k e}, (rtFindOrCreate n.rt host now now).1.find k = some e → e.valid = true → n.routeTo k ≠ none := by
    intro k e he hv
    exact @routes_grown n { n with rt := (rtFindOrCreate n.rt host now now).1 } hg k (routeTo_ne_none.mpr ⟨e, he, hv⟩)
  obtain ⟨e, he, hv⟩ := routeTo_ne_none.mp h
  have he' := (hwr.find other).symm.trans he
  split at he'
  · rename_i hh
    cases hu : rrepUsed (rtFindOrCreate n.rt host now now).2 seq with
    | true => exact .inr ⟨hh, rfl⟩
    | false =>
      rw [hu] at he'
      obtain rfl := Option.some.inj he'
      exact .inl (hh ▸ hj hf hv)
  · exact .inl (hj he' hv)

end

/-! ## What a call settles -/

/-- No packet begins to wait for a route that is there, and nothing waits any more for a route that becomes
valid. -/
structure Settled (n n' : Node) : Prop where
  queue : ∀ host, n'.pb.queue host ≠ [] → n.pb.queue host ≠ [] ∨ n'.routeTo host = none
  route : ∀ host, n.routeTo host = none → n'.routeTo host ≠ none →
    n'.pb.queue host = [] ∧ n'.findSeriesUnlocked host = none

def NoneWaits (n : Node) : Prop := ∀ host, n.pb.queue host ≠ [] → n.routeTo host = none

section
variable {n n' n'' : Node}

theorem NoneWaits.settled (h : n.NoneWaits) (hs : Settled n n') : n'.NoneWaits := by
  intro host hq
  apply Classical.byContradiction
  intro hroute
  rcases hs.queue host hq with hold | hnone
  · exact hq (hs.route host (h host hold) hroute).1
  · exact hroute hnone

/-- No route becomes valid, and no queue gets longer. -/
theorem Settled.quiet (hr : ∀ host, n'.routeTo host ≠ none → n.routeTo host ≠ none)
    (hq : ∀ host, n'.pb.queue host ≠ [] → n.pb.queue host ≠ []) : Settled n n' :=
  ⟨fun host h => .inl (hq host h), fun host hn h => absurd hn (hr host h)⟩

theorem Settled.after (hs : Settled n' n'') (hr : ∀ host, n'.routeTo host ≠ none → n.routeTo host ≠ none)
    (hpb : n'.pb = n.pb) : Settled n n'' := by
  refine ⟨fun host h => ?_, fun host hn h => ?_⟩
  · rw [← hpb]
    exact hs.queue host h
  · apply hs.route host _ h
    apply Classical.byContradiction
    intro hn'
    exact hr host hn' hn

theorem Settled.congr (hs : Settled n n') (hrt : n''.rt = n'.rt) (hpb : n''.pb = n'.pb)
    (hseries : n''.series = n'.series) : Settled n n'' := by
  have hroute : ∀ host, n''.routeTo host = n'.routeTo host := fun host => by rw [routeTo_eq, routeTo_eq, hrt]
  have hfind : ∀ host, n''.findSeriesUnlocked host = n'.findSeriesUnlocked host := fun host => by
    unfold findSeriesUnlocked seriesDeref
    rw [hseries]
  refine ⟨fun host h => ?_, fun host hn h => ?_⟩
  · rw [hroute]
    rw [hpb] at h
    exact hs.queue host h
  · rw [hroute] at h
    rw [hpb, hfind]
    exact hs.route host hn h

end

section
variable {n : Node} (hw : n.rt.WF) (h : n.Tidy)
include hw h

/-- A RREP, or a RREQ as RREP: where the route becomes valid, the buffer is flushed. -/
theorem captured_settled (host nextHop : MacAddr) (iface : Meshif) (seq : UInt32) (metric : Metric) (hopCount : UInt8)
    (now : Timeval) :
    let r := n.captRrep host nextHop iface seq metric hopCount now now
    (if r.2 then r.1.aodvSendPacketsFromBuffer host nextHop iface else (r.1, [])).1.Tidy ∧
      Settled n (if r.2 then r.1.aodvSendPacketsFromBuffer host nextHop iface else (r.1, [])).1 := by
  intro r
  have hroutes : ∀ other, r.1.routeTo other ≠ none → n.routeTo other ≠ none ∨ other = host ∧ r.2 = true :=
    fun other hr => captRrep_routes hw host nextHop iface seq metric hopCount now hr
  have ht : r.1.Tidy := h.congr rfl rfl (List.Perm.refl _)
  split
  · obtain ⟨ht', hq, hf⟩ := ht.sendPackets host nextHop iface
    have hrt := (sendPackets_frame r.1 host nextHop iface).rt
    refine ⟨ht', fun other hne => .inl ?_, fun other hn hr => ?_⟩
    · rw [hq other] at hne
      split at hne
      · exact absurd rfl hne
      · exact hne
    · rw [routeTo_eq, hrt, ← routeTo_eq] at hr
      rcases hroutes other hr with hold | ⟨rfl, -⟩
      · exact absurd hn hold
      · exact ⟨(hq other).trans (if_pos rfl), hf⟩
  · rename_i hu
    refine ⟨ht, Settled.quiet (fun other hr => ?_) fun _ hq => hq⟩
    rcases hroutes other hr with hold | ⟨-, hused⟩
    · exact hold
    · exact absurd hused hu

theorem acceptRreq_settled (env : RxEnv) (msg : DessertMsg) (rreq : AodvMsgRreq) (result : CaptRreqResult) :
    (n.acceptRreq env msg rreq result).1.Tidy ∧ Settled n (n.acceptRreq env msg rreq result).1 := by
  obtain ⟨ht, hs⟩ : (n.rreqAsRrep env msg).1.Tidy ∧ Settled n (n.rreqAsRrep env msg).1 :=
    captured_settled hw h msg.l25Shost msg.l2Shost env.iface 0 msg.u16 msg.u8 env.now
  simp only [acceptRreq]
  split
  · exact ⟨ht.congr rfl rfl (List.Perm.refl _), hs.congr rfl rfl rfl⟩
  · exact ⟨ht, hs⟩

theorem handleRreq_settled (env : RxEnv) (msg : DessertMsg) :
    (n.aodvHandleRreq env msg).1.Tidy ∧ Settled n (n.aodvHandleRreq env msg).1 := by
  cases hr : msg.getRreq with
  | none =>
    have hn : (n.aodvHandleRreq env msg).1 = n := by
      unfold aodvHandleRreq
      rw [hr]
    rw [hn]
    exact ⟨h, Settled.quiet (fun _ hr => hr) fun _ hq => hq⟩
  | some rreq =>
    by_cases ho : n.judgeRreq env msg rreq = .old
    · have hrt : n.rt.step (n.rreqOp env msg rreq) = (n.rt.judged msg.l25Dhost msg.l25Shost env.now).1 :=
        step_rreq_old ho
      obtain ⟨-, hg, -⟩ := hw.judged msg.l25Dhost msg.l25Shost env.now
      rw [handleRreq_old n env hr ho]
      refine ⟨h.congr rfl rfl (List.Perm.refl _), Settled.quiet (fun host hroute => ?_) fun _ hq => hq⟩
      exact routes_grown (hrt ▸ hg) hroute
    · rw [handleRreq_new n env hr ho]
      obtain ⟨hw', hroutes⟩ := captRreq_routes hw msg.l25Dhost msg.l25Shost msg.l2Shost env.iface
        rreq.originatorSequenceNumber (n.countHop env msg).u16 (n.countHop env msg).u8 env.now
      have ht : (n.captRreq msg.l25Dhost msg.l25Shost msg.l2Shost env.iface rreq.originatorSequenceNumber
          (n.countHop env msg).u16 (n.countHop env msg).u8 env.now env.now).1.Tidy :=
        h.congr rfl rfl (List.Perm.refl _)
      obtain ⟨ht', hs⟩ := acceptRreq_settled hw' ht env (n.countHop env msg) rreq (n.judgeRreq env msg rreq)
      exact ⟨ht', hs.after hroutes rfl⟩

end

/-! ## RREPs that are passed on -/

/-- A RREP with this number from `host` is used. -/
def usesRrep (n : Node) (host : MacAddr) (seq : UInt32) : Bool := (n.rt.find host).all fun e => rrepUsed e seq

/-- Packets wait for a route to `host`, or a series asks for one. -/
def awaits (n : Node) (host : MacAddr) : Bool :=
  !(n.pb.queue host).isEmpty || (n.findSeriesUnlocked host).isSome

/-- A RREP that is to be passed on is used for a route that is awaited here. -/
def passesOver (n : Node) : NodeEvent → Bool
  | .mesh .handleRrep env msg =>
    env.lflags.l2Dst && !env.lflags.l25Dst && (n.routeTo msg.l25Shost).isNone && n.awaits msg.l25Shost &&
      msg.getRrep.any fun rrep => n.usesRrep msg.l25Shost rrep.destinationSequenceNumber
  | _ => false

theorem usesRrep_eq (n : Node) (host : MacAddr) (seq : UInt32) (now : Timeval) :
    n.usesRrep host seq = rrepUsed (rtFindOrCreate n.rt host now now).2 seq := by
  unfold usesRrep
  cases hf : n.rt.find host with
  | some e =>
    rw [Rt.findOrCreate_found hf]
    rfl
  | none =>
    have hk : (rtFindOrCreate n.rt host now now).2.flags.nextHopUnknown = true := by
      simp only [rtFindOrCreate, hf, rtEntryCreate]
      rfl
    rw [rrepUsed, hk]
    rfl

theorem passed_settled {n n' : Node} (hw : n'.rt.WF) (hpb : n'.pb = n.pb) (hseries : n'.series = n.series)
    {host : MacAddr} (hroutes : ∀ other, n'.routeTo other ≠ none → n.routeTo other ≠ none ∨ other = host)
    (hno : n.routeTo host = none → n.awaits host = false) (originator : MacAddr) (now : Timeval) :
    Settled n (n'.getroute2dest originator now now aodvFlagsUnused).1 := by
  refine ⟨fun other hq => .inl (hpb ▸ hq), fun other hn hr => ?_⟩
  have hr' := routes_quiet hw (getroute2dest_quiet n' originator now false).rt hr
  rcases hroutes other hr' with hold | rfl
  · exact absurd hn hold
  · have ha := hno hn
    simp only [awaits, Bool.or_eq_false_iff, Bool.not_eq_false', List.isEmpty_iff, Option.isSome_eq_false_iff,
      Option.isNone_iff_eq_none] at ha
    refine ⟨Eq.trans (congrArg (fun pb => PacketBuffer.queue pb other) hpb) ha.1, Eq.trans ?_ ha.2⟩
    have hs : (n'.getroute2dest originator now now aodvFlagsUnused).1.series = n.series := hseries
    unfold findSeriesUnlocked seriesDeref
    rw [hs]

section
variable {n : Node} (hw : n.rt.WF) (h : n.Tidy)
include hw h

theorem handleRrep_settled (env : RxEnv) (msg : DessertMsg) :
    (n.aodvHandleRrep env msg).1.Tidy ∧
      (n.passesOver (.mesh .handleRrep env msg) = false → Settled n (n.aodvHandleRrep env msg).1) := by
  have same : (n.aodvHandleRrep env msg).1 = n → (n.aodvHandleRrep env msg).1.Tidy ∧
      (n.passesOver (.mesh .handleRrep env msg) = false → Settled n (n.aodvHandleRrep env msg).1) := by
    intro hn
    rw [hn]
    exact ⟨h, fun _ => Settled.quiet (fun _ hr => hr) fun _ hq => hq⟩
  cases hr : msg.getRrep with
  | none =>
    apply same
    unfold aodvHandleRrep
    rw [hr]
  | some rrep =>
    cases hd : env.lflags.l2Dst with
    | false =>
      apply same
      rw [handleRrep_drop n env hr hd]
    | true =>
      obtain ⟨ht, hs⟩ := captured_settled hw h msg.l25Shost msg.l2Shost env.iface rrep.destinationSequenceNumber
        (n.countHop env msg).u16 (n.countHop env msg).u8 env.now
      have hnode := handleRrep_node n env hr hd
      cases hu : (n.captRrep msg.l25Shost msg.l2Shost env.iface rrep.destinationSequenceNumber
          (n.countHop env msg).u16 (n.countHop env msg).u8 env.now env.now).2 with
      | false =>
        simp only [hu, Bool.false_eq_true, if_false] at hnode ht hs
        rw [hnode]
        exact ⟨ht, fun _ => hs⟩
      | true =>
        cases hl : env.lflags.l25Dst with
        | true =>
          simp only [hu, hl, if_true] at hnode ht hs
          rw [hnode]
          exact ⟨ht, fun _ => hs⟩
        | false =>
          simp only [hu, hl, Bool.false_eq_true, if_true, if_false] at hnode
          rw [hnode]
          refine ⟨h.congr rfl rfl (List.Perm.refl _), fun hp => ?_⟩
          have hwr : (n.captRrep msg.l25Shost msg.l2Shost env.iface rrep.destinationSequenceNumber
              (n.countHop env msg).u16 (n.countHop env msg).u8 env.now env.now).1.rt.WF :=
            (hw.rrep msg.l25Shost msg.l2Shost env.iface rrep.destinationSequenceNumber (n.countHop env msg).u16
              (n.countHop env msg).u8 env.now).1
          refine @passed_settled n _ hwr rfl rfl msg.l25Shost (fun other ho => ?_) (fun hn => ?_) msg.l25Dhost
            env.now
          · exact (captRrep_routes hw msg.l25Shost msg.l2Shost env.iface rrep.destinationSequenceNumber
              (n.countHop env msg).u16 (n.countHop env msg).u8 env.now ho).imp_right And.left
          · rw [captRrep_used, ← usesRrep_eq] at hu
            simpa [passesOver, hd, hl, hn, hr, hu] using hp

end

/-! ## The other calls -/

section
variable {n : Node} (h : n.Tidy)
include h

theorem dropErrors_tidy (env : RxEnv) (msg : DessertMsg) : (n.aodvDropErrors env msg).1.Tidy := by
  unfold aodvDropErrors
  split
  · exact h
  · split
    · exact h
    · split
      · exact h.congr rfl rfl (ntCleanup_repeats n.nt n.st env.now)
      · exact h

theorem handleHello_tidy (env : RxEnv) (msg : DessertMsg) : (n.aodvHandleHello env msg).1.Tidy := by
  unfold aodvHandleHello
  split
  · exact h
  · simp only
    split
    · exact h
    · split
      · exact h.congr rfl rfl (cap2Dneigh_repeats n.cfg n.nt n.st msg.l2Shost msg.u16 env.iface env.now env.now)
      · exact h

theorem cleanup_tidy (now : Timeval) :
    (n.aodvDbCleanup now).Tidy ∧ ∀ host, (n.aodvDbCleanup now).pb.queue host ≠ [] → n.pb.queue host ≠ [] := by
  obtain ⟨hw, hq⟩ := h.pb.cleanup now
  refine ⟨⟨hw, h.series.congr rfl (ntCleanup_repeats n.nt n.st now)⟩, fun host hne => ?_⟩
  have hne' : (pbCleanup n.pb now).queue host ≠ [] := hne
  rcases hq host with hnil | hsame
  · exact absurd hnil hne'
  · rwa [← hsame]

theorem sys2rp_settled (hw : n.rt.WF) (msg : DessertMsg) (now : Timeval) :
    (n.aodvSys2rp msg now).1.Tidy ∧ Settled n (n.aodvSys2rp msg now).1 := by
  have hroutes := fun host => @routes_quiet n _ hw (sys2rp_quiet n msg now).rt host
  unfold aodvSys2rp at hroutes ⊢
  simp only at hroutes ⊢
  split at hroutes
  · rename_i hb
    rw [if_pos hb]
    exact ⟨h.congr rfl rfl (List.Perm.refl _), Settled.quiet hroutes fun _ hq => hq⟩
  · rename_i hb
    rw [if_neg hb]
    split at hroutes
    · rename_i hm
      rw [if_pos hm]
      exact ⟨h, Settled.quiet hroutes fun _ hq => hq⟩
    · rename_i hm
      rw [if_neg hm]
      cases hr : n.routeTo msg.l25Dhost with
      | none =>
        rw [getroute2dest_none hr] at hroutes ⊢
        simp only at hroutes ⊢
        obtain ⟨hwp, hqp⟩ := h.pb.push msg.l25Dhost { msg with ttl := 255, u8 := 0 } now now
        generalize pbPushPacket n.pb msg.l25Dhost { msg with ttl := 255, u8 := 0 } now now = pb at hroutes hwp hqp ⊢
        have ht : ({ n with pb } : Node).Tidy := ⟨hwp, h.series.congr rfl (List.Perm.refl _)⟩
        obtain ⟨ht', hpb⟩ := ht.sendRreq msg.l25Dhost now
        have hrt := (sendRreq_frame { n with pb } msg.l25Dhost now).rt
        refine ⟨ht', fun host hne => ?_, fun host hn hr' => absurd hn (hroutes host hr')⟩
        by_cases hh : host = msg.l25Dhost
        · refine .inr ?_
          rw [hh, routeTo_eq, hrt, ← routeTo_eq]
          exact hr
        · refine .inl ?_
          rw [hpb] at hne
          rcases hqp host hh with hnil | hsame
          · exact absurd hnil hne
          · rw [← hsame]
            exact hne
      | some route =>
        have hsnd := (getroute2dest_snd n msg.l25Dhost now now aodvFlagsRouteLocalUsed).trans hr
        have hpair : n.getroute2dest msg.l25Dhost now now aodvFlagsRouteLocalUsed =
            ((n.getroute2dest msg.l25Dhost now now aodvFlagsRouteLocalUsed).1, some route) := Prod.ext rfl hsnd
        rw [hpair] at hroutes ⊢
        exact ⟨h.congr rfl rfl (List.Perm.refl _), Settled.quiet hroutes fun _ hq => hq⟩

variable (L : Libdessert)

theorem scexecute_tidy (now : Timeval) (avgRssi : Int8) :
    (n.aodvPeriodicScexecute L now avgRssi).1.Tidy ∧ (n.aodvPeriodicScexecute L now avgRssi).1.pb = n.pb := by
  unfold aodvPeriodicScexecute
  cases hpop : aodvDbScPopschedule n.st now with
  | none => exact ⟨h, rfl⟩
  | some popped =>
    obtain ⟨sc, st⟩ := popped
    have other : sc.scheduleId ≠ .repeatRreq → (repeatsOf st).Perm (repeatsOf n.st) :=
      fun ht => List.Perm.of_eq (pop_other_repeats hpop ht)
    simp only
    split
    · rename_i hid
      obtain ⟨p, s, hparam, -, -, hown⟩ := h.series.pop hpop hid
      have hown' := hown.sendReal now
      obtain ⟨series, st', rreqLog, seqNumGlobal, heq⟩ := sendRreqReal_work ({ n with st } : Node) p now
      rw [heq] at hown'
      simp only [hparam, aodvSendRreqRepeat, heq]
      exact ⟨⟨h.pb, hown'⟩, trivial⟩
    · rename_i hid
      obtain ⟨rt, rerrLog, hung, heq⟩ := scSendOutRerr_eq L ({ n with st } : Node) sc.etherAddr now
      rw [heq]
      exact ⟨h.congr rfl rfl (other (by rw [hid]; decide)), rfl⟩
    · rename_i hid
      have ht : ({ n with st, rt := (aodvDbRtGetWarnEndpointsFromNeighborAndSetWarn n.rt sc.etherAddr).1 } :
          Node).Tidy := h.congr rfl rfl (other (by rw [hid]; decide))
      exact ht.sendRreqs ((aodvDbRtGetWarnEndpointsFromNeighborAndSetWarn n.rt sc.etherAddr).2.map AodvMacSeq.host) now
    · rename_i hid
      have ho := other (by rw [hid]; decide)
      split
      · split
        · refine ⟨h.congr rfl rfl ?_, rfl⟩
          exact (add_other_repeats st now sc.etherAddr .null (by decide)).trans ho
        · exact ⟨h.congr rfl rfl ho, rfl⟩
      · exact ⟨h.congr rfl rfl ho, rfl⟩

end

/-! ## One event -/

section
variable (L : Libdessert) {n : Node} (hw : n.rt.WF) (h : n.Tidy)
include hw h

theorem step_settled (ev : NodeEvent) :
    (n.step L ev).Tidy ∧ (n.passesOver ev = false → Settled n (n.step L ev)) := by
  have quiet : ∀ {n' : Node}, Quiet n n' → n'.Tidy → (∀ host, n'.pb.queue host ≠ [] → n.pb.queue host ≠ []) →
      n'.Tidy ∧ (n.passesOver ev = false → Settled n n') :=
    fun hq ht hpb => ⟨ht, fun _ => Settled.quiet (fun _ hr => routes_quiet hw hq.rt hr) hpb⟩
  have same : ∀ {n' : Node}, Quiet n n' → n'.pb = n.pb → n'.series = n.series → n'.st = n.st →
      n'.Tidy ∧ (n.passesOver ev = false → Settled n n') :=
    fun hq hpb hs hst => quiet hq (h.congr hpb hs (List.Perm.of_eq (by rw [hst]))) fun _ hne => hpb ▸ hne
  cases ev with
  | mesh cb env msg =>
    cases cb with
    | dropErrors =>
      obtain ⟨nt, st, heq⟩ := dropErrors_eq n env msg
      have hpb : (n.aodvDropErrors env msg).1.pb = n.pb := by rw [heq]
      exact quiet (dropErrors_frame n env msg).quiet (dropErrors_tidy h env msg) fun _ hne => hpb ▸ hne
    | handleHello =>
      obtain ⟨nt, st, heq⟩ := handleHello_eq n env msg
      have hpb : (n.aodvHandleHello env msg).1.pb = n.pb := by rw [heq]
      exact quiet (handleHello_frame n env msg).quiet (handleHello_tidy h env msg) fun _ hne => hpb ▸ hne
    | handleRreq =>
      obtain ⟨ht, hs⟩ := handleRreq_settled hw h env msg
      exact ⟨ht, fun _ => hs⟩
    | handleRerr =>
      obtain ⟨rt, heq⟩ := handleRerr_eq n env msg
      apply same (handleRerr_quiet n env msg)
      · rw [heq]
      · rw [heq]
      · rw [heq]
    | handleRrep => exact handleRrep_settled hw h env msg
    | forwardBroadcast =>
      obtain ⟨ds, heq⟩ := forwardBroadcast_eq n env msg
      apply same (forwardBroadcast_frame n env msg).quiet
      · rw [heq]
      · rw [heq]
      · rw [heq]
    | forwardMulticast => exact same (Frame.refl n).quiet rfl rfl rfl
    | forward =>
      obtain ⟨ds, rt, rerrLog, heq⟩ := forward_eq L n env msg
      apply same (forward_quiet L n env msg)
      · rw [heq]
      · rw [heq]
      · rw [heq]
    | localUnicast =>
      obtain ⟨ds, heq⟩ := localUnicast_eq n env msg
      apply same (localUnicast_frame n env msg).quiet
      · rw [heq]
      · rw [heq]
      · rw [heq]
  | sysRx l25Shost l25Dhost payload now =>
    obtain ⟨ht, hs⟩ := sys2rp_settled h hw (sysMsg l25Shost l25Dhost payload) now
    exact ⟨ht, fun _ => hs⟩
  | cliSendRreq host now =>
    obtain ⟨ht, hpb⟩ := h.sendRreq host now
    exact quiet (sendRreq_frame n host now).quiet ht fun _ hne => hpb ▸ hne
  | routingReset => exact same (quiet_op n (.routingReset) rfl rfl rfl rfl rfl) rfl rfl rfl
  | neighborReset =>
    refine quiet (Frame.quiet ⟨rfl, rfl, rfl, rfl⟩) (h.congr rfl rfl ?_) fun _ hne => hne
    exact List.Perm.of_eq (neighborReset_repeats n.nt n.st n.cfg.helloInterval)
  | sendHello =>
    simp only [step, handle]
    split
    · exact same (Frame.refl n).quiet rfl rfl rfl
    · exact same (Frame.quiet ⟨rfl, rfl, rfl, rfl⟩) rfl rfl rfl
  | sendRreq now =>
    simp only [step, handle]
    split
    · exact same (Frame.refl n).quiet rfl rfl rfl
    · obtain ⟨ht, hpb⟩ := h.sendRreqs (aodvDbRtGetActiveRoutes n.rt) now
      exact quiet (sendRreqs_frame n _ now).quiet ht fun _ hne => hpb ▸ hne
  | cleanupDatabase now =>
    simp only [step, handle]
    split
    · exact same (Frame.refl n).quiet rfl rfl rfl
    · obtain ⟨ht, hq⟩ := cleanup_tidy h now
      exact quiet (quiet_op n (.cleanup now) rfl rfl rfl rfl rfl) ht hq
  | scexecute now avgRssi =>
    simp only [step, handle]
    split
    · exact same (Frame.refl n).quiet rfl rfl rfl
    · obtain ⟨ht, hpb⟩ := scexecute_tidy h L now avgRssi
      exact quiet (scexecute_quiet L n now avgRssi) ht fun _ hne => hpb ▸ hne

end

/-! ## Runs -/

/-- Where the event makes a route valid, nothing waits for it any more and no series asks for it. -/
def Flushes (L : Libdessert) (n : Node) (ev : NodeEvent) : Prop :=
  ∀ host, n.routeTo host = none → (n.step L ev).routeTo host ≠ none →
    (n.step L ev).pb.queue host = [] ∧ (n.step L ev).findSeriesUnlocked host = none

/-- If every RREP that is passed on is for a route that nothing here waits for, no packet ever waits for a
route that is there. -/
theorem no_packet_waits (L : Libdessert) (cfg : Config) (l25Defsrc : MacAddr) (meshiflist : List Meshif)
    (evs : List NodeEvent)
    (hp : Runs.Always (Node.step L) (fun n ev => n.passesOver ev = false)
      (aodvDbInit cfg l25Defsrc meshiflist) evs) :
    Runs.Throughout (Node.step L) NoneWaits (aodvDbInit cfg l25Defsrc meshiflist) evs ∧
      Runs.Always (Node.step L) (Flushes L) (aodvDbInit cfg l25Defsrc meshiflist) evs := by
  have hinv : Runs.Throughout (Node.step L) (fun n => (n.rt.WF ∧ n.Tidy) ∧ n.NoneWaits)
      (aodvDbInit cfg l25Defsrc meshiflist) evs := by
    apply Runs.throughout_of_always _ _ hp
    · intro n ev hx hpass
      obtain ⟨⟨hw, ht⟩, hn⟩ := hx
      obtain ⟨ht', hs⟩ := step_settled L hw ht ev
      exact ⟨⟨step_inv L (fun _ op h => h.step op) n ev hw, ht'⟩, hn.settled (hs hpass)⟩
    · exact ⟨⟨init_wf, init_tidy cfg l25Defsrc meshiflist⟩, fun host hq => absurd rfl hq⟩
  refine ⟨hinv.imp fun n h => h.2, ?_⟩
  have hboth := hinv.always.and hp
  rw [Runs.always_iff] at hboth ⊢
  intro pre ev post heq
  obtain ⟨⟨⟨hw, ht⟩, -⟩, hpass⟩ := hboth pre ev post heq
  exact ((step_settled L hw ht ev).2 hpass).route

def rxHere (now : Timeval) : RxEnv := { rxAt now with lflags := { (rxAt now).lflags with l25Dst := true } }

/-- A packet for 9 waits until 9 has answered. -/
theorem no_packet_waits_answered :
    let evs := [.sysRx 8 9 [1] 0, .mesh .handleRrep (rxHere 1) (rrepFrom 9 8 9 1 0), .sysRx 8 9 [2] 2]
    Runs.Throughout (Node.step roomy) NoneWaits (aodvDbInit {} 8 [wlan]) evs ∧
      Runs.Always (Node.step roomy) (Flushes roomy) (aodvDbInit {} 8 [wlan]) evs :=
  no_packet_waits roomy {} 8 [wlan] _ (by decide)

/-- A packet for 9 waits while the answer of 9 to a RREQ of 5 is passed on. -/
def answerPassing : List NodeEvent :=
  [.mesh .handleRreq (rxAt 0) (rreqFrom 5 9 1 1 0), .sysRx 8 9 [1] 1,
    .mesh .handleRrep (rxAt 2) (rrepFrom 9 5 9 1 0)]

theorem packet_waits :
    ¬ (Runs.Throughout (Node.step roomy) NoneWaits (aodvDbInit {} 8 [wlan]) answerPassing ∧
      Runs.Always (Node.step roomy) (Flushes roomy) (aodvDbInit {} 8 [wlan]) answerPassing) := by
  intro hx
  obtain ⟨h, -⟩ := hx
  have hend := Runs.throughout_iff.mp h answerPassing [] (List.append_nil _).symm
  have hroute : (Runs.exec (Node.step roomy) (aodvDbInit {} 8 [wlan]) answerPassing).routeTo 9 ≠ none := by
    decide
  apply hroute
  apply hend
  decide

end Node

end DesAodv
