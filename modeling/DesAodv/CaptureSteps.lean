import DesAodv.BestCapture

/-!
# Captures of one node

What a received frame does to a node whose entries are anchored: without a
capture they stay so, and after a capture in order they are anchored in the new
best captures, and everything the node sends is backed by them.
-/

namespace DesAodv

namespace Node

section
variable {n : Node} {env : RxEnv} {msg : DessertMsg}

theorem dropErrors_keep (h : (n.aodvDropErrors env msg).2 ≠ .drop) :
    env.lflags.l2Src = false ∧ env.lflags.l25Src = false := by
  unfold aodvDropErrors at h
  split at h
  · exact absurd rfl h
  · rename_i h₁
    split at h
    · exact absurd rfl h
    · rename_i h₂
      exact ⟨by simpa using h₁, by simpa using h₂⟩

theorem capture_plain (hm : msg.Plain) : n.capture env msg = none := by
  simp only [capture, hm.rreq, hm.rrep]
  split <;> rfl

theorem capture_rreq {rreq : AodvMsgRreq} (hr : msg.getRreq = some rreq) :
    n.capture env msg =
      if (n.aodvDropErrors env msg).2 = .drop then none
      else if (n.aodvDropErrors env msg).1.judgeRreq env msg rreq = .old then none
      else some
        { host := msg.l25Shost, number := rreq.originatorSequenceNumber, received := msg.u16
          metric := ((n.aodvDropErrors env msg).1.countHop env msg).u16, via := msg.l2Shost } := by
  simp only [capture, hr]

theorem capture_rrep {rrep : AodvMsgRrep} (hq : msg.getRreq = none) (hp : msg.getRrep = some rrep) :
    n.capture env msg =
      if (n.aodvDropErrors env msg).2 = .drop then none
      else if env.lflags.l2Dst &&
          rrepUsed (rtFindOrCreate (n.aodvDropErrors env msg).1.rt msg.l25Shost env.now env.now).2
            rrep.destinationSequenceNumber then
        some
          { host := msg.l25Shost, number := rrep.destinationSequenceNumber, received := msg.u16
            metric := ((n.aodvDropErrors env msg).1.countHop env msg).u16, via := msg.l2Shost }
      else none := by
  simp only [capture, hq, hp]

theorem capture_eq_some {c : Capture} (h : n.capture env msg = some c) :
    (n.aodvDropErrors env msg).2 ≠ .drop ∧ c.host = msg.l25Shost ∧ c.via = msg.l2Shost ∧ c.received = msg.u16 ∧
      c.metric = ((n.aodvDropErrors env msg).1.countHop env msg).u16 ∧
      ((∃ rreq, msg.getRreq = some rreq ∧ c.number = rreq.originatorSequenceNumber ∧
          (n.aodvDropErrors env msg).1.judgeRreq env msg rreq ≠ .old) ∨
        msg.getRreq = none ∧ ∃ rrep, msg.getRrep = some rrep ∧ c.number = rrep.destinationSequenceNumber ∧
          env.lflags.l2Dst = true ∧
          rrepUsed (rtFindOrCreate (n.aodvDropErrors env msg).1.rt msg.l25Shost env.now env.now).2
            rrep.destinationSequenceNumber = true) := by
  unfold capture at h
  simp only at h
  split at h
  · cases h
  rename_i hd
  refine ⟨hd, ?_⟩
  cases hq : msg.getRreq with
  | some rreq =>
    simp only [hq] at h
    split at h
    · cases h
    · rename_i ho
      obtain rfl := Option.some.inj h
      exact ⟨rfl, rfl, rfl, rfl, .inl ⟨rreq, rfl, rfl, ho⟩⟩
  | none =>
    simp only [hq] at h
    cases hp : msg.getRrep with
    | none =>
      simp only [hp] at h
      cases h
    | some rrep =>
      simp only [hp] at h
      split at h
      · rename_i hu
        obtain rfl := Option.some.inj h
        rw [Bool.and_eq_true] at hu
        exact ⟨rfl, rfl, rfl, rfl, .inr ⟨rfl, rrep, rfl, rfl, hu.1, hu.2⟩⟩
      · cases h

/-- The number and the metric captured are those the neighbor claims. -/
theorem capture_claims {q : Quality} {l25 : MacAddr} {best : MacAddr → Option Best} (hb : Backed q l25 best msg)
    {c : Capture} (h : n.capture env msg = some c) : Claims q l25 best c.host c.number c.received := by
  obtain ⟨-, hh, -, hr, -, hor⟩ := capture_eq_some h
  rw [hh, hr]
  cases hb with
  | plain hm =>
    rw [capture_plain hm] at h
    cases h
  | rreq r he hc =>
    have hg : msg.getRreq = some r := by simp [DessertMsg.getRreq, he]
    rcases hor with ⟨r', hr', hn, -⟩ | ⟨hnone, -⟩
    · rw [hg] at hr'
      rw [hn, ← Option.some.inj hr']
      exact hc
    · rw [hg] at hnone
      cases hnone
  | rrep r he hc =>
    have hg : msg.getRreq = none := by simp [DessertMsg.getRreq, he]
    have hp : msg.getRrep = some r := by simp [DessertMsg.getRrep, he]
    rcases hor with ⟨r', hr', -⟩ | ⟨-, r', hr', hn, -⟩
    · rw [hg] at hr'
      cases hr'
    · rw [hp] at hr'
      rw [hn, ← Option.some.inj hr']
      exact hc

end

section
variable {q : Quality} {l25 : MacAddr} {iface : Meshif} {best : MacAddr → Option Best} {n : Node}
  (h : Held q l25 iface best n) {env : RxEnv} (hi : env.iface = iface) {msg : DessertMsg}
include h

omit h in
theorem getMetric_known {rt : Rt} {host : MacAddr} {e : RtEntry} (hf : rt.find host = some e)
    (hk : e.flags.nextHopUnknown = false) : aodvDbRtGetMetric rt host = e.metric := by
  simp [aodvDbRtGetMetric, Rt.known, hf, Option.filter_some, hk]

/-! ## RREQs -/

theorem rreq_old_held {rreq : AodvMsgRreq} (hr : msg.getRreq = some rreq) (ho : n.judgeRreq env msg rreq = .old) :
    Held q l25 iface best (n.aodvHandleRreq env msg).1 := by
  obtain ⟨hw, hwr⟩ := h.wf.rreq n.cfg.metricType msg.l25Dhost msg.l25Shost msg.l2Shost env.iface
    rreq.originatorSequenceNumber (n.countHop env msg).u16 (n.countHop env msg).u8 env.now
  obtain ⟨-, hg, hf⟩ := h.wf.judged msg.l25Dhost msg.l25Shost env.now
  obtain ⟨hrt, -, hl, hm⟩ := handleRreq_rt n env hr
  refine ⟨hl.trans h.l25Defsrc, hm.trans h.meshiflist, hrt ▸ hw, handleRreq_stored h.stored env msg, ?_⟩
  rw [hrt]
  apply h.wrote msg.l25Shost (fun _ _ => rfl) hg hwr
  intro hk
  have ho' : rreqResult n.cfg.metricType (n.rt.judged msg.l25Dhost msg.l25Shost env.now).2
      rreq.originatorSequenceNumber (n.countHop env msg).u16 = .old := ho
  rw [if_pos ho'] at hk ⊢
  exact h.anchored _ _ (hg.known hf hk) hk

variable {c : Capture} (hc : c.InOrder q best) (time : Nat) (hforeign : l25 ≠ c.host)
  (hhost : c.host = msg.l25Shost) (hvia : c.via = msg.l2Shost) (hmetric : c.metric = (n.countHop env msg).u16)
include hi hc hforeign hhost hvia hmetric

theorem rreq_new_held {rreq : AodvMsgRreq} (hr : msg.getRreq = some rreq) (ho : n.judgeRreq env msg rreq ≠ .old)
    (hnum : c.number = rreq.originatorSequenceNumber) :
    Held q l25 iface (c.next q best time) (n.aodvHandleRreq env msg).1 := by
  obtain ⟨hw, hwr⟩ := h.wf.rreq n.cfg.metricType msg.l25Dhost msg.l25Shost msg.l2Shost env.iface
    rreq.originatorSequenceNumber (n.countHop env msg).u16 (n.countHop env msg).u8 env.now
  obtain ⟨-, hg, -⟩ := h.wf.judged msg.l25Dhost msg.l25Shost env.now
  obtain ⟨hrt, -, hl, hm⟩ := handleRreq_rt n env hr
  refine ⟨hl.trans h.l25Defsrc, hm.trans h.meshiflist, hrt ▸ hw, handleRreq_stored h.stored env msg, ?_⟩
  rw [hrt]
  refine h.wrote msg.l25Shost (fun k hk => ?_) hg hwr fun _ => ?_
  · exact Function.update_of_ne (hhost ▸ hk) _ _
  · have ho' : rreqResult n.cfg.metricType (n.rt.judged msg.l25Dhost msg.l25Shost env.now).2
        rreq.originatorSequenceNumber (n.countHop env msg).u16 ≠ .old := ho
    rw [if_neg ho']
    obtain ⟨hnh, hif, hme, hse, -⟩ := (n.rt.judged msg.l25Dhost msg.l25Shost env.now).2.afterRreq_route msg.l2Shost
      env.iface rreq.originatorSequenceNumber (n.countHop env msg).u16 (n.countHop env msg).u8
    have hs := (n.rt.judged msg.l25Dhost msg.l25Shost env.now).2.numberAfter_cases rreq.originatorSequenceNumber
    rw [← hse] at hs
    have ha := hc.anchored time hforeign (hif.trans (congrArg some hi)) (hme.trans hmetric.symm)
      (hnh.trans hvia.symm) (hs.imp_right fun h => h.trans hnum.symm)
    rw [hhost] at ha
    exact ha

theorem rreq_new_backed {rreq : AodvMsgRreq} (he : msg.exts = [.rreq rreq])
    (ho : n.judgeRreq env msg rreq ≠ .old) (hnum : c.number = rreq.originatorSequenceNumber) :
    ∀ s ∈ (n.aodvHandleRreq env msg).2.1, s.Backed q l25 iface (c.next q best time) := by
  have hr : msg.getRreq = some rreq := by simp [DessertMsg.getRreq, he]
  have hheld := rreq_new_held h hi hc time hforeign hhost hvia hmetric hr ho hnum
  cases hd : env.lflags.l25Dst with
  | true =>
    obtain ⟨buffered, seq, hb, hs⟩ := handleRreq_answered h.stored hd hr ho
    rw [hs]
    intro s hmem
    rcases List.mem_append.mp hmem with hmem | hmem
    · exact (hi ▸ hb s hmem).plain.backed
    · rw [List.mem_singleton.mp hmem]
      exact ⟨hi, .rrep _ rfl (.inl h.l25Defsrc.symm)⟩
  | false =>
    obtain ⟨buffered, hb, hs⟩ := handleRreq_passed h.stored hd hr ho
    rw [hs]
    intro s hmem
    rcases List.mem_append.mp hmem with hmem | hmem
    · exact (hi ▸ hb s hmem).plain.backed
    · have hpass : Backed q l25 (c.next q best time) (n.countHop env msg) := by
        refine .rreq rreq he (.inr ?_)
        obtain ⟨b, hb, hle, -⟩ := hc.next time
        rw [hhost, hnum, hmetric] at hle
        exact ⟨b, hhost ▸ hb, hle⟩
      unfold rrepOrRebroadcast at hmem
      split at hmem
      · rename_i seq hl
        rw [List.mem_singleton.mp hmem]
        obtain ⟨e, hfe, hk, -, -, hse⟩ := localRepair_eq_some.mp hl
        have ha := hheld.anchored _ e hfe hk
        obtain ⟨b, hb, hle, -⟩ := ha.best
        refine ⟨hi, .rrep _ rfl (.inr ⟨b, hb, ?_⟩)⟩
        simp only [createRrep, getMetric_known hfe hk, ← hse]
        exact hle
      · split at hmem
        · split at hmem
          · cases hmem
          · rw [List.mem_singleton.mp hmem]
            exact hpass
        · split at hmem
          · rw [List.mem_singleton.mp hmem]
            exact hpass
          · cases hmem

/-! ## RREPs -/

theorem captRrep_held {rrep : AodvMsgRrep} (hnum : c.number = rrep.destinationSequenceNumber)
    (hu : rrepUsed (rtFindOrCreate n.rt msg.l25Shost env.now env.now).2 rrep.destinationSequenceNumber = true) :
    Held q l25 iface (c.next q best time) (n.captRrep msg.l25Shost msg.l2Shost env.iface
      rrep.destinationSequenceNumber (n.countHop env msg).u16 (n.countHop env msg).u8 env.now env.now).1 := by
  obtain ⟨hw, hwr⟩ := h.wf.rrep msg.l25Shost msg.l2Shost env.iface rrep.destinationSequenceNumber
    (n.countHop env msg).u16 (n.countHop env msg).u8 env.now
  obtain ⟨-, hg, -⟩ := h.wf.findOrCreate msg.l25Shost env.now
  refine ⟨h.l25Defsrc, h.meshiflist, hw, captRrep_stored h.stored _ _ _ _ _ _ _ _, ?_⟩
  refine h.wrote msg.l25Shost (fun k hk => ?_) hg hwr fun _ => ?_
  · exact Function.update_of_ne (hhost ▸ hk) _ _
  · rw [if_pos hu]
    have ha := hc.anchored time hforeign
      (y := (rtFindOrCreate n.rt msg.l25Shost env.now env.now).2.captRrep msg.l2Shost env.iface
        rrep.destinationSequenceNumber (n.countHop env msg).u16 (n.countHop env msg).u8)
      (congrArg some hi) hmetric.symm hvia.symm (.inr hnum.symm)
    rw [hhost] at ha
    exact ha

theorem rrep_used_held {rrep : AodvMsgRrep} (he : msg.exts = [.rrep rrep]) (hd : env.lflags.l2Dst = true)
    (hnum : c.number = rrep.destinationSequenceNumber)
    (hu : rrepUsed (rtFindOrCreate n.rt msg.l25Shost env.now env.now).2 rrep.destinationSequenceNumber = true) :
    Held q l25 iface (c.next q best time) (n.aodvHandleRrep env msg).1 ∧
      ∀ s ∈ (n.aodvHandleRrep env msg).2.1, s.Backed q l25 iface (c.next q best time) := by
  have hr : msg.getRrep = some rrep := by simp [DessertMsg.getRrep, he]
  have hheld : Held q l25 iface (c.next q best time) (n.captRrep (n.countHop env msg).l25Shost
      (n.countHop env msg).l2Shost env.iface rrep.destinationSequenceNumber (n.countHop env msg).u16
      (n.countHop env msg).u8 env.now env.now).1 := captRrep_held h hi hc time hforeign hhost hvia hmetric hnum hu
  have hused := (captRrep_used n (n.countHop env msg).l25Shost (n.countHop env msg).l2Shost env.iface
    rrep.destinationSequenceNumber (n.countHop env msg).u16 (n.countHop env msg).u8 env.now).trans hu
  have hpass : Backed q l25 (c.next q best time) (n.countHop env msg) := by
    refine .rrep rrep he (.inr ?_)
    obtain ⟨b, hb, hle, -⟩ := hc.next time
    rw [hhost, hnum, hmetric] at hle
    exact ⟨b, hhost ▸ hb, hle⟩
  simp only [aodvHandleRrep, hr, hd, Bool.not_true, Bool.false_eq_true, if_false]
  generalize n.captRrep (n.countHop env msg).l25Shost (n.countHop env msg).l2Shost env.iface
    rrep.destinationSequenceNumber (n.countHop env msg).u16 (n.countHop env msg).u8 env.now env.now = r
    at hheld hused
  simp only [hused, Bool.not_true, Bool.false_eq_true, if_false]
  split
  · obtain ⟨hst, hdata⟩ := sendPackets_stored hheld.stored msg.l25Shost msg.l2Shost env.iface
    refine ⟨hheld.quiet (sendPackets_frame r.1 msg.l25Shost msg.l2Shost env.iface).quiet hst, fun s hs => ?_⟩
    exact (hi ▸ hdata s hs).plain.backed
  · have hq := getroute2dest_quiet r.1 (n.countHop env msg).l25Dhost env.now false
    simp only [Bool.false_eq_true, if_false] at hq
    split
    · rename_i n' hn
      rw [hn] at hq
      exact ⟨hheld.quiet hq (getroute2dest_stored hheld.stored hn), by simp⟩
    · rename_i n' nextHop outputIface hn
      have hroute := (getroute2dest_snd r.1 (n.countHop env msg).l25Dhost env.now env.now aodvFlagsUnused).symm.trans
        (congrArg Prod.snd hn)
      rw [hn] at hq
      refine ⟨hheld.quiet hq (getroute2dest_stored hheld.stored hn), fun s hs => ?_⟩
      rw [List.mem_singleton.mp hs, hheld.routedOver.routeTo hroute]
      exact ⟨rfl, hpass.congr rfl rfl rfl⟩

omit hi hc hforeign hhost hvia hmetric in
theorem rrep_unused_held {rrep : AodvMsgRrep} (hr : msg.getRrep = some rrep)
    (hu : env.lflags.l2Dst = true →
      rrepUsed (rtFindOrCreate n.rt msg.l25Shost env.now env.now).2 rrep.destinationSequenceNumber = false) :
    Held q l25 iface best (n.aodvHandleRrep env msg).1 ∧ (n.aodvHandleRrep env msg).2.1 = [] := by
  cases hd : env.lflags.l2Dst with
  | false =>
    rw [handleRrep_drop n env hr hd]
    exact ⟨h, rfl⟩
  | true =>
    have hu := hu hd
    obtain ⟨hw, hwr⟩ := h.wf.rrep msg.l25Shost msg.l2Shost env.iface rrep.destinationSequenceNumber
      (n.countHop env msg).u16 (n.countHop env msg).u8 env.now
    obtain ⟨-, hg, hf⟩ := h.wf.findOrCreate msg.l25Shost env.now
    have hused := (captRrep_used n (n.countHop env msg).l25Shost (n.countHop env msg).l2Shost env.iface
      rrep.destinationSequenceNumber (n.countHop env msg).u16 (n.countHop env msg).u8 env.now).trans hu
    have hheld : Held q l25 iface best (n.captRrep (n.countHop env msg).l25Shost (n.countHop env msg).l2Shost
        env.iface rrep.destinationSequenceNumber (n.countHop env msg).u16 (n.countHop env msg).u8 env.now
        env.now).1 := by
      refine ⟨h.l25Defsrc, h.meshiflist, hw, captRrep_stored h.stored _ _ _ _ _ _ _ _, ?_⟩
      apply h.wrote msg.l25Shost (fun _ _ => rfl) hg hwr
      intro hk
      rw [if_neg (by rw [hu]; exact Bool.false_ne_true)] at hk ⊢
      exact h.anchored _ _ (hg.known hf hk) hk
    simp only [aodvHandleRrep, hr, hd, Bool.not_true, Bool.false_eq_true, if_false]
    generalize n.captRrep (n.countHop env msg).l25Shost (n.countHop env msg).l2Shost env.iface
      rrep.destinationSequenceNumber (n.countHop env msg).u16 (n.countHop env msg).u8 env.now env.now = r
      at hheld hused
    simp only [hused, Bool.not_false, if_true]
    exact ⟨hheld, trivial⟩

omit hc hforeign hhost hvia hmetric in
/-- A frame is received, and what it makes the node capture is in order. -/
theorem receive_held (L : Libdessert) (hl : env.lflags.l25Src = decide (l25 = msg.l25Shost)) {l25' : MacAddr}
    {best' : MacAddr → Option Best} (hb : Backed q l25' best' msg)
    (ho : ∀ c ∈ n.capture env msg, c.InOrder q best) :
    Held q l25 iface (Capture.nextOpt q best time (n.capture env msg)) (n.receive L env msg).1 ∧
      ∀ s ∈ (n.receive L env msg).2, s.Backed q l25 iface (Capture.nextOpt q best time (n.capture env msg)) := by
  have hdrop : Held q l25 iface best (n.aodvDropErrors env msg).1 :=
    h.quiet (dropErrors_frame n env msg).quiet (dropErrors_stored h.stored env msg)
  have hforeign : (n.aodvDropErrors env msg).2 ≠ .drop → l25 ≠ msg.l25Shost := fun hd =>
    of_decide_eq_false (hl.symm.trans (dropErrors_keep hd).2)
  cases hb with
  | plain hm =>
    rw [capture_plain hm]
    obtain ⟨hq, hs, hp⟩ := runCallbacks_plain (L := L) h.routedOver hi hm h.wf h.stored meshPipeline
    exact ⟨h.quiet hq hs, fun s hs => (hp s hs).backed⟩
  | rreq r he hcl =>
    have hr : msg.getRreq = some r := by simp [DessertMsg.getRreq, he]
    rw [capture_rreq hr] at ho ⊢
    rw [receive_rreq L n env he]
    by_cases hd : (n.aodvDropErrors env msg).2 = .drop
    · rw [if_pos hd, if_pos hd]
      exact ⟨hdrop, by simp⟩
    · rw [if_neg hd] at ho ⊢
      rw [if_neg hd]
      by_cases hold : (n.aodvDropErrors env msg).1.judgeRreq env msg r = .old
      · rw [if_pos hold]
        refine ⟨rreq_old_held hdrop hr hold, ?_⟩
        rw [handleRreq_old _ env hr hold]
        simp
      · rw [if_neg hold] at ho ⊢
        have hc := ho _ rfl
        exact ⟨rreq_new_held hdrop hi hc time (hforeign hd) rfl rfl rfl hr hold rfl,
          rreq_new_backed hdrop hi hc time (hforeign hd) rfl rfl rfl he hold rfl⟩
  | rrep r he hcl =>
    have hr : msg.getRreq = none := by simp [DessertMsg.getRreq, he]
    have hp : msg.getRrep = some r := by simp [DessertMsg.getRrep, he]
    rw [capture_rrep hr hp] at ho ⊢
    rw [receive_rrep L n env he]
    by_cases hd : (n.aodvDropErrors env msg).2 = .drop
    · rw [if_pos hd, if_pos hd]
      exact ⟨hdrop, by simp⟩
    · rw [if_neg hd] at ho ⊢
      rw [if_neg hd]
      cases hu : (env.lflags.l2Dst &&
          rrepUsed (rtFindOrCreate (n.aodvDropErrors env msg).1.rt msg.l25Shost env.now env.now).2
            r.destinationSequenceNumber) with
      | true =>
        rw [hu, if_pos rfl] at ho
        rw [if_pos rfl]
        rw [Bool.and_eq_true] at hu
        exact rrep_used_held hdrop hi (ho _ rfl) time (hforeign hd) rfl rfl rfl he hu.1 rfl hu.2
      | false =>
        rw [if_neg Bool.false_ne_true]
        obtain ⟨hheld, hsent⟩ := rrep_unused_held hdrop hp fun hdst => by
          rw [hdst, Bool.true_and] at hu
          exact hu
        rw [hsent]
        exact ⟨hheld, by simp⟩

end

end Node

end DesAodv
