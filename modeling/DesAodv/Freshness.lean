import DesAodv.ReverseRoute

/-!
# How sequence numbers of entries move

Only captures change a sequence number. `freshCapture` is the condition on the
stored entry under which a capture does not move it backward.
-/

namespace DesAodv

namespace Node

/-- Where a RREQ is not old for the entry `x` of its originator, the number it leaves is not behind that of
`x`; where a RREP is used for the entry `x` of its destination, its number is not behind that of `x`. -/
def freshCapture (n : Node) : NodeEvent → Bool
  | .mesh .handleRreq env msg =>
    match msg.getRreq, n.rt.standing msg.l25Dhost msg.l25Shost env.now with
    | some rreq, some x =>
      decide (rreqResult n.cfg.metricType x rreq.originatorSequenceNumber (n.countHop env msg).u16 = .old) ||
        decide (0 ≤ hfCompU32 (x.numberAfter rreq.originatorSequenceNumber) x.sequenceNumber)
    | _, _ => true
  | .mesh .handleRrep env msg =>
    match msg.getRrep, n.rt.find msg.l25Shost with
    | some rrep, some x =>
      !env.lflags.l2Dst || !rrepUsed x rrep.destinationSequenceNumber ||
        decide (0 ≤ hfCompU32 rrep.destinationSequenceNumber x.sequenceNumber)
    | _, _ => true
  | _ => true

section
variable (L : Libdessert)

/-- No entry that is still there after the event has a number behind the one it had. -/
def NotBehind (n : Node) (ev : NodeEvent) : Prop :=
  ∀ e ∈ n.rt.entries, ∀ e' ∈ (n.step L ev).rt.entries, e'.ptr = e.ptr →
    0 ≤ hfCompU32 e'.sequenceNumber e.sequenceNumber

instance (n : Node) (ev : NodeEvent) : Decidable (n.NotBehind L ev) :=
  inferInstanceAs (Decidable (∀ e ∈ n.rt.entries, ∀ e' ∈ (n.step L ev).rt.entries, e'.ptr = e.ptr →
    0 ≤ hfCompU32 e'.sequenceNumber e.sequenceNumber))

variable {L} {n : Node}

theorem notBehind_self (i : UInt32) : 0 ≤ hfCompU32 i i := Int.le_of_eq (hfCompU32_self i).symm

theorem quietly_notBehind {rt rt' : Rt} (hw : rt.WF) (hq : rt.Quietly rt') {e e' : RtEntry} (he : e ∈ rt.entries)
    (he' : e' ∈ rt'.entries) (hp : e'.ptr = e.ptr) : e'.sequenceNumber = e.sequenceNumber := by
  obtain ⟨x, hx, hwk⟩ := (hq.shrinks hw).entry e'.addr e' ((hq.wf hw).find_iff.mpr ⟨he', rfl⟩)
  have hex : e = x := hw.ext_ptr he (Rt.find_mem hx) (hp.symm.trans hwk.ptr)
  rw [hex]; exact hwk.sequenceNumber

theorem wrote_notBehind {rt mid rt' : Rt} (hw : rt.WF) (hw' : rt'.WF) (hg : Rt.Grows rt mid) {host : MacAddr}
    {x y : RtEntry} (hx : mid.find host = some x) (hp : y.ptr = x.ptr) (h : Rt.Wrote mid host y rt')
    (hxy : x ∈ rt.entries → 0 ≤ hfCompU32 y.sequenceNumber x.sequenceNumber) {e e' : RtEntry}
    (he : e ∈ rt.entries) (he' : e' ∈ rt'.entries) (hpe : e'.ptr = e.ptr) :
    0 ≤ hfCompU32 e'.sequenceNumber e.sequenceNumber := by
  have hf := h.find e'.addr
  rw [hw'.find_iff.mpr ⟨he', rfl⟩] at hf
  by_cases ha : e'.addr = host
  · rw [if_pos ha] at hf
    have hey : e' = y := Option.some.inj hf
    have hxe : x = e := hg.old hw he hx (by rw [← hpe, hey, hp])
    rw [hey, ← hxe]
    exact hxy (hxe ▸ he)
  · rw [if_neg ha] at hf
    rw [hg.old hw he hf.symm hpe]; exact notBehind_self _

theorem rreq_notBehind (hw : n.rt.WF) {env : RxEnv} {msg : DessertMsg} {rreq : AodvMsgRreq}
    (hr : msg.getRreq = some rreq) (hc : n.freshCapture (.mesh .handleRreq env msg) = true) :
    n.NotBehind L (.mesh .handleRreq env msg) := by
  obtain ⟨-, hg, hf⟩ := hw.judged msg.l25Dhost msg.l25Shost env.now
  obtain ⟨hw', hwr⟩ := hw.rreq n.cfg.metricType msg.l25Dhost msg.l25Shost msg.l2Shost env.iface
    rreq.originatorSequenceNumber (n.countHop env msg).u16 (n.countHop env msg).u8 env.now
  have hrt : (n.step L (.mesh .handleRreq env msg)).rt = n.rt.step (n.rreqOp env msg rreq) :=
    (handleRreq_rt n env hr).1
  intro e he e' he' hpe
  rw [hrt] at he'
  refine wrote_notBehind hw hw' hg hf ?_ hwr ?_ he he' hpe
  · split
    · rfl
    · exact RtEntry.afterRreq_ptr ..
  · intro hxm
    by_cases ho : rreqResult n.cfg.metricType (n.rt.judged msg.l25Dhost msg.l25Shost env.now).2
        rreq.originatorSequenceNumber (n.countHop env msg).u16 = .old
    · rw [if_pos ho]; exact notBehind_self _
    · rw [if_neg ho, ((n.rt.judged msg.l25Dhost msg.l25Shost env.now).2.afterRreq_route ..).2.2.2.1]
      rcases Rt.judged_cases n.rt msg.l25Dhost msg.l25Shost env.now with ⟨y, hy, hj⟩ | ⟨-, hnew⟩
      · rw [hj] at ho ⊢
        simp only [freshCapture, hr, hy, Bool.or_eq_true, decide_eq_true_eq] at hc
        exact hc.resolve_left ho
      · -- an entry that has just been created was not there before
        have hfr := (hw.findOrCreate msg.l25Dhost env.now).2.1.fresh
        have hlt := hw.allocated _ hxm
        rw [hnew] at hlt
        exact absurd hlt (Nat.not_lt.mpr hfr)

theorem rrep_notBehind (hw : n.rt.WF) {env : RxEnv} {msg : DessertMsg} {rrep : AodvMsgRrep}
    (hr : msg.getRrep = some rrep) (hd : env.lflags.l2Dst = true)
    (hc : n.freshCapture (.mesh .handleRrep env msg) = true) : n.NotBehind L (.mesh .handleRrep env msg) := by
  obtain ⟨-, hg, hf⟩ := hw.findOrCreate msg.l25Shost env.now
  obtain ⟨hw', hwr⟩ := hw.rrep msg.l25Shost msg.l2Shost env.iface rrep.destinationSequenceNumber
    (n.countHop env msg).u16 (n.countHop env msg).u8 env.now
  have hq : (n.rt.step (n.rrepOp env msg rrep)).Quietly (n.step L (.mesh .handleRrep env msg)).rt :=
    (handleRrep_rt n env hr hd).1
  intro e he e'' he'' hpe
  obtain ⟨e', hfe', hwk⟩ := (hq.shrinks hw').entry e''.addr e'' ((hq.wf hw').find_iff.mpr ⟨he'', rfl⟩)
  rw [hwk.sequenceNumber]
  refine wrote_notBehind hw hw' hg hf ?_ hwr ?_ he (Rt.find_mem hfe') (hwk.ptr.symm.trans hpe)
  · split <;> rfl
  · intro hxm
    by_cases hu : rrepUsed (rtFindOrCreate n.rt msg.l25Shost env.now env.now).2 rrep.destinationSequenceNumber = true
    · rw [if_pos hu]
      cases hx : n.rt.find msg.l25Shost with
      | some x =>
        rw [Rt.findOrCreate_found hx] at hu ⊢
        simp only [freshCapture, hr, hx, hd, hu, Bool.not_true, Bool.false_or, decide_eq_true_eq] at hc
        exact hc
      | none =>
        have hlt := hw.allocated _ hxm
        rw [(hw.create hx env.now).2.1] at hlt
        exact absurd hlt (Nat.lt_irrefl _)
    · rw [if_neg hu]; exact notBehind_self _

theorem step_notBehind (hw : n.rt.WF) {ev : NodeEvent} (hc : n.freshCapture ev = true) : n.NotBehind L ev := by
  cases (step_rt L n ev).1 with
  | quiet h =>
    intro e he e' he' hp
    rw [quietly_notBehind hw h he he' hp]; exact notBehind_self _
  | rreq env msg m he hm h => subst he; exact rreq_notBehind hw hm hc
  | rrep env msg m he hm hd h => subst he; exact rrep_notBehind hw hm hd hc

end

/-- In a run in which every capture is fresh, no sequence number moves backward. -/
theorem notBehind_of_freshCapture (L : Libdessert) (cfg : Config) (l25Defsrc : MacAddr) (meshiflist : List Meshif)
    (evs : List NodeEvent)
    (hc : Runs.Always (Node.step L) (fun n ev => n.freshCapture ev = true) (aodvDbInit cfg l25Defsrc meshiflist)
      evs) :
    Runs.Always (Node.step L) (NotBehind L) (aodvDbInit cfg l25Defsrc meshiflist) evs := by
  rw [Runs.always_iff] at hc ⊢
  intro pre ev post he
  exact step_notBehind (Reachable.wf ⟨cfg, l25Defsrc, meshiflist, pre, rfl⟩) (hc pre ev post he)

theorem notBehind_newer :
    Runs.Always (Node.step roomy) (NotBehind roomy) (aodvDbInit {} 9 [wlan])
      [.mesh .handleRreq (rxAt 0) (rreqFrom 5 9 1 1 0), .mesh .handleRreq (rxAt 1) (rreqFrom 5 9 1 2 0)] :=
  notBehind_of_freshCapture roomy {} 9 [wlan] _ (by decide)

/-- The last RREQ is accepted with a number far ahead, and the forced RREP puts the number back to 0. -/
def farAhead : List NodeEvent :=
  [.mesh .handleRreq (rxAt 0) (rreqFrom 5 9 1 5 0), .mesh .handleRreq (rxAt 1) (rreqFrom 5 9 1 5 0),
    .mesh .handleRreq (rxAt 2) (rreqFrom 5 9 1 2147483648 0)]

theorem farAhead_behind :
    ¬ Runs.Always (Node.step roomy) (NotBehind roomy) (aodvDbInit {} 8 [wlan]) farAhead := by
  decide

end Node

end DesAodv
