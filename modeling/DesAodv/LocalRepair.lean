import DesAodv.ReverseRoute
import DesAodv.Sending

/-!
# Answers of nodes on the way

A node on the way answers a RREQ when it knows a next hop towards the
destination. It does not look at `AODV_FLAGS_ROUTE_INVALID`.
-/

namespace DesAodv

/-- The numbers lie half a circle apart: neither is ahead of the other, and they are not the same. -/
def opposite (i j : UInt32) : Bool := decide (2147483647 ≤ ahead i j ∧ ahead i j ≤ 2147483649)

theorem not_behind_iff {i j : UInt32} (h : hfCompU32 i j ≤ 0) : 0 ≤ hfCompU32 j i ↔ opposite i j = false := by
  have hi := i.toNat_lt
  have hj := j.toNat_lt
  have hle : ¬ (0 < ahead i j ∧ ahead i j < 2147483647) := mt hfCompU32_pos.mpr (Int.not_lt.mpr h)
  have hneg : 0 ≤ hfCompU32 j i ↔ ¬ 2147483647 ≤ ahead j i := by rw [← hfCompU32_neg, Int.not_lt]
  rw [hneg, opposite, decide_eq_false_iff_not]
  rw [ahead_eq] at hle ⊢
  rw [ahead_eq]
  omega

/-! ## The entry of the destination -/

namespace Node

/-- The number of the entry `x` of the destination after a RREQ that is not old. It is written if the RREQ
looks for its own originator. -/
def targetNumber (msg : DessertMsg) (rreq : AodvMsgRreq) (x : RtEntry) : UInt32 :=
  if msg.l25Dhost = msg.l25Shost then x.numberAfter rreq.originatorSequenceNumber else x.sequenceNumber

/-- A RREQ that is not old may be answered from the entry `x` of its destination. -/
def answeredFrom (msg : DessertMsg) (rreq : AodvMsgRreq) (x : RtEntry) : Bool :=
  !rreq.flagD && (!x.flags.nextHopUnknown || decide (msg.l25Dhost = msg.l25Shost)) &&
    (rreq.flagU || decide (hfCompU32 rreq.destinationSequenceNumber (targetNumber msg rreq x) ≤ 0))

/-- The entry `x` of the destination is not marked invalid, or the forced RREP takes the mark away because
the RREQ looks for its own originator. -/
def unmarked (msg : DessertMsg) (rreq : AodvMsgRreq) (x : RtEntry) : Bool :=
  !x.flags.routeInvalid ||
    (decide (msg.l25Dhost = msg.l25Shost) &&
      (x.flags.nextHopUnknown || decide (hfCompU32 rreq.originatorSequenceNumber 0 ≤ 0)))

/-- If the RREQ is not old and may be answered from the entry of its destination, then that entry is not
marked invalid, and its number is not half a circle away from the one asked for. -/
def RepairsFromUnmarked (n : Node) (env : RxEnv) (msg : DessertMsg) (rreq : AodvMsgRreq) : Prop :=
  n.judgeRreq env msg rreq ≠ .old →
    ∀ x ∈ (n.rt.judged msg.l25Dhost msg.l25Shost env.now).1.find msg.l25Dhost,
      answeredFrom msg rreq x = true → unmarked msg rreq x = true ∧
        (rreq.flagU = false → opposite rreq.destinationSequenceNumber (targetNumber msg rreq x) = false)

instance (n : Node) (env : RxEnv) (msg : DessertMsg) (rreq : AodvMsgRreq) :
    Decidable (n.RepairsFromUnmarked env msg rreq) :=
  inferInstanceAs (Decidable (n.judgeRreq env msg rreq ≠ .old →
    ∀ x ∈ (n.rt.judged msg.l25Dhost msg.l25Shost env.now).1.find msg.l25Dhost,
      answeredFrom msg rreq x = true → unmarked msg rreq x = true ∧
        (rreq.flagU = false → opposite rreq.destinationSequenceNumber (targetNumber msg rreq x) = false)))

/-- Whatever RREP the node sends back, its route to the destination is valid, and the RREP carries the
number of that entry, which is not behind the number asked for. -/
def RepairsTruthfully (n : Node) (env : RxEnv) (msg : DessertMsg) (rreq : AodvMsgRreq) : Prop :=
  ∀ answer rrep, .mesh answer (some env.iface) ∈ (n.aodvHandleRreq env msg).2.1 → answer.getRrep = some rrep →
    ((n.aodvHandleRreq env msg).1.routeTo msg.l25Dhost).isSome = true ∧
      ∃ e, (n.aodvHandleRreq env msg).1.rt.find msg.l25Dhost = some e ∧
        rrep.destinationSequenceNumber = e.sequenceNumber ∧
        (rreq.flagU = false → 0 ≤ hfCompU32 e.sequenceNumber rreq.destinationSequenceNumber)

/-- The entry of the destination after a RREQ that is not old. -/
def targetAfter (n : Node) (env : RxEnv) (msg : DessertMsg) (rreq : AodvMsgRreq) (x : RtEntry) : RtEntry :=
  if msg.l25Dhost = msg.l25Shost then
    x.afterRreq msg.l2Shost env.iface rreq.originatorSequenceNumber (n.countHop env msg).u16
      (n.countHop env msg).u8
  else x

section
variable (n : Node) (env : RxEnv) (msg : DessertMsg) (rreq : AodvMsgRreq) (x : RtEntry)

theorem targetAfter_number : (n.targetAfter env msg rreq x).sequenceNumber = targetNumber msg rreq x := by
  unfold targetAfter targetNumber
  split
  · exact (x.afterRreq_route ..).2.2.2.1
  · rfl

theorem targetAfter_unknown :
    (n.targetAfter env msg rreq x).flags.nextHopUnknown = false ↔
      x.flags.nextHopUnknown = false ∨ msg.l25Dhost = msg.l25Shost := by
  unfold targetAfter
  split
  · rename_i h
    exact iff_of_true (x.afterRreq_route ..).2.2.2.2 (.inr h)
  · rename_i h
    exact (or_iff_left h).symm

theorem targetAfter_valid :
    (n.targetAfter env msg rreq x).valid = true ↔
      (x.flags.nextHopUnknown = false ∨ msg.l25Dhost = msg.l25Shost) ∧ unmarked msg rreq x = true := by
  unfold targetAfter unmarked
  by_cases h : msg.l25Dhost = msg.l25Shost
  · rw [if_pos h, RtEntry.afterRreq_valid]
    cases hk : x.flags.nextHopUnknown <;> cases hi : x.flags.routeInvalid <;> simp [h]
  · rw [if_neg h]
    cases hk : x.flags.nextHopUnknown <;> cases hi : x.flags.routeInvalid <;> simp [h, RtEntry.valid, hk, hi]

end

theorem answeredFrom_iff (n : Node) (env : RxEnv) (msg : DessertMsg) (rreq : AodvMsgRreq) (x : RtEntry) :
    answeredFrom msg rreq x = true ↔
      (n.targetAfter env msg rreq x).flags.nextHopUnknown = false ∧ rreq.flagD = false ∧
        (rreq.flagU = true ∨
          hfCompU32 rreq.destinationSequenceNumber (n.targetAfter env msg rreq x).sequenceNumber ≤ 0) := by
  rw [targetAfter_unknown, targetAfter_number]
  simp only [answeredFrom, Bool.and_eq_true, Bool.or_eq_true, Bool.not_eq_true', decide_eq_true_eq]
  rw [and_comm (a := rreq.flagD = false), and_assoc]

theorem localRepair_eq_some {rt : Rt} {rreq : AodvMsgRreq} {host : MacAddr} {seq : UInt32} :
    localRepair rt rreq host = some seq ↔
      ∃ e, rt.find host = some e ∧ e.flags.nextHopUnknown = false ∧ rreq.flagD = false ∧
        (rreq.flagU = true ∨ hfCompU32 rreq.destinationSequenceNumber e.sequenceNumber ≤ 0) ∧
        e.sequenceNumber = seq := by
  unfold localRepair aodvDbRtGetDestinationSequenceNumber Rt.known
  cases hf : rt.find host with
  | none => simp
  | some e =>
    cases hk : e.flags.nextHopUnknown with
    | true => simp [hk, Option.filter_some]
    | false =>
      cases hd : rreq.flagD with
      | true => simp [hk, Option.filter_some]
      | false =>
        cases hu : rreq.flagU with
        | true => simp [hk, Option.filter_some]
        | false =>
          by_cases hc : hfCompU32 rreq.destinationSequenceNumber e.sequenceNumber > 0
          · simp [hk, Option.filter_some, hc, Int.not_le.mpr hc]
          · simp [hk, Option.filter_some, hc, Int.not_lt.mp hc]

section
variable {L : Libdessert} {n : Node} (hn : Reachable L n) {env : RxEnv} {msg : DessertMsg} {rreq : AodvMsgRreq}
include hn

theorem find_target (hr : msg.getRreq = some rreq) (ho : n.judgeRreq env msg rreq ≠ .old) :
    (n.aodvHandleRreq env msg).1.rt.find msg.l25Dhost =
      ((n.rt.judged msg.l25Dhost msg.l25Shost env.now).1.find msg.l25Dhost).map
        (n.targetAfter env msg rreq) := by
  have h := (hn.wf.rreq n.cfg.metricType msg.l25Dhost msg.l25Shost msg.l2Shost env.iface
    rreq.originatorSequenceNumber (n.countHop env msg).u16 (n.countHop env msg).u8 env.now).2.find msg.l25Dhost
  have hj := (hn.wf.judged msg.l25Dhost msg.l25Shost env.now).2.2
  rw [(handleRreq_rt n env hr).1]
  apply h.trans
  by_cases hd : msg.l25Dhost = msg.l25Shost
  · have ht : n.targetAfter env msg rreq = RtEntry.afterRreq msg.l2Shost env.iface
        rreq.originatorSequenceNumber (n.countHop env msg).u16 (n.countHop env msg).u8 := by
      funext x
      exact if_pos hd
    refine (if_pos hd).trans ((congrArg some (if_neg ho)).trans ?_)
    generalize n.rt.judged msg.l25Dhost msg.l25Shost env.now = j at hj
    rw [ht, hd, hj, Option.map_some]
  · have ht : n.targetAfter env msg rreq = id := by
      funext x
      exact if_neg hd
    rw [if_neg hd, ht, Option.map_id]
    rfl

/-- The answers of a node on the way are those of `localRepair`. -/
theorem answers_iff (hr : msg.getRreq = some rreq) (hd : env.lflags.l25Dst = false)
    (ho : n.judgeRreq env msg rreq ≠ .old) (P : UInt32 → Prop) :
    (∀ answer rrep, .mesh answer (some env.iface) ∈ (n.aodvHandleRreq env msg).2.1 →
        answer.getRrep = some rrep → P rrep.destinationSequenceNumber) ↔
      ∀ seq, localRepair (n.aodvHandleRreq env msg).1.rt rreq msg.l25Dhost = some seq → P seq := by
  obtain ⟨buffered, hb, hs⟩ := handleRreq_passed hn.stored hd hr ho
  rw [hs]
  constructor
  · intro h seq hl
    have ha : (n.aodvHandleRreq env msg).1.rrepOrRebroadcast env (n.countHop env msg) rreq =
        [.mesh (createRrep msg.l25Dhost msg.l25Shost msg.l2Shost seq 0
          (aodvDbRtGetHopcount (n.aodvHandleRreq env msg).1.rt msg.l25Dhost)
          (aodvDbRtGetMetric (n.aodvHandleRreq env msg).1.rt msg.l25Dhost)) (some env.iface)] := by
      unfold rrepOrRebroadcast
      simp only [countHop_l25Dhost, countHop_l25Shost, countHop_l2Shost, hl]
    rw [ha] at h
    exact h _ { flags := 0, destinationSequenceNumber := seq, lifetime := 0 }
      (List.mem_append_right _ (List.mem_singleton_self _)) rfl
  · intro h answer rrep hm hg
    rcases List.mem_append.mp hm with hm | hm
    · obtain ⟨msg', he, hx⟩ := hb _ hm
      rw [(Sent.mesh.inj he).1] at hg
      simp [DessertMsg.getRrep, hx] at hg
    · unfold rrepOrRebroadcast at hm
      split at hm
      · rename_i seq hl
        rw [(Sent.mesh.inj (List.mem_singleton.mp hm)).1] at hg
        rw [← Option.some.inj hg]
        exact h seq hl
      · split at hm
        · split at hm
          · cases hm
          · cases List.mem_singleton.mp hm
        · split at hm
          · cases List.mem_singleton.mp hm
          · cases hm

/-- A node on the way answers truthfully exactly if it does not answer from an entry that is marked
invalid, or whose number is half a circle away from the one asked for. -/
theorem repairsTruthfully_iff (hr : msg.getRreq = some rreq) (hd : env.lflags.l25Dst = false) :
    n.RepairsTruthfully env msg rreq ↔ n.RepairsFromUnmarked env msg rreq := by
  by_cases ho : n.judgeRreq env msg rreq = .old
  · refine iff_of_true (fun answer rrep hm _ => ?_) fun h => absurd ho h
    rw [handleRreq_old n env hr ho] at hm
    cases hm
  · have hf := find_target hn hr ho
    unfold RepairsTruthfully RepairsFromUnmarked
    rw [answers_iff hn hr hd ho fun seq =>
      ((n.aodvHandleRreq env msg).1.routeTo msg.l25Dhost).isSome = true ∧
        ∃ e, (n.aodvHandleRreq env msg).1.rt.find msg.l25Dhost = some e ∧ seq = e.sequenceNumber ∧
          (rreq.flagU = false → 0 ≤ hfCompU32 e.sequenceNumber rreq.destinationSequenceNumber)]
    simp only [localRepair_eq_some, routeTo_isSome, hf]
    cases (n.rt.judged msg.l25Dhost msg.l25Shost env.now).1.find msg.l25Dhost with
    | none => simp
    | some x =>
      have hans := answeredFrom_iff n env msg rreq x
      have hval := n.targetAfter_valid env msg rreq x
      have hunk := n.targetAfter_unknown env msg rreq x
      have hnum := n.targetAfter_number env msg rreq x
      rw [Option.map_some]
      constructor
      · intro h _ x' hx' ha
        obtain rfl := Option.some.inj hx'
        have ha' := hans.mp ha
        obtain ⟨⟨e, he, hv⟩, e', he', hs, hb⟩ := h _ ⟨_, rfl, ha'.1, ha'.2.1, ha'.2.2, rfl⟩
        obtain rfl := Option.some.inj he
        refine ⟨(hval.mp hv).2, fun hu => ?_⟩
        rw [← hs] at hb
        rw [← hnum]
        exact (not_behind_iff (ha'.2.2.resolve_left (by simp [hu]))).mp (hb hu)
      · intro h seq hx
        obtain ⟨e, he, hk, hflag, hc, rfl⟩ := hx
        obtain rfl := Option.some.inj he
        obtain ⟨hm, hop⟩ := h ho x rfl (hans.mpr ⟨hk, hflag, hc⟩)
        refine ⟨⟨_, rfl, hval.mpr ⟨hunk.mp hk, hm⟩⟩, _, rfl, rfl, fun hu => ?_⟩
        rw [← hnum] at hop
        exact (not_behind_iff (hc.resolve_left (by simp [hu]))).mpr (hop hu)

end

/-- A RREQ for a destination the node has had a RREP from. -/
theorem repairsTruthfully_fresh :
    (Runs.exec (Node.step roomy) (aodvDbInit {} 8 [wlan])
        [.mesh .handleRrep (rxAt 0) (rrepFrom 9 5 2 4 0)]).RepairsTruthfully (rxAt 1) (rreqFrom 5 9 1 1 0)
      { flagU := true, flagD := false, destinationSequenceNumber := 0, originatorSequenceNumber := 1 } :=
  (@repairsTruthfully_iff roomy _ ⟨{}, 8, [wlan], [.mesh .handleRrep (rxAt 0) (rrepFrom 9 5 2 4 0)], rfl⟩
    (rxAt 1) (rreqFrom 5 9 1 1 0) _ rfl rfl).mpr (by decide)

/-- A node whose route to 9 has been invalidated by a reset. -/
def afterReset : Node :=
  Runs.exec (Node.step roomy) (aodvDbInit {} 8 [wlan])
    [.mesh .handleRrep (rxAt 0) (rrepFrom 9 5 2 4 0), .routingReset]

theorem not_repairsTruthfully_reset :
    ¬ afterReset.RepairsTruthfully (rxAt 1) (rreqFrom 5 9 1 1 0)
      { flagU := true, flagD := false, destinationSequenceNumber := 0, originatorSequenceNumber := 1 } := by
  intro h
  have hs : Sent.mesh (createRrep 9 5 1 4 0 1 0) (some wlan) ∈
      (afterReset.aodvHandleRreq (rxAt 1) (rreqFrom 5 9 1 1 0)).2.1 := by decide
  have hr : (afterReset.aodvHandleRreq (rxAt 1) (rreqFrom 5 9 1 1 0)).1.routeTo 9 = none := by decide
  have hv := (h _ { flags := 0, destinationSequenceNumber := 4, lifetime := 0 } hs rfl).1
  exact absurd (hr ▸ hv : (none : Option (MacAddr × Option Meshif)).isSome = true) (by decide)

end Node

end DesAodv
