import DesAodv.Cascades
import DesAodv.DaemonTables
import DesAodv.FrameKinds
import DesAodv.HopBound
import DesAodv.LoopFreedom
import DesAodv.Overheard
import DesAodv.RerrProgress
import DesAodv.RouteSources

/-!
# Networks that come to rest

Everything that is received sets off less than it is worth: a RREQ is worth the
RREPs it is answered with, a RREQ or RREP the RERRs that may tell of the route it
makes valid. So the frames in flight die out, if no frame without a ttl is sent on
and no RERR goes on that costs no route.
-/

namespace DesAodv

open Cascades

/-! ## Weights -/

section
variable (fanout : ℕ)

/-- A RERR is sent on at the cost of a valid route, whatever its ttl. -/
def DessertMsg.weight (msg : DessertMsg) : ℕ :=
  match msg.kind with
  | .hello | .data => relayed fanout 1 msg.ttl.toNat
  | .rerr => 1
  | .rrep => relayed fanout (1 + fanout) msg.ttl.toNat
  | .rreq => relayed fanout (1 + fanout + fanout * relayed fanout (1 + fanout) ttlMax.toNat) msg.ttl.toNat

/-- A frame goes to at most `fanout` receivers. -/
def Sent.weight : Sent → ℕ
  | .mesh msg _ => fanout * msg.weight fanout
  | .sys _ => 0

def sentWeight (sent : List Sent) : ℕ := (sent.map (Sent.weight fanout)).sum

def PacketBuffer.weight (pb : PacketBuffer) : ℕ :=
  (pb.entries.map fun q => (q.fl.map (DessertMsg.weight fanout)).sum).sum

/-- Each valid route may yet be told of in a RERR, each packet that waits may yet be sent. -/
def Node.weight (n : Node) : ℕ := fanout * n.validHosts.card + fanout * n.pb.weight fanout

variable {fanout}

variable (fanout) in
theorem DessertMsg.weight_pos (msg : DessertMsg) : 0 < msg.weight fanout := by
  unfold weight
  split
  · exact base_le_relayed fanout 1 _
  · exact base_le_relayed fanout 1 _
  · exact Nat.one_pos
  · exact Nat.lt_of_lt_of_le (by omega) (base_le_relayed fanout (1 + fanout) _)
  · exact Nat.lt_of_lt_of_le (by omega) (base_le_relayed fanout _ _)

theorem DessertMsg.weight_congr {msg msg' : DessertMsg} (hk : msg'.kind = msg.kind) (ht : msg'.ttl = msg.ttl) :
    msg'.weight fanout = msg.weight fanout := by
  rw [weight, weight, hk, ht]

theorem sentWeight_append (sent sent' : List Sent) :
    sentWeight fanout (sent ++ sent') = sentWeight fanout sent + sentWeight fanout sent' := by
  rw [sentWeight, List.map_append, List.sum_append]
  rfl

/-! ## Packets that wait -/

variable (fanout) in
theorem PacketBuffer.WF.weight_pop {pb : PacketBuffer} (hw : pb.WF) (host : MacAddr) :
    (pbPopPacket pb host).1.weight fanout + ((pbPopPacket pb host).2.map (DessertMsg.weight fanout)).getD 0 =
      pb.weight fanout := by
  unfold pbPopPacket
  cases hl : Keyed.lookup PbEl.dhostEther host pb.entries with
  | none => rfl
  | some x =>
    have hx := Keyed.lookup_mem hl
    obtain rfl := Keyed.lookup_key hl
    have hfl : (x.fl.map (DessertMsg.weight fanout)).sum =
        (x.fl.head?.map (DessertMsg.weight fanout)).getD 0 + (x.fl.tail.map (DessertMsg.weight fanout)).sum := by
      cases x.fl with
      | nil => rfl
      | cons m ms => rfl
    simp only
    split
    · rename_i htail
      have hsum := Keyed.sum_erase (fun q : PbEl => (q.fl.map (DessertMsg.weight fanout)).sum) hw.hosts hx
      rw [htail] at hfl
      simp only [List.map_nil, List.sum_nil, Nat.add_zero] at hfl
      rw [hfl] at hsum
      exact hsum
    · have hsum := Keyed.sum_modify (fun q : PbEl => (q.fl.map (DessertMsg.weight fanout)).sum) hw.ptrs hx
        (fun y => { y with fl := x.fl.tail })
      simp only [hfl] at hsum
      simp only [weight]
      omega

namespace Node

variable {n : Node}

/-- What the node and the frames it sends weigh, but for its routes. -/
def heldWeight (fanout : ℕ) (r : Node × List Sent) : ℕ := fanout * r.1.pb.weight fanout + sentWeight fanout r.2

theorem sendBuffered_weight {acc : Node × List Sent} (hw : acc.1.pb.WF) (host nextHop : MacAddr) (iface : Meshif) :
    heldWeight fanout (sendBuffered host nextHop iface acc) = heldWeight fanout acc := by
  have hpop := hw.weight_pop fanout host
  unfold sendBuffered
  simp only
  generalize pbPopPacket acc.1.pb host = r at hpop
  obtain ⟨pb, packet⟩ := r
  cases packet with
  | none =>
    simp only [heldWeight]
    rw [← hpop]
    rfl
  | some msg =>
    have hmsg : ({ msg with u16 := acc.1.dataSeqGlobal + 1, l2Dhost := nextHop } : DessertMsg).weight fanout =
        msg.weight fanout := DessertMsg.weight_congr (DessertMsg.kind_congr rfl) rfl
    simp only [heldWeight, sentWeight_append]
    rw [← hpop]
    simp [sentWeight, Sent.weight, hmsg, Nat.mul_add]
    omega

theorem sendPackets_weight (h : n.pb.Timed) (host nextHop : MacAddr) (iface : Meshif) :
    heldWeight fanout (n.aodvSendPacketsFromBuffer host nextHop iface) = fanout * n.pb.weight fanout := by
  have hfold : ∀ (packets : List DessertMsg) (acc : Node × List Sent), acc.1.pb.Timed →
      heldWeight fanout (packets.foldl (fun acc _ => sendBuffered host nextHop iface acc) acc) =
        heldWeight fanout acc := by
    intro packets
    induction packets with
    | nil => exact fun _ _ => rfl
    | cons p ps ih =>
      intro acc hacc
      exact (ih _ (sendBuffered_pbTimed hacc host nextHop iface)).trans
        (sendBuffered_weight hacc.ok.wf host nextHop iface)
  obtain ⟨series, st, heq⟩ := deleteSeriesEther_eq n host
  have hpb : (n.aodvPipelineDeleteSeriesEther host).pb = n.pb := by rw [heq]
  have hall := hfold ((n.aodvPipelineDeleteSeriesEther host).pb.queue host) (n.aodvPipelineDeleteSeriesEther host, [])
    (hpb.symm ▸ h)
  refine hall.trans ?_
  simp [heldWeight, sentWeight, hpb]

variable (fanout) in
theorem rreqAsRrep_weight (h : n.pb.Timed) (env : RxEnv) (msg : DessertMsg) :
    heldWeight fanout (n.rreqAsRrep env msg) = fanout * n.pb.weight fanout := by
  have hcapt : (n.captRrep msg.l25Shost msg.l2Shost env.iface 0 msg.u16 msg.u8 env.now env.now).1.pb = n.pb := rfl
  simp only [rreqAsRrep]
  split
  · exact (sendPackets_weight (hcapt.symm ▸ h) msg.l25Shost msg.l2Shost env.iface).trans (by rw [hcapt])
  · rfl

end Node

/-! ## Handlers -/

def Sent.isKind (kind : FrameKind) : Sent → Bool
  | .mesh msg _ => decide (msg.kind = kind)
  | .sys _ => false

/-- What a message of the kind weighs if one is among those sent. -/
def passedWeight (fanout : ℕ) (kind : FrameKind) (msg : DessertMsg) (sent : List Sent) : ℕ :=
  if sent.any (Sent.isKind kind) then fanout * msg.weight fanout else 0

theorem passedWeight_of_mem {kind : FrameKind} {msg msg' : DessertMsg} {iface : Option Meshif} {sent : List Sent}
    (h : .mesh msg' iface ∈ sent) (hk : msg'.kind = kind) :
    passedWeight fanout kind msg sent = fanout * msg.weight fanout :=
  if_pos (List.any_eq_true.mpr ⟨_, h, decide_eq_true hk⟩)

theorem sentWeight_one (msg : DessertMsg) (iface : Option Meshif) :
    sentWeight fanout [.mesh msg iface] = fanout * msg.weight fanout := Nat.add_zero _

namespace Node

variable {n : Node} {env : RxEnv} {msg : DessertMsg}

variable (fanout) in
theorem rrepOrRebroadcast_weight (hk : msg.kind = .rreq) (rreq : AodvMsgRreq) :
    sentWeight fanout (n.rrepOrRebroadcast env msg rreq) ≤
      fanout * relayed fanout (1 + fanout) ttlMax.toNat +
        passedWeight fanout .rreq msg (n.rrepOrRebroadcast env msg rreq) := by
  unfold rrepOrRebroadcast
  split
  · rw [sentWeight_one]
    exact Nat.le_add_right _ _
  · have hpassed : sentWeight fanout [.mesh msg none] = passedWeight fanout .rreq msg [.mesh msg none] :=
      (sentWeight_one msg none).trans (passedWeight_of_mem List.mem_cons_self hk).symm
    repeat' split
    · exact Nat.zero_le _
    · rw [← hpassed]
      exact Nat.le_add_left _ _
    · rw [← hpassed]
      exact Nat.le_add_left _ _
    · exact Nat.zero_le _

variable (fanout) in
theorem passedWeight_append_le (kind : FrameKind) (sent sent' : List Sent) :
    passedWeight fanout kind msg sent' ≤ passedWeight fanout kind msg (sent ++ sent') := by
  unfold passedWeight
  rw [List.any_append]
  cases sent'.any (Sent.isKind kind) <;> simp

theorem acceptRreq_weight (h : n.pb.Timed) (hk : msg.kind = .rreq) (rreq : AodvMsgRreq) (result : CaptRreqResult) :
    heldWeight fanout (n.acceptRreq env msg rreq result) ≤
      fanout * n.pb.weight fanout + fanout * relayed fanout (1 + fanout) ttlMax.toNat +
        passedWeight fanout .rreq msg (n.acceptRreq env msg rreq result).2 := by
  have hbuffered := rreqAsRrep_weight fanout h env msg
  simp only [acceptRreq]
  generalize n.rreqAsRrep env msg = r at hbuffered
  simp only [heldWeight] at hbuffered
  split
  · have hanswer : sentWeight fanout (r.1.rrepForMe env msg rreq result).2 =
        fanout * relayed fanout (1 + fanout) ttlMax.toNat := by
      simp only [rrepForMe]
      exact sentWeight_one _ _
    have hpb : (r.1.rrepForMe env msg rreq result).1.pb = r.1.pb := rfl
    simp only [heldWeight, sentWeight_append, hanswer, hpb]
    omega
  · have hrest := @rrepOrRebroadcast_weight fanout r.1 env msg hk rreq
    have happ := @passedWeight_append_le fanout msg .rreq r.2 (r.1.rrepOrRebroadcast env msg rreq)
    simp only [heldWeight, sentWeight_append]
    omega

variable (fanout) in
theorem handleRreq_weight (h : n.pb.Timed) (hk : msg.kind = .rreq) :
    heldWeight fanout ((n.aodvHandleRreq env msg).1, (n.aodvHandleRreq env msg).2.1) ≤
      fanout * n.pb.weight fanout + fanout * relayed fanout (1 + fanout) ttlMax.toNat +
        passedWeight fanout .rreq (n.countHop env msg) (n.aodvHandleRreq env msg).2.1 := by
  obtain ⟨-, rreq, hr⟩ := DessertMsg.kind_rreq hk
  simp only [aodvHandleRreq, hr]
  have hpb : (n.captRreq (n.countHop env msg).l25Dhost (n.countHop env msg).l25Shost (n.countHop env msg).l2Shost
      env.iface rreq.originatorSequenceNumber (n.countHop env msg).u16 (n.countHop env msg).u8 env.now
      env.now).1.pb = n.pb := rfl
  generalize n.captRreq (n.countHop env msg).l25Dhost (n.countHop env msg).l25Shost (n.countHop env msg).l2Shost
    env.iface rreq.originatorSequenceNumber (n.countHop env msg).u16 (n.countHop env msg).u8 env.now env.now = r at hpb
  rw [← hpb] at h ⊢
  split
  · simp only [heldWeight, sentWeight, List.map_nil, List.sum_nil]
    omega
  · exact acceptRreq_weight h (countHop_kind.trans hk) rreq r.2

variable (fanout) in
theorem handleRrep_weight (h : n.pb.Timed) (hk : msg.kind = .rrep) :
    heldWeight fanout ((n.aodvHandleRrep env msg).1, (n.aodvHandleRrep env msg).2.1) ≤
      fanout * n.pb.weight fanout +
        passedWeight fanout .rrep (n.countHop env msg) (n.aodvHandleRrep env msg).2.1 := by
  obtain ⟨-, -, -, rrep, hr⟩ := DessertMsg.kind_rrep hk
  have hnothing : ∀ {n' : Node}, n'.pb = n.pb →
      heldWeight fanout (n', []) ≤ fanout * n.pb.weight fanout +
        passedWeight fanout .rrep (n.countHop env msg) [] := by
    intro n' hpb
    simp [heldWeight, sentWeight, hpb]
  have hcapt : (n.captRrep (n.countHop env msg).l25Shost (n.countHop env msg).l2Shost env.iface
      rrep.destinationSequenceNumber (n.countHop env msg).u16 (n.countHop env msg).u8 env.now env.now).1.pb = n.pb := rfl
  simp only [aodvHandleRrep, hr]
  generalize n.captRrep (n.countHop env msg).l25Shost (n.countHop env msg).l2Shost env.iface
    rrep.destinationSequenceNumber (n.countHop env msg).u16 (n.countHop env msg).u8 env.now env.now = r at hcapt
  split
  · exact hnothing rfl
  · split
    · exact hnothing hcapt
    · split
      · refine Nat.le_add_right_of_le (Nat.le_of_eq ?_)
        rw [← hcapt] at h ⊢
        exact sendPackets_weight h _ _ _
      · split
        · rename_i n' hroute
          exact hnothing ((congrArg (fun r => r.1.pb) hroute).symm.trans hcapt)
        · rename_i n' nextHop outputIface hroute
          have hpb : n'.pb = n.pb := (congrArg (fun r => r.1.pb) hroute).symm.trans hcapt
          have hcount : (n.countHop env msg).kind = .rrep := countHop_kind.trans hk
          have hsame : ({ n.countHop env msg with l2Dhost := nextHop } : DessertMsg).kind = .rrep :=
            (DessertMsg.kind_congr rfl).trans hcount
          have hweight : ({ n.countHop env msg with l2Dhost := nextHop } : DessertMsg).weight fanout =
              (n.countHop env msg).weight fanout := DessertMsg.weight_congr (hsame.trans hcount.symm) rfl
          rw [passedWeight_of_mem List.mem_cons_self hsame]
          simp only [heldWeight, sentWeight_one, hpb, hweight]
          exact Nat.le_refl _

/-! ## What a frame sets off -/

theorem relayed_pred {ttl : UInt8} (h : ttl ≠ 0) (base : ℕ) :
    relayed fanout base ttl.toNat = base + fanout * relayed fanout base (ttl - 1).toNat := by
  obtain ⟨hpos, hpred⟩ := Hop.toNat_pred h
  rw [hpred, ← Nat.succ_pred_eq_of_pos hpos]
  rfl

/-- The node and what it sends. -/
def outcomeWeight (fanout : ℕ) (r : Node × List Sent) : ℕ := r.1.weight fanout + sentWeight fanout r.2

theorem outcomeWeight_eq (r : Node × List Sent) :
    outcomeWeight fanout r = fanout * r.1.validHosts.card + heldWeight fanout r := by
  simp only [outcomeWeight, weight, heldWeight]
  omega

theorem weight_congr {n' : Node} (hrt : n'.rt = n.rt) (hpb : n'.pb = n.pb) : n'.weight fanout = n.weight fanout := by
  simp only [weight, validHosts, hrt, hpb]

/-- No event but a capture makes a route valid, and a capture only one. -/
theorem validHosts_step (L : Libdessert) (hw : n.rt.WF) (ev : NodeEvent) :
    (n.step L ev).validHosts.card ≤ n.validHosts.card + 1 := by
  have hw' : (n.step L ev).rt.WF := step_inv L (fun _ op h => h.step op) n ev hw
  by_cases hc : ∃ cb env msg, ev = .mesh cb env msg ∧ cb.captures env.lflags msg = true
  · obtain ⟨cb, env, msg, rfl, -⟩ := hc
    refine (Finset.card_le_card fun host hh => ?_).trans (Finset.card_insert_le msg.l25Shost n.validHosts)
    obtain ⟨e, he, hv⟩ := (mem_validHosts hw').mp hh
    rcases said_step L Rt.valid_earned hw ⟨e, he, hv, rfl⟩ with ⟨cb', env', msg', heq, -, rfl, -⟩ | ⟨x, hx, hv', -⟩
    · obtain ⟨-, -, rfl⟩ := NodeEvent.mesh.inj heq
      exact Finset.mem_insert_self _ _
    · exact Finset.mem_insert_of_mem ((mem_validHosts hw).mpr ⟨x, hx, hv'⟩)
  · refine Nat.le_succ_of_le (Finset.card_le_card fun host hh => ?_)
    obtain ⟨e, he, hv⟩ := (mem_validHosts hw').mp hh
    rcases said_step L Rt.valid_earned hw ⟨e, he, hv, rfl⟩ with ⟨cb, env, msg, heq, hcap, -⟩ | ⟨x, hx, hv', -⟩
    · exact absurd ⟨cb, env, msg, heq, hcap⟩ hc
    · exact (mem_validHosts hw).mpr ⟨x, hx, hv'⟩

theorem validHosts_quiet (hw : n.rt.WF) {n' : Node} (hq : Quiet n n') : n'.validHosts.card ≤ n.validHosts.card := by
  refine Finset.card_le_card fun host hh => ?_
  obtain ⟨e, he, hv⟩ := (mem_validHosts (hq.rt.wf hw)).mp hh
  obtain ⟨x, hx, hv', -⟩ := (hq.rt.shrinks hw).said Rt.valid_earned ⟨e, he, hv, rfl⟩
  exact (mem_validHosts hw).mpr ⟨x, hx, hv'⟩

section
variable (h : n.Sound)

theorem handleHello_falls (hk : msg.kind = .hello)
    (ht : msg.ttl = 0 → (n.aodvHandleHello env msg).2.1.any (Sent.isKind .hello) = false) :
    outcomeWeight fanout ((n.aodvHandleHello env msg).1, (n.aodvHandleHello env msg).2.1) <
      n.weight fanout + msg.weight fanout := by
  obtain ⟨nt, st, heq⟩ := handleHello_eq n env msg
  have hnode : (n.aodvHandleHello env msg).1.weight fanout = n.weight fanout := by
    rw [heq]
    exact weight_congr rfl rfl
  have hpos := msg.weight_pos fanout
  rw [outcomeWeight, hnode]
  obtain ⟨hello, hh⟩ := DessertMsg.kind_hello hk
  simp only [aodvHandleHello, hh] at ht ⊢
  split
  · rename_i hlast
    simp only [hlast, if_true] at ht
    generalize ({ hello with
      helloRcvdCount := env.rcvdHellos.getD hello.helloRcvdCount
      helloInterval := n.cfg.helloInterval } : AodvMsgHello) = hello' at ht ⊢
    have hkind : ({ ({ msg with ttl := msg.ttl - 1 } : DessertMsg).setHello hello' with l2Dhost := msg.l2Shost } :
        DessertMsg).kind = .hello :=
      (DessertMsg.kind_congr rfl).trans (DessertMsg.kind_setHello ((DessertMsg.kind_congr rfl).trans hk))
    have hne : msg.ttl ≠ 0 := by
      intro h0
      have hany := ht h0
      simp [Sent.isKind, hkind] at hany
    have hsent : ({ ({ msg with ttl := msg.ttl - 1 } : DessertMsg).setHello hello' with l2Dhost := msg.l2Shost } :
        DessertMsg).weight fanout = relayed fanout 1 (msg.ttl - 1).toNat := by
      rw [DessertMsg.weight, hkind]
      rfl
    have hmsg : msg.weight fanout = relayed fanout 1 msg.ttl.toNat := by rw [DessertMsg.weight, hk]
    rw [sentWeight_one, hsent, hmsg, relayed_pred hne]
    omega
  · split
    · exact Nat.add_lt_add_left hpos _
    · exact Nat.add_lt_add_left hpos _

include h in
theorem handleRerr_falls (hk : msg.kind = .rerr) (hv : n.HitsValid msg) :
    outcomeWeight fanout ((n.aodvHandleRerr env msg).1, (n.aodvHandleRerr env msg).2.1) <
      n.weight fanout + msg.weight fanout := by
  have hw := h.rt.wf
  have hmsg : msg.weight fanout = 1 := by rw [DessertMsg.weight, hk]
  obtain ⟨-, -, rerr, hr⟩ := DessertMsg.kind_rerr hk
  obtain ⟨rt, heq⟩ := handleRerr_eq n env msg
  have hpb : (n.aodvHandleRerr env msg).1.pb = n.pb := by rw [heq]
  rw [outcomeWeight, hmsg, weight, weight, hpb]
  by_cases hb : n.Rebroadcasts env msg
  · have hlt := validHosts_lt hw env msg hv hb
    have hsent : sentWeight fanout (n.aodvHandleRerr env msg).2.1 = fanout := by
      simp only [Rebroadcasts, aodvHandleRerr, hr] at hb ⊢
      split at hb
      · rename_i hflag
        rw [if_pos hflag, sentWeight_one, DessertMsg.weight, DessertMsg.kind_setRerr hk]
        exact Nat.mul_one _
      · exact absurd rfl hb
    have hmul := Nat.mul_le_mul_left fanout (Nat.succ_le_of_lt hlt)
    rw [Nat.mul_succ] at hmul
    simp only [hsent]
    omega
  · have hle := Finset.card_le_card (validHosts_mono hw env msg)
    have hsent : (n.aodvHandleRerr env msg).2.1 = [] := Classical.not_not.mp hb
    have hmul := Nat.mul_le_mul_left fanout hle
    simp only [hsent, sentWeight, List.map_nil, List.sum_nil]
    omega

/-- What a RREQ or RREP that is sent on weighs, if it is. -/
theorem passedWeight_countHop {kind : FrameKind} (hk : msg.kind = kind) {sent : List Sent}
    (ht : msg.ttl = 0 → sent.any (Sent.isKind kind) = false) {base : ℕ}
    (hmsg : ∀ m : DessertMsg, m.kind = kind → m.weight fanout = relayed fanout base m.ttl.toNat) :
    base + passedWeight fanout kind (n.countHop env msg) sent ≤ msg.weight fanout := by
  rw [hmsg msg hk, passedWeight, hmsg _ (countHop_kind.trans hk)]
  by_cases h0 : msg.ttl = 0
  · rw [ht h0, if_neg Bool.false_ne_true]
    exact base_le_relayed fanout base _
  · have httl : (n.countHop env msg).ttl = msg.ttl - 1 := if_pos h0
    rw [httl, relayed_pred h0]
    split
    · exact Nat.le_refl _
    · exact Nat.le_add_right _ _

include h in
theorem handleRrep_falls (hk : msg.kind = .rrep)
    (ht : msg.ttl = 0 → (n.aodvHandleRrep env msg).2.1.any (Sent.isKind .rrep) = false) :
    outcomeWeight fanout ((n.aodvHandleRrep env msg).1, (n.aodvHandleRrep env msg).2.1) <
      n.weight fanout + msg.weight fanout := by
  have hheld := @handleRrep_weight fanout n env msg h.pb hk
  have hpassed := @passedWeight_countHop fanout n env msg _ hk _ ht (1 + fanout) fun m hm => by
    rw [DessertMsg.weight, hm]
  have hroutes := Nat.mul_le_mul_left fanout (validHosts_step roomy h.rt.wf (.mesh .handleRrep env msg))
  rw [Nat.mul_succ] at hroutes
  rw [outcomeWeight_eq, weight]
  refine Nat.lt_of_le_of_lt (Nat.add_le_add hroutes hheld) ?_
  omega

include h in
theorem handleRreq_falls (hk : msg.kind = .rreq)
    (ht : msg.ttl = 0 → (n.aodvHandleRreq env msg).2.1.any (Sent.isKind .rreq) = false) :
    outcomeWeight fanout ((n.aodvHandleRreq env msg).1, (n.aodvHandleRreq env msg).2.1) <
      n.weight fanout + msg.weight fanout := by
  have hheld := @handleRreq_weight fanout n env msg h.pb hk
  have hpassed := @passedWeight_countHop fanout n env msg _ hk _ ht
    (1 + fanout + fanout * relayed fanout (1 + fanout) ttlMax.toNat) fun m hm => by
    rw [DessertMsg.weight, hm]
  have hroutes := Nat.mul_le_mul_left fanout (validHosts_step roomy h.rt.wf (.mesh .handleRreq env msg))
  rw [Nat.mul_succ] at hroutes
  rw [outcomeWeight_eq, weight]
  refine Nat.lt_of_le_of_lt (Nat.add_le_add hroutes hheld) ?_
  omega

/-- A packet that is counted down weighs no more than before, wherever it goes. -/
theorem passedData {sent : List Sent} {n' : Node} (hk : msg.kind = .data) (h0 : msg.ttl ≠ 0)
    (hn : n'.weight fanout ≤ n.weight fanout)
    (hs : sentWeight fanout sent ≤ fanout * relayed fanout 1 (msg.ttl - 1).toNat) :
    outcomeWeight fanout (n', sent) < n.weight fanout + msg.weight fanout := by
  have hmsg : msg.weight fanout = relayed fanout 1 msg.ttl.toNat := by rw [DessertMsg.weight, hk]
  rw [hmsg, relayed_pred h0, outcomeWeight]
  simp only
  omega

theorem dataWeight (hk : msg.kind = .data) {m : DessertMsg} (he : m.exts = msg.exts) (ht : m.ttl = msg.ttl - 1) :
    m.weight fanout = relayed fanout 1 (msg.ttl - 1).toNat := by
  rw [DessertMsg.weight, DessertMsg.kind_congr he, hk, ht]

theorem rerrUnroutable_weight (L : Libdessert) (n : Node) (env : RxEnv) (dhost : MacAddr) :
    sentWeight fanout (n.rerrUnroutable L env dhost).2 ≤ fanout := by
  unfold rerrUnroutable
  simp only
  split
  · exact Nat.zero_le _
  · split
    · exact Nat.zero_le _
    · rename_i rerrMsg rest hc
      rw [sentWeight_one, DessertMsg.weight, createRerr_kind L hc]
      exact Nat.le_of_eq (Nat.mul_one _)

/-- A callback that does not keep the frame sets off less than it is worth; one that keeps it does nothing. -/
def Falls (fanout : ℕ) (n : Node) (msg : DessertMsg) (r : Node × List Sent × Verdict) : Prop :=
  r = (n, [], .keep) ∨ r.2.2 = .drop ∧ outcomeWeight fanout (r.1, r.2.1) < n.weight fanout + msg.weight fanout

theorem falls_nothing {n' : Node} (hn : n'.weight fanout = n.weight fanout) : Falls fanout n msg (n', [], .drop) := by
  refine .inr ⟨rfl, ?_⟩
  have hpos := msg.weight_pos fanout
  simp only [outcomeWeight, hn, sentWeight, List.map_nil, List.sum_nil]
  omega

theorem ttl_ne_zero {ttl : UInt8} (h : ¬ ttl ≤ 0) : ttl ≠ 0 := fun h0 => h (h0 ▸ UInt8.le_refl 0)

theorem forwardBroadcast_falls (hk : msg.kind = .data) : Falls fanout n msg (n.aodvForwardBroadcast env msg) := by
  unfold aodvForwardBroadcast
  split
  · split
    · exact falls_nothing rfl
    · rename_i h0
      simp only
      split
      · exact falls_nothing (weight_congr rfl rfl)
      · refine .inr ⟨rfl, passedData hk (ttl_ne_zero h0) (Nat.le_of_eq (weight_congr rfl rfl)) ?_⟩
        have hweight := @dataWeight fanout msg hk { msg with ttl := msg.ttl - 1, u8 := msg.u8 + 1 } rfl rfl
        simp [sentWeight, Sent.weight, hweight]
  · exact .inl rfl

theorem localUnicast_falls (hk : msg.kind = .data) : Falls fanout n msg (n.aodvLocalUnicast env msg) := by
  unfold aodvLocalUnicast
  split
  · split
    · exact falls_nothing rfl
    · rename_i h0
      simp only
      split
      · exact falls_nothing (weight_congr rfl rfl)
      · refine .inr ⟨rfl, passedData hk (ttl_ne_zero h0) (Nat.le_of_eq (weight_congr rfl rfl)) ?_⟩
        simp [sentWeight, Sent.weight]
  · exact falls_nothing rfl

include h in
theorem forward_falls (L : Libdessert) (hk : msg.kind = .data) : Falls fanout n msg (n.aodvForward L env msg) := by
  have hq : Quiet n (n.aodvForward L env msg).1 := (forward_quietAt L n env msg).quiet
  obtain ⟨ds, rt, rerrLog, heq⟩ := forward_eq L n env msg
  have hpb : (n.aodvForward L env msg).1.pb = n.pb := by rw [heq]
  have hnode : (n.aodvForward L env msg).1.weight fanout ≤ n.weight fanout := by
    rw [weight, weight, hpb]
    exact Nat.add_le_add_right (Nat.mul_le_mul_left fanout (validHosts_quiet h.rt.wf hq)) _
  unfold aodvForward at hnode ⊢
  split
  · exact .inl rfl
  · rename_i hmine
    rw [if_neg hmine] at hnode
    split
    · exact falls_nothing rfl
    · rename_i h0
      rw [if_neg h0] at hnode
      simp only at hnode ⊢
      split
      · exact falls_nothing (weight_congr rfl rfl)
      · rename_i hseq
        rw [if_neg hseq] at hnode
        split
        · rename_i n' nextHop outputIface hroute
          rw [hroute] at hnode
          refine .inr ⟨rfl, passedData hk (ttl_ne_zero h0) hnode ?_⟩
          rw [sentWeight_one, @dataWeight fanout msg hk
            { msg with ttl := msg.ttl - 1, u8 := msg.u8 + 1, l2Dhost := nextHop } rfl rfl]
        · rename_i n' hroute
          rw [hroute] at hnode
          refine .inr ⟨rfl, passedData hk (ttl_ne_zero h0) hnode ?_⟩
          refine (rerrUnroutable_weight L n' env msg.l25Dhost).trans ?_
          exact Nat.le_mul_of_pos_right fanout (base_le_relayed fanout 1 _)

theorem runCallbacks_falls (L : Libdessert) {cbs : List MeshCb}
    (hcbs : ∀ cb ∈ cbs, Falls fanout n msg (n.callback L cb env msg)) :
    outcomeWeight fanout (n.runCallbacks L env msg cbs) < n.weight fanout + msg.weight fanout := by
  induction cbs with
  | nil => exact Nat.lt_add_of_pos_right (msg.weight_pos fanout)
  | cons cb cbs ih =>
    rcases hcbs cb List.mem_cons_self with hkeep | ⟨hdrop, hlt⟩
    · rw [run_keep L hkeep]
      exact ih fun cb' hcb => hcbs cb' (List.mem_cons_of_mem cb hcb)
    · rw [run_drop L hdrop]
      exact hlt

include h in
theorem data_falls (L : Libdessert) (hk : msg.kind = .data) :
    outcomeWeight fanout (n.runCallbacks L env msg dataPipeline) < n.weight fanout + msg.weight fanout := by
  refine runCallbacks_falls L fun cb hcb => ?_
  simp only [dataPipeline, List.mem_cons, List.not_mem_nil, or_false] at hcb
  rcases hcb with rfl | rfl | rfl | rfl
  · exact forwardBroadcast_falls hk
  · simp only [callback, aodvForwardMulticast]
    split
    · exact falls_nothing rfl
    · exact .inl rfl
  · exact forward_falls h L hk
  · exact localUnicast_falls hk

/-! ## Receptions -/

/-- The frame does not go on for nothing: if it carries a RERR that hits any route it hits a valid one, and
otherwise it is not sent on without a ttl. -/
structure Quenches (L : Libdessert) (n : Node) (env : RxEnv) (msg : DessertMsg) : Prop where
  rerr : msg.kind = .rerr → n.HitsValid msg
  ttl : msg.kind ≠ .rerr → msg.ttl = 0 → (n.receive L env msg).2.any (Sent.isKind msg.kind) = false

include h in
theorem handleKind_falls (L : Libdessert) (hv : msg.kind = .rerr → n.HitsValid msg)
    (ht : msg.kind ≠ .rerr → msg.ttl = 0 → (n.handleKind L env msg).2.any (Sent.isKind msg.kind) = false) :
    outcomeWeight fanout (n.handleKind L env msg) < n.weight fanout + msg.weight fanout := by
  unfold handleKind at ht ⊢
  cases hk : msg.kind with
  | hello =>
    rw [hk] at ht
    exact handleHello_falls hk (ht FrameKind.noConfusion)
  | rreq =>
    rw [hk] at ht
    exact handleRreq_falls h hk (ht FrameKind.noConfusion)
  | rerr => exact handleRerr_falls h hk (hv hk)
  | rrep =>
    rw [hk] at ht
    exact handleRrep_falls h hk (ht FrameKind.noConfusion)
  | data => exact data_falls h L hk

include h in
theorem receive_falls (L : Libdessert) (hq : n.Quenches L env msg) :
    outcomeWeight fanout (n.receive L env msg) < n.weight fanout + msg.weight fanout := by
  obtain ⟨nt, st, heq⟩ := dropErrors_eq n env msg
  have hsound : (n.aodvDropErrors env msg).1.Sound := h.step L (.mesh .dropErrors env msg)
  have hweight : (n.aodvDropErrors env msg).1.weight fanout = n.weight fanout := by
    rw [heq]
    exact weight_congr rfl rfl
  have hsent := hq.ttl
  rw [receive_kind] at hsent ⊢
  split
  · rw [outcomeWeight, hweight]
    exact Nat.add_lt_add_left (msg.weight_pos fanout) _
  · rename_i hkeep
    rw [if_neg hkeep] at hsent
    rw [← hweight]
    refine handleKind_falls hsound L (fun hk => ?_) hsent
    have hits := hq.rerr hk
    rw [heq]
    exact hits

end

end Node

end

/-! ## Networks -/

section
variable {N : Type} (L : Libdessert) (neighbors : N → List N)

/-- A frame in flight is lost, or received without going on for nothing. -/
def Net.Subsides (net : Net N) : NetAction N → Prop
  | .own .. => False
  | .lose k => k < net.inFlight.length
  | .receive k now link gossip rcvdHellos => ∃ f, net.inFlight[k]? = some f ∧
      let n := net.nodes f.receiver
      n.Quenches L (Net.rxEnv n f.msg now link gossip rcvdHellos) f.msg

variable [Fintype N]

/-- To how many receivers a node sends at most. -/
def fanout (ifs : N → List Meshif) : ℕ := Finset.univ.sup fun i => max 1 (ifs i).length * (neighbors i).length

/-- What the frames in flight, the valid routes and the packets that wait may yet set off. -/
def Net.unrest (fanout : ℕ) (net : Net N) : ℕ :=
  Cascades.total (Node.weight fanout) (fun f : Flight N => f.msg.weight fanout) net.nodes net.inFlight

variable {L} {neighbors} {ifs : N → List Meshif}

theorem le_fanout (i : N) : max 1 (ifs i).length * (neighbors i).length ≤ fanout neighbors ifs :=
  Finset.le_sup (f := fun i => max 1 (ifs i).length * (neighbors i).length) (Finset.mem_univ i)

omit [Fintype N] in
theorem Net.transmit_weight {fanout : ℕ} {n : Node} {i : N}
    (hf : max 1 n.meshiflist.length * (neighbors i).length ≤ fanout) (sent : List Sent) :
    ((Net.transmit neighbors n i sent).map fun f : Flight N => f.msg.weight fanout).sum ≤ sentWeight fanout sent := by
  have hone : ∀ s : Sent, (((n.frames s).flatMap fun msg => (neighbors i).map fun receiver =>
      ({ receiver, msg } : Flight N)).map fun f => f.msg.weight fanout).sum ≤ s.weight fanout := by
    intro s
    cases s with
    | sys msg => exact Nat.zero_le _
    | mesh msg iface =>
      have hframes : ∀ m ∈ n.frames (.mesh msg iface), m.weight fanout = msg.weight fanout := by
        intro m hm
        cases iface with
        | some iface =>
          obtain rfl := List.mem_singleton.mp hm
          exact DessertMsg.weight_congr (DessertMsg.kind_congr rfl) rfl
        | none =>
          obtain ⟨iface, -, rfl⟩ := List.mem_map.mp hm
          exact DessertMsg.weight_congr (DessertMsg.kind_congr rfl) rfl
      have hlen : (n.frames (.mesh msg iface)).length ≤ max 1 n.meshiflist.length := by
        cases iface with
        | some iface => exact Nat.le_max_left _ _
        | none => exact (List.length_map _).le.trans (Nat.le_max_right _ _)
      refine (List.sum_le_card_nsmul _ (msg.weight fanout) fun w hw => ?_).trans ?_
      · obtain ⟨f, hf, rfl⟩ := List.mem_map.mp hw
        obtain ⟨m, hm, hf⟩ := List.mem_flatMap.mp hf
        obtain ⟨receiver, -, rfl⟩ := List.mem_map.mp hf
        exact (hframes m hm).le
      · refine Nat.mul_le_mul_right _ (le_trans ?_ ((Nat.mul_le_mul_right _ hlen).trans hf))
        simp [List.length_flatMap]
  unfold Net.transmit
  induction sent with
  | nil => exact Nat.le_refl _
  | cons s sent ih =>
    simp only [List.flatMap_cons, List.flatMap_append, List.map_append, List.sum_append]
    exact Nat.add_le_add (hone s) ih

/-- What holds of all daemons at any time. -/
def Net.Standing (ifs : N → List Meshif) (net : Net N) : Prop :=
  ∀ i, (net.nodes i).Sound ∧ (net.nodes i).meshiflist = ifs i

variable [DecidableEq N]

omit [Fintype N] in
theorem Net.Standing.step {net : Net N} (h : net.Standing ifs) (a : NetAction N) :
    (net.step L neighbors a).Standing ifs := by
  intro i
  obtain ⟨evs, he⟩ := Net.step_node L neighbors net a i
  rw [he]
  refine Runs.exec_inv (I := fun n : Node => n.Sound ∧ n.meshiflist = ifs i) (fun n ev hn => ?_) (h i) evs
  exact ⟨hn.1.step L ev, (Node.step_rt L n ev).2.2.2.trans hn.2⟩

/-- Every such reception and loss lowers the unrest. -/
theorem Net.Standing.falls {net : Net N} (h : net.Standing ifs) {a : NetAction N} (ha : net.Subsides L a) :
    (net.step L neighbors a).unrest (fanout neighbors ifs) < net.unrest (fanout neighbors ifs) := by
  cases a with
  | own i ev => exact ha.elim
  | lose k => exact total_lost (List.getElem?_eq_getElem ha) (DessertMsg.weight_pos _ _)
  | receive k now link gossip rcvdHellos =>
    obtain ⟨f, hk, hq⟩ := ha
    have hlt := @Node.receive_falls (fanout neighbors ifs) _ _ _ (h f.receiver).1 L hq
    have hifs := (@Net.Standing.step N L neighbors ifs _ net h (.receive k now link gossip rcvdHellos) f.receiver).2
    simp only [Net.step, hk, Net.update, Function.update_self] at hifs
    simp only [Net.step, hk]
    refine total_received hk (Nat.lt_of_le_of_lt (Nat.add_le_add_left (Net.transmit_weight ?_ _) _) hlt)
    rw [hifs]
    exact le_fanout f.receiver

/-- Whatever has happened in a network, the receptions and losses that follow are no more than its unrest,
unless a daemon does something of its own accord, a frame is sent on without a ttl, or a RERR that hits routes
hits only invalid ones. -/
theorem Net.comes_to_rest (cfg : N → Config) (l25 : N → MacAddr) (before acts : List (NetAction N))
    (h : Runs.Always (Net.step L neighbors) (Net.Subsides L)
      (Runs.exec (Net.step L neighbors) (Net.start cfg l25 ifs) before) acts) :
    acts.length ≤
      (Runs.exec (Net.step L neighbors) (Net.start cfg l25 ifs) before).unrest (fanout neighbors ifs) := by
  have hstart : (Net.start cfg l25 ifs).Standing ifs := fun i => ⟨Node.init_sound _ _ _, rfl⟩
  have hnow : (Runs.exec (Net.step L neighbors) (Net.start cfg l25 ifs) before).Standing ifs :=
    Runs.exec_inv (I := Net.Standing ifs) (fun _ a hs => hs.step a) hstart before
  have hfall := @length_add_rank_le _ _ _ (Net.Standing ifs) _ (Net.unrest (fanout neighbors ifs))
    (fun _ a hs ha => ⟨hs.step a, hs.falls ha⟩) _ _ hnow h
  exact Nat.le_trans (Nat.le_add_right _ _) hfall

omit [Fintype N] [DecidableEq N] in
theorem Net.subsides_of {net : Net N} {k : Nat} {now : Timeval} {link : LinkSample} {gossip : Bool}
    {rcvdHellos : Option UInt8}
    (h : net.inFlight[k]?.any (fun f => decide (f.msg.kind ≠ .rerr ∧ f.msg.ttl ≠ 0)) = true) :
    net.Subsides L (.receive k now link gossip rcvdHellos) := by
  cases hf : net.inFlight[k]? with
  | none =>
    rw [hf] at h
    cases h
  | some f =>
    rw [hf] at h
    obtain ⟨hk, ht⟩ := of_decide_eq_true h
    exact ⟨f, hf, fun hr => absurd hr hk, fun _ h0 => absurd h0 ht⟩

end

/-- A RREQ for a host that is not there goes back and forth in the line. -/
theorem Net.comes_to_rest_line :
    [arrive 0, .lose 0, arrive 0, arrive 0].length ≤
      (Runs.exec (Net.step roomy line.neighbors) (Net.start line.cfg line.l25 fun i => [line.iface i])
        (greetings ++ [.own 0 (.cliSendRreq 777 1000)])).unrest (fanout line.neighbors fun i => [line.iface i]) := by
  refine Net.comes_to_rest (L := roomy) line.cfg line.l25 _ _
    ⟨Net.subsides_of ?_, ?_, Net.subsides_of ?_, Net.subsides_of ?_, trivial⟩
  · decide
  · exact (by decide : 0 < (Runs.exec (Net.step roomy line.neighbors)
      (Net.start line.cfg line.l25 fun i => [line.iface i])
      (greetings ++ [.own 0 (.cliSendRreq 777 1000), arrive 0])).inFlight.length)
  · decide
  · decide

end DesAodv
