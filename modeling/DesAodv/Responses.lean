import DesAodv.FrameKinds
import DesAodv.LocalRepair
import DesAodv.RouteSources

/-!
# What a daemon sends on behalf of a frame

Every message that the reception of a frame makes a daemon send, with what it has
from the frame.
-/

namespace DesAodv

/-- What is sent on behalf of a frame that has not been dropped. -/
inductive Sent.OnBehalf (n : Node) (env : RxEnv) (msg : DessertMsg) : Sent → Prop
  | sys (m : DessertMsg) : OnBehalf n env msg (.sys m)
  | packet {m : DessertMsg} {iface : Option Meshif} (h : m.exts = []) : OnBehalf n env msg (.mesh m iface)
  | rerr {m : DessertMsg} {iface : Option Meshif} (h : m.kind = .rerr) : OnBehalf n env msg (.mesh m iface)
  | hello {m : DessertMsg} (hk : msg.kind = .hello) (h : m.kind = .hello) (hone : 1 ≤ msg.ttl - 1)
      (ht : m.ttl = msg.ttl - 1) (hd : m.l2Dhost = msg.l2Shost) : OnBehalf n env msg (.mesh m (some env.iface))
  | data {m : DessertMsg} {iface : Option Meshif} (hk : msg.kind = .data) (h : m.exts = msg.exts) :
      OnBehalf n env msg (.mesh m iface)
  | rebroadcast (hk : msg.kind = .rreq) : OnBehalf n env msg (.mesh (n.countHop env msg) none)
  | answer (hk : msg.kind = .rreq) (seq : UInt32) :
      OnBehalf n env msg (.mesh (Node.createRrep n.l25Defsrc msg.l25Shost msg.l2Shost seq 0 0 n.cfg.metricStartvalue)
        (some env.iface))
  | repair (hk : msg.kind = .rreq) {rreq : AodvMsgRreq} (hr : msg.getRreq = some rreq) {r : Route}
      (h : (n.rt.step (n.rreqOp env msg rreq)).Knows msg.l25Dhost r) (seq : UInt32) :
      OnBehalf n env msg (.mesh (Node.createRrep msg.l25Dhost msg.l25Shost msg.l2Shost seq 0 r.hopCount r.metric)
        (some env.iface))
  | rrep (hk : msg.kind = .rrep) {rrep : AodvMsgRrep} (hr : msg.getRrep = some rrep) {r : Route}
      (h : (n.rt.step (n.rrepOp env msg rrep)).Knows msg.l25Dhost r) (l2Dhost : MacAddr) :
      OnBehalf n env msg (.mesh { n.countHop env msg with l2Dhost } r.outputIface)

namespace Node

variable {n : Node} {env : RxEnv} {msg : DessertMsg}

theorem kind_packet {m : DessertMsg} (h : m.exts = []) : m.kind = .data := by
  simp [DessertMsg.kind, DessertMsg.getHello, DessertMsg.getRreq, DessertMsg.getRerr, DessertMsg.getRrep, h]

theorem handleHello_onBehalf (hk : msg.kind = .hello) :
    ∀ s ∈ (n.aodvHandleHello env msg).2.1, s.OnBehalf n env msg := by
  unfold aodvHandleHello
  split
  · simp
  · simp only
    split
    · rename_i ht
      intro s hs
      rw [List.mem_singleton.mp hs]
      have hkind : ({ msg with ttl := msg.ttl - 1 } : DessertMsg).kind = .hello := (DessertMsg.kind_congr rfl).trans hk
      exact .hello hk ((DessertMsg.kind_congr rfl).trans (DessertMsg.kind_setHello hkind)) ht rfl rfl
    · split <;> simp

theorem handleRerr_onBehalf (hk : msg.kind = .rerr) :
    ∀ s ∈ (n.aodvHandleRerr env msg).2.1, s.OnBehalf n env msg := by
  unfold aodvHandleRerr
  split
  · simp
  · simp only
    split
    · intro s hs
      rw [List.mem_singleton.mp hs]
      exact .rerr (DessertMsg.kind_setRerr hk)
    · simp

theorem data_onBehalf {s : Sent} {iface : Meshif} (h : s.Data iface) : s.OnBehalf n env msg := by
  obtain ⟨m, rfl, hm⟩ := h
  exact .packet hm

theorem handleRreq_onBehalf (hst : n.Stored) (hk : msg.kind = .rreq) :
    ∀ s ∈ (n.aodvHandleRreq env msg).2.1, s.OnBehalf n env msg := by
  obtain ⟨-, rreq, hr⟩ := DessertMsg.kind_rreq hk
  by_cases ho : n.judgeRreq env msg rreq = .old
  · rw [handleRreq_old n env hr ho]
    simp
  · cases hd : env.lflags.l25Dst with
    | true =>
      obtain ⟨buffered, seq, hdata, hsent⟩ := handleRreq_answered hst hd hr ho
      rw [hsent]
      intro s hs
      rcases List.mem_append.mp hs with hs | hs
      · exact data_onBehalf (hdata s hs)
      · rw [List.mem_singleton.mp hs]
        exact .answer hk seq
    | false =>
      obtain ⟨buffered, hdata, hsent⟩ := handleRreq_passed hst hd hr ho
      rw [hsent]
      intro s hs
      rcases List.mem_append.mp hs with hs | hs
      · exact data_onBehalf (hdata s hs)
      · have hpassed : ∀ s ∈ [Sent.mesh (n.countHop env msg) none], s.OnBehalf n env msg := by
          intro s hs
          rw [List.mem_singleton.mp hs]
          exact .rebroadcast hk
        have hcfg := (handleRreq_rt n env hr).1
        unfold rrepOrRebroadcast at hs
        split at hs
        · rename_i seq hl
          obtain ⟨e, hf, hu, -⟩ := localRepair_eq_some.mp hl
          have hknown : (n.aodvHandleRreq env msg).1.rt.known msg.l25Dhost = some e := by
            simpa [Rt.known, Option.filter_eq_some_iff, hu] using hf
          rw [List.mem_singleton.mp hs]
          simp only [countHop_l25Dhost, aodvDbRtGetHopcount, aodvDbRtGetMetric, hknown]
          exact .repair hk hr (r := e.route) ⟨e, hcfg ▸ hf, hu, rfl⟩ seq
        · split at hs
          · split at hs
            · cases hs
            · exact hpassed s hs
          · split at hs
            · exact hpassed s hs
            · cases hs

theorem handleRrep_onBehalf (hst : n.Stored) (hk : msg.kind = .rrep) :
    ∀ s ∈ (n.aodvHandleRrep env msg).2.1, s.OnBehalf n env msg := by
  obtain ⟨-, -, -, rrep, hr⟩ := DessertMsg.kind_rrep hk
  simp only [aodvHandleRrep, hr]
  split
  · simp
  · have hc := captRrep_stored hst (n.countHop env msg).l25Shost (n.countHop env msg).l2Shost env.iface
      rrep.destinationSequenceNumber (n.countHop env msg).u16 (n.countHop env msg).u8 env.now env.now
    split
    · simp
    · split
      · obtain ⟨-, hdata⟩ := sendPackets_stored hc (n.countHop env msg).l25Shost (n.countHop env msg).l2Shost env.iface
        exact fun s hs => data_onBehalf (hdata s hs)
      · split
        · simp
        · rename_i n' nextHop outputIface hn
          have hroute := (getroute2dest_snd _ _ _ _ _).symm.trans (congrArg Prod.snd hn)
          obtain ⟨e, he, hv, -, rfl⟩ := routeTo_eq_some.mp hroute
          intro s hs
          rw [List.mem_singleton.mp hs]
          exact .rrep hk hr (r := e.route) ⟨e, he, Rt.valid_earned.known hv, rfl⟩ nextHop

variable (L : Libdessert)

theorem rerrUnroutable_onBehalf (n' : Node) (dhost : MacAddr) :
    ∀ s ∈ (n'.rerrUnroutable L env dhost).2, s.OnBehalf n env msg := by
  unfold rerrUnroutable
  simp only
  split
  · simp
  · split
    · simp
    · rename_i rerrMsg rest hc
      intro s hs
      rw [List.mem_singleton.mp hs]
      exact .rerr (createRerr_kind L hc)

theorem PassedOn.onBehalf {n' : Node} (hk : msg.kind = .data) {s : Sent} (h : PassedOn L n' env msg s) :
    s.OnBehalf n env msg := by
  obtain ⟨hhello, -, hrerr, -⟩ := DessertMsg.kind_data hk
  cases h with
  | hello hello => exact .data hk (DessertMsg.setHello_none hhello)
  | rerr rerr => exact .data hk (DessertMsg.setRerr_none hrerr)
  | broadcast => exact .data hk rfl
  | data hroute => exact .data hk rfl
  | unroutable hs => exact rerrUnroutable_onBehalf L _ _ _ hs
  | sys m => exact .sys m

theorem runCallbacks_onBehalf (hk : msg.kind = .data) {cbs : List MeshCb}
    (hcbs : ∀ cb ∈ cbs, cb ≠ .handleRreq ∧ cb ≠ .handleRrep) (n' : Node) :
    ∀ s ∈ (n'.runCallbacks L env msg cbs).2, s.OnBehalf n env msg := by
  induction cbs generalizing n' with
  | nil => simp [runCallbacks]
  | cons cb cbs ih =>
    obtain ⟨hq, hp⟩ := hcbs cb List.mem_cons_self
    have hsent : ∀ s ∈ (n'.callback L cb env msg).2.1, s.OnBehalf n env msg := fun s hs =>
      PassedOn.onBehalf L hk (callback_passedOn L hq hp s hs)
    rw [runCallbacks]
    split
    · rename_i n' sent hn
      rw [hn] at hsent
      exact hsent
    · rename_i n' sent hn
      rw [hn] at hsent
      have hrest := ih (fun cb' hcb => hcbs cb' (List.mem_cons_of_mem cb hcb)) n'
      exact fun s hs => (List.mem_append.mp hs).elim (hsent s) (hrest s)

theorem handleKind_onBehalf (hst : n.Stored) : ∀ s ∈ (n.handleKind L env msg).2, s.OnBehalf n env msg := by
  unfold handleKind
  cases hk : msg.kind with
  | hello => exact handleHello_onBehalf hk
  | rreq => exact handleRreq_onBehalf hst hk
  | rerr => exact handleRerr_onBehalf hk
  | rrep => exact handleRrep_onBehalf hst hk
  | data => exact runCallbacks_onBehalf L hk (by decide) n

/-- The neighbor table does not matter to what is sent. -/
theorem onBehalf_congr {nt : NeighborTable} {st : List Schedule} {s : Sent}
    (h : s.OnBehalf { n with nt, st } env msg) : s.OnBehalf n env msg := by
  cases h with
  | sys m => exact .sys m
  | packet h => exact .packet h
  | rerr h => exact .rerr h
  | hello hk h hone ht hd => exact .hello hk h hone ht hd
  | data hk h => exact .data hk h
  | rebroadcast hk => exact .rebroadcast hk
  | answer hk seq => exact .answer hk seq
  | repair hk hr h seq => exact @Sent.OnBehalf.repair n env msg hk _ hr _ h seq
  | rrep hk hr h l2Dhost => exact @Sent.OnBehalf.rrep n env msg hk _ hr _ h l2Dhost

/-- Whatever a daemon sends when it receives a frame, it sends on behalf of the frame, and has not dropped it. -/
theorem receive_onBehalf (hst : n.Stored) {s : Sent} (hs : s ∈ (n.receive L env msg).2) :
    (n.aodvDropErrors env msg).2 = .keep ∧ s.OnBehalf n env msg := by
  have hst' := dropErrors_stored hst env msg
  obtain ⟨nt, st, heq⟩ := dropErrors_eq n env msg
  rw [receive_kind] at hs
  split at hs
  · cases hs
  · rename_i hd
    rw [heq] at hs hst'
    refine ⟨?_, onBehalf_congr (handleKind_onBehalf L hst' s hs)⟩
    cases hv : (n.aodvDropErrors env msg).2 with
    | keep => rfl
    | drop => exact absurd hv hd

/-! ## Routes -/

section
variable {p : RtEntry → Prop} (hp : Rt.Earned p) (hw : n.rt.WF) {host : MacAddr} {r : Route}
include hp hw

theorem callback_said {cb : MeshCb} (h : (n.callback L cb env msg).1.rt.Says p host r) :
    cb.captures env.lflags msg = true ∧ msg.l25Shost = host ∧ r = n.captRoute env msg ∨ n.rt.Says p host r := by
  have hs : (n.step L (.mesh cb env msg)).rt.Says p host r := h
  rcases said_step L hp hw hs with ⟨cb', env', msg', he, hc, hh, hr⟩ | h
  · obtain ⟨rfl, rfl, rfl⟩ := NodeEvent.mesh.inj he
    exact .inl ⟨hc, hh, hr⟩
  · exact .inr h

theorem runCallbacks_said (hm : msg.Plain) {cbs : List MeshCb} (h : (n.runCallbacks L env msg cbs).1.rt.Says p host r) :
    n.rt.Says p host r := by
  have hnone : ∀ cb : MeshCb, ¬ cb.captures env.lflags msg = true := by
    intro cb
    cases cb <;> simp [MeshCb.captures, hm.rreq, hm.rrep]
  induction cbs generalizing n with
  | nil => exact h
  | cons cb cbs ih =>
    have hq : Quiet n (n.callback L cb env msg).1 := callback_quiet (L := L) hm cb
    have hold : (n.callback L cb env msg).1.rt.Says p host r → n.rt.Says p host r := fun hs =>
      (callback_said L hp hw hs).elim (fun hc => absurd hc.1 (hnone cb)) id
    rw [runCallbacks] at h
    split at h
    · rename_i n' sent hn
      rw [hn] at hold
      exact hold h
    · rename_i n' sent hn
      rw [hn] at hold hq
      exact hold (ih (hq.rt.wf hw) h)

theorem handleKind_said (h : (n.handleKind L env msg).1.rt.Says p host r) :
    (msg.kind = .rreq ∨ msg.kind = .rrep) ∧ msg.l25Shost = host ∧ r = n.captRoute env msg ∨ n.rt.Says p host r := by
  unfold handleKind at h
  cases hk : msg.kind with
  | hello =>
    rw [hk] at h
    exact (@callback_said _ _ _ L _ hp hw _ _ .handleHello h).imp_left fun hc => nomatch hc.1
  | rreq =>
    rw [hk] at h
    exact (@callback_said _ _ _ L _ hp hw _ _ .handleRreq h).imp_left fun hc => ⟨.inl rfl, hc.2⟩
  | rerr =>
    rw [hk] at h
    exact (@callback_said _ _ _ L _ hp hw _ _ .handleRerr h).imp_left fun hc => nomatch hc.1
  | rrep =>
    rw [hk] at h
    exact (@callback_said _ _ _ L _ hp hw _ _ .handleRrep h).imp_left fun hc => ⟨.inr rfl, hc.2⟩
  | data =>
    rw [hk] at h
    obtain ⟨-, hq, -, hr⟩ := DessertMsg.kind_data hk
    exact .inr (runCallbacks_said L hp hw ⟨hq, hr⟩ h)

/-- A route is learnt from a RREQ or RREP only, and only if it has not been dropped. -/
theorem receive_said (h : (n.receive L env msg).1.rt.Says p host r) :
    (n.aodvDropErrors env msg).2 = .keep ∧ (msg.kind = .rreq ∨ msg.kind = .rrep) ∧ msg.l25Shost = host ∧
      r = n.captRoute env msg ∨ n.rt.Says p host r := by
  obtain ⟨nt, st, heq⟩ := dropErrors_eq n env msg
  rw [receive_kind] at h
  split at h
  · rw [heq] at h
    exact .inr h
  · rename_i hd
    rw [heq] at h
    have hw' : ({ n with nt, st } : Node).rt.WF := hw
    refine (handleKind_said L hp hw' h).imp_left fun hc => ⟨?_, hc⟩
    cases hv : (n.aodvDropErrors env msg).2 with
    | keep => rfl
    | drop => exact absurd hv hd

end

end Node

end DesAodv
