import DesAodv.Sending
import DesAodv.RerrReception

/-!
# What a daemon with one interface puts on the air

Besides its own RREQs and what it makes of a received RREQ or RREP, everything a
daemon sends is free of both. A received frame is handled by one callback.
-/

namespace DesAodv

/-- Neither a RREQ nor a RREP. -/
structure DessertMsg.Plain (msg : DessertMsg) : Prop where
  rreq : msg.getRreq = none
  rrep : msg.getRrep = none

/-- A message that is neither, on the one interface or to the system. -/
def Sent.Plain (iface : Meshif) : Sent → Prop
  | .mesh msg (some i) => i = iface ∧ msg.Plain
  | .mesh msg none => msg.Plain
  | .sys _ => True

theorem Sent.Data.plain {iface : Meshif} {s : Sent} (h : s.Data iface) : s.Plain iface := by
  obtain ⟨msg, rfl, he⟩ := h
  refine ⟨rfl, ?_, ?_⟩
  · simp [DessertMsg.getRreq, he]
  · simp [DessertMsg.getRrep, he]

namespace DessertMsg

theorem Plain.congr {msg msg' : DessertMsg} (h : msg.Plain) (he : msg'.exts = msg.exts) : msg'.Plain := by
  refine ⟨?_, ?_⟩
  · unfold getRreq
    rw [he]
    exact h.rreq
  · unfold getRrep
    rw [he]
    exact h.rrep

section
variable (msg : DessertMsg) (rerr : AodvMsgRerr) (hello : AodvMsgHello)

@[simp] theorem getRreq_setRerr : (msg.setRerr rerr).getRreq = msg.getRreq := by
  apply findSome?_setExt
  intro e e' hp
  cases e with
  | rerr m => cases Option.some.inj hp; exact ⟨rfl, rfl⟩
  | _ => cases hp

@[simp] theorem getRrep_setRerr : (msg.setRerr rerr).getRrep = msg.getRrep := by
  apply findSome?_setExt
  intro e e' hp
  cases e with
  | rerr m => cases Option.some.inj hp; exact ⟨rfl, rfl⟩
  | _ => cases hp

@[simp] theorem getRreq_setHello : (msg.setHello hello).getRreq = msg.getRreq := by
  apply findSome?_setExt
  intro e e' hp
  cases e with
  | hello m => cases Option.some.inj hp; exact ⟨rfl, rfl⟩
  | _ => cases hp

@[simp] theorem getRrep_setHello : (msg.setHello hello).getRrep = msg.getRrep := by
  apply findSome?_setExt
  intro e e' hp
  cases e with
  | hello m => cases Option.some.inj hp; exact ⟨rfl, rfl⟩
  | _ => cases hp

end

theorem Plain.setRerr {msg : DessertMsg} (h : msg.Plain) (rerr : AodvMsgRerr) : (msg.setRerr rerr).Plain := by
  refine ⟨?_, ?_⟩
  · simp [h.rreq]
  · simp [h.rrep]

theorem Plain.setHello {msg : DessertMsg} (h : msg.Plain) (hello : AodvMsgHello) : (msg.setHello hello).Plain := by
  refine ⟨?_, ?_⟩
  · simp [h.rreq]
  · simp [h.rrep]

theorem Plain.addRerrdl {L : Libdessert} {msg msg' : DessertMsg} (h : msg.Plain) {dl : List AodvMacSeq}
    (ha : L.addRerrdl msg dl = some msg') : msg'.Plain := by
  unfold Libdessert.addRerrdl at ha
  simp only at ha
  split at ha
  · cases ha
  · split at ha
    · rw [← Option.some.inj ha]
      refine ⟨?_, ?_⟩
      · simp only [getRreq, List.findSome?_append]
        exact (congrArg (Option.or · _) h.rreq).trans rfl
      · simp only [getRrep, List.findSome?_append]
        exact (congrArg (Option.or · _) h.rrep).trans rfl
    · cases ha

end DessertMsg

section
variable (L : Libdessert)

theorem addRerrdls_plain (turns : Nat) {msg : DessertMsg} (h : msg.Plain) (destlist : List AodvMacSeq) :
    (addRerrdls L turns msg destlist).1.Plain := by
  induction turns generalizing msg destlist with
  | zero => exact h
  | succ turns ih =>
    rw [addRerrdls]
    split
    · exact h
    · simp only
      split
      · exact h
      · rename_i msg' hm
        exact ih (h.addRerrdl hm) _

namespace Node

theorem createRerr_plain {n : Node} {destlist rest : List AodvMacSeq} {m : DessertMsg}
    (h : n.aodvCreateRerr L destlist = some (m, rest)) : m.Plain := by
  unfold aodvCreateRerr at h
  split at h
  · cases h
  · have hh : n.rerrHeader.Plain := ⟨rfl, rfl⟩
    have hp := addRerrdls_plain L destlist.length hh destlist
    rw [Option.some.inj h] at hp
    exact hp

theorem sendRerrs_plain (n : Node) (turns : Nat) (destlist : List AodvMacSeq) :
    ∀ m ∈ (n.sendRerrs L turns destlist).1, m.Plain := by
  induction turns generalizing destlist with
  | zero => simp [sendRerrs]
  | succ turns ih =>
    by_cases hne : destlist = []
    · subst hne
      rw [sendRerrs_nil]
      simp
    · rw [sendRerrs_cons L n hne]
      intro m hm
      rcases List.mem_cons.mp hm with rfl | hm
      · exact addRerrdls_plain L _ ⟨rfl, rfl⟩ destlist
      · exact ih _ m hm

/-! ## Routes over the one interface -/

/-- The entries that have a next hop are routed over the interface. -/
def RoutedOver (iface : Meshif) (n : Node) : Prop :=
  ∀ host e, n.rt.find host = some e → e.flags.nextHopUnknown = false → e.outputIface = some iface

variable {L} {iface : Meshif} {n : Node}

theorem RoutedOver.routeTo (h : n.RoutedOver iface) {host nextHop : MacAddr} {i : Option Meshif}
    (hr : n.routeTo host = some (nextHop, i)) : i = some iface := by
  obtain ⟨e, he, hv, -, rfl⟩ := routeTo_eq_some.mp hr
  simp only [RtEntry.valid, Bool.and_eq_true, Bool.not_eq_true'] at hv
  exact h host e he hv.1

theorem RoutedOver.quiet (h : n.RoutedOver iface) (hw : n.rt.WF) {n' : Node} (hq : Quiet n n') :
    n'.RoutedOver iface := by
  intro host e' he' hk
  obtain ⟨e, he, hwk⟩ := (hq.rt.shrinks hw).entry host e' he'
  rw [hwk.outputIface]
  exact h host e he (hwk.unknown ▸ hk)

/-! ## What callbacks pass on -/

/-- What is sent on behalf of a received message that is neither a RREQ nor a RREP. -/
inductive PassedOn (L : Libdessert) (n : Node) (env : RxEnv) (msg : DessertMsg) : Sent → Prop
  | hello (hello : AodvMsgHello) :
      PassedOn L n env msg
        (.mesh { ({ msg with ttl := msg.ttl - 1 } : DessertMsg).setHello hello with l2Dhost := msg.l2Shost }
          (some env.iface))
  | rerr (rerr : AodvMsgRerr) : PassedOn L n env msg (.mesh (msg.setRerr rerr) none)
  | broadcast : PassedOn L n env msg (.mesh { msg with ttl := msg.ttl - 1, u8 := msg.u8 + 1 } none)
  | data {nextHop : MacAddr} {i : Option Meshif} (h : n.routeTo msg.l25Dhost = some (nextHop, i)) :
      PassedOn L n env msg (.mesh { msg with ttl := msg.ttl - 1, u8 := msg.u8 + 1, l2Dhost := nextHop } i)
  | unroutable {n' : Node} {s : Sent} (h : s ∈ (n'.rerrUnroutable L env msg.l25Dhost).2) : PassedOn L n env msg s
  | sys (m : DessertMsg) : PassedOn L n env msg (.sys m)

section
variable (L) {env : RxEnv} {msg : DessertMsg}

theorem forward_passedOn : ∀ s ∈ (n.aodvForward L env msg).2.1, PassedOn L n env msg s := by
  unfold aodvForward
  split
  · simp
  · split
    · simp
    · simp only
      split
      · simp
      · split
        · rename_i n' nextHop outputIface hn
          intro s hs
          rw [List.mem_singleton.mp hs]
          exact .data ((getroute2dest_snd _ msg.l25Dhost env.now env.now aodvFlagsUnused).symm.trans
            (congrArg Prod.snd hn))
        · exact fun s hs => .unroutable hs

theorem callback_passedOn {cb : MeshCb} (hq : cb ≠ .handleRreq) (hp : cb ≠ .handleRrep) :
    ∀ s ∈ (n.callback L cb env msg).2.1, PassedOn L n env msg s := by
  cases cb with
  | handleRreq => exact absurd rfl hq
  | handleRrep => exact absurd rfl hp
  | dropErrors => simp [callback]
  | handleHello =>
    simp only [callback, aodvHandleHello]
    split
    · simp
    · split
      · intro s hs
        rw [List.mem_singleton.mp hs]
        exact .hello _
      · split <;> simp
  | handleRerr =>
    simp only [callback, aodvHandleRerr]
    split
    · simp
    · split
      · intro s hs
        rw [List.mem_singleton.mp hs]
        exact .rerr _
      · simp
  | forwardBroadcast =>
    simp only [callback, aodvForwardBroadcast]
    split
    · split
      · simp
      · split
        · simp
        · intro s hs
          rcases List.mem_cons.mp hs with rfl | hs
          · exact .broadcast
          · rw [List.mem_singleton.mp hs]
            exact .sys _
    · simp
  | forwardMulticast => simp [callback, aodvForwardMulticast]
  | forward => exact forward_passedOn L
  | localUnicast =>
    simp only [callback, aodvLocalUnicast]
    split
    · split
      · simp
      · split
        · simp
        · intro s hs
          rw [List.mem_singleton.mp hs]
          exact .sys _
    · simp

end

/-! ## Plain frames -/

section
variable (hr : n.RoutedOver iface) (hst : n.Stored) {env : RxEnv} (he : env.iface = iface) {msg : DessertMsg}
  (hm : msg.Plain)

theorem rerrUnroutable_plain (n : Node) (env : RxEnv) (dhost : MacAddr) :
    ∀ s ∈ (n.rerrUnroutable L env dhost).2, s.Plain iface := by
  unfold rerrUnroutable
  simp only
  split
  · simp
  · split
    · simp
    · rename_i rerrMsg rest hc
      intro s hs
      rw [List.mem_singleton.mp hs]
      exact createRerr_plain L hc

include hr he hm

theorem PassedOn.plain {s : Sent} (h : PassedOn L n env msg s) : s.Plain iface := by
  cases h with
  | hello hello =>
    have hp : ({ msg with ttl := msg.ttl - 1 } : DessertMsg).Plain := hm.congr rfl
    exact ⟨he, (hp.setHello hello).congr rfl⟩
  | rerr rerr => exact hm.setRerr rerr
  | broadcast => exact hm.congr rfl
  | data hroute =>
    obtain rfl := hr.routeTo hroute
    exact ⟨rfl, hm.congr rfl⟩
  | unroutable hs => exact rerrUnroutable_plain _ env msg.l25Dhost _ hs
  | sys m => trivial

/-- A callback sends nothing but plain messages on behalf of a plain one. -/
theorem callback_plain (cb : MeshCb) : ∀ s ∈ (n.callback L cb env msg).2.1, s.Plain iface := by
  by_cases hq : cb = .handleRreq
  · subst hq
    simp [callback, aodvHandleRreq, hm.rreq]
  · by_cases hp : cb = .handleRrep
    · subst hp
      simp [callback, aodvHandleRrep, hm.rrep]
    · exact fun s hs => (callback_passedOn L hq hp s hs).plain hr he hm

omit hr he in
theorem callback_quiet (cb : MeshCb) : Quiet n (n.callback L cb env msg).1 := by
  obtain ⟨hrt, hc, hl, hi⟩ := step_rt L n (.mesh cb env msg)
  refine ⟨hc, hl, hi, ?_⟩
  cases hrt with
  | quiet h => exact h
  | rreq env' msg' m hev hg h =>
    obtain ⟨rfl, rfl, rfl⟩ := NodeEvent.mesh.inj hev
    rw [hm.rreq] at hg
    cases hg
  | rrep env' msg' m hev hg hd h =>
    obtain ⟨rfl, rfl, rfl⟩ := NodeEvent.mesh.inj hev
    rw [hm.rrep] at hg
    cases hg

theorem runCallbacks_plain (hw : n.rt.WF) (hst : n.Stored) (cbs : List MeshCb) :
    Quiet n (n.runCallbacks L env msg cbs).1 ∧ (n.runCallbacks L env msg cbs).1.Stored ∧
      ∀ s ∈ (n.runCallbacks L env msg cbs).2, s.Plain iface := by
  induction cbs generalizing n with
  | nil => exact ⟨(Frame.refl n).quiet, hst, by simp [runCallbacks]⟩
  | cons cb cbs ih =>
    have hq : Quiet n (n.callback L cb env msg).1 := callback_quiet hm cb
    have hp := callback_plain (L := L) hr he hm cb
    have hs := step_stored L hst (.mesh cb env msg)
    simp only [step, handle] at hs
    rw [runCallbacks]
    split
    · rename_i n' sent hn
      rw [hn] at hq hp hs
      exact ⟨hq, hs, hp⟩
    · rename_i n' sent hn
      rw [hn] at hq hp hs
      obtain ⟨hq', hs', hp'⟩ := ih (hr.quiet hw hq) (hq.rt.wf hw) hs
      refine ⟨hq.trans hq', hs', fun s hmem => ?_⟩
      rcases List.mem_append.mp hmem with hmem | hmem
      · exact hp s hmem
      · exact hp' s hmem

end

/-! ## Own events -/

section
variable (hr : n.RoutedOver iface) (hst : n.Stored)
include hr hst

theorem sys2rp_sent {msg : DessertMsg} (hm : msg.exts = []) (now : Timeval) :
    ∀ s ∈ (n.aodvSys2rp msg now).2, s.Plain iface ∨ s.Own n.l25Defsrc := by
  have hplain : msg.Plain := by
    refine ⟨?_, ?_⟩
    · simp [DessertMsg.getRreq, hm]
    · simp [DessertMsg.getRrep, hm]
  unfold aodvSys2rp
  simp only
  split
  · intro s hs
    rw [List.mem_singleton.mp hs]
    exact .inl (hplain.congr rfl)
  · split
    · simp
    · split
      · rename_i n' nextHop outputIface hn
        have hroute := (getroute2dest_snd n msg.l25Dhost now now aodvFlagsRouteLocalUsed).symm.trans
          (congrArg Prod.snd hn)
        have hi := hr.routeTo hroute
        subst hi
        intro s hs
        rw [List.mem_singleton.mp hs]
        exact .inl ⟨rfl, hplain.congr rfl⟩
      · rename_i n' hn
        have h' := getroute2dest_stored hst hn
        have hl : n'.l25Defsrc = n.l25Defsrc := (congrArg (fun r => r.1.l25Defsrc) hn).symm
        have hb : ({ n' with pb := pbPushPacket n'.pb msg.l25Dhost { msg with ttl := 255, u8 := 0 } now now } :
            Node).Stored := by
          refine ⟨pbPushPacket_spec h'.packets msg.l25Dhost ?_ now now, h'.series⟩
          exact hm
        intro s hs
        have ho := (sendRreq_stored hb msg.l25Dhost now).2 s hs
        exact .inr (hl ▸ ho)

omit hr in
theorem scexecute_sent (now : Timeval) (avgRssi : Int8) :
    ∀ s ∈ (n.aodvPeriodicScexecute L now avgRssi).2, s.Plain iface ∨ s.Own n.l25Defsrc := by
  unfold aodvPeriodicScexecute
  split
  · simp
  · rename_i sc st _
    have hst' : ({ n with st } : Node).Stored := hst.congr rfl rfl rfl
    simp only
    split
    · split
      · intro s hs
        exact .inr ((sendRreqReal_stored hst' _ now).2 s hs)
      · simp
    · simp only [scSendOutRerr]
      split
      · simp
      · split
        · simp
        · split
          · simp
          · intro s hs
            obtain ⟨m, hm, rfl⟩ := List.mem_map.mp hs
            exact .inl (sendRerrs_plain L _ _ _ m hm)
    · have hst'' : ({ n with
          st, rt := (aodvDbRtGetWarnEndpointsFromNeighborAndSetWarn n.rt sc.etherAddr).1 } : Node).Stored :=
        hst.congr rfl rfl rfl
      intro s hs
      exact .inr ((sendRreqs_stored hst'' _ now).2 s hs)
    · split
      · split <;> simp
      · simp

/-- What a daemon sends of its own accord is plain or an own RREQ. -/
theorem handle_own {ev : NodeEvent} (hev : ∀ cb env msg, ev ≠ .mesh cb env msg) :
    ∀ s ∈ (n.handle L ev).2, s.Plain iface ∨ s.Own n.l25Defsrc := by
  cases ev with
  | mesh cb env msg => exact absurd rfl (hev cb env msg)
  | sysRx l25Shost l25Dhost payload now => exact sys2rp_sent hr hst rfl now
  | cliSendRreq host now => exact fun s hs => .inr ((sendRreq_stored hst host now).2 s hs)
  | routingReset => simp [handle]
  | neighborReset => simp [handle]
  | sendHello =>
    simp only [handle]
    split
    · simp
    · intro s hs
      rw [List.mem_singleton.mp hs]
      exact .inl ⟨rfl, rfl⟩
  | sendRreq now =>
    simp only [handle]
    split
    · simp
    · exact fun s hs => .inr ((sendRreqs_stored hst _ now).2 s hs)
  | cleanupDatabase now =>
    simp only [handle]
    split <;> simp
  | scexecute now avgRssi =>
    simp only [handle]
    split
    · simp
    · exact scexecute_sent hst now avgRssi

omit hr hst in
theorem step_own_quiet {ev : NodeEvent} (hev : ∀ cb env msg, ev ≠ .mesh cb env msg) :
    Quiet n (n.step L ev) := by
  obtain ⟨hrt, hc, hl, hi⟩ := step_rt L n ev
  refine ⟨hc, hl, hi, ?_⟩
  cases hrt with
  | quiet h => exact h
  | rreq env msg m he hg h => exact absurd he (hev _ env msg)
  | rrep env msg m he hg hd h => exact absurd he (hev _ env msg)

end

/-! ## Frames with a RREQ or a RREP -/

section
variable (L n) (env : RxEnv) {msg : DessertMsg}

theorem receive_rreq {rreq : AodvMsgRreq} (he : msg.exts = [.rreq rreq]) :
    n.receive L env msg =
      if (n.aodvDropErrors env msg).2 = .drop then ((n.aodvDropErrors env msg).1, [])
      else
        (((n.aodvDropErrors env msg).1.aodvHandleRreq env msg).1,
          ((n.aodvDropErrors env msg).1.aodvHandleRreq env msg).2.1) := by
  have hr : msg.getRreq = some rreq := by simp [DessertMsg.getRreq, he]
  have hh : msg.getHello = none := by simp [DessertMsg.getHello, he]
  have hd : ((n.aodvDropErrors env msg).1.aodvHandleRreq env msg).2.2 = .drop := by
    simp only [aodvHandleRreq, hr]
    split <;> rfl
  simp only [receive, meshPipeline, runCallbacks, callback]
  generalize n.aodvDropErrors env msg = r at hd
  obtain ⟨n', verdict⟩ := r
  cases verdict with
  | drop => rfl
  | keep =>
    simp only [aodvHandleHello, hh]
    generalize n'.aodvHandleRreq env msg = r at hd
    obtain ⟨n'', sent, verdict⟩ := r
    simp only at hd
    subst hd
    rfl

theorem receive_rrep {rrep : AodvMsgRrep} (he : msg.exts = [.rrep rrep]) :
    n.receive L env msg =
      if (n.aodvDropErrors env msg).2 = .drop then ((n.aodvDropErrors env msg).1, [])
      else
        (((n.aodvDropErrors env msg).1.aodvHandleRrep env msg).1,
          ((n.aodvDropErrors env msg).1.aodvHandleRrep env msg).2.1) := by
  have hr : msg.getRrep = some rrep := by simp [DessertMsg.getRrep, he]
  have hh : msg.getHello = none := by simp [DessertMsg.getHello, he]
  have hq : msg.getRreq = none := by simp [DessertMsg.getRreq, he]
  have he' : msg.getRerr = none := by simp [DessertMsg.getRerr, he]
  have hd : ((n.aodvDropErrors env msg).1.aodvHandleRrep env msg).2.2 = .drop := by
    simp only [aodvHandleRrep, hr]
    split
    · rfl
    · split
      · rfl
      · split
        · rfl
        · split <;> rfl
  simp only [receive, meshPipeline, runCallbacks, callback]
  generalize n.aodvDropErrors env msg = r at hd
  obtain ⟨n', verdict⟩ := r
  cases verdict with
  | drop => rfl
  | keep =>
    simp only [aodvHandleHello, hh, aodvHandleRreq, hq, aodvHandleRerr, he']
    generalize n'.aodvHandleRrep env msg = r at hd
    obtain ⟨n'', sent, verdict⟩ := r
    simp only at hd
    subst hd
    rfl

end

end Node

end

end DesAodv
