import DesAodv.DaemonSettings
import DesAodv.IndexAccess
import DesAodv.LinkRates

/-!
# What a daemon survives

Under settings that an operator would choose, a daemon can be ended by what it
receives in two ways only, and by a schedule in one.
-/

namespace DesAodv

open Numerals

/-! ## The tracker -/

theorem purgeTv_pos {trackingFactor interval : UInt16} (ha : Admitted trackingFactor interval) :
    0 < pdrPurgeTv trackingFactor interval := by
  have hi : 0 < interval.toNat := Nat.pos_of_ne_zero fun h => ha.interval (UInt16.toNat_inj.mp h)
  have hpos : 0 < interval.toNat * trackingFactor.toNat := Nat.mul_pos hi ha.pos
  have hle := PdrNeighborTable.product_le ha.le interval
  have hfit : interval.toNat * trackingFactor.toNat * pdrTrackingPurgeFactor < 4294967296 := by
    rw [pdrTrackingPurgeFactor]
    omega
  unfold pdrPurgeTv msec
  rw [UInt32.toNat_ofNat', Nat.mod_eq_of_lt hfit]
  exact Nat.mul_pos (by decide) (Nat.mul_pos hpos (by decide))

namespace PdrNeighborTable

/-- Orderly, with something expected of and by every neighbor, and no entry that is purged at once. -/
structure Fit (nt : PdrNeighborTable) : Prop where
  ok : nt.Ok
  positive : nt.Positive
  lasting : ∀ e ∈ nt.entries, 0 < e.purgeTv

theorem Fit.lifetime_pos {nt : PdrNeighborTable} (hf : nt.Fit) {trackingFactor interval : UInt16}
    (ha : Admitted trackingFactor interval) (addr : MacAddr) : 0 < nt.lifetime trackingFactor addr interval := by
  unfold lifetime
  split
  · exact purgeTv_pos ha
  · rename_i e he
    split
    · exact hf.lasting e (Keyed.lookup_mem he)
    · exact purgeTv_pos ha

/-- What a capture leaves lasts if the captured entry does. -/
theorem Fit.captured_lasting {nt nt' : PdrNeighborTable} (hf : nt.Fit) {trackingFactor interval : UInt16}
    (ha : Admitted trackingFactor interval) {addr : MacAddr} {timestamp currTime : Timeval}
    {f : PdrNeighborEntry → PdrNeighborEntry} (hset : ∀ e : PdrNeighborEntry, e.SameSettings (f e))
    (h : (pdrNtFindOrCreate nt trackingFactor addr interval).bind
      (fun r => pdrNtWrite (pdrNtRenew r.1 r.2 timestamp currTime) r.2.ptr f) = .ok nt') :
    ∀ e ∈ nt'.entries, 0 < e.purgeTv := by
  obtain ⟨nt₁, e₁, hfound, -, hlife⟩ := hf.ok.found trackingFactor addr ha.interval
  rw [hfound] at h
  intro e' he'
  obtain ⟨e, he, hs⟩ := (write_settings hset h).1 e' he'
  rw [hs.purgeTv]
  rcases (findOrCreate_chosen hfound).others e (renew_sub timestamp currTime he) with hold | rfl
  · exact hf.lasting e hold
  · rw [hlife]
    exact hf.lifetime_pos ha addr

end PdrNeighborTable

namespace PdrOp

open PdrNeighborTable

/-- The calls that a fit tracker survives: those of a daemon with admitted settings, but for the query that
divides by what has been received. -/
inductive Safe : PdrOp → Prop
  | capHello {trackingFactor interval : UInt16} (addr : MacAddr) (helloSeq : UInt16) (now : Timeval)
      (ha : Admitted trackingFactor interval) : Safe (.capHello trackingFactor addr helloSeq interval now now now)
  | capHellorsp {trackingFactor interval : UInt16} (addr : MacAddr) (helloCount : UInt8) (now : Timeval)
      (ha : Admitted trackingFactor interval) : Safe (.capHellorsp trackingFactor addr interval helloCount now now)
  | getPdr (addr : MacAddr) (now : Timeval) : Safe (.getPdr addr now)
  | getEtxMul (addr : MacAddr) (now : Timeval) : Safe (.getEtxMul addr now)
  | getRcvdhellocount (addr : MacAddr) (now : Timeval) : Safe (.getRcvdhellocount addr now)
  | cleanup (now : Timeval) : Safe (.cleanup now)
  | updExpected {trackingFactor interval : UInt16} (ha : Admitted trackingFactor interval) :
      Safe (.updExpected trackingFactor interval)

theorem Safe.sane {op : PdrOp} (h : op.Safe) : op.Sane := by
  cases h with
  | capHello addr helloSeq now ha =>
    refine ⟨fun factor addr interval hc => ?_, fun _ _ ho => nomatch ho⟩
    cases hc
    exact ha
  | capHellorsp addr helloCount now ha =>
    refine ⟨fun factor addr interval hc => ?_, fun _ _ ho => nomatch ho⟩
    cases hc
    exact ha
  | updExpected ha =>
    refine ⟨fun _ _ _ hc => (nomatch hc), fun factor interval ho => ?_⟩
    cases ho
    exact ha
  | _ => exact ⟨fun _ _ _ hc => (nomatch hc), fun _ _ ho => nomatch ho⟩

variable {nt nt' : PdrNeighborTable} (hf : nt.Fit) {op : PdrOp}
include hf

theorem call_fit (hs : op.Sane) (h : op.call nt = .ok nt') : nt'.Fit := by
  refine ⟨(kept hf.ok op).1 nt' h, call_positive hf.ok hf.positive hs h, ?_⟩
  cases hc : op.capture with
  | none =>
    intro e' he'
    obtain ⟨e, he, hsame⟩ := (call_uncaptured hc h).1 e' he'
    rw [hsame.purgeTv]
    exact hf.lasting e he
  | some c =>
    obtain ⟨factor, addr, interval⟩ := c
    have ha := hs.captured factor addr interval hc
    cases op with
    | capHello _ _ helloSeq _ timestamp currTime currTime' =>
      cases hc
      exact hf.captured_lasting ha (fun e => e.countHello_settings helloSeq timestamp currTime') h
    | capHellorsp _ _ _ helloCount =>
      cases hc
      exact @Fit.captured_lasting _ _ hf _ _ ha _ _ _ (fun e => { e with nbRcvdHelloCount := helloCount })
        (fun _ => ⟨rfl, rfl, rfl, rfl, rfl⟩) h
    | _ => cases hc

theorem call_survives (hs : op.Safe) : ∃ nt', op.call nt = .ok nt' := by
  cases hs with
  | capHello addr helloSeq now ha =>
    refine (call_ok_iff hf.ok _ rfl).mpr ⟨ha.interval, .inl ?_⟩
    exact Nat.lt_add_of_pos_right (hf.lifetime_pos ha addr)
  | capHellorsp addr helloCount now ha =>
    refine (call_ok_iff hf.ok _ rfl).mpr ⟨ha.interval, .inl ?_⟩
    exact Nat.lt_add_of_pos_right (hf.lifetime_pos ha addr)
  | getEtxMul addr now =>
    cases hl : Keyed.lookup PdrNeighborEntry.etherNeighbor addr nt.entries with
    | none =>
      have hnone : aodvDbPdrNtGetEtxMul nt addr now = .ok (nt, none) := by
        rw [aodvDbPdrNtGetEtxMul, pdrNtFindCleaned, hl]
        rfl
      exact ⟨nt, by rw [call, hnone]; rfl⟩
    | some e =>
      obtain ⟨nt₁, v, hv, -⟩ := getEtxMul_known hf.positive hl now
      exact ⟨nt₁, by rw [call, hv]; rfl⟩
  | @updExpected trackingFactor interval ha =>
    obtain ⟨n, hn⟩ := expectedHellos_ok trackingFactor ha.interval
    exact ⟨{ nt with nbExpectedHellos := n }, by rw [call, aodvDbPdrNtUpdExpected, hn]; rfl⟩
  | _ => exact ⟨_, rfl⟩

theorem exec_survives {ops : List PdrOp} (hs : ∀ op ∈ ops, op.Safe) :
    ∃ nt', Runs.exec step (.ok nt) ops = .ok nt' ∧ nt'.Fit := by
  induction ops generalizing nt with
  | nil => exact ⟨nt, rfl, hf⟩
  | cons op ops ih =>
    have hop := hs op List.mem_cons_self
    obtain ⟨nt₁, h₁⟩ := call_survives hf hop
    have hstep : step (.ok nt) op = .ok nt₁ := h₁
    rw [Runs.exec, hstep]
    exact ih (call_fit hf hop.sane h₁) fun op' h' => hs op' (List.mem_cons_of_mem op h')

end PdrOp

/-! ## Careful commands -/

/-- The gossip types that neither the hold queue nor an assertion ends the daemon with. -/
def AodvGossip.supported : AodvGossip → Bool
  | .gossipNone | .gossip0 | .gossip1 => true
  | _ => false

namespace Daemon

section
variable (H : CliHost)

/-- A command that an operator would give: no interval and no tracking factor of 0, no metric that divides by
what has been received, no gossip type with a hold queue. -/
def Careful : DaemonEvent → Prop
  | .cli .setHelloInterval [arg] _ => UInt16.ofNat (strtoul H.longBits arg.toList) ≠ 0
  | .cli .setTrackingFactor [arg] _ => UInt16.ofNat (strtoul H.longBits arg.toList) ≠ 0
  | .cli .setMetric [metricString] _ => ∀ r, metricOfName metricString = some r → r.1 ≠ .etxAdd
  | .cli .setGossip [gossipString] _ => ∀ t, gossipOfName gossipString = some t → t.supported = true
  | _ => True

/-- What a daemon under such commands survives: a HELLO that is counted announces an interval, and no event
follows a reference to a freed entry or reads an address that is not there. -/
def Harmless (d : Daemon) : DaemonEvent → Prop
  | .mesh .handleHello rx msg =>
    ∀ hello, msg.getHello = some hello → 1 ≤ msg.ttl - 1 ∨ rx.iface.hwaddr = msg.l2Dhost → hello.helloInterval ≠ 0
  | .mesh .handleRerr rx msg =>
    d.node.accessOk (.mesh .handleRerr (rx.env (LinkSample.rssiOnly rx.avgRssi) none) msg) = true
  | .scexecute now avgRssi => d.node.accessOk (.scexecute now avgRssi) = true
  | _ => True

/-- A daemon that runs under such commands. -/
structure Healthy (d : Daemon) : Prop where
  coherent : d.Coherent H
  hold : d.hold = holdQueueInit
  rt : d.node.rt.fault = false
  tracker : ∃ nt, d.tracker = .ok nt ∧ nt.Fit
  admitted : Admitted d.trackingFactor d.node.cfg.helloInterval
  metric : d.node.cfg.metricType ≠ .etxAdd
  gossip : d.node.cfg.gossipType.supported = true

end

variable {H : CliHost} {L : Libdessert} {d d' : Daemon}

theorem Healthy.intact (h : d.Healthy H) : d.Intact :=
  ⟨h.rt, h.coherent.sound.tidy.series.safe, by rw [h.hold]; rfl, h.tracker.imp fun _ ht => ht.1⟩

theorem start_healthy (l25Defsrc : MacAddr) (meshiflist : List Meshif) : (start l25Defsrc meshiflist).Healthy H := by
  have ha : Admitted 10 1000 := ⟨by decide, by decide, by decide⟩
  refine ⟨start_coherent H l25Defsrc meshiflist, rfl, rfl, ?_, ha, AodvMetric.noConfusion, rfl⟩
  have hi : aodvDbPdrNtInit 10 1000 =
      .ok { entries := [], nbExpectedHellos := 10, ts := timeslotCreate 20000000, fresh := 0 } := by decide
  have hrun : Runs.exec PdrOp.step (aodvDbPdrNtInit 10 1000) [] = _ := hi
  obtain ⟨hok, hpos⟩ := PdrOp.reached_positive ha (List.forall_mem_nil _) hrun
  exact ⟨_, hi, hok, hpos, List.forall_mem_nil _⟩

/-! ## The tracker and the hold queue of a healthy daemon -/

theorem metricOps_safe {metricType : AodvMetric} (hm : metricType ≠ .etxAdd) (lastHop : MacAddr) (now : Timeval) :
    ∀ op ∈ metricOps metricType lastHop now, op.Safe := by
  intro op hop
  cases metricType with
  | etxAdd => exact absurd rfl hm
  | etxMul =>
    obtain rfl := List.mem_singleton.mp hop
    exact .getEtxMul lastHop now
  | pdr =>
    obtain rfl := List.mem_singleton.mp hop
    exact .getPdr lastHop now
  | _ => cases hop

theorem Healthy.helloOps_safe (h : d.Healthy H) (rx : MeshRx) (msg : DessertMsg) {hello : AodvMsgHello}
    (hi : 1 ≤ msg.ttl - 1 ∨ rx.iface.hwaddr = msg.l2Dhost → hello.helloInterval ≠ 0) :
    ∀ op ∈ d.helloOps rx msg hello, op.Safe := by
  have ha : hello.helloInterval ≠ 0 → Admitted d.trackingFactor hello.helloInterval :=
    fun h0 => ⟨h.admitted.pos, h.admitted.le, h0⟩
  intro op hop
  unfold helloOps at hop
  split at hop
  · rename_i hreq
    rcases List.mem_pair.mp hop with rfl | rfl
    · exact .capHello _ _ _ (ha (hi (.inl hreq)))
    · exact .getRcvdhellocount _ _
  · split at hop
    · rename_i hrsp
      obtain rfl := List.mem_singleton.mp hop
      exact .capHellorsp _ _ _ (ha (hi (.inr hrsp)))
    · cases hop

theorem Healthy.pdrOps_safe (h : d.Healthy H) {e : DaemonEvent} (he : d.Harmless e) :
    ∀ op ∈ d.pdrOps e, op.Safe := by
  cases e with
  | mesh cb rx msg =>
    cases cb with
    | handleHello =>
      simp only [pdrOps, answersOps]
      cases hh : msg.getHello with
      | none => exact List.forall_mem_nil _
      | some hello => exact h.helloOps_safe rx msg (he hello hh)
    | handleRreq =>
      simp only [pdrOps, answersOps]
      split
      · exact List.forall_mem_nil _
      · exact metricOps_safe h.metric _ _
    | handleRrep =>
      simp only [pdrOps, answersOps]
      split
      · exact List.forall_mem_nil _
      · exact metricOps_safe h.metric _ _
    | _ => exact List.forall_mem_nil _
  | cleanupDatabase now =>
    simp only [pdrOps]
    split
    · exact List.forall_mem_nil _
    · intro op hop
      obtain rfl := List.mem_singleton.mp hop
      exact .cleanup now
  | _ => exact List.forall_mem_nil _

/-- A HELLO that is counted with an interval of 0 ends the daemon. -/
theorem Healthy.hello_zero (h : d.Healthy H) {rx : MeshRx} {msg : DessertMsg} {hello : AodvMsgHello}
    (hc : 1 ≤ msg.ttl - 1 ∨ rx.iface.hwaddr = msg.l2Dhost) (h0 : hello.helloInterval = 0) :
    Runs.exec PdrOp.step d.tracker (d.helloOps rx msg hello) = .error .divisionByZero := by
  obtain ⟨nt, ht, hf⟩ := h.tracker
  have hfound := hf.ok.notFound d.trackingFactor msg.l2Shost
  rw [ht]
  unfold helloOps
  split
  · have hcall : PdrOp.step (.ok nt) (.capHello d.trackingFactor msg.l2Shost msg.u16 hello.helloInterval rx.now rx.now
        rx.now) = .error .divisionByZero := by
      simp only [PdrOp.step, Except.bind, PdrOp.call, aodvDbPdrNtCapHello, h0, hfound, bind]
    rw [Runs.exec, hcall]
    rfl
  · rename_i hreq
    have hcall : PdrOp.step (.ok nt) (.capHellorsp d.trackingFactor msg.l2Shost hello.helloInterval
        hello.helloRcvdCount rx.now rx.now) = .error .divisionByZero := by
      simp only [PdrOp.step, Except.bind, PdrOp.call, aodvDbPdrNtCapHellorsp, h0, hfound, bind]
    rw [if_pos (hc.resolve_left hreq), Runs.exec, hcall]
    rfl

theorem captRreq_empty (msg : DessertMsg) : holdQueueInit.aodvGossipCaptRreq msg = holdQueueInit := rfl

theorem gossip_supported {t : AodvGossip} (ht : t.supported = true) (q : HoldQueue) (msg : DessertMsg) (coin : Bool)
    (now : Timeval) : (q.aodvGossip t msg coin now).1 = q := by
  cases t with
  | gossip3 => cases ht
  | pissog0 => cases ht
  | pissog3 => cases ht
  | _ => rfl

theorem Healthy.holdAnswers_same (h : d.Healthy H) (cb : MeshCb) (env : RxEnv) (coin : Bool) (msg : DessertMsg) :
    (d.holdAnswers cb env coin msg).1 = holdQueueInit := by
  cases cb with
  | handleRreq =>
    simp only [holdAnswers]
    split
    · exact h.hold
    · simp only [gossiped, h.hold, captRreq_empty]
      split
      · exact gossip_supported h.gossip _ _ _ _
      · rfl
  | _ => exact h.hold

/-! ## Events -/

theorem Harmless.accessOk {e : DaemonEvent} {ev : NodeEvent} (hp : Plays e ev) (he : d.Harmless e) :
    d.node.accessOk ev = true := by
  cases hp with
  | mesh cb msg hag =>
    cases cb with
    | handleRerr => exact he
    | _ => rfl
  | scexecute now avgRssi => exact he
  | _ => rfl

theorem Healthy.handle_hold (h : d.Healthy H) {e : DaemonEvent} (hn : ∀ command argv now, e ≠ .cli command argv now) :
    (d.handle H L e).1.hold = holdQueueInit := by
  cases e with
  | mesh cb rx msg =>
    have hhandle : (d.handle H L (.mesh cb rx msg)).1 = (d.callback L cb rx msg).1 := rfl
    rw [hhandle]
    rcases d.callback_cases L cb rx msg with ⟨f, -, hd⟩ | ⟨nt, env, -, -, hd⟩
    · rw [hd]
      exact h.hold
    · rw [hd]
      exact h.holdAnswers_same cb env rx.coin msg
  | sendHello =>
    simp only [Daemon.handle]
    split <;> exact h.hold
  | sendRreq now =>
    simp only [Daemon.handle]
    split <;> exact h.hold
  | cleanupDatabase now =>
    simp only [Daemon.handle, cleanup]
    split <;> exact h.hold
  | gossip3 scheduled =>
    have hempty : d.hold.periodics.isEmpty = true := by rw [h.hold]; rfl
    simp only [Daemon.handle, hempty, Bool.or_true, if_true]
    exact h.hold
  | cli command argv now => exact absurd rfl (hn command argv now)
  | _ => exact h.hold

theorem Healthy.handle (h : d.Healthy H) {e : DaemonEvent} (hn : ∀ command argv now, e ≠ .cli command argv now)
    (he : d.Harmless e) : (d.handle H L e).1.Healthy H := by
  have hp := @handle_played H L d e hn
  obtain ⟨nt, ht, hf⟩ := h.tracker
  have hsettings := hp.settings
  refine ⟨h.coherent.played hp, h.handle_hold hn, ?_, ?_, ?_, ?_, ?_⟩
  · rcases hp.node with hnode | ⟨ev, hev, hnode⟩
    · rw [hnode]
      exact h.rt
    · rw [hnode, Node.step_fault L h.coherent.sound.rt.wf ev, h.rt, Harmless.accessOk hev he]
      rfl
  · rw [hp.tracker, ht]
    exact PdrOp.exec_survives hf (h.pdrOps_safe he)
  · rw [hsettings.trackingFactor, hsettings.cfg]
    exact h.admitted
  · rw [hsettings.cfg]
    exact h.metric
  · rw [hsettings.cfg]
    exact h.gossip

/-- An event that follows a bad reference is not survived. -/
theorem Healthy.bad_access (h : d.Healthy H) {ev : NodeEvent}
    (hnode : d'.node = d.node.step L ev) (hi : d'.Intact) : d.node.accessOk ev = true := by
  have hrt := hi.rt
  rw [hnode, Node.step_fault L h.coherent.sound.rt.wf ev, h.rt, Bool.false_or] at hrt
  exact (Bool.not_eq_false' _).mp hrt

theorem Healthy.harmless (h : d.Healthy H) {e : DaemonEvent} (hi : (d.handle H L e).1.Intact) : d.Harmless e := by
  cases e with
  | mesh cb rx msg =>
    have hhandle : (d.handle H L (.mesh cb rx msg)).1 = (d.callback L cb rx msg).1 := rfl
    rw [hhandle] at hi
    obtain ⟨nt', ht'⟩ := hi.tracker
    rcases d.callback_cases L cb rx msg with ⟨f, -, hd⟩ | ⟨nt, env, hops, hag, hd⟩
    · rw [hd] at ht'
      cases ht'
    · cases cb with
      | handleHello =>
        intro hello hh hc h0
        have hzero := h.hello_zero hc h0
        simp only [answersOps, hh] at hops
        cases hzero.symm.trans hops
      | handleRerr => exact @Healthy.bad_access H L d _ h _ (congrArg Daemon.node hd) hi
      | _ => trivial
  | scexecute now avgRssi => exact @Healthy.bad_access H L d _ h (.scexecute now avgRssi) rfl hi
  | _ => trivial

/-! ## Commands -/

section
variable (h : d.Healthy H)
include h

/-- A command that touches none of the settings that matter here. -/
theorem Healthy.congr (hc : d'.Coherent H) (hhold : d'.hold = d.hold) (hrt : d'.node.rt.fault = d.node.rt.fault)
    (ht : d'.tracker = d.tracker) (hf : d'.trackingFactor = d.trackingFactor)
    (hi : d'.node.cfg.helloInterval = d.node.cfg.helloInterval)
    (hm : d'.node.cfg.metricType = d.node.cfg.metricType) (hg : d'.node.cfg.gossipType = d.node.cfg.gossipType) :
    d'.Healthy H :=
  ⟨hc, hhold.trans h.hold, hrt.trans h.rt, ht ▸ h.tracker, by rw [hf, hi]; exact h.admitted, hm ▸ h.metric,
    hg ▸ h.gossip⟩

theorem Healthy.updExpected {trackingFactor helloInterval : UInt16} (ha : Admitted trackingFactor helloInterval) :
    ∃ nt, PdrOp.step d.tracker (.updExpected trackingFactor helloInterval) = .ok nt ∧ nt.Fit := by
  obtain ⟨nt, ht, hf⟩ := h.tracker
  obtain ⟨nt', h'⟩ := PdrOp.call_survives hf (.updExpected ha)
  refine ⟨nt', ?_, PdrOp.call_fit hf (PdrOp.Safe.updExpected ha).sane h'⟩
  rw [ht]
  exact h'

theorem Healthy.routingReset_fault (d' : Daemon) (hrt : d'.node.rt = d.node.rt) :
    d'.node.routingReset.rt.fault = false := by
  have hf := Node.step_fault roomy h.coherent.sound.rt.wf .routingReset
  have heq : d'.node.routingReset.rt = d.node.routingReset.rt := by simp only [Node.routingReset, hrt]
  rw [heq]
  exact hf.trans (by rw [h.rt]; rfl)

theorem Healthy.cliSetGossip {argv : List String} {now : Timeval} (he : Careful H (.cli .setGossip argv now)) :
    (d.cliSetGossip argv).1.Healthy H := by
  have hcoherent := h.coherent.cliSetGossip argv
  rcases argv with _ | ⟨name, _ | ⟨other, rest⟩⟩
  · exact h
  · cases hname : gossipOfName name with
    | none =>
      simp only [Daemon.cliSetGossip, hname] at hcoherent ⊢
      exact ⟨hcoherent, h.hold, h.routingReset_fault d rfl, h.tracker, h.admitted, h.metric, h.gossip⟩
    | some t =>
      simp only [Daemon.cliSetGossip, hname] at hcoherent ⊢
      exact ⟨hcoherent, h.hold, h.routingReset_fault (d.setCfg fun cfg => { cfg with gossipType := t }) rfl, h.tracker,
        h.admitted, h.metric, he t hname⟩
  · exact h

theorem Healthy.cliSetMetric {argv : List String} {now : Timeval} (he : Careful H (.cli .setMetric argv now)) :
    (d.cliSetMetric argv).1.Healthy H := by
  have hcoherent := h.coherent.cliSetMetric argv
  rcases argv with _ | ⟨name, _ | ⟨other, rest⟩⟩
  · exact h
  · cases hname : metricOfName name with
    | none =>
      simp only [Daemon.cliSetMetric, hname] at hcoherent ⊢
      exact ⟨hcoherent, h.hold, h.routingReset_fault d rfl, h.tracker, h.admitted, h.metric, h.gossip⟩
    | some r =>
      simp only [Daemon.cliSetMetric, hname] at hcoherent ⊢
      exact ⟨hcoherent, h.hold, h.routingReset_fault
        (d.setCfg fun cfg => { cfg with metricType := r.1, metricStartvalue := r.2 }) rfl, h.tracker, h.admitted,
        he r hname, h.gossip⟩
  · exact h

theorem Healthy.cliSetTrackingFactor {argv : List String} {now : Timeval}
    (he : Careful H (.cli .setTrackingFactor argv now)) : (d.cliSetTrackingFactor H argv).1.Healthy H := by
  have hcoherent := h.coherent.cliSetTrackingFactor argv
  rcases argv with _ | ⟨arg, _ | ⟨other, rest⟩⟩
  · exact h
  · by_cases hbig : UInt16.ofNat (strtoul H.longBits arg.toList) > 1000
    · simp only [Daemon.cliSetTrackingFactor, hbig, if_true]
      exact h
    · simp only [Daemon.cliSetTrackingFactor, hbig, if_false] at hcoherent ⊢
      have hpos : 1 ≤ (UInt16.ofNat (strtoul H.longBits arg.toList)).toNat :=
        Nat.pos_of_ne_zero fun h0 => he (UInt16.toNat_inj.mp h0)
      have hle : (UInt16.ofNat (strtoul H.longBits arg.toList)).toNat ≤ 1000 := UInt16.not_lt.mp hbig
      have ha := Admitted.mk hpos hle h.admitted.interval
      exact ⟨hcoherent, h.hold, h.rt, h.updExpected ha, ha, h.metric, h.gossip⟩
  · exact h

theorem Healthy.cliSetHelloInterval {argv : List String} {now : Timeval}
    (he : Careful H (.cli .setHelloInterval argv now)) : (d.cliSetHelloInterval H argv).1.Healthy H := by
  have hcoherent := h.coherent.cliSetHelloInterval argv
  rcases argv with _ | ⟨arg, _ | ⟨other, rest⟩⟩
  · exact h
  · have ha := Admitted.mk h.admitted.pos h.admitted.le he
    exact ⟨hcoherent, h.hold, h.rt, h.updExpected ha, ha, h.metric, h.gossip⟩
  · exact h

theorem Healthy.cliSendRreq (argv : List String) (now : Timeval) : (d.cliSendRreq H argv now).1.Healthy H := by
  have hcoherent := h.coherent.cli .sendRreq argv now
  rcases argv with _ | ⟨address, _ | ⟨metric, _ | ⟨other, rest⟩⟩⟩
  · exact h
  · exact h
  · cases hm : H.parseMac address with
    | none =>
      simp only [Daemon.cliSendRreq, hm]
      exact h
    | some host =>
      simp only [Daemon.cli, Daemon.cliSendRreq, hm] at hcoherent ⊢
      have hframe := Node.sendRreq_frame d.node host now
      exact h.congr hcoherent rfl (congrArg Rt.fault hframe.rt) rfl rfl (congrArg Config.helloInterval hframe.cfg)
        (congrArg Config.metricType hframe.cfg) (congrArg Config.gossipType hframe.cfg)
  · exact h

theorem Healthy.cli {command : CliCommand} {argv : List String} {now : Timeval}
    (he : Careful H (.cli command argv now)) : (d.cli H command argv now).1.Healthy H := by
  have hcoherent := h.coherent.cli command argv now
  cases command with
  | setDestOnly =>
    cases hm : H.modeArg argv <;> simp only [Daemon.cli, cliSetDestOnly, hm] at hcoherent ⊢
    · exact h
    · exact h.congr hcoherent rfl rfl rfl rfl rfl rfl rfl
  | setRingSearch =>
    cases hm : H.modeArg argv <;> simp only [Daemon.cli, cliSetRingSearch, hm] at hcoherent ⊢
    · exact h
    · exact h.congr hcoherent rfl rfl rfl rfl rfl rfl rfl
  | setHelloSize =>
    cases hs : H.sizeArg argv <;> simp only [Daemon.cli, cliSetHelloSize, hs] at hcoherent ⊢
    · exact h
    · exact h.congr hcoherent rfl rfl rfl rfl rfl rfl rfl
  | setRreqSize =>
    cases hs : H.sizeArg argv <;> simp only [Daemon.cli, cliSetRreqSize, hs] at hcoherent ⊢
    · exact h
    · exact h.congr hcoherent rfl rfl rfl rfl rfl rfl rfl
  | setHelloInterval => exact h.cliSetHelloInterval he
  | setTrackingFactor => exact h.cliSetTrackingFactor he
  | setGossip => exact h.cliSetGossip he
  | setMetric => exact h.cliSetMetric he
  | setPeriodicRreqInterval =>
    rcases argv with _ | ⟨arg, _ | ⟨other, rest⟩⟩
    · exact h
    · by_cases hoff : UInt16.ofInt (strtol H.longBits arg.toList) = 0 <;>
        simp only [Daemon.cli, cliSetPeriodicRreqInterval, hoff, if_true, if_false] at hcoherent ⊢ <;>
        exact h.congr hcoherent rfl rfl rfl rfl rfl rfl rfl
    · exact h
  | setSignalStrengthThreshold =>
    rcases argv with _ | ⟨arg, _ | ⟨other, rest⟩⟩
    · exact h
    · by_cases hoff : Int8.ofInt (strtol H.longBits arg.toList) = 0 <;>
        simp only [Daemon.cli, cliSetPreemptiveRreqSignalStrengthThreshold, hoff, if_true, if_false] at hcoherent ⊢ <;>
        exact h.congr hcoherent rfl rfl rfl rfl rfl rfl rfl
    · exact h
  | sendRreq => exact h.cliSendRreq argv now

end

/-! ## Runs -/

variable (H L) in
theorem Healthy.step_eq (h : d.Healthy H) (e : DaemonEvent) : d.step H L e = (d.handle H L e).1 := by
  rw [Daemon.step, (ended_iff d).mpr h.intact]
  rfl

theorem Healthy.step (h : d.Healthy H) {e : DaemonEvent} (hc : Careful H e) (he : d.Harmless e) :
    (d.step H L e).Healthy H := by
  rw [h.step_eq H L e]
  cases e with
  | cli command argv now => exact h.cli hc
  | _ => exact h.handle (fun _ _ _ => DaemonEvent.noConfusion) he

theorem Healthy.step_intact_iff (h : d.Healthy H) {e : DaemonEvent} (hc : Careful H e) :
    (d.step H L e).Intact ↔ d.Harmless e := by
  refine ⟨fun hi => ?_, fun he => (h.step hc he).intact⟩
  rw [h.step_eq H L e] at hi
  exact h.harmless hi

end Daemon

end DesAodv
