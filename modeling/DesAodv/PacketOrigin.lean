import DesAodv.DaemonTables
import DesAodv.Originated
import DesAodv.Overheard
import DesAodv.PacketDelivery
import DesAodv.Responses

/-!
# Where packets come from

Packets wait in buffers, are in flight, or are handed to a system. On the way a
daemon changes their ttl, hop count, number and next hop, and nothing else: what
held of them when they came from a system still holds when they get to one.
-/

namespace DesAodv

/-- What holds of a packet holds of it wherever it goes. -/
structure Intrinsic (P : DessertMsg → Prop) : Prop where
  plain : ∀ {msg}, P msg → msg.exts = []
  onward : ∀ {msg msg' : DessertMsg}, P msg → msg'.l25Shost = msg.l25Shost → msg'.l25Dhost = msg.l25Dhost →
    msg'.payload = msg.payload → msg'.exts = msg.exts → P msg'

/-- Of every packet that is sent `P` holds, and those for the system are for one of its addresses. -/
def Sent.Carries (P : DessertMsg → Prop) (own : MacAddr → Prop) : Sent → Prop
  | .mesh msg _ => msg.kind = .data → P msg
  | .sys msg => P msg ∧ own msg.l25Dhost

namespace Node

def Buffers (P : DessertMsg → Prop) (n : Node) : Prop := ∀ q ∈ n.pb.entries, ∀ msg ∈ q.fl, P msg

structure Carries (P : DessertMsg → Prop) (own : MacAddr → Prop) (r : Node × List Sent) : Prop where
  buffers : r.1.Buffers P
  sent : ∀ s ∈ r.2, s.Carries P own

section
variable {P : DessertMsg → Prop} {own : MacAddr → Prop} {n : Node}

theorem Buffers.congr (h : n.Buffers P) {n' : Node} (hp : n'.pb = n.pb) : n'.Buffers P := by
  unfold Buffers
  rw [hp]
  exact h

theorem Buffers.nothing (h : n.Buffers P) {n' : Node} (hp : n'.pb = n.pb) : Carries P own (n', []) :=
  ⟨h.congr hp, by simp⟩

theorem carries_one {s : Sent} (hs : s.Carries P own) : ∀ s' ∈ [s], s'.Carries P own :=
  fun _ hs' => List.mem_singleton.mp hs' ▸ hs

theorem carries_kind {msg : DessertMsg} {kind : FrameKind} (h : msg.kind = kind) (hne : kind ≠ .data)
    (iface : Option Meshif) : (Sent.mesh msg iface).Carries P own :=
  fun hk => absurd (h.symm.trans hk) hne

theorem carries_own {l25 : MacAddr} {s : Sent} (h : s.Own l25) : s.Carries P own := by
  obtain ⟨msg, rfl, ho⟩ := h
  exact carries_kind ho.kind (by decide) none

theorem SeriesWork.buffers (h : n.Buffers P) {n' : Node} (hw : SeriesWork n n') : n'.Buffers P := by
  obtain ⟨_, _, _, _, heq⟩ := hw
  have hpb := congrArg Node.pb heq
  exact h.congr hpb

/-! ## The packets of a buffer -/

section
variable (hP : Intrinsic P) (h : n.Buffers P)
include hP h

omit h in
theorem sendBuffered_carries (host nextHop : MacAddr) (iface : Meshif) {acc : Node × List Sent}
    (ha : Carries P own acc) : Carries P own (sendBuffered host nextHop iface acc) := by
  have hp := pbPopPacket_spec ha.buffers host
  unfold sendBuffered
  simp only
  split
  · rename_i pb hpop
    rw [hpop] at hp
    exact ⟨hp.1, ha.sent⟩
  · rename_i pb msg hpop
    rw [hpop] at hp
    refine ⟨hp.1, fun s hs => ?_⟩
    rcases List.mem_append.mp hs with hs | hs
    · exact ha.sent s hs
    · rw [List.mem_singleton.mp hs]
      exact fun _ => hP.onward (hp.2 msg rfl) rfl rfl rfl rfl

theorem sendPackets_carries (host nextHop : MacAddr) (iface : Meshif) :
    Carries P own (n.aodvSendPacketsFromBuffer host nextHop iface) := by
  have hfold : ∀ (packets : List DessertMsg) (acc : Node × List Sent), Carries P own acc →
      Carries P own (packets.foldl (fun acc _ => sendBuffered host nextHop iface acc) acc) := by
    intro packets
    induction packets with
    | nil => exact fun _ ha => ha
    | cons _ packets ih => exact fun acc ha => ih _ (sendBuffered_carries hP host nextHop iface ha)
  obtain ⟨series, st, heq⟩ := deleteSeriesEther_eq n host
  have hpb := congrArg Node.pb heq
  exact hfold _ _ (h.nothing hpb)

theorem rreqAsRrep_carries (env : RxEnv) (msg : DessertMsg) : Carries P own (n.rreqAsRrep env msg) := by
  have hc : (n.captRrep msg.l25Shost msg.l2Shost env.iface 0 msg.u16 msg.u8 env.now env.now).1.Buffers P := h
  simp only [rreqAsRrep]
  split
  · exact sendPackets_carries hP hc _ _ _
  · exact hc.nothing rfl

/-! ## The handlers -/

variable {env : RxEnv} {msg : DessertMsg}

omit hP h in
theorem rrepOrRebroadcast_carries (hk : msg.kind = .rreq) (rreq : AodvMsgRreq) :
    ∀ s ∈ n.rrepOrRebroadcast env msg rreq, s.Carries P own := by
  have hpassed : ∀ s ∈ [Sent.mesh msg none], s.Carries P own := carries_one (carries_kind hk (by decide) none)
  unfold rrepOrRebroadcast
  split
  · exact carries_one (carries_kind (createRrep_kind _ _ _ _ _ _ _) (by decide) _)
  · split
    · split
      · simp
      · exact hpassed
    · split
      · exact hpassed
      · simp

theorem acceptRreq_carries (hk : msg.kind = .rreq) (rreq : AodvMsgRreq) (result : CaptRreqResult) :
    Carries P own (n.acceptRreq env msg rreq result) := by
  have hr := @rreqAsRrep_carries P own n hP h env msg
  simp only [acceptRreq]
  split
  · refine ⟨hr.buffers.congr rfl, fun s hs => ?_⟩
    rcases List.mem_append.mp hs with hs | hs
    · exact hr.sent s hs
    · rw [List.mem_singleton.mp hs]
      exact carries_kind (createRrep_kind _ _ _ _ _ _ _) (by decide) _
  · refine ⟨hr.buffers, fun s hs => ?_⟩
    rcases List.mem_append.mp hs with hs | hs
    · exact hr.sent s hs
    · exact rrepOrRebroadcast_carries hk rreq s hs

theorem handleRreq_carries (hk : msg.kind = .rreq) :
    Carries P own ((n.aodvHandleRreq env msg).1, (n.aodvHandleRreq env msg).2.1) := by
  unfold aodvHandleRreq
  split
  · exact h.nothing rfl
  · rename_i rreq _
    have hc : (n.captRreq (n.countHop env msg).l25Dhost (n.countHop env msg).l25Shost (n.countHop env msg).l2Shost
      env.iface rreq.originatorSequenceNumber (n.countHop env msg).u16 (n.countHop env msg).u8 env.now
      env.now).1.Buffers P := h
    simp only
    split
    · exact hc.nothing rfl
    · exact acceptRreq_carries hP hc (countHop_kind.trans hk) rreq _

theorem handleRrep_carries (hk : msg.kind = .rrep) :
    Carries P own ((n.aodvHandleRrep env msg).1, (n.aodvHandleRrep env msg).2.1) := by
  unfold aodvHandleRrep
  split
  · exact h.nothing rfl
  · rename_i rrep _
    have hc : (n.captRrep (n.countHop env msg).l25Shost (n.countHop env msg).l2Shost env.iface
      rrep.destinationSequenceNumber (n.countHop env msg).u16 (n.countHop env msg).u8 env.now env.now).1.Buffers P := h
    split
    · exact h.nothing rfl
    · simp only
      split
      · exact hc.nothing rfl
      · split
        · exact sendPackets_carries hP hc _ _ _
        · split
          · rename_i n' hn
            obtain rfl := (Prod.mk.inj hn).1
            exact h.nothing rfl
          · rename_i n' nextHop outputIface hn
            obtain rfl := (Prod.mk.inj hn).1
            have hkind : ({ n.countHop env msg with l2Dhost := nextHop } : DessertMsg).kind = .rrep :=
              (DessertMsg.kind_congr rfl).trans hk
            have hpassed : (Sent.mesh { n.countHop env msg with l2Dhost := nextHop } outputIface).Carries P own :=
              carries_kind hkind (by decide) _
            exact ⟨h, carries_one hpassed⟩

omit hP in
theorem handleHello_carries (hk : msg.kind = .hello) :
    Carries P own ((n.aodvHandleHello env msg).1, (n.aodvHandleHello env msg).2.1) := by
  obtain ⟨nt, st, heq⟩ := handleHello_eq n env msg
  have hpb := congrArg Node.pb heq
  refine ⟨h.congr hpb, ?_⟩
  have hkind : ({ msg with ttl := msg.ttl - 1 } : DessertMsg).kind = .hello := (DessertMsg.kind_congr rfl).trans hk
  have hanswer : ∀ (hello : AodvMsgHello) (l2Dhost : MacAddr),
      ({ ({ msg with ttl := msg.ttl - 1 } : DessertMsg).setHello hello with l2Dhost } : DessertMsg).kind = .hello :=
    fun _ _ => (DessertMsg.kind_congr rfl).trans (DessertMsg.kind_setHello hkind)
  unfold aodvHandleHello
  split
  · simp
  · simp only
    split
    · exact carries_one (carries_kind (hanswer _ _) (by decide) _)
    · split <;> simp

omit hP in
theorem handleRerr_carries (hk : msg.kind = .rerr) :
    Carries P own ((n.aodvHandleRerr env msg).1, (n.aodvHandleRerr env msg).2.1) := by
  obtain ⟨rt, heq⟩ := handleRerr_eq n env msg
  have hpb := congrArg Node.pb heq
  refine ⟨h.congr hpb, ?_⟩
  unfold aodvHandleRerr
  split
  · simp
  · simp only
    split
    · exact carries_one (carries_kind (DessertMsg.kind_setRerr hk) (by decide) none)
    · simp

/-! ## Packets that are received -/

section
variable (L : Libdessert) (hm : P msg)
include hm

omit hP hm in
theorem rerrUnroutable_carries (dhost : MacAddr) : Carries P own (n.rerrUnroutable L env dhost) := by
  unfold rerrUnroutable
  simp only
  split
  · exact h.nothing rfl
  · split
    · exact h.nothing rfl
    · rename_i rerrMsg rest hr
      exact ⟨h, carries_one (carries_kind (createRerr_kind L hr) (by decide) none)⟩

theorem forward_carries : Carries P own ((n.aodvForward L env msg).1, (n.aodvForward L env msg).2.1) := by
  unfold aodvForward
  split
  · exact h.nothing rfl
  · split
    · exact h.nothing rfl
    · simp only
      split
      · exact h.nothing rfl
      · split
        · rename_i n' nextHop outputIface hn
          obtain rfl := (Prod.mk.inj hn).1
          have hout : P { msg with ttl := msg.ttl - 1, u8 := msg.u8 + 1, l2Dhost := nextHop } :=
            hP.onward hm rfl rfl rfl rfl
          exact ⟨h, carries_one fun _ => hout⟩
        · rename_i n' hn
          obtain rfl := (Prod.mk.inj hn).1
          refine rerrUnroutable_carries ?_ L msg.l25Dhost
          exact h

theorem forwardBroadcast_carries (hown : env.lflags.l25Broadcast = true → own msg.l25Dhost) :
    Carries P own ((n.aodvForwardBroadcast env msg).1, (n.aodvForwardBroadcast env msg).2.1) := by
  unfold aodvForwardBroadcast
  split
  · rename_i hb
    split
    · exact h.nothing rfl
    · simp only
      split
      · exact h.nothing rfl
      · have hout : P { msg with ttl := msg.ttl - 1, u8 := msg.u8 + 1 } := hP.onward hm rfl rfl rfl rfl
        refine ⟨h.congr rfl, fun s hs => ?_⟩
        rcases List.mem_cons.mp hs with rfl | hs
        · exact fun _ => hout
        · rw [List.mem_singleton.mp hs]
          exact ⟨hout, hown hb⟩
  · exact h.nothing rfl

theorem localUnicast_carries (hown : env.lflags.l25Dst = true → own msg.l25Dhost) :
    Carries P own ((n.aodvLocalUnicast env msg).1, (n.aodvLocalUnicast env msg).2.1) := by
  unfold aodvLocalUnicast
  split
  · rename_i hd
    split
    · exact h.nothing rfl
    · simp only
      split
      · exact h.nothing rfl
      · have hout : P { msg with ttl := msg.ttl - 1, u8 := msg.u8 + 1 } := hP.onward hm rfl rfl rfl rfl
        exact ⟨h, carries_one ⟨hout, hown hd⟩⟩
  · exact h.nothing rfl

theorem callback_carries {cb : MeshCb} (hcb : cb ∈ dataPipeline)
    (hdst : env.lflags.l25Dst = true → own msg.l25Dhost)
    (hall : env.lflags.l25Broadcast = true → own msg.l25Dhost) :
    Carries P own ((n.callback L cb env msg).1, (n.callback L cb env msg).2.1) := by
  cases cb with
  | forwardBroadcast => exact forwardBroadcast_carries hP h hm hall
  | forwardMulticast => exact h.nothing rfl
  | forward => exact forward_carries hP h L hm
  | localUnicast => exact localUnicast_carries hP h hm hdst
  | _ => exact absurd hcb (by decide)

theorem runCallbacks_carries {cbs : List MeshCb} (hcbs : ∀ cb ∈ cbs, cb ∈ dataPipeline)
    (hdst : env.lflags.l25Dst = true → own msg.l25Dhost)
    (hall : env.lflags.l25Broadcast = true → own msg.l25Dhost) :
    Carries P own (n.runCallbacks L env msg cbs) := by
  induction cbs generalizing n with
  | nil => exact h.nothing rfl
  | cons cb cbs ih =>
    have hcb := callback_carries hP h L hm (hcbs cb List.mem_cons_self) hdst hall
    rw [runCallbacks]
    split
    · rename_i n' sent hn
      rw [hn] at hcb
      exact hcb
    · rename_i n' sent hn
      rw [hn] at hcb
      have hrest := ih hcb.buffers fun cb' hmem => hcbs cb' (List.mem_cons_of_mem cb hmem)
      exact ⟨hrest.buffers, fun s hs => (List.mem_append.mp hs).elim (hcb.sent s) (hrest.sent s)⟩

omit hm in
theorem handleKind_carries (hm : msg.kind = .data → P msg) (hdst : env.lflags.l25Dst = true → own msg.l25Dhost)
    (hall : env.lflags.l25Broadcast = true → own msg.l25Dhost) : Carries P own (n.handleKind L env msg) := by
  unfold handleKind
  cases hk : msg.kind with
  | hello => exact handleHello_carries h hk
  | rreq => exact handleRreq_carries hP h hk
  | rerr => exact handleRerr_carries h hk
  | rrep => exact handleRrep_carries hP h hk
  | data => exact runCallbacks_carries hP h L (hm hk) (fun _ hcb => hcb) hdst hall

omit hm in
theorem receive_carries (hm : msg.kind = .data → P msg) (hdst : env.lflags.l25Dst = true → own msg.l25Dhost)
    (hall : env.lflags.l25Broadcast = true → own msg.l25Dhost) : Carries P own (n.receive L env msg) := by
  obtain ⟨nt, st, heq⟩ := dropErrors_eq n env msg
  have hpb := congrArg Node.pb heq
  rw [receive_kind]
  split
  · exact h.nothing hpb
  · exact handleKind_carries hP (h.congr hpb) L hm hdst hall

end

/-! ## What a daemon sends of its own accord -/

omit hP in
theorem series_carries {l25 : MacAddr} {r : Node × List Sent} (hw : SeriesWork n r.1) (hs : ∀ s ∈ r.2, s.Own l25) :
    Carries P own r := ⟨hw.buffers h, fun s hmem => carries_own (hs s hmem)⟩

theorem sys2rp_carries (hst : n.Stored) (hm : P msg) (now : Timeval) : Carries P own (n.aodvSys2rp msg now) := by
  have hout : ∀ (seq : UInt16) (l2Dhost : MacAddr), P { msg with ttl := 255, u8 := 0, u16 := seq, l2Dhost } :=
    fun _ _ => hP.onward hm rfl rfl rfl rfl
  unfold aodvSys2rp
  simp only
  split
  · exact ⟨h, carries_one fun _ => hout _ msg.l2Dhost⟩
  · split
    · exact h.nothing rfl
    · split
      · rename_i n' nextHop outputIface hn
        obtain rfl := (Prod.mk.inj hn).1
        exact ⟨h, carries_one fun _ => hout _ nextHop⟩
      · rename_i n' hn
        have hst' := getroute2dest_stored hst hn
        obtain rfl := (Prod.mk.inj hn).1
        have hwaits : P { msg with ttl := 255, u8 := 0 } := hP.onward hm rfl rfl rfl rfl
        have hpush : ({ (n.getroute2dest msg.l25Dhost now now aodvFlagsRouteLocalUsed).1 with
            pb := pbPushPacket n.pb msg.l25Dhost { msg with ttl := 255, u8 := 0 } now now } : Node).Buffers P :=
          pbPushPacket_spec h msg.l25Dhost hwaits now now
        have hst'' : ({ (n.getroute2dest msg.l25Dhost now now aodvFlagsRouteLocalUsed).1 with
            pb := pbPushPacket n.pb msg.l25Dhost { msg with ttl := 255, u8 := 0 } now now } : Node).Stored := by
          refine ⟨pbPushPacket_spec hst'.packets msg.l25Dhost ?_ now now, hst'.series⟩
          exact hP.plain hwaits
        exact series_carries hpush (sendRreq_work _ msg.l25Dhost now) (sendRreq_stored hst'' msg.l25Dhost now).2

omit hP in
theorem scexecute_carries (L : Libdessert) (hst : n.Stored) (now : Timeval) (avgRssi : Int8) :
    Carries P own (n.aodvPeriodicScexecute L now avgRssi) := by
  rcases scexecute_cases L hst now avgRssi with ⟨rt, nt, st, hw, hown⟩ | ⟨st, etherAddr, heq⟩
  · exact @series_carries P own { n with rt, nt, st } h _ _ hw hown
  · rw [heq]
    obtain ⟨rt, rerrLog, hung, hnode⟩ := scSendOutRerr_eq L ({ n with st } : Node) etherAddr now
    have hpb := congrArg Node.pb hnode
    refine ⟨h.congr hpb, fun s hs => ?_⟩
    obtain ⟨m, rfl, hm⟩ := scSendOutRerr_sent L _ _ _ s hs
    exact carries_kind hm (by decide) none

/-- What a daemon sends of its own accord are packets of its system, and of its buffer. -/
theorem handle_carries (L : Libdessert) (hst : n.Stored) {ev : NodeEvent}
    (hev : ∀ cb env msg, ev ≠ .mesh cb env msg)
    (hsys : ∀ l25Shost l25Dhost payload now, ev = .sysRx l25Shost l25Dhost payload now →
      P (sysMsg l25Shost l25Dhost payload)) : Carries P own (n.handle L ev) := by
  cases ev with
  | mesh cb env msg => exact absurd rfl (hev cb env msg)
  | sysRx l25Shost l25Dhost payload now =>
    exact sys2rp_carries hP h hst (hsys l25Shost l25Dhost payload now rfl) now
  | cliSendRreq host now => exact series_carries h (sendRreq_work n host now) (sendRreq_stored hst host now).2
  | routingReset => exact h.nothing rfl
  | neighborReset => exact h.nothing rfl
  | sendHello =>
    simp only [handle]
    split
    · exact h.nothing rfl
    · refine ⟨h, carries_one ?_⟩
      exact @carries_kind P own _ .hello rfl (by decide) none
  | sendRreq now =>
    simp only [handle]
    split
    · exact h.nothing rfl
    · exact series_carries h (sendRreqs_work n _ now) (sendRreqs_stored hst _ now).2
  | cleanupDatabase now =>
    simp only [handle]
    split
    · exact h.nothing rfl
    · exact ⟨fun q hq => h q (pbCleanup_mem n.pb now q hq), by simp⟩
  | scexecute now avgRssi =>
    simp only [handle]
    split
    · exact h.nothing rfl
    · exact scexecute_carries h L hst now avgRssi

end

end

end Node

/-! ## Networks -/

section
variable {N : Type}

/-- Some system has given its daemon a packet with these addresses and this payload. -/
def FromSystem (acts : List (NetAction N)) (msg : DessertMsg) : Prop :=
  msg.exts = [] ∧ ∃ j now, NetAction.own j (.sysRx msg.l25Shost msg.l25Dhost msg.payload now) ∈ acts

theorem fromSystem_intrinsic (acts : List (NetAction N)) : Intrinsic (FromSystem acts) where
  plain := And.left
  onward := by
    intro msg msg' h hshost hdhost hpayload hexts
    unfold FromSystem
    rw [hshost, hdhost, hpayload, hexts]
    exact h

theorem FromSystem.later {acts : List (NetAction N)} {msg : DessertMsg} (h : FromSystem acts msg)
    (later : List (NetAction N)) : FromSystem (acts ++ later) msg := by
  obtain ⟨he, j, now, hmem⟩ := h
  exact ⟨he, j, now, List.mem_append_left later hmem⟩

/-- The addresses under which a daemon takes packets for its system. -/
def OwnAddress (l25 host : MacAddr) : Prop := host = l25 ∨ host = etherBroadcast

variable (cfg : N → Config) (l25 : N → MacAddr)

/-- All that waits, is in flight or has been handed over comes from a system. -/
structure Served.Honest (acts : List (NetAction N)) (s : Served N) : Prop where
  keeps : ∀ i, (s.net.nodes i).Keeps (l25 i) (cfg i)
  buffers : ∀ i, (s.net.nodes i).Buffers (FromSystem acts)
  frames : ∀ f ∈ s.net.inFlight, f.msg.kind = .data → FromSystem acts f.msg
  handed : ∀ i msg, (i, msg) ∈ s.handed → FromSystem acts msg ∧ OwnAddress (l25 i) msg.l25Dhost

variable {cfg l25} {acts : List (NetAction N)} {s : Served N}

theorem start_honest (ifs : N → List Meshif) : Served.Honest cfg l25 [] ⟨Net.start cfg l25 ifs, []⟩ where
  keeps := fun i => Node.init_keeps (l25 i) (cfg i) (ifs i)
  buffers := fun i => by simp [Net.start, Node.Buffers, aodvDbInit, pbInit]
  frames := List.forall_mem_nil _
  handed := by simp

theorem toSystem_carries {P : DessertMsg → Prop} {own : MacAddr → Prop} {sent : List Sent}
    (h : ∀ s ∈ sent, s.Carries P own) {i j : N} {msg : DessertMsg} (hm : (j, msg) ∈ toSystem i sent) :
    j = i ∧ P msg ∧ own msg.l25Dhost := by
  obtain ⟨s, hs, hj⟩ := List.mem_filterMap.mp hm
  cases s with
  | mesh m iface => cases hj
  | sys m =>
    cases hj
    exact ⟨rfl, h _ hs⟩

variable [DecidableEq N] {L : Libdessert} {neighbors : N → List N}

/-- A daemon that carries packets of systems keeps the network honest. -/
theorem Served.Honest.update (h : s.Honest cfg l25 acts) {a : NetAction N} {i : N} {r : Node × List Sent}
    {inFlight : List (Flight N)} (hfl : ∀ f ∈ inFlight, f ∈ s.net.inFlight)
    (hk : r.1.Keeps (l25 i) (cfg i)) (hr : Node.Carries (FromSystem (acts ++ [a])) (OwnAddress (l25 i)) r) :
    Served.Honest cfg l25 (acts ++ [a])
      { net := ({ s.net with inFlight } : Net N).update neighbors i r, handed := s.handed ++ toSystem i r.2 } where
  keeps := fun j => by
    by_cases hji : j = i
    · subst hji
      simpa [Net.update] using hk
    · simpa [Net.update, hji] using h.keeps j
  buffers := fun j => by
    by_cases hji : j = i
    · subst hji
      simpa [Net.update] using hr.buffers
    · have hj : (s.net.nodes j).Buffers (FromSystem (acts ++ [a])) :=
        fun q hq msg hm => (h.buffers j q hq msg hm).later [a]
      simpa [Net.update, hji] using hj
  frames := fun f hf hkind => by
    rcases List.mem_append.mp hf with hf | hf
    · exact (h.frames f (hfl f hf) hkind).later [a]
    · obtain ⟨frame, hframe, hf⟩ := List.mem_flatMap.mp hf
      obtain ⟨receiver, -, rfl⟩ := List.mem_map.mp hf
      obtain ⟨sent, hsent, hframe⟩ := List.mem_flatMap.mp hframe
      obtain ⟨msg, iface, b, rfl, rfl, -⟩ := Node.mem_frames hframe
      have hm : msg.kind = .data := (DessertMsg.kind_congr rfl).symm.trans hkind
      exact (fromSystem_intrinsic _).onward (hr.sent _ hsent hm) rfl rfl rfl rfl
  handed := fun j msg hm => by
    rcases List.mem_append.mp hm with hm | hm
    · exact ⟨(h.handed j msg hm).1.later [a], (h.handed j msg hm).2⟩
    · obtain ⟨rfl, hfrom, hown⟩ := toSystem_carries hr.sent hm
      exact ⟨hfrom, hown⟩

omit [DecidableEq N] in
theorem Served.Honest.later (h : s.Honest cfg l25 acts) (a : NetAction N) {inFlight : List (Flight N)}
    (hfl : ∀ f ∈ inFlight, f ∈ s.net.inFlight) :
    Served.Honest cfg l25 (acts ++ [a]) { s with net := { s.net with inFlight } } where
  keeps := h.keeps
  buffers := fun i q hq msg hm => (h.buffers i q hq msg hm).later [a]
  frames := fun f hf hkind => (h.frames f (hfl f hf) hkind).later [a]
  handed := fun i msg hm => ⟨(h.handed i msg hm).1.later [a], (h.handed i msg hm).2⟩

theorem Served.Honest.step (h : s.Honest cfg l25 acts) (a : NetAction N) :
    (s.step L neighbors a).Honest cfg l25 (acts ++ [a]) := by
  have hbuffers : ∀ i, (s.net.nodes i).Buffers (FromSystem (acts ++ [a])) :=
    fun i q hq msg hm => (h.buffers i q hq msg hm).later [a]
  have hkeeps : ∀ i, ((s.net.step L neighbors a).nodes i).Keeps (l25 i) (cfg i) := by
    intro i
    obtain ⟨evs, he⟩ := s.net.step_node L neighbors a i
    rw [he]
    exact Runs.exec_inv (fun n ev hn => hn.step L ev) (h.keeps i) evs
  cases a with
  | own i ev =>
    by_cases hev : ∃ cb env msg, ev = .mesh cb env msg
    · obtain ⟨cb, env, msg, rfl⟩ := hev
      have hsame := h.later (.own i (.mesh cb env msg)) fun _ hf => hf
      simpa [Served.step, Net.step, Net.handed] using hsame
    · have hown : ∀ cb env msg, ev ≠ .mesh cb env msg := fun cb env msg he => hev ⟨cb, env, msg, he⟩
      have hstep : s.step L neighbors (.own i ev) =
          { net := s.net.update neighbors i ((s.net.nodes i).handle L ev)
            handed := s.handed ++ toSystem i ((s.net.nodes i).handle L ev).2 } := by
        cases ev with
        | mesh cb env msg => exact absurd rfl (hown cb env msg)
        | _ => rfl
      have hgiven : ∀ l25Shost l25Dhost payload now, ev = .sysRx l25Shost l25Dhost payload now →
          FromSystem (acts ++ [.own i ev]) (Node.sysMsg l25Shost l25Dhost payload) := by
        intro l25Shost l25Dhost payload now he
        subst he
        exact ⟨rfl, i, now, List.mem_append_right _ (List.mem_singleton_self _)⟩
      rw [hstep]
      apply h.update fun _ hf => hf
      · exact (h.keeps i).step L ev
      · exact Node.handle_carries (fromSystem_intrinsic _) (hbuffers i) L (h.keeps i).stored hown hgiven
  | receive k now link gossip rcvdHellos =>
    have hkept := hkeeps
    simp only [Served.step, Net.step, Net.handed] at hkept ⊢
    cases hf : s.net.inFlight[k]? with
    | none =>
      have hsame := h.later (.receive k now link gossip rcvdHellos) fun _ hf => hf
      simpa using hsame
    | some f =>
      simp only [hf] at hkept ⊢
      apply h.update fun f' hf' => List.mem_of_mem_eraseIdx hf'
      · simpa [Net.update] using hkept f.receiver
      · apply Node.receive_carries (fromSystem_intrinsic _) (hbuffers f.receiver) L
        · exact fun hkind => (h.frames f (List.mem_of_getElem? hf) hkind).later _
        · intro hd
          left
          have haddr : (s.net.nodes f.receiver).l25Defsrc = f.msg.l25Dhost := of_decide_eq_true hd
          rw [← haddr]
          exact (h.keeps f.receiver).launches.address
        · intro hb
          exact .inr (of_decide_eq_true hb)
  | lose k =>
    have hlost := h.later (.lose k) fun f (hf : f ∈ s.net.inFlight.eraseIdx k) => List.mem_of_mem_eraseIdx hf
    simpa [Served.step, Net.step, Net.handed] using hlost

theorem run_honest (cfg : N → Config) (l25 : N → MacAddr) (ifs : N → List Meshif) (acts : List (NetAction N)) :
    (Runs.exec (Served.step L neighbors) ⟨Net.start cfg l25 ifs, []⟩ acts).Honest cfg l25 acts := by
  induction acts using List.reverseRecOn with
  | nil => exact start_honest ifs
  | append_singleton acts a ih =>
    rw [Runs.exec_append]
    exact ih.step a

/-- Every packet that a daemon hands to its system was given to a daemon by its system, with the same addresses
and payload, and is for this daemon or for all. -/
theorem Served.handed_was_given (L : Libdessert) (neighbors : N → List N) (cfg : N → Config) (l25 : N → MacAddr)
    (ifs : N → List Meshif) (acts : List (NetAction N)) {i : N} {msg : DessertMsg}
    (h : (i, msg) ∈ (Runs.exec (Served.step L neighbors) ⟨Net.start cfg l25 ifs, []⟩ acts).handed) :
    (∃ j now, NetAction.own j (.sysRx msg.l25Shost msg.l25Dhost msg.payload now) ∈ acts) ∧
      (msg.l25Dhost = l25 i ∨ msg.l25Dhost = etherBroadcast) := by
  obtain ⟨⟨-, hgiven⟩, hown⟩ := (run_honest cfg l25 ifs acts).handed i msg h
  exact ⟨hgiven, hown⟩

end

/-- The node at one end of the line sends a packet to all. -/
def announced : List (NetAction (Fin 3)) := [.own (Mesh.along 0) (.sysRx 100 etherBroadcast [7] 1000), arrive 0]

theorem Served.handed_was_given_line : ∃ msg, (1, msg) ∈ (Runs.exec (Served.step roomy line.neighbors)
      ⟨Net.start line.cfg line.l25 fun i => [line.iface i], []⟩ announced).handed ∧
    (∃ j now, NetAction.own j (.sysRx msg.l25Shost msg.l25Dhost msg.payload now) ∈ announced) ∧
    (msg.l25Dhost = line.l25 1 ∨ msg.l25Dhost = etherBroadcast) := by
  let msg : DessertMsg := { dessertMsgNew with
    ttl := 254, u8 := 1, u16 := 1, l2Shost := 1, l25Shost := 100, l25Dhost := etherBroadcast, payload := [7] }
  have h : (1, msg) ∈ (Runs.exec (Served.step roomy line.neighbors)
      ⟨Net.start line.cfg line.l25 fun i => [line.iface i], []⟩ announced).handed := by
    decide
  have hgiven := Served.handed_was_given roomy line.neighbors line.cfg line.l25 (fun i => [line.iface i]) announced h
  exact ⟨msg, h, hgiven⟩

end DesAodv
