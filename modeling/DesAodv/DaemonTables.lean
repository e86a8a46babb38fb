import DesAodv.HeardNeighbors
import DesAodv.Network
import DesAodv.PacketFifo
import DesAodv.RouteKeeping
import DesAodv.Waiting

/-!
# The daemons of a network

What holds of a daemon in every state it can get into, and that every daemon of
a network is in such a state.
-/

namespace DesAodv

namespace PacketBuffer

/-- The queues and the timeslot agree, and a packet waits for `BLACKLIST_TIMEOUT`. -/
structure Timed (pb : PacketBuffer) : Prop where
  ok : pb.Ok
  timeout : pb.ts.purgeTimeout = msec blacklistTimeout

section
variable {pb : PacketBuffer} (h : pb.Timed) (host : MacAddr)
include h

theorem Timed.push (msg : DessertMsg) (now : Timeval) : (pbPushPacket pb host msg now now).Timed :=
  have hp := h.ok.push host msg now now
  ⟨hp.1, hp.2.1.trans h.timeout⟩

theorem Timed.pop : (pbPopPacket pb host).1.Timed :=
  have hp := h.ok.pop host
  ⟨hp.1, hp.2.1.trans h.timeout⟩

omit host in
theorem Timed.cleanup (now : Timeval) : (pbCleanup pb now).Timed :=
  have hp := h.ok.cleanup now
  ⟨hp.1, hp.2.1.trans h.timeout⟩

/-- A packet for a host none waits for is the only one that does. -/
theorem Timed.push_first (hq : pb.queue host = []) (msg : DessertMsg) (now : Timeval) :
    (pbPushPacket pb host msg now now).queue host = [msg] := by
  obtain ⟨-, -, -, hkept⟩ := h.ok.cleanup now
  obtain ⟨-, -, -, hpush⟩ := h.ok.push host msg now now
  have hclean : (pbCleanup pb now).queue host = [] := by
    rcases hkept host with he | ⟨he, -⟩
    · rw [he, hq]
    · exact he
  have hlong : ¬ now + msec blacklistTimeout ≤ now :=
    Nat.not_le.mpr (Nat.lt_add_of_pos_right (by decide))
  rcases hpush host with he | ⟨-, t, ht, hle⟩
  · rw [he, if_pos rfl, hclean]
    rfl
  · rw [Function.update_self, h.timeout] at ht
    obtain rfl := Option.some.inj ht
    exact absurd hle hlong

end

end PacketBuffer

namespace Node

/-- The tables of a daemon agree with their timeslots, and its series are owned. -/
structure Sound (n : Node) : Prop where
  rt : n.rt.Clocked
  nt : n.nt.Ok
  pb : n.pb.Timed
  tidy : n.Tidy

theorem init_sound (cfg : Config) (l25Defsrc : MacAddr) (meshiflist : List Meshif) :
    (aodvDbInit cfg l25Defsrc meshiflist).Sound :=
  ⟨Rt.init_clocked, NeighborTable.ok_empty cfg.helloInterval 0, ⟨PacketBuffer.ok_init, rfl⟩,
    init_tidy cfg l25Defsrc meshiflist⟩

/-! ## Packets -/

theorem sendBuffered_pbTimed {acc : Node × List Sent} (h : acc.1.pb.Timed) (host nextHop : MacAddr) (iface : Meshif) :
    (sendBuffered host nextHop iface acc).1.pb.Timed := by
  have hp := h.pop host
  unfold sendBuffered
  simp only
  split
  · rename_i pb hpop
    rw [hpop] at hp
    exact hp
  · rename_i pb msg hpop
    rw [hpop] at hp
    exact hp

theorem sendPackets_pbTimed {n : Node} (h : n.pb.Timed) (host nextHop : MacAddr) (iface : Meshif) :
    (n.aodvSendPacketsFromBuffer host nextHop iface).1.pb.Timed := by
  have hfold : ∀ (packets : List DessertMsg) (acc : Node × List Sent), acc.1.pb.Timed →
      (packets.foldl (fun acc _ => sendBuffered host nextHop iface acc) acc).1.pb.Timed := by
    intro packets
    induction packets with
    | nil => exact fun acc h => h
    | cons p ps ih => exact fun acc h => ih _ (sendBuffered_pbTimed h host nextHop iface)
  refine hfold _ (n.aodvPipelineDeleteSeriesEther host, []) ?_
  obtain ⟨series, st, heq⟩ := deleteSeriesEther_eq n host
  simp only [heq]
  exact h

section
variable {n : Node} (h : n.pb.Timed) (env : RxEnv) (msg : DessertMsg)
include h

theorem rreqAsRrep_pbTimed : (n.rreqAsRrep env msg).1.pb.Timed := by
  simp only [rreqAsRrep]
  split
  · refine sendPackets_pbTimed ?_ _ _ _
    exact h
  · exact h

theorem acceptRreq_pbTimed (rreq : AodvMsgRreq) (result : CaptRreqResult) :
    (n.acceptRreq env msg rreq result).1.pb.Timed := by
  have hr := rreqAsRrep_pbTimed h env msg
  simp only [acceptRreq]
  split
  · exact hr
  · exact hr

theorem handleRreq_pbTimed : (n.aodvHandleRreq env msg).1.pb.Timed := by
  unfold aodvHandleRreq
  split
  · exact h
  · rename_i rreq _
    have hc : (n.captRreq (n.countHop env msg).l25Dhost (n.countHop env msg).l25Shost (n.countHop env msg).l2Shost
      env.iface rreq.originatorSequenceNumber (n.countHop env msg).u16 (n.countHop env msg).u8 env.now
      env.now).1.pb.Timed := h
    simp only
    split
    · exact hc
    · exact acceptRreq_pbTimed hc env _ rreq _

theorem handleRrep_pbTimed : (n.aodvHandleRrep env msg).1.pb.Timed := by
  cases hr : msg.getRrep with
  | none =>
    simp only [aodvHandleRrep, hr]
    exact h
  | some rrep =>
    cases hd : env.lflags.l2Dst with
    | false =>
      rw [handleRrep_drop n env hr hd]
      exact h
    | true =>
      rw [handleRrep_node n env hr hd]
      split
      · split
        · refine sendPackets_pbTimed ?_ _ _ _
          exact h
        · exact h
      · exact h

theorem sys2rp_pbTimed (now : Timeval) : (n.aodvSys2rp msg now).1.pb.Timed := by
  unfold aodvSys2rp
  simp only
  split
  · exact h
  · split
    · exact h
    · split
      · rename_i n' nextHop outputIface hn
        obtain rfl := (Prod.mk.inj hn).1
        exact h
      · rename_i n' hn
        obtain rfl := (Prod.mk.inj hn).1
        obtain ⟨series, st, rreqLog, seqNumGlobal, heq⟩ := sendRreq_work
          { (n.getroute2dest msg.l25Dhost now now aodvFlagsRouteLocalUsed).1 with
            pb := pbPushPacket n.pb msg.l25Dhost { msg with ttl := 255, u8 := 0 } now now } msg.l25Dhost now
        have hpb := congrArg Node.pb heq
        exact hpb ▸ h.push msg.l25Dhost { msg with ttl := 255, u8 := 0 } now

omit h in
theorem SeriesWork.pbFrame {n n' : Node} (hw : SeriesWork n n') : n'.pb = n.pb := by
  obtain ⟨_, _, _, _, rfl⟩ := hw
  rfl

end

section
variable (L : Libdessert) {n : Node} (h : n.Sound) (ev : NodeEvent)
include h

theorem step_pbTimed : (n.step L ev).pb.Timed := by
  have same : ∀ {n' : Node}, n'.pb = n.pb → n'.pb.Timed := fun hpb => hpb ▸ h.pb
  cases ev with
  | mesh cb env msg =>
    cases cb with
    | dropErrors =>
      obtain ⟨nt, st, heq⟩ := dropErrors_eq n env msg
      have hpb := congrArg Node.pb heq
      exact same hpb
    | handleHello =>
      obtain ⟨nt, st, heq⟩ := handleHello_eq n env msg
      have hpb := congrArg Node.pb heq
      exact same hpb
    | handleRreq => exact handleRreq_pbTimed h.pb env msg
    | handleRerr =>
      obtain ⟨rt, heq⟩ := handleRerr_eq n env msg
      have hpb := congrArg Node.pb heq
      exact same hpb
    | handleRrep => exact handleRrep_pbTimed h.pb env msg
    | forwardBroadcast =>
      obtain ⟨ds, heq⟩ := forwardBroadcast_eq n env msg
      have hpb := congrArg Node.pb heq
      exact same hpb
    | forwardMulticast => exact h.pb
    | forward =>
      obtain ⟨ds, rt, rerrLog, heq⟩ := forward_eq L n env msg
      have hpb := congrArg Node.pb heq
      exact same hpb
    | localUnicast =>
      obtain ⟨ds, heq⟩ := localUnicast_eq n env msg
      have hpb := congrArg Node.pb heq
      exact same hpb
  | sysRx l25Shost l25Dhost payload now => exact sys2rp_pbTimed h.pb _ now
  | cliSendRreq host now => exact same (sendRreq_work n host now).pbFrame
  | routingReset => exact h.pb
  | neighborReset => exact h.pb
  | sendHello =>
    simp only [step, handle]
    split
    · exact h.pb
    · exact h.pb
  | sendRreq now =>
    simp only [step, handle]
    split
    · exact h.pb
    · exact same (sendRreqs_work n _ now).pbFrame
  | cleanupDatabase now =>
    simp only [step, handle]
    split
    · exact h.pb
    · exact h.pb.cleanup now
  | scexecute now avgRssi =>
    simp only [step, handle]
    split
    · exact h.pb
    · unfold aodvPeriodicScexecute
      split
      · exact h.pb
      · rename_i sc st _
        simp only
        split
        · split
          · exact same (sendRreqReal_work { n with st } _ now).pbFrame
          · exact h.pb
        · obtain ⟨rt, rerrLog, hung, heq⟩ := scSendOutRerr_eq L { n with st } sc.etherAddr now
          have hpb := congrArg Node.pb heq
          exact same hpb
        · exact same (sendRreqs_work _ _ now).pbFrame
        · split
          · split <;> exact h.pb
          · exact h.pb

theorem step_ntOk : (n.step L ev).nt.Ok := by
  rcases step_nt n L ev with ⟨op, -, hop⟩ | ⟨-, hs⟩
  · have hok := NeighborTable.Ok.step (s := (n.nt, n.st)) h.nt op
    rw [← hop] at hok
    exact hok
  · exact h.nt.same hs

theorem Sound.step : (n.step L ev).Sound :=
  ⟨step_inv L (fun _ op hc => hc.step op) n ev h.rt, step_ntOk L h ev, step_pbTimed L h ev,
    (step_settled L h.rt.wf h.tidy ev).1⟩

end

theorem Reachable.sound {L : Libdessert} {n : Node} (h : Reachable L n) : n.Sound :=
  h.inv init_sound fun _ ev hs => hs.step L ev

end Node

/-! ## Runs of a network -/

section
variable (L : Libdessert)

theorem Node.runCallbacks_run (env : RxEnv) (msg : DessertMsg) (cbs : List MeshCb) (n : Node) :
    ∃ ran : List MeshCb,
      (n.runCallbacks L env msg cbs).1 = Runs.exec (Node.step L) n (ran.map fun cb => .mesh cb env msg) := by
  induction cbs generalizing n with
  | nil => exact ⟨[], rfl⟩
  | cons cb cbs ih =>
    rw [Node.runCallbacks]
    split
    · rename_i n' sent hn
      refine ⟨[cb], ?_⟩
      simp [Runs.exec, Node.step, Node.handle, hn]
    · rename_i n' sent hn
      obtain ⟨ran, he⟩ := ih n'
      refine ⟨cb :: ran, ?_⟩
      rw [List.map_cons, Runs.exec, Node.step, Node.handle, hn]
      exact he

variable {N : Type} [DecidableEq N] (neighbors : N → List N)

theorem Net.step_node (net : Net N) (a : NetAction N) (i : N) :
    ∃ evs, (net.step L neighbors a).nodes i = Runs.exec (Node.step L) (net.nodes i) evs := by
  have updated : ∀ (net' : Net N) (j : N) (r : Node × List Sent), net'.nodes = net.nodes →
      (∃ evs, r.1 = Runs.exec (Node.step L) (net.nodes j) evs) →
      ∃ evs, (net'.update neighbors j r).nodes i = Runs.exec (Node.step L) (net.nodes i) evs := by
    intro net' j r hn hr
    by_cases hij : i = j
    · subst hij
      simpa [Net.update] using hr
    · exact ⟨[], by simp [Net.update, hij, hn, Runs.exec]⟩
  have own : ∀ (j : N) (ev : NodeEvent),
      ∃ evs, (net.update neighbors j ((net.nodes j).handle L ev)).nodes i =
        Runs.exec (Node.step L) (net.nodes i) evs :=
    fun j ev => updated net j _ rfl ⟨[ev], rfl⟩
  cases a with
  | own j ev =>
    cases ev with
    | mesh cb env msg => exact ⟨[], rfl⟩
    | _ => exact own j _
  | lose k => exact ⟨[], rfl⟩
  | receive k now link gossip rcvdHellos =>
    simp only [Net.step]
    split
    · exact ⟨[], rfl⟩
    · obtain ⟨ran, he⟩ := Node.runCallbacks_run L _ _ meshPipeline _
      exact updated _ _ _ rfl ⟨_, he⟩

/-- What a daemon goes through in a run of a network is a run of the daemon. -/
theorem Net.run_node (net : Net N) (acts : List (NetAction N)) (i : N) :
    ∃ evs, (Runs.exec (Net.step L neighbors) net acts).nodes i = Runs.exec (Node.step L) (net.nodes i) evs := by
  induction acts generalizing net with
  | nil => exact ⟨[], rfl⟩
  | cons a acts ih =>
    obtain ⟨first, hfirst⟩ := net.step_node L neighbors a i
    obtain ⟨rest, hrest⟩ := ih (net.step L neighbors a)
    refine ⟨first ++ rest, ?_⟩
    rw [Runs.exec_append, ← hfirst]
    exact hrest

end

end DesAodv
