import DesAodv.Originated
import DesAodv.Responses
import DesAodv.RerrTruth

/-!
# The numbers of own packets

A packet of the own system gets the next sequence number when it is sent, at once
or after it has waited for a route. Those that know a packet again rely on it: the
numbers come in the order in which the packets are sent.
-/

namespace DesAodv

/-- The sequence number of a packet. -/
def Sent.number : Sent → Option UInt16
  | .mesh msg _ => if msg.kind = .data then some msg.u16 else none
  | .sys _ => none

/-- `k` numbers that follow on `start`. -/
def following (start : UInt16) (k : Nat) : List UInt16 := (List.range k).map fun i => start + UInt16.ofNat (i + 1)

theorem following_add (start : UInt16) (k l : Nat) :
    following start (k + l) = following start k ++ following (start + UInt16.ofNat k) l := by
  unfold following
  rw [List.range_add, List.map_append, List.map_map]
  apply congrArg
  apply List.map_congr_left
  intro i _
  rw [Function.comp_apply, Nat.add_assoc, UInt16.ofNat_add, UInt16.add_assoc]

theorem length_following (start : UInt16) (k : Nat) : (following start k).length = k := by
  rw [following, List.length_map, List.length_range]

theorem following_nodup (start : UInt16) {k : Nat} (hk : k ≤ 2 ^ 16) : (following start k).Nodup := by
  apply List.Nodup.map_on _ List.nodup_range
  intro i hi j hj he
  have hi' : i < 2 ^ 16 := Nat.lt_of_lt_of_le (List.mem_range.mp hi) hk
  have hj' : j < 2 ^ 16 := Nat.lt_of_lt_of_le (List.mem_range.mp hj) hk
  have hn := congrArg UInt16.toNat (UInt16.add_right_inj start |>.mp he)
  rw [UInt16.toNat_ofNat', UInt16.toNat_ofNat'] at hn
  omega

/-- A piece of numbers that follow on each other follows on those before it. -/
theorem following_window {start : UInt16} {k : Nat} {before window after : List UInt16}
    (h : following start k = before ++ (window ++ after)) :
    window = following (start + UInt16.ofNat before.length) window.length := by
  have hlen : k = before.length + (window.length + after.length) := by
    have hl := congrArg List.length h
    rwa [length_following, List.length_append, List.length_append] at hl
  rw [hlen, following_add, following_add] at h
  have hrest := (List.append_inj h (length_following _ _)).2
  exact (List.append_inj hrest (length_following _ _)).1.symm

namespace Node

/-- The packets sent are numbered from `start` on, and the next will follow on them. -/
def Numbers (start : UInt16) (r : Node × List Sent) : Prop :=
  ∃ k, r.2.filterMap Sent.number = following start k ∧ r.1.dataSeqGlobal = start + UInt16.ofNat k

theorem numbers_nothing {n n' : Node} (h : n'.dataSeqGlobal = n.dataSeqGlobal) {sent : List Sent}
    (hs : ∀ s ∈ sent, s.number = none) : Numbers n.dataSeqGlobal (n', sent) :=
  ⟨0, List.filterMap_eq_nil_iff.mpr hs, h.trans (UInt16.add_zero _).symm⟩

theorem Numbers.append {start : UInt16} {r r' : Node × List Sent} (h : Numbers start r)
    (h' : Numbers r.1.dataSeqGlobal r') : Numbers start (r'.1, r.2 ++ r'.2) := by
  obtain ⟨k, hk, hn⟩ := h
  obtain ⟨l, hl, hn'⟩ := h'
  refine ⟨k + l, ?_, ?_⟩
  · rw [List.filterMap_append, hk, hl, hn, following_add]
  · rw [hn', hn, UInt16.ofNat_add, UInt16.add_assoc]

theorem numbers_one {n n' : Node} (h : n'.dataSeqGlobal = n.dataSeqGlobal + 1) {msg : DessertMsg}
    (hm : msg.exts = []) (hs : msg.u16 = n.dataSeqGlobal + 1) (iface : Option Meshif) :
    Numbers n.dataSeqGlobal (n', [.mesh msg iface]) := by
  refine ⟨1, ?_, h⟩
  simp [Sent.number, kind_packet hm, hs, following]

theorem number_kind {msg : DessertMsg} {kind : FrameKind} (h : msg.kind = kind) (hne : kind ≠ .data)
    (iface : Option Meshif) : (Sent.mesh msg iface).number = none := by
  simp [Sent.number, h, hne]

theorem number_own {l25 : MacAddr} {s : Sent} (h : s.Own l25) : s.number = none := by
  obtain ⟨msg, rfl, ho⟩ := h
  exact number_kind ho.kind (by decide) none

theorem SeriesWork.dataSeqGlobal {n n' : Node} (h : SeriesWork n n') : n'.dataSeqGlobal = n.dataSeqGlobal := by
  obtain ⟨_, _, _, _, rfl⟩ := h
  rfl

section
variable {n : Node} (h : n.Stored)
include h

omit h in
theorem sendBuffered_numbers (host nextHop : MacAddr) (iface : Meshif) {start : UInt16} {acc : Node × List Sent}
    (hst : acc.1.Stored) (ha : Numbers start acc) : Numbers start (sendBuffered host nextHop iface acc) := by
  have hp := pbPopPacket_spec hst.packets host
  unfold sendBuffered
  simp only
  split
  · obtain ⟨k, hk, hn⟩ := ha
    exact ⟨k, hk, hn⟩
  · rename_i pb msg hpop
    rw [hpop] at hp
    have hone : Numbers acc.1.dataSeqGlobal ({ acc.1 with pb, dataSeqGlobal := acc.1.dataSeqGlobal + 1 },
        [Sent.mesh { msg with u16 := acc.1.dataSeqGlobal + 1, l2Dhost := nextHop } (some iface)]) := by
      apply numbers_one rfl
      · exact hp.2 msg rfl
      · rfl
    exact ha.append hone

theorem sendPackets_numbers (host nextHop : MacAddr) (iface : Meshif) :
    Numbers n.dataSeqGlobal (n.aodvSendPacketsFromBuffer host nextHop iface) := by
  have hfold : ∀ (packets : List DessertMsg) (acc : Node × List Sent), acc.1.Stored →
      (∀ s ∈ acc.2, s.Data iface) → Numbers n.dataSeqGlobal acc →
      Numbers n.dataSeqGlobal (packets.foldl (fun acc _ => sendBuffered host nextHop iface acc) acc) := by
    intro packets
    induction packets with
    | nil => exact fun _ _ _ ha => ha
    | cons _ packets ih =>
      intro acc hst hdata ha
      obtain ⟨hst', hdata'⟩ := sendBuffered_stored host nextHop hst hdata
      exact ih _ hst' hdata' (sendBuffered_numbers host nextHop iface hst ha)
  obtain ⟨series, st, heq⟩ := deleteSeriesEther_eq n host
  have hseq := congrArg Node.dataSeqGlobal heq
  exact hfold _ _ (deleteSeriesEther_stored h host) (by simp) (numbers_nothing hseq (by simp))

/-! ## The handlers -/

variable (env : RxEnv) (msg : DessertMsg)

theorem rreqAsRrep_numbers : Numbers n.dataSeqGlobal (n.rreqAsRrep env msg) := by
  have hc : (n.captRrep msg.l25Shost msg.l2Shost env.iface 0 msg.u16 msg.u8 env.now env.now).1.Stored :=
    h.congr rfl rfl rfl
  simp only [rreqAsRrep]
  split
  · exact sendPackets_numbers hc _ _ _
  · exact numbers_nothing rfl (by simp)

omit h in
theorem rrepOrRebroadcast_number (hk : msg.kind ≠ .data) (rreq : AodvMsgRreq) :
    ∀ s ∈ n.rrepOrRebroadcast env msg rreq, s.number = none := by
  have hpassed : ∀ s ∈ [Sent.mesh msg none], s.number = none := by
    intro s hs
    rw [List.mem_singleton.mp hs]
    exact number_kind rfl hk none
  unfold rrepOrRebroadcast
  split
  · intro s hs
    rw [List.mem_singleton.mp hs]
    exact number_kind (createRrep_kind _ _ _ _ _ _ _) (by decide) _
  · split
    · split
      · simp
      · exact hpassed
    · split
      · exact hpassed
      · simp

theorem acceptRreq_numbers (hk : msg.kind ≠ .data) (rreq : AodvMsgRreq) (result : CaptRreqResult) :
    Numbers n.dataSeqGlobal (n.acceptRreq env msg rreq result) := by
  have hr := rreqAsRrep_numbers h env msg
  simp only [acceptRreq]
  split
  · have hanswer : Numbers (n.rreqAsRrep env msg).1.dataSeqGlobal
        ((n.rreqAsRrep env msg).1.rrepForMe env msg rreq result) := by
      refine numbers_nothing rfl fun s hs => ?_
      rw [List.mem_singleton.mp hs]
      exact number_kind (createRrep_kind _ _ _ _ _ _ _) (by decide) _
    exact hr.append hanswer
  · have hanswer : Numbers (n.rreqAsRrep env msg).1.dataSeqGlobal
        ((n.rreqAsRrep env msg).1, (n.rreqAsRrep env msg).1.rrepOrRebroadcast env msg rreq) :=
      numbers_nothing rfl (rrepOrRebroadcast_number env msg hk rreq)
    exact hr.append hanswer

theorem handleRreq_numbers :
    Numbers n.dataSeqGlobal ((n.aodvHandleRreq env msg).1, (n.aodvHandleRreq env msg).2.1) := by
  unfold aodvHandleRreq
  split
  · exact numbers_nothing rfl (by simp)
  · rename_i rreq hr
    have hk : (n.countHop env msg).kind ≠ .data := by
      intro hk
      obtain ⟨-, hq, -⟩ := DessertMsg.kind_data (countHop_kind.symm.trans hk)
      rw [hr] at hq
      cases hq
    have hc : (n.captRreq (n.countHop env msg).l25Dhost (n.countHop env msg).l25Shost (n.countHop env msg).l2Shost
      env.iface rreq.originatorSequenceNumber (n.countHop env msg).u16 (n.countHop env msg).u8 env.now
      env.now).1.Stored := h.congr rfl rfl rfl
    simp only
    split
    · exact numbers_nothing rfl (by simp)
    · exact acceptRreq_numbers hc env _ hk rreq _

theorem handleRrep_numbers :
    Numbers n.dataSeqGlobal ((n.aodvHandleRrep env msg).1, (n.aodvHandleRrep env msg).2.1) := by
  unfold aodvHandleRrep
  split
  · exact numbers_nothing rfl (by simp)
  · rename_i rrep hr
    have hc : (n.captRrep (n.countHop env msg).l25Shost (n.countHop env msg).l2Shost env.iface
      rrep.destinationSequenceNumber (n.countHop env msg).u16 (n.countHop env msg).u8 env.now env.now).1.Stored :=
      h.congr rfl rfl rfl
    split
    · exact numbers_nothing rfl (by simp)
    · simp only
      split
      · exact numbers_nothing rfl (by simp)
      · split
        · exact sendPackets_numbers hc _ _ _
        · split
          · rename_i n' hn
            obtain rfl := (Prod.mk.inj hn).1
            exact numbers_nothing rfl (by simp)
          · rename_i n' nextHop outputIface hn
            obtain rfl := (Prod.mk.inj hn).1
            have hk : ({ n.countHop env msg with l2Dhost := nextHop } : DessertMsg).kind ≠ .data := by
              intro hk
              obtain ⟨-, -, -, hp⟩ := DessertMsg.kind_data hk
              have hp' : msg.getRrep = none := hp
              rw [hr] at hp'
              cases hp'
            refine numbers_nothing rfl fun s hs => ?_
            rw [List.mem_singleton.mp hs]
            exact number_kind rfl hk _

omit h in
theorem handleHello_number : ∀ s ∈ (n.aodvHandleHello env msg).2.1, s.number = none := by
  unfold aodvHandleHello
  split
  · simp
  · rename_i hello hh
    have hk : ({ msg with ttl := msg.ttl - 1 } : DessertMsg).kind = .hello := by
      have hh' : ({ msg with ttl := msg.ttl - 1 } : DessertMsg).getHello = some hello := hh
      simp [DessertMsg.kind, hh']
    have hanswer : ∀ (hello : AodvMsgHello) (l2Dhost : MacAddr),
        ({ ({ msg with ttl := msg.ttl - 1 } : DessertMsg).setHello hello with l2Dhost } : DessertMsg).kind = .hello :=
      fun _ _ => (DessertMsg.kind_congr rfl).trans (DessertMsg.kind_setHello hk)
    simp only
    split
    · intro s hs
      rw [List.mem_singleton.mp hs]
      exact number_kind (hanswer _ _) (by decide) _
    · split <;> simp

omit h in
theorem handleRerr_number : ∀ s ∈ (n.aodvHandleRerr env msg).2.1, s.number = none := by
  unfold aodvHandleRerr
  split
  · simp
  · rename_i rerr hr
    have hk : ∀ rerr' : AodvMsgRerr, (msg.setRerr rerr').kind ≠ .data := by
      intro rerr' hk
      obtain ⟨-, -, he, -⟩ := DessertMsg.kind_data hk
      rw [setRerr_getRerr rerr' (Option.isSome_of_mem hr)] at he
      cases he
    simp only
    split
    · intro s hs
      rw [List.mem_singleton.mp hs]
      exact number_kind rfl (hk _) none
    · simp

/-! ## What a daemon sends of its own accord -/

omit h in
theorem series_numbers {l25 : MacAddr} {r : Node × List Sent} (hw : SeriesWork n r.1) (hs : ∀ s ∈ r.2, s.Own l25) :
    Numbers n.dataSeqGlobal r := numbers_nothing hw.dataSeqGlobal fun s hmem => number_own (hs s hmem)

theorem sys2rp_numbers {msg : DessertMsg} (hm : msg.exts = []) (now : Timeval) :
    Numbers n.dataSeqGlobal (n.aodvSys2rp msg now) := by
  unfold aodvSys2rp
  simp only
  split
  · apply numbers_one rfl
    · exact hm
    · rfl
  · split
    · exact numbers_nothing rfl (by simp)
    · split
      · rename_i n' nextHop outputIface hn
        obtain rfl := (Prod.mk.inj hn).1
        apply numbers_one rfl
        · exact hm
        · rfl
      · rename_i n' hn
        have hst := getroute2dest_stored h hn
        obtain rfl := (Prod.mk.inj hn).1
        have hst' : ({ (n.getroute2dest msg.l25Dhost now now aodvFlagsRouteLocalUsed).1 with
            pb := pbPushPacket n.pb msg.l25Dhost { msg with ttl := 255, u8 := 0 } now now } : Node).Stored := by
          refine ⟨pbPushPacket_spec hst.packets msg.l25Dhost ?_ now now, hst.series⟩
          exact hm
        exact series_numbers (n := { (n.getroute2dest msg.l25Dhost now now aodvFlagsRouteLocalUsed).1 with
            pb := pbPushPacket n.pb msg.l25Dhost { msg with ttl := 255, u8 := 0 } now now })
          (sendRreq_work _ msg.l25Dhost now) (sendRreq_stored hst' msg.l25Dhost now).2

theorem scexecute_numbers (L : Libdessert) (now : Timeval) (avgRssi : Int8) :
    Numbers n.dataSeqGlobal (n.aodvPeriodicScexecute L now avgRssi) := by
  rcases scexecute_cases L h now avgRssi with ⟨rt, nt, st, hw, hown⟩ | ⟨st, etherAddr, heq⟩
  · exact @series_numbers { n with rt, nt, st } _ _ hw hown
  · rw [heq]
    obtain ⟨rt, rerrLog, hung, hnode⟩ := scSendOutRerr_eq L ({ n with st } : Node) etherAddr now
    have hseq := congrArg Node.dataSeqGlobal hnode
    refine numbers_nothing hseq fun s hs => ?_
    obtain ⟨m, rfl, hm⟩ := scSendOutRerr_sent L _ _ _ s hs
    exact number_kind hm (by decide) none

end

/-! ## Runs -/

/-- What is sent for an event other than the packets of others, which are sent on with their numbers. -/
def ownSent (sent : List Sent) : NodeEvent → List Sent
  | .mesh .forwardBroadcast .. | .mesh .forward .. | .mesh .localUnicast .. => []
  | _ => sent

/-- The numbers of the own packets sent in a run. -/
def numbersInRun (L : Libdessert) : Node → List NodeEvent → List UInt16
  | _, [] => []
  | n, ev :: evs => (ownSent (n.handle L ev).2 ev).filterMap Sent.number ++ numbersInRun L (n.step L ev) evs

section
variable (L : Libdessert) {n : Node} (h : n.Stored)
include h

theorem callback_numbers (cb : MeshCb) (env : RxEnv) (msg : DessertMsg) :
    Numbers n.dataSeqGlobal
      ((n.callback L cb env msg).1, ownSent (n.callback L cb env msg).2.1 (.mesh cb env msg)) := by
  cases cb with
  | dropErrors =>
    obtain ⟨nt, st, heq⟩ := dropErrors_eq n env msg
    have hseq := congrArg Node.dataSeqGlobal heq
    exact numbers_nothing hseq (List.forall_mem_nil _)
  | handleHello =>
    obtain ⟨nt, st, heq⟩ := handleHello_eq n env msg
    have hseq := congrArg Node.dataSeqGlobal heq
    exact numbers_nothing hseq (handleHello_number env msg)
  | handleRreq => exact handleRreq_numbers h env msg
  | handleRerr =>
    obtain ⟨rt, heq⟩ := handleRerr_eq n env msg
    have hseq := congrArg Node.dataSeqGlobal heq
    exact numbers_nothing hseq (handleRerr_number env msg)
  | handleRrep => exact handleRrep_numbers h env msg
  | forwardBroadcast =>
    obtain ⟨ds, heq⟩ := forwardBroadcast_eq n env msg
    have hseq := congrArg Node.dataSeqGlobal heq
    exact numbers_nothing hseq (List.forall_mem_nil _)
  | forwardMulticast => exact numbers_nothing rfl (List.forall_mem_nil _)
  | forward =>
    obtain ⟨ds, rt, rerrLog, heq⟩ := forward_eq L n env msg
    have hseq := congrArg Node.dataSeqGlobal heq
    exact numbers_nothing hseq (List.forall_mem_nil _)
  | localUnicast =>
    obtain ⟨ds, heq⟩ := localUnicast_eq n env msg
    have hseq := congrArg Node.dataSeqGlobal heq
    exact numbers_nothing hseq (List.forall_mem_nil _)

theorem handle_numbers (ev : NodeEvent) :
    Numbers n.dataSeqGlobal (n.step L ev, ownSent (n.handle L ev).2 ev) := by
  cases ev with
  | mesh cb env msg => exact callback_numbers L h cb env msg
  | sysRx l25Shost l25Dhost payload now => exact sys2rp_numbers h rfl now
  | cliSendRreq host now => exact series_numbers (sendRreq_work n host now) (sendRreq_stored h host now).2
  | routingReset => exact numbers_nothing rfl (List.forall_mem_nil _)
  | neighborReset => exact numbers_nothing rfl (List.forall_mem_nil _)
  | sendHello =>
    simp only [step, handle]
    split
    · exact numbers_nothing rfl (List.forall_mem_nil _)
    · refine numbers_nothing rfl fun s hs => ?_
      rw [List.mem_singleton.mp hs]
      exact @number_kind _ .hello rfl (by decide) none
  | sendRreq now =>
    simp only [step, handle]
    split
    · exact numbers_nothing rfl (List.forall_mem_nil _)
    · exact series_numbers (sendRreqs_work n _ now) (sendRreqs_stored h _ now).2
  | cleanupDatabase now =>
    simp only [step, handle]
    split
    · exact numbers_nothing rfl (List.forall_mem_nil _)
    · exact numbers_nothing rfl (List.forall_mem_nil _)
  | scexecute now avgRssi =>
    simp only [step, handle]
    split
    · exact numbers_nothing rfl (List.forall_mem_nil _)
    · exact scexecute_numbers h L now avgRssi

theorem run_numbers (evs : List NodeEvent) :
    ∃ k, n.numbersInRun L evs = following n.dataSeqGlobal k := by
  induction evs generalizing n with
  | nil => exact ⟨0, rfl⟩
  | cons ev evs ih =>
    obtain ⟨k, hk, hn⟩ := handle_numbers L h ev
    obtain ⟨l, hl⟩ := ih (step_stored L h ev)
    refine ⟨k + l, ?_⟩
    rw [numbersInRun, hk, hl, hn, following_add]

end

/-- In every run of a daemon the packets of its own system carry the numbers 1, 2, 3 and so on in the order in which
they are sent, whether they have waited or not, and no two of 2 ^ 16 that follow on each other carry the same. -/
theorem own_packets_numbered (L : Libdessert) (cfg : Config) (l25Defsrc : MacAddr) (meshiflist : List Meshif)
    (evs : List NodeEvent) :
    (∃ k, (aodvDbInit cfg l25Defsrc meshiflist).numbersInRun L evs = following 0 k) ∧
      ∀ before window after, (aodvDbInit cfg l25Defsrc meshiflist).numbersInRun L evs = before ++ (window ++ after) →
        window.length ≤ 2 ^ 16 → window.Nodup := by
  obtain ⟨k, hk⟩ := run_numbers L (init_stored cfg l25Defsrc meshiflist) evs
  have hfollowing : (aodvDbInit cfg l25Defsrc meshiflist).numbersInRun L evs = following 0 k := hk
  refine ⟨⟨k, hfollowing⟩, ?_⟩
  intro before window after he hlen
  rw [hfollowing] at he
  rw [following_window he]
  exact following_nodup _ hlen

/-- A packet to all, and one that waits until its destination has asked for this node. -/
def sentAndWaiting : List NodeEvent :=
  [.sysRx 9 etherBroadcast [1] 0, .sysRx 9 5 [2] 1, .mesh .handleRreq (rxAt 2) (rreqFrom 5 9 5 1 0)]

theorem own_packets_numbered_twice :
    (aodvDbInit {} 9 [wlan]).numbersInRun roomy sentAndWaiting = [1, 2] ∧ [(1 : UInt16), 2].Nodup :=
  have h : (aodvDbInit {} 9 [wlan]).numbersInRun roomy sentAndWaiting = [1, 2] := by decide
  ⟨h, (own_packets_numbered roomy {} 9 [wlan] sentAndWaiting).2 [] [1, 2] [] h (by decide)⟩

end Node

end DesAodv
