import DesAodv.Discovery
import DesAodv.LoopFreedom
import DesAodv.Rounds

/-!
# From the first packet to its delivery

A packet for a host that nobody has a route to: the RREQ goes out along a way to
the host, the RREP comes back, and the packet follows the new routes to the
system of the host.
-/

namespace DesAodv

open Deadlines

def Reception.action {N : Type} (k : Nat) (r : Reception) : NetAction N :=
  .receive k r.now r.link r.gossip r.rcvdHellos

/-! ## Packets handed to the systems -/

/-- A network and the packets its daemons have handed to their systems. -/
structure Served (N : Type) where
  net : Net N
  handed : List (N × DessertMsg)

def toSystem {N : Type} (i : N) (sent : List Sent) : List (N × DessertMsg) :=
  sent.filterMap fun
    | .sys msg => some (i, msg)
    | .mesh .. => none

section
variable (L : Libdessert) {N : Type} [DecidableEq N] (neighbors : N → List N)

/-- The packets that are handed over in a step. -/
def Net.handed (net : Net N) : NetAction N → List (N × DessertMsg)
  | .own _ (.mesh ..) => []
  | .own i ev => toSystem i ((net.nodes i).handle L ev).2
  | .receive k now link gossip rcvdHellos =>
    match net.inFlight[k]? with
    | none => []
    | some f =>
      let n := net.nodes f.receiver
      toSystem f.receiver (n.receive L (Net.rxEnv n f.msg now link gossip rcvdHellos) f.msg).2
  | .lose _ => []

def Served.step (s : Served N) (a : NetAction N) : Served N :=
  { net := s.net.step L neighbors a, handed := s.handed ++ s.net.handed L a }

variable {L neighbors}

omit [DecidableEq N] in
theorem mem_toSystem {i : N} {sent : List Sent} {msg : DessertMsg} (h : .sys msg ∈ sent) : (i, msg) ∈ toSystem i sent :=
  List.mem_filterMap.mpr ⟨_, h, rfl⟩

omit [DecidableEq N] in
theorem mem_transmit {n : Node} {i j : N} {sent : List Sent} {s : Sent} {msg : DessertMsg} (hs : s ∈ sent)
    (hm : msg ∈ n.frames s) (hj : j ∈ neighbors i) : ⟨j, msg⟩ ∈ Net.transmit neighbors n i sent := by
  refine List.mem_flatMap.mpr ⟨msg, List.mem_flatMap.mpr ⟨s, hs, hm⟩, ?_⟩
  exact List.mem_map.mpr ⟨j, hj, rfl⟩

/-- A frame in flight can be received next. -/
theorem Served.receives (L : Libdessert) {neighbors : N → List N} (s : Served N) {f : Flight N}
    (hf : f ∈ s.net.inFlight) (r : Reception) : ∃ k,
      let n := s.net.nodes f.receiver
      let res := n.receive L (n.rx r f.msg) f.msg
      let s' := s.step L neighbors (r.action k)
      s'.net.nodes = Function.update s.net.nodes f.receiver res.1 ∧
      (∀ sent ∈ res.2, ∀ msg ∈ res.1.frames sent, ∀ j ∈ neighbors f.receiver, ⟨j, msg⟩ ∈ s'.net.inFlight) ∧
      ∀ msg, .sys msg ∈ res.2 → (f.receiver, msg) ∈ s'.handed := by
  obtain ⟨k, hk, hget⟩ := List.mem_iff_getElem.mp hf
  have hget? : s.net.inFlight[k]? = some f := by rw [List.getElem?_eq_getElem hk, hget]
  refine ⟨k, ?_, ?_, ?_⟩
  · simp only [Served.step, Reception.action, Net.step, hget?]
    rfl
  · intro sent hs msg hm j hj
    simp only [Served.step, Reception.action, Net.step, hget?]
    exact List.mem_append_right _ (mem_transmit hs hm hj)
  · intro msg hm
    simp only [Served.step, Reception.action, Net.handed, hget?]
    exact List.mem_append_right _ (mem_toSystem hm)

end

/-! ## Ways -/

namespace Mesh

section
variable {N : Type} (mesh : Mesh N) (p : Nat → N) (k : Nat)

/-- A way of `k` hops between daemons with addresses of their own, each a neighbor of the next. -/
structure Way : Prop where
  l25_inj : ∀ i ≤ k, ∀ j ≤ k, mesh.l25 (p i) = mesh.l25 (p j) → i = j
  linked : ∀ i < k, p (i + 1) ∈ mesh.neighbors (p i) ∧ p i ∈ mesh.neighbors (p (i + 1))

/-- Along the way the daemons hear each other until `due`, none but the last knows how to get to it, nor has any
seen the next RREQ or the next packet of the first, and the first has nothing under way to the last. -/
structure Open (due : Timeval) (nodes : N → Node) : Prop where
  hears : ∀ i < k, (nodes (p (i + 1))).Hears due (mesh.iface (p i)).hwaddr (mesh.iface (p (i + 1))) ∧
    (nodes (p i)).Hears due (mesh.iface (p (i + 1))).hwaddr (mesh.iface (p i))
  ignores : ∀ i < k, (nodes (p i)).Ignores due (mesh.l25 (p k))
  awaits : ∀ i < k, (nodes (p (i + 1))).Awaits due (mesh.l25 (p 0)) ((nodes (p 0)).seqNumGlobal + 1)
  numbered : hfCompU32 0 ((nodes (p 0)).seqNumGlobal + 1) < 0
  unseen : ∀ i < k, (nodes (p (i + 1))).ds.takesAsNew (mesh.l25 (p 0)) ((nodes (p 0)).dataSeqGlobal + 1) = true
  noSeries : (nodes (p 0)).findSeriesUnlocked (mesh.l25 (p k)) = none
  noPacket : (nodes (p 0)).pb.queue (mesh.l25 (p k)) = []

/-- The same after the first daemon has asked with the number `seq`, while `packet` waits to be sent with the number
`number`. -/
structure Asked (due : Timeval) (seq : UInt32) (number : UInt16) (packet : DessertMsg) (nodes : N → Node) : Prop where
  placed : ∀ i ≤ k, (nodes (p i)).Placed (mesh.l25 (p i)) (mesh.iface (p i))
  hears : ∀ i < k, (nodes (p (i + 1))).Hears due (mesh.iface (p i)).hwaddr (mesh.iface (p (i + 1))) ∧
    (nodes (p i)).Hears due (mesh.iface (p (i + 1))).hwaddr (mesh.iface (p i))
  ignores : ∀ i < k, (nodes (p i)).Ignores due (mesh.l25 (p k))
  awaits : ∀ i < k, (nodes (p (i + 1))).Awaits due (mesh.l25 (p 0)) seq
  numbered : hfCompU32 0 seq < 0
  unseen : ∀ i < k, (nodes (p (i + 1))).ds.takesAsNew (mesh.l25 (p 0)) number = true
  counted : (nodes (p 0)).dataSeqGlobal + 1 = number
  waits : (nodes (p 0)).pb.queue (mesh.l25 (p k)) = [packet]

end

section
variable {N : Type} {mesh : Mesh N} {p : Nat → N} {k : Nat} (way : mesh.Way p k)
include way

theorem Way.node_ne {i j : Nat} (hi : i ≤ k) (hj : j ≤ k) (hne : i ≠ j) : p i ≠ p j :=
  fun h => hne (way.l25_inj i hi j hj (congrArg mesh.l25 h))

theorem Way.l25_ne {i j : Nat} (hi : i ≤ k) (hj : j ≤ k) (hne : i ≠ j) : mesh.l25 (p i) ≠ mesh.l25 (p j) :=
  fun h => hne (way.l25_inj i hi j hj h)

theorem Way.hwaddr_ne {i j : Nat} (hi : i ≤ k) (hj : j ≤ k) (hne : i ≠ j) :
    (mesh.iface (p i)).hwaddr ≠ (mesh.iface (p j)).hwaddr :=
  fun h => way.node_ne hi hj hne (mesh.hwaddr_inj _ _ h)

end

/-! ## Stages -/

theorem one_hop {ttl u8 : UInt8} {j : Nat} (hj : j < 255) (hu8 : u8.toNat = j) (httl : ttl.toNat + j = 255) :
    ttl ≠ 0 ∧ (ttl - 1).toNat + (j + 1) = 255 ∧ (u8 + 1).toNat = j + 1 := by
  have hne : ttl ≠ 0 := by
    intro h0
    rw [h0] at httl
    have hzero : (0 : UInt8).toNat = 0 := rfl
    omega
  have hpred := Hop.toNat_pred hne
  refine ⟨hne, by omega, ?_⟩
  have hone : (1 : UInt8).toNat = 1 := rfl
  rw [UInt8.toNat_add, hu8, hone]
  exact Nat.mod_eq_of_lt (by omega)

section
variable {N : Type} (mesh : Mesh N) (p : Nat → N) (k : Nat) (due : Timeval) (seq : UInt32) (number : UInt16)
  (packet : DessertMsg) (start : N → Node)

/-- The daemon at position `i` since the discovery began. -/
def Steady (i : Nat) (n : Node) : Prop :=
  Node.Stays due (mesh.l25 (p i)) (mesh.iface (p i)) (start (p i)) n

/-- The daemon at position `i + 1` has taken the RREQ. -/
structure Learned (i : Nat) (n : Node) : Prop where
  steady : mesh.Steady p due start (i + 1) n
  ignores : n.Ignores due (mesh.l25 (p k))
  back : n.Routes due (mesh.l25 (p 0)) (mesh.iface (p i)).hwaddr (mesh.iface (p (i + 1)))

/-- The daemon at position `i` has taken the RREP. -/
structure Routed (i : Nat) (n : Node) : Prop where
  steady : mesh.Steady p due start i n
  onward : n.Routes due (mesh.l25 (p k)) (mesh.iface (p (i + 1))).hwaddr (mesh.iface (p i))

/-- The RREQ is on its way to position `j + 1`. -/
structure Asking (j : Nat) (s : Served N) : Prop where
  frame : ∃ msg rreq, ⟨p (j + 1), msg⟩ ∈ s.net.inFlight ∧ msg.exts = [.rreq rreq] ∧
    rreq.originatorSequenceNumber = seq ∧ msg.l2Shost = (mesh.iface (p j)).hwaddr ∧
    msg.l25Shost = mesh.l25 (p 0) ∧ msg.l25Dhost = mesh.l25 (p k) ∧ k ≤ msg.ttl.toNat + j
  first : s.net.nodes (p 0) = start (p 0)
  learned : ∀ i < j, mesh.Learned p k due start i (s.net.nodes (p (i + 1)))
  others : ∀ i ≤ k, j < i → s.net.nodes (p i) = start (p i)

/-- The RREP is on its way to position `j`. -/
structure Answering (j : Nat) (s : Served N) : Prop where
  frame : ∃ msg rrep, ⟨p j, msg⟩ ∈ s.net.inFlight ∧ msg.exts = [.rrep rrep] ∧
    msg.l2Shost = (mesh.iface (p (j + 1))).hwaddr ∧ msg.l2Dhost = (mesh.iface (p j)).hwaddr ∧
    msg.l25Shost = mesh.l25 (p k) ∧ msg.l25Dhost = mesh.l25 (p 0)
  first : s.net.nodes (p 0) = start (p 0)
  learned : ∀ i < j, mesh.Learned p k due start i (s.net.nodes (p (i + 1)))
  routed : ∀ i, j < i → i < k → mesh.Routed p k due start i (s.net.nodes (p i))
  last : mesh.Steady p due start k (s.net.nodes (p k))

/-- The packet is on its way to position `j + 1`. -/
structure Carrying (j : Nat) (s : Served N) : Prop where
  frame : ∃ msg, ⟨p (j + 1), msg⟩ ∈ s.net.inFlight ∧ msg.exts = [] ∧
    msg.l2Shost = (mesh.iface (p j)).hwaddr ∧ msg.l2Dhost = (mesh.iface (p (j + 1))).hwaddr ∧
    msg.l25Shost = mesh.l25 (p 0) ∧ msg.l25Dhost = mesh.l25 (p k) ∧ msg.u16 = number ∧
    msg.payload = packet.payload ∧ msg.u8.toNat = j ∧ msg.ttl.toNat + j = 255
  routed : ∀ i, j < i → i < k → mesh.Routed p k due start i (s.net.nodes (p i))
  last : mesh.Steady p due start k (s.net.nodes (p k))

/-- The last daemon has handed a packet of the first with the payload to its system, after `k` hops. -/
def Delivered (payload : List UInt8) (s : Served N) : Prop :=
  ∃ msg, (p k, msg) ∈ s.handed ∧ msg.l25Shost = mesh.l25 (p 0) ∧ msg.payload = payload ∧ msg.u8.toNat = k

end

section
variable {N : Type} [DecidableEq N] {mesh : Mesh N} {p : Nat → N} {k : Nat} {due : Timeval} {seq : UInt32}
  {number : UInt16} {packet : DessertMsg} {start : N → Node} (way : mesh.Way p k)
  (asked : mesh.Asked p k due seq number packet start) (L : Libdessert) {s : Served N} {j : Nat} {r : Reception}
  (ht : Timely due r.now)
include way asked ht

/-- A daemon on the way sends the RREQ on. -/
theorem Asking.passed (h : mesh.Asking p k due seq start j s) (hj : j + 1 < k) :
    ∃ i, mesh.Asking p k due seq start (j + 1) (s.step L mesh.neighbors (r.action i)) := by
  obtain ⟨msg, rreq, hflight, he, hnum, hl2, hsrc, hdst, httl⟩ := h.frame
  obtain ⟨i, hnodes, hframes, -⟩ := s.receives L hflight r
  have hn : s.net.nodes (p (j + 1)) = start (p (j + 1)) := h.others (j + 1) (by omega) (by omega)
  simp only [hn] at hnodes hframes
  have hf : Node.FromOther (mesh.iface (p j)).hwaddr (mesh.iface (p (j + 1))) (mesh.l25 (p (j + 1))) msg :=
    ⟨hl2, way.hwaddr_ne (by omega) (by omega) (by omega), hsrc ▸ way.l25_ne (by omega) (by omega) (by omega)⟩
  have hd : mesh.l25 (p (j + 1)) ≠ msg.l25Dhost := hdst ▸ way.l25_ne (by omega) (by omega) (by omega)
  have hne : msg.l25Dhost ≠ msg.l25Shost := by
    rw [hdst, hsrc]
    exact way.l25_ne (by omega) (by omega) (by omega)
  obtain ⟨hstays, hignores, hroute, msg', hsent, he', hsrc', hdst', httl'⟩ :=
    (asked.placed (j + 1) (by omega)).receives_rreq r L he hf (asked.hears j (by omega)).1 ht hne
      (hnum ▸ asked.numbered) (hsrc ▸ hnum ▸ asked.awaits j (by omega)) hd (hdst ▸ asked.ignores (j + 1) hj)
      (by omega)
  refine ⟨i, ⟨{ msg' with l2Shost := (mesh.iface (p (j + 1))).hwaddr }, rreq, ?_, ?_⟩, ?_, fun i' hi' => ?_,
    fun i' hi' hlt => ?_⟩
  · refine hframes _ hsent _ ?_ _ (way.linked (j + 1) hj).1
    rw [Node.frames, hstays.placed.meshiflist]
    exact List.mem_singleton_self _
  · exact ⟨he'.trans he, hnum, rfl, hsrc'.trans hsrc, hdst'.trans hdst, by simp only [httl']; omega⟩
  · rw [hnodes, Function.update_of_ne (way.node_ne (by omega) (by omega) (by omega))]
    exact h.first
  · by_cases heq : i' = j
    · subst heq
      rw [hnodes, Function.update_self]
      exact ⟨hstays, hdst ▸ hignores, hsrc ▸ hroute⟩
    · rw [hnodes, Function.update_of_ne (way.node_ne (by omega) (by omega) (by omega))]
      exact h.learned i' (by omega)
  · rw [hnodes, Function.update_of_ne (way.node_ne (by omega) (by omega) (by omega))]
    exact h.others i' hi' (by omega)

/-- The last daemon answers it. -/
theorem Asking.answered (h : mesh.Asking p k due seq start j s) (hj : j + 1 = k) :
    ∃ i, mesh.Answering p k due start j (s.step L mesh.neighbors (r.action i)) := by
  obtain ⟨msg, rreq, hflight, he, hnum, hl2, hsrc, hdst, httl⟩ := h.frame
  obtain ⟨i, hnodes, hframes, -⟩ := s.receives L hflight r
  have hn : s.net.nodes (p (j + 1)) = start (p (j + 1)) := h.others (j + 1) (by omega) (by omega)
  simp only [hn] at hnodes hframes
  have hf : Node.FromOther (mesh.iface (p j)).hwaddr (mesh.iface (p (j + 1))) (mesh.l25 (p (j + 1))) msg :=
    ⟨hl2, way.hwaddr_ne (by omega) (by omega) (by omega), hsrc ▸ way.l25_ne (by omega) (by omega) (by omega)⟩
  have hne : msg.l25Dhost ≠ msg.l25Shost := by
    rw [hdst, hsrc]
    exact way.l25_ne (by omega) (by omega) (by omega)
  obtain ⟨hstays, answer, metric, hsent⟩ :=
    (asked.placed (j + 1) (by omega)).answers_rreq r L he hf (asked.hears j (by omega)).1 ht hne
      (hnum ▸ asked.numbered) (hsrc ▸ hnum ▸ asked.awaits j (by omega)) (hdst ▸ hj ▸ rfl)
  refine ⟨i, ⟨_, _, hframes _ hsent _ (List.mem_singleton_self _) _ (way.linked j (by omega)).2, rfl, rfl, rfl, ?_, ?_⟩,
    ?_, fun i' hi' => ?_, fun i' hlt hi' => ?_, ?_⟩
  · exact hj ▸ rfl
  · exact hsrc
  · rw [hnodes, Function.update_of_ne (way.node_ne (by omega) (by omega) (by omega))]
    exact h.first
  · rw [hnodes, Function.update_of_ne (way.node_ne (by omega) (by omega) (by omega))]
    exact h.learned i' hi'
  · omega
  · subst hj
    rw [hnodes, Function.update_self]
    exact hstays

/-- A daemon on the way sends the RREP back. -/
theorem Answering.passed (h : mesh.Answering p k due start (j + 1) s) (hj : j + 1 < k) :
    ∃ i, mesh.Answering p k due start j (s.step L mesh.neighbors (r.action i)) := by
  obtain ⟨msg, rrep, hflight, he, hl2, hl2', hsrc, hdst⟩ := h.frame
  obtain ⟨i, hnodes, hframes, -⟩ := s.receives L hflight r
  have hl := h.learned j (by omega)
  have hf : Node.FromOther (mesh.iface (p (j + 2))).hwaddr (mesh.iface (p (j + 1))) (mesh.l25 (p (j + 1))) msg :=
    ⟨hl2, way.hwaddr_ne (by omega) (by omega) (by omega), hsrc ▸ way.l25_ne (by omega) (by omega) (by omega)⟩
  have hd : mesh.l25 (p (j + 1)) ≠ msg.l25Dhost := hdst ▸ way.l25_ne (by omega) (by omega) (by omega)
  have hne : msg.l25Dhost ≠ msg.l25Shost := by
    rw [hdst, hsrc]
    exact way.l25_ne (by omega) (by omega) (by omega)
  obtain ⟨hstays, hroute, msg', hsent, he', hl2'', hsrc', hdst'⟩ :=
    hl.steady.placed.receives_rrep r L he hf (hl.steady.hears _ (asked.hears (j + 1) hj).2) ht hl2'
      (hsrc ▸ hl.ignores) hd hne (hdst ▸ hl.back)
  refine ⟨i, ⟨{ msg' with l2Shost := (mesh.iface (p (j + 1))).hwaddr }, rrep, ?_, ?_⟩, ?_, fun i' hi' => ?_,
    fun i' hlt hi' => ?_, ?_⟩
  · exact hframes _ hsent _ (List.mem_singleton_self _) _ (way.linked j (by omega)).2
  · exact ⟨he'.trans he, rfl, hl2'', hsrc'.trans hsrc, hdst'.trans hdst⟩
  · rw [hnodes, Function.update_of_ne (way.node_ne (by omega) (by omega) (by omega))]
    exact h.first
  · rw [hnodes, Function.update_of_ne (way.node_ne (by omega) (by omega) (by omega))]
    exact h.learned i' (by omega)
  · by_cases heq : i' = j + 1
    · subst heq
      rw [hnodes, Function.update_self]
      exact ⟨hl.steady.trans hstays, hsrc ▸ hroute⟩
    · rw [hnodes, Function.update_of_ne (way.node_ne (by omega) (by omega) heq)]
      exact h.routed i' (by omega) hi'
  · rw [hnodes, Function.update_of_ne (way.node_ne (by omega) (by omega) (by omega))]
    exact h.last

/-- The first daemon sends the packet that has waited. -/
theorem Answering.ended (h : mesh.Answering p k due start 0 s) (hk : 0 < k) (hexts : packet.exts = [])
    (hsrc' : packet.l25Shost = mesh.l25 (p 0)) (hdst' : packet.l25Dhost = mesh.l25 (p k)) (httl : packet.ttl = 255)
    (hcount : packet.u8 = 0) :
    ∃ i, mesh.Carrying p k due number packet start 0 (s.step L mesh.neighbors (r.action i)) := by
  obtain ⟨msg, rrep, hflight, he, hl2, hl2', hsrc, hdst⟩ := h.frame
  obtain ⟨i, hnodes, hframes, -⟩ := s.receives L hflight r
  have hn := h.first
  simp only [hn] at hnodes hframes
  have hf : Node.FromOther (mesh.iface (p 1)).hwaddr (mesh.iface (p 0)) (mesh.l25 (p 0)) msg :=
    ⟨hl2, way.hwaddr_ne (by omega) (by omega) (by omega), hsrc ▸ way.l25_ne (by omega) (by omega) (by omega)⟩
  have hsent := (asked.placed 0 (by omega)).ends_discovery r L he hf (asked.hears 0 hk).2 ht hl2'
    (hsrc ▸ asked.ignores 0 hk) hdst.symm (hsrc ▸ asked.waits)
  refine ⟨i, ⟨_, hframes _ hsent _ (List.mem_singleton_self _) _ (way.linked 0 hk).1, hexts, rfl, rfl, hsrc', hdst',
    asked.counted, rfl, ?_, ?_⟩, fun i' hlt hi' => ?_, ?_⟩
  · simp [hcount]
  · simp [httl]
  · rw [hnodes, Function.update_of_ne (way.node_ne (by omega) (by omega) (by omega))]
    exact h.routed i' hlt hi'
  · rw [hnodes, Function.update_of_ne (way.node_ne (by omega) (by omega) (by omega))]
    exact h.last

section
variable (hlong : k ≤ 255) (huni : (mesh.l25 (p k)).getLsbD 40 = false)
include hlong huni

omit ht in
/-- A daemon on the way sends the packet on. -/
theorem Carrying.passed (h : mesh.Carrying p k due number packet start j s) (hj : j + 1 < k) :
    ∃ i, mesh.Carrying p k due number packet start (j + 1) (s.step L mesh.neighbors (r.action i)) := by
  obtain ⟨msg, hflight, he, hl2, hl2', hsrc, hdst, hnum, hpay, hu8, httl⟩ := h.frame
  obtain ⟨i, hnodes, hframes, -⟩ := s.receives L hflight r
  have hr := h.routed (j + 1) (by omega) hj
  have hf : Node.FromOther (mesh.iface (p j)).hwaddr (mesh.iface (p (j + 1))) (mesh.l25 (p (j + 1))) msg :=
    ⟨hl2, way.hwaddr_ne (by omega) (by omega) (by omega), hsrc ▸ way.l25_ne (by omega) (by omega) (by omega)⟩
  have hd : mesh.l25 (p (j + 1)) ≠ msg.l25Dhost := hdst ▸ way.l25_ne (by omega) (by omega) (by omega)
  obtain ⟨hne, httl', hu8'⟩ := one_hop (by omega) hu8 httl
  have hnew : (s.net.nodes (p (j + 1))).ds.takesAsNew msg.l25Shost msg.u16 = true := by
    rw [hr.steady.ds, hsrc, hnum]
    exact asked.unseen j (by omega)
  have hsent := hr.steady.placed.data_passed r L he hf (hdst ▸ huni) hne hnew hl2' hd (hdst ▸ hr.onward)
  simp only [hsent] at hframes
  refine ⟨i, ⟨_, hframes _ (List.mem_singleton_self _) _ (List.mem_singleton_self _) _ (way.linked (j + 1) hj).1, he,
    rfl, rfl, hsrc, hdst, hnum, hpay, hu8', httl'⟩, fun i' hlt hi' => ?_, ?_⟩
  · rw [hnodes, Function.update_of_ne (way.node_ne (by omega) (by omega) (by omega))]
    exact h.routed i' (by omega) hi'
  · rw [hnodes, Function.update_of_ne (way.node_ne (by omega) (by omega) (by omega))]
    exact h.last

omit ht in
/-- The last daemon hands it over. -/
theorem Carrying.delivered (h : mesh.Carrying p k due number packet start j s) (hj : j + 1 = k) :
    ∃ i, mesh.Delivered p k packet.payload (s.step L mesh.neighbors (r.action i)) := by
  obtain ⟨msg, hflight, he, hl2, hl2', hsrc, hdst, hnum, hpay, hu8, httl⟩ := h.frame
  obtain ⟨i, -, -, hhanded⟩ := @Served.receives N _ L mesh.neighbors s _ hflight r
  subst hj
  have hf : Node.FromOther (mesh.iface (p j)).hwaddr (mesh.iface (p (j + 1))) (mesh.l25 (p (j + 1))) msg :=
    ⟨hl2, way.hwaddr_ne (by omega) (by omega) (by omega), hsrc ▸ way.l25_ne (by omega) (by omega) (by omega)⟩
  obtain ⟨hne, httl', hu8'⟩ := one_hop (by omega) hu8 httl
  have hnew : (s.net.nodes (p (j + 1))).ds.takesAsNew msg.l25Shost msg.u16 = true := by
    rw [h.last.ds, hsrc, hnum]
    exact asked.unseen j (by omega)
  have hsent := h.last.placed.data_arrived r L he hf (hdst ▸ huni) hne hnew hdst.symm
  simp only [hsent] at hhanded
  exact ⟨i, _, hhanded _ (List.mem_singleton_self _), hsrc, hpay, hu8'⟩

end

end

/-! ## From the system to the system -/

section
variable {N : Type} [DecidableEq N] (mesh : Mesh N) (L : Libdessert)

theorem placed (acts : List (NetAction N)) (i : N) :
    ((Runs.exec (Net.step L mesh.neighbors) mesh.start acts).nodes i).Placed (mesh.l25 i) (mesh.iface i) := by
  obtain ⟨evs, hevs⟩ := Net.run_node L mesh.neighbors mesh.start acts i
  rw [hevs]
  have hinit : (aodvDbInit (mesh.cfg i) (mesh.l25 i) [mesh.iface i]).Placed (mesh.l25 i) (mesh.iface i) :=
    ⟨rfl, rfl, mesh.gossipNone i, Node.init_sound _ _ _, Node.init_stored _ _ _⟩
  exact Runs.exec_inv (I := Node.Placed (mesh.l25 i) (mesh.iface i)) (fun _ ev hn => hn.step L ev) hinit evs

variable {mesh} {p : Nat → N} {k : Nat} {due : Timeval}

/-- A packet from the system of the first daemon starts the discovery. -/
theorem Open.asks {s : Served N} (ho : mesh.Open p k due s.net.nodes) (way : mesh.Way p k) (hk : 0 < k)
    (hplaced : ∀ i, (s.net.nodes i).Placed (mesh.l25 i) (mesh.iface i))
    (huni : (mesh.l25 (p k)).getLsbD 40 = false) (httl : k ≤ (s.net.nodes (p 0)).firstTtl.toNat) {now : Timeval}
    (hrate : ¬ (aodvDbRlGetrreqcount (s.net.nodes (p 0)).rreqLog now).2 > rreqRatelimit) (payload : List UInt8) :
    let s' := s.step L mesh.neighbors (.own (p 0) (.sysRx (mesh.l25 (p 0)) (mesh.l25 (p k)) payload now))
    let seq := (s.net.nodes (p 0)).seqNumGlobal + 1
    mesh.Asked p k due seq ((s.net.nodes (p 0)).dataSeqGlobal + 1)
      { Node.sysMsg (mesh.l25 (p 0)) (mesh.l25 (p k)) payload with ttl := 255, u8 := 0 } s'.net.nodes ∧
      mesh.Asking p k due seq s'.net.nodes 0 s' := by
  intro s' seq
  obtain ⟨hstays, hrt, hseq, hq, rreq, msg, hsent, he, hsrc, hdst, hmttl, hnum⟩ :=
    (hplaced (p 0)).packet_waits (ho.ignores 0 hk) huni ho.noSeries ho.noPacket hrate payload
  have hnodes : s'.net.nodes = Function.update s.net.nodes (p 0)
      ((s.net.nodes (p 0)).aodvSys2rp (Node.sysMsg (mesh.l25 (p 0)) (mesh.l25 (p k)) payload) now).1 := rfl
  have hfirst := congrFun hnodes (p 0)
  rw [Function.update_self] at hfirst
  have hother : ∀ i < k, s'.net.nodes (p (i + 1)) = s.net.nodes (p (i + 1)) := fun i hi => by
    rw [hnodes, Function.update_of_ne (way.node_ne (by omega) (by omega) (by omega))]
  refine ⟨⟨fun i hi => ?_, fun i hi => ⟨?_, ?_⟩, fun i hi => ?_, fun i hi => ?_, ho.numbered, fun i hi => ?_, ?_, ?_⟩,
    ⟨⟨{ msg with l2Shost := (mesh.iface (p 0)).hwaddr }, rreq, ?_, he, hnum, rfl, hsrc, hdst, ?_⟩, rfl,
      fun i hi => absurd hi (Nat.not_lt_zero i), fun _ _ _ => rfl⟩⟩
  · cases i with
    | zero => rw [hfirst]; exact hstays.placed
    | succ i => rw [hother i hi]; exact hplaced _
  · rw [hother i hi]
    exact (ho.hears i hi).1
  · cases i with
    | zero => rw [hfirst]; exact hstays.hears _ (ho.hears 0 hi).2
    | succ i => rw [hother i (by omega)]; exact (ho.hears (i + 1) hi).2
  · cases i with
    | zero => unfold Node.Ignores; rw [hfirst, hrt]; exact ho.ignores 0 hi
    | succ i => rw [hother i (by omega)]; exact ho.ignores (i + 1) hi
  · rw [hother i hi]
    exact ho.awaits i hi
  · rw [hother i hi]
    exact ho.unseen i hi
  · rw [hfirst, hseq]
  · rw [hfirst]
    exact hq
  · refine List.mem_append_right _ (mem_transmit (s := .mesh msg none) ?_ ?_ (way.linked 0 hk).1)
    · exact hsent ▸ List.mem_singleton_self _
    · rw [Node.frames]
      exact List.mem_map.mpr ⟨mesh.iface (p 0), hstays.placed.meshiflist ▸ List.mem_singleton_self _, rfl⟩
  · simp only [hmttl]
    exact httl

/-- A round for each hop of the RREQ, of the RREP and of the packet. -/
theorem Asked.delivers {seq : UInt32} {number : UInt16} {packet : DessertMsg} {start : N → Node} {j : Nat}
    (way : mesh.Way p (j + 1)) (asked : mesh.Asked p (j + 1) due seq number packet start) (hlong : j + 1 ≤ 255)
    (huni : (mesh.l25 (p (j + 1))).getLsbD 40 = false) (hexts : packet.exts = [])
    (hsrc : packet.l25Shost = mesh.l25 (p 0)) (hdst : packet.l25Dhost = mesh.l25 (p (j + 1))) (httl : packet.ttl = 255)
    (hcount : packet.u8 = 0) :
    Runs.Leads (fun (s : Served N) i (r : Reception) => s.step L mesh.neighbors (r.action i)) (fun r => Timely due r.now)
      (3 * (j + 1)) (mesh.Asking p (j + 1) due seq start 0) (mesh.Delivered p (j + 1) packet.payload) := by
  let step := fun (s : Served N) i (r : Reception) => s.step L mesh.neighbors (r.action i)
  let given := fun r : Reception => Timely due r.now
  have out : Runs.Leads step given j (mesh.Asking p (j + 1) due seq start 0) (mesh.Asking p (j + 1) due seq start j) :=
    .stages fun i hi => .single fun s h r hr => h.passed way asked L hr (by omega)
  have answer : Runs.Leads step given 1 (mesh.Asking p (j + 1) due seq start j)
      (mesh.Answering p (j + 1) due start j) :=
    .single fun s h r hr => h.answered way asked L hr rfl
  have back : Runs.Leads step given j (mesh.Answering p (j + 1) due start j) (mesh.Answering p (j + 1) due start 0) :=
    .descend fun i hi => .single fun s h r hr => h.passed way asked L hr (by omega)
  have sent : Runs.Leads step given 1 (mesh.Answering p (j + 1) due start 0)
      (mesh.Carrying p (j + 1) due number packet start 0) :=
    .single fun s h r hr => h.ended way asked L hr (Nat.succ_pos j) hexts hsrc hdst httl hcount
  have carried : Runs.Leads step given j (mesh.Carrying p (j + 1) due number packet start 0)
      (mesh.Carrying p (j + 1) due number packet start j) :=
    .stages fun i hi => .single fun s h r _ => h.passed way asked L hlong huni (by omega)
  have last : Runs.Leads step given 1 (mesh.Carrying p (j + 1) due number packet start j)
      (mesh.Delivered p (j + 1) packet.payload) :=
    .single fun s h r _ => h.delivered way asked L hlong huni rfl
  have all := ((((out.trans answer).trans back).trans sent).trans carried).trans last
  rwa [show j + 1 + j + 1 + j + 1 = 3 * (j + 1) by omega] at all

end

/-- The three nodes of a line, in order. -/
def along (i : Nat) : Fin 3 := ⟨min i 2, by omega⟩

/-- All neighbors have learned of each other. -/
def acquainted : List (NetAction (Fin 3)) := greetings ++ [.own (along 0) .sendHello, arrive 0, arrive 0, .lose 0]

end Mesh

end DesAodv
