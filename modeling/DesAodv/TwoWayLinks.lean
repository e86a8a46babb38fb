import DesAodv.DaemonTables
import DesAodv.HeardNeighbors
import DesAodv.LoopFreedom
import DesAodv.Originated
import DesAodv.Overheard
import DesAodv.Responses

/-!
# Links that carry frames both ways

A HELLO goes one hop out and one hop back. So a daemon lets RREQs and RREPs of a
neighbor through only after the neighbor has heard it, and it has heard the
neighbor.
-/

namespace DesAodv

open Deadlines NeighborTable

theorem removed_ne_none {α τ : Type*} [LinearOrder τ] {d d' : α → Option τ} {T : τ} {gone : List (α × τ)}
    (hr : Removed d T gone d') {k : α} (h : d' k ≠ none) : d k ≠ none := by
  obtain ⟨t, ht⟩ := Option.ne_none_iff_exists'.mp h
  rw [((hr.rest k t).mp ht).1]
  exact Option.some_ne_none t

namespace Node

/-! ## The neighbor table -/

section
variable {n : Node}

theorem present_cleanup (hn : n.nt.Ok) {timestamp : Timeval} {k : NeighborKey}
    (hp : (dbNtCleanup n.nt n.st timestamp).1.Present k) : n.nt.Present k := by
  obtain ⟨hok, -, -, gone, hr, -⟩ := hn.cleanup n.st timestamp
  exact hn.present_iff.mpr (removed_ne_none hr (hok.present_iff.mp hp))

variable (L : Libdessert)

/-- Only the answer to a HELLO makes a neighbor. -/
theorem present_step (hn : n.nt.Ok) {ev : NodeEvent} {k : NeighborKey} (h : (n.step L ev).nt.Present k) :
    n.nt.Present k ∨ ∃ env msg, ev = .mesh .handleHello env msg ∧ HelloAnswered env msg ∧
      k = (msg.l2Shost, env.iface) := by
  rcases step_nt n L ev with ⟨op, hop, hstep⟩ | ⟨-, hs⟩
  · rw [show (n.step L ev).nt = (op.step (n.nt, n.st)).1 from congrArg Prod.fst hstep] at h
    cases ev with
    | mesh cb env msg =>
      cases cb with
      | dropErrors =>
        rw [ntOp_dropErrors] at hop
        split at hop
        · obtain rfl := Option.some.inj hop
          exact .inl (present_cleanup hn h)
        · cases hop
      | handleHello =>
        rw [ntOp_handleHello] at hop
        by_cases hans : HelloAnswered env msg
        · rw [if_pos hans] at hop
          obtain rfl := Option.some.inj hop
          obtain ⟨hok, -, gone, hr, -⟩ := hn.cap2Dneigh n.st n.cfg msg.l2Shost msg.u16 env.iface env.now env.now
          have hlive := removed_ne_none hr (hok.present_iff.mp h)
          by_cases hk : k = (msg.l2Shost, env.iface)
          · exact .inr ⟨env, msg, rfl, hans, hk⟩
          · rw [Function.update_of_ne hk] at hlive
            exact .inl (hn.present_iff.mpr hlive)
        · rw [if_neg hans] at hop
          cases hop
      | _ => cases hop
    | neighborReset =>
      cases hop
      cases h
    | cleanupDatabase now =>
      simp only [ntOp] at hop
      split at hop
      · cases hop
      · obtain rfl := Option.some.inj hop
        exact .inl (present_cleanup hn h)
    | _ => cases hop
  · refine .inl ?_
    rw [hn.present_iff, ← hs.live hn]
    exact (hn.same hs).present_iff.mp h

variable {L}

theorem present_exec {env : RxEnv} {msg : DessertMsg} (ran : List MeshCb) {k : NeighborKey} (hs : n.Sound)
    (h : (Runs.exec (Node.step L) n (ran.map fun cb => .mesh cb env msg)).nt.Present k) :
    n.nt.Present k ∨ HelloAnswered env msg ∧ k = (msg.l2Shost, env.iface) := by
  induction ran generalizing n with
  | nil => exact .inl h
  | cons cb ran ih =>
    rcases ih (hs.step L (.mesh cb env msg)) h with hp | hans
    · rcases present_step L hs.nt hp with hp | ⟨env', msg', he, hans, rfl⟩
      · exact .inl hp
      · obtain ⟨-, rfl, rfl⟩ := NodeEvent.mesh.inj he
        exact .inr ⟨hans, rfl⟩
    · exact .inr hans

theorem present_receive {env : RxEnv} {msg : DessertMsg} {k : NeighborKey} (hs : n.Sound)
    (h : (n.receive L env msg).1.nt.Present k) :
    n.nt.Present k ∨ HelloAnswered env msg ∧ k = (msg.l2Shost, env.iface) := by
  obtain ⟨ran, he⟩ := runCallbacks_run L env msg meshPipeline n
  have hr : (n.receive L env msg).1 = Runs.exec (Node.step L) n (ran.map fun cb => .mesh cb env msg) := he
  rw [hr] at h
  exact present_exec ran hs h

theorem present_own {ev : NodeEvent} (hev : ∀ cb env msg, ev ≠ .mesh cb env msg) {k : NeighborKey} (hs : n.Sound)
    (h : (n.handle L ev).1.nt.Present k) : n.nt.Present k := by
  rcases present_step L hs.nt h with hp | ⟨env, msg, he, -⟩
  · exact hp
  · exact absurd he (hev _ env msg)

end

/-! ## HELLOs -/

section
variable {n : Node} {env : RxEnv} {msg m : DessertMsg} {iface : Option Meshif}

/-- A HELLO is sent on behalf of a received one only: back to its sender. -/
theorem OnBehalf.hello_back (h : (Sent.mesh m iface).OnBehalf n env msg) (hk : m.kind = .hello) :
    msg.kind = .hello ∧ 1 ≤ msg.ttl - 1 ∧ m.ttl = msg.ttl - 1 ∧ m.l2Dhost = msg.l2Shost ∧ iface = some env.iface := by
  cases h with
  | packet he =>
    rw [kind_packet he] at hk
    cases hk
  | rerr hr =>
    rw [hr] at hk
    cases hk
  | hello hk' _ hone ht hd => exact ⟨hk', hone, ht, hd, rfl⟩
  | data hd he =>
    rw [DessertMsg.kind_congr he, hd] at hk
    cases hk
  | rebroadcast hr =>
    rw [countHop_kind, hr] at hk
    cases hk
  | answer _ seq =>
    rw [createRrep_kind] at hk
    cases hk
  | repair _ _ _ seq =>
    rw [createRrep_kind] at hk
    cases hk
  | rrep hr _ _ l2Dhost =>
    have hkind : ({ n.countHop env msg with l2Dhost } : DessertMsg).kind = .rrep := (DessertMsg.kind_congr rfl).trans hr
    rw [hkind] at hk
    cases hk

/-- Of its own accord a daemon sends HELLOs for two hops, on all interfaces. -/
theorem OwnAccord.hello_out {l25 : MacAddr} {start : Metric} (h : (Sent.mesh m iface).OwnAccord l25 start)
    (hk : m.kind = .hello) : m.ttl = 2 ∧ iface = none := by
  cases h with
  | packet he =>
    rw [kind_packet he] at hk
    cases hk
  | rerr hr =>
    rw [hr] at hk
    cases hk
  | hello _ ht => exact ⟨ht, rfl⟩
  | rreq hs =>
    obtain ⟨-, rreq, he⟩ := hs.own
    rw [show m.kind = .rreq by simp [DessertMsg.kind, DessertMsg.getHello, DessertMsg.getRreq, he]] at hk
    cases hk

end

/-! ## What a daemon keeps -/

/-- What holds of a daemon whatever it receives. -/
structure Stands (l25 : MacAddr) (cfg : Config) (ifs : List Meshif) (n : Node) : Prop where
  sound : n.Sound
  ifaces : n.meshiflist = ifs
  keeps : n.Keeps l25 cfg

section
variable {l25 : MacAddr} {cfg : Config} {ifs : List Meshif} {n : Node}

theorem init_stands (l25 : MacAddr) (cfg : Config) (ifs : List Meshif) : (aodvDbInit cfg l25 ifs).Stands l25 cfg ifs :=
  ⟨init_sound _ _ _, rfl, init_keeps _ _ _⟩

variable (L : Libdessert) (h : n.Stands l25 cfg ifs)
include h

theorem Stands.step (ev : NodeEvent) : (n.step L ev).Stands l25 cfg ifs :=
  ⟨h.sound.step L ev, (step_rt L n ev).2.2.2.trans h.ifaces, h.keeps.step L ev⟩

theorem Stands.receive (env : RxEnv) (msg : DessertMsg) : (n.receive L env msg).1.Stands l25 cfg ifs := by
  obtain ⟨ran, he⟩ := runCallbacks_run L env msg meshPipeline n
  have hr : (n.receive L env msg).1 = Runs.exec (Node.step L) n (ran.map fun cb => .mesh cb env msg) := he
  rw [hr]
  exact Runs.exec_inv (I := Stands l25 cfg ifs) (fun _ ev hn => hn.step L ev) h _

end

theorem headD_mem {ifs : List Meshif} (h : ifs ≠ []) (d : Meshif) : ifs.headD d ∈ ifs := by
  cases ifs with
  | nil => exact absurd rfl h
  | cons iface rest => exact List.mem_cons_self

theorem HelloAnswered.kind {env : RxEnv} {msg : DessertMsg} (h : HelloAnswered env msg) : msg.kind = .hello := by
  simp [DessertMsg.kind, h.1]

end Node

/-! ## Networks -/

section
variable {N : Type} (neighbors : N → List N) (cfg : N → Config) (l25 : N → MacAddr) (ifs : N → List Meshif)

/-- Every neighbor of a daemon has heard it, and has been heard by it then. -/
structure Met (heard : List (Hearing N)) (i : N) (n : Node) : Prop where
  stands : n.Stands (l25 i) (cfg i) (ifs i)
  neighbors : ∀ k, n.nt.Present k → k.2 ∈ ifs i ∧ ∃ j out back, Way neighbors ifs j [out, back] i ∧
    [out, back].Sublist heard ∧ out.sender = k.2.hwaddr ∧ back.sender = k.1

/-- A HELLO in flight is on its way out or on its way back to the interface it came from. -/
def Greeting (heard : List (Hearing N)) (j i : N) (msg : DessertMsg) : Prop :=
  msg.kind = .hello → (msg.l2Shost ∈ (ifs j).map Meshif.hwaddr ∧ i ∈ neighbors j) ∧
    (msg.ttl = 2 ∨ msg.ttl = 1 ∧ ∃ d out, Way neighbors ifs d [out] j ∧ [out].Sublist heard ∧
      out.sender = msg.l2Dhost)

variable {neighbors cfg l25 ifs} {heard : List (Hearing N)} {i j : N} {n : Node} {msg : DessertMsg}

theorem Met.later (h : Met neighbors cfg l25 ifs heard i n) (later : List (Hearing N)) :
    Met neighbors cfg l25 ifs (heard ++ later) i n where
  stands := h.stands
  neighbors := fun k hk => by
    obtain ⟨hi, j, out, back, hw, hs, hout, hback⟩ := h.neighbors k hk
    exact ⟨hi, j, out, back, hw, hs.trans (List.sublist_append_left _ _), hout, hback⟩

theorem Greeting.later (h : Greeting neighbors ifs heard j i msg) (later : List (Hearing N)) :
    Greeting neighbors ifs (heard ++ later) j i msg := by
  intro hk
  obtain ⟨hf, ht | ⟨ht, d, out, hw, hs, hout⟩⟩ := h hk
  · exact ⟨hf, .inl ht⟩
  · exact ⟨hf, .inr ⟨ht, d, out, hw, hs.trans (List.sublist_append_left _ _), hout⟩⟩

theorem init_met (i : N) : Met neighbors cfg l25 ifs [] i (aodvDbInit (cfg i) (l25 i) (ifs i)) :=
  ⟨Node.init_stands (l25 i) (cfg i) (ifs i), fun _ hk => nomatch hk⟩

theorem met_kept (L : Libdessert) (hifs : ∀ i, ifs i ≠ []) :
    Overheard.Kept L neighbors (Met neighbors cfg l25 ifs) (Greeting neighbors ifs) where
  later := fun later h => h.later later
  laterFrame := fun later h => h.later later
  own := by
    intro heard i n ev hev h
    refine ⟨⟨h.stands.step L ev, fun k hk => h.neighbors k (Node.present_own hev h.stands.sound hk)⟩, ?_⟩
    intro s hs f hf receiver hr hkind
    obtain ⟨m, iface, a, rfl, rfl, ha⟩ := Node.mem_frames hf
    have hm : m.kind = .hello := (DessertMsg.kind_congr rfl).symm.trans hkind
    have hsent := (Node.handle_launches h.stands.keeps.launches L hev).sent _ hs
    obtain ⟨ht, rfl⟩ := Node.OwnAccord.hello_out hsent hm
    rcases ha with ha | ⟨-, ha⟩
    · cases ha
    · have hifaces : (n.handle L ev).1.meshiflist = ifs i := (h.stands.step L ev).ifaces
      rw [hifaces] at ha
      exact ⟨⟨List.mem_map_of_mem ha, hr⟩, .inl ht⟩
  receive := by
    intro heard i j n msg now link gossip rcvdHellos h hmsg
    have hiface : (Net.rxEnv n msg now link gossip rcvdHellos).iface ∈ ifs i := by
      simp only [Net.rxEnv, h.stands.ifaces]
      exact Node.headD_mem (hifs i) _
    refine ⟨⟨h.stands.receive L _ msg, fun k hk => ?_⟩, fun s hs f hf receiver hr hkind => ?_⟩
    · rcases Node.present_receive h.stands.sound hk with hk | ⟨hans, rfl⟩
      · exact (h.later _).neighbors k hk
      · obtain ⟨hfrom, ht | ⟨-, d, out, hw, hs, hout⟩⟩ := hmsg (Node.HelloAnswered.kind hans)
        · exact absurd (by rw [ht]; decide) hans.2.1
        · refine ⟨hiface, d, out, ⟨msg.l2Shost, i, link⟩, ?_, ?_, hout.trans hans.2.2.symm, rfl⟩
          · exact Way.hop hw ⟨msg.l2Shost, i, link⟩ hfrom
          · exact hs.append (List.Sublist.refl _)
    · obtain ⟨m, iface, a, rfl, rfl, ha⟩ := Node.mem_frames hf
      have hm : m.kind = .hello := (DessertMsg.kind_congr rfl).symm.trans hkind
      obtain ⟨-, hbehalf⟩ := Node.receive_onBehalf L h.stands.keeps.stored hs
      obtain ⟨hk, hone, ht, hdest, rfl⟩ := Node.OnBehalf.hello_back hbehalf hm
      rcases ha with ha | ⟨ha, -⟩
      · obtain rfl := Option.some.inj ha
        obtain ⟨hfrom, ht' | ⟨ht', -⟩⟩ := hmsg hk
        · refine ⟨⟨List.mem_map_of_mem hiface, hr⟩, .inr ⟨?_, j, ⟨msg.l2Shost, i, link⟩, ?_, ?_, hdest.symm⟩⟩
          · exact ht.trans (by rw [ht']; rfl)
          · exact Way.hop .start ⟨msg.l2Shost, i, link⟩ hfrom
          · exact List.sublist_append_right _ _
        · rw [ht'] at hone
          exact absurd hone (by decide)
      · cases ha

end

end DesAodv
