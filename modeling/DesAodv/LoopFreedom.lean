import DesAodv.Network
import DesAodv.CaptureSteps
import Mathlib.Data.Prod.Lex
import Mathlib.Order.WithBot

/-!
# Loop freedom

A network of daemons with one interface each, with the best captures of every
node beside its state. The best capture of a node comes over a neighbor that is
the destination or has a better one; as long as all captures are in order, the
routes to a destination therefore make no loop.
-/

namespace DesAodv

/-- Finitely many daemons, each on one interface of its own and without gossiping. -/
structure Mesh (N : Type) where
  nodes : List N
  mem_nodes : ∀ i, i ∈ nodes
  cfg : N → Config
  gossipNone : ∀ i, (cfg i).gossipType = .gossipNone
  l25 : N → MacAddr
  iface : N → Meshif
  hwaddr_inj : ∀ i j, (iface i).hwaddr = (iface j).hwaddr → i = j
  neighbors : N → List N

namespace Mesh

section
variable {N : Type} (mesh : Mesh N)

/-- All daemons are started, and nothing is in flight. -/
def start : Net N :=
  { nodes := fun i => aodvDbInit (mesh.cfg i) (mesh.l25 i) [mesh.iface i]
    inFlight := [] }

/-- The node that the route of node `i` to `host` leads to. -/
def nextHop (net : Net N) (host : MacAddr) (i : N) : Option N :=
  ((net.nodes i).routeTo host).bind fun route =>
    mesh.nodes.find? fun j => decide ((mesh.iface j).hwaddr = route.1)

variable {mesh}

theorem nextHop_eq_some {net : Net N} {host : MacAddr} {i j : N} :
    mesh.nextHop net host i = some j ↔
      ∃ e, (net.nodes i).rt.find host = some e ∧ e.valid = true ∧ e.nextHop = (mesh.iface j).hwaddr := by
  constructor
  · intro h
    obtain ⟨⟨nextHop, outputIface⟩, hr, hj⟩ := Option.bind_eq_some_iff.mp h
    obtain ⟨e, he, hv, rfl, -⟩ := Node.routeTo_eq_some.mp hr
    have hd := List.find?_some hj
    exact ⟨e, he, hv, (of_decide_eq_true hd).symm⟩
  · intro hx
    obtain ⟨e, he, hv, hj⟩ := hx
    refine Option.bind_eq_some_iff.mpr ⟨(e.nextHop, e.outputIface), Node.routeTo_eq_some.mpr ⟨e, he, hv, rfl, rfl⟩, ?_⟩
    cases hf : mesh.nodes.find? fun k => decide ((mesh.iface k).hwaddr = e.nextHop) with
    | none =>
      have hno := List.find?_eq_none.mp hf j (mesh.mem_nodes j)
      exact absurd (decide_eq_true hj.symm) hno
    | some k =>
      have hd := List.find?_some hf
      exact congrArg some (mesh.hwaddr_inj k j ((of_decide_eq_true hd).trans hj))

end

end Mesh

/-! ## Best captures in a network -/

/-- A network and the best captures of its nodes; `clock` counts the steps. -/
structure Traced (N : Type) where
  net : Net N
  best : N → MacAddr → Option Best
  clock : Nat

section
variable {N : Type}

/-- What is captured in a step, and where. -/
def Net.captured (net : Net N) : NetAction N → Option (N × Capture)
  | .receive k now link gossip rcvdHellos =>
    net.inFlight[k]?.bind fun f =>
      let n := net.nodes f.receiver
      (n.capture (Net.rxEnv n f.msg now link gossip rcvdHellos) f.msg).map fun c => (f.receiver, c)
  | _ => none

def Mesh.startTraced (mesh : Mesh N) : Traced N :=
  { net := mesh.start, best := fun _ _ => none, clock := 0 }

variable [DecidableEq N]

def Traced.step (L : Libdessert) (mesh : Mesh N) (q : Quality) (t : Traced N) (a : NetAction N) : Traced N :=
  { net := t.net.step L mesh.neighbors a
    best :=
      match t.net.captured a with
      | none => t.best
      | some (i, c) => Function.update t.best i (c.next q (t.best i) t.clock)
    clock := t.clock + 1 }

/-- What is captured in the step is captured in order. -/
def Traced.InOrder (q : Quality) (t : Traced N) (a : NetAction N) : Prop :=
  ∀ p ∈ t.net.captured a, p.2.InOrder q (t.best p.1)

instance (q : Quality) (t : Traced N) (a : NetAction N) : Decidable (t.InOrder q a) :=
  inferInstanceAs (Decidable (∀ p ∈ t.net.captured a, p.2.InOrder q (t.best p.1)))

end

/-! ## The rank of a node -/

/-- Of two captures of the same quality the earlier one is better. -/
def Best.key (h : Best) : ℕ ×ₗ ℕᵒᵈ := toLex (h.quality, OrderDual.toDual h.time)

def Best.level : Option Best → WithBot (ℕ ×ₗ ℕᵒᵈ)
  | none => ⊥
  | some h => h.key

theorem Best.key_lt {h h' : Best} :
    h.key < h'.key ↔ h.quality < h'.quality ∨ h.quality = h'.quality ∧ h'.time < h.time := by
  simp only [Best.key, Prod.Lex.toLex_lt_toLex, OrderDual.toDual_lt_toDual]

section
variable {N : Type} (mesh : Mesh N) (best : N → MacAddr → Option Best) (host : MacAddr)

/-- The destination is above all, and a node without a capture below. -/
def Mesh.rank (i : N) : WithTop (WithBot (ℕ ×ₗ ℕᵒᵈ)) :=
  if mesh.l25 i = host then ⊤ else Best.level (best i host)

variable {mesh best host}

theorem Mesh.rank_of_best {i : N} (hf : mesh.l25 i ≠ host) {h : Best} (hh : best i host = some h) :
    mesh.rank best host i = Best.level (some h) := by
  rw [rank, if_neg hf, hh]

theorem Mesh.rank_mono {best' : N → MacAddr → Option Best} {i : N} (hle : BestLe (best i) (best' i)) :
    mesh.rank best host i ≤ mesh.rank best' host i := by
  unfold rank
  split
  · exact le_top
  · apply WithTop.coe_le_coe.mpr
    cases hh : best i host with
    | none => exact bot_le
    | some h =>
      obtain ⟨h', hh', hor⟩ := hle host h hh
      rw [hh']
      apply WithBot.coe_le_coe.mpr
      rcases hor with rfl | hlt
      · exact le_refl h'.key
      · exact le_of_lt (Best.key_lt.mpr (.inl hlt))

theorem Mesh.lt_rank {q : Quality} {j : N} {seq : UInt32} {metric : Metric} {h : Best}
    (hc : Claims q (mesh.l25 j) (best j) host seq metric) (hle : h.quality ≤ q.of host seq metric)
    (ht : ∀ h', best j host = some h' → h'.time < h.time) :
    Best.level (some h) < mesh.rank best host j := by
  by_cases ho : mesh.l25 j = host
  · rw [rank, if_pos ho]
    exact WithTop.coe_lt_top _
  · obtain ⟨h', hh', hle'⟩ := hc.resolve_left ho
    rw [rank_of_best ho hh']
    refine WithTop.coe_lt_coe.mpr (WithBot.coe_lt_coe.mpr (Best.key_lt.mpr ?_))
    rcases Nat.lt_or_eq_of_le (Nat.le_trans hle hle') with hlt | heq
    · exact .inl hlt
    · exact .inr ⟨heq, ht h' hh'⟩

end

/-! ## The invariant -/

section
variable {N : Type} (mesh : Mesh N) (q : Quality)

/-- The best capture of node `i` for `host` comes over a neighbor of higher rank. -/
structure Upward (best : N → MacAddr → Option Best) (clock : Nat) (i : N) (host : MacAddr) (h : Best) :
    Prop where
  time : h.time < clock
  foreign : mesh.l25 i ≠ host
  above : ∃ j, (mesh.iface j).hwaddr = h.via ∧
    Best.level (some h) < mesh.rank best host j

/-- Every entry is anchored in a best capture, every best capture comes from above, and every frame in
flight is backed by its sender. -/
structure Ranked (net : Net N) (best : N → MacAddr → Option Best) (clock : Nat) : Prop where
  held : ∀ i, Held q (mesh.l25 i) (mesh.iface i) (best i) (net.nodes i)
  upward : ∀ i host h, best i host = some h → Upward mesh best clock i host h
  flights : ∀ f ∈ net.inFlight, ∃ j, f.msg.l2Shost = (mesh.iface j).hwaddr ∧
    Backed q (mesh.l25 j) (best j) f.msg

variable {mesh q}

theorem Upward.mono {best best' : N → MacAddr → Option Best} (hle : ∀ i, BestLe (best i) (best' i)) {clock : Nat}
    {i : N} {host : MacAddr} {h : Best} (hu : Upward mesh best clock i host h) :
    Upward mesh best' (clock + 1) i host h := by
  obtain ⟨j, hj, hlt⟩ := hu.above
  exact ⟨Nat.lt_succ_of_lt hu.time, hu.foreign, j, hj, lt_of_lt_of_le hlt (Mesh.rank_mono (hle j))⟩

theorem Ranked.acyclic {net : Net N} {best : N → MacAddr → Option Best} {clock : Nat}
    (h : Ranked mesh q net best clock) (host : MacAddr) : Chain.Acyclic (mesh.nextHop net host) := by
  apply Chain.acyclic_of_rank (mesh.rank best host)
  intro i j hij
  obtain ⟨e, he, hv, hj⟩ := Mesh.nextHop_eq_some.mp hij
  simp only [RtEntry.valid, Bool.and_eq_true, Bool.not_eq_true'] at hv
  have ha := (h.held i).anchored host e he hv.1
  obtain ⟨b, hb, -, hvia⟩ := ha.best
  obtain ⟨j', hj', hlt⟩ := (h.upward i host b hb).above
  have hjj : j' = j := mesh.hwaddr_inj j' j (by rw [hj', ← hvia, hj])
  subst hjj
  rw [Mesh.rank_of_best ha.foreign hb]
  exact hlt

theorem start_ranked : Ranked mesh q mesh.start (fun _ _ => none) 0 where
  held i :=
    { l25Defsrc := rfl
      meshiflist := rfl
      wf := init_wf
      stored := Node.init_stored _ _ _
      anchored := by
        intro host e he
        cases he }
  upward := by
    intro i host h hh
    cases hh
  flights := by
    intro f hf
    cases hf

theorem Held.frames {l25 : MacAddr} {iface : Meshif} {best : MacAddr → Option Best} {n : Node}
    (h : Held q l25 iface best n) {s : Sent} (hs : s.Backed q l25 iface best) :
    ∀ m ∈ n.frames s, m.l2Shost = iface.hwaddr ∧ Backed q l25 best m := by
  intro m hm
  match s, hs with
  | .mesh msg (some i), hs =>
    obtain ⟨rfl, hb⟩ := hs
    rw [List.mem_singleton.mp hm]
    exact ⟨rfl, hb.congr rfl rfl rfl⟩
  | .mesh msg none, hb =>
    simp only [Node.frames, h.meshiflist, List.map_cons, List.map_nil] at hm
    rw [List.mem_singleton.mp hm]
    exact ⟨rfl, hb.congr rfl rfl rfl⟩
  | .sys msg, _ => cases hm

/-! ## Steps -/

variable [DecidableEq N]

/-- The step of node `i`, whose best captures become `b`. -/
theorem Ranked.update {net : Net N} {best : N → MacAddr → Option Best} {clock : Nat}
    (h : Ranked mesh q net best clock) (flights : List (Flight N)) (hf : ∀ f ∈ flights, f ∈ net.inFlight) {i : N}
    {r : Node × List Sent} {b : MacAddr → Option Best} (hle : BestLe (best i) b)
    (hheld : Held q (mesh.l25 i) (mesh.iface i) b r.1)
    (hsent : ∀ s ∈ r.2, s.Backed q (mesh.l25 i) (mesh.iface i) b)
    (hup : ∀ host h, b host = some h → Upward mesh (Function.update best i b) (clock + 1) i host h) :
    Ranked mesh q (Net.update mesh.neighbors { net with inFlight := flights } i r) (Function.update best i b)
      (clock + 1) := by
  have hall : ∀ j, BestLe (best j) (Function.update best i b j) := by
    intro j
    by_cases hj : j = i
    · subst hj
      rw [Function.update_self]
      exact hle
    · rw [Function.update_of_ne hj]
      exact .refl _
  refine ⟨fun j => ?_, fun j host b' hb' => ?_, fun f hmem => ?_⟩
  · by_cases hj : j = i
    · subst hj
      simp only [Net.update, Function.update_self]
      exact hheld
    · simp only [Net.update, Function.update_of_ne hj]
      exact h.held j
  · by_cases hj : j = i
    · subst hj
      rw [Function.update_self] at hb'
      exact hup host b' hb'
    · rw [Function.update_of_ne hj] at hb'
      exact (h.upward j host b' hb').mono hall
  · rcases List.mem_append.mp hmem with hmem | hmem
    · obtain ⟨j, hj, hb⟩ := h.flights f (hf f hmem)
      exact ⟨j, hj, hb.mono (hall j)⟩
    · obtain ⟨m, hm, hr⟩ := List.mem_flatMap.mp hmem
      obtain ⟨s, hs, hm⟩ := List.mem_flatMap.mp hm
      obtain ⟨k, -, rfl⟩ := List.mem_map.mp hr
      refine ⟨i, ?_⟩
      rw [Function.update_self]
      exact hheld.frames (hsent s hs) m hm

omit [DecidableEq N] in
theorem Ranked.drop {net : Net N} {best : N → MacAddr → Option Best} {clock : Nat}
    (h : Ranked mesh q net best clock) {flights : List (Flight N)} (hf : ∀ f ∈ flights, f ∈ net.inFlight) :
    Ranked mesh q { net with inFlight := flights } best (clock + 1) :=
  ⟨h.held, fun i host b hb => (h.upward i host b hb).mono fun _ => .refl _, fun f hmem => h.flights f (hf f hmem)⟩

theorem Ranked.own (L : Libdessert) {net : Net N} {best : N → MacAddr → Option Best} {clock : Nat}
    (h : Ranked mesh q net best clock) (i : N) {ev : NodeEvent} (hev : ∀ cb env msg, ev ≠ .mesh cb env msg) :
    Ranked mesh q (net.update mesh.neighbors i ((net.nodes i).handle L ev)) best (clock + 1) := by
  have hi := h.held i
  have hu := h.update net.inFlight (fun _ hf => hf) (r := (net.nodes i).handle L ev) (.refl (best i))
    (hi.quiet (Node.step_own_quiet hev) (Node.step_stored L hi.stored ev))
    (fun s hs => by
      rcases Node.handle_own hi.routedOver hi.stored hev s hs with hp | ho
      · exact hp.backed
      · rw [hi.l25Defsrc] at ho
        exact ho.backed)
    (fun host b hb => by
      rw [Function.update_eq_self]
      exact (h.upward i host b hb).mono fun _ => .refl _)
  rw [Function.update_eq_self] at hu
  exact hu

/-- What is captured from a neighbor comes from above. -/
theorem Ranked.upward_next {net : Net N} {best : N → MacAddr → Option Best} {clock : Nat}
    (h : Ranked mesh q net best clock) {i j : N} (hij : j ≠ i) {c : Capture} (hc : c.InOrder q (best i))
    (hforeign : mesh.l25 i ≠ c.host) (hvia : c.via = (mesh.iface j).hwaddr)
    (hclaims : Claims q (mesh.l25 j) (best j) c.host c.number c.received) (host : MacAddr) (b : Best)
    (hb : c.next q (best i) clock host = some b) :
    Upward mesh (Function.update best i (c.next q (best i) clock)) (clock + 1) i host b := by
  have hall : ∀ k, BestLe (best k) (Function.update best i (c.next q (best i) clock) k) := by
    intro k
    by_cases hk : k = i
    · subst hk
      rw [Function.update_self]
      exact c.next_le
    · rw [Function.update_of_ne hk]
      exact .refl _
  by_cases hh : host = c.host
  · subst hh
    obtain ⟨b', hb', -, -, hor⟩ := hc.next clock
    rw [hb] at hb'
    obtain rfl := Option.some.inj hb'
    rcases hor with hold | rfl
    · exact (h.upward i c.host b hold).mono hall
    · refine ⟨Nat.lt_succ_self clock, hforeign, j, hvia.symm, ?_⟩
      refine lt_of_lt_of_le (Mesh.lt_rank hclaims hc.1 fun b' hb' => ?_) (Mesh.rank_mono (hall j))
      exact (h.upward j c.host b' hb').time
  · rw [Capture.next, Function.update_of_ne hh] at hb
    exact (h.upward i host b hb).mono hall

theorem Ranked.receive (L : Libdessert) {net : Net N} {best : N → MacAddr → Option Best} {clock : Nat}
    (h : Ranked mesh q net best clock) {f : Flight N} (hf : f ∈ net.inFlight) (flights : List (Flight N))
    (hfl : ∀ f ∈ flights, f ∈ net.inFlight) (now : Timeval) (link : LinkSample) (gossip : Bool)
    (rcvdHellos : Option UInt8)
    (ho : ∀ c ∈ (net.nodes f.receiver).capture
        (Net.rxEnv (net.nodes f.receiver) f.msg now link gossip rcvdHellos) f.msg, c.InOrder q (best f.receiver)) :
    Ranked mesh q
      (Net.update mesh.neighbors { net with inFlight := flights } f.receiver
        ((net.nodes f.receiver).receive L
          (Net.rxEnv (net.nodes f.receiver) f.msg now link gossip rcvdHellos) f.msg))
      (Function.update best f.receiver (Capture.nextOpt q (best f.receiver) clock
        ((net.nodes f.receiver).capture
          (Net.rxEnv (net.nodes f.receiver) f.msg now link gossip rcvdHellos) f.msg)))
      (clock + 1) := by
  have hi := h.held f.receiver
  obtain ⟨j, hsrc, hback⟩ := h.flights f hf
  have hif : (Net.rxEnv (net.nodes f.receiver) f.msg now link gossip rcvdHellos).iface = mesh.iface f.receiver := by
    simp only [Net.rxEnv, hi.meshiflist, List.headD_cons]
  have hl : (Net.rxEnv (net.nodes f.receiver) f.msg now link gossip rcvdHellos).lflags.l25Src =
      decide (mesh.l25 f.receiver = f.msg.l25Shost) := by
    simp only [Net.rxEnv, Node.lflags, hi.l25Defsrc]
  obtain ⟨hheld, hsent⟩ := Node.receive_held hi hif clock L hl hback ho
  refine h.update flights hfl ?_ hheld hsent ?_
  · cases (net.nodes f.receiver).capture
      (Net.rxEnv (net.nodes f.receiver) f.msg now link gossip rcvdHellos) f.msg with
    | none => exact .refl _
    | some c => exact c.next_le
  · cases hc : (net.nodes f.receiver).capture
      (Net.rxEnv (net.nodes f.receiver) f.msg now link gossip rcvdHellos) f.msg with
    | none =>
      intro host b hb
      rw [Capture.nextOpt, Function.update_eq_self]
      exact (h.upward f.receiver host b hb).mono fun _ => .refl _
    | some c =>
      obtain ⟨hd, hhost, hvia, -⟩ := Node.capture_eq_some hc
      obtain ⟨hl2, hl25⟩ := Node.dropErrors_keep hd
      have hne : j ≠ f.receiver := by
        intro hx
        obtain rfl := hx
        simp [Net.rxEnv, Node.lflags, hi.meshiflist, hsrc] at hl2
      have hforeign : mesh.l25 f.receiver ≠ c.host := by
        rw [hhost]
        exact of_decide_eq_false (hl.symm.trans hl25)
      exact h.upward_next hne (ho c hc) hforeign (hvia.trans hsrc) (Node.capture_claims hback hc)

variable (mesh q)

theorem step_ranked (L : Libdessert) {t : Traced N} (h : Ranked mesh q t.net t.best t.clock) {a : NetAction N}
    (ho : t.InOrder q a) :
    Ranked mesh q (t.step L mesh q a).net (t.step L mesh q a).best (t.step L mesh q a).clock := by
  cases a with
  | own i ev =>
    cases ev with
    | mesh cb env msg => exact h.drop fun _ hf => hf
    | _ => exact h.own L i fun cb env msg he => by cases he
  | lose k => exact h.drop fun f hf => List.mem_of_mem_eraseIdx hf
  | receive k now link gossip rcvdHellos =>
    simp only [Traced.InOrder, Net.captured] at ho
    simp only [Traced.step, Net.captured, Net.step]
    cases hk : t.net.inFlight[k]? with
    | none => exact h.drop fun _ hf => hf
    | some f =>
      simp only [hk, Option.bind_some] at ho ⊢
      have hr := h.receive L (List.mem_of_getElem? hk) (t.net.inFlight.eraseIdx k)
        (fun f hf => List.mem_of_mem_eraseIdx hf) now link gossip rcvdHellos fun c hc =>
          ho (f.receiver, c) (by rw [Option.mem_def.mp hc]; rfl)
      cases hc : (t.net.nodes f.receiver).capture
          (Net.rxEnv (t.net.nodes f.receiver) f.msg now link gossip rcvdHellos) f.msg with
      | none =>
        rw [hc, Capture.nextOpt, Function.update_eq_self] at hr
        exact hr
      | some c =>
        rw [hc] at hr
        exact hr

/-- In a run in which all captures are in order, the routes to a destination make no loop. -/
theorem Mesh.loopFree (L : Libdessert) (acts : List (NetAction N))
    (ho : Runs.Always (Traced.step L mesh q) (Traced.InOrder q) mesh.startTraced acts) :
    Runs.Throughout (Net.step L mesh.neighbors) (fun net => ∀ host, Chain.Acyclic (mesh.nextHop net host))
      mesh.start acts := by
  have hr : Runs.Throughout (Traced.step L mesh q) (fun t => Ranked mesh q t.net t.best t.clock)
      mesh.startTraced acts :=
    Runs.throughout_of_always (fun _ _ h hc => step_ranked mesh q L h hc) start_ranked ho
  have ha : Runs.Throughout (Traced.step L mesh q) (fun t => ∀ host, Chain.Acyclic (mesh.nextHop t.net host))
      mesh.startTraced acts := hr.imp fun t h host => h.acyclic host
  have hp : ∀ (t : Traced N) (a : NetAction N), (t.step L mesh q a).net = t.net.step L mesh.neighbors a :=
    fun _ _ => rfl
  exact Runs.Throughout.project (P := fun net => ∀ host, Chain.Acyclic (mesh.nextHop net host)) hp ha

end

/-! ## Three nodes in a line -/

def line : Mesh (Fin 3) where
  nodes := [0, 1, 2]
  mem_nodes := by decide
  cfg _ := { ringSearch := false }
  gossipNone _ := rfl
  l25 i := BitVec.ofNat 48 (100 + i)
  iface i := { ifindex := 0, hwaddr := BitVec.ofNat 48 (i + 1) }
  hwaddr_inj := by decide
  neighbors i := if i = 1 then [0, 2] else [1]

/-- Newer numbers first, then lower metrics. -/
def byNumber : Quality where
  of _ seq metric := 65536 * seq.toNat + (65535 - metric.toNat)
  zero_le _ seq metric := by
    have h0 : (0 : UInt32).toNat = 0 := rfl
    omega

def arrive (k : Nat) : NetAction (Fin 3) :=
  .receive k 1000 { avgRssi := 0, etxAdd := none, etxMul := none, pdr := none } true none

/-- The node in the middle and its neighbors learn of each other, and the last two the other way. -/
def greetings : List (NetAction (Fin 3)) :=
  [.own 1 .sendHello, arrive 0, arrive 0, arrive 0, arrive 0, .own 2 .sendHello, arrive 0, .lose 0, arrive 0]

/-- The first node finds a route to the last one. -/
def discovery : List (NetAction (Fin 3)) :=
  greetings ++ [.own 0 .sendHello, arrive 0, arrive 0, .lose 0, .own 0 (.cliSendRreq 102 1000), arrive 0, .lose 0,
    arrive 0, arrive 0, arrive 0]

/-- The first node looks for a host that is not there, and the RREQ comes back to the node in the middle. -/
def echo : List (NetAction (Fin 3)) :=
  greetings ++ [.own 0 (.cliSendRreq 777 1000), arrive 0, .lose 0, arrive 0, arrive 0]

theorem Mesh.loopFree_discovery :
    Runs.Always (Traced.step roomy line byNumber) (Traced.InOrder byNumber) line.startTraced discovery ∧
      Runs.Throughout (Net.step roomy line.neighbors) (fun net => ∀ host, Chain.Acyclic (line.nextHop net host))
        line.start discovery ∧
      Chain.follow (line.nextHop (Runs.exec (Net.step roomy line.neighbors) line.start discovery) 102) 2 0 = some 2 :=
  ⟨by decide, line.loopFree byNumber roomy discovery (by decide), by decide⟩

/-- The forced RREP has set the number of the new entry to 0, so that the RREQ that comes back is newer:
the middle node and the last one route to the first over each other. -/
theorem Mesh.loop_echo :
    ¬ Runs.Throughout (Net.step roomy line.neighbors) (fun net => ∀ host, Chain.Acyclic (line.nextHop net host))
      line.start echo := by
  intro h
  have hlast := Runs.throughout_iff.mp h echo [] (List.append_nil echo).symm 100
  exact hlast 1 1 1 0 2 (by decide) rfl (by decide) rfl

end DesAodv
