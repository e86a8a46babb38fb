import Mathlib.Algebra.Group.Nat.Defs
import DesAodv.Numbers

/-!
# Sequence number authority

Daemons on the air: every frame that was ever sent may be received by anyone at
any time and any number of times, so frames are delayed, duplicated, reordered
and lost. A RREQ or RREP that was never sent is not received. Each callback of
the pipeline is a step of its own. The increments of each counter are counted
beside the daemons.
-/

namespace DesAodv

structure Air (N : Type) where
  nodes : N → Node
  frames : List DessertMsg
  increments : N → Nat

/-- An event at a node other than a reception, or a callback for a frame. -/
inductive AirAction (N : Type)
  | own (i : N) (ev : NodeEvent)
  | callback (i : N) (cb : MeshCb) (env : RxEnv) (msg : DessertMsg)

namespace Air

section
variable (L : Libdessert) {N : Type}

/-- The event an action is, unless it is a forgery. -/
def event (air : Air N) : AirAction N → Option (N × NodeEvent)
  | .own _ (.mesh ..) => none
  | .own i ev => some (i, ev)
  | .callback i cb env msg =>
    if msg ∈ air.frames ∨ (msg.getRreq = none ∧ msg.getRrep = none) then
      some (i, .mesh cb { env with lflags := (air.nodes i).lflags msg } msg)
    else none

def take [DecidableEq N] (air : Air N) (i : N) (ev : NodeEvent) : Air N :=
  let r := (air.nodes i).handle L ev
  { nodes := Function.update air.nodes i r.1
    frames := air.frames ++ r.2.flatMap r.1.frames
    increments := Function.update air.increments i (air.increments i + (air.nodes i).increments L ev) }

def step [DecidableEq N] (air : Air N) (a : AirAction N) : Air N :=
  match air.event a with
  | none => air
  | some (i, ev) => air.take L i ev

def start (cfg : N → Config) (l25 : N → MacAddr) (ifs : N → List Meshif) : Air N :=
  { nodes := fun i => aodvDbInit (cfg i) (l25 i) (ifs i)
    frames := []
    increments := fun _ => 0 }

/-- No number for a node exceeds the counter of the node, and only its increments have moved it. -/
structure Authority (air : Air N) : Prop where
  counter : ∀ d, (air.nodes d).seqNumGlobal.toNat = air.increments d
  entries : ∀ i d, ∀ e ∈ (air.nodes i).rt.entries, e.addr = (air.nodes d).l25Defsrc →
    e.sequenceNumber ≤ (air.nodes d).seqNumGlobal
  originators : ∀ d, ∀ msg ∈ air.frames, ∀ rreq, msg.getRreq = some rreq → msg.l25Shost = (air.nodes d).l25Defsrc →
    rreq.originatorSequenceNumber ≤ (air.nodes d).seqNumGlobal
  destinations : ∀ d, ∀ msg ∈ air.frames, ∀ rreq, msg.getRreq = some rreq → msg.l25Dhost = (air.nodes d).l25Defsrc →
    rreq.destinationSequenceNumber ≤ (air.nodes d).seqNumGlobal
  answers : ∀ d, ∀ msg ∈ air.frames, ∀ rrep, msg.getRrep = some rrep → msg.l25Shost = (air.nodes d).l25Defsrc →
    rrep.destinationSequenceNumber ≤ (air.nodes d).seqNumGlobal

/-- The numbers a host has already given itself, if it is a node. -/
def Given (l25 : N → MacAddr) (air : Air N) (host : MacAddr) (seq : UInt32) : Prop :=
  ∀ d, l25 d = host → seq.toNat ≤ air.increments d

structure Sound (l25 : N → MacAddr) (air : Air N) : Prop where
  l25Defsrc : ∀ i, (air.nodes i).l25Defsrc = l25 i
  wf : ∀ i, (air.nodes i).rt.WF
  stored : ∀ i, (air.nodes i).Stored
  counter : ∀ i, (air.nodes i).seqNumGlobal.toNat = air.increments i
  nodes : ∀ i, (air.nodes i).Vouched (air.Given l25)
  frames : ∀ msg ∈ air.frames, msg.Vouched (air.Given l25)

/-! ## One step -/

variable {L} {l25 : N → MacAddr} {air : Air N}

theorem start_sound (cfg : N → Config) (l25 : N → MacAddr) (ifs : N → List Meshif) :
    (start cfg l25 ifs).Sound l25 where
  l25Defsrc _ := rfl
  wf _ := init_wf
  stored i := Node.init_stored (cfg i) (l25 i) (ifs i)
  counter _ := rfl
  nodes _ :=
    ⟨by simp [start, aodvDbInit, aodvDbRtInit, Rt.find], by simp [start, aodvDbInit, seriesInit, Node.SeriesAll]⟩
  frames := by simp [start]

theorem Sound.authority (h : air.Sound l25) : air.Authority where
  counter := h.counter
  entries i d e he ha := by
    rw [UInt32.le_iff_toNat_le, h.counter]
    exact (h.nodes i).entries e.addr e ((h.wf i).find_iff.mpr ⟨he, rfl⟩) d (h.l25Defsrc d ▸ ha.symm)
  originators d msg hm rreq hr ha := by
    rw [UInt32.le_iff_toNat_le, h.counter]
    exact (h.frames msg hm).originator rreq hr d (h.l25Defsrc d ▸ ha.symm)
  destinations d msg hm rreq hr ha := by
    rw [UInt32.le_iff_toNat_le, h.counter]
    exact (h.frames msg hm).asks rreq hr d (h.l25Defsrc d ▸ ha.symm)
  answers d msg hm rrep hr ha := by
    rw [UInt32.le_iff_toNat_le, h.counter]
    exact (h.frames msg hm).answers rrep hr d (h.l25Defsrc d ▸ ha.symm)

/-- What a callback is called for has been sent, or carries no number, and the flags are those of the
receiver. -/
theorem event_received (h : air.Sound l25) {a : AirAction N} {i : N} {cb : MeshCb} {env : RxEnv} {msg : DessertMsg}
    (he : air.event a = some (i, .mesh cb env msg)) :
    msg.Vouched (air.Given l25) ∧ env.lflags = (air.nodes i).lflags msg := by
  cases a with
  | own j ev => cases ev <;> simp [event] at he
  | callback j cb' env' msg' =>
    simp only [event] at he
    split at he
    · rename_i hm
      obtain ⟨rfl, hev⟩ := Prod.mk.inj (Option.some.inj he)
      obtain ⟨rfl, rfl, rfl⟩ := NodeEvent.mesh.inj hev
      refine ⟨?_, rfl⟩
      rcases hm with hm | ⟨hq, hp⟩
      · exact h.frames msg' hm
      · exact DessertMsg.Plain.vouched ⟨hq, hp⟩
    · cases he

variable [DecidableEq N]

theorem take_forall {P : N → Node → Prop} {i : N} {ev : NodeEvent} (h : ∀ k, P k (air.nodes k))
    (hi : P i ((air.nodes i).step L ev)) (k : N) : P k ((air.take L i ev).nodes k) := by
  by_cases hk : k = i
  · subst hk
    simpa [take, Node.step] using hi
  · simpa [take, hk] using h k

theorem take_increments (L : Libdessert) (air : Air N) (i : N) (ev : NodeEvent) (d : N) :
    air.increments d ≤ (air.take L i ev).increments d := by
  by_cases hd : d = i
  · subst hd
    simp [take]
  · simp [take, hd]

theorem step_increments (L : Libdessert) (air : Air N) (a : AirAction N) (d : N) :
    air.increments d ≤ (air.step L a).increments d := by
  unfold step
  split
  · exact Nat.le_refl _
  · exact take_increments L air _ _ d

theorem Given.take {host : MacAddr} {seq : UInt32} (h : air.Given l25 host seq) (L : Libdessert) (i : N)
    (ev : NodeEvent) : (air.take L i ev).Given l25 host seq :=
  fun d hd => Nat.le_trans (h d hd) (take_increments L air i ev d)

theorem Sound.take (hl : Function.Injective l25) (h : air.Sound l25) {a : AirAction N} {i : N} {ev : NodeEvent}
    (he : air.event a = some (i, ev)) (hb : (air.take L i ev).increments i < 2147483646) :
    (air.take L i ev).Sound l25 ∧ (air.nodes i).raises ev = false := by
  have hself : (air.take L i ev).increments i = air.increments i + (air.nodes i).increments L ev := by simp [Air.take]
  have hseq := h.counter i
  have hmsg : ∀ cb env msg, ev = .mesh cb env msg → msg.Vouched ((air.take L i ev).Given l25) := by
    intro cb env msg hx
    obtain rfl := hx
    exact (event_received h he).1.imp fun _ _ hg => hg.take L i _
  -- a RREQ to this node asks for no number that its counter has not reached
  have hno : ∀ env msg rreq, ev = .mesh .handleRreq env msg → env.lflags.l25Dst = true → msg.getRreq = some rreq →
      hfCompU32 rreq.destinationSequenceNumber
        ((air.nodes i).ownNumber ((air.nodes i).captResult env msg rreq)) ≤ 0 := by
    intro env msg rreq hx hd hr
    obtain rfl := hx
    obtain ⟨hm, hf⟩ := event_received h he
    rw [hf] at hd
    have hasks := hm.asks rreq hr i ((h.l25Defsrc i).symm.trans (of_decide_eq_true hd))
    rw [@Node.ownNumber_eq L _ _ _ (hf ▸ hd) _ hr]
    refine hfCompU32_nonpos ?_ ?_ <;> rw [toNat_add_ofNat (by omega)] <;> omega
  have hown : ∀ j ≤ (air.nodes i).increments L ev,
      (air.take L i ev).Given l25 (air.nodes i).l25Defsrc ((air.nodes i).seqNumGlobal + UInt32.ofNat j) := by
    intro j hj d hd
    obtain rfl := hl (hd.trans (h.l25Defsrc i))
    rw [toNat_add_ofNat (by omega)]
    omega
  obtain ⟨hv, hcount, hsent⟩ := Node.step_vouched (L := L) (fun _ _ _ => Nat.zero_le _) (h.wf i) (h.stored i)
    ((h.nodes i).imp fun _ _ hg => hg.take L i ev) ev hmsg hno hown
  refine ⟨⟨?_, ?_, ?_, fun k => ?_, ?_, fun msg hm => ?_⟩, Node.raises_eq_false hno⟩
  · exact take_forall (P := fun k n => n.l25Defsrc = l25 k) h.l25Defsrc
      ((Node.step_rt L (air.nodes i) ev).2.2.1.trans (h.l25Defsrc i))
  · exact take_forall (P := fun _ n => n.rt.WF) h.wf
      (Node.step_inv L (fun _ op hw => hw.step op) (air.nodes i) ev (h.wf i))
  · exact take_forall (P := fun _ n => n.Stored) h.stored (Node.step_stored L (h.stored i) ev)
  · by_cases hk : k = i
    · subst hk
      have hnode : (air.take L k ev).nodes k = (air.nodes k).step L ev := by simp [Air.take, Node.step]
      rw [hnode, hcount, hself, toNat_add_ofNat (by omega), hseq]
    · simpa [Air.take, hk] using h.counter k
  · exact take_forall (P := fun _ n => n.Vouched ((air.take L i ev).Given l25))
      (fun k => (h.nodes k).imp fun _ _ hg => hg.take L i ev) hv
  · rcases List.mem_append.mp hm with hm | hm
    · exact (h.frames msg hm).imp fun _ _ hg => hg.take L i ev
    · obtain ⟨s, hs, hf⟩ := List.mem_flatMap.mp hm
      exact (hsent s hs).frames _ msg hf

/-! ## Runs -/

/-- Nodes have different addresses. As long as no counter gets near the wrap, no number for a node exceeds
the counter of the node, the rule of RFC 6.6.1 never sets a counter, and only the increments of a node move
its counter. -/
theorem counters_authoritative (cfg : N → Config) (hl : Function.Injective l25) (ifs : N → List Meshif)
    (acts : List (AirAction N))
    (hb : ∀ d, (Runs.exec (step L) (start cfg l25 ifs) acts).increments d < 2 ^ 31 - 2) :
    Runs.Throughout (step L) Authority (start cfg l25 ifs) acts ∧
      Runs.Always (step L) (fun air a => ∀ i ev, air.event a = some (i, ev) → (air.nodes i).raises ev = false)
        (start cfg l25 ifs) acts := by
  have hbound : Runs.Always (step L) (fun air a => ∀ d, (air.step L a).increments d < 2 ^ 31 - 2)
      (start cfg l25 ifs) acts := by
    refine Runs.always_of_final (B := fun air : Air N => ∀ d, air.increments d < 2 ^ 31 - 2) ?_ hb
    exact fun air a h d => Nat.lt_of_le_of_lt (step_increments L air a d) (h d)
  have hsound : Runs.Throughout (step L) (Sound l25) (start cfg l25 ifs) acts := by
    refine Runs.throughout_of_always (fun air a h hlt => ?_) (start_sound cfg l25 ifs) hbound
    cases he : air.event a with
    | none => simpa only [step, he] using h
    | some r =>
      obtain ⟨i, ev⟩ := r
      have hi := hlt i
      simp only [step, he] at hi ⊢
      exact (h.take hl he hi).1
  refine ⟨hsound.imp fun air h => h.authority, (hsound.always.and hbound).imp fun air a h i ev he => ?_⟩
  have hi := h.2 i
  simp only [step, he] at hi
  exact (h.1.take hl he hi).2

/-- Two nodes with the addresses 5 and 9. -/
def pair : Air Bool :=
  start (fun _ => {}) (fun i => if i then 9 else 5) fun i => [{ ifindex := 1, hwaddr := if i then 0x90 else 0x50 }]

def asked : List (AirAction Bool) := [.own false (.cliSendRreq 9 1000)]

/-- The RREQ arrives twice. -/
def answered : List (AirAction Bool) :=
  let rreq := (Runs.exec (step roomy) pair asked).frames.headD dessertMsgNew
  asked ++ [.callback true .handleRreq (rxAt 1001) rreq, .callback true .handleRreq (rxAt 1002) rreq]

def exchanged : List (AirAction Bool) :=
  answered ++ [.callback false .handleRrep (rxAt 1003)
    ((Runs.exec (step roomy) pair answered).frames.getLastD dessertMsgNew)]

theorem counters_authoritative_exchanged :
    Runs.Throughout (step roomy) Authority pair exchanged ∧
      Runs.Always (step roomy) (fun air a => ∀ i ev, air.event a = some (i, ev) → (air.nodes i).raises ev = false)
        pair exchanged := by
  have hl : ∀ i j : Bool, (if i then (9 : MacAddr) else 5) = (if j then 9 else 5) → i = j := by decide
  exact counters_authoritative (fun _ => {}) (fun i j => hl i j) _ exchanged (by decide)

end

/-! ## Networks are on the air -/

section
variable {L : Libdessert} {N : Type} [DecidableEq N] {air : Air N} {net : Net N} {neighbors : N → List N}

/-- The same daemons, and everything in flight has been sent. -/
structure Covers (air : Air N) (net : Net N) : Prop where
  nodes : air.nodes = net.nodes
  inFlight : ∀ f ∈ net.inFlight, f.msg ∈ air.frames

theorem lflags_frame {n n' : Node} (hl : n'.l25Defsrc = n.l25Defsrc) (hm : n'.meshiflist = n.meshiflist)
    (msg : DessertMsg) : n'.lflags msg = n.lflags msg := by
  simp [Node.lflags, hl, hm]

theorem frames_frame {n n' : Node} (hm : n'.meshiflist = n.meshiflist) (s : Sent) : n'.frames s = n.frames s := by
  cases s with
  | sys m => rfl
  | mesh m iface => cases iface <;> simp [Node.frames, hm]

theorem runCallbacks_meshiflist (n : Node) (env : RxEnv) (msg : DessertMsg) (cbs : List MeshCb) :
    (n.runCallbacks L env msg cbs).1.meshiflist = n.meshiflist := by
  induction cbs generalizing n with
  | nil => rfl
  | cons cb cbs ih =>
    have hm := (Node.step_rt L n (.mesh cb env msg)).2.2.2
    simp only [Node.step, Node.handle] at hm
    unfold Node.runCallbacks
    rcases hc : n.callback L cb env msg with ⟨n', sent, verdict⟩
    rw [hc] at hm
    cases verdict with
    | drop => exact hm
    | keep => exact (ih n').trans hm

theorem runCallbacks_exec (cbs : List MeshCb) {i : N} {env : RxEnv} {msg : DessertMsg} (hm : msg ∈ air.frames)
    (hf : env.lflags = (air.nodes i).lflags msg) : ∃ acts,
      (Runs.exec (step L) air acts).nodes =
        Function.update air.nodes i ((air.nodes i).runCallbacks L env msg cbs).1 ∧
      (Runs.exec (step L) air acts).frames =
        air.frames ++ ((air.nodes i).runCallbacks L env msg cbs).2.flatMap (air.nodes i).frames := by
  induction cbs generalizing air with
  | nil => exact ⟨[], by simp [Runs.exec, Node.runCallbacks], by simp [Runs.exec, Node.runCallbacks]⟩
  | cons cb cbs ih =>
    have hstep : air.step L (.callback i cb env msg) = air.take L i (.mesh cb env msg) := by
      simp [step, event, hm, ← hf]
    obtain ⟨-, -, hl, hmi⟩ := Node.step_rt L (air.nodes i) (.mesh cb env msg)
    have hfr : ((air.nodes i).step L (.mesh cb env msg)).frames = (air.nodes i).frames :=
      funext fun s => frames_frame hmi s
    simp only [Node.step, Node.handle] at hl hmi hfr
    unfold Node.runCallbacks
    rcases hc : (air.nodes i).callback L cb env msg with ⟨n', sent, verdict⟩
    rw [hc] at hl hmi hfr
    have htake : air.take L i (.mesh cb env msg) =
        { nodes := Function.update air.nodes i n'
          frames := air.frames ++ sent.flatMap (air.nodes i).frames
          increments := (air.take L i (.mesh cb env msg)).increments } := by
      simp [Air.take, Node.handle, hc, ← hfr]
    cases verdict with
    | drop =>
      have hone : Runs.exec (step L) air [.callback i cb env msg] = air.take L i (.mesh cb env msg) := hstep
      rw [htake] at hone
      exact ⟨[.callback i cb env msg], by rw [hone], by rw [hone]⟩
    | keep =>
      have hself : (air.take L i (.mesh cb env msg)).nodes i = n' := by
        rw [htake]
        simp
      obtain ⟨acts, hn, hs⟩ := @ih (air.take L i (.mesh cb env msg))
        (by rw [htake]; exact List.mem_append_left _ hm) (by rw [hself, lflags_frame hl hmi, hf])
      refine ⟨.callback i cb env msg :: acts, ?_, ?_⟩
      · rw [Runs.exec, hstep, hn, hself, htake]
        simp
      · rw [Runs.exec, hstep, hs, hself, hfr, htake]
        simp

theorem Covers.update (h : Covers air net) {i : N} {r : Node × List Sent} {air' : Air N}
    (hn : air'.nodes = Function.update net.nodes i r.1)
    (hs : air'.frames = air.frames ++ r.2.flatMap r.1.frames) : Covers air' (net.update neighbors i r) := by
  refine ⟨hn, fun f hf => ?_⟩
  rw [hs]
  rcases List.mem_append.mp hf with hf | hf
  · exact List.mem_append_left _ (h.inFlight f hf)
  · obtain ⟨msg, hm, hf⟩ := List.mem_flatMap.mp hf
    obtain ⟨j, -, rfl⟩ := List.mem_map.mp hf
    exact List.mem_append_right _ hm

/-- What a network can do, daemons on the air can do. -/
theorem Covers.step (h : Covers air net) (a : NetAction N) :
    ∃ acts, Covers (Runs.exec (Air.step L) air acts) (net.step L neighbors a) := by
  cases a with
  | own i ev =>
    by_cases hev : ∃ cb env msg, ev = .mesh cb env msg
    · obtain ⟨cb, env, msg, rfl⟩ := hev
      exact ⟨[], h⟩
    · have hair : air.step L (.own i ev) = air.take L i ev := by
        cases ev <;> first | rfl | exact absurd ⟨_, _, _, rfl⟩ hev
      have hnet : net.step L neighbors (.own i ev) = net.update neighbors i ((net.nodes i).handle L ev) := by
        cases ev <;> first | rfl | exact absurd ⟨_, _, _, rfl⟩ hev
      rw [hnet]
      refine ⟨[.own i ev], h.update ?_ ?_⟩
      · simp [Runs.exec, hair, Air.take, h.nodes]
      · simp [Runs.exec, hair, Air.take, h.nodes]
  | receive k now link gossip rcvdHellos =>
    simp only [Net.step]
    split
    · exact ⟨[], h⟩
    · rename_i f hf
      have hsent := h.inFlight f (List.mem_of_getElem? hf)
      have hrest : Covers air { net with inFlight := net.inFlight.eraseIdx k } :=
        ⟨h.nodes, fun g hg => h.inFlight g (List.mem_of_mem_eraseIdx hg)⟩
      obtain ⟨acts, hn, hs⟩ := @runCallbacks_exec L N _ air meshPipeline f.receiver
        (Net.rxEnv (net.nodes f.receiver) f.msg now link gossip rcvdHellos) f.msg hsent
        (by rw [h.nodes]; rfl)
      have hfr : ((net.nodes f.receiver).receive L (Net.rxEnv (net.nodes f.receiver) f.msg now link gossip rcvdHellos)
          f.msg).1.frames = (net.nodes f.receiver).frames :=
        funext fun s => frames_frame (runCallbacks_meshiflist _ _ _ _) s
      rw [h.nodes] at hn hs
      exact ⟨acts, hrest.update hn (hfr ▸ hs)⟩
  | lose k => exact ⟨[], h.nodes, fun f hf => h.inFlight f (List.mem_of_mem_eraseIdx hf)⟩

theorem Covers.run (h : Covers air net) (acts : List (NetAction N)) :
    ∃ acts', Covers (Runs.exec (Air.step L) air acts') (Runs.exec (Net.step L neighbors) net acts) := by
  induction acts generalizing air net with
  | nil => exact ⟨[], h⟩
  | cons a acts ih =>
    obtain ⟨first, hfirst⟩ := @Covers.step L N _ air net neighbors h a
    obtain ⟨rest, hrest⟩ := ih hfirst
    exact ⟨first ++ rest, by rw [Runs.exec_append]; exact hrest⟩

end

end Air

end DesAodv
