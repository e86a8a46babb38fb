import DesAodv.Network

/-!
# Networks and what has been heard in them

A network with the receptions so far, and the ways that frames have been handed on.
-/

namespace DesAodv

/-- A reception: the address of the interface that sent the frame, the node that has received it, and the
link as the node has seen it. -/
structure Hearing (N : Type) where
  sender : MacAddr
  receiver : N
  link : LinkSample
  deriving DecidableEq

structure Overheard (N : Type) where
  net : Net N
  heard : List (Hearing N)

section
variable (L : Libdessert) {N : Type} [DecidableEq N] (neighbors : N → List N)

def Net.hears (net : Net N) : NetAction N → Option (Hearing N)
  | .receive k _ link _ _ =>
    net.inFlight[k]?.map fun f => { sender := f.msg.l2Shost, receiver := f.receiver, link }
  | _ => none

def Overheard.step (o : Overheard N) (a : NetAction N) : Overheard N :=
  { net := o.net.step L neighbors a, heard := o.heard ++ (o.net.hears a).toList }

end

/-- All daemons are started, and nothing is in flight. -/
def Net.start {N : Type} (cfg : N → Config) (l25 : N → MacAddr) (ifs : N → List Meshif) : Net N :=
  { nodes := fun i => aodvDbInit (cfg i) (l25 i) (ifs i), inFlight := [] }

def Overheard.start {N : Type} (cfg : N → Config) (l25 : N → MacAddr) (ifs : N → List Meshif) : Overheard N :=
  { net := Net.start cfg l25 ifs, heard := [] }

section
variable {N : Type} (neighbors : N → List N) (ifs : N → List Meshif)

/-- A frame received from an interface of node `i`, by one of its neighbors. -/
def Hearing.From (h : Hearing N) (i : N) : Prop := h.sender ∈ (ifs i).map Meshif.hwaddr ∧ h.receiver ∈ neighbors i

/-- From node `d` frames have been handed on to node `i`, each received from the node before. -/
inductive Way (d : N) : List (Hearing N) → N → Prop
  | start : Way d [] d
  | hop {hops : List (Hearing N)} {j : N} (hj : Way d hops j) (h : Hearing N) (hf : h.From neighbors ifs j) :
      Way d (hops ++ [h]) h.receiver

/-- Before a frame was received over the link, one with the receiver's own address has been heard by a neighbor,
and then the receiver has heard the sender, on the way back. -/
def TwoWay (heard : List (Hearing N)) (h : Hearing N) : Prop :=
  ∃ i out back, Way neighbors ifs i [out, back] h.receiver ∧ [out, back, h].Sublist heard ∧
    out.sender ∈ (ifs h.receiver).map Meshif.hwaddr ∧ back.sender = h.sender

theorem TwoWay.mono {heard : List (Hearing N)} {h : Hearing N} (ht : TwoWay neighbors ifs heard h)
    (later : List (Hearing N)) : TwoWay neighbors ifs (heard ++ later) h := by
  obtain ⟨i, out, back, hw, hs, hout, hback⟩ := ht
  exact ⟨i, out, back, hw, hs.trans (List.sublist_append_left _ _), hout, hback⟩

end

theorem Node.mem_frames {n : Node} {s : Sent} {f : DessertMsg} (h : f ∈ n.frames s) : ∃ msg iface a,
    s = .mesh msg iface ∧ f = { msg with l2Shost := a.hwaddr } ∧ (iface = some a ∨ iface = none ∧ a ∈ n.meshiflist) := by
  cases s with
  | sys msg => cases h
  | mesh msg iface =>
    cases iface with
    | some a => exact ⟨msg, some a, a, rfl, List.mem_singleton.mp h, .inl rfl⟩
    | none =>
      obtain ⟨a, ha, rfl⟩ := List.mem_map.mp h
      exact ⟨msg, none, a, rfl, rfl, .inr ⟨rfl, ha⟩⟩

/-! ## The rule for networks -/

section
variable (L : Libdessert) {N : Type} [DecidableEq N] (neighbors : N → List N)
  (P : List (Hearing N) → N → Node → Prop) (F : List (Hearing N) → N → N → DessertMsg → Prop)

/-- Every frame that is sent goes from `i` to its neighbors as `F` says. -/
def Net.Sends (heard : List (Hearing N)) (i : N) (r : Node × List Sent) : Prop :=
  ∀ s ∈ r.2, ∀ msg ∈ r.1.frames s, ∀ receiver ∈ neighbors i, F heard i receiver msg

/-- `P` is kept by every daemon and `F` guaranteed for every frame, if the frames it receives are as `F` says. -/
structure Overheard.Kept : Prop where
  later : ∀ {heard i n} later, P heard i n → P (heard ++ later) i n
  laterFrame : ∀ {heard i j msg} later, F heard i j msg → F (heard ++ later) i j msg
  own : ∀ {heard i n ev}, (∀ cb env msg, ev ≠ .mesh cb env msg) → P heard i n →
    P heard i (n.handle L ev).1 ∧ Net.Sends neighbors F heard i (n.handle L ev)
  receive : ∀ {heard i j n msg} now link gossip rcvdHellos, P heard i n → F heard j i msg →
    P (heard ++ [⟨msg.l2Shost, i, link⟩]) i (n.receive L (Net.rxEnv n msg now link gossip rcvdHellos) msg).1 ∧
      Net.Sends neighbors F (heard ++ [⟨msg.l2Shost, i, link⟩]) i
        (n.receive L (Net.rxEnv n msg now link gossip rcvdHellos) msg)

/-- Every daemon and every frame in flight is as it should be. -/
structure Overheard.Holds (o : Overheard N) : Prop where
  nodes : ∀ i, P o.heard i (o.net.nodes i)
  frames : ∀ f ∈ o.net.inFlight, ∃ j, F o.heard j f.receiver f.msg

variable {L neighbors P F} {o : Overheard N}

theorem Overheard.Holds.update (hk : Overheard.Kept L neighbors P F) (h : o.Holds P F) {i : N} {r : Node × List Sent}
    {later : List (Hearing N)} {inFlight : List (Flight N)} (hfl : ∀ f ∈ inFlight, f ∈ o.net.inFlight)
    (hn : P (o.heard ++ later) i r.1) (hs : Net.Sends neighbors F (o.heard ++ later) i r) :
    ({ net := ({ o.net with inFlight } : Net N).update neighbors i r, heard := o.heard ++ later } :
      Overheard N).Holds P F where
  nodes := fun k => by
    by_cases hki : k = i
    · subst hki
      simpa [Net.update] using hn
    · simpa [Net.update, hki] using hk.later later (h.nodes k)
  frames := fun f hf => by
    rcases List.mem_append.mp hf with hf | hf
    · obtain ⟨j, hj⟩ := h.frames f (hfl f hf)
      exact ⟨j, hk.laterFrame later hj⟩
    · obtain ⟨msg, hm, hf⟩ := List.mem_flatMap.mp hf
      obtain ⟨receiver, hr, rfl⟩ := List.mem_map.mp hf
      obtain ⟨s, hsent, hm⟩ := List.mem_flatMap.mp hm
      exact ⟨i, hs s hsent msg hm receiver hr⟩

theorem Overheard.Holds.step (hk : Overheard.Kept L neighbors P F) (h : o.Holds P F) (a : NetAction N) :
    (o.step L neighbors a).Holds P F := by
  cases a with
  | own i ev =>
    by_cases hev : ∃ cb env msg, ev = .mesh cb env msg
    · obtain ⟨cb, env, msg, rfl⟩ := hev
      simpa [Overheard.step, Net.step, Net.hears] using h
    · have hown : ∀ cb env msg, ev ≠ .mesh cb env msg := fun cb env msg he => hev ⟨cb, env, msg, he⟩
      have hstep : o.net.step L neighbors (.own i ev) = o.net.update neighbors i ((o.net.nodes i).handle L ev) := by
        cases ev with
        | mesh cb env msg => exact absurd rfl (hown cb env msg)
        | _ => rfl
      obtain ⟨hn, hs⟩ := hk.own hown (hk.later [] (h.nodes i))
      simp only [Overheard.step, hstep, Net.hears]
      exact h.update hk (fun f hf => hf) hn hs
  | lose k =>
    simp only [Overheard.step, Net.step, Net.hears, Option.toList_none, List.append_nil]
    exact ⟨h.nodes, fun f hf => h.frames f (List.mem_of_mem_eraseIdx hf)⟩
  | receive k now link gossip rcvdHellos =>
    cases hf : o.net.inFlight[k]? with
    | none => simpa [Overheard.step, Net.step, Net.hears, hf] using h
    | some f =>
      obtain ⟨j, hj⟩ := h.frames f (List.mem_of_getElem? hf)
      obtain ⟨hn, hs⟩ := hk.receive now link gossip rcvdHellos (h.nodes f.receiver) hj
      simp only [Overheard.step, Net.step, Net.hears, hf]
      exact h.update hk (fun f hf => List.mem_of_mem_eraseIdx hf) hn hs

/-- What every daemon keeps if the others do holds in every run. -/
theorem Overheard.Kept.run (hk : Overheard.Kept L neighbors P F) {cfg : N → Config} {l25 : N → MacAddr}
    {ifs : N → List Meshif} (h0 : ∀ i, P [] i (aodvDbInit (cfg i) (l25 i) (ifs i))) (acts : List (NetAction N)) :
    (Runs.exec (Overheard.step L neighbors) (Overheard.start cfg l25 ifs) acts).Holds P F :=
  Runs.exec_inv (I := Overheard.Holds P F) (fun _ a h => h.step hk a) ⟨h0, fun _ hf => (List.not_mem_nil hf).elim⟩
    acts

end

end DesAodv
