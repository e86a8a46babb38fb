import DesAodv.RerrProgress
import DesAodv.RerrTruth
import DesAodv.TwoWayLinks

/-!
# RERRs on their way back

A RERR that hits a route is sent on, and so hits the routes that lead over it.
While RERRs are all that happens to the routes to a host, a daemon on the way
there keeps its route only as long as a RERR that hits it, or a route that it
leads over, is in flight.
-/

namespace DesAodv

/-- A RERR without a RREP. -/
structure DessertMsg.IsRerr (msg : DessertMsg) : Prop where
  kind : msg.kind = .rerr
  plain : msg.Plain

namespace Node

variable {n : Node} {msg : DessertMsg} {host : MacAddr}

/-- The RERR is not dropped by the node, and hits its entry for the host. -/
structure Struck (n : Node) (msg : DessertMsg) (host : MacAddr) : Prop where
  isRerr : msg.IsRerr
  l2Src : (n.lflags msg).l2Src = false
  l25Src : (n.lflags msg).l25Src = false
  hits : n.Hits msg host

theorem hits_of (h : (msg.getRerr.bind fun rerr => (n.rt.find host).map fun e => anyHit rerr msg.records host e) =
    some true) : n.Hits msg host := by
  obtain ⟨rerr, hr, h⟩ := Option.bind_eq_some_iff.mp h
  obtain ⟨e, he, hh⟩ := Option.map_eq_some_iff.mp h
  exact ⟨rerr, e, hr, he, hh⟩

theorem routeTo_marked {n' : Node} (h : n'.rt.find host = (n.rt.find host).map RtEntry.markInvalid) :
    n'.routeTo host = none := by
  rw [routeTo_eq_none]
  intro e' he'
  rw [h] at he'
  obtain ⟨e, -, rfl⟩ := Option.map_eq_some_iff.mp he'
  simp [RtEntry.valid, RtEntry.markInvalid]

/-- A RERR that hits an entry is sent on with the own addresses. -/
theorem handleRerr_sent (hw : n.rt.WF) (env : RxEnv) (h : n.Hits msg host) : ∃ rerr,
    .mesh (msg.setRerr rerr) none ∈ (n.aodvHandleRerr env msg).2.1 ∧ rerrIfaces rerr = n.ownIfaces := by
  obtain ⟨old, e, hr, he, hh⟩ := h
  have hflag := (rerrRecords_marked old msg.records (n.rt, false) hw).flag.mpr (.inr ⟨host, e, he, hh⟩)
  refine ⟨{ old with
    ifaceAddrCount := UInt8.ofNat n.ownIfaces.length
    ifaces := n.ownIfaces ++ old.ifaces.drop n.ownIfaces.length }, ?_, ?_⟩
  · simp only [aodvHandleRerr, hr, hflag, if_true]
    exact List.mem_singleton_self _
  · have hlen : n.ownIfaces.length ≤ 8 := by simp [ownIfaces, maxMeshIfacesCount]
    have hcount : (UInt8.ofNat n.ownIfaces.length).toNat = n.ownIfaces.length :=
      Nat.mod_eq_of_lt (Nat.lt_of_le_of_lt hlen (by decide))
    simp [rerrIfaces, hcount]

section
variable (L : Libdessert) (hw : n.rt.WF) (now : Timeval) (link : LinkSample) (gossip : Bool)
  (rcvdHellos : Option UInt8)

/-- A RERR is dropped at once, or handled by a node with the same routing table. -/
theorem receive_rerr (hm : msg.IsRerr) : ∃ nt st,
    n.receive L (Net.rxEnv n msg now link gossip rcvdHellos) msg =
      if (n.lflags msg).l2Src = false ∧ (n.lflags msg).l25Src = false then
        ((({ n with nt, st } : Node).aodvHandleRerr (Net.rxEnv n msg now link gossip rcvdHellos) msg).1,
          (({ n with nt, st } : Node).aodvHandleRerr (Net.rxEnv n msg now link gossip rcvdHellos) msg).2.1)
      else ({ n with nt, st }, []) := by
  obtain ⟨nt, st, heq⟩ := dropErrors_eq n (Net.rxEnv n msg now link gossip rcvdHellos) msg
  refine ⟨nt, st, ?_⟩
  have hverdict : (n.aodvDropErrors (Net.rxEnv n msg now link gossip rcvdHellos) msg).2 = .drop ↔
      ¬ ((n.lflags msg).l2Src = false ∧ (n.lflags msg).l25Src = false) := by
    cases h2 : (n.lflags msg).l2Src <;> cases h25 : (n.lflags msg).l25Src <;>
      simp [aodvDropErrors, Net.rxEnv, h2, h25, hm.plain.rreq, hm.plain.rrep]
  rw [receive_kind, heq]
  simp only [hverdict, ite_not, handleKind, hm.kind]

include hw

/-- A RERR leaves an entry alone, or hits it and is sent on with the own addresses. -/
theorem receive_rerr_entry (hm : msg.IsRerr) (host : MacAddr) :
    (n.receive L (Net.rxEnv n msg now link gossip rcvdHellos) msg).1.rt.find host = n.rt.find host ∧
        ¬ n.Struck msg host ∨
      (n.receive L (Net.rxEnv n msg now link gossip rcvdHellos) msg).1.routeTo host = none ∧ n.Hits msg host ∧
        ∃ rerr, .mesh (msg.setRerr rerr) none ∈ (n.receive L (Net.rxEnv n msg now link gossip rcvdHellos) msg).2 ∧
          rerrIfaces rerr = n.ownIfaces := by
  obtain ⟨nt, st, heq⟩ := receive_rerr L now link gossip rcvdHellos hm
  have hw' : ({ n with nt, st } : Node).rt.WF := hw
  rw [heq]
  split
  · rename_i hf
    rcases handleRerr_find hw' (Net.rxEnv n msg now link gossip rcvdHellos) msg host with ⟨hfind, hno⟩ | ⟨hfind, hh⟩
    · exact .inl ⟨hfind, fun hs => hno hs.hits⟩
    · exact .inr ⟨routeTo_marked (n := n) hfind, hh, handleRerr_sent hw' _ hh⟩
  · rename_i hf
    exact .inl ⟨rfl, fun hs => hf ⟨hs.l2Src, hs.l25Src⟩⟩

end

end Node

/-! ## The way to a host -/

section
variable {N : Type} (l25 : N → MacAddr) (p : ℕ → N) (k : ℕ) (host : MacAddr) (seq : UInt32)

/-- Node `p (i + 1)` has a valid route to the host over node `p i`. -/
def Net.RoutesOver (net : Net N) (i : ℕ) : Prop :=
  ∃ e, (net.nodes (p (i + 1))).rt.find host = some e ∧ e.valid = true ∧ e.sequenceNumber = seq ∧
    e.nextHop ∈ (net.nodes (p i)).ownIfaces

/-- A RERR of a daemon that is not among `p 1` to `p k`. -/
structure DessertMsg.FromOff (msg : DessertMsg) : Prop where
  isRerr : msg.IsRerr
  origin : ∀ i < k, msg.l25Shost ≠ l25 (p (i + 1))

/-- A RERR that hits the route of `p (i + 1)`, or one that it leads over, is in flight. -/
inductive Net.Alerted (net : Net N) : ℕ → Prop
  | due {i : ℕ} {f : Flight N} (hf : f ∈ net.inFlight) (hr : f.receiver = p (i + 1)) (ho : f.msg.FromOff l25 p k)
      (hs : (net.nodes (p (i + 1))).Struck f.msg host) : Alerted net i
  | behind {i : ℕ} (h : Alerted net i) (hv : (net.nodes (p (i + 1))).routeTo host ≠ none) : Alerted net (i + 1)

/-- Who has a route to the host has it over the node before, and will be told. -/
structure Net.Spreading (net : Net N) : Prop where
  routes : ∀ i < k, (net.nodes (p (i + 1))).routeTo host ≠ none → net.RoutesOver p host seq i
  told : ∀ i < k, (net.nodes (p (i + 1))).routeTo host ≠ none → net.Alerted l25 p k host i

variable (L : Libdessert) (neighbors : N → List N) [DecidableEq N]

/-- The routes to the host change by nothing but RERRs, and no RERR on its way to `p 1` to `p k` is lost. -/
structure Net.OnlyRerrs (net : Net N) (a : NetAction N) : Prop where
  changed : ∀ i < k,
    ((net.step L neighbors a).nodes (p (i + 1))).rt.find host = (net.nodes (p (i + 1))).rt.find host ∨
      ∃ m now link gossip rcvdHellos f, a = .receive m now link gossip rcvdHellos ∧ net.inFlight[m]? = some f ∧
        f.receiver = p (i + 1) ∧ f.msg.FromOff l25 p k
  lost : ∀ m f, a = .lose m → net.inFlight[m]? = some f → (∃ i < k, f.receiver = p (i + 1)) → f.msg.kind ≠ .rerr

end

/-! ## One step -/

theorem Node.Struck.congr {n n' : Node} {msg : DessertMsg} {host : MacAddr} (h : n.Struck msg host)
    (hl : n'.l25Defsrc = n.l25Defsrc) (hi : n'.meshiflist = n.meshiflist) (hf : n'.rt.find host = n.rt.find host) :
    n'.Struck msg host := by
  have hflags : n'.lflags msg = n.lflags msg := by simp only [Node.lflags, hl, hi]
  obtain ⟨rerr, e, hr, he, hh⟩ := h.hits
  exact ⟨h.isRerr, hflags ▸ h.l2Src, hflags ▸ h.l25Src, rerr, e, hr, hf.trans he, hh⟩

theorem Node.routeTo_congr {n n' : Node} {host : MacAddr} (hf : n'.rt.find host = n.rt.find host) :
    n'.routeTo host = n.routeTo host := by
  rw [routeTo_eq, routeTo_eq, hf]

section
variable {N : Type} [DecidableEq N] {L : Libdessert} {neighbors : N → List N}

theorem Net.flight_stays {net : Net N} (a : NetAction N) {f : Flight N} (hf : f ∈ net.inFlight) :
    f ∈ (net.step L neighbors a).inFlight ∨
      (∃ m now link gossip rcvdHellos, a = .receive m now link gossip rcvdHellos ∧ net.inFlight[m]? = some f) ∨
      ∃ m, a = .lose m ∧ net.inFlight[m]? = some f := by
  have hother : ∀ m, f ∈ net.inFlight.eraseIdx m ∨ net.inFlight[m]? = some f := by
    intro m
    obtain ⟨j, hj⟩ := List.mem_iff_getElem?.mp hf
    by_cases hjm : j = m
    · exact .inr (hjm ▸ hj)
    · exact .inl (List.mem_eraseIdx_iff_getElem?.mpr ⟨j, hjm, hj⟩)
  cases a with
  | own i ev =>
    left
    cases ev with
    | mesh cb env msg => exact hf
    | _ => exact List.mem_append_left _ hf
  | lose m => exact (hother m).imp_right fun h => .inr ⟨m, rfl, h⟩
  | receive m now link gossip rcvdHellos =>
    rcases hother m with h | h
    · left
      simp only [Net.step]
      split
      · exact hf
      · exact List.mem_append_left _ h
    · exact .inr (.inl ⟨m, now, link, gossip, rcvdHellos, rfl, h⟩)

section
variable {cfg : N → Config} {l25 : N → MacAddr} {ifs : N → List Meshif} {p : ℕ → N} {k : ℕ} {host : MacAddr}
  {seq : UInt32} {net : Net N} (hst : ∀ i, (net.nodes i).Stands (l25 i) (cfg i) (ifs i)) {a : NetAction N}

theorem Net.received {m : ℕ} {now : Timeval} {link : LinkSample} {gossip : Bool} {rcvdHellos : Option UInt8}
    {f : Flight N} (hf : net.inFlight[m]? = some f) :
    let n := net.nodes f.receiver
    let r := n.receive L (Net.rxEnv n f.msg now link gossip rcvdHellos) f.msg
    (net.step L neighbors (.receive m now link gossip rcvdHellos)).nodes f.receiver = r.1 ∧
      ∀ s ∈ r.2, ∀ msg ∈ r.1.frames s, ∀ j ∈ neighbors f.receiver,
        ⟨j, msg⟩ ∈ (net.step L neighbors (.receive m now link gossip rcvdHellos)).inFlight := by
  intro n r
  simp only [Net.step, hf, Net.update, Function.update_self]
  refine ⟨rfl, fun s hs msg hm j hj => List.mem_append_right _ ?_⟩
  exact List.mem_flatMap.mpr ⟨msg, List.mem_flatMap.mpr ⟨s, hs, hm⟩, List.mem_map.mpr ⟨j, hj, rfl⟩⟩

include hst

theorem Net.stands_step (i : N) : ((net.step L neighbors a).nodes i).Stands (l25 i) (cfg i) (ifs i) := by
  obtain ⟨evs, he⟩ := Net.step_node L neighbors net a i
  rw [he]
  exact Runs.exec_inv (I := Node.Stands (l25 i) (cfg i) (ifs i)) (fun _ ev hn => hn.step L ev) (hst i) evs

variable (ha : net.OnlyRerrs l25 p k host L neighbors a)
include ha

/-- A route that is left on the way is as before. -/
theorem Net.OnlyRerrs.same {i : ℕ} (hi : i < k)
    (hv : ((net.step L neighbors a).nodes (p (i + 1))).routeTo host ≠ none) :
    ((net.step L neighbors a).nodes (p (i + 1))).rt.find host = (net.nodes (p (i + 1))).rt.find host := by
  rcases ha.changed i hi with hsame | ⟨m, now, link, gossip, rcvdHellos, f, rfl, hf, hr, hoff⟩
  · exact hsame
  · obtain ⟨hnode, -⟩ := @Net.received N _ L neighbors net m now link gossip rcvdHellos f hf
    rw [← hr] at hv ⊢
    rw [hnode] at hv ⊢
    rcases Node.receive_rerr_entry L (hst f.receiver).sound.rt.wf now link gossip rcvdHellos hoff.isRerr host with
      ⟨hsame, -⟩ | ⟨hnone, -⟩
    · exact hsame
    · exact absurd hnone hv

/-- Where a route is lost on the way, the RERR has been sent on. -/
theorem Net.OnlyRerrs.sent_on {i : ℕ} (hi : i < k) (hv : (net.nodes (p (i + 1))).routeTo host ≠ none)
    (hno : ((net.step L neighbors a).nodes (p (i + 1))).routeTo host = none) :
    ∃ msg rerr, msg.FromOff l25 p k ∧ (net.nodes (p (i + 1))).Hits msg host ∧
      Node.rerrIfaces rerr = (net.nodes (p (i + 1))).ownIfaces ∧ ∀ b ∈ ifs (p (i + 1)), ∀ j ∈ neighbors (p (i + 1)),
        ⟨j, { msg.setRerr rerr with l2Shost := b.hwaddr }⟩ ∈ (net.step L neighbors a).inFlight := by
  rcases ha.changed i hi with hsame | ⟨m, now, link, gossip, rcvdHellos, f, rfl, hf, hr, hoff⟩
  · exact absurd ((Node.routeTo_congr hsame).symm.trans hno) hv
  · obtain ⟨hnode, hflight⟩ := @Net.received N _ L neighbors net m now link gossip rcvdHellos f hf
    rw [← hr] at hv hno ⊢
    rw [hnode] at hno
    rcases Node.receive_rerr_entry L (hst f.receiver).sound.rt.wf now link gossip rcvdHellos hoff.isRerr host with
      ⟨hsame, -⟩ | ⟨-, hh, rerr, hs, hifs⟩
    · exact absurd ((Node.routeTo_congr hsame).symm.trans hno) hv
    · refine ⟨f.msg, rerr, hoff, hh, hifs, fun b hb j hj => hflight _ hs _ ?_ j hj⟩
      have hstands := (hst f.receiver).receive L
        (Net.rxEnv (net.nodes f.receiver) f.msg now link gossip rcvdHellos) f.msg
      exact List.mem_map.mpr ⟨b, hstands.ifaces.symm ▸ hb, rfl⟩

variable (hlink : ∀ i < k, p (i + 1) ∈ neighbors (p i))
  (hown : ∀ i < k, ∀ b ∈ ifs (p i), ∀ c ∈ ifs (p (i + 1)), b.hwaddr ≠ c.hwaddr)
  (h : net.Spreading l25 p k host seq)
include hlink hown h

/-- The RERR that is sent on hits the next route on the way. -/
theorem Net.Spreading.passes {i : ℕ} (hi : i + 1 < k) (hv : (net.nodes (p (i + 1))).routeTo host ≠ none)
    (hv' : ((net.step L neighbors a).nodes (p (i + 2))).routeTo host ≠ none)
    (hno : ((net.step L neighbors a).nodes (p (i + 1))).routeTo host = none) :
    (net.step L neighbors a).Alerted l25 p k host (i + 1) := by
  obtain ⟨msg, rerr, hoff, ⟨old, e₁, hr, he₁, hh⟩, hifs, hflight⟩ := ha.sent_on hst (Nat.lt_of_succ_lt hi) hv hno
  have hsame := ha.same hst hi hv'
  obtain ⟨e, he, hval, hnum, hn⟩ := h.routes (i + 1) hi ((Node.routeTo_congr hsame) ▸ hv')
  obtain ⟨e₁', he₁', -, hnum₁, -⟩ := h.routes i (Nat.lt_of_succ_lt hi) hv
  obtain rfl := Option.some.inj (he₁.symm.trans he₁')
  have hstands := @Net.stands_step N _ L neighbors cfg l25 ifs net hst a (p (i + 2))
  rw [← hifs] at hn
  obtain ⟨b, hb⟩ : ∃ b, b ∈ ifs (p (i + 1)) := by
    rw [hifs, Node.ownIfaces, (hst _).ifaces] at hn
    obtain ⟨b, hb, -⟩ := List.mem_map.mp hn
    exact ⟨b, List.mem_of_mem_take hb⟩
  have hrerr : (msg.setRerr rerr).getRerr = some rerr := setRerr_getRerr rerr (by rw [hr]; rfl)
  have hpure : ({ msg.setRerr rerr with l2Shost := b.hwaddr } : DessertMsg).IsRerr :=
    ⟨(DessertMsg.kind_congr rfl).trans (DessertMsg.kind_setRerr hoff.isRerr.kind),
      (hoff.isRerr.plain.setRerr rerr).congr rfl⟩
  refine .due (hflight b hb _ (hlink (i + 1) hi)) rfl ⟨hpure, hoff.origin⟩ ⟨hpure, ?_, ?_, rerr, e, hrerr,
    hsame.trans he, ?_⟩
  · simp only [Node.lflags, hstands.ifaces, List.any_eq_false, decide_eq_true_eq]
    exact fun c hc => (hown (i + 1) hi b hb c hc).symm
  · simp only [Node.lflags, decide_eq_false_iff_not]
    exact fun heq => hoff.origin (i + 1) hi (heq.symm.trans hstands.keeps.launches.address)
  · obtain ⟨dest, hd, hhit⟩ := List.any_eq_true.mp hh
    simp only [Bool.and_eq_true, decide_eq_true_eq, Node.hit] at hhit
    obtain ⟨hhost, -, hreach⟩ := hhit
    refine List.any_eq_true.mpr ⟨dest, ?_, ?_⟩
    · exact (setRerr_records rerr msg).symm ▸ hd
    · rw [reaches, hnum₁, ← hnum] at hreach
      have hk : e.flags.nextHopUnknown = false := Rt.valid_earned.known hval
      simp [Node.hit, hhost, hk, hn, reaches, of_decide_eq_true hreach]

theorem Net.Spreading.told_step {i : ℕ} (ht : net.Alerted l25 p k host i) (hi : i < k)
    (hv' : ((net.step L neighbors a).nodes (p (i + 1))).routeTo host ≠ none) :
    (net.step L neighbors a).Alerted l25 p k host i := by
  induction ht with
  | @due i f hf hr ho hs =>
    rcases @Net.flight_stays N _ L neighbors net a f hf with
      hf' | ⟨m, now, link, gossip, rcvdHellos, rfl, hm⟩ | ⟨m, rfl, hm⟩
    · have hstands := @Net.stands_step N _ L neighbors cfg l25 ifs net hst a (p (i + 1))
      exact .due hf' hr ho (hs.congr (hstands.keeps.launches.address.trans (hst _).keeps.launches.address.symm)
        (hstands.ifaces.trans (hst _).ifaces.symm) (ha.same hst hi hv'))
    · obtain ⟨hnode, -⟩ := @Net.received N _ L neighbors net m now link gossip rcvdHellos f hm
      rw [← hr] at hs hv'
      rw [hnode] at hv'
      rcases Node.receive_rerr_entry L (hst f.receiver).sound.rt.wf now link gossip rcvdHellos ho.isRerr host with
        ⟨-, hno⟩ | ⟨hno, -⟩
      · exact absurd hs hno
      · exact absurd hno hv'
    · exact absurd ho.isRerr.kind (ha.lost m f rfl hm ⟨i, hi, hr⟩)
  | @behind i ht hv ih =>
    by_cases hno : ((net.step L neighbors a).nodes (p (i + 1))).routeTo host = none
    · exact h.passes hst ha hlink hown hi hv hv' hno
    · exact .behind (ih (Nat.lt_of_succ_lt hi) hno) hno

theorem Net.Spreading.step : (net.step L neighbors a).Spreading l25 p k host seq where
  routes := fun i hi hv => by
    have hsame := ha.same hst hi hv
    obtain ⟨e, he, hval, hnum, hn⟩ := h.routes i hi (Node.routeTo_congr hsame ▸ hv)
    have hstands := @Net.stands_step N _ L neighbors cfg l25 ifs net hst a (p i)
    refine ⟨e, hsame.trans he, hval, hnum, ?_⟩
    rw [Node.ownIfaces, hstands.ifaces, ← (hst (p i)).ifaces]
    exact hn
  told := fun i hi hv =>
    h.told_step hst ha hlink hown (h.told i hi (Node.routeTo_congr (ha.same hst hi hv) ▸ hv)) hi hv

end

/-! ## Runs -/

omit [DecidableEq N] in
theorem Net.Alerted.struck {l25 : N → MacAddr} {p : ℕ → N} {k : ℕ} {host : MacAddr} {net : Net N} {i : ℕ}
    (h : net.Alerted l25 p k host i) (hv : (net.nodes (p (i + 1))).routeTo host ≠ none) :
    ∃ j ≤ i, (∃ f ∈ net.inFlight, f.receiver = p (j + 1) ∧ (net.nodes (p (j + 1))).Struck f.msg host) ∧
      ∀ m, j ≤ m → m ≤ i → (net.nodes (p (m + 1))).routeTo host ≠ none := by
  induction h with
  | @due i f hf hr ho hs =>
    refine ⟨i, Nat.le_refl i, ⟨f, hf, hr, hs⟩, fun m hm hm' => ?_⟩
    rwa [Nat.le_antisymm hm' hm]
  | @behind i h hv' ih =>
    obtain ⟨j, hj, hf, hm⟩ := ih hv'
    refine ⟨j, Nat.le_succ_of_le hj, hf, fun m hjm hmi => ?_⟩
    rcases Nat.le_succ_iff.mp hmi with hmi | rfl
    · exact hm m hjm hmi
    · exact hv

variable (L neighbors)

end

/-- From the middle of the line back to its first node. -/
def backwards (i : Nat) : Fin 3 := ⟨1 - i, by omega⟩

/-- The node in the middle loses its neighbors, and sends a RERR for each. -/
def abandoned : List (NetAction (Fin 3)) :=
  discovery ++ [.own (backwards 0) (.cleanupDatabase 5002000), .own (backwards 0) (.scexecute 5002000 0),
    .own (backwards 0) (.scexecute 5002000 0)]

end DesAodv
