import DesAodv.PathMetric
import DesAodv.TwoWayLinks

/-!
# The ways behind the routes

What a RREQ or RREP says of its source has been measured on a way from there: the
hop count counts the receptions on it, and the metric has been computed from the
links of these receptions. Routes are learnt from nothing else, and only over
links that carry frames both ways.
-/

namespace DesAodv

open NeighborTable

def DessertMsg.Routing (msg : DessertMsg) : Prop := msg.kind = .rreq ∨ msg.kind = .rrep

namespace Node

/-! ## One daemon -/

section
variable {n : Node} {env : RxEnv} {msg m : DessertMsg} {iface : Option Meshif}

theorem not_routing {kind : FrameKind} (hk : m.kind = kind) (hq : kind ≠ .rreq) (hp : kind ≠ .rrep) : ¬ m.Routing := by
  intro h
  unfold DessertMsg.Routing at h
  rw [hk] at h
  exact h.elim hq hp

theorem OwnAccord.starts {l25 : MacAddr} {start : Metric} (h : (Sent.mesh m iface).OwnAccord l25 start)
    (hr : m.Routing) : m.Starts l25 start ∧ iface = none := by
  cases h with
  | packet he => exact absurd hr (not_routing (kind_packet he) FrameKind.noConfusion FrameKind.noConfusion)
  | rerr hk => exact absurd hr (not_routing hk FrameKind.noConfusion FrameKind.noConfusion)
  | hello hk _ => exact absurd hr (not_routing hk FrameKind.noConfusion FrameKind.noConfusion)
  | rreq hs => exact ⟨hs, rfl⟩

/-- What is said on behalf of a RREQ or RREP may be said, if what is known may be. -/
theorem OnBehalf.said {way : MacAddr → UInt8 → Metric → Prop} {ifs : List Meshif}
    (h : (Sent.mesh m iface).OnBehalf n env msg) (hr : m.Routing) (hown : way n.l25Defsrc 0 n.cfg.metricStartvalue)
    (hi : env.iface ∈ ifs)
    (hmsg : msg.Routing → way msg.l25Shost (n.captRoute env msg).hopCount (n.captRoute env msg).metric)
    (hknown : msg.Routing → ∀ host r, host = msg.l25Shost ∧ r = n.captRoute env msg ∨ n.rt.Knows host r →
      way host r.hopCount r.metric ∧ ∀ i ∈ r.outputIface, i ∈ ifs) (hw : n.rt.WF) :
    way m.l25Shost m.u8 m.u16 ∧ ∀ i ∈ iface, i ∈ ifs := by
  have hover : ∀ i ∈ some env.iface, i ∈ ifs := fun i he => Option.some.inj he ▸ hi
  cases h with
  | packet he => exact absurd hr (not_routing (kind_packet he) FrameKind.noConfusion FrameKind.noConfusion)
  | rerr hk => exact absurd hr (not_routing hk FrameKind.noConfusion FrameKind.noConfusion)
  | hello _ hk _ _ _ => exact absurd hr (not_routing hk FrameKind.noConfusion FrameKind.noConfusion)
  | data hk he =>
    exact absurd hr (not_routing ((DessertMsg.kind_congr he).trans hk) FrameKind.noConfusion FrameKind.noConfusion)
  | rebroadcast hk => exact ⟨hmsg (.inl hk), by simp⟩
  | answer hk seq => exact ⟨hown, hover⟩
  | repair hk hreq hrt seq =>
    exact ⟨(hknown (.inl hk) _ _ (hw.said_rreq Rt.known_earned hrt)).1, hover⟩
  | rrep hk hrep hrt l2Dhost =>
    exact ⟨hmsg (.inr hk), (hknown (.inr hk) _ _ (hw.said_rrep Rt.known_earned hrt)).2⟩

theorem asks_of_keep (hk : (n.aodvDropErrors env msg).2 = .keep) (hr : msg.Routing) : AsksForNeighbor env msg := by
  have hsome : (msg.getRreq.isSome || msg.getRrep.isSome) = true := by
    rcases hr with hr | hr
    · obtain ⟨-, rreq, hg⟩ := DessertMsg.kind_rreq hr
      simp [hg]
    · obtain ⟨-, -, -, rrep, hg⟩ := DessertMsg.kind_rrep hr
      simp [hg]
  unfold aodvDropErrors at hk
  by_cases h₁ : env.lflags.l2Src = true
  · simp [h₁] at hk
  · by_cases h₂ : env.lflags.l25Src = true
    · simp [h₁, h₂] at hk
    · exact ⟨Bool.not_eq_true _ ▸ h₁, Bool.not_eq_true _ ▸ h₂, hsome⟩

/-- A RREQ or RREP that is not dropped is from a neighbor. -/
theorem present_of_keep (hn : n.nt.Ok) (hk : (n.aodvDropErrors env msg).2 = .keep) (hr : msg.Routing) :
    n.nt.Present (msg.l2Shost, env.iface) := by
  have hcheck := (dropErrors_verdict n env msg (asks_of_keep hk hr)).mp hk
  exact present_cleanup hn hcheck

end

end Node

/-! ## Ways -/

section
variable {N : Type} (neighbors : N → List N) (cfg : N → Config) (l25 : N → MacAddr) (ifs : N → List Meshif)

/-- The metric that is computed on the way, from the start value of the first node. -/
def wayMetric (d : N) (hops : List (Hearing N)) : Metric :=
  hops.foldl (fun metric h => aodvMetricDo (cfg h.receiver).metricType h.link metric) (cfg d).metricStartvalue

/-- By these receptions, in this order, `i` has been told of the host with this hop count and metric. -/
structure Came (heard : List (Hearing N)) (i : N) (host : MacAddr) (hopCount : UInt8) (metric : Metric) (d : N)
    (hops : List (Hearing N)) : Prop where
  host : l25 d = host
  way : Way neighbors ifs d hops i
  inOrder : hops.Sublist heard
  twoWay : ∀ h ∈ hops, TwoWay neighbors ifs heard h
  hopCount : hopCount = UInt8.ofNat hops.length
  metric : metric = wayMetric cfg d hops

/-- A route to the host that `i` has been told of by its next hop. -/
def CameVia (heard : List (Hearing N)) (i : N) (host : MacAddr) (r : Route) : Prop :=
  (∃ d hops last, Came neighbors cfg l25 ifs heard i host r.hopCount r.metric d (hops ++ [last]) ∧
    last.sender = r.nextHop) ∧ ∀ iface ∈ r.outputIface, iface ∈ ifs i

variable {neighbors cfg l25 ifs} {heard : List (Hearing N)} {i j : N} {host : MacAddr} {hopCount : UInt8}
  {metric : Metric} {d : N} {hops : List (Hearing N)}

theorem Came.mono (h : Came neighbors cfg l25 ifs heard i host hopCount metric d hops) (later : List (Hearing N)) :
    Came neighbors cfg l25 ifs (heard ++ later) i host hopCount metric d hops :=
  { h with
    inOrder := h.inOrder.trans (List.sublist_append_left _ _)
    twoWay := fun r hr => (h.twoWay r hr).mono neighbors ifs later }

theorem Came.own (heard : List (Hearing N)) (i : N) :
    Came neighbors cfg l25 ifs heard i (l25 i) 0 (cfg i).metricStartvalue i [] :=
  ⟨rfl, .start, List.nil_sublist heard, by simp, rfl, rfl⟩

theorem Came.hop (h : Came neighbors cfg l25 ifs heard j host hopCount metric d hops) (r : Hearing N)
    (hr : r.From neighbors ifs j) (ht : TwoWay neighbors ifs (heard ++ [r]) r) :
    Came neighbors cfg l25 ifs (heard ++ [r]) r.receiver host (hopCount + 1)
      (aodvMetricDo (cfg r.receiver).metricType r.link metric) d (hops ++ [r]) where
  host := h.host
  way := .hop h.way r hr
  inOrder := h.inOrder.append (List.Sublist.refl _)
  twoWay := fun r' hr' => by
    rcases List.mem_append.mp hr' with hr' | hr'
    · exact (h.twoWay r' hr').mono neighbors ifs [r]
    · rw [List.mem_singleton.mp hr']
      exact ht
  hopCount := by
    rw [h.hopCount, List.length_append]
    exact (UInt8.ofNat_add hops.length 1).symm
  metric := by
    rw [h.metric]
    simp [wayMetric]

/-- Where all daemons use one metric type, it is the metric of a path. -/
theorem wayMetric_path {metricType : AodvMetric} (h : ∀ i, (cfg i).metricType = metricType) (d : N)
    (hops : List (Hearing N)) :
    wayMetric cfg d hops = pathMetric metricType (cfg d).metricStartvalue (hops.map Hearing.link) := by
  have hfold : ∀ start : Metric, hops.foldl (fun metric r => aodvMetricDo (cfg r.receiver).metricType r.link metric)
      start = pathMetric metricType start (hops.map Hearing.link) := by
    induction hops with
    | nil => exact fun _ => rfl
    | cons r hops ih =>
      intro start
      rw [List.foldl_cons, ih, h r.receiver]
      rfl
  exact hfold _

theorem CameVia.mono {r : Route} (h : CameVia neighbors cfg l25 ifs heard i host r) (later : List (Hearing N)) :
    CameVia neighbors cfg l25 ifs (heard ++ later) i host r := by
  obtain ⟨⟨d, hops, last, hc, hl⟩, hi⟩ := h
  exact ⟨⟨d, hops, last, hc.mono later, hl⟩, hi⟩

theorem CameVia.came {r : Route} (h : CameVia neighbors cfg l25 ifs heard i host r) :
    (∃ d hops, Came neighbors cfg l25 ifs heard i host r.hopCount r.metric d hops) ∧
      ∀ iface ∈ r.outputIface, iface ∈ ifs i := by
  obtain ⟨⟨d, hops, last, hc, -⟩, hi⟩ := h
  exact ⟨⟨d, _, hc⟩, hi⟩

/-! ## Networks -/

variable (neighbors cfg l25 ifs)

/-- A daemon that knows its neighbors and has been told of its routes. -/
structure Told (heard : List (Hearing N)) (i : N) (n : Node) : Prop where
  met : Met neighbors cfg l25 ifs heard i n
  routes : ∀ host r, n.rt.Knows host r → CameVia neighbors cfg l25 ifs heard i host r

structure Telling (heard : List (Hearing N)) (j i : N) (msg : DessertMsg) : Prop where
  greeting : Greeting neighbors ifs heard j i msg
  routing : msg.Routing → (msg.l2Shost ∈ (ifs j).map Meshif.hwaddr ∧ i ∈ neighbors j) ∧
    ∃ d hops, Came neighbors cfg l25 ifs heard j msg.l25Shost msg.u8 msg.u16 d hops

variable {neighbors cfg l25 ifs} {n : Node} {msg : DessertMsg}

/-- A RREQ or RREP that is not dropped tells of a route to its source. -/
theorem Told.captures (h : Told neighbors cfg l25 ifs heard i n) (hm : Telling neighbors cfg l25 ifs heard j i msg)
    (now : Timeval) (link : LinkSample) (gossip : Bool) (rcvdHellos : Option UInt8)
    (hk : (n.aodvDropErrors (Net.rxEnv n msg now link gossip rcvdHellos) msg).2 = .keep) (hr : msg.Routing) :
    CameVia neighbors cfg l25 ifs (heard ++ [⟨msg.l2Shost, i, link⟩]) i msg.l25Shost
      (n.captRoute (Net.rxEnv n msg now link gossip rcvdHellos) msg) := by
  obtain ⟨hfrom, d, hops, hc⟩ := hm.routing hr
  obtain ⟨hi, k, out, back, hw, hs, hout, hback⟩ :=
    h.met.neighbors _ (Node.present_of_keep h.met.stands.sound.nt hk hr)
  have hboth : TwoWay neighbors ifs (heard ++ [⟨msg.l2Shost, i, link⟩]) ⟨msg.l2Shost, i, link⟩ :=
    ⟨k, out, back, hw, hs.append (List.Sublist.refl _), hout ▸ List.mem_map_of_mem hi, hback⟩
  have hhop := hc.hop ⟨msg.l2Shost, i, link⟩ hfrom hboth
  rw [← h.met.stands.keeps.launches.settings] at hhop
  exact ⟨⟨d, hops, _, hhop, rfl⟩, fun iface he => Option.some.inj he ▸ hi⟩

theorem told_kept (L : Libdessert) (hifs : ∀ i, ifs i ≠ []) :
    Overheard.Kept L neighbors (Told neighbors cfg l25 ifs) (Telling neighbors cfg l25 ifs) where
  later := fun later h => ⟨h.met.later later, fun host r hk => (h.routes host r hk).mono later⟩
  laterFrame := fun later h => ⟨h.greeting.later later, fun hr => by
    obtain ⟨hfrom, d, hops, hc⟩ := h.routing hr
    exact ⟨hfrom, d, hops, hc.mono later⟩⟩
  own := by
    intro heard i n ev hev h
    obtain ⟨hmet, hgreet⟩ := (met_kept L hifs).own hev h.met
    refine ⟨⟨hmet, fun host r hk => ?_⟩, fun s hs f hf receiver hrec => ⟨hgreet s hs f hf receiver hrec, fun hr => ?_⟩⟩
    · rcases @Node.said_step L _ Rt.known_earned _ h.met.stands.sound.rt.wf ev _ _ hk with ⟨cb, env, msg, he, -⟩ | hk
      · exact absurd he (hev cb env msg)
      · exact h.routes host r hk
    · obtain ⟨m, iface, a, rfl, rfl, ha⟩ := Node.mem_frames hf
      have hm : m.Routing := hr
      obtain ⟨hstart, rfl⟩ := Node.OwnAccord.starts
        ((Node.handle_launches h.met.stands.keeps.launches L hev).sent _ hs) hm
      rcases ha with ha | ⟨-, ha⟩
      · cases ha
      · rw [hmet.stands.ifaces] at ha
        refine ⟨⟨List.mem_map_of_mem ha, hrec⟩, i, [], ?_⟩
        simp only [hstart.own.1, hstart.hopCount, hstart.metric]
        exact Came.own heard i
  receive := by
    intro heard i j n msg now link gossip rcvdHellos h hmsg
    obtain ⟨hmet, hgreet⟩ := (met_kept L hifs).receive now link gossip rcvdHellos h.met hmsg.greeting
    have hcapt := h.captures hmsg now link gossip rcvdHellos
    have hiface : (Net.rxEnv n msg now link gossip rcvdHellos).iface ∈ ifs i := by
      simp only [Net.rxEnv, h.met.stands.ifaces]
      exact Node.headD_mem (hifs i) _
    refine ⟨⟨hmet, fun host r hk => ?_⟩, fun s hs f hf receiver hrec => ⟨hgreet s hs f hf receiver hrec, fun hr => ?_⟩⟩
    · rcases Node.receive_said L Rt.known_earned h.met.stands.sound.rt.wf hk with ⟨hkeep, hrouting, rfl, rfl⟩ | hk
      · exact hcapt hkeep hrouting
      · exact (h.routes host r hk).mono _
    · obtain ⟨m, iface, a, rfl, rfl, ha⟩ := Node.mem_frames hf
      have hm : m.Routing := hr
      obtain ⟨hkeep, hbehalf⟩ := Node.receive_onBehalf L h.met.stands.keeps.stored hs
      obtain ⟨⟨d, hops, hc⟩, hover⟩ := @Node.OnBehalf.said n _ msg m iface
        (fun host hopCount metric => ∃ d hops, Came neighbors cfg l25 ifs (heard ++ [⟨msg.l2Shost, i, link⟩]) i host
          hopCount metric d hops) (ifs i) hbehalf hm
        (by
          rw [h.met.stands.keeps.launches.address, h.met.stands.keeps.launches.settings]
          exact ⟨i, [], Came.own _ i⟩) hiface (fun hrouting => (hcapt hkeep hrouting).came.1)
        (fun hrouting host r hk => by
          rcases hk with ⟨rfl, rfl⟩ | hk
          · exact (hcapt hkeep hrouting).came
          · exact ((h.routes host r hk).mono _).came) h.met.stands.sound.rt.wf
      have hover' : a ∈ ifs i := by
        rcases ha with rfl | ⟨-, ha⟩
        · exact hover a rfl
        · exact hmet.stands.ifaces ▸ ha
      exact ⟨⟨List.mem_map_of_mem hover', hrec⟩, d, hops, hc⟩

variable (neighbors cfg l25 ifs)

/-- The next hop, the hop count and the metric of the entry have been measured by these receptions, on a way
from the host whose last reception was from the next hop, over links that carry frames both ways. -/
structure Measures (heard : List (Hearing N)) (i : N) (e : RtEntry) (d : N) (hops : List (Hearing N))
    (last : Hearing N) : Prop where
  host : l25 d = e.addr
  way : Way neighbors ifs d (hops ++ [last]) i
  inOrder : (hops ++ [last]).Sublist heard
  twoWay : ∀ h ∈ hops ++ [last], TwoWay neighbors ifs heard h
  nextHop : last.sender = e.nextHop
  hopCount : e.hopCount = UInt8.ofNat (hops.length + 1)
  metric : e.metric = wayMetric cfg d (hops ++ [last])
  path : ∀ metricType, (∀ j, (cfg j).metricType = metricType) →
    e.metric = pathMetric metricType (cfg d).metricStartvalue ((hops ++ [last]).map Hearing.link)

variable {neighbors cfg l25 ifs}

end

end DesAodv
