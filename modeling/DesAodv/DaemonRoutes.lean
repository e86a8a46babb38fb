import DesAodv.DaemonSettings
import DesAodv.RouteSources

/-!
# Where the routes of a daemon come from

A route that is in use has been written by a RREQ or RREP of its destination,
and neither the metric nor the gossip type has been set since: these commands
reset all routes, so metrics of different kinds never meet in a routing table.
-/

namespace DesAodv

/-! ## Events of a daemon -/

/-- The commands after which all routes are reset. -/
def DaemonEvent.resetsRoutes : DaemonEvent → Bool
  | .cli .setGossip [_] _ | .cli .setMetric [_] _ => true
  | _ => false

namespace Daemon

/-- The message says `r` about `host`: its last hop leads there, and its metric has been updated with what is
known about the link to that hop. -/
structure Learns (d : Daemon) (cb : MeshCb) (rx : MeshRx) (msg : DessertMsg) (host : MacAddr) (r : Route) : Prop where
  captures : cb.captures rx.lflags msg = true
  host : msg.l25Shost = host
  nextHop : r.nextHop = msg.l2Shost
  outputIface : r.outputIface = some rx.iface
  metric : ∃ nt nt' link, d.tracker = .ok nt ∧ d.linkSample msg.l2Shost rx nt = .ok (nt', link) ∧
    r.metric = aodvMetricDo d.node.cfg.metricType link msg.u16
  hopCount : r.hopCount = msg.u8 + 1

theorem Answered.link {d : Daemon} {cb : MeshCb} {rx : MeshRx} {msg : DessertMsg} {nt : PdrNeighborTable}
    {env : RxEnv} (h : d.Answered cb rx msg nt env) (hc : cb.captures rx.lflags msg = true) :
    ∃ nt₀, d.tracker = .ok nt₀ ∧ d.linkSample msg.l2Shost rx nt₀ = .ok (nt, env.link) := by
  obtain ⟨nt₀, ht, ha⟩ := h
  refine ⟨nt₀, ht, ?_⟩
  have hmetric : (d.linkSample msg.l2Shost rx nt₀).map (fun r => (r.1, rx.env r.2 none)) = .ok (nt, env) := by
    cases cb with
    | handleRreq =>
      simp only [MeshCb.captures] at hc
      simpa [answers, Option.isSome_iff_ne_none.mp hc] using ha
    | handleRrep =>
      simp only [MeshCb.captures, Bool.and_eq_true] at hc
      simpa [answers, Option.isSome_iff_ne_none.mp hc.1, hc.2] using ha
    | _ => cases hc
  cases hl : d.linkSample msg.l2Shost rx nt₀ with
  | error f =>
    rw [hl] at hmetric
    cases hmetric
  | ok r =>
    rw [hl] at hmetric
    obtain ⟨rfl, rfl⟩ := Prod.mk.inj (Except.ok.inj hmetric)
    rfl

/-- What routes and their metrics depend on: both are set only by commands that reset all routes. -/
structure SameKinds (d d' : Daemon) : Prop where
  metricType : d'.node.cfg.metricType = d.node.cfg.metricType
  gossipType : d'.node.cfg.gossipType = d.node.cfg.gossipType

section
variable {H : CliHost} {L : Libdessert} {d : Daemon}

theorem SameKinds.trans {a b c : Daemon} (h : a.SameKinds b) (h' : b.SameKinds c) : a.SameKinds c :=
  ⟨h'.metricType.trans h.metricType, h'.gossipType.trans h.gossipType⟩

theorem SameSettings.sameKinds {d' : Daemon} (h : d.SameSettings d') : d.SameKinds d' :=
  ⟨congrArg Config.metricType h.cfg, congrArg Config.gossipType h.cfg⟩

/-- A command that does not reset the routes leaves the routing table alone. -/
theorem cli_rt {command : CliCommand} {argv : List String} {now : Timeval}
    (hr : (DaemonEvent.cli command argv now).resetsRoutes = false) :
    (d.cli H command argv now).1.node.rt = d.node.rt ∧ d.SameKinds (d.cli H command argv now).1 := by
  cases command with
  | setGossip =>
    match argv, hr with
    | [], _ => exact ⟨rfl, rfl, rfl⟩
    | _ :: _ :: _, _ => exact ⟨rfl, rfl, rfl⟩
  | setMetric =>
    match argv, hr with
    | [], _ => exact ⟨rfl, rfl, rfl⟩
    | _ :: _ :: _, _ => exact ⟨rfl, rfl, rfl⟩
  | sendRreq =>
    simp only [cli, cliSendRreq]
    split
    · split
      · exact ⟨rfl, rfl, rfl⟩
      · rename_i host _
        have hf := Node.sendRreq_frame d.node host now
        exact ⟨hf.rt, congrArg Config.metricType hf.cfg, congrArg Config.gossipType hf.cfg⟩
    · exact ⟨rfl, rfl, rfl⟩
  | setHelloInterval =>
    simp only [cli, cliSetHelloInterval]
    split <;> exact ⟨rfl, rfl, rfl⟩
  | setTrackingFactor =>
    simp only [cli, cliSetTrackingFactor]
    split
    · split <;> exact ⟨rfl, rfl, rfl⟩
    · exact ⟨rfl, rfl, rfl⟩
  | setPeriodicRreqInterval =>
    simp only [cli, cliSetPeriodicRreqInterval]
    split
    · split <;> exact ⟨rfl, rfl, rfl⟩
    · exact ⟨rfl, rfl, rfl⟩
  | setSignalStrengthThreshold =>
    simp only [cli, cliSetPreemptiveRreqSignalStrengthThreshold]
    split
    · split <;> exact ⟨rfl, rfl, rfl⟩
    · exact ⟨rfl, rfl, rfl⟩
  | setDestOnly =>
    simp only [cli, cliSetDestOnly]
    split <;> exact ⟨rfl, rfl, rfl⟩
  | setRingSearch =>
    simp only [cli, cliSetRingSearch]
    split <;> exact ⟨rfl, rfl, rfl⟩
  | setHelloSize =>
    simp only [cli, cliSetHelloSize]
    split <;> exact ⟨rfl, rfl, rfl⟩
  | setRreqSize =>
    simp only [cli, cliSetRreqSize]
    split <;> exact ⟨rfl, rfl, rfl⟩

/-- After a reset no route is in use. -/
theorem cli_resets {command : CliCommand} {argv : List String} {now : Timeval}
    (hr : (DaemonEvent.cli command argv now).resetsRoutes = true) {host : MacAddr} {r : Route} :
    ¬ (d.cli H command argv now).1.node.rt.Uses host r := by
  cases command with
  | setGossip =>
    match argv, hr with
    | [_], _ => exact Rt.routingReset_uses
  | setMetric =>
    match argv, hr with
    | [_], _ => exact Rt.routingReset_uses
  | _ => cases hr

theorem callback_uses {cb : MeshCb} {rx : MeshRx} {msg : DessertMsg} (hw : d.node.rt.WF) {host : MacAddr} {r : Route}
    (hu : (d.callback L cb rx msg).1.node.rt.Uses host r) : d.Learns cb rx msg host r ∨ d.node.rt.Uses host r := by
  rcases d.callback_cases L cb rx msg with ⟨f, -, hd⟩ | ⟨nt, env, -, han, hd⟩
  · rw [hd] at hu
    exact .inr hu
  · rw [hd] at hu
    rcases Node.said_step L Rt.valid_earned hw hu with ⟨cb', env', msg', he, hc, hh, hr⟩ | hu
    · obtain ⟨rfl, rfl, rfl⟩ := NodeEvent.mesh.inj he
      have hag := han.agrees
      have hc' : cb.captures rx.lflags msg = true := hag.lflags ▸ hc
      obtain ⟨nt₀, ht, hl⟩ := han.link hc'
      refine .inl ⟨hc', hh, ?_, ?_, ⟨nt₀, nt, env.link, ht, hl, ?_⟩, ?_⟩
      · rw [hr]
        rfl
      · rw [hr, ← hag.iface]
        rfl
      · rw [hr]
        rfl
      · rw [hr]
        rfl
    · exact .inr hu

/-- A route in use after an event was in use before, or the event is a message that says it. -/
theorem handle_uses {e : DaemonEvent} (hw : d.node.rt.WF) {host : MacAddr} {r : Route}
    (hu : (d.handle H L e).1.node.rt.Uses host r) :
    (∃ cb rx msg, e = .mesh cb rx msg ∧ d.Learns cb rx msg host r) ∨
      d.node.rt.Uses host r ∧ e.resetsRoutes = false := by
  by_cases hc : ∃ command argv now, e = .cli command argv now
  · obtain ⟨command, argv, now, rfl⟩ := hc
    cases hr : (DaemonEvent.cli command argv now).resetsRoutes with
    | true => exact absurd hu (cli_resets hr)
    | false =>
      have hrt : (d.handle H L (.cli command argv now)).1.node.rt = d.node.rt := (cli_rt hr).1
      rw [hrt] at hu
      exact .inr ⟨hu, rfl⟩
  · have hres : e.resetsRoutes = false := by
      cases e with
      | cli command argv now => exact absurd ⟨command, argv, now, rfl⟩ hc
      | _ => rfl
    by_cases hm : ∃ cb rx msg, e = .mesh cb rx msg
    · obtain ⟨cb, rx, msg, rfl⟩ := hm
      rcases callback_uses hw hu with hl | hu
      · exact .inl ⟨cb, rx, msg, rfl, hl⟩
      · exact .inr ⟨hu, hres⟩
    · have hp := handle_played H d (L := L) fun command argv now he => hc ⟨command, argv, now, he⟩
      rcases hp.node with hn | ⟨ev, hev, hn⟩
      · exact .inr ⟨hn ▸ hu, hres⟩
      · rw [hn] at hu
        rcases Node.said_step L Rt.valid_earned hw hu with ⟨cb, env, msg, he, -⟩ | hu
        · subst he
          cases hev with
          | mesh cb msg h => exact absurd ⟨_, _, _, rfl⟩ hm
        · exact .inr ⟨hu, hres⟩

theorem handle_sameKinds {e : DaemonEvent} (hr : e.resetsRoutes = false) : d.SameKinds (d.handle H L e).1 := by
  by_cases hc : ∃ command argv now, e = .cli command argv now
  · obtain ⟨command, argv, now, rfl⟩ := hc
    exact (cli_rt hr).2
  · exact (handle_played H d (L := L) fun command argv now he => hc ⟨command, argv, now, he⟩).settings.sameKinds

end

/-! ## Runs -/

/-- In a daemon that runs, every route that is in use was learnt from a RREQ or RREP of its destination, with the
metric that is set now, and no command has set the metric or the gossip type since. -/
theorem route_learnt (H : CliHost) (L : Libdessert) (l25Defsrc : MacAddr) (meshiflist : List Meshif)
    (evs : List DaemonEvent) {host : MacAddr} {r : Route}
    (hrun : (Runs.exec (step H L) (start l25Defsrc meshiflist) evs).ended = false)
    (hu : (Runs.exec (step H L) (start l25Defsrc meshiflist) evs).node.rt.Uses host r) :
    ∃ pre cb rx msg post, evs = pre ++ .mesh cb rx msg :: post ∧
      (Runs.exec (step H L) (start l25Defsrc meshiflist) pre).Learns cb rx msg host r ∧
      (Runs.exec (step H L) (start l25Defsrc meshiflist) pre).SameKinds
        (Runs.exec (step H L) (start l25Defsrc meshiflist) evs) ∧
      ∀ e ∈ post, e.resetsRoutes = false := by
  let d' := Runs.exec (step H L) (start l25Defsrc meshiflist) evs
  let P : Daemon → Prop := fun d => d.ended = false ∧ d.SameKinds d' ∧ d.node.rt.Uses host r
  let C : Daemon → DaemonEvent → Prop := fun d e =>
    ∃ cb rx msg, e = .mesh cb rx msg ∧ d.Learns cb rx msg host r ∧ d.SameKinds d'
  have hstep : ∀ d e, d.Coherent H → P (step H L d e) → C d e ∨ P d ∧ e.resetsRoutes = false := by
    intro d e hc hP
    obtain ⟨hrun', hkinds, hu'⟩ := hP
    cases hend : d.ended with
    | true =>
      rw [step, if_pos hend, hend] at hrun'
      cases hrun'
    | false =>
      rw [step, hend] at hkinds hu'
      rcases handle_uses hc.sound.rt.wf hu' with ⟨cb, rx, msg, rfl, hl⟩ | ⟨hu'', hr⟩
      · exact .inl ⟨cb, rx, msg, rfl, hl, (handle_sameKinds rfl).trans hkinds⟩
      · exact .inr ⟨⟨hend, (handle_sameKinds hr).trans hkinds, hu''⟩, hr⟩
  -- at the start the table is empty
  have hempty : ¬ P (start l25Defsrc meshiflist) := by
    intro hP
    obtain ⟨-, -, e, he, -⟩ := hP
    cases he
  obtain ⟨pre, e, post, he, ⟨cb, rx, msg, rfl, hl, hkinds⟩, hpost⟩ :=
    Runs.exec_source (fun _ e hc => Coherent.step hc e) hstep (start_coherent H l25Defsrc meshiflist) hempty
      (show P d' from ⟨hrun, ⟨rfl, rfl⟩, hu⟩)
  exact ⟨pre, cb, rx, msg, post, he, hl, hkinds, hpost⟩

theorem route_learnt_again :
    let evs : List DaemonEvent := [.mesh .handleRreq (rxWlan 1) (rreqFrom 5 9 5 1 0),
      .cli .setMetric ["AODV_METRIC_RSSI"] 2, .mesh .handleRrep (rxWlan 3) (rrepFrom 5 9 5 2 0)]
    let d := Runs.exec (step host64 roomy) (start 9 [wlan]) evs
    ∃ pre cb rx msg post, evs = pre ++ .mesh cb rx msg :: post ∧
      (Runs.exec (step host64 roomy) (start 9 [wlan]) pre).Learns cb rx msg 5 ⟨5, some wlan, 8, 1⟩ ∧
      (Runs.exec (step host64 roomy) (start 9 [wlan]) pre).SameKinds d ∧ post.any DaemonEvent.resetsRoutes = false := by
  obtain ⟨pre, cb, rx, msg, post, he, hl, hk, hpost⟩ := @route_learnt host64 roomy 9 [wlan]
    [.mesh .handleRreq (rxWlan 1) (rreqFrom 5 9 5 1 0), .cli .setMetric ["AODV_METRIC_RSSI"] 2,
      .mesh .handleRrep (rxWlan 3) (rrepFrom 5 9 5 2 0)]
    5 ⟨5, some wlan, 8, 1⟩ (by decide) ⟨_, rfl, by decide, by decide⟩
  exact ⟨pre, cb, rx, msg, post, he, hl, hk, List.any_eq_false.mpr fun e h => by simp [hpost e h]⟩

end Daemon

end DesAodv
