import DesAodv.WholeDaemon

/-!
# Settings and what follows them

Several things in a daemon are computed from a setting when it is set: the start
value of the metric, the intervals of periodic tasks, the lifetime of a neighbor,
the number of HELLOs a neighbor should have received. They go with the settings
in every state, and a setting that is shown can be set again.
-/

namespace DesAodv

open Numerals

/-! ## The lifetime of a neighbor -/

theorem Node.step_ntTimeout (L : Libdessert) {n : Node} (hn : n.nt.Ok) {ev : NodeEvent} (hev : ev ≠ .neighborReset) :
    (n.step L ev).nt.ts.purgeTimeout = n.nt.ts.purgeTimeout := by
  rcases step_nt n L ev with ⟨op, hop, hstep⟩ | ⟨-, hs⟩
  · have hnt : (n.step L ev).nt = (op.step (n.nt, n.st)).1 := congrArg Prod.fst hstep
    rw [hnt]
    cases op with
    | cap2Dneigh cfg addr helloSeq iface timestamp currTime =>
      exact (hn.cap2Dneigh n.st cfg addr helloSeq iface timestamp currTime).2.1
    | check2Dneigh addr iface timestamp => exact (hn.cleanup n.st timestamp).2.1
    | cleanup timestamp => exact (hn.cleanup n.st timestamp).2.1
    | neighborReset helloInterval =>
      cases ev with
      | neighborReset => exact absurd rfl hev
      | mesh cb env msg =>
        cases cb with
        | dropErrors =>
          rw [ntOp_dropErrors] at hop
          split at hop <;> cases hop
        | handleHello =>
          rw [ntOp_handleHello] at hop
          split at hop <;> cases hop
        | _ => cases hop
      | cleanupDatabase now =>
        simp only [ntOp] at hop
        split at hop <;> cases hop
      | _ => cases hop
  · rw [hs.ts]

/-! ## The tracker -/

/-- The number of HELLOs a neighbor should have received is that of the settings. -/
def PdrNeighborTable.Expects (trackingFactor helloInterval : UInt16) (s : Except PdrFault PdrNeighborTable) : Prop :=
  ∀ nt, s = .ok nt → pdrExpectedHellos trackingFactor helloInterval = .ok nt.nbExpectedHellos

namespace PdrOp

open PdrNeighborTable

variable {trackingFactor helloInterval : UInt16} {s : Except PdrFault PdrNeighborTable}

theorem step_expects (hs : Orderly s) (h : Expects trackingFactor helloInterval s) {op : PdrOp} (ho : op.own = none) :
    Expects trackingFactor helloInterval (step s op) := by
  intro nt' hstep
  cases s with
  | error f => cases hstep
  | ok nt =>
    have hcall : op.call nt = .ok nt' := hstep
    have hsame : nt'.nbExpectedHellos = nt.nbExpectedHellos := by
      cases hc : op.capture with
      | some c =>
        obtain ⟨factor, addr, interval⟩ := c
        obtain ⟨e₁, hb⟩ := call_captured (hs nt rfl) hc hcall
        exact hb.expected
      | none =>
        rcases (call_uncaptured hc hcall).2 with hsame | ⟨factor, interval, hown, -⟩
        · exact hsame
        · rw [ho] at hown
          cases hown
    rw [hsame]
    exact h nt rfl

theorem updExpected_expects (s : Except PdrFault PdrNeighborTable) :
    Expects trackingFactor helloInterval (step s (.updExpected trackingFactor helloInterval)) := by
  intro nt' hstep
  cases s with
  | error f => cases hstep
  | ok nt =>
    cases hx : pdrExpectedHellos trackingFactor helloInterval with
    | error f => simp [step, call, aodvDbPdrNtUpdExpected, hx, Except.bind, bind] at hstep
    | ok n =>
      simp only [step, call, aodvDbPdrNtUpdExpected, hx, Except.bind, bind] at hstep
      obtain rfl := Except.ok.inj hstep
      rfl

theorem exec_expects {ops : List PdrOp} (ho : ∀ op ∈ ops, op.own = none) (hs : Orderly s)
    (h : Expects trackingFactor helloInterval s) :
    Orderly (Runs.exec step s ops) ∧ Expects trackingFactor helloInterval (Runs.exec step s ops) := by
  induction ops generalizing s with
  | nil => exact ⟨hs, h⟩
  | cons op ops ih =>
    exact ih (fun op' h' => ho op' (List.mem_cons_of_mem op h')) (step_orderly hs op)
      (step_expects hs h (ho op List.mem_cons_self))

end PdrOp

/-! ## The invariant -/

/-- The start value that goes with a metric: the best one. -/
def AodvMetric.start : AodvMetric → Metric
  | .etxMul | .pdr => aodvMaxMetric
  | _ => 0

theorem intervalTv_eq (interval : UInt16) : intervalTv interval = msec interval.toNat := by
  have h : 1000000 * (interval.toNat / 1000) + interval.toNat % 1000 * 1000 = 1000 * interval.toNat := by omega
  exact h

namespace Daemon

variable (H : CliHost)

/-- A packet size is the default or one that the command admits. -/
def SizeOk (size : UInt16) : Prop := size = 128 ∨ H.minSize ≤ size ∧ size ≤ 1500

/-- All that is computed from the settings goes with them. -/
structure Settled (d : Daemon) : Prop where
  helloSize : SizeOk H d.helloSize
  rreqSize : SizeOk H d.rreqSize
  trackingFactor : d.trackingFactor ≤ 1000
  metricStartvalue : d.node.cfg.metricStartvalue = d.node.cfg.metricType.start
  neighborTimeout : d.node.nt.ts.purgeTimeout = msec (d.node.cfg.helloInterval.toNat * (allowedHelloLost + 1))
  expected : PdrNeighborTable.Expects d.trackingFactor d.node.cfg.helloInterval d.tracker
  sendHelloPeriodic : d.sendHelloPeriodic = some (msec d.node.cfg.helloInterval.toNat)
  sendRreqPeriodic : d.sendRreqPeriodic = if d.rreqInterval = 0 then none else some (msec d.rreqInterval.toNat)

/-- The tables agree with their timeslots as well. -/
structure Coherent (d : Daemon) : Prop where
  settled : d.Settled H
  sound : d.node.Sound
  orderly : PdrOp.Orderly d.tracker

theorem start_coherent (l25Defsrc : MacAddr) (meshiflist : List Meshif) : (start l25Defsrc meshiflist).Coherent H := by
  refine ⟨⟨.inl rfl, .inl rfl, (by decide : (10 : UInt16) ≤ 1000), rfl, rfl, fun nt h => ?_, rfl, rfl⟩,
    Node.init_sound {} l25Defsrc meshiflist, (PdrOp.init_orderly 10 1000).1⟩
  exact (PdrOp.init_entries h).2

/-! ## Events -/

theorem metricOps_own {metricType : AodvMetric} {lastHop : MacAddr} {now : Timeval} :
    ∀ op ∈ metricOps metricType lastHop now, op.own = none := by
  intro op hop
  cases metricType <;> simp only [metricOps, List.mem_singleton, List.not_mem_nil] at hop <;> rw [hop] <;> rfl

theorem pdrOps_own (d : Daemon) (e : DaemonEvent) : ∀ op ∈ d.pdrOps e, op.own = none := by
  intro op hop
  cases e with
  | mesh cb rx msg =>
    cases cb with
    | handleHello =>
      simp only [pdrOps, answersOps] at hop
      split at hop
      · cases hop
      · simp only [helloOps] at hop
        split at hop
        · rcases List.mem_pair.mp hop with rfl | rfl <;> rfl
        · split at hop
          · obtain rfl := List.mem_singleton.mp hop
            rfl
          · cases hop
    | handleRreq =>
      simp only [pdrOps, answersOps] at hop
      split at hop
      · cases hop
      · exact metricOps_own op hop
    | handleRrep =>
      simp only [pdrOps, answersOps] at hop
      split at hop
      · cases hop
      · exact metricOps_own op hop
    | _ => cases hop
  | cleanupDatabase now =>
    simp only [pdrOps] at hop
    split at hop
    · cases hop
    · obtain rfl := List.mem_singleton.mp hop
      rfl
  | _ => cases hop

variable {H} {L : Libdessert} {d d' : Daemon}

theorem Plays.ne_reset {e : DaemonEvent} {ev : NodeEvent} (h : Plays e ev) : ev ≠ .neighborReset := by
  cases h <;> exact NodeEvent.noConfusion

theorem Coherent.of_same (hc : d.Coherent H) (hs : d.SameSettings d') (hsound : d'.node.Sound)
    (hto : d'.node.nt.ts.purgeTimeout = d.node.nt.ts.purgeTimeout) (horderly : PdrOp.Orderly d'.tracker)
    (hexpected : PdrNeighborTable.Expects d.trackingFactor d.node.cfg.helloInterval d'.tracker) : d'.Coherent H := by
  refine ⟨⟨?_, ?_, ?_, ?_, ?_, ?_, ?_, ?_⟩, hsound, horderly⟩
  · exact hs.helloSize ▸ hc.settled.helloSize
  · exact hs.rreqSize ▸ hc.settled.rreqSize
  · exact hs.trackingFactor ▸ hc.settled.trackingFactor
  · rw [hs.cfg]
    exact hc.settled.metricStartvalue
  · rw [hs.cfg, hto]
    exact hc.settled.neighborTimeout
  · rw [hs.cfg, hs.trackingFactor]
    exact hexpected
  · rw [hs.cfg, hs.sendHelloPeriodic]
    exact hc.settled.sendHelloPeriodic
  · rw [hs.rreqInterval, hs.sendRreqPeriodic]
    exact hc.settled.sendRreqPeriodic

theorem Coherent.played {e : DaemonEvent} (hc : d.Coherent H) (hp : d.Played L e d') : d'.Coherent H := by
  obtain ⟨hs, hnode, htracker⟩ := hp
  obtain ⟨horderly, hexpected⟩ := PdrOp.exec_expects (d.pdrOps_own e) hc.orderly hc.settled.expected
  rw [← htracker] at horderly hexpected
  rcases hnode with hn | ⟨ev, hev, hn⟩
  · exact hc.of_same hs (hn ▸ hc.sound) (by rw [hn]) horderly hexpected
  · refine hc.of_same hs (hn ▸ hc.sound.step L ev) ?_ horderly hexpected
    rw [hn]
    exact Node.step_ntTimeout L hc.sound.nt hev.ne_reset

/-! ## Commands -/

theorem sound_setCfg (h : d.node.Sound) (f : Config → Config) : (d.setCfg f).node.Sound :=
  ⟨h.rt, h.nt, h.pb, h.tidy.congr rfl rfl (List.Perm.refl _)⟩

theorem sound_reset {n : Node} (h : n.Sound) : n.neighborReset.Sound := h.step roomy .neighborReset

theorem sizeArg_ok {argv : List String} {size : UInt16} (h : H.sizeArg argv = some size) : SizeOk H size := by
  unfold CliHost.sizeArg at h
  split at h
  · simp only at h
    split at h
    · cases h
    · rename_i hbounds
      obtain rfl := Option.some.inj h
      rw [not_or, UInt16.not_lt, UInt16.not_lt] at hbounds
      exact .inr hbounds
  · cases h

theorem metricOfName_start {name : String} {metricType : AodvMetric} {start : Metric}
    (h : metricOfName name = some (metricType, start)) : start = metricType.start := by
  unfold metricOfName at h
  repeat' split at h
  all_goals cases h
  all_goals rfl

section
variable (hc : d.Coherent H)
include hc

theorem Coherent.setCfg {f : Config → Config} (hi : (f d.node.cfg).helloInterval = d.node.cfg.helloInterval)
    (hm : (f d.node.cfg).metricStartvalue = (f d.node.cfg).metricType.start) : (d.setCfg f).Coherent H := by
  refine ⟨⟨hc.settled.helloSize, hc.settled.rreqSize, hc.settled.trackingFactor, hm, ?_, ?_, ?_,
    hc.settled.sendRreqPeriodic⟩, sound_setCfg hc.sound f, hc.orderly⟩
  · have h := hc.settled.neighborTimeout
    rw [← hi] at h
    exact h
  · have h := hc.settled.expected
    rw [← hi] at h
    exact h
  · have h := hc.settled.sendHelloPeriodic
    rw [← hi] at h
    exact h

theorem Coherent.neighborReset : ({ d with node := d.node.neighborReset } : Daemon).Coherent H :=
  ⟨{ hc.settled with neighborTimeout := rfl }, sound_reset hc.sound, hc.orderly⟩

theorem Coherent.routingReset : ({ d with node := d.node.routingReset } : Daemon).Coherent H :=
  ⟨{ hc.settled with }, hc.sound.step roomy .routingReset, hc.orderly⟩

theorem Coherent.updExpected {helloInterval : UInt16} (hi : d.node.cfg.helloInterval = helloInterval) :
    (d.pdrUpdExpected helloInterval).Coherent H := by
  refine ⟨{ hc.settled with expected := ?_ }, hc.sound, PdrOp.step_orderly hc.orderly _⟩
  have h := @PdrOp.updExpected_expects d.trackingFactor helloInterval d.tracker
  rw [← hi] at h ⊢
  exact h

theorem Coherent.cliSetHelloInterval (argv : List String) : (d.cliSetHelloInterval H argv).1.Coherent H := by
  unfold Daemon.cliSetHelloInterval
  split
  · rename_i arg
    -- for a moment neither the neighbors nor the tracker nor the task follow the new interval
    let helloInterval := UInt16.ofNat (strtoul H.longBits arg.toList)
    let d' := d.setCfg fun cfg => { cfg with helloInterval }
    have hsettled : Settled H
        (({ d' with node := d'.node.neighborReset, sendHelloPeriodic := some (intervalTv helloInterval) } :
          Daemon).pdrUpdExpected helloInterval) :=
      ⟨hc.settled.helloSize, hc.settled.rreqSize, hc.settled.trackingFactor, hc.settled.metricStartvalue, rfl,
        PdrOp.updExpected_expects d.tracker, congrArg some (intervalTv_eq helloInterval), hc.settled.sendRreqPeriodic⟩
    exact ⟨hsettled, sound_reset (sound_setCfg hc.sound _), PdrOp.step_orderly hc.orderly _⟩
  · exact hc

theorem Coherent.cliSetTrackingFactor (argv : List String) : (d.cliSetTrackingFactor H argv).1.Coherent H := by
  unfold Daemon.cliSetTrackingFactor
  split
  · rename_i arg
    simp only
    split
    · exact hc
    · rename_i hle
      have hsettled : Settled H
          (({ d with trackingFactor := UInt16.ofNat (strtoul H.longBits arg.toList) } : Daemon).pdrUpdExpected
            d.node.cfg.helloInterval) :=
        { hc.settled with
          trackingFactor := UInt16.not_lt.mp hle
          expected := PdrOp.updExpected_expects d.tracker }
      exact ⟨hsettled, hc.sound, PdrOp.step_orderly hc.orderly _⟩
  · exact hc

theorem Coherent.cliSetGossip (argv : List String) : (d.cliSetGossip argv).1.Coherent H := by
  unfold Daemon.cliSetGossip
  split
  · refine Coherent.routingReset ?_
    split
    · exact hc
    · exact hc.setCfg rfl hc.settled.metricStartvalue
  · exact hc

theorem Coherent.cliSetMetric (argv : List String) : (d.cliSetMetric argv).1.Coherent H := by
  unfold Daemon.cliSetMetric
  split
  · refine Coherent.routingReset ?_
    split
    · exact hc
    · rename_i hname
      exact hc.setCfg rfl (metricOfName_start hname)
  · exact hc

theorem Coherent.cliSetPeriodicRreqInterval (argv : List String) :
    (d.cliSetPeriodicRreqInterval H argv).1.Coherent H := by
  unfold Daemon.cliSetPeriodicRreqInterval
  split
  · simp only
    split
    · rename_i hoff
      exact ⟨{ hc.settled with sendRreqPeriodic := (if_pos hoff).symm }, hc.sound, hc.orderly⟩
    · rename_i hon
      refine ⟨{ hc.settled with sendRreqPeriodic := ?_ }, hc.sound, hc.orderly⟩
      rw [if_neg hon, intervalTv_eq]
  · exact hc

theorem Coherent.cliSetThreshold (argv : List String) :
    (d.cliSetPreemptiveRreqSignalStrengthThreshold H argv).1.Coherent H := by
  unfold Daemon.cliSetPreemptiveRreqSignalStrengthThreshold
  split
  · have hset := fun t : Int8 =>
      @Coherent.setCfg H d hc (fun cfg => { cfg with signalStrengthThreshold := t }) rfl hc.settled.metricStartvalue
    simp only
    split
    · exact hset _
    · exact (hset _).neighborReset
  · exact hc

theorem Coherent.cli (command : CliCommand) (argv : List String) (now : Timeval) :
    (d.cli H command argv now).1.Coherent H := by
  cases command with
  | setDestOnly =>
    simp only [Daemon.cli, cliSetDestOnly]
    split
    · exact hc
    · rename_i destOnly _
      exact @Coherent.setCfg H d hc (fun cfg => { cfg with destOnly }) rfl hc.settled.metricStartvalue
  | setRingSearch =>
    simp only [Daemon.cli, cliSetRingSearch]
    split
    · exact hc
    · rename_i ringSearch _
      exact @Coherent.setCfg H d hc (fun cfg => { cfg with ringSearch }) rfl hc.settled.metricStartvalue
  | setHelloSize =>
    simp only [Daemon.cli, cliSetHelloSize]
    split
    · exact hc
    · rename_i hsize
      exact ⟨{ hc.settled with helloSize := sizeArg_ok hsize }, hc.sound, hc.orderly⟩
  | setHelloInterval => exact hc.cliSetHelloInterval argv
  | setRreqSize =>
    simp only [Daemon.cli, cliSetRreqSize]
    split
    · exact hc
    · rename_i hsize
      exact ⟨{ hc.settled with rreqSize := sizeArg_ok hsize }, hc.sound, hc.orderly⟩
  | setTrackingFactor => exact hc.cliSetTrackingFactor argv
  | setGossip => exact hc.cliSetGossip argv
  | setMetric => exact hc.cliSetMetric argv
  | setPeriodicRreqInterval => exact hc.cliSetPeriodicRreqInterval argv
  | setSignalStrengthThreshold => exact hc.cliSetThreshold argv
  | sendRreq =>
    simp only [Daemon.cli, cliSendRreq]
    split
    · split
      · exact hc
      · rename_i host _
        let d' : Daemon := { d with node := d.node.step roomy (.cliSendRreq host now) }
        have hs : d.SameSettings d' :=
          @sameSettings_of_node roomy d d' (.cliSendRreq host now) rfl rfl rfl rfl rfl rfl rfl
        have hto := @Node.step_ntTimeout roomy d.node hc.sound.nt (.cliSendRreq host now) NodeEvent.noConfusion
        exact @Coherent.of_same H d d' hc hs (hc.sound.step roomy (.cliSendRreq host now)) hto hc.orderly
          hc.settled.expected
    · exact hc

end

/-! ## Runs -/

theorem Coherent.step (hc : d.Coherent H) (e : DaemonEvent) : (d.step H L e).Coherent H := by
  unfold Daemon.step
  split
  · exact hc
  · cases e with
    | cli command argv now => exact hc.cli command argv now
    | _ => exact hc.played (handle_played H d fun _ _ _ => DaemonEvent.noConfusion)

variable (L)

theorem run_coherent (l25Defsrc : MacAddr) (meshiflist : List Meshif) (evs : List DaemonEvent) :
    (Runs.exec (step H L) (start l25Defsrc meshiflist) evs).Coherent H :=
  Runs.exec_inv (fun _ e hc => hc.step e) (start_coherent H l25Defsrc meshiflist) evs

/-- Whatever is received and whatever commands are given, in every state of a daemon all that is computed from
the settings goes with them. -/
theorem stays_settled (l25Defsrc : MacAddr) (meshiflist : List Meshif) (evs : List DaemonEvent) :
    (Runs.exec (step H L) (start l25Defsrc meshiflist) evs).Settled H :=
  (run_coherent L l25Defsrc meshiflist evs).settled

/-! ## What is shown can be set -/

/-- A platform with a `long` of at least 32 bits, and a message header that leaves room for the default sizes. -/
structure UsualHost (H : CliHost) : Prop where
  longBits : 32 ≤ H.longBits
  minSize : H.minSize ≤ 128

theorem gossipOfName_gossipName (t : AodvGossip) : gossipOfName (gossipName t) = some t := by
  cases t <;> simp [gossipOfName, gossipName]

theorem metricOfName_metricName (t : AodvMetric) : metricOfName (metricName t) = some (t, t.start) := by
  cases t <;> simp [metricOfName, metricName, AodvMetric.start]

section
variable (hu : UsualHost H)
include hu

theorem UsualHost.lt_pow (n : UInt16) : n.toNat < 2 ^ (H.longBits - 1) :=
  Nat.lt_of_lt_of_le n.toNat_lt (Nat.pow_le_pow_right (by decide) (Nat.le_sub_of_add_le
    (Nat.le_trans (by decide : 16 + 1 ≤ 32) hu.longBits)))

/-- A number that is shown is read as it was. -/
theorem UsualHost.strtoul_shown (n : UInt16) :
    UInt16.ofNat (strtoul H.longBits (String.ofList (printU n.toNat)).toList) = n := by
  have hlt : n.toNat < 2 ^ H.longBits :=
    Nat.lt_of_lt_of_le (hu.lt_pow n) (Nat.pow_le_pow_right (by decide) (Nat.sub_le _ _))
  rw [String.toList_ofList, strtoul_printU hlt, UInt16.ofNat_toNat]

theorem UsualHost.strtol_shown (n : UInt16) :
    UInt16.ofInt (strtol H.longBits (String.ofList (printU n.toNat)).toList) = n := by
  rw [String.toList_ofList, strtol_printU (hu.lt_pow n)]
  have hmod : ((n.toNat : Int) % 2 ^ 16).toNat = n.toNat := by
    have := n.toNat_lt
    omega
  rw [UInt16.ofInt, hmod, UInt16.ofNat_toNat]

theorem UsualHost.strtol_shownInt (t : Int8) :
    Int8.ofInt (strtol H.longBits (String.ofList (printD t.toInt)).toList) = t := by
  have hpow : (2 : Int) ^ 7 ≤ 2 ^ (H.longBits - 1) := by
    have h : 2 ^ 7 ≤ 2 ^ (H.longBits - 1) :=
      Nat.pow_le_pow_right (by decide) (Nat.le_sub_of_add_le (Nat.le_trans (by decide : 7 + 1 ≤ 32) hu.longBits))
    exact_mod_cast h
  have hlo := t.le_toInt
  have hhi := t.toInt_lt
  rw [String.toList_ofList, strtol_printD (by omega) (by omega), Int8.ofInt_toInt]

theorem UsualHost.sizeArg_shown {size : UInt16} (h : SizeOk H size) :
    H.sizeArg [String.ofList (printU size.toNat)] = some size := by
  have hbounds : H.minSize ≤ size ∧ size ≤ 1500 := by
    rcases h with rfl | h
    · exact ⟨hu.minSize, by decide⟩
    · exact h
  simp only [CliHost.sizeArg, hu.strtoul_shown]
  exact if_neg fun hb => hb.elim (fun hlt => absurd hbounds.1 (UInt16.not_le.mpr hlt))
    fun hgt => absurd hbounds.2 (UInt16.not_le.mpr hgt)

theorem Settled.set_shown (hd : d.Settled H) {command : CliCommand} {arg : String}
    (hs : d.shown command = some arg) (now : Timeval) :
    (d.cli H command [arg] now).2.2 = .ok ∧ d.SameSettings (d.cli H command [arg] now).1 := by
  cases command with
  | setHelloSize =>
    obtain rfl := Option.some.inj hs
    simp only [Daemon.cli, cliSetHelloSize, hu.sizeArg_shown hd.helloSize]
    exact ⟨trivial, .refl d⟩
  | setRreqSize =>
    obtain rfl := Option.some.inj hs
    simp only [Daemon.cli, cliSetRreqSize, hu.sizeArg_shown hd.rreqSize]
    exact ⟨trivial, .refl d⟩
  | setHelloInterval =>
    obtain rfl := Option.some.inj hs
    simp only [Daemon.cli, Daemon.cliSetHelloInterval, hu.strtoul_shown]
    refine ⟨trivial, rfl, rfl, rfl, rfl, rfl, ?_, rfl⟩
    rw [hd.sendHelloPeriodic, ← intervalTv_eq]
    rfl
  | setTrackingFactor =>
    obtain rfl := Option.some.inj hs
    simp only [Daemon.cli, Daemon.cliSetTrackingFactor, hu.strtoul_shown, gt_iff_lt,
      if_neg (UInt16.not_lt.mpr hd.trackingFactor)]
    exact ⟨trivial, rfl, rfl, rfl, rfl, rfl, rfl, rfl⟩
  | setGossip =>
    obtain rfl := Option.some.inj hs
    simp only [Daemon.cli, Daemon.cliSetGossip, gossipOfName_gossipName]
    exact ⟨trivial, rfl, rfl, rfl, rfl, rfl, rfl, rfl⟩
  | setMetric =>
    obtain rfl := Option.some.inj hs
    simp only [Daemon.cli, Daemon.cliSetMetric, metricOfName_metricName]
    refine ⟨trivial, ?_, rfl, rfl, rfl, rfl, rfl, rfl⟩
    -- the start value is the one that goes with the metric already
    rw [← hd.metricStartvalue]
    rfl
  | setPeriodicRreqInterval =>
    simp only [shown] at hs
    split at hs
    · cases hs
    · rename_i hon
      obtain rfl := Option.some.inj hs
      simp only [Daemon.cli, Daemon.cliSetPeriodicRreqInterval, hu.strtol_shown, if_neg hon]
      refine ⟨trivial, rfl, rfl, rfl, rfl, rfl, rfl, ?_⟩
      rw [hd.sendRreqPeriodic, if_neg hon, ← intervalTv_eq]
  | setSignalStrengthThreshold =>
    simp only [shown] at hs
    split at hs
    · cases hs
    · rename_i hon
      obtain rfl := Option.some.inj hs
      simp only [Daemon.cli, cliSetPreemptiveRreqSignalStrengthThreshold, hu.strtol_shownInt, if_neg hon]
      exact ⟨trivial, rfl, rfl, rfl, rfl, rfl, rfl, rfl⟩
  | _ => cases hs

/-- What is shown on one daemon and set on another is shown there. -/
theorem Settled.shown_again (hd : d.Settled H) {command : CliCommand} {arg : String}
    (hs : d.shown command = some arg) (d' : Daemon) (now : Timeval) :
    (d'.cli H command [arg] now).1.shown command = some arg := by
  cases command with
  | setHelloSize =>
    obtain rfl := Option.some.inj hs
    simp only [Daemon.cli, cliSetHelloSize, hu.sizeArg_shown hd.helloSize]
    rfl
  | setRreqSize =>
    obtain rfl := Option.some.inj hs
    simp only [Daemon.cli, cliSetRreqSize, hu.sizeArg_shown hd.rreqSize]
    rfl
  | setHelloInterval =>
    obtain rfl := Option.some.inj hs
    simp only [Daemon.cli, Daemon.cliSetHelloInterval, hu.strtoul_shown]
    rfl
  | setTrackingFactor =>
    obtain rfl := Option.some.inj hs
    simp only [Daemon.cli, Daemon.cliSetTrackingFactor, hu.strtoul_shown, gt_iff_lt,
      if_neg (UInt16.not_lt.mpr hd.trackingFactor)]
    rfl
  | setGossip =>
    obtain rfl := Option.some.inj hs
    simp only [Daemon.cli, Daemon.cliSetGossip, gossipOfName_gossipName]
    rfl
  | setMetric =>
    obtain rfl := Option.some.inj hs
    simp only [Daemon.cli, Daemon.cliSetMetric, metricOfName_metricName]
    rfl
  | setPeriodicRreqInterval =>
    simp only [shown] at hs
    split at hs
    · cases hs
    · rename_i hon
      obtain rfl := Option.some.inj hs
      simp only [Daemon.cli, Daemon.cliSetPeriodicRreqInterval, hu.strtol_shown, if_neg hon, shown]
  | setSignalStrengthThreshold =>
    simp only [shown] at hs
    split at hs
    · cases hs
    · rename_i hon
      obtain rfl := Option.some.inj hs
      simp only [Daemon.cli, cliSetPreemptiveRreqSignalStrengthThreshold, hu.strtol_shownInt, if_neg hon]
      exact if_neg hon
  | _ => cases hs

end

/-- A 64-bit machine on which libdessert knows no address. -/
def host64 : CliHost := { longBits := 64, sizeofDessertMsg := 28, parseMac := fun _ => none }

def rxWlan (now : Timeval) : MeshRx :=
  { lflags := (rxAt now).lflags, iface := wlan, now, avgRssi := 0, coin := true }

end Daemon

end DesAodv
