import DesAodv.Commands
import DesAodv.DaemonTables
import DesAodv.TrackerSettings

/-!
# The whole daemon

A daemon with its PDR tracker, its hold queue and its command line. What the
tracker and the hold queue answer a callback is no longer left open, and the
settings change while the daemon runs. A daemon that has followed a pointer it
must not follow, divided by zero or failed an assertion does nothing any more.
-/

namespace DesAodv

/-- What a mesh callback is given besides the message: `coin` is what `aodv_gossip_0` returns. -/
structure MeshRx where
  lflags : LFlags
  iface : Meshif
  now : Timeval
  avgRssi : Int8
  coin : Bool
  deriving DecidableEq, Repr

inductive DaemonEvent
  | mesh (cb : MeshCb) (rx : MeshRx) (msg : DessertMsg)
  | sysRx (l25Shost l25Dhost : MacAddr) (payload : List UInt8) (now : Timeval)
  | sendHello
  | sendRreq (now : Timeval)
  | cleanupDatabase (now : Timeval)
  | scexecute (now : Timeval) (avgRssi : Int8)
  | gossip3 (scheduled : Timeval)
  | cli (command : CliCommand) (argv : List String) (now : Timeval)
  deriving DecidableEq, Repr

def LinkSample.rssiOnly (avgRssi : Int8) : LinkSample := { avgRssi, etxAdd := none, etxMul := none, pdr := none }

def MeshRx.env (rx : MeshRx) (link : LinkSample) (rcvdHellos : Option UInt8) : RxEnv :=
  { lflags := rx.lflags, iface := rx.iface, now := rx.now, link, gossip := true, rcvdHellos }

/-- Whether `aodv_handle_rreq` gets to the call of `aodv_gossip`. -/
def Node.asksGossip (n : Node) (env : RxEnv) (msg : DessertMsg) (rreq : AodvMsgRreq) : Bool :=
  decide (n.captResult env msg rreq ≠ .old) && !env.lflags.l25Dst &&
    (localRepair (n.captured env msg rreq).rt rreq msg.l25Dhost).isNone && decide (n.cfg.gossipType ≠ .gossipNone)

namespace Daemon

/-- The daemon after `main` has registered its periodic tasks. -/
def start (l25Defsrc : MacAddr) (meshiflist : List Meshif) : Daemon :=
  { node := aodvDbInit {} l25Defsrc meshiflist
    tracker := aodvDbPdrNtInit 10 1000
    hold := holdQueueInit
    helloSize := 128
    rreqSize := 128
    rreqInterval := 0
    trackingFactor := 10
    sendHelloPeriodic := some (intervalTv 1000)
    sendRreqPeriodic := none }

/-- Nothing has gone wrong so far. -/
structure Intact (d : Daemon) : Prop where
  rt : d.node.rt.fault = false
  series : d.node.series.fault = false
  hold : d.hold.fault = false
  tracker : ∃ nt, d.tracker = .ok nt

def ended (d : Daemon) : Bool :=
  d.node.rt.fault || d.node.series.fault || d.hold.fault || !d.tracker.isOk

theorem ended_iff (d : Daemon) : d.ended = false ↔ d.Intact := by
  unfold ended
  cases ht : d.tracker with
  | error f =>
    refine iff_of_false (by simp [Except.isOk, Except.toBool]) fun h => ?_
    obtain ⟨nt, hnt⟩ := h.tracker
    cases ht.symm.trans hnt
  | ok nt =>
    have hok : (Except.ok nt : Except PdrFault PdrNeighborTable).isOk = true := rfl
    rw [hok]
    simp only [Bool.not_true, Bool.or_false, Bool.or_eq_false_iff, and_assoc]
    exact ⟨fun h => ⟨h.1, h.2.1, h.2.2, nt, ht⟩, fun h => ⟨h.rt, h.series, h.hold⟩⟩

/-! ## The PDR tracker -/

section
variable (d : Daemon)

/-- `aodv_metric_do` and its call of the tracker: what is known about the link to the last hop. -/
def linkSample (lastHop : MacAddr) (rx : MeshRx) (nt : PdrNeighborTable) :
    Except PdrFault (PdrNeighborTable × LinkSample) :=
  match d.node.cfg.metricType with
  | .etxAdd => do
    let (nt, etxAdd) ← aodvDbPdrNtGetEtxAdd nt lastHop rx.now
    .ok (nt, { LinkSample.rssiOnly rx.avgRssi with etxAdd })
  | .etxMul => do
    let (nt, etxMul) ← aodvDbPdrNtGetEtxMul nt lastHop rx.now
    .ok (nt, { LinkSample.rssiOnly rx.avgRssi with etxMul })
  | .pdr =>
    let (nt, pdr) := aodvDbPdrNtGetPdr nt lastHop rx.now
    .ok (nt, { LinkSample.rssiOnly rx.avgRssi with pdr })
  | _ => .ok (nt, LinkSample.rssiOnly rx.avgRssi)

/-- The calls of `aodv_handle_hello`: the HELLO is counted and the count goes into the answer, or an answer
to an own HELLO is noted. -/
def helloAnswers (rx : MeshRx) (msg : DessertMsg) (hello : AodvMsgHello) (nt : PdrNeighborTable) :
    Except PdrFault (PdrNeighborTable × RxEnv) :=
  let env := rx.env (LinkSample.rssiOnly rx.avgRssi)
  if msg.ttl - 1 ≥ 1 then do
    let nt ← aodvDbPdrNtCapHello nt d.trackingFactor msg.l2Shost msg.u16 hello.helloInterval rx.now rx.now rx.now
    let (nt, rcvdHellos) := aodvDbPdrNtGetRcvdhellocount nt msg.l2Shost rx.now
    .ok (nt, env rcvdHellos)
  else if rx.iface.hwaddr = msg.l2Dhost then do
    let nt ← aodvDbPdrNtCapHellorsp nt d.trackingFactor msg.l2Shost hello.helloInterval hello.helloRcvdCount
      rx.now rx.now
    .ok (nt, env none)
  else .ok (nt, env none)

/-- The tracker after a callback, and what the callback has been answered. -/
def answers (cb : MeshCb) (rx : MeshRx) (msg : DessertMsg) (nt : PdrNeighborTable) :
    Except PdrFault (PdrNeighborTable × RxEnv) :=
  let plain : Except PdrFault (PdrNeighborTable × RxEnv) := .ok (nt, rx.env (LinkSample.rssiOnly rx.avgRssi) none)
  let metric : Except PdrFault (PdrNeighborTable × RxEnv) :=
    (d.linkSample msg.l2Shost rx nt).map fun r => (r.1, rx.env r.2 none)
  match cb with
  | .handleHello =>
    match msg.getHello with
    | none => plain
    | some hello => d.helloAnswers rx msg hello nt
  | .handleRreq => if msg.getRreq.isNone then plain else metric
  | .handleRrep => if msg.getRrep.isNone || !rx.lflags.l2Dst then plain else metric
  | _ => plain

/-! ## The hold queue -/

/-- `aodv_gossip_capt_rreq`, and `aodv_gossip` where it is called. -/
def gossiped (env : RxEnv) (coin : Bool) (msg : DessertMsg) (rreq : AodvMsgRreq) : HoldQueue × Bool :=
  let counted := d.node.countHop env msg
  let hold := d.hold.aodvGossipCaptRreq counted
  if d.node.asksGossip env msg rreq then hold.aodvGossip d.node.cfg.gossipType counted coin env.now
  else (hold, true)

def holdAnswers (cb : MeshCb) (env : RxEnv) (coin : Bool) (msg : DessertMsg) : HoldQueue × Bool :=
  match cb with
  | .handleRreq =>
    match msg.getRreq with
    | none => (d.hold, true)
    | some rreq => d.gossiped env coin msg rreq
  | _ => (d.hold, true)

end

/-! ## Events -/

section
variable (H : CliHost) (L : Libdessert)

def callback (d : Daemon) (cb : MeshCb) (rx : MeshRx) (msg : DessertMsg) : Daemon × List Sent × Verdict :=
  match d.tracker.bind (d.answers cb rx msg) with
  | .error f => ({ d with tracker := .error f }, [], .drop)
  | .ok (nt, env) =>
    let (hold, gossip) := d.holdAnswers cb env rx.coin msg
    let (node, sent, verdict) := d.node.callback L cb { env with gossip } msg
    ({ d with node, tracker := .ok nt, hold }, sent, verdict)

def onNode (d : Daemon) (ev : NodeEvent) : Daemon × List Sent :=
  let (node, sent) := d.node.handle L ev
  ({ d with node }, sent)

/-- `aodv_db_cleanup` with the table of the tracker. -/
def cleanup (d : Daemon) (now : Timeval) : Daemon × List Sent :=
  if d.node.hung then (d, [])
  else ({ d with tracker := PdrOp.step d.tracker (.cleanup now) }.onNode L (.cleanupDatabase now))

/-- A periodic task runs if it is registered. -/
def handle (d : Daemon) : DaemonEvent → Daemon × List Sent
  | .mesh cb rx msg =>
    let (d, sent, _) := d.callback L cb rx msg
    (d, sent)
  | .sysRx l25Shost l25Dhost payload now => d.onNode L (.sysRx l25Shost l25Dhost payload now)
  | .sendHello => if d.sendHelloPeriodic.isNone then (d, []) else d.onNode L .sendHello
  | .sendRreq now => if d.sendRreqPeriodic.isNone then (d, []) else d.onNode L (.sendRreq now)
  | .cleanupDatabase now => d.cleanup L now
  | .scexecute now avgRssi => d.onNode L (.scexecute now avgRssi)
  | .gossip3 scheduled =>
    if d.node.hung || d.hold.periodics.isEmpty then (d, [])
    else
      let (hold, sent) := d.hold.aodvGossip3 scheduled
      ({ d with hold }, sent.map fun msg => .mesh msg none)
  | .cli command argv now =>
    let (d, sent, _) := d.cli H command argv now
    (d, sent)

def step (d : Daemon) (e : DaemonEvent) : Daemon := if d.ended then d else (d.handle H L e).1

end

/-! ## What an event does -/

/-- All that commands set, and the tasks registered accordingly. -/
structure SameSettings (d d' : Daemon) : Prop where
  cfg : d'.node.cfg = d.node.cfg
  helloSize : d'.helloSize = d.helloSize
  rreqSize : d'.rreqSize = d.rreqSize
  rreqInterval : d'.rreqInterval = d.rreqInterval
  trackingFactor : d'.trackingFactor = d.trackingFactor
  sendHelloPeriodic : d'.sendHelloPeriodic = d.sendHelloPeriodic
  sendRreqPeriodic : d'.sendRreqPeriodic = d.sendRreqPeriodic

theorem SameSettings.refl (d : Daemon) : d.SameSettings d := ⟨rfl, rfl, rfl, rfl, rfl, rfl, rfl⟩

/-- The call of `aodv_metric_do`. -/
def metricOps (metricType : AodvMetric) (lastHop : MacAddr) (now : Timeval) : List PdrOp :=
  match metricType with
  | .etxAdd => [.getEtxAdd lastHop now]
  | .etxMul => [.getEtxMul lastHop now]
  | .pdr => [.getPdr lastHop now]
  | _ => []

section
variable (d : Daemon)

def helloOps (rx : MeshRx) (msg : DessertMsg) (hello : AodvMsgHello) : List PdrOp :=
  if msg.ttl - 1 ≥ 1 then
    [.capHello d.trackingFactor msg.l2Shost msg.u16 hello.helloInterval rx.now rx.now rx.now,
      .getRcvdhellocount msg.l2Shost rx.now]
  else if rx.iface.hwaddr = msg.l2Dhost then
    [.capHellorsp d.trackingFactor msg.l2Shost hello.helloInterval hello.helloRcvdCount rx.now rx.now]
  else []

/-- The calls of the tracker in the course of a callback. -/
def answersOps (cb : MeshCb) (rx : MeshRx) (msg : DessertMsg) : List PdrOp :=
  match cb with
  | .handleHello =>
    match msg.getHello with
    | none => []
    | some hello => d.helloOps rx msg hello
  | .handleRreq => if msg.getRreq.isNone then [] else metricOps d.node.cfg.metricType msg.l2Shost rx.now
  | .handleRrep =>
    if msg.getRrep.isNone || !rx.lflags.l2Dst then [] else metricOps d.node.cfg.metricType msg.l2Shost rx.now
  | _ => []

/-- The calls of the tracker in the course of an event that is not a command. -/
def pdrOps : DaemonEvent → List PdrOp
  | .mesh cb rx msg => d.answersOps cb rx msg
  | .cleanupDatabase now => if d.node.hung then [] else [.cleanup now]
  | _ => []

variable (rx : MeshRx) (msg : DessertMsg) (nt : PdrNeighborTable)

theorem linkSample_ops (lastHop : MacAddr) : (d.linkSample lastHop rx nt).map Prod.fst =
    Runs.exec PdrOp.step (.ok nt) (metricOps d.node.cfg.metricType lastHop rx.now) := by
  unfold linkSample metricOps
  cases d.node.cfg.metricType with
  | etxAdd =>
    cases h : aodvDbPdrNtGetEtxAdd nt lastHop rx.now <;>
      simp [Runs.exec, PdrOp.step, PdrOp.call, Except.bind, Except.map, bind, h]
  | etxMul =>
    cases h : aodvDbPdrNtGetEtxMul nt lastHop rx.now <;>
      simp [Runs.exec, PdrOp.step, PdrOp.call, Except.bind, Except.map, bind, h]
  | _ => rfl

theorem helloAnswers_ops (hello : AodvMsgHello) : (d.helloAnswers rx msg hello nt).map Prod.fst =
    Runs.exec PdrOp.step (.ok nt) (d.helloOps rx msg hello) := by
  unfold helloAnswers helloOps
  split
  · cases h : aodvDbPdrNtCapHello nt d.trackingFactor msg.l2Shost msg.u16 hello.helloInterval rx.now rx.now rx.now <;>
      simp [Runs.exec, PdrOp.step, PdrOp.call, Except.bind, Except.map, bind, h]
  · split
    · cases h : aodvDbPdrNtCapHellorsp nt d.trackingFactor msg.l2Shost hello.helloInterval hello.helloRcvdCount
          rx.now rx.now <;>
        simp [Runs.exec, PdrOp.step, PdrOp.call, Except.bind, Except.map, bind, h]
    · rfl

theorem answers_ops (cb : MeshCb) : (d.answers cb rx msg nt).map Prod.fst =
    Runs.exec PdrOp.step (.ok nt) (d.answersOps cb rx msg) := by
  have hmetric : ((d.linkSample msg.l2Shost rx nt).map fun r => (r.1, rx.env r.2 none)).map Prod.fst =
      Runs.exec PdrOp.step (.ok nt) (metricOps d.node.cfg.metricType msg.l2Shost rx.now) := by
    rw [← linkSample_ops]
    cases d.linkSample msg.l2Shost rx nt <;> rfl
  cases cb with
  | handleHello =>
    simp only [answers, answersOps]
    cases msg.getHello with
    | none => rfl
    | some hello => exact d.helloAnswers_ops rx msg nt hello
  | handleRreq =>
    simp only [answers, answersOps]
    split
    · rfl
    · exact hmetric
  | handleRrep =>
    simp only [answers, answersOps]
    split
    · rfl
    · exact hmetric
  | _ => rfl

end

/-- What the callback is given is what the reception says. -/
structure Agrees (rx : MeshRx) (env : RxEnv) : Prop where
  lflags : env.lflags = rx.lflags
  iface : env.iface = rx.iface
  now : env.now = rx.now

/-- The event of the node that goes with an event. -/
inductive Plays : DaemonEvent → NodeEvent → Prop
  | mesh (cb : MeshCb) (msg : DessertMsg) {rx : MeshRx} {env : RxEnv} (h : Agrees rx env) :
      Plays (.mesh cb rx msg) (.mesh cb env msg)
  | sysRx (l25Shost l25Dhost : MacAddr) (payload : List UInt8) (now : Timeval) :
      Plays (.sysRx l25Shost l25Dhost payload now) (.sysRx l25Shost l25Dhost payload now)
  | sendHello : Plays .sendHello .sendHello
  | sendRreq (now : Timeval) : Plays (.sendRreq now) (.sendRreq now)
  | cleanupDatabase (now : Timeval) : Plays (.cleanupDatabase now) (.cleanupDatabase now)
  | scexecute (now : Timeval) (avgRssi : Int8) : Plays (.scexecute now avgRssi) (.scexecute now avgRssi)

theorem Agrees.env {rx : MeshRx} {link : LinkSample} {rcvdHellos : Option UInt8} :
    Agrees rx (rx.env link rcvdHellos) := ⟨rfl, rfl, rfl⟩

theorem answers_agree {d : Daemon} {cb : MeshCb} {rx : MeshRx} {msg : DessertMsg} {nt nt' : PdrNeighborTable}
    {env : RxEnv} (h : d.answers cb rx msg nt = .ok (nt', env)) : Agrees rx env := by
  have hmetric : ∀ {r : Except PdrFault (PdrNeighborTable × LinkSample)},
      r.map (fun r => (r.1, rx.env r.2 none)) = .ok (nt', env) → Agrees rx env := by
    intro r hr
    cases r with
    | error f => cases hr
    | ok r =>
      obtain ⟨-, rfl⟩ := Prod.mk.inj (Except.ok.inj hr)
      exact .env
  have hplain : ∀ {link : LinkSample} {rcvdHellos : Option UInt8},
      (Except.ok (nt, rx.env link rcvdHellos) : Except PdrFault _) = .ok (nt', env) → Agrees rx env := by
    intro link rcvdHellos hr
    obtain ⟨-, rfl⟩ := Prod.mk.inj (Except.ok.inj hr)
    exact .env
  cases cb with
  | handleHello =>
    simp only [answers] at h
    split at h
    · exact hplain h
    · simp only [helloAnswers, bind, Except.bind] at h
      split at h
      · split at h
        · cases h
        · obtain ⟨-, rfl⟩ := Prod.mk.inj (Except.ok.inj h)
          exact .env
      · split at h
        · split at h
          · cases h
          · obtain ⟨-, rfl⟩ := Prod.mk.inj (Except.ok.inj h)
            exact .env
        · exact hplain h
  | handleRreq =>
    simp only [answers] at h
    split at h
    · exact hplain h
    · exact hmetric h
  | handleRrep =>
    simp only [answers] at h
    split at h
    · exact hplain h
    · exact hmetric h
  | _ => exact hplain h

theorem exec_error (f : PdrFault) (ops : List PdrOp) : Runs.exec PdrOp.step (.error f) ops = .error f := by
  induction ops with
  | nil => rfl
  | cons op ops ih => exact ih

theorem tracker_answers (d : Daemon) (cb : MeshCb) (rx : MeshRx) (msg : DessertMsg) :
    (d.tracker.bind (d.answers cb rx msg)).map Prod.fst =
      Runs.exec PdrOp.step d.tracker (d.answersOps cb rx msg) := by
  cases d.tracker with
  | error f => exact (exec_error f _).symm
  | ok nt => exact d.answers_ops rx msg nt cb

section
variable (H : CliHost) (L : Libdessert)

/-- The tracker, if it has not ended, has answered the callback with `nt` and `env`. -/
def Answered (d : Daemon) (cb : MeshCb) (rx : MeshRx) (msg : DessertMsg) (nt : PdrNeighborTable) (env : RxEnv) : Prop :=
  ∃ nt₀, d.tracker = .ok nt₀ ∧ d.answers cb rx msg nt₀ = .ok (nt, env)

theorem Answered.agrees {d : Daemon} {cb : MeshCb} {rx : MeshRx} {msg : DessertMsg} {nt : PdrNeighborTable}
    {env : RxEnv} (h : d.Answered cb rx msg nt env) : Agrees rx env := by
  obtain ⟨nt₀, -, ha⟩ := h
  exact answers_agree ha

/-- A callback ends in the tracker, or it is that of the node with what it has been answered. -/
theorem callback_cases (d : Daemon) (cb : MeshCb) (rx : MeshRx) (msg : DessertMsg) :
    (∃ f, Runs.exec PdrOp.step d.tracker (d.answersOps cb rx msg) = .error f ∧
      (d.callback L cb rx msg).1 = { d with tracker := .error f }) ∨
    ∃ nt env, Runs.exec PdrOp.step d.tracker (d.answersOps cb rx msg) = .ok nt ∧ d.Answered cb rx msg nt env ∧
      (d.callback L cb rx msg).1 =
        { d with
          node := d.node.step L (.mesh cb { env with gossip := (d.holdAnswers cb env rx.coin msg).2 } msg)
          tracker := .ok nt
          hold := (d.holdAnswers cb env rx.coin msg).1 } := by
  have hops := d.tracker_answers cb rx msg
  unfold callback
  cases hb : d.tracker.bind (d.answers cb rx msg) with
  | error f =>
    rw [hb] at hops
    exact .inl ⟨f, hops.symm, rfl⟩
  | ok r =>
    obtain ⟨nt, env⟩ := r
    rw [hb] at hops
    refine .inr ⟨nt, env, hops.symm, ?_, rfl⟩
    cases ht : d.tracker with
    | error f =>
      rw [ht] at hb
      cases hb
    | ok nt₀ =>
      rw [ht] at hb
      exact ⟨nt₀, ht, hb⟩

/-- What an event that is not a command comes to. -/
structure Played (d : Daemon) (e : DaemonEvent) (d' : Daemon) : Prop where
  settings : d.SameSettings d'
  node : d'.node = d.node ∨ ∃ ev, Plays e ev ∧ d'.node = d.node.step L ev
  tracker : d'.tracker = Runs.exec PdrOp.step d.tracker (d.pdrOps e)

variable {L}

theorem sameSettings_of_node {d d' : Daemon} {ev : NodeEvent} (hn : d'.node = d.node.step L ev)
    (h₁ : d'.helloSize = d.helloSize) (h₂ : d'.rreqSize = d.rreqSize) (h₃ : d'.rreqInterval = d.rreqInterval)
    (h₄ : d'.trackingFactor = d.trackingFactor) (h₅ : d'.sendHelloPeriodic = d.sendHelloPeriodic)
    (h₆ : d'.sendRreqPeriodic = d.sendRreqPeriodic) : d.SameSettings d' := by
  obtain ⟨-, hc, -, -⟩ := Node.step_rt L d.node ev
  exact ⟨hn ▸ hc, h₁, h₂, h₃, h₄, h₅, h₆⟩

theorem played_node (d : Daemon) {e : DaemonEvent} {ev : NodeEvent} (hp : Plays e ev) (ho : d.pdrOps e = []) :
    d.Played L e (d.onNode L ev).1 :=
  ⟨sameSettings_of_node rfl rfl rfl rfl rfl rfl rfl, .inr ⟨ev, hp, rfl⟩, by rw [ho]; rfl⟩

theorem played_nothing (d : Daemon) {e : DaemonEvent} (ho : d.pdrOps e = []) : d.Played L e d :=
  ⟨.refl d, .inl rfl, by rw [ho]; rfl⟩

theorem handle_played (d : Daemon) {e : DaemonEvent} (he : ∀ command argv now, e ≠ .cli command argv now) :
    d.Played L e (d.handle H L e).1 := by
  cases e with
  | mesh cb rx msg =>
    have hhandle : (d.handle H L (.mesh cb rx msg)).1 = (d.callback L cb rx msg).1 := rfl
    rw [hhandle]
    rcases d.callback_cases L cb rx msg with ⟨f, hops, hd⟩ | ⟨nt, env, hops, han, hd⟩
    · rw [hd]
      exact ⟨⟨rfl, rfl, rfl, rfl, rfl, rfl, rfl⟩, .inl rfl, hops.symm⟩
    · rw [hd]
      have hag := han.agrees
      have hag' : Agrees rx { env with gossip := (d.holdAnswers cb env rx.coin msg).2 } :=
        ⟨hag.lflags, hag.iface, hag.now⟩
      exact ⟨sameSettings_of_node rfl rfl rfl rfl rfl rfl rfl, .inr ⟨_, .mesh cb msg hag', rfl⟩, hops.symm⟩
  | sysRx l25Shost l25Dhost payload now => exact d.played_node (.sysRx l25Shost l25Dhost payload now) rfl
  | sendHello =>
    simp only [handle]
    split
    · exact d.played_nothing rfl
    · exact d.played_node .sendHello rfl
  | sendRreq now =>
    simp only [handle]
    split
    · exact d.played_nothing rfl
    · exact d.played_node (.sendRreq now) rfl
  | cleanupDatabase now =>
    simp only [handle, cleanup]
    split
    · rename_i hh
      exact d.played_nothing (by simp only [pdrOps, hh, if_true])
    · rename_i hh
      refine ⟨@sameSettings_of_node L d _ (.cleanupDatabase now) rfl rfl rfl rfl rfl rfl rfl,
        .inr ⟨_, .cleanupDatabase now, rfl⟩, ?_⟩
      simp only [pdrOps, hh, Bool.false_eq_true, if_false]
      rfl
  | scexecute now avgRssi => exact d.played_node (.scexecute now avgRssi) rfl
  | gossip3 scheduled =>
    simp only [handle]
    split
    · exact d.played_nothing rfl
    · exact ⟨⟨rfl, rfl, rfl, rfl, rfl, rfl, rfl⟩, .inl rfl, rfl⟩
  | cli command argv now => exact absurd rfl (he command argv now)

end

end Daemon

end DesAodv
