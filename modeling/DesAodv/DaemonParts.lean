import DesAodv.DaemonSettings

/-!
# The node within the whole daemon

The PDR tracker, the hold queue and most commands are not part of a node. What the
rest of the daemon does is a run of the node, with the answers of the tracker as
part of the receptions: what holds of every run of a node holds of the daemon.
-/

namespace DesAodv

def DaemonEvent.time : DaemonEvent → Option Timeval
  | .mesh _ rx _ => some rx.now
  | .sysRx _ _ _ now => some now
  | .sendRreq now => some now
  | .cleanupDatabase now => some now
  | .scexecute now _ => some now
  | .cli _ _ now => some now
  | _ => none

/-- No setting of the node is given a value. -/
def DaemonEvent.keepsSettings : DaemonEvent → Bool
  | .cli .setHelloSize .. | .cli .setRreqSize .. | .cli .setTrackingFactor .. => true
  | .cli .setPeriodicRreqInterval .. | .cli .sendRreq .. => true
  | .cli .. => false
  | _ => true

namespace Daemon

/-- The event of the node that an event of the daemon makes. -/
inductive Drives : DaemonEvent → NodeEvent → Prop
  | played {e : DaemonEvent} {ev : NodeEvent} (h : Plays e ev) : Drives e ev
  | sendRreq (argv : List String) (now : Timeval) (host : MacAddr) :
      Drives (.cli .sendRreq argv now) (.cliSendRreq host now)

theorem Drives.time {e : DaemonEvent} {ev : NodeEvent} (h : Drives e ev) : ev.time = e.time := by
  cases h with
  | played h =>
    cases h with
    | mesh cb msg ha => exact congrArg some ha.now
    | _ => rfl
  | sendRreq argv now host => rfl

section
variable (H : CliHost) (L : Libdessert)

/-- What the node sends in the course of an event; the hold queue sends what it has kept on its own. -/
def sentByNode (d : Daemon) (e : DaemonEvent) : List Sent :=
  if d.ended then []
  else
    match e with
    | .gossip3 _ => []
    | e => (d.handle H L e).2

/-- The node takes the event `ev` and the daemon sends what the node sends, or the node takes none. -/
def Drawn (d : Daemon) (e : DaemonEvent) : Prop :=
  (∃ ev, Drives e ev ∧ (d.step H L e).node = d.node.step L ev ∧ d.sentByNode H L e = (d.node.handle L ev).2) ∨
    (d.step H L e).node = d.node ∧ d.sentByNode H L e = []

variable {H L} {d : Daemon}

/-- The same of what the daemon does when it has not ended. -/
theorem Drawn.of_handle {e : DaemonEvent} (hrun : d.ended = false) (hg : ∀ scheduled, e ≠ .gossip3 scheduled)
    (h : (∃ ev, Drives e ev ∧ (d.handle H L e).1.node = d.node.step L ev ∧
      (d.handle H L e).2 = (d.node.handle L ev).2) ∨
      (d.handle H L e).1.node = d.node ∧ (d.handle H L e).2 = []) : d.Drawn H L e := by
  have hstep : d.step H L e = (d.handle H L e).1 := by simp only [step, hrun, Bool.false_eq_true, if_false]
  have hsent : d.sentByNode H L e = (d.handle H L e).2 := by
    simp only [sentByNode, hrun, Bool.false_eq_true, if_false]
  unfold Drawn
  rw [hstep, hsent]
  exact h

/-- A callback is that of the node, unless the tracker ends it. -/
theorem callback_drawn (d : Daemon) (cb : MeshCb) (rx : MeshRx) (msg : DessertMsg) :
    (∃ ev, Drives (.mesh cb rx msg) ev ∧ (d.callback L cb rx msg).1.node = d.node.step L ev ∧
      (d.callback L cb rx msg).2.1 = (d.node.handle L ev).2) ∨
      (d.callback L cb rx msg).1.node = d.node ∧ (d.callback L cb rx msg).2.1 = [] := by
  unfold callback
  cases hb : d.tracker.bind (d.answers cb rx msg) with
  | error f => exact .inr ⟨rfl, rfl⟩
  | ok r =>
    obtain ⟨nt, env⟩ := r
    cases ht : d.tracker with
    | error f =>
      rw [ht] at hb
      cases hb
    | ok nt₀ =>
      rw [ht] at hb
      have hag := answers_agree hb
      have hag' : Agrees rx { env with gossip := (d.holdAnswers cb env rx.coin msg).2 } :=
        ⟨hag.lflags, hag.iface, hag.now⟩
      exact .inl ⟨_, .played (.mesh cb msg hag'), rfl, rfl⟩

/-- A command that keeps the settings of the node leaves it alone, or sends a RREQ. -/
theorem cli_drawn (d : Daemon) {command : CliCommand} {argv : List String} {now : Timeval}
    (hk : (DaemonEvent.cli command argv now).keepsSettings = true) :
    (∃ ev, Drives (.cli command argv now) ev ∧ (d.cli H command argv now).1.node = d.node.step L ev ∧
      (d.cli H command argv now).2.1 = (d.node.handle L ev).2) ∨
      (d.cli H command argv now).1.node = d.node ∧ (d.cli H command argv now).2.1 = [] := by
  cases command with
  | setHelloSize =>
    refine .inr ⟨?_, rfl⟩
    simp only [cli, cliSetHelloSize]
    split <;> rfl
  | setRreqSize =>
    refine .inr ⟨?_, rfl⟩
    simp only [cli, cliSetRreqSize]
    split <;> rfl
  | setTrackingFactor =>
    refine .inr ⟨?_, rfl⟩
    simp only [cli, cliSetTrackingFactor]
    split
    · split <;> rfl
    · rfl
  | setPeriodicRreqInterval =>
    refine .inr ⟨?_, rfl⟩
    simp only [cli, cliSetPeriodicRreqInterval]
    split
    · split <;> rfl
    · rfl
  | sendRreq =>
    have hcli : d.cli H .sendRreq argv now = d.cliSendRreq H argv now := rfl
    rw [hcli]
    unfold cliSendRreq
    split
    · split
      · exact .inr ⟨rfl, rfl⟩
      · rename_i host _
        exact .inl ⟨_, .sendRreq _ now host, rfl, rfl⟩
    · exact .inr ⟨rfl, rfl⟩
  | _ => cases hk

theorem drawn {e : DaemonEvent} (hk : e.keepsSettings = true) : d.Drawn H L e := by
  cases hrun : d.ended with
  | true => exact .inr ⟨by rw [step, hrun, if_pos rfl], by simp only [sentByNode, hrun, if_true]⟩
  | false =>
    cases e with
    | mesh cb rx msg => exact .of_handle hrun (fun _ => DaemonEvent.noConfusion) (d.callback_drawn cb rx msg)
    | sysRx l25Shost l25Dhost payload now =>
      refine .of_handle hrun (fun _ => DaemonEvent.noConfusion) (.inl ?_)
      exact ⟨_, .played (.sysRx l25Shost l25Dhost payload now), rfl, rfl⟩
    | sendHello =>
      refine .of_handle hrun (fun _ => DaemonEvent.noConfusion) ?_
      simp only [handle]
      split
      · exact .inr ⟨rfl, rfl⟩
      · exact .inl ⟨_, .played .sendHello, rfl, rfl⟩
    | sendRreq now =>
      refine .of_handle hrun (fun _ => DaemonEvent.noConfusion) ?_
      simp only [handle]
      split
      · exact .inr ⟨rfl, rfl⟩
      · exact .inl ⟨_, .played (.sendRreq now), rfl, rfl⟩
    | cleanupDatabase now =>
      refine .of_handle hrun (fun _ => DaemonEvent.noConfusion) ?_
      simp only [handle, cleanup]
      split
      · exact .inr ⟨rfl, rfl⟩
      · exact .inl ⟨_, .played (.cleanupDatabase now), rfl, rfl⟩
    | scexecute now avgRssi =>
      refine .of_handle hrun (fun _ => DaemonEvent.noConfusion) (.inl ?_)
      exact ⟨_, .played (.scexecute now avgRssi), rfl, rfl⟩
    | gossip3 scheduled =>
      refine .inr ⟨?_, ?_⟩
      · simp only [step, hrun, Bool.false_eq_true, if_false, handle]
        split <;> rfl
      · rw [sentByNode, hrun]
        rfl
    | cli command argv now =>
      exact .of_handle hrun (fun _ => DaemonEvent.noConfusion) (d.cli_drawn hk)

end

/-! ## Runs -/

section
variable (H : CliHost) (L : Libdessert)

/-- What the node has sent in a run. -/
def sentInRun : Daemon → List DaemonEvent → List Sent
  | _, [] => []
  | d, e :: es => d.sentByNode H L e ++ sentInRun (d.step H L e) es

end

end Daemon

def Node.sentInRun (L : Libdessert) : Node → List NodeEvent → List Sent
  | _, [] => []
  | n, ev :: evs => (n.handle L ev).2 ++ sentInRun L (n.step L ev) evs

namespace Daemon

theorem exec_draws (H : CliHost) (L : Libdessert) (d : Daemon) {es : List DaemonEvent}
    (hk : ∀ e ∈ es, e.keepsSettings = true) :
    ∃ drawn evs, drawn.Sublist es ∧ List.Forall₂ Drives drawn evs ∧
      (Runs.exec (step H L) d es).node = Runs.exec (Node.step L) d.node evs ∧
      d.sentInRun H L es = d.node.sentInRun L evs := by
  induction es generalizing d with
  | nil => exact ⟨[], [], .slnil, .nil, rfl, rfl⟩
  | cons e es ih =>
    have hrest : ∀ e' ∈ es, e'.keepsSettings = true := fun e' he => hk e' (List.mem_cons_of_mem e he)
    obtain ⟨es', evs, hsub, hdrives, hnode, hsent⟩ := ih (d.step H L e) hrest
    rcases @drawn H L d e (hk e List.mem_cons_self) with ⟨ev, hd, hn, hs⟩ | ⟨hn, hs⟩
    · refine ⟨e :: es', ev :: evs, hsub.cons_cons e, .cons hd hdrives, ?_, ?_⟩
      · rw [Runs.exec, Runs.exec, hnode, hn]
      · rw [sentInRun, Node.sentInRun, hs, hsent, hn]
    · refine ⟨es', evs, hsub.cons e, hdrives, ?_, ?_⟩
      · rw [Runs.exec, hnode, hn]
      · rw [sentInRun, hs, hsent, hn, List.nil_append]

theorem Drives.times {es : List DaemonEvent} {evs : List NodeEvent} (h : List.Forall₂ Drives es evs) :
    evs.filterMap NodeEvent.time = es.filterMap DaemonEvent.time := by
  induction h with
  | nil => rfl
  | cons hd _ ih => rw [List.filterMap_cons, List.filterMap_cons, hd.time, ih]

/-- As long as no command sets anything of the node, what the daemon does is a run of a node from its start: the
node takes the events of the daemon in their order, save those that do not get to it, and at their times; it comes
to the same state and sends the same frames. -/
theorem run_refines (H : CliHost) (L : Libdessert) (l25Defsrc : MacAddr) (meshiflist : List Meshif)
    {es : List DaemonEvent} (hk : ∀ e ∈ es, e.keepsSettings = true) :
    ∃ drawn evs, drawn.Sublist es ∧ List.Forall₂ Drives drawn evs ∧
      (evs.filterMap NodeEvent.time).Sublist (es.filterMap DaemonEvent.time) ∧
      (Runs.exec (step H L) (start l25Defsrc meshiflist) es).node =
        Runs.exec (Node.step L) (aodvDbInit {} l25Defsrc meshiflist) evs ∧
      (start l25Defsrc meshiflist).sentInRun H L es = (aodvDbInit {} l25Defsrc meshiflist).sentInRun L evs := by
  obtain ⟨drawn, evs, hsub, hdrives, hnode, hsent⟩ := exec_draws H L (start l25Defsrc meshiflist) hk
  refine ⟨drawn, evs, hsub, hdrives, ?_, hnode, hsent⟩
  rw [Drives.times hdrives]
  exact hsub.filterMap DaemonEvent.time

/-- A RREQ is received and answered, one is sent on command, and the size of the HELLOs is set. -/
def underway : List DaemonEvent :=
  [.mesh .handleRreq (rxWlan 1) (rreqFrom 5 9 5 1 0), .cli .sendRreq ["00:00:00:00:00:07", "0"] 2,
    .cli .setHelloSize ["200"] 3, .gossip3 4, .sendHello]

def hostOfSeven : CliHost := { host64 with parseMac := fun s => if s = "00:00:00:00:00:07" then some 7 else none }

theorem run_refines_underway : ∃ drawn evs, drawn.Sublist underway ∧ List.Forall₂ Drives drawn evs ∧
    (evs.filterMap NodeEvent.time).Sublist [1, 2, 3] ∧
    (Runs.exec (step hostOfSeven roomy) (start 9 [wlan]) underway).node =
      Runs.exec (Node.step roomy) (aodvDbInit {} 9 [wlan]) evs ∧
    (start 9 [wlan]).sentInRun hostOfSeven roomy underway = (aodvDbInit {} 9 [wlan]).sentInRun roomy evs :=
  run_refines hostOfSeven roomy 9 [wlan] (by decide)

end Daemon

end DesAodv
