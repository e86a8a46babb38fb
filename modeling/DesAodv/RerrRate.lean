import DesAodv.LostNeighbor
import DesAodv.Originated
import DesAodv.RateLimit
import DesAodv.RerrMessages
import DesAodv.Responses

/-!
# The rate of route errors

Both callers of `aodv_create_rerr` count the RERRs of the last second before they
send one. A daemon keeps to the limit as long as the loop over the destinations
of a lost neighbor ends; a loop that does not end puts no bound on what it sends.
-/

namespace DesAodv

def Sent.isRerr : Sent → Bool
  | .mesh msg _ => decide (msg.kind = .rerr)
  | .sys _ => false

/-- The RERRs sent for an event which the daemon has made itself. `aodv_handle_rerr` passes on those of
others, and so does `aodv_forward` if there is a route. -/
def Node.rerrsMade (n : Node) (sent : List Sent) : NodeEvent → List Sent
  | .mesh .forward _ msg => if (n.routeTo msg.l25Dhost).isSome then [] else sent.filter Sent.isRerr
  | .mesh _ _ _ => []
  | _ => sent.filter Sent.isRerr

theorem Sent.Own.isRerr {l25 : MacAddr} {s : Sent} (h : s.Own l25) : s.isRerr = false := by
  obtain ⟨msg, rfl, ho⟩ := h
  simp [Sent.isRerr, ho.kind]

theorem filter_isRerr_own {l25 : MacAddr} {sent : List Sent} (h : ∀ s ∈ sent, s.Own l25) :
    sent.filter Sent.isRerr = [] := by
  apply List.filter_eq_nil_iff.mpr
  intro s hs
  rw [(h s hs).isRerr]
  exact Bool.false_ne_true

namespace Node

/-! ## One event -/

structure LogKept (n n' : Node) : Prop where
  rerrLog : n'.rerrLog = n.rerrLog
  hung : n'.hung = n.hung

theorem LogKept.of_eq {n n' m : Node} (h : n' = m) (hlog : m.rerrLog = n.rerrLog) (hh : m.hung = n.hung) :
    LogKept n n' := ⟨h ▸ hlog, h ▸ hh⟩

theorem SeriesWork.logKept {n n' : Node} (h : SeriesWork n n') : LogKept n n' := by
  obtain ⟨_, _, _, _, heq⟩ := h
  exact .of_eq heq rfl rfl

theorem RouteWork.logKept {n n' : Node} (h : RouteWork n n') : LogKept n n' := by
  obtain ⟨_, _, _, _, _, _, _, heq⟩ := h
  exact .of_eq heq rfl rfl

section
variable (L : Libdessert) (n : Node) (now : Timeval)

/-- What an event does to the log of RERRs, and the RERRs made for it. -/
inductive Makes : Node × List Sent → Prop
  | quiet {n' : Node} (h : LogKept n n') : Makes (n', [])
  | counted {n' : Node} (hlog : n'.rerrLog = (rateLogCount n.rerrLog now).1) (hh : n'.hung = n.hung) : Makes (n', [])
  | one {n' : Node} {s : Sent} (hcount : ¬ (rateLogCount n.rerrLog now).2 ≥ rerrRatelimit)
      (hlog : n'.rerrLog = rateLogPut (rateLogCount n.rerrLog now).1 now now) (hh : n'.hung = n.hung) : Makes (n', [s])
  | endless {n' : Node} {sent : List Sent} (hlen : L.maxMacSeqPerExt < sent.length) (hh : n'.hung = true) :
      Makes (n', sent)

variable {L n now}

theorem Makes.congr {n₀ : Node} {r : Node × List Sent} (h : Makes L n₀ now r) (hk : LogKept n n₀) :
    Makes L n now r := by
  obtain ⟨hlog, hh⟩ := hk
  cases h with
  | quiet h => exact .quiet ⟨h.rerrLog.trans hlog, h.hung.trans hh⟩
  | counted hl hh' => exact .counted (hlog ▸ hl) (hh'.trans hh)
  | one hc hl hh' => exact .one (hlog ▸ hc) (hlog ▸ hl) (hh'.trans hh)
  | endless hlen hh' => exact .endless hlen hh'

theorem rerrUnroutable_makes (env : RxEnv) (dhost : MacAddr) :
    Makes L n env.now ((n.rerrUnroutable L env dhost).1, (n.rerrUnroutable L env dhost).2.filter Sent.isRerr) := by
  unfold rerrUnroutable
  simp only
  split
  · exact .counted rfl rfl
  · rename_i hc
    split
    · exact .counted rfl rfl
    · rename_i rerrMsg rest hr
      have hk : (Sent.mesh rerrMsg none).isRerr = true := decide_eq_true (createRerr_kind L hr)
      rw [List.filter_cons_of_pos hk]
      exact .one hc rfl rfl

theorem forward_makes (env : RxEnv) (msg : DessertMsg) :
    Makes L n env.now ((n.aodvForward L env msg).1,
      n.rerrsMade (n.aodvForward L env msg).2.1 (.mesh .forward env msg)) := by
  have hnone : n.rerrsMade [] (.mesh .forward env msg) = [] := ite_self _
  unfold aodvForward
  split
  · rw [hnone]
    exact .quiet ⟨rfl, rfl⟩
  · split
    · rw [hnone]
      exact .quiet ⟨rfl, rfl⟩
    · simp only
      split
      · rw [hnone]
        exact .quiet ⟨rfl, rfl⟩
      · have hroute := getroute2dest_snd
          { n with ds := (aodvDbDsCaptDataSeq n.ds msg.l25Shost msg.u16 env.now env.now).1 }
          msg.l25Dhost env.now env.now aodvFlagsUnused
        split
        · rename_i n' nextHop outputIface hn
          have hsome : (n.routeTo msg.l25Dhost).isSome = true := by
            rw [hn] at hroute
            exact congrArg Option.isSome hroute.symm
          obtain rfl := (Prod.mk.inj hn).1
          simp only [rerrsMade, hsome, if_true]
          exact .quiet ⟨rfl, rfl⟩
        · rename_i n' hn
          have hunknown : (n.routeTo msg.l25Dhost).isSome = false := by
            rw [hn] at hroute
            exact congrArg Option.isSome hroute.symm
          obtain rfl := (Prod.mk.inj hn).1
          simp only [rerrsMade, hunknown, Bool.false_eq_true, if_false]
          exact (rerrUnroutable_makes env msg.l25Dhost).congr ⟨rfl, rfl⟩

/-- A list that does not fit is sent in every turn. -/
theorem length_sendRerrs_long {destlist : List AodvMacSeq} (h : L.maxMacSeqPerExt < destlist.length) (turns : Nat) :
    (n.sendRerrs L turns destlist).1.length = turns := by
  have hne : destlist ≠ [] := by
    intro he
    rw [he] at h
    exact Nat.not_lt_zero _ h
  induction turns with
  | zero => rfl
  | succ turns ih => simp only [sendRerrs_cons L n hne, addRerrdls_long L _ _ h, List.length_cons, ih]

theorem scSendOutRerr_makes (hroom : ∀ len ≤ L.maxExtDataLen, L.room n.rerrHeader len = true) (hh : n.hung = false)
    (etherAddr : MacAddr) : Makes L n now (n.scSendOutRerr L etherAddr now) := by
  unfold scSendOutRerr
  simp only
  split
  · exact .counted rfl rfl
  · rename_i hc
    split
    · exact .counted rfl rfl
    · split
      · exact .counted rfl rfl
      · rename_i destlist _
        generalize hnode : ({ n with
          rerrLog := (aodvDbRlGetrerrcount n.rerrLog now).1
          rt := (aodvDbRtGetDestlist (aodvDbRtInvOverNexthop n.rt etherAddr).1 etherAddr).1 } : Node) = node
        have hroom' : ∀ len ≤ L.maxExtDataLen, L.room node.rerrHeader len = true := by
          rw [← hnode]
          exact hroom
        by_cases hne : destlist = []
        · subst hne
          rw [List.length_nil, sendRerrs_nil]
          exact .counted rfl hh.symm
        · by_cases hlen : destlist.length ≤ L.maxMacSeqPerExt
          · obtain ⟨k, hk⟩ := Nat.exists_eq_succ_of_ne_zero (Nat.ne_of_gt (List.length_pos_iff.mpr hne))
            rw [hk, sendRerrs_short L node hroom' hne hlen k]
            exact .one hc rfl hh.symm
          · have hlong := Nat.not_le.mp hlen
            refine .endless ?_ ?_
            · rw [List.length_map, length_sendRerrs_long hlong]
              exact Nat.lt_succ_of_lt hlong
            · show (!(node.sendRerrs L (destlist.length + 1) destlist).2) = true
              rw [sendRerrs_long L node hlong]
              rfl

omit L in
theorem sys2rp_noRerr (hst : n.Stored) {msg : DessertMsg} (hm : msg.exts = []) :
    (n.aodvSys2rp msg now).2.filter Sent.isRerr = [] := by
  have hpacket : ∀ (msg' : DessertMsg) (iface : Option Meshif), msg'.exts = msg.exts →
      [Sent.mesh msg' iface].filter Sent.isRerr = [] := by
    intro msg' iface he
    simp [Sent.isRerr, kind_packet (he.trans hm)]
  unfold aodvSys2rp
  simp only
  split
  · rw [hpacket]
    rfl
  · split
    · rfl
    · split
      · rw [hpacket]
        rfl
      · rename_i n' hn
        have h' := getroute2dest_stored hst hn
        have hb : ({ n' with pb := pbPushPacket n'.pb msg.l25Dhost { msg with ttl := 255, u8 := 0 } now now } :
            Node).Stored := by
          refine ⟨pbPushPacket_spec h'.packets msg.l25Dhost ?_ now now, h'.series⟩
          exact hm
        exact filter_isRerr_own (sendRreq_stored hb msg.l25Dhost now).2

theorem scexecute_makes (hroom : ∀ len ≤ L.maxExtDataLen, L.room n.rerrHeader len = true) (hst : n.Stored)
    (hh : n.hung = false) (avgRssi : Int8) :
    Makes L n now
      ((n.aodvPeriodicScexecute L now avgRssi).1, (n.aodvPeriodicScexecute L now avgRssi).2.filter Sent.isRerr) := by
  rcases scexecute_cases L hst now avgRssi with ⟨rt, nt, st, hw, hown⟩ | ⟨st, etherAddr, heq⟩
  · rw [filter_isRerr_own hown]
    exact (Makes.quiet hw.logKept).congr ⟨rfl, rfl⟩
  · rw [heq]
    have hall : ∀ s ∈ (({ n with st } : Node).scSendOutRerr L etherAddr now).2, s.isRerr = true := by
      intro s hs
      obtain ⟨m, rfl, hm⟩ := scSendOutRerr_sent L _ _ _ s hs
      exact decide_eq_true hm
    rw [List.filter_eq_self.mpr hall]
    have hm := @scSendOutRerr_makes L { n with st } now hroom hh etherAddr
    exact hm.congr ⟨rfl, rfl⟩

theorem callback_logKept {cb : MeshCb} (hcb : cb ≠ .forward) (env : RxEnv) (msg : DessertMsg) :
    LogKept n (n.callback L cb env msg).1 := by
  cases cb with
  | dropErrors =>
    obtain ⟨nt, st, heq⟩ := dropErrors_eq n env msg
    exact .of_eq heq rfl rfl
  | handleHello =>
    obtain ⟨nt, st, heq⟩ := handleHello_eq n env msg
    exact .of_eq heq rfl rfl
  | handleRreq => exact (handleRreq_work n env msg).logKept
  | handleRerr =>
    obtain ⟨rt, heq⟩ := handleRerr_eq n env msg
    exact .of_eq heq rfl rfl
  | handleRrep => exact (handleRrep_work n env msg).logKept
  | forwardBroadcast =>
    obtain ⟨ds, heq⟩ := forwardBroadcast_eq n env msg
    exact .of_eq heq rfl rfl
  | forwardMulticast => exact ⟨rfl, rfl⟩
  | forward => exact absurd rfl hcb
  | localUnicast =>
    obtain ⟨ds, heq⟩ := localUnicast_eq n env msg
    exact .of_eq heq rfl rfl

theorem handle_makes (hroom : ∀ len ≤ L.maxExtDataLen, L.room n.rerrHeader len = true) (hst : n.Stored)
    {ev : NodeEvent} (hnow : ∀ t, ev.time = some t → t = now) :
    Makes L n now ((n.handle L ev).1, n.rerrsMade (n.handle L ev).2 ev) := by
  cases ev with
  | mesh cb env msg =>
    obtain rfl : env.now = now := hnow env.now rfl
    by_cases hcb : cb = .forward
    · subst hcb
      exact forward_makes env msg
    · have hnone : n.rerrsMade (n.handle L (.mesh cb env msg)).2 (.mesh cb env msg) = [] := by
        cases cb with
        | forward => exact absurd rfl hcb
        | _ => rfl
      rw [hnone]
      exact .quiet (callback_logKept hcb env msg)
  | sysRx l25Shost l25Dhost payload now' =>
    have hnone : n.rerrsMade (n.handle L (.sysRx l25Shost l25Dhost payload now')).2
        (.sysRx l25Shost l25Dhost payload now') = [] := sys2rp_noRerr hst rfl
    obtain ⟨_, _, _, _, _, _, _, heq⟩ := sys2rp_eq n (sysMsg l25Shost l25Dhost payload) now'
    rw [hnone]
    exact .quiet (.of_eq heq rfl rfl)
  | cliSendRreq host now' =>
    have hnone : n.rerrsMade (n.handle L (.cliSendRreq host now')).2 (.cliSendRreq host now') = [] :=
      filter_isRerr_own (sendRreq_stored hst host now').2
    rw [hnone]
    exact .quiet (sendRreq_work n host now').logKept
  | routingReset => exact .quiet ⟨rfl, rfl⟩
  | neighborReset => exact .quiet ⟨rfl, rfl⟩
  | sendHello =>
    simp only [handle]
    split
    · exact .quiet ⟨rfl, rfl⟩
    · exact .quiet ⟨rfl, rfl⟩
  | sendRreq now' =>
    simp only [handle]
    split
    · exact .quiet ⟨rfl, rfl⟩
    · have hnone : n.rerrsMade (n.aodvPeriodicSendRreq now').2 (.sendRreq now') = [] :=
        filter_isRerr_own (sendRreqs_stored hst _ now').2
      rw [hnone]
      exact .quiet (sendRreqs_work n _ now').logKept
  | cleanupDatabase now' =>
    simp only [handle]
    split
    · exact .quiet ⟨rfl, rfl⟩
    · exact .quiet ⟨rfl, rfl⟩
  | scexecute now' avgRssi =>
    obtain rfl : now' = now := hnow now' rfl
    simp only [handle]
    split
    · exact .quiet ⟨rfl, rfl⟩
    · rename_i hh
      exact scexecute_makes hroom hst (Bool.not_eq_true _ ▸ hh) avgRssi

end

end Node

/-! ## Runs -/

/-- The last reading of the clock, and the times at which the daemon has made a RERR. -/
structure RerrHistory where
  node : Node
  clock : Timeval
  made : List Timeval

namespace RerrHistory

def start (n : Node) : RerrHistory := { node := n, clock := 0, made := [] }

def after (hist : RerrHistory) (now : Timeval) (r : Node × List Sent) : RerrHistory :=
  { node := r.1, clock := now, made := hist.made ++ r.2.map fun _ => now }

def step (L : Libdessert) (hist : RerrHistory) (ev : NodeEvent) : RerrHistory :=
  let r := hist.node.handle L ev
  hist.after (ev.time.getD hist.clock) (r.1, hist.node.rerrsMade r.2 ev)

/-- The limit of `aodv_forward` and of the schedule is the same, and they share the log. -/
def WithinLimit (hist : RerrHistory) : Prop :=
  ∀ t, (RreqHistory.window t hist.made).length ≤ rerrRatelimit.toNat

/-- The log holds the RERRs of a second that ended before now. -/
structure Logged (hist : RerrHistory) : Prop where
  log : ∃ counted ≤ hist.clock, hist.node.rerrLog.Holds (recent counted hist.made)
  sorted : hist.made.Pairwise (· ≤ ·)
  past : ∀ t ∈ hist.made, t ≤ hist.clock

theorem start_logged (n : Node) (h : n.rerrLog = rateLogInit) : (start n).Logged where
  log := by
    refine ⟨0, Nat.le_refl _, ?_⟩
    show n.rerrLog.Holds []
    rw [h]
    exact ⟨rfl, rfl, List.forall_mem_nil _, rfl⟩
  sorted := List.Pairwise.nil
  past := List.forall_mem_nil _

section
variable {L : Libdessert} {hist : RerrHistory} {now : Timeval}

theorem after_nothing (n' : Node) : hist.after now (n', []) = { node := n', clock := now, made := hist.made } := by
  rw [after, List.map_nil, List.append_nil]

/-- The log keeps up with the RERRs made, and the limit is kept, as long as the loop ends. -/
theorem after_logged (hJ : hist.Logged) (hW : hist.WithinLimit) (hnow : hist.clock ≤ now) {r : Node × List Sent}
    (hm : Node.Makes L hist.node now r) (hh : r.1.hung = false) :
    (hist.after now r).Logged ∧ (hist.after now r).WithinLimit := by
  obtain ⟨counted, hle, hlog⟩ := hJ.log
  have hpast : ∀ t ∈ hist.made, t ≤ now := fun t ht => Nat.le_trans (hJ.past t ht) hnow
  have hcounted : counted ≤ now := Nat.le_trans hle hnow
  obtain ⟨hlog', hcount⟩ := hlog.count_recent (hJ.sorted.filter _) now
  rw [recent_recent hcounted] at hlog' hcount
  cases hm with
  | quiet h =>
    rw [after_nothing]
    exact ⟨⟨⟨counted, hcounted, h.rerrLog ▸ hlog⟩, hJ.sorted, hpast⟩, hW⟩
  | counted h =>
    rw [after_nothing]
    exact ⟨⟨⟨now, Nat.le_refl _, h ▸ hlog'⟩, hJ.sorted, hpast⟩, hW⟩
  | @one n' s hc h =>
    have hfew : (recent now hist.made).length < rerrRatelimit.toNat := by
      rw [ge_iff_le, UInt32.le_iff_toNat_le, hcount] at hc
      exact Nat.not_le.mp hc
    have hlimit : rerrRatelimit.toNat = 10 := rfl
    refine ⟨⟨⟨now, Nat.le_refl _, ?_⟩, ?_, ?_⟩, ?_⟩
    · show n'.rerrLog.Holds (recent now (hist.made ++ [now]))
      rw [h, recent_concat]
      apply hlog'.put
      · exact fun t ht => hpast t (List.mem_of_mem_filter ht)
      · exact fun t ht => of_decide_eq_true (List.mem_filter.mp ht).2
      · omega
    · exact RreqHistory.sorted_concat hJ.sorted hpast
    · exact RreqHistory.past_concat hpast
    · exact fun t => RreqHistory.window_concat_le hW hfew t
  | endless hlen he =>
    rw [he] at hh
    cases hh

/-- A loop that does not end sends more than the limit at once. -/
theorem after_endless (hmax : rerrRatelimit.toNat ≤ L.maxMacSeqPerExt) {r : Node × List Sent}
    (hm : Node.Makes L hist.node now r) (hh : hist.node.hung = false) (hW : (hist.after now r).WithinLimit) :
    r.1.hung = false := by
  cases hm with
  | quiet h => exact h.hung.trans hh
  | counted _ h => exact h.trans hh
  | one _ _ h => exact h.trans hh
  | @endless n' sent hlen he =>
    exfalso
    have hwindow : RreqHistory.window now (sent.map fun _ => now) = sent.map fun _ => now := by
      apply List.filter_eq_self.mpr
      intro x hx
      obtain ⟨s, -, rfl⟩ := List.mem_map.mp hx
      rw [Bool.and_eq_true, decide_eq_true_eq, decide_eq_true_eq]
      exact ⟨Nat.le_refl _, Nat.lt_add_of_pos_right (by decide)⟩
    have hall : (RreqHistory.window now (hist.made ++ sent.map fun _ => now)).length ≤ rerrRatelimit.toNat := hW now
    rw [RreqHistory.window, List.filter_append, List.length_append] at hall
    have hsent : (RreqHistory.window now (sent.map fun _ => now)).length = sent.length := by
      rw [hwindow, List.length_map]
    rw [RreqHistory.window] at hsent
    omega

theorem clock_always {evs : List NodeEvent} (hclock : (evs.filterMap NodeEvent.time).Pairwise (· ≤ ·))
    (h : ∀ t ∈ evs.filterMap NodeEvent.time, hist.clock ≤ t) :
    Runs.Always (step L) (fun hist ev => hist.clock ≤ ev.time.getD hist.clock) hist evs := by
  induction evs generalizing hist with
  | nil => trivial
  | cons ev evs ih =>
    cases ht : ev.time with
    | none =>
      rw [List.filterMap_cons_none ht] at hclock h
      refine ⟨?_, ih hclock ?_⟩
      · show hist.clock ≤ ev.time.getD hist.clock
        rw [ht]
        exact Nat.le_refl _
      · simp only [step, after, ht]
        exact h
    | some now =>
      rw [List.filterMap_cons_some ht] at hclock h
      obtain ⟨hfirst, hrest⟩ := List.pairwise_cons.mp hclock
      refine ⟨?_, ih hrest ?_⟩
      · show hist.clock ≤ ev.time.getD hist.clock
        rw [ht]
        exact h now List.mem_cons_self
      · simp only [step, after, ht]
        exact hfirst

/-- The daemon keeps the addresses its RERRs begin with, and has stored no RERR. -/
structure Rooted (header : DessertMsg) (n : Node) : Prop where
  header : n.rerrHeader = header
  stored : n.Stored

theorem Rooted.step {header : DessertMsg} {n : Node} (h : Rooted header n) (ev : NodeEvent) :
    Rooted header (n.step L ev) := by
  obtain ⟨-, -, hl, hi⟩ := Node.step_rt L n ev
  refine ⟨?_, Node.step_stored L h.stored ev⟩
  rw [← h.header, Node.rerrHeader, Node.rerrHeader, hl, hi]

end

section
variable (L : Libdessert) (cfg : Config) (l25Defsrc : MacAddr) (meshiflist : List Meshif)
  (hroom : ∀ len ≤ L.maxExtDataLen, L.room (aodvDbInit cfg l25Defsrc meshiflist).rerrHeader len = true)
include hroom

theorem step_makes {hist : RerrHistory}
    (h : Rooted (aodvDbInit cfg l25Defsrc meshiflist).rerrHeader hist.node) (ev : NodeEvent) :
    Node.Makes L hist.node (ev.time.getD hist.clock)
      (hist.node.step L ev, hist.node.rerrsMade (hist.node.handle L ev).2 ev) := by
  refine Node.handle_makes ?_ h.stored fun t ht => ?_
  · rw [h.header]
    exact hroom
  · rw [ht]
    rfl

/-- In every second at most `RERR_RATELIMIT` RERRs are made exactly if the loop over the destinations of a lost
neighbor always ends. -/
theorem kept_iff_loops_end (hmax : rerrRatelimit.toNat ≤ L.maxMacSeqPerExt) {evs : List NodeEvent}
    (hclock : (evs.filterMap NodeEvent.time).Pairwise (· ≤ ·)) :
    Runs.Throughout (step L) WithinLimit (start (aodvDbInit cfg l25Defsrc meshiflist)) evs ↔
      Runs.Throughout (Node.step L) (fun n => n.hung = false) (aodvDbInit cfg l25Defsrc meshiflist) evs := by
  have hinit : Rooted (aodvDbInit cfg l25Defsrc meshiflist).rerrHeader (aodvDbInit cfg l25Defsrc meshiflist) :=
    ⟨rfl, Node.init_stored _ _ _⟩
  have hstart : (start (aodvDbInit cfg l25Defsrc meshiflist)).WithinLimit := fun t => Nat.zero_le _
  have hproject : Runs.Throughout (step L) (fun hist => hist.node.hung = false)
      (start (aodvDbInit cfg l25Defsrc meshiflist)) evs ↔
      Runs.Throughout (Node.step L) (fun n => n.hung = false) (aodvDbInit cfg l25Defsrc meshiflist) evs :=
    @Runs.throughout_project _ _ (step L) _ (Node.step L) RerrHistory.node (fun _ _ => rfl)
      (fun n => n.hung = false) _ _
  rw [← hproject]
  constructor
  · intro h
    -- Up to the first loop that does not end the limit is kept, and that one sends too much at once.
    have hends : ∀ (hist : RerrHistory) (ev : NodeEvent),
        (Rooted (aodvDbInit cfg l25Defsrc meshiflist).rerrHeader hist.node ∧ hist.node.hung = false) →
        (hist.step L ev).WithinLimit →
        (Rooted (aodvDbInit cfg l25Defsrc meshiflist).rerrHeader (hist.step L ev).node ∧
          (hist.step L ev).node.hung = false) := by
      intro hist ev hi hW
      have hm := step_makes L cfg l25Defsrc meshiflist hroom hi.1 ev
      have hh := after_endless hmax hm hi.2 hW
      exact ⟨hi.1.step ev, hh⟩
    have hrun := Runs.throughout_of_always hends ⟨hinit, rfl⟩ (Runs.throughout_iff_always_step.mp h).2
    exact hrun.imp fun _ hi => hi.2
  · intro h
    have hkeeps : ∀ (hist : RerrHistory) (ev : NodeEvent),
        (Rooted (aodvDbInit cfg l25Defsrc meshiflist).rerrHeader hist.node ∧ hist.Logged ∧ hist.WithinLimit) →
        ((hist.step L ev).node.hung = false ∧ hist.clock ≤ ev.time.getD hist.clock) →
        (Rooted (aodvDbInit cfg l25Defsrc meshiflist).rerrHeader (hist.step L ev).node ∧
          (hist.step L ev).Logged ∧ (hist.step L ev).WithinLimit) := by
      intro hist ev hi hC
      obtain ⟨hs, hJ, hW⟩ := hi
      obtain ⟨hh, hnow⟩ := hC
      have hm := step_makes L cfg l25Defsrc meshiflist hroom hs ev
      exact ⟨hs.step ev, after_logged hJ hW hnow hm hh⟩
    have htimes := @clock_always L (start (aodvDbInit cfg l25Defsrc meshiflist)) evs hclock fun _ _ => Nat.zero_le _
    have hrun := Runs.throughout_of_always hkeeps ⟨hinit, start_logged _ rfl, hstart⟩
      ((Runs.throughout_iff_always_step.mp h).2.and htimes)
    exact hrun.imp fun _ hi => hi.2.2

end

/-- A neighbor is lost in the second in which ten packets cannot be forwarded. -/
def floodThenLoss : List NodeEvent := Node.neighborLostInFlood ++ [.scexecute 5500000 0]

theorem kept_in_flood :
    (Runs.exec (step roomy) (start (aodvDbInit {} 8 [wlan])) floodThenLoss).made = List.replicate 10 5500000 ∧
      Runs.Throughout (step roomy) WithinLimit (start (aodvDbInit {} 8 [wlan])) floodThenLoss :=
  ⟨by decide, (kept_iff_loops_end roomy {} 8 [wlan] (fun _ _ => rfl) (by decide) (by decide)).mpr
    (Runs.throughout_iff_always_step.mpr ⟨rfl, by decide⟩)⟩

end RerrHistory

end DesAodv
