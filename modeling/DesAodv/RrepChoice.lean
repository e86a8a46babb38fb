import Mathlib
import DesAodv.NodeSteps

/-!
# Which RREP is used

`aodv_db_rt_capt_rrep` refuses a RREP whose sequence number is behind that of a
known route, and uses every other one, also one with the same number and a worse
metric. A sequence of calls therefore ends with the first best RREP exactly if no
call meets a route with its own number and a metric that is not worse.
-/

namespace DesAodv

/-- The arguments of `aodv_db_rt_capt_rrep` but for the destination. -/
structure RrepCall where
  nextHop : MacAddr
  iface : Meshif
  seq : UInt32
  metric : Metric
  hopCount : UInt8
  now : Timeval
  deriving DecidableEq, Repr

namespace RrepCall

def call (host : MacAddr) (n : Node) (c : RrepCall) : Node × Bool :=
  n.captRrep host c.nextHop c.iface c.seq c.metric c.hopCount c.now c.now

def run (host : MacAddr) (n : Node) (c : RrepCall) : Node := (c.call host n).1

/-- The entry holds what the RREP says. -/
def Held (c : RrepCall) (e : RtEntry) : Prop :=
  e.nextHop = c.nextHop ∧ e.outputIface = some c.iface ∧ e.metric = c.metric ∧ e.hopCount = c.hopCount

instance (c : RrepCall) (e : RtEntry) : Decidable (c.Held e) := instDecidableAnd

/-- The call returns true and has installed its route. -/
def Installs (host : MacAddr) (n : Node) (c : RrepCall) : Prop :=
  (c.call host n).2 = true ∧ ∃ e ∈ (c.run host n).rt.find host, c.Held e

/-- The next hop is unknown, or the RREP is newer, or it is equally new and the stored metric worse. -/
def Better (host : MacAddr) (n : Node) (c : RrepCall) : Prop :=
  ∀ x ∈ n.rt.known host, 0 < hfCompU32 c.seq x.sequenceNumber ∨
    c.seq = x.sequenceNumber ∧ hfCompMetric n.cfg.metricType x.metric c.metric < 0

/-- No known route has the number of the RREP and a metric that is not worse. -/
def NoRival (host : MacAddr) (n : Node) (c : RrepCall) : Prop :=
  ∀ x ∈ n.rt.known host, c.seq = x.sequenceNumber → hfCompMetric n.cfg.metricType x.metric c.metric < 0

instance (host : MacAddr) (n : Node) (c : RrepCall) : Decidable (c.Installs host n) := instDecidableAnd

instance (host : MacAddr) (n : Node) (c : RrepCall) : Decidable (c.Better host n) :=
  inferInstanceAs (Decidable (∀ x ∈ n.rt.known host, _))

instance (host : MacAddr) (n : Node) (c : RrepCall) : Decidable (c.NoRival host n) :=
  inferInstanceAs (Decidable (∀ x ∈ n.rt.known host, _))

/-- The place of a RREP in the order by number and metric, for numbers in a window from `base`. -/
def rank (base : UInt32) (metricType : AodvMetric) (c : RrepCall) : Nat ×ₗ Int :=
  toLex (ahead c.seq base, metricRank metricType c.metric)

/-- Every call decides by number and metric, and the entry finally holds the first best RREP. -/
def KeepsBest (host : MacAddr) (base : UInt32) (n : Node) (calls : List RrepCall) : Prop :=
  Runs.Always (run host) (fun n c => c.Installs host n ↔ c.Better host n) n calls ∧
    ∃ e ∈ (Runs.exec (run host) n calls).rt.find host,
      ∃ c ∈ calls.argmax (rank base n.cfg.metricType), c.Held e ∧ e.sequenceNumber = c.seq

/-! ## One call -/

section
variable {host : MacAddr} {n : Node}

@[simp] theorem run_cfg (c : RrepCall) : (c.run host n).cfg = n.cfg := rfl

theorem exec_cfg (calls : List RrepCall) : (Runs.exec (run host) n calls).cfg = n.cfg :=
  Runs.exec_inv (I := fun n' : Node => n'.cfg = n.cfg) (fun _ c h => (run_cfg c).trans h) rfl calls

theorem mem_known {rt : Rt} {x : RtEntry} :
    x ∈ rt.known host ↔ rt.find host = some x ∧ x.flags.nextHopUnknown = false := by
  unfold Rt.known
  rw [Option.mem_def, Option.filter_eq_some_iff, Bool.not_eq_true']

/-- What one call does to the entry of its host: it is refused, or used. -/
theorem call_cases (hw : n.rt.WF) (c : RrepCall) :
    (∃ x ∈ n.rt.known host, 0 < hfCompU32 x.sequenceNumber c.seq ∧ (c.call host n).2 = false ∧
        (c.run host n).rt.find host = some x) ∨
      (∀ x ∈ n.rt.known host, ¬ 0 < hfCompU32 x.sequenceNumber c.seq) ∧ (c.call host n).2 = true ∧
        ∃ e, (c.run host n).rt.find host = some e ∧ c.Held e ∧ e.sequenceNumber = c.seq ∧
          e.flags.nextHopUnknown = false := by
  obtain ⟨-, hwr⟩ := hw.rrep host c.nextHop c.iface c.seq c.metric c.hopCount c.now
  have hres : (c.call host n).2 = rrepUsed (rtFindOrCreate n.rt host c.now c.now).2 c.seq :=
    Node.captRrep_used n host c.nextHop c.iface c.seq c.metric c.hopCount c.now
  have hfind := hwr.find host
  rw [if_pos rfl] at hfind
  by_cases hu : rrepUsed (rtFindOrCreate n.rt host c.now c.now).2 c.seq = true
  · right
    rw [if_pos hu] at hfind
    refine ⟨?_, hres.trans hu, _, hfind, ⟨rfl, rfl, rfl, rfl⟩, rfl, rfl⟩
    intro x hx hlt
    obtain ⟨hf, hk⟩ := mem_known.mp hx
    rw [Rt.findOrCreate_found hf] at hu
    simp [rrepUsed, hk, hlt] at hu
  · left
    rw [if_neg hu] at hfind
    rw [Bool.not_eq_true] at hu
    cases hf : n.rt.find host with
    | none =>
      rw [(hw.create hf c.now).2.1] at hu
      cases hu
    | some x =>
      rw [Rt.findOrCreate_found hf] at hu hfind hres
      simp only [rrepUsed, Bool.not_eq_false', Bool.and_eq_true, Bool.not_eq_true', decide_eq_true_eq] at hu
      exact ⟨x, mem_known.mpr ⟨hf, hu.1⟩, hu.2, hres.trans (by simp [rrepUsed, hu]), hfind⟩

variable {base : UInt32}

/-- The table has no route to the host, or one with a number in the window. -/
structure Ready (host : MacAddr) (base : UInt32) (n : Node) : Prop where
  wf : n.rt.WF
  window : ∀ x ∈ n.rt.known host, ahead x.sequenceNumber base < 2147483647

theorem Ready.run (hr : Ready host base n) {c : RrepCall} (hc : ahead c.seq base < 2147483647) :
    Ready host base (c.run host n) := by
  refine ⟨(hr.wf.rrep host c.nextHop c.iface c.seq c.metric c.hopCount c.now).1, ?_⟩
  intro y hy
  obtain ⟨hfy, -⟩ := mem_known.mp hy
  rcases call_cases hr.wf c with ⟨x, hx, -, -, hf⟩ | ⟨-, -, e, hf, -, hs, -⟩
  · obtain rfl : x = y := Option.some.inj (hf.symm.trans hfy)
    exact hr.window x hx
  · obtain rfl : e = y := Option.some.inj (hf.symm.trans hfy)
    rw [hs]
    exact hc

theorem Ready.exec (hr : Ready host base n) {calls : List RrepCall}
    (hc : ∀ c ∈ calls, ahead c.seq base < 2147483647) : Ready host base (Runs.exec (RrepCall.run host) n calls) := by
  induction calls generalizing n with
  | nil => exact hr
  | cons c calls ih =>
    exact ih (hr.run (hc c List.mem_cons_self)) fun d hd => hc d (List.mem_cons_of_mem c hd)

theorem decides_iff (hr : Ready host base n) {c : RrepCall} (hc : ahead c.seq base < 2147483647) :
    (c.Installs host n ↔ c.Better host n) ↔ c.NoRival host n := by
  rcases call_cases hr.wf c with ⟨x, hx, hlt, hres, -⟩ | ⟨hno, hres, e, hf, hh, -, -⟩
  · -- refused: the call neither installs nor is better, and has no rival
    have hwin := hfCompU32_window (hr.window x hx) hc
    have hne : c.seq ≠ x.sequenceNumber := fun h => by rw [h, hfCompU32_self] at hlt; exact absurd hlt (by decide)
    refine iff_of_true (iff_of_false ?_ ?_) ?_
    · intro hi
      exact Bool.false_ne_true (hres.symm.trans hi.1)
    · intro hb
      rcases hb x hx with hgt | heq
      · have hwin' := (hfCompU32_window hc (hr.window x hx)).mp hgt
        exact Nat.lt_asymm hwin' (hwin.mp hlt)
      · exact hne heq.1
    · intro y hy heq
      obtain rfl : x = y := Option.some.inj ((Option.mem_def.mp hx).symm.trans hy)
      exact absurd heq hne
  · -- used: the call installs, so it must be better than what was known
    have hi : c.Installs host n := ⟨hres, e, hf, hh⟩
    refine (iff_true_left hi).trans ?_
    constructor
    · intro hb x hx heq
      rcases hb x hx with hgt | hm
      · rw [heq, hfCompU32_self] at hgt
        exact absurd hgt (by decide)
      · exact hm.2
    · intro hn x hx
      by_cases heq : c.seq = x.sequenceNumber
      · exact .inr ⟨heq, hn x hx heq⟩
      · left
        rw [hfCompU32_window hc (hr.window x hx)]
        have hle := mt (hfCompU32_window (hr.window x hx) hc).mpr (hno x hx)
        exact Nat.lt_of_le_of_ne (Nat.not_lt.mp hle) fun h => heq (ahead_inj.mp h).symm

/-! ## A sequence of calls -/

/-- The entry holds the first best of the calls. -/
def HoldsBest (host : MacAddr) (base : UInt32) (metricType : AodvMetric) (calls : List RrepCall) (n : Node) : Prop :=
  ∃ e, e ∈ n.rt.known host ∧ ∃ c ∈ calls.argmax (rank base metricType), c.Held e ∧ e.sequenceNumber = c.seq

/-- A call without a rival takes the place of the best exactly if it is better. -/
theorem HoldsBest.run {calls : List RrepCall} (hb : HoldsBest host base n.cfg.metricType calls n)
    (hr : Ready host base n) {c : RrepCall} (hc : ahead c.seq base < 2147483647) (hn : c.NoRival host n) :
    HoldsBest host base n.cfg.metricType (calls ++ [c]) (c.run host n) := by
  obtain ⟨x, hx, b, hmax, hh, hs⟩ := hb
  have hmetric : x.metric = b.metric := hh.2.2.1
  have hmax' : calls.argmax (rank base n.cfg.metricType) = some b := hmax
  have hnew := hn x hx
  rw [hmetric, hs, hfCompMetric_rank] at hnew
  rcases call_cases hr.wf c with ⟨y, hy, hlt, -, hf⟩ | ⟨hno, -, e, hf, he, hse, hke⟩
  · obtain rfl : x = y := Option.some.inj ((Option.mem_def.mp hx).symm.trans hy)
    refine ⟨x, mem_known.mpr ⟨hf, (mem_known.mp hx).2⟩, b, ?_, hh, hs⟩
    rw [hfCompU32_window (hr.window x hx) hc, hs] at hlt
    -- the RREP is refused for its number alone, which decides the rank
    have hrank : ¬ rank base n.cfg.metricType b < rank base n.cfg.metricType c := by
      rw [rank, rank, Prod.Lex.toLex_lt_toLex]
      simp only
      omega
    rw [Option.mem_def, List.argmax_concat, hmax']
    exact if_neg hrank
  · refine ⟨e, mem_known.mpr ⟨hf, hke⟩, c, ?_, he, hse⟩
    have hle := mt (hfCompU32_window (hr.window x hx) hc).mpr (hno x hx)
    rw [hs] at hle
    -- its number is not behind; with an equal one it has the better metric, or it would be a rival
    have hrank : rank base n.cfg.metricType b < rank base n.cfg.metricType c := by
      rw [rank, rank, Prod.Lex.toLex_lt_toLex]
      simp only
      by_cases heq : ahead c.seq base = ahead b.seq base
      · have := hnew (ahead_inj.mp heq)
        omega
      · omega
    rw [Option.mem_def, List.argmax_concat, hmax']
    exact if_pos hrank

theorem holdsBest (hr : Ready host base n) (hnone : n.rt.find host = none) {calls : List RrepCall}
    (hne : calls ≠ []) (hwin : ∀ c ∈ calls, ahead c.seq base < 2147483647)
    (hn : Runs.Always (RrepCall.run host) (fun n c => c.NoRival host n) n calls) :
    HoldsBest host base n.cfg.metricType calls (Runs.exec (RrepCall.run host) n calls) := by
  induction calls using List.reverseRecOn with
  | nil => exact absurd rfl hne
  | append_singleton calls c ih =>
    obtain ⟨hn', hc⟩ := hn.concat
    have hwin' : ∀ d ∈ calls, ahead d.seq base < 2147483647 := fun d hd => hwin d (List.mem_append_left _ hd)
    have hcwin := hwin c (List.mem_append_right _ List.mem_cons_self)
    rw [Runs.exec_append]
    by_cases hcalls : calls = []
    · subst hcalls
      rcases call_cases hr.wf c with ⟨x, hx, -⟩ | ⟨-, -, e, hf, he, hs, hk⟩
      · rw [(mem_known.mp hx).1] at hnone
        cases hnone
      · exact ⟨e, mem_known.mpr ⟨hf, hk⟩, c, List.argmax_singleton, he, hs⟩
    · have hb := ih hcalls hwin' hn'
      have hcfg := @exec_cfg host n calls
      rw [← hcfg] at hb ⊢
      exact hb.run (hr.exec hwin') hcwin hc

/-- A sequence of calls for a host without an entry keeps the best RREP exactly if no call meets a route
with its own sequence number and a metric that is not worse. -/
theorem keepsBest_iff {L : Libdessert} (n : Node) (hn : Node.Reachable L n) (host : MacAddr)
    (hnone : n.rt.find host = none) (base : UInt32) (calls : List RrepCall) (hne : calls ≠ [])
    (hwin : ∀ c ∈ calls, ahead c.seq base < 2147483647) :
    KeepsBest host base n calls ↔ Runs.Always (run host) (fun n c => c.NoRival host n) n calls := by
  have hr : Ready host base n := by
    refine ⟨hn.wf, fun x hx => ?_⟩
    rw [(mem_known.mp hx).1] at hnone
    cases hnone
  have hdec : Runs.Always (run host) (fun n c => c.Installs host n ↔ c.Better host n) n calls ↔
      Runs.Always (run host) (fun n c => c.NoRival host n) n calls :=
    Runs.always_congr_along (fun _ _ hr hc => decides_iff hr hc) (fun _ _ hr hc _ => Ready.run hr hc) hr
      (Runs.always_of_mem hwin)
  constructor
  · intro hk
    exact hdec.mp hk.1
  · intro hc
    obtain ⟨e, he, c, hmax, hh, hs⟩ := holdsBest hr hnone hne hwin hc
    exact ⟨hdec.mpr hc, e, (mem_known.mp he).1, c, hmax, hh, hs⟩

end

theorem keepsBest_threeCalls :
    KeepsBest 9 4294967290 (aodvDbInit {} 1 [])
      [{ nextHop := 2, iface := ⟨0, 1⟩, seq := 4294967295, metric := 7, hopCount := 3, now := 10 },
        { nextHop := 3, iface := ⟨0, 1⟩, seq := 4294967295, metric := 4, hopCount := 2, now := 20 },
        { nextHop := 4, iface := ⟨0, 1⟩, seq := 4294967294, metric := 1, hopCount := 1, now := 30 }] :=
  (@keepsBest_iff roomy (aodvDbInit {} 1 []) ⟨{}, 1, [], [], rfl⟩ 9 rfl 4294967290 _ (List.cons_ne_nil _ _)
    (by decide)).mpr (by decide)

/-- An equally new RREP with a worse metric takes the place of the best one. -/
theorem not_keepsBest_worseMetric :
    ¬ KeepsBest 9 0 (aodvDbInit {} 1 [])
      [{ nextHop := 2, iface := ⟨0, 1⟩, seq := 5, metric := 1, hopCount := 1, now := 10 },
        { nextHop := 3, iface := ⟨0, 1⟩, seq := 5, metric := 9, hopCount := 9, now := 20 }] := by
  intro h
  exact absurd h.1 (by decide)

end RrepCall

/-! ## A refused RREP -/

namespace Node

/-- The tables are the same: the routing table with the next hop index and its timeslot, and the neighbor
table with its timeslot. -/
def SameTables (n n' : Node) : Prop := n'.rt = n.rt ∧ n'.nt = n.nt

/-- The signal history of the neighbor has not begun, or is not kept. -/
def NoHistory (n : Node) (nextHop : MacAddr) (iface : Meshif) : Prop :=
  0 < n.cfg.signalStrengthThreshold → ∀ e ∈ n.nt.entries, e.key = (nextHop, iface) → e.maxRssi = aodvSignalStrengthInit

theorem resetRssi_self_iff (nt : NeighborTable) (nextHop : MacAddr) (iface : Meshif) :
    dbNtResetRssi nt nextHop iface = nt ↔
      ∀ e ∈ nt.entries, e.key = (nextHop, iface) → e.maxRssi = aodvSignalStrengthInit := by
  have hentries : dbNtResetRssi nt nextHop iface = nt ↔ (dbNtResetRssi nt nextHop iface).entries = nt.entries := by
    refine ⟨congrArg NeighborTable.entries, fun h => ?_⟩
    exact congrArg (fun entries => ({ nt with entries } : NeighborTable)) h
  have hmap := @List.map_inj_left _ _ nt.entries
    (fun e => if e.key = (nextHop, iface) then { e with maxRssi := aodvSignalStrengthInit } else e) id
  rw [List.map_id] at hmap
  refine hentries.trans (hmap.trans (forall₂_congr fun e _ => ?_))
  by_cases hk : e.key = (nextHop, iface)
  · rw [if_pos hk]
    exact ⟨fun h _ => (congrArg NeighborEntry.maxRssi h).symm, fun h => by rw [← h hk]; rfl⟩
  · rw [if_neg hk]
    exact ⟨fun _ h => absurd h hk, fun _ => rfl⟩

theorem captRrep_refused {n : Node} {host nextHop : MacAddr} {iface : Meshif} {seq : UInt32} {metric : Metric}
    {hopCount : UInt8} {timestamp now : Timeval}
    (h : (n.captRrep host nextHop iface seq metric hopCount timestamp now).2 = false) :
    (n.captRrep host nextHop iface seq metric hopCount timestamp now).1.rt = n.rt := by
  simp only [captRrep, rtCaptRrep] at h ⊢
  split at h
  · rename_i hold
    rw [if_pos hold]
    cases hf : n.rt.find host with
    | some x => rw [Rt.findOrCreate_found hf]
    | none =>
      rw [Bool.and_eq_true] at hold
      simp only [rtFindOrCreate, hf] at hold
      cases hold.1
  · cases h

/-- A refused RREP changes nothing exactly if the signal history of the next hop has nothing to lose. -/
theorem refused_sameTables_iff (n : Node) (host nextHop : MacAddr) (iface : Meshif) (seq : UInt32) (metric : Metric)
    (hopCount : UInt8) (timestamp now : Timeval)
    (h : (n.captRrep host nextHop iface seq metric hopCount timestamp now).2 = false) :
    n.SameTables (n.captRrep host nextHop iface seq metric hopCount timestamp now).1 ↔
      n.NoHistory nextHop iface := by
  have hnt : (n.captRrep host nextHop iface seq metric hopCount timestamp now).1.nt =
      if 0 < n.cfg.signalStrengthThreshold then dbNtResetRssi n.nt nextHop iface else n.nt := rfl
  unfold SameTables NoHistory
  rw [and_iff_right (captRrep_refused h), hnt]
  by_cases ht : 0 < n.cfg.signalStrengthThreshold
  · rw [if_pos ht, resetRssi_self_iff]
    exact ⟨fun h _ => h, fun h => h ht⟩
  · rw [if_neg ht]
    exact iff_of_true rfl fun h => absurd h ht

/-- A route to 9 over the neighbor 2, whose best RSSI so far is -50 dBm. -/
def heard : Node :=
  let n := aodvDbInit { signalStrengthThreshold := 20 } 1 [⟨0, 1⟩]
  let nt := (dbNtCap2Dneigh n.cfg n.nt n.st 2 3 ⟨0, 1⟩ 10 10).1
  { (n.captRrep 9 2 ⟨0, 1⟩ 7 1 1 10 10).1 with nt := (dbNtUpdateRssi nt 2 ⟨0, 1⟩ (-50)).1 }

/-- Nothing is lost if the stale RREP comes from another neighbor. -/
theorem refused_sameTables_other : heard.SameTables (heard.captRrep 9 5 ⟨0, 1⟩ 5 1 1 20 20).1 :=
  (refused_sameTables_iff heard 9 5 ⟨0, 1⟩ 5 1 1 20 20 (by decide)).mpr fun _ => by decide

/-- The next hop loses its signal history to a stale RREP. -/
theorem not_sameTables_stale :
    (heard.captRrep 9 2 ⟨0, 1⟩ 5 1 1 20 20).2 = false ∧
      ¬ heard.SameTables (heard.captRrep 9 2 ⟨0, 1⟩ 5 1 1 20 20).1 := by
  refine ⟨by decide, fun h => ?_⟩
  exact absurd h.2 (by decide)

end Node

end DesAodv
