import Mathlib.Data.List.Pairwise
import DesAodv.Frames
import DesAodv.Runs

/-!
# The rate of route requests

The log counts the RREQs of the last second. `aodv_send_rreq_real` compares the
count with `RREQ_RATELIMIT` before it sends one more, and lets it be equal.
-/

namespace DesAodv

/-! ## What the log counts -/

/-- The log holds the events at `times`, in this order. -/
structure RateLog.Holds (log : RateLog) (times : List Timeval) : Prop where
  timeout : log.ts.purgeTimeout = msec 1000
  elements : log.ts.elements.map TimeslotElement.purgeTime = times.map fun t => msec 1000 + t
  objects : ∀ el ∈ log.ts.elements, el.object < log.pseudoPointer
  count : log.count.toNat = times.length

/-- The events of the second that ends at `now`. -/
def recent (now : Timeval) (times : List Timeval) : List Timeval := times.filter fun t => decide (now < msec 1000 + t)

theorem recent_recent {before now : Timeval} (h : before ≤ now) (times : List Timeval) :
    recent now (recent before times) = recent now times := by
  unfold recent
  rw [List.filter_filter]
  apply List.filter_congr
  intro t _
  rw [← Bool.decide_and]
  apply decide_eq_decide.mpr
  exact ⟨And.left, fun hn => ⟨hn, Nat.lt_of_le_of_lt h hn⟩⟩

theorem recent_concat (now : Timeval) (times : List Timeval) :
    recent now (times ++ [now]) = recent now times ++ [now] := by
  unfold recent
  rw [List.filter_append]
  apply congrArg
  apply List.filter_eq_self.mpr
  intro x hx
  rw [List.mem_singleton.mp hx, decide_eq_true_eq]
  exact Nat.lt_add_of_pos_left (by decide)

theorem foldl_decrementCounter (purged : List (TimeslotElement Nat)) {count : UInt32}
    (h : purged.length ≤ count.toNat) :
    (purged.foldl decrementCounter count).toNat = count.toNat - purged.length := by
  induction purged generalizing count with
  | nil => rfl
  | cons el els ih =>
    rw [List.length_cons] at h
    have h1 : (count - 1).toNat = count.toNat - 1 := by
      apply UInt32.toNat_sub_of_le
      rw [UInt32.le_iff_toNat_le]
      show 1 ≤ count.toNat
      omega
    have hd : decrementCounter count el = count - 1 := rfl
    rw [List.foldl_cons, hd, ih (by omega), h1, List.length_cons]
    omega

namespace RateLog

section
variable {log : RateLog} {times : List Timeval} (h : log.Holds times)
include h

theorem Holds.length_elements : log.ts.elements.length = times.length := by
  have hl := congrArg List.length h.elements
  rwa [List.length_map, List.length_map] at hl

theorem Holds.sorted (hs : times.Pairwise (· ≤ ·)) :
    log.ts.elements.Pairwise fun a b => a.purgeTime ≤ b.purgeTime := by
  have hm : (log.ts.elements.map TimeslotElement.purgeTime).Pairwise (· ≤ ·) := by
    rw [h.elements]
    exact hs.map _ fun a b hab => Nat.add_le_add_left hab _
  exact List.pairwise_map.mp hm

theorem Holds.count_recent (hs : times.Pairwise (· ≤ ·)) (now : Timeval) :
    (rateLogCount log now).1.Holds (recent now times) ∧
      (rateLogCount log now).2.toNat = (recent now times).length := by
  have hkept := purge_kept (h.sorted hs) now
  have hmap : (timeslotPurgeobjects log.ts now).1.elements.map TimeslotElement.purgeTime =
      (recent now times).map fun t => msec 1000 + t := by
    have hf : (log.ts.elements.filter fun el => !decide (el.purgeTime ≤ now)).map TimeslotElement.purgeTime =
        (log.ts.elements.map TimeslotElement.purgeTime).filter fun t => !decide (t ≤ now) := by
      rw [List.filter_map]
      rfl
    rw [hkept, hf, h.elements, List.filter_map]
    apply congrArg
    apply List.filter_congr
    intro t _
    simp only [Function.comp, ← decide_not, Nat.not_le]
  have hlen := congrArg List.length (purge_append log.ts now)
  rw [List.length_append, h.length_elements, ← @List.length_map _ _
    (timeslotPurgeobjects log.ts now).1.elements TimeslotElement.purgeTime, hmap, List.length_map] at hlen
  have hcount : (rateLogCount log now).2.toNat = (recent now times).length := by
    have hf := @foldl_decrementCounter (timeslotPurgeobjects log.ts now).2 log.count (by rw [h.count]; omega)
    rw [h.count] at hf
    have hc : (rateLogCount log now).2 = (timeslotPurgeobjects log.ts now).2.foldl decrementCounter log.count := rfl
    rw [hc, hf]
    omega
  refine ⟨⟨h.timeout, hmap, ?_, hcount⟩, hcount⟩
  intro el hel
  have hel' : el ∈ (timeslotPurgeobjects log.ts now).1.elements := hel
  rw [hkept] at hel'
  exact h.objects el (List.mem_of_mem_filter hel')

theorem Holds.put {now : Timeval} (hpast : ∀ t ∈ times, t ≤ now) (hnew : ∀ t ∈ times, now < msec 1000 + t)
    (hroom : times.length + 1 < 4294967296) : (rateLogPut log now now).Holds (times ++ [now]) := by
  have hmem : ∀ el ∈ log.ts.elements, ∃ t ∈ times, msec 1000 + t = el.purgeTime := by
    intro el hel
    have hm := List.mem_map_of_mem (f := TimeslotElement.purgeTime) hel
    rw [h.elements] at hm
    exact List.mem_map.mp hm
  have hadd : timeslotAddobject log.ts now now log.pseudoPointer =
      ({ log.ts with
          elements := log.ts.elements ++ [{ purgeTime := msec 1000 + now, object := log.pseudoPointer }] }, []) := by
    unfold timeslotAddobject
    rw [h.timeout]
    apply add_last (fun el hel => Nat.ne_of_lt (h.objects el hel))
    · intro el hel
      obtain ⟨t, ht, hpt⟩ := hmem el hel
      rw [← hpt]
      exact Nat.add_le_add_left (hpast t ht) _
    · intro el hel
      obtain ⟨t, ht, hpt⟩ := hmem el hel
      rw [← hpt]
      exact hnew t ht
    · decide
  have hput : rateLogPut log now now =
      { ts := { log.ts with
          elements := log.ts.elements ++ [{ purgeTime := msec 1000 + now, object := log.pseudoPointer }] }
        count := log.count + 1
        pseudoPointer := log.pseudoPointer + 1 } := by
    unfold rateLogPut
    rw [hadd]
    rfl
  rw [hput]
  refine ⟨h.timeout, ?_, ?_, ?_⟩
  · show (log.ts.elements ++ _).map _ = _
    rw [List.map_append, h.elements, List.map_append]
    rfl
  · exact Keyed.allocated_concat h.objects rfl
  · have hc : (log.count + 1).toNat = log.count.toNat + 1 := by
      rw [UInt32.toNat_add]
      apply Nat.mod_eq_of_lt
      rw [h.count]
      exact hroom
    show (log.count + 1).toNat = _
    rw [hc, h.count, List.length_append, List.length_singleton]

end

end RateLog

/-! ## One call -/

namespace Node

section
variable (n : Node) (now : Timeval)

/-- What a call does to the log: if there is something to send, the RREQs of the last second are counted,
and if there is room one more is sent. -/
inductive Calls (ready : Prop) : Node × List Sent → Prop
  | refused (n' : Node) (hready : ¬ ready) (h : n'.rreqLog = n.rreqLog) : Calls ready (n', [])
  | postponed (n' : Node) (hcount : (rateLogCount n.rreqLog now).2 > rreqRatelimit)
      (h : n'.rreqLog = (rateLogCount n.rreqLog now).1) : Calls ready (n', [])
  | sent (n' : Node) (msg : DessertMsg) (hready : ready) (hcount : ¬ (rateLogCount n.rreqLog now).2 > rreqRatelimit)
      (h : n'.rreqLog = rateLogPut (rateLogCount n.rreqLog now).1 now now) : Calls ready (n', [.mesh msg none])

theorem reschedule_log (when : Timeval) (ptr : Nat) :
    (n.aodvPipelineRescheduleSeries when ptr).rreqLog = n.rreqLog := by
  obtain ⟨series, st, h⟩ := rescheduleSeries_eq n when ptr
  rw [h]

theorem delete_log (ptr : Nat) : (n.aodvPipelineDeleteSeries ptr).rreqLog = n.rreqLog := by
  obtain ⟨series, st, h⟩ := deleteSeries_eq n ptr
  rw [h]

theorem sendRreqReal_calls (ptr : Nat) :
    n.Calls now (n.seriesDeref ptr ≠ none) (n.aodvSendRreqReal ptr now) := by
  unfold aodvSendRreqReal
  split
  · rename_i hnone
    exact .refused _ (not_not_intro hnone) rfl
  · rename_i series hs
    have hready : n.seriesDeref ptr ≠ none := by
      rw [hs]
      exact Option.some_ne_none _
    simp only
    by_cases hc : (aodvDbRlGetrreqcount n.rreqLog now).2 > rreqRatelimit
    · rw [if_pos hc]
      exact .postponed _ hc (reschedule_log _ _ _)
    · rw [if_neg hc]
      by_cases hr : series.retries ≥ rreqRetries
      · rw [if_pos hr]
        exact .sent _ _ hready hc (delete_log _ _)
      · rw [if_neg hr]
        exact .sent _ _ hready hc (reschedule_log _ _ _)

theorem newSeries_calls (msg : DessertMsg) :
    (n.findSeriesUnlocked msg.l25Dhost ≠ none ∧ n.aodvPipelineNewSeries msg = (n, none)) ∨
      (n.findSeriesUnlocked msg.l25Dhost = none ∧ ∃ n' ptr, n.aodvPipelineNewSeries msg = (n', some ptr) ∧
        n'.rreqLog = n.rreqLog ∧ n'.seriesDeref ptr ≠ none) := by
  unfold aodvPipelineNewSeries
  split
  · rename_i hs
    left
    rw [hs]
    exact ⟨Option.some_ne_none _, rfl⟩
  · rename_i hs
    refine .inr ⟨hs, _, _, rfl, rfl, ?_⟩
    intro hnone
    exact Keyed.lookup_eq_none.mp hnone _ (List.mem_append_right _ (List.mem_singleton_self _)) rfl

theorem sendRreq_calls (host : MacAddr) :
    n.Calls now (n.findSeriesUnlocked host = none) (n.aodvSendRreq host now) := by
  simp only [aodvSendRreq]
  rcases newSeries_calls n (n.createRreq host (if n.cfg.ringSearch then ttlStart else ttlMax)
    n.cfg.metricStartvalue) with ⟨hs, hn⟩ | ⟨hs, n', ptr, hn, hlog, hready⟩
  · rw [hn]
    exact .refused n hs rfl
  · rw [hn]
    have hc := sendRreqReal_calls n' now ptr
    simp only
    cases hr : n'.aodvSendRreqReal ptr now with
    | mk n'' sent =>
      rw [hr] at hc
      cases hc with
      | refused _ hnone _ => exact absurd hready hnone
      | postponed _ hcount h =>
        rw [hlog] at hcount h
        exact .postponed n'' hcount h
      | sent _ msg _ hcount h =>
        rw [hlog] at hcount h
        exact .sent n'' msg hs hcount h

end

end Node

/-! ## Sequences of calls -/

/-- A call of `aodv_send_rreq` or `aodv_send_rreq_repeat`, some time after the call before, or something
else the daemon does between two calls, which may change everything but the log. -/
inductive RreqCall
  | sendRreq (host : MacAddr) (wait : Timeval)
  | sendRreqRepeat (ptr : Nat) (wait : Timeval)
  | elsewhere (n : Node)

/-- The time of the last call, and the times of the RREQs sent. -/
structure RreqHistory where
  node : Node
  clock : Timeval
  sent : List Timeval

namespace RreqHistory

def start (n : Node) (clock : Timeval) : RreqHistory :=
  { node := { n with rreqLog := rateLogInit }, clock, sent := [] }

def called (hist : RreqHistory) (now : Timeval) (r : Node × List Sent) : RreqHistory :=
  { node := r.1, clock := now, sent := hist.sent ++ r.2.map fun _ => now }

def step (hist : RreqHistory) : RreqCall → RreqHistory
  | .sendRreq host wait => hist.called (hist.clock + wait) (hist.node.aodvSendRreq host (hist.clock + wait))
  | .sendRreqRepeat ptr wait =>
    hist.called (hist.clock + wait) (hist.node.aodvSendRreqRepeat ptr (hist.clock + wait))
  | .elsewhere n => { hist with node := { n with rreqLog := hist.node.rreqLog } }

/-- The RREQs sent in the second that begins at `t`. -/
def window (t : Timeval) (sent : List Timeval) : List Timeval :=
  sent.filter fun x => decide (t ≤ x) && decide (x < t + msec 1000)

def WithinLimit (hist : RreqHistory) : Prop := ∀ t, (window t hist.sent).length ≤ rreqRatelimit.toNat

/-- The call has a RREQ to send: no series for the host is running, or the series is there. -/
def Ready (hist : RreqHistory) : RreqCall → Prop
  | .sendRreq host _ => hist.node.findSeriesUnlocked host = none
  | .sendRreqRepeat ptr _ => hist.node.seriesDeref ptr ≠ none
  | .elsewhere _ => False

def time (hist : RreqHistory) : RreqCall → Timeval
  | .sendRreq _ wait => hist.clock + wait
  | .sendRreqRepeat _ wait => hist.clock + wait
  | .elsewhere _ => hist.clock

/-- No RREQ is to be sent when as many as the limit allows were sent in the last second. -/
def NotAtLimit (hist : RreqHistory) (call : RreqCall) : Prop :=
  ¬ (hist.Ready call ∧ (recent (hist.time call) hist.sent).length = rreqRatelimit.toNat)

/-- The log holds the RREQs of a second that ended before now. -/
structure Logged (hist : RreqHistory) : Prop where
  log : ∃ counted ≤ hist.clock, hist.node.rreqLog.Holds (recent counted hist.sent) ∧
    (recent counted hist.sent).length ≤ rreqRatelimit.toNat + 1
  sorted : hist.sent.Pairwise (· ≤ ·)
  past : ∀ t ∈ hist.sent, t ≤ hist.clock

theorem window_append (t : Timeval) (sent : List Timeval) (now : Timeval) :
    window t (sent ++ [now]) = window t sent ++ window t [now] := List.filter_append ..

theorem window_le_recent {t now : Timeval} (h : now < t + msec 1000) (sent : List Timeval) :
    (window t sent).length ≤ (recent now sent).length := by
  apply List.Sublist.length_le
  apply List.monotone_filter_right
  intro x hx
  rw [Bool.and_eq_true, decide_eq_true_eq, decide_eq_true_eq] at hx
  rw [decide_eq_true_eq]
  calc now < t + msec 1000 := h
    _ ≤ x + msec 1000 := Nat.add_le_add_right hx.1 _
    _ = msec 1000 + x := Nat.add_comm _ _

theorem lt_add_iff_window {x now second : Nat} (h : x ≤ now) (_ : 0 < second) :
    now < second + x ↔ now + 1 - second ≤ x ∧ x < now + 1 - second + second := by
  omega

theorem recent_eq_window {now : Timeval} {sent : List Timeval} (hpast : ∀ t ∈ sent, t ≤ now) :
    recent now sent = window (now + 1 - msec 1000) sent := by
  apply List.filter_congr
  intro x hx
  rw [← Bool.decide_and]
  apply decide_eq_decide.mpr
  exact lt_add_iff_window (hpast x hx) (by decide)

theorem sorted_concat {now : Timeval} {times : List Timeval} (hs : times.Pairwise (· ≤ ·))
    (hpast : ∀ t ∈ times, t ≤ now) : (times ++ [now]).Pairwise (· ≤ ·) := by
  apply List.pairwise_append.mpr
  refine ⟨hs, List.pairwise_singleton _ _, ?_⟩
  intro a ha b hb
  rw [List.mem_singleton.mp hb]
  exact hpast a ha

theorem past_concat {now : Timeval} {times : List Timeval} (hpast : ∀ t ∈ times, t ≤ now) :
    ∀ t ∈ times ++ [now], t ≤ now := by
  intro t ht
  rcases List.mem_append.mp ht with ht | ht
  · exact hpast t ht
  · exact Nat.le_of_eq (List.mem_singleton.mp ht)

/-- One more event fits into every second if the last one has room for it. -/
theorem window_concat_le {limit : Nat} {now : Timeval} {times : List Timeval}
    (hP : ∀ t, (window t times).length ≤ limit) (hc : (recent now times).length < limit) (t : Timeval) :
    (window t (times ++ [now])).length ≤ limit := by
  rw [window_append, List.length_append]
  by_cases ht : now < t + msec 1000
  · have h1 := window_le_recent ht times
    have h2 : (window t [now]).length ≤ 1 := List.length_filter_le _ _
    omega
  · have hnone : window t [now] = [] := by
      apply List.filter_eq_nil_iff.mpr
      intro x hx
      rw [List.mem_singleton.mp hx, Bool.and_eq_true, decide_eq_true_eq, decide_eq_true_eq]
      exact fun h => ht h.2
    rw [hnone]
    exact hP t

/-- One more RREQ keeps to the limit exactly if there were fewer in the last second. -/
theorem withinLimit_sent {hist : RreqHistory} {now : Timeval} (hP : hist.WithinLimit)
    (hpast : ∀ t ∈ hist.sent, t ≤ now) (hc : (recent now hist.sent).length ≤ rreqRatelimit.toNat) (n : Node) :
    WithinLimit { node := n, clock := now, sent := hist.sent ++ [now] } ↔
      (recent now hist.sent).length ≠ rreqRatelimit.toNat := by
  constructor
  · intro hW he
    have h1 := hW (now + 1 - msec 1000)
    have hnow : window (now + 1 - msec 1000) [now] = [now] := by
      apply List.filter_eq_self.mpr
      intro x hx
      rw [List.mem_singleton.mp hx, Bool.and_eq_true, decide_eq_true_eq, decide_eq_true_eq]
      exact (lt_add_iff_window (Nat.le_refl now) (by decide)).mp (Nat.lt_add_of_pos_left (by decide))
    simp only [window_append] at h1
    rw [List.length_append, ← recent_eq_window hpast, hnow, he, List.length_singleton] at h1
    omega
  · intro hne
    exact window_concat_le hP (Nat.lt_of_le_of_ne hc hne)

theorem quiet {hist : RreqHistory} {now : Timeval} (hJ : hist.Logged) (hnow : hist.clock ≤ now) {n' : Node}
    (hlog : ∃ counted ≤ now, n'.rreqLog.Holds (recent counted hist.sent) ∧
      (recent counted hist.sent).length ≤ rreqRatelimit.toNat + 1) :
    (hist.called now (n', [])).Logged ∧ (hist.WithinLimit → (hist.called now (n', [])).WithinLimit) := by
  have hsent : (hist.called now (n', [])).sent = hist.sent := List.append_nil _
  refine ⟨⟨?_, ?_, ?_⟩, ?_⟩
  · rw [hsent]
    exact hlog
  · rw [hsent]
    exact hJ.sorted
  · rw [hsent]
    exact fun t ht => Nat.le_trans (hJ.past t ht) hnow
  · intro hP t
    rw [hsent]
    exact hP t

theorem called_spec {hist : RreqHistory} {now : Timeval} (hJ : hist.Logged) (hnow : hist.clock ≤ now)
    {ready : Prop} {r : Node × List Sent} (hr : hist.node.Calls now ready r) :
    (hist.called now r).Logged ∧ (hist.WithinLimit → ((hist.called now r).WithinLimit ↔
      ¬ (ready ∧ (recent now hist.sent).length = rreqRatelimit.toNat))) := by
  obtain ⟨counted, hle, hlog, hlen⟩ := hJ.log
  have hpast : ∀ t ∈ hist.sent, t ≤ now := fun t ht => Nat.le_trans (hJ.past t ht) hnow
  have hcounted : counted ≤ now := Nat.le_trans hle hnow
  obtain ⟨hlog', hcount⟩ := hlog.count_recent (hJ.sorted.filter _) now
  rw [recent_recent hcounted] at hlog' hcount
  cases hr with
  | refused n' hready h =>
    obtain ⟨hJ', hP'⟩ := quiet hJ hnow ⟨counted, hcounted, h ▸ hlog, hlen⟩
    exact ⟨hJ', fun hP => iff_of_true (hP' hP) fun hc => hready hc.1⟩
  | postponed n' hc h =>
    have hlen' : (recent now hist.sent).length ≤ rreqRatelimit.toNat + 1 := by
      rw [← recent_recent hcounted]
      exact Nat.le_trans (List.length_filter_le _ _) hlen
    obtain ⟨hJ', hP'⟩ := quiet hJ hnow ⟨now, Nat.le_refl _, h ▸ hlog', hlen'⟩
    refine ⟨hJ', fun hP => iff_of_true (hP' hP) fun he => ?_⟩
    rw [gt_iff_lt, UInt32.lt_iff_toNat_lt, hcount] at hc
    exact Nat.ne_of_gt hc he.2
  | sent n' msg hready hc h =>
    have hroom : (recent now hist.sent).length ≤ rreqRatelimit.toNat := by
      rw [gt_iff_lt, UInt32.lt_iff_toNat_lt, hcount] at hc
      omega
    have hsent : hist.sent ++ [Sent.mesh msg none].map (fun _ => now) = hist.sent ++ [now] := rfl
    have hlimit : rreqRatelimit.toNat = 10 := rfl
    refine ⟨⟨⟨now, Nat.le_refl _, ?_⟩, ?_, ?_⟩, ?_⟩
    · show n'.rreqLog.Holds _ ∧ _
      rw [h]
      simp only [called, hsent, recent_concat]
      constructor
      · apply hlog'.put
        · exact fun t ht => hpast t (List.mem_of_mem_filter ht)
        · exact fun t ht => of_decide_eq_true (List.mem_filter.mp ht).2
        · omega
      · rw [List.length_append, List.length_singleton]
        omega
    · simp only [called, hsent]
      exact sorted_concat hJ.sorted hpast
    · simp only [called, hsent]
      exact past_concat hpast
    · intro hP
      have hiff := withinLimit_sent hP hpast hroom n'
      exact hiff.trans ⟨fun hne h => hne h.2, fun hn he => hn ⟨hready, he⟩⟩

/-- One call: the log keeps counting, and the limit is kept exactly unless the call is made at it. -/
theorem step_spec (hist : RreqHistory) (call : RreqCall) (hJ : hist.Logged) :
    (hist.step call).Logged ∧
      (hist.WithinLimit → ((hist.step call).WithinLimit ↔ hist.NotAtLimit call)) := by
  cases call with
  | elsewhere n => exact ⟨⟨hJ.log, hJ.sorted, hJ.past⟩, fun hP => iff_of_true hP fun h => h.1⟩
  | sendRreq host wait => exact called_spec hJ (Nat.le_add_right _ _) (Node.sendRreq_calls _ _ host)
  | sendRreqRepeat ptr wait => exact called_spec hJ (Nat.le_add_right _ _) (Node.sendRreqReal_calls _ _ ptr)

theorem start_logged (n : Node) (clock : Timeval) : (start n clock).Logged where
  log := ⟨clock, Nat.le_refl _, ⟨rfl, rfl, List.forall_mem_nil _, rfl⟩, Nat.zero_le _⟩
  sorted := List.Pairwise.nil
  past := List.forall_mem_nil _

/-- Every second has at most `RREQ_RATELIMIT` RREQs exactly if no call with a RREQ to send is made when
that many were sent in the second before it. -/
theorem limit_kept_iff (n : Node) (clock : Timeval) (calls : List RreqCall) :
    Runs.Throughout step WithinLimit (start n clock) calls ↔
      Runs.Always step NotAtLimit (start n clock) calls := by
  apply Runs.throughout_iff_always ?_ ?_ (start_logged n clock)
  · intro t
    exact Nat.zero_le _
  · exact fun hist call hJ => (step_spec hist call hJ).1
  · exact fun hist call hJ => (step_spec hist call hJ).2

def elevenHosts : List RreqCall := (List.range 11).map fun k => .sendRreq (BitVec.ofNat 48 (k + 1)) 0

/-- The eleventh RREQ is sent although the log counts ten. -/
theorem limit_exceeded :
    ¬ Runs.Throughout step WithinLimit (start (aodvDbInit {} 0xA0 []) 0) elevenHosts := by
  intro h
  have hall := Runs.throughout_iff.mp h elevenHosts [] (List.append_nil _).symm
  have hsent : (Runs.exec step (start (aodvDbInit {} 0xA0 []) 0) elevenHosts).sent = List.replicate 11 0 := by
    decide
  have h0 := hall 0
  rw [hsent] at h0
  revert h0
  decide

end RreqHistory

end DesAodv
