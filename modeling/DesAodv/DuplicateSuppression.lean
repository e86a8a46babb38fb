import DesAodv.ReverseRoute

/-!
# Copies of one RREQ

After a copy of a RREQ has been accepted, later copies are to be old unless they
are better than all accepted before, and the entry of the originator is to hold
the best copy received. What the second capture has left in the entry decides
whether this is so: `Settled` entries judge copies by their metric alone.
-/

namespace DesAodv

/-- The metric `i` is strictly better than `j`. -/
def better (t : AodvMetric) (i j : Metric) : Prop := 0 < hfCompMetric t i j

instance (t : AodvMetric) (i j : Metric) : Decidable (better t i j) :=
  inferInstanceAs (Decidable (0 < hfCompMetric t i j))

theorem better_irrefl (t : AodvMetric) (i : Metric) : ¬ better t i i := by
  unfold better; rw [hfCompMetric_self]; exact Int.lt_irrefl 0

theorem better_of_better_of_not {t : AodvMetric} {i j k : Metric} (h : better t i j) (h' : ¬ better t k j) :
    better t i k := by
  have h1 := hfCompMetric_trans t i j k
  have h2 := hfCompMetric_antisymm t j k
  unfold better at *
  omega

theorem not_better_trans {t : AodvMetric} {i j k : Metric} (h : ¬ better t i j) (h' : ¬ better t j k) :
    ¬ better t i k := by
  have h1 := hfCompMetric_trans t i j k
  unfold better at *
  omega

theorem not_better_of_better {t : AodvMetric} {i j : Metric} (h : better t i j) : ¬ better t j i := by
  have h1 := hfCompMetric_antisymm t i j
  unfold better at *
  omega

theorem metric_hit_iff (t : AodvMetric) (i j : Metric) : hfCompMetric t i j < 0 ↔ better t j i := by
  have h1 := hfCompMetric_antisymm t i j
  unfold better
  omega

/-- A received copy of a RREQ: its previous hop, and its metric with the last link counted. -/
structure Copy where
  prevHop : MacAddr
  metric : Metric
  deriving DecidableEq, Repr

namespace Node

/-- The event is the reception of a copy of the RREQ of `originator` with number `seq`. -/
def copyOf (n : Node) (originator : MacAddr) (seq : UInt32) : NodeEvent → Option Copy
  | .mesh .handleRreq env msg =>
    match msg.getRreq with
    | some rreq =>
      if msg.l25Shost = originator ∧ rreq.originatorSequenceNumber = seq then
        some { prevHop := msg.l2Shost, metric := (n.countHop env msg).u16 }
      else none
    | none => none
  | _ => none

theorem copyOf_self (n : Node) (env : RxEnv) {msg : DessertMsg} {rreq : AodvMsgRreq}
    (hr : msg.getRreq = some rreq) :
    n.copyOf msg.l25Shost rreq.originatorSequenceNumber (.mesh .handleRreq env msg) =
      some { prevHop := msg.l2Shost, metric := (n.countHop env msg).u16 } := by
  simp only [copyOf, hr, and_self, if_true]

/-- The event is a RREQ that is not old. -/
def accepts (n : Node) : NodeEvent → Bool
  | .mesh .handleRreq env msg =>
    match msg.getRreq with
    | some rreq => decide (n.captResult env msg rreq ≠ .old)
    | none => false
  | _ => false

section
variable (L : Libdessert) (originator : MacAddr) (seq : UInt32)

/-- The entry of the originator is not purged, and the event is neither a RREQ of the originator with another
number nor a RREP for it. -/
def Undisturbed (n : Node) (ev : NodeEvent) : Prop :=
  (∀ e, n.rt.find originator = some e → ((n.step L ev).rt.deref e.ptr).isSome = true) ∧
    match ev with
    | .mesh .handleRreq _ msg =>
      ∀ rreq, msg.getRreq = some rreq → msg.l25Shost = originator → rreq.originatorSequenceNumber = seq
    | .mesh .handleRrep _ msg => msg.getRrep.isSome = true → msg.l25Shost ≠ originator
    | _ => True

end

end Node

/-- A daemon with the copies it has received and accepted so far. -/
structure Watched where
  node : Node
  received : List Copy
  accepted : List Copy

namespace Watched

section
variable (L : Libdessert) (originator : MacAddr) (seq : UInt32)

def step (w : Watched) (ev : NodeEvent) : Watched :=
  let copies := (w.node.copyOf originator seq ev).toList
  { node := w.node.step L ev
    received := copies ++ w.received
    accepted := (if w.node.accepts ev then copies else []) ++ w.accepted }

/-- A copy that is not better than every copy accepted before is old: neither answered nor rebroadcast. -/
def Suppressed (w : Watched) (ev : NodeEvent) : Prop :=
  ∀ c, w.node.copyOf originator seq ev = some c →
    (∃ a ∈ w.accepted, ¬ better w.node.cfg.metricType c.metric a.metric) →
    w.node.accepts ev = false ∧ (w.node.handle L ev).2 = []

/-- The entry of the originator holds a best copy received. -/
def BestHeld (w : Watched) : Prop :=
  ∃ e, w.node.rt.find originator = some e ∧ ∃ c ∈ w.received, e.nextHop = c.prevHop ∧ e.metric = c.metric ∧
    ∀ c' ∈ w.received, ¬ better w.node.cfg.metricType c'.metric c.metric

/-- The entry judges further copies by their metric alone: it has kept their number, or there is nothing
better than its metric. -/
def Settled (t : AodvMetric) (e : RtEntry) : Prop :=
  e.sequenceNumber = seq ∧ e.flags.nextHopUnknown = false ∧ (seq = 0 ∨ 0 < hfCompU32 seq 0) ∨
    e.sequenceNumber = 0 ∧ 0 < hfCompU32 0 seq ∧ ∀ m, ¬ better t m e.metric

/-- What copies leave behind: the entry holds one of them, and no copy is better. -/
structure Inv (w : Watched) : Prop where
  wf : w.node.rt.WF
  accepted : ∀ a ∈ w.accepted, a ∈ w.received
  held : ∃ e, w.node.rt.find originator = some e ∧ Settled seq w.node.cfg.metricType e ∧
    ∃ c ∈ w.received, e.nextHop = c.prevHop ∧ e.metric = c.metric ∧
      ∀ c' ∈ w.received, ¬ better w.node.cfg.metricType c'.metric c.metric

end

section
variable {L : Libdessert} {originator : MacAddr} {seq : UInt32} {t : AodvMetric}

theorem Settled.old {e : RtEntry} (h : Settled seq t e) {m : Metric} (hm : ¬ better t m e.metric) :
    rreqResult t e seq m = .old := by
  have hm' : ¬ hfCompMetric t e.metric m < 0 := fun h => hm ((metric_hit_iff t e.metric m).mp h)
  unfold rreqResult
  rw [if_neg fun h => hm' h.2]
  apply if_neg
  rcases h with ⟨hs, -, -⟩ | ⟨hs, hb, -⟩
  · rw [hs, hfCompU32_self]; exact Int.lt_irrefl 0
  · rw [hs]; omega

theorem Settled.new {e : RtEntry} (h : Settled seq t e) {m : Metric} (hm : better t m e.metric) :
    rreqResult t e seq m ≠ .old := by
  rcases h with ⟨hs, -, -⟩ | ⟨-, -, hb⟩
  · unfold rreqResult
    rw [if_pos ⟨by rw [hs, hfCompU32_self], (metric_hit_iff t e.metric m).mpr hm⟩]
    intro h; cases h
  · exact absurd hm (hb m)

theorem Settled.after {e : RtEntry} (h : Settled seq t e) {m : Metric} (hm : better t m e.metric) (p : MacAddr)
    (i : Meshif) (hops : UInt8) : Settled seq t (e.afterRreq p i seq m hops) := by
  obtain ⟨-, -, -, hnum, hknown⟩ := e.afterRreq_route p i seq m hops
  rcases h with ⟨-, hk, hs⟩ | ⟨-, -, hb⟩
  · refine .inl ⟨?_, hknown, hs⟩
    rw [hnum]
    rcases hs with rfl | hs
    · exact e.numberAfter_zero
    · exact RtEntry.numberAfter_kept hk hs
  · exact absurd hm (hb m)

end

end Watched

namespace Node

section
variable {L : Libdessert} {originator : MacAddr} {seq : UInt32} {n : Node}

theorem kept_of_quietly {rt rt' : Rt} (hw : rt.WF) (hq : rt.Quietly rt') {h : MacAddr} {e : RtEntry}
    (he : rt.find h = some e) (hk : (rt'.deref e.ptr).isSome = true) :
    ∃ e', rt'.find h = some e' ∧ e.Weaker e' := by
  obtain ⟨e', he'⟩ := Option.isSome_iff_exists.mp hk
  obtain ⟨hm, hp⟩ := (hq.wf hw).deref_iff.mp he'
  have hf' := (hq.wf hw).find_iff.mpr ⟨hm, rfl⟩
  obtain ⟨x, hx, hwk⟩ := (hq.shrinks hw).entry e'.addr e' hf'
  have hxe : x = e := hw.ext_ptr (Rt.find_mem hx) (Rt.find_mem he) (hwk.ptr.symm.trans hp)
  rw [hxe] at hwk
  refine ⟨e', ?_, hwk⟩
  rw [← Rt.find_addr he, ← hwk.addr]
  exact hf'

/-- An entry that is still there when the table has grown and the entry `x` of `host` has been written. -/
theorem kept_of_wrote {rt mid rt' : Rt} (hw : rt.WF) (hw' : rt'.WF) (hg : Rt.Grows rt mid) {host : MacAddr}
    {x y : RtEntry} (hx : mid.find host = some x) (hp : y.ptr = x.ptr) (hwr : Rt.Wrote mid host y rt')
    {h : MacAddr} {e : RtEntry} (he : rt.find h = some e) (hk : (rt'.deref e.ptr).isSome = true) :
    if h = host then x = e else rt'.find h = some e := by
  obtain ⟨e', he'⟩ := Option.isSome_iff_exists.mp hk
  obtain ⟨hm, hpe⟩ := hw'.deref_iff.mp he'
  have hf := hwr.find e'.addr
  rw [hw'.find_iff.mpr ⟨hm, rfl⟩] at hf
  by_cases ha : e'.addr = host
  · rw [if_pos ha] at hf
    have hxe : x = e := hg.old hw (Rt.find_mem he) hx (by rw [← hpe, Option.some.inj hf, hp])
    have hh : h = host := by rw [← Rt.find_addr he, ← hxe, Rt.find_addr hx]
    rw [if_pos hh]; exact hxe
  · rw [if_neg ha] at hf
    have hee : e' = e := hg.old hw (Rt.find_mem he) hf.symm hpe
    have hh : h ≠ host := by rw [← Rt.find_addr he, ← hee]; exact ha
    rw [if_neg hh, ← Rt.find_addr he, ← hee]
    exact hw'.find_iff.mpr ⟨hm, rfl⟩

theorem not_accepts_handle {env : RxEnv} {msg : DessertMsg} {rreq : AodvMsgRreq} (hr : msg.getRreq = some rreq)
    (ho : n.judgeRreq env msg rreq = .old) :
    n.accepts (.mesh .handleRreq env msg) = false ∧ (n.handle L (.mesh .handleRreq env msg)).2 = [] := by
  constructor
  · simp only [accepts, hr, captRreq_result, ho, ne_eq, not_true_eq_false, decide_false]
  · simp only [handle, callback, handleRreq_old n env hr ho]

theorem undisturbed_other (hw : n.rt.WF) {ev : NodeEvent} (hu : n.Undisturbed L originator seq ev)
    (hc : n.copyOf originator seq ev = none) {e : RtEntry} (he : n.rt.find originator = some e) :
    ∃ e', (n.step L ev).rt.find originator = some e' ∧ e.Weaker e' := by
  have hk := hu.1 e he
  cases (step_rt L n ev).1 with
  | quiet h => exact kept_of_quietly hw h he hk
  | rreq env msg m hev hm h =>
    subst hev
    rw [h] at hk ⊢
    have hne : originator ≠ msg.l25Shost := by
      intro heq
      have hs := hu.2 m hm heq.symm
      simp only [copyOf, hm, heq, hs, and_self, if_true] at hc
      cases hc
    obtain ⟨-, hg, hf⟩ := hw.judged msg.l25Dhost msg.l25Shost env.now
    obtain ⟨hw', hwr⟩ := hw.rreq n.cfg.metricType msg.l25Dhost msg.l25Shost msg.l2Shost env.iface
      m.originatorSequenceNumber (n.countHop env msg).u16 (n.countHop env msg).u8 env.now
    have hkept := kept_of_wrote hw hw' hg hf ?_ hwr he hk
    · rw [if_neg hne] at hkept
      exact ⟨e, hkept, .refl e⟩
    · split
      · rfl
      · exact RtEntry.afterRreq_ptr ..
  | rrep env msg m hev hm hd h =>
    subst hev
    have hne : originator ≠ msg.l25Shost := by
      intro heq
      exact hu.2 (by rw [hm]; rfl) heq.symm
    obtain ⟨-, hg, hf⟩ := hw.findOrCreate msg.l25Shost env.now
    obtain ⟨hw', hwr⟩ := hw.rrep msg.l25Shost msg.l2Shost env.iface m.destinationSequenceNumber
      (n.countHop env msg).u16 (n.countHop env msg).u8 env.now
    -- the entry is in the table after the capture, since it is there after the lookup
    have hk' : ((n.rt.step (n.rrepOp env msg m)).deref e.ptr).isSome = true := by
      obtain ⟨e'', he''⟩ := Option.isSome_iff_exists.mp hk
      obtain ⟨hm'', hp''⟩ := (h.wf hw').deref_iff.mp he''
      obtain ⟨z, hz, hwk⟩ := (h.shrinks hw').entry e''.addr e'' ((h.wf hw').find_iff.mpr ⟨hm'', rfl⟩)
      exact Option.isSome_iff_exists.mpr ⟨z, hw'.deref_iff.mpr ⟨Rt.find_mem hz, hwk.ptr.symm.trans hp''⟩⟩
    have hkept := kept_of_wrote hw hw' hg hf ?_ hwr he hk'
    · rw [if_neg hne] at hkept
      exact kept_of_quietly hw' h hkept hk
    · split <;> rfl

/-- A copy is judged by the entry of the originator, and written into it unless it is old. -/
theorem undisturbed_copy (hw : n.rt.WF) {env : RxEnv} {msg : DessertMsg} {rreq : AodvMsgRreq}
    (hr : msg.getRreq = some rreq) {e : RtEntry} (he : n.rt.find msg.l25Shost = some e)
    (hk : ((n.step L (.mesh .handleRreq env msg)).rt.deref e.ptr).isSome = true) :
    n.judgeRreq env msg rreq =
        rreqResult n.cfg.metricType e rreq.originatorSequenceNumber (n.countHop env msg).u16 ∧
      (n.step L (.mesh .handleRreq env msg)).rt.find msg.l25Shost =
        some (if n.judgeRreq env msg rreq = .old then e
          else e.afterRreq msg.l2Shost env.iface rreq.originatorSequenceNumber (n.countHop env msg).u16
            (n.countHop env msg).u8) := by
  obtain ⟨-, hg, hf⟩ := hw.judged msg.l25Dhost msg.l25Shost env.now
  obtain ⟨hw', hwr⟩ := hw.rreq n.cfg.metricType msg.l25Dhost msg.l25Shost msg.l2Shost env.iface
    rreq.originatorSequenceNumber (n.countHop env msg).u16 (n.countHop env msg).u8 env.now
  have hrt : (n.step L (.mesh .handleRreq env msg)).rt = n.rt.step (n.rreqOp env msg rreq) :=
    (handleRreq_rt n env hr).1
  rw [hrt] at hk ⊢
  have hkept := kept_of_wrote hw hw' hg hf ?_ hwr he hk
  · rw [if_pos rfl] at hkept
    have hres : n.judgeRreq env msg rreq =
        rreqResult n.cfg.metricType e rreq.originatorSequenceNumber (n.countHop env msg).u16 := by
      rw [← hkept]; rfl
    refine ⟨hres, ?_⟩
    have hfind := (hwr.find msg.l25Shost).trans (if_pos rfl)
    rw [hkept] at hfind
    rw [hres]
    exact hfind
  · split
    · rfl
    · exact RtEntry.afterRreq_ptr ..

end

end Node

namespace Watched

section
variable {L : Libdessert} {originator : MacAddr} {seq : UInt32}

theorem step_cfg (n : Node) (ev : NodeEvent) : (n.step L ev).cfg = n.cfg := (Node.step_rt L n ev).2.1

theorem step_wf {n : Node} (hw : n.rt.WF) (ev : NodeEvent) : (n.step L ev).rt.WF :=
  Node.step_inv L (fun _ op h => h.step op) n ev hw

theorem copyOf_eq_some {n : Node} {ev : NodeEvent} {c : Copy} (h : n.copyOf originator seq ev = some c) :
    ∃ env msg rreq, ev = .mesh .handleRreq env msg ∧ msg.getRreq = some rreq ∧ msg.l25Shost = originator ∧
      rreq.originatorSequenceNumber = seq ∧ c = { prevHop := msg.l2Shost, metric := (n.countHop env msg).u16 } := by
  unfold Node.copyOf at h
  split at h
  · rename_i env msg
    split at h
    · rename_i rreq hr
      split at h
      · rename_i hos
        exact ⟨env, msg, rreq, rfl, hr, hos.1, hos.2, (Option.some.inj h).symm⟩
      · cases h
    · cases h
  · cases h

theorem best_cons {t : AodvMetric} {l : List Copy} {b c : Copy} (hb : ∀ c' ∈ l, ¬ better t c'.metric b.metric)
    (hc : better t c.metric b.metric) : ∀ c' ∈ c :: l, ¬ better t c'.metric c.metric := by
  intro c' hc'
  rcases List.mem_cons.mp hc' with rfl | hc'
  · exact better_irrefl t _
  · exact not_better_trans (hb c' hc') (not_better_of_better hc)

theorem step_inv {w : Watched} {ev : NodeEvent} (hi : Inv originator seq w)
    (hu : w.node.Undisturbed L originator seq ev) :
    Inv originator seq (w.step L originator seq ev) ∧ w.Suppressed L originator seq ev := by
  obtain ⟨e, he, hset, c, hc, hhop, hmet, hbest⟩ := hi.held
  cases hcopy : w.node.copyOf originator seq ev with
  | none =>
    obtain ⟨e', he', hwk⟩ := Node.undisturbed_other hi.wf hu hcopy he
    refine ⟨⟨step_wf hi.wf ev, ?_, e', he', ?_, c, ?_, ?_, ?_, ?_⟩, fun c' hc' => by rw [hcopy] at hc'; cases hc'⟩
    · simp only [step, hcopy, Option.toList_none, ite_self, List.nil_append]; exact hi.accepted
    · simp only [step, step_cfg]
      unfold Settled at hset ⊢
      rw [hwk.sequenceNumber, hwk.unknown, hwk.metric]
      exact hset
    · simp only [step, hcopy, Option.toList_none, List.nil_append]; exact hc
    · rw [hwk.nextHop]; exact hhop
    · rw [hwk.metric]; exact hmet
    · simp only [step, hcopy, Option.toList_none, List.nil_append, step_cfg]; exact hbest
  | some d =>
    obtain ⟨env, msg, rreq, rfl, hr, rfl, rfl, rfl⟩ := copyOf_eq_some hcopy
    obtain ⟨hres, hfind⟩ := Node.undisturbed_copy hi.wf hr he (hu.1 e he)
    have hmem : ∀ a ∈ (w.step L msg.l25Shost rreq.originatorSequenceNumber (.mesh .handleRreq env msg)).accepted,
        a ∈ (w.step L msg.l25Shost rreq.originatorSequenceNumber (.mesh .handleRreq env msg)).received := by
      intro a ha
      rcases List.mem_append.mp ha with ha | ha
      · split at ha
        · exact List.mem_append_left _ ha
        · cases ha
      · exact List.mem_append_right _ (hi.accepted a ha)
    by_cases hb : better w.node.cfg.metricType (w.node.countHop env msg).u16 e.metric
    · -- a better copy takes the place of the best one
      have hnew := hset.new hb
      rw [← hres] at hnew
      rw [if_neg hnew] at hfind
      have hroute := e.afterRreq_route msg.l2Shost env.iface rreq.originatorSequenceNumber
        (w.node.countHop env msg).u16 (w.node.countHop env msg).u8
      refine ⟨⟨step_wf hi.wf _, hmem, _, hfind, ?_, { prevHop := msg.l2Shost, metric := _ }, ?_, hroute.1,
        hroute.2.2.1, ?_⟩, ?_⟩
      · simp only [step, step_cfg]
        exact hset.after hb msg.l2Shost env.iface _
      · simp only [step, hcopy, Option.toList_some]
        exact List.mem_cons_self
      · simp only [step, hcopy, Option.toList_some, step_cfg]
        exact best_cons hbest (hmet ▸ hb)
      · intro c' hc' h
        obtain ⟨a, ha, hna⟩ := h
        obtain rfl := Option.some.inj (hcopy.symm.trans hc')
        rw [hmet] at hb
        exact absurd (better_of_better_of_not hb (hbest a (hi.accepted a ha))) hna
    · -- any other copy is old
      have hold := hset.old hb
      rw [← hres] at hold
      rw [if_pos hold] at hfind
      refine ⟨⟨step_wf hi.wf _, hmem, e, hfind, ?_, c, List.mem_append_right _ hc, hhop, hmet, ?_⟩, ?_⟩
      · simp only [step, step_cfg]; exact hset
      · simp only [step, hcopy, Option.toList_some, step_cfg]
        intro c' hc'
        rcases List.mem_append.mp hc' with hc' | hc'
        · rw [List.mem_singleton.mp hc', ← hmet]; exact hb
        · exact hbest c' hc'
      · intro c' _ _
        exact Node.not_accepts_handle hr hold

/-- The run lemma: a settled entry stays settled while the originator is undisturbed. -/
theorem run_inv {w : Watched} (hi : Inv originator seq w) {evs : List NodeEvent}
    (hu : Runs.Always (Watched.step L originator seq) (fun w ev => w.node.Undisturbed L originator seq ev) w evs) :
    Runs.Always (Watched.step L originator seq) (Suppressed L originator seq) w evs ∧
      Runs.Throughout (Watched.step L originator seq) (BestHeld originator) w evs := by
  induction evs generalizing w with
  | nil =>
    obtain ⟨e, he, -, c, hc, hhop, hmet, hbest⟩ := hi.held
    exact ⟨trivial, e, he, c, hc, hhop, hmet, hbest⟩
  | cons ev evs ih =>
    obtain ⟨hi', hs⟩ := step_inv hi hu.1
    obtain ⟨ha, ht⟩ := ih hi' hu.2
    obtain ⟨e, he, -, c, hc, hhop, hmet, hbest⟩ := hi.held
    exact ⟨⟨hs, ha⟩, ⟨e, he, c, hc, hhop, hmet, hbest⟩, ht⟩

end

end Watched

/-! ## Runs that go wrong -/

/-- Every metric can arrive: some link leaves it as it was sent. -/
theorem metricDo_surjective (t : AodvMetric) (m : Metric) : ∃ link u16, aodvMetricDo t link u16 = m := by
  let link (etxAdd etxMul pdr : Option Metric) : LinkSample := { avgRssi := 0, etxAdd, etxMul, pdr }
  cases t with
  | rfc => exact ⟨link none none none, m, rfl⟩
  | hopCount => exact ⟨link none none none, m - 1, by simp [aodvMetricDo]⟩
  | rssi => exact ⟨link none none none, m - 8, by simp [aodvMetricDo, link, hfRssi2interval]⟩
  | etxAdd =>
    refine ⟨link (some 0) none none, m, ?_⟩
    simp only [aodvMetricDo, link, Option.getD_some, aodvMaxMetric, gt_iff_lt, UInt16.lt_iff_toNat_lt]
    split
    · simp
    · rename_i h
      rw [← UInt16.toNat_inj]
      have hm := m.toNat_lt
      simp at h ⊢
      omega
  | etxMul =>
    refine ⟨link none (some 2047) none, m, ?_⟩
    have h : m.toNat * 2047 / 2047 = m.toNat := Nat.mul_div_cancel _ (by decide)
    simp [aodvMetricDo, link, aodvMaxMetric, h]
  | pdr =>
    refine ⟨link none none (some 65535), m, ?_⟩
    have h : m.toNat * 65535 / 65535 = m.toNat := Nat.mul_div_cancel _ (by decide)
    simp [aodvMetricDo, link, aodvMaxMetric, h]

namespace Rt

/-- Directly after a RREQ that was not old, the next RREQ with the same addresses still finds the entry of
the originator. -/
theorem standing_again {rt : Rt} (hw : rt.WF) {metricType : AodvMetric} {dest orig prevHop : MacAddr}
    {iface : Meshif} {seq : UInt32} {metric : Metric} {hopCount : UInt8} {now : Timeval} {e : RtEntry}
    (he : (rt.step (.rreq metricType dest orig prevHop iface seq metric hopCount now)).find orig = some e) :
    (rt.step (.rreq metricType dest orig prevHop iface seq metric hopCount now)).standing dest orig now =
      some e := by
  obtain ⟨hw', hwr⟩ := hw.rreq metricType dest orig prevHop iface seq metric hopCount now
  generalize hr : rt.step (.rreq metricType dest orig prevHop iface seq metric hopCount now) = rt' at *
  cases hd : rt'.find dest with
  | some d =>
    unfold standing
    rw [findOrCreate_found hd]
    exact he
  | none =>
    -- the entry of the destination has been purged by the creation of that of the originator
    have hne : dest ≠ orig := by rintro rfl; rw [hd] at he; cases he
    obtain ⟨hw₁, -, hf₁⟩ := hw.findOrCreate dest now
    have hdj : (rt.judged dest orig now).1.find dest = none := by
      have h := hwr.find dest
      rw [if_neg hne] at h
      exact h.symm.trans hd
    cases ho : (rtFindOrCreate rt dest now now).1.find orig with
    | some x =>
      have hj : rt.judged dest orig now = ((rtFindOrCreate rt dest now now).1, x) :=
        findOrCreate_found ho now now
      rw [hj, hf₁] at hdj
      cases hdj
    | none =>
      obtain ⟨⟨gone, hc⟩, hx, -⟩ := hw₁.create ho now
      have hptr : e.ptr = (rtFindOrCreate rt dest now now).1.fresh := by
        have hfe := (hwr.find orig).trans (if_pos rfl)
        rw [Option.some.inj (he.symm.trans hfe)]
        have hjp : (rt.judged dest orig now).2.ptr = (rtFindOrCreate rt dest now now).1.fresh :=
          congrArg RtEntry.ptr hx
        split
        · exact hjp
        · rw [RtEntry.afterRreq_ptr]; exact hjp
      obtain ⟨⟨gone', hc'⟩, -, -⟩ := hw'.create hd now
      unfold standing
      rw [hw'.find_created hd hc', if_neg (Ne.symm hne), he, Option.filter_some, if_pos]
      rw [decide_eq_true_eq]
      intro hg
      obtain ⟨el, hel, hob, hle⟩ := hc'.expired _ hg
      rw [hwr.ts] at hel
      exact absurd hle (Nat.not_le.mpr (hc.unexpired el hel (hob.trans hptr)))

end Rt

namespace Node

section
variable {L : Libdessert} {n : Node} (hn : Reachable L n) {env : RxEnv} {msg : DessertMsg} {rreq : AodvMsgRreq}
  (hr : msg.getRreq = some rreq) (hc : n.captResult env msg rreq ≠ .old)
include hn hr hc

theorem first_copy :
    ∃ x e, (n.rt.judged msg.l25Dhost msg.l25Shost env.now).2 = x ∧
      (n.step L (.mesh .handleRreq env msg)).rt.find msg.l25Shost = some e ∧ e.nextHop = msg.l2Shost ∧
      e.metric = (n.countHop env msg).u16 ∧ e.sequenceNumber = x.numberAfter rreq.originatorSequenceNumber ∧
      e.flags.nextHopUnknown = false ∧
      (n.step L (.mesh .handleRreq env msg)).rt.standing msg.l25Dhost msg.l25Shost env.now = some e := by
  rw [captRreq_result] at hc
  have hf := find_originator hn hr hc
  have hroute := (n.rt.judged msg.l25Dhost msg.l25Shost env.now).2.afterRreq_route msg.l2Shost env.iface
    rreq.originatorSequenceNumber (n.countHop env msg).u16 (n.countHop env msg).u8
  refine ⟨_, _, rfl, hf, hroute.1, hroute.2.2.1, hroute.2.2.2.1, hroute.2.2.2.2, ?_⟩
  have hrt : (n.step L (.mesh .handleRreq env msg)).rt = n.rt.step (n.rreqOp env msg rreq) :=
    (handleRreq_rt n env hr).1
  rw [hrt]
  rw [(handleRreq_rt n env hr).1] at hf
  exact Rt.standing_again hn.wf hf

end

section
variable {L : Libdessert} {n : Node} {env : RxEnv} {msg : DessertMsg} {rreq : AodvMsgRreq} {e : RtEntry}

theorem undisturbed_of_standing (hw : n.rt.WF) (hr : msg.getRreq = some rreq)
    (he : n.rt.find msg.l25Shost = some e)
    (hs : n.rt.standing msg.l25Dhost msg.l25Shost env.now = some e) :
    n.Undisturbed L msg.l25Shost rreq.originatorSequenceNumber (.mesh .handleRreq env msg) := by
  refine ⟨fun e' he' => ?_, fun rreq' hr' _ => by rw [Option.some.inj (hr.symm.trans hr')]⟩
  rw [← Option.some.inj (he.symm.trans he')]
  have hj : n.rt.judged msg.l25Dhost msg.l25Shost env.now =
      ((rtFindOrCreate n.rt msg.l25Dhost env.now env.now).1, e) := Rt.findOrCreate_found hs env.now env.now
  obtain ⟨hw', hwr⟩ := hw.rreq n.cfg.metricType msg.l25Dhost msg.l25Shost msg.l2Shost env.iface
    rreq.originatorSequenceNumber (n.countHop env msg).u16 (n.countHop env msg).u8 env.now
  have hrt : (n.step L (.mesh .handleRreq env msg)).rt = n.rt.step (n.rreqOp env msg rreq) :=
    (handleRreq_rt n env hr).1
  rw [hrt]
  have hf := (hwr.find msg.l25Shost).trans (if_pos rfl)
  refine Option.isSome_iff_exists.mpr ⟨_, hw'.deref_iff.mpr ⟨Rt.find_mem hf, ?_⟩⟩
  rw [hj]
  split
  · rfl
  · exact RtEntry.afterRreq_ptr ..

end

section
variable {L : Libdessert} {w : Watched} (hw : w.node.rt.WF) {env : RxEnv} {msg : DessertMsg} {rreq : AodvMsgRreq}
  (hr : msg.getRreq = some rreq) {e : RtEntry} (he : w.node.rt.find msg.l25Shost = some e)
  (hs : w.node.rt.standing msg.l25Dhost msg.l25Shost env.now = some e) (hz : e.sequenceNumber = 0)
include hw hr he hs hz

/-- When the entry has been put back to 0 and 0 is ahead of the RREQ's number, a better copy is old. -/
theorem better_copy_old (hgt : 0 < hfCompU32 0 rreq.originatorSequenceNumber) {m : Metric}
    (hm : better w.node.cfg.metricType m e.metric) :
    ∃ ev, w.node.Undisturbed L msg.l25Shost rreq.originatorSequenceNumber ev ∧
      ¬ (w.step L msg.l25Shost rreq.originatorSequenceNumber ev).BestHeld msg.l25Shost := by
  obtain ⟨link, u16, hu16⟩ := metricDo_surjective w.node.cfg.metricType m
  let env' : RxEnv := { env with link }
  let msg' : DessertMsg := { msg with u16 }
  have hr' : msg'.getRreq = some rreq := hr
  have hs' : w.node.rt.standing msg'.l25Dhost msg'.l25Shost env'.now = some e := hs
  have hu : w.node.Undisturbed L msg'.l25Shost rreq.originatorSequenceNumber (.mesh .handleRreq env' msg') :=
    undisturbed_of_standing hw hr' he hs'
  refine ⟨.mesh .handleRreq env' msg', hu, ?_⟩
  intro h
  obtain ⟨e', he', c', hc', -, hmet, hbest⟩ := h
  obtain ⟨hres, hfind⟩ := undisturbed_copy hw hr' he (hu.1 e he)
  have hold : w.node.judgeRreq env' msg' rreq = .old := by
    rw [hres]
    exact rreqResult_ahead (hz.symm ▸ hgt)
  rw [if_pos hold] at hfind
  have hcopy : w.node.copyOf msg.l25Shost rreq.originatorSequenceNumber (.mesh .handleRreq env' msg') =
      some { prevHop := msg.l2Shost, metric := m } := by
    have hc := copyOf_self w.node env' hr'
    have hmetric : (w.node.countHop env' msg').u16 = m := hu16
    rw [hmetric] at hc
    exact hc
  apply hbest { prevHop := msg.l2Shost, metric := m }
  · simp only [Watched.step, hcopy, Option.toList_some]
    exact List.mem_append_left _ (List.mem_singleton_self _)
  · have hcfg : (w.step L msg.l25Shost rreq.originatorSequenceNumber (.mesh .handleRreq env' msg')).node.cfg =
        w.node.cfg := Watched.step_cfg w.node _
    rw [hcfg, ← hmet, ← Option.some.inj (hfind.symm.trans he')]
    exact hm

/-- When the entry has been put back to 0 and the RREQ's number is ahead of 0, every copy is new. -/
theorem copy_new (hlt : hfCompU32 0 rreq.originatorSequenceNumber < 0) {a : Copy} (ha : a ∈ w.accepted)
    (hm : (w.node.countHop env msg).u16 = a.metric) :
    w.node.Undisturbed L msg.l25Shost rreq.originatorSequenceNumber (.mesh .handleRreq env msg) ∧
      ¬ w.Suppressed L msg.l25Shost rreq.originatorSequenceNumber (.mesh .handleRreq env msg) := by
  have hu := undisturbed_of_standing (L := L) hw hr he hs
  refine ⟨hu, fun hsup => ?_⟩
  obtain ⟨hres, -⟩ := undisturbed_copy (L := L) hw hr he (hu.1 e he)
  have hnew : w.node.judgeRreq env msg rreq ≠ .old := by
    rw [hres, rreqResult_behind (hz.symm ▸ hlt)]
    intro h; cases h
  obtain ⟨hacc, -⟩ := hsup _ (copyOf_self w.node env hr) ⟨a, ha, by rw [hm]; exact better_irrefl _ _⟩
  simp only [accepts, hr, captRreq_result, decide_eq_false_iff_not, Classical.not_not] at hacc
  exact hnew hacc

end

/-- The copies of a RREQ that come after an accepted one are suppressed, and the entry holds the best one,
in every further run exactly if the RREQ's number is 0; or it is ahead of 0 and the next hop towards the
originator was known before; or 0 is ahead of it and no metric is better than that of the accepted copy. -/
theorem duplicates_iff {L : Libdessert} {n : Node} (hn : Reachable L n) {env : RxEnv} {msg : DessertMsg}
    {rreq : AodvMsgRreq} (hr : msg.getRreq = some rreq) (hc : n.captResult env msg rreq ≠ .old) :
    let originator := msg.l25Shost
    let seq := rreq.originatorSequenceNumber
    let c : Copy := { prevHop := msg.l2Shost, metric := (n.countHop env msg).u16 }
    let w : Watched := { node := n.step L (.mesh .handleRreq env msg), received := [c], accepted := [c] }
    (∀ evs, Runs.Always (Watched.step L originator seq) (fun w ev => w.node.Undisturbed L originator seq ev) w evs →
        Runs.Always (Watched.step L originator seq) (Watched.Suppressed L originator seq) w evs ∧
          Runs.Throughout (Watched.step L originator seq) (Watched.BestHeld originator) w evs) ↔
      seq = 0 ∨
        (0 < hfCompU32 seq 0 ∧
          ∃ x, n.rt.standing msg.l25Dhost originator env.now = some x ∧ x.flags.nextHopUnknown = false) ∨
        (0 < hfCompU32 0 seq ∧ ∀ m, ¬ better n.cfg.metricType m c.metric) := by
  intro originator seq c w
  obtain ⟨x, e, hx, he, hhop, hmet, hnum, hknown, hagain⟩ := first_copy hn hr hc
  have hcfg : w.node.cfg = n.cfg := Watched.step_cfg n _
  have hwf : w.node.rt.WF := Watched.step_wf hn.wf _
  constructor
  · intro hall
    by_contra hcond
    simp only [not_or, not_and, not_exists] at hcond
    obtain ⟨hne, hkept, hbest⟩ := hcond
    have hzero : e.sequenceNumber = 0 := by
      rw [hnum]
      by_cases hpos : 0 < hfCompU32 seq 0
      · refine RtEntry.numberAfter_unknown ?_ seq
        rcases Rt.judged_cases n.rt msg.l25Dhost msg.l25Shost env.now with ⟨y, hy, hj⟩ | ⟨-, hnew⟩
        · rw [hj] at hx
          rw [← hx]
          simpa using hkept hpos y hy
        · rw [← hx, hnew]; rfl
      · exact x.numberAfter_behind (Int.not_lt.mp hpos)
    rcases hfCompU32_trichotomy 0 seq with hgt | heq | hlt
    · obtain ⟨m, hm⟩ : ∃ m, better n.cfg.metricType m c.metric := by
        simpa only [not_forall, Classical.not_not] using hbest hgt
      have hm' : better w.node.cfg.metricType m e.metric := by
        rw [hcfg, hmet]
        exact hm
      obtain ⟨ev, hu, hno⟩ := better_copy_old (L := L) hwf hr he hagain hzero hgt hm'
      exact hno (hall [ev] ⟨hu, trivial⟩).2.2
    · exact hne heq.symm
    · have hmetric : (w.node.countHop env msg).u16 = c.metric := by
        simp only [countHop, hcfg]
        rfl
      obtain ⟨hu, hno⟩ := copy_new (L := L) hwf hr he hagain hzero hlt (List.mem_singleton_self c) hmetric
      exact hno (hall [.mesh .handleRreq env msg] ⟨hu, trivial⟩).1.1
  · intro hcond evs hu
    refine Watched.run_inv ⟨hwf, fun a ha => ha, e, he, ?_, c, List.mem_singleton_self c, hhop, hmet, ?_⟩ hu
    · rw [hcfg]
      rcases hcond with hz | ⟨hpos, y, hy, hk⟩ | ⟨hgt, hb⟩
      · refine .inl ⟨?_, hknown, .inl hz⟩
        have hseq : rreq.originatorSequenceNumber = 0 := hz
        rw [hnum, hz, hseq]
        exact x.numberAfter_zero
      · refine .inl ⟨?_, hknown, .inr hpos⟩
        have hj : n.rt.judged msg.l25Dhost msg.l25Shost env.now =
            ((rtFindOrCreate n.rt msg.l25Dhost env.now env.now).1, y) := Rt.findOrCreate_found hy env.now env.now
        rw [hj] at hx
        rw [hnum, ← hx]
        exact RtEntry.numberAfter_kept hk hpos
      · refine .inr ⟨?_, hgt, ?_⟩
        · rw [hnum]
          exact x.numberAfter_behind (Int.le_of_lt (hfCompU32_neg_of_pos hgt))
        · rw [hmet]; exact hb
    · intro c' hc'
      rw [List.mem_singleton.mp hc']
      exact better_irrefl _ _

/-- The originator has been heard before, so the number of its next RREQ stays in the entry. -/
theorem duplicates_known :
    let n := (aodvDbInit {} 8 [wlan]).step roomy (.mesh .handleRreq (rxAt 0) (rreqFrom 5 9 1 1 10))
    let w : Watched :=
      { node := n.step roomy (.mesh .handleRreq (rxAt 1) (rreqFrom 5 9 1 2 10))
        received := [{ prevHop := 1, metric := 10 }]
        accepted := [{ prevHop := 1, metric := 10 }] }
    let evs := [NodeEvent.mesh .handleRreq (rxAt 2) (rreqFrom 5 9 3 2 8)]
    Runs.Always (Watched.step roomy 5 2) (fun w ev => w.node.Undisturbed roomy 5 2 ev) w evs →
      Runs.Always (Watched.step roomy 5 2) (Watched.Suppressed roomy 5 2) w evs ∧
        Runs.Throughout (Watched.step roomy 5 2) (Watched.BestHeld 5) w evs :=
  (@duplicates_iff roomy ((aodvDbInit {} 8 [wlan]).step roomy (.mesh .handleRreq (rxAt 0) (rreqFrom 5 9 1 1 10)))
    ⟨{}, 8, [wlan], [.mesh .handleRreq (rxAt 0) (rreqFrom 5 9 1 1 10)], rfl⟩ (rxAt 1) (rreqFrom 5 9 1 2 10) _ rfl
    (by decide)).mpr
    (.inr (.inl ⟨by decide, ((Runs.exec (Node.step roomy) (aodvDbInit {} 8 [wlan])
      [.mesh .handleRreq (rxAt 0) (rreqFrom 5 9 1 1 10)]).rt.find 5).get (by decide), by decide,
      by decide⟩)) _

/-- An originator heard for the first time: the same copy is accepted once more. -/
theorem duplicate_accepted :
    let n := (aodvDbInit {} 8 [wlan]).step roomy (.mesh .handleRreq (rxAt 0) (rreqFrom 5 9 1 1 10))
    (aodvDbInit {} 8 [wlan]).accepts (.mesh .handleRreq (rxAt 0) (rreqFrom 5 9 1 1 10)) = true ∧
      n.accepts (.mesh .handleRreq (rxAt 0) (rreqFrom 5 9 1 1 10)) = true ∧
      (n.handle roomy (.mesh .handleRreq (rxAt 0) (rreqFrom 5 9 1 1 10))).2 ≠ [] := by
  decide

end Node

end DesAodv
