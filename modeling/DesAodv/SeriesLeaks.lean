import DesAodv.SeriesRuns

/-!
# Series and messages that are lost

Every message and every series is destroyed once or waits in the schedule table,
except the message of a series that is refused and what is left of a series
after its last RREQ.
-/

namespace DesAodv

namespace Discoveries

/-! ## The ledger of messages -/

def RreqJob.message : RreqJob → Option Nat
  | .newSeries id _ => some id
  | _ => none

/-- The messages of invocations that have not called `aodv_pipeline_new_series` yet. -/
def newOf (jobs : List RreqJob) : List Nat := jobs.filterMap RreqJob.message

theorem newOf_append (jobs new : List RreqJob) : newOf (jobs ++ new) = newOf jobs ++ newOf new :=
  List.filterMap_append ..

theorem new_perm {jobs : List RreqJob} {k : Nat} {job : RreqJob} (h : jobs[k]? = some job) :
    (newOf jobs).Perm ((RreqJob.message job).toList ++ newOf (jobs.eraseIdx k)) := filterMap_perm RreqJob.message h

/-- Every message has one place. -/
structure Ledger (d : Discoveries) : Prop where
  length : d.carried.length = d.node.series.fresh
  nodup : (d.carried ++ newOf d.jobs).Nodup
  created : ∀ id ∈ d.carried ++ newOf d.jobs, id < d.created

/-- A message that no invocation and no series has. -/
def MessageLost (d : Discoveries) : Prop := ∃ id < d.created, id ∉ d.carried ++ newOf d.jobs

/-- A series to the destination of the message is running. -/
def Refused (d : Discoveries) : DiscoveryStep → Prop
  | .proceed k _ => ∃ id msg, d.jobs[k]? = some (.newSeries id msg) ∧
      d.node.findSeriesUnlocked msg.l25Dhost ≠ none
  | _ => False

section
variable {d d' : Discoveries}

theorem ledger_same (h : d.Ledger) (hc : d'.carried = d.carried) (hcr : d'.created = d.created)
    (hn : (newOf d'.jobs).Perm (newOf d.jobs)) (hf : d'.node.series.fresh = d.node.series.fresh) :
    d'.Ledger ∧ (d'.MessageLost ↔ d.MessageLost) := by
  have hp : (d'.carried ++ newOf d'.jobs).Perm (d.carried ++ newOf d.jobs) := by
    rw [hc]
    exact hn.append_left _
  refine ⟨⟨?_, hp.nodup_iff.mpr h.nodup, ?_⟩, ?_⟩
  · rw [hc, hf]
    exact h.length
  · rw [hcr]
    exact fun id hid => h.created id (hp.mem_iff.mp hid)
  · unfold MessageLost
    rw [hcr]
    exact exists_congr fun id => and_congr_right fun _ => not_congr hp.mem_iff

theorem sendSeries_fresh (n : Node) (p : Nat) (now : Timeval) :
    (n.sendSeries p now).1.series.fresh = n.series.fresh := by
  cases hs : n.seriesDeref p with
  | none =>
    unfold Node.sendSeries
    rw [hs]
    rfl
  | some s =>
    rcases Node.sendSeries_cases hs now with ⟨-, rreqLog, when, heq⟩ |
      ⟨-, rreqLog, seqNumGlobal, msg, -, -, ⟨-, heq⟩ | ⟨-, when, heq⟩⟩
    all_goals exact congrArg (fun r : Node × List Sent × Option RreqJob => r.1.series.fresh) heq

theorem sendSeries_new (n : Node) (p : Nat) (now : Timeval) : newOf (n.sendSeries p now).2.2.toList = [] := by
  cases hs : n.seriesDeref p with
  | none =>
    unfold Node.sendSeries
    rw [hs]
    rfl
  | some s =>
    rcases Node.sendSeries_cases hs now with ⟨-, rreqLog, when, heq⟩ |
      ⟨-, rreqLog, seqNumGlobal, msg, -, -, ⟨-, heq⟩ | ⟨-, when, heq⟩⟩
    all_goals exact congrArg (fun r : Node × List Sent × Option RreqJob => newOf r.2.2.toList) heq

theorem letGo_fresh (n : Node) (job : RreqJob) : (n.letGo job).series.fresh = n.series.fresh := by
  cases job with
  | newSeries id msg => rfl
  | send p => rfl
  | delete p => exact Node.deleteSeries_fresh n p
  | reschedule when p =>
    show (n.aodvPipelineRescheduleSeries when p).series.fresh = _
    unfold Node.aodvPipelineRescheduleSeries
    split
    · rfl
    · split <;> rfl

theorem ledger_create (h : d.Ledger) (hc : d'.carried = d.carried) (hcr : d'.created = d.created + 1)
    (hn : newOf d'.jobs = newOf d.jobs ++ [d.created]) (hf : d'.node.series.fresh = d.node.series.fresh) :
    d'.Ledger ∧ (d'.MessageLost ↔ d.MessageLost) := by
  have hall : d'.carried ++ newOf d'.jobs = (d.carried ++ newOf d.jobs) ++ [d.created] := by
    rw [hc, hn, List.append_assoc]
  refine ⟨⟨?_, ?_, ?_⟩, ?_⟩
  · rw [hc, hf]
    exact h.length
  · rw [hall]
    apply List.Nodup.append h.nodup (List.nodup_singleton _)
    intro id hid hid'
    have hlt := h.created id hid
    rw [List.mem_singleton.mp hid'] at hlt
    exact Nat.lt_irrefl _ hlt
  · rw [hall, hcr]
    intro id hid
    rcases List.mem_append.mp hid with hid | hid
    · exact Nat.lt_succ_of_lt (h.created id hid)
    · rw [List.mem_singleton.mp hid]
      exact Nat.lt_succ_self _
  · unfold MessageLost
    rw [hall, hcr]
    constructor
    · intro hx
      obtain ⟨id, hlt, hno⟩ := hx
      rw [List.mem_append, not_or, List.mem_singleton] at hno
      exact ⟨id, Nat.lt_of_le_of_ne (Nat.le_of_lt_succ hlt) hno.2, hno.1⟩
    · intro hx
      obtain ⟨id, hlt, hno⟩ := hx
      refine ⟨id, Nat.lt_succ_of_lt hlt, ?_⟩
      rw [List.mem_append, not_or, List.mem_singleton]
      exact ⟨hno, Nat.ne_of_lt hlt⟩

theorem ledger_newSeries (h : d.Ledger) {k : Nat} {id : Nat} {msg : DessertMsg}
    (hk : d.jobs[k]? = some (.newSeries id msg)) (now : Timeval) :
    (d.step (.proceed k now)).Ledger ∧
      ((d.step (.proceed k now)).MessageLost ↔
        d.MessageLost ∨ d.node.findSeriesUnlocked msg.l25Dhost ≠ none) := by
  have hnew : (newOf d.jobs).Perm (id :: newOf (d.jobs.eraseIdx k)) := new_perm hk
  have hp : (d.carried ++ newOf d.jobs).Perm (id :: (d.carried ++ newOf (d.jobs.eraseIdx k))) :=
    (hnew.append_left _).trans List.perm_middle
  cases hf : d.node.findSeriesUnlocked msg.l25Dhost with
  | some q =>
    have hstep : d.step (.proceed k now) = { d with jobs := d.jobs.eraseIdx k } := by
      simp only [step, hk]
      exact proceed_refused (hf ▸ Option.some_ne_none q)
    have hnd := hp.nodup_iff.mp h.nodup
    rw [hstep]
    refine ⟨⟨h.length, (List.nodup_cons.mp hnd).2, ?_⟩, ?_⟩
    · exact fun x hx => h.created x (hp.mem_iff.mpr (List.mem_cons_of_mem _ hx))
    · refine iff_of_true ?_ (.inr (Option.some_ne_none q))
      exact ⟨id, h.created id (hp.mem_iff.mpr List.mem_cons_self), (List.nodup_cons.mp hnd).1⟩
  | none =>
    have hstep : d.step (.proceed k now) =
        { d with
          node := (d.node.aodvPipelineNewSeries msg).1
          jobs := d.jobs.eraseIdx k ++ [.send d.node.series.fresh]
          carried := d.carried ++ [id] } := by
      simp only [step, hk]
      exact proceed_started hf
    have hall : ((d.step (.proceed k now)).carried ++ newOf (d.step (.proceed k now)).jobs).Perm
        (d.carried ++ newOf d.jobs) := by
      rw [hstep]
      show ((d.carried ++ [id]) ++ newOf (_ ++ _)).Perm _
      have hsend : newOf [RreqJob.send d.node.series.fresh] = [] := rfl
      rw [newOf_append, hsend, List.append_nil, List.append_assoc]
      exact (hnew.append_left _).symm
    have hcr : (d.step (.proceed k now)).created = d.created := by rw [hstep]
    refine ⟨⟨?_, hall.nodup_iff.mpr h.nodup, ?_⟩, ?_⟩
    · rw [hstep, Node.newSeries_started hf]
      show (d.carried ++ [id]).length = d.node.series.fresh + 1
      rw [List.length_append, h.length]
      rfl
    · rw [hcr]
      exact fun x hx => h.created x (hall.mem_iff.mp hx)
    · unfold MessageLost
      rw [hcr]
      refine Iff.trans ?_ (or_iff_left fun hne => hne rfl).symm
      exact exists_congr fun x => and_congr_right fun _ => not_congr hall.mem_iff

theorem proceed_ledger (h : d.Ledger) {k : Nat} {job : RreqJob} (hk : d.jobs[k]? = some job) (now : Timeval) :
    (d.step (.proceed k now)).Ledger ∧
      ((d.step (.proceed k now)).MessageLost ↔ d.MessageLost ∨ d.Refused (.proceed k now)) := by
  -- the other jobs carry no message
  have hquiet : RreqJob.message job = none →
      (d.step (.proceed k now)).Ledger ∧ ((d.step (.proceed k now)).MessageLost ↔ d.MessageLost) →
      (d.step (.proceed k now)).Ledger ∧
        ((d.step (.proceed k now)).MessageLost ↔ d.MessageLost ∨ d.Refused (.proceed k now)) := by
    intro hjob hl
    refine ⟨hl.1, hl.2.trans (or_iff_left fun hx => ?_).symm⟩
    obtain ⟨id, msg, hm, -⟩ := hx
    rw [hk] at hm
    rw [Option.some.inj hm] at hjob
    cases hjob
  have hrest : RreqJob.message job = none → (newOf (d.jobs.eraseIdx k)).Perm (newOf d.jobs) := by
    intro hjob
    have hp := new_perm hk
    rw [hjob] at hp
    exact hp.symm
  cases job with
  | newSeries id msg =>
    obtain ⟨hl, hlost⟩ := ledger_newSeries h hk now
    refine ⟨hl, hlost.trans (or_congr_right ⟨fun hne => ⟨id, msg, hk, hne⟩, ?_⟩)⟩
    intro hx
    obtain ⟨id', msg', hm, hne⟩ := hx
    rw [hk] at hm
    obtain ⟨-, rfl⟩ := RreqJob.newSeries.inj (Option.some.inj hm)
    exact hne
  | send p =>
    apply hquiet rfl
    simp only [step, hk, proceed]
    refine ledger_same h rfl rfl ?_ (sendSeries_fresh _ _ _)
    show (newOf (_ ++ _)).Perm _
    rw [newOf_append, sendSeries_new, List.append_nil]
    exact hrest rfl
  | reschedule when p =>
    apply hquiet rfl
    simp only [step, hk, proceed]
    exact ledger_same h rfl rfl (hrest rfl) (letGo_fresh _ _)
  | delete p =>
    apply hquiet rfl
    simp only [step, hk, proceed]
    exact ledger_same h rfl rfl (hrest rfl) (letGo_fresh _ _)

theorem step_ledger (h : d.Ledger) (act : DiscoveryStep) :
    (d.step act).Ledger ∧ ((d.step act).MessageLost ↔ d.MessageLost ∨ d.Refused act) := by
  have hquiet : ∀ {act}, (d.step act).Ledger ∧ ((d.step act).MessageLost ↔ d.MessageLost) → ¬ d.Refused act →
      (d.step act).Ledger ∧ ((d.step act).MessageLost ↔ d.MessageLost ∨ d.Refused act) :=
    fun hl hn => ⟨hl.1, hl.2.trans (or_iff_left hn).symm⟩
  cases act with
  | createRreq host =>
    refine hquiet (ledger_create h rfl rfl ?_ rfl) not_false
    exact newOf_append d.jobs _
  | popschedule now =>
    refine hquiet ?_ not_false
    simp only [step]
    split
    · exact ⟨h, Iff.rfl⟩
    · split
      · split
        · refine ledger_same h rfl rfl ?_ rfl
          show (newOf (d.jobs ++ _)).Perm _
          rw [newOf_append]
          exact List.Perm.of_eq (List.append_nil _)
        · exact ledger_same h rfl rfl (List.Perm.refl _) rfl
      · exact ⟨h, Iff.rfl⟩
  | deleteSeriesEther addr =>
    refine hquiet (ledger_same h rfl rfl (List.Perm.refl _) ?_) not_false
    show (d.node.aodvPipelineDeleteSeriesEther addr).series.fresh = _
    unfold Node.aodvPipelineDeleteSeriesEther
    split
    · rfl
    · exact Node.deleteSeries_fresh _ _
  | elsewhere n =>
    refine hquiet ?_ not_false
    simp only [step]
    split
    · rename_i he
      exact ledger_same h rfl rfl (List.Perm.refl _) (congrArg SeriesTable.fresh he.1)
    · exact ⟨h, Iff.rfl⟩
  | proceed k now =>
    cases hk : d.jobs[k]? with
    | none =>
      have hstep : d.step (.proceed k now) = d := by simp only [step, hk]
      refine hquiet ?_ ?_
      · rw [hstep]
        exact ⟨h, Iff.rfl⟩
      · intro hx
        obtain ⟨id, msg, hm, -⟩ := hx
        rw [hk] at hm
        cases hm
    | some job => exact proceed_ledger h hk now

end

/-! ## What is lost -/

/-- The series freed, in order, and the messages destroyed with them. -/
def freed (d : Discoveries) : List Nat := d.log.filterMap fun e => if e.2 = .freed then some e.1 else none

def destroyed (d : Discoveries) : List Nat := d.freed.filterMap fun p => d.carried[p]?

/-- Every series and every message is destroyed once, or referenced by a schedule and not destroyed. -/
structure NoneLost (d : Discoveries) : Prop where
  series : ∀ p < d.node.series.fresh, (d.freed.count p = 1 ∧ ¬ d.node.Scheduled p) ∨
    (d.freed.count p = 0 ∧ d.node.Scheduled p)
  messages : ∀ id < d.created,
    (d.destroyed.count id = 1 ∧ ¬ ∃ p, d.carried[p]? = some id ∧ d.node.Scheduled p) ∨
      (d.destroyed.count id = 0 ∧ ∃ p, d.carried[p]? = some id ∧ d.node.Scheduled p)

/-- A message or a series is lost, or will be when its invocation is done. -/
def Lost (d : Discoveries) : Prop := (∃ p, Doomed (d.life p)) ∨ d.MessageLost

/-- No series is refused, and no series sends its last RREQ. -/
def Retained (d : Discoveries) (act : DiscoveryStep) : Prop := ¬ d.Refused act ∧ ¬ d.LastSend act

theorem count_freed (d : Discoveries) (p : Nat) : d.freed.count p = (d.history p).count .freed := by
  unfold freed history
  rw [List.count_filterMap, List.count_eq_countP, List.countP_map, List.countP_filter]
  apply List.countP_congr
  intro e _
  by_cases hf : e.2 = .freed <;> simp [hf]

section
variable {d : Discoveries}

theorem count_destroyed (hn : d.carried.Nodup) {p id : Nat} (hp : d.carried[p]? = some id) :
    d.destroyed.count id = d.freed.count p := by
  unfold destroyed
  rw [List.count_filterMap, List.count_eq_countP]
  apply List.countP_congr
  intro q _
  rw [beq_iff_eq, beq_iff_eq]
  constructor
  · intro hq
    obtain ⟨hlt, hget⟩ := List.getElem?_eq_some_iff.mp hp
    obtain ⟨hltq, hgetq⟩ := List.getElem?_eq_some_iff.mp hq
    exact hn.getElem_inj_iff.mp (hgetq.trans hget.symm)
  · intro h
    obtain rfl := h
    exact hp

/-- When no invocation is running, what is lost is what will be. -/
theorem noneLost_iff (h : d.Sound) (hl : d.Ledger) (hdone : d.jobs = []) : d.NoneLost ↔ ¬ d.Lost := by
  have hcarried : d.carried ++ newOf d.jobs = d.carried := by
    rw [hdone]
    exact List.append_nil _
  have hnodup : d.carried.Nodup := hcarried ▸ hl.nodup
  have hlive : ∀ p, d.node.Scheduled p → ∃ s, d.node.seriesDeref p = some s := by
    intro p hx
    obtain ⟨sc, hsc, hparam⟩ := hx
    obtain ⟨q, s, hq, hs, -⟩ := h.owned.scheduled sc hsc
    rw [hparam] at hq
    obtain rfl := ScheduleParam.series.inj hq
    exact ⟨s, hs.1⟩
  have hcount : ∀ p, d.freed.count p = if d.life p = .freed then 1 else 0 := fun p =>
    (count_freed d p).trans (h.lived p).count_freed
  constructor
  · intro hnone hx
    rcases hx with ⟨p, hp⟩ | ⟨id, hid, hno⟩
    · cases hs : d.node.seriesDeref p with
      | none =>
        unfold life at hp
        rw [hs] at hp
        simp only at hp
        split at hp <;> exact hp
      | some s =>
        have hthere := life_there hs
        rcases hnone.series p (h.owned.fresh p s hs) with ⟨hc, -⟩ | ⟨-, hsc⟩
        · rw [hcount, hthere] at hc
          cases hc
        · rw [hthere, place_waiting hsc] at hp
          exact hp
    · rw [hcarried] at hno
      rcases hnone.messages id hid with ⟨hc, -⟩ | ⟨-, p, hp, -⟩
      · have hmem : id ∈ d.destroyed := List.count_pos_iff.mp (by omega)
        obtain ⟨p, -, hp⟩ := List.mem_filterMap.mp hmem
        exact hno (List.mem_of_getElem? hp)
      · exact hno (List.mem_of_getElem? hp)
  · intro hnot
    have hseries : ∀ p < d.node.series.fresh, (d.freed.count p = 1 ∧ ¬ d.node.Scheduled p) ∨
        (d.freed.count p = 0 ∧ d.node.Scheduled p) := by
      intro p hp
      cases hs : d.node.seriesDeref p with
      | none =>
        left
        rw [hcount, life_freed hs hp]
        refine ⟨rfl, ?_⟩
        intro hsc
        obtain ⟨s, hs'⟩ := hlive p hsc
        rw [hs] at hs'
        cases hs'
      | some s =>
        right
        have hthere := life_there hs
        rw [hcount, hthere]
        refine ⟨rfl, ?_⟩
        by_contra hsc
        apply hnot
        refine .inl ⟨p, ?_⟩
        rw [hthere, place_held hsc, hdone]
        exact trivial
    refine ⟨hseries, fun id hid => ?_⟩
    have hmem : id ∈ d.carried := by
      by_contra hno
      exact hnot (.inr ⟨id, hid, hcarried.symm ▸ hno⟩)
    obtain ⟨p, hp⟩ := List.mem_iff_getElem?.mp hmem
    have hfresh : p < d.node.series.fresh := by
      rw [← hl.length]
      exact (List.getElem?_eq_some_iff.mp hp).1
    have hsched : (∃ q, d.carried[q]? = some id ∧ d.node.Scheduled q) ↔ d.node.Scheduled p := by
      constructor
      · intro hx
        obtain ⟨q, hq, hsc⟩ := hx
        obtain ⟨hlt, hget⟩ := List.getElem?_eq_some_iff.mp hp
        obtain ⟨hltq, hgetq⟩ := List.getElem?_eq_some_iff.mp hq
        have hqp : q = p := hnodup.getElem_inj_iff.mp (hgetq.trans hget.symm)
        exact hqp ▸ hsc
      · exact fun hsc => ⟨p, hp, hsc⟩
    rw [count_destroyed hnodup hp, hsched]
    exact hseries p hfresh

theorem step_lost (h : d.Sound) (hl : d.Ledger) (act : DiscoveryStep) :
    (d.step act).Lost ↔ d.Lost ∨ ¬ d.Retained act := by
  obtain ⟨p, es, l, ht, hd⟩ := step_turn h.owned act
  obtain ⟨-, hm⟩ := step_ledger hl act
  have hdoomed : (∃ q, Doomed ((d.step act).life q)) ↔ (∃ q, Doomed (d.life q)) ∨ d.LastSend act := by
    constructor
    · intro hx
      obtain ⟨q, hq⟩ := hx
      by_cases hqp : q = p
      · rw [hqp, ht.life] at hq
        exact (hd.mp hq).imp_left fun hp => ⟨p, hp⟩
      · rw [ht.others q hqp] at hq
        exact .inl ⟨q, hq⟩
    · intro hx
      rcases hx with ⟨q, hq⟩ | hlast
      · by_cases hqp : q = p
        · refine ⟨p, ?_⟩
          rw [ht.life]
          exact hd.mpr (.inl (hqp ▸ hq))
        · refine ⟨q, ?_⟩
          rw [ht.others q hqp]
          exact hq
      · refine ⟨p, ?_⟩
        rw [ht.life]
        exact hd.mpr (.inr hlast)
  unfold Lost Retained
  rw [hdoomed, hm, or_or_or_comm, not_and_or, not_not, not_not, @or_comm (d.Refused act)]

end

/-- Whenever no invocation is running, no message and no series is lost exactly if no series was refused
and none has sent its last RREQ. -/
theorem none_lost_iff (n : Node) (acts : List DiscoveryStep)
    (hdone : (Runs.exec step (start n) acts).jobs = []) :
    (Runs.exec step (start n) acts).NoneLost ↔ Runs.Always step Retained (start n) acts := by
  have hstart : (start n).Ledger :=
    { length := rfl
      nodup := List.nodup_nil
      created := List.forall_mem_nil _ }
  have hnone : ¬ (start n).Lost := by
    intro hx
    rcases hx with ⟨p, hp⟩ | ⟨id, hid, -⟩
    · exact hp
    · exact absurd hid (Nat.not_lt_zero id)
  have hgood : (start n).Sound ∧ (start n).Ledger := ⟨start_sound n, hstart⟩
  have hstep : ∀ (d : Discoveries) (act : DiscoveryStep),
      d.Sound ∧ d.Ledger → (d.step act).Sound ∧ (d.step act).Ledger :=
    fun d act h => ⟨step_sound d act h.1, (step_ledger h.2 act).1⟩
  obtain ⟨hs, hl⟩ := Runs.exec_inv hstep hgood acts
  have hlost := Runs.exec_iff_not_always hstep (fun d act h => step_lost h.1 h.2 act) hgood acts
  rw [or_iff_right hnone] at hlost
  exact (noneLost_iff hs hl hdone).trans (not_iff_comm.mp hlost.symm)

/-! ## Runs that keep and that lose them -/

instance (d : Discoveries) (k : Nat) (now : Timeval) : Decidable (d.Refused (.proceed k now)) :=
  match hk : d.jobs[k]? with
  | some (.newSeries id msg) =>
    if hf : d.node.findSeriesUnlocked msg.l25Dhost = none then
      isFalse fun ⟨_, _, h, hne⟩ => by
        rw [hk] at h
        obtain ⟨-, rfl⟩ := RreqJob.newSeries.inj (Option.some.inj h)
        exact hne hf
    else isTrue ⟨id, msg, hk, hf⟩
  | some (.send _) => isFalse fun ⟨_, _, h, _⟩ => by rw [hk] at h; cases h
  | some (.reschedule _ _) => isFalse fun ⟨_, _, h, _⟩ => by rw [hk] at h; cases h
  | some (.delete _) => isFalse fun ⟨_, _, h, _⟩ => by rw [hk] at h; cases h
  | none => isFalse fun ⟨_, _, h, _⟩ => by rw [hk] at h; cases h

instance (d : Discoveries) (k : Nat) (now : Timeval) : Decidable (d.LastSend (.proceed k now)) :=
  match hk : d.jobs[k]? with
  | some (.send p) =>
    match hs : d.node.seriesDeref p with
    | some series =>
      if hr : rreqRetries ≤ series.retries ∧ ¬ rreqRatelimit < (rateLogCount d.node.rreqLog now).2 then
        isTrue ⟨p, series, hk, hs, hr⟩
      else
        isFalse fun ⟨q, t, hq, ht, hr'⟩ => by
          rw [hk] at hq
          obtain rfl := RreqJob.send.inj (Option.some.inj hq)
          obtain rfl := Option.some.inj (hs.symm.trans ht)
          exact hr hr'
    | none => isFalse fun ⟨q, t, hq, ht, _⟩ => by
        rw [hk] at hq
        obtain rfl := RreqJob.send.inj (Option.some.inj hq)
        rw [hs] at ht
        cases ht
  | some (.newSeries _ _) => isFalse fun ⟨_, _, h, _⟩ => by rw [hk] at h; cases h
  | some (.reschedule _ _) => isFalse fun ⟨_, _, h, _⟩ => by rw [hk] at h; cases h
  | some (.delete _) => isFalse fun ⟨_, _, h, _⟩ => by rw [hk] at h; cases h
  | none => isFalse fun ⟨_, _, h, _⟩ => by rw [hk] at h; cases h

instance (d : Discoveries) (act : DiscoveryStep) : Decidable (d.Retained act) :=
  match act with
  | .proceed k now =>
    inferInstanceAs (Decidable (¬ d.Refused (.proceed k now) ∧ ¬ d.LastSend (.proceed k now)))
  | .createRreq _ => isTrue ⟨not_false, not_false⟩
  | .popschedule _ => isTrue ⟨not_false, not_false⟩
  | .deleteSeriesEther _ => isTrue ⟨not_false, not_false⟩
  | .elsewhere _ => isTrue ⟨not_false, not_false⟩

def search : List DiscoveryStep := [.createRreq 5, .proceed 0 0, .proceed 0 0, .proceed 0 0]

def seeker : Node := aodvDbInit {} 9 []

theorem none_lost_answered : (Runs.exec step (start seeker) (search ++ [.deleteSeriesEther 5])).NoneLost := by
  have hdone : (Runs.exec step (start seeker) (search ++ [.deleteSeriesEther 5])).jobs = [] := by decide
  have hall : Runs.Always step Retained (start seeker) (search ++ [.deleteSeriesEther 5]) := by
    decide
  exact (none_lost_iff seeker _ hdone).mpr hall

/-- A second search for a host while the first one is running. -/
def searchedTwice : Discoveries := Runs.exec step (start seeker) (search ++ search.take 2)

/-- The message of the second search is neither destroyed nor carried by a series. -/
theorem searchedTwice_lost : searchedTwice.jobs = [] ∧ ¬ searchedTwice.NoneLost := by
  refine ⟨by decide, fun h => ?_⟩
  have hcarried : searchedTwice.carried = [0] := by decide
  have hdestroyed : searchedTwice.destroyed = [] := by decide
  rcases h.messages 1 (by decide) with ⟨hc, -⟩ | ⟨-, p, hp, -⟩
  · rw [hdestroyed] at hc
    cases hc
  · rw [hcarried] at hp
    have hm := List.mem_of_getElem? hp
    cases List.mem_singleton.mp hm

/-- A search that is never answered: its schedule comes up five times. -/
def unanswered : Discoveries :=
  Runs.exec step (start seeker) (search ++ (List.range 5).flatMap fun k =>
    [.popschedule (1000000 * (k + 1)), .proceed 0 (1000000 * (k + 1)), .proceed 0 (1000000 * (k + 1))])

/-- The series is neither freed nor referenced after its last RREQ. -/
theorem unanswered_lost : unanswered.jobs = [] ∧ ¬ unanswered.NoneLost := by
  refine ⟨by decide, fun h => ?_⟩
  have hfreed : unanswered.freed = [] := by decide
  have hsched : ¬ unanswered.node.Scheduled 0 := by decide
  rcases h.series 0 (by decide) with ⟨hc, -⟩ | ⟨-, hs⟩
  · rw [hfreed] at hc
    cases hc
  · exact hsched hs

/-- A message is lost when a series is refused, and a series when it gives up. -/
theorem search_lost :
    (searchedTwice.jobs = [] ∧ ¬ searchedTwice.NoneLost) ∧ unanswered.jobs = [] ∧ ¬ unanswered.NoneLost :=
  ⟨searchedTwice_lost, unanswered_lost⟩

end Discoveries

end DesAodv
