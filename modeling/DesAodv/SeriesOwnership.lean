import DesAodv.Frames

/-!
# Who owns a series

A RREQ series is held by a running invocation or by the schedule table. The
invariant `Owned` says so for every series that is not marked to be stopped;
every function on the series keeps it.
-/

namespace DesAodv

namespace Node

/-! ## The heap of series -/

theorem seriesDeref_ptr {n : Node} {p : Nat} {s : RreqSeries} (h : n.seriesDeref p = some s) : s.ptr = p :=
  Keyed.lookup_key h

theorem seriesWrite_deref (n : Node) (p : Nat) {f : RreqSeries → RreqSeries} (hf : ∀ s, (f s).ptr = s.ptr) (q : Nat) :
    (n.seriesWrite p f).seriesDeref q = if q = p then (n.seriesDeref p).map f else n.seriesDeref q := by
  have h : (n.seriesWrite p f).seriesDeref q = (n.seriesDeref q).map fun s => if s.ptr = p then f s else s :=
    Keyed.lookup_modify q p f hf n.series.heap
  rw [h]
  cases hq : n.seriesDeref q with
  | none =>
    by_cases hqp : q = p
    · rw [if_pos hqp, ← hqp, hq]
      rfl
    · rw [if_neg hqp]
      rfl
  | some s =>
    have hs := seriesDeref_ptr hq
    by_cases hqp : q = p
    · rw [if_pos hqp, ← hqp, hq, Option.map_some, Option.map_some, if_pos hs]
    · rw [if_neg hqp, Option.map_some, if_neg (by rw [hs]; exact hqp)]

theorem seriesFree_deref (n : Node) (p q : Nat) :
    (n.seriesFree p).seriesDeref q = if q = p then none else n.seriesDeref q := by
  by_cases hqp : q = p
  · rw [if_pos hqp, hqp]
    exact Keyed.lookup_erase_self p n.series.heap
  · rw [if_neg hqp]
    exact Keyed.lookup_erase_ne RreqSeries.ptr (Ne.symm hqp) n.series.heap

/-- The series is there and not marked to be stopped. -/
def Live (n : Node) (p : Nat) (s : RreqSeries) : Prop := n.seriesDeref p = some s ∧ s.stop = false

/-- A schedule refers to the series. -/
def Scheduled (n : Node) (p : Nat) : Prop := ∃ sc ∈ repeatsOf n.st, sc.scheduleParam = .series p

theorem find_none_iff {n : Node} {addr : MacAddr} :
    n.findSeriesUnlocked addr = none ↔ ∀ p ∈ n.series.seriesList, ∀ s, n.seriesDeref p = some s → s.key ≠ addr := by
  unfold findSeriesUnlocked
  rw [List.find?_eq_none]
  constructor
  · intro h p hp s hs hk
    apply h p hp
    rw [hs, Option.any_some, decide_eq_true hk]
  · intro h p hp ha
    obtain ⟨s, hs, hk⟩ := (Option.any_eq_true _ _).mp ha
    exact h p hp s hs (of_decide_eq_true hk)

theorem find_some {n : Node} {addr : MacAddr} {p : Nat} (h : n.findSeriesUnlocked addr = some p) :
    p ∈ n.series.seriesList ∧ ∃ s, n.seriesDeref p = some s ∧ s.key = addr := by
  unfold findSeriesUnlocked at h
  have hany := List.find?_some h
  obtain ⟨s, hs, hk⟩ := (Option.any_eq_true _ _).mp hany
  exact ⟨List.mem_of_find?_eq_some h, s, hs, of_decide_eq_true hk⟩

/-! ## Ownership -/

/-- The series in `running` are held by running invocations, one each. -/
structure Owned (n : Node) (running : List Nat) : Prop where
  safe : n.series.fault = false
  fresh : ∀ p s, n.seriesDeref p = some s → p < n.series.fresh
  nodup_list : n.series.seriesList.Nodup
  mem_list : ∀ p, p ∈ n.series.seriesList ↔ ∃ s, n.Live p s
  keys : ∀ p s p' s', n.Live p s → n.Live p' s' → s.key = s'.key → p = p'
  dest : ∀ p s, n.seriesDeref p = some s → s.msg.l25Dhost = s.key
  repeats : ((repeatsOf n.st).map Schedule.etherAddr).Nodup
  scheduled : ∀ sc ∈ repeatsOf n.st, ∃ p s, sc.scheduleParam = .series p ∧ n.Live p s ∧ s.key = sc.etherAddr
  held : running.Nodup
  allocated : ∀ p ∈ running, ∃ s, n.seriesDeref p = some s
  exclusive : ∀ p ∈ running, ¬ n.Scheduled p
  owned : ∀ p s, n.Live p s → p ∈ running ∨ n.Scheduled p

theorem start_owned (n : Node) : ({ n with series := seriesInit, st := [] } : Node).Owned [] where
  safe := rfl
  fresh := fun _ _ h => by cases h
  nodup_list := List.nodup_nil
  mem_list := fun _ => iff_of_false List.not_mem_nil fun ⟨_, h, _⟩ => by cases h
  keys := fun _ _ _ _ h => by cases h.1
  dest := fun _ _ h => by cases h
  repeats := List.nodup_nil
  scheduled := List.forall_mem_nil _
  held := List.nodup_nil
  allocated := List.forall_mem_nil _
  exclusive := List.forall_mem_nil _
  owned := fun _ _ h => by cases h.1

section
variable {n n' : Node} {running : List Nat} {p : Nat} {s : RreqSeries}

theorem Live.unique {s' : RreqSeries} (h : n.Live p s) (h' : n.Live p s') : s = s' :=
  Option.some.inj (h.1.symm.trans h'.1)

theorem Owned.perm {running' : List Nat} (h : n.Owned running) (hp : running.Perm running') : n.Owned running' :=
  { h with
    held := hp.nodup_iff.mp h.held
    allocated := fun p hm => h.allocated p (hp.mem_iff.mpr hm)
    exclusive := fun p hm => h.exclusive p (hp.mem_iff.mpr hm)
    owned := fun p s hl => (h.owned p s hl).imp_left hp.mem_iff.mp }

theorem scheduled_congr (hst : (repeatsOf n'.st).Perm (repeatsOf n.st)) (p : Nat) : n'.Scheduled p ↔ n.Scheduled p :=
  exists_congr fun _ => and_congr_left fun _ => hst.mem_iff

theorem Owned.congr (h : n.Owned running) (hs : n'.series = n.series)
    (hst : (repeatsOf n'.st).Perm (repeatsOf n.st)) : n'.Owned running := by
  have hderef : n'.seriesDeref = n.seriesDeref := by
    unfold seriesDeref
    rw [hs]
  have hlive : n'.Live = n.Live := by
    unfold Live
    rw [hderef]
  refine ⟨?_, ?_, ?_, ?_, ?_, ?_, ?_, ?_, h.held, ?_, ?_, ?_⟩
  · rw [hs]
    exact h.safe
  · rw [hderef, hs]
    exact h.fresh
  · rw [hs]
    exact h.nodup_list
  · rw [hs, hlive]
    exact h.mem_list
  · rw [hlive]
    exact h.keys
  · rw [hderef]
    exact h.dest
  · exact (hst.map _).nodup_iff.mpr h.repeats
  · rw [hlive]
    exact fun sc hsc => h.scheduled sc (hst.mem_iff.mp hsc)
  · rw [hderef]
    exact h.allocated
  · exact fun p hp hsc => h.exclusive p hp ((scheduled_congr hst p).mp hsc)
  · rw [hlive]
    exact fun p s hl => (h.owned p s hl).imp_right (scheduled_congr hst p).mpr

theorem Owned.leave (h : n.Owned (p :: running)) (hstop : ∀ s, ¬ n.Live p s) : n.Owned running :=
  { h with
    held := (List.nodup_cons.mp h.held).2
    allocated := fun q hq => h.allocated q (List.mem_cons_of_mem p hq)
    exclusive := fun q hq => h.exclusive q (List.mem_cons_of_mem p hq)
    owned := fun q s hl => by
      rcases h.owned q s hl with hq | hq
      · rcases List.mem_cons.mp hq with rfl | hq
        · exact absurd hl (hstop s)
        · exact .inl hq
      · exact .inr hq }

theorem Owned.no_schedule (h : n.Owned running) (hp : p ∈ running) (hl : n.Live p s) :
    ∀ sc ∈ repeatsOf n.st, sc.etherAddr ≠ s.key := by
  intro sc hsc ha
  obtain ⟨p', s', hparam, hl', hk⟩ := h.scheduled sc hsc
  obtain rfl := h.keys p' s' p s hl' hl (hk.trans ha)
  exact h.exclusive p' hp ⟨sc, hsc, hparam⟩

theorem erase_repeats (h : n.Owned running) (hp : p ∈ running) (hl : n.Live p s) :
    Keyed.erase Schedule.etherAddr s.key (repeatsOf n.st) = repeatsOf n.st := by
  apply List.filter_eq_self.mpr
  intro sc hsc
  exact decide_eq_true (h.no_schedule hp hl sc hsc)

theorem Owned.schedule_iff (h : n.Owned running) (hl : n.Live p s) {sc : Schedule} (hsc : sc ∈ repeatsOf n.st) :
    sc.scheduleParam = .series p ↔ sc.etherAddr = s.key := by
  obtain ⟨p', s', hparam, hl', hk⟩ := h.scheduled sc hsc
  constructor
  · intro hp
    obtain rfl : p' = p := by
      rw [hparam] at hp
      exact ScheduleParam.series.inj hp
    rw [hl.unique hl']
    exact hk.symm
  · intro ha
    obtain rfl := h.keys p' s' p s hl' hl (hk.trans ha)
    exact hparam

/-! ## The functions on series -/

theorem Owned.write (h : n.Owned running) {f : RreqSeries → RreqSeries} (hptr : ∀ s, (f s).ptr = s.ptr)
    (hkey : ∀ s, (f s).key = s.key) (hstop : ∀ s, (f s).stop = s.stop)
    (hdest : ∀ s, n.seriesDeref p = some s → (f s).msg.l25Dhost = s.msg.l25Dhost) :
    (n.seriesWrite p f).Owned running := by
  have hback : ∀ q s', (n.seriesWrite p f).seriesDeref q = some s' → ∃ s, n.seriesDeref q = some s ∧
      s'.key = s.key ∧ s'.stop = s.stop ∧ s'.msg.l25Dhost = s.msg.l25Dhost := by
    intro q s' hq
    rw [seriesWrite_deref n p hptr] at hq
    by_cases hqp : q = p
    · rw [if_pos hqp] at hq
      obtain ⟨s, hs, rfl⟩ := Option.map_eq_some_iff.mp hq
      exact ⟨s, hqp ▸ hs, hkey s, hstop s, hdest s hs⟩
    · rw [if_neg hqp] at hq
      exact ⟨s', hq, rfl, rfl, rfl⟩
  have hforth : ∀ q s, n.seriesDeref q = some s → ∃ s', (n.seriesWrite p f).seriesDeref q = some s' ∧
      s'.key = s.key ∧ s'.stop = s.stop := by
    intro q s hq
    rw [seriesWrite_deref n p hptr]
    by_cases hqp : q = p
    · rw [if_pos hqp, ← hqp, hq]
      exact ⟨f s, rfl, hkey s, hstop s⟩
    · rw [if_neg hqp]
      exact ⟨s, hq, rfl, rfl⟩
  have hlive : ∀ q s', (n.seriesWrite p f).Live q s' → ∃ s, n.Live q s ∧ s'.key = s.key := by
    intro q s' hl
    obtain ⟨s, hs, hk, hst, -⟩ := hback q s' hl.1
    exact ⟨s, ⟨hs, hst.symm.trans hl.2⟩, hk⟩
  have hlive' : ∀ q s, n.Live q s → ∃ s', (n.seriesWrite p f).Live q s' ∧ s'.key = s.key := by
    intro q s hl
    obtain ⟨s', hs, hk, hst⟩ := hforth q s hl.1
    exact ⟨s', ⟨hs, hst.trans hl.2⟩, hk⟩
  exact
    { safe := h.safe
      fresh := fun q s' hq => by
        obtain ⟨s, hs, -⟩ := hback q s' hq
        exact h.fresh q s hs
      nodup_list := h.nodup_list
      mem_list := fun q => by
        refine (h.mem_list q).trans ⟨?_, ?_⟩
        · intro hx
          obtain ⟨s, hl⟩ := hx
          obtain ⟨s', hl', -⟩ := hlive' q s hl
          exact ⟨s', hl'⟩
        · intro hx
          obtain ⟨s', hl'⟩ := hx
          obtain ⟨s, hl, -⟩ := hlive q s' hl'
          exact ⟨s, hl⟩
      keys := fun q s' q' s'' hl hl' hk => by
        obtain ⟨s, hs, hks⟩ := hlive q s' hl
        obtain ⟨t, ht, hkt⟩ := hlive q' s'' hl'
        exact h.keys q s q' t hs ht (hks.symm.trans (hk.trans hkt))
      dest := fun q s' hq => by
        obtain ⟨s, hs, hk, -, hd⟩ := hback q s' hq
        rw [hd, hk]
        exact h.dest q s hs
      repeats := h.repeats
      scheduled := fun sc hsc => by
        obtain ⟨q, s, hparam, hl, hk⟩ := h.scheduled sc hsc
        obtain ⟨s', hl', hk'⟩ := hlive' q s hl
        exact ⟨q, s', hparam, hl', hk'.trans hk⟩
      held := h.held
      allocated := fun q hq => by
        obtain ⟨s, hs⟩ := h.allocated q hq
        obtain ⟨s', hs', -⟩ := hforth q s hs
        exact ⟨s', hs'⟩
      exclusive := h.exclusive
      owned := fun q s' hl => by
        obtain ⟨s, hs, -⟩ := hlive q s' hl
        exact h.owned q s hs }

theorem Owned.retire (h : n.Owned running) (hl : n.Live p s) (hfault : n'.series.fault = n.series.fault)
    (hfresh : n'.series.fresh = n.series.fresh) (hlist : n'.series.seriesList = n.series.seriesList.erase p)
    (hother : ∀ q, q ≠ p → n'.seriesDeref q = n.seriesDeref q)
    (hself : ∀ s', n'.seriesDeref p = some s' → s'.stop = true ∧ s'.msg = s.msg ∧ s'.key = s.key)
    (hheld : p ∈ running → ∃ s', n'.seriesDeref p = some s')
    (hst : repeatsOf n'.st = Keyed.erase Schedule.etherAddr s.key (repeatsOf n.st)) : n'.Owned running := by
  have hlive : ∀ q t, n'.Live q t ↔ n.Live q t ∧ q ≠ p := by
    intro q t
    by_cases hq : q = p
    · refine iff_of_false ?_ fun ht => ht.2 hq
      intro hx
      obtain ⟨ht, hstop⟩ := hx
      rw [hq] at ht
      rw [(hself t ht).1] at hstop
      cases hstop
    · unfold Live
      rw [hother q hq]
      exact (and_iff_left hq).symm
  have hsub : ∀ sc ∈ repeatsOf n'.st, sc ∈ repeatsOf n.st ∧ sc.etherAddr ≠ s.key := by
    rw [hst]
    exact fun sc hsc => Keyed.mem_erase.mp hsc
  exact
    { safe := hfault.trans h.safe
      fresh := fun q t ht => by
        rw [hfresh]
        by_cases hq : q = p
        · rw [hq]
          exact h.fresh p s hl.1
        · rw [hother q hq] at ht
          exact h.fresh q t ht
      nodup_list := by
        rw [hlist]
        exact h.nodup_list.erase p
      mem_list := fun q => by
        rw [hlist, h.nodup_list.mem_erase_iff, h.mem_list q]
        constructor
        · intro hx
          obtain ⟨hq, t, ht⟩ := hx
          exact ⟨t, (hlive q t).mpr ⟨ht, hq⟩⟩
        · intro hx
          obtain ⟨t, ht⟩ := hx
          exact ⟨((hlive q t).mp ht).2, t, ((hlive q t).mp ht).1⟩
      keys := fun q t q' t' ht ht' => h.keys q t q' t' ((hlive q t).mp ht).1 ((hlive q' t').mp ht').1
      dest := fun q t ht => by
        by_cases hq : q = p
        · rw [hq] at ht
          obtain ⟨-, hm, hk⟩ := hself t ht
          rw [hm, hk]
          exact h.dest p s hl.1
        · rw [hother q hq] at ht
          exact h.dest q t ht
      repeats := by
        rw [hst]
        exact Keyed.nodup_erase h.repeats s.key
      scheduled := fun sc hsc => by
        obtain ⟨hold, hne⟩ := hsub sc hsc
        obtain ⟨q, t, hparam, ht, hk⟩ := h.scheduled sc hold
        refine ⟨q, t, hparam, (hlive q t).mpr ⟨ht, ?_⟩, hk⟩
        intro hx
        obtain rfl := hx
        rw [ht.unique hl] at hk
        exact hne hk.symm
      held := h.held
      allocated := fun q hq => by
        by_cases hqp : q = p
        · rw [hqp] at hq ⊢
          exact hheld hq
        · rw [hother q hqp]
          exact h.allocated q hq
      exclusive := fun q hq ⟨sc, hsc, hparam⟩ => h.exclusive q hq ⟨sc, (hsub sc hsc).1, hparam⟩
      owned := fun q t ht => by
        obtain ⟨ht, hq⟩ := (hlive q t).mp ht
        rcases h.owned q t ht with hr | ⟨sc, hsc, hparam⟩
        · exact .inl hr
        · refine .inr ⟨sc, ?_, hparam⟩
          rw [hst]
          refine Keyed.mem_erase.mpr ⟨hsc, ?_⟩
          intro ha
          have hk := (h.schedule_iff ht hsc).mp hparam
          exact hq (h.keys q t p s ht hl (hk.symm.trans ha)) }

theorem newSeries_started {msg : DessertMsg} (hnone : n.findSeriesUnlocked msg.l25Dhost = none) :
    n.aodvPipelineNewSeries msg =
      ({ n with series := { n.series with
          heap := n.series.heap ++
            [{ ptr := n.series.fresh, msg, retries := 0, key := msg.l25Dhost, stop := false }]
          seriesList := n.series.seriesList ++ [n.series.fresh]
          fresh := n.series.fresh + 1 } }, some n.series.fresh) := by
  unfold aodvPipelineNewSeries
  rw [hnone]

theorem Owned.unborn (h : n.Owned running) : n.seriesDeref n.series.fresh = none := by
  cases hs : n.seriesDeref n.series.fresh with
  | none => rfl
  | some s => exact absurd (h.fresh _ s hs) (Nat.lt_irrefl _)

theorem newSeries_deref (h : n.Owned running) {msg : DessertMsg} (hnone : n.findSeriesUnlocked msg.l25Dhost = none)
    (q : Nat) : (n.aodvPipelineNewSeries msg).1.seriesDeref q =
      if q = n.series.fresh then
        some { ptr := n.series.fresh, msg, retries := 0, key := msg.l25Dhost, stop := false }
      else n.seriesDeref q := by
  rw [newSeries_started hnone]
  by_cases hq : q = n.series.fresh
  · rw [if_pos hq, hq]
    exact @Keyed.lookup_concat_self RreqSeries Nat _ RreqSeries.ptr n.series.heap
      { ptr := n.series.fresh, msg, retries := 0, key := msg.l25Dhost, stop := false } h.unborn
  · rw [if_neg hq]
    exact Keyed.lookup_concat_ne (Ne.symm hq)

theorem Owned.old_ne (h : n.Owned running) {q : Nat} {t : RreqSeries} (ht : n.seriesDeref q = some t) :
    q ≠ n.series.fresh :=
  Nat.ne_of_lt (h.fresh q t ht)

theorem newSeries_live (h : n.Owned running) {msg : DessertMsg} (hnone : n.findSeriesUnlocked msg.l25Dhost = none)
    (q : Nat) (t : RreqSeries) : (n.aodvPipelineNewSeries msg).1.Live q t ↔ n.Live q t ∨ q = n.series.fresh ∧
      t = { ptr := n.series.fresh, msg, retries := 0, key := msg.l25Dhost, stop := false } := by
  unfold Live
  rw [newSeries_deref h hnone]
  by_cases hq : q = n.series.fresh
  · rw [if_pos hq]
    constructor
    · intro hx
      obtain ⟨ht, -⟩ := hx
      exact .inr ⟨hq, (Option.some.inj ht).symm⟩
    · intro hx
      rcases hx with ⟨ht, -⟩ | ⟨-, rfl⟩
      · exact absurd hq (h.old_ne ht)
      · exact ⟨rfl, rfl⟩
  · rw [if_neg hq]
    exact ⟨.inl, fun ht => ht.resolve_right fun hn => hq hn.1⟩

theorem Owned.new (h : n.Owned running) {msg : DessertMsg} (hnone : n.findSeriesUnlocked msg.l25Dhost = none) :
    (n.aodvPipelineNewSeries msg).1.Owned (n.series.fresh :: running) := by
  have hderef := newSeries_deref h hnone
  have heq := newSeries_started hnone
  have hlist : (n.aodvPipelineNewSeries msg).1.series.seriesList = n.series.seriesList ++ [n.series.fresh] := by
    rw [heq]
  have hst : (n.aodvPipelineNewSeries msg).1.st = n.st := by rw [heq]
  have hlive := newSeries_live h hnone
  have hkey : ∀ q t, n.Live q t → t.key ≠ msg.l25Dhost := fun q t ht =>
    find_none_iff.mp hnone q ((h.mem_list q).mpr ⟨t, ht⟩) t ht.1
  exact
    { safe := by
        rw [heq]
        exact h.safe
      fresh := fun q t ht => by
        have hf : (n.aodvPipelineNewSeries msg).1.series.fresh = n.series.fresh + 1 := by rw [heq]
        rw [hf]
        rw [hderef] at ht
        by_cases hq : q = n.series.fresh
        · omega
        · rw [if_neg hq] at ht
          exact Nat.lt_succ_of_lt (h.fresh q t ht)
      nodup_list := by
        rw [hlist]
        apply List.Nodup.append h.nodup_list (List.nodup_singleton _)
        intro q hq hq'
        obtain ⟨t, ht⟩ := (h.mem_list q).mp hq
        exact h.old_ne ht.1 (List.mem_singleton.mp hq')
      mem_list := fun q => by
        rw [hlist, List.mem_append, h.mem_list, List.mem_singleton]
        constructor
        · intro hx
          rcases hx with ⟨t, ht⟩ | hq
          · exact ⟨t, (hlive q t).mpr (.inl ht)⟩
          · exact ⟨_, (hlive q _).mpr (.inr ⟨hq, rfl⟩)⟩
        · intro hx
          obtain ⟨t, ht⟩ := hx
          rcases (hlive q t).mp ht with ht | ⟨hq, -⟩
          · exact .inl ⟨t, ht⟩
          · exact .inr hq
      keys := fun q t q' t' ht ht' hk => by
        rcases (hlive q t).mp ht with ht | ⟨hq, rfl⟩ <;> rcases (hlive q' t').mp ht' with ht' | ⟨hq', rfl⟩
        · exact h.keys q t q' t' ht ht' hk
        · exact absurd hk (hkey q t ht)
        · exact absurd hk.symm (hkey q' t' ht')
        · rw [hq, hq']
      dest := fun q t ht => by
        rw [hderef] at ht
        by_cases hq : q = n.series.fresh
        · rw [if_pos hq] at ht
          rw [← Option.some.inj ht]
        · rw [if_neg hq] at ht
          exact h.dest q t ht
      repeats := by
        rw [hst]
        exact h.repeats
      scheduled := by
        rw [hst]
        intro sc hsc
        obtain ⟨q, t, hparam, ht, hk⟩ := h.scheduled sc hsc
        exact ⟨q, t, hparam, (hlive q t).mpr (.inl ht), hk⟩
      held := by
        refine List.nodup_cons.mpr ⟨?_, h.held⟩
        intro hr
        obtain ⟨t, ht⟩ := h.allocated _ hr
        exact h.old_ne ht rfl
      allocated := fun q hq => by
        rw [hderef]
        by_cases hqf : q = n.series.fresh
        · rw [if_pos hqf]
          exact ⟨_, rfl⟩
        · rw [if_neg hqf]
          exact h.allocated q ((List.mem_cons.mp hq).resolve_left hqf)
      exclusive := fun q hq => by
        unfold Scheduled
        rw [hst]
        intro hsc
        rcases List.mem_cons.mp hq with rfl | hq
        · obtain ⟨sc, hm, hparam⟩ := hsc
          obtain ⟨q', t, hparam', ht, -⟩ := h.scheduled sc hm
          rw [hparam] at hparam'
          exact h.old_ne ht.1 (ScheduleParam.series.inj hparam').symm
        · exact h.exclusive q hq hsc
      owned := fun q t ht => by
        unfold Scheduled
        rw [hst]
        rcases (hlive q t).mp ht with ht | ⟨hq, -⟩
        · exact (h.owned q t ht).imp_left (List.mem_cons_of_mem _)
        · exact .inl (hq ▸ List.mem_cons_self) }

/-- The mark of `aodv_pipeline_delete_series_unlocked`. -/
def stopSeries (n : Node) (p : Nat) : Node :=
  { n with series := { n.series with seriesList := n.series.seriesList.erase p } }.seriesWrite p fun s =>
    { s with stop := true }

theorem stopSeries_deref (n : Node) (p q : Nat) : (n.stopSeries p).seriesDeref q =
    if q = p then (n.seriesDeref p).map fun s => { s with stop := true } else n.seriesDeref q :=
  seriesWrite_deref { n with series := { n.series with seriesList := n.series.seriesList.erase p } } p
    (f := fun s => { s with stop := true }) (fun _ => rfl) q

theorem deleteSeries_fresh (n : Node) (p : Nat) : (n.aodvPipelineDeleteSeries p).series.fresh = n.series.fresh := by
  unfold aodvPipelineDeleteSeries
  split
  · rfl
  · split
    · rfl
    · simp only
      split <;> rfl

theorem deleteSeries_stopped (hs : n.seriesDeref p = some s) (hstop : s.stop = true) :
    n.aodvPipelineDeleteSeries p = n := by
  unfold aodvPipelineDeleteSeries
  rw [hs]
  exact if_pos hstop

theorem deleteSeries_live (h : n.Owned running) (hl : n.Live p s) :
    n.aodvPipelineDeleteSeries p =
      if (aodvDbScDropschedule n.st s.key .repeatRreq).2 then
        ({ n.stopSeries p with st := (aodvDbScDropschedule n.st s.key .repeatRreq).1 } : Node).seriesFree p
      else { n.stopSeries p with st := (aodvDbScDropschedule n.st s.key .repeatRreq).1 } := by
  unfold aodvPipelineDeleteSeries
  simp only [hl.1, hl.2]
  rw [← h.dest p s hl.1]
  rfl

theorem dropped_iff_scheduled (h : n.Owned running) (hl : n.Live p s) :
    (aodvDbScDropschedule n.st s.key .repeatRreq).2 = true ↔ n.Scheduled p :=
  (dropped_iff n.st s.key).trans (exists_congr fun _ => and_congr_right fun hsc => (h.schedule_iff hl hsc).symm)

/-- Deleting a series that waits in the schedule table frees it. -/
theorem Owned.delete_scheduled (h : n.Owned running) (hl : n.Live p s) (hsc : n.Scheduled p) :
    (n.aodvPipelineDeleteSeries p).Owned running ∧
      (∀ q, (n.aodvPipelineDeleteSeries p).seriesDeref q = if q = p then none else n.seriesDeref q) ∧
      repeatsOf (n.aodvPipelineDeleteSeries p).st = Keyed.erase Schedule.etherAddr s.key (repeatsOf n.st) := by
  have heq := deleteSeries_live h hl
  rw [if_pos ((dropped_iff_scheduled h hl).mpr hsc)] at heq
  have hderef : ∀ q, (n.aodvPipelineDeleteSeries p).seriesDeref q = if q = p then none else n.seriesDeref q := by
    intro q
    rw [heq, seriesFree_deref]
    by_cases hq : q = p
    · rw [if_pos hq, if_pos hq]
    · rw [if_neg hq, if_neg hq]
      exact (stopSeries_deref n p q).trans (if_neg hq)
  have hst : repeatsOf (n.aodvPipelineDeleteSeries p).st =
      Keyed.erase Schedule.etherAddr s.key (repeatsOf n.st) := by
    rw [heq]
    exact drop_repeats n.st s.key
  refine ⟨?_, hderef, hst⟩
  apply h.retire hl ?_ ?_ ?_ ?_ ?_ ?_ hst
  · rw [heq]; rfl
  · rw [heq]; rfl
  · rw [heq]; rfl
  · exact fun q hq => (hderef q).trans (if_neg hq)
  · intro s' hs'
    rw [hderef, if_pos rfl] at hs'
    cases hs'
  · exact fun hr => absurd hsc (h.exclusive p hr)

/-- Deleting a series that a running invocation holds marks it. -/
theorem Owned.delete_running (h : n.Owned running) (hl : n.Live p s) (hr : p ∈ running) :
    (n.aodvPipelineDeleteSeries p).Owned running ∧
      (∀ q, (n.aodvPipelineDeleteSeries p).seriesDeref q =
        if q = p then some { s with stop := true } else n.seriesDeref q) ∧
      repeatsOf (n.aodvPipelineDeleteSeries p).st = repeatsOf n.st := by
  have heq := deleteSeries_live h hl
  rw [if_neg fun hd => h.exclusive p hr ((dropped_iff_scheduled h hl).mp hd)] at heq
  have hderef : ∀ q, (n.aodvPipelineDeleteSeries p).seriesDeref q =
      if q = p then some { s with stop := true } else n.seriesDeref q := by
    intro q
    rw [heq]
    refine (stopSeries_deref n p q).trans ?_
    rw [hl.1]
    rfl
  have hst : repeatsOf (n.aodvPipelineDeleteSeries p).st =
      Keyed.erase Schedule.etherAddr s.key (repeatsOf n.st) := by
    rw [heq]
    exact drop_repeats n.st s.key
  refine ⟨?_, hderef, hst.trans (erase_repeats h hr hl)⟩
  apply h.retire hl ?_ ?_ ?_ ?_ ?_ ?_ hst
  · rw [heq]; rfl
  · rw [heq]; rfl
  · rw [heq]; rfl
  · exact fun q hq => (hderef q).trans (if_neg hq)
  · intro s' hs'
    rw [hderef, if_pos rfl] at hs'
    obtain rfl := Option.some.inj hs'
    exact ⟨rfl, rfl, rfl⟩
  · intro _
    rw [hderef, if_pos rfl]
    exact ⟨_, rfl⟩

theorem Owned.delete (h : n.Owned (p :: running)) : (n.aodvPipelineDeleteSeries p).Owned running := by
  obtain ⟨s, hs⟩ := h.allocated p List.mem_cons_self
  cases hstop : s.stop with
  | true =>
    rw [deleteSeries_stopped hs hstop]
    apply h.leave
    intro s' hx
    obtain ⟨hs', hstop'⟩ := hx
    rw [hs] at hs'
    rw [← Option.some.inj hs', hstop] at hstop'
    cases hstop'
  | false =>
    obtain ⟨hown, hderef, -⟩ := h.delete_running ⟨hs, hstop⟩ List.mem_cons_self
    apply hown.leave
    intro s' hx
    obtain ⟨hs', hstop'⟩ := hx
    rw [hderef, if_pos rfl] at hs'
    rw [← Option.some.inj hs'] at hstop'
    cases hstop'

theorem Owned.deleteEther (h : n.Owned running) (addr : MacAddr) :
    (n.aodvPipelineDeleteSeriesEther addr).Owned running := by
  unfold aodvPipelineDeleteSeriesEther
  split
  · exact h
  · rename_i p hp
    obtain ⟨hm, -⟩ := find_some hp
    obtain ⟨s, hl⟩ := (h.mem_list p).mp hm
    rcases h.owned p s hl with hr | hsc
    · exact (h.delete_running hl hr).1
    · exact (h.delete_scheduled hl hsc).1

theorem reschedule_live (h : n.Owned (p :: running)) (hl : n.Live p s) (when : Timeval) :
    n.aodvPipelineRescheduleSeries when p =
        { n with st := aodvDbScAddschedule n.st when s.key .repeatRreq (.series p) } ∧
      (repeatsOf (n.aodvPipelineRescheduleSeries when p).st).Perm
        ({ executeTs := when, etherAddr := s.key, scheduleId := .repeatRreq, scheduleParam := .series p } ::
          repeatsOf n.st) := by
  have heq : n.aodvPipelineRescheduleSeries when p =
      { n with st := aodvDbScAddschedule n.st when s.key .repeatRreq (.series p) } := by
    unfold aodvPipelineRescheduleSeries
    simp only [hl.1, hl.2]
    rw [← h.dest p s hl.1]
    rfl
  refine ⟨heq, ?_⟩
  rw [heq, ← erase_repeats h List.mem_cons_self hl]
  refine (add_repeats n.st when s.key (.series p)).trans (List.Perm.of_eq ?_)
  rw [erase_repeats h List.mem_cons_self hl]

theorem reschedule_stopped (hs : n.seriesDeref p = some s) (hstop : s.stop = true) (when : Timeval) :
    n.aodvPipelineRescheduleSeries when p = n.seriesFree p := by
  unfold aodvPipelineRescheduleSeries
  rw [hs]
  exact if_pos hstop

theorem Owned.free (h : n.Owned (p :: running)) (hs : n.seriesDeref p = some s) (hstop : s.stop = true) :
    (n.seriesFree p).Owned running := by
  have hgone : ∀ t, ¬ n.Live p t := by
    intro t hx
    obtain ⟨ht, hstop'⟩ := hx
    rw [hs] at ht
    rw [← Option.some.inj ht, hstop] at hstop'
    cases hstop'
  have hleft := h.leave hgone
  have hlive : ∀ q t, (n.seriesFree p).Live q t ↔ n.Live q t := by
    intro q t
    unfold Live
    rw [seriesFree_deref]
    by_cases hq : q = p
    · rw [if_pos hq, hq]
      refine iff_of_false ?_ (hgone t)
      intro hx
      obtain ⟨ht, -⟩ := hx
      cases ht
    · rw [if_neg hq]
  have hsome : ∀ q t, (n.seriesFree p).seriesDeref q = some t → n.seriesDeref q = some t := by
    intro q t ht
    rw [seriesFree_deref] at ht
    by_cases hq : q = p
    · rw [if_pos hq] at ht
      cases ht
    · rwa [if_neg hq] at ht
  exact
    { hleft with
      fresh := fun q t ht => h.fresh q t (hsome q t ht)
      mem_list := fun q => (h.mem_list q).trans (exists_congr fun t => (hlive q t).symm)
      keys := fun q t q' t' ht ht' => h.keys q t q' t' ((hlive q t).mp ht) ((hlive q' t').mp ht')
      dest := fun q t ht => h.dest q t (hsome q t ht)
      scheduled := fun sc hsc => by
        obtain ⟨q, t, hparam, ht, hk⟩ := h.scheduled sc hsc
        exact ⟨q, t, hparam, (hlive q t).mpr ht, hk⟩
      allocated := fun q hq => by
        rw [seriesFree_deref, if_neg ?_]
        · exact hleft.allocated q hq
        · intro hx
          obtain rfl := hx
          exact (List.nodup_cons.mp h.held).1 hq
      owned := fun q t ht => hleft.owned q t ((hlive q t).mp ht) }

theorem Owned.reschedule (h : n.Owned (p :: running)) (when : Timeval) :
    (n.aodvPipelineRescheduleSeries when p).Owned running := by
  obtain ⟨s, hs⟩ := h.allocated p List.mem_cons_self
  cases hstop : s.stop with
  | true =>
    rw [reschedule_stopped hs hstop]
    exact h.free hs hstop
  | false =>
    have hl : n.Live p s := ⟨hs, hstop⟩
    obtain ⟨heq, hst⟩ := reschedule_live h hl when
    rw [heq] at hst ⊢
    have hmem : ∀ sc, sc ∈ repeatsOf (aodvDbScAddschedule n.st when s.key .repeatRreq (.series p)) ↔
        sc = { executeTs := when, etherAddr := s.key, scheduleId := .repeatRreq, scheduleParam := .series p } ∨
          sc ∈ repeatsOf n.st := fun sc => hst.mem_iff.trans List.mem_cons
    exact
      { h with
        repeats := by
          apply (hst.map _).nodup_iff.mpr
          rw [List.map_cons, List.nodup_cons]
          refine ⟨?_, h.repeats⟩
          intro hm
          obtain ⟨sc, hsc, ha⟩ := List.mem_map.mp hm
          exact h.no_schedule List.mem_cons_self hl sc hsc ha
        scheduled := fun sc hsc => by
          rcases (hmem sc).mp hsc with rfl | hsc
          · exact ⟨p, s, rfl, hl, rfl⟩
          · exact h.scheduled sc hsc
        held := (List.nodup_cons.mp h.held).2
        allocated := fun q hq => h.allocated q (List.mem_cons_of_mem p hq)
        exclusive := fun q hq ⟨sc, hsc, hparam⟩ => by
          rcases (hmem sc).mp hsc with rfl | hsc
          · rw [← ScheduleParam.series.inj hparam] at hq
            exact (List.nodup_cons.mp h.held).1 hq
          · exact h.exclusive q (List.mem_cons_of_mem p hq) ⟨sc, hsc, hparam⟩
        owned := fun q t ht => by
          rcases h.owned q t ht with hq | ⟨sc, hsc, hparam⟩
          · rcases List.mem_cons.mp hq with rfl | hq
            · exact .inr ⟨_, (hmem _).mpr (.inl rfl), rfl⟩
            · exact .inl hq
          · exact .inr ⟨sc, (hmem sc).mpr (.inr hsc), hparam⟩ }

theorem Owned.pop (h : n.Owned running) {now : Timeval} {sc : Schedule} {rest : List Schedule}
    (hpop : aodvDbScPopschedule n.st now = some (sc, rest)) (htype : sc.scheduleId = .repeatRreq) :
    ∃ p s, sc.scheduleParam = .series p ∧ n.Live p s ∧ repeatsOf n.st = sc :: repeatsOf rest ∧
      ({ n with st := rest } : Node).Owned (p :: running) := by
  have hst := popschedule_eq hpop
  have hrep : repeatsOf n.st = sc :: repeatsOf rest := by
    unfold repeatsOf
    rw [hst]
    exact List.filter_cons_of_pos (by simpa using htype)
  obtain ⟨p, s, hparam, hl, hk⟩ := h.scheduled sc (hrep ▸ List.mem_cons_self)
  refine ⟨p, s, hparam, hl, hrep, ?_⟩
  have hn := h.repeats
  rw [hrep, List.map_cons, List.nodup_cons] at hn
  have hsub : ∀ x ∈ repeatsOf rest, x ∈ repeatsOf n.st := fun x hx => hrep ▸ List.mem_cons_of_mem sc hx
  exact
    { h with
      repeats := hn.2
      scheduled := fun x hx => h.scheduled x (hsub x hx)
      held := List.nodup_cons.mpr ⟨fun hr => h.exclusive p hr ⟨sc, hrep ▸ List.mem_cons_self, hparam⟩, h.held⟩
      allocated := fun q hq => by
        rcases List.mem_cons.mp hq with rfl | hq
        · exact ⟨s, hl.1⟩
        · exact h.allocated q hq
      exclusive := fun q hq ⟨x, hx, hx'⟩ => by
        rcases List.mem_cons.mp hq with rfl | hq
        · have ha := (h.schedule_iff hl (hsub x hx)).mp hx'
          exact hn.1 (List.mem_map.mpr ⟨x, hx, ha.trans hk⟩)
        · exact h.exclusive q hq ⟨x, hsub x hx, hx'⟩
      owned := fun q t ht => by
        rcases h.owned q t ht with hq | ⟨x, hx, hx'⟩
        · exact .inl (List.mem_cons_of_mem p hq)
        · rw [hrep] at hx
          rcases List.mem_cons.mp hx with rfl | hx
          · rw [hparam] at hx'
            exact .inl (ScheduleParam.series.inj hx' ▸ List.mem_cons_self)
          · exact .inr ⟨x, hx, hx'⟩ }

end

end Node

/-! ## The parts of a call -/

/-- What an invocation has still to do: start a series for the message it has created, send a RREQ of the
series it holds, or let go of the series. -/
inductive RreqJob
  | newSeries (id : Nat) (msg : DessertMsg)
  | send (ptr : Nat)
  | reschedule (when : Timeval) (ptr : Nat)
  | delete (ptr : Nat)
  deriving DecidableEq, Repr

/-- The series an invocation holds. -/
def RreqJob.series : RreqJob → Option Nat
  | .newSeries _ _ => none
  | .send ptr => some ptr
  | .reschedule _ ptr => some ptr
  | .delete ptr => some ptr

namespace Node

/-- `aodv_send_rreq_real` up to the point where it lets go of the series. -/
def sendSeries (n : Node) (ptr : Nat) (now : Timeval) : Node × List Sent × Option RreqJob :=
  match n.seriesDeref ptr with
  | none => (n.seriesFault, [], none)
  | some series =>
    let (rreqLog, rreqCount) := aodvDbRlGetrreqcount n.rreqLog now
    let n := { n with rreqLog }
    if rreqCount > rreqRatelimit then (n, [], some (.reschedule (hfTvAddMs now 20) ptr))
    else
      let seqNum := n.seqNumGlobal + 1
      let msg := numberRreq series.msg seqNum
      let n := { n with seqNumGlobal := seqNum, rreqLog := aodvDbRlPutrreq n.rreqLog now now }
      let n := n.seriesWrite ptr fun s => { s with msg }
      if series.retries ≥ rreqRetries then (n, [.mesh msg none], some (.delete ptr))
      else
        let ringTraversalTime := 2 * nodeTraversalTime * min netDiameter msg.ttl.toNat
        let n := n.seriesWrite ptr fun s =>
          { s with retries := s.retries + 1, msg := { s.msg with ttl := nextTtl n.cfg.ringSearch s.msg.ttl } }
        (n, [.mesh msg none], some (.reschedule (hfTvAddMs now ringTraversalTime) ptr))

/-- The rest of it. -/
def letGo (n : Node) : RreqJob → Node
  | .reschedule when ptr => n.aodvPipelineRescheduleSeries when ptr
  | .delete ptr => n.aodvPipelineDeleteSeries ptr
  | _ => n

theorem sendRreqReal_eq (n : Node) (ptr : Nat) (now : Timeval) :
    n.aodvSendRreqReal ptr now =
      (((n.sendSeries ptr now).2.2.elim (n.sendSeries ptr now).1 (n.sendSeries ptr now).1.letGo),
        (n.sendSeries ptr now).2.1) := by
  unfold aodvSendRreqReal sendSeries
  cases n.seriesDeref ptr with
  | none => rfl
  | some series =>
    simp only
    by_cases hc : (aodvDbRlGetrreqcount n.rreqLog now).2 > rreqRatelimit
    · rw [if_pos hc, if_pos hc]
      rfl
    · rw [if_neg hc, if_neg hc]
      by_cases hr : series.retries ≥ rreqRetries
      · rw [if_pos hr, if_pos hr]
        rfl
      · rw [if_neg hr, if_neg hr]
        rfl

/-- What the send does: it is put off, or it is the last one of the series, or one of the others. -/
theorem sendSeries_cases {n : Node} {p : Nat} {s : RreqSeries} (hs : n.seriesDeref p = some s) (now : Timeval) :
    (rreqRatelimit < (rateLogCount n.rreqLog now).2 ∧ ∃ rreqLog when,
      n.sendSeries p now = ({ n with rreqLog }, [], some (.reschedule when p))) ∨
    (¬ rreqRatelimit < (rateLogCount n.rreqLog now).2 ∧ ∃ rreqLog seqNumGlobal msg, msg.ttl = s.msg.ttl ∧
      msg.l25Dhost = s.msg.l25Dhost ∧
      ((s.retries ≥ rreqRetries ∧ n.sendSeries p now =
          ({ n with rreqLog, seqNumGlobal }.seriesWrite p fun s => { s with msg }, [.mesh msg none],
            some (.delete p))) ∨
        (s.retries < rreqRetries ∧ ∃ when, n.sendSeries p now =
          (({ n with rreqLog, seqNumGlobal }.seriesWrite p fun s => { s with msg }).seriesWrite p fun s =>
              { s with
                retries := s.retries + 1
                msg := { s.msg with ttl := nextTtl n.cfg.ringSearch s.msg.ttl } }, [.mesh msg none],
            some (.reschedule when p))))) := by
  unfold sendSeries
  rw [hs]
  simp only
  by_cases hc : (aodvDbRlGetrreqcount n.rreqLog now).2 > rreqRatelimit
  · rw [if_pos hc]
    exact .inl ⟨hc, _, _, rfl⟩
  · rw [if_neg hc]
    refine .inr ⟨hc, aodvDbRlPutrreq (aodvDbRlGetrreqcount n.rreqLog now).1 now now, n.seqNumGlobal + 1,
      numberRreq s.msg (n.seqNumGlobal + 1), numberRreq_ttl _ _, numberRreq_dest _ _, ?_⟩
    by_cases hr : s.retries ≥ rreqRetries
    · rw [if_pos hr]
      exact .inl ⟨hr, rfl⟩
    · rw [if_neg hr]
      exact .inr ⟨Nat.lt_of_not_le hr, _, rfl⟩

section
variable {n : Node} {running : List Nat} {p : Nat} {s : RreqSeries}

theorem Owned.send (h : n.Owned (p :: running)) (now : Timeval) :
    (n.sendSeries p now).1.Owned (p :: running) ∧
      ∃ job, (n.sendSeries p now).2.2 = some job ∧ job.series = some p := by
  obtain ⟨s, hs⟩ := h.allocated p List.mem_cons_self
  have hwrite : ∀ rreqLog seqNumGlobal (msg : DessertMsg), msg.l25Dhost = s.msg.l25Dhost →
      (({ n with rreqLog, seqNumGlobal } : Node).seriesWrite p fun s => { s with msg }).Owned (p :: running) := by
    intro rreqLog seqNumGlobal msg hdest
    have hc : ({ n with rreqLog, seqNumGlobal } : Node).Owned (p :: running) := h.congr rfl (List.Perm.refl _)
    refine hc.write ?_ ?_ ?_ ?_
    · exact fun _ => rfl
    · exact fun _ => rfl
    · exact fun _ => rfl
    · intro t ht
      obtain rfl := Option.some.inj (hs.symm.trans ht)
      exact hdest
  rcases sendSeries_cases hs now with ⟨-, rreqLog, when, heq⟩ |
    ⟨-, rreqLog, seqNumGlobal, msg, -, hdest, ⟨-, heq⟩ | ⟨-, when, heq⟩⟩
  · rw [heq]
    exact ⟨h.congr rfl (List.Perm.refl _), _, rfl, rfl⟩
  · rw [heq]
    exact ⟨hwrite rreqLog seqNumGlobal msg hdest, _, rfl, rfl⟩
  · rw [heq]
    refine ⟨(hwrite rreqLog seqNumGlobal msg hdest).write ?_ ?_ ?_ ?_, _, rfl, rfl⟩
    · exact fun _ => rfl
    · exact fun _ => rfl
    · exact fun _ => rfl
    · exact fun _ _ => rfl

theorem Owned.sendReal (h : n.Owned (p :: running)) (now : Timeval) :
    (n.aodvSendRreqReal p now).1.Owned running := by
  obtain ⟨hown, -⟩ := h.send now
  obtain ⟨s, hs⟩ := h.allocated p List.mem_cons_self
  rw [sendRreqReal_eq]
  rcases sendSeries_cases hs now with ⟨-, rreqLog, when, heq⟩ |
    ⟨-, rreqLog, seqNumGlobal, msg, -, -, ⟨-, heq⟩ | ⟨-, when, heq⟩⟩
  · rw [heq] at hown ⊢
    exact hown.reschedule when
  · rw [heq] at hown ⊢
    exact hown.delete
  · rw [heq] at hown ⊢
    exact hown.reschedule when

theorem Owned.sendRreq (h : n.Owned running) (host : MacAddr) (now : Timeval) :
    (n.aodvSendRreq host now).1.Owned running := by
  simp only [aodvSendRreq]
  cases hf : n.findSeriesUnlocked host with
  | some q =>
    have hn : n.aodvPipelineNewSeries (n.createRreq host (if n.cfg.ringSearch then ttlStart else ttlMax)
        n.cfg.metricStartvalue) = (n, none) := by
      unfold aodvPipelineNewSeries
      have hd : (n.createRreq host (if n.cfg.ringSearch then ttlStart else ttlMax)
        n.cfg.metricStartvalue).l25Dhost = host := rfl
      rw [hd, hf]
    rw [hn]
    exact h
  | none =>
    have hn := @Owned.new n running h (n.createRreq host (if n.cfg.ringSearch then ttlStart else ttlMax)
      n.cfg.metricStartvalue) hf
    rw [newSeries_started hf] at hn ⊢
    exact hn.sendReal now

end

end Node

end DesAodv
