import DesAodv.NodeSteps
import DesAodv.TimeslotMap

/-!
# The lifetime of a route

The timeslot of the routing table holds a deadline for each entry. What the
operations do to it, and how long an entry stays that has been created, looked
up or captured.
-/

namespace DesAodv

open Deadlines

/-! ## Additions and purges at one time -/

/-- From `ts` to `ts'` by additions of objects that meet `P` and purges, all at the time `now`. -/
inductive Timeslot.At (now : Timeval) (P : Nat → Prop) (ts : Timeslot Nat) : Timeslot Nat → Prop
  | same : At now P ts ts
  | add {ts' : Timeslot Nat} (h : At now P ts ts') (q : Nat) (hq : P q) :
      At now P ts (timeslotAddobject ts' now now q).1
  | purge {ts' : Timeslot Nat} (h : At now P ts ts') : At now P ts (timeslotPurgeobjects ts' now).1

namespace Timeslot

section
variable {now : Timeval} {P : Nat → Prop} {ts ts' : Timeslot Nat}

theorem At.imp {Q : Nat → Prop} (h : ts.At now P ts') (hPQ : ∀ q, P q → Q q) : ts.At now Q ts' := by
  induction h with
  | same => exact .same
  | add _ q hq ih => exact ih.add q (hPQ q hq)
  | purge _ ih => exact ih.purge

theorem At.trans {ts'' : Timeslot Nat} (h : ts.At now P ts') (h' : ts'.At now P ts'') : ts.At now P ts'' := by
  induction h' with
  | same => exact h
  | add _ q hq ih => exact ih.add q hq
  | purge _ ih => exact ih.purge

theorem At.timeout (h : ts.At now P ts') : ts'.purgeTimeout = ts.purgeTimeout := by
  induction h with
  | same => rfl
  | add _ q _ ih => exact (add_timeout _ now now q _).trans ih
  | purge _ ih => exact ih

theorem At.ordered (h : ts.At now P ts') (ho : ts.Ordered) : ts'.Ordered := by
  induction h with
  | same => exact ho
  | add _ q _ ih => exact (ih.add now now q _).1
  | purge _ ih => exact ih.purge now

theorem At.keptUntil (h : ts.At now P ts') (ho : ts.Ordered) {u : Timeval} {p : Nat}
    (hk : KeptUntil ts.deadline u p) (hnow : now < u) (hu : P p → u ≤ now + ts.purgeTimeout) :
    KeptUntil ts'.deadline u p := by
  induction h with
  | same => exact hk
  | @add ts₁ h q hq ih =>
    have hr := ((h.ordered ho).add_removed now now q ts₁.purgeTimeout).2
    refine hr.keptUntil (keptUntil_update (fun _ => ih) fun hpq => ?_) hnow
    rw [h.timeout]
    exact hu (hpq ▸ hq)
  | purge h ih => exact ((h.ordered ho).purge_removed now).1.keptUntil ih hnow

theorem At.untouched (h : ts.At now P ts') (ho : ts.Ordered) {p : Nat} (hp : ¬ P p) {t : Timeval}
    (ht : ts'.deadline p = some t) : ts.deadline p = some t := by
  induction h with
  | same => exact ht
  | @add ts₁ h q hq ih =>
    have hr := ((h.ordered ho).add_removed now now q ts₁.purgeTimeout).2
    have hne : p ≠ q := fun hpq => hp (hpq ▸ hq)
    have hold := ((hr.rest p t).mp ht).1
    rw [Function.update_of_ne hne] at hold
    exact ih hold
  | purge h ih => exact ih (((h.ordered ho).purge_removed now).1.rest p t |>.mp ht).1

theorem At.new (h : ts.At now P ts') (ho : ts.Ordered) {p : Nat} (hp : ts.deadline p = none) {d : Timeval}
    (hd : ts'.deadline p = some d) : now + ts.purgeTimeout ≤ d := by
  induction h with
  | same =>
    rw [hp] at hd
    cases hd
  | @add ts₁ h q hq ih =>
    have hold := (((h.ordered ho).add_removed now now q ts₁.purgeTimeout).2.rest p d).mp hd |>.1
    by_cases hpq : p = q
    · rw [hpq, Function.update_self, h.timeout] at hold
      exact Nat.le_of_eq (Option.some.inj hold)
    · rw [Function.update_of_ne hpq] at hold
      exact ih hold
  | purge h ih => exact ih (((h.ordered ho).purge_removed now).1.rest p d |>.mp hd).1

theorem Ordered.add_keptUntil (ho : ts.Ordered) (hpos : 0 < ts.purgeTimeout) (p : Nat) :
    KeptUntil (timeslotAddobject ts now now p).1.deadline (now + ts.purgeTimeout) p :=
  (ho.add_removed now now p _).2.keptUntil (keptUntil_update (fun h => absurd rfl h) fun _ => Nat.le_refl _)
    (Nat.lt_add_of_pos_right hpos)

end

end Timeslot

/-! ## What the operations do to the timeslot -/

theorem findOrCreate_at (rt : Rt) (host : MacAddr) (now : Timeval) :
    rt.ts.At now (rt.fresh ≤ ·) (rtFindOrCreate rt host now now).1.ts ∧
      rt.fresh ≤ (rtFindOrCreate rt host now now).1.fresh := by
  unfold rtFindOrCreate
  split
  · exact ⟨.same, Nat.le_refl _⟩
  · simp only [rtEntryCreate, rtTimeslotAddobject, purgeRtEntries_ts, purgeRtEntries_fresh]
    exact ⟨.add .same rt.fresh (Nat.le_refl _), Nat.le_succ _⟩

theorem judged_at (rt : Rt) (destinationHost originatorHost : MacAddr) (now : Timeval) :
    rt.ts.At now (rt.fresh ≤ ·) (rt.judged destinationHost originatorHost now).1.ts := by
  obtain ⟨h₁, hle⟩ := findOrCreate_at rt destinationHost now
  have h₂ := (findOrCreate_at (rtFindOrCreate rt destinationHost now now).1 originatorHost now).1
  exact h₁.trans (h₂.imp fun q hq => Nat.le_trans hle hq)

theorem foldl_markInvalid_ts (destList : List NhtDestlistEntry) (rt : Rt) :
    (destList.foldl (fun rt dest => rt.write dest.rtEntry RtEntry.markInvalid) rt).ts = rt.ts := by
  induction destList generalizing rt with
  | nil => rfl
  | cons d ds ih => exact ih _

theorem foldl_warnEndpoint_ts (destList : List NhtDestlistEntry) (acc : Rt × List AodvMacSeq) :
    (destList.foldl warnEndpoint acc).1.ts = acc.1.ts := by
  induction destList generalizing acc with
  | nil => rfl
  | cons d ds ih =>
    refine (ih _).trans ?_
    unfold warnEndpoint
    split
    · rfl
    · split <;> rfl

namespace Rt

section
variable {rt : Rt}

theorem step_ts {op : RtOp} (h : op.time = none) : (rt.step op).ts = rt.ts := by
  cases op with
  | markrouteinv host seq =>
    simp only [step, aodvDbRtMarkrouteinv]
    split
    · rfl
    · split <;> rfl
  | getDestlist nextHop =>
    simp only [step, aodvDbRtGetDestlist]
    split <;> rfl
  | invOverNexthop nextHop =>
    simp only [step, aodvDbRtInvOverNexthop]
    split
    · rfl
    · exact foldl_markInvalid_ts _ rt
  | setWarn neighbor =>
    simp only [step, aodvDbRtGetWarnEndpointsFromNeighborAndSetWarn]
    split
    · rfl
    · exact foldl_warnEndpoint_ts _ (rt, [])
  | routingReset => rfl
  | overread => rfl
  | _ => cases h

theorem WF.step_at (hw : rt.WF) {op : RtOp} {now : Timeval} (h : op.time = some now) :
    rt.ts.At now (fun _ => True) (rt.step op).ts := by
  cases op with
  | rreq metricType dest orig prevHop iface seq metric hopCount now =>
    cases h
    rw [(hw.rreq metricType dest orig prevHop iface seq metric hopCount now).2.ts]
    exact (judged_at rt dest orig now).imp fun _ _ => trivial
  | rrep host nextHop iface seq metric hopCount now =>
    cases h
    rw [(hw.rrep host nextHop iface seq metric hopCount now).2.ts]
    exact (findOrCreate_at rt host now).1.imp fun _ _ => trivial
  | getroute2dest host now localUsed =>
    cases h
    simp only [Rt.step, aodvDbRtGetroute2dest]
    split
    · exact .same
    · split
      · simp only [rtTimeslotAddobject, purgeRtEntries_ts, write_ts]
        exact .add .same _ trivial
      · exact .same
  | cleanup now =>
    cases h
    simp only [Rt.step, aodvDbRtCleanup, purgeRtEntries_ts]
    exact .purge .same
  | _ => cases h

/-- The table is well formed and its timeslot is in order. -/
structure Clocked (rt : Rt) : Prop where
  wf : rt.WF
  ordered : rt.ts.Ordered

theorem init_clocked : Clocked aodvDbRtInit := ⟨init_wf, Timeslot.ordered_create _⟩

theorem Clocked.step (h : rt.Clocked) (op : RtOp) : (rt.step op).Clocked := by
  refine ⟨h.wf.step op, ?_⟩
  cases ht : op.time with
  | none => exact (step_ts ht).symm ▸ h.ordered
  | some now => exact (h.wf.step_at ht).ordered h.ordered

theorem Clocked.exec (h : rt.Clocked) (ops : List RtOp) : (Runs.exec Rt.step rt ops).Clocked :=
  Runs.exec_inv (I := Rt.Clocked) (fun _ op h => h.step op) h ops

theorem WF.entry_iff (hw : rt.WF) (p : Nat) : (∃ e ∈ rt.entries, e.ptr = p) ↔ rt.ts.deadline p ≠ none := by
  rw [Timeslot.deadline_ne_none, ← List.mem_map, ← List.mem_map]
  exact hw.timed.mem_iff.symm

theorem Clocked.cleanup (h : rt.Clocked) (T : Timeval) :
    (aodvDbRtCleanup rt T).Clocked ∧
      Removed rt.ts.deadline T (Timeslot.calls (timeslotPurgeobjects rt.ts T).2) (aodvDbRtCleanup rt T).ts.deadline ∧
      Unexpired (aodvDbRtCleanup rt T).ts.deadline T := by
  have hts : (aodvDbRtCleanup rt T).ts = (timeslotPurgeobjects rt.ts T).1 := by
    simp only [aodvDbRtCleanup, purgeRtEntries_ts]
  refine ⟨h.step (.cleanup T), ?_⟩
  rw [hts]
  exact h.ordered.purge_removed T

/-! ## Staying until the timeout -/

/-- Whenever in a run from `rt` a purge comes within the timeout after `t`, the entry at `p` stays. -/
def Outlives (rt : Rt) (p : Nat) (t : Timeval) (ops : List RtOp) : Prop :=
  ∀ mid post T, ops = mid ++ post → (∀ op ∈ mid, ∀ s, op.time = some s → s ≤ T) → t ≤ T →
    T < t + msec myRouteTimeout → ∃ e ∈ (aodvDbRtCleanup (Runs.exec Rt.step rt mid) T).entries, e.ptr = p

theorem Clocked.exec_kept (h : rt.Clocked) {p : Nat} {t : Timeval} {ops : List RtOp}
    (hk : KeptUntil rt.ts.deadline (t + msec myRouteTimeout) p)
    (hops : ∀ op ∈ ops, ∀ s, op.time = some s → t ≤ s ∧ s < t + msec myRouteTimeout) :
    KeptUntil (Runs.exec Rt.step rt ops).ts.deadline (t + msec myRouteTimeout) p := by
  induction ops generalizing rt with
  | nil => exact hk
  | cons op ops ih =>
    refine ih (h.step op) ?_ fun o ho => hops o (List.mem_cons_of_mem op ho)
    cases ht : op.time with
    | none => exact (step_ts ht).symm ▸ hk
    | some now =>
      obtain ⟨hle, hlt⟩ := hops op List.mem_cons_self now ht
      refine (h.wf.step_at ht).keptUntil h.ordered hk hlt fun _ => ?_
      rw [h.wf.timeout]
      exact Nat.add_le_add_right hle _

theorem Clocked.outlives_iff (h : rt.Clocked) {p : Nat} (hp : ∃ e ∈ rt.entries, e.ptr = p) {t : Timeval}
    {ops : List RtOp} (hops : ∀ op ∈ ops, ∀ s, op.time = some s → t ≤ s) :
    rt.Outlives p t ops ↔ KeptUntil rt.ts.deadline (t + msec myRouteTimeout) p := by
  refine ⟨fun ho => ?_, fun hk mid post T he hmid htT hT => ?_⟩
  · obtain ⟨d, hd⟩ := Option.ne_none_iff_exists'.mp ((h.wf.entry_iff p).mp hp)
    apply Classical.byContradiction
    intro hn
    have hlt := (not_keptUntil hd).mp hn
    -- a purge when the deadline has come takes the entry
    obtain ⟨hc, hr, hun⟩ := h.cleanup (max t d)
    have hleft := ho [] ops (max t d) rfl (fun op hop => (List.not_mem_nil hop).elim) (Nat.le_max_left _ _)
      (Nat.max_lt.mpr ⟨Nat.lt_add_of_pos_right (by decide), hlt⟩)
    obtain ⟨d', hd'⟩ := Option.ne_none_iff_exists'.mp ((hc.wf.entry_iff p).mp hleft)
    obtain rfl := Option.some.inj (((hr.rest p d').mp hd').1.symm.trans hd)
    exact absurd (hun p d' hd') (Nat.not_lt.mpr (Nat.le_max_right _ _))
  · have hbefore : ∀ op ∈ mid, ∀ s, op.time = some s → t ≤ s ∧ s < t + msec myRouteTimeout := fun op hop s hs =>
      ⟨hops op (he ▸ List.mem_append_left post hop) s hs, Nat.lt_of_le_of_lt (hmid op hop s hs) hT⟩
    have hkm := h.exec_kept hk hbefore
    obtain ⟨hc, hr, -⟩ := (h.exec mid).cleanup T
    obtain ⟨d, hd, -⟩ := hr.keptUntil hkm hT
    exact (hc.wf.entry_iff p).mpr (by rw [hd]; exact Option.some_ne_none d)

/-! ## Confirmed routes -/

/-- The route to the host is looked up successfully, or updated by a capture that is accepted. -/
def Confirms (rt : Rt) (host : MacAddr) (t : Timeval) : RtOp → Prop
  | .rreq metricType destinationHost originatorHost prevHop iface seq metric hopCount now =>
    now = t ∧ originatorHost = host ∧
      (aodvDbRtCaptRreq metricType rt destinationHost originatorHost prevHop iface seq metric hopCount now now).2 ≠
        .old
  | .rrep destinationHost nextHop iface seq metric hopCount now =>
    now = t ∧ destinationHost = host ∧
      (rtCaptRrep rt destinationHost nextHop iface seq metric hopCount now now).2 = true
  | .getroute2dest destinationHost now _ =>
    now = t ∧ destinationHost = host ∧ (aodvDbRtGetroute2dest rt destinationHost now now aodvFlagsUnused).2.isSome
  | _ => False

/-- The entry of the host is a new one afterwards. -/
def Creates (rt : Rt) (host : MacAddr) (t : Timeval) (op : RtOp) : Prop :=
  op.time = some t ∧ ∃ e, (rt.step op).find host = some e ∧ rt.fresh ≤ e.ptr

/-- A capture that is accepted for an entry there has been before finds it with the full timeout ahead. -/
def Refreshed (rt : Rt) : RtOp → Prop
  | .rreq metricType destinationHost originatorHost _ _ seq metric _ now =>
    ∀ x, rt.find originatorHost = some x → rt.standing destinationHost originatorHost now = some x →
      rreqResult metricType x seq metric ≠ .old → KeptUntil rt.ts.deadline (now + msec myRouteTimeout) x.ptr
  | .rrep destinationHost _ _ seq _ _ now =>
    ∀ x, rt.find destinationHost = some x → rrepUsed x seq = true →
      KeptUntil rt.ts.deadline (now + msec myRouteTimeout) x.ptr
  | _ => True

theorem Clocked.new_kept (h : rt.Clocked) {op : RtOp} {t : Timeval} (ht : op.time = some t) {p : Nat}
    (hp : rt.fresh ≤ p) (he : ∃ e ∈ (rt.step op).entries, e.ptr = p) :
    KeptUntil (rt.step op).ts.deadline (t + msec myRouteTimeout) p := by
  obtain ⟨d, hd⟩ := Option.ne_none_iff_exists'.mp (((h.wf.step op).entry_iff p).mp he)
  have hnone : rt.ts.deadline p = none := by
    apply Classical.byContradiction
    intro hne
    obtain ⟨e, hmem, rfl⟩ := (h.wf.entry_iff p).mpr hne
    exact absurd (h.wf.allocated e hmem) (Nat.not_lt.mpr hp)
  refine ⟨d, hd, ?_⟩
  rw [← h.wf.timeout]
  exact (h.wf.step_at ht).new h.ordered hnone hd

theorem Clocked.captured_kept (h : rt.Clocked) {op : RtOp} {t : Timeval}
    (hat : rt.ts.At t (rt.fresh ≤ ·) (rt.step op).ts) {x : RtEntry} (hx : x ∈ rt.entries) :
    KeptUntil (rt.step op).ts.deadline (t + msec myRouteTimeout) x.ptr ↔
      KeptUntil rt.ts.deadline (t + msec myRouteTimeout) x.ptr := by
  have hold : ¬ rt.fresh ≤ x.ptr := Nat.not_le.mpr (h.wf.allocated x hx)
  refine ⟨fun hk => ?_, fun hk => ?_⟩
  · obtain ⟨d, hd, hle⟩ := hk
    exact ⟨d, hat.untouched h.ordered hold hd, hle⟩
  · exact hat.keptUntil h.ordered hk (Nat.lt_add_of_pos_right (by decide)) fun hp => absurd hp hold

theorem Clocked.lookup_kept (h : rt.Clocked) {host : MacAddr} {now : Timeval} {localUsed : Bool}
    (hs : (aodvDbRtGetroute2dest rt host now now aodvFlagsUnused).2.isSome) {e : RtEntry}
    (he : (rt.step (.getroute2dest host now localUsed)).find host = some e) :
    KeptUntil (rt.step (.getroute2dest host now localUsed)).ts.deadline (now + msec myRouteTimeout) e.ptr := by
  have hq : (RtOp.getroute2dest host now localUsed).quiet = true := rfl
  obtain ⟨x, hx, hw⟩ := (h.wf.step_quiet hq).2.entry host e he
  have hvalid : x.valid = true := by
    cases hv : x.valid with
    | true => rfl
    | false =>
      simp only [aodvDbRtGetroute2dest, hx, hv] at hs
      cases hs
  have hts : (rt.step (.getroute2dest host now localUsed)).ts = (timeslotAddobject rt.ts now now x.ptr).1 := by
    simp only [Rt.step, aodvDbRtGetroute2dest, hx, hvalid, if_true, rtTimeslotAddobject, purgeRtEntries_ts, write_ts]
  rw [hts, hw.ptr, ← h.wf.timeout]
  exact h.ordered.add_keptUntil (h.wf.timeout ▸ by decide) x.ptr

theorem WF.rreq_entry (hw : rt.WF) {metricType : AodvMetric} {destinationHost originatorHost prevHop : MacAddr}
    {iface : Meshif} {seq : UInt32} {metric : Metric} {hopCount : UInt8} {now : Timeval} {e : RtEntry}
    (he : (rt.step (.rreq metricType destinationHost originatorHost prevHop iface seq metric hopCount now)).find
      originatorHost = some e) :
    e.ptr = (rt.judged destinationHost originatorHost now).2.ptr := by
  have hf := (hw.rreq metricType destinationHost originatorHost prevHop iface seq metric hopCount now).2.find
    originatorHost
  rw [if_pos rfl, he] at hf
  rw [Option.some.inj hf]
  split
  · rfl
  · exact RtEntry.afterRreq_ptr ..

theorem WF.rrep_entry (hw : rt.WF) {host nextHop : MacAddr} {iface : Meshif} {seq : UInt32} {metric : Metric}
    {hopCount : UInt8} {now : Timeval} {e : RtEntry}
    (he : (rt.step (.rrep host nextHop iface seq metric hopCount now)).find host = some e) :
    e.ptr = (rtFindOrCreate rt host now now).2.ptr := by
  have hf := (hw.rrep host nextHop iface seq metric hopCount now).2.find host
  rw [if_pos rfl, he] at hf
  rw [Option.some.inj hf]
  split <;> rfl

theorem findOrCreate_ptr (rt : Rt) (host : MacAddr) (now : Timeval) :
    rt.find host = some (rtFindOrCreate rt host now now).2 ∨
      rt.find host = none ∧ (rtFindOrCreate rt host now now).2.ptr = rt.fresh := by
  cases h : rt.find host with
  | some x => exact .inl (by rw [findOrCreate_found h])
  | none =>
    refine .inr ⟨rfl, ?_⟩
    simp only [rtFindOrCreate, h]
    rfl

theorem Clocked.confirmed_kept (h : rt.Clocked) {op : RtOp} (hr : rt.Refreshed op) {host : MacAddr} {t : Timeval}
    (hc : rt.Confirms host t op ∨ rt.Creates host t op) {e : RtEntry} (he : (rt.step op).find host = some e) :
    KeptUntil (rt.step op).ts.deadline (t + msec myRouteTimeout) e.ptr := by
  have hmem : ∃ e' ∈ (rt.step op).entries, e'.ptr = e.ptr := ⟨e, find_mem he, rfl⟩
  rcases hc with hc | hc
  · cases op with
    | rreq metricType dest orig prevHop iface seq metric hopCount now =>
      obtain ⟨rfl, rfl, hacc⟩ := hc
      rw [captRreq_snd] at hacc
      have hptr := h.wf.rreq_entry he
      have hat := judged_at rt dest orig now
      rw [← (h.wf.rreq metricType dest orig prevHop iface seq metric hopCount now).2.ts] at hat
      by_cases hnew : rt.fresh ≤ e.ptr
      · exact h.new_kept rfl hnew hmem
      · -- the entry has been there before
        obtain ⟨-, hg, hf⟩ := h.wf.judged dest orig now
        rcases hg.entry orig _ hf with hfind | ⟨p, hp, hx⟩
        · rcases judged_cases rt dest orig now with ⟨x, hx, hj⟩ | ⟨-, hj⟩
          · have hx' : (rt.judged dest orig now).2 = x := by rw [hj]
            rw [hx'] at hfind
            rw [hptr, hx']
            exact (h.captured_kept hat (find_mem hfind)).mpr (hr x hfind hx (hx' ▸ hacc))
          · rw [hptr, hj] at hnew
            exact absurd (findOrCreate_at rt dest now).2 hnew
        · rw [hptr, hx] at hnew
          exact absurd hp hnew
    | rrep dest nextHop iface seq metric hopCount now =>
      obtain ⟨rfl, rfl, hacc⟩ := hc
      rw [captRrep_snd] at hacc
      have hptr := h.wf.rrep_entry he
      have hat := (findOrCreate_at rt dest now).1
      rw [← (h.wf.rrep dest nextHop iface seq metric hopCount now).2.ts] at hat
      rcases findOrCreate_ptr rt dest now with hfind | ⟨-, hx⟩
      · rw [hptr]
        exact (h.captured_kept hat (find_mem hfind)).mpr (hr _ hfind hacc)
      · exact h.new_kept rfl (Nat.le_of_eq (hx.symm.trans hptr.symm)) hmem
    | getroute2dest dest now localUsed =>
      obtain ⟨rfl, rfl, hs⟩ := hc
      exact h.lookup_kept hs he
    | _ => exact hc.elim
  · obtain ⟨ht, e', he', hle⟩ := hc
    obtain rfl := Option.some.inj (he'.symm.trans he)
    exact h.new_kept ht hle hmem

theorem confirmed_time {op : RtOp} {host : MacAddr} {t : Timeval} (hc : rt.Confirms host t op ∨ rt.Creates host t op) :
    op.time = some t := by
  rcases hc with hc | hc
  · cases op with
    | rreq => exact congrArg some hc.1
    | rrep => exact congrArg some hc.1
    | getroute2dest => exact congrArg some hc.1
    | _ => exact hc.elim
  · exact hc.1

/-- Every entry that an operation confirms outlives the purges of the rest of the run. -/
def Lasting (rt : Rt) (op : RtOp) (post : List RtOp) : Prop :=
  ∀ host t, rt.Confirms host t op ∨ rt.Creates host t op → ∀ e, (rt.step op).find host = some e →
    (rt.step op).Outlives e.ptr t post

theorem Clocked.lasting_iff (h : rt.Clocked) {op : RtOp} {post : List RtOp}
    (hpost : ∀ t, op.time = some t → ∀ o ∈ post, ∀ s, o.time = some s → t ≤ s) :
    rt.Lasting op post ↔ rt.Refreshed op := by
  have houtlives : ∀ {host t e}, rt.Confirms host t op ∨ rt.Creates host t op →
      (rt.step op).find host = some e →
        ((rt.step op).Outlives e.ptr t post ↔
          KeptUntil (rt.step op).ts.deadline (t + msec myRouteTimeout) e.ptr) := by
    intro host t e hc he
    exact (h.step op).outlives_iff ⟨e, find_mem he, rfl⟩ (hpost t (confirmed_time hc))
  refine ⟨fun hl => ?_, fun hr host t hc e he => (houtlives hc he).mpr (h.confirmed_kept hr hc he)⟩
  cases op with
  | rreq metricType dest orig prevHop iface seq metric hopCount now =>
    intro x hfind hx hacc
    have hj : (rt.judged dest orig now).2 = x := by
      rw [judged, findOrCreate_found hx]
    have hw := (h.wf.rreq metricType dest orig prevHop iface seq metric hopCount now).2
    have he := (hw.find orig).trans (if_pos rfl)
    have hptr := (h.wf.rreq_entry he).trans (congrArg RtEntry.ptr hj)
    have hc : rt.Confirms orig now (.rreq metricType dest orig prevHop iface seq metric hopCount now) :=
      ⟨rfl, rfl, by rw [captRreq_snd]; exact hj ▸ hacc⟩
    have hk := (houtlives (.inl hc) he).mp (hl orig now (.inl hc) _ he)
    rw [hptr] at hk
    exact (h.captured_kept (hw.ts ▸ judged_at rt dest orig now) (find_mem hfind)).mp hk
  | rrep dest nextHop iface seq metric hopCount now =>
    intro x hfind hacc
    have hj : (rtFindOrCreate rt dest now now).2 = x := by rw [findOrCreate_found hfind]
    have hw := (h.wf.rrep dest nextHop iface seq metric hopCount now).2
    have he := (hw.find dest).trans (if_pos rfl)
    have hptr := (h.wf.rrep_entry he).trans (congrArg RtEntry.ptr hj)
    have hc : rt.Confirms dest now (.rrep dest nextHop iface seq metric hopCount now) :=
      ⟨rfl, rfl, by rw [captRrep_snd, hj]; exact hacc⟩
    have hk := (houtlives (.inl hc) he).mp (hl dest now (.inl hc) _ he)
    rw [hptr] at hk
    exact (h.captured_kept (hw.ts ▸ (findOrCreate_at rt dest now).1) (find_mem hfind)).mp hk
  | _ => trivial

end

/-- In a run under a clock that does not go back, every confirmed route lives for the full timeout exactly if
every capture that is accepted for an old entry finds it with the full timeout ahead. -/
theorem confirmed_lasting_iff {ops : List RtOp} (hclock : (ops.filterMap RtOp.time).Pairwise (· ≤ ·)) :
    (∀ pre op post, ops = pre ++ op :: post → (Runs.exec Rt.step aodvDbRtInit pre).Lasting op post) ↔
      Runs.Always Rt.step Refreshed aodvDbRtInit ops := by
  rw [Runs.always_iff]
  have hiff : ∀ pre op post, ops = pre ++ op :: post →
      ((Runs.exec Rt.step aodvDbRtInit pre).Lasting op post ↔ (Runs.exec Rt.step aodvDbRtInit pre).Refreshed op) := by
    intro pre op post he
    refine (init_clocked.exec pre).lasting_iff fun t ht o ho s hs => ?_
    rw [he, List.filterMap_append, List.filterMap_cons_some ht, List.pairwise_append] at hclock
    exact (List.pairwise_cons.mp hclock.2.1).1 s (List.mem_filterMap.mpr ⟨o, ho, hs⟩)
  exact ⟨fun h pre op post he => (hiff pre op post he).mp (h pre op post he),
    fun h pre op post he => (hiff pre op post he).mpr (h pre op post he)⟩

def confirmedOnce : List RtOp :=
  [.rrep 9 1 { ifindex := 0, hwaddr := 7 } 1 0 0 0, .getroute2dest 9 3000000 false]

theorem confirmed_lasting_once :
    (Runs.exec Rt.step aodvDbRtInit [.rrep 9 1 { ifindex := 0, hwaddr := 7 } 1 0 0 0]).Lasting
      (.getroute2dest 9 3000000 false) [] :=
  (@confirmed_lasting_iff confirmedOnce (by decide)).mpr ⟨fun x hx => (nomatch hx), trivial, trivial⟩
    [.rrep 9 1 { ifindex := 0, hwaddr := 7 } 1 0 0 0] (.getroute2dest 9 3000000 false) [] rfl

/-- A RREP for 9 and three seconds later a newer one. -/
def confirmedAgain : List RtOp :=
  [.rrep 9 1 { ifindex := 0, hwaddr := 7 } 1 0 0 0, .rrep 9 1 { ifindex := 0, hwaddr := 7 } 2 0 0 3000000]

theorem not_lasting_confirmedAgain :
    ¬ ∀ pre op post, confirmedAgain = pre ++ op :: post → (Runs.exec Rt.step aodvDbRtInit pre).Lasting op post := by
  intro h
  have hlast := h [.rrep 9 1 { ifindex := 0, hwaddr := 7 } 1 0 0 0]
    (.rrep 9 1 { ifindex := 0, hwaddr := 7 } 2 0 0 3000000) [] rfl 9 3000000
    (.inl ⟨rfl, rfl, by decide⟩) (RtEntry.captRrep 1 { ifindex := 0, hwaddr := 7 } 2 0 0 (newRtEntry 0 9))
    (by decide) [] [] 6000000 rfl (fun op hop => (List.not_mem_nil hop).elim) (by decide) (by decide)
  revert hlast
  decide

/-- What a daemon does to its routing table is such a run. -/
theorem run_lasting_iff (L : Libdessert) (cfg : Config) (l25Defsrc : MacAddr) (meshiflist : List Meshif)
    {evs : List NodeEvent} (hclock : (evs.filterMap NodeEvent.time).Pairwise (· ≤ ·)) :
    ∃ ops, (Runs.exec (Node.step L) (aodvDbInit cfg l25Defsrc meshiflist) evs).rt =
        Runs.exec Rt.step aodvDbRtInit ops ∧
      ((∀ pre op post, ops = pre ++ op :: post → (Runs.exec Rt.step aodvDbRtInit pre).Lasting op post) ↔
        Runs.Always Rt.step Refreshed aodvDbRtInit ops) := by
  obtain ⟨ops, hrt, hle, -⟩ := Node.run_ops L hclock
  exact ⟨ops, hrt, confirmed_lasting_iff hle⟩

end Rt

end DesAodv
