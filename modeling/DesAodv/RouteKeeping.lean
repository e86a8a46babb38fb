import DesAodv.RouteLifetime

/-!
# Entries that stay

`Rt.Keeps` says that there is an entry for a host and that no purge takes it
before a given time. What the captures and lookups of a route discovery do to
the entries that are kept.
-/

namespace DesAodv

open Deadlines

/-- The time lies before `due`, and an entry renewed at it stays until then. -/
def Timely (due now : Timeval) : Prop := now < due ∧ due ≤ now + msec myRouteTimeout

namespace Rt

/-- There is an entry for the host, it meets `P`, and it stays until `due`. -/
def Keeps (rt : Rt) (due : Timeval) (host : MacAddr) (P : RtEntry → Prop) : Prop :=
  ∃ e, rt.find host = some e ∧ P e ∧ KeptUntil rt.ts.deadline due e.ptr

/-- The entry for the host, if there is one, meets `P` and stays until `due`. -/
def KeepsIf (rt : Rt) (due : Timeval) (host : MacAddr) (P : RtEntry → Prop) : Prop :=
  ∀ e, rt.find host = some e → P e ∧ KeptUntil rt.ts.deadline due e.ptr

section
variable {rt : Rt} {due : Timeval} {host : MacAddr} {P Q : RtEntry → Prop}

theorem Keeps.imp (h : rt.Keeps due host P) (hPQ : ∀ e, P e → Q e) : rt.Keeps due host Q := by
  obtain ⟨e, he, hP, hk⟩ := h
  exact ⟨e, he, hPQ e hP, hk⟩

theorem Keeps.keepsIf (h : rt.Keeps due host P) : rt.KeepsIf due host P := by
  intro e he
  obtain ⟨x, hx, hP, hk⟩ := h
  obtain rfl := Option.some.inj (hx.symm.trans he)
  exact ⟨hP, hk⟩

theorem KeepsIf.imp (h : rt.KeepsIf due host P) (hPQ : ∀ e, P e → Q e) : rt.KeepsIf due host Q :=
  fun e he => (h e he).imp_left (hPQ e)

theorem keepsIf_none (h : rt.find host = none) : rt.KeepsIf due host P := by
  intro e he
  rw [h] at he
  cases he

theorem KeepsIf.keeps (h : rt.KeepsIf due host P) (hf : rt.find host ≠ none) : rt.Keeps due host P := by
  obtain ⟨e, he⟩ := Option.ne_none_iff_exists'.mp hf
  exact ⟨e, he, h e he⟩

/-! ## Creation -/

theorem Clocked.entry_of_kept (h : rt.Clocked) {p : Nat} (hk : KeptUntil rt.ts.deadline due p) :
    ∃ e ∈ rt.entries, e.ptr = p := by
  obtain ⟨d, hd, -⟩ := hk
  exact (h.wf.entry_iff p).mpr (by rw [hd]; exact Option.some_ne_none d)

variable (hc : rt.Clocked) {now : Timeval} (ht : Timely due now)
include hc ht

omit ht in
theorem Clocked.findOrCreate (other : MacAddr) (now : Timeval) : (rtFindOrCreate rt other now now).1.Clocked :=
  ⟨(hc.wf.findOrCreate other now).1, (findOrCreate_at rt other now).1.ordered hc.ordered⟩

theorem Keeps.findOrCreate (h : rt.Keeps due host P) (other : MacAddr) :
    (rtFindOrCreate rt other now now).1.Keeps due host P := by
  obtain ⟨e, he, hP, hk⟩ := h
  obtain ⟨hw, hg, -⟩ := hc.wf.findOrCreate other now
  have hkept : KeptUntil (rtFindOrCreate rt other now now).1.ts.deadline due e.ptr := by
    refine (findOrCreate_at rt other now).1.keptUntil hc.ordered hk ht.1 fun hle => ?_
    exact absurd hle (Nat.not_le.mpr (hc.wf.allocated e (find_mem he)))
  -- the entry that is kept is the one there has been
  obtain ⟨x, hx, hp⟩ := (hc.findOrCreate other now).entry_of_kept hkept
  have hxf := hw.find_iff.mpr ⟨hx, rfl⟩
  obtain rfl := hg.old hc.wf (find_mem he) hxf hp
  rw [find_addr he] at hxf
  exact ⟨x, hxf, hP, hkept⟩

theorem KeepsIf.findOrCreate (h : rt.KeepsIf due host P) (hnew : ∀ p, P (newRtEntry p host)) :
    (rtFindOrCreate rt host now now).1.Keeps due host P := by
  by_cases hf : rt.find host = none
  · obtain ⟨⟨gone, hcr⟩, -, hw⟩ := hc.wf.create hf now
    have hfind := (hc.wf.find_created hf hcr host).trans (if_pos rfl)
    refine ⟨_, hfind, hnew _, ?_⟩
    obtain ⟨d, hd⟩ := Option.ne_none_iff_exists'.mp ((hw.entry_iff rt.fresh).mp ⟨_, find_mem hfind, rfl⟩)
    have hnone : rt.ts.deadline rt.fresh = none := by
      refine Classical.byContradiction fun hne => ?_
      obtain ⟨e, he, hp⟩ := (hc.wf.entry_iff rt.fresh).mpr hne
      exact absurd (hc.wf.allocated e he) (by rw [hp]; exact Nat.lt_irrefl _)
    have hlate := (findOrCreate_at rt host now).1.new hc.ordered hnone hd
    rw [hc.wf.timeout] at hlate
    exact ⟨d, hd, Nat.le_trans ht.2 hlate⟩
  · exact Keeps.findOrCreate hc ht (h.keeps hf) host

/-- An entry of another host is kept, or there is still none. -/
theorem KeepsIf.findOrCreate_ne (h : rt.KeepsIf due host P) {other : MacAddr} (hne : other ≠ host) :
    (rtFindOrCreate rt other now now).1.KeepsIf due host P := by
  by_cases hf : rt.find host = none
  · refine keepsIf_none ?_
    cases hr : rt.find other with
    | some e => rw [findOrCreate_found hr]; exact hf
    | none =>
      obtain ⟨⟨gone, hcr⟩, -, -⟩ := hc.wf.create hr now
      rw [hc.wf.find_created hr hcr, if_neg (Ne.symm hne), hf]
      rfl
  · exact (Keeps.findOrCreate hc ht (h.keeps hf) other).keepsIf

/-! ## Captures -/

/-- A RREQ with a number that the entry of its originator is behind is new; afterwards the entry leads to the
previous hop, and what has been kept for others is kept. -/
theorem Clocked.rreq_new {destinationHost originatorHost : MacAddr} (hne : destinationHost ≠ originatorHost)
    {seq : UInt32} (hzero : hfCompU32 0 seq < 0)
    (ho : rt.KeepsIf due originatorHost fun e => e.valid = true ∧ hfCompU32 e.sequenceNumber seq < 0)
    (metricType : AodvMetric) (prevHop : MacAddr) (iface : Meshif) (metric : Metric) (hopCount : UInt8) :
    rreqResult metricType (rt.judged destinationHost originatorHost now).2 seq metric = .new ∧
      (rt.step (.rreq metricType destinationHost originatorHost prevHop iface seq metric hopCount now)).Keeps due
        originatorHost fun e => e.valid = true ∧ e.nextHop = prevHop ∧ e.outputIface = some iface := by
  have hc₁ := hc.findOrCreate destinationHost now
  have ho₁ := (ho.findOrCreate_ne hc ht hne).imp (Q := fun e =>
    (e.flags.nextHopUnknown = false → e.flags.routeInvalid = false) ∧ hfCompU32 e.sequenceNumber seq < 0)
    fun e he => ⟨fun _ => by simpa using (Bool.and_eq_true_iff.mp he.1).2, he.2⟩
  obtain ⟨x, hx, ⟨hv, hs⟩, hk⟩ := ho₁.findOrCreate hc₁ ht fun p => ⟨fun h => (nomatch h), hzero⟩
  obtain ⟨-, -, hj⟩ := hc.wf.judged destinationHost originatorHost now
  obtain rfl := Option.some.inj (hx.symm.trans hj)
  have hres := @rreqResult_behind metricType _ seq metric hs
  obtain ⟨-, hw⟩ := hc.wf.rreq metricType destinationHost originatorHost prevHop iface seq metric hopCount now
  refine ⟨hres, _, (hw.find originatorHost).trans (if_pos rfl), ?_⟩
  rw [if_neg (by rw [hres]; exact fun h => nomatch h), hw.ts, RtEntry.afterRreq_ptr]
  obtain ⟨hnh, hif, -⟩ := RtEntry.afterRreq_route prevHop iface seq metric hopCount
    (rt.judged destinationHost originatorHost now).2
  refine ⟨⟨?_, hnh, hif⟩, hk⟩
  rw [RtEntry.afterRreq_valid]
  intro hu hi
  rw [hv hu] at hi
  cases hi

theorem Keeps.rreq (h : rt.Keeps due host P) (metricType : AodvMetric) (destinationHost : MacAddr)
    {originatorHost : MacAddr} (hne : host ≠ originatorHost) (prevHop : MacAddr) (iface : Meshif) (seq : UInt32)
    (metric : Metric) (hopCount : UInt8) :
    (rt.step (.rreq metricType destinationHost originatorHost prevHop iface seq metric hopCount now)).Keeps due host
      P := by
  have hc₁ := hc.findOrCreate destinationHost now
  obtain ⟨e, he, hP, hk⟩ := Keeps.findOrCreate hc₁ ht (Keeps.findOrCreate hc ht h destinationHost) originatorHost
  obtain ⟨-, hw⟩ := hc.wf.rreq metricType destinationHost originatorHost prevHop iface seq metric hopCount now
  refine ⟨e, ((hw.find host).trans (if_neg hne)).trans he, hP, ?_⟩
  rw [hw.ts]
  exact hk

/-- The destination that is asked for has an entry afterwards. -/
theorem KeepsIf.rreq (h : rt.KeepsIf due host P) (hnew : ∀ p, P (newRtEntry p host)) (metricType : AodvMetric)
    {originatorHost : MacAddr} (hne : host ≠ originatorHost) (prevHop : MacAddr) (iface : Meshif) (seq : UInt32)
    (metric : Metric) (hopCount : UInt8) :
    (rt.step (.rreq metricType host originatorHost prevHop iface seq metric hopCount now)).Keeps due host P := by
  have hc₁ := hc.findOrCreate host now
  obtain ⟨e, he, hP, hk⟩ := Keeps.findOrCreate hc₁ ht (h.findOrCreate hc ht hnew) originatorHost
  obtain ⟨-, hw⟩ := hc.wf.rreq metricType host originatorHost prevHop iface seq metric hopCount now
  refine ⟨e, ((hw.find host).trans (if_neg hne)).trans he, hP, ?_⟩
  rw [hw.ts]
  exact hk

theorem Keeps.rrep (h : rt.Keeps due host P) {destinationHost : MacAddr} (hne : host ≠ destinationHost)
    (nextHop : MacAddr) (iface : Meshif) (seq : UInt32) (metric : Metric) (hopCount : UInt8) :
    (rt.step (.rrep destinationHost nextHop iface seq metric hopCount now)).Keeps due host P := by
  obtain ⟨e, he, hP, hk⟩ := Keeps.findOrCreate hc ht h destinationHost
  obtain ⟨-, hw⟩ := hc.wf.rrep destinationHost nextHop iface seq metric hopCount now
  refine ⟨e, ((hw.find host).trans (if_neg hne)).trans he, hP, ?_⟩
  rw [hw.ts]
  exact hk

/-- A RREP for a host whose next hop is not known is used, and the entry leads over it. -/
theorem Clocked.rrep_used (hu : rt.KeepsIf due host fun e => e.flags.nextHopUnknown = true) (nextHop : MacAddr)
    (iface : Meshif) (seq : UInt32) (metric : Metric) (hopCount : UInt8) :
    rrepUsed (rtFindOrCreate rt host now now).2 seq = true ∧
      (rt.step (.rrep host nextHop iface seq metric hopCount now)).Keeps due host
        fun e => e.valid = true ∧ e.nextHop = nextHop ∧ e.outputIface = some iface := by
  obtain ⟨x, hx, hk, hkept⟩ := hu.findOrCreate hc ht fun _ => rfl
  obtain ⟨-, -, hf⟩ := hc.wf.findOrCreate host now
  obtain rfl := Option.some.inj (hx.symm.trans hf)
  have hused : rrepUsed (rtFindOrCreate rt host now now).2 seq = true := by simp [rrepUsed, hk]
  obtain ⟨-, hw⟩ := hc.wf.rrep host nextHop iface seq metric hopCount now
  refine ⟨hused, _, (hw.find host).trans (if_pos rfl), ?_⟩
  rw [if_pos hused, hw.ts]
  exact ⟨⟨rfl, rfl, rfl⟩, hkept⟩

/-! ## Lookups -/

omit hc ht in
theorem setFlags_unused (e : RtEntry) : e.setFlags aodvFlagsUnused = e := by
  simp [RtEntry.setFlags, RtFlags.union, aodvFlagsUnused]

omit hc ht in
theorem getroute2dest_entries (other : MacAddr) {e : RtEntry}
    (he : e ∈ (rt.step (.getroute2dest other now false)).entries) : e ∈ rt.entries := by
  simp only [step, Bool.false_eq_true, if_false, aodvDbRtGetroute2dest] at he
  split at he
  · exact he
  · rename_i x _
    split at he
    · simp only [rtTimeslotAddobject, purgeRtEntries_entries] at he
      obtain ⟨a, ha, rfl⟩ := Keyed.mem_modify (List.mem_of_mem_filter he)
      rw [setFlags_unused, ite_self]
      exact ha
    · exact he

theorem Keeps.getroute2dest (h : rt.Keeps due host P) (other : MacAddr) :
    (rt.step (.getroute2dest other now false)).Keeps due host P := by
  obtain ⟨e, he, hP, hk⟩ := h
  have hkept : KeptUntil (rt.step (.getroute2dest other now false)).ts.deadline due e.ptr := by
    refine (@WF.step_at rt hc.wf (.getroute2dest other now false) now rfl).keptUntil hc.ordered hk ht.1 fun _ => ?_
    rw [hc.wf.timeout]
    exact ht.2
  have hc' := hc.step (.getroute2dest other now false)
  obtain ⟨x, hx, hp⟩ := hc'.entry_of_kept hkept
  obtain rfl := hc.wf.ext_ptr (getroute2dest_entries other hx) (find_mem he) hp
  exact ⟨x, hc'.wf.find_iff.mpr ⟨hx, find_addr he⟩, hP, hkept⟩

end

end Rt

end DesAodv
