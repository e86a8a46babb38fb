import DesAodv.RoutingTable

/-!
# What the routing table functions do

A well-formed table has one entry for each destination and one timeslot element
for each entry. On such a table every function of `aodv_rt.c` has a short
description in terms of `Rt.find`.
-/

namespace DesAodv

/-- Hosts and addresses of entries are unique, the timeslot has one element for each entry, and the
entries with a next hop have an interface. -/
structure Rt.WF (rt : Rt) : Prop where
  addrs : (rt.entries.map RtEntry.addr).Nodup
  ptrs : (rt.entries.map RtEntry.ptr).Nodup
  allocated : ∀ e ∈ rt.entries, e.ptr < rt.fresh
  timed : (rt.ts.elements.map TimeslotElement.object).Perm (rt.entries.map RtEntry.ptr)
  timeout : rt.ts.purgeTimeout = msec myRouteTimeout
  routed : ∀ e ∈ rt.entries, e.flags.nextHopUnknown = false → e.outputIface.isSome = true

theorem init_wf : aodvDbRtInit.WF where
  addrs := List.nodup_nil
  ptrs := List.nodup_nil
  allocated := by simp [aodvDbRtInit]
  timed := by simp [aodvDbRtInit, timeslotCreate]
  timeout := rfl
  routed := by simp [aodvDbRtInit]

namespace Rt

section
variable {rt : Rt}

theorem find_mem {h : MacAddr} {e : RtEntry} (hf : rt.find h = some e) : e ∈ rt.entries :=
  Keyed.lookup_mem hf

theorem find_addr {h : MacAddr} {e : RtEntry} (hf : rt.find h = some e) : e.addr = h :=
  Keyed.lookup_key hf

theorem WF.find_iff (hw : rt.WF) {h : MacAddr} {e : RtEntry} :
    rt.find h = some e ↔ e ∈ rt.entries ∧ e.addr = h :=
  Keyed.lookup_eq_some hw.addrs

theorem WF.deref_iff (hw : rt.WF) {p : Nat} {e : RtEntry} :
    rt.deref p = some e ↔ e ∈ rt.entries ∧ e.ptr = p :=
  Keyed.lookup_eq_some hw.ptrs

theorem WF.ext_ptr (hw : rt.WF) {e e' : RtEntry} (he : e ∈ rt.entries) (he' : e' ∈ rt.entries)
    (hp : e.ptr = e'.ptr) : e = e' :=
  List.inj_on_of_nodup_map hw.ptrs he he' hp

/-! ## Writes -/

@[simp] theorem write_ts (p : Nat) (f : RtEntry → RtEntry) : (rt.write p f).ts = rt.ts := rfl
@[simp] theorem write_nht (p : Nat) (f : RtEntry → RtEntry) : (rt.write p f).nht = rt.nht := rfl
@[simp] theorem write_fresh (p : Nat) (f : RtEntry → RtEntry) : (rt.write p f).fresh = rt.fresh := rfl

theorem find_write {f : RtEntry → RtEntry} (hf : ∀ e, (f e).addr = e.addr) (p : Nat) (h : MacAddr) :
    (rt.write p f).find h = (rt.find h).map fun e => if e.ptr = p then f e else e :=
  Keyed.lookup_modify h p f hf rt.entries

theorem WF.fault_write (hw : rt.WF) {e : RtEntry} (he : e ∈ rt.entries) (f : RtEntry → RtEntry) :
    (rt.write e.ptr f).fault = rt.fault := by
  have hd : rt.deref e.ptr = some e := hw.deref_iff.mpr ⟨he, rfl⟩
  simp [write, hd]

theorem WF.write (hw : rt.WF) (p : Nat) {f : RtEntry → RtEntry} (ha : ∀ e, (f e).addr = e.addr)
    (hp : ∀ e, (f e).ptr = e.ptr)
    (hr : ∀ e, (e.flags.nextHopUnknown = false → e.outputIface.isSome = true) →
      (f e).flags.nextHopUnknown = false → (f e).outputIface.isSome = true) : (rt.write p f).WF where
  addrs := by
    have h := Keyed.map_modify RtEntry.ptr p f ha rt.entries
    exact h.symm ▸ hw.addrs
  ptrs := by
    have h := Keyed.map_modify RtEntry.ptr p f hp rt.entries
    exact h.symm ▸ hw.ptrs
  allocated := Keyed.allocated_modify hw.allocated hp
  timed := by
    have h := Keyed.map_modify RtEntry.ptr p f hp rt.entries
    exact h.symm ▸ hw.timed
  timeout := hw.timeout
  routed := by
    intro e he
    obtain ⟨a, haa, rfl⟩ := Keyed.mem_modify he
    split
    · exact hr a (hw.routed a haa)
    · exact hw.routed a haa

theorem WF.find_write_entry (hw : rt.WF) {f : RtEntry → RtEntry} (hf : ∀ e, (f e).addr = e.addr) {h : MacAddr}
    {e : RtEntry} (he : rt.find h = some e) (h' : MacAddr) :
    (rt.write e.ptr f).find h' = if h' = h then some (f e) else rt.find h' :=
  Keyed.lookup_modify_found hw.ptrs he hf h'

end

end Rt

/-! ## Purges -/

theorem purgeRtEntry_entries (rt : Rt) (p : Nat) :
    (purgeRtEntry rt p).entries = Keyed.erase RtEntry.ptr p rt.entries := by
  unfold purgeRtEntry
  cases h : rt.deref p with
  | none =>
    refine (List.filter_eq_self.mpr ?_).symm
    intro e he
    simpa using Keyed.lookup_eq_none.mp h e he
  | some e => rfl

@[simp] theorem purgeRtEntry_ts (rt : Rt) (p : Nat) : (purgeRtEntry rt p).ts = rt.ts := by
  unfold purgeRtEntry; split <;> rfl

@[simp] theorem purgeRtEntry_fresh (rt : Rt) (p : Nat) : (purgeRtEntry rt p).fresh = rt.fresh := by
  unfold purgeRtEntry; split <;> rfl

theorem purgeRtEntry_fault {rt : Rt} {p : Nat} (h : ∃ e ∈ rt.entries, e.ptr = p) :
    (purgeRtEntry rt p).fault = rt.fault := by
  unfold purgeRtEntry
  split
  · rename_i hd
    obtain ⟨e, he, hp⟩ := h
    exact absurd hp (Keyed.lookup_eq_none.mp hd e he)
  · rfl

@[simp] theorem purgeRtEntries_ts (rt : Rt) (purged : List (TimeslotElement Nat)) :
    (purgeRtEntries rt purged).ts = rt.ts := by
  induction purged generalizing rt with
  | nil => rfl
  | cons el els ih => exact (ih _).trans (purgeRtEntry_ts rt el.object)

@[simp] theorem purgeRtEntries_fresh (rt : Rt) (purged : List (TimeslotElement Nat)) :
    (purgeRtEntries rt purged).fresh = rt.fresh := by
  induction purged generalizing rt with
  | nil => rfl
  | cons el els ih => exact (ih _).trans (purgeRtEntry_fresh rt el.object)

theorem purgeRtEntries_entries (rt : Rt) (purged : List (TimeslotElement Nat)) :
    (purgeRtEntries rt purged).entries =
      rt.entries.filter fun e => decide (e.ptr ∉ purged.map TimeslotElement.object) :=
  Keyed.foldl_erase Rt.entries (fun rt el => purgeRtEntry_entries rt el.object) purged rt

theorem purgeRtEntries_fault {rt : Rt} {purged : List (TimeslotElement Nat)}
    (hn : (purged.map TimeslotElement.object).Nodup) (h : ∀ el ∈ purged, ∃ e ∈ rt.entries, e.ptr = el.object) :
    (purgeRtEntries rt purged).fault = rt.fault := by
  induction purged generalizing rt with
  | nil => rfl
  | cons el els ih =>
    obtain ⟨hel, hn'⟩ := List.nodup_cons.mp hn
    refine (ih hn' ?_).trans (purgeRtEntry_fault (h el List.mem_cons_self))
    intro el' hel'
    obtain ⟨e, he, hp⟩ := h el' (List.mem_cons_of_mem _ hel')
    refine ⟨e, ?_, hp⟩
    rw [purgeRtEntry_entries, Keyed.mem_erase]
    exact ⟨he, fun hpe => hel (List.mem_map.mpr ⟨el', hel', hp.symm.trans hpe⟩)⟩

/-- The entries `gone`, whose time has come, are purged; the others stay as they are. -/
structure Rt.Purged (now : Timeval) (gone : List Nat) (rt rt' : Rt) : Prop where
  entries : rt'.entries = rt.entries.filter fun e => decide (e.ptr ∉ gone)
  expired : ∀ p ∈ gone, ∃ el ∈ rt.ts.elements, el.object = p ∧ el.purgeTime ≤ now
  fresh : rt'.fresh = rt.fresh
  fault : rt'.fault = rt.fault

namespace Rt

section
variable {rt rt' : Rt}

theorem WF.objects (hw : rt.WF) : (rt.ts.elements.map TimeslotElement.object).Nodup :=
  hw.timed.nodup_iff.mpr hw.ptrs

theorem WF.live (hw : rt.WF) {el : TimeslotElement Nat} (h : el ∈ rt.ts.elements) :
    ∃ e ∈ rt.entries, e.ptr = el.object :=
  List.mem_map.mp (hw.timed.subset (List.mem_map_of_mem h))

theorem WF.find_purged (hw : rt.WF) {now : Timeval} {gone : List Nat} (hp : Purged now gone rt rt')
    (h : MacAddr) : rt'.find h = (rt.find h).filter fun e => decide (e.ptr ∉ gone) := by
  unfold find
  rw [hp.entries]
  exact Keyed.lookup_filter hw.addrs h _

theorem map_object_filter (gone : List Nat) (els : List (TimeslotElement Nat)) :
    (els.filter fun el => decide (el.object ∉ gone)).map TimeslotElement.object =
      (els.map TimeslotElement.object).filter fun p => decide (p ∉ gone) := by
  rw [List.filter_map]; rfl

theorem map_ptr_filter (gone : List Nat) (es : List RtEntry) :
    (es.filter fun e => decide (e.ptr ∉ gone)).map RtEntry.ptr =
      (es.map RtEntry.ptr).filter fun p => decide (p ∉ gone) := by
  rw [List.filter_map]; rfl

theorem WF.of_purged (hw : rt.WF) {now : Timeval} {gone : List Nat} (hp : Purged now gone rt rt')
    (ht : (rt'.ts.elements.map TimeslotElement.object).Perm
      ((rt.ts.elements.map TimeslotElement.object).filter fun p => decide (p ∉ gone)))
    (hto : rt'.ts.purgeTimeout = msec myRouteTimeout) : rt'.WF where
  addrs := by rw [hp.entries]; exact hw.addrs.sublist (List.filter_sublist.map _)
  ptrs := by rw [hp.entries]; exact hw.ptrs.sublist (List.filter_sublist.map _)
  allocated := by
    rw [hp.entries, hp.fresh]
    exact fun e he => hw.allocated e (List.mem_of_mem_filter he)
  timed := by
    rw [hp.entries, map_ptr_filter]
    exact ht.trans (hw.timed.filter _)
  timeout := hto
  routed := by
    rw [hp.entries]
    exact fun e he => hw.routed e (List.mem_of_mem_filter he)

theorem WF.cleanup (hw : rt.WF) (now : Timeval) :
    ∃ gone, Purged now gone rt (aodvDbRtCleanup rt now) ∧ (aodvDbRtCleanup rt now).WF := by
  have hp : Purged now ((timeslotPurgeobjects rt.ts now).2.map TimeslotElement.object) rt
      (aodvDbRtCleanup rt now) := by
    refine ⟨purgeRtEntries_entries _ _, ?_, purgeRtEntries_fresh _ _, ?_⟩
    · intro p hp
      obtain ⟨el, hel, ho⟩ := List.mem_map.mp hp
      have hm : el ∈ rt.ts.elements := by
        rw [← purge_append rt.ts now]; exact List.mem_append_left _ hel
      exact ⟨el, hm, ho, purge_expired hel⟩
    · apply purgeRtEntries_fault (purge_purged_nodup hw.objects)
      intro el hel
      refine hw.live (?_ : el ∈ rt.ts.elements)
      rw [← purge_append rt.ts now]; exact List.mem_append_left _ hel
  refine ⟨_, hp, hw.of_purged hp ?_ ?_⟩
  · have h := (purge_elements now hw.objects).map TimeslotElement.object
    rw [map_object_filter] at h
    simpa [aodvDbRtCleanup] using h
  · simpa [aodvDbRtCleanup] using hw.timeout

end

end Rt

/-! ## Renewed lifetimes and new entries -/

section
variable {rt : Rt} {p : Nat} (now : Timeval)

/-- What the addition of `p` to the timeslot purges. -/
def goneBy (rt : Rt) (p : Nat) : List Nat :=
  (timeslotAddobject rt.ts now now p).2.map TimeslotElement.object

theorem not_goneBy (hto : rt.ts.purgeTimeout = msec myRouteTimeout) : p ∉ goneBy now rt p := by
  apply add_kept
  rw [hto]
  exact Nat.lt_add_of_pos_left (by decide)

theorem goneBy_mem (hto : rt.ts.purgeTimeout = msec myRouteTimeout) {q : Nat} (h : q ∈ goneBy now rt p) :
    ∃ el ∈ rt.ts.elements, el.object = q ∧ el.purgeTime ≤ now := by
  obtain ⟨el, hel, ho⟩ := List.mem_map.mp h
  rcases add_purged hel with rfl | ⟨hm, -⟩
  · exact absurd (ho ▸ h) (not_goneBy now hto)
  · exact ⟨el, hm, ho, add_expired hel⟩

theorem timeslotAddobject_purged (hw : ∀ el ∈ rt.ts.elements, ∃ e ∈ rt.entries, e.ptr = el.object)
    (hn : (rt.ts.elements.map TimeslotElement.object).Nodup)
    (hto : rt.ts.purgeTimeout = msec myRouteTimeout) :
    Rt.Purged now (goneBy now rt p) rt (rtTimeslotAddobject rt now now p) := by
  refine ⟨purgeRtEntries_entries _ _, fun q => goneBy_mem now hto, purgeRtEntries_fresh _ _, ?_⟩
  apply purgeRtEntries_fault (add_purged_nodup hn)
  intro el hel
  obtain ⟨el', hel', ho, -⟩ := goneBy_mem now hto (List.mem_map_of_mem hel)
  obtain ⟨e, he, hp⟩ := hw el' hel'
  exact ⟨e, he, hp.trans ho⟩

theorem timeslotAddobject_elements (hn : (rt.ts.elements.map TimeslotElement.object).Nodup) :
    (rtTimeslotAddobject rt now now p).ts.elements.Perm
      ((({ purgeTime := rt.ts.purgeTimeout + now, object := p } : TimeslotElement Nat) ::
          Keyed.erase TimeslotElement.object p rt.ts.elements).filter fun el =>
        decide (el.object ∉ goneBy now rt p)) := by
  have h := add_elements now now rt.ts.purgeTimeout p hn
  simp only [rtTimeslotAddobject, purgeRtEntries_ts]
  exact h

theorem timeslotAddobject_objects (hn : (rt.ts.elements.map TimeslotElement.object).Nodup) :
    ((rtTimeslotAddobject rt now now p).ts.elements.map TimeslotElement.object).Perm
      ((p :: (rt.ts.elements.map TimeslotElement.object).filter fun q => decide (q ≠ p)).filter fun q =>
        decide (q ∉ goneBy now rt p)) := by
  have h := (timeslotAddobject_elements now (p := p) hn).map TimeslotElement.object
  rw [Rt.map_object_filter, List.map_cons, Keyed.erase] at h
  rw [List.filter_map]
  exact h

@[simp] theorem timeslotAddobject_timeout :
    (rtTimeslotAddobject rt now now p).ts.purgeTimeout = rt.ts.purgeTimeout := by
  simp [rtTimeslotAddobject, timeslotAddobject]

end

namespace Rt

section
variable {rt : Rt}

theorem WF.renew (hw : rt.WF) {e : RtEntry} (he : e ∈ rt.entries) (now : Timeval) :
    Purged now (goneBy now rt e.ptr) rt (rtTimeslotAddobject rt now now e.ptr) ∧
      (rtTimeslotAddobject rt now now e.ptr).WF := by
  have hp := timeslotAddobject_purged (p := e.ptr) now (fun el hel => hw.live hel) hw.objects hw.timeout
  refine ⟨hp, hw.of_purged hp ?_ ?_⟩
  · have hm : e.ptr ∈ rt.ts.elements.map TimeslotElement.object :=
      hw.timed.symm.subset (List.mem_map_of_mem he)
    refine (timeslotAddobject_objects now hw.objects).trans (List.Perm.filter _ ?_)
    have hc := List.perm_cons_erase hm
    rw [hw.objects.erase_eq_filter] at hc
    have hne : (fun q : Nat => decide (q ≠ e.ptr)) = fun q => q != e.ptr := by
      funext q
      by_cases hq : q = e.ptr <;> simp [hq]
    rw [hne]
    exact hc.symm
  · rw [timeslotAddobject_timeout]; exact hw.timeout

/-- A new entry for `host` has been added, with a purge. -/
structure Created (now : Timeval) (gone : List Nat) (host : MacAddr) (rt rt' : Rt) : Prop where
  entries : rt'.entries = (rt.entries.filter fun e => decide (e.ptr ∉ gone)) ++ [newRtEntry rt.fresh host]
  unexpired : ∀ el ∈ rt'.ts.elements, el.object = rt.fresh → now < el.purgeTime
  expired : ∀ p ∈ gone, ∃ el ∈ rt.ts.elements, el.object = p ∧ el.purgeTime ≤ now
  fresh : rt'.fresh = rt.fresh + 1
  fault : rt'.fault = rt.fault

theorem WF.find_created (hw : rt.WF) {rt' : Rt} {now : Timeval} {gone : List Nat} {host : MacAddr}
    (hn : rt.find host = none) (hc : Created now gone host rt rt') (h : MacAddr) :
    rt'.find h =
      if h = host then some (newRtEntry rt.fresh host)
      else (rt.find h).filter fun e => decide (e.ptr ∉ gone) := by
  unfold find
  rw [hc.entries, Keyed.lookup_append, Keyed.lookup_filter hw.addrs]
  by_cases hh : h = host
  · subst hh
    have hn' : Keyed.lookup RtEntry.addr h rt.entries = none := hn
    rw [if_pos rfl, hn', Option.filter_none, Option.none_or, Keyed.lookup_singleton]
    exact if_pos rfl
  · have hne : (newRtEntry rt.fresh host).addr ≠ h := fun ha => hh ha.symm
    rw [if_neg hh, Keyed.lookup_singleton, if_neg hne, Option.or_none]

theorem WF.create (hw : rt.WF) {host : MacAddr} (hn : rt.find host = none) (now : Timeval) :
    (∃ gone, Created now gone host rt (rtFindOrCreate rt host now now).1) ∧
      (rtFindOrCreate rt host now now).2 = newRtEntry rt.fresh host ∧
      (rtFindOrCreate rt host now now).1.WF := by
  have hto : ({ rt with fresh := rt.fresh + 1 } : Rt).ts.purgeTimeout = msec myRouteTimeout := hw.timeout
  have hold : ∀ {p : RtEntry → Bool}, ∀ e ∈ rt.entries.filter p, e.ptr < rt.fresh :=
    fun e he => hw.allocated e (List.mem_of_mem_filter he)
  have hlt : ∀ q ∈ rt.ts.elements.map TimeslotElement.object, q < rt.fresh := by
    intro q hq
    obtain ⟨el, hel, rfl⟩ := List.mem_map.mp hq
    obtain ⟨e, he, hp⟩ := hw.live hel
    exact hp ▸ hw.allocated e he
  have hp := @timeslotAddobject_purged { rt with fresh := rt.fresh + 1 } rt.fresh now
    (fun el hel => hw.live hel) hw.objects hto
  have ho := @timeslotAddobject_objects { rt with fresh := rt.fresh + 1 } rt.fresh now hw.objects
  have hels := @timeslotAddobject_elements { rt with fresh := rt.fresh + 1 } rt.fresh now hw.objects
  have hg := @not_goneBy { rt with fresh := rt.fresh + 1 } rt.fresh now hto
  have hr : rtFindOrCreate rt host now now =
      ({ rtTimeslotAddobject { rt with fresh := rt.fresh + 1 } now now rt.fresh with
          entries := (rtTimeslotAddobject { rt with fresh := rt.fresh + 1 } now now rt.fresh).entries ++
            [newRtEntry rt.fresh host] }, newRtEntry rt.fresh host) := by
    simp only [rtFindOrCreate, hn]
    rfl
  generalize goneBy now { rt with fresh := rt.fresh + 1 } rt.fresh = gone at hp ho hels hg
  have hc : Created now gone host rt (rtFindOrCreate rt host now now).1 := by
    rw [hr]
    refine ⟨?_, fun el hel hob => ?_, hp.expired, hp.fresh, hp.fault⟩
    · simp only [hp.entries]
    · -- the element of the new entry is the only one for it
      rcases List.mem_cons.mp (List.mem_of_mem_filter (hels.subset hel)) with rfl | hel'
      · rw [hto]
        exact Nat.lt_add_of_pos_left (by decide)
      · exact absurd hob (Keyed.mem_erase.mp hel').2
  refine ⟨⟨gone, hc⟩, by rw [hr], ?_⟩
  refine ⟨?_, ?_, ?_, ?_, ?_, ?_⟩
  · rw [hc.entries]
    apply Keyed.nodup_concat (hw.addrs.sublist (List.filter_sublist.map _))
    rw [Keyed.lookup_filter hw.addrs]
    have hn' : Keyed.lookup RtEntry.addr host rt.entries = none := hn
    exact congrArg (Option.filter _) hn'
  · rw [hc.entries]
    exact Keyed.nodup_concat (hw.ptrs.sublist (List.filter_sublist.map _)) (Keyed.lookup_fresh hold)
  · rw [hc.entries, hc.fresh]
    exact Keyed.allocated_concat hold rfl
  · rw [hc.entries, List.map_append, map_ptr_filter, hr]
    have hne : (rt.ts.elements.map TimeslotElement.object).filter (fun q => decide (q ≠ rt.fresh)) =
        rt.ts.elements.map TimeslotElement.object := by
      apply List.filter_eq_self.mpr
      intro q hq
      simpa using Nat.ne_of_lt (hlt q hq)
    apply ho.trans
    rw [hne, List.filter_cons_of_pos (by simpa using hg)]
    refine (List.Perm.cons _ (hw.timed.filter _)).trans ?_
    exact (List.perm_append_singleton rt.fresh _).symm
  · rw [hr]; exact (timeslotAddobject_timeout now).trans hto
  · rw [hc.entries]
    intro e he
    rcases List.mem_append.mp he with he | he
    · exact hw.routed e (List.mem_of_mem_filter he)
    · rw [List.mem_singleton.mp he]; intro h; cases h

theorem findOrCreate_found {host : MacAddr} {e : RtEntry} (h : rt.find host = some e) (now now' : Timeval) :
    rtFindOrCreate rt host now now' = (rt, e) := by
  simp only [rtFindOrCreate, h]

end

/-- The entries of `rt'` are entries of `rt` or new ones. -/
structure Grows (rt rt' : Rt) : Prop where
  entry : ∀ h e, rt'.find h = some e →
    rt.find h = some e ∨ ∃ p, rt.fresh ≤ p ∧ e = newRtEntry p h
  fresh : rt.fresh ≤ rt'.fresh
  fault : rt'.fault = rt.fault

theorem Grows.refl (rt : Rt) : Grows rt rt := ⟨fun _ _ h => .inl h, Nat.le_refl _, rfl⟩

theorem Grows.trans {r₁ r₂ r₃ : Rt} (h : Grows r₁ r₂) (h' : Grows r₂ r₃) : Grows r₁ r₃ := by
  refine ⟨fun k e he => ?_, Nat.le_trans h.fresh h'.fresh, h'.fault.trans h.fault⟩
  rcases h'.entry k e he with he | ⟨p, hp, rfl⟩
  · exact h.entry k e he
  · exact .inr ⟨p, Nat.le_trans h.fresh hp, rfl⟩

theorem Grows.old {rt rt' : Rt} (h : Grows rt rt') (hw : rt.WF) {e : RtEntry} (he : e ∈ rt.entries) {k : MacAddr}
    {z : RtEntry} (hz : rt'.find k = some z) (hp : z.ptr = e.ptr) : z = e := by
  rcases h.entry k z hz with hz' | ⟨q, hq, hzq⟩
  · exact hw.ext_ptr (find_mem hz') he hp
  · have hlt := hw.allocated e he
    have hqe : q = e.ptr := by rw [← hp, hzq]; rfl
    omega

theorem Grows.known {rt rt' : Rt} (h : Grows rt rt') {k : MacAddr} {e : RtEntry} (he : rt'.find k = some e)
    (hk : e.flags.nextHopUnknown = false) : rt.find k = some e := by
  rcases h.entry k e he with he' | ⟨p, -, rfl⟩
  · exact he'
  · cases hk

section
variable {rt : Rt}

theorem WF.findOrCreate (hw : rt.WF) (host : MacAddr) (now : Timeval) :
    (rtFindOrCreate rt host now now).1.WF ∧ Grows rt (rtFindOrCreate rt host now now).1 ∧
      (rtFindOrCreate rt host now now).1.find host = some (rtFindOrCreate rt host now now).2 := by
  cases h : rt.find host with
  | some e =>
    rw [findOrCreate_found h]
    exact ⟨hw, Grows.refl rt, h⟩
  | none =>
    obtain ⟨⟨gone, hc⟩, he, hw'⟩ := hw.create h now
    refine ⟨hw', ⟨?_, ?_, hc.fault⟩, ?_⟩
    · intro k e hk
      rw [hw.find_created h hc] at hk
      split at hk
      · rename_i hkh
        exact .inr ⟨rt.fresh, Nat.le_refl _, by rw [hkh]; exact (Option.some.inj hk).symm⟩
      · exact .inl (Option.filter_eq_some_iff.mp hk).1
    · rw [hc.fresh]; exact Nat.le_succ _
    · rw [hw.find_created h hc, if_pos rfl, he]

end

end Rt

end DesAodv
