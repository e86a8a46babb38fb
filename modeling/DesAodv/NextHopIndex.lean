import DesAodv.RtOps

/-!
# The next hop index as the inverse of the routing table

`hops` is the abstract view of the table: the next hop towards a host, with the
entry it is stored in. The index is exact when it lists just these pairs. Every
operation keeps it exact but one: the capture of a RREQ that replaces a known
next hop.
-/

namespace DesAodv

/-! ## The index alone -/

@[simp] theorem mapDestList_destList (f : List NhtDestlistEntry → List NhtDestlistEntry) (x : NhtEntry) :
    (x.mapDestList f).destList = f x.destList := rfl

/-- What is listed for `host` under `nextHop`. -/
def nhtListed (nht : List NhtEntry) (nextHop host : MacAddr) : Option Nat :=
  (nhtFind nht nextHop).bind fun x => (destFind x.destList host).map NhtDestlistEntry.rtEntry

/-- The keys of a hash table are unique, and a next hop goes with its last destination. -/
structure NhtOk (nht : List NhtEntry) : Prop where
  keys : (nht.map NhtEntry.destinationHostNextHop).Nodup
  hosts : ∀ x ∈ nht, (x.destList.map NhtDestlistEntry.destinationHost).Nodup
  nonempty : ∀ x ∈ nht, x.destList ≠ []

theorem nhtOk_nil : NhtOk [] := ⟨List.nodup_nil, by simp, by simp⟩

section
variable {nht : List NhtEntry}

theorem NhtOk.listed_iff (hn : NhtOk nht) {nextHop host : MacAddr} {p : Nat} :
    nhtListed nht nextHop host = some p ↔
      ∃ x ∈ nht, x.destinationHostNextHop = nextHop ∧
        ∃ d ∈ x.destList, d.destinationHost = host ∧ d.rtEntry = p := by
  constructor
  · intro h
    obtain ⟨x, hx, hd⟩ := Option.bind_eq_some_iff.mp h
    obtain ⟨d, hd, hp⟩ := Option.map_eq_some_iff.mp hd
    exact ⟨x, Keyed.lookup_mem hx, Keyed.lookup_key hx, d, Keyed.lookup_mem hd, Keyed.lookup_key hd, hp⟩
  · intro hs
    obtain ⟨x, hx, rfl, d, hd, rfl, rfl⟩ := hs
    unfold nhtListed nhtFind destFind
    rw [Keyed.lookup_of_mem hn.keys hx, Option.bind_some, Keyed.lookup_of_mem (hn.hosts x hx) hd,
      Option.map_some]

theorem NhtOk.modify (hn : NhtOk nht) {nextHop : MacAddr} {x : NhtEntry} (hx : nhtFind nht nextHop = some x)
    {f : List NhtDestlistEntry → List NhtDestlistEntry}
    (hh : ((f x.destList).map NhtDestlistEntry.destinationHost).Nodup) (hne : f x.destList ≠ []) :
    NhtOk (Keyed.modify NhtEntry.destinationHostNextHop nextHop (NhtEntry.mapDestList f) nht) := by
  have hm : ∀ y ∈ Keyed.modify NhtEntry.destinationHostNextHop nextHop (NhtEntry.mapDestList f) nht,
      y.destList = f x.destList ∨ y ∈ nht := by
    intro y hy
    obtain ⟨a, ha, rfl⟩ := Keyed.mem_modify hy
    by_cases hk : a.destinationHostNextHop = nextHop
    · have hax : a = x := Option.some.inj (((Keyed.lookup_eq_some hn.keys).mpr ⟨ha, hk⟩).symm.trans hx)
      rw [if_pos hk, hax]; exact .inl rfl
    · rw [if_neg hk]; exact .inr ha
  refine ⟨?_, fun y hy => ?_, fun y hy => ?_⟩
  · rw [Keyed.map_modify _ nextHop (NhtEntry.mapDestList f) (fun _ => rfl)]
    exact hn.keys
  · rcases hm y hy with he | he
    · rw [he]; exact hh
    · exact hn.hosts y he
  · rcases hm y hy with he | he
    · rw [he]; exact hne
    · exact hn.nonempty y he

theorem nhtFind_modify {nextHop : MacAddr} (f : List NhtDestlistEntry → List NhtDestlistEntry) (n : MacAddr) :
    nhtFind (Keyed.modify NhtEntry.destinationHostNextHop nextHop (NhtEntry.mapDestList f) nht) n =
      if n = nextHop then (nhtFind nht n).map (NhtEntry.mapDestList f) else nhtFind nht n := by
  unfold nhtFind
  rw [Keyed.lookup_modify n nextHop (NhtEntry.mapDestList f) (fun _ => rfl)]
  cases h : Keyed.lookup NhtEntry.destinationHostNextHop n nht with
  | none => split <;> rfl
  | some x =>
    have hk : x.destinationHostNextHop = n := Keyed.lookup_key h
    rw [Option.map_some, hk]
    split <;> rfl

theorem nhtRemove_ok (hn : NhtOk nht) (nextHop host : MacAddr) : NhtOk (nhtRemove nht nextHop host) := by
  unfold nhtRemove
  split
  · exact hn
  · rename_i x hx
    simp only
    split
    · exact ⟨Keyed.nodup_erase hn.keys nextHop, fun y hy => hn.hosts y (Keyed.mem_erase.mp hy).1,
        fun y hy => hn.nonempty y (Keyed.mem_erase.mp hy).1⟩
    · rename_i hne
      exact hn.modify hx (f := fun _ => Keyed.erase NhtDestlistEntry.destinationHost host x.destList)
        (Keyed.nodup_erase (hn.hosts x (Keyed.lookup_mem hx)) host) hne

theorem nhtListed_remove (nht : List NhtEntry) (nextHop host n h : MacAddr) :
    nhtListed (nhtRemove nht nextHop host) n h =
      if n = nextHop ∧ h = host then none else nhtListed nht n h := by
  unfold nhtRemove
  cases hx : nhtFind nht nextHop with
  | none =>
    by_cases hk : n = nextHop ∧ h = host
    · rw [if_pos hk, hk.1]; simp only [nhtListed, hx, Option.bind_none]
    · rw [if_neg hk]
  | some x =>
    simp only
    split
    · rename_i he
      by_cases hnn : n = nextHop
      · have hl : nhtListed (Keyed.erase NhtEntry.destinationHostNextHop nextHop nht) n h = none := by
          unfold nhtListed nhtFind
          rw [hnn, Keyed.lookup_erase_self, Option.bind_none]
        rw [hl]
        split
        · rfl
        · rename_i hk
          have hh : host ≠ h := fun e => hk ⟨hnn, e.symm⟩
          have hd := Keyed.lookup_erase_ne NhtDestlistEntry.destinationHost hh x.destList
          rw [he] at hd
          simp only [nhtListed, hnn, hx, Option.bind_some, destFind, ← hd, Keyed.lookup_nil, Option.map_none]
      · rw [if_neg fun hk => hnn hk.1]
        unfold nhtListed nhtFind
        rw [Keyed.lookup_erase_ne _ (Ne.symm hnn)]
    · unfold nhtListed
      rw [nhtFind_modify]
      by_cases hnn : n = nextHop
      · rw [if_pos hnn, hnn, hx, Option.map_some, Option.bind_some, Option.bind_some, mapDestList_destList]
        unfold destFind
        by_cases hh : h = host
        · rw [if_pos ⟨rfl, hh⟩, hh, Keyed.lookup_erase_self, Option.map_none]
        · rw [if_neg fun hk => hh hk.2, Keyed.lookup_erase_ne _ (Ne.symm hh)]
      · rw [if_neg hnn, if_neg fun hk => hnn hk.1]

theorem destFind_insert (ds : List NhtDestlistEntry) (host : MacAddr) (p : Nat) (h : MacAddr) :
    (destFind (destInsert ds host p) h).map NhtDestlistEntry.rtEntry =
      if h = host then some p else (destFind ds h).map NhtDestlistEntry.rtEntry := by
  unfold destInsert
  cases hd : destFind ds host with
  | none =>
    simp only
    unfold destFind
    by_cases hh : h = host
    · have hd' := Keyed.lookup_concat_self NhtDestlistEntry.destinationHost (l := ds)
        (a := { destinationHost := host, rtEntry := p }) hd
      rw [if_pos hh, hh, hd', Option.map_some]
    · rw [if_neg hh, Keyed.lookup_concat_ne (fun e => hh (Eq.symm e))]
  | some d =>
    simp only
    unfold destFind
    rw [Keyed.lookup_modify h host (NhtDestlistEntry.setRtEntry p) (fun _ => rfl)]
    by_cases hh : h = host
    · have hd' : Keyed.lookup NhtDestlistEntry.destinationHost host ds = some d := hd
      have hk : d.destinationHost = host := Keyed.lookup_key hd'
      rw [if_pos hh, hh, hd', Option.map_some, if_pos hk]; rfl
    · rw [if_neg hh]
      cases hx : Keyed.lookup NhtDestlistEntry.destinationHost h ds with
      | none => rfl
      | some x =>
        have hk : x.destinationHost ≠ host := by rw [Keyed.lookup_key hx]; exact hh
        rw [Option.map_some, if_neg hk]

theorem destInsert_ok (ds : List NhtDestlistEntry) (hn : (ds.map NhtDestlistEntry.destinationHost).Nodup)
    (host : MacAddr) (p : Nat) :
    ((destInsert ds host p).map NhtDestlistEntry.destinationHost).Nodup ∧ destInsert ds host p ≠ [] := by
  unfold destInsert
  cases hd : destFind ds host with
  | none => exact ⟨Keyed.nodup_concat hn hd, by simp⟩
  | some d =>
    simp only
    rw [Keyed.map_modify _ host (NhtDestlistEntry.setRtEntry p) (fun _ => rfl)]
    refine ⟨hn, fun h => ?_⟩
    rw [Keyed.modify, List.map_eq_nil_iff] at h
    rw [h] at hd
    cases hd

theorem nhtInsert_ok (hn : NhtOk nht) (nextHop host : MacAddr) (p : Nat) :
    NhtOk (nhtInsert nht nextHop host p) := by
  unfold nhtInsert
  cases hx : nhtFind nht nextHop with
  | none =>
    obtain ⟨hh, hne⟩ := destInsert_ok [] List.nodup_nil host p
    refine ⟨Keyed.nodup_concat hn.keys hx, fun y hy => ?_, fun y hy => ?_⟩
    · rcases List.mem_append.mp hy with hy | hy
      · exact hn.hosts y hy
      · rw [List.mem_singleton.mp hy]; exact hh
    · rcases List.mem_append.mp hy with hy | hy
      · exact hn.nonempty y hy
      · rw [List.mem_singleton.mp hy]; exact hne
  | some x =>
    obtain ⟨hh, hne⟩ := destInsert_ok _ (hn.hosts x (Keyed.lookup_mem hx)) host p
    exact hn.modify hx (f := fun ds => destInsert ds host p) hh hne

theorem nhtListed_insert (nht : List NhtEntry) (nextHop host : MacAddr) (p : Nat) (n h : MacAddr) :
    nhtListed (nhtInsert nht nextHop host p) n h =
      if n = nextHop ∧ h = host then some p else nhtListed nht n h := by
  unfold nhtInsert
  cases hx : nhtFind nht nextHop with
  | none =>
    simp only
    unfold nhtListed
    by_cases hnn : n = nextHop
    · have hf := Keyed.lookup_concat_self NhtEntry.destinationHostNextHop (l := nht)
        (a := { destinationHostNextHop := nextHop, destList := destInsert [] host p }) hx
      rw [hnn, hx]
      unfold nhtFind
      rw [hf, Option.bind_some, destFind_insert, Option.bind_none]
      by_cases hh : h = host
      · rw [if_pos hh, if_pos ⟨rfl, hh⟩]
      · rw [if_neg hh, if_neg fun hk => hh hk.2]; rfl
    · rw [if_neg fun hk => hnn hk.1]
      unfold nhtFind
      rw [Keyed.lookup_concat_ne (fun e => hnn (Eq.symm e))]
  | some x =>
    simp only
    unfold nhtListed
    rw [nhtFind_modify]
    by_cases hnn : n = nextHop
    · rw [if_pos hnn, hnn, hx, Option.map_some, Option.bind_some, Option.bind_some, mapDestList_destList,
        destFind_insert]
      by_cases hh : h = host
      · rw [if_pos hh, if_pos ⟨rfl, hh⟩]
      · rw [if_neg hh, if_neg fun hk => hh hk.2]
    · rw [if_neg hnn, if_neg fun hk => hnn hk.1]

end

/-! ## The inverse of a table of next hops -/

/-- The index lists the inverse of `hops`. -/
def Inverts (nht : List NhtEntry) (hops : MacAddr → Option (MacAddr × Nat)) : Prop :=
  ∀ n h p, nhtListed nht n h = some p ↔ hops h = some (n, p)

section
variable {nht : List NhtEntry} {hops : MacAddr → Option (MacAddr × Nat)}

theorem Inverts.remove (hi : Inverts nht hops) {host n : MacAddr} {p : Nat} (hh : hops host = some (n, p)) :
    Inverts (nhtRemove nht n host) (Function.update hops host none) := by
  intro n' h' p'
  rw [nhtListed_remove]
  by_cases he : h' = host
  · subst he
    rw [Function.update_self]
    split
    · constructor <;> intro e <;> cases e
    · rename_i hk
      rw [hi, hh]
      constructor
      · intro e
        obtain ⟨hne, -⟩ := Prod.mk.inj (Option.some.inj e)
        exact absurd ⟨hne.symm, rfl⟩ hk
      · intro e; cases e
  · rw [Function.update_of_ne he, if_neg fun hk => he hk.2]
    exact hi n' h' p'

theorem Inverts.insert (hi : Inverts nht hops) {host : MacAddr} (hh : hops host = none) (n : MacAddr) (p : Nat) :
    Inverts (nhtInsert nht n host p) (Function.update hops host (some (n, p))) := by
  intro n' h' p'
  rw [nhtListed_insert]
  by_cases he : h' = host
  · subst he
    rw [Function.update_self]
    by_cases hn : n' = n
    · rw [if_pos ⟨hn, rfl⟩, hn]; simp
    · rw [if_neg fun hk => hn hk.1, hi, hh]
      constructor
      · intro e; cases e
      · intro e
        exact absurd (Prod.mk.inj (Option.some.inj e)).1.symm hn
  · rw [Function.update_of_ne he, if_neg fun hk => he hk.2]
    exact hi n' h' p'

end

/-! ## The index of a routing table -/

/-- The next hop towards a host and the entry it is stored in, if it is known. -/
def Rt.hops (rt : Rt) (host : MacAddr) : Option (MacAddr × Nat) :=
  (rt.known host).map fun e => (e.nextHop, e.ptr)

/-- The pairs in `nht` are those of the entries whose next hop is known, each refers to its very entry,
and no destination list is empty. -/
structure Rt.Indexed (rt : Rt) : Prop where
  exact : ∀ nextHop host p,
    (∃ x ∈ rt.nht, x.destinationHostNextHop = nextHop ∧
        ∃ d ∈ x.destList, d.destinationHost = host ∧ d.rtEntry = p) ↔
      ∃ e ∈ rt.entries, e.addr = host ∧ e.flags.nextHopUnknown = false ∧ e.nextHop = nextHop ∧ e.ptr = p
  nonempty : ∀ x ∈ rt.nht, x.destList ≠ []

namespace Rt

section
variable {rt : Rt}

theorem hops_eq_some {host n : MacAddr} {p : Nat} :
    rt.hops host = some (n, p) ↔
      ∃ e, rt.find host = some e ∧ e.flags.nextHopUnknown = false ∧ e.nextHop = n ∧ e.ptr = p := by
  simp only [hops, known, Option.map_eq_some_iff, Option.filter_eq_some_iff, Bool.not_eq_true', Prod.mk.injEq,
    and_assoc]

theorem hops_eq_none {host : MacAddr} :
    rt.hops host = none ↔ ∀ e, rt.find host = some e → e.flags.nextHopUnknown = true := by
  simp only [hops, known, Option.map_eq_none_iff, Option.filter_eq_none_iff, Bool.not_eq_true',
    Bool.not_eq_false]

theorem indexed_iff (hw : rt.WF) (hn : NhtOk rt.nht) : rt.Indexed ↔ Inverts rt.nht rt.hops := by
  have he : ∀ nextHop host p, rt.hops host = some (nextHop, p) ↔
      ∃ e ∈ rt.entries, e.addr = host ∧ e.flags.nextHopUnknown = false ∧ e.nextHop = nextHop ∧ e.ptr = p := by
    intro nextHop host p
    rw [hops_eq_some]
    simp only [hw.find_iff, and_assoc]
  constructor
  · intro h n k p
    rw [hn.listed_iff, he]
    exact h.exact n k p
  · intro h
    refine ⟨fun n k p => ?_, hn.nonempty⟩
    rw [← hn.listed_iff, ← he]
    exact h n k p

theorem hops_write (p : Nat) {f : RtEntry → RtEntry} (hf : ∀ e : RtEntry, e.Weaker (f e)) :
    (rt.write p f).hops = rt.hops := by
  funext host
  unfold hops known
  rw [find_write fun e => (hf e).addr]
  cases rt.find host with
  | none => rfl
  | some e =>
    simp only [Option.map_some]
    split
    · simp only [Option.filter_some, (hf e).unknown]
      split
      · simp only [Option.map_some, (hf e).nextHop, (hf e).ptr]
      · rfl
    · rfl

theorem Wrote.hops {host : MacAddr} {y : RtEntry} {rt' : Rt} (h : Wrote rt host y rt') :
    rt'.hops = Function.update rt.hops host
      (if y.flags.nextHopUnknown then none else some (y.nextHop, y.ptr)) := by
  funext k
  unfold Rt.hops known
  rw [h.find]
  by_cases hk : k = host
  · subst hk
    rw [Function.update_self, if_pos rfl]
    cases hy : y.flags.nextHopUnknown <;> simp [hy]
  · rw [Function.update_of_ne hk, if_neg hk]

end

end Rt

/-! ## Purges and captures -/

theorem purgeRtEntry_ok {rt : Rt} (hn : NhtOk rt.nht) (p : Nat) : NhtOk (purgeRtEntry rt p).nht := by
  unfold purgeRtEntry
  split
  · exact hn
  · simp only
    split
    · exact hn
    · exact nhtRemove_ok hn _ _

/-- A purge takes the entry out of the index together with the table. -/
theorem purgeRtEntry_inverts {rt : Rt} (ha : (rt.entries.map RtEntry.addr).Nodup)
    (hp : (rt.entries.map RtEntry.ptr).Nodup) (hi : Inverts rt.nht rt.hops) (p : Nat) :
    Inverts (purgeRtEntry rt p).nht (purgeRtEntry rt p).hops := by
  cases hd : rt.deref p with
  | none =>
    have he : purgeRtEntry rt p = { rt with fault := true } := by simp only [purgeRtEntry, hd]
    rw [he]; exact hi
  | some e =>
    obtain ⟨hm, hpe⟩ := (Keyed.lookup_eq_some hp).mp hd
    have hf : rt.find e.addr = some e := Keyed.lookup_of_mem ha hm
    have hh : (purgeRtEntry rt p).hops = Function.update rt.hops e.addr none := by
      funext k
      unfold Rt.hops Rt.known Rt.find
      rw [purgeRtEntry_entries, Keyed.erase, Keyed.lookup_filter ha]
      by_cases hk : k = e.addr
      · have hf' : Keyed.lookup RtEntry.addr e.addr rt.entries = some e := hf
        rw [hk, Function.update_self, hf', Option.filter_some, if_neg (by simpa using hpe)]
        rfl
      · rw [Function.update_of_ne hk]
        cases hx : Keyed.lookup RtEntry.addr k rt.entries with
        | none => rfl
        | some x =>
          have hne : x.ptr ≠ p := by
            intro h
            have hxe : x = e := List.inj_on_of_nodup_map hp (Keyed.lookup_mem hx) hm (h.trans hpe.symm)
            exact hk (hxe ▸ (Keyed.lookup_key hx).symm)
          rw [Option.filter_some, if_pos (by simpa using hne)]
    rw [hh]
    simp only [purgeRtEntry, hd]
    cases hu : e.flags.nextHopUnknown with
    | true =>
      have hnone : rt.hops e.addr = none := by
        rw [Rt.hops_eq_none]
        intro e' he'
        rw [← Option.some.inj (hf.symm.trans he')]; exact hu
      have hself : Function.update rt.hops e.addr none = rt.hops := by
        rw [← hnone]; exact Function.update_eq_self _ _
      rw [hself]; exact hi
    | false =>
      exact hi.remove (Rt.hops_eq_some.mpr ⟨e, hf, hu, rfl, hpe⟩)

theorem purgeRtEntries_ok {rt : Rt} (hn : NhtOk rt.nht) (purged : List (TimeslotElement Nat)) :
    NhtOk (purgeRtEntries rt purged).nht := by
  induction purged generalizing rt with
  | nil => exact hn
  | cons el els ih => exact ih (purgeRtEntry_ok hn el.object)

theorem purgeRtEntries_inverts {rt : Rt} (ha : (rt.entries.map RtEntry.addr).Nodup)
    (hp : (rt.entries.map RtEntry.ptr).Nodup) (hi : Inverts rt.nht rt.hops)
    (purged : List (TimeslotElement Nat)) :
    Inverts (purgeRtEntries rt purged).nht (purgeRtEntries rt purged).hops := by
  induction purged generalizing rt with
  | nil => exact hi
  | cons el els ih =>
    refine ih ?_ ?_ (purgeRtEntry_inverts ha hp hi el.object)
    · rw [purgeRtEntry_entries]; exact Keyed.nodup_erase ha _
    · rw [purgeRtEntry_entries]; exact Keyed.nodup_erase hp _

section
variable {rt : Rt}

theorem rtTimeslotAddobject_ok (hn : NhtOk rt.nht) (timestamp currTime : Timeval) (p : Nat) :
    NhtOk (rtTimeslotAddobject rt timestamp currTime p).nht :=
  @purgeRtEntries_ok { rt with ts := (timeslotAddobject rt.ts timestamp currTime p).1 } hn _

theorem rtTimeslotAddobject_inverts (hw : rt.WF) (hi : Inverts rt.nht rt.hops) (timestamp currTime : Timeval)
    (p : Nat) :
    Inverts (rtTimeslotAddobject rt timestamp currTime p).nht
      (rtTimeslotAddobject rt timestamp currTime p).hops :=
  @purgeRtEntries_inverts { rt with ts := (timeslotAddobject rt.ts timestamp currTime p).1 }
    hw.addrs hw.ptrs hi _

theorem cleanup_ok (hn : NhtOk rt.nht) (now : Timeval) : NhtOk (aodvDbRtCleanup rt now).nht :=
  @purgeRtEntries_ok { rt with ts := (timeslotPurgeobjects rt.ts now).1 } hn _

theorem cleanup_inverts (hw : rt.WF) (hi : Inverts rt.nht rt.hops) (now : Timeval) :
    Inverts (aodvDbRtCleanup rt now).nht (aodvDbRtCleanup rt now).hops :=
  @purgeRtEntries_inverts { rt with ts := (timeslotPurgeobjects rt.ts now).1 } hw.addrs hw.ptrs hi _

end

namespace Rt

section
variable {rt : Rt}

theorem findOrCreate_ok (hn : NhtOk rt.nht) (host : MacAddr) (now : Timeval) :
    NhtOk (rtFindOrCreate rt host now now).1.nht := by
  unfold rtFindOrCreate
  split
  · exact hn
  · exact @rtTimeslotAddobject_ok { rt with fresh := rt.fresh + 1 } hn now now rt.fresh

theorem WF.findOrCreate_inverts (hw : rt.WF) (hi : Inverts rt.nht rt.hops) (host : MacAddr) (now : Timeval) :
    Inverts (rtFindOrCreate rt host now now).1.nht (rtFindOrCreate rt host now now).1.hops := by
  cases hf : rt.find host with
  | some e => rw [findOrCreate_found hf]; exact hi
  | none =>
    let r := rtTimeslotAddobject { rt with fresh := rt.fresh + 1 } now now rt.fresh
    have hr : rtFindOrCreate rt host now now =
        ({ r with entries := r.entries ++ [newRtEntry rt.fresh host] }, newRtEntry rt.fresh host) := by
      simp only [rtFindOrCreate, hf]
      rfl
    have hir : Inverts r.nht r.hops :=
      @purgeRtEntries_inverts { rt with
        fresh := rt.fresh + 1, ts := (timeslotAddobject rt.ts now now rt.fresh).1 } hw.addrs hw.ptrs hi _
    have hh : (rtFindOrCreate rt host now now).1.hops = r.hops := by
      rw [hr]
      funext k
      have hl : Rt.find { r with entries := r.entries ++ [newRtEntry rt.fresh host] } k =
          (r.find k).or (Keyed.lookup RtEntry.addr k [newRtEntry rt.fresh host]) :=
        Keyed.lookup_append k _ _
      unfold Rt.hops known
      rw [hl]
      cases hk : r.find k with
      | some e => rw [Option.some_or]
      | none =>
        rw [Option.none_or, Keyed.lookup_singleton]
        split <;> rfl
    rw [hh, hr]
    exact hir

theorem judged_ok (hn : NhtOk rt.nht) (destinationHost originatorHost : MacAddr) (now : Timeval) :
    NhtOk (rt.judged destinationHost originatorHost now).1.nht :=
  findOrCreate_ok (findOrCreate_ok hn destinationHost now) originatorHost now

theorem WF.judged_inverts (hw : rt.WF) (hi : Inverts rt.nht rt.hops) (destinationHost originatorHost : MacAddr)
    (now : Timeval) :
    Inverts (rt.judged destinationHost originatorHost now).1.nht
      (rt.judged destinationHost originatorHost now).1.hops :=
  (hw.findOrCreate destinationHost now).1.findOrCreate_inverts
    (hw.findOrCreate_inverts hi destinationHost now) originatorHost now

theorem captRrep_ok (hn : NhtOk rt.nht) {host : MacAddr} {x : RtEntry} (hx : rt.find host = some x)
    (nextHop : MacAddr) (iface : Meshif) (seq : UInt32) (metric : Metric) (hopCount : UInt8) (now : Timeval) :
    NhtOk (rtCaptRrep rt host nextHop iface seq metric hopCount now now).1.nht := by
  rw [captRrep_eq hx]
  split
  · refine nhtInsert_ok ?_ _ _ _
    split
    · exact hn
    · exact nhtRemove_ok hn _ _
  · exact hn

theorem WF.captRrep_inverts (hw : rt.WF) (hi : Inverts rt.nht rt.hops) {host : MacAddr} {x : RtEntry}
    (hx : rt.find host = some x) (nextHop : MacAddr) (iface : Meshif) (seq : UInt32) (metric : Metric)
    (hopCount : UInt8) (now : Timeval) :
    Inverts (rtCaptRrep rt host nextHop iface seq metric hopCount now now).1.nht
      (rtCaptRrep rt host nextHop iface seq metric hopCount now now).1.hops := by
  rw [(hw.captRrep hx nextHop iface seq metric hopCount now).2.hops, captRrep_eq hx]
  have ha : x.addr = host := find_addr hx
  by_cases hu : rrepUsed x seq = true
  · simp only [hu, if_true]
    have hrem : Inverts (if x.flags.nextHopUnknown then rt.nht else nhtRemove rt.nht x.nextHop x.addr)
        (Function.update rt.hops host none) := by
      cases hk : x.flags.nextHopUnknown with
      | true =>
        have hnone : rt.hops host = none :=
          hops_eq_none.mpr fun e he => by rw [← Option.some.inj (hx.symm.trans he)]; exact hk
        have hself : Function.update rt.hops host none = rt.hops := by
          rw [← hnone]; exact Function.update_eq_self _ _
        rw [hself]; exact hi
      | false =>
        rw [ha]
        exact hi.remove (hops_eq_some.mpr ⟨x, hx, hk, rfl, rfl⟩)
    have hins := hrem.insert (Function.update_self host none rt.hops) nextHop x.ptr
    rw [Function.update_idem] at hins
    exact hins
  · simp only [hu]
    have hself : rt.hops host = if x.flags.nextHopUnknown then none else some (x.nextHop, x.ptr) := by
      cases hk : x.flags.nextHopUnknown with
      | true => exact hops_eq_none.mpr fun e he => by rw [← Option.some.inj (hx.symm.trans he)]; exact hk
      | false => exact hops_eq_some.mpr ⟨x, hx, hk, rfl, rfl⟩
    have hupd := Function.update_eq_self host rt.hops
    rw [hself] at hupd
    simp only [Bool.false_eq_true, if_false]
    rw [hupd]
    exact hi

theorem getroute2dest_ok (hn : NhtOk rt.nht) (host : MacAddr) (timestamp currTime : Timeval) (flags : RtFlags) :
    NhtOk (aodvDbRtGetroute2dest rt host timestamp currTime flags).1.nht := by
  simp only [aodvDbRtGetroute2dest]
  split
  · exact hn
  · split
    · rename_i e _ _
      exact @rtTimeslotAddobject_ok (rt.write e.ptr (RtEntry.setFlags flags)) hn _ _ _
    · exact hn

theorem WF.getroute2dest_inverts (hw : rt.WF) (hi : Inverts rt.nht rt.hops) (host : MacAddr)
    (timestamp currTime : Timeval) {flags : RtFlags} (hf : flags.nextHopUnknown = false) :
    Inverts (aodvDbRtGetroute2dest rt host timestamp currTime flags).1.nht
      (aodvDbRtGetroute2dest rt host timestamp currTime flags).1.hops := by
  simp only [aodvDbRtGetroute2dest]
  split
  · exact hi
  · rename_i e he
    split
    · have hw' := hw.write_weaker e.ptr (RtEntry.weaker_setFlags hf)
      have hi' : Inverts (rt.write e.ptr (RtEntry.setFlags flags)).nht
          (rt.write e.ptr (RtEntry.setFlags flags)).hops := by
        rw [hops_write e.ptr (RtEntry.weaker_setFlags hf)]; exact hi
      exact rtTimeslotAddobject_inverts hw' hi' timestamp currTime e.ptr
    · exact hi

theorem foldl_markInvalid_hops (destList : List NhtDestlistEntry) (rt : Rt) :
    (destList.foldl (fun rt dest => rt.write dest.rtEntry RtEntry.markInvalid) rt).nht = rt.nht ∧
      (destList.foldl (fun rt dest => rt.write dest.rtEntry RtEntry.markInvalid) rt).hops = rt.hops := by
  induction destList generalizing rt with
  | nil => exact ⟨rfl, rfl⟩
  | cons d ds ih =>
    obtain ⟨h₁, h₂⟩ := ih (rt.write d.rtEntry RtEntry.markInvalid)
    exact ⟨h₁, h₂.trans (hops_write d.rtEntry RtEntry.weaker_markInvalid)⟩

theorem warnEndpoint_hops (acc : Rt × List AodvMacSeq) (dest : NhtDestlistEntry) :
    (warnEndpoint acc dest).1.nht = acc.1.nht ∧ (warnEndpoint acc dest).1.hops = acc.1.hops := by
  unfold warnEndpoint
  split
  · exact ⟨rfl, rfl⟩
  · split
    · exact ⟨rfl, rfl⟩
    · exact ⟨rfl, hops_write dest.rtEntry RtEntry.weaker_markWarn⟩

theorem foldl_warnEndpoint_hops (destList : List NhtDestlistEntry) (acc : Rt × List AodvMacSeq) :
    (destList.foldl warnEndpoint acc).1.nht = acc.1.nht ∧
      (destList.foldl warnEndpoint acc).1.hops = acc.1.hops := by
  induction destList generalizing acc with
  | nil => exact ⟨rfl, rfl⟩
  | cons d ds ih =>
    obtain ⟨h₁, h₂⟩ := ih (warnEndpoint acc d)
    obtain ⟨h₃, h₄⟩ := warnEndpoint_hops acc d
    exact ⟨h₁.trans h₃, h₂.trans h₄⟩

theorem step_hops {op : RtOp} (hop : op.flagsOnly = true) :
    (rt.step op).nht = rt.nht ∧ (rt.step op).hops = rt.hops := by
  cases op with
  | markrouteinv host seq =>
    simp only [step, aodvDbRtMarkrouteinv]
    split
    · exact ⟨rfl, rfl⟩
    · split
      · exact ⟨rfl, rfl⟩
      · exact ⟨rfl, hops_write _ RtEntry.weaker_markInvalid⟩
  | getDestlist nextHop =>
    simp only [step, aodvDbRtGetDestlist]
    split <;> exact ⟨rfl, rfl⟩
  | invOverNexthop nextHop =>
    simp only [step, aodvDbRtInvOverNexthop]
    split
    · exact ⟨rfl, rfl⟩
    · exact foldl_markInvalid_hops _ rt
  | setWarn neighbor =>
    simp only [step, aodvDbRtGetWarnEndpointsFromNeighborAndSetWarn]
    split
    · exact ⟨rfl, rfl⟩
    · exact foldl_warnEndpoint_hops _ (rt, [])
  | routingReset =>
    refine ⟨rfl, ?_⟩
    funext host
    have hl := Keyed.lookup_map RtEntry.addr host RtEntry.markInvalid (fun _ => rfl) rt.entries
    have hf : (rt.step .routingReset).find host = (rt.find host).map RtEntry.markInvalid := hl
    unfold hops known
    rw [hf]
    cases rt.find host with
    | none => rfl
    | some e =>
      have hu : e.markInvalid.flags.nextHopUnknown = e.flags.nextHopUnknown := rfl
      rw [Option.map_some, Option.filter_some, Option.filter_some, hu]
      split <;> rfl
  | overread beyond => exact ⟨rfl, rfl⟩
  | rreq => cases hop
  | rrep => cases hop
  | getroute2dest => cases hop
  | cleanup => cases hop

theorem step_ok (hn : NhtOk rt.nht) (hw : rt.WF) (op : RtOp) : NhtOk (rt.step op).nht := by
  cases op with
  | rreq metricType dest orig prevHop iface seq metric hopCount now =>
    obtain ⟨hwj, -, hf⟩ := hw.judged dest orig now
    have hnj := judged_ok hn dest orig now
    by_cases ho : rreqResult metricType (rt.judged dest orig now).2 seq metric = .old
    · rw [step_rreq_old ho]; exact hnj
    · rw [step_rreq_new _ _ _ ho]
      have hf' := ((hwj.captRreq hf prevHop iface seq metric hopCount).2.find orig).trans (if_pos rfl)
      refine captRrep_ok ?_ hf' prevHop iface 0 metric hopCount now
      exact hnj
  | rrep host nextHop iface seq metric hopCount now =>
    obtain ⟨-, -, hf⟩ := hw.findOrCreate host now
    rw [hw.step_rrep]
    exact captRrep_ok (findOrCreate_ok hn host now) hf nextHop iface seq metric hopCount now
  | getroute2dest host now localUsed => exact getroute2dest_ok hn host now now _
  | cleanup now => exact cleanup_ok hn now
  | markrouteinv => rw [(step_hops rfl).1]; exact hn
  | getDestlist => rw [(step_hops rfl).1]; exact hn
  | invOverNexthop => rw [(step_hops rfl).1]; exact hn
  | setWarn => rw [(step_hops rfl).1]; exact hn
  | routingReset => rw [(step_hops rfl).1]; exact hn
  | overread => rw [(step_hops rfl).1]; exact hn

/-! ## Runs -/

/-- The operation does not make a RREQ replace a next hop that is known: if the RREQ is not old and the
next hop towards its originator is known, it comes over that very next hop. -/
def KeepsHop (rt : Rt) : RtOp → Prop
  | .rreq metricType destinationHost originatorHost prevHop _ seq metric _ now =>
    let x := (rt.judged destinationHost originatorHost now).2
    rreqResult metricType x seq metric ≠ .old → x.flags.nextHopUnknown = false → x.nextHop = prevHop
  | _ => True

theorem WF.rreq_inverts (hw : rt.WF) (hi : Inverts rt.nht rt.hops) (metricType : AodvMetric)
    (dest orig prevHop : MacAddr) (iface : Meshif) (seq : UInt32) (metric : Metric) (hopCount : UInt8)
    (now : Timeval) :
    Inverts (rt.step (.rreq metricType dest orig prevHop iface seq metric hopCount now)).nht
        (rt.step (.rreq metricType dest orig prevHop iface seq metric hopCount now)).hops ↔
      rt.KeepsHop (.rreq metricType dest orig prevHop iface seq metric hopCount now) := by
  obtain ⟨hwj, -, hf⟩ := hw.judged dest orig now
  have hij := hw.judged_inverts hi dest orig now
  have hh := (hw.rreq metricType dest orig prevHop iface seq metric hopCount now).2.hops
  by_cases ho : rreqResult metricType (rt.judged dest orig now).2 seq metric = .old
  · rw [step_rreq_old ho]
    exact ⟨fun _ hne => absurd ho hne, fun _ => hij⟩
  · have hs := step_rreq_new prevHop iface hopCount ho
    rw [if_neg ho] at hh
    simp only [KeepsHop]
    generalize rt.judged dest orig now = j at *
    obtain ⟨hn', -, -, -, hk'⟩ := j.2.afterRreq_route prevHop iface seq metric hopCount
    rw [if_neg (by rw [hk']; exact Bool.false_ne_true), hn', RtEntry.afterRreq_ptr] at hh
    obtain ⟨hw₁, h₁⟩ := hwj.captRreq hf prevHop iface seq metric hopCount
    have hf₁ := (h₁.find orig).trans (if_pos rfl)
    constructor
    · -- the old next hop stays listed
      intro hi' _ hk
      by_contra hne
      have hold : nhtListed j.1.nht j.2.nextHop orig = some j.2.ptr :=
        (hij _ _ _).mpr (hops_eq_some.mpr ⟨j.2, hf, hk, rfl, rfl⟩)
      have hnew : nhtListed (rt.step (.rreq metricType dest orig prevHop iface seq metric hopCount now)).nht
          j.2.nextHop orig = some j.2.ptr := by
        rw [hs, captRrep_eq hf₁]
        have hkf : (j.2.captRreq prevHop iface seq metric hopCount).flags.nextHopUnknown = false := hk
        by_cases hu : rrepUsed (j.2.captRreq prevHop iface seq metric hopCount) 0 = true
        · simp only [hu, if_true, hkf]
          rw [nhtListed_insert, if_neg fun h => hne h.1]
          simp only [Bool.false_eq_true, if_false]
          rw [nhtListed_remove, if_neg fun h => hne h.1]
          exact hold
        · simp only [hu]
          exact hold
      have hh' := (hi' _ _ _).mp hnew
      rw [hh, Function.update_self] at hh'
      exact hne (Prod.mk.inj (Option.some.inj hh')).1.symm
    · intro hc
      have hi₁ : Inverts (j.1.write j.2.ptr (RtEntry.captRreq prevHop iface seq metric hopCount)).nht
          (j.1.write j.2.ptr (RtEntry.captRreq prevHop iface seq metric hopCount)).hops := by
        rw [h₁.hops]
        cases hk : j.2.flags.nextHopUnknown with
        | true =>
          have hnone : j.1.hops orig = none :=
            hops_eq_none.mpr fun e he => by rw [← Option.some.inj (hf.symm.trans he)]; exact hk
          have hself := Function.update_eq_self orig j.1.hops
          rw [hnone] at hself
          have hkf : (j.2.captRreq prevHop iface seq metric hopCount).flags.nextHopUnknown = true := hk
          rw [if_pos hkf, hself]
          exact hij
        | false =>
          have hsome : j.1.hops orig = some (prevHop, j.2.ptr) :=
            hops_eq_some.mpr ⟨j.2, hf, hk, hc ho hk, rfl⟩
          have hself := Function.update_eq_self orig j.1.hops
          rw [hsome] at hself
          have hkf : (j.2.captRreq prevHop iface seq metric hopCount).flags.nextHopUnknown = false := hk
          rw [if_neg (by rw [hkf]; exact Bool.false_ne_true)]
          exact hself.symm ▸ hij
      rw [hs]
      exact hw₁.captRrep_inverts hi₁ hf₁ prevHop iface 0 metric hopCount now

theorem WF.step_inverts (hw : rt.WF) (hi : Inverts rt.nht rt.hops) (op : RtOp) :
    Inverts (rt.step op).nht (rt.step op).hops ↔ rt.KeepsHop op := by
  cases op with
  | rreq => exact hw.rreq_inverts hi ..
  | rrep host nextHop iface seq metric hopCount now =>
    obtain ⟨hwj, -, hf⟩ := hw.findOrCreate host now
    rw [hw.step_rrep]
    exact iff_of_true (hwj.captRrep_inverts (hw.findOrCreate_inverts hi host now) hf nextHop iface seq metric
      hopCount now) trivial
  | getroute2dest host now localUsed =>
    refine iff_of_true (hw.getroute2dest_inverts hi host now now ?_) trivial
    cases localUsed <;> rfl
  | cleanup now => exact iff_of_true (cleanup_inverts hw hi now) trivial
  | _ =>
    refine iff_of_true ?_ trivial
    rw [(step_hops rfl).1, (step_hops rfl).2]
    exact hi

end

end Rt

/-- The index of a table is exact throughout a run exactly if no RREQ of the run replaces a next hop that
is known. -/
theorem indexed_throughout_iff (ops : List RtOp) :
    Runs.Throughout Rt.step Rt.Indexed aodvDbRtInit ops ↔ Runs.Always Rt.step Rt.KeepsHop aodvDbRtInit ops := by
  refine Runs.throughout_iff_always (J := fun rt => rt.WF ∧ NhtOk rt.nht) ?_ ?_ ⟨init_wf, nhtOk_nil⟩ ?_
  · intro rt op hx
    obtain ⟨hw, hn⟩ := hx
    exact ⟨hw.step op, Rt.step_ok hn hw op⟩
  · intro rt op hx hi
    obtain ⟨hw, hn⟩ := hx
    rw [Rt.indexed_iff (hw.step op) (Rt.step_ok hn hw op)]
    exact hw.step_inverts ((Rt.indexed_iff hw hn).mp hi) op
  · refine (Rt.indexed_iff init_wf nhtOk_nil).mpr fun n h p => ?_
    simp [nhtListed, nhtFind, Rt.hops, Rt.known, Rt.find, aodvDbRtInit]

/-- An originator is heard over one neighbor and then, under a new number, over another. -/
def moveHop : List RtOp :=
  [.rreq .rfc 9 5 1 { ifindex := 1, hwaddr := 7 } 1 0 1 0, .rreq .rfc 9 5 2 { ifindex := 1, hwaddr := 7 } 2 0 1 1]

theorem moveHop_not_indexed : ¬ Runs.Throughout Rt.step Rt.Indexed aodvDbRtInit moveHop := by
  intro h
  have hlast := (Runs.throughout_iff.mp h) moveHop [] rfl
  obtain ⟨e, he, ha, -, hn, -⟩ := (hlast.exact 1 5 1).mp (by decide)
  revert e
  decide

end DesAodv
