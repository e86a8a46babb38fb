import DesAodv.FifoLinks
import DesAodv.TimedTable
import DesAodv.TimeslotMap

/-!
# First in, first out

For every destination the packet buffer is a queue. A packet leaves it by being
popped, in the order in which it was pushed, or with the whole queue when the
last push for the destination is long enough ago.
-/

namespace DesAodv

open Deadlines

/-- A queue is as it was, or it is gone at the time `T` because its purge time has come. -/
def KeptOrPurged (purgeTime : Option Timeval) (T : Timeval) (q q' : List DessertMsg) : Prop :=
  q' = q ∨ q' = [] ∧ ∃ t, purgeTime = some t ∧ t ≤ T

namespace PacketBuffer

/-! ## The queues and their purge times -/

def live (pb : PacketBuffer) : MacAddr → Option Timeval :=
  byKey PbEl.dhostEther PbEl.ptr pb.entries pb.ts.deadline

/-- Queues and timeslot agree, and no queue is empty. -/
structure Ok (pb : PacketBuffer) : Prop where
  ordered : pb.ts.Ordered
  tracked : Tracked PbEl.dhostEther PbEl.ptr pb.entries pb.ts.deadline
  allocated : ∀ x ∈ pb.entries, x.ptr < pb.fresh
  waiting : ∀ x ∈ pb.entries, x.fl ≠ []

theorem ok_init : pbInit.Ok :=
  ⟨Timeslot.ordered_create _, tracked_nil, fun _ h => (List.not_mem_nil h).elim, fun _ h => (List.not_mem_nil h).elim⟩

theorem foldl_purge (purged : List (TimeslotElement Nat)) (pb : PacketBuffer) :
    purged.foldl purgePackets pb =
      { pb with entries := pb.entries.filter fun x => decide (x.ptr ∉ purged.map TimeslotElement.object) } := by
  induction purged generalizing pb with
  | nil => simp
  | cons el els ih =>
    rw [List.foldl_cons, ih]
    simp only [purgePackets, Keyed.filter_erase, List.map_cons]

section
variable {pb : PacketBuffer}

theorem Ok.wf (hn : pb.Ok) : pb.WF := ⟨hn.tracked.keys, hn.tracked.ptrs, hn.allocated⟩

/-- A purge of the timeslot with its callbacks takes out queues whose purge time has come. -/
theorem purged_spec {ts : Timeslot Nat} {purged : List (TimeslotElement Nat)} {d : Nat → Option Timeval}
    {T : Timeval} (hord : ts.Ordered) (htracked : Tracked PbEl.dhostEther PbEl.ptr pb.entries d)
    (halloc : ∀ x ∈ pb.entries, x.ptr < pb.fresh) (hwait : ∀ x ∈ pb.entries, x.fl ≠ [])
    (hr : Removed d T (Timeslot.calls purged) ts.deadline) :
    (purged.foldl purgePackets { pb with ts }).Ok ∧ (purged.foldl purgePackets { pb with ts }).ts = ts ∧
      (∀ k t, (purged.foldl purgePackets { pb with ts }).live k = some t →
        byKey PbEl.dhostEther PbEl.ptr pb.entries d k = some t) ∧
      ∀ host, KeptOrPurged (byKey PbEl.dhostEther PbEl.ptr pb.entries d host) T (pb.queue host)
        ((purged.foldl purgePackets { pb with ts }).queue host) := by
  obtain ⟨ht, hg⟩ := Timeslot.tracked_purged htracked hr
  rw [foldl_purge]
  refine ⟨⟨hord, ht, ?_, ?_⟩, rfl, fun k t hk => ((hg.rest k t).mp hk).1, fun host => ?_⟩
  · exact fun x hx => halloc x (List.mem_of_mem_filter hx)
  · exact fun x hx => hwait x (List.mem_of_mem_filter hx)
  · unfold PacketBuffer.queue
    rw [Keyed.lookup_filter htracked.keys]
    cases hl : Keyed.lookup PbEl.dhostEther host pb.entries with
    | none => exact .inl rfl
    | some x =>
      rw [Option.filter_some]
      by_cases hx : x.ptr ∉ purged.map TimeslotElement.object
      · rw [if_pos (decide_eq_true hx)]
        exact .inl rfl
      · rw [if_neg (by simpa using hx)]
        refine .inr ⟨rfl, ?_⟩
        rw [← Timeslot.calls_objects, not_not] at hx
        obtain ⟨g, hgm, hgx⟩ := List.mem_map.mp hx
        obtain ⟨hd, hle⟩ := hr.due g.1 g.2 hgm
        refine ⟨g.2, (byKey_eq_some htracked.keys).mpr ⟨x, Keyed.lookup_mem hl, Keyed.lookup_key hl, ?_⟩, hle⟩
        rw [← hgx]
        exact hd

theorem Ok.cleanup (hn : pb.Ok) (timestamp : Timeval) :
    (pbCleanup pb timestamp).Ok ∧ (pbCleanup pb timestamp).ts.purgeTimeout = pb.ts.purgeTimeout ∧
      (∀ k t, (pbCleanup pb timestamp).live k = some t → pb.live k = some t) ∧
      ∀ host, KeptOrPurged (pb.live host) timestamp (pb.queue host) ((pbCleanup pb timestamp).queue host) := by
  obtain ⟨hr, -⟩ := hn.ordered.purge_removed timestamp
  obtain ⟨hok, hts, hlive, hq⟩ := purged_spec (hn.ordered.purge timestamp) hn.tracked hn.allocated hn.waiting hr
  exact ⟨hok, (congrArg Timeslot.purgeTimeout hts).trans (purge_timeout _ _), hlive, hq⟩

theorem queue_of_mem (hw : pb.WF) {x : PbEl} (hx : x ∈ pb.entries) : pb.queue x.dhostEther = x.fl := by
  unfold PacketBuffer.queue
  rw [Keyed.lookup_of_mem hw.hosts hx]
  rfl

theorem WF.append (hw : pb.WF) {x : PbEl} (hx : x ∈ pb.entries) (msg : DessertMsg) (host : MacAddr) :
    ({ pb with
        entries := Keyed.modify PbEl.ptr x.ptr (fun y => { y with fl := y.fl ++ [msg] }) pb.entries } :
      PacketBuffer).queue host = if host = x.dhostEther then pb.queue host ++ [msg] else pb.queue host := by
  let entries := Keyed.modify PbEl.ptr x.ptr (fun y => { y with fl := y.fl ++ [msg] }) pb.entries
  have hset : ({ pb with entries } : PacketBuffer).WF ∧ _ := hw.setQueue hx (fun fl => fl ++ [msg]) rfl rfl
  refine (hset.2 host).trans ?_
  by_cases hh : host = x.dhostEther
  · rw [if_pos hh, if_pos hh, hh, queue_of_mem hw hx]
  · rw [if_neg hh, if_neg hh]

/-- The buffer with a packet behind the others for its destination, before the purge time of the queue is
renewed, and the address of the queue. -/
def appended (pb : PacketBuffer) (dhostEther : MacAddr) (msg : DessertMsg) : PacketBuffer × Nat :=
  let (pb, ptr) :=
    match Keyed.lookup PbEl.dhostEther dhostEther pb.entries with
    | some pbEl => (pb, pbEl.ptr)
    | none =>
      ({ pb with
          entries := pb.entries ++ [({ ptr := pb.fresh, dhostEther, fl := [] } : PbEl)]
          fresh := pb.fresh + 1 }, pb.fresh)
  ({ pb with entries := Keyed.modify PbEl.ptr ptr (fun x => { x with fl := x.fl ++ [msg] }) pb.entries }, ptr)

theorem Ok.appended (hn : pb.Ok) (dhostEther : MacAddr) (msg : DessertMsg) (t : Timeval) :
    (pb.appended dhostEther msg).1.ts = pb.ts ∧
      (∀ x ∈ (pb.appended dhostEther msg).1.entries, x.ptr < (pb.appended dhostEther msg).1.fresh) ∧
      (∀ x ∈ (pb.appended dhostEther msg).1.entries, x.fl ≠ []) ∧
      Tracked PbEl.dhostEther PbEl.ptr (pb.appended dhostEther msg).1.entries
        (Function.update pb.ts.deadline (pb.appended dhostEther msg).2 (some t)) ∧
      byKey PbEl.dhostEther PbEl.ptr (pb.appended dhostEther msg).1.entries
          (Function.update pb.ts.deadline (pb.appended dhostEther msg).2 (some t)) =
        Function.update pb.live dhostEther (some t) ∧
      ∀ host, (pb.appended dhostEther msg).1.queue host =
        if host = dhostEther then pb.queue host ++ [msg] else pb.queue host := by
  unfold PacketBuffer.appended
  have hwait : ∀ (ptr : Nat) (l : List PbEl), (∀ x ∈ l, x.ptr ≠ ptr → x.fl ≠ []) →
      ∀ x ∈ Keyed.modify PbEl.ptr ptr (fun x => { x with fl := x.fl ++ [msg] }) l, x.fl ≠ [] := by
    intro ptr l hl x hx
    obtain ⟨y, hy, rfl⟩ := Keyed.mem_modify hx
    split
    · simp
    · rename_i hp
      exact hl y hy hp
  cases hl : Keyed.lookup PbEl.dhostEther dhostEther pb.entries with
  | some x =>
    have hx := Keyed.lookup_mem hl
    have hk := Keyed.lookup_key hl
    obtain ⟨ht, hb⟩ := hn.tracked.set hx t
    obtain ⟨ht', hb'⟩ := ht.modify PbEl.ptr x.ptr (f := fun x => { x with fl := x.fl ++ [msg] })
      (fun _ => rfl) fun _ => rfl
    rw [hk] at hb
    refine ⟨rfl, Keyed.allocated_modify hn.allocated fun _ => rfl, hwait _ _ fun y hy _ => hn.waiting y hy, ht',
      hb'.trans hb, fun host => ?_⟩
    have hq := hn.wf.append hx msg host
    rwa [hk] at hq
  | none =>
    let new : PbEl := { ptr := pb.fresh, dhostEther, fl := [] }
    have hptr : ∀ y ∈ pb.entries, y.ptr ≠ new.ptr := fun y hy => Nat.ne_of_lt (hn.allocated y hy)
    obtain ⟨ht, hb⟩ := hn.tracked.add (e := new) hl hptr t
    obtain ⟨ht', hb'⟩ := ht.modify PbEl.ptr new.ptr (f := fun x => { x with fl := x.fl ++ [msg] })
      (fun _ => rfl) fun _ => rfl
    have halloc : ∀ x ∈ pb.entries ++ [new], x.ptr < pb.fresh + 1 := Keyed.allocated_concat hn.allocated rfl
    have hold : ∀ x ∈ pb.entries ++ [new], x.ptr ≠ pb.fresh → x.fl ≠ [] := by
      intro x hx hne
      rcases List.mem_append.mp hx with hx | hx
      · exact hn.waiting x hx
      · exact absurd (congrArg PbEl.ptr (List.mem_singleton.mp hx)) hne
    refine ⟨rfl, Keyed.allocated_modify halloc fun _ => rfl, hwait _ _ hold, ht', hb'.trans hb, fun host => ?_⟩
    obtain ⟨hw, hq⟩ := hn.wf.newQueue hl
    have hset := hw.append (x := new) (List.mem_append_right _ (List.mem_singleton.mpr rfl)) msg host
    rwa [hq host] at hset

theorem Ok.push (hn : pb.Ok) (dhostEther : MacAddr) (msg : DessertMsg) (timestamp currTime : Timeval) :
    let pb₁ := pbCleanup pb timestamp
    let pb₂ := pbPushPacket pb dhostEther msg timestamp currTime
    let live := Function.update pb₁.live dhostEther (some (timestamp + pb.ts.purgeTimeout))
    pb₂.Ok ∧ pb₂.ts.purgeTimeout = pb.ts.purgeTimeout ∧ (∀ k t, pb₂.live k = some t → live k = some t) ∧
      ∀ host, KeptOrPurged (live host) currTime
        (if host = dhostEther then pb₁.queue host ++ [msg] else pb₁.queue host) (pb₂.queue host) := by
  intro pb₁ pb₂ live
  obtain ⟨hn₁, hto, -, -⟩ := hn.cleanup timestamp
  obtain ⟨hts, halloc, hwait, htracked, hlive, hqueue⟩ := hn₁.appended dhostEther msg (timestamp + pb₁.ts.purgeTimeout)
  obtain ⟨hord, hr⟩ := hn₁.ordered.add_removed timestamp currTime (pb₁.appended dhostEther msg).2 pb₁.ts.purgeTimeout
  have hadd : timeslotAddobject (pb₁.appended dhostEther msg).1.ts timestamp currTime
      (pb₁.appended dhostEther msg).2 =
      timeslotAddobjectVarpurge pb₁.ts timestamp currTime (pb₁.appended dhostEther msg).2 pb₁.ts.purgeTimeout := by
    rw [hts]
    rfl
  rw [← hadd] at hord hr
  obtain ⟨hok, hts', hl, hq⟩ := purged_spec hord htracked halloc hwait hr
  rw [hlive] at hl hq
  have hto' : pb₁.ts.purgeTimeout = pb.ts.purgeTimeout := hto
  rw [hto'] at hl hq
  refine ⟨hok, ?_, hl, fun host => ?_⟩
  · have hpb₂ : pb₂.ts = _ := hts'
    rw [hpb₂, hadd, add_timeout, hto']
  · have hq' := hq host
    rw [hqueue host] at hq'
    exact hq'

theorem Ok.pop (hn : pb.Ok) (dhostEther : MacAddr) :
    (pbPopPacket pb dhostEther).1.Ok ∧ (pbPopPacket pb dhostEther).1.ts.purgeTimeout = pb.ts.purgeTimeout ∧
      (∀ k t, (pbPopPacket pb dhostEther).1.live k = some t → pb.live k = some t) ∧
      (pbPopPacket pb dhostEther).2 = (pb.queue dhostEther).head? := by
  unfold pbPopPacket
  cases hl : Keyed.lookup PbEl.dhostEther dhostEther pb.entries with
  | none =>
    refine ⟨hn, rfl, fun _ _ h => h, ?_⟩
    unfold PacketBuffer.queue
    rw [hl]
    rfl
  | some x =>
    have hx := Keyed.lookup_mem hl
    have hk := Keyed.lookup_key hl
    have hhead : x.fl.head? = (pb.queue dhostEther).head? := by
      rw [← hk, queue_of_mem hn.wf hx]
    simp only
    split
    · obtain ⟨ht, hb⟩ := hn.tracked.drop hx
      rw [hk] at ht hb
      refine ⟨⟨hn.ordered.delete _, ?_, fun y hy => hn.allocated y (Keyed.mem_erase.mp hy).1,
        fun y hy => hn.waiting y (Keyed.mem_erase.mp hy).1⟩, rfl, fun k t hkt => ?_, hhead⟩
      · simp only
        rw [Timeslot.deadline_delete]
        exact ht
      · rw [live, Timeslot.deadline_delete, hb] at hkt
        by_cases hkd : k = dhostEther
        · subst hkd
          rw [Function.update_self] at hkt
          cases hkt
        · rwa [Function.update_of_ne hkd] at hkt
    · rename_i hrest
      obtain ⟨ht, hb⟩ := hn.tracked.modify PbEl.ptr x.ptr (f := fun y => { y with fl := x.fl.tail })
        (fun _ => rfl) fun _ => rfl
      refine ⟨⟨hn.ordered, ht, Keyed.allocated_modify hn.allocated fun _ => rfl, fun y hy => ?_⟩, rfl,
        fun k t hkt => ?_, hhead⟩
      · obtain ⟨z, hz, rfl⟩ := Keyed.mem_modify hy
        split
        · exact hrest
        · exact hn.waiting z hz
      · have hsame := congrFun hb k
        exact hsame.symm.trans hkt

end

end PacketBuffer

/-! ## The calls in memory -/

namespace Ptr

open Linked

section
variable {pb : PbT} {chain : Nat → List (Nat × DessertMsg)}

theorem timed_entry (hn : (listedPb chain pb).Ok) {el : TimeslotElement Nat} (hel : el ∈ pb.ts.elements) :
    ∃ x ∈ pb.entries, x.ptr = el.object := by
  have hd : (listedPb chain pb).ts.deadline el.object ≠ none :=
    (Timeslot.deadline_ne_none _ _).mpr ⟨el, hel, rfl⟩
  obtain ⟨y, hy, hyp⟩ := (hn.tracked.timed _).mp hd
  obtain ⟨x, hx, rfl⟩ := List.mem_map.mp hy
  exact ⟨x, hx, hyp⟩

theorem PbRep.cleanup (hr : PbRep pb chain) (hn : (listedPb chain pb).Ok) (timestamp : Timeval) :
    ∃ pb', pbCleanup pb timestamp = some pb' ∧ PbRep pb' chain ∧
      listedPb chain pb' = DesAodv.pbCleanup (listedPb chain pb) timestamp := by
  have hr' : PbRep { pb with ts := (DesAodv.timeslotPurgeobjects pb.ts timestamp).1 } chain :=
    ⟨hr.queues, hr.apart, hr.unused⟩
  refine hr'.purge (purge_purged_nodup hn.ordered.objects) fun el hel => ?_
  refine timed_entry hn ?_
  rw [← purge_append pb.ts timestamp]
  exact List.mem_append_left _ hel

theorem PbRep.findOrAdd (hr : PbRep pb chain) (hn : (listedPb chain pb).Ok) (dhostEther : MacAddr)
    (msg : DessertMsg) :
    PbRep (pb.findOrAdd dhostEther).1 chain ∧ (pb.findOrAdd dhostEther).1.ts = pb.ts ∧
      (∀ x ∈ pb.entries, x ∈ (pb.findOrAdd dhostEther).1.entries) ∧
      (pb.findOrAdd dhostEther).2 ∈ (pb.findOrAdd dhostEther).1.entries ∧
      (pb.findOrAdd dhostEther).2.ptr < (pb.findOrAdd dhostEther).1.fresh ∧
      (listedPb chain pb).queue dhostEther = (chain (pb.findOrAdd dhostEther).2.ptr).map Prod.snd ∧
      (listedPb chain pb).appended dhostEther msg =
        ({ listedPb chain (pb.findOrAdd dhostEther).1 with
            entries := Keyed.modify DesAodv.PbEl.ptr (pb.findOrAdd dhostEther).2.ptr
              (fun y => { y with fl := y.fl ++ [msg] }) (listedPb chain (pb.findOrAdd dhostEther).1).entries },
          (pb.findOrAdd dhostEther).2.ptr) := by
  have halloc : ∀ y ∈ pb.entries, y.ptr < pb.fresh := fun y hy => hn.allocated _ (List.mem_map_of_mem hy)
  have hlookup : Keyed.lookup DesAodv.PbEl.dhostEther dhostEther (listedPb chain pb).entries =
      (Keyed.lookup PbEl.dhostEther dhostEther pb.entries).map (listedEl chain) := lookup_listed (fun _ => rfl) _ _
  unfold PbT.findOrAdd PacketBuffer.queue PacketBuffer.appended
  rw [hlookup]
  cases hl : Keyed.lookup PbEl.dhostEther dhostEther pb.entries with
  | some x =>
    have hx := Keyed.lookup_mem hl
    exact ⟨hr, rfl, fun _ h => h, hx, halloc x hx, rfl, rfl⟩
  | none =>
    have hnil := hr.unused pb.fresh (Nat.le_refl _)
    refine ⟨⟨?_, ?_, fun ptr hp => hr.unused ptr (Nat.le_of_succ_le hp)⟩, rfl, fun _ h => List.mem_append_left _ h,
      List.mem_append_right _ (List.mem_singleton.mpr rfl), Nat.lt_succ_self _, ?_, ?_⟩
    · intro y hy
      rcases List.mem_append.mp hy with hy | hy
      · exact hr.queues y hy
      · rw [List.mem_singleton.mp hy, hnil]
        exact ⟨Queue.nil _, rfl⟩
    · intro y hy z hz hne
      rcases List.mem_append.mp hy with hy | hy
      · rcases List.mem_append.mp hz with hz | hz
        · exact hr.apart y hy z hz hne
        · rw [List.mem_singleton.mp hz, hnil]
          exact List.disjoint_nil_right _
      · rw [List.mem_singleton.mp hy, hnil]
        exact List.disjoint_nil_left _
    · simp only [hnil]
      rfl
    · simp only [Option.map_none, listedPb, List.map_append, List.map_singleton, listedEl, hnil, List.map_nil]

theorem PbRep.pushPacket (M : Malloc) (hr : PbRep pb chain) (hn : (listedPb chain pb).Ok) (dhostEther : MacAddr)
    (msg : DessertMsg) (timestamp currTime : Timeval)
    (hfit : ((DesAodv.pbCleanup (listedPb chain pb) timestamp).queue dhostEther).length + 1 < 2 ^ 32) :
    ∃ pb' chain', pbPushPacket M pb dhostEther msg timestamp currTime = some pb' ∧ PbRep pb' chain' ∧
      listedPb chain' pb' = DesAodv.pbPushPacket (listedPb chain pb) dhostEther msg timestamp currTime := by
  obtain ⟨pb₁, he₁, hr₁, hl₁⟩ := hr.cleanup hn timestamp
  have hn₁ : (listedPb chain pb₁).Ok := by
    rw [hl₁]
    exact (hn.cleanup timestamp).1
  obtain ⟨hr₂, hts, hmore, hx, halloc, hqueue, happended⟩ := hr₁.findOrAdd hn₁ dhostEther msg
  rw [← hl₁, hqueue, List.length_map] at hfit
  generalize hfound : pb₁.findOrAdd dhostEther = r at hr₂ hts hmore hx halloc hfit happended
  obtain ⟨pb₂, x⟩ := r
  simp only at hr₂ hts hmore hx halloc hfit happended
  obtain ⟨a, mem', fl', hpush, ha, hfl, hframe⟩ := (hr₂.queues x hx).push M msg hfit
  let add := DesAodv.timeslotAddobject pb₂.ts timestamp currTime x.ptr
  have hown : ∀ b ∈ addrs (chain x.ptr ++ [(a, msg)]), b ∈ addrs (chain x.ptr) ∨ pb₂.mem.read b = none := by
    intro b hb
    rw [addrs_append, List.mem_append] at hb
    rcases hb with hb | hb
    · exact .inl hb
    · rw [addrs_cons, addrs_nil, List.mem_singleton] at hb
      exact .inr (hb ▸ ha)
  have hr₃ := hr₂.set hx halloc hfl hown hframe add.1
  have hnodup : (add.2.map TimeslotElement.object).Nodup := by
    refine add_purged_nodup ?_
    rw [hts]
    exact hn₁.ordered.objects
  have hobjects : ∀ el ∈ add.2, ∃ y ∈ Keyed.modify PbEl.ptr x.ptr (fun y => { y with fl := fl' }) pb₂.entries,
      y.ptr = el.object := by
    intro el hel
    have hmem : ∃ y ∈ pb₂.entries, y.ptr = el.object := by
      rcases add_purged hel with rfl | ⟨hel, -⟩
      · exact ⟨x, hx, rfl⟩
      · rw [hts] at hel
        obtain ⟨y, hy, hye⟩ := timed_entry hn₁ hel
        exact ⟨y, hmore y hy, hye⟩
    have hptrs := @Keyed.map_modify PbEl Nat Nat _ PbEl.ptr PbEl.ptr x.ptr (fun y => { y with fl := fl' })
      (fun _ => rfl) pb₂.entries
    rw [← List.mem_map] at hmem ⊢
    rwa [hptrs]
  obtain ⟨pb', he, hr', hl'⟩ := hr₃.purge hnodup hobjects
  refine ⟨pb', _, ?_, hr', ?_⟩
  · unfold pbPushPacket
    rw [he₁, Option.bind_eq_bind, Option.bind_some, hfound]
    simp only
    rw [hpush, Option.bind_eq_bind, Option.bind_some]
    exact he
  · rw [hl']
    have hset := @listed_set chain x fl' (chain x.ptr ++ [(a, msg)]) (fun fl => fl ++ [msg])
      (List.map_append) pb₂.entries
    have hlist : DesAodv.pbPushPacket (listedPb chain pb) dhostEther msg timestamp currTime =
        (DesAodv.timeslotAddobject ((listedPb chain pb₁).appended dhostEther msg).1.ts timestamp currTime
            ((listedPb chain pb₁).appended dhostEther msg).2).2.foldl DesAodv.purgePackets
          { ((listedPb chain pb₁).appended dhostEther msg).1 with
            ts := (DesAodv.timeslotAddobject ((listedPb chain pb₁).appended dhostEther msg).1.ts timestamp currTime
              ((listedPb chain pb₁).appended dhostEther msg).2).1 } := by
      rw [hl₁]
      rfl
    rw [hlist, happended]
    simp only [listedPb] at hset ⊢
    rw [hset]

theorem PbRep.popPacket (hr : PbRep pb chain) (hn : (listedPb chain pb).Ok) (dhostEther : MacAddr) :
    ∃ pb' chain', pbPopPacket pb dhostEther = some (pb', (DesAodv.pbPopPacket (listedPb chain pb) dhostEther).2) ∧
      PbRep pb' chain' ∧ listedPb chain' pb' = (DesAodv.pbPopPacket (listedPb chain pb) dhostEther).1 := by
  have hlookup : Keyed.lookup DesAodv.PbEl.dhostEther dhostEther (listedPb chain pb).entries =
      (Keyed.lookup PbEl.dhostEther dhostEther pb.entries).map (listedEl chain) := lookup_listed (fun _ => rfl) _ _
  unfold pbPopPacket DesAodv.pbPopPacket
  rw [hlookup]
  cases hl : Keyed.lookup PbEl.dhostEther dhostEther pb.entries with
  | none => exact ⟨pb, chain, rfl, hr, rfl⟩
  | some x =>
    have hx := Keyed.lookup_mem hl
    have halloc : x.ptr < pb.fresh := hn.allocated _ (List.mem_map_of_mem hx)
    simp only [Option.map_some]
    cases hc : chain x.ptr with
    | nil =>
      have hempty : (listedEl chain x).fl = [] := by
        rw [listedEl, hc]
        rfl
      exact absurd hempty (hn.waiting _ (List.mem_map_of_mem hx))
    | cons c l =>
      have hfl := hr.queues x hx
      rw [hc] at hfl
      obtain ⟨mem', fl', hpop, hfl', hempty, hframe⟩ := hfl.pop
      have hlist : (listedEl chain x).fl = c.2 :: l.map Prod.snd := by
        rw [listedEl, hc]
        rfl
      rw [← hc] at hframe
      simp only [hpop, Option.bind_eq_bind, Option.bind_some, hempty, hlist, List.tail_cons, List.head?_cons]
      cases l with
      | nil =>
        refine ⟨_, chain, rfl, hr.erase hx hframe _, ?_⟩
        have herase := @erase_listed chain Nat _ PbEl.ptr DesAodv.PbEl.ptr (fun _ => rfl) x.ptr pb.entries
        have hsame : Keyed.erase DesAodv.PbEl.dhostEther dhostEther (listedPb chain pb).entries =
            Keyed.erase DesAodv.PbEl.ptr x.ptr (listedPb chain pb).entries := by
          refine List.filter_congr fun y hy => decide_eq_decide.mpr (not_congr ⟨fun hk => ?_, fun hp => ?_⟩)
          · have hxy := List.inj_on_of_nodup_map hn.tracked.keys hy (List.mem_map_of_mem hx)
              (hk.trans (Keyed.lookup_key hl).symm)
            rw [hxy]
            rfl
          · have hxy := List.inj_on_of_nodup_map hn.tracked.ptrs hy (List.mem_map_of_mem hx) hp
            have hk : x.dhostEther = dhostEther := Keyed.lookup_key hl
            rw [hxy]
            exact hk
        simp only [listedPb] at herase hsame ⊢
        rw [← herase, ← hsame]
        rfl
      | cons c' l =>
        have hown : ∀ b ∈ addrs (c' :: l), b ∈ addrs (chain x.ptr) ∨ pb.mem.read b = none := by
          intro b hb
          rw [hc]
          exact .inl (List.mem_cons_of_mem _ hb)
        refine ⟨_, Function.update chain x.ptr (c' :: l), rfl,
          hr.set hx halloc hfl' hown (fun b hb _ => hframe b hb) pb.ts, ?_⟩
        have hset := @listed_set chain x fl' (c' :: l) (fun _ => c'.2 :: l.map Prod.snd) rfl pb.entries
        simp only [listedPb] at hset ⊢
        rw [hset]
        rfl

end

end Ptr

/-! ## Sequences of calls -/

inductive PbOp
  | push (dhostEther : MacAddr) (msg : DessertMsg) (timestamp currTime : Timeval)
  | pop (dhostEther : MacAddr)
  | cleanup (timestamp : Timeval)
  deriving DecidableEq, Repr

/-- Every queue in the table holds packets, as many as its size says, and has one element in the timeslot;
and no other queue has one. -/
structure Ptr.PbT.Sound (pb : Ptr.PbT) : Prop where
  hosts : (pb.entries.map Ptr.PbEl.dhostEther).Nodup
  waiting : ∀ x ∈ pb.entries, pb.queue x.dhostEther ≠ []
  size : ∀ x ∈ pb.entries, x.fl.size.toNat = (pb.queue x.dhostEther).length
  timed : ∀ x ∈ pb.entries, (pb.ts.elements.map TimeslotElement.object).count x.ptr = 1
  present : ∀ el ∈ pb.ts.elements, ∃ x ∈ pb.entries, x.ptr = el.object

namespace PbOp

/-- The call on a packet buffer in memory, with the packet it returns. -/
def call (M : Malloc) (pb : Ptr.PbT) : PbOp → Option (Ptr.PbT × Option DessertMsg)
  | push dhostEther msg timestamp currTime =>
    (Ptr.pbPushPacket M pb dhostEther msg timestamp currTime).map fun pb => (pb, none)
  | pop dhostEther => Ptr.pbPopPacket pb dhostEther
  | cleanup timestamp => (Ptr.pbCleanup pb timestamp).map fun pb => (pb, none)

def run (M : Malloc) : Ptr.PbT → List PbOp → Option (Ptr.PbT × List (Option DessertMsg))
  | pb, [] => some (pb, [])
  | pb, op :: ops => do
    let (pb, answer) ← op.call M pb
    let (pb, answers) ← run M pb ops
    some (pb, answer :: answers)

/-- The same call on queues that are lists. -/
def callListed (pb : PacketBuffer) : PbOp → PacketBuffer × Option DessertMsg
  | push dhostEther msg timestamp currTime => (pbPushPacket pb dhostEther msg timestamp currTime, none)
  | pop dhostEther => pbPopPacket pb dhostEther
  | cleanup timestamp => (pbCleanup pb timestamp, none)

/-- A push puts fewer than 2^32 packets into the queue of its destination. -/
def Fits (pb : Ptr.PbT) : PbOp → Prop
  | push dhostEther _ timestamp _ =>
    ∀ pb' ∈ Ptr.pbCleanup pb timestamp, (pb'.queue dhostEther).length + 1 < 2 ^ 32
  | _ => True

instance (pb : Ptr.PbT) : (op : PbOp) → Decidable (op.Fits pb)
  | push dhostEther _ timestamp _ =>
    inferInstanceAs (Decidable (∀ pb' ∈ Ptr.pbCleanup pb timestamp, (pb'.queue dhostEther).length + 1 < 2 ^ 32))
  | pop _ => isTrue trivial
  | cleanup _ => isTrue trivial

def FitsAll (M : Malloc) : Ptr.PbT → List PbOp → Prop
  | _, [] => True
  | pb, op :: ops => op.Fits pb ∧ ∀ r ∈ op.call M pb, FitsAll M r.1 ops

instance decidableFitsAll (M : Malloc) : (pb : Ptr.PbT) → (ops : List PbOp) → Decidable (FitsAll M pb ops)
  | _, [] => isTrue trivial
  | pb, op :: ops =>
    have : DecidablePred fun r : Ptr.PbT × Option DessertMsg => FitsAll M r.1 ops :=
      fun r => decidableFitsAll M r.1 ops
    inferInstanceAs (Decidable (op.Fits pb ∧ ∀ r ∈ op.call M pb, FitsAll M r.1 ops))

/-! ## What the calls do to the queue of a host -/

def pushed (host : MacAddr) : PbOp → Option DessertMsg
  | push dhostEther msg _ _ => if dhostEther = host then some msg else none
  | _ => none

def popped (host : MacAddr) : PbOp → Option DessertMsg → Option DessertMsg
  | pop dhostEther, answer => if dhostEther = host then answer else none
  | _, _ => none

/-- The packets popped for a host, from the answers of the calls. -/
def poppedAll (host : MacAddr) : List PbOp → List (Option DessertMsg) → List DessertMsg
  | op :: ops, answer :: answers => (op.popped host answer).toList ++ poppedAll host ops answers
  | _, _ => []

/-- The time of the last push for each host. -/
def lastPush (last : MacAddr → Option Timeval) : PbOp → MacAddr → Option Timeval
  | push dhostEther _ timestamp _ => Function.update last dhostEther (some timestamp)
  | _ => last

/-- When a queue may be purged. -/
def purgeTime (last : Option Timeval) : Option Timeval := last.map fun t => t + msec blacklistTimeout

/-- What a call does to the queue of a host whose last push was at the time `last`. A push for any host
first purges the queues whose time has come, and purges again at the wall clock. -/
def Effect (last : Option Timeval) (host : MacAddr) (q : List DessertMsg) (answer : Option DessertMsg)
    (q' : List DessertMsg) : PbOp → Prop
  | push dhostEther msg timestamp currTime =>
    ∃ q₁, KeptOrPurged (purgeTime last) timestamp q q₁ ∧
      if host = dhostEther then KeptOrPurged (purgeTime (some timestamp)) currTime (q₁ ++ [msg]) q'
      else KeptOrPurged (purgeTime last) currTime q₁ q'
  | pop dhostEther => if host = dhostEther then answer = q.head? ∧ q' = q.tail else q' = q
  | cleanup timestamp => KeptOrPurged (purgeTime last) timestamp q q'

end PbOp

section
variable {d d' : Option Timeval} {T : Timeval} {q q' : List DessertMsg}

theorem KeptOrPurged.imp (h : KeptOrPurged d T q q') (hd : ∀ t, d = some t → d' = some t) :
    KeptOrPurged d' T q q' := by
  rcases h with h | ⟨h, t, ht, hle⟩
  · exact .inl h
  · exact .inr ⟨h, t, hd t ht, hle⟩

theorem KeptOrPurged.sublist (h : KeptOrPurged d T q q') : q'.Sublist q := by
  rcases h with rfl | ⟨rfl, -⟩
  · exact List.Sublist.refl _
  · exact List.nil_sublist _

/-- A call takes packets from the front only, and puts one behind the others. -/
theorem PbOp.Effect.sublist {last : Option Timeval} {host : MacAddr} {answer : Option DessertMsg} {op : PbOp}
    (h : op.Effect last host q answer q') :
    ((op.popped host answer).toList ++ q').Sublist (q ++ (op.pushed host).toList) := by
  cases op with
  | push dhostEther msg timestamp currTime =>
    obtain ⟨q₁, h₁, h₂⟩ := h
    by_cases hh : host = dhostEther
    · rw [if_pos hh] at h₂
      have hp : (push dhostEther msg timestamp currTime).pushed host = some msg := if_pos hh.symm
      rw [hp]
      exact h₂.sublist.trans (h₁.sublist.append_right _)
    · rw [if_neg hh] at h₂
      exact (h₂.sublist.trans h₁.sublist).trans (List.sublist_append_left _ _)
  | pop dhostEther =>
    have hnone : q ++ ((pop dhostEther).pushed host).toList = q := List.append_nil q
    rw [hnone]
    by_cases hh : host = dhostEther
    · have hp : (pop dhostEther).popped host answer = answer := if_pos hh.symm
      obtain ⟨ha, hq⟩ := (if_pos hh).mp h
      rw [hp, ha, hq]
      cases q <;> exact List.Sublist.refl _
    · have hp : (pop dhostEther).popped host answer = none := if_neg (Ne.symm hh)
      have hq : q' = q := (if_neg hh).mp h
      rw [hp, hq]
      exact List.Sublist.refl _
  | cleanup timestamp => exact (KeptOrPurged.sublist h).trans (List.sublist_append_left _ _)

end

/-- Queues are purged no earlier than their last push allows. -/
structure PbFollows (last : MacAddr → Option Timeval) (pb : PacketBuffer) : Prop where
  ok : pb.Ok
  timeout : pb.ts.purgeTimeout = msec blacklistTimeout
  live : ∀ k t, pb.live k = some t → PbOp.purgeTime (last k) = some t
  few : ∀ k, (pb.queue k).length < 2 ^ 32

namespace PbOp

section
variable {last : MacAddr → Option Timeval} {pb : PacketBuffer}

theorem follows_init : PbFollows (fun _ => none) pbInit :=
  ⟨PacketBuffer.ok_init, rfl, fun _ _ h => (Option.some_ne_none _ h.symm).elim, fun _ => Nat.zero_lt_succ _⟩

theorem follows_step (hf : PbFollows last pb) (op : PbOp)
    (hfit : ∀ dhostEther msg timestamp currTime, op = push dhostEther msg timestamp currTime →
      ((pbCleanup pb timestamp).queue dhostEther).length + 1 < 2 ^ 32) :
    PbFollows (op.lastPush last) (op.callListed pb).1 ∧
      ∀ host, op.Effect (last host) host (pb.queue host) (op.callListed pb).2 ((op.callListed pb).1.queue host) := by
  cases op with
  | push dhostEther msg timestamp currTime =>
    have hfit' := hfit dhostEther msg timestamp currTime rfl
    obtain ⟨-, -, hlive₁, hq₁⟩ := hf.ok.cleanup timestamp
    obtain ⟨hok, hto, hlive, hq⟩ := hf.ok.push dhostEther msg timestamp currTime
    rw [hf.timeout] at hlive hq
    have hfew : ∀ host, ((pbCleanup pb timestamp).queue host).length < 2 ^ 32 := by
      intro host
      have hle := (hq₁ host).sublist.length_le
      exact Nat.lt_of_le_of_lt hle (hf.few host)
    refine ⟨⟨hok, hto.trans hf.timeout, fun k t hk => ?_, fun host => ?_⟩, fun host => ?_⟩
    · have hk' := hlive k t hk
      by_cases hkd : k = dhostEther
      · subst hkd
        rw [Function.update_self] at hk'
        rw [lastPush, Function.update_self]
        exact hk'
      · rw [Function.update_of_ne hkd] at hk'
        rw [lastPush, Function.update_of_ne hkd]
        exact hf.live k t (hlive₁ k t hk')
    · have hle := (hq host).sublist.length_le
      by_cases hh : host = dhostEther
      · rw [if_pos hh, List.length_append, List.length_singleton, hh] at hle
        rw [hh]
        exact Nat.lt_of_le_of_lt hle hfit'
      · rw [if_neg hh] at hle
        exact Nat.lt_of_le_of_lt hle (hfew host)
    · refine ⟨(pbCleanup pb timestamp).queue host, (hq₁ host).imp fun t => hf.live host t, ?_⟩
      have hq' := hq host
      by_cases hh : host = dhostEther
      · rw [if_pos hh] at hq' ⊢
        rw [hh, Function.update_self] at hq'
        rw [hh]
        exact hq'
      · rw [if_neg hh, Function.update_of_ne hh] at hq'
        rw [if_neg hh]
        exact hq'.imp fun t ht => hf.live host t (hlive₁ host t ht)
  | pop dhostEther =>
    obtain ⟨hok, hto, hlive, hanswer⟩ := hf.ok.pop dhostEther
    have hq := (hf.ok.wf.pop dhostEther).2
    refine ⟨⟨hok, hto.trans hf.timeout, fun k t hk => hf.live k t (hlive k t hk), fun host => ?_⟩, fun host => ?_⟩
    · have hle : ((pbPopPacket pb dhostEther).1.queue host).length ≤ (pb.queue host).length := by
        rw [hq host]
        split
        · rename_i hh
          rw [hh, List.length_tail]
          exact Nat.sub_le _ _
        · exact Nat.le_refl _
      exact Nat.lt_of_le_of_lt hle (hf.few host)
    · have hq' := hq host
      by_cases hh : host = dhostEther
      · rw [if_pos hh] at hq'
        refine (if_pos hh).mpr ⟨?_, ?_⟩
        · rw [hh]
          exact hanswer
        · rw [hh] at hq' ⊢
          exact hq'
      · rw [if_neg hh] at hq'
        exact (if_neg hh).mpr hq'
  | cleanup timestamp =>
    obtain ⟨hok, hto, hlive, hq⟩ := hf.ok.cleanup timestamp
    refine ⟨⟨hok, hto.trans hf.timeout, fun k t hk => hf.live k t (hlive k t hk), fun host => ?_⟩, fun host => ?_⟩
    · exact Nat.lt_of_le_of_lt (hq host).sublist.length_le (hf.few host)
    · exact (hq host).imp fun t => hf.live host t

end

section
open Ptr
variable {last : MacAddr → Option Timeval} {pb : PbT} {chain : Nat → List (Nat × DessertMsg)}

theorem sound_of_rep (hr : PbRep pb chain) (hf : PbFollows last (listedPb chain pb)) : pb.Sound := by
  have hlisted : ∀ x ∈ pb.entries, listedEl chain x ∈ (listedPb chain pb).entries := fun x hx => List.mem_map_of_mem hx
  have hqueue : ∀ x ∈ pb.entries, pb.queue x.dhostEther = (chain x.ptr).map Prod.snd := by
    intro x hx
    rw [hr.queue]
    exact PacketBuffer.queue_of_mem hf.ok.wf (hlisted x hx)
  refine ⟨?_, fun x hx => ?_, fun x hx => ?_, fun x hx => ?_, fun el => timed_entry hf.ok⟩
  · have hkeys := hf.ok.tracked.keys
    simpa [listedPb, listedEl, Function.comp_def] using hkeys
  · rw [hqueue x hx]
    exact hf.ok.waiting _ (hlisted x hx)
  · have hlt := hf.few x.dhostEther
    rw [← hr.queue, hqueue x hx, List.length_map] at hlt
    rw [hqueue x hx, List.length_map, (hr.queues x hx).size]
    exact UInt32.toNat_ofNat_of_lt' hlt
  · refine List.count_eq_one_of_mem hf.ok.ordered.objects ?_
    have hd := (hf.ok.tracked.timed x.ptr).mpr ⟨_, hlisted x hx, rfl⟩
    obtain ⟨el, hel, ho⟩ := (Timeslot.deadline_ne_none _ _).mp hd
    exact List.mem_map.mpr ⟨el, hel, ho⟩

theorem call_listed (M : Malloc) (hr : PbRep pb chain) (hf : PbFollows last (listedPb chain pb)) {op : PbOp}
    (hfit : op.Fits pb) : ∃ pb' chain' answer, op.call M pb = some (pb', answer) ∧ PbRep pb' chain' ∧
      PbFollows (op.lastPush last) (listedPb chain' pb') ∧
      ∀ host, op.Effect (last host) host (pb.queue host) answer (pb'.queue host) := by
  have hsame : ∃ pb' chain', op.call M pb = some (pb', (op.callListed (listedPb chain pb)).2) ∧ PbRep pb' chain' ∧
      listedPb chain' pb' = (op.callListed (listedPb chain pb)).1 := by
    cases op with
    | push dhostEther msg timestamp currTime =>
      obtain ⟨pb₁, he₁, hr₁, hl₁⟩ := hr.cleanup hf.ok timestamp
      have hfit' := hfit pb₁ he₁
      rw [hr₁.queue, hl₁] at hfit'
      obtain ⟨pb', chain', he, hr', hl⟩ := hr.pushPacket M hf.ok dhostEther msg timestamp currTime hfit'
      exact ⟨pb', chain', by rw [call, he]; rfl, hr', hl⟩
    | pop dhostEther => exact hr.popPacket hf.ok dhostEther
    | cleanup timestamp =>
      obtain ⟨pb', he, hr', hl⟩ := hr.cleanup hf.ok timestamp
      exact ⟨pb', chain, by rw [call, he]; rfl, hr', hl⟩
  obtain ⟨pb', chain', he, hr', hl⟩ := hsame
  have hstep := follows_step hf op fun dhostEther msg timestamp currTime hop => by
    subst hop
    obtain ⟨pb₁, he₁, hr₁, hl₁⟩ := hr.cleanup hf.ok timestamp
    have hfit' := hfit pb₁ he₁
    rwa [hr₁.queue, hl₁] at hfit'
  rw [← hl] at hstep
  refine ⟨pb', chain', _, he, hr', hstep.1, fun host => ?_⟩
  rw [hr.queue, hr'.queue]
  exact hstep.2 host

theorem fitsAll_append (M : Malloc) {pre post : List PbOp} (h : FitsAll M pb (pre ++ post)) :
    FitsAll M pb pre ∧ ∀ pb' answers, run M pb pre = some (pb', answers) → FitsAll M pb' post := by
  induction pre generalizing pb with
  | nil =>
    refine ⟨trivial, fun pb' answers he => ?_⟩
    obtain ⟨rfl, -⟩ := Prod.mk.inj (Option.some.inj he)
    exact h
  | cons op pre ih =>
    refine ⟨⟨h.1, fun r hr => (ih (h.2 r hr)).1⟩, fun pb' answers he => ?_⟩
    obtain ⟨r, hr, he⟩ := Option.bind_eq_some_iff.mp he
    obtain ⟨r', hr', he⟩ := Option.bind_eq_some_iff.mp he
    obtain ⟨rfl, -⟩ := Prod.mk.inj (Option.some.inj he)
    exact (ih (h.2 r hr)).2 r'.1 r'.2 hr'

/-- Along a run the packet buffer follows the history, and pops what was there and what is pushed. -/
theorem run_spec (M : Malloc) (ops : List PbOp) (hr : PbRep pb chain) (hf : PbFollows last (listedPb chain pb))
    (hfit : FitsAll M pb ops) :
    ∃ pb' chain' answers, run M pb ops = some (pb', answers) ∧ PbRep pb' chain' ∧
      PbFollows (Runs.exec lastPush last ops) (listedPb chain' pb') ∧
      ∀ host, (poppedAll host ops answers).Sublist (pb.queue host ++ ops.filterMap (pushed host)) := by
  induction ops generalizing pb chain last with
  | nil => exact ⟨pb, chain, [], rfl, hr, hf, fun host => List.nil_sublist _⟩
  | cons op ops ih =>
    obtain ⟨pb₁, chain₁, answer, he₁, hr₁, hf₁, heffect⟩ := call_listed M hr hf hfit.1
    obtain ⟨pb', chain', answers, he, hr', hf', hpopped⟩ := ih hr₁ hf₁ (hfit.2 _ he₁)
    refine ⟨pb', chain', answer :: answers, ?_, hr', hf', fun host => ?_⟩
    · simp only [run, he₁, he, Option.bind_eq_bind, Option.bind_some]
    · have hrest := (hpopped host).append_left (op.popped host answer).toList
      rw [← List.append_assoc] at hrest
      have hall := hrest.trans ((heffect host).sublist.append_right _)
      rw [List.append_assoc] at hall
      have hpushed : (op.pushed host).toList ++ ops.filterMap (pushed host) = (op :: ops).filterMap (pushed host) := by
        rw [List.filterMap_cons]
        cases op.pushed host <;> rfl
      rw [hpushed] at hall
      exact hall

/-- The packets popped for a host are among those pushed for it, in their order; every call has its effect
on each queue; no call follows a pointer to freed memory. -/
theorem lossless_fifo (M : Malloc) (ops : List PbOp) (hfit : FitsAll M Ptr.pbInit ops) :
    (∃ pb answers, run M Ptr.pbInit ops = some (pb, answers) ∧ pb.Sound ∧
        ∀ host, (poppedAll host ops answers).Sublist (ops.filterMap (pushed host))) ∧
      ∀ pre op post, ops = pre ++ op :: post →
        ∃ pb answers pb' answer, run M Ptr.pbInit pre = some (pb, answers) ∧ op.call M pb = some (pb', answer) ∧
          pb.Sound ∧ ∀ host, op.Effect (Runs.exec lastPush (fun _ => none) pre host) host (pb.queue host) answer
            (pb'.queue host) := by
  have hstart : PbFollows (fun _ => none) (listedPb (fun _ => []) Ptr.pbInit) := follows_init
  refine ⟨?_, fun pre op post hops => ?_⟩
  · obtain ⟨pb, chain, answers, he, hr, hf, hpopped⟩ := run_spec M ops Ptr.pbRep_init hstart hfit
    exact ⟨pb, answers, he, sound_of_rep hr hf, hpopped⟩
  · rw [hops] at hfit
    obtain ⟨hpre, hrest⟩ := fitsAll_append M hfit
    obtain ⟨pb, chain, answers, he, hr, hf, -⟩ := run_spec M pre Ptr.pbRep_init hstart hpre
    obtain ⟨pb', -, answer, he', -, -, heffect⟩ := call_listed M hr hf (hrest pb answers he).1
    exact ⟨pb, answers, pb', answer, he, he', sound_of_rep hr hf, heffect⟩

def somePacket (payload : List UInt8) : DessertMsg :=
  { ttl := 255, u8 := 0, u16 := 0, l2Shost := 1, l2Dhost := 2, l25Shost := 1, l25Dhost := 2, exts := [], payload }

/-- Two packets for one host and one for another, and a pop for each; the second packet of the first host
is purged. -/
def twoHosts : List PbOp :=
  [.push 2 (somePacket [1]) 0 0, .push 2 (somePacket [2]) 10 10, .push 3 (somePacket [3]) 20 20, .pop 2, .pop 3,
    .push 3 (somePacket [4]) 3200010 3200010, .pop 2]

theorem lossless_fifo_twoHosts :
    FitsAll Malloc.bump Ptr.pbInit twoHosts ∧
      ∃ pb answers, run Malloc.bump Ptr.pbInit twoHosts = some (pb, answers) ∧ pb.Sound ∧
        ∀ host, (poppedAll host twoHosts answers).Sublist (twoHosts.filterMap (pushed host)) :=
  have hfit : FitsAll Malloc.bump Ptr.pbInit twoHosts := by decide
  ⟨hfit, (lossless_fifo Malloc.bump twoHosts hfit).1⟩

/-- What the calls return. -/
example : (run Malloc.bump Ptr.pbInit twoHosts).map Prod.snd =
    some [none, none, none, some (somePacket [1]), some (somePacket [3]), none, none] := by decide

end

end PbOp

end DesAodv
