import DesAodv.PdrTracker
import DesAodv.TimeslotMap
import DesAodv.Runs

/-!
# The count of received HELLOs

The PDR tracker keeps the HELLOs of a neighbor in a hash table and a timeslot, and
their number in a byte. The three agree as long as no sequence number is captured
twice and no more messages are kept than a byte can count.
-/

namespace DesAodv

open Deadlines

/-! ## The length of a timeslot -/

namespace Timeslot

section
variable {α : Type} [DecidableEq α] {ts : Timeslot α}

theorem Ordered.tracked_length (ho : ts.Ordered) {β κ : Type} [DecidableEq κ] {key : β → κ} {ptr : β → α}
    {entries : List β} (ht : Tracked key ptr entries ts.deadline) : entries.length = ts.elements.length := by
  have hp : (entries.map ptr).Perm (ts.elements.map TimeslotElement.object) := by
    refine (List.perm_ext_iff_of_nodup ht.ptrs ho.objects).mpr fun p => ?_
    rw [List.mem_map, List.mem_map, ← ht.timed p, deadline_ne_none]
  have hlen := hp.length_eq
  rwa [List.length_map, List.length_map] at hlen

theorem Ordered.add_length (ho : ts.Ordered) (timestamp currTime lifetime : Timeval) {object : α}
    (hnew : ∀ el ∈ ts.elements, el.object ≠ object) (hne : ts.elements ≠ []) :
    (timeslotAddobjectVarpurge ts timestamp currTime object lifetime).1.elements.length =
      (ts.elements.filter fun el => decide (currTime < el.purgeTime)).length +
        if currTime < timestamp + lifetime then 1 else 0 := by
  let el : TimeslotElement α := { purgeTime := lifetime + timestamp, object }
  have herase : Keyed.erase TimeslotElement.object object ts.elements = ts.elements := Keyed.erase_absent hnew
  have hsorted := (@Ordered.insert α ts ho el hnew ts.purgeTimeout).sorted
  have hadd : timeslotAddobjectVarpurge ts timestamp currTime object lifetime =
      timeslotPurgeobjects { ts with elements := insertElement el ts.elements } currTime := by
    simp only [timeslotAddobjectVarpurge, timeslotDeleteobject, herase, if_neg hne]
    rfl
  have hlater : ∀ x : TimeslotElement α, (!decide (x.purgeTime ≤ currTime)) = decide (currTime < x.purgeTime) := by
    intro x
    rw [← decide_not]
    exact decide_eq_decide.mpr Nat.not_le
  rw [hadd, purge_kept hsorted currTime, ((insertElement_perm el ts.elements).filter _).length_eq]
  simp only [hlater]
  rw [Nat.add_comm timestamp lifetime]
  rw [List.filter_cons]
  by_cases ht : currTime < lifetime + timestamp
  · simp only [el, ht, decide_true, if_true, List.length_cons]
  · simp only [el, ht, decide_false, Bool.false_eq_true, if_false, Nat.add_zero]

/-- An object outlives its own addition if its time has not come, or if there is no other to be purged with. -/
theorem Ordered.add_kept_iff (ho : ts.Ordered) (timestamp currTime lifetime : Timeval) (object : α) :
    (timeslotAddobjectVarpurge ts timestamp currTime object lifetime).1.deadline object ≠ none ↔
      currTime < timestamp + lifetime ∨ ¬ ∃ o, o ≠ object ∧ ts.deadline o ≠ none := by
  obtain ⟨-, hd, -⟩ := ho.add timestamp currTime object lifetime
  rw [hd, TsOp.apply]
  have hstored : (TsOp.addobjectVarpurge timestamp currTime object lifetime).stored ts.purgeTimeout ts.deadline object =
      some (timestamp + lifetime) := Function.update_self _ _ _
  by_cases hother : ∃ o, o ≠ object ∧ ts.deadline o ≠ none
  · have hat : (TsOp.addobjectVarpurge timestamp currTime object lifetime).purgeAt ts.deadline = some currTime :=
      if_pos hother
    rw [hat]
    simp only [ne_eq, expire_eq_none, hstored, Option.some.injEq, forall_eq', Nat.not_le]
    exact (or_iff_left fun h => h hother).symm
  · have hat : (TsOp.addobjectVarpurge timestamp currTime object lifetime).purgeAt ts.deadline = none :=
      if_neg hother
    rw [hat]
    simp only [hstored]
    exact iff_of_true (Option.some_ne_none _) (.inr hother)

end

end Timeslot

/-! ## The messages of an entry -/

namespace PdrNeighborEntry

/-- Messages and timeslot agree. -/
structure Ok (e : PdrNeighborEntry) : Prop where
  ordered : e.ts.Ordered
  tracked : Tracked PdrNeighborHelloMsg.seqNum PdrNeighborHelloMsg.ptr e.msgList e.ts.deadline
  allocated : ∀ m ∈ e.msgList, m.ptr < e.freshMsg

/-- The count is the number of distinct messages and the size of the timeslot, and a cleanup after they have
expired leaves none. -/
structure Counted (e : PdrNeighborEntry) : Prop where
  distinct : (e.msgList.map PdrNeighborHelloMsg.seqNum).Nodup
  count : e.rcvdHelloCount.toNat = e.msgList.length
  size : e.msgList.length = e.ts.elements.length
  expired : ∀ T, (∀ el ∈ e.ts.elements, el.purgeTime ≤ T) → (pdrNtCleanup e T).rcvdHelloCount = 0

theorem foldl_purge (purged : List (TimeslotElement Nat)) (e : PdrNeighborEntry) :
    purged.foldl pdrNtPurgeHelloMsg e =
      { e with
        msgList := e.msgList.filter fun m => decide (m.ptr ∉ purged.map TimeslotElement.object)
        rcvdHelloCount := e.rcvdHelloCount - UInt8.ofNat purged.length } := by
  induction purged generalizing e with
  | nil => simp
  | cons el els ih =>
    have hcount : e.rcvdHelloCount - 1 - UInt8.ofNat els.length = e.rcvdHelloCount - UInt8.ofNat (els.length + 1) := by
      rw [UInt8.ofNat_add]
      grind
    rw [List.foldl_cons, ih]
    simp only [pdrNtPurgeHelloMsg, hcount, Keyed.filter_erase, List.map_cons, List.length_cons]

section
variable {e : PdrNeighborEntry}

theorem Ok.length (ho : e.Ok) : e.msgList.length = e.ts.elements.length := ho.ordered.tracked_length ho.tracked

theorem purged_ok {ts : Timeslot Nat} {purged : List (TimeslotElement Nat)} {d : Nat → Option Timeval} {T : Timeval}
    (hord : ts.Ordered) (htracked : Tracked PdrNeighborHelloMsg.seqNum PdrNeighborHelloMsg.ptr e.msgList d)
    (halloc : ∀ m ∈ e.msgList, m.ptr < e.freshMsg) (hr : Removed d T (Timeslot.calls purged) ts.deadline) :
    (purged.foldl pdrNtPurgeHelloMsg { e with ts }).Ok := by
  obtain ⟨ht, -⟩ := Timeslot.tracked_purged htracked hr
  rw [foldl_purge]
  exact ⟨hord, ht, fun m hm => halloc m (List.mem_of_mem_filter hm)⟩

theorem Ok.cleanup (ho : e.Ok) (timestamp : Timeval) : (pdrNtCleanup e timestamp).Ok :=
  purged_ok (ho.ordered.purge timestamp) ho.tracked ho.allocated (ho.ordered.purge_removed timestamp).1

theorem toNat_eq_iff {c : UInt8} {n : Nat} : c.toNat = n ↔ c = UInt8.ofNat n ∧ n < 256 := by
  constructor
  · intro h
    subst h
    exact ⟨UInt8.ofNat_toNat.symm, c.toNat_lt⟩
  · intro ⟨hc, hn⟩
    rw [hc]
    exact UInt8.toNat_ofNat_of_lt' hn

theorem ofNat_succ (n : Nat) : UInt8.ofNat n + 1 = UInt8.ofNat (n + 1) := (UInt8.ofNat_add n 1).symm

theorem ofNat_sub_ofNat {n k m : Nat} (h : k + m = n) : UInt8.ofNat n - UInt8.ofNat k = UInt8.ofNat m := by
  rw [← h, UInt8.ofNat_add, UInt8.add_comm]
  exact UInt8.add_sub_cancel _ _

theorem purge_length (ts : Timeslot Nat) (timestamp : Timeval) :
    (timeslotPurgeobjects ts timestamp).2.length + (timeslotPurgeobjects ts timestamp).1.elements.length =
      ts.elements.length := by
  rw [← List.length_append, purge_append]

theorem cleanup_count {n : Nat} (hc : e.rcvdHelloCount = UInt8.ofNat n) (hn : n = e.ts.elements.length)
    (timestamp : Timeval) :
    (pdrNtCleanup e timestamp).rcvdHelloCount = UInt8.ofNat (pdrNtCleanup e timestamp).ts.elements.length := by
  simp only [pdrNtCleanup, foldl_purge]
  rw [hc, hn]
  exact ofNat_sub_ofNat (purge_length e.ts timestamp)

theorem Ok.counted_iff (ho : e.Ok) : e.Counted ↔ e.rcvdHelloCount.toNat = e.ts.elements.length := by
  constructor
  · intro h
    rw [h.count, h.size]
  · intro h
    refine ⟨ho.tracked.keys, h.trans ho.length.symm, ho.length, fun T hT => ?_⟩
    rw [cleanup_count (toNat_eq_iff.mp h).1 rfl T]
    have hnil : (timeslotPurgeobjects e.ts T).1.elements = [] := by
      simp only [timeslotPurgeobjects]
      exact List.dropWhile_eq_nil_iff.mpr fun el hel => decide_eq_true (hT el hel)
    have hts : (pdrNtCleanup e T).ts = (timeslotPurgeobjects e.ts T).1 := by
      simp only [pdrNtCleanup, foldl_purge]
    rw [hts, hnil]
    rfl

theorem Ok.counted_cleanup (ho : e.Ok) (hc : e.Counted) (timestamp : Timeval) : (pdrNtCleanup e timestamp).Counted := by
  obtain ⟨hcount, hlt⟩ := toNat_eq_iff.mp (ho.counted_iff.mp hc)
  rw [(ho.cleanup timestamp).counted_iff, toNat_eq_iff]
  refine ⟨cleanup_count hcount rfl timestamp, Nat.lt_of_le_of_lt ?_ hlt⟩
  have hlen := purge_length e.ts timestamp
  simp only [pdrNtCleanup, foldl_purge]
  omega

/-! ## One more message -/

/-- How many messages of the entry are left when one has been added at `timestamp` and the wall clock
is `currTime`. -/
def leftWith (e : PdrNeighborEntry) (timestamp currTime : Timeval) : Nat :=
  (e.ts.elements.filter fun el => decide (currTime < el.purgeTime)).length +
    if currTime < timestamp + e.ts.purgeTimeout then 1 else 0

theorem add_length (ts : Timeslot Nat) (timestamp currTime : Timeval) (object : Nat) :
    (timeslotAddobject ts timestamp currTime object).2.length +
        (timeslotAddobject ts timestamp currTime object).1.elements.length =
      (Keyed.erase TimeslotElement.object object ts.elements).length + 1 := by
  have hp := (add_perm ts timestamp currTime object ts.purgeTimeout).length_eq
  rwa [List.length_append, List.length_cons] at hp

theorem Ok.untimed (ho : e.Ok) {ptr : Nat} (h : ∀ m ∈ e.msgList, m.ptr ≠ ptr) :
    ∀ el ∈ e.ts.elements, el.object ≠ ptr := by
  intro el hel heq
  obtain ⟨m, hm, hmp⟩ := (ho.tracked.timed el.object).mp ((Timeslot.deadline_ne_none _ _).mpr ⟨el, hel, rfl⟩)
  exact h m hm (hmp.trans heq)

theorem countHello_unknown {helloSeq : UInt16}
    (hseq : Keyed.lookup PdrNeighborHelloMsg.seqNum helloSeq e.msgList = none) (timestamp currTime : Timeval) :
    pdrCountHello e helloSeq timestamp currTime =
      (timeslotAddobject e.ts timestamp currTime e.freshMsg).2.foldl pdrNtPurgeHelloMsg
        { e with
          msgList := e.msgList ++ [{ ptr := e.freshMsg, seqNum := helloSeq }], freshMsg := e.freshMsg + 1
          rcvdHelloCount := e.rcvdHelloCount + 1, ts := (timeslotAddobject e.ts timestamp currTime e.freshMsg).1 } := by
  simp only [pdrCountHello, pdrHelloFindOrCreate, hseq]

theorem countHello_known {helloSeq : UInt16} {m : PdrNeighborHelloMsg}
    (hseq : Keyed.lookup PdrNeighborHelloMsg.seqNum helloSeq e.msgList = some m) (timestamp currTime : Timeval) :
    pdrCountHello e helloSeq timestamp currTime =
      (timeslotAddobject e.ts timestamp currTime m.ptr).2.foldl pdrNtPurgeHelloMsg
        { e with
          rcvdHelloCount := e.rcvdHelloCount + 1, ts := (timeslotAddobject e.ts timestamp currTime m.ptr).1 } := by
  simp only [pdrCountHello, pdrHelloFindOrCreate, hseq]

theorem Ok.countHello (ho : e.Ok) (helloSeq : UInt16) (timestamp currTime : Timeval) :
    (pdrCountHello e helloSeq timestamp currTime).Ok := by
  cases hseq : Keyed.lookup PdrNeighborHelloMsg.seqNum helloSeq e.msgList with
  | none =>
    let new : PdrNeighborHelloMsg := { ptr := e.freshMsg, seqNum := helloSeq }
    let added : PdrNeighborEntry :=
      { e with
        msgList := e.msgList ++ [new], freshMsg := e.freshMsg + 1, rcvdHelloCount := e.rcvdHelloCount + 1 }
    have hfresh : ∀ m ∈ e.msgList, m.ptr ≠ new.ptr := fun m hm => Nat.ne_of_lt (ho.allocated m hm)
    obtain ⟨hord, hr⟩ := ho.ordered.add_removed timestamp currTime e.freshMsg e.ts.purgeTimeout
    obtain ⟨ht, -⟩ := ho.tracked.add (e := new) hseq hfresh (timestamp + e.ts.purgeTimeout)
    rw [countHello_unknown hseq]
    exact @purged_ok added _ _ _ _ hord ht (Keyed.allocated_concat ho.allocated rfl) hr
  | some m =>
    obtain ⟨hord, hr⟩ := ho.ordered.add_removed timestamp currTime m.ptr e.ts.purgeTimeout
    obtain ⟨ht, -⟩ := ho.tracked.set (Keyed.lookup_mem hseq) (timestamp + e.ts.purgeTimeout)
    rw [countHello_known hseq]
    exact @purged_ok { e with rcvdHelloCount := e.rcvdHelloCount + 1 } _ _ _ _ hord ht ho.allocated hr

theorem Ok.counted_unknown (ho : e.Ok) (hc : e.Counted) {helloSeq : UInt16}
    (hseq : Keyed.lookup PdrNeighborHelloMsg.seqNum helloSeq e.msgList = none) (timestamp currTime : Timeval) :
    (pdrCountHello e helloSeq timestamp currTime).Counted ↔ e.leftWith timestamp currTime ≤ 255 := by
  have huntimed := ho.untimed fun m hm => Nat.ne_of_lt (ho.allocated m hm)
  obtain ⟨hcount, hlt⟩ := toNat_eq_iff.mp (ho.counted_iff.mp hc)
  have hlen := add_length e.ts timestamp currTime e.freshMsg
  rw [Keyed.erase_absent huntimed] at hlen
  have hcount' : (pdrCountHello e helloSeq timestamp currTime).rcvdHelloCount =
      UInt8.ofNat (timeslotAddobject e.ts timestamp currTime e.freshMsg).1.elements.length := by
    rw [countHello_unknown hseq, foldl_purge]
    simp only [hcount, ofNat_succ]
    exact ofNat_sub_ofNat hlen
  have hleft : (timeslotAddobject e.ts timestamp currTime e.freshMsg).1.elements.length < 256 ↔
      e.leftWith timestamp currTime ≤ 255 := by
    by_cases hne : e.ts.elements = []
    · have h1 : (timeslotAddobject e.ts timestamp currTime e.freshMsg).1.elements.length ≤ 1 := by
        rw [hne, List.length_nil] at hlen
        omega
      have h2 : e.leftWith timestamp currTime ≤ 1 := by
        rw [leftWith, hne]
        split <;> simp
      omega
    · have hadd : (timeslotAddobject e.ts timestamp currTime e.freshMsg).1.elements.length =
          e.leftWith timestamp currTime := ho.ordered.add_length timestamp currTime e.ts.purgeTimeout huntimed hne
      rw [hadd]
      exact Nat.lt_succ_iff
  have hts : (pdrCountHello e helloSeq timestamp currTime).ts =
      (timeslotAddobject e.ts timestamp currTime e.freshMsg).1 := by
    rw [countHello_unknown hseq, foldl_purge]
  rw [(ho.countHello helloSeq timestamp currTime).counted_iff, toNat_eq_iff, hts, ← hleft]
  exact and_iff_right hcount'

/-- The capture of a known sequence number counts it once more. -/
theorem Ok.not_counted_known (ho : e.Ok) (hc : e.Counted) {helloSeq : UInt16} {m : PdrNeighborHelloMsg}
    (hseq : Keyed.lookup PdrNeighborHelloMsg.seqNum helloSeq e.msgList = some m) (timestamp currTime : Timeval) :
    ¬ (pdrCountHello e helloSeq timestamp currTime).Counted := by
  obtain ⟨hcount, hlt⟩ := toNat_eq_iff.mp (ho.counted_iff.mp hc)
  have htimed : ∃ el ∈ e.ts.elements, el.object = m.ptr :=
    (Timeslot.deadline_ne_none _ _).mp ((ho.tracked.timed m.ptr).mpr ⟨m, Keyed.lookup_mem hseq, rfl⟩)
  have hlen := add_length e.ts timestamp currTime m.ptr
  rw [Keyed.length_erase ho.ordered.objects htimed] at hlen
  -- the renewed message takes the place of its old element, but the count has gone up
  have hcount' : (pdrCountHello e helloSeq timestamp currTime).rcvdHelloCount =
      UInt8.ofNat ((timeslotAddobject e.ts timestamp currTime m.ptr).1.elements.length + 1) := by
    rw [countHello_known hseq, foldl_purge]
    simp only [hcount, ofNat_succ]
    refine ofNat_sub_ofNat ?_
    rw [← Nat.add_assoc, hlen]
  have hts : (pdrCountHello e helloSeq timestamp currTime).ts =
      (timeslotAddobject e.ts timestamp currTime m.ptr).1 := by
    rw [countHello_known hseq, foldl_purge]
  rw [(ho.countHello helloSeq timestamp currTime).counted_iff, hcount', hts, UInt8.toNat_ofNat']
  omega

theorem countHello_frame (e : PdrNeighborEntry) (helloSeq : UInt16) (timestamp currTime : Timeval) :
    (pdrCountHello e helloSeq timestamp currTime).ptr = e.ptr ∧
      (pdrCountHello e helloSeq timestamp currTime).etherNeighbor = e.etherNeighbor ∧
      (pdrCountHello e helloSeq timestamp currTime).helloInterv = e.helloInterv := by
  cases hseq : Keyed.lookup PdrNeighborHelloMsg.seqNum helloSeq e.msgList with
  | none =>
    rw [countHello_unknown hseq, foldl_purge]
    exact ⟨rfl, rfl, rfl⟩
  | some m =>
    rw [countHello_known hseq, foldl_purge]
    exact ⟨rfl, rfl, rfl⟩

end

end PdrNeighborEntry

/-! ## The table -/

namespace PdrNeighborTable

/-- Entries and timeslots agree. -/
structure Ok (nt : PdrNeighborTable) : Prop where
  ordered : nt.ts.Ordered
  tracked : Tracked PdrNeighborEntry.etherNeighbor PdrNeighborEntry.ptr nt.entries nt.ts.deadline
  allocated : ∀ e ∈ nt.entries, e.ptr < nt.fresh
  intervals : ∀ e ∈ nt.entries, e.helloInterv ≠ 0
  hellos : ∀ e ∈ nt.entries, e.Ok

def Counted (nt : PdrNeighborTable) : Prop := ∀ e ∈ nt.entries, e.Counted

/-- The lifetime with which a capture renews the entry of a neighbor. -/
def lifetime (nt : PdrNeighborTable) (trackingFactor : UInt16) (etherNeighborAddr : MacAddr) (helloInterv : UInt16) :
    Timeval :=
  match Keyed.lookup PdrNeighborEntry.etherNeighbor etherNeighborAddr nt.entries with
  | none => pdrPurgeTv trackingFactor helloInterv
  | some e => if e.helloInterv = helloInterv then e.purgeTv else pdrPurgeTv trackingFactor helloInterv

theorem ok_empty (nbExpectedHellos : UInt16) (timeout : Timeval) (fresh : Nat) :
    Ok { entries := [], nbExpectedHellos, ts := timeslotCreate timeout, fresh } := by
  refine ⟨Timeslot.ordered_create _, tracked_nil, ?_, ?_, ?_⟩
  all_goals exact fun _ h => (List.not_mem_nil h).elim

theorem foldl_purge (purged : List (TimeslotElement Nat)) (nt : PdrNeighborTable) :
    purged.foldl pdrNtPurgeNb nt =
      { nt with entries := nt.entries.filter fun e => decide (e.ptr ∉ purged.map TimeslotElement.object) } := by
  induction purged generalizing nt with
  | nil => simp
  | cons el els ih =>
    rw [List.foldl_cons, ih]
    simp only [pdrNtPurgeNb, Keyed.filter_erase, List.map_cons]

section
variable {nt nt₁ : PdrNeighborTable}

theorem purged_ok {ts : Timeslot Nat} {purged : List (TimeslotElement Nat)} {d : Nat → Option Timeval} {T : Timeval}
    (hord : ts.Ordered)
    (htracked : Tracked PdrNeighborEntry.etherNeighbor PdrNeighborEntry.ptr nt.entries d)
    (halloc : ∀ e ∈ nt.entries, e.ptr < nt.fresh) (hinterv : ∀ e ∈ nt.entries, e.helloInterv ≠ 0)
    (hhellos : ∀ e ∈ nt.entries, e.Ok) (hr : Removed d T (Timeslot.calls purged) ts.deadline) :
    (purged.foldl pdrNtPurgeNb { nt with ts }).Ok := by
  obtain ⟨ht, -⟩ := Timeslot.tracked_purged htracked hr
  rw [foldl_purge]
  refine ⟨hord, ht, ?_, ?_, ?_⟩
  · exact fun e he => halloc e (List.mem_of_mem_filter he)
  · exact fun e he => hinterv e (List.mem_of_mem_filter he)
  · exact fun e he => hhellos e (List.mem_of_mem_filter he)

theorem Ok.cleanup (hn : nt.Ok) (timestamp : Timeval) :
    (aodvDbPdrNtCleanup nt timestamp).Ok ∧ (nt.Counted → (aodvDbPdrNtCleanup nt timestamp).Counted) := by
  refine ⟨purged_ok (hn.ordered.purge timestamp) hn.tracked hn.allocated hn.intervals hn.hellos
    (hn.ordered.purge_removed timestamp).1, fun hc e he => ?_⟩
  simp only [aodvDbPdrNtCleanup, foldl_purge] at he
  exact hc e (List.mem_of_mem_filter he)

theorem Ok.modify (hn : nt.Ok) (ptr : Nat) {f : PdrNeighborEntry → PdrNeighborEntry}
    (hframe : ∀ e, (f e).ptr = e.ptr ∧ (f e).etherNeighbor = e.etherNeighbor ∧ (f e).helloInterv = e.helloInterv)
    (hok : ∀ e, e.Ok → (f e).Ok) :
    Ok { nt with entries := Keyed.modify PdrNeighborEntry.ptr ptr f nt.entries } := by
  have hmem : ∀ {P : PdrNeighborEntry → Prop}, (∀ e ∈ nt.entries, P e) → (∀ e, P e → P (f e)) →
      ∀ e ∈ Keyed.modify PdrNeighborEntry.ptr ptr f nt.entries, P e := by
    intro P hP hf e he
    obtain ⟨e', he', rfl⟩ := Keyed.mem_modify he
    split
    · exact hf e' (hP e' he')
    · exact hP e' he'
  refine ⟨hn.ordered,
    (hn.tracked.modify PdrNeighborEntry.ptr ptr (fun e => (hframe e).2.1) fun e => (hframe e).1).1, ?_, ?_,
    hmem hn.hellos hok⟩
  · exact hmem hn.allocated fun e he => by rwa [(hframe e).1]
  · exact hmem hn.intervals fun e he => by rwa [(hframe e).2.2]

theorem cleanup_frame (e : PdrNeighborEntry) (timestamp : Timeval) :
    (pdrNtCleanup e timestamp).ptr = e.ptr ∧ (pdrNtCleanup e timestamp).etherNeighbor = e.etherNeighbor ∧
      (pdrNtCleanup e timestamp).helloInterv = e.helloInterv := by
  unfold pdrNtCleanup
  simp only
  rw [PdrNeighborEntry.foldl_purge]
  exact ⟨rfl, rfl, rfl⟩

theorem Ok.findCleaned (hn : nt.Ok) {etherNeighborAddr : MacAddr} {timestamp : Timeval} {e : PdrNeighborEntry}
    (h : pdrNtFindCleaned nt etherNeighborAddr timestamp = some (nt₁, e)) :
    nt₁.Ok ∧ (nt.Counted → nt₁.Counted) := by
  obtain ⟨x, hx, he⟩ := Option.map_eq_some_iff.mp h
  obtain ⟨rfl, -⟩ := Prod.mk.inj he
  refine ⟨hn.modify x.ptr (cleanup_frame · timestamp) fun e ho => ho.cleanup timestamp, fun hc e he => ?_⟩
  obtain ⟨y, hy, rfl⟩ := Keyed.mem_modify he
  split
  · exact (hn.hellos y hy).counted_cleanup (hc y hy) timestamp
  · exact hc y hy

/-! ## Captures -/

/-- In `nt₁` the neighbor has the entry `e₁`, with the messages it had in `nt`. -/
structure Found (nt nt₁ : PdrNeighborTable) (etherNeighborAddr : MacAddr) (e₁ : PdrNeighborEntry) : Prop where
  mem : e₁ ∈ nt₁.entries
  ts : nt₁.ts = nt.ts
  tracked : ∀ t, Tracked PdrNeighborEntry.etherNeighbor PdrNeighborEntry.ptr nt₁.entries
    (Function.update nt.ts.deadline e₁.ptr (some t))
  allocated : ∀ e ∈ nt₁.entries, e.ptr < nt₁.fresh
  intervals : ∀ e ∈ nt₁.entries, e.helloInterv ≠ 0
  hellos : ∀ e ∈ nt₁.entries, e.Ok
  counted : nt.Counted → nt₁.Counted
  others : (∃ o, o ≠ e₁.ptr ∧ nt.ts.deadline o ≠ none) ↔ ∃ e ∈ nt.entries, e.etherNeighbor ≠ etherNeighborAddr
  same : (∃ e ∈ nt.entries, e.etherNeighbor = etherNeighborAddr ∧ e₁.msgList = e.msgList ∧ e₁.ts = e.ts) ∨
    (∀ e ∈ nt.entries, e.etherNeighbor ≠ etherNeighborAddr) ∧ e₁.msgList = [] ∧ e₁.ts.elements = []

theorem expectedHellos_ok (trackingFactor : UInt16) {helloInterv : UInt16} (h : helloInterv ≠ 0) :
    ∃ n, pdrExpectedHellos trackingFactor helloInterv = .ok n := by
  unfold pdrExpectedHellos
  split
  · exact ⟨_, rfl⟩
  · exact ⟨_, rfl⟩

theorem expectedHellos_zero (trackingFactor : UInt16) :
    pdrExpectedHellos trackingFactor 0 = .error .divisionByZero := by
  unfold pdrExpectedHellos
  rw [UInt16.toNat_zero, Nat.zero_mul]
  rfl

theorem new_ok (ptr : Nat) (etherNeighborAddr : MacAddr) (helloInterv expectedHellos : UInt16)
    (timeout purgeTv : Timeval) :
    let e : PdrNeighborEntry :=
      { ptr, etherNeighbor := etherNeighborAddr, helloInterv, expectedHellos, rcvdHelloCount := 0,
        nbRcvdHelloCount := 0, ts := timeslotCreate timeout, msgList := [], purgeTv, freshMsg := 0 }
    e.Ok ∧ e.Counted := by
  intro e
  have ho : e.Ok := ⟨Timeslot.ordered_create _, tracked_nil, fun _ h => (List.not_mem_nil h).elim⟩
  exact ⟨ho, ho.counted_iff.mpr rfl⟩

theorem Ok.others_mem (hn : nt.Ok) {e : PdrNeighborEntry} (he : e ∈ nt.entries) :
    (∃ o, o ≠ e.ptr ∧ nt.ts.deadline o ≠ none) ↔ ∃ e' ∈ nt.entries, e'.etherNeighbor ≠ e.etherNeighbor := by
  constructor
  · intro ⟨o, hne, ho⟩
    obtain ⟨e', he', rfl⟩ := (hn.tracked.timed o).mp ho
    refine ⟨e', he', fun hk => hne ?_⟩
    rw [List.inj_on_of_nodup_map hn.tracked.keys he' he hk]
  · intro ⟨e', he', hne⟩
    refine ⟨e'.ptr, fun hp => hne ?_, (hn.tracked.timed _).mpr ⟨e', he', rfl⟩⟩
    rw [List.inj_on_of_nodup_map hn.tracked.ptrs he' he hp]

theorem Ok.found (hn : nt.Ok) (trackingFactor : UInt16) (etherNeighborAddr : MacAddr) {helloInterv : UInt16}
    (hinterv : helloInterv ≠ 0) :
    ∃ nt₁ e₁, pdrNtFindOrCreate nt trackingFactor etherNeighborAddr helloInterv = .ok (nt₁, e₁) ∧
      Found nt nt₁ etherNeighborAddr e₁ ∧ e₁.purgeTv = nt.lifetime trackingFactor etherNeighborAddr helloInterv := by
  obtain ⟨n, hexpected⟩ := expectedHellos_ok trackingFactor hinterv
  unfold pdrNtFindOrCreate PdrNeighborTable.lifetime
  cases hl : Keyed.lookup PdrNeighborEntry.etherNeighbor etherNeighborAddr nt.entries with
  | none =>
    have hno := Keyed.lookup_eq_none.mp hl
    obtain ⟨ho, hc⟩ := new_ok nt.fresh etherNeighborAddr helloInterv n (pdrWatchInterval trackingFactor helloInterv)
      (pdrPurgeTv trackingFactor helloInterv)
    simp only [pdrNeighborEntryCreate, hexpected, bind, Except.bind]
    refine ⟨_, _, rfl, ⟨List.mem_append_right _ (List.mem_singleton.mpr rfl), rfl, fun t => ?_, ?_, ?_, ?_, ?_, ?_,
      .inr ⟨hno, rfl, rfl⟩⟩, rfl⟩
    · exact (hn.tracked.add hl (fun e he => Nat.ne_of_lt (hn.allocated e he)) t).1
    · exact Keyed.allocated_concat hn.allocated rfl
    · intro e he
      rcases List.mem_append.mp he with he | he
      · exact hn.intervals e he
      · rw [List.mem_singleton.mp he]
        exact hinterv
    · intro e he
      rcases List.mem_append.mp he with he | he
      · exact hn.hellos e he
      · rw [List.mem_singleton.mp he]
        exact ho
    · intro hcounted e he
      rcases List.mem_append.mp he with he | he
      · exact hcounted e he
      · rw [List.mem_singleton.mp he]
        exact hc
    · constructor
      · intro ⟨o, _, ho⟩
        obtain ⟨e, he, -⟩ := (hn.tracked.timed o).mp ho
        exact ⟨e, he, hno e he⟩
      · intro ⟨e, he, _⟩
        exact ⟨e.ptr, Nat.ne_of_lt (hn.allocated e he), (hn.tracked.timed _).mpr ⟨e, he, rfl⟩⟩
  | some e =>
    have he := Keyed.lookup_mem hl
    have hk : e.etherNeighbor = etherNeighborAddr := Keyed.lookup_key hl
    have hothers := hn.others_mem he
    rw [hk] at hothers
    by_cases hsame : e.helloInterv = helloInterv
    · simp only [hsame, ne_eq, not_true_eq_false, if_false, if_true]
      exact ⟨nt, e, rfl, ⟨he, rfl, fun t => (hn.tracked.set he t).1, hn.allocated, hn.intervals, hn.hellos, id,
        hothers, .inl ⟨e, he, hk, rfl, rfl⟩⟩, rfl⟩
    · let update : PdrNeighborEntry → PdrNeighborEntry := fun a =>
        { a with
          helloInterv, expectedHellos := n, purgeTv := pdrPurgeTv trackingFactor helloInterv }
      have hmem : ∀ {P : PdrNeighborEntry → Prop}, (∀ a ∈ nt.entries, P a) → (∀ a, P a → P (update a)) →
          ∀ a ∈ Keyed.modify PdrNeighborEntry.ptr e.ptr update nt.entries, P a := by
        intro P hP hf a ha
        obtain ⟨b, hb, rfl⟩ := Keyed.mem_modify ha
        split
        · exact hf b (hP b hb)
        · exact hP b hb
      simp only [hsame, ne_eq, not_false_eq_true, if_true, if_false, pdrNeighborEntryUpdate, hexpected, bind,
        Except.bind]
      have hentries : Keyed.modify PdrNeighborEntry.ptr e.ptr
          (fun _ => ({ e with
            helloInterv, expectedHellos := n, purgeTv := pdrPurgeTv trackingFactor helloInterv } : PdrNeighborEntry))
          nt.entries = Keyed.modify PdrNeighborEntry.ptr e.ptr update nt.entries := by
        refine Keyed.modify_congr fun a ha hp => ?_
        rw [List.inj_on_of_nodup_map hn.tracked.ptrs ha he hp]
      rw [hentries]
      have hok : ∀ a, a.Ok → (update a).Ok := fun a ho => ⟨ho.ordered, ho.tracked, ho.allocated⟩
      refine ⟨_, _, rfl, ⟨?_, rfl, fun t => ?_, ?_, ?_, hmem hn.hellos hok, ?_, hothers,
        .inl ⟨e, he, hk, rfl, rfl⟩⟩, rfl⟩
      · exact List.mem_map.mpr ⟨e, he, if_pos rfl⟩
      · exact ((hn.tracked.set he t).1.modify PdrNeighborEntry.ptr e.ptr (f := update) (fun _ => rfl) fun _ => rfl).1
      · exact hmem hn.allocated fun a ha => ha
      · exact hmem hn.intervals fun a _ => hinterv
      · intro hc
        have hboth := hmem (P := fun a => a.Ok ∧ a.Counted) (fun a ha => ⟨hn.hellos a ha, hc a ha⟩) fun a h =>
          ⟨hok a h.1, (hok a h.1).counted_iff.mpr (h.1.counted_iff.mp h.2)⟩
        exact fun a ha => (hboth a ha).2

theorem Ok.notFound (hn : nt.Ok) (trackingFactor : UInt16) (etherNeighborAddr : MacAddr) :
    pdrNtFindOrCreate nt trackingFactor etherNeighborAddr 0 = .error .divisionByZero := by
  unfold pdrNtFindOrCreate
  cases hl : Keyed.lookup PdrNeighborEntry.etherNeighbor etherNeighborAddr nt.entries with
  | none =>
    simp only [pdrNeighborEntryCreate, expectedHellos_zero]
    rfl
  | some e =>
    simp only [hn.intervals e (Keyed.lookup_mem hl), ne_eq, not_false_eq_true, if_true, pdrNeighborEntryUpdate,
      expectedHellos_zero]
    rfl

/-- The entry of a neighbor outlives its own renewal. -/
def Renews (nt : PdrNeighborTable) (trackingFactor : UInt16) (etherNeighborAddr : MacAddr) (helloInterv : UInt16)
    (timestamp currTime : Timeval) : Prop :=
  currTime < timestamp + nt.lifetime trackingFactor etherNeighborAddr helloInterv ∨
    ∀ e ∈ nt.entries, e.etherNeighbor = etherNeighborAddr

/-- The rest of a capture: the renewal, and the write to the entry if it is still there. -/
theorem Found.write {etherNeighborAddr : MacAddr} {e₁ : PdrNeighborEntry} (hf : Found nt nt₁ etherNeighborAddr e₁)
    (hn : nt.Ok) {trackingFactor helloInterv : UInt16}
    (hlife : e₁.purgeTv = nt.lifetime trackingFactor etherNeighborAddr helloInterv) (timestamp currTime : Timeval)
    {f : PdrNeighborEntry → PdrNeighborEntry}
    (hframe : ∀ e, (f e).ptr = e.ptr ∧ (f e).etherNeighbor = e.etherNeighbor ∧ (f e).helloInterv = e.helloInterv)
    (hok : ∀ e, e.Ok → (f e).Ok) :
    ¬ nt.Renews trackingFactor etherNeighborAddr helloInterv timestamp currTime ∧
        pdrNtWrite (pdrNtRenew nt₁ e₁ timestamp currTime) e₁.ptr f = .error .useAfterFree ∨
      nt.Renews trackingFactor etherNeighborAddr helloInterv timestamp currTime ∧
        ∃ nt₂, pdrNtWrite (pdrNtRenew nt₁ e₁ timestamp currTime) e₁.ptr f = .ok nt₂ ∧ nt₂.Ok ∧
          (nt.Counted → (nt₂.Counted ↔ (f e₁).Counted)) := by
  obtain ⟨hord, hr⟩ := hn.ordered.add_removed timestamp currTime e₁.ptr e₁.purgeTv
  have hkept := hn.ordered.add_kept_iff timestamp currTime e₁.purgeTv e₁.ptr
  rw [hf.others, hlife] at hkept
  rw [← hf.ts] at hord hr
  have hrenewed : (pdrNtRenew nt₁ e₁ timestamp currTime).Ok :=
    purged_ok hord (hf.ts ▸ hf.tracked (timestamp + e₁.purgeTv)) hf.allocated hf.intervals hf.hellos hr
  -- the entry is still there exactly if the timeslot still holds it
  have hentries : ∀ e, e ∈ (pdrNtRenew nt₁ e₁ timestamp currTime).entries → e ∈ nt₁.entries := by
    intro e he
    simp only [pdrNtRenew, foldl_purge] at he
    exact List.mem_of_mem_filter he
  have hts : (pdrNtRenew nt₁ e₁ timestamp currTime).ts =
      (timeslotAddobjectVarpurge nt.ts timestamp currTime e₁.ptr e₁.purgeTv).1 := by
    simp only [pdrNtRenew, foldl_purge, hf.ts]
  have hthere : nt.Renews trackingFactor etherNeighborAddr helloInterv timestamp currTime ↔
      ∃ e ∈ (pdrNtRenew nt₁ e₁ timestamp currTime).entries, e.ptr = e₁.ptr := by
    rw [← hrenewed.tracked.timed, hts, hlife, hkept]
    simp only [Renews, not_exists, not_and, ne_eq, not_not]
  have hptrs := (hf.tracked 0).ptrs
  by_cases hrenews : nt.Renews trackingFactor etherNeighborAddr helloInterv timestamp currTime
  · refine .inr ⟨hrenews, ?_⟩
    obtain ⟨e, he, hp⟩ := hthere.mp hrenews
    obtain rfl := List.inj_on_of_nodup_map hptrs (hentries e he) hf.mem hp
    have hlookup := Keyed.lookup_of_mem hrenewed.tracked.ptrs he
    refine ⟨_, by rw [pdrNtWrite, hlookup], hrenewed.modify e.ptr hframe hok, fun hc => ⟨fun h => ?_, fun h z hz => ?_⟩⟩
    · exact h _ (List.mem_map.mpr ⟨e, he, if_pos rfl⟩)
    · obtain ⟨y, hy, rfl⟩ := Keyed.mem_modify hz
      split
      · rename_i hye
        rw [List.inj_on_of_nodup_map hptrs (hentries y hy) hf.mem hye]
        exact h
      · exact hf.counted hc y (hentries y hy)
  · refine .inl ⟨hrenews, ?_⟩
    have hgone : Keyed.lookup PdrNeighborEntry.ptr e₁.ptr (pdrNtRenew nt₁ e₁ timestamp currTime).entries = none := by
      refine Keyed.lookup_eq_none.mpr fun e he hp => hrenews (hthere.mpr ⟨e, he, hp⟩)
    rw [pdrNtWrite, hgone]

/-- The neighbor has no message under the sequence number. -/
def Unknown (nt : PdrNeighborTable) (etherNeighborAddr : MacAddr) (helloSeq : UInt16) : Prop :=
  ∀ e ∈ nt.entries, e.etherNeighbor = etherNeighborAddr → ∀ m ∈ e.msgList, m.seqNum ≠ helloSeq

/-- With one more message that is added at `timestamp`, the neighbor has no more than a byte can count. -/
def Countable (nt : PdrNeighborTable) (etherNeighborAddr : MacAddr) (timestamp currTime : Timeval) : Prop :=
  ∀ e ∈ nt.entries, e.etherNeighbor = etherNeighborAddr → e.leftWith timestamp currTime ≤ 255

theorem Found.counted_iff {etherNeighborAddr : MacAddr} {e₁ : PdrNeighborEntry} (hf : Found nt nt₁ etherNeighborAddr e₁)
    (hn : nt.Ok) (hc : nt.Counted) (helloSeq : UInt16) (timestamp currTime : Timeval) :
    (pdrCountHello e₁ helloSeq timestamp currTime).Counted ↔
      nt.Unknown etherNeighborAddr helloSeq ∧ nt.Countable etherNeighborAddr timestamp currTime := by
  have ho := hf.hellos e₁ hf.mem
  have hc₁ := hf.counted hc e₁ hf.mem
  have hunknown : nt.Unknown etherNeighborAddr helloSeq ↔
      Keyed.lookup PdrNeighborHelloMsg.seqNum helloSeq e₁.msgList = none := by
    rw [Keyed.lookup_eq_none]
    rcases hf.same with ⟨e, he, hk, hmsgs, -⟩ | ⟨hno, hmsgs, -⟩
    · rw [hmsgs]
      refine ⟨fun h => h e he hk, fun h e' he' hk' => ?_⟩
      rw [List.inj_on_of_nodup_map hn.tracked.keys he' he (hk'.trans hk.symm)]
      exact h
    · rw [hmsgs]
      exact iff_of_true (fun e he hk => absurd hk (hno e he)) fun _ h => (List.not_mem_nil h).elim
  have hcountable : nt.Countable etherNeighborAddr timestamp currTime ↔ e₁.leftWith timestamp currTime ≤ 255 := by
    rcases hf.same with ⟨e, he, hk, -, hts⟩ | ⟨hno, -, hts⟩
    · have hleft : e₁.leftWith timestamp currTime = e.leftWith timestamp currTime := by
        rw [PdrNeighborEntry.leftWith, PdrNeighborEntry.leftWith, hts]
      rw [hleft]
      refine ⟨fun h => h e he hk, fun h e' he' hk' => ?_⟩
      rw [List.inj_on_of_nodup_map hn.tracked.keys he' he (hk'.trans hk.symm)]
      exact h
    · refine iff_of_true (fun e he hk => absurd hk (hno e he)) ?_
      rw [PdrNeighborEntry.leftWith, hts]
      split <;> simp
  rw [hunknown, hcountable]
  cases hseq : Keyed.lookup PdrNeighborHelloMsg.seqNum helloSeq e₁.msgList with
  | none => exact (ho.counted_unknown hc₁ hseq timestamp currTime).trans (and_iff_right rfl).symm
  | some m => exact iff_of_false (ho.not_counted_known hc₁ hseq timestamp currTime) fun h => nomatch h.1

end

end PdrNeighborTable

/-! ## Sequences of calls -/

/-- The tracking factor and the HELLO interval of the daemon itself are the settings at the time of the call. -/
inductive PdrOp
  | capHello (trackingFactor : UInt16) (etherNeighborAddr : MacAddr) (helloSeq helloInterv : UInt16)
      (timestamp currTime currTime' : Timeval)
  | capHellorsp (trackingFactor : UInt16) (etherNeighborAddr : MacAddr) (helloInterv : UInt16) (helloCount : UInt8)
      (timestamp currTime : Timeval)
  | getPdr (etherNeighborAddr : MacAddr) (timestamp : Timeval)
  | getEtxMul (etherNeighborAddr : MacAddr) (timestamp : Timeval)
  | getEtxAdd (etherNeighborAddr : MacAddr) (timestamp : Timeval)
  | getRcvdhellocount (etherNeighborAddr : MacAddr) (timestamp : Timeval)
  | cleanup (timestamp : Timeval)
  | updExpected (trackingFactor newInterval : UInt16)
  | neighborReset (trackingFactor helloInterval : UInt16)
  deriving DecidableEq, Repr

namespace PdrOp

def call (nt : PdrNeighborTable) : PdrOp → Except PdrFault PdrNeighborTable
  | capHello trackingFactor addr helloSeq helloInterv timestamp currTime currTime' =>
    aodvDbPdrNtCapHello nt trackingFactor addr helloSeq helloInterv timestamp currTime currTime'
  | capHellorsp trackingFactor addr helloInterv helloCount timestamp currTime =>
    aodvDbPdrNtCapHellorsp nt trackingFactor addr helloInterv helloCount timestamp currTime
  | getPdr addr timestamp => .ok (aodvDbPdrNtGetPdr nt addr timestamp).1
  | getEtxMul addr timestamp => (aodvDbPdrNtGetEtxMul nt addr timestamp).map Prod.fst
  | getEtxAdd addr timestamp => (aodvDbPdrNtGetEtxAdd nt addr timestamp).map Prod.fst
  | getRcvdhellocount addr timestamp => .ok (aodvDbPdrNtGetRcvdhellocount nt addr timestamp).1
  | cleanup timestamp => .ok (aodvDbPdrNtCleanup nt timestamp)
  | updExpected trackingFactor newInterval => aodvDbPdrNtUpdExpected nt trackingFactor newInterval
  | neighborReset trackingFactor helloInterval => aodvDbPdrNtNeighborReset nt trackingFactor helloInterval

def step (s : Except PdrFault PdrNeighborTable) (op : PdrOp) : Except PdrFault PdrNeighborTable := s.bind op.call

/-- The neighbor that a query is about, and its time. -/
def query : PdrOp → Option (MacAddr × Timeval)
  | getPdr addr timestamp => some (addr, timestamp)
  | getEtxMul addr timestamp => some (addr, timestamp)
  | getEtxAdd addr timestamp => some (addr, timestamp)
  | getRcvdhellocount addr timestamp => some (addr, timestamp)
  | _ => none

theorem call_query {op : PdrOp} {addr : MacAddr} {timestamp : Timeval} (hq : op.query = some (addr, timestamp))
    (nt : PdrNeighborTable) :
    op.call nt = .error .divisionByZero ∨
      op.call nt = .ok (((pdrNtFindCleaned nt addr timestamp).map Prod.fst).getD nt) := by
  cases op with
  | getPdr =>
    cases hq
    rw [call, aodvDbPdrNtGetPdr]
    cases pdrNtFindCleaned nt addr timestamp with
    | none => exact .inr rfl
    | some r =>
      simp only
      split <;> exact .inr rfl
  | getEtxMul =>
    cases hq
    rw [call, aodvDbPdrNtGetEtxMul]
    cases pdrNtFindCleaned nt addr timestamp with
    | none => exact .inr rfl
    | some r =>
      simp only
      split
      · exact .inl rfl
      · exact .inr rfl
  | getEtxAdd =>
    cases hq
    rw [call, aodvDbPdrNtGetEtxAdd]
    cases pdrNtFindCleaned nt addr timestamp with
    | none => exact .inr rfl
    | some r =>
      simp only
      split
      · exact .inl rfl
      · exact .inr rfl
  | getRcvdhellocount =>
    cases hq
    rw [call, aodvDbPdrNtGetRcvdhellocount]
    cases pdrNtFindCleaned nt addr timestamp with
    | none => exact .inr rfl
    | some r => exact .inr rfl
  | _ => cases hq

/-- The counts are right. A division by zero ends the daemon and leaves no state; nothing holds of what
follows a write to freed memory. -/
def Exact : Except PdrFault PdrNeighborTable → Prop
  | .ok nt => nt.Counted
  | .error .divisionByZero => True
  | .error .useAfterFree => False

/-- A captured HELLO has a sequence number that its sender has no message for, and leaves no more messages
than a byte can count; and the entry that a capture writes to outlives its own renewal. -/
def Counts : Except PdrFault PdrNeighborTable → PdrOp → Prop
  | .ok nt, capHello trackingFactor addr helloSeq helloInterv timestamp currTime currTime' =>
    helloInterv ≠ 0 → nt.Renews trackingFactor addr helloInterv timestamp currTime ∧ nt.Unknown addr helloSeq ∧
      nt.Countable addr timestamp currTime'
  | .ok nt, capHellorsp trackingFactor addr helloInterv _ timestamp currTime =>
    helloInterv ≠ 0 → nt.Renews trackingFactor addr helloInterv timestamp currTime
  | _, _ => True

section
open PdrNeighborTable

/-- Entries and timeslots agree, unless there has been a fault. -/
def Orderly (s : Except PdrFault PdrNeighborTable) : Prop := ∀ nt, s = .ok nt → nt.Ok

theorem init_orderly (trackingFactor helloInterval : UInt16) :
    Orderly (aodvDbPdrNtInit trackingFactor helloInterval) ∧ Exact (aodvDbPdrNtInit trackingFactor helloInterval) := by
  unfold aodvDbPdrNtInit
  by_cases h0 : helloInterval = 0
  · rw [h0, expectedHellos_zero]
    exact ⟨fun _ h => (nomatch h), trivial⟩
  · obtain ⟨n, hn⟩ := expectedHellos_ok trackingFactor h0
    rw [hn]
    refine ⟨fun nt h => ?_, fun _ h => (List.not_mem_nil h).elim⟩
    obtain rfl := Except.ok.inj h
    exact ok_empty n _ 0

/-- What a call leaves is orderly, and the counts are right exactly if the condition holds. -/
def Kept (nt : PdrNeighborTable) (op : PdrOp) : Prop :=
  Orderly (op.call nt) ∧ (nt.Counted → (Exact (op.call nt) ↔ Counts (.ok nt) op))

theorem kept_of_ok {nt nt' : PdrNeighborTable} {op : PdrOp} (hcall : op.call nt = .ok nt') (hok : nt'.Ok)
    (hcounted : nt.Counted → nt'.Counted) (hcounts : Counts (.ok nt) op) : Kept nt op := by
  refine ⟨fun nt₂ h => ?_, fun hc => ?_⟩
  · rw [hcall] at h
    exact Except.ok.inj h ▸ hok
  · rw [hcall]
    exact iff_of_true (hcounted hc) hcounts

theorem kept_of_stopped {nt : PdrNeighborTable} {op : PdrOp} (hcall : op.call nt = .error .divisionByZero)
    (hcounts : Counts (.ok nt) op) : Kept nt op := by
  refine ⟨fun nt₂ h => ?_, fun _ => ?_⟩
  · rw [hcall] at h
    cases h
  · rw [hcall]
    exact iff_of_true trivial hcounts

theorem kept_capHello {nt : PdrNeighborTable} (hn : nt.Ok) (trackingFactor : UInt16) (addr : MacAddr)
    (helloSeq helloInterv : UInt16) (timestamp currTime currTime' : Timeval) :
    Kept nt (capHello trackingFactor addr helloSeq helloInterv timestamp currTime currTime') := by
  by_cases h0 : helloInterv = 0
  · subst h0
    refine kept_of_stopped ?_ fun h => absurd rfl h
    rw [call, aodvDbPdrNtCapHello, hn.notFound]
    rfl
  · obtain ⟨nt₁, e₁, he, hf, hlife⟩ := hn.found trackingFactor addr h0
    have hcall : (capHello trackingFactor addr helloSeq helloInterv timestamp currTime currTime').call nt =
        pdrNtWrite (pdrNtRenew nt₁ e₁ timestamp currTime) e₁.ptr
          fun e => pdrCountHello e helloSeq timestamp currTime' := by
      rw [call, aodvDbPdrNtCapHello, he]
      rfl
    rw [Kept, hcall]
    have hcounts : Counts (.ok nt) (capHello trackingFactor addr helloSeq helloInterv timestamp currTime currTime') ↔
        nt.Renews trackingFactor addr helloInterv timestamp currTime ∧ nt.Unknown addr helloSeq ∧
          nt.Countable addr timestamp currTime' := forall_prop_of_true h0
    rw [hcounts]
    rcases hf.write hn hlife timestamp currTime
        (f := fun e => pdrCountHello e helloSeq timestamp currTime')
        (fun e => e.countHello_frame helloSeq timestamp currTime')
        (fun e ho => ho.countHello helloSeq timestamp currTime')
      with ⟨hrenews, hw⟩ | ⟨hrenews, nt₂, hw, hok, hcounted⟩
    · rw [hw]
      exact ⟨fun _ h => (nomatch h), fun _ => iff_of_false id fun h => hrenews h.1⟩
    · rw [hw]
      refine ⟨fun nt' h => Except.ok.inj h ▸ hok, fun hc => ?_⟩
      rw [and_iff_right hrenews, ← hf.counted_iff hn hc]
      exact hcounted hc

theorem kept_capHellorsp {nt : PdrNeighborTable} (hn : nt.Ok) (trackingFactor : UInt16) (addr : MacAddr)
    (helloInterv : UInt16) (helloCount : UInt8) (timestamp currTime : Timeval) :
    Kept nt (capHellorsp trackingFactor addr helloInterv helloCount timestamp currTime) := by
  by_cases h0 : helloInterv = 0
  · subst h0
    refine kept_of_stopped ?_ fun h => absurd rfl h
    rw [call, aodvDbPdrNtCapHellorsp, hn.notFound]
    rfl
  · obtain ⟨nt₁, e₁, he, hf, hlife⟩ := hn.found trackingFactor addr h0
    let f : PdrNeighborEntry → PdrNeighborEntry := fun e => { e with nbRcvdHelloCount := helloCount }
    have hcall : (capHellorsp trackingFactor addr helloInterv helloCount timestamp currTime).call nt =
        pdrNtWrite (pdrNtRenew nt₁ e₁ timestamp currTime) e₁.ptr f := by
      rw [call, aodvDbPdrNtCapHellorsp, he]
      rfl
    have hok : ∀ e : PdrNeighborEntry, e.Ok → (f e).Ok := fun e ho => ⟨ho.ordered, ho.tracked, ho.allocated⟩
    rw [Kept, hcall]
    have hcounts : Counts (.ok nt) (capHellorsp trackingFactor addr helloInterv helloCount timestamp currTime) ↔
        nt.Renews trackingFactor addr helloInterv timestamp currTime := forall_prop_of_true h0
    rw [hcounts]
    rcases hf.write hn hlife timestamp currTime (f := f) (fun _ => ⟨rfl, rfl, rfl⟩) hok
      with ⟨hrenews, hw⟩ | ⟨hrenews, nt₂, hw, hok₂, hcounted⟩
    · rw [hw]
      exact ⟨fun _ h => (nomatch h), fun _ => iff_of_false id hrenews⟩
    · rw [hw]
      refine ⟨fun nt' h => Except.ok.inj h ▸ hok₂, fun hc => iff_of_true ((hcounted hc).mpr ?_) hrenews⟩
      have ho := hf.hellos e₁ hf.mem
      exact (hok e₁ ho).counted_iff.mpr (ho.counted_iff.mp (hf.counted hc e₁ hf.mem))

/-- A query changes the table no further than its cleanup does. -/
theorem kept_query {nt : PdrNeighborTable} (hn : nt.Ok) {op : PdrOp} (addr : MacAddr) (timestamp : Timeval)
    (hcall : op.call nt = .error .divisionByZero ∨
      op.call nt = .ok (((pdrNtFindCleaned nt addr timestamp).map Prod.fst).getD nt))
    (hcounts : Counts (.ok nt) op) : Kept nt op := by
  rcases hcall with hcall | hcall
  · exact kept_of_stopped hcall hcounts
  · cases hq : pdrNtFindCleaned nt addr timestamp with
    | none =>
      rw [hq] at hcall
      exact kept_of_ok hcall hn id hcounts
    | some r =>
      rw [hq] at hcall
      obtain ⟨hok, hc⟩ := hn.findCleaned hq
      exact kept_of_ok hcall hok hc hcounts

theorem kept {nt : PdrNeighborTable} (hn : nt.Ok) (op : PdrOp) : Kept nt op := by
  cases op with
  | capHello trackingFactor addr helloSeq helloInterv timestamp currTime currTime' =>
    exact kept_capHello hn trackingFactor addr helloSeq helloInterv timestamp currTime currTime'
  | capHellorsp trackingFactor addr helloInterv helloCount timestamp currTime =>
    exact kept_capHellorsp hn trackingFactor addr helloInterv helloCount timestamp currTime
  | getPdr addr timestamp => exact kept_query hn addr timestamp (call_query rfl nt) trivial
  | getEtxMul addr timestamp => exact kept_query hn addr timestamp (call_query rfl nt) trivial
  | getEtxAdd addr timestamp => exact kept_query hn addr timestamp (call_query rfl nt) trivial
  | getRcvdhellocount addr timestamp => exact kept_query hn addr timestamp (call_query rfl nt) trivial
  | cleanup timestamp =>
    obtain ⟨hok, hc⟩ := hn.cleanup timestamp
    exact kept_of_ok rfl hok hc trivial
  | updExpected trackingFactor newInterval =>
    by_cases h0 : newInterval = 0
    · refine kept_of_stopped ?_ trivial
      rw [call, aodvDbPdrNtUpdExpected, h0, expectedHellos_zero]
      rfl
    · obtain ⟨n, hexpected⟩ := expectedHellos_ok trackingFactor h0
      have hcall : (updExpected trackingFactor newInterval).call nt = .ok { nt with nbExpectedHellos := n } := by
        rw [call, aodvDbPdrNtUpdExpected, hexpected]
        rfl
      exact kept_of_ok hcall ⟨hn.ordered, hn.tracked, hn.allocated, hn.intervals, hn.hellos⟩ id trivial
  | neighborReset trackingFactor helloInterval =>
    by_cases h0 : helloInterval = 0
    · refine kept_of_stopped ?_ trivial
      rw [call, aodvDbPdrNtNeighborReset, aodvDbPdrNtInit, h0, expectedHellos_zero]
      rfl
    · obtain ⟨n, hexpected⟩ := expectedHellos_ok trackingFactor h0
      have hcall : (neighborReset trackingFactor helloInterval).call nt =
          .ok { entries := [], nbExpectedHellos := n, fresh := nt.fresh,
                ts := timeslotCreate (pdrPurgeTv trackingFactor helloInterval) } := by
        rw [call, aodvDbPdrNtNeighborReset, aodvDbPdrNtInit, hexpected]
        rfl
      exact kept_of_ok hcall (ok_empty n _ _) (fun _ _ h => (List.not_mem_nil h).elim) trivial

/-- In every state of a run all counts are right exactly if no sequence number is captured that is still
known, no byte is exceeded, and every captured entry outlives its renewal. -/
theorem exact_iff (trackingFactor helloInterval : UInt16) (ops : List PdrOp) :
    Runs.Throughout step Exact (aodvDbPdrNtInit trackingFactor helloInterval) ops ↔
      Runs.Always step Counts (aodvDbPdrNtInit trackingFactor helloInterval) ops := by
  obtain ⟨horderly, hexact⟩ := init_orderly trackingFactor helloInterval
  refine Runs.throughout_iff_always (J := Orderly) (fun s op hs => ?_) (fun s op hs he => ?_) horderly hexact
  · cases s with
    | error f => exact fun _ h => (nomatch h)
    | ok nt => exact (kept (hs nt rfl) op).1
  · cases s with
    | error f => exact iff_of_true he trivial
    | ok nt => exact (kept (hs nt rfl) op).2 he

theorem exists_entry {α : Type} {s : Except PdrFault PdrNeighborTable} {f : PdrNeighborEntry → α} {x : α}
    (h : s.toOption.map (fun nt => nt.entries.map f) = some [x]) :
    ∃ nt, s = .ok nt ∧ ∃ e ∈ nt.entries, f e = x := by
  cases s with
  | error _ => cases h
  | ok nt =>
    have hentries : nt.entries.map f = [x] := Option.some.inj h
    exact ⟨nt, rfl, List.mem_map.mp (hentries ▸ List.mem_singleton.mpr rfl)⟩

/-- A HELLO that is received twice, the second time one second later. -/
def helloTwice : List PdrOp :=
  [.capHello 10 2 5 1000 0 1 1, .capHello 10 2 5 1000 1000000 1000001 1000001]

theorem not_exact_helloTwice : ¬ Runs.Throughout step Exact (aodvDbPdrNtInit 10 1000) helloTwice := by
  intro h
  have hcounts : (Runs.exec step (aodvDbPdrNtInit 10 1000) helloTwice).toOption.map
      (fun nt => nt.entries.map fun e => (e.rcvdHelloCount.toNat, e.msgList.length)) = some [(2, 1)] := by
    decide
  obtain ⟨nt, hs, e, he, hpair⟩ := exists_entry hcounts
  obtain ⟨hcount, hlen⟩ := Prod.mk.inj hpair
  have hlast := Runs.throughout_iff.mp h helloTwice [] rfl
  rw [hs] at hlast
  have hsame := (hlast e he).count
  rw [hcount, hlen] at hsame
  cases hsame

end

end PdrOp

end DesAodv
