import DesAodv.SinglyLinked
import DesAodv.PacketQueues

/-!
# The packet buffer in memory

`packet_buffer.c` with the pointers of its queues. Every function does what its
counterpart on lists does, and never follows a pointer to a cell or a queue that
has been freed.
-/

namespace DesAodv

def fifoBufferMaxEntrySize : UInt32 := 4294967295

namespace Ptr

open Linked

structure FifoList where
  head : Option Nat
  tail : Option Nat
  size : UInt32
  deriving DecidableEq, Repr

structure PbEl where
  ptr : Nat
  dhostEther : MacAddr
  fl : FifoList
  deriving DecidableEq, Repr

/-- `pb_t`, with the memory of its packets. -/
structure PbT where
  mem : Memory (Cell DessertMsg)
  entries : List PbEl
  ts : Timeslot Nat
  fresh : Nat
  deriving DecidableEq, Repr

def pbInit : PbT :=
  { mem := Memory.empty, entries := [], ts := DesAodv.timeslotCreate (msec blacklistTimeout), fresh := 0 }

/-- The loop of `purge_packets`, cut off after a number of turns. -/
def purgeQueue : Nat → Memory (Cell DessertMsg) → Option Nat → Option (Memory (Cell DessertMsg))
  | _, mem, none => some mem
  | 0, _, some _ => none
  | turns + 1, mem, some flEl => do
    let el ← mem.read flEl
    let mem ← mem.free flEl
    purgeQueue turns mem el.next

def purgePackets (pb : PbT) (el : TimeslotElement Nat) : Option PbT := do
  let pbEl ← Keyed.lookup PbEl.ptr el.object pb.entries
  let mem ← purgeQueue pb.mem.cells.length pb.mem pbEl.fl.head
  some { pb with mem, entries := Keyed.erase PbEl.ptr pbEl.ptr pb.entries }

/-- The new element becomes the whole list, or the one behind the tail. -/
def linkNew (mem : Memory (Cell DessertMsg)) (fl : FifoList) (newEl : Nat) :
    Option (Memory (Cell DessertMsg) × FifoList) :=
  if fl.head = none then some (mem, { fl with head := some newEl, tail := some newEl })
  else (link mem fl.tail (some newEl)).map fun mem => (mem, { fl with tail := some newEl })

def flPushPacket (M : Malloc) (mem : Memory (Cell DessertMsg)) (fl : FifoList) (msg : DessertMsg) :
    Option (Memory (Cell DessertMsg) × FifoList) := do
  let (mem, newEl) := mem.malloc M { val := msg, next := none }
  let (mem, fl) ← linkNew mem fl newEl
  let fl := { fl with size := fl.size + 1 }
  if fl.size > fifoBufferMaxEntrySize then
    let currHead ← fl.head
    let el ← mem.read currHead
    let mem ← mem.free currHead
    some (mem, { fl with head := el.next, size := fl.size - 1 })
  else some (mem, fl)

def flPopPacket (mem : Memory (Cell DessertMsg)) (fl : FifoList) :
    Option (Memory (Cell DessertMsg) × FifoList × Option DessertMsg) :=
  match fl.head with
  | none => some (mem, fl, none)
  | some headEl => do
    let el ← mem.read headEl
    let fl := if fl.head = fl.tail then { fl with head := none, tail := none } else { fl with head := el.next }
    let mem ← mem.free headEl
    some (mem, { fl with size := fl.size - 1 }, some el.val)

def pbCleanup (pb : PbT) (timestamp : Timeval) : Option PbT :=
  let (ts, purged) := DesAodv.timeslotPurgeobjects pb.ts timestamp
  purged.foldlM purgePackets { pb with ts }

/-- The queue of the destination, which is added when there is none. -/
def PbT.findOrAdd (pb : PbT) (dhostEther : MacAddr) : PbT × PbEl :=
  match Keyed.lookup PbEl.dhostEther dhostEther pb.entries with
  | some pbEl => (pb, pbEl)
  | none =>
    let pbEl : PbEl := { ptr := pb.fresh, dhostEther, fl := { head := none, tail := none, size := 0 } }
    ({ pb with entries := pb.entries ++ [pbEl], fresh := pb.fresh + 1 }, pbEl)

def pbPushPacket (M : Malloc) (pb : PbT) (dhostEther : MacAddr) (msg : DessertMsg) (timestamp currTime : Timeval) :
    Option PbT := do
  let pb ← pbCleanup pb timestamp
  let (pb, pbEl) := pb.findOrAdd dhostEther
  let (mem, fl) ← flPushPacket M pb.mem pbEl.fl msg
  let entries := Keyed.modify PbEl.ptr pbEl.ptr (fun x => { x with fl }) pb.entries
  let (ts, purged) := DesAodv.timeslotAddobject pb.ts timestamp currTime pbEl.ptr
  purged.foldlM purgePackets { pb with mem, entries, ts }

def pbPopPacket (pb : PbT) (dhostEther : MacAddr) : Option (PbT × Option DessertMsg) :=
  match Keyed.lookup PbEl.dhostEther dhostEther pb.entries with
  | none => some (pb, none)
  | some pbEl => do
    let (mem, fl, msg) ← flPopPacket pb.mem pbEl.fl
    if fl.head = none then
      let entries := Keyed.erase PbEl.ptr pbEl.ptr pb.entries
      some ({ pb with mem, entries, ts := (DesAodv.timeslotDeleteobject pb.ts pbEl.ptr).1 }, msg)
    else
      let entries := Keyed.modify PbEl.ptr pbEl.ptr (fun x => { x with fl }) pb.entries
      some ({ pb with mem, entries }, msg)

/-- The packets that wait for a route to `dhostEther`, read from their list. -/
def PbT.queue (pb : PbT) (dhostEther : MacAddr) : List DessertMsg :=
  match Keyed.lookup PbEl.dhostEther dhostEther pb.entries with
  | none => []
  | some pbEl => values pb.mem pb.mem.cells.length pbEl.fl.head

/-! ## The cells of a queue -/

/-- The queue holds `l`, and has the right size. -/
structure FlRep (mem : Memory (Cell DessertMsg)) (fl : FifoList) (l : List (Nat × DessertMsg)) : Prop where
  queue : Queue mem fl.head fl.tail l
  size : fl.size = UInt32.ofNat l.length

section
variable {mem : Memory (Cell DessertMsg)} {fl : FifoList} {l : List (Nat × DessertMsg)}

theorem purgeQueue_spec (hs : Singly mem l) (hn : (addrs l).Nodup) {turns : Nat} (ht : l.length ≤ turns) :
    ∃ mem', purgeQueue turns mem (first l none) = some mem' ∧ ∀ a, a ∉ addrs l → mem'.read a = mem.read a := by
  induction l generalizing mem turns with
  | nil => exact ⟨mem, by cases turns <;> rfl, fun _ _ => rfl⟩
  | cons x l ih =>
    cases turns with
    | zero => cases ht
    | succ turns =>
      obtain ⟨hx, hn'⟩ := List.nodup_cons.mp hn
      have hs' : Singly (mem.drop x.1) l := by
        refine hs.2.frame fun a ha => ?_
        rw [Memory.read_drop, if_neg (ne_of_mem_of_not_mem ha hx)]
      obtain ⟨mem', he, hf⟩ := ih hs' hn' (Nat.le_of_succ_le_succ ht)
      refine ⟨mem', ?_, fun a ha => ?_⟩
      · simp only [first_cons, purgeQueue, hs.1, Memory.free_eq hs.1, Option.bind_eq_bind, Option.bind_some]
        exact he
      · rw [addrs_cons, List.mem_cons, not_or] at ha
        rw [hf a ha.2, Memory.read_drop, if_neg ha.1]

theorem FlRep.frame {mem' : Memory (Cell DessertMsg)} (h : FlRep mem fl l)
    (hf : ∀ a ∈ addrs l, mem'.read a = mem.read a) : FlRep mem' fl l :=
  ⟨h.queue.frame hf, h.size⟩

theorem linkNew_spec {a : Nat} {msg : DessertMsg} (h : Queue mem fl.head fl.tail l)
    (hr : mem.read a = some { val := msg, next := none }) (ha : a ∉ addrs l) :
    ∃ mem' fl', linkNew mem fl a = some (mem', fl') ∧ Queue mem' fl'.head fl'.tail (l ++ [(a, msg)]) ∧
      fl'.size = fl.size ∧ ∀ b, b ∉ addrs l → mem'.read b = mem.read b := by
  unfold linkNew
  rcases List.eq_nil_or_concat l with rfl | ⟨l, x, rfl⟩
  · have hhead : fl.head = none := h.head
    rw [if_pos hhead]
    exact ⟨_, _, rfl, Queue.push_first hr, rfl, fun _ _ => rfl⟩
  · rw [List.concat_eq_append] at h ha ⊢
    have hhead : ¬ fl.head = none := by
      rw [h.head, first_eq_none]
      simp
    obtain ⟨mem', he, hq, hf⟩ := h.push hr ha
    rw [if_neg hhead, he]
    exact ⟨_, _, rfl, hq, rfl, hf⟩

/-- A packet is put behind the others while their number fits the size. -/
theorem FlRep.push (M : Malloc) (h : FlRep mem fl l) (msg : DessertMsg) (hfit : l.length + 1 < UInt32.size) :
    ∃ a mem' fl', flPushPacket M mem fl msg = some (mem', fl') ∧ mem.read a = none ∧
      FlRep mem' fl' (l ++ [(a, msg)]) ∧ ∀ b, b ∉ addrs l → mem.read b ≠ none → mem'.read b = mem.read b := by
  let a := M.address mem.live
  have ha : mem.read a = none := Memory.read_fresh M mem
  have hal : a ∉ addrs l := fun hm => h.queue.cells.live hm ha
  have hq : Queue (mem.put a { val := msg, next := none }) fl.head fl.tail l := by
    refine h.queue.frame fun b hb => ?_
    exact Memory.read_put_ne (ne_of_mem_of_not_mem hb hal)
  obtain ⟨mem', fl', he, hq', hsize, hf⟩ := linkNew_spec hq (Memory.read_put_self _ _ _) hal
  have hsize' : fl'.size + 1 = UInt32.ofNat (l ++ [(a, msg)]).length := by
    rw [hsize, h.size, List.length_append, UInt32.ofNat_add]
    rfl
  have hfew : ¬ fl'.size + 1 > fifoBufferMaxEntrySize := by
    have hlen : (l ++ [(a, msg)]).length = l.length + 1 := by
      rw [List.length_append, List.length_singleton]
    rw [hsize', hlen, gt_iff_lt, UInt32.lt_iff_toNat_lt, UInt32.toNat_ofNat_of_lt' hfit]
    exact Nat.not_lt.mpr (Nat.le_of_lt_succ hfit)
  refine ⟨a, mem', { fl' with size := fl'.size + 1 }, ?_, ha, ⟨hq', hsize'⟩, fun b hb hlive => ?_⟩
  · simp only [flPushPacket, Memory.malloc]
    simp only [a] at he
    rw [he, Option.bind_eq_bind, Option.bind_some]
    simp only
    rw [if_neg hfew]
  · rw [hf b hb]
    exact Memory.read_put_ne fun hba => hlive (hba ▸ ha)

theorem FlRep.pop {x : Nat × DessertMsg} (h : FlRep mem fl (x :: l)) :
    ∃ mem' fl', flPopPacket mem fl = some (mem', fl', some x.2) ∧ FlRep mem' fl' l ∧ (fl'.head = none ↔ l = []) ∧
      ∀ b, b ∉ addrs (x :: l) → mem'.read b = mem.read b := by
  obtain ⟨hfree, hs, hn, htail⟩ := h.queue.pop
  obtain ⟨hhead, hread⟩ := h.queue.first_addr
  have hpop : flPopPacket mem fl = some (mem.drop x.1,
      { (if l = [] then { fl with head := none, tail := none } else { fl with head := first l none }) with
        size := fl.size - 1 }, some x.2) := by
    unfold flPopPacket
    simp only [hhead] at htail ⊢
    simp only [hread, hfree, htail, Option.bind_eq_bind, Option.bind_some]
    split <;> rfl
  have hsize : fl.size - 1 = UInt32.ofNat l.length := by
    rw [h.size, List.length_cons, ofNat_succ_sub_one]
  refine ⟨_, _, hpop, ?_, ?_, fun b hb => ?_⟩
  · cases l with
    | nil => exact ⟨Queue.nil _, hsize⟩
    | cons y l =>
      refine ⟨⟨rfl, ?_, hs, hn⟩, hsize⟩
      have ht := h.queue.tail
      rw [last_cons] at ht
      exact ht.trans (by rw [last_cons, last_cons])
  · cases l <;> simp
  · rw [addrs_cons, List.mem_cons, not_or] at hb
    rw [Memory.read_drop, if_neg hb.1]

end

/-! ## The representation of a packet buffer -/

/-- `chain` says which packets the queue at an address holds, and in which cells. -/
structure PbRep (pb : PbT) (chain : Nat → List (Nat × DessertMsg)) : Prop where
  queues : ∀ x ∈ pb.entries, FlRep pb.mem x.fl (chain x.ptr)
  apart : ∀ x ∈ pb.entries, ∀ y ∈ pb.entries, x.ptr ≠ y.ptr → (addrs (chain x.ptr)).Disjoint (addrs (chain y.ptr))
  unused : ∀ ptr, pb.fresh ≤ ptr → chain ptr = []

def listedEl (chain : Nat → List (Nat × DessertMsg)) (x : PbEl) : DesAodv.PbEl :=
  { ptr := x.ptr, dhostEther := x.dhostEther, fl := (chain x.ptr).map Prod.snd }

/-- The same packet buffer with its queues as lists. -/
def listedPb (chain : Nat → List (Nat × DessertMsg)) (pb : PbT) : PacketBuffer :=
  { entries := pb.entries.map (listedEl chain), ts := pb.ts, fresh := pb.fresh }

section
variable {pb : PbT} {chain : Nat → List (Nat × DessertMsg)} {mem' : Memory (Cell DessertMsg)} {x : PbEl}

theorem pbRep_init : PbRep pbInit fun _ => [] :=
  ⟨fun _ hx => (List.not_mem_nil hx).elim, fun _ hx => (List.not_mem_nil hx).elim, fun _ _ => rfl⟩

theorem lookup_listed {κ : Type} [DecidableEq κ] {key : PbEl → κ} {key' : DesAodv.PbEl → κ}
    (hk : ∀ x, key' (listedEl chain x) = key x) (k : κ) (entries : List PbEl) :
    Keyed.lookup key' k (entries.map (listedEl chain)) = (Keyed.lookup key k entries).map (listedEl chain) := by
  unfold Keyed.lookup
  rw [List.find?_map]
  simp only [Function.comp_def, hk]

theorem erase_listed {κ : Type} [DecidableEq κ] {key : PbEl → κ} {key' : DesAodv.PbEl → κ}
    (hk : ∀ x, key' (listedEl chain x) = key x) (k : κ) (entries : List PbEl) :
    Keyed.erase key' k (entries.map (listedEl chain)) = (Keyed.erase key k entries).map (listedEl chain) := by
  unfold Keyed.erase
  rw [List.filter_map]
  simp only [Function.comp_def, hk]

theorem PbRep.queue (hr : PbRep pb chain) (dhostEther : MacAddr) :
    pb.queue dhostEther = (listedPb chain pb).queue dhostEther := by
  have hlookup : Keyed.lookup DesAodv.PbEl.dhostEther dhostEther (listedPb chain pb).entries =
      (Keyed.lookup PbEl.dhostEther dhostEther pb.entries).map (listedEl chain) := lookup_listed (fun _ => rfl) _ _
  unfold PbT.queue PacketBuffer.queue
  rw [hlookup]
  cases hl : Keyed.lookup PbEl.dhostEther dhostEther pb.entries with
  | none => rfl
  | some y => exact (hr.queues y (Keyed.lookup_mem hl)).queue.values_eq

theorem PbRep.erase (hr : PbRep pb chain) (hx : x ∈ pb.entries)
    (hf : ∀ a, a ∉ addrs (chain x.ptr) → mem'.read a = pb.mem.read a) (ts : Timeslot Nat) :
    PbRep { pb with mem := mem', entries := Keyed.erase PbEl.ptr x.ptr pb.entries, ts } chain := by
  refine ⟨fun y hy => ?_, fun y hy z hz => ?_, hr.unused⟩
  · obtain ⟨hy, hne⟩ := Keyed.mem_erase.mp hy
    refine (hr.queues y hy).frame fun a ha => hf a fun hax => ?_
    exact hr.apart y hy x hx hne ha hax
  · exact hr.apart y (Keyed.mem_erase.mp hy).1 z (Keyed.mem_erase.mp hz).1

/-- The packets of one queue change, in cells of its own or in new ones. -/
theorem PbRep.set (hr : PbRep pb chain) (hx : x ∈ pb.entries) (halloc : x.ptr < pb.fresh) {fl' : FifoList}
    {l' : List (Nat × DessertMsg)} (hl : FlRep mem' fl' l')
    (hown : ∀ a ∈ addrs l', a ∈ addrs (chain x.ptr) ∨ pb.mem.read a = none)
    (hf : ∀ a, a ∉ addrs (chain x.ptr) → pb.mem.read a ≠ none → mem'.read a = pb.mem.read a) (ts : Timeslot Nat) :
    PbRep { pb with mem := mem', ts, entries := Keyed.modify PbEl.ptr x.ptr (fun y => { y with fl := fl' }) pb.entries }
      (Function.update chain x.ptr l') := by
  -- the new cells are in no other queue
  have hother : ∀ y ∈ pb.entries, y.ptr ≠ x.ptr → ∀ a ∈ addrs (chain y.ptr), a ∉ addrs l' := by
    intro y hy hne a ha ha'
    rcases hown a ha' with h | h
    · exact hr.apart y hy x hx hne ha h
    · exact (hr.queues y hy).queue.cells.live ha h
  refine ⟨fun z hz => ?_, fun z hz w hw => ?_, fun ptr hp => ?_⟩
  · obtain ⟨y, hy, rfl⟩ := Keyed.mem_modify hz
    by_cases hyx : y.ptr = x.ptr
    · simp only [hyx, if_true, Function.update_self]
      exact hl
    · simp only [hyx, if_false]
      rw [Function.update_of_ne hyx]
      refine (hr.queues y hy).frame fun a ha => hf a (fun hax => hr.apart y hy x hx hyx ha hax) ?_
      exact (hr.queues y hy).queue.cells.live ha
  · obtain ⟨y, hy, rfl⟩ := Keyed.mem_modify hz
    obtain ⟨v, hv, rfl⟩ := Keyed.mem_modify hw
    have hptr : ∀ u : PbEl, (if u.ptr = x.ptr then { u with fl := fl' } else u).ptr = u.ptr := by
      intro u
      split <;> rfl
    rw [hptr y, hptr v]
    intro hne a ha hb
    by_cases hyx : y.ptr = x.ptr
    · rw [hyx, Function.update_self] at ha
      have hvx : v.ptr ≠ x.ptr := fun h => hne (hyx.trans h.symm)
      rw [Function.update_of_ne hvx] at hb
      exact hother v hv hvx a hb ha
    · rw [Function.update_of_ne hyx] at ha
      by_cases hvx : v.ptr = x.ptr
      · rw [hvx, Function.update_self] at hb
        exact hother y hy hyx a ha hb
      · rw [Function.update_of_ne hvx] at hb
        exact hr.apart y hy v hv hne ha hb
  · rw [Function.update_of_ne (Nat.ne_of_gt (Nat.lt_of_lt_of_le halloc hp))]
    exact hr.unused ptr hp

theorem listed_set {fl' : FifoList} {l' : List (Nat × DessertMsg)} {f : List DessertMsg → List DessertMsg}
    (hf : l'.map Prod.snd = f ((chain x.ptr).map Prod.snd)) (entries : List PbEl) :
    (Keyed.modify PbEl.ptr x.ptr (fun y => { y with fl := fl' }) entries).map
        (listedEl (Function.update chain x.ptr l')) =
      Keyed.modify DesAodv.PbEl.ptr x.ptr (fun y => { y with fl := f y.fl }) (entries.map (listedEl chain)) := by
  unfold Keyed.modify
  rw [List.map_map, List.map_map]
  refine List.map_congr_left fun y _ => ?_
  by_cases hyx : y.ptr = x.ptr
  · simp only [Function.comp, listedEl, hyx, if_true, Function.update_self, hf]
  · simp only [Function.comp, listedEl, hyx, if_false, Function.update_of_ne, ne_eq, not_false_eq_true]

/-! ## Purges -/

theorem PbRep.purgePackets (hr : PbRep pb chain) {el : TimeslotElement Nat}
    (hel : ∃ x ∈ pb.entries, x.ptr = el.object) : ∃ pb', purgePackets pb el = some pb' ∧ PbRep pb' chain ∧
      listedPb chain pb' = DesAodv.purgePackets (listedPb chain pb) el := by
  have hfound : Keyed.lookup PbEl.ptr el.object pb.entries ≠ none := by
    intro hn
    obtain ⟨x, hx, he⟩ := hel
    exact Keyed.lookup_eq_none.mp hn x hx he
  obtain ⟨x, hl⟩ := Option.ne_none_iff_exists'.mp hfound
  have hx := Keyed.lookup_mem hl
  have hq := (hr.queues x hx).queue
  obtain ⟨mem', he, hf⟩ := purgeQueue_spec hq.cells hq.nodup hq.length_le
  rw [← hq.head] at he
  refine ⟨_, ?_, hr.erase hx hf pb.ts, ?_⟩
  · simp only [Ptr.purgePackets, hl, he, Option.bind_eq_bind, Option.bind_some]
  · simp only [listedPb, DesAodv.purgePackets]
    rw [Keyed.lookup_key hl]
    have herase := @erase_listed chain Nat _ PbEl.ptr DesAodv.PbEl.ptr (fun _ => rfl) el.object pb.entries
    exact congrArg (fun entries => PacketBuffer.mk entries pb.ts pb.fresh) herase.symm

theorem PbRep.purge (hr : PbRep pb chain) {purged : List (TimeslotElement Nat)}
    (hn : (purged.map TimeslotElement.object).Nodup) (hel : ∀ el ∈ purged, ∃ x ∈ pb.entries, x.ptr = el.object) :
    ∃ pb', purged.foldlM Ptr.purgePackets pb = some pb' ∧ PbRep pb' chain ∧
      listedPb chain pb' = purged.foldl DesAodv.purgePackets (listedPb chain pb) := by
  induction purged generalizing pb with
  | nil => exact ⟨pb, rfl, hr, rfl⟩
  | cons el els ih =>
    obtain ⟨hnot, hn'⟩ := List.nodup_cons.mp hn
    obtain ⟨pb₁, he₁, hr₁, hl₁⟩ := hr.purgePackets (hel el List.mem_cons_self)
    have hrest : ∀ e ∈ els, ∃ x ∈ pb₁.entries, x.ptr = e.object := by
      intro e he
      obtain ⟨x, hx, hxe⟩ := hel e (List.mem_cons_of_mem _ he)
      have hentries := congrArg (fun pb : PacketBuffer => pb.entries.map DesAodv.PbEl.ptr) hl₁
      have hmem : x.ptr ∈ (listedPb chain pb₁).entries.map DesAodv.PbEl.ptr := by
        simp only [hentries, DesAodv.purgePackets]
        refine List.mem_map.mpr ⟨listedEl chain x, Keyed.mem_erase.mpr ⟨List.mem_map_of_mem hx, ?_⟩, rfl⟩
        intro hxel
        exact hnot (List.mem_map.mpr ⟨e, he, hxe.symm.trans hxel⟩)
      obtain ⟨y, hy, hyx⟩ := List.mem_map.mp hmem
      obtain ⟨z, hz, rfl⟩ := List.mem_map.mp hy
      exact ⟨z, hz, hyx.trans hxe⟩
    obtain ⟨pb', he, hr', hl'⟩ := ih hr₁ hn' hrest
    refine ⟨pb', ?_, hr', ?_⟩
    · rw [List.foldlM_cons, he₁]
      exact he
    · rw [hl', hl₁]
      rfl

end

end Ptr

end DesAodv
