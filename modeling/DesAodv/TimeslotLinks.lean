import DesAodv.LinkedList
import DesAodv.Timeslot

/-!
# Timeslots in memory

`timeslot.c` with its pointers: the elements are linked nodes, `elements_hash`
finds the node of an object. Every function does what its counterpart on lists
does, and never follows a pointer to a node that is not allocated.
-/

namespace DesAodv

namespace Ptr

open Linked

/-- `timeslot_t`, with the memory of its elements. -/
structure TimeslotT (α : Type) where
  mem : Memory (ListNode (TimeslotElement α))
  head : Option Nat
  tail : Option Nat
  size : UInt32
  purgeTimeout : Timeval
  elementsHash : Hash α
  deriving DecidableEq, Repr

section
variable {α : Type}

def createNewTsElement (M : Malloc) (mem : Memory (ListNode (TimeslotElement α))) (timestamp : Timeval) (object : α) :
    Memory (ListNode (TimeslotElement α)) × Nat :=
  mem.malloc M { val := { purgeTime := timestamp, object }, next := none, prev := none }

def timeslotCreate (purgeTimeout : Timeval) : TimeslotT α :=
  { mem := Memory.empty, head := none, tail := none, size := 0, purgeTimeout, elementsHash := [] }

/-- The links of the tail, when it is taken out of the list. -/
def unlinkTail (ts : TimeslotT α) (searchEl : Nat) (next : Option Nat) : Option (TimeslotT α) :=
  if ts.head = some searchEl then some { ts with head := none, tail := none }
  else (setPrev ts.mem next none).map fun mem => { ts with mem, tail := next }

/-- The loop of `timeslot_purgeobjects`, cut off after a number of turns, with the calls of the purger. -/
def purgeLoop (currTime : Timeval) :
    Nat → TimeslotT α → Option Nat → Option (TimeslotT α × List (TimeslotElement α))
  | _, ts, none => some (ts, [])
  | 0, _, some _ => none
  | turns + 1, ts, some searchEl => do
    let el ← ts.mem.read searchEl
    if el.val.purgeTime ≤ currTime then
      let ts := { ts with elementsHash := Hash.del ts.elementsHash searchEl }
      let ts ← unlinkTail ts searchEl el.next
      let ts := { ts with size := ts.size - 1 }
      let newTail := ts.tail
      let mem ← ts.mem.free searchEl
      let (ts, purged) ← purgeLoop currTime turns { ts with mem } newTail
      some (ts, el.val :: purged)
    else some (ts, [])

def timeslotPurgeobjects (ts : TimeslotT α) (currTime : Timeval) :
    Option (TimeslotT α × List (TimeslotElement α)) :=
  purgeLoop currTime ts.elementsHash.length ts ts.tail

/-- The search for the place of a new element, cut off after a number of turns. -/
def searchLoop (mem : Memory (ListNode (TimeslotElement α))) (purgeTime : Timeval) : Nat → Nat → Option Nat
  | 0, _ => none
  | turns + 1, searchEl => do
    let el ← mem.read searchEl
    match el.prev with
    | none => some searchEl
    | some prev => if purgeTime < el.val.purgeTime then searchLoop mem purgeTime turns prev else some searchEl

variable [DecidableEq α]

def timeslotDeleteobject (ts : TimeslotT α) (object : α) : Option (TimeslotT α × Bool) :=
  match Hash.find ts.elementsHash object with
  | none => some (ts, false)
  | some oldEl => do
    let old ← ts.mem.read oldEl
    let mem ← setNext ts.mem old.prev old.next
    let mem ← setPrev mem old.next old.prev
    let old ← mem.read oldEl
    let tail := if ts.tail = some oldEl then old.next else ts.tail
    let head := if ts.head = some oldEl then old.prev else ts.head
    let elementsHash := Hash.del ts.elementsHash oldEl
    let mem ← mem.free oldEl
    some ({ ts with mem, tail, head, elementsHash, size := ts.size - 1 }, true)

/-- Insert the new element after the search element or before it. -/
def insertAt (ts : TimeslotT α) (newEl searchEl : Nat) (purgeTime : Timeval) : Option (TimeslotT α) := do
  let el ← ts.mem.read searchEl
  if el.val.purgeTime ≤ purgeTime then
    let mem ← setPrev ts.mem (some newEl) (some searchEl)
    let mem ← setNext mem (some newEl) el.next
    let mem ← setNext mem (some searchEl) (some newEl)
    let mem ← setPrev mem el.next (some newEl)
    some { ts with mem, head := if ts.head = some searchEl then some newEl else ts.head }
  else
    let mem ← setPrev ts.mem (some newEl) el.prev
    let mem ← setNext mem (some newEl) (some searchEl)
    let mem ← setPrev mem (some searchEl) (some newEl)
    let mem ← setNext mem el.prev (some newEl)
    some { ts with mem, tail := if ts.tail = some searchEl then some newEl else ts.tail }

def timeslotAddobjectVarpurge (M : Malloc) (ts : TimeslotT α) (timestamp currTime : Timeval) (object : α)
    (lifetime : Timeval) : Option (TimeslotT α × List (TimeslotElement α)) := do
  let purgeTime := lifetime + timestamp
  let (mem, newEl) := createNewTsElement M ts.mem purgeTime object
  let (ts, _) ← timeslotDeleteobject { ts with mem } object
  let ts := { ts with elementsHash := Hash.add ts.elementsHash object newEl }
  if ts.size = 0 then some ({ ts with head := some newEl, tail := some newEl, size := 1 }, [])
  else
    let head ← ts.head
    let searchEl ← searchLoop ts.mem purgeTime ts.elementsHash.length head
    let ts ← insertAt ts newEl searchEl purgeTime
    timeslotPurgeobjects { ts with size := ts.size + 1 } currTime

def timeslotAddobject (M : Malloc) (ts : TimeslotT α) (timestamp currTime : Timeval) (object : α) :
    Option (TimeslotT α × List (TimeslotElement α)) :=
  timeslotAddobjectVarpurge M ts timestamp currTime object ts.purgeTimeout

end

/-! ## The representation of a list -/

/-- The nodes of `ts` are those of `l`, from the tail to the head. -/
structure Rep {α : Type} (ts : TimeslotT α) (l : List (Nat × TimeslotElement α)) : Prop where
  indexed : Indexed TimeslotElement.object ts.mem ts.elementsHash l
  tail : ts.tail = first l none
  head : ts.head = last none l
  size : ts.size = UInt32.ofNat l.length

/-- The same timeslot as a list. -/
def listed {α : Type} (ts : TimeslotT α) (l : List (Nat × TimeslotElement α)) : Timeslot α :=
  { elements := l.map Prod.snd, purgeTimeout := ts.purgeTimeout }

section
variable {α : Type} {ts : TimeslotT α} {l : List (Nat × TimeslotElement α)}

theorem rep_create (purgeTimeout : Timeval) : Rep (timeslotCreate purgeTimeout : TimeslotT α) [] :=
  ⟨Indexed.empty _, rfl, rfl, rfl⟩

/-! ## Deleting -/

variable [DecidableEq α]

theorem Rep.delete (hr : Rep ts l) (object : α) :
    ∃ ts' l' b, timeslotDeleteobject ts object = some (ts', b) ∧ Rep ts' l' ∧
      (listed ts' l', b) = DesAodv.timeslotDeleteobject (listed ts l) object ∧
      addrs l' ⊆ addrs l ∧ ∀ c, c ∉ addrs l → ts'.mem.read c = ts.mem.read c := by
  cases hf : Hash.find ts.elementsHash object with
  | none =>
    have habs := hr.indexed.absent hf
    have hlookup : Keyed.lookup TimeslotElement.object object (listed ts l).elements = none := by
      rw [Keyed.lookup_eq_none]
      intro el hel
      obtain ⟨x, hx, rfl⟩ := List.mem_map.mp hel
      exact habs x hx
    refine ⟨ts, l, false, by simp only [timeslotDeleteobject, hf], hr, ?_, List.Subset.refl _, fun _ _ => rfl⟩
    rw [DesAodv.timeslotDeleteobject, hlookup, listed, Indexed.erase_none habs]
    rfl
  | some oldEl =>
    obtain ⟨l₁, v, l₂, rfl, rfl⟩ := hr.indexed.found hf
    have hseg := hr.indexed.seg
    obtain ⟨m₁, m₂, e₁, e₂, hread, hfree, hs, hframe⟩ := hseg.unlink hr.indexed.nodup
    have hnode := hseg.node
    rw [hnode] at hread
    have hlen : (l₁ ++ (oldEl, v) :: l₂).length = (l₁ ++ l₂).length + 1 := by simp; omega
    refine ⟨{ ts with
        mem := m₂.drop oldEl
        tail := if ts.tail = some oldEl then first l₂ none else ts.tail
        head := if ts.head = some oldEl then last none l₁ else ts.head
        elementsHash := Hash.del ts.elementsHash oldEl
        size := ts.size - 1 }, l₁ ++ l₂, true, ?_, ⟨hr.indexed.remove hs, ?_, ?_, ?_⟩, ?_, ?_, hframe⟩
    · simp only [timeslotDeleteobject, hf, hnode, Option.bind_eq_bind, Option.bind_some, e₁, e₂, hread, hfree]
    · rw [← first_remove hr.indexed.nodup, hr.tail]
    · rw [← last_remove hr.indexed.nodup, hr.head]
    · rw [hr.size, hlen, ofNat_succ_sub_one]
    · have hmem : v ∈ (listed ts (l₁ ++ (oldEl, v) :: l₂)).elements := List.mem_map.mpr ⟨(oldEl, v), by simp, rfl⟩
      have hfound : (Keyed.lookup TimeslotElement.object v.object
          (listed ts (l₁ ++ (oldEl, v) :: l₂)).elements).isSome = true := by
        rw [Option.isSome_iff_ne_none, ne_eq, Keyed.lookup_eq_none]
        exact fun h => h v hmem rfl
      rw [DesAodv.timeslotDeleteobject, hfound, listed, listed, hr.indexed.erase_node]
    · exact ((List.sublist_cons_self _ _).append_left _ |>.map _).subset

end

/-! ## Purging -/

section
variable {α : Type}

theorem unlinkTail_eq {ts : TimeslotT α} {x : Nat × TimeslotElement α} {l : List (Nat × TimeslotElement α)}
    {m' : Memory (ListNode (TimeslotElement α))} (hhead : ts.head = last (some x.1) l) (hx : x.1 ∉ addrs l)
    (e : setPrev ts.mem (first l none) none = some m') :
    unlinkTail ts x.1 (first l none) =
      some { ts with mem := m', head := if l = [] then none else ts.head, tail := first l none } := by
  unfold unlinkTail
  cases l with
  | nil =>
    obtain rfl := Option.some.inj e
    rw [last_nil] at hhead
    rw [if_pos hhead]
    rfl
  | cons y l =>
    obtain ⟨a, ha, hlast⟩ := last_mem (x := y) l
    have hne : ¬ ts.head = some x.1 := by
      rw [hhead, last_cons, hlast, Option.some.injEq]
      exact ne_of_mem_of_not_mem ha hx
    rw [if_neg hne, e, if_neg (List.cons_ne_nil y l)]
    rfl

theorem Rep.purgeLoop (currTime : Timeval) {l : List (Nat × TimeslotElement α)} {ts : TimeslotT α} (hr : Rep ts l)
    {turns : Nat} (ht : l.length ≤ turns) :
    ∃ ts' l' purged, purgeLoop currTime turns ts (first l none) = some (ts', purged) ∧ Rep ts' l' ∧
      (listed ts' l', purged) = DesAodv.timeslotPurgeobjects (listed ts l) currTime := by
  induction l generalizing ts turns with
  | nil =>
    refine ⟨ts, [], [], ?_, hr, rfl⟩
    cases turns <;> rfl
  | cons x l ih =>
    obtain ⟨turns, rfl⟩ := Nat.exists_eq_add_of_lt (Nat.lt_of_lt_of_le (Nat.succ_pos l.length) ht)
    rw [Nat.zero_add] at ht ⊢
    have hnode := hr.indexed.seg.1
    by_cases hdue : x.2.purgeTime ≤ currTime
    · obtain ⟨m', e, hfree, hseg⟩ := hr.indexed.seg.unlink_first hr.indexed.nodup
      have hhead : ts.head = last (some x.1) l := by rw [hr.head, last_cons]
      -- the timeslot after one turn
      have hr' : Rep { ts with
          mem := m'.drop x.1
          head := if l = [] then none else ts.head
          tail := first l none
          size := ts.size - 1
          elementsHash := Hash.del ts.elementsHash x.1 } l := by
        refine ⟨@Indexed.remove _ _ _ _ _ _ [] l x hr.indexed hseg, rfl, ?_, ?_⟩
        · cases l with
          | nil => rfl
          | cons y l => exact hhead.trans (last_cons _ y l) |>.trans (last_cons _ y l).symm
        · rw [hr.size, List.length_cons, ofNat_succ_sub_one]
      obtain ⟨ts', l', purged, hp, hr'', heq⟩ := ih hr' (Nat.le_of_succ_le_succ ht)
      refine ⟨ts', l', x.2 :: purged, ?_, hr'', ?_⟩
      · have hturn := @unlinkTail_eq _ { ts with elementsHash := Hash.del ts.elementsHash x.1 } _ _ _ hhead
          (List.nodup_cons.mp hr.indexed.nodup).1 e
        simp only [Ptr.purgeLoop, first_cons, hnode, hdue, Option.bind_eq_bind, Option.bind_some, if_true, hturn,
          hfree, hp]
      · obtain ⟨h₁, h₂⟩ := Prod.mk.inj heq
        rw [h₁, h₂]
        simp [DesAodv.timeslotPurgeobjects, listed, hdue]
    · refine ⟨ts, x :: l, [], ?_, hr, ?_⟩
      · simp only [Ptr.purgeLoop, first_cons, hnode, hdue, Option.bind_eq_bind, Option.bind_some, if_false]
      · simp [DesAodv.timeslotPurgeobjects, listed, hdue]

theorem Rep.purge {ts : TimeslotT α} {l : List (Nat × TimeslotElement α)} (hr : Rep ts l) (currTime : Timeval) :
    ∃ ts' l' purged, timeslotPurgeobjects ts currTime = some (ts', purged) ∧ Rep ts' l' ∧
      (listed ts' l', purged) = DesAodv.timeslotPurgeobjects (listed ts l) currTime := by
  have hlen : ts.elementsHash.length = l.length := by rw [hr.indexed.hash.length_eq, List.length_map]
  unfold timeslotPurgeobjects
  rw [hr.tail]
  exact hr.purgeLoop currTime (Nat.le_of_eq hlen.symm)

/-! ## Adding -/

theorem rsplit {β : Type*} {p : β → Bool} {l₁ l₂ : List β} (h₁ : ∀ hl : l₁ ≠ [], ¬ p (l₁.getLast hl) = true)
    (h₂ : ∀ x ∈ l₂, p x = true) : (l₁ ++ l₂).rdropWhile p = l₁ ∧ (l₁ ++ l₂).rtakeWhile p = l₂ := by
  induction l₂ using List.reverseRecOn with
  | nil =>
    rw [List.append_nil]
    exact ⟨List.rdropWhile_eq_self_iff.mpr h₁, List.rtakeWhile_eq_nil_iff.mpr h₁⟩
  | append_singleton l x ih =>
    have hx := h₂ x (by simp)
    obtain ⟨hd, ht⟩ := ih fun y hy => h₂ y (by simp [hy])
    rw [← List.append_assoc, List.rdropWhile_concat_pos _ _ _ hx, List.rtakeWhile_concat_pos _ _ _ hx, hd, ht]
    exact ⟨rfl, rfl⟩

theorem insertElement_split {el : TimeslotElement α} {els₁ els₂ : List (TimeslotElement α)}
    (h₁ : ∀ hl : els₁ ≠ [], ¬ el.purgeTime < (els₁.getLast hl).purgeTime)
    (h₂ : ∀ x ∈ els₂, el.purgeTime < x.purgeTime) : insertElement el (els₁ ++ els₂) = els₁ ++ el :: els₂ := by
  have h := @rsplit _ (fun x : TimeslotElement α => decide (el.purgeTime < x.purgeTime)) els₁ els₂
    (fun hl => by simpa using h₁ hl) (fun x hx => decide_eq_true (h₂ x hx))
  simp only [insertElement, h.1, h.2]

/-- The search ends at the last element that is not purged later, or at the tail. -/
theorem searchLoop_eq {mem : Memory (ListNode (TimeslotElement α))} (purgeTime : Timeval)
    (l : List (Nat × TimeslotElement α)) (x : Nat × TimeslotElement α) {q : Option Nat}
    (hs : Seg mem none (l ++ [x]) q) {turns : Nat} (ht : l.length < turns) :
    ∃ l₁ s l₂, l ++ [x] = l₁ ++ s :: l₂ ∧ searchLoop mem purgeTime turns x.1 = some s.1 ∧
      (∀ y ∈ l₂, purgeTime < y.2.purgeTime) ∧ (purgeTime < s.2.purgeTime → l₁ = []) := by
  obtain ⟨turns, rfl⟩ := Nat.exists_eq_add_of_lt ht
  -- the search goes from the head to the tail, that is, from the end of `l`
  induction l using List.reverseRecOn generalizing x q turns with
  | nil =>
    have hnode : mem.read x.1 = some { val := x.2, next := q, prev := none } := hs.1
    refine ⟨[], x, [], rfl, ?_, by simp, fun _ => rfl⟩
    simp only [searchLoop, hnode, Option.bind_eq_bind, Option.bind_some]
  | append_singleton l y ih =>
    have hnode := hs.node
    rw [last_concat] at hnode
    by_cases hlater : purgeTime < x.2.purgeTime
    · obtain ⟨l₁, s, l₂, he, hsearch, hl₂, hl₁⟩ := ih y (seg_append.mp hs).1 turns (by omega)
      refine ⟨l₁, s, l₂ ++ [x], by rw [he]; simp, ?_, ?_, hl₁⟩
      · have hturns : (l ++ [y]).length + turns = l.length + turns + 1 := by simp; omega
        simp only [searchLoop, hnode, Option.bind_eq_bind, Option.bind_some, hlater, if_true, hturns]
        exact hsearch
      · intro z hz
        rcases List.mem_append.mp hz with hz | hz
        · exact hl₂ z hz
        · rw [List.mem_singleton.mp hz]
          exact hlater
    · refine ⟨l ++ [y], x, [], rfl, ?_, by simp, fun h => absurd h hlater⟩
      simp only [searchLoop, hnode, Option.bind_eq_bind, Option.bind_some, hlater, if_false]

theorem insertAt_eq {ts : TimeslotT α} {l₁ l₂ : List (Nat × TimeslotElement α)} {s : Nat × TimeslotElement α}
    {newEl : Nat} {v : TimeslotElement α} (hs : Seg ts.mem none (l₁ ++ s :: l₂) none)
    (hn : (addrs (l₁ ++ s :: l₂)).Nodup) (hnew : newEl ∉ addrs (l₁ ++ s :: l₂))
    (hread : ts.mem.read newEl = some { val := v, next := none, prev := none })
    (htail : ts.tail = first (l₁ ++ s :: l₂) none) (hhead : ts.head = last none (l₁ ++ s :: l₂))
    (hl₁ : v.purgeTime < s.2.purgeTime → l₁ = []) :
    ∃ mem l l', insertAt ts newEl s.1 v.purgeTime =
        some { ts with mem, tail := first (l ++ (newEl, v) :: l') none, head := last none (l ++ (newEl, v) :: l') } ∧
      l ++ l' = l₁ ++ s :: l₂ ∧ Seg mem none (l ++ (newEl, v) :: l') none ∧
      (l = l₁ ++ [s] ∧ l' = l₂ ∧ ¬ v.purgeTime < s.2.purgeTime ∨ l = [] ∧ v.purgeTime < s.2.purgeTime) := by
  have hnode := hs.node
  by_cases hle : s.2.purgeTime ≤ v.purgeTime
  · have hsplit : l₁ ++ s :: l₂ = (l₁ ++ [s]) ++ l₂ := by simp
    rw [hsplit] at hs hn hnew
    have g := Gap.of_new hs hn hnew hread
    obtain ⟨m₁, e₁, g₁⟩ := g.setPrev_node (some s.1)
    obtain ⟨m₂, e₂, g₂⟩ := g₁.setNext_node (first l₂ none)
    obtain ⟨m₃, e₃, g₃, -⟩ := g₂.setNext_left (some newEl)
    obtain ⟨m₄, e₄, g₄, -⟩ := g₃.setPrev_right (some newEl)
    rw [last_concat] at e₃
    refine ⟨m₄, l₁ ++ [s], l₂, ?_, by simp, g₄.linked rfl (last_concat _ _ _).symm, .inl ⟨rfl, rfl, Nat.not_lt.mpr hle⟩⟩
    have hlast := last_insert (hsplit ▸ hn) (newEl, v)
    have hfirst : first ((l₁ ++ [s]) ++ (newEl, v) :: l₂) none = ts.tail := by
      rw [htail, hsplit, first_append, first_append]
      cases l₁ <;> rfl
    simp only [insertAt, hnode, Option.bind_eq_bind, Option.bind_some, hle, if_true, e₁, e₂, e₃, e₄, hfirst,
      ← hlast, hhead]
  · have hlt := Nat.lt_of_not_le hle
    obtain rfl := hl₁ hlt
    have g := @Gap.of_new _ _ [] (s :: l₂) _ _ hs hn hnew hread
    obtain ⟨m₁, e₁, g₁⟩ := g.setPrev_node none
    obtain ⟨m₂, e₂, g₂⟩ := g₁.setNext_node (some s.1)
    obtain ⟨m₃, e₃, g₃, -⟩ := g₂.setPrev_right (some newEl)
    have g₃' : Gap m₃ [] (some newEl) newEl { val := v, next := some s.1, prev := none } (some newEl) (s :: l₂) :=
      ⟨trivial, g₃.node, g₃.right, g₃.nodup⟩
    rw [first_cons] at e₃
    have hlast : last none ((newEl, v) :: s :: l₂) = ts.head := by
      rw [hhead, List.nil_append, last_cons, last_cons, last_cons]
    refine ⟨m₃, [], s :: l₂, ?_, rfl, g₃'.linked rfl rfl, .inr ⟨rfl, hlt⟩⟩
    have htail' : ts.tail = some s.1 := htail
    simp only [last_nil] at hnode
    simp only [insertAt, hnode, Option.bind_eq_bind, Option.bind_some, hle, if_false, e₁, e₂, e₃, setNext_none,
      htail', if_true, hlast, List.nil_append, first_cons]

theorem Rep.malloc {ts : TimeslotT α} {l : List (Nat × TimeslotElement α)} (hr : Rep ts l) (M : Malloc)
    (purgeTime : Timeval) (object : α) :
    let new := createNewTsElement M ts.mem purgeTime object
    Rep { ts with mem := new.1 } l ∧ new.2 ∉ addrs l ∧
      new.1.read new.2 = some { val := { purgeTime, object }, next := none, prev := none } := by
  intro new
  have hfresh : new.2 ∉ addrs l := fun h => hr.indexed.seg.live h (Memory.read_fresh M ts.mem)
  refine ⟨⟨⟨?_, hr.indexed.nodup, hr.indexed.keys, hr.indexed.hash⟩, hr.tail, hr.head, hr.size⟩, hfresh,
    Memory.read_put_self _ _ _⟩
  apply hr.indexed.seg.frame
  intro a ha
  exact Memory.read_put_ne (ne_of_mem_of_not_mem ha hfresh)

theorem ofNat_eq_zero {n : Nat} (h : n < 4294967296) : UInt32.ofNat n = 0 ↔ n = 0 := by
  rw [← UInt32.toNat_inj, UInt32.toNat_ofNat', Nat.mod_eq_of_lt h]
  rfl

/-- The new element is linked in; what remains is the purge. -/
theorem Rep.insert {ts : TimeslotT α} {l : List (Nat × TimeslotElement α)} (hr : Rep ts l) (hne : l ≠ [])
    {newEl : Nat} {v : TimeslotElement α} (hnew : newEl ∉ addrs l) (hkey : ∀ x ∈ l, x.2.object ≠ v.object)
    (hread : ts.mem.read newEl = some { val := v, next := none, prev := none }) :
    ∃ head searchEl ts' l', ts.head = some head ∧
      searchLoop ts.mem v.purgeTime (Hash.add ts.elementsHash v.object newEl).length head = some searchEl ∧
      insertAt { ts with elementsHash := Hash.add ts.elementsHash v.object newEl } newEl searchEl v.purgeTime =
        some ts' ∧
      Rep { ts' with size := ts'.size + 1 } l' ∧
      listed { ts' with size := ts'.size + 1 } l' =
        { elements := insertElement v (listed ts l).elements, purgeTimeout := ts.purgeTimeout } := by
  rcases List.eq_nil_or_concat l with rfl | ⟨l₀, x, hl⟩
  · exact absurd rfl hne
  rw [List.concat_eq_append] at hl
  have hlen : (Hash.add ts.elementsHash v.object newEl).length = l.length + 1 := by
    rw [Hash.add, List.length_append, hr.indexed.hash.length_eq, List.length_map]
    rfl
  have hturns : l₀.length < (Hash.add ts.elementsHash v.object newEl).length := by
    rw [hlen, hl, List.length_append, List.length_singleton]
    omega
  obtain ⟨l₁, s, l₂, he, hsearch, hl₂, hl₁⟩ := searchLoop_eq v.purgeTime l₀ x (hl ▸ hr.indexed.seg) hturns
  have hls : l = l₁ ++ s :: l₂ := hl.trans he
  have hi := hr.indexed
  rw [hls] at hi hnew hkey
  obtain ⟨mem, la, lb, hins, hcat, hseg, hplace⟩ := @insertAt_eq _
    { ts with elementsHash := Hash.add ts.elementsHash v.object newEl } l₁ l₂ s newEl v hi.seg hi.nodup hnew hread
    (hls ▸ hr.tail) (hls ▸ hr.head) hl₁
  rw [← hcat] at hi hnew hkey
  refine ⟨x.1, s.1, _, la ++ (newEl, v) :: lb, by rw [hr.head, hl, last_concat], hsearch, hins,
    ⟨hi.insert hnew hkey hseg, rfl, rfl, ?_⟩, ?_⟩
  · have hlen' : (la ++ (newEl, v) :: lb).length = l.length + 1 := by
      rw [hls, ← hcat]
      simp
      omega
    rw [hr.size, hlen', UInt32.ofNat_add]
    rfl
  · have hval : ∀ y ∈ l₂.map Prod.snd, v.purgeTime < y.purgeTime := by
      intro y hy
      obtain ⟨z, hz, rfl⟩ := List.mem_map.mp hy
      exact hl₂ z hz
    have helems : (listed ts l).elements = la.map Prod.snd ++ lb.map Prod.snd := by
      rw [listed, hls, ← hcat, List.map_append]
    rw [helems, insertElement_split, listed, List.map_append, List.map_cons]
    · rcases hplace with ⟨rfl, rfl, hle⟩ | ⟨rfl, -⟩
      · intro _
        simpa using hle
      · exact fun h => absurd rfl h
    · rcases hplace with ⟨rfl, rfl, -⟩ | ⟨rfl, hlt⟩
      · exact hval
      · rw [List.nil_append] at hcat
        rw [show lb = s :: l₂ by simpa [hl₁ hlt] using hcat]
        intro y hy
        rcases List.mem_cons.mp hy with rfl | hy
        · exact hlt
        · exact hval y hy

theorem Rep.add {ts : TimeslotT α} {l : List (Nat × TimeslotElement α)} (hr : Rep ts l) [DecidableEq α]
    (hsize : l.length < 4294967296) (M : Malloc) (timestamp currTime : Timeval) (object : α) (lifetime : Timeval) :
    ∃ ts' l' purged, timeslotAddobjectVarpurge M ts timestamp currTime object lifetime = some (ts', purged) ∧
      Rep ts' l' ∧ (listed ts' l', purged) =
        DesAodv.timeslotAddobjectVarpurge (listed ts l) timestamp currTime object lifetime := by
  obtain ⟨hr₀, hnew, hread⟩ := hr.malloc M (lifetime + timestamp) object
  obtain ⟨ts₁, l₁, b, hdel, hr₁, heq, hsub, hframe⟩ := hr₀.delete object
  have hnew₁ := fun h => hnew (hsub h)
  have hread₁ := (hframe _ hnew).trans hread
  obtain ⟨hlist, -⟩ := Prod.mk.inj heq
  have helems : (DesAodv.timeslotDeleteobject (listed ts l) object).1 = listed ts₁ l₁ := hlist.symm
  have hkey : ∀ x ∈ l₁, x.2.object ≠ object := by
    intro x hx
    have hmem : x.2 ∈ (listed ts₁ l₁).elements := List.mem_map_of_mem hx
    rw [hlist] at hmem
    exact (Keyed.mem_erase.mp hmem).2
  have hlen : l₁.length < 4294967296 := by
    have hle := List.length_filter_le (fun el => decide (el.object ≠ object)) (listed ts l).elements
    have hl : (listed ts₁ l₁).elements = (listed ts l).elements.filter fun el => decide (el.object ≠ object) := by
      rw [hlist]
      rfl
    rw [← hl, listed, listed, List.length_map, List.length_map] at hle
    exact Nat.lt_of_le_of_lt hle hsize
  have hsize₁ : ts₁.size = 0 ↔ l₁ = [] := by
    rw [hr₁.size, ofNat_eq_zero hlen, List.length_eq_zero_iff]
  have hlist₁ : (listed ts₁ l₁).elements = [] ↔ l₁ = [] := List.map_eq_nil_iff
  simp only [timeslotAddobjectVarpurge, DesAodv.timeslotAddobjectVarpurge, hdel, helems, hsize₁, hlist₁,
    Option.bind_eq_bind, Option.bind_some]
  by_cases hl₁ : l₁ = []
  · subst hl₁
    rw [if_pos rfl]
    refine ⟨_, [((createNewTsElement M ts.mem (lifetime + timestamp) object).2,
      { purgeTime := lifetime + timestamp, object })], [], rfl, ?_, rfl⟩
    refine ⟨@Indexed.insert _ _ _ _ _ _ [] [] _ { purgeTime := lifetime + timestamp, object } hr₁.indexed
      (by simp) (by simp) ⟨hread₁, trivial⟩, rfl, rfl, rfl⟩
  · obtain ⟨head, searchEl, ts₂, l₂, hhead, hsearch, hins, hr₂, hlist₂⟩ := hr₁.insert hl₁ hnew₁ hkey hread₁
    obtain ⟨ts', l', purged, hpurge, hr', heq'⟩ := hr₂.purge currTime
    refine ⟨ts', l', purged, ?_, hr', ?_⟩
    · rw [if_neg hl₁]
      refine Option.bind_eq_some_iff.mpr ⟨head, hhead, ?_⟩
      refine Option.bind_eq_some_iff.mpr ⟨searchEl, hsearch, ?_⟩
      exact Option.bind_eq_some_iff.mpr ⟨ts₂, hins, hpurge⟩
    · rw [heq', hlist₂, if_neg hl₁]
      rfl

end

end Ptr

end DesAodv
