import DesAodv.LinkedList
import DesAodv.ScheduleTable

/-!
# The schedule table in memory

`aodv_st.c` with its pointers: the schedules are linked nodes from
`first_schedule` on, and `hash_table` finds the node of an address and a type.
-/

namespace DesAodv

namespace Ptr

open Linked

/-- `schedule_t` without its links; `schedule_param` is a `void*`. -/
structure ScheduleEl (π : Type) where
  executeTs : Timeval
  etherAddr : MacAddr
  scheduleId : UInt8
  scheduleParam : π
  deriving DecidableEq, Repr

def ScheduleEl.key {π : Type} (s : ScheduleEl π) : MacAddr × UInt8 := (s.etherAddr, s.scheduleId)

structure ScheduleDb (π : Type) where
  mem : Memory (ListNode (ScheduleEl π))
  firstSchedule : Option Nat
  hashTable : Hash (MacAddr × UInt8)
  deriving DecidableEq, Repr

section
variable {π : Type}

def scheduleDbInit : ScheduleDb π := { mem := Memory.empty, firstSchedule := none, hashTable := [] }

def createSchedule (M : Malloc) (mem : Memory (ListNode (ScheduleEl π))) (executeTs : Timeval) (etherAddr : MacAddr)
    (type : UInt8) (param : π) : Memory (ListNode (ScheduleEl π)) × Nat :=
  mem.malloc M
    { val := { executeTs, etherAddr, scheduleId := type, scheduleParam := param }, next := none, prev := none }

def aodvDbScScheduleExists (db : ScheduleDb π) (etherAddr : MacAddr) (type : UInt8) : Bool :=
  (Hash.find db.hashTable (etherAddr, type)).isSome

def aodvDbScDropschedule (db : ScheduleDb π) (etherAddr : MacAddr) (type : UInt8) : Option (ScheduleDb π × Bool) :=
  match Hash.find db.hashTable (etherAddr, type) with
  | none => some (db, false)
  | some schedule => do
    let sc ← db.mem.read schedule
    let mem ← setNext db.mem sc.prev sc.next
    let firstSchedule := if sc.prev = none then sc.next else db.firstSchedule
    let mem ← setPrev mem sc.next sc.prev
    let mem ← mem.free schedule
    some ({ mem, firstSchedule, hashTable := Hash.del db.hashTable schedule }, true)

/-- The search for the place of a new schedule, cut off after a number of turns. -/
def placeLoop (mem : Memory (ListNode (ScheduleEl π))) (executeTs : Timeval) : Nat → Nat → Option Nat
  | 0, _ => none
  | turns + 1, nextEl => do
    let el ← mem.read nextEl
    match el.next with
    | none => some nextEl
    | some next => if executeTs > el.val.executeTs then placeLoop mem executeTs turns next else some nextEl

/-- `if(prev != NULL) { prev->next = el; el->prev = prev; }` -/
def linkPrev (mem : Memory (ListNode (ScheduleEl π))) (el : Nat) (prev : Option Nat) :
    Option (Memory (ListNode (ScheduleEl π))) :=
  match prev with
  | none => some mem
  | some prev => do
    let mem ← setNext mem (some prev) (some el)
    setPrev mem (some el) (some prev)

/-- `if(next != NULL) { next->prev = el; el->next = next; }` -/
def linkNext (mem : Memory (ListNode (ScheduleEl π))) (el : Nat) (next : Option Nat) :
    Option (Memory (ListNode (ScheduleEl π))) :=
  match next with
  | none => some mem
  | some next => do
    let mem ← setPrev mem (some next) (some el)
    setNext mem (some el) (some next)

/-- Insert the new schedule before `next_el` or after it. -/
def linkAt (db : ScheduleDb π) (el nextEl : Nat) (executeTs : Timeval) : Option (ScheduleDb π) := do
  let next ← db.mem.read nextEl
  if next.val.executeTs > executeTs then
    let mem ← linkPrev db.mem el next.prev
    let mem ← setPrev mem (some nextEl) (some el)
    let mem ← setNext mem (some el) (some nextEl)
    some { db with mem, firstSchedule := if next.prev = none then some el else db.firstSchedule }
  else
    let mem ← linkNext db.mem el next.next
    let mem ← setNext mem (some nextEl) (some el)
    let mem ← setPrev mem (some el) (some nextEl)
    some { db with mem }

def aodvDbScAddschedule (M : Malloc) (db : ScheduleDb π) (executeTs : Timeval) (etherAddr : MacAddr) (type : UInt8)
    (param : π) : Option (ScheduleDb π) := do
  let (db, _) ← aodvDbScDropschedule db etherAddr type
  let nextEl := db.firstSchedule
  let (mem, el) := createSchedule M db.mem executeTs etherAddr type param
  let db := { db with mem, hashTable := Hash.add db.hashTable (etherAddr, type) el }
  match nextEl with
  | none => some { db with firstSchedule := some el }
  | some nextEl => do
    let nextEl ← placeLoop db.mem executeTs db.hashTable.length nextEl
    linkAt db el nextEl executeTs

/-- What is popped: the address, the type and the parameter. -/
def aodvDbScPopschedule (db : ScheduleDb π) (timestamp : Timeval) :
    Option (ScheduleDb π × Option (MacAddr × UInt8 × π)) :=
  match db.firstSchedule with
  | none => some (db, none)
  | some sc => do
    let el ← db.mem.read sc
    if el.val.executeTs ≤ timestamp then
      let mem ← setPrev db.mem el.next none
      let mem ← mem.free sc
      some ({ mem, firstSchedule := el.next, hashTable := Hash.del db.hashTable sc },
        some (el.val.etherAddr, el.val.scheduleId, el.val.scheduleParam))
    else some (db, none)

end

/-- The nodes of `db` are those of `l`, from `first_schedule` on. -/
structure ScheduleRep {π : Type} (db : ScheduleDb π) (l : List (Nat × ScheduleEl π)) : Prop where
  indexed : Indexed ScheduleEl.key db.mem db.hashTable l
  firstSchedule : db.firstSchedule = first l none

section
variable {π : Type} {db : ScheduleDb π} {l l₁ l₂ : List (Nat × ScheduleEl π)}

theorem rep_init : ScheduleRep (scheduleDbInit : ScheduleDb π) [] := ⟨Indexed.empty _, rfl⟩

/-! ## Dropping and popping -/

theorem ScheduleRep.drop_absent (hr : ScheduleRep db l) {etherAddr : MacAddr} {type : UInt8}
    (h : ∀ x ∈ l, x.2.key ≠ (etherAddr, type)) : aodvDbScDropschedule db etherAddr type = some (db, false) := by
  unfold aodvDbScDropschedule
  cases hf : Hash.find db.hashTable (etherAddr, type) with
  | none => rfl
  | some schedule =>
    obtain ⟨l₁, v, l₂, rfl, hk⟩ := hr.indexed.found hf
    exact absurd hk (h (schedule, v) (by simp))

theorem ScheduleRep.drop_present {x : Nat × ScheduleEl π} (hr : ScheduleRep db (l₁ ++ x :: l₂)) :
    ∃ db', aodvDbScDropschedule db x.2.etherAddr x.2.scheduleId = some (db', true) ∧ ScheduleRep db' (l₁ ++ l₂) := by
  have hf : Hash.find db.hashTable (x.2.etherAddr, x.2.scheduleId) = some x.1 :=
    hr.indexed.find_of_mem (x := x) (by simp)
  obtain ⟨m₁, m₂, e₁, e₂, -, hfree, hs, -⟩ := hr.indexed.seg.unlink hr.indexed.nodup
  have hnode := hr.indexed.seg.node
  refine ⟨{
      mem := m₂.drop x.1
      firstSchedule := if last none l₁ = none then first l₂ none else db.firstSchedule
      hashTable := Hash.del db.hashTable x.1 }, ?_, hr.indexed.remove hs, ?_⟩
  · simp only [aodvDbScDropschedule, hf, hnode, Option.bind_eq_bind, Option.bind_some, e₁, e₂, hfree]
  · simp only [hr.firstSchedule]
    cases l₁ with
    | nil => simp
    | cons y l₁ =>
      obtain ⟨a, -, he⟩ := last_mem (x := y) l₁
      simp [last_cons, he]

theorem ScheduleRep.pop_due {x : Nat × ScheduleEl π} (hr : ScheduleRep db (x :: l)) {timestamp : Timeval}
    (hdue : x.2.executeTs ≤ timestamp) :
    ∃ db', aodvDbScPopschedule db timestamp =
        some (db', some (x.2.etherAddr, x.2.scheduleId, x.2.scheduleParam)) ∧ ScheduleRep db' l := by
  obtain ⟨m', e, hfree, hs⟩ := hr.indexed.seg.unlink_first hr.indexed.nodup
  have hnode := hr.indexed.seg.1
  have hfirst : db.firstSchedule = some x.1 := hr.firstSchedule
  refine ⟨{ mem := m'.drop x.1, firstSchedule := first l none, hashTable := Hash.del db.hashTable x.1 }, ?_,
    @Indexed.remove _ _ _ _ _ _ [] l x hr.indexed hs, rfl⟩
  simp only [aodvDbScPopschedule, hfirst, hnode, Option.bind_eq_bind, Option.bind_some, hdue, if_true, e, hfree]

theorem ScheduleRep.pop_none (hr : ScheduleRep db l) {timestamp : Timeval}
    (hnot : ∀ x ∈ l.head?, timestamp < x.2.executeTs) : aodvDbScPopschedule db timestamp = some (db, none) := by
  cases l with
  | nil =>
    have hfirst : db.firstSchedule = none := hr.firstSchedule
    simp only [aodvDbScPopschedule, hfirst]
  | cons x l =>
    have hfirst : db.firstSchedule = some x.1 := hr.firstSchedule
    have hnode := hr.indexed.seg.1
    have hlater : ¬ x.2.executeTs ≤ timestamp := Nat.not_le.mpr (hnot x rfl)
    simp only [aodvDbScPopschedule, hfirst, hnode, Option.bind_eq_bind, Option.bind_some, hlater, if_false]

theorem ScheduleRep.exists_iff (hr : ScheduleRep db l) (etherAddr : MacAddr) (type : UInt8) :
    aodvDbScScheduleExists db etherAddr type = true ↔ ∃ x ∈ l, x.2.key = (etherAddr, type) := by
  unfold aodvDbScScheduleExists
  cases hf : Hash.find db.hashTable (etherAddr, type) with
  | none =>
    refine iff_of_false (by simp) ?_
    intro h
    obtain ⟨x, hx, hk⟩ := h
    exact hr.indexed.absent hf x hx hk
  | some schedule =>
    obtain ⟨l₁, v, l₂, rfl, hk⟩ := hr.indexed.found hf
    exact iff_of_true rfl ⟨(schedule, v), by simp, hk⟩

/-! ## Adding -/

/-- The search ends at the first schedule that is not earlier, or at the last one. -/
theorem placeLoop_eq {mem : Memory (ListNode (ScheduleEl π))} (executeTs : Timeval) (l : List (Nat × ScheduleEl π))
    (x : Nat × ScheduleEl π) {p : Option Nat} (hs : Seg mem p (x :: l) none) {turns : Nat} (ht : l.length < turns) :
    ∃ l₁ s l₂, x :: l = l₁ ++ s :: l₂ ∧ placeLoop mem executeTs turns x.1 = some s.1 ∧
      (∀ y ∈ l₁, y.2.executeTs < executeTs) ∧ (s.2.executeTs < executeTs → l₂ = []) := by
  obtain ⟨turns, rfl⟩ := Nat.exists_eq_add_of_lt ht
  induction l generalizing x p with
  | nil =>
    have hnode : mem.read x.1 = some { val := x.2, next := none, prev := p } := hs.1
    refine ⟨[], x, [], rfl, ?_, by simp, fun _ => rfl⟩
    simp only [placeLoop, hnode, Option.bind_eq_bind, Option.bind_some]
  | cons y l ih =>
    have hnode : mem.read x.1 = some { val := x.2, next := some y.1, prev := p } := hs.1
    by_cases hearlier : executeTs > x.2.executeTs
    · obtain ⟨l₁, s, l₂, he, hsearch, hl₁, hl₂⟩ := ih y hs.2 (by omega)
      refine ⟨x :: l₁, s, l₂, by rw [he]; rfl, ?_, ?_, hl₂⟩
      · have hturns : (y :: l).length + turns = l.length + turns + 1 := by simp; omega
        simp only [placeLoop, hnode, Option.bind_eq_bind, Option.bind_some, hearlier, if_true, hturns]
        exact hsearch
      · intro z hz
        rcases List.mem_cons.mp hz with rfl | hz
        · exact hearlier
        · exact hl₁ z hz
    · refine ⟨[], x, y :: l, rfl, ?_, by simp, fun h => absurd h hearlier⟩
      simp only [placeLoop, hnode, Option.bind_eq_bind, Option.bind_some, hearlier, if_false]

theorem linkPrev_gap {m : Memory (ListNode (ScheduleEl π))} {q p : Option Nat} {a : Nat} {n : ListNode (ScheduleEl π)}
    (g : Gap m l₁ q a n p l₂) (hn : n.prev = none) :
    ∃ m', linkPrev m a (last none l₁) = some m' ∧ Gap m' l₁ (some a) a { n with prev := last none l₁ } p l₂ := by
  rcases List.eq_nil_or_concat l₁ with rfl | ⟨l, x, hl⟩
  · refine ⟨m, rfl, trivial, ?_, g.right, g.nodup⟩
    rw [last_nil, ← hn]
    exact g.node
  · rw [List.concat_eq_append] at hl
    subst hl
    obtain ⟨m₁, e₁, g₁, -⟩ := g.setNext_left (some a)
    obtain ⟨m₂, e₂, g₂⟩ := g₁.setPrev_node (some x.1)
    rw [last_concat] at e₁ ⊢
    exact ⟨m₂, by simp only [linkPrev, e₁, e₂, Option.bind_eq_bind, Option.bind_some], g₂⟩

theorem linkNext_gap {m : Memory (ListNode (ScheduleEl π))} {q p : Option Nat} {a : Nat} {n : ListNode (ScheduleEl π)}
    (g : Gap m l₁ q a n p l₂) (hn : n.next = none) :
    ∃ m', linkNext m a (first l₂ none) = some m' ∧ Gap m' l₁ q a { n with next := first l₂ none } (some a) l₂ := by
  cases l₂ with
  | nil =>
    refine ⟨m, rfl, g.left, ?_, trivial, g.nodup⟩
    rw [first_nil, ← hn]
    exact g.node
  | cons x l =>
    obtain ⟨m₁, e₁, g₁, -⟩ := g.setPrev_right (some a)
    obtain ⟨m₂, e₂, g₂⟩ := g₁.setNext_node (some x.1)
    rw [first_cons] at e₁ ⊢
    exact ⟨m₂, by simp only [linkNext, e₁, e₂, Option.bind_eq_bind, Option.bind_some], g₂⟩

theorem linkAt_eq {s : Nat × ScheduleEl π} {el : Nat} {v : ScheduleEl π}
    (hs : Seg db.mem none (l₁ ++ s :: l₂) none) (hn : (addrs (l₁ ++ s :: l₂)).Nodup)
    (hnew : el ∉ addrs (l₁ ++ s :: l₂)) (hread : db.mem.read el = some { val := v, next := none, prev := none })
    (hfirst : db.firstSchedule = first (l₁ ++ s :: l₂) none) :
    ∃ mem, linkAt db el s.1 v.executeTs =
        some { db with mem, firstSchedule := first (if s.2.executeTs > v.executeTs then l₁ ++ (el, v) :: s :: l₂
          else (l₁ ++ [s]) ++ (el, v) :: l₂) none } ∧
      Seg mem none (if s.2.executeTs > v.executeTs then l₁ ++ (el, v) :: s :: l₂
        else (l₁ ++ [s]) ++ (el, v) :: l₂) none := by
  have hnode := hs.node
  by_cases hlater : s.2.executeTs > v.executeTs
  · rw [if_pos hlater]
    have g := Gap.of_new hs hn hnew hread
    obtain ⟨m₁, e₁, g₁⟩ := linkPrev_gap g rfl
    obtain ⟨m₂, e₂, g₂, -⟩ := g₁.setPrev_right (some el)
    obtain ⟨m₃, e₃, g₃⟩ := g₂.setNext_node (some s.1)
    rw [first_cons] at e₂
    refine ⟨m₃, ?_, g₃.linked rfl rfl⟩
    have hfst : (if last none l₁ = none then some el else db.firstSchedule) =
        first (l₁ ++ (el, v) :: s :: l₂) none := by
      rw [hfirst]
      cases l₁ with
      | nil => simp
      | cons y l₁ =>
        obtain ⟨a, -, he⟩ := last_mem (x := y) l₁
        simp [last_cons, he]
    simp only [linkAt, hnode, Option.bind_eq_bind, Option.bind_some, hlater, if_true, e₁, e₂, e₃, hfst]
  · rw [if_neg hlater]
    have hsplit : l₁ ++ s :: l₂ = (l₁ ++ [s]) ++ l₂ := by simp
    rw [hsplit] at hs hn hnew
    have g := Gap.of_new hs hn hnew hread
    obtain ⟨m₁, e₁, g₁⟩ := linkNext_gap g rfl
    obtain ⟨m₂, e₂, g₂, -⟩ := g₁.setNext_left (some el)
    obtain ⟨m₃, e₃, g₃⟩ := g₂.setPrev_node (some s.1)
    rw [last_concat] at e₂
    refine ⟨m₃, ?_, g₃.linked rfl (last_concat _ _ _).symm⟩
    have hfst : db.firstSchedule = first ((l₁ ++ [s]) ++ (el, v) :: l₂) none := by
      rw [hfirst, hsplit, first_append, first_append]
      cases l₁ <;> rfl
    simp only [linkAt, hnode, Option.bind_eq_bind, Option.bind_some, hlater, if_false, e₁, e₂, e₃, hfst]

/-- A schedule joins the others before the first later one, or behind the first that is as late. -/
def place {V : Type} (time : V → Timeval) (el : V) : List V → List V
  | [] => [el]
  | [x] => if time x > time el then [el, x] else [x, el]
  | x :: y :: rest =>
    if time el > time x then x :: place time el (y :: rest)
    else if time x > time el then el :: x :: y :: rest
    else x :: el :: y :: rest

theorem place_split {V : Type} {time : V → Timeval} {el s : V} {els₁ els₂ : List V}
    (h₁ : ∀ x ∈ els₁, time x < time el) (h₂ : time s < time el → els₂ = []) :
    place time el (els₁ ++ s :: els₂) =
      if time s > time el then els₁ ++ el :: s :: els₂ else els₁ ++ s :: el :: els₂ := by
  induction els₁ with
  | nil =>
    cases els₂ with
    | nil => rfl
    | cons y rest =>
      have hn : ¬ time el > time s := fun h => List.cons_ne_nil _ _ (h₂ h)
      simp [place, hn]
  | cons x els₁ ih =>
    have hx : time el > time x := h₁ x List.mem_cons_self
    have htail := ih fun y hy => h₁ y (List.mem_cons_of_mem _ hy)
    obtain ⟨y, rest, he⟩ : ∃ y rest, els₁ ++ s :: els₂ = y :: rest := by
      cases els₁ with
      | nil => exact ⟨s, els₂, rfl⟩
      | cons y els₁ => exact ⟨y, els₁ ++ s :: els₂, rfl⟩
    rw [List.cons_append, he, place, if_pos hx, ← he, htail]
    split <;> rfl

theorem ScheduleRep.drop (hr : ScheduleRep db l) (etherAddr : MacAddr) (type : UInt8) :
    ∃ db' l' b, aodvDbScDropschedule db etherAddr type = some (db', b) ∧ ScheduleRep db' l' ∧
      l'.map Prod.snd = Keyed.erase ScheduleEl.key (etherAddr, type) (l.map Prod.snd) ∧
      (b = true ↔ ∃ x ∈ l, x.2.key = (etherAddr, type)) := by
  by_cases h : ∃ x ∈ l, x.2.key = (etherAddr, type)
  · obtain ⟨x, hx, hk⟩ := h
    obtain ⟨l₁, l₂, rfl⟩ := List.append_of_mem hx
    obtain ⟨rfl, rfl⟩ := Prod.mk.inj hk
    obtain ⟨db', hd, hr'⟩ := hr.drop_present
    exact ⟨db', l₁ ++ l₂, true, hd, hr', hr.indexed.erase_node.symm, iff_of_true rfl ⟨x, hx, rfl⟩⟩
  · have habs : ∀ x ∈ l, x.2.key ≠ (etherAddr, type) := fun x hx hk => h ⟨x, hx, hk⟩
    exact ⟨db, l, false, hr.drop_absent habs, hr, (Indexed.erase_none habs).symm, iff_of_false (by simp) h⟩

theorem ScheduleRep.add (hr : ScheduleRep db l) (M : Malloc) (executeTs : Timeval) (etherAddr : MacAddr)
    (type : UInt8) (param : π) :
    let el : ScheduleEl π := { executeTs, etherAddr, scheduleId := type, scheduleParam := param }
    ∃ db' l', aodvDbScAddschedule M db executeTs etherAddr type param = some db' ∧ ScheduleRep db' l' ∧
      l'.map Prod.snd =
        place ScheduleEl.executeTs el (Keyed.erase ScheduleEl.key (etherAddr, type) (l.map Prod.snd)) := by
  intro el
  obtain ⟨db₁, l₁, b, hdrop, hr₁, hl₁, -⟩ := hr.drop etherAddr type
  have hkey : ∀ x ∈ l₁, x.2.key ≠ el.key := by
    intro x hx
    have hmem : x.2 ∈ l₁.map Prod.snd := List.mem_map_of_mem hx
    rw [hl₁] at hmem
    exact (Keyed.mem_erase.mp hmem).2
  let a := (createSchedule M db₁.mem executeTs etherAddr type param).2
  let mem := (createSchedule M db₁.mem executeTs etherAddr type param).1
  have hfresh : a ∉ addrs l₁ := fun h => hr₁.indexed.seg.live h (Memory.read_fresh M db₁.mem)
  have hread : mem.read a = some { val := el, next := none, prev := none } := Memory.read_put_self _ _ _
  have hseg : Seg mem none l₁ none := by
    apply hr₁.indexed.seg.frame
    intro c hc
    exact Memory.read_put_ne (ne_of_mem_of_not_mem hc hfresh)
  have hi : Indexed ScheduleEl.key mem db₁.hashTable l₁ :=
    ⟨hseg, hr₁.indexed.nodup, hr₁.indexed.keys, hr₁.indexed.hash⟩
  simp only [aodvDbScAddschedule, hdrop, Option.bind_eq_bind, Option.bind_some, hr₁.firstSchedule]
  cases l₁ with
  | nil =>
    refine ⟨_, [(a, el)], rfl, ⟨?_, rfl⟩, ?_⟩
    · exact @Indexed.insert _ _ _ _ _ _ [] [] a el hi hfresh hkey ⟨hread, trivial⟩
    · rw [← hl₁]
      rfl
  | cons x l₁ =>
    have hlen : (Hash.add db₁.hashTable (etherAddr, type) a).length = l₁.length + 2 := by
      rw [Hash.add, List.length_append, hr₁.indexed.hash.length_eq, List.length_map]
      rfl
    have hturns : l₁.length < (Hash.add db₁.hashTable (etherAddr, type) a).length := by omega
    obtain ⟨la, s, lb, he, hsearch, hla, hlb⟩ := placeLoop_eq executeTs l₁ x hseg hturns
    rw [he] at hi hfresh hkey
    obtain ⟨mem', hlink, hseg'⟩ := @linkAt_eq _
      { mem, firstSchedule := first (x :: l₁) none, hashTable := Hash.add db₁.hashTable (etherAddr, type) a }
      la lb s a el hi.seg hi.nodup hfresh hread (congrArg (fun l => first l none) he)
    let l' := if s.2.executeTs > executeTs then la ++ (a, el) :: s :: lb else (la ++ [s]) ++ (a, el) :: lb
    have hsegl' : Seg mem' none l' none := hseg'
    have hplaced : place ScheduleEl.executeTs el ((x :: l₁).map Prod.snd) = l'.map Prod.snd := by
      have hla' : ∀ y ∈ la.map Prod.snd, y.executeTs < executeTs := by
        intro y hy
        obtain ⟨z, hz, rfl⟩ := List.mem_map.mp hy
        exact hla z hz
      rw [he, List.map_append, List.map_cons, place_split hla' fun h => by rw [hlb h]; rfl]
      by_cases hlater : s.2.executeTs > executeTs
      · simp [l', el, hlater]
      · simp [l', el, hlater]
    refine ⟨{ db₁ with
        mem := mem'
        hashTable := Hash.add db₁.hashTable (etherAddr, type) a
        firstSchedule := first l' none }, l', ?_, ⟨?_, rfl⟩, ?_⟩
    · exact Option.bind_eq_some_iff.mpr ⟨s.1, hsearch, hlink⟩
    · by_cases hlater : s.2.executeTs > executeTs
      · simp only [l', if_pos hlater] at hsegl' ⊢
        exact hi.insert hfresh hkey hsegl'
      · have hsplit : la ++ s :: lb = (la ++ [s]) ++ lb := by simp
        rw [hsplit] at hi hfresh hkey
        simp only [l', if_neg hlater] at hsegl' ⊢
        exact hi.insert hfresh hkey hsegl'
    · rw [← hl₁, hplaced]

end

/-! ## The list of schedules -/

/-- The values of the `AODV_SC_` constants. -/
def scheduleTypeId : ScheduleType → UInt8
  | .repeatRreq => 2
  | .sendOutRerr => 3
  | .sendOutRwarn => 4
  | .updateRssi => 5

def scheduleEl (sc : Schedule) : ScheduleEl ScheduleParam :=
  { executeTs := sc.executeTs, etherAddr := sc.etherAddr, scheduleId := scheduleTypeId sc.scheduleId
    scheduleParam := sc.scheduleParam }

theorem scheduleEl_key {sc : Schedule} {etherAddr : MacAddr} {type : ScheduleType} :
    (scheduleEl sc).key = (etherAddr, scheduleTypeId type) ↔ sc.key = (etherAddr, type) := by
  rw [ScheduleEl.key, Schedule.key, Prod.mk.injEq, Prod.mk.injEq]
  refine and_congr_right fun _ => ?_
  cases hs : sc.scheduleId <;> cases type <;> simp [scheduleEl, scheduleTypeId, hs]

theorem insertSchedule_eq_place (el : Schedule) (st : List Schedule) :
    insertSchedule el st = place Schedule.executeTs el st := by
  induction st with
  | nil => rfl
  | cons x st ih =>
    cases st with
    | nil => rfl
    | cons y st => simp only [insertSchedule, place, ih]

theorem map_place {V W : Type} {time : V → Timeval} {time' : W → Timeval} {f : V → W} (h : ∀ v, time' (f v) = time v)
    (el : V) (els : List V) : (place time el els).map f = place time' (f el) (els.map f) := by
  induction els with
  | nil => rfl
  | cons x els ih =>
    cases els with
    | nil =>
      simp only [place, List.map_cons, List.map_nil, h]
      split <;> rfl
    | cons y els =>
      simp only [place, List.map_cons, h] at ih ⊢
      split
      · rw [List.map_cons, ih]
      · split <;> rfl

theorem map_erase (etherAddr : MacAddr) (type : ScheduleType) (st : List Schedule) :
    (Keyed.erase Schedule.key (etherAddr, type) st).map scheduleEl =
      Keyed.erase ScheduleEl.key (etherAddr, scheduleTypeId type) (st.map scheduleEl) := by
  unfold Keyed.erase
  rw [List.filter_map]
  congr 1
  apply List.filter_congr
  intro sc _
  rw [Function.comp_apply, decide_eq_decide]
  exact not_congr scheduleEl_key.symm

section
variable {db : ScheduleDb ScheduleParam} {l : List (Nat × ScheduleEl ScheduleParam)} {st : List Schedule}
  (hr : ScheduleRep db l) (hst : l.map Prod.snd = st.map scheduleEl)
include hr hst

/-- `aodv_db_sc_addschedule` in memory is `aodvDbScAddschedule` on the list. -/
theorem addschedule_listed (M : Malloc) (executeTs : Timeval) (etherAddr : MacAddr) (type : ScheduleType)
    (param : ScheduleParam) :
    ∃ db' l', aodvDbScAddschedule M db executeTs etherAddr (scheduleTypeId type) param = some db' ∧
      ScheduleRep db' l' ∧
      l'.map Prod.snd = (DesAodv.aodvDbScAddschedule st executeTs etherAddr type param).map scheduleEl := by
  obtain ⟨db', l', hadd, hr', hl'⟩ := hr.add M executeTs etherAddr (scheduleTypeId type) param
  refine ⟨db', l', hadd, hr', ?_⟩
  rw [hl', hst, ← map_erase, DesAodv.aodvDbScAddschedule, insertSchedule_eq_place]
  have htime : ∀ sc : Schedule, (scheduleEl sc).executeTs = sc.executeTs := fun _ => rfl
  exact (map_place htime { executeTs, etherAddr, scheduleId := type, scheduleParam := param } _).symm

theorem dropschedule_listed (etherAddr : MacAddr) (type : ScheduleType) :
    ∃ db' l', aodvDbScDropschedule db etherAddr (scheduleTypeId type) =
        some (db', (DesAodv.aodvDbScDropschedule st etherAddr type).2) ∧
      ScheduleRep db' l' ∧ l'.map Prod.snd = (DesAodv.aodvDbScDropschedule st etherAddr type).1.map scheduleEl := by
  obtain ⟨db', l', b, hdrop, hr', hl', hb⟩ := hr.drop etherAddr (scheduleTypeId type)
  have hfound : b = (DesAodv.aodvDbScDropschedule st etherAddr type).2 := by
    rw [Bool.eq_iff_iff, hb, DesAodv.aodvDbScDropschedule, Option.isSome_iff_ne_none, ne_eq, Keyed.lookup_eq_none]
    simp only [not_forall, not_not, exists_prop]
    constructor
    · intro h
      obtain ⟨x, hx, hk⟩ := h
      have hmem : x.2 ∈ st.map scheduleEl := hst ▸ List.mem_map_of_mem hx
      obtain ⟨sc, hsc, he⟩ := List.mem_map.mp hmem
      exact ⟨sc, hsc, scheduleEl_key.mp (he ▸ hk)⟩
    · intro h
      obtain ⟨sc, hsc, hk⟩ := h
      have hmem : scheduleEl sc ∈ l.map Prod.snd := hst ▸ List.mem_map_of_mem hsc
      obtain ⟨x, hx, he⟩ := List.mem_map.mp hmem
      exact ⟨x, hx, he ▸ scheduleEl_key.mpr hk⟩
  rw [← hfound]
  refine ⟨db', l', hdrop, hr', ?_⟩
  rw [hl', hst, ← map_erase]
  rfl

theorem popschedule_listed (timestamp : Timeval) :
    (∃ sc rest db' l', DesAodv.aodvDbScPopschedule st timestamp = some (sc, rest) ∧
        aodvDbScPopschedule db timestamp =
          some (db', some (sc.etherAddr, scheduleTypeId sc.scheduleId, sc.scheduleParam)) ∧
        ScheduleRep db' l' ∧ l'.map Prod.snd = rest.map scheduleEl) ∨
      DesAodv.aodvDbScPopschedule st timestamp = none ∧ aodvDbScPopschedule db timestamp = some (db, none) := by
  cases st with
  | nil =>
    obtain rfl := List.map_eq_nil_iff.mp hst
    exact .inr ⟨rfl, hr.pop_none (by simp)⟩
  | cons sc rest =>
    cases l with
    | nil => cases hst
    | cons x l =>
      obtain ⟨hx, hl⟩ := List.cons.inj hst
      have htime : x.2.executeTs = sc.executeTs := congrArg ScheduleEl.executeTs hx
      by_cases hdue : sc.executeTs ≤ timestamp
      · obtain ⟨db', hpop, hr'⟩ := hr.pop_due (htime ▸ hdue)
        refine .inl ⟨sc, rest, db', l, if_pos hdue, ?_, hr', hl⟩
        rw [hpop, hx]
        rfl
      · refine .inr ⟨if_neg hdue, hr.pop_none ?_⟩
        intro y hy
        rw [← Option.some.inj hy, htime]
        exact Nat.lt_of_not_le hdue

end

end Ptr

end DesAodv
