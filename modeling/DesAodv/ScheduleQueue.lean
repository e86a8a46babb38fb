import DesAodv.Deadlines
import DesAodv.Runs
import DesAodv.ScheduleLinks

/-!
# The schedule table as a queue

What the schedule table is for: it keeps an execution time and a parameter for
each address and type, and gives back an entry with the earliest time that has
come.
-/

namespace DesAodv

open Deadlines Ptr

inductive ScOp (π : Type)
  | addschedule (executeTs : Timeval) (etherAddr : MacAddr) (type : UInt8) (param : π)
  | popschedule (timestamp : Timeval)
  | scheduleExists (etherAddr : MacAddr) (type : UInt8)
  | dropschedule (etherAddr : MacAddr) (type : UInt8)
  deriving DecidableEq, Repr

/-- What a call returns; `popped` is the result of a pop. -/
inductive ScAnswer (π : Type)
  | result (result : Bool)
  | popped (entry : Option (MacAddr × UInt8 × π))
  deriving DecidableEq, Repr

/-- The entry under an address and a type: its time and its parameter. -/
abbrev ScheduleMap (π : Type) := MacAddr × UInt8 → Option (Timeval × π)

namespace ScheduleMap
variable {π : Type}

def times (q : ScheduleMap π) (k : MacAddr × UInt8) : Option Timeval := (q k).map Prod.fst

/-- From the map `q`, a call may answer so and leave the map `q'`. -/
def Follows (q : ScheduleMap π) (op : ScOp π) (answer : ScAnswer π) (q' : ScheduleMap π) : Prop :=
  match op with
  | .addschedule executeTs etherAddr type param =>
    answer = .result true ∧ q' = Function.update q (etherAddr, type) (some (executeTs, param))
  | .popschedule timestamp =>
    (∃ etherAddr type param, answer = .popped (some (etherAddr, type, param)) ∧
        Earliest q.times timestamp (etherAddr, type) ∧ (q (etherAddr, type)).map Prod.snd = some param ∧
        q' = Function.update q (etherAddr, type) none) ∨
      answer = .popped none ∧ (∀ k t, q.times k = some t → timestamp < t) ∧ q' = q
  | .scheduleExists etherAddr type => answer = .result (q (etherAddr, type)).isSome ∧ q' = q
  | .dropschedule etherAddr type =>
    answer = .result (q (etherAddr, type)).isSome ∧ q' = Function.update q (etherAddr, type) none

def FollowsAll : ScheduleMap π → List (ScOp π) → List (ScAnswer π) → ScheduleMap π → Prop
  | q, [], answers, q' => answers = [] ∧ q' = q
  | q, op :: ops, answers, q' =>
    ∃ answer rest q₁, answers = answer :: rest ∧ q.Follows op answer q₁ ∧ FollowsAll q₁ ops rest q'

end ScheduleMap

namespace ScOp
variable {π : Type}

def call (M : Malloc) (db : ScheduleDb π) : ScOp π → Option (ScheduleDb π × ScAnswer π)
  | addschedule executeTs etherAddr type param =>
    (Ptr.aodvDbScAddschedule M db executeTs etherAddr type param).map fun db => (db, .result true)
  | popschedule timestamp => (Ptr.aodvDbScPopschedule db timestamp).map fun r => (r.1, .popped r.2)
  | scheduleExists etherAddr type => some (db, .result (Ptr.aodvDbScScheduleExists db etherAddr type))
  | dropschedule etherAddr type => (Ptr.aodvDbScDropschedule db etherAddr type).map fun r => (r.1, .result r.2)

def run (M : Malloc) : ScheduleDb π → List (ScOp π) → Option (ScheduleDb π × List (ScAnswer π))
  | db, [] => some (db, [])
  | db, op :: ops => do
    let (db, answer) ← op.call M db
    let (db, answers) ← run M db ops
    some (db, answer :: answers)

end ScOp

/-- The entry under an address and a type, found through the hash table. -/
def Ptr.ScheduleDb.entries {π : Type} (db : ScheduleDb π) : ScheduleMap π := fun k => do
  let a ← Linked.Hash.find db.hashTable k
  let el ← db.mem.read a
  some (el.val.executeTs, el.val.scheduleParam)

/-- The list and the hash table hold the nodes `l`, linked both ways from `first_schedule` on and in the
order of the execution times. -/
structure WellLinked {π : Type} (db : ScheduleDb π) (l : List (Nat × ScheduleEl π)) : Prop where
  rep : ScheduleRep db l
  sorted : l.Pairwise fun x y => x.2.executeTs ≤ y.2.executeTs

/-! ## The place of a schedule -/

section
variable {V : Type} {time : V → Timeval}

theorem place_perm (el : V) (els : List V) : (place time el els).Perm (el :: els) := by
  induction els with
  | nil => exact List.Perm.refl _
  | cons x els ih =>
    cases els with
    | nil =>
      rw [place]
      split
      · exact List.Perm.refl _
      · exact List.Perm.swap _ _ _
    | cons y els =>
      rw [place]
      split
      · exact (ih.cons x).trans (List.Perm.swap _ _ _)
      · split
        · exact List.Perm.refl _
        · exact List.Perm.swap _ _ _

theorem place_sorted {el : V} {els : List V} (hs : els.Pairwise fun x y => time x ≤ time y) :
    (place time el els).Pairwise fun x y => time x ≤ time y := by
  induction els with
  | nil => exact List.pairwise_singleton _ _
  | cons x els ih =>
    obtain ⟨hx, hels⟩ := List.pairwise_cons.mp hs
    cases els with
    | nil =>
      rw [place]
      split
      · rename_i h
        exact List.pairwise_pair.mpr (Nat.le_of_lt h)
      · rename_i h
        exact List.pairwise_pair.mpr (Nat.le_of_not_lt h)
    | cons y els =>
      rw [place]
      split
      · rename_i h
        refine List.pairwise_cons.mpr ⟨?_, ih hels⟩
        intro z hz
        rcases List.mem_cons.mp ((place_perm el (y :: els)).subset hz) with rfl | hz
        · exact Nat.le_of_lt h
        · exact hx z hz
      · rename_i hle
        have hlex : time el ≤ time x := Nat.le_of_not_lt hle
        have hall : ∀ z ∈ y :: els, time el ≤ time z := fun z hz => Nat.le_trans hlex (hx z hz)
        split
        · refine List.pairwise_cons.mpr ⟨?_, hs⟩
          intro z hz
          rcases List.mem_cons.mp hz with rfl | hz
          · exact hlex
          · exact hall z hz
        · rename_i hge
          refine List.pairwise_cons.mpr ⟨?_, List.pairwise_cons.mpr ⟨hall, hels⟩⟩
          intro z hz
          rcases List.mem_cons.mp hz with rfl | hz
          · exact Nat.le_of_not_lt hge
          · exact hx z hz

end

/-! ## The map of a list -/

section
variable {π : Type}

def mapOf (els : List (ScheduleEl π)) : ScheduleMap π := fun k =>
  (Keyed.lookup ScheduleEl.key k els).map fun el => (el.executeTs, el.scheduleParam)

theorem mapOf_erase (els : List (ScheduleEl π)) (k : MacAddr × UInt8) :
    mapOf (Keyed.erase ScheduleEl.key k els) = Function.update (mapOf els) k none := by
  funext k'
  by_cases h : k' = k
  · subst h
    rw [Function.update_self, mapOf, Keyed.lookup_erase_self, Option.map_none]
  · rw [Function.update_of_ne h, mapOf, Keyed.lookup_erase_ne _ (Ne.symm h), mapOf]

theorem mapOf_cons (el : ScheduleEl π) (els : List (ScheduleEl π)) :
    mapOf (el :: els) = Function.update (mapOf els) el.key (some (el.executeTs, el.scheduleParam)) := by
  funext k
  have hcons : Keyed.lookup ScheduleEl.key k ([el] ++ els) = _ := Keyed.lookup_append k [el] els
  rw [List.singleton_append, Keyed.lookup_singleton] at hcons
  rw [mapOf, hcons]
  by_cases h : k = el.key
  · subst h
    simp
  · have h' : ¬ el.key = k := fun he => h he.symm
    rw [Function.update_of_ne h, if_neg h', Option.none_or, mapOf]

theorem mapOf_place {el : ScheduleEl π} {els : List (ScheduleEl π)} (hn : (els.map ScheduleEl.key).Nodup)
    (hk : ∀ x ∈ els, x.key ≠ el.key) :
    mapOf (place ScheduleEl.executeTs el els) =
      Function.update (mapOf els) el.key (some (el.executeTs, el.scheduleParam)) := by
  have hnd : ((el :: els).map ScheduleEl.key).Nodup := by
    refine List.nodup_cons.mpr ⟨?_, hn⟩
    intro h
    obtain ⟨x, hx, he⟩ := List.mem_map.mp h
    exact hk x hx he
  rw [← mapOf_cons]
  funext k
  rw [mapOf, Keyed.lookup_perm hnd (place_perm el els).symm]
  rfl

theorem mapOf_isSome {els : List (ScheduleEl π)} {k : MacAddr × UInt8} :
    (mapOf els k).isSome = true ↔ ∃ el ∈ els, el.key = k := by
  rw [mapOf, Option.isSome_map, Option.isSome_iff_ne_none, ne_eq, Keyed.lookup_eq_none]
  simp

theorem entries_eq {db : ScheduleDb π} {l : List (Nat × ScheduleEl π)} (hr : ScheduleRep db l) :
    db.entries = mapOf (l.map Prod.snd) := by
  funext k
  cases hf : Linked.Hash.find db.hashTable k with
  | none =>
    have habs : ∀ el ∈ l.map Prod.snd, el.key ≠ k := by
      intro el hel
      obtain ⟨x, hx, rfl⟩ := List.mem_map.mp hel
      exact hr.indexed.absent hf x hx
    rw [Ptr.ScheduleDb.entries, hf, mapOf, Keyed.lookup_eq_none.mpr habs]
    rfl
  | some a =>
    obtain ⟨l₁, v, l₂, rfl, rfl⟩ := hr.indexed.found hf
    have hnode := hr.indexed.seg.node
    have hmem : v ∈ (l₁ ++ (a, v) :: l₂).map Prod.snd := List.mem_map.mpr ⟨(a, v), by simp, rfl⟩
    rw [mapOf, Keyed.lookup_of_mem hr.indexed.values_nodup hmem]
    simp only [Ptr.ScheduleDb.entries, hf, hnode, Option.bind_eq_bind, Option.bind_some, Option.map_some]

theorem entries_isSome {db : ScheduleDb π} {l : List (Nat × ScheduleEl π)} (hr : ScheduleRep db l)
    {k : MacAddr × UInt8} : (db.entries k).isSome = true ↔ ∃ x ∈ l, x.2.key = k := by
  rw [entries_eq hr, mapOf_isSome]
  constructor
  · intro h
    obtain ⟨el, hel, hk⟩ := h
    obtain ⟨x, hx, rfl⟩ := List.mem_map.mp hel
    exact ⟨x, hx, hk⟩
  · intro h
    obtain ⟨x, hx, hk⟩ := h
    exact ⟨x.2, List.mem_map_of_mem hx, hk⟩

theorem sorted_values {l : List (Nat × ScheduleEl π)} :
    (l.map Prod.snd).Pairwise (fun x y => x.executeTs ≤ y.executeTs) ↔
      l.Pairwise fun x y => x.2.executeTs ≤ y.2.executeTs := List.pairwise_map

/-! ## Calls -/

section
variable {db : ScheduleDb π} {l : List (Nat × ScheduleEl π)} (hw : WellLinked db l)
include hw

theorem WellLinked.add (M : Malloc) (executeTs : Timeval) (etherAddr : MacAddr) (type : UInt8) (param : π) :
    ∃ db' l', Ptr.aodvDbScAddschedule M db executeTs etherAddr type param = some db' ∧ WellLinked db' l' ∧
      db'.entries = Function.update db.entries (etherAddr, type) (some (executeTs, param)) := by
  obtain ⟨db', l', hadd, hr', hl'⟩ := hw.rep.add M executeTs etherAddr type param
  let el : ScheduleEl π := { executeTs, etherAddr, scheduleId := type, scheduleParam := param }
  let others := Keyed.erase ScheduleEl.key el.key (l.map Prod.snd)
  have hl : l'.map Prod.snd = place ScheduleEl.executeTs el others := hl'
  refine ⟨db', l', hadd, ⟨hr', ?_⟩, ?_⟩
  · rw [← sorted_values, hl]
    exact place_sorted ((sorted_values.mpr hw.sorted).sublist List.filter_sublist)
  · have hk : ∀ x ∈ others, x.key ≠ el.key := fun x hx => (Keyed.mem_erase.mp hx).2
    rw [entries_eq hr', entries_eq hw.rep, hl, mapOf_place (Keyed.nodup_erase hw.rep.indexed.values_nodup _) hk,
      mapOf_erase]
    exact Function.update_idem _ _ _

theorem WellLinked.drop (etherAddr : MacAddr) (type : UInt8) :
    ∃ db' l', Ptr.aodvDbScDropschedule db etherAddr type = some (db', (db.entries (etherAddr, type)).isSome) ∧
      WellLinked db' l' ∧ db'.entries = Function.update db.entries (etherAddr, type) none := by
  obtain ⟨db', l', b, hdrop, hr', hl', hb⟩ := hw.rep.drop etherAddr type
  have hfound : b = (db.entries (etherAddr, type)).isSome := by
    rw [Bool.eq_iff_iff, hb, entries_isSome hw.rep]
  rw [← hfound]
  refine ⟨db', l', hdrop, ⟨hr', ?_⟩, ?_⟩
  · rw [← sorted_values, hl']
    exact (sorted_values.mpr hw.sorted).sublist List.filter_sublist
  · rw [entries_eq hr', entries_eq hw.rep, hl', mapOf_erase]

theorem WellLinked.pop (timestamp : Timeval) :
    (∃ db' l' etherAddr type param,
        Ptr.aodvDbScPopschedule db timestamp = some (db', some (etherAddr, type, param)) ∧ WellLinked db' l' ∧
        Earliest db.entries.times timestamp (etherAddr, type) ∧
        (db.entries (etherAddr, type)).map Prod.snd = some param ∧
        db'.entries = Function.update db.entries (etherAddr, type) none) ∨
      Ptr.aodvDbScPopschedule db timestamp = some (db, none) ∧
        ∀ k t, db.entries.times k = some t → timestamp < t := by
  have htimes : ∀ k t, db.entries.times k = some t → ∃ x ∈ l, x.2.key = k ∧ x.2.executeTs = t := by
    intro k t h
    rw [ScheduleMap.times, entries_eq hw.rep, mapOf, Option.map_map] at h
    obtain ⟨el, hel, rfl⟩ := Option.map_eq_some_iff.mp h
    obtain ⟨x, hx, rfl⟩ := List.mem_map.mp (Keyed.lookup_mem hel)
    exact ⟨x, hx, Keyed.lookup_key hel, rfl⟩
  cases l with
  | nil =>
    refine .inr ⟨hw.rep.pop_none (by simp), ?_⟩
    intro k t h
    obtain ⟨x, hx, -⟩ := htimes k t h
    cases hx
  | cons x l =>
    have hmin : ∀ y ∈ x :: l, x.2.executeTs ≤ y.2.executeTs := by
      intro y hy
      rcases List.mem_cons.mp hy with rfl | hy
      · exact Nat.le_refl _
      · exact (List.pairwise_cons.mp hw.sorted).1 y hy
    by_cases hdue : x.2.executeTs ≤ timestamp
    · obtain ⟨db', hpop, hr'⟩ := hw.rep.pop_due hdue
      have hentry : db.entries x.2.key = some (x.2.executeTs, x.2.scheduleParam) := by
        rw [entries_eq hw.rep, List.map_cons, mapOf_cons, Function.update_self]
      have hrest : mapOf (l.map Prod.snd) = Function.update db.entries x.2.key none := by
        have herase := @Linked.Indexed.erase_node _ _ _ _ _ [] l _ x hw.rep.indexed
        rw [entries_eq hw.rep, ← mapOf_erase]
        exact congrArg mapOf herase.symm
      refine .inl ⟨db', l, _, _, _, hpop, ⟨hr', (List.pairwise_cons.mp hw.sorted).2⟩,
        ⟨x.2.executeTs, ?_, hdue, ?_⟩, ?_, ?_⟩
      · exact congrArg (Option.map Prod.fst) hentry
      · intro k t h
        obtain ⟨y, hy, -, rfl⟩ := htimes k t h
        exact hmin y hy
      · exact congrArg (Option.map Prod.snd) hentry
      · exact (entries_eq hr').trans hrest
    · refine .inr ⟨hw.rep.pop_none ?_, ?_⟩
      · intro y hy
        rw [← Option.some.inj hy]
        exact Nat.lt_of_not_le hdue
      · intro k t h
        obtain ⟨y, hy, -, rfl⟩ := htimes k t h
        exact Nat.lt_of_lt_of_le (Nat.lt_of_not_le hdue) (hmin y hy)

theorem WellLinked.call (M : Malloc) (op : ScOp π) :
    ∃ db' answer l', op.call M db = some (db', answer) ∧ WellLinked db' l' ∧
      db.entries.Follows op answer db'.entries := by
  cases op with
  | addschedule executeTs etherAddr type param =>
    obtain ⟨db', l', hadd, hw', he⟩ := hw.add M executeTs etherAddr type param
    exact ⟨db', .result true, l', by rw [ScOp.call, hadd]; rfl, hw', rfl, he⟩
  | popschedule timestamp =>
    rcases hw.pop timestamp with ⟨db', l', etherAddr, type, param, hpop, hw', hfirst, hparam, he⟩ | ⟨hpop, hnone⟩
    · exact ⟨db', _, l', by rw [ScOp.call, hpop]; rfl, hw', .inl ⟨_, _, _, rfl, hfirst, hparam, he⟩⟩
    · exact ⟨db, _, l, by rw [ScOp.call, hpop]; rfl, hw, .inr ⟨rfl, hnone, rfl⟩⟩
  | scheduleExists etherAddr type =>
    refine ⟨db, _, l, rfl, hw, ?_, rfl⟩
    rw [ScAnswer.result.injEq, Bool.eq_iff_iff, hw.rep.exists_iff, entries_isSome hw.rep]
  | dropschedule etherAddr type =>
    obtain ⟨db', l', hdrop, hw', he⟩ := hw.drop etherAddr type
    exact ⟨db', _, l', by rw [ScOp.call, hdrop]; rfl, hw', rfl, he⟩

theorem WellLinked.run (M : Malloc) (ops : List (ScOp π)) :
    ∃ db' answers l', ScOp.run M db ops = some (db', answers) ∧ WellLinked db' l' ∧
      db.entries.FollowsAll ops answers db'.entries := by
  induction ops generalizing db l with
  | nil => exact ⟨db, [], l, rfl, hw, rfl, rfl⟩
  | cons op ops ih =>
    obtain ⟨db₁, answer, l₁, hcall, hw₁, hf⟩ := hw.call M op
    obtain ⟨db', answers, l', hrun, hw', hfs⟩ := ih hw₁
    refine ⟨db', answer :: answers, l', ?_, hw', answer, answers, db₁.entries, rfl, hf, hfs⟩
    simp only [ScOp.run, hcall, hrun, Option.bind_eq_bind, Option.bind_some]

end

/-- The schedule table in memory is a keyed queue, and stays well linked. -/
theorem ScOp.run_refines_queue (M : Malloc) (ops : List (ScOp π)) :
    ∃ db answers l, ScOp.run M scheduleDbInit ops = some (db, answers) ∧ WellLinked db l ∧
      ScheduleMap.FollowsAll (fun _ => none) ops answers db.entries := by
  have hw : WellLinked (scheduleDbInit : ScheduleDb π) [] := ⟨rep_init, List.Pairwise.nil⟩
  obtain ⟨db, answers, l, hrun, hw', hf⟩ := hw.run M ops
  refine ⟨db, answers, l, hrun, hw', ?_⟩
  rw [entries_eq rep_init] at hf
  exact hf

end

end DesAodv
