import DesAodv.TimeslotMap

/-!
# The links of a timeslot

What the structures of `timeslot.c` look like between two calls: the list can be
walked from both ends, its elements are in the order of their purge times, the
hash table has the same elements, and the size is their number.
-/

namespace DesAodv

open Deadlines Linked

namespace Ptr

/-- The nodes of the timeslot are those of `l`, from the tail to the head. -/
structure Shape {α : Type} (ts : TimeslotT α) (l : List (Nat × TimeslotElement α)) : Prop where
  element : ∀ x ∈ l, (ts.mem.read x.1).map ListNode.val = some x.2
  /-- From the tail by `next` to a NULL. -/
  forwards : Walk (nextOf ts.mem) ts.tail (addrs l)
  /-- From the head by `prev` to a NULL. -/
  backwards : Walk (prevOf ts.mem) ts.head (addrs l).reverse
  links : ∀ a ∈ addrs l, ∀ b ∈ addrs l, nextOf ts.mem a = some (some b) ↔ prevOf ts.mem b = some (some a)
  tail_null : ts.tail = none ↔ l = []
  head_null : ts.head = none ↔ l = []
  sorted : l.Pairwise fun x y => x.2.purgeTime ≤ y.2.purgeTime
  distinct : (addrs l).Nodup
  once : (l.map fun x => x.2.object).Nodup
  hash : ts.elementsHash.Perm (l.map fun x => (x.2.object, x.1))
  size : ts.size.toNat = l.length

theorem Rep.shape {α : Type} {ts : TimeslotT α} {l : List (Nat × TimeslotElement α)} (hr : Rep ts l)
    (ho : (listed ts l).Ordered) (hsize : l.length < 2 ^ 32) : Shape ts l where
  element x hx := by
    obtain ⟨l₁, l₂, rfl⟩ := List.append_of_mem hx
    rw [hr.indexed.seg.node, Option.map_some]
  forwards := by
    rw [hr.tail]
    exact hr.indexed.seg.walk_next
  backwards := by
    rw [hr.head]
    exact hr.indexed.seg.walk_prev
  links _ ha _ hb := hr.indexed.seg.mutual ha hb
  tail_null := by
    rw [hr.tail]
    exact first_eq_none
  head_null := by
    rw [hr.head]
    exact last_eq_none
  sorted := by
    have hs := ho.sorted
    rw [listed, List.pairwise_map] at hs
    exact hs
  distinct := hr.indexed.nodup
  once := hr.indexed.keys
  hash := hr.indexed.hash
  size := by
    rw [hr.size, UInt32.toNat_ofNat']
    exact Nat.mod_eq_of_lt hsize

/-- Whatever is reached by `next` is reached by `prev` the other way round. -/
theorem Shape.reverse {α : Type} {ts : TimeslotT α} {l : List (Nat × TimeslotElement α)} (h : Shape ts l)
    {forwards backwards : List Nat} (hn : Walk (nextOf ts.mem) ts.tail forwards)
    (hp : Walk (prevOf ts.mem) ts.head backwards) : forwards = backwards.reverse := by
  rw [hn.unique h.forwards, hp.unique h.backwards, List.reverse_reverse]

end Ptr

namespace TsOp

section
variable {α : Type} [DecidableEq α]

/-- Every sequence of calls, as long as fewer than `2 ^ 32` elements are alive, succeeds and leaves the
timeslot in shape. -/
theorem run_shape (M : Malloc) (timeout : Timeval) (ops : List (TsOp α))
    (hsize : Runs.Throughout (apply timeout) (fun d => (alive d).ncard < 2 ^ 32) (fun _ => none) ops) :
    ∃ ts l answers, run M (Ptr.timeslotCreate timeout) ops = some (ts, answers) ∧ Ptr.Shape ts l := by
  obtain ⟨ts, l, answers, hrun, hr, ho, hd, -⟩ := run_spec M timeout ops (Ptr.rep_create timeout)
    (Timeslot.ordered_create timeout) rfl hsize.always
  have hlast := Runs.throughout_iff.mp hsize ops [] (List.append_nil ops).symm
  have hstart : (Ptr.listed (Ptr.timeslotCreate timeout : Ptr.TimeslotT α) []).deadline = fun _ => none := rfl
  rw [← hstart, ← hd, ho.ncard_alive, Ptr.listed, List.length_map] at hlast
  exact ⟨ts, l, answers, hrun, hr.shape ho hlast⟩

end

theorem run_shape_someCalls :
    ∃ ts l answers, run Malloc.bump (Ptr.timeslotCreate 10) someCalls = some (ts, answers) ∧ Ptr.Shape ts l :=
  run_shape Malloc.bump 10 someCalls (Runs.throughout_of_always_concat
    (few_alive 10 (by simp) (by simp [someCalls]) : Runs.Always (apply 10) _ _ (someCalls ++ [.purgeobjects 0])))

end TsOp

end DesAodv
