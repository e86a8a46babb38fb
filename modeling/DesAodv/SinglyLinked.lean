import Mathlib.Data.List.Perm.Subperm
import DesAodv.LinkedList

/-!
# Singly linked queues in memory

A queue is a chain of cells with an address of its first and one of its last
cell. Cells are taken from the front and linked in behind the last one.
-/

namespace Linked

structure Cell (β : Type*) where
  val : β
  next : Option Nat
  deriving DecidableEq, Repr

section
variable {β : Type*}

/-- `a->next = v;` -/
def link (m : Memory (Cell β)) (a v : Option Nat) : Option (Memory (Cell β)) :=
  a.bind fun a => m.write a fun c => { c with next := v }

/-- The values of a chain, cut off after a number of cells. -/
def values (m : Memory (Cell β)) : Nat → Option Nat → List β
  | 0, _ => []
  | _, none => []
  | turns + 1, some a =>
    match m.read a with
    | none => []
    | some c => c.val :: values m turns c.next

/-- The cells at the addresses of `l` hold its values and are linked in its order. -/
def Singly (m : Memory (Cell β)) : List (Nat × β) → Prop
  | [] => True
  | x :: l => m.read x.1 = some { val := x.2, next := first l none } ∧ Singly m l

/-- The queue from `head` to `tail` holds `l`. -/
structure Queue (m : Memory (Cell β)) (head tail : Option Nat) (l : List (Nat × β)) : Prop where
  head : head = first l none
  tail : tail = last none l
  cells : Singly m l
  nodup : (addrs l).Nodup

variable {m m' : Memory (Cell β)} {l : List (Nat × β)} {head tail : Option Nat}

theorem Singly.frame (h : Singly m l) (hf : ∀ a ∈ addrs l, m'.read a = m.read a) : Singly m' l := by
  induction l with
  | nil => trivial
  | cons x l ih =>
    refine ⟨?_, ih h.2 fun a ha => hf a (List.mem_cons_of_mem _ ha)⟩
    rw [hf x.1 List.mem_cons_self]
    exact h.1

theorem Singly.live (h : Singly m l) {a : Nat} (ha : a ∈ addrs l) : m.read a ≠ none := by
  induction l with
  | nil => cases ha
  | cons x l ih =>
    rcases List.mem_cons.mp ha with rfl | ha
    · rw [h.1]
      exact Option.some_ne_none _
    · exact ih h.2 ha

theorem Singly.values_eq (h : Singly m l) {turns : Nat} (ht : l.length ≤ turns) :
    values m turns (first l none) = l.map Prod.snd := by
  induction l generalizing turns with
  | nil => cases turns <;> rfl
  | cons x l ih =>
    cases turns with
    | zero => cases ht
    | succ turns =>
      simp only [first_cons, values, h.1, List.map_cons]
      rw [ih h.2 (Nat.le_of_succ_le_succ ht)]

theorem Singly.last_cell {x : Nat × β} (h : Singly m (l ++ [x])) :
    m.read x.1 = some { val := x.2, next := none } := by
  induction l with
  | nil => exact h.1
  | cons z l ih => exact ih h.2

theorem Singly.append {x y : Nat × β} (h : Singly m (l ++ [x])) (hn : (addrs (l ++ [x])).Nodup)
    (hy : m.read y.1 = some { val := y.2, next := none }) (hne : y.1 ∉ addrs (l ++ [x])) :
    Singly (m.put x.1 { val := x.2, next := some y.1 }) (l ++ [x] ++ [y]) := by
  induction l with
  | nil =>
    refine ⟨Memory.read_put_self _ _ _, ?_, trivial⟩
    rw [Memory.read_put_ne (by simpa using hne)]
    exact hy
  | cons z l ih =>
    obtain ⟨hz, hn'⟩ := List.nodup_cons.mp hn
    rw [List.cons_append, addrs_cons, List.mem_cons, not_or] at hne
    refine ⟨?_, ih h.2 hn' hne.2⟩
    have hzx : z.1 ≠ x.1 := fun he => hz (he ▸ by simp)
    rw [Memory.read_put_ne hzx]
    have hfirst : first (l ++ [x] ++ [y]) none = first (l ++ [x]) none := by
      cases l <;> rfl
    exact hfirst ▸ h.1

theorem Queue.nil (m : Memory (Cell β)) : Queue m none none [] := ⟨rfl, rfl, trivial, List.nodup_nil⟩

theorem Queue.frame (h : Queue m head tail l) (hf : ∀ a ∈ addrs l, m'.read a = m.read a) : Queue m' head tail l :=
  ⟨h.head, h.tail, h.cells.frame hf, h.nodup⟩

theorem Queue.length_le (h : Queue m head tail l) : l.length ≤ m.cells.length := by
  have hsub : addrs l ⊆ m.live := by
    intro a ha
    obtain ⟨c, hc⟩ := Option.ne_none_iff_exists'.mp (h.cells.live ha)
    exact Memory.live_of_read hc
  have hle := (List.subperm_of_subset h.nodup hsub).length_le
  rwa [addrs, List.length_map, Memory.live, List.length_map] at hle

theorem Queue.values_eq (h : Queue m head tail l) : values m m.cells.length head = l.map Prod.snd := by
  rw [h.head]
  exact h.cells.values_eq h.length_le

theorem Queue.first_addr {x : Nat × β} (h : Queue m head tail (x :: l)) :
    head = some x.1 ∧ m.read x.1 = some { val := x.2, next := first l none } := ⟨h.head, h.cells.1⟩

theorem Queue.push_first {a : Nat} {v : β} (hr : m.read a = some { val := v, next := none }) :
    Queue m (some a) (some a) [(a, v)] :=
  ⟨rfl, rfl, ⟨hr, trivial⟩, List.nodup_singleton a⟩

/-- A new cell is linked in behind the last one, and nothing but that one is written. -/
theorem Queue.push {x : Nat × β} {a : Nat} {v : β} (h : Queue m head tail (l ++ [x]))
    (hr : m.read a = some { val := v, next := none }) (ha : a ∉ addrs (l ++ [x])) :
    ∃ m', link m tail (some a) = some m' ∧ Queue m' head (some a) (l ++ [x] ++ [(a, v)]) ∧
      ∀ b, b ∉ addrs (l ++ [x]) → m'.read b = m.read b := by
  refine ⟨m.put x.1 { val := x.2, next := some a }, ?_, ⟨?_, ?_, ?_, ?_⟩, fun b hb => ?_⟩
  · rw [h.tail, last_concat]
    exact Memory.write_eq h.cells.last_cell _
  · rw [h.head]
    cases l <;> rfl
  · rw [last_concat]
  · exact @Singly.append β m l x (a, v) h.cells h.nodup hr ha
  · rw [addrs_append, List.nodup_append]
    refine ⟨h.nodup, List.nodup_singleton a, fun b hb c hc => ?_⟩
    rw [addrs_cons, addrs_nil, List.mem_singleton] at hc
    exact hc ▸ ne_of_mem_of_not_mem hb ha
  · exact Memory.read_put_ne (ne_of_mem_of_not_mem (by simp) hb).symm

theorem Queue.pop {x : Nat × β} (h : Queue m head tail (x :: l)) :
    m.free x.1 = some (m.drop x.1) ∧ Singly (m.drop x.1) l ∧ (addrs l).Nodup ∧ (head = tail ↔ l = []) := by
  obtain ⟨hx, hn⟩ := List.nodup_cons.mp h.nodup
  refine ⟨Memory.free_eq h.cells.1, h.cells.2.frame fun a ha => ?_, hn, ?_⟩
  · rw [Memory.read_drop, if_neg (ne_of_mem_of_not_mem ha hx)]
  · rw [h.head, h.tail, first_cons, last_cons]
    cases l with
    | nil => simp
    | cons y l =>
      rw [last_cons]
      obtain ⟨a, ha, he⟩ := @last_mem β y l
      rw [he]
      refine iff_of_false ?_ (List.cons_ne_nil _ _)
      exact fun h => hx (Option.some.inj h ▸ ha)

end

end Linked
