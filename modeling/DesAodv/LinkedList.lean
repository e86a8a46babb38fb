import Mathlib.Data.List.Induction
import Mathlib.Data.List.Nodup
import DesAodv.Keyed

/-!
# Linked lists in memory

A memory is a set of allocated blocks with an address each; access to any other
address fails. A doubly linked list is a chain of nodes that refer to each other
by address. `Seg` says that a chain holds given values; `Gap` describes a list
while a node is being linked in or out: two chains with a node between them.
`Indexed` is a list whose nodes are found by a key.
-/

structure Memory (β : Type*) where
  cells : List (Nat × β)
  deriving DecidableEq, Repr

/-- An allocator: it never returns an address that is in use. -/
structure Malloc where
  address : List Nat → Nat
  fresh : ∀ live, address live ∉ live

theorem le_foldr_max {l : List Nat} {a : Nat} (h : a ∈ l) : a ≤ l.foldr max 0 := by
  induction l with
  | nil => cases h
  | cons b l ih =>
    rcases List.mem_cons.mp h with rfl | h
    · exact Nat.le_max_left _ _
    · exact Nat.le_trans (ih h) (Nat.le_max_right _ _)

/-- The allocator that goes on behind the last address in use. -/
def Malloc.bump : Malloc where
  address live := live.foldr max 0 + 1
  fresh _ h := Nat.not_succ_le_self _ (le_foldr_max h)

namespace Memory
variable {β : Type*}

def empty : Memory β := ⟨[]⟩

def live (m : Memory β) : List Nat := m.cells.map Prod.fst

def read (m : Memory β) (a : Nat) : Option β := (Keyed.lookup Prod.fst a m.cells).map Prod.snd

def put (m : Memory β) (a : Nat) (v : β) : Memory β := ⟨(a, v) :: Keyed.erase Prod.fst a m.cells⟩

def drop (m : Memory β) (a : Nat) : Memory β := ⟨Keyed.erase Prod.fst a m.cells⟩

def write (m : Memory β) (a : Nat) (f : β → β) : Option (Memory β) := (m.read a).map fun v => m.put a (f v)

def free (m : Memory β) (a : Nat) : Option (Memory β) := (m.read a).map fun _ => m.drop a

def malloc (M : Malloc) (m : Memory β) (v : β) : Memory β × Nat :=
  (m.put (M.address m.live) v, M.address m.live)

@[simp] theorem read_empty (a : Nat) : (empty : Memory β).read a = none := rfl

theorem read_drop (m : Memory β) (a b : Nat) : (m.drop a).read b = if b = a then none else m.read b := by
  unfold read drop
  by_cases h : b = a
  · rw [if_pos h, h, Keyed.lookup_erase_self, Option.map_none]
  · rw [if_neg h, Keyed.lookup_erase_ne Prod.fst (Ne.symm h)]

theorem read_put (m : Memory β) (a : Nat) (v : β) (b : Nat) :
    (m.put a v).read b = if b = a then some v else m.read b := by
  have hcons : (m.put a v).cells = [(a, v)] ++ (m.drop a).cells := rfl
  have hread : (m.put a v).read b = (if b = a then some v else none).or ((m.drop a).read b) := by
    unfold read
    rw [hcons, Keyed.lookup_append, Keyed.lookup_singleton]
    by_cases h : b = a
    · simp [h]
    · have h' : ¬ a = b := fun e => h e.symm
      simp [h, h']
  rw [hread, read_drop]
  by_cases h : b = a
  · simp [h]
  · simp [h]

theorem read_put_ne {m : Memory β} {a b : Nat} {v : β} (h : b ≠ a) : (m.put a v).read b = m.read b := by
  rw [read_put, if_neg h]

@[simp] theorem read_put_self (m : Memory β) (a : Nat) (v : β) : (m.put a v).read a = some v := by
  rw [read_put, if_pos rfl]

theorem live_of_read {m : Memory β} {a : Nat} {v : β} (h : m.read a = some v) : a ∈ m.live := by
  obtain ⟨x, hx, -⟩ := Option.map_eq_some_iff.mp h
  have hk := Keyed.lookup_key hx
  exact hk ▸ List.mem_map_of_mem (Keyed.lookup_mem hx)

theorem read_fresh (M : Malloc) (m : Memory β) : m.read (M.address m.live) = none := by
  cases h : m.read (M.address m.live) with
  | none => rfl
  | some v => exact absurd (live_of_read h) (M.fresh m.live)

theorem write_eq {m : Memory β} {a : Nat} {v : β} (h : m.read a = some v) (f : β → β) :
    m.write a f = some (m.put a (f v)) := by
  rw [write, h, Option.map_some]

theorem free_eq {m : Memory β} {a : Nat} {v : β} (h : m.read a = some v) : m.free a = some (m.drop a) := by
  rw [free, h, Option.map_some]

end Memory

namespace Linked

structure ListNode (β : Type*) where
  val : β
  next : Option Nat
  prev : Option Nat
  deriving DecidableEq, Repr

section
variable {β : Type*}

/-- `if(a != NULL) a->next = v;` -/
def setNext (m : Memory (ListNode β)) (a v : Option Nat) : Option (Memory (ListNode β)) :=
  match a with
  | none => some m
  | some a => m.write a fun n => { n with next := v }

/-- `if(a != NULL) a->prev = v;` -/
def setPrev (m : Memory (ListNode β)) (a v : Option Nat) : Option (Memory (ListNode β)) :=
  match a with
  | none => some m
  | some a => m.write a fun n => { n with prev := v }

@[simp] theorem setNext_none (m : Memory (ListNode β)) (v : Option Nat) : setNext m none v = some m := rfl
@[simp] theorem setPrev_none (m : Memory (ListNode β)) (v : Option Nat) : setPrev m none v = some m := rfl

/-- The address of the first node of a chain that goes on at `q`. -/
def first (l : List (Nat × β)) (q : Option Nat) : Option Nat := (l.head?.map Prod.fst).or q

/-- The address of the last node of a chain that comes from `p`. -/
def last (p : Option Nat) (l : List (Nat × β)) : Option Nat := (l.getLast?.map Prod.fst).or p

/-- The nodes at the addresses of `l` hold its values and are linked in its order, from `p` to `q`. -/
def Seg (m : Memory (ListNode β)) : Option Nat → List (Nat × β) → Option Nat → Prop
  | _, [], _ => True
  | p, x :: l, q => m.read x.1 = some { val := x.2, next := first l q, prev := p } ∧ Seg m (some x.1) l q

def addrs (l : List (Nat × β)) : List Nat := l.map Prod.fst

@[simp] theorem addrs_append (l l' : List (Nat × β)) : addrs (l ++ l') = addrs l ++ addrs l' := List.map_append
@[simp] theorem addrs_cons (x : Nat × β) (l : List (Nat × β)) : addrs (x :: l) = x.1 :: addrs l := rfl
@[simp] theorem addrs_nil : addrs ([] : List (Nat × β)) = [] := rfl

@[simp] theorem first_nil (q : Option Nat) : first ([] : List (Nat × β)) q = q := rfl
@[simp] theorem first_cons (x : Nat × β) (l : List (Nat × β)) (q : Option Nat) : first (x :: l) q = some x.1 := rfl
@[simp] theorem last_nil (p : Option Nat) : last p ([] : List (Nat × β)) = p := rfl

@[simp] theorem last_concat (p : Option Nat) (l : List (Nat × β)) (x : Nat × β) : last p (l ++ [x]) = some x.1 := by
  simp [last]

theorem last_cons (p : Option Nat) (x : Nat × β) (l : List (Nat × β)) : last p (x :: l) = last (some x.1) l := by
  cases l with
  | nil => rfl
  | cons y l =>
    rw [last, last, List.getLast?_cons_cons]
    simp [List.getLast?_cons]

theorem first_append (l l' : List (Nat × β)) (q : Option Nat) : first (l ++ l') q = first l (first l' q) := by
  cases l <;> rfl

theorem first_eq_none {l : List (Nat × β)} : first l none = none ↔ l = [] := by
  cases l <;> simp

theorem last_append (p : Option Nat) (l l' : List (Nat × β)) : last p (l ++ l') = last (last p l) l' := by
  induction l generalizing p with
  | nil => rfl
  | cons x l ih => rw [List.cons_append, last_cons, last_cons, ih]

theorem last_mem {x : Nat × β} (l : List (Nat × β)) : ∃ a ∈ addrs (x :: l), last (some x.1) l = some a := by
  induction l generalizing x with
  | nil => exact ⟨x.1, by simp, rfl⟩
  | cons y l ih =>
    obtain ⟨a, ha, he⟩ := @ih y
    exact ⟨a, List.mem_cons_of_mem _ ha, by rw [last_cons, he]⟩

theorem first_remove {l₁ l₂ : List (Nat × β)} {x : Nat × β} (hn : (addrs (l₁ ++ x :: l₂)).Nodup) :
    (if first (l₁ ++ x :: l₂) none = some x.1 then first l₂ none else first (l₁ ++ x :: l₂) none) =
      first (l₁ ++ l₂) none := by
  cases l₁ with
  | nil => simp
  | cons y l₁ =>
    have hne : y.1 ≠ x.1 := by
      intro he
      rw [List.cons_append, addrs_cons, List.nodup_cons] at hn
      exact hn.1 (he ▸ by simp)
    simp [hne]

theorem ne_of_after {l₁ l₂ : List (Nat × β)} {x : Nat × β} (hn : (addrs (l₁ ++ x :: l₂)).Nodup) {a : Nat}
    (ha : a ∈ addrs l₂) : a ≠ x.1 := by
  rw [addrs_append, addrs_cons, List.nodup_append, List.nodup_cons] at hn
  exact ne_of_mem_of_not_mem ha hn.2.1.1

theorem last_remove {l₁ l₂ : List (Nat × β)} {x : Nat × β} (hn : (addrs (l₁ ++ x :: l₂)).Nodup) :
    (if last none (l₁ ++ x :: l₂) = some x.1 then last none l₁ else last none (l₁ ++ x :: l₂)) =
      last none (l₁ ++ l₂) := by
  rw [last_append, last_append, last_cons]
  cases l₂ with
  | nil => simp
  | cons y l₂ =>
    rw [last_cons, last_cons]
    obtain ⟨a, ha, he⟩ := @last_mem β y l₂
    simp [he, ne_of_after hn ha]

theorem last_insert {l₁ l₂ : List (Nat × β)} {x : Nat × β} (hn : (addrs (l₁ ++ x :: l₂)).Nodup) (y : Nat × β) :
    (if last none (l₁ ++ x :: l₂) = some x.1 then some y.1 else last none (l₁ ++ x :: l₂)) =
      last none ((l₁ ++ [x]) ++ y :: l₂) := by
  rw [last_append, last_append, last_cons, last_cons]
  cases l₂ with
  | nil => simp
  | cons z l₂ =>
    rw [last_cons, last_cons]
    obtain ⟨a, ha, he⟩ := last_mem (x := z) l₂
    simp [he, ne_of_after hn ha]

section
variable {m m' : Memory (ListNode β)} {p q : Option Nat} {l l₁ l₂ : List (Nat × β)}

theorem seg_append : Seg m p (l₁ ++ l₂) q ↔ Seg m p l₁ (first l₂ q) ∧ Seg m (last p l₁) l₂ q := by
  induction l₁ generalizing p with
  | nil => simp [Seg]
  | cons x l₁ ih =>
    rw [List.cons_append, Seg, Seg, ih, first_append, last_cons, and_assoc]

theorem Seg.frame (h : Seg m p l q) (hf : ∀ a ∈ addrs l, m'.read a = m.read a) : Seg m' p l q := by
  induction l generalizing p with
  | nil => trivial
  | cons x l ih =>
    refine ⟨?_, ih h.2 fun a ha => hf a (List.mem_cons_of_mem _ ha)⟩
    rw [hf x.1 List.mem_cons_self]
    exact h.1

theorem Seg.live (h : Seg m p l q) {a : Nat} (ha : a ∈ addrs l) : m.read a ≠ none := by
  induction l generalizing p with
  | nil => cases ha
  | cons x l ih =>
    rcases List.mem_cons.mp ha with rfl | ha
    · rw [h.1]
      exact Option.some_ne_none _
    · exact ih h.2 ha

theorem Seg.node {x : Nat × β} (h : Seg m p (l₁ ++ x :: l₂) q) :
    m.read x.1 = some { val := x.2, next := first l₂ q, prev := last p l₁ } :=
  (seg_append.mp h).2.1

theorem Seg.relink_last {x : Nat × β} (h : Seg m p (l ++ [x]) q) (hx : x.1 ∉ addrs l) (v : Option Nat) :
    Seg (m.put x.1 { val := x.2, next := v, prev := last p l }) p (l ++ [x]) v := by
  rw [seg_append] at h ⊢
  refine ⟨?_, ?_, trivial⟩
  · apply h.1.frame
    intro a ha
    exact Memory.read_put_ne (ne_of_mem_of_not_mem ha hx)
  · rw [Memory.read_put_self]
    rfl

theorem Seg.relink_first {x : Nat × β} (h : Seg m p (x :: l) q) (hx : x.1 ∉ addrs l) (v : Option Nat) :
    Seg (m.put x.1 { val := x.2, next := first l q, prev := v }) v (x :: l) q := by
  refine ⟨Memory.read_put_self _ _ _, ?_⟩
  apply h.2.frame
  intro a ha
  exact Memory.read_put_ne (ne_of_mem_of_not_mem ha hx)

end

/-! ## Walks along the links -/

/-- From `p` the links lead through the addresses of the list to a NULL. -/
def Walk (link : Nat → Option (Option Nat)) : Option Nat → List Nat → Prop
  | p, [] => p = none
  | p, a :: l => p = some a ∧ ∃ q, link a = some q ∧ Walk link q l

theorem Walk.unique {link : Nat → Option (Option Nat)} {p : Option Nat} {l l' : List Nat} (h : Walk link p l)
    (h' : Walk link p l') : l = l' := by
  induction l generalizing p l' with
  | nil =>
    obtain rfl := h
    cases l' with
    | nil => rfl
    | cons b l' => cases h'.1
  | cons a l ih =>
    obtain ⟨rfl, q, hq, hw⟩ := h
    cases l' with
    | nil => cases h'
    | cons b l' =>
      obtain ⟨hab, q', hq', hw'⟩ := h'
      obtain rfl := Option.some.inj hab
      obtain rfl := Option.some.inj (hq.symm.trans hq')
      rw [ih hw hw']

def nextOf (m : Memory (ListNode β)) (a : Nat) : Option (Option Nat) := (m.read a).map ListNode.next

def prevOf (m : Memory (ListNode β)) (a : Nat) : Option (Option Nat) := (m.read a).map ListNode.prev

section
variable {m : Memory (ListNode β)} {p q : Option Nat} {l l₁ l₂ : List (Nat × β)} {x : Nat × β}

theorem Seg.nextOf (h : Seg m p (l₁ ++ x :: l₂) q) : nextOf m x.1 = some (first l₂ q) := by
  rw [Linked.nextOf, h.node, Option.map_some]

theorem Seg.prevOf (h : Seg m p (l₁ ++ x :: l₂) q) : prevOf m x.1 = some (last p l₁) := by
  rw [Linked.prevOf, h.node, Option.map_some]

theorem Seg.walk_next (h : Seg m p l none) : Walk (Linked.nextOf m) (first l none) (addrs l) := by
  induction l generalizing p with
  | nil => rfl
  | cons x l ih => exact ⟨rfl, first l none, @Seg.nextOf _ m p none [] l x h, ih h.2⟩

theorem Seg.walk_prev (h : Seg m none l q) : Walk (Linked.prevOf m) (last none l) (addrs l).reverse := by
  induction l using List.reverseRecOn generalizing q with
  | nil => rfl
  | append_singleton l x ih =>
    rw [last_concat, addrs_append, List.reverse_append]
    exact ⟨rfl, last none l, h.prevOf, ih (seg_append.mp h).1⟩

theorem first_eq_some {a : Nat} (h : first l none = some a) : ∃ v l', l = (a, v) :: l' := by
  cases l with
  | nil => cases h
  | cons y l =>
    obtain rfl := Option.some.inj h
    exact ⟨y.2, l, rfl⟩

theorem last_eq_some {a : Nat} (h : last none l = some a) : ∃ l' v, l = l' ++ [(a, v)] := by
  induction l using List.reverseRecOn with
  | nil => cases h
  | append_singleton l y _ =>
    rw [last_concat] at h
    obtain rfl := Option.some.inj h
    exact ⟨l, y.2, rfl⟩

theorem last_eq_none {l : List (Nat × β)} : last none l = none ↔ l = [] := by
  induction l using List.reverseRecOn with
  | nil => exact iff_of_true rfl rfl
  | append_singleton l y _ =>
    rw [last_concat]
    exact iff_of_false (Option.some_ne_none _) (by simp)

theorem mem_addrs {a : Nat} (h : a ∈ addrs l) : ∃ l₁ v l₂, l = l₁ ++ (a, v) :: l₂ := by
  obtain ⟨x, hx, rfl⟩ := List.mem_map.mp h
  obtain ⟨l₁, l₂, rfl⟩ := List.append_of_mem hx
  exact ⟨l₁, x.2, l₂, rfl⟩

theorem Seg.mutual (h : Seg m none l none) {a b : Nat} (ha : a ∈ addrs l) (hb : b ∈ addrs l) :
    Linked.nextOf m a = some (some b) ↔ Linked.prevOf m b = some (some a) := by
  refine ⟨fun hn => ?_, fun hp => ?_⟩
  · obtain ⟨l₁, v, l₂, rfl⟩ := mem_addrs ha
    obtain ⟨w, l₂, rfl⟩ := first_eq_some (Option.some.inj (h.nextOf.symm.trans hn))
    have h' : Seg m none ((l₁ ++ [(a, v)]) ++ (b, w) :: l₂) none := by simpa using h
    exact h'.prevOf.trans (congrArg some (last_concat _ _ _))
  · obtain ⟨l₁, w, l₂, rfl⟩ := mem_addrs hb
    obtain ⟨l₁, v, rfl⟩ := last_eq_some (Option.some.inj (h.prevOf.symm.trans hp))
    have h' : Seg m none (l₁ ++ (a, v) :: (b, w) :: l₂) none := by simpa using h
    exact h'.nextOf

end

/-! ## A node between two chains -/

/-- The chain `l₁` ends with a link to `q`, the chain `l₂` starts with a link to `p`, and the node `a` is
in neither of them. -/
structure Gap (m : Memory (ListNode β)) (l₁ : List (Nat × β)) (q : Option Nat) (a : Nat) (n : ListNode β)
    (p : Option Nat) (l₂ : List (Nat × β)) : Prop where
  left : Seg m none l₁ q
  node : m.read a = some n
  right : Seg m p l₂ none
  nodup : (addrs l₁ ++ a :: addrs l₂).Nodup

namespace Gap
variable {m : Memory (ListNode β)} {l₁ l₂ : List (Nat × β)} {p q : Option Nat} {a : Nat} {n : ListNode β}

theorem notMem_left (g : Gap m l₁ q a n p l₂) : a ∉ addrs l₁ := by
  intro h
  exact (List.nodup_append.mp g.nodup).2.2 a h a List.mem_cons_self rfl

theorem notMem_right (g : Gap m l₁ q a n p l₂) : a ∉ addrs l₂ :=
  (List.nodup_cons.mp (List.nodup_append.mp g.nodup).2.1).1

theorem disjoint (g : Gap m l₁ q a n p l₂) {b : Nat} (h₁ : b ∈ addrs l₁) (h₂ : b ∈ addrs l₂) : False :=
  (List.nodup_append.mp g.nodup).2.2 b h₁ b (List.mem_cons_of_mem a h₂) rfl

theorem of_new (hs : Seg m none (l₁ ++ l₂) none) (hn : (addrs (l₁ ++ l₂)).Nodup) (ha : a ∉ addrs (l₁ ++ l₂))
    (hr : m.read a = some n) : Gap m l₁ (first l₂ none) a n (last none l₁) l₂ := by
  have hs' := seg_append.mp hs
  refine ⟨hs'.1, hr, hs'.2, ?_⟩
  rw [List.nodup_middle, ← addrs_append]
  exact List.nodup_cons.mpr ⟨ha, hn⟩

theorem of_linked {x : Nat × β} (hs : Seg m none (l₁ ++ x :: l₂) none) (hn : (addrs (l₁ ++ x :: l₂)).Nodup) :
    Gap m l₁ (some x.1) x.1 { val := x.2, next := first l₂ none, prev := last none l₁ } (some x.1) l₂ := by
  have hs' := seg_append.mp hs
  rw [addrs_append] at hn
  exact ⟨hs'.1, hs'.2.1, hs'.2.2, hn⟩

theorem setNext_left (g : Gap m l₁ q a n p l₂) (v : Option Nat) :
    ∃ m', setNext m (last none l₁) v = some m' ∧ Gap m' l₁ v a n p l₂ ∧ ∀ c, c ∉ addrs l₁ → m'.read c = m.read c := by
  rcases List.eq_nil_or_concat l₁ with rfl | ⟨l, x, hl⟩
  · exact ⟨m, rfl, ⟨trivial, g.node, g.right, g.nodup⟩, fun _ _ => rfl⟩
  rw [List.concat_eq_append] at hl
  subst hl
  have hread := g.left.node
  have hx : x.1 ∈ addrs (l ++ [x]) := by simp
  have hxl : x.1 ∉ addrs l := by
    have hd := (List.nodup_append.mp g.nodup).1
    rw [addrs_append] at hd
    exact fun h => (List.nodup_append.mp hd).2.2 x.1 h x.1 (by simp) rfl
  refine ⟨_, ?_, ⟨g.left.relink_last hxl v, ?_, ?_, g.nodup⟩, ?_⟩
  · rw [last_concat]
    exact Memory.write_eq hread _
  · rw [Memory.read_put_ne (ne_of_mem_of_not_mem hx g.notMem_left).symm]
    exact g.node
  · apply g.right.frame
    intro b hb
    exact Memory.read_put_ne fun he => g.disjoint hx (he ▸ hb)
  · intro c hc
    exact Memory.read_put_ne (ne_of_mem_of_not_mem hx hc).symm

theorem setPrev_right (g : Gap m l₁ q a n p l₂) (v : Option Nat) :
    ∃ m', setPrev m (first l₂ none) v = some m' ∧ Gap m' l₁ q a n v l₂ ∧
      ∀ c, c ∉ addrs l₂ → m'.read c = m.read c := by
  cases l₂ with
  | nil => exact ⟨m, rfl, ⟨g.left, g.node, trivial, g.nodup⟩, fun _ _ => rfl⟩
  | cons x l =>
    have hx : x.1 ∈ addrs (x :: l) := List.mem_cons_self
    have hxl : x.1 ∉ addrs l :=
      (List.nodup_cons.mp (List.nodup_cons.mp (List.nodup_append.mp g.nodup).2.1).2).1
    refine ⟨_, Memory.write_eq g.right.1 _, ⟨?_, ?_, g.right.relink_first hxl v, g.nodup⟩, ?_⟩
    · apply g.left.frame
      intro b hb
      exact Memory.read_put_ne fun he => g.disjoint hb (he ▸ hx)
    · rw [Memory.read_put_ne (ne_of_mem_of_not_mem hx g.notMem_right).symm]
      exact g.node
    · intro c hc
      exact Memory.read_put_ne (ne_of_mem_of_not_mem hx hc).symm

theorem put_node (g : Gap m l₁ q a n p l₂) (n' : ListNode β) : Gap (m.put a n') l₁ q a n' p l₂ := by
  refine ⟨?_, Memory.read_put_self m a n', ?_, g.nodup⟩
  · apply g.left.frame
    intro b hb
    exact Memory.read_put_ne (ne_of_mem_of_not_mem hb g.notMem_left)
  · apply g.right.frame
    intro b hb
    exact Memory.read_put_ne (ne_of_mem_of_not_mem hb g.notMem_right)

theorem setNext_node (g : Gap m l₁ q a n p l₂) (v : Option Nat) :
    ∃ m', setNext m (some a) v = some m' ∧ Gap m' l₁ q a { n with next := v } p l₂ :=
  ⟨_, Memory.write_eq g.node _, g.put_node _⟩

theorem setPrev_node (g : Gap m l₁ q a n p l₂) (v : Option Nat) :
    ∃ m', setPrev m (some a) v = some m' ∧ Gap m' l₁ q a { n with prev := v } p l₂ :=
  ⟨_, Memory.write_eq g.node _, g.put_node _⟩

theorem linked (g : Gap m l₁ (some a) a n (some a) l₂) (hnext : n.next = first l₂ none)
    (hprev : n.prev = last none l₁) : Seg m none (l₁ ++ (a, n.val) :: l₂) none := by
  rw [seg_append]
  refine ⟨g.left, ?_, g.right⟩
  rw [← hnext, ← hprev]
  exact g.node

theorem unlinked (g : Gap m l₁ (first l₂ none) a n (last none l₁) l₂) :
    m.free a = some (m.drop a) ∧ Seg (m.drop a) none (l₁ ++ l₂) none := by
  refine ⟨Memory.free_eq g.node, seg_append.mpr ⟨?_, ?_⟩⟩
  · apply g.left.frame
    intro b hb
    rw [Memory.read_drop, if_neg (ne_of_mem_of_not_mem hb g.notMem_left)]
  · apply g.right.frame
    intro b hb
    rw [Memory.read_drop, if_neg (ne_of_mem_of_not_mem hb g.notMem_right)]

end Gap

theorem Seg.unlink_first {m : Memory (ListNode β)} {l : List (Nat × β)} {x : Nat × β}
    (hs : Seg m none (x :: l) none) (hn : (addrs (x :: l)).Nodup) :
    ∃ m', setPrev m (first l none) none = some m' ∧ m'.free x.1 = some (m'.drop x.1) ∧
      Seg (m'.drop x.1) none l none := by
  obtain ⟨m', e, g, -⟩ := (@Gap.of_linked β m [] l x hs hn).setPrev_right none
  have g' : Gap m' [] (first l none) x.1 { val := x.2, next := first l none, prev := none } none l :=
    ⟨trivial, g.node, g.right, g.nodup⟩
  exact ⟨m', e, g'.unlinked.1, g'.unlinked.2⟩

/-- Unlinking a node: its neighbors are linked to each other, then it is freed. -/
theorem Seg.unlink {m : Memory (ListNode β)} {l₁ l₂ : List (Nat × β)} {x : Nat × β}
    (hs : Seg m none (l₁ ++ x :: l₂) none) (hn : (addrs (l₁ ++ x :: l₂)).Nodup) :
    ∃ m₁ m₂, setNext m (last none l₁) (first l₂ none) = some m₁ ∧
      setPrev m₁ (first l₂ none) (last none l₁) = some m₂ ∧
      m₂.read x.1 = m.read x.1 ∧ m₂.free x.1 = some (m₂.drop x.1) ∧ Seg (m₂.drop x.1) none (l₁ ++ l₂) none ∧
      ∀ c, c ∉ addrs (l₁ ++ x :: l₂) → (m₂.drop x.1).read c = m.read c := by
  have g := Gap.of_linked hs hn
  obtain ⟨m₁, e₁, g₁, f₁⟩ := g.setNext_left (first l₂ none)
  obtain ⟨m₂, e₂, g₂, f₂⟩ := g₁.setPrev_right (last none l₁)
  refine ⟨m₁, m₂, e₁, e₂, ?_, g₂.unlinked.1, g₂.unlinked.2, fun c hc => ?_⟩
  · rw [g₂.node, g.node]
  · rw [addrs_append, addrs_cons, List.mem_append, List.mem_cons, not_or, not_or] at hc
    rw [Memory.read_drop, if_neg hc.2.1, f₂ c hc.2.2, f₁ c hc.1]

end

theorem ofNat_succ_sub_one (n : Nat) : UInt32.ofNat (n + 1) - 1 = UInt32.ofNat n := by
  rw [UInt32.ofNat_add]
  exact UInt32.add_sub_cancel _ _

/-! ## An index by key -/

/-- A hash table from keys to nodes. -/
abbrev Hash (κ : Type*) := List (κ × Nat)

namespace Hash
variable {κ : Type*}

def find [DecidableEq κ] (h : Hash κ) (k : κ) : Option Nat := (Keyed.lookup Prod.fst k h).map Prod.snd

def add (h : Hash κ) (k : κ) (a : Nat) : Hash κ := h ++ [(k, a)]

def del (h : Hash κ) (a : Nat) : Hash κ := Keyed.erase Prod.snd a h

end Hash

/-- The linked list holds `l`, and so does the hash table. -/
structure Indexed {β κ : Type*} (key : β → κ) (m : Memory (ListNode β)) (h : Hash κ) (l : List (Nat × β)) : Prop where
  seg : Seg m none l none
  nodup : (addrs l).Nodup
  keys : (l.map fun x => key x.2).Nodup
  hash : h.Perm (l.map fun x => (key x.2, x.1))

section
variable {β κ : Type*} {key : β → κ} {m m' : Memory (ListNode β)} {h : Hash κ} {l l₁ l₂ : List (Nat × β)}

theorem Indexed.empty (m : Memory (ListNode β)) : Indexed key m [] [] :=
  ⟨trivial, List.nodup_nil, List.nodup_nil, List.Perm.nil⟩

variable [DecidableEq κ]

theorem Indexed.found (hi : Indexed key m h l) {k : κ} {a : Nat} (hf : Hash.find h k = some a) :
    ∃ l₁ v l₂, l = l₁ ++ (a, v) :: l₂ ∧ key v = k := by
  obtain ⟨x, hx, rfl⟩ := Option.map_eq_some_iff.mp hf
  have hk := Keyed.lookup_key hx
  obtain ⟨y, hy, rfl⟩ := List.mem_map.mp (hi.hash.subset (Keyed.lookup_mem hx))
  obtain ⟨l₁, l₂, rfl⟩ := List.append_of_mem hy
  exact ⟨l₁, y.2, l₂, rfl, hk⟩

theorem Indexed.find_of_mem (hi : Indexed key m h l) {x : Nat × β} (hx : x ∈ l) :
    Hash.find h (key x.2) = some x.1 := by
  have hn : (h.map Prod.fst).Nodup := by
    have hp := hi.hash.map Prod.fst
    rw [List.map_map] at hp
    exact hp.nodup_iff.mpr hi.keys
  have hmem : (key x.2, x.1) ∈ h := hi.hash.symm.subset (List.mem_map_of_mem hx)
  rw [Hash.find, Keyed.lookup_of_mem hn hmem, Option.map_some]

theorem Indexed.absent (hi : Indexed key m h l) {k : κ} (hf : Hash.find h k = none) : ∀ x ∈ l, key x.2 ≠ k := by
  intro x hx hk
  rw [← hk, hi.find_of_mem hx] at hf
  cases hf

theorem Indexed.erase_node {x : Nat × β} (hi : Indexed key m h (l₁ ++ x :: l₂)) :
    Keyed.erase key (key x.2) ((l₁ ++ x :: l₂).map Prod.snd) = (l₁ ++ l₂).map Prod.snd := by
  have hnd := (List.perm_middle.map fun y : Nat × β => key y.2).nodup_iff.mp hi.keys
  have hx := (List.nodup_cons.mp hnd).1
  have hkeep : ∀ y ∈ l₁ ++ l₂, decide (key y.2 ≠ key x.2) = true := by
    intro y hy
    exact decide_eq_true fun h => hx (List.mem_map.mpr ⟨y, hy, h⟩)
  rw [Keyed.erase, List.filter_map, List.filter_append, List.filter_cons_of_neg (by simp), ← List.filter_append]
  exact congrArg _ (List.filter_eq_self.mpr hkeep)

theorem Indexed.erase_none {k : κ} (hk : ∀ x ∈ l, key x.2 ≠ k) :
    Keyed.erase key k (l.map Prod.snd) = l.map Prod.snd := by
  apply Keyed.erase_absent
  intro v hv
  obtain ⟨x, hx, rfl⟩ := List.mem_map.mp hv
  exact hk x hx

omit [DecidableEq κ] in
theorem Indexed.values_nodup (hi : Indexed key m h l) : ((l.map Prod.snd).map key).Nodup := by
  rw [List.map_map]
  exact hi.keys

omit [DecidableEq κ] in
theorem Indexed.remove {x : Nat × β} (hi : Indexed key m h (l₁ ++ x :: l₂)) (hs : Seg m' none (l₁ ++ l₂) none) :
    Indexed key m' (Hash.del h x.1) (l₁ ++ l₂) := by
  have hsub : (l₁ ++ l₂).Sublist (l₁ ++ x :: l₂) := (List.sublist_cons_self x l₂).append_left l₁
  refine ⟨hs, hi.nodup.sublist (hsub.map _), hi.keys.sublist (hsub.map _), ?_⟩
  have hnd := hi.nodup
  rw [addrs_append, addrs_cons, List.nodup_middle, ← addrs_append] at hnd
  have hx := (List.nodup_cons.mp hnd).1
  have hkeep : ∀ y ∈ l₁ ++ l₂, decide (y.1 ≠ x.1) = true := by
    intro y hy
    exact decide_eq_true (ne_of_mem_of_not_mem (List.mem_map_of_mem hy) hx)
  refine (hi.hash.filter _).trans (List.Perm.of_eq ?_)
  rw [List.filter_map, List.filter_append, List.filter_cons_of_neg (by simp), ← List.filter_append]
  exact congrArg _ (List.filter_eq_self.mpr hkeep)

omit [DecidableEq κ] in
theorem Indexed.insert {a : Nat} {v : β} (hi : Indexed key m h (l₁ ++ l₂)) (ha : a ∉ addrs (l₁ ++ l₂))
    (hk : ∀ x ∈ l₁ ++ l₂, key x.2 ≠ key v) (hs : Seg m' none (l₁ ++ (a, v) :: l₂) none) :
    Indexed key m' (Hash.add h (key v) a) (l₁ ++ (a, v) :: l₂) := by
  refine ⟨hs, ?_, ?_, ?_⟩
  · rw [addrs_append, addrs_cons, List.nodup_middle, ← addrs_append]
    exact List.nodup_cons.mpr ⟨ha, hi.nodup⟩
  · have hp := (@List.perm_middle _ (a, v) l₁ l₂).map fun x => key x.2
    refine hp.nodup_iff.mpr (List.nodup_cons.mpr ⟨?_, hi.keys⟩)
    intro hmem
    obtain ⟨y, hy, he⟩ := List.mem_map.mp hmem
    exact hk y hy he
  · have hp := (@List.perm_middle _ (a, v) l₁ l₂).map fun x => (key x.2, x.1)
    refine List.Perm.trans ?_ hp.symm
    rw [List.map_cons]
    exact (hi.hash.append_right _).trans (List.perm_append_singleton _ _)

end

end Linked
