import Mathlib.Algebra.BigOperators.Group.Finset.Basic
import Mathlib.Algebra.GroupWithZero.Nat
import Mathlib.Algebra.Order.BigOperators.Group.Finset
import Mathlib.Data.Fintype.Basic
import Mathlib.Order.Lattice.Nat
import DesAodv.Runs

/-!
# Messages that set off messages

A node that receives a message changes its state and sends others. Where every
message has a weight, and whatever is received weighs more than what it sets off
and what it adds to its receiver, the messages in flight die out: there are no
more receptions than the weight of all messages and nodes.
-/

namespace Cascades

/-! ## Runs that fall -/

section
variable {σ ε : Type*} {step : σ → ε → σ}

/-- A run whose steps all lower a rank is no longer than the rank it begins with. -/
theorem length_add_rank_le {J : σ → Prop} {C : σ → ε → Prop} {rank : σ → ℕ}
    (hs : ∀ s e, J s → C s e → J (step s e) ∧ rank (step s e) < rank s) {s : σ} {es : List ε} (h0 : J s)
    (h : Runs.Always step C s es) : es.length + rank (Runs.exec step s es) ≤ rank s := by
  induction es generalizing s with
  | nil => exact Nat.le_of_eq (Nat.zero_add _)
  | cons e es ih =>
    obtain ⟨hj, hlt⟩ := hs s e h0 h.1
    have hrest := ih hj h.2
    simp only [List.length_cons, Runs.exec]
    omega

end

/-! ## Weights -/

section
variable {N σ μ : Type*} [Fintype N] (node : σ → ℕ) (message : μ → ℕ)

/-- The weight of all nodes and of all messages in flight. -/
def total (nodes : N → σ) (inFlight : List μ) : ℕ := ∑ i, node (nodes i) + (inFlight.map message).sum

variable {node message} {nodes : N → σ} {inFlight : List μ}

variable (message) in
theorem sum_eraseIdx {k : ℕ} {m : μ} (h : inFlight[k]? = some m) :
    ((inFlight.eraseIdx k).map message).sum + message m = (inFlight.map message).sum := by
  induction inFlight generalizing k with
  | nil => cases h
  | cons a as ih =>
    cases k with
    | zero =>
      obtain rfl := Option.some.inj h
      simp [Nat.add_comm]
    | succ k =>
      have hrest := @ih k (by simpa using h)
      simp only [List.eraseIdx_cons_succ, List.map_cons, List.sum_cons]
      omega

theorem total_lost {k : ℕ} {m : μ} (h : inFlight[k]? = some m) (hpos : 0 < message m) :
    total node message nodes (inFlight.eraseIdx k) < total node message nodes inFlight := by
  have hsum := sum_eraseIdx message h
  unfold total
  omega

variable (node nodes) in
theorem sum_update [DecidableEq N] (i : N) (s : σ) :
    ∑ j, node (Function.update nodes i s j) + node (nodes i) = ∑ j, node (nodes j) + node s := by
  have hother : ∑ j ∈ Finset.univ.erase i, node (Function.update nodes i s j) =
      ∑ j ∈ Finset.univ.erase i, node (nodes j) := by
    refine Finset.sum_congr rfl fun j hj => ?_
    rw [Function.update_of_ne (Finset.ne_of_mem_erase hj)]
  rw [← Finset.sum_erase_add Finset.univ (fun j => node (Function.update nodes i s j)) (Finset.mem_univ i),
    ← Finset.sum_erase_add Finset.univ (fun j => node (nodes j)) (Finset.mem_univ i), hother, Function.update_self]
  omega

/-- A reception lowers the total if what it leaves weighs less than what it takes. -/
theorem total_received [DecidableEq N] {k : ℕ} {m : μ} (h : inFlight[k]? = some m) {i : N} {s : σ} {sent : List μ}
    (hless : node s + (sent.map message).sum < node (nodes i) + message m) :
    total node message (Function.update nodes i s) (inFlight.eraseIdx k ++ sent) < total node message nodes inFlight := by
  have hsum := sum_eraseIdx message h
  have hnodes := sum_update node nodes i s
  unfold total
  rw [List.map_append, List.sum_append]
  omega

end

/-! ## Messages with a time to live -/

/-- The weight of a message that costs `base` at each reception, and that each receiver passes on to at most
`fanout` others while its time to live lasts. -/
def relayed (fanout base : ℕ) : ℕ → ℕ
  | 0 => base
  | ttl + 1 => base + fanout * relayed fanout base ttl

theorem base_le_relayed (fanout base ttl : ℕ) : base ≤ relayed fanout base ttl := by
  cases ttl with
  | zero => exact Nat.le_refl _
  | succ ttl => exact Nat.le_add_right _ _

end Cascades
