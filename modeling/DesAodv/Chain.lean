import Mathlib.Order.Basic

/-!
# Chains of successors

`follow next i a` is the `i`-th element of the chain that starts in `a` and goes
from each element to its successor as long as there is one. A chain along which
a rank grows repeats no element.
-/

namespace Chain

section
variable {α : Type*} (next : α → Option α)

def follow : Nat → α → Option α
  | 0, a => some a
  | i + 1, a => (follow i a).bind next

/-- No chain visits an element twice. -/
def Acyclic : Prop :=
  ∀ a x y i j, i < j → follow next i a = some x → follow next j a = some y → x ≠ y

variable {next}

/-- Along a chain a rank grows that grows from each element to its successor. -/
theorem follow_lt {β : Type*} [Preorder β] {rank : α → β} (h : ∀ a b, next a = some b → rank a < rank b) (a : α)
    {i : Nat} {x : α} (hx : follow next i a = some x) :
    ∀ {j : Nat} {y : α}, i < j → follow next j a = some y → rank x < rank y
  | j + 1, y, hij, hy => by
    obtain ⟨z, hz, hzy⟩ := Option.bind_eq_some_iff.mp hy
    rcases Nat.lt_or_eq_of_le (Nat.le_of_lt_succ hij) with hlt | rfl
    · exact lt_trans (follow_lt h a hx hlt hz) (h z y hzy)
    · rw [hx] at hz
      obtain rfl := Option.some.inj hz
      exact h x y hzy

theorem acyclic_of_rank {β : Type*} [Preorder β] (rank : α → β) (h : ∀ a b, next a = some b → rank a < rank b) :
    Acyclic next := by
  intro a x y i j hij hx hy hs
  obtain rfl := hs
  exact lt_irrefl _ (follow_lt h a hx hij hy)

end

end Chain
