import Mathlib.Algebra.Order.Ring.Nat
import DesAodv.Runs

/-!
# Sums below a bound

Costs are added one after the other to a number that must not exceed `B`: with a
clamp at `B`, or in a word that wraps behind it.
-/

namespace BoundedSums

open Runs

def addClamped (B m c : Nat) : Nat := min B (m + c)

def addWrapped (B m c : Nat) : Nat := (m + c) % (B + 1)

theorem exec_addClamped {B m : Nat} (hm : m ≤ B) (cs : List Nat) :
    exec (addClamped B) m cs = min B (m + cs.sum) := by
  induction cs generalizing m with
  | nil => exact (Nat.min_eq_right hm).symm
  | cons c cs ih =>
    have hle : addClamped B m c ≤ B := Nat.min_le_left _ _
    rw [exec, ih hle, List.sum_cons, addClamped]
    omega

theorem always_addClamped {B m : Nat} (hm : m ≤ B) (cs : List Nat) :
    Always (addClamped B) (fun m c => m ≤ addClamped B m c) m cs := by
  induction cs generalizing m with
  | nil => trivial
  | cons c cs ih =>
    refine ⟨Nat.le_min.mpr ⟨hm, Nat.le_add_right m c⟩, ih (Nat.min_le_left _ _)⟩

theorem addWrapped_of_le {B m c : Nat} (h : m + c ≤ B) : addWrapped B m c = m + c :=
  Nat.mod_eq_of_lt (Nat.lt_succ_of_le h)

/-- A cost within the bound makes the number smaller exactly when the sum is beyond the bound. -/
theorem le_addWrapped {B m c : Nat} (hm : m ≤ B) (hc : c ≤ B) : m ≤ addWrapped B m c ↔ m + c ≤ B := by
  refine ⟨fun h => ?_, fun h => ?_⟩
  · apply Classical.byContradiction
    intro hlt
    have hw : addWrapped B m c = m + c - (B + 1) := by
      rw [addWrapped, Nat.mod_eq_sub_mod (by omega)]
      exact Nat.mod_eq_of_lt (by omega)
    omega
  · rw [addWrapped_of_le h]
    exact Nat.le_add_right m c

theorem exec_addWrapped {B m : Nat} {cs : List Nat} (h : m + cs.sum ≤ B) :
    exec (addWrapped B) m cs = m + cs.sum := by
  induction cs generalizing m with
  | nil => rfl
  | cons c cs ih =>
    rw [List.sum_cons] at h ⊢
    rw [exec, addWrapped_of_le (by omega), ih (by omega)]
    exact Nat.add_assoc m c cs.sum

theorem always_addWrapped {B m : Nat} (hm : m ≤ B) {cs : List Nat} (hc : ∀ c ∈ cs, c ≤ B) :
    Always (addWrapped B) (fun m c => m ≤ addWrapped B m c) m cs ↔ m + cs.sum ≤ B := by
  induction cs generalizing m with
  | nil => exact iff_of_true trivial hm
  | cons c cs ih =>
    rw [Always, le_addWrapped hm (hc c List.mem_cons_self), List.sum_cons]
    have htail : ∀ c ∈ cs, c ≤ B := fun c h => hc c (List.mem_cons_of_mem _ h)
    refine ⟨fun h => ?_, fun h => ?_⟩
    · obtain ⟨hle, hrest⟩ := h
      rw [addWrapped_of_le hle, ih hle htail] at hrest
      omega
    · have hle : m + c ≤ B := by omega
      rw [addWrapped_of_le hle, ih hle htail]
      omega

end BoundedSums
