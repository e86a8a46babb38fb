import Mathlib.Data.Set.Defs

/-!
# Comparison on a circle

Numbers below `m` are compared by the distance from one to the other along the
circle: one is ahead if that is less than a threshold `t`. In a window of at
most half of the circle this should be the order of the places in the window.
-/

namespace Circular

/-- The comparison of the numbers at the places in `S` has the sign of the difference of the places. -/
def SignLaw {ι : Type*} (comp : ι → ι → Int) (num : Nat → ι) (S : Set Nat) : Prop :=
  ∀ k ∈ S, ∀ l ∈ S, (comp (num k) (num l)).sign = ((k : Int) - l).sign

/-- On the numbers at the places in `S` the comparison is a linear order. -/
structure LinearOn {ι : Type*} (comp : ι → ι → Int) (num : Nat → ι) (S : Set Nat) : Prop where
  antisymm : ∀ k ∈ S, ∀ l ∈ S, (comp (num k) (num l)).sign = -(comp (num l) (num k)).sign
  trans : ∀ j ∈ S, ∀ k ∈ S, ∀ l ∈ S, comp (num j) (num k) < 0 → comp (num k) (num l) < 0 →
    comp (num j) (num l) < 0
  total : ∀ k ∈ S, ∀ l ∈ S, k ≠ l → comp (num k) (num l) < 0 ∨ comp (num l) (num k) < 0

section
variable {ι : Type*} {comp : ι → ι → Int} {num : Nat → ι} {S : Set Nat}

theorem SignLaw.neg_iff (h : SignLaw comp num S) {k l : Nat} (hk : k ∈ S) (hl : l ∈ S) :
    comp (num k) (num l) < 0 ↔ k < l := by
  rw [← Int.sign_eq_neg_one_iff_neg, h k hk l hl, Int.sign_eq_neg_one_iff_neg]
  omega

theorem SignLaw.pos_iff (h : SignLaw comp num S) {k l : Nat} (hk : k ∈ S) (hl : l ∈ S) :
    0 < comp (num k) (num l) ↔ l < k := by
  rw [← Int.sign_eq_one_iff_pos, h k hk l hl, Int.sign_eq_one_iff_pos]
  omega

theorem SignLaw.linear (h : SignLaw comp num S) : LinearOn comp num S where
  antisymm k hk l hl := by
    rw [h k hk l hl, h l hl k hk, ← Int.sign_neg, Int.neg_sub]
  trans j hj k hk l hl hjk hkl := by
    rw [h.neg_iff hj hk] at hjk
    rw [h.neg_iff hk hl] at hkl
    exact (h.neg_iff hj hl).mpr (Nat.lt_trans hjk hkl)
  total k hk l hl hne := by
    rw [h.neg_iff hk hl, h.neg_iff hl hk]
    exact Nat.lt_or_gt_of_ne hne

end

/-- How far `i` lies ahead of `j`. -/
def ahead (m i j : Nat) : Nat := (m - j + i) % m

def comp (m t i j : Nat) : Int := if i = j then 0 else if ahead m i j < t then 1 else -1

/-- The number `k` places behind `b`. -/
def place (m b k : Nat) : Nat := (b + k) % m

section
variable {m b k l : Nat}

theorem mod_of_lt_twice {v : Nat} (h : v < 2 * m) : v % m = if v < m then v else v - m := by
  by_cases hv : v < m
  · rw [if_pos hv, Nat.mod_eq_of_lt hv]
  · rw [if_neg hv, Nat.mod_eq_sub_mod (Nat.le_of_not_lt hv), Nat.mod_eq_of_lt (by omega)]

theorem place_eq (hb : b < m) (hk : k < m) : place m b k = if b + k < m then b + k else b + k - m :=
  mod_of_lt_twice (by omega)

theorem place_inj (hb : b < m) (hk : k < m) (hl : l < m) : place m b k = place m b l ↔ k = l := by
  rw [place_eq hb hk, place_eq hb hl]
  split <;> split <;> omega

theorem ahead_place (hb : b < m) (hk : k < m) (hl : l < m) :
    ahead m (place m b k) (place m b l) = if l ≤ k then k - l else m - (l - k) := by
  rw [ahead, place_eq hb hk, place_eq hb hl, mod_of_lt_twice (by split <;> split <;> omega)]
  split <;> split <;> split <;> split <;> omega

/-- With a threshold of at most half of the circle, two numbers are compared right exactly if the one in
front is ahead by less than the threshold. -/
theorem comp_place_sign {t h : Nat} (hm : 2 * h ≤ m) (ht : t ≤ h) (hb : b < m) (hk : k < h) (hl : l < h) :
    (comp m t (place m b k) (place m b l)).sign = ((k : Int) - l).sign ↔ ¬ (l < k ∧ l + t ≤ k) := by
  have hk' : k < m := by omega
  have hl' : l < m := by omega
  simp only [comp, place_inj hb hk' hl', ahead_place hb hk' hl']
  rcases Nat.lt_trichotomy k l with hlt | rfl | hgt
  · have hneg : ((k : Int) - l).sign = -1 := Int.sign_eq_neg_one_of_neg (by omega)
    rw [if_neg (Nat.ne_of_lt hlt), if_neg (Nat.not_le.mpr hlt), if_neg (by omega), hneg]
    exact iff_of_true rfl (by omega)
  · rw [if_pos rfl]
    exact iff_of_true (by simp) (by omega)
  · have hpos : ((k : Int) - l).sign = 1 := Int.sign_eq_one_of_pos (by omega)
    rw [if_neg (Nat.ne_of_gt hgt), if_pos (Nat.le_of_lt hgt), hpos]
    by_cases hd : k - l < t
    · rw [if_pos hd]
      exact iff_of_true rfl (by omega)
    · rw [if_neg hd]
      exact iff_of_false (by decide) (by omega)

theorem signLaw_iff {t h : Nat} (hm : 2 * h ≤ m) (ht : t ≤ h) (hb : b < m) {S : Set Nat} (hS : ∀ k ∈ S, k < h) :
    SignLaw (comp m t) (place m b) S ↔ ∀ k ∈ S, ∀ l ∈ S, ¬ (l < k ∧ l + t ≤ k) := by
  refine ⟨fun h k hk l hl => ?_, fun h k hk l hl => ?_⟩
  · exact (comp_place_sign hm ht hb (hS k hk) (hS l hl)).mp (h k hk l hl)
  · exact (comp_place_sign hm ht hb (hS k hk) (hS l hl)).mpr (h k hk l hl)

end

end Circular
