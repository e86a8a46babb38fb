import DesAodv.Runs
import Mathlib.Data.List.Basic

/-!
# Rounds

Runs in rounds: in each round something is given, and then a move is chosen.
`Leads` says that a state with one property can be led to one with another in a
number of rounds, whatever is given in them.
-/

namespace Runs

variable {σ ρ κ : Type*} (step : σ → κ → ρ → σ)

/-- The rounds in which `rs` is given and the moves `ks` are made. -/
def rounds (s : σ) (ks : List κ) (rs : List ρ) : σ := exec (fun s kr => step s kr.1 kr.2) s (ks.zip rs)

variable (Given : ρ → Prop)

/-- Whatever is given in `n` rounds, there are moves that lead from a state with `P` to one with `Q`. -/
def Leads (n : Nat) (P Q : σ → Prop) : Prop :=
  ∀ s, P s → ∀ rs, rs.length = n → (∀ r ∈ rs, Given r) → ∃ ks, ks.length = n ∧ Q (rounds step s ks rs)

variable {step Given} {n m : Nat} {P Q R : σ → Prop}

theorem rounds_append {s : σ} {ks ks' : List κ} {rs rs' : List ρ} (h : ks.length = rs.length) :
    rounds step s (ks ++ ks') (rs ++ rs') = rounds step (rounds step s ks rs) ks' rs' := by
  unfold rounds
  rw [List.zip_append h, exec_append]

theorem Leads.refl (h : ∀ s, P s → Q s) : Leads step Given 0 P Q := by
  intro s hs rs hl _
  obtain rfl := List.length_eq_zero_iff.mp hl
  exact ⟨[], rfl, h s hs⟩

theorem Leads.single (h : ∀ s, P s → ∀ r, Given r → ∃ k, Q (step s k r)) : Leads step Given 1 P Q := by
  intro s hs rs hl hg
  obtain ⟨r, rfl⟩ := List.length_eq_one_iff.mp hl
  obtain ⟨k, hk⟩ := h s hs r (hg r List.mem_cons_self)
  exact ⟨[k], rfl, hk⟩

theorem Leads.trans (h : Leads step Given n P Q) (h' : Leads step Given m Q R) : Leads step Given (n + m) P R := by
  intro s hs rs hl hg
  have hlen : (rs.take n).length = n := by
    rw [List.length_take, hl]
    exact Nat.min_eq_left (Nat.le_add_right n m)
  have hlen' : (rs.drop n).length = m := by
    rw [List.length_drop, hl]
    exact Nat.add_sub_cancel_left n m
  obtain ⟨ks, hk, hq⟩ := h s hs (rs.take n) hlen fun r hr => hg r (List.mem_of_mem_take hr)
  obtain ⟨ks', hk', hr⟩ := h' _ hq (rs.drop n) hlen' fun r hr => hg r (List.mem_of_mem_drop hr)
  refine ⟨ks ++ ks', by rw [List.length_append, hk, hk'], ?_⟩
  rw [← List.take_append_drop n rs, rounds_append (hk.trans hlen.symm)]
  exact hr

/-- A round for each stage leads through all of them. -/
theorem Leads.stages {P : Nat → σ → Prop} (h : ∀ i < n, Leads step Given 1 (P i) (P (i + 1))) :
    Leads step Given n (P 0) (P n) := by
  induction n with
  | zero => exact .refl fun _ hs => hs
  | succ n ih => exact (ih fun i hi => h i (Nat.lt_succ_of_lt hi)).trans (h n (Nat.lt_succ_self n))

theorem Leads.descend {P : Nat → σ → Prop} (h : ∀ i < n, Leads step Given 1 (P (i + 1)) (P i)) :
    Leads step Given n (P n) (P 0) := by
  induction n with
  | zero => exact .refl fun _ hs => hs
  | succ n ih =>
    rw [Nat.add_comm n 1]
    exact Nat.add_comm n 1 ▸ (h n (Nat.lt_succ_self n)).trans (ih fun i hi => h i (Nat.lt_succ_of_lt hi))

/-- Rounds as a run of the moves. -/
theorem rounds_eq {ε : Type*} {step' : σ → ε → σ} {move : κ → ρ → ε} (h : ∀ s k r, step s k r = step' s (move k r))
    (s : σ) (ks : List κ) (rs : List ρ) : rounds step s ks rs = exec step' s (List.zipWith move ks rs) := by
  unfold rounds
  induction ks generalizing s rs with
  | nil => rfl
  | cons k ks ih =>
    cases rs with
    | nil => rfl
    | cons r rs =>
      rw [List.zip_cons_cons, List.zipWith_cons_cons, exec, exec, h, ih]

end Runs
