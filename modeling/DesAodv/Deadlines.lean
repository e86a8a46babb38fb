import Mathlib.Data.Set.Card
import Mathlib.Logic.Function.Basic

/-!
# Deadlines

A table of objects with a deadline each, as a map. `expire` takes out what is
due; `Handed` says in which order and how often it is handed over.
-/

namespace Deadlines

section
variable {α τ : Type*} [LinearOrder τ]

/-- The objects that have a deadline. -/
def alive (d : α → Option τ) : Set α := {o | d o ≠ none}

/-- The deadlines after the time `T`. -/
def expire (d : α → Option τ) (T : τ) : α → Option τ := fun o => (d o).filter fun t => decide (T < t)

/-- What is due until `T` is in the list, each object once, in the order of the deadlines. -/
structure Handed (d : α → Option τ) (T : τ) (gone : List (α × τ)) : Prop where
  mem : ∀ o t, (o, t) ∈ gone ↔ d o = some t ∧ t ≤ T
  once : (gone.map Prod.fst).Nodup
  ordered : gone.Pairwise fun x y => x.2 ≤ y.2

/-- The object has the earliest deadline, and it is due until `T`. -/
def Earliest (d : α → Option τ) (T : τ) (o : α) : Prop :=
  ∃ t, d o = some t ∧ t ≤ T ∧ ∀ o' t', d o' = some t' → t ≤ t'

theorem expire_eq_some {d : α → Option τ} {T : τ} {o : α} {t : τ} :
    expire d T o = some t ↔ d o = some t ∧ T < t := by
  simp [expire, Option.filter_eq_some_iff]

theorem expire_eq_none {d : α → Option τ} {T : τ} {o : α} :
    expire d T o = none ↔ ∀ t, d o = some t → t ≤ T := by
  simp [expire, Option.filter_eq_none_iff]

omit [LinearOrder τ] in
theorem mem_alive {d : α → Option τ} {o : α} : o ∈ alive d ↔ ∃ t, d o = some t :=
  Option.ne_none_iff_exists'

omit [LinearOrder τ] in
@[simp] theorem alive_none : alive (fun _ : α => (none : Option τ)) = ∅ :=
  Set.eq_empty_of_forall_notMem fun _ h => h rfl

theorem alive_expire (d : α → Option τ) (T : τ) : alive (expire d T) ⊆ alive d := by
  intro o ho
  obtain ⟨t, ht⟩ := mem_alive.mp ho
  exact mem_alive.mpr ⟨t, (expire_eq_some.mp ht).1⟩

omit [LinearOrder τ] in
theorem alive_update [DecidableEq α] (d : α → Option τ) (o : α) (t : Option τ) :
    alive (Function.update d o t) ⊆ insert o (alive d) := by
  intro x hx
  by_cases hxo : x = o
  · exact .inl hxo
  · obtain ⟨t', ht'⟩ := mem_alive.mp hx
    rw [Function.update_of_ne hxo] at ht'
    exact .inr (mem_alive.mpr ⟨t', ht'⟩)

end

end Deadlines
