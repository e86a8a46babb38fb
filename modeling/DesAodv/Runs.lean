import Mathlib.Data.List.Induction
import Mathlib.Logic.Basic
import Mathlib.Order.Defs.PartialOrder

/-!
# Runs of a labelled system

A system is a function from a state and an event to the next state; a run is a
list of events. `Throughout P` says that `P` holds in every state of a run,
`Always P` that it holds of every state together with the event taken there.
-/

namespace Runs

section
variable {σ ε : Type*} (step : σ → ε → σ)

def exec : σ → List ε → σ
  | s, [] => s
  | s, e :: es => exec (step s e) es

def Always (P : σ → ε → Prop) : σ → List ε → Prop
  | _, [] => True
  | s, e :: es => P s e ∧ Always P (step s e) es

def Throughout (P : σ → Prop) : σ → List ε → Prop
  | s, [] => P s
  | s, e :: es => P s ∧ Throughout P (step s e) es

instance instDecidableAlways {P : σ → ε → Prop} [∀ s e, Decidable (P s e)] :
    ∀ s es, Decidable (Always step P s es)
  | _, [] => isTrue trivial
  | s, e :: es => @instDecidableAnd _ _ _ (instDecidableAlways (step s e) es)

variable {step}

theorem exec_append (s : σ) (es es' : List ε) : exec step s (es ++ es') = exec step (exec step s es) es' := by
  induction es generalizing s with
  | nil => rfl
  | cons e es ih => exact ih (step s e)

theorem Throughout.head {P : σ → Prop} {s : σ} {es : List ε} (h : Throughout step P s es) : P s := by
  cases es with
  | nil => exact h
  | cons e es => exact h.1

theorem throughout_iff {P : σ → Prop} {s : σ} {es : List ε} :
    Throughout step P s es ↔ ∀ pre post, es = pre ++ post → P (exec step s pre) := by
  induction es generalizing s with
  | nil =>
    constructor
    · intro h pre post he
      obtain ⟨rfl, -⟩ := List.append_eq_nil_iff.mp he.symm
      exact h
    · intro h; exact h [] [] rfl
  | cons e es ih =>
    constructor
    · intro hx pre post he
      obtain ⟨h0, ht⟩ := hx
      cases pre with
      | nil => exact h0
      | cons e' pre =>
        obtain ⟨rfl, rfl⟩ := List.cons.inj he
        exact ih.mp ht pre post rfl
    · intro h
      exact ⟨h [] _ rfl, ih.mpr fun pre post he => h (e :: pre) post (by rw [he]; rfl)⟩

theorem always_iff {P : σ → ε → Prop} {s : σ} {es : List ε} :
    Always step P s es ↔ ∀ pre e post, es = pre ++ e :: post → P (exec step s pre) e := by
  induction es generalizing s with
  | nil => simp [Always]
  | cons e es ih =>
    constructor
    · intro hx pre e' post he
      obtain ⟨h0, ht⟩ := hx
      cases pre with
      | nil =>
        obtain ⟨rfl, rfl⟩ := List.cons.inj he
        exact h0
      | cons e'' pre =>
        obtain ⟨rfl, rfl⟩ := List.cons.inj he
        exact ih.mp ht pre e' post rfl
    · intro h
      exact ⟨h [] e es rfl, ih.mpr fun pre e' post he => h (e :: pre) e' post (by rw [he]; rfl)⟩

theorem Always.concat {P : σ → ε → Prop} {s : σ} {es : List ε} {e : ε} (h : Always step P s (es ++ [e])) :
    Always step P s es ∧ P (exec step s es) e := by
  rw [always_iff] at h
  refine ⟨always_iff.mpr fun pre e' post he => ?_, h es e [] rfl⟩
  exact h pre e' (post ++ [e]) (by rw [he, List.append_assoc, List.cons_append])

theorem throughout_project {τ : Type*} {step' : τ → ε → τ} {f : σ → τ} (hf : ∀ s e, f (step s e) = step' (f s) e)
    {P : τ → Prop} {s : σ} {es : List ε} :
    Throughout step (fun s => P (f s)) s es ↔ Throughout step' P (f s) es := by
  induction es generalizing s with
  | nil => exact Iff.rfl
  | cons e es ih =>
    refine and_congr_right fun _ => ?_
    rw [← hf]
    exact ih

theorem Throughout.project {τ : Type*} {step' : τ → ε → τ} {f : σ → τ} (hf : ∀ s e, f (step s e) = step' (f s) e)
    {P : τ → Prop} {s : σ} {es : List ε} (h : Throughout step (fun s => P (f s)) s es) :
    Throughout step' P (f s) es := (throughout_project hf).mp h

theorem Throughout.imp {P Q : σ → Prop} (h : ∀ s, P s → Q s) {s : σ} {es : List ε} (ht : Throughout step P s es) :
    Throughout step Q s es := by
  induction es generalizing s with
  | nil => exact h s ht
  | cons e es ih => exact ⟨h s ht.1, ih ht.2⟩

/-- The induction over a run whose steps all meet `C`. -/
theorem throughout_of_always {I : σ → Prop} {C : σ → ε → Prop}
    (hs : ∀ s e, I s → C s e → I (step s e)) {s : σ} {es : List ε} (h0 : I s)
    (hC : Always step C s es) : Throughout step I s es := by
  induction es generalizing s with
  | nil => exact h0
  | cons e es ih => exact ⟨h0, ih (hs s e h0 hC.1) hC.2⟩

theorem Always.and {P Q : σ → ε → Prop} {s : σ} {es : List ε} (h : Always step P s es) (h' : Always step Q s es) :
    Always step (fun s e => P s e ∧ Q s e) s es := by
  induction es generalizing s with
  | nil => trivial
  | cons e es ih => exact ⟨⟨h.1, h'.1⟩, ih h.2 h'.2⟩

theorem throughout_iff_always_step {P : σ → Prop} {s : σ} {es : List ε} :
    Throughout step P s es ↔ P s ∧ Always step (fun s e => P (step s e)) s es := by
  induction es generalizing s with
  | nil => exact (and_iff_left trivial).symm
  | cons e es ih => exact and_congr_right fun _ => ih

theorem Throughout.always {P : σ → Prop} {s : σ} {es : List ε} (h : Throughout step P s es) :
    Always step (fun s _ => P s) s es := by
  induction es generalizing s with
  | nil => trivial
  | cons e es ih => exact ⟨h.1, ih h.2⟩

theorem throughout_of_always_concat {P : σ → Prop} {s : σ} {es : List ε} {e : ε}
    (h : Always step (fun s _ => P s) s (es ++ [e])) : Throughout step P s es := by
  induction es generalizing s with
  | nil => exact h.1
  | cons e' es ih => exact ⟨h.1, ih h.2⟩

theorem always_of_mem {P : ε → Prop} {s : σ} {es : List ε} (h : ∀ e ∈ es, P e) :
    Always step (fun _ e => P e) s es := by
  induction es generalizing s with
  | nil => trivial
  | cons e es ih => exact ⟨h e List.mem_cons_self, ih fun e' he => h e' (List.mem_cons_of_mem e he)⟩

/-- Along a run whose steps all meet `H`, two conditions are equivalent if they are so where the
invariant holds, and one of them keeps it. -/
theorem always_congr_along {I : σ → Prop} {H P C : σ → ε → Prop} (hPC : ∀ s e, I s → H s e → (P s e ↔ C s e))
    (hI : ∀ s e, I s → H s e → C s e → I (step s e)) {s : σ} {es : List ε} (h0 : I s)
    (hH : Always step H s es) : Always step P s es ↔ Always step C s es := by
  induction es generalizing s with
  | nil => exact Iff.rfl
  | cons e es ih =>
    constructor
    · intro h
      obtain ⟨hp, ht⟩ := h
      have hc := (hPC s e h0 hH.1).mp hp
      exact ⟨hc, (ih (hI s e h0 hH.1 hc) hH.2).mp ht⟩
    · intro h
      obtain ⟨hc, ht⟩ := h
      exact ⟨(hPC s e h0 hH.1).mpr hc, (ih (hI s e h0 hH.1 hc) hH.2).mpr ht⟩

theorem of_exec {B : σ → Prop} (hB : ∀ s e, B (step s e) → B s) {s : σ} {es : List ε} (h : B (exec step s es)) :
    B s := by
  induction es generalizing s with
  | nil => exact h
  | cons e es ih => exact hB s e (ih h)

/-- What no step can win back holds all along a run that ends with it. -/
theorem always_of_final {B : σ → Prop} (hB : ∀ s e, B (step s e) → B s) {s : σ} {es : List ε}
    (hb : B (exec step s es)) : Always step (fun s e => B (step s e)) s es := by
  induction es generalizing s with
  | nil => trivial
  | cons e es ih => exact ⟨of_exec hB hb, ih hb⟩

theorem Always.imp {P Q : σ → ε → Prop} (h : ∀ s e, P s e → Q s e) {s : σ} {es : List ε} (ha : Always step P s es) :
    Always step Q s es := by
  induction es generalizing s with
  | nil => trivial
  | cons e es ih => exact ⟨h s e ha.1, ih ha.2⟩

theorem exec_inv {I : σ → Prop} (hs : ∀ s e, I s → I (step s e)) {s : σ} (h0 : I s) (es : List ε) :
    I (exec step s es) := by
  induction es generalizing s with
  | nil => exact h0
  | cons e es ih => exact ih (hs s e h0)

/-- What holds at the end and not at the beginning comes from a step that meets `C`, with steps that meet `K`
after it. -/
theorem exec_source {J P : σ → Prop} {C : σ → ε → Prop} {K : ε → Prop} (hJ : ∀ s e, J s → J (step s e))
    (hs : ∀ s e, J s → P (step s e) → C s e ∨ P s ∧ K e) {s : σ} (h0 : J s) (hP : ¬ P s) {es : List ε}
    (h : P (exec step s es)) :
    ∃ pre e post, es = pre ++ e :: post ∧ C (exec step s pre) e ∧ ∀ e' ∈ post, K e' := by
  induction es using List.reverseRecOn with
  | nil => exact absurd h hP
  | append_singleton es e ih =>
    rw [exec_append] at h
    rcases hs _ e (exec_inv hJ h0 es) h with hC | ⟨hP', hK⟩
    · exact ⟨es, e, [], rfl, hC, fun _ h' => nomatch h'⟩
    · obtain ⟨pre, e₀, post, rfl, hC, hpost⟩ := ih hP'
      refine ⟨pre, e₀, post ++ [e], by simp, hC, fun e' he' => ?_⟩
      rcases List.mem_append.mp he' with he' | he'
      · exact hpost e' he'
      · exact List.mem_singleton.mp he' ▸ hK

/-- A loss that is for ever is there at the end exactly if it was there at the beginning or a step that
does not meet `C` has caused it. -/
theorem exec_iff_not_always {J L : σ → Prop} {C : σ → ε → Prop} (hs : ∀ s e, J s → J (step s e))
    (hL : ∀ s e, J s → (L (step s e) ↔ L s ∨ ¬ C s e)) {s : σ} (h0 : J s) (es : List ε) :
    L (exec step s es) ↔ L s ∨ ¬ Always step C s es := by
  induction es generalizing s with
  | nil => exact (or_iff_left fun h => h trivial).symm
  | cons e es ih =>
    have htail := ih (hs s e h0)
    rw [hL s e h0] at htail
    refine htail.trans (or_assoc.trans (or_congr_right ?_))
    exact not_and_or.symm

/-- A run meets `P` exactly if it meets `C`, where this is so in good states and steps that meet `P`
lead to good states. -/
theorem always_congr_while {J G : σ → Prop} {P C : σ → ε → Prop} (hs : ∀ s e, J s → J (step s e))
    (hG : ∀ s e, P s e → G (step s e)) (hPC : ∀ s e, J s → G s → (P s e ↔ C s e)) {s : σ} {es : List ε}
    (h0 : J s) (g0 : G s) : Always step P s es ↔ Always step C s es := by
  induction es generalizing s with
  | nil => exact Iff.rfl
  | cons e es ih =>
    constructor
    · intro h
      obtain ⟨hp, ht⟩ := h
      exact ⟨(hPC s e h0 g0).mp hp, (ih (hs s e h0) (hG s e hp)).mp ht⟩
    · intro h
      obtain ⟨hc, ht⟩ := h
      have hp := (hPC s e h0 g0).mpr hc
      exact ⟨hp, (ih (hs s e h0) (hG s e hp)).mpr ht⟩

/-- When a step that meets `H` out of a good state is good exactly if it meets `C`, a run whose steps all
meet `H` stays good exactly if all its steps meet `C`, up to the first that does not. -/
theorem throughout_iff_always_along {J P : σ → Prop} {C H : σ → ε → Prop} (hs : ∀ s e, J s → J (step s e))
    (hPC : ∀ s e, J s → P s → H s e → (P (step s e) ↔ C s e)) {s : σ} {es : List ε} (h0 : J s) (hP : P s)
    (hH : Always step H s es) : Throughout step P s es ↔ Always step C s es := by
  induction es generalizing s with
  | nil => exact ⟨fun _ => trivial, fun _ => hP⟩
  | cons e es ih =>
    constructor
    · intro h
      obtain ⟨-, ht⟩ := h
      exact ⟨(hPC s e h0 hP hH.1).mp ht.head, (ih (hs s e h0) ht.head hH.2).mp ht⟩
    · intro h
      obtain ⟨hc, hC⟩ := h
      have hP' := (hPC s e h0 hP hH.1).mpr hc
      exact ⟨hP, (ih (hs s e h0) hP' hH.2).mpr hC⟩

theorem throughout_iff_always {J P : σ → Prop} {C : σ → ε → Prop} (hs : ∀ s e, J s → J (step s e))
    (hPC : ∀ s e, J s → P s → (P (step s e) ↔ C s e)) {s : σ} {es : List ε} (h0 : J s) (hP : P s) :
    Throughout step P s es ↔ Always step C s es :=
  throughout_iff_always_along hs (fun s e hj hp _ => hPC s e hj hp) h0 hP (always_of_mem fun _ _ => trivial)

theorem always_append {P : σ → ε → Prop} {s : σ} {es es' : List ε} :
    Always step P s (es ++ es') ↔ Always step P s es ∧ Always step P (exec step s es) es' := by
  induction es generalizing s with
  | nil => exact (and_iff_right trivial).symm
  | cons e es ih => exact (and_congr_right fun _ => ih).trans and_assoc.symm

/-! ## Views of a run -/

theorem exec_map {τ δ : Type*} {step' : τ → δ → τ} {f : σ → τ} {g : ε → δ}
    (h : ∀ s e, f (step s e) = step' (f s) (g e)) (s : σ) (es : List ε) :
    f (exec step s es) = exec step' (f s) (es.map g) := by
  induction es generalizing s with
  | nil => rfl
  | cons e es ih =>
    rw [exec, ih, h]
    rfl

theorem always_map {τ δ : Type*} {step' : τ → δ → τ} {f : σ → τ} {g : ε → δ}
    (h : ∀ s e, f (step s e) = step' (f s) (g e)) {P : τ → δ → Prop} {s : σ} {es : List ε} :
    Always step' P (f s) (es.map g) ↔ Always step (fun s e => P (f s) (g e)) s es := by
  induction es generalizing s with
  | nil => exact Iff.rfl
  | cons e es ih =>
    refine and_congr_right fun _ => ?_
    rw [← h]
    exact ih

section
variable {ρ : Type*} [Preorder ρ] {rank : σ → ρ} {s : σ} {es : List ε}

theorem exec_rank_le (h : Always step (fun s e => rank (step s e) ≤ rank s) s es) :
    rank (exec step s es) ≤ rank s := by
  induction es generalizing s with
  | nil => exact le_refl _
  | cons e es ih => exact le_trans (ih h.2) h.1

variable (rank) in
/-- A run whose steps do not raise a rank ends no higher than it has been before. -/
theorem exec_rank_le_prefix (h : Always step (fun s e => rank (step s e) ≤ rank s) s es) {pre post : List ε}
    (he : es = pre ++ post) : rank (exec step s es) ≤ rank (exec step s pre) := by
  subst he
  rw [exec_append]
  exact exec_rank_le (always_append.mp h).2

end

end

end Runs
