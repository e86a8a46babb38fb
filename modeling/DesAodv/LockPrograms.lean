import DesAodv.Runs
import Mathlib.Data.List.Basic
import Mathlib.Data.Fin.Basic

/-!
# Programs that take locks

A program is reduced to the locks it takes and the shared variables it uses.
`check` follows it with the locks that are held: each lock is taken above all
that are held, and a variable is used only under its lock. Threads that run
checked programs never stand still and never use a variable at the same time
unless both only read it.
-/

namespace LockPrograms

inductive Mode
  | read
  | write
  deriving DecidableEq, Repr

/-- Two threads may hold a lock, or use a variable, in these modes at the same time. -/
def Mode.Compatible (m m' : Mode) : Prop := m = .read ∧ m' = .read

/-- A lock held in the first mode allows a use in the second. -/
def Mode.covers : Mode → Mode → Bool
  | .write, _ => true
  | .read, m => decide (m = .read)

theorem Mode.Compatible.of_covers {m m' k k' : Mode} (h : Compatible m m') (hm : m.covers k = true)
    (hm' : m'.covers k' = true) : Compatible k k' := by
  obtain ⟨rfl, rfl⟩ := h
  exact ⟨of_decide_eq_true hm, of_decide_eq_true hm'⟩

inductive Act (Λ V : Type*)
  | acquire (l : Λ) (m : Mode)
  | release (l : Λ)
  | access (v : V) (m : Mode)

inductive Prog (Λ V : Type*)
  | skip
  | act (a : Act Λ V)
  | seq (p q : Prog Λ V)
  | alt (p q : Prog Λ V)
  | loop (p : Prog Λ V)

section
variable {Λ V : Type*}

namespace Prog

/-- One after the other. -/
def block (ps : List (Prog Λ V)) : Prog Λ V := ps.foldr .seq .skip

/-- One of several. -/
def choose (p : Prog Λ V) (ps : List (Prog Λ V)) : Prog Λ V := ps.foldr .alt p

def maybe (p : Prog Λ V) : Prog Λ V := .alt p .skip

/-- The variables are used in the mode, in this order. -/
def uses (m : Mode) (vs : List V) : Prog Λ V := block (vs.map fun v => .act (.access v m))

/-- The program between taking and returning a lock. -/
def locked (l : Λ) (m : Mode) (p : Prog Λ V) : Prog Λ V :=
  block [.act (.acquire l m), p, .act (.release l)]

end Prog

/-- One step of a program, with the action it takes, if it takes one. -/
inductive Prog.Step : Prog Λ V → Option (Act Λ V) → Prog Λ V → Prop
  | act (a) : Step (.act a) (some a) .skip
  | seq {p p' q a} : Step p a p' → Step (.seq p q) a (.seq p' q)
  | next {q} : Step (.seq .skip q) none q
  | left {p q} : Step (.alt p q) none p
  | right {p q} : Step (.alt p q) none q
  | enter {p} : Step (.loop p) none (.seq p (.loop p))
  | leave {p} : Step (.loop p) none .skip

theorem Prog.step_or_done (p : Prog Λ V) : p = .skip ∨ ∃ a p', p.Step a p' := by
  induction p with
  | skip => exact .inl rfl
  | act a => exact .inr ⟨_, _, .act a⟩
  | alt p q => exact .inr ⟨_, _, .left⟩
  | loop p => exact .inr ⟨_, _, .leave⟩
  | seq p q ihp =>
    rcases ihp with rfl | ⟨a, p', hs⟩
    · exact .inr ⟨_, _, .next⟩
    · exact .inr ⟨_, _, .seq hs⟩

/-- The locks a thread holds. -/
abbrev Held (Λ : Type*) := List (Λ × Mode)

variable [DecidableEq Λ] {K : Nat} (rank : Λ → Fin K) (guardedBy : V → Λ)

/-- The locks that are held after an action. -/
def Act.after (held : Held Λ) : Act Λ V → Held Λ
  | .acquire l m => (l, m) :: held
  | .release l => held.filter fun h => decide (h.1 ≠ l)
  | .access .. => held

def Act.allowed (held : Held Λ) : Act Λ V → Bool
  | .acquire l _ => held.all fun h => decide (rank h.1 < rank l)
  | .release l => held.any fun h => decide (h.1 = l)
  | .access v m => held.any fun h => decide (h.1 = guardedBy v) && h.2.covers m

/-- The locks that are held after the program, if every action in it is allowed. -/
def check (held : Held Λ) : Prog Λ V → Option (Held Λ)
  | .skip => some held
  | .act a => if a.allowed rank guardedBy held then some (a.after held) else none
  | .seq p q => (check held p).bind fun held' => check held' q
  | .alt p q => if check held p = check held q then check held p else none
  | .loop p => if check held p = some held then some held else none

variable {rank guardedBy}

/-- A step of a checked program takes an allowed action, and leaves a checked program. -/
theorem check_step {held done : Held Λ} {p p' : Prog Λ V} {a : Option (Act Λ V)}
    (hc : check rank guardedBy held p = some done) (hs : p.Step a p') :
    (∀ b ∈ a, b.allowed rank guardedBy held = true) ∧
      check rank guardedBy (a.elim held (Act.after held)) p' = some done := by
  induction hs generalizing done with
  | act a =>
    rw [check] at hc
    split at hc
    · rename_i ha
      refine ⟨fun b hb => ?_, hc⟩
      rw [← Option.some.inj hb]
      exact ha
    · cases hc
  | seq hs ih =>
    obtain ⟨mid, hp, hq⟩ := Option.bind_eq_some_iff.mp hc
    obtain ⟨hallowed, hrest⟩ := ih hp
    refine ⟨hallowed, ?_⟩
    rw [check, hrest]
    exact hq
  | next => exact ⟨fun b hb => (nomatch hb), hc⟩
  | left =>
    rw [check] at hc
    split at hc
    · exact ⟨fun b hb => (nomatch hb), hc⟩
    · cases hc
  | right =>
    rw [check] at hc
    split at hc
    · rename_i heq
      exact ⟨fun b hb => (nomatch hb), heq ▸ hc⟩
    · cases hc
  | enter =>
    have hc' := hc
    rw [check] at hc
    split at hc
    · rename_i hp
      refine ⟨fun b hb => (nomatch hb), ?_⟩
      show check rank guardedBy held (.seq _ (.loop _)) = some done
      rw [check, hp]
      exact hc'
    · cases hc
  | leave =>
    rw [check] at hc
    split at hc
    · exact ⟨fun b hb => (nomatch hb), hc⟩
    · cases hc

theorem check_block {held : Held Λ} {ps : List (Prog Λ V)} (h : ∀ p ∈ ps, check rank guardedBy held p = some held) :
    check rank guardedBy held (Prog.block ps) = some held := by
  induction ps with
  | nil => rfl
  | cons p ps ih =>
    obtain ⟨hp, hps⟩ := List.forall_mem_cons.mp h
    show check rank guardedBy held (.seq p (Prog.block ps)) = some held
    rw [check, hp]
    exact ih hps

/-! ## Threads -/

structure Thread (Λ V : Type*) where
  held : Held Λ
  prog : Prog Λ V

/-- Nobody holds the lock. -/
def Free {ι : Type*} (s : ι → Thread Λ V) (l : Λ) : Prop := ∀ j m, (l, m) ∉ (s j).held

/-- The lock can be taken in the mode: whoever holds it, reads, and so will the one that takes it. -/
def Available {ι : Type*} (s : ι → Thread Λ V) (l : Λ) (m : Mode) : Prop :=
  ∀ j m', (l, m') ∈ (s j).held → m.Compatible m'

section
variable {ι : Type*} [DecidableEq ι]

/-- One of the threads takes a step. -/
inductive Step (s : ι → Thread Λ V) : (ι → Thread Λ V) → Prop
  | intro (i : ι) {a : Option (Act Λ V)} {p' : Prog Λ V} (hs : (s i).prog.Step a p')
      (hl : ∀ l m, a = some (.acquire l m) → Available s l m) :
      Step s (Function.update s i ⟨a.elim (s i).held (Act.after (s i).held), p'⟩)

variable (rank guardedBy)

/-- Every thread runs a checked program that returns all locks, and no lock is held against its mode. -/
structure Ordered (s : ι → Thread Λ V) : Prop where
  checked : ∀ i, check rank guardedBy (s i).held (s i).prog = some []
  exclusive : ∀ i j, i ≠ j → ∀ l m m', (l, m) ∈ (s i).held → (l, m') ∈ (s j).held → m.Compatible m'

variable {rank guardedBy} {s s' : ι → Thread Λ V}

omit [DecidableEq ι] in
/-- Threads that have not begun. -/
theorem ordered_start {prog : ι → Prog Λ V} (h : ∀ i, check rank guardedBy [] (prog i) = some []) :
    Ordered rank guardedBy fun i => ⟨[], prog i⟩ :=
  ⟨h, fun _ _ _ _ _ _ hm => absurd hm List.not_mem_nil⟩

theorem mem_after {a : Act Λ V} {held : Held Λ} {l : Λ} {m : Mode} (h : (l, m) ∈ a.after held) :
    a = .acquire l m ∨ (l, m) ∈ held := by
  cases a with
  | acquire l' m' =>
    rcases List.mem_cons.mp h with he | hm
    · obtain ⟨rfl, rfl⟩ := Prod.mk.inj he
      exact .inl rfl
    · exact .inr hm
  | release l' => exact .inr (List.mem_of_mem_filter h)
  | access v m' => exact .inr h

theorem Ordered.step (h : Ordered rank guardedBy s) (hs : Step s s') : Ordered rank guardedBy s' := by
  obtain ⟨i, hs, hl⟩ := hs
  rename_i a p'
  have hheld : ∀ l m, (l, m) ∈ a.elim (s i).held (Act.after (s i).held) →
      a = some (.acquire l m) ∨ (l, m) ∈ (s i).held := by
    intro l m hm
    cases a with
    | none => exact .inr hm
    | some a => exact (mem_after hm).imp_left fun he => congrArg some he
  have hnew : ∀ j, j ≠ i → ∀ l m m', (l, m) ∈ a.elim (s i).held (Act.after (s i).held) →
      (l, m') ∈ (s j).held → m.Compatible m' := by
    intro j hj l m m' hm hm'
    rcases hheld l m hm with he | hold
    · exact hl l m he j m' hm'
    · exact h.exclusive i j (Ne.symm hj) l m m' hold hm'
  refine ⟨fun j => ?_, fun j k hjk l m m' hm hm' => ?_⟩
  · by_cases hj : j = i
    · subst hj
      rw [Function.update_self]
      exact (check_step (h.checked j) hs).2
    · rw [Function.update_of_ne hj]
      exact h.checked j
  · by_cases hj : j = i
    · subst hj
      rw [Function.update_self] at hm
      rw [Function.update_of_ne (Ne.symm hjk)] at hm'
      exact hnew k (Ne.symm hjk) l m m' hm hm'
    · rw [Function.update_of_ne hj] at hm
      by_cases hk : k = i
      · subst hk
        rw [Function.update_self] at hm'
        exact And.symm (hnew j hj l m' m hm' hm)
      · rw [Function.update_of_ne hk] at hm'
        exact h.exclusive j k hjk l m m' hm hm'

/-- Whatever the threads do, in whatever order, it stays so. -/
theorem Ordered.run (h : Ordered rank guardedBy s) (hr : Relation.ReflTransGen Step s s') :
    Ordered rank guardedBy s' := by
  induction hr with
  | refl => exact h
  | tail _ hs ih => exact ih.step hs

omit [DecidableEq ι]

/-- A thread that has returned holds no lock. -/
theorem Ordered.returned (h : Ordered rank guardedBy s) {i : ι} (hd : (s i).prog = .skip) : (s i).held = [] := by
  have hc := h.checked i
  rw [hd] at hc
  exact Option.some.inj hc

/-- Two threads that are about to use a variable both only read it. -/
theorem Ordered.no_race (h : Ordered rank guardedBy s) {i j : ι} (hij : i ≠ j) {v : V} {m m' : Mode}
    {p q : Prog Λ V} (hi : (s i).prog.Step (some (.access v m)) p) (hj : (s j).prog.Step (some (.access v m')) q) :
    m.Compatible m' := by
  have guarded : ∀ k (m : Mode) p, (s k).prog.Step (some (.access v m)) p →
      ∃ m₁, (guardedBy v, m₁) ∈ (s k).held ∧ m₁.covers m = true := by
    intro k m p hk
    obtain ⟨⟨l, m₁⟩, hmem, hok⟩ := List.any_eq_true.mp ((check_step (h.checked k) hk).1 _ rfl)
    obtain ⟨hl, hc⟩ := Bool.and_eq_true_iff.mp hok
    obtain rfl : l = guardedBy v := of_decide_eq_true hl
    exact ⟨m₁, hmem, hc⟩
  obtain ⟨m₁, hm₁, hc₁⟩ := guarded i m p hi
  obtain ⟨m₂, hm₂, hc₂⟩ := guarded j m' q hj
  exact (h.exclusive i j hij _ m₁ m₂ hm₁ hm₂).of_covers hc₁ hc₂

/-- The thread can take a step, whichever way a lock chooses between those that wait for it. -/
def Runnable (s : ι → Thread Λ V) (i : ι) : Prop :=
  ∃ a p', (s i).prog.Step a p' ∧ ∀ l m, a = some (.acquire l m) → Free s l

omit [DecidableEq Λ] in
/-- A thread that cannot take a step waits for a lock that another one holds. -/
theorem waits_of_stuck {i : ι} (hstuck : ¬ Runnable s i) (hi : (s i).prog ≠ .skip) :
    ∃ l m p', (s i).prog.Step (some (.acquire l m)) p' ∧ ∃ j m', (l, m') ∈ (s j).held := by
  obtain ⟨a, p', hs⟩ := (s i).prog.step_or_done.resolve_left hi
  have hacquire : ∃ l m, a = some (.acquire l m) := by
    apply Classical.byContradiction
    intro hno
    exact hstuck ⟨a, p', hs, fun l m ha => absurd ⟨l, m, ha⟩ hno⟩
  obtain ⟨l, m, rfl⟩ := hacquire
  refine ⟨l, m, p', hs, Classical.byContradiction fun hno => hstuck ⟨_, p', hs, fun l' m' he => ?_⟩⟩
  obtain ⟨rfl, rfl⟩ := Act.acquire.inj (Option.some.inj he)
  exact fun j m' hm => hno ⟨j, m', hm⟩

/-- What is waited for ranks above what is held. -/
theorem Ordered.rank_lt (h : Ordered rank guardedBy s) {i : ι} {l l' : Λ} {m m' : Mode} {p' : Prog Λ V}
    (hs : (s i).prog.Step (some (.acquire l m)) p') (hm : (l', m') ∈ (s i).held) : rank l' < rank l :=
  of_decide_eq_true (List.all_eq_true.mp ((check_step (h.checked i) hs).1 _ rfl) _ hm)

/-- As long as a thread has not returned, some thread can take a step. -/
theorem Ordered.progress (h : Ordered rank guardedBy s) {i : ι} (hi : (s i).prog ≠ .skip) :
    ∃ j, Runnable s j := by
  apply Classical.byContradiction
  intro hnone
  have hstuck : ∀ j, ¬ Runnable s j := fun j hj => hnone ⟨j, hj⟩
  -- Whoever holds the lock a thread waits for, waits for one of a higher rank.
  have climbs : ∀ n, ∃ j l m p', (s j).prog.Step (some (.acquire l m)) p' ∧ n ≤ (rank l).val ∧
      ∃ k m', (l, m') ∈ (s k).held := by
    intro n
    induction n with
    | zero =>
      obtain ⟨l, m, p', hs, hheld⟩ := waits_of_stuck (hstuck i) hi
      exact ⟨i, l, m, p', hs, Nat.zero_le _, hheld⟩
    | succ n ih =>
      obtain ⟨_, l, _, _, _, hn, k, m', hk⟩ := ih
      have hbusy : (s k).prog ≠ .skip := fun hd => by
        rw [h.returned hd] at hk
        exact List.not_mem_nil hk
      obtain ⟨l₂, m₂, p₂, hs₂, hheld₂⟩ := waits_of_stuck (hstuck k) hbusy
      exact ⟨k, l₂, m₂, p₂, hs₂, Nat.succ_le_of_lt (Nat.lt_of_le_of_lt hn (h.rank_lt hs₂ hk)), hheld₂⟩
  obtain ⟨_, l, _, _, _, hn, _⟩ := climbs K
  exact absurd (rank l).isLt (Nat.not_lt.mpr hn)

end

end

end LockPrograms
