import Mathlib.Data.List.TakeWhile
import DesAodv.Helper

/-!
# The life of a series

What can happen to one RREQ series, whoever does it: an automaton with the
places a series can be at. Every history of a life sends a bounded number of
RREQs, with a ttl that does not fall.
-/

namespace DesAodv

/-- A series is held by an invocation that is to send a RREQ, to let it go or to delete it, or by the
schedule table, or by no one. -/
inductive Place
  | sending | rescheduling | deleting | waiting | abandoned
  deriving DecidableEq, Repr

inductive Life
  | unborn
  | there (place : Place) (stop : Bool) (retries : Nat) (ttl : UInt8)
  | freed
  deriving DecidableEq, Repr

inductive LifeEvent
  | rreq (ttl : UInt8)
  | removed
  | freed
  deriving DecidableEq, Repr

/-- One turn in a life, with its events. -/
inductive Turn : Life → List LifeEvent → Life → Prop
  | idle (l : Life) : Turn l [] l
  | start (ttl : UInt8) : Turn .unborn [] (.there .sending false 0 ttl)
  | postpone (stop : Bool) (retries : Nat) (ttl : UInt8) :
      Turn (.there .sending stop retries ttl) [] (.there .rescheduling stop retries ttl)
  | send (stop : Bool) (retries : Nat) (ttl ttl' : UInt8) (h : retries < rreqRetries) (ht : ttl ≤ ttl') :
      Turn (.there .sending stop retries ttl) [.rreq ttl] (.there .rescheduling stop (retries + 1) ttl')
  | sendLast (stop : Bool) (retries : Nat) (ttl : UInt8) :
      Turn (.there .sending stop retries ttl) [.rreq ttl] (.there .deleting stop retries ttl)
  | schedule (retries : Nat) (ttl : UInt8) :
      Turn (.there .rescheduling false retries ttl) [] (.there .waiting false retries ttl)
  | free (retries : Nat) (ttl : UInt8) : Turn (.there .rescheduling true retries ttl) [.freed] .freed
  | abandon (stop : Bool) (retries : Nat) (ttl : UInt8) :
      Turn (.there .deleting stop retries ttl) [] (.there .abandoned true retries ttl)
  | pop (retries : Nat) (ttl : UInt8) :
      Turn (.there .waiting false retries ttl) [] (.there .sending false retries ttl)
  | mark (place : Place) (retries : Nat) (ttl : UInt8) (h : place ≠ .waiting) :
      Turn (.there place false retries ttl) [.removed] (.there place true retries ttl)
  | drop (retries : Nat) (ttl : UInt8) : Turn (.there .waiting false retries ttl) [.removed, .freed] .freed

/-- A life and what happened in it. -/
inductive Lived : List LifeEvent → Life → Prop
  | unborn : Lived [] .unborn
  | turn {past : List LifeEvent} {l : Life} {es : List LifeEvent} {l' : Life} (h : Lived past l)
      (ht : Turn l es l') : Lived (past ++ es) l'

/-! ## Histories -/

def LifeEvent.ttl : LifeEvent → Option UInt8
  | .rreq ttl => some ttl
  | _ => none

/-- The ttls of the RREQs sent. -/
def ttls (past : List LifeEvent) : List UInt8 := past.filterMap LifeEvent.ttl

/-- What came after the removal. -/
def afterRemoval (past : List LifeEvent) : List LifeEvent := past.dropWhile fun e => decide (e ≠ .removed)

theorem ttls_append (past es : List LifeEvent) : ttls (past ++ es) = ttls past ++ ttls es :=
  List.filterMap_append ..

theorem ttls_silent (past : List LifeEvent) {es : List LifeEvent} (hes : ttls es = []) :
    ttls (past ++ es) = ttls past := by
  rw [ttls_append, hes, List.append_nil]

theorem afterRemoval_append (past es : List LifeEvent) :
    afterRemoval (past ++ es) =
      if .removed ∈ past then afterRemoval past ++ es else afterRemoval es := by
  induction past with
  | nil => rfl
  | cons e past ih =>
    by_cases he : e = .removed
    · subst he
      rw [if_pos List.mem_cons_self]
      rfl
    · have hmem : (LifeEvent.removed ∈ e :: past) ↔ .removed ∈ past := by
        rw [List.mem_cons]
        exact or_iff_right (Ne.symm he)
      have hdrop : ∀ xs, afterRemoval (e :: xs) = afterRemoval xs := fun xs =>
        List.dropWhile_cons_of_pos (decide_eq_true he)
      rw [List.cons_append, hdrop, hdrop, ih]
      simp only [hmem]

theorem afterRemoval_nil {past : List LifeEvent} (h : .removed ∉ past) : afterRemoval past = [] := by
  apply List.dropWhile_eq_nil_iff.mpr
  intro e he
  rw [decide_eq_true_eq]
  intro hx
  obtain rfl := hx
  exact h he

/-! ## What every history keeps to -/

/-- How many RREQs a series has sent, by where it is. -/
def SentSoFar (past : List LifeEvent) (retries : Nat) : Place → Prop
  | .sending => (ttls past).length ≤ retries ∧ retries ≤ rreqRetries ∧ ttls (afterRemoval past) = []
  | .rescheduling => (ttls past).length ≤ retries ∧ retries ≤ rreqRetries ∧ (ttls (afterRemoval past)).length ≤ 1
  | .waiting => (ttls past).length ≤ retries ∧ retries ≤ rreqRetries ∧ ttls (afterRemoval past) = []
  | .deleting => (ttls past).length ≤ rreqRetries + 1 ∧ (ttls (afterRemoval past)).length ≤ 1
  | .abandoned => (ttls past).length ≤ rreqRetries + 1 ∧ (ttls (afterRemoval past)).length ≤ 1

def Within (past : List LifeEvent) : Life → Prop
  | .unborn => past = []
  | .there place stop retries ttl =>
    SentSoFar past retries place ∧ (∀ x ∈ ttls past, x ≤ ttl) ∧ (ttls past).Pairwise (· ≤ ·) ∧
      .freed ∉ past ∧ (.removed ∈ past → stop = true)
  | .freed =>
    (ttls past).length ≤ rreqRetries + 1 ∧ (ttls (afterRemoval past)).length ≤ 1 ∧
      (ttls past).Pairwise (· ≤ ·) ∧ past.count .freed = 1

theorem sent_within {past : List LifeEvent} {ttl ttl' : UInt8} (hle : ∀ x ∈ ttls past, x ≤ ttl)
    (hs : (ttls past).Pairwise (· ≤ ·)) (ht : ttl ≤ ttl') :
    (∀ x ∈ ttls (past ++ [.rreq ttl]), x ≤ ttl') ∧ (ttls (past ++ [.rreq ttl])).Pairwise (· ≤ ·) := by
  have happ : ttls (past ++ [.rreq ttl]) = ttls past ++ [ttl] := ttls_append past [.rreq ttl]
  rw [happ]
  constructor
  · intro x hx
    rcases List.mem_append.mp hx with hx | hx
    · exact UInt8.le_trans (hle x hx) ht
    · rw [List.mem_singleton.mp hx]
      exact ht
  · apply List.pairwise_append.mpr
    refine ⟨hs, List.pairwise_singleton _ _, ?_⟩
    intro x hx y hy
    rw [List.mem_singleton.mp hy]
    exact hle x hx

theorem further_sent {past : List LifeEvent} (ttl : UInt8) (h : ttls (afterRemoval past) = []) :
    (ttls (afterRemoval (past ++ [.rreq ttl]))).length ≤ 1 := by
  rw [afterRemoval_append]
  by_cases hr : LifeEvent.removed ∈ past
  · rw [if_pos hr, ttls_append, h]
    exact Nat.le_refl 1
  · rw [if_neg hr]
    exact Nat.zero_le 1

theorem further_removed {past : List LifeEvent} (h : .removed ∉ past) (es : List LifeEvent)
    (hes : ttls es = []) : ttls (afterRemoval (past ++ .removed :: es)) = [] := by
  rw [afterRemoval_append, if_neg h]
  exact hes

theorem freed_within {past es : List LifeEvent} (hes : ttls es = []) (hone : es.count .freed = 1)
    (hlen : (ttls past).length ≤ rreqRetries + 1) (hafter : (ttls (afterRemoval (past ++ es))).length ≤ 1)
    (hs : (ttls past).Pairwise (· ≤ ·)) (hf : .freed ∉ past) : Within (past ++ es) .freed := by
  have htt := ttls_silent past hes
  refine ⟨?_, hafter, ?_, ?_⟩
  · rw [htt]
    exact hlen
  · rw [htt]
    exact hs
  · rw [List.count_append, List.count_eq_zero_of_not_mem hf, Nat.zero_add]
    exact hone

theorem Turn.within {past : List LifeEvent} {l : Life} {es : List LifeEvent} {l' : Life} (h : Within past l)
    (ht : Turn l es l') : Within (past ++ es) l' := by
  cases ht with
  | idle =>
    rw [List.append_nil]
    exact h
  | start ttl =>
    obtain rfl := h
    exact ⟨⟨Nat.le_refl 0, Nat.zero_le _, rfl⟩, List.forall_mem_nil _, List.Pairwise.nil, List.not_mem_nil,
      fun hm => absurd hm List.not_mem_nil⟩
  | postpone stop retries ttl =>
    obtain ⟨⟨hlen, hr, hafter⟩, hrest⟩ := h
    rw [List.append_nil]
    refine ⟨⟨hlen, hr, ?_⟩, hrest⟩
    rw [hafter]
    exact Nat.zero_le 1
  | send stop retries ttl ttl' hr ht =>
    obtain ⟨⟨hlen, -, hafter⟩, hle, hs, hf, hm⟩ := h
    obtain ⟨hle', hs'⟩ := sent_within hle hs ht
    refine ⟨⟨?_, hr, further_sent ttl hafter⟩, hle', hs', ?_, ?_⟩
    · rw [ttls_append, List.length_append]
      exact Nat.succ_le_succ hlen
    · simpa using hf
    · intro hmem
      exact hm (by simpa using hmem)
  | sendLast stop retries ttl =>
    obtain ⟨⟨hlen, hr, hafter⟩, hle, hs, hf, hm⟩ := h
    obtain ⟨hle', hs'⟩ := sent_within hle hs (UInt8.le_refl ttl)
    refine ⟨⟨?_, further_sent ttl hafter⟩, hle', hs', ?_, ?_⟩
    · rw [ttls_append, List.length_append]
      exact Nat.succ_le_succ (Nat.le_trans hlen hr)
    · simpa using hf
    · intro hmem
      exact hm (by simpa using hmem)
  | schedule retries ttl =>
    obtain ⟨⟨hlen, hr, -⟩, hle, hs, hf, hm⟩ := h
    rw [List.append_nil]
    refine ⟨⟨hlen, hr, ?_⟩, hle, hs, hf, hm⟩
    rw [afterRemoval_nil fun hmem => Bool.noConfusion (hm hmem)]
    rfl
  | free retries ttl =>
    obtain ⟨⟨hlen, hr, hafter⟩, hle, hs, hf, hm⟩ := h
    refine freed_within rfl rfl (by omega) ?_ hs hf
    rw [afterRemoval_append]
    split
    · rw [ttls_silent _ rfl]
      exact hafter
    · exact Nat.zero_le 1
  | abandon stop retries ttl =>
    obtain ⟨hsent, hle, hs, hf, -⟩ := h
    rw [List.append_nil]
    exact ⟨hsent, hle, hs, hf, fun _ => rfl⟩
  | pop retries ttl =>
    rw [List.append_nil]
    exact h
  | mark place retries ttl hplace =>
    obtain ⟨hsent, hle, hs, hf, hm⟩ := h
    have hno : .removed ∉ past := fun hmem => Bool.noConfusion (hm hmem)
    have htt : ttls (past ++ [.removed]) = ttls past := ttls_silent past rfl
    have hafter : ttls (afterRemoval (past ++ [.removed])) = [] := further_removed hno [] rfl
    refine ⟨?_, ?_, ?_, ?_, fun _ => rfl⟩
    · cases place with
      | waiting => exact absurd rfl hplace
      | sending => exact ⟨htt.symm ▸ hsent.1, hsent.2.1, hafter⟩
      | rescheduling => exact ⟨htt.symm ▸ hsent.1, hsent.2.1, hafter ▸ Nat.zero_le 1⟩
      | deleting => exact ⟨htt.symm ▸ hsent.1, hafter ▸ Nat.zero_le 1⟩
      | abandoned => exact ⟨htt.symm ▸ hsent.1, hafter ▸ Nat.zero_le 1⟩
    · rw [htt]
      exact hle
    · rw [htt]
      exact hs
    · simpa using hf
  | drop retries ttl =>
    obtain ⟨⟨hlen, hr, -⟩, hle, hs, hf, hm⟩ := h
    have hno : .removed ∉ past := fun hmem => Bool.noConfusion (hm hmem)
    refine freed_within rfl rfl (by omega) ?_ hs hf
    rw [further_removed hno [.freed] rfl]
    exact Nat.zero_le 1

theorem Lived.within {past : List LifeEvent} {l : Life} (h : Lived past l) : Within past l := by
  induction h with
  | unborn => rfl
  | turn _ ht ih => exact ht.within ih

/-- A series sends at most `RREQ_RETRIES + 1` RREQs, at most one of them after it was removed. -/
theorem Lived.bounded {past : List LifeEvent} {l : Life} (h : Lived past l) :
    (ttls past).length ≤ rreqRetries + 1 ∧ (ttls past).Pairwise (· ≤ ·) ∧
      (ttls (afterRemoval past)).length ≤ 1 := by
  have hw := h.within
  cases l with
  | unborn =>
    obtain rfl := hw
    exact ⟨Nat.zero_le _, List.Pairwise.nil, Nat.zero_le 1⟩
  | freed => exact ⟨hw.1, hw.2.2.1, hw.2.1⟩
  | there place stop retries ttl =>
    obtain ⟨hsent, -, hs, -, hm⟩ := hw
    cases place with
    | sending =>
      obtain ⟨hlen, hr, hafter⟩ := hsent
      exact ⟨by omega, hs, hafter ▸ Nat.zero_le 1⟩
    | waiting =>
      obtain ⟨hlen, hr, hafter⟩ := hsent
      exact ⟨by omega, hs, hafter ▸ Nat.zero_le 1⟩
    | rescheduling =>
      obtain ⟨hlen, hr, hafter⟩ := hsent
      exact ⟨by omega, hs, hafter⟩
    | deleting => exact ⟨hsent.1, hs, hsent.2⟩
    | abandoned => exact ⟨hsent.1, hs, hsent.2⟩

theorem Lived.count_freed {past : List LifeEvent} {l : Life} (h : Lived past l) :
    past.count .freed = if l = .freed then 1 else 0 := by
  have hw := h.within
  cases l with
  | unborn =>
    obtain rfl := hw
    rfl
  | freed => exact hw.2.2.2
  | there place stop retries ttl => exact List.count_eq_zero_of_not_mem hw.2.2.2.1

end DesAodv
