import Mathlib.Data.List.DropRight
import DesAodv.Keyed
import DesAodv.Helper

/-!
# Timeslots

`timeslot.c`: objects with a purge time each. The linked elements are listed
from `tail` to `head`; the functions that purge also return what they purged, in
the order in which the purger is called.
-/

namespace DesAodv

structure TimeslotElement (α : Type) where
  purgeTime : Timeval
  object : α
  deriving DecidableEq, Repr

structure Timeslot (α : Type) where
  elements : List (TimeslotElement α)
  purgeTimeout : Timeval
  deriving DecidableEq, Repr

section
variable {α : Type}

def timeslotCreate (purgeTimeout : Timeval) : Timeslot α := { elements := [], purgeTimeout }

/-- The purge walks from the tail and stops at the first element whose time has not come. -/
def timeslotPurgeobjects (ts : Timeslot α) (currTime : Timeval) : Timeslot α × List (TimeslotElement α) :=
  let expired := fun el : TimeslotElement α => decide (el.purgeTime ≤ currTime)
  ({ ts with elements := ts.elements.dropWhile expired }, ts.elements.takeWhile expired)

/-- The search walks from the head over the elements that are purged later than the new one. -/
def insertElement (el : TimeslotElement α) (els : List (TimeslotElement α)) : List (TimeslotElement α) :=
  let later := fun x : TimeslotElement α => decide (el.purgeTime < x.purgeTime)
  els.rdropWhile later ++ el :: els.rtakeWhile later

variable [DecidableEq α]

def timeslotDeleteobject (ts : Timeslot α) (object : α) : Timeslot α × Bool :=
  ({ ts with elements := Keyed.erase TimeslotElement.object object ts.elements },
    (Keyed.lookup TimeslotElement.object object ts.elements).isSome)

/-- `currTime` is the wall clock read after the insertion. The first element of a timeslot is added
without a purge. -/
def timeslotAddobjectVarpurge (ts : Timeslot α) (timestamp currTime : Timeval) (object : α)
    (lifetime : Timeval) : Timeslot α × List (TimeslotElement α) :=
  let newEl : TimeslotElement α := { purgeTime := lifetime + timestamp, object }
  let ts := (timeslotDeleteobject ts object).1
  if ts.elements = [] then ({ ts with elements := [newEl] }, [])
  else timeslotPurgeobjects { ts with elements := insertElement newEl ts.elements } currTime

def timeslotAddobject (ts : Timeslot α) (timestamp currTime : Timeval) (object : α) :
    Timeslot α × List (TimeslotElement α) :=
  timeslotAddobjectVarpurge ts timestamp currTime object ts.purgeTimeout

end

/-! ## What is purged and what stays -/

section
variable {α : Type}

theorem purge_append (ts : Timeslot α) (currTime : Timeval) :
    (timeslotPurgeobjects ts currTime).2 ++ (timeslotPurgeobjects ts currTime).1.elements = ts.elements :=
  List.takeWhile_append_dropWhile

@[simp] theorem purge_timeout (ts : Timeslot α) (currTime : Timeval) :
    (timeslotPurgeobjects ts currTime).1.purgeTimeout = ts.purgeTimeout := rfl

theorem purge_expired {ts : Timeslot α} {currTime : Timeval} {el : TimeslotElement α}
    (h : el ∈ (timeslotPurgeobjects ts currTime).2) : el.purgeTime ≤ currTime := by
  simpa using List.mem_takeWhile_imp h

theorem insertElement_perm (el : TimeslotElement α) (els : List (TimeslotElement α)) :
    (insertElement el els).Perm (el :: els) := by
  unfold insertElement
  apply List.perm_middle.trans
  rw [List.rdropWhile_append_rtakeWhile]

variable [DecidableEq α]

@[simp] theorem delete_elements (ts : Timeslot α) (object : α) :
    (timeslotDeleteobject ts object).1.elements = Keyed.erase TimeslotElement.object object ts.elements := rfl

@[simp] theorem delete_timeout (ts : Timeslot α) (object : α) :
    (timeslotDeleteobject ts object).1.purgeTimeout = ts.purgeTimeout := rfl

/-- Together, what an addition purges and what it leaves are the new element and the elements of the
other objects. -/
theorem add_perm (ts : Timeslot α) (timestamp currTime : Timeval) (object : α) (lifetime : Timeval) :
    ((timeslotAddobjectVarpurge ts timestamp currTime object lifetime).2 ++
        (timeslotAddobjectVarpurge ts timestamp currTime object lifetime).1.elements).Perm
      ({ purgeTime := lifetime + timestamp, object } ::
        Keyed.erase TimeslotElement.object object ts.elements) := by
  unfold timeslotAddobjectVarpurge
  by_cases he : Keyed.erase TimeslotElement.object object ts.elements = []
  · simp only [delete_elements, he, if_true, List.nil_append]
    exact List.Perm.refl _
  · simp only [delete_elements, he, if_false]
    rw [purge_append]
    exact insertElement_perm _ _

theorem add_expired {ts : Timeslot α} {timestamp currTime lifetime : Timeval} {object : α}
    {el : TimeslotElement α} (h : el ∈ (timeslotAddobjectVarpurge ts timestamp currTime object lifetime).2) :
    el.purgeTime ≤ currTime := by
  simp only [timeslotAddobjectVarpurge] at h
  split at h
  · cases h
  · exact purge_expired h

@[simp] theorem add_timeout (ts : Timeslot α) (timestamp currTime : Timeval) (object : α) (lifetime : Timeval) :
    (timeslotAddobjectVarpurge ts timestamp currTime object lifetime).1.purgeTimeout = ts.purgeTimeout := by
  simp only [timeslotAddobjectVarpurge]
  split <;> simp

theorem left_perm {A B C : List α} (h : (A ++ B).Perm C) (hn : C.Nodup) :
    B.Perm (C.filter fun x => decide (x ∉ A)) := by
  have hAB : (A ++ B).Nodup := h.nodup_iff.mpr hn
  refine List.Perm.trans ?_ (h.filter _)
  rw [List.filter_append]
  have hA : A.filter (fun x => decide (x ∉ A)) = [] := by simp
  have hB : B.filter (fun x => decide (x ∉ A)) = B := by
    rw [List.filter_eq_self]
    intro x hx
    simpa using fun hxA => (List.nodup_append.mp hAB).2.2 x hxA x hx rfl
  rw [hA, hB, List.nil_append]

theorem left_objects {A B C : List (TimeslotElement α)} (h : (A ++ B).Perm C)
    (hn : (C.map TimeslotElement.object).Nodup) :
    B.Perm (C.filter fun el => decide (el.object ∉ A.map TimeslotElement.object)) := by
  refine (left_perm h (List.Nodup.of_map _ hn)).trans (List.Perm.of_eq (List.filter_congr ?_))
  intro el hel
  refine decide_eq_decide.mpr (not_congr ⟨List.mem_map_of_mem, fun hA => ?_⟩)
  obtain ⟨el', hel', ho⟩ := List.mem_map.mp hA
  have hC : el' ∈ C := h.subset (List.mem_append_left _ hel')
  exact List.inj_on_of_nodup_map hn hC hel ho ▸ hel'

section
variable {ts : Timeslot α} {timestamp currTime lifetime : Timeval} {object : α}

theorem nodup_renewed (hn : (ts.elements.map TimeslotElement.object).Nodup) (t : Timeval) :
    ((({ purgeTime := t, object } : TimeslotElement α) ::
      Keyed.erase TimeslotElement.object object ts.elements).map TimeslotElement.object).Nodup := by
  rw [List.map_cons, List.nodup_cons]
  refine ⟨?_, Keyed.nodup_erase hn object⟩
  intro h
  obtain ⟨el, hel, ho⟩ := List.mem_map.mp h
  exact (Keyed.mem_erase.mp hel).2 ho

variable (timestamp currTime lifetime object) in
theorem add_elements (hn : (ts.elements.map TimeslotElement.object).Nodup) :
    (timeslotAddobjectVarpurge ts timestamp currTime object lifetime).1.elements.Perm
      ((({ purgeTime := lifetime + timestamp, object } : TimeslotElement α) ::
          Keyed.erase TimeslotElement.object object ts.elements).filter fun el =>
        decide (el.object ∉ (timeslotAddobjectVarpurge ts timestamp currTime object lifetime).2.map
          TimeslotElement.object)) :=
  left_objects (add_perm ts timestamp currTime object lifetime) (nodup_renewed hn _)

theorem add_purged {el : TimeslotElement α}
    (h : el ∈ (timeslotAddobjectVarpurge ts timestamp currTime object lifetime).2) :
    el = { purgeTime := lifetime + timestamp, object } ∨ el ∈ ts.elements ∧ el.object ≠ object := by
  have hm := (add_perm ts timestamp currTime object lifetime).subset (List.mem_append_left _ h)
  rcases List.mem_cons.mp hm with rfl | hm
  · exact .inl rfl
  · exact .inr (Keyed.mem_erase.mp hm)

theorem add_kept (ht : currTime < lifetime + timestamp) :
    object ∉ (timeslotAddobjectVarpurge ts timestamp currTime object lifetime).2.map TimeslotElement.object := by
  intro h
  obtain ⟨el, hel, ho⟩ := List.mem_map.mp h
  rcases add_purged hel with rfl | ⟨-, hne⟩
  · exact absurd (add_expired hel) (Nat.not_le.mpr ht)
  · exact hne ho

variable (currTime) in
theorem purge_elements (hn : (ts.elements.map TimeslotElement.object).Nodup) :
    (timeslotPurgeobjects ts currTime).1.elements.Perm
      (ts.elements.filter fun el =>
        decide (el.object ∉ (timeslotPurgeobjects ts currTime).2.map TimeslotElement.object)) :=
  left_objects (List.Perm.of_eq (purge_append ts currTime)) hn

theorem add_purged_nodup (hn : (ts.elements.map TimeslotElement.object).Nodup) :
    ((timeslotAddobjectVarpurge ts timestamp currTime object lifetime).2.map TimeslotElement.object).Nodup := by
  have hp := (add_perm ts timestamp currTime object lifetime).map TimeslotElement.object
  have hnd := hp.nodup_iff.mpr (nodup_renewed hn _)
  rw [List.map_append] at hnd
  exact (List.nodup_append.mp hnd).1

omit [DecidableEq α] in
theorem purge_purged_nodup (hn : (ts.elements.map TimeslotElement.object).Nodup) :
    ((timeslotPurgeobjects ts currTime).2.map TimeslotElement.object).Nodup := by
  rw [← purge_append ts currTime, List.map_append] at hn
  exact (List.nodup_append.mp hn).1

end

end

/-! ## Elements in the order of their purge times -/

theorem dropWhile_eq_filter {α : Type*} {p : α → Bool} {l : List α}
    (h : l.Pairwise fun a b => p b = true → p a = true) : l.dropWhile p = l.filter fun a => !p a := by
  induction l with
  | nil => rfl
  | cons a l ih =>
    obtain ⟨ha, hl⟩ := List.pairwise_cons.mp h
    cases hp : p a with
    | true => rw [List.dropWhile_cons_of_pos hp, List.filter_cons_of_neg (by simp [hp]), ih hl]
    | false =>
      have hall : (a :: l).filter (fun b => !p b) = a :: l := by
        apply List.filter_eq_self.mpr
        intro b hb
        rcases List.mem_cons.mp hb with rfl | hb
        · rw [hp]; rfl
        · cases hpb : p b with
          | false => rfl
          | true => rw [ha b hb hpb] at hp; cases hp
      rw [List.dropWhile_cons_of_neg (by simp [hp]), hall]

section
variable {α : Type} {ts : Timeslot α}

theorem purge_kept (hs : ts.elements.Pairwise fun a b => a.purgeTime ≤ b.purgeTime) (currTime : Timeval) :
    (timeslotPurgeobjects ts currTime).1.elements = ts.elements.filter fun el => !decide (el.purgeTime ≤ currTime) := by
  apply dropWhile_eq_filter
  apply hs.imp
  intro a b hab hb
  rw [decide_eq_true_eq] at hb ⊢
  exact Nat.le_trans hab hb

theorem purge_none {currTime : Timeval} (h : ∀ el ∈ ts.elements, currTime < el.purgeTime) :
    timeslotPurgeobjects ts currTime = (ts, []) := by
  have hkeep : ∀ el ∈ ts.elements, ¬ decide (el.purgeTime ≤ currTime) = true := by
    intro el hel
    rw [decide_eq_true_eq]
    exact Nat.not_le.mpr (h el hel)
  unfold timeslotPurgeobjects
  simp only
  rw [List.dropWhile_eq_self_iff.mpr fun hl => hkeep _ (List.getElem_mem hl),
    List.takeWhile_eq_nil_iff.mpr fun hl => hkeep _ (List.getElem_mem hl)]

theorem insertElement_last {el : TimeslotElement α} {els : List (TimeslotElement α)}
    (h : ∀ x ∈ els, x.purgeTime ≤ el.purgeTime) : insertElement el els = els ++ [el] := by
  have hlast : ∀ hl : els ≠ [], ¬ decide (el.purgeTime < (els.getLast hl).purgeTime) = true := by
    intro hl
    rw [decide_eq_true_eq]
    exact Nat.not_lt.mpr (h _ (List.getLast_mem hl))
  unfold insertElement
  simp only
  rw [List.rdropWhile_eq_self_iff.mpr hlast, List.rtakeWhile_eq_nil_iff.mpr hlast]

/-- A new object that is purged last is added at the end. -/
theorem add_last [DecidableEq α] {now lifetime : Timeval} {object : α} (hnew : ∀ el ∈ ts.elements, el.object ≠ object)
    (hsorted : ∀ el ∈ ts.elements, el.purgeTime ≤ lifetime + now) (hkeep : ∀ el ∈ ts.elements, now < el.purgeTime)
    (hpos : 0 < lifetime) : timeslotAddobjectVarpurge ts now now object lifetime =
      ({ ts with elements := ts.elements ++ [{ purgeTime := lifetime + now, object }] }, []) := by
  have hold : Keyed.erase TimeslotElement.object object ts.elements = ts.elements :=
    List.filter_eq_self.mpr fun el hel => decide_eq_true (hnew el hel)
  simp only [timeslotAddobjectVarpurge, timeslotDeleteobject, hold]
  by_cases he : ts.elements = []
  · simp only [he, if_true, List.nil_append]
  · rw [if_neg he, insertElement_last hsorted]
    apply purge_none
    intro el hel
    rcases List.mem_append.mp hel with hel | hel
    · exact hkeep el hel
    · rw [List.mem_singleton.mp hel]
      exact Nat.lt_add_of_pos_left hpos

end

end DesAodv
