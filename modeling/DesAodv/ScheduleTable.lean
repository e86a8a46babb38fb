import DesAodv.Keyed
import DesAodv.Helper

/-!
# The schedule table

`aodv_st.c`: the list from `first_schedule` on, which is also what the hash
table holds. The key is the address with the schedule type.
-/

namespace DesAodv

inductive ScheduleType
  | repeatRreq | sendOutRerr | sendOutRwarn | updateRssi
  deriving DecidableEq, Repr

/-- `schedule_param`: a RREQ series, an interface or nothing. -/
inductive ScheduleParam
  | null
  | series (ptr : Nat)
  | iface (iface : Meshif)
  deriving DecidableEq, Repr

structure Schedule where
  executeTs : Timeval
  etherAddr : MacAddr
  scheduleId : ScheduleType
  scheduleParam : ScheduleParam
  deriving DecidableEq, Repr

def Schedule.key (s : Schedule) : MacAddr × ScheduleType := (s.etherAddr, s.scheduleId)

def aodvDbScDropschedule (st : List Schedule) (etherAddr : MacAddr) (type : ScheduleType) :
    List Schedule × Bool :=
  (Keyed.erase Schedule.key (etherAddr, type) st, (Keyed.lookup Schedule.key (etherAddr, type) st).isSome)

/-- The scan stops on the last node at the latest and decides there on which side to insert. -/
def insertSchedule (el : Schedule) : List Schedule → List Schedule
  | [] => [el]
  | [x] => if x.executeTs > el.executeTs then [el, x] else [x, el]
  | x :: y :: rest =>
    if el.executeTs > x.executeTs then x :: insertSchedule el (y :: rest)
    else if x.executeTs > el.executeTs then el :: x :: y :: rest
    else x :: el :: y :: rest

def aodvDbScAddschedule (st : List Schedule) (executeTs : Timeval) (etherAddr : MacAddr) (type : ScheduleType)
    (param : ScheduleParam) : List Schedule :=
  insertSchedule { executeTs, etherAddr, scheduleId := type, scheduleParam := param }
    (aodvDbScDropschedule st etherAddr type).1

def aodvDbScPopschedule (st : List Schedule) (timestamp : Timeval) : Option (Schedule × List Schedule) :=
  match st with
  | [] => none
  | sc :: rest => if sc.executeTs ≤ timestamp then some (sc, rest) else none

/-! ## The schedules that repeat a RREQ -/

def repeatsOf (st : List Schedule) : List Schedule := st.filter fun sc => decide (sc.scheduleId = .repeatRreq)

theorem mem_repeatsOf {st : List Schedule} {sc : Schedule} :
    sc ∈ repeatsOf st ↔ sc ∈ st ∧ sc.scheduleId = .repeatRreq := by
  simp [repeatsOf, List.mem_filter]

theorem popschedule_eq {st rest : List Schedule} {now : Timeval} {sc : Schedule}
    (h : aodvDbScPopschedule st now = some (sc, rest)) : st = sc :: rest := by
  unfold aodvDbScPopschedule at h
  split at h
  · cases h
  · split at h
    · obtain ⟨rfl, rfl⟩ := Prod.mk.inj (Option.some.inj h)
      rfl
    · cases h

theorem pop_other_repeats {st rest : List Schedule} {now : Timeval} {sc : Schedule}
    (h : aodvDbScPopschedule st now = some (sc, rest)) (ht : sc.scheduleId ≠ .repeatRreq) :
    repeatsOf rest = repeatsOf st := by
  rw [popschedule_eq h]
  unfold repeatsOf
  rw [List.filter_cons_of_neg (by simpa using ht)]

theorem insertSchedule_perm (el : Schedule) (st : List Schedule) : (insertSchedule el st).Perm (el :: st) := by
  induction st with
  | nil => exact List.Perm.refl _
  | cons x rest ih =>
    cases rest with
    | nil =>
      unfold insertSchedule
      split
      · exact List.Perm.refl _
      · exact List.Perm.swap _ _ _
    | cons y rest =>
      unfold insertSchedule
      split
      · exact (ih.cons x).trans (List.Perm.swap _ _ _)
      · split
        · exact List.Perm.refl _
        · exact List.Perm.swap _ _ _

theorem key_eq_repeat {sc : Schedule} {addr : MacAddr} (h : sc.scheduleId = .repeatRreq) :
    sc.key = (addr, ScheduleType.repeatRreq) ↔ sc.etherAddr = addr := by
  unfold Schedule.key
  rw [h]
  exact ⟨fun he => (Prod.mk.inj he).1, fun he => by rw [he]⟩

theorem key_ne_of_type {sc : Schedule} {addr : MacAddr} {type : ScheduleType} (h : sc.scheduleId ≠ type) :
    sc.key ≠ (addr, type) := fun he => h (Prod.mk.inj he).2

theorem drop_other_repeats (st : List Schedule) (addr : MacAddr) {type : ScheduleType} (h : type ≠ .repeatRreq) :
    repeatsOf (aodvDbScDropschedule st addr type).1 = repeatsOf st := by
  unfold repeatsOf aodvDbScDropschedule Keyed.erase
  rw [List.filter_filter]
  apply List.filter_congr
  intro sc _
  rw [Bool.and_eq_left_iff_imp]
  intro hr
  rw [decide_eq_true_eq] at hr ⊢
  apply key_ne_of_type
  rw [hr]
  exact h.symm

theorem add_other_repeats (st : List Schedule) (when : Timeval) (addr : MacAddr) {type : ScheduleType}
    (param : ScheduleParam) (h : type ≠ .repeatRreq) :
    (repeatsOf (aodvDbScAddschedule st when addr type param)).Perm (repeatsOf st) := by
  have hp := (insertSchedule_perm { executeTs := when, etherAddr := addr, scheduleId := type, scheduleParam := param }
    (aodvDbScDropschedule st addr type).1).filter fun sc => decide (sc.scheduleId = .repeatRreq)
  rw [List.filter_cons_of_neg (by simpa using h)] at hp
  exact hp.trans (List.Perm.of_eq (drop_other_repeats st addr h))

theorem drop_repeats (st : List Schedule) (addr : MacAddr) :
    repeatsOf (aodvDbScDropschedule st addr .repeatRreq).1 = Keyed.erase Schedule.etherAddr addr (repeatsOf st) := by
  unfold repeatsOf aodvDbScDropschedule Keyed.erase
  rw [List.filter_filter, List.filter_filter]
  apply List.filter_congr
  intro sc _
  by_cases hr : sc.scheduleId = .repeatRreq
  · simp only [hr, ne_eq, key_eq_repeat hr, decide_true, Bool.true_and, Bool.and_true]
  · simp only [hr, decide_false, Bool.false_and, Bool.and_false]

theorem dropped_iff (st : List Schedule) (addr : MacAddr) :
    (aodvDbScDropschedule st addr .repeatRreq).2 = true ↔ ∃ sc ∈ repeatsOf st, sc.etherAddr = addr := by
  show (Keyed.lookup Schedule.key (addr, .repeatRreq) st).isSome = true ↔ _
  constructor
  · intro h
    obtain ⟨sc, hsc⟩ := Option.isSome_iff_exists.mp h
    have hk := Keyed.lookup_key hsc
    exact ⟨sc, mem_repeatsOf.mpr ⟨Keyed.lookup_mem hsc, (Prod.mk.inj hk).2⟩, (Prod.mk.inj hk).1⟩
  · intro hx
    obtain ⟨sc, hsc, ha⟩ := hx
    obtain ⟨hm, hr⟩ := mem_repeatsOf.mp hsc
    rw [Option.isSome_iff_ne_none]
    intro hnone
    exact Keyed.lookup_eq_none.mp hnone sc hm ((key_eq_repeat hr).mpr ha)

theorem add_repeats (st : List Schedule) (when : Timeval) (addr : MacAddr) (param : ScheduleParam) :
    (repeatsOf (aodvDbScAddschedule st when addr .repeatRreq param)).Perm
      ({ executeTs := when, etherAddr := addr, scheduleId := .repeatRreq, scheduleParam := param } ::
        Keyed.erase Schedule.etherAddr addr (repeatsOf st)) := by
  have hp := (insertSchedule_perm
    { executeTs := when, etherAddr := addr, scheduleId := .repeatRreq, scheduleParam := param }
    (aodvDbScDropschedule st addr .repeatRreq).1).filter fun sc => decide (sc.scheduleId = .repeatRreq)
  rw [List.filter_cons_of_pos (by simp)] at hp
  exact hp.trans (List.Perm.of_eq (congrArg _ (drop_repeats st addr)))

end DesAodv
