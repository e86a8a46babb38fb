import DesAodv.Runs
import DesAodv.TimedTable
import DesAodv.TimeslotLinks

/-!
# Timeslots as maps

What a timeslot is for: it keeps a purge time for each object, and hands over the
objects whose time has come. The list is in the order of the purge times, so the
purge, which stops at the first element that is not due, misses none.
-/

namespace DesAodv

open Deadlines

namespace Timeslot

/-- Each object occurs once, in the order of the purge times. -/
structure Ordered {α : Type} (ts : Timeslot α) : Prop where
  objects : (ts.elements.map TimeslotElement.object).Nodup
  sorted : ts.elements.Pairwise fun x y => x.purgeTime ≤ y.purgeTime

def deadline {α : Type} [DecidableEq α] (ts : Timeslot α) (object : α) : Option Timeval :=
  (Keyed.lookup TimeslotElement.object object ts.elements).map TimeslotElement.purgeTime

/-- The arguments of the purger's calls. -/
def calls {α : Type} (purged : List (TimeslotElement α)) : List (α × Timeval) :=
  purged.map fun el => (el.object, el.purgeTime)

theorem calls_objects {α : Type} (purged : List (TimeslotElement α)) :
    (calls purged).map Prod.fst = purged.map TimeslotElement.object := by
  simp [calls]

section
variable {α : Type} {ts : Timeslot α}

theorem ordered_create (purgeTimeout : Timeval) : (timeslotCreate purgeTimeout : Timeslot α).Ordered :=
  ⟨List.nodup_nil, List.Pairwise.nil⟩

theorem Ordered.sublist (ho : ts.Ordered) {els : List (TimeslotElement α)} (h : els.Sublist ts.elements) (t : Timeval) :
    Ordered { elements := els, purgeTimeout := t } :=
  ⟨ho.objects.sublist (h.map _), ho.sorted.sublist h⟩

theorem Ordered.purge (ho : ts.Ordered) (currTime : Timeval) : (timeslotPurgeobjects ts currTime).1.Ordered :=
  ho.sublist (List.dropWhile_sublist _) _

theorem Ordered.insert (ho : ts.Ordered) {el : TimeslotElement α} (hel : ∀ x ∈ ts.elements, x.object ≠ el.object)
    (t : Timeval) : Ordered { elements := insertElement el ts.elements, purgeTimeout := t } := by
  have hperm := insertElement_perm el ts.elements
  refine ⟨?_, ?_⟩
  · refine (hperm.map TimeslotElement.object).nodup_iff.mpr (List.nodup_cons.mpr ⟨?_, ho.objects⟩)
    intro h
    obtain ⟨x, hx, he⟩ := List.mem_map.mp h
    exact hel x hx he
  · have hsplit : ts.elements.rdropWhile (fun x => decide (el.purgeTime < x.purgeTime)) ++
        ts.elements.rtakeWhile (fun x => decide (el.purgeTime < x.purgeTime)) = ts.elements :=
      List.rdropWhile_append_rtakeWhile
    have hsorted := ho.sorted
    rw [← hsplit, List.pairwise_append] at hsorted
    obtain ⟨hs₁, hs₂, h₁₂⟩ := hsorted
    have hafter : ∀ x ∈ ts.elements.rtakeWhile (fun x => decide (el.purgeTime < x.purgeTime)),
        el.purgeTime ≤ x.purgeTime := by
      intro x hx
      exact Nat.le_of_lt (by simpa using List.mem_rtakeWhile_imp hx)
    -- the search has stopped at an element that is not purged later, and those before it are sorted
    have hbefore : ∀ x ∈ ts.elements.rdropWhile (fun x => decide (el.purgeTime < x.purgeTime)),
        x.purgeTime ≤ el.purgeTime := by
      intro x hx
      have hne := List.ne_nil_of_mem hx
      have hlast := List.rdropWhile_last_not _ _ hne
      rw [decide_eq_true_eq, Nat.not_lt] at hlast
      exact Nat.le_trans (hs₁.rel_getLast hx) hlast
    unfold insertElement
    refine List.pairwise_append.mpr ⟨hs₁, List.pairwise_cons.mpr ⟨hafter, hs₂⟩, ?_⟩
    intro x hx y hy
    rcases List.mem_cons.mp hy with rfl | hy
    · exact hbefore x hx
    · exact h₁₂ x hx y hy

variable [DecidableEq α]

theorem Ordered.delete (ho : ts.Ordered) (object : α) : (timeslotDeleteobject ts object).1.Ordered :=
  ho.sublist List.filter_sublist _

theorem Ordered.deadline_eq_some (ho : ts.Ordered) {object : α} {t : Timeval} :
    ts.deadline object = some t ↔ { purgeTime := t, object } ∈ ts.elements := by
  rw [deadline, Option.map_eq_some_iff]
  constructor
  · intro h
    obtain ⟨el, hel, rfl⟩ := h
    obtain ⟨hmem, rfl⟩ := (Keyed.lookup_eq_some ho.objects).mp hel
    exact hmem
  · exact fun h => ⟨_, Keyed.lookup_of_mem ho.objects h, rfl⟩

/-! ## The operations as operations on a map -/

theorem deadline_delete (ts : Timeslot α) (object : α) :
    (timeslotDeleteobject ts object).1.deadline = Function.update ts.deadline object none := by
  funext o
  by_cases h : o = object
  · subst h
    rw [Function.update_self, deadline, delete_elements, Keyed.lookup_erase_self, Option.map_none]
  · rw [Function.update_of_ne h, deadline, delete_elements, Keyed.lookup_erase_ne _ (Ne.symm h), deadline]

theorem delete_found (ts : Timeslot α) (object : α) :
    (timeslotDeleteobject ts object).2 = (ts.deadline object).isSome := by
  rw [deadline, Option.isSome_map]
  rfl

theorem Ordered.deadline_insert (ho : ts.Ordered) {el : TimeslotElement α}
    (hel : ∀ x ∈ ts.elements, x.object ≠ el.object) (t : Timeval) :
    ({ elements := insertElement el ts.elements, purgeTimeout := t } : Timeslot α).deadline =
      Function.update ts.deadline el.object (some el.purgeTime) := by
  have hperm := insertElement_perm el ts.elements
  funext o
  apply Option.ext
  intro p
  rw [(ho.insert hel t).deadline_eq_some, hperm.mem_iff, List.mem_cons]
  by_cases h : o = el.object
  · subst h
    rw [Function.update_self, Option.some.injEq]
    constructor
    · intro hp
      rcases hp with hp | hp
      · rw [← hp]
      · exact absurd rfl (hel { purgeTime := p, object := el.object } hp)
    · intro hp
      subst hp
      exact .inl rfl
  · rw [Function.update_of_ne h, ho.deadline_eq_some]
    refine or_iff_right ?_
    intro he
    rw [← he] at h
    exact h rfl

theorem Ordered.deadline_purge (ho : ts.Ordered) (currTime : Timeval) :
    (timeslotPurgeobjects ts currTime).1.deadline = expire ts.deadline currTime := by
  funext o
  apply Option.ext
  intro t
  rw [(ho.purge currTime).deadline_eq_some, expire_eq_some, ho.deadline_eq_some, purge_kept ho.sorted, List.mem_filter]
  simp

theorem Ordered.purge_handed (ho : ts.Ordered) (currTime : Timeval) :
    Handed ts.deadline currTime (calls (timeslotPurgeobjects ts currTime).2) := by
  have hsub : (timeslotPurgeobjects ts currTime).2.Sublist ts.elements := List.takeWhile_sublist _
  refine ⟨?_, ?_, ?_⟩
  · intro o t
    rw [ho.deadline_eq_some]
    constructor
    · intro h
      obtain ⟨el, hel, he⟩ := List.mem_map.mp h
      obtain ⟨rfl, rfl⟩ := Prod.mk.inj he
      exact ⟨hsub.subset hel, purge_expired hel⟩
    · intro h
      obtain ⟨hmem, hle⟩ := h
      rw [← purge_append ts currTime, List.mem_append, purge_kept ho.sorted] at hmem
      rcases hmem with hmem | hmem
      · exact List.mem_map.mpr ⟨_, hmem, rfl⟩
      · have hnot := (List.mem_filter.mp hmem).2
        simp [hle] at hnot
  · have hnd := ho.objects.sublist (hsub.map TimeslotElement.object)
    simpa [calls, Function.comp_def] using hnd
  · exact List.pairwise_map.mpr (ho.sorted.sublist hsub)

end

end Timeslot

/-! ## Sequences of calls -/

inductive TsOp (α : Type)
  | addobject (timestamp currTime : Timeval) (object : α)
  | addobjectVarpurge (timestamp currTime : Timeval) (object : α) (lifetime : Timeval)
  | deleteobject (object : α)
  | purgeobjects (currTime : Timeval)
  deriving DecidableEq, Repr

/-- What a call returns, and the calls of the purger it makes. -/
structure TsAnswer (α : Type) where
  result : Bool
  purged : List (TimeslotElement α)
  deriving DecidableEq, Repr

namespace TsOp

section
variable {α : Type} [DecidableEq α]

/-- The call on a timeslot in memory. -/
def call (M : Malloc) (ts : Ptr.TimeslotT α) : TsOp α → Option (Ptr.TimeslotT α × TsAnswer α)
  | addobject timestamp currTime object =>
    (Ptr.timeslotAddobject M ts timestamp currTime object).map fun r => (r.1, ⟨true, r.2⟩)
  | addobjectVarpurge timestamp currTime object lifetime =>
    (Ptr.timeslotAddobjectVarpurge M ts timestamp currTime object lifetime).map fun r => (r.1, ⟨true, r.2⟩)
  | deleteobject object => (Ptr.timeslotDeleteobject ts object).map fun r => (r.1, ⟨r.2, []⟩)
  | purgeobjects currTime => (Ptr.timeslotPurgeobjects ts currTime).map fun r => (r.1, ⟨true, r.2⟩)

def run (M : Malloc) : Ptr.TimeslotT α → List (TsOp α) → Option (Ptr.TimeslotT α × List (TsAnswer α))
  | ts, [] => some (ts, [])
  | ts, op :: ops => do
    let (ts, answer) ← op.call M ts
    let (ts, answers) ← run M ts ops
    some (ts, answer :: answers)

/-- The same call on the list of elements. -/
def callListed (ts : Timeslot α) : TsOp α → Timeslot α × TsAnswer α
  | addobject timestamp currTime object =>
    let (ts, purged) := timeslotAddobject ts timestamp currTime object
    (ts, ⟨true, purged⟩)
  | addobjectVarpurge timestamp currTime object lifetime =>
    let (ts, purged) := timeslotAddobjectVarpurge ts timestamp currTime object lifetime
    (ts, ⟨true, purged⟩)
  | deleteobject object =>
    let (ts, found) := timeslotDeleteobject ts object
    (ts, ⟨found, []⟩)
  | purgeobjects currTime =>
    let (ts, purged) := timeslotPurgeobjects ts currTime
    (ts, ⟨true, purged⟩)

/-! ## The map -/

/-- The map before the purge, if there is one: an addition sets the purge time of its object, a deletion
removes the object. -/
def stored (timeout : Timeval) (d : α → Option Timeval) : TsOp α → α → Option Timeval
  | addobject timestamp _ object => Function.update d object (some (timestamp + timeout))
  | addobjectVarpurge timestamp _ object lifetime => Function.update d object (some (timestamp + lifetime))
  | deleteobject object => Function.update d object none
  | purgeobjects _ => d

open Classical in
/-- The time of the purge: an addition purges at the wall clock if another object has a purge time. -/
noncomputable def purgeAt (d : α → Option Timeval) : TsOp α → Option Timeval
  | addobject _ currTime object => if ∃ o, o ≠ object ∧ d o ≠ none then some currTime else none
  | addobjectVarpurge _ currTime object _ => if ∃ o, o ≠ object ∧ d o ≠ none then some currTime else none
  | deleteobject _ => none
  | purgeobjects currTime => some currTime

noncomputable def apply (timeout : Timeval) (d : α → Option Timeval) (op : TsOp α) : α → Option Timeval :=
  match op.purgeAt d with
  | none => op.stored timeout d
  | some currTime => expire (op.stored timeout d) currTime

/-- What a call answers: a deletion whether the object was present, and a purge hands over what is due. -/
def Answers (timeout : Timeval) (d : α → Option Timeval) (op : TsOp α) (answer : TsAnswer α) : Prop :=
  answer.result = (match op with | deleteobject object => (d object).isSome | _ => true) ∧
    match op.purgeAt d with
    | none => answer.purged = []
    | some currTime => Handed (op.stored timeout d) currTime (Timeslot.calls answer.purged)

def AnswersAll (timeout : Timeval) : (α → Option Timeval) → List (TsOp α) → List (TsAnswer α) → Prop
  | _, [], answers => answers = []
  | d, op :: ops, answers =>
    ∃ answer rest, answers = answer :: rest ∧ op.Answers timeout d answer ∧
      AnswersAll timeout (op.apply timeout d) ops rest

end

end TsOp

/-! ## Lists and maps -/

namespace Timeslot

section
variable {α : Type} [DecidableEq α] {ts : Timeslot α}

theorem deadline_ne_none (ts : Timeslot α) (object : α) :
    ts.deadline object ≠ none ↔ ∃ el ∈ ts.elements, el.object = object := by
  rw [deadline, ne_eq, Option.map_eq_none_iff, Keyed.lookup_eq_none]
  simp

theorem Ordered.ncard_alive (ho : ts.Ordered) : (alive ts.deadline).ncard = ts.elements.length := by
  have halive : alive ts.deadline = ((ts.elements.map TimeslotElement.object).toFinset : Set α) := by
    ext o
    rw [List.coe_toFinset, Set.mem_ofPred_eq, List.mem_map]
    exact deadline_ne_none ts o
  rw [halive, Set.ncard_coe_finset, List.toFinset_card_of_nodup ho.objects, List.length_map]

theorem delete_empty (ts : Timeslot α) (object : α) :
    (timeslotDeleteobject ts object).1.elements = [] ↔ ¬ ∃ o, o ≠ object ∧ ts.deadline o ≠ none := by
  rw [delete_elements, List.eq_nil_iff_forall_not_mem]
  constructor
  · intro h he
    obtain ⟨o, ho, hd⟩ := he
    obtain ⟨el, hel, rfl⟩ := (deadline_ne_none ts o).mp hd
    exact h el (Keyed.mem_erase.mpr ⟨hel, ho⟩)
  · intro h el hel
    obtain ⟨hmem, hne⟩ := Keyed.mem_erase.mp hel
    exact h ⟨el.object, hne, (deadline_ne_none ts _).mpr ⟨el, hmem, rfl⟩⟩

theorem Ordered.add (ho : ts.Ordered) (timestamp currTime : Timeval) (object : α) (lifetime : Timeval) :
    let op := TsOp.addobjectVarpurge timestamp currTime object lifetime
    let r := timeslotAddobjectVarpurge ts timestamp currTime object lifetime
    r.1.Ordered ∧ r.1.deadline = op.apply ts.purgeTimeout ts.deadline ∧
      op.Answers ts.purgeTimeout ts.deadline ⟨true, r.2⟩ := by
  intro op r
  have hod := ho.delete object
  have hnew : ∀ x ∈ (timeslotDeleteobject ts object).1.elements, x.object ≠ object :=
    fun x hx => (Keyed.mem_erase.mp hx).2
  have hstored : Function.update (timeslotDeleteobject ts object).1.deadline object (some (lifetime + timestamp)) =
      op.stored ts.purgeTimeout ts.deadline := by
    rw [deadline_delete, Function.update_idem, Nat.add_comm]
    rfl
  let el : TimeslotElement α := { purgeTime := lifetime + timestamp, object }
  let inserted : Timeslot α :=
    { elements := insertElement el (timeslotDeleteobject ts object).1.elements, purgeTimeout := ts.purgeTimeout }
  have hoi : inserted.Ordered := hod.insert hnew ts.purgeTimeout
  have hdi : inserted.deadline = op.stored ts.purgeTimeout ts.deadline :=
    (hod.deadline_insert hnew ts.purgeTimeout).trans hstored
  by_cases he : (timeslotDeleteobject ts object).1.elements = []
  · have hat : op.purgeAt ts.deadline = none := if_neg ((delete_empty ts object).mp he)
    have hr : r = (inserted, []) := by
      simp only [r, inserted, timeslotAddobjectVarpurge, he, if_true]
      rfl
    rw [hr]
    refine ⟨hoi, ?_, rfl, ?_⟩
    · rw [hdi, TsOp.apply, hat]
    · rw [hat]
  · have hat : op.purgeAt ts.deadline = some currTime := if_pos (not_not.mp ((delete_empty ts object).not.mp he))
    have hr : r = timeslotPurgeobjects inserted currTime := by
      simp only [r, inserted, timeslotAddobjectVarpurge, he, if_false]
      rfl
    rw [hr]
    refine ⟨hoi.purge _, ?_, rfl, ?_⟩
    · rw [hoi.deadline_purge, hdi, TsOp.apply, hat]
    · rw [hat]
      have hh := hoi.purge_handed currTime
      rw [hdi] at hh
      exact hh

theorem Ordered.purge_removed (ho : ts.Ordered) (currTime : Timeval) :
    Removed ts.deadline currTime (calls (timeslotPurgeobjects ts currTime).2)
        (timeslotPurgeobjects ts currTime).1.deadline ∧
      Unexpired (timeslotPurgeobjects ts currTime).1.deadline currTime := by
  rw [ho.deadline_purge]
  exact ⟨(ho.purge_handed currTime).removed, unexpired_expire _ _⟩

/-- The callbacks of a purge take the entries of its objects out of their table. -/
theorem tracked_purged {β κ : Type} [DecidableEq κ] {key : β → κ} {ptr : β → α} {entries : List β}
    {d d' : α → Option Timeval} {T : Timeval} {purged : List (TimeslotElement α)} (h : Tracked key ptr entries d)
    (hr : Removed d T (calls purged) d') :
    Tracked key ptr (entries.filter fun e => decide (ptr e ∉ purged.map TimeslotElement.object)) d' ∧
      Removed (byKey key ptr entries d) T (goneKeys key ptr entries (calls purged))
        (byKey key ptr (entries.filter fun e => decide (ptr e ∉ purged.map TimeslotElement.object)) d') := by
  rw [← calls_objects]
  exact h.remove hr

theorem Ordered.add_removed (ho : ts.Ordered) (timestamp currTime : Timeval) (object : α) (lifetime : Timeval) :
    (timeslotAddobjectVarpurge ts timestamp currTime object lifetime).1.Ordered ∧
      Removed (Function.update ts.deadline object (some (timestamp + lifetime))) currTime
        (calls (timeslotAddobjectVarpurge ts timestamp currTime object lifetime).2)
        (timeslotAddobjectVarpurge ts timestamp currTime object lifetime).1.deadline := by
  obtain ⟨hord, hd, -, hanswer⟩ := ho.add timestamp currTime object lifetime
  refine ⟨hord, ?_⟩
  rw [hd, TsOp.apply]
  cases hat : (TsOp.addobjectVarpurge timestamp currTime object lifetime).purgeAt ts.deadline with
  | none =>
    rw [hat] at hanswer
    have hnil : (timeslotAddobjectVarpurge ts timestamp currTime object lifetime).2 = [] := hanswer
    rw [hnil]
    exact Removed.nil _ _
  | some t =>
    have ht : t = currTime := by
      simp only [TsOp.purgeAt] at hat
      split at hat
      · exact (Option.some.inj hat).symm
      · cases hat
    rw [hat, ht] at hanswer
    rw [ht]
    have hhanded : Handed (Function.update ts.deadline object (some (timestamp + lifetime))) currTime
        (calls (timeslotAddobjectVarpurge ts timestamp currTime object lifetime).2) := hanswer
    exact hhanded.removed

end

end Timeslot

namespace TsOp

section
variable {α : Type} [DecidableEq α] {ts : Timeslot α}

theorem callListed_timeout (ts : Timeslot α) (op : TsOp α) : (op.callListed ts).1.purgeTimeout = ts.purgeTimeout := by
  cases op with
  | addobject timestamp currTime object => exact add_timeout ts timestamp currTime object _
  | addobjectVarpurge timestamp currTime object lifetime => exact add_timeout ts timestamp currTime object lifetime
  | deleteobject object => rfl
  | purgeobjects currTime => rfl

theorem callListed_spec (ho : ts.Ordered) (op : TsOp α) :
    (op.callListed ts).1.Ordered ∧ (op.callListed ts).1.deadline = op.apply ts.purgeTimeout ts.deadline ∧
      op.Answers ts.purgeTimeout ts.deadline (op.callListed ts).2 := by
  cases op with
  | addobject timestamp currTime object => exact ho.add timestamp currTime object ts.purgeTimeout
  | addobjectVarpurge timestamp currTime object lifetime => exact ho.add timestamp currTime object lifetime
  | deleteobject object =>
    exact ⟨ho.delete object, Timeslot.deadline_delete ts object, Timeslot.delete_found ts object, rfl⟩
  | purgeobjects currTime => exact ⟨ho.purge currTime, ho.deadline_purge currTime, rfl, ho.purge_handed currTime⟩

theorem call_listed (M : Malloc) {ts : Ptr.TimeslotT α} {l : List (Nat × TimeslotElement α)} (hr : Ptr.Rep ts l)
    (hsize : l.length < 4294967296) (op : TsOp α) :
    ∃ ts' l', op.call M ts = some (ts', (op.callListed (Ptr.listed ts l)).2) ∧ Ptr.Rep ts' l' ∧
      Ptr.listed ts' l' = (op.callListed (Ptr.listed ts l)).1 := by
  cases op with
  | addobject timestamp currTime object =>
    obtain ⟨ts', l', purged, hc, hr', he⟩ := hr.add hsize M timestamp currTime object ts.purgeTimeout
    obtain ⟨h₁, h₂⟩ := Prod.mk.inj he
    refine ⟨ts', l', ?_, hr', h₁⟩
    rw [call, Ptr.timeslotAddobject, hc, h₂]
    rfl
  | addobjectVarpurge timestamp currTime object lifetime =>
    obtain ⟨ts', l', purged, hc, hr', he⟩ := hr.add hsize M timestamp currTime object lifetime
    obtain ⟨h₁, h₂⟩ := Prod.mk.inj he
    refine ⟨ts', l', ?_, hr', h₁⟩
    rw [call, hc, h₂]
    rfl
  | deleteobject object =>
    obtain ⟨ts', l', found, hc, hr', he, -⟩ := hr.delete object
    obtain ⟨h₁, h₂⟩ := Prod.mk.inj he
    refine ⟨ts', l', ?_, hr', h₁⟩
    rw [call, hc, h₂]
    rfl
  | purgeobjects currTime =>
    obtain ⟨ts', l', purged, hc, hr', he⟩ := hr.purge currTime
    obtain ⟨h₁, h₂⟩ := Prod.mk.inj he
    refine ⟨ts', l', ?_, hr', h₁⟩
    rw [call, hc, h₂]
    rfl

theorem ncard_apply_le (timeout : Timeval) {d : α → Option Timeval} (hf : (alive d).Finite) (op : TsOp α) :
    (alive (op.apply timeout d)).Finite ∧ (alive (op.apply timeout d)).ncard ≤ (alive d).ncard + 1 := by
  have hsub : alive (op.apply timeout d) ⊆ alive (op.stored timeout d) := by
    unfold apply
    split
    · exact subset_rfl
    · exact alive_expire _ _
  have hupdate : ∀ (o : α) (t : Option Timeval), alive (op.apply timeout d) ⊆ alive (Function.update d o t) →
      (alive (op.apply timeout d)).Finite ∧ (alive (op.apply timeout d)).ncard ≤ (alive d).ncard + 1 := by
    intro o t h
    have hins := h.trans (alive_update d o t)
    have hfin := hf.insert o
    exact ⟨hfin.subset hins, (Set.ncard_le_ncard hins hfin).trans (Set.ncard_insert_le o (alive d))⟩
  cases op with
  | addobject timestamp currTime object => exact hupdate object _ hsub
  | addobjectVarpurge timestamp currTime object lifetime => exact hupdate object _ hsub
  | deleteobject object => exact hupdate object _ hsub
  | purgeobjects currTime =>
    exact ⟨hf.subset hsub, (Set.ncard_le_ncard hsub hf).trans (Nat.le_succ _)⟩

/-- With fewer than `2 ^ 32` calls there are fewer than `2 ^ 32` elements. -/
theorem few_alive (timeout : Timeval) {d : α → Option Timeval} (hf : (alive d).Finite) {ops : List (TsOp α)}
    (h : (alive d).ncard + ops.length < 2 ^ 32) :
    Runs.Always (apply timeout) (fun d _ => (alive d).ncard < 2 ^ 32) d ops := by
  induction ops generalizing d with
  | nil => trivial
  | cons op ops ih =>
    obtain ⟨hf', hle⟩ := ncard_apply_le timeout hf op
    rw [List.length_cons] at h
    have hnow : (alive d).ncard < 2 ^ 32 := by omega
    exact ⟨hnow, ih hf' (by omega)⟩

end

end TsOp

namespace Ptr

/-- The purge time of an object, found through the hash table. -/
def TimeslotT.deadline {α : Type} [DecidableEq α] (ts : TimeslotT α) (object : α) : Option Timeval := do
  let a ← Linked.Hash.find ts.elementsHash object
  let el ← ts.mem.read a
  some el.val.purgeTime

theorem Rep.ordered_deadline {α : Type} [DecidableEq α] {ts : TimeslotT α} {l : List (Nat × TimeslotElement α)}
    (hr : Rep ts l) : ts.deadline = (listed ts l).deadline := by
  funext o
  cases hf : Linked.Hash.find ts.elementsHash o with
  | none =>
    have habs : ∀ el ∈ (listed ts l).elements, el.object ≠ o := by
      intro el hel
      obtain ⟨x, hx, rfl⟩ := List.mem_map.mp hel
      exact hr.indexed.absent hf x hx
    rw [TimeslotT.deadline, hf, Timeslot.deadline, Keyed.lookup_eq_none.mpr habs]
    rfl
  | some a =>
    obtain ⟨l₁, v, l₂, rfl, rfl⟩ := hr.indexed.found hf
    have hnode := hr.indexed.seg.node
    have hmem : v ∈ (l₁ ++ (a, v) :: l₂).map Prod.snd := List.mem_map.mpr ⟨(a, v), by simp, rfl⟩
    rw [Timeslot.deadline, listed, Keyed.lookup_of_mem hr.indexed.values_nodup hmem]
    simp only [TimeslotT.deadline, hf, hnode, Option.bind_eq_bind, Option.bind_some, Option.map_some]

end Ptr

namespace TsOp

section
variable {α : Type} [DecidableEq α]

theorem run_spec (M : Malloc) (timeout : Timeval) (ops : List (TsOp α)) {ts : Ptr.TimeslotT α}
    {l : List (Nat × TimeslotElement α)} (hr : Ptr.Rep ts l) (ho : (Ptr.listed ts l).Ordered)
    (ht : ts.purgeTimeout = timeout)
    (hsize : Runs.Always (apply timeout) (fun d _ => (alive d).ncard < 2 ^ 32)
      (Ptr.listed ts l).deadline ops) :
    ∃ ts' l' answers, run M ts ops = some (ts', answers) ∧ Ptr.Rep ts' l' ∧ (Ptr.listed ts' l').Ordered ∧
      (Ptr.listed ts' l').deadline = Runs.exec (apply timeout) (Ptr.listed ts l).deadline ops ∧
      AnswersAll timeout (Ptr.listed ts l).deadline ops answers := by
  induction ops generalizing ts l with
  | nil => exact ⟨ts, l, [], rfl, hr, ho, rfl, rfl⟩
  | cons op ops ih =>
    have hlen : l.length < 4294967296 := by
      have h : (alive (Ptr.listed ts l).deadline).ncard < 2 ^ 32 := hsize.1
      rw [ho.ncard_alive, Ptr.listed, List.length_map] at h
      exact h
    obtain ⟨ts₁, l₁, hcall, hr₁, hl₁⟩ := call_listed M hr hlen op
    obtain ⟨ho₁, hd₁, ha₁⟩ := callListed_spec ho op
    have ht₁ : ts₁.purgeTimeout = timeout := by
      have h := congrArg Timeslot.purgeTimeout hl₁
      rw [callListed_timeout] at h
      exact h.trans ht
    have ht' : (Ptr.listed ts l).purgeTimeout = timeout := ht
    rw [← hl₁] at ho₁ hd₁
    rw [ht'] at hd₁ ha₁
    have hsize₁ := hsize.2
    rw [← hd₁] at hsize₁
    obtain ⟨ts₂, l₂, answers, hrun, hr₂, ho₂, hd₂, ha₂⟩ := ih hr₁ ho₁ ht₁ hsize₁
    refine ⟨ts₂, l₂, (op.callListed (Ptr.listed ts l)).2 :: answers, ?_, hr₂, ho₂, ?_, ?_⟩
    · simp only [run, hcall, hrun, Option.bind_eq_bind, Option.bind_some]
    · rw [hd₂, hd₁]
      rfl
    · rw [hd₁] at ha₂
      exact ⟨_, answers, rfl, ha₁, ha₂⟩

/-- A timeslot in memory is a map from objects to purge times. -/
theorem run_refines_map (M : Malloc) (timeout : Timeval) (ops : List (TsOp α))
    (hsize : Runs.Always (apply timeout) (fun d _ => (alive d).ncard < 2 ^ 32) (fun _ => none) ops) :
    ∃ ts answers, run M (Ptr.timeslotCreate timeout) ops = some (ts, answers) ∧
      ts.deadline = Runs.exec (apply timeout) (fun _ => none) ops ∧
      AnswersAll timeout (fun _ => none) ops answers := by
  obtain ⟨ts, l, answers, hrun, hr, -, hd, ha⟩ := run_spec M timeout ops (Ptr.rep_create timeout)
    (Timeslot.ordered_create timeout) rfl hsize
  exact ⟨ts, answers, hrun, hr.ordered_deadline.trans hd, ha⟩

end

/-- Out of order, with a renewed object, a tie and a deletion. -/
def someCalls : List (TsOp Nat) :=
  [.addobject 5 5 1, .addobjectVarpurge 5 6 2 3, .addobject 5 7 3, .addobject 7 8 1, .deleteobject 3,
    .addobjectVarpurge 8 8 4 9, .purgeobjects 17]

theorem run_refines_map_someCalls :
    ∃ ts answers, run Malloc.bump (Ptr.timeslotCreate 10) someCalls = some (ts, answers) ∧
      ts.deadline = Runs.exec (apply 10) (fun _ => none) someCalls ∧
      AnswersAll 10 (fun _ => none) someCalls answers :=
  run_refines_map Malloc.bump 10 someCalls (few_alive 10 (by simp) (by simp [someCalls]))

/-- The addition of 1 purges 2; the last purge hands over 1 and 4, in the order of their addition. -/
example : (run Malloc.bump (Ptr.timeslotCreate 10) someCalls).map (fun r => r.2.map TsAnswer.purged) =
    some [[], [], [], [{ purgeTime := 8, object := 2 }], [], [],
      [{ purgeTime := 17, object := 1 }, { purgeTime := 17, object := 4 }]] := by
  decide

end TsOp

end DesAodv
