import Mathlib.Data.Nat.ModEq
import DesAodv.RateLimit
import DesAodv.TimeslotLinks

/-!
# The logs of sent messages

`rreq_log.c` and `rerr_log.c` on the timeslot in memory. The objects are the
values of a pointer that is only counted up, and may wrap; the counter is moved
by the callbacks of the purges, also by those inside an addition.
-/

namespace DesAodv

/-! ## Events with consecutive objects -/

/-- The elements for events at the given times, with consecutive objects from `obj base` on. -/
def logged {α : Type} (obj : Nat → α) : Nat → List Timeval → List (TimeslotElement α)
  | _, [] => []
  | base, t :: times => { purgeTime := msec 1000 + t, object := obj base } :: logged obj (base + 1) times

section
variable {α : Type} {obj : Nat → α} {base : Nat} {times : List Timeval}

@[simp] theorem length_logged : (logged obj base times).length = times.length := by
  induction times generalizing base with
  | nil => rfl
  | cons t times ih => rw [logged, List.length_cons, List.length_cons, ih]

theorem logged_concat (t : Timeval) : logged obj base (times ++ [t]) =
    logged obj base times ++ [{ purgeTime := msec 1000 + t, object := obj (base + times.length) }] := by
  induction times generalizing base with
  | nil => rfl
  | cons s times ih =>
    rw [List.cons_append, logged, logged, ih, List.cons_append, List.length_cons, Nat.add_assoc,
      Nat.add_comm 1 times.length]

theorem mem_logged {el : TimeslotElement α} (h : el ∈ logged obj base times) :
    (∃ t ∈ times, el.purgeTime = msec 1000 + t) ∧ ∃ i < times.length, el.object = obj (base + i) := by
  induction times generalizing base with
  | nil => cases h
  | cons t times ih =>
    rcases List.mem_cons.mp h with rfl | h
    · exact ⟨⟨t, List.mem_cons_self, rfl⟩, 0, Nat.succ_pos _, rfl⟩
    · obtain ⟨⟨s, hs, hp⟩, i, hi, ho⟩ := ih h
      refine ⟨⟨s, List.mem_cons_of_mem _ hs, hp⟩, i + 1, Nat.succ_lt_succ hi, ?_⟩
      rw [ho, Nat.add_assoc, Nat.add_comm 1 i]

theorem recent_eq_dropWhile (hs : times.Pairwise (· ≤ ·)) (now : Timeval) :
    recent now times = times.dropWhile fun t => decide (msec 1000 + t ≤ now) := by
  rw [dropWhile_eq_filter]
  · unfold recent
    apply List.filter_congr
    intro t _
    rw [← decide_not, decide_eq_decide, Nat.not_le]
  · apply hs.imp
    intro a b hab hb
    rw [decide_eq_true_eq] at hb ⊢
    exact Nat.le_trans (Nat.add_le_add_left hab _) hb

/-- A purge takes the first events, and leaves those of the last second. -/
theorem purge_logged (hs : times.Pairwise (· ≤ ·)) (timeout now : Timeval) :
    ∃ k purged, timeslotPurgeobjects { elements := logged obj base times, purgeTimeout := timeout } now =
        ({ elements := logged obj (base + k) (recent now times), purgeTimeout := timeout }, purged) ∧
      purged.length = k ∧ times.length = k + (recent now times).length := by
  rw [recent_eq_dropWhile hs]
  clear hs
  induction times generalizing base with
  | nil => exact ⟨0, [], rfl, rfl, rfl⟩
  | cons t times ih =>
    by_cases hdue : msec 1000 + t ≤ now
    · obtain ⟨k, purged, hp, hk, hlen⟩ := @ih (base + 1)
      obtain ⟨h₁, h₂⟩ := Prod.mk.inj hp
      have hels := congrArg Timeslot.elements h₁
      simp only at hels
      refine ⟨k + 1, { purgeTime := msec 1000 + t, object := obj base } :: purged, ?_, ?_, ?_⟩
      · simp only [timeslotPurgeobjects, logged, List.dropWhile_cons, List.takeWhile_cons, hdue, decide_true, if_true,
          hels, h₂]
        rw [Nat.add_assoc, Nat.add_comm 1 k]
      · rw [List.length_cons, hk]
      · simp only [List.dropWhile_cons, hdue, decide_true, if_true, List.length_cons, hlen]
        omega
    · refine ⟨0, [], ?_, rfl, ?_⟩
      · simp only [timeslotPurgeobjects, logged, List.dropWhile_cons, List.takeWhile_cons, hdue, decide_false]
        rfl
      · simp [hdue]

/-- The events in the log after one more has been added, with a purge unless it is the first. -/
def withEvent (times : List Timeval) (timestamp currTime : Timeval) : List Timeval :=
  if times = [] then [timestamp] else recent currTime (times ++ [timestamp])

theorem add_logged [DecidableEq α] (hs : times.Pairwise (· ≤ ·)) {timestamp : Timeval}
    (hpast : ∀ t ∈ times, t ≤ timestamp) (hnew : ∀ i < times.length, obj (base + i) ≠ obj (base + times.length))
    (currTime : Timeval) :
    ∃ k purged, timeslotAddobject { elements := logged obj base times, purgeTimeout := msec 1000 } timestamp currTime
        (obj (base + times.length)) =
        ({ elements := logged obj (base + k) (withEvent times timestamp currTime), purgeTimeout := msec 1000 },
          purged) ∧
      purged.length = k ∧ times.length + 1 = k + (withEvent times timestamp currTime).length := by
  have hold : Keyed.erase TimeslotElement.object (obj (base + times.length)) (logged obj base times) =
      logged obj base times := by
    apply Keyed.erase_absent
    intro el hel
    obtain ⟨-, i, hi, ho⟩ := mem_logged hel
    exact ho ▸ hnew i hi
  simp only [timeslotAddobject, timeslotAddobjectVarpurge, timeslotDeleteobject, hold]
  cases times with
  | nil => exact ⟨0, [], rfl, rfl, rfl⟩
  | cons t times =>
    have hne : logged obj base (t :: times) ≠ [] := List.cons_ne_nil _ _
    have hlast : ∀ el ∈ logged obj base (t :: times), el.purgeTime ≤ msec 1000 + timestamp := by
      intro el hel
      obtain ⟨⟨s, hs, hp⟩, -⟩ := mem_logged hel
      rw [hp]
      exact Nat.add_le_add_left (hpast s hs) _
    have hsorted : ((t :: times) ++ [timestamp]).Pairwise (· ≤ ·) := by
      refine List.pairwise_append.mpr ⟨hs, List.pairwise_singleton _ _, fun a ha b hb => ?_⟩
      rw [List.mem_singleton.mp hb]
      exact hpast a ha
    rw [if_neg hne, insertElement_last hlast, ← logged_concat, withEvent, if_neg (List.cons_ne_nil _ _)]
    obtain ⟨k, purged, hp, hk, hlen⟩ := @purge_logged α obj base _ hsorted (msec 1000) currTime
    exact ⟨k, purged, hp, hk, by rw [← hlen, List.length_append, List.length_singleton]⟩

end

/-! ## The log in memory -/

namespace Ptr

open Linked

/-- `rreq_log_ts`, `rreq_count` and `rreq_pseudo_pointer`, or those of the RERRs. A pointer has `w` bits. -/
structure RateLog (w : Nat) where
  ts : TimeslotT (BitVec w)
  count : UInt32
  pseudoPointer : BitVec w
  deriving DecidableEq, Repr

section
variable {w : Nat}

def rateLogInit (w : Nat) : RateLog w := { ts := timeslotCreate (msec 1000), count := 0, pseudoPointer := 0 }

def decrementCounter {α : Type} (count : UInt32) (_ : TimeslotElement α) : UInt32 := count - 1

def rateLogPut (M : Malloc) (log : RateLog w) (timestamp currTime : Timeval) : Option (RateLog w) := do
  let (ts, purged) ← timeslotAddobject M log.ts timestamp currTime log.pseudoPointer
  some { ts, count := purged.foldl decrementCounter log.count + 1, pseudoPointer := log.pseudoPointer + 1 }

def rateLogCount (log : RateLog w) (timestamp : Timeval) : Option (RateLog w × UInt32) := do
  let (ts, purged) ← timeslotPurgeobjects log.ts timestamp
  let count := purged.foldl decrementCounter log.count
  some ({ log with ts, count }, count)

def aodvDbRlPutrreq (M : Malloc) (log : RateLog w) := rateLogPut M log
def aodvDbRlGetrreqcount (log : RateLog w) := rateLogCount log
def aodvDbRlPutrerr (M : Malloc) (log : RateLog w) := rateLogPut M log
def aodvDbRlGetrerrcount (log : RateLog w) := rateLogCount log

section
variable {α : Type}

theorem foldl_decrement (purged : List (TimeslotElement α)) (n : Nat) :
    purged.foldl decrementCounter (UInt32.ofNat (purged.length + n)) = UInt32.ofNat n := by
  induction purged with
  | nil => rw [List.foldl_nil, List.length_nil, Nat.zero_add]
  | cons el purged ih =>
    have hlen : (el :: purged).length + n = purged.length + n + 1 := by rw [List.length_cons]; omega
    rw [List.foldl_cons, hlen, decrementCounter, ofNat_succ_sub_one, ih]

/-- What is decremented in the purge of an addition is made up for by the increment after it. -/
theorem foldl_decrement_succ (purged : List (TimeslotElement α)) {m n : Nat} (h : m + 1 = purged.length + n) :
    purged.foldl decrementCounter (UInt32.ofNat m) + 1 = UInt32.ofNat n := by
  have hfold : ∀ c : UInt32, purged.foldl decrementCounter (c + 1) = purged.foldl decrementCounter c + 1 := by
    intro c
    clear h
    induction purged generalizing c with
    | nil => rfl
    | cons el purged ih =>
      have hone : decrementCounter (c + 1) el = decrementCounter c el + 1 := by
        rw [decrementCounter, decrementCounter, UInt32.add_sub_cancel, UInt32.sub_add_cancel]
      rw [List.foldl_cons, List.foldl_cons, hone, ih]
  have hsucc : UInt32.ofNat m + 1 = UInt32.ofNat (purged.length + n) := by
    rw [← h, UInt32.ofNat_add]
    rfl
  rw [← hfold, hsucc, foldl_decrement]

end

/-- The log has the events at `times`. -/
structure RateLog.Holds (log : RateLog w) (times : List Timeval) (base : Nat)
    (l : List (Nat × TimeslotElement (BitVec w))) : Prop where
  rep : Rep log.ts l
  listed : listed log.ts l = { elements := logged (BitVec.ofNat w) base times, purgeTimeout := msec 1000 }
  pointer : log.pseudoPointer = BitVec.ofNat w (base + times.length)
  count : log.count = UInt32.ofNat times.length

theorem holds_init : (rateLogInit w).Holds [] 0 [] := ⟨rep_create _, rfl, rfl, rfl⟩

theorem RateLog.Holds.length {log : RateLog w} {times : List Timeval} {base : Nat}
    {l : List (Nat × TimeslotElement (BitVec w))} (h : log.Holds times base l) : l.length = times.length := by
  have hl := congrArg (fun ts => ts.elements.length) h.listed
  simpa [Ptr.listed] using hl

namespace RateLog

section
variable {log : RateLog w} {times : List Timeval} {base : Nat} {l : List (Nat × TimeslotElement (BitVec w))}

theorem Holds.getcount (h : log.Holds times base l) (hs : times.Pairwise (· ≤ ·)) (now : Timeval) :
    ∃ log' base' l', rateLogCount log now = some (log', UInt32.ofNat (recent now times).length) ∧
      log'.Holds (recent now times) base' l' := by
  obtain ⟨ts', l', purged, hpurge, hrep, he⟩ := h.rep.purge now
  obtain ⟨k, purged', hlogged, rfl, hlen⟩ := @purge_logged _ (BitVec.ofNat w) base _ hs (msec 1000) now
  rw [h.listed, hlogged] at he
  obtain ⟨hlisted, rfl⟩ := Prod.mk.inj he
  have hcount : purged.foldl decrementCounter log.count = UInt32.ofNat (recent now times).length := by
    rw [h.count, hlen, foldl_decrement]
  refine ⟨{ log with ts := ts', count := UInt32.ofNat (recent now times).length }, base + purged.length, l', ?_,
    hrep, hlisted, ?_, rfl⟩
  · simp only [rateLogCount, hpurge, Option.bind_eq_bind, Option.bind_some, hcount]
  · rw [Nat.add_assoc, ← hlen]
    exact h.pointer

/-- With fewer than `2 ^ 32` events the values of the pointer are different, wherever it wraps. -/
theorem pointers_ne (hw : 32 ≤ w) {n : Nat} (hn : n < 2 ^ 32) (base : Nat) :
    ∀ i < n, BitVec.ofNat w (base + i) ≠ BitVec.ofNat w (base + n) := by
  intro i hi he
  have hpow : 2 ^ 32 ≤ 2 ^ w := Nat.pow_le_pow_right (by decide) hw
  have hmod : Nat.ModEq (2 ^ w) (base + i) (base + n) := by
    have h := congrArg BitVec.toNat he
    rwa [BitVec.toNat_ofNat, BitVec.toNat_ofNat] at h
  have heq := (Nat.ModEq.add_left_cancel' base hmod).eq_of_lt_of_lt (by omega) (by omega)
  omega

theorem Holds.put (h : log.Holds times base l) (hw : 32 ≤ w) (hs : times.Pairwise (· ≤ ·)) (M : Malloc)
    {timestamp : Timeval} (hpast : ∀ t ∈ times, t ≤ timestamp) (hroom : times.length < 2 ^ 32) (currTime : Timeval) :
    ∃ log' base' l', rateLogPut M log timestamp currTime = some log' ∧
      log'.Holds (withEvent times timestamp currTime) base' l' := by
  have htimeout : log.ts.purgeTimeout = msec 1000 := congrArg Timeslot.purgeTimeout h.listed
  obtain ⟨ts', l', purged, hadd, hrep, he⟩ :=
    h.rep.add (h.length ▸ hroom) M timestamp currTime log.pseudoPointer (msec 1000)
  obtain ⟨k, purged', hlogged, rfl, hlen⟩ := add_logged hs hpast (pointers_ne hw hroom base) currTime
  rw [h.listed, h.pointer] at he
  rw [DesAodv.timeslotAddobject] at hlogged
  rw [hlogged] at he
  obtain ⟨hlisted, rfl⟩ := Prod.mk.inj he
  refine ⟨{ ts := ts', count := UInt32.ofNat (withEvent times timestamp currTime).length,
            pseudoPointer := log.pseudoPointer + 1 }, base + purged.length, l', ?_, hrep, hlisted, ?_, rfl⟩
  · have hcount := foldl_decrement_succ purged hlen
    rw [← h.count] at hcount
    simp only [rateLogPut, timeslotAddobject, htimeout, hadd, Option.bind_eq_bind, Option.bind_some, hcount]
  · rw [Nat.add_assoc, ← hlen, h.pointer, ← Nat.add_assoc]
    exact (BitVec.ofNat_add (base + times.length) 1).symm

end

end RateLog

theorem RateLog.Holds.count_eq_size {log : RateLog w} {times : List Timeval} {base : Nat}
    {l : List (Nat × TimeslotElement (BitVec w))} (h : log.Holds times base l) : log.count = log.ts.size := by
  rw [h.count, h.rep.size, h.length]

end

end Ptr

/-! ## The node's log -/

/-- The log of a daemon has the events at `times`. -/
structure RateLog.Lists (log : RateLog) (times : List Timeval) (base : Nat) : Prop where
  ts : log.ts = { elements := logged id base times, purgeTimeout := msec 1000 }
  pointer : log.pseudoPointer = base + times.length
  count : log.count = UInt32.ofNat times.length

section
variable {log : RateLog} {times : List Timeval} {base : Nat}

theorem RateLog.Lists.getcount (h : log.Lists times base) (hs : times.Pairwise (· ≤ ·)) (now : Timeval) :
    ∃ base', (rateLogCount log now).2 = UInt32.ofNat (recent now times).length ∧
      (rateLogCount log now).1.Lists (recent now times) base' := by
  obtain ⟨k, purged, hlogged, rfl, hlen⟩ := @purge_logged _ id base _ hs (msec 1000) now
  have hcount : purged.foldl decrementCounter log.count = UInt32.ofNat (recent now times).length := by
    rw [h.count, hlen]
    exact Ptr.foldl_decrement purged _
  refine ⟨base + purged.length, ?_, ?_, ?_, ?_⟩
  all_goals simp only [rateLogCount, h.ts, hlogged, hcount]
  rw [Nat.add_assoc, ← hlen]
  exact h.pointer

theorem RateLog.Lists.put (h : log.Lists times base) (hs : times.Pairwise (· ≤ ·)) {timestamp : Timeval}
    (hpast : ∀ t ∈ times, t ≤ timestamp) (currTime : Timeval) :
    ∃ base', (rateLogPut log timestamp currTime).Lists (withEvent times timestamp currTime) base' := by
  obtain ⟨k, purged, hlogged, rfl, hlen⟩ := @add_logged _ id base _ _ hs _ hpast
    (fun i hi he => Nat.ne_of_lt hi (Nat.add_left_cancel he)) currTime
  have hcount := Ptr.foldl_decrement_succ purged hlen
  rw [← h.count] at hcount
  rw [id, ← h.pointer] at hlogged
  refine ⟨base + purged.length, ?_, ?_, ?_⟩
  all_goals simp only [rateLogPut, h.ts, hlogged]
  · rw [h.pointer, Nat.add_assoc, Nat.add_assoc, hlen]
  · exact hcount

end

/-! ## Sequences of calls -/

/-- `currTime` is the wall clock read inside the call. -/
inductive RlOp
  | put (timestamp currTime : Timeval)
  | getcount (timestamp : Timeval)
  deriving DecidableEq, Repr

/-- The functions of a log keep the events whose second is not over, and count them. -/
structure KeepsSecond {σ : Type} (put : σ → Timeval → Timeval → Option σ)
    (getcount : σ → Timeval → Option (σ × UInt32)) (Holds : σ → List Timeval → Prop) : Prop where
  put : ∀ {log times timestamp} currTime, Holds log times → times.Pairwise (· ≤ ·) → (∀ t ∈ times, t ≤ timestamp) →
    times.length < 2 ^ 32 →
    ∃ log', put log timestamp currTime = some log' ∧ Holds log' (withEvent times timestamp currTime)
  getcount : ∀ {log times} now, Holds log times → times.Pairwise (· ≤ ·) →
    ∃ log', getcount log now = some (log', UInt32.ofNat (recent now times).length) ∧ Holds log' (recent now times)

def Ptr.RateLog.Keeps {w : Nat} (log : Ptr.RateLog w) (times : List Timeval) : Prop :=
  ∃ base l, log.Holds times base l

def RateLog.Keeps (log : RateLog) (times : List Timeval) : Prop := ∃ base, log.Lists times base

theorem keepsSecond_memory {w : Nat} (hw : 32 ≤ w) (M : Malloc) :
    KeepsSecond (Ptr.rateLogPut M) Ptr.rateLogCount (Ptr.RateLog.Keeps (w := w)) where
  put currTime h hs hpast hroom := by
    obtain ⟨base, l, hl⟩ := h
    obtain ⟨log', base', l', hput, hl'⟩ := hl.put hw hs M hpast hroom currTime
    exact ⟨log', hput, base', l', hl'⟩
  getcount now h hs := by
    obtain ⟨base, l, hl⟩ := h
    obtain ⟨log', base', l', hcount, hl'⟩ := hl.getcount hs now
    exact ⟨log', hcount, base', l', hl'⟩

theorem keepsSecond_node :
    KeepsSecond (fun log timestamp currTime => some (rateLogPut log timestamp currTime))
      (fun log timestamp => some (rateLogCount log timestamp)) RateLog.Keeps where
  put currTime h hs hpast _ := by
    obtain ⟨base, hl⟩ := h
    exact ⟨_, rfl, hl.put hs hpast currTime⟩
  getcount now h hs := by
    obtain ⟨base, hl⟩ := h
    obtain ⟨base', hcount, hl'⟩ := hl.getcount hs now
    exact ⟨_, congrArg (fun c => some (_, c)) hcount, base', hl'⟩

namespace RlOp

def readings : RlOp → List Timeval
  | put timestamp currTime => [timestamp, currTime]
  | getcount timestamp => [timestamp]

/-- The answers of the calls that count, with the functions of a log. -/
def run {σ : Type} (put : σ → Timeval → Timeval → Option σ) (getcount : σ → Timeval → Option (σ × UInt32)) :
    σ → List RlOp → Option (σ × List UInt32)
  | log, [] => some (log, [])
  | log, .put timestamp currTime :: ops => do
    let log ← put log timestamp currTime
    run put getcount log ops
  | log, .getcount timestamp :: ops => do
    let (log, count) ← getcount log timestamp
    let (log, counts) ← run put getcount log ops
    some (log, count :: counts)

/-- How many of the events put before each count have a timestamp within the second before it. -/
def counts : List Timeval → List RlOp → List Nat
  | _, [] => []
  | puts, .put timestamp _ :: ops => counts (puts ++ [timestamp]) ops
  | puts, .getcount timestamp :: ops =>
    (puts.filter fun t => decide (t ≤ timestamp ∧ timestamp < t + msec 1000)).length :: counts puts ops

/-- The last reading of the clock, and the timestamps of all events put. -/
structure History where
  clock : Timeval
  puts : List Timeval

def History.step (hist : History) : RlOp → History
  | .put timestamp currTime => { clock := currTime, puts := hist.puts ++ [timestamp] }
  | .getcount timestamp => { hist with clock := timestamp }

/-- The events whose second is not over. -/
def History.alive (hist : History) : List Timeval := recent hist.clock hist.puts

/-- The events at `times` are those that are alive, with some that are not, or a single one. -/
structure Follows (hist : History) (times : List Timeval) : Prop where
  sorted : times.Pairwise (· ≤ ·)
  past : ∀ t ∈ hist.puts, t ≤ hist.clock
  sub : times ⊆ hist.puts
  counted : ∀ now, hist.clock ≤ now → recent now times = recent now hist.puts
  few : times = hist.alive ∨ times.length = 1

section
variable {hist : History} {times : List Timeval}

theorem follows_init : Follows { clock := 0, puts := [] } [] where
  sorted := List.Pairwise.nil
  past := List.forall_mem_nil _
  sub := List.Subset.refl _
  counted _ _ := rfl
  few := .inl rfl

theorem Follows.room (h : Follows hist times) (hfew : hist.alive.length < 2 ^ 32) : times.length < 2 ^ 32 := by
  rcases h.few with he | he
  · rw [he]
    exact hfew
  · rw [he]
    decide

theorem recent_append (now : Timeval) (times times' : List Timeval) :
    recent now (times ++ times') = recent now times ++ recent now times' :=
  List.filter_append ..

theorem Follows.past_le (h : Follows hist times) {now : Timeval} (hnow : hist.clock ≤ now) : ∀ t ∈ times, t ≤ now :=
  fun t ht => Nat.le_trans (h.past t (h.sub ht)) hnow

theorem Follows.put (h : Follows hist times) {timestamp currTime : Timeval} (ht : hist.clock ≤ timestamp)
    (hc : timestamp ≤ currTime) :
    Follows (hist.step (.put timestamp currTime)) (withEvent times timestamp currTime) := by
  have hrecent : ∀ now, currTime ≤ now →
      recent now (times ++ [timestamp]) = recent now (hist.puts ++ [timestamp]) := by
    intro now hnow
    rw [recent_append, recent_append, h.counted now (Nat.le_trans ht (Nat.le_trans hc hnow))]
  have hsub : times ++ [timestamp] ⊆ hist.puts ++ [timestamp] := by
    intro t hm
    rcases List.mem_append.mp hm with hm | hm
    · exact List.mem_append_left _ (h.sub hm)
    · exact List.mem_append_right _ hm
  have hsorted : (times ++ [timestamp]).Pairwise (· ≤ ·) := by
    refine List.pairwise_append.mpr ⟨h.sorted, List.pairwise_singleton _ _, fun a ha b hb => ?_⟩
    rw [List.mem_singleton.mp hb]
    exact h.past_le ht a ha
  have hclock : ∀ t ∈ hist.puts ++ [timestamp], t ≤ currTime := by
    intro t hm
    rcases List.mem_append.mp hm with hm | hm
    · exact Nat.le_trans (h.past t hm) (Nat.le_trans ht hc)
    · rw [List.mem_singleton.mp hm]
      exact hc
  -- whatever is dropped is not counted any more
  have hkept : ∀ kept, kept.Sublist (times ++ [timestamp]) →
      (∀ now, currTime ≤ now → recent now kept = recent now (times ++ [timestamp])) →
      (kept = recent currTime (times ++ [timestamp]) ∨ kept.length = 1) →
      Follows (hist.step (.put timestamp currTime)) kept := by
    intro kept hk hr hf
    refine ⟨hsorted.sublist hk, hclock, List.Subset.trans hk.subset hsub, fun now hnow => ?_, ?_⟩
    · exact (hr now hnow).trans (hrecent now hnow)
    · exact hf.imp_left fun he => he.trans (hrecent currTime (Nat.le_refl _))
  unfold withEvent
  by_cases hnil : times = []
  · rw [if_pos hnil]
    subst hnil
    exact hkept [timestamp] (List.Sublist.refl _) (fun _ _ => rfl) (.inr rfl)
  · rw [if_neg hnil]
    exact hkept _ List.filter_sublist (fun now hnow => recent_recent hnow _) (.inl rfl)

theorem Follows.getcount (h : Follows hist times) {timestamp : Timeval} (ht : hist.clock ≤ timestamp) :
    Follows (hist.step (.getcount timestamp)) (recent timestamp times) where
  sorted := h.sorted.sublist List.filter_sublist
  past t hm := Nat.le_trans (h.past t hm) ht
  sub := List.Subset.trans List.filter_sublist.subset h.sub
  counted now hnow := (recent_recent hnow times).trans (h.counted now (Nat.le_trans ht hnow))
  few := .inl (h.counted timestamp ht)

theorem Follows.count_eq (h : Follows hist times) {timestamp : Timeval} (ht : hist.clock ≤ timestamp) :
    recent timestamp times =
      hist.puts.filter fun t => decide (t ≤ timestamp ∧ timestamp < t + msec 1000) := by
  rw [h.counted timestamp ht]
  apply List.filter_congr
  intro t hm
  rw [decide_eq_decide, Nat.add_comm]
  exact (and_iff_right (Nat.le_trans (h.past t hm) ht)).symm

section
variable {σ : Type} {put : σ → Timeval → Timeval → Option σ} {getcount : σ → Timeval → Option (σ × UInt32)}
  {Holds : σ → List Timeval → Prop}

theorem run_counts (hk : KeepsSecond put getcount Holds) {log : σ} (hl : Holds log times) (h : Follows hist times)
    {ops : List RlOp} (hclock : (hist.clock :: ops.flatMap readings).Pairwise (· ≤ ·))
    (hfew : Runs.Always History.step (fun hist _ => hist.alive.length < 2 ^ 32) hist ops) :
    ∃ log' times' answers, run put getcount log ops = some (log', answers) ∧
      answers.map UInt32.toNat = counts hist.puts ops ∧ Holds log' times' := by
  induction ops generalizing log hist times with
  | nil => exact ⟨log, times, [], rfl, rfl, hl⟩
  | cons op ops ih =>
    have hroom := h.room hfew.1
    cases op with
    | put timestamp currTime =>
      obtain ⟨hfirst, hrest⟩ := List.pairwise_cons.mp hclock
      obtain ⟨hsecond, hrest⟩ := List.pairwise_cons.mp hrest
      have ht := hfirst timestamp List.mem_cons_self
      obtain ⟨log₁, hput, hl₁⟩ := hk.put currTime hl h.sorted (h.past_le ht) hroom
      obtain ⟨log', times', answers, hrun, ha, hl'⟩ :=
        ih hl₁ (h.put ht (hsecond currTime List.mem_cons_self)) hrest hfew.2
      refine ⟨log', times', answers, ?_, ha, hl'⟩
      simp only [run, hput, Option.bind_eq_bind, Option.bind_some, hrun]
    | getcount timestamp =>
      obtain ⟨hfirst, hrest⟩ := List.pairwise_cons.mp hclock
      have ht := hfirst timestamp List.mem_cons_self
      obtain ⟨log₁, hcount, hl₁⟩ := hk.getcount timestamp hl h.sorted
      obtain ⟨log', times', answers, hrun, ha, hl'⟩ := ih hl₁ (h.getcount ht) hrest hfew.2
      refine ⟨log', times', UInt32.ofNat (recent timestamp times).length :: answers, ?_, ?_, hl'⟩
      · simp only [run, hcount, Option.bind_eq_bind, Option.bind_some, hrun]
      · have hlen : (recent timestamp times).length < 2 ^ 32 :=
          Nat.lt_of_le_of_lt (List.length_filter_le _ _) hroom
        rw [List.map_cons, ha, UInt32.toNat_ofNat', Nat.mod_eq_of_lt hlen, h.count_eq ht]
        rfl

end

end

/-- Each count is the number of events of the last second, and afterwards the counter is the size of the
timeslot. -/
def CountsSecond {w : Nat} (put : Ptr.RateLog w → Timeval → Timeval → Option (Ptr.RateLog w))
    (getcount : Ptr.RateLog w → Timeval → Option (Ptr.RateLog w × UInt32)) (ops : List RlOp) : Prop :=
  ∃ log answers, run put getcount (Ptr.rateLogInit w) ops = some (log, answers) ∧
    answers.map UInt32.toNat = counts [] ops ∧ log.count = log.ts.size

section
variable {ops : List RlOp} (hclock : (ops.flatMap readings).Pairwise (· ≤ ·))
  (hfew : Runs.Always History.step (fun hist _ => hist.alive.length < 2 ^ 32) { clock := 0, puts := [] } ops)
include hclock hfew

theorem counts_from_init {σ : Type} {put : σ → Timeval → Timeval → Option σ}
    {getcount : σ → Timeval → Option (σ × UInt32)} {Holds : σ → List Timeval → Prop}
    (hk : KeepsSecond put getcount Holds) {log : σ} (hl : Holds log []) :
    ∃ log' times answers, run put getcount log ops = some (log', answers) ∧
      answers.map UInt32.toNat = counts [] ops ∧ Holds log' times := by
  have hstart : (0 :: ops.flatMap readings).Pairwise (· ≤ ·) :=
    List.pairwise_cons.mpr ⟨fun t _ => Nat.zero_le t, hclock⟩
  exact run_counts hk hl follows_init hstart hfew

/-- Under a clock that does not go back, with fewer than `2 ^ 32` events alive and pointers of at least 32
bits, both logs count the events of the last second. -/
theorem counts_second {w : Nat} (hw : 32 ≤ w) (M : Malloc) :
    CountsSecond (w := w) (Ptr.aodvDbRlPutrreq M) Ptr.aodvDbRlGetrreqcount ops ∧
      CountsSecond (w := w) (Ptr.aodvDbRlPutrerr M) Ptr.aodvDbRlGetrerrcount ops := by
  obtain ⟨log, times, answers, hrun, ha, base, l, hl⟩ :=
    counts_from_init hclock hfew (keepsSecond_memory hw M) ⟨0, [], Ptr.holds_init⟩
  exact ⟨⟨log, answers, hrun, ha, hl.count_eq_size⟩, log, answers, hrun, ha, hl.count_eq_size⟩

/-- So does the log of a daemon, whose objects are numbers. -/
theorem node_counts_second :
    ∃ log answers, run (fun log timestamp currTime => some (rateLogPut log timestamp currTime))
        (fun log timestamp => some (rateLogCount log timestamp)) rateLogInit ops = some (log, answers) ∧
      answers.map UInt32.toNat = counts [] ops := by
  have hinit : rateLogInit.Keeps [] := ⟨0, rfl, rfl, rfl⟩
  obtain ⟨log, times, answers, hrun, ha, -⟩ := counts_from_init hclock hfew keepsSecond_node hinit
  exact ⟨log, answers, hrun, ha⟩

end

/-- The third event is purged by its own addition; at 2.5 s one event is less than a second old. -/
def fewEvents : List RlOp :=
  [.put 0 0, .put 500000 500000, .put 600000 1600000, .getcount 1700000, .put 2000000 2000000, .getcount 2500000]

theorem counts_second_fewEvents :
    CountsSecond (w := 64) (Ptr.aodvDbRlPutrreq Malloc.bump) Ptr.aodvDbRlGetrreqcount fewEvents ∧
      CountsSecond (w := 64) (Ptr.aodvDbRlPutrerr Malloc.bump) Ptr.aodvDbRlGetrerrcount fewEvents :=
  counts_second (by decide) (by decide) (by decide) Malloc.bump

example : counts [] fewEvents = [0, 1] := by decide

end RlOp

end DesAodv
