import DesAodv.GossipQueue

/-!
# The task of the hold queue

`aodv_gossip_3` polls the hold queue as a periodic task. A tick releases the lock
of the queue while it sends a message, so it consists of several sections, between
which anything else may happen to the queue. Its task is registered by every
addition, and its handle is never stored.
-/

namespace DesAodv

namespace HoldQueue

/-- What becomes of the daemon that writes through a null pointer. -/
inductive NullWrite
  | ends | returns
  deriving DecidableEq, Repr

/-- `stale` is where the message pointer of a new element leads that nothing is written to. -/
def holdQueueAdd (w : NullWrite) (q : HoldQueue) (msg : DessertMsg) (now : Timeval) (stale : Option DessertMsg) :
    HoldQueue :=
  match w, q.aodvGossipHoldQueueSearch msg with
  | .returns, none =>
    let el : HoldQueueElem := { timeout := now + msec (3 * nodeTraversalTime), msg := stale, quantity := 1 }
    addPeriodic { q with elems := q.elems ++ [el] }
  | _, _ => q.aodvGossipHoldQueueAdd msg now

/-- The loop of `aodv_gossip_3`, up to the next message to send. -/
def tickLoop (scheduled : Timeval) : List HoldQueueElem → List HoldQueueElem × Option (Option DessertMsg)
  | [] => ([], none)
  | head :: rest =>
    if head.timeout > scheduled then (head :: rest, none)
    else if head.quantity ≥ 2 then tickLoop scheduled rest
    else (rest, some head.msg)

/-- A tick while it holds the lock: to send a message, or to the end. -/
def tickSection (q : HoldQueue) (scheduled : Timeval) : HoldQueue × Option (Option DessertMsg) :=
  match tickLoop scheduled q.elems with
  | (elems, some msg) => ({ q with elems }, some msg)
  | (elems, none) =>
    let q := { q with elems }
    if elems = [] then
      let periodics := q.holdQueuePeriodic.elim q.periodics q.periodics.erase
      ({ q with
          periodics
          holdQueuePeriodic := none }, none)
    else (q, none)

/-- The queue, and the ticks that are sending, by the times they are scheduled for. -/
structure Polling where
  queue : HoldQueue
  sending : List Timeval
  deriving DecidableEq, Repr

def pollingInit : Polling := { queue := holdQueueInit, sending := [] }

/-- One section under the lock: a whole operation, the first section of a tick, or the next one of a tick
that has been sending. -/
inductive PollEvent
  | add (msg : DessertMsg) (now : Timeval) (stale : Option DessertMsg)
  | drop (msg : DessertMsg)
  | capt (msg : DessertMsg)
  | tick (scheduled : Timeval)
  | resume (k : Nat)
  deriving DecidableEq, Repr

namespace Polling

def tick (s : Polling) (scheduled : Timeval) : Polling :=
  let (queue, sent) := s.queue.tickSection scheduled
  { queue, sending := if sent.isSome then s.sending ++ [scheduled] else s.sending }

/-- After a fault nothing happens any more. -/
def step (w : NullWrite) (s : Polling) (e : PollEvent) : Polling :=
  if s.queue.fault then s
  else
    match e with
    | .add msg now stale => { s with queue := s.queue.holdQueueAdd w msg now stale }
    | .drop msg => { s with queue := s.queue.aodvGossipHoldQueueDrop msg }
    | .capt msg => { s with queue := s.queue.aodvGossipCaptRreq msg }
    | .tick scheduled => s.tick scheduled
    | .resume k =>
      match s.sending[k]? with
      | none => s
      | some scheduled => ({ s with sending := s.sending.eraseIdx k } : Polling).tick scheduled

/-- The time for which the tick is scheduled that the event belongs to. -/
def scheduledAt (s : Polling) : PollEvent → Option Timeval
  | .tick scheduled => some scheduled
  | .resume k => s.sending[k]?
  | _ => none

/-- The event is the last section of a tick. -/
def EndsTick (s : Polling) (e : PollEvent) : Prop :=
  s.queue.fault = false ∧ ∃ scheduled, s.scheduledAt e = some scheduled ∧ (s.queue.tickSection scheduled).2 = none

/-- At most one task is registered, and one while there is something in the queue. -/
structure Polled (q : HoldQueue) : Prop where
  atMostOne : q.periodics.length ≤ 1
  whileHeld : q.elems ≠ [] → q.periodics ≠ []

/-- One task polls the queue, as long as it is needed: between any two sections, and also where the
daemon ends. -/
structure OneTask (w : NullWrite) (evs : List PollEvent) : Prop where
  polled : ∀ pre post, evs = pre ++ post → Polled (Runs.exec (step w) pollingInit pre).queue
  noneAfter : ∀ pre e post, evs = pre ++ e :: post → (Runs.exec (step w) pollingInit pre).EndsTick e →
    (Runs.exec (step w) pollingInit (pre ++ [e])).queue.elems = [] →
    (Runs.exec (step w) pollingInit (pre ++ [e])).queue.periodics = []

/-- An addition finds no task, and can only be the first one; a tick that finds nothing to keep and
nothing to send finds no task. -/
def Clear (w : NullWrite) (s : Polling) (e : PollEvent) : Prop :=
  s.queue.fault = false →
    (∀ msg now stale, e = .add msg now stale → w = .returns ∧ s.queue.periodics = []) ∧
    ∀ scheduled, s.scheduledAt e = some scheduled →
      (∀ el ∈ s.queue.elems, el.timeout ≤ scheduled ∧ 2 ≤ el.quantity) → s.queue.periodics = []

end Polling

/-! ## What the sections do to the task -/

section
variable {q : HoldQueue}

theorem sendDue_eq_tickLoop (scheduled : Timeval) (els : List HoldQueueElem) :
    sendDue scheduled els =
      match tickLoop scheduled els with
      | (elems, none) => (elems, [])
      | (elems, some msg) => ((sendDue scheduled elems).1, msg.toList ++ (sendDue scheduled elems).2) := by
  induction els with
  | nil => rfl
  | cons head rest ih =>
    rw [sendDue, tickLoop]
    by_cases hlater : head.timeout > scheduled
    · rw [if_pos hlater, if_pos hlater]
    · rw [if_neg hlater, if_neg hlater]
      by_cases htwo : head.quantity ≥ 2
      · simp only [htwo, if_true]
        exact ih
      · simp only [htwo, if_false]

/-- A tick whose sections follow one another at once is `aodv_gossip_3` as a whole. -/
theorem aodvGossip3_eq_section (q : HoldQueue) (scheduled : Timeval) :
    q.aodvGossip3 scheduled =
      match q.tickSection scheduled with
      | (q', none) => (q', [])
      | (q', some msg) => ((q'.aodvGossip3 scheduled).1, msg.toList ++ (q'.aodvGossip3 scheduled).2) := by
  unfold aodvGossip3 tickSection
  rw [sendDue_eq_tickLoop]
  cases tickLoop scheduled q.elems with
  | mk elems sent =>
    cases sent with
    | none =>
      simp only
      split <;> rfl
    | some msg =>
      simp only
      split <;> rfl

theorem tickLoop_empty {scheduled : Timeval} {els : List HoldQueueElem} :
    tickLoop scheduled els = ([], none) ↔ ∀ el ∈ els, el.timeout ≤ scheduled ∧ 2 ≤ el.quantity := by
  induction els with
  | nil => exact iff_of_true rfl (List.forall_mem_nil _)
  | cons head rest ih =>
    rw [List.forall_mem_cons, ← ih, tickLoop]
    by_cases hlater : head.timeout > scheduled
    · rw [if_pos hlater]
      exact iff_of_false (by simp) fun h => absurd h.1.1 (Nat.not_le.mpr hlater)
    · rw [if_neg hlater]
      by_cases htwo : head.quantity ≥ 2
      · rw [if_pos htwo]
        exact (and_iff_right ⟨Nat.le_of_not_lt hlater, htwo⟩).symm
      · rw [if_neg htwo]
        exact iff_of_false (by simp) fun h => htwo h.1.2

/-- Without a handle a tick leaves the tasks as they are. -/
theorem tickSection_fields (h : q.holdQueuePeriodic = none) (scheduled : Timeval) :
    (q.tickSection scheduled).1.elems = (tickLoop scheduled q.elems).1 ∧
      (q.tickSection scheduled).2 = (tickLoop scheduled q.elems).2 ∧
      (q.tickSection scheduled).1.periodics = q.periodics ∧
      (q.tickSection scheduled).1.holdQueuePeriodic = none ∧ (q.tickSection scheduled).1.fault = q.fault := by
  unfold tickSection
  cases htick : tickLoop scheduled q.elems with
  | mk elems sent =>
    cases sent with
    | some msg => exact ⟨rfl, rfl, rfl, h, rfl⟩
    | none =>
      simp only [h, Option.elim_none]
      split <;> exact ⟨rfl, rfl, rfl, rfl, rfl⟩

theorem addPeriodic_eq (h : q.holdQueuePeriodic = none) (elems : List HoldQueueElem) :
    ({ q with elems } : HoldQueue).addPeriodic =
      { q with
        elems
        periodics := q.periodics ++ [q.fresh]
        fresh := q.fresh + 1 } := by
  rw [addPeriodic, if_pos h]

/-- Where the write comes back, every addition registers a task. -/
theorem holdQueueAdd_returns (h : q.holdQueuePeriodic = none) (msg : DessertMsg) (now : Timeval)
    (stale : Option DessertMsg) :
    (q.holdQueueAdd .returns msg now stale).periodics = q.periodics ++ [q.fresh] ∧
      (q.holdQueueAdd .returns msg now stale).holdQueuePeriodic = none ∧
      (q.holdQueueAdd .returns msg now stale).fault = q.fault := by
  cases hs : q.aodvGossipHoldQueueSearch msg with
  | none =>
    simpa [holdQueueAdd, hs, addPeriodic_eq h] using h
  | some el =>
    simpa [holdQueueAdd, aodvGossipHoldQueueAdd, hs, addPeriodic_eq h] using h

theorem search_empty (h : q.elems = []) (msg : DessertMsg) : q.aodvGossipHoldQueueSearch msg = none := by
  rw [aodvGossipHoldQueueSearch, h]
  rfl

theorem holdQueueAdd_ends (h : q.elems = []) (msg : DessertMsg) (now : Timeval) (stale : Option DessertMsg) :
    (q.holdQueueAdd .ends msg now stale).elems ≠ [] ∧
      (q.holdQueueAdd .ends msg now stale).periodics = q.periodics ∧
      (q.holdQueueAdd .ends msg now stale).holdQueuePeriodic = q.holdQueuePeriodic ∧
      (q.holdQueueAdd .ends msg now stale).fault = true := by
  have hs := search_empty h msg
  simp [holdQueueAdd, aodvGossipHoldQueueAdd, hs]

/-- The elements get no more, and the tasks stay as they are. -/
structure Quieter (q q' : HoldQueue) : Prop where
  elems : q.elems = [] → q'.elems = []
  periodics : q'.periodics = q.periodics
  handle : q'.holdQueuePeriodic = q.holdQueuePeriodic

theorem delete_quieter (q : HoldQueue) (msg : DessertMsg) : Quieter q (q.delete msg) where
  elems h := by rw [delete, h]; rfl
  periodics := rfl
  handle := rfl

theorem drop_quieter (q : HoldQueue) (msg : DessertMsg) : Quieter q (q.aodvGossipHoldQueueDrop msg) := by
  unfold aodvGossipHoldQueueDrop
  split
  · exact ⟨id, rfl, rfl⟩
  · exact delete_quieter q msg

theorem captRreq_quieter (q : HoldQueue) (msg : DessertMsg) : Quieter q (q.aodvGossipCaptRreq msg) := by
  unfold aodvGossipCaptRreq
  split
  · exact ⟨id, rfl, rfl⟩
  · split
    · simp only
      split
      · exact delete_quieter q msg
      · split
        · exact ⟨fun h => by rw [h]; rfl, rfl, rfl⟩
        · exact ⟨id, rfl, rfl⟩
    · exact ⟨id, rfl, rfl⟩

end

namespace Polling

/-! ## Runs -/

/-- What an event of a running daemon does. -/
inductive Sections (w : NullWrite) (s : Polling) : PollEvent → HoldQueue → Prop
  | add (msg : DessertMsg) (now : Timeval) (stale : Option DessertMsg) :
      Sections w s (.add msg now stale) (s.queue.holdQueueAdd w msg now stale)
  | quieter {e : PollEvent} {q : HoldQueue} (he : ∀ msg now stale, e ≠ .add msg now stale)
      (hs : s.scheduledAt e = none) (h : Quieter s.queue q) : Sections w s e q
  | tick {e : PollEvent} (he : ∀ msg now stale, e ≠ .add msg now stale) (scheduled : Timeval)
      (hs : s.scheduledAt e = some scheduled) : Sections w s e (s.queue.tickSection scheduled).1

section
variable {w : NullWrite} {s : Polling}

theorem step_fault (h : s.queue.fault = true) (e : PollEvent) : Polling.step w s e = s := by
  simp only [Polling.step, h, if_true]

theorem step_sections (h : s.queue.fault = false) (e : PollEvent) : Sections w s e (Polling.step w s e).queue := by
  simp only [Polling.step, h, Bool.false_eq_true, if_false]
  cases e with
  | add msg now stale => exact .add msg now stale
  | drop msg => exact .quieter (by simp) rfl (drop_quieter s.queue msg)
  | capt msg => exact .quieter (by simp) rfl (captRreq_quieter s.queue msg)
  | tick scheduled => exact .tick (by simp) scheduled rfl
  | resume k =>
    cases hk : s.sending[k]? with
    | none =>
      simp only [hk]
      exact .quieter (by simp) hk ⟨id, rfl, rfl⟩
    | some scheduled =>
      simp only [hk]
      exact .tick (by simp) scheduled hk

/-- The handle is never stored; and a daemon that ends with the first addition has had nothing in the queue. -/
structure NoHandle (w : NullWrite) (q : HoldQueue) : Prop where
  handle : q.holdQueuePeriodic = none
  unused : w = .ends → q.fault = false → q.elems = [] ∧ q.periodics = []

theorem init_noHandle : NoHandle w pollingInit.queue := ⟨rfl, fun _ _ => ⟨rfl, rfl⟩⟩

theorem NoHandle.sections (h : NoHandle w s.queue) (hf : s.queue.fault = false) {e : PollEvent} {q : HoldQueue}
    (hsec : Sections w s e q) : NoHandle w q := by
  cases hsec with
  | add msg now stale =>
    cases w with
    | returns => exact ⟨(holdQueueAdd_returns h.handle msg now stale).2.1, fun hw => nomatch hw⟩
    | ends =>
      obtain ⟨-, -, hhandle, hfault⟩ := holdQueueAdd_ends (h.unused rfl hf).1 msg now stale
      refine ⟨hhandle.trans h.handle, fun _ hf' => ?_⟩
      rw [hfault] at hf'
      cases hf'
  | quieter he hs hq =>
    refine ⟨hq.handle.trans h.handle, fun hw _ => ?_⟩
    obtain ⟨hels, hper⟩ := h.unused hw hf
    exact ⟨hq.elems hels, hq.periodics.trans hper⟩
  | tick he scheduled hs =>
    obtain ⟨hels, -, hper, hhandle, -⟩ := tickSection_fields h.handle scheduled
    refine ⟨hhandle, fun hw _ => ?_⟩
    obtain ⟨hels', hper'⟩ := h.unused hw hf
    refine ⟨?_, hper.trans hper'⟩
    rw [hels, hels']
    rfl

theorem NoHandle.step (h : NoHandle w s.queue) (e : PollEvent) : NoHandle w (Polling.step w s e).queue := by
  cases hf : s.queue.fault with
  | true =>
    rw [step_fault hf]
    exact h
  | false => exact h.sections hf (step_sections hf e)

theorem not_endsTick {e : PollEvent} (hs : s.scheduledAt e = none) : ¬ s.EndsTick e := by
  intro hend
  obtain ⟨-, t, ht, -⟩ := hend
  rw [hs] at ht
  cases ht

theorem add_polled_iff (h : NoHandle w s.queue) (hf : s.queue.fault = false) (msg : DessertMsg) (now : Timeval)
    (stale : Option DessertMsg) :
    Polled (s.queue.holdQueueAdd w msg now stale) ↔ Clear w s (.add msg now stale) := by
  have hclear : Clear w s (.add msg now stale) ↔ w = .returns ∧ s.queue.periodics = [] := by
    refine ⟨fun hc => (hc hf).1 msg now stale rfl, fun hc _ => ⟨fun _ _ _ _ => hc, fun t ht => ?_⟩⟩
    cases ht
  rw [hclear]
  cases w with
  | returns =>
    obtain ⟨hper, -⟩ := holdQueueAdd_returns h.handle msg now stale
    refine ⟨fun hq => ⟨rfl, ?_⟩, fun hc => ⟨?_, fun _ => ?_⟩⟩
    · have hle := hq.atMostOne
      rw [hper, List.length_append, List.length_singleton] at hle
      exact List.length_eq_zero_iff.mp (by omega)
    · rw [hper, hc.2]
      exact Nat.le_refl 1
    · rw [hper]
      simp
  | ends =>
    obtain ⟨hels, hper, -⟩ := holdQueueAdd_ends (h.unused rfl hf).1 msg now stale
    refine iff_of_false (fun hq => ?_) fun hc => nomatch hc.1
    exact hq.whileHeld hels (hper.trans (h.unused rfl hf).2)

theorem quieter_polled {q q' : HoldQueue} (hq : Quieter q q') (hp : Polled q) : Polled q' := by
  refine ⟨?_, fun hne => ?_⟩
  · rw [hq.periodics]
    exact hp.atMostOne
  · rw [hq.periodics]
    exact hp.whileHeld (mt hq.elems hne)

theorem tickSection_polled (h : NoHandle w s.queue) (hp : Polled s.queue) (scheduled : Timeval) :
    Polled (s.queue.tickSection scheduled).1 := by
  obtain ⟨hels, -, hper, -⟩ := tickSection_fields h.handle scheduled
  refine ⟨?_, fun hne => ?_⟩
  · rw [hper]
    exact hp.atMostOne
  · rw [hper]
    refine hp.whileHeld fun hnil => hne ?_
    rw [hels, hnil]
    rfl

/-- The tick ends with nothing in the queue exactly if it finds nothing to keep and nothing to send. -/
theorem endsTick_empty_iff (h : NoHandle w s.queue) (hf : s.queue.fault = false) {e : PollEvent} {scheduled : Timeval}
    (hs : s.scheduledAt e = some scheduled) :
    (s.EndsTick e ∧ (s.queue.tickSection scheduled).1.elems = []) ↔
      ∀ el ∈ s.queue.elems, el.timeout ≤ scheduled ∧ 2 ≤ el.quantity := by
  obtain ⟨hels, hsent, -⟩ := tickSection_fields h.handle scheduled
  rw [← tickLoop_empty, Prod.ext_iff, ← hels, ← hsent]
  refine ⟨fun h' => ⟨h'.2, ?_⟩, fun h' => ⟨⟨hf, scheduled, hs, h'.2⟩, h'.1⟩⟩
  obtain ⟨⟨-, t, ht, hnone⟩, -⟩ := h'
  rw [hs] at ht
  exact Option.some.inj ht ▸ hnone

/-- One event keeps the queue polled, and leaves no task at the end of a tick with nothing in the queue,
exactly if it is clear. -/
theorem sections_polled_iff (h : NoHandle w s.queue) (hp : Polled s.queue) (hf : s.queue.fault = false)
    {e : PollEvent} {q : HoldQueue} (hsec : Sections w s e q) :
    (Polled q ∧ (s.EndsTick e → q.elems = [] → q.periodics = [])) ↔ Clear w s e := by
  cases hsec with
  | add msg now stale =>
    rw [and_iff_left fun hend => absurd hend (not_endsTick rfl)]
    exact add_polled_iff h hf msg now stale
  | quieter he hs hq =>
    refine iff_of_true ⟨quieter_polled hq hp, fun hend => absurd hend (not_endsTick hs)⟩ fun _ => ⟨?_, fun t ht => ?_⟩
    · exact fun msg now stale heq => absurd heq (he msg now stale)
    · rw [hs] at ht
      cases ht
  | tick he scheduled hs =>
    have hempty := endsTick_empty_iff h hf hs
    rw [and_iff_right (tickSection_polled h hp scheduled), (tickSection_fields h.handle scheduled).2.2.1]
    refine ⟨fun hq _ => ⟨?_, fun t ht hall => ?_⟩, fun hc hend hnil => ?_⟩
    · exact fun msg now stale heq => absurd heq (he msg now stale)
    · rw [hs] at ht
      obtain rfl := Option.some.inj ht
      obtain ⟨hend, hnil⟩ := hempty.mpr hall
      exact hq hend hnil
    · exact (hc hf).2 scheduled hs (hempty.mp ⟨hend, hnil⟩)

theorem step_polled_iff (h : NoHandle w s.queue) (hp : Polled s.queue) (e : PollEvent) :
    (Polled (Polling.step w s e).queue ∧ (s.EndsTick e → (Polling.step w s e).queue.elems = [] →
      (Polling.step w s e).queue.periodics = [])) ↔ Clear w s e := by
  cases hf : s.queue.fault with
  | true =>
    rw [step_fault hf]
    refine iff_of_true ⟨hp, fun hend => ?_⟩ fun hf' => ?_
    · exact absurd (hf.symm.trans hend.1) (by decide)
    · exact absurd (hf.symm.trans hf') (by decide)
  | false => exact sections_polled_iff h hp hf (step_sections hf e)

end

theorem init_polled : Polled pollingInit.queue := ⟨Nat.zero_le 1, fun h => absurd rfl h⟩

theorem oneTask_always (w : NullWrite) (evs : List PollEvent) :
    OneTask w evs ↔ Runs.Always (Polling.step w) (fun s e => Polled (Polling.step w s e).queue ∧
      (s.EndsTick e → (Polling.step w s e).queue.elems = [] → (Polling.step w s e).queue.periodics = []))
      pollingInit evs := by
  have hstep : ∀ pre e, Polling.step w (Runs.exec (Polling.step w) pollingInit pre) e =
      Runs.exec (Polling.step w) pollingInit (pre ++ [e]) := by
    intro pre e
    rw [Runs.exec_append]
    rfl
  rw [Runs.always_iff]
  refine ⟨fun h pre e post he => ?_, fun h => ⟨fun pre post he => ?_, fun pre e post he => ?_⟩⟩
  · rw [hstep]
    exact ⟨h.polled (pre ++ [e]) post (by simpa using he), h.noneAfter pre e post he⟩
  · rcases List.eq_nil_or_concat pre with rfl | ⟨pre, e, rfl⟩
    · exact init_polled
    · rw [List.concat_eq_append] at he ⊢
      rw [← hstep]
      exact (h pre e post (by simpa using he)).1
  · have hlast := (h pre e post he).2
    rw [hstep] at hlast
    exact hlast

/-- One task polls the queue exactly in the runs in which an addition finds no task, and writes to where it
may, and a tick that empties the queue finds no task. -/
theorem oneTask_iff (w : NullWrite) (evs : List PollEvent) :
    OneTask w evs ↔ Runs.Always (Polling.step w) (Clear w) pollingInit evs := by
  rw [oneTask_always]
  refine Runs.always_congr_while (J := fun s => NoHandle w s.queue) (G := fun s => Polled s.queue) ?_ ?_ ?_
    init_noHandle init_polled
  · exact fun s e h => h.step e
  · exact fun s e h => h.1
  · exact fun s e h hp => step_polled_iff h hp e

theorem not_oneTask_first :
    ¬ OneTask .ends
        [.add
          { dessertMsgNew with
            l25Shost := 5
            l25Dhost := 9
            exts := [.rreq { flagU := true, flagD := false, destinationSequenceNumber := 0,
                             originatorSequenceNumber := 7 }] } 0 none,
          .tick 60000, .resume 0] ∧
      ¬ OneTask .returns
        [.add
          { dessertMsgNew with
            l25Shost := 5
            l25Dhost := 9
            exts := [.rreq { flagU := true, flagD := false, destinationSequenceNumber := 0,
                             originatorSequenceNumber := 7 }] } 0 none,
          .tick 60000, .resume 0] := by
  refine ⟨fun h => ?_, fun h => ?_⟩
  · exact absurd ((h.polled [_] [.tick 60000, .resume 0] rfl).whileHeld (by decide)) (by decide)
  · have hend := h.noneAfter [_, .tick 60000] (.resume 0) [] rfl ⟨by decide, 60000, rfl, by decide⟩ (by decide)
    exact absurd hend (by decide)

/-! ## Tasks pile up -/

def Adds : PollEvent → Bool
  | .add .. => true
  | _ => false

theorem fault_of_step {w : NullWrite} {s : Polling} {e : PollEvent}
    (h : (Polling.step w s e).queue.fault = false) : s.queue.fault = false := by
  cases hf : s.queue.fault with
  | false => rfl
  | true =>
    rw [step_fault hf, hf] at h
    cases h

theorem adds_eq_false {e : PollEvent} (h : ∀ msg now stale, e ≠ .add msg now stale) : Adds e = false := by
  cases e with
  | add msg now stale => exact absurd rfl (h msg now stale)
  | _ => rfl

/-- One addition is one more task; nothing else changes how many there are. -/
theorem step_periodics {s : Polling} (h : NoHandle .returns s.queue) (hf : s.queue.fault = false) (e : PollEvent) :
    (Polling.step .returns s e).queue.periodics.length = s.queue.periodics.length + [e].countP Adds := by
  have hsec := step_sections (w := .returns) hf e
  generalize (Polling.step .returns s e).queue = q at hsec
  cases hsec with
  | add msg now stale =>
    rw [(holdQueueAdd_returns h.handle msg now stale).1]
    simp [Adds]
  | quieter he hs hq =>
    rw [hq.periodics]
    simp [adds_eq_false he]
  | tick he scheduled hs =>
    rw [(tickSection_fields h.handle scheduled).2.2.1]
    simp [adds_eq_false he]

/-- As long as the daemon runs, it has registered as many tasks as there have been additions, and has
removed none of them. -/
theorem exec_periodics {s : Polling} (h : NoHandle .returns s.queue) (evs : List PollEvent)
    (hf : (Runs.exec (Polling.step .returns) s evs).queue.fault = false) :
    (Runs.exec (Polling.step .returns) s evs).queue.periodics.length =
      s.queue.periodics.length + evs.countP Adds := by
  induction evs generalizing s with
  | nil => rfl
  | cons e evs ih =>
    have hfirst : (Polling.step .returns s e).queue.fault = false :=
      Runs.of_exec (B := fun s : Polling => s.queue.fault = false) (fun s e => fault_of_step) hf
    have hstep := step_periodics h (fault_of_step hfirst) e
    rw [Runs.exec, ih (h.step e) hf, hstep, Nat.add_assoc, ← List.countP_append, List.singleton_append]

end Polling

end HoldQueue

end DesAodv
