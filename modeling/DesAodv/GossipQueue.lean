import DesAodv.Pipeline
import DesAodv.Runs

/-!
# The hold queue of GOSSIP_3

`aodv_gossip.c`: an RREQ that is not passed on at once is put on hold, and a
periodic task sends it later unless enough copies have been heard meanwhile. The
element for a new RREQ is built through a pointer that shadows the one the message
is then stored through, which is still NULL: the daemon does not survive the first
RREQ that is put on hold.
-/

namespace DesAodv

/-- `hold_queue_elem_t`. The message is written after the element has been linked. -/
structure HoldQueueElem where
  timeout : Timeval
  msg : Option DessertMsg
  quantity : Int
  deriving DecidableEq, Repr

/-- The originator and the destination of a message. -/
def DessertMsg.ends (msg : DessertMsg) : MacAddr × MacAddr := (msg.l25Shost, msg.l25Dhost)

def DessertMsg.originatorSequenceNumber (msg : DessertMsg) : Option UInt32 :=
  msg.getRreq.map AodvMsgRreq.originatorSequenceNumber

def HoldQueueElem.ends (el : HoldQueueElem) : Option (MacAddr × MacAddr) := el.msg.map DessertMsg.ends

/-- The queue, the handle of its periodic task, and the handles of all registered tasks. `fault` is set
when the daemon has written through a null pointer. -/
structure HoldQueue where
  elems : List HoldQueueElem
  holdQueuePeriodic : Option Nat
  periodics : List Nat
  fresh : Nat
  fault : Bool
  deriving DecidableEq, Repr

def holdQueueInit : HoldQueue := { elems := [], holdQueuePeriodic := none, periodics := [], fresh := 0, fault := false }

namespace HoldQueue

def aodvGossipHoldQueueSearch (q : HoldQueue) (msg : DessertMsg) : Option HoldQueueElem :=
  Keyed.lookup HoldQueueElem.ends (some msg.ends) q.elems

/-- `DL_DELETE` of the element that is found, whose message is destroyed. -/
def delete (q : HoldQueue) (msg : DessertMsg) : HoldQueue :=
  { q with elems := Keyed.erase HoldQueueElem.ends (some msg.ends) q.elems }

/-- The handle that `dessert_periodic_add` returns is not kept. -/
def addPeriodic (q : HoldQueue) : HoldQueue :=
  if q.holdQueuePeriodic = none then { q with periodics := q.periodics ++ [q.fresh], fresh := q.fresh + 1 } else q

def aodvGossipHoldQueueAdd (q : HoldQueue) (msg : DessertMsg) (now : Timeval) : HoldQueue :=
  match q.aodvGossipHoldQueueSearch msg with
  | none =>
    -- the inner `el` is linked; the outer one, whose field is written next, is NULL
    let el : HoldQueueElem := { timeout := now + msec (3 * nodeTraversalTime), msg := none, quantity := 1 }
    { q with
      elems := q.elems ++ [el]
      fault := true }
  | some _ =>
    addPeriodic
      { q with
        elems := Keyed.modify HoldQueueElem.ends (some msg.ends) (fun el => { el with msg := some msg }) q.elems }

def aodvGossipHoldQueueDrop (q : HoldQueue) (msg : DessertMsg) : HoldQueue :=
  match q.aodvGossipHoldQueueSearch msg with
  | none => q
  | some _ => q.delete msg

/-- `captured` and `held` are the RREQs of the two messages. -/
def aodvGossipCaptRreq (q : HoldQueue) (msg : DessertMsg) : HoldQueue :=
  match q.aodvGossipHoldQueueSearch msg with
  | none => q
  | some el =>
    match msg.originatorSequenceNumber, el.msg.bind DessertMsg.originatorSequenceNumber with
    | some captured, some held =>
      let cmpResult := hfCompU32 held captured
      if cmpResult > 0 then q.delete msg
      else if cmpResult = 0 then
        { q with
          elems := Keyed.modify HoldQueueElem.ends (some msg.ends)
            (fun el => { el with quantity := el.quantity + 1 }) q.elems }
      else q
    | _, _ => { q with fault := true }

/-- The loop of `aodv_gossip_3`: what stays in the queue, and the messages sent. -/
def sendDue (scheduled : Timeval) : List HoldQueueElem → List HoldQueueElem × List DessertMsg
  | [] => ([], [])
  | head :: rest =>
    if head.timeout > scheduled then (head :: rest, [])
    else
      let (elems, sent) := sendDue scheduled rest
      if head.quantity ≥ 2 then (elems, sent) else (elems, head.msg.toList ++ sent)

def aodvGossip3 (q : HoldQueue) (scheduled : Timeval) : HoldQueue × List DessertMsg :=
  let (elems, sent) := sendDue scheduled q.elems
  let q := { q with elems }
  if elems = [] then
    -- nothing happens to the task if the handle is NULL
    let periodics := q.holdQueuePeriodic.elim q.periodics q.periodics.erase
    ({ q with
        periodics
        holdQueuePeriodic := none }, sent)
  else (q, sent)

/-- `coin` is what `aodv_gossip_0` returns. -/
def aodvGossip (gossipType : AodvGossip) (q : HoldQueue) (msg : DessertMsg) (coin : Bool) (now : Timeval) :
    HoldQueue × Bool :=
  match gossipType with
  | .gossipNone => (q, true)
  | .gossip0 => (q, coin)
  | .gossip1 => (q, decide (msg.u8 ≤ 1) || coin)
  | .gossip3 =>
    if coin then (q.aodvGossipHoldQueueDrop msg, true)
    else (q.aodvGossipHoldQueueAdd msg now, false)
  | .pissog0 | .pissog3 => ({ q with fault := true }, true)

/-! ## Runs -/

/-- `gossiped` says that the RREQ is not old and that `aodv_handle_rreq` would pass it on. -/
inductive Event
  | rreq (msg : DessertMsg) (gossiped coin : Bool) (now : Timeval)
  | tick (scheduled : Timeval)
  deriving DecidableEq, Repr

def rreqEvent (q : HoldQueue) (msg : DessertMsg) (gossiped coin : Bool) (now : Timeval) : HoldQueue :=
  if msg.getRreq = none then q
  else
    let q := q.aodvGossipCaptRreq msg
    if q.fault then q
    else if gossiped then (q.aodvGossip .gossip3 msg coin now).1
    else q

/-- One event in the life of the daemon, and what it sends from the queue. After a fault there are none. -/
def event (q : HoldQueue) (e : Event) : HoldQueue × List DessertMsg :=
  if q.fault then (q, [])
  else
    match e with
    | .rreq msg gossiped coin now => (q.rreqEvent msg gossiped coin now, [])
    | .tick scheduled => q.aodvGossip3 scheduled

def step (q : HoldQueue) (e : Event) : HoldQueue := (q.event e).1

/-- All that is sent from the queue. -/
def sentBy : HoldQueue → List Event → List DessertMsg
  | _, [] => []
  | q, e :: es => (q.event e).2 ++ sentBy (q.step e) es

/-- An RREQ: originator, destination and sequence number. -/
structure RreqId where
  ends : MacAddr × MacAddr
  seq : UInt32
  deriving DecidableEq, Repr

def idOf (msg : DessertMsg) : Option RreqId :=
  msg.originatorSequenceNumber.map fun seq => { ends := msg.ends, seq }

/-- The event is the reception of an RREQ between the same ends with a number in the relation `r`. -/
def Event.Receives (r : UInt32 → Prop) (ends : MacAddr × MacAddr) : Event → Prop
  | .rreq msg _ _ _ => ∃ id, idOf msg = some id ∧ id.ends = ends ∧ r id.seq
  | .tick _ => False

/-- The event puts the RREQ on hold. -/
def Event.PutsOnHold (id : RreqId) : Event → Prop
  | .rreq msg gossiped coin _ => idOf msg = some id ∧ gossiped = true ∧ coin = false
  | .tick _ => False

def Event.tickFrom (timeout : Timeval) : Event → Prop
  | .rreq .. => False
  | .tick scheduled => timeout ≤ scheduled

/-- The element that holds the RREQ. -/
def held (q : HoldQueue) (id : RreqId) : Option HoldQueueElem :=
  (Keyed.lookup HoldQueueElem.ends (some id.ends) q.elems).filter fun el => decide (el.msg.bind idOf = some id)

/-- What the hold queue is for, in a run from the empty queue. -/
structure Kept (es : List Event) : Prop where
  /-- The daemon runs on. -/
  alive : (Runs.exec step holdQueueInit es).fault = false
  /-- An RREQ that is put on hold is held then. -/
  holds : ∀ pre e post id, es = pre ++ e :: post → e.PutsOnHold id →
    ((Runs.exec step holdQueueInit (pre ++ [e])).held id).isSome
  /-- No RREQ is sent from the queue twice. -/
  once : ∀ id, ((sentBy holdQueueInit es).filter fun msg => decide (idOf msg = some id)).length ≤ 1
  /-- At the first tick after its timeout an RREQ is sent if neither a copy nor a newer one was received. -/
  atTimeout : ∀ pre e mid scheduled post id el, es = pre ++ e :: (mid ++ .tick scheduled :: post) →
    e.PutsOnHold id → (∀ e' ∈ pre, ¬ e'.PutsOnHold id) →
    (Runs.exec step holdQueueInit (pre ++ [e])).held id = some el →
    (∀ e' ∈ mid, ¬ e'.tickFrom el.timeout) → el.timeout ≤ scheduled →
    ((∃ msg ∈ ((Runs.exec step holdQueueInit (pre ++ e :: mid)).event (.tick scheduled)).2, idOf msg = some id) ↔
      ∀ e' ∈ mid, ¬ e'.Receives (fun seq => seq = id.seq ∨ 0 < hfCompU32 seq id.seq) id.ends)
  /-- An older RREQ between the same ends makes no difference to the one held. -/
  older : ∀ pre e post id el, es = pre ++ e :: post → (Runs.exec step holdQueueInit pre).held id = some el →
    e.Receives (fun seq => hfCompU32 seq id.seq < 0) id.ends →
    (Runs.exec step holdQueueInit (pre ++ [e])).held id = some el

/-! ## Captures -/

/-- What a captured RREQ does to the one that is held: the comparison is the wrong way round, the older
one deletes the newer. -/
theorem captRreq_held {q : HoldQueue} {msg m : DessertMsg} {el : HoldQueueElem} {captured held : UInt32}
    (hs : q.aodvGossipHoldQueueSearch msg = some el) (hm : el.msg = some m)
    (hheld : m.originatorSequenceNumber = some held) (hcapt : msg.originatorSequenceNumber = some captured) :
    (q.aodvGossipCaptRreq msg).aodvGossipHoldQueueSearch msg =
      if 0 < hfCompU32 held captured then none
      else some (if held = captured then { el with quantity := el.quantity + 1 } else el) := by
  have hnum : el.msg.bind DessertMsg.originatorSequenceNumber = some held := by
    rw [hm]
    exact hheld
  simp only [aodvGossipCaptRreq, hs, hcapt, hnum]
  by_cases hgt : 0 < hfCompU32 held captured
  · simp only [gt_iff_lt, hgt, if_true]
    exact Keyed.lookup_erase_self _ _
  · simp only [gt_iff_lt, hgt, if_false, hfCompU32_eq_zero]
    by_cases heq : held = captured
    · simp only [heq, if_true]
      have hmod := @Keyed.lookup_modify _ _ _ _ _ HoldQueueElem.ends HoldQueueElem.ends (some msg.ends)
        (some msg.ends) (fun el => { el with quantity := el.quantity + 1 }) (fun _ => rfl) q.elems
      have hs' : Keyed.lookup HoldQueueElem.ends (some msg.ends) q.elems = some el := hs
      rw [hs', Option.map_some, if_pos (Keyed.lookup_key hs')] at hmod
      exact hmod
    · simp only [heq, if_false]
      exact hs

/-! ## The first RREQ on hold -/

theorem originatorSequenceNumber_of_idOf {msg : DessertMsg} {id : RreqId} (h : idOf msg = some id) :
    ∃ rreq, msg.getRreq = some rreq := by
  unfold idOf DessertMsg.originatorSequenceNumber at h
  cases hr : msg.getRreq with
  | none => rw [hr] at h; cases h
  | some rreq => exact ⟨rreq, rfl⟩

theorem step_fault {q : HoldQueue} (h : q.fault = true) (e : Event) : q.step e = q := by
  unfold step event
  rw [if_pos h]

theorem exec_fault {q : HoldQueue} (h : q.fault = true) (es : List Event) : (Runs.exec step q es).fault = true :=
  Runs.exec_inv (I := fun q : HoldQueue => q.fault = true) (fun q e hq => by rw [step_fault hq]; exact hq) h es

theorem step_holds {e : Event} {id : RreqId} (h : e.PutsOnHold id) : (holdQueueInit.step e).fault = true := by
  cases e with
  | tick scheduled => exact h.elim
  | rreq msg gossiped coin now =>
    obtain ⟨hid, rfl, rfl⟩ := h
    obtain ⟨rreq, hr⟩ := originatorSequenceNumber_of_idOf hid
    simp only [step, event, rreqEvent, hr]
    rfl

theorem event_idle {e : Event} (h : ∀ id, ¬ e.PutsOnHold id) : holdQueueInit.event e = (holdQueueInit, []) := by
  cases e with
  | tick scheduled => rfl
  | rreq msg gossiped coin now =>
    by_cases hr : msg.getRreq = none
    · simp only [event, rreqEvent, hr, if_true]
      rfl
    · obtain ⟨rreq, hr'⟩ := Option.ne_none_iff_exists'.mp hr
      have hid : idOf msg = some { ends := msg.ends, seq := rreq.originatorSequenceNumber } := by
        simp [idOf, DessertMsg.originatorSequenceNumber, hr']
      have hno : ¬ (gossiped = true ∧ coin = false) := fun hgc => h _ ⟨hid, hgc⟩
      cases gossiped with
      | false =>
        simp only [event, rreqEvent, hr]
        rfl
      | true =>
        cases coin with
        | false => exact absurd ⟨rfl, rfl⟩ hno
        | true =>
          simp only [event, rreqEvent, hr]
          rfl

theorem exec_idle {es : List Event} (h : ∀ e ∈ es, ∀ id, ¬ e.PutsOnHold id) :
    Runs.exec step holdQueueInit es = holdQueueInit ∧ sentBy holdQueueInit es = [] := by
  induction es with
  | nil => exact ⟨rfl, rfl⟩
  | cons e es ih =>
    have he := event_idle (h e List.mem_cons_self)
    have hs : holdQueueInit.step e = holdQueueInit := congrArg Prod.fst he
    have htail := ih fun e' he' => h e' (List.mem_cons_of_mem e he')
    refine ⟨?_, ?_⟩
    · rw [Runs.exec, hs]
      exact htail.1
    · rw [sentBy, hs, he, htail.2]
      rfl

theorem alive_iff (es : List Event) :
    (Runs.exec step holdQueueInit es).fault = false ↔ ∀ e ∈ es, ∀ id, ¬ e.PutsOnHold id := by
  constructor
  · intro h
    induction es with
    | nil => exact fun e he => nomatch he
    | cons e es ih =>
      have he : ∀ id, ¬ e.PutsOnHold id := by
        intro id hid
        have := exec_fault (step_holds hid) es
        rw [Runs.exec] at h
        rw [h] at this
        cases this
      have hs : holdQueueInit.step e = holdQueueInit := congrArg Prod.fst (event_idle he)
      rw [Runs.exec, hs] at h
      exact List.forall_mem_cons.mpr ⟨he, ih h⟩
  · intro h
    rw [(exec_idle h).1]
    rfl

/-- The hold queue keeps what it is for exactly in the runs in which it is not used. -/
theorem kept_iff (es : List Event) : Kept es ↔ ∀ e ∈ es, ∀ id, ¬ e.PutsOnHold id := by
  constructor
  · intro h
    exact (alive_iff es).mp h.alive
  · intro h
    refine ⟨(alive_iff es).mpr h, ?_, ?_, ?_, ?_⟩
    · intro pre e post id he hold
      exact absurd hold (h e (by simp [he]) id)
    · intro id
      rw [(exec_idle h).2]
      exact Nat.zero_le 1
    · intro pre e mid scheduled post id el he hold
      exact absurd hold (h e (by simp [he]) id)
    · intro pre e post id el he hheld
      have hidle : ∀ e' ∈ pre, ∀ id, ¬ e'.PutsOnHold id := fun e' he' => h e' (by simp [he, he'])
      have hpre := (exec_idle hidle).1
      rw [hpre] at hheld
      cases hheld

theorem not_kept_first :
    ¬ Kept
      [.rreq
        { dessertMsgNew with
          l25Shost := 5
          l25Dhost := 9
          exts := [.rreq { flagU := true, flagD := false, destinationSequenceNumber := 0,
                           originatorSequenceNumber := 7 }] } true false 0,
        .tick 60000] := by
  intro h
  exact absurd h.alive (by decide)

end HoldQueue

end DesAodv
