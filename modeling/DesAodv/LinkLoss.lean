import DesAodv.LostNeighbor
import DesAodv.NeighborLiveness

/-!
# The loss of one of several links

A neighbor may be heard on several interfaces and has an entry for each of them.
Its schedules and the routes over it are found by its address alone, so the loss
of one link reaches what belongs to the others.
-/

namespace DesAodv

/-! ## Schedules -/

theorem mem_dropschedule {st : List Schedule} {addr : MacAddr} {type : ScheduleType} {sc : Schedule} :
    sc ∈ (aodvDbScDropschedule st addr type).1 ↔ sc ∈ st ∧ sc.key ≠ (addr, type) := Keyed.mem_erase

theorem mem_addschedule {st : List Schedule} {when : Timeval} {addr : MacAddr} {type : ScheduleType}
    {param : ScheduleParam} {sc : Schedule} : sc ∈ aodvDbScAddschedule st when addr type param ↔
      sc = { executeTs := when, etherAddr := addr, scheduleId := type, scheduleParam := param } ∨
        sc ∈ st ∧ sc.key ≠ (addr, type) := by
  unfold aodvDbScAddschedule
  rw [(insertSchedule_perm _ _).mem_iff, List.mem_cons, mem_dropschedule]

/-! ## Callbacks -/

/-- The schedule that the timeout of an entry asks for. -/
def NeighborEntry.lostSchedule (e : NeighborEntry) (when : Timeval) : Schedule :=
  { executeTs := when, etherAddr := e.etherNeighbor, scheduleId := .sendOutRerr, scheduleParam := .null }

namespace NtOp

/-- What a call does before the first callback, and the timeouts for which callbacks follow. -/
def purge (s : NeighborTable × List Schedule) :
    NtOp → (NeighborTable × List Schedule) × List (TimeslotElement Nat)
  | cap2Dneigh cfg addr helloSeq iface timestamp currTime =>
    let (nt, ptr) := s.1.captured addr helloSeq iface
    let st :=
      if cfg.signalStrengthThreshold > 0 then aodvDbScAddschedule s.2 timestamp addr .updateRssi (.iface iface)
      else s.2
    let (ts, purged) := timeslotAddobject nt.ts timestamp currTime ptr
    (({ nt with ts }, st), purged)
  | check2Dneigh _ _ timestamp =>
    let (ts, purged) := timeslotPurgeobjects s.1.ts timestamp
    (({ s.1 with ts }, s.2), purged)
  | cleanup timestamp =>
    let (ts, purged) := timeslotPurgeobjects s.1.ts timestamp
    (({ s.1 with ts }, s.2), purged)
  | neighborReset helloInterval => (aodvDbNtNeighborReset s.1 s.2 helloInterval, [])

theorem step_eq_purge (s : NeighborTable × List Schedule) (op : NtOp) :
    op.step s = (op.purge s).2.foldl dbNtOnNeigborTimeout (op.purge s).1 := by
  cases op with
  | cap2Dneigh cfg addr helloSeq iface timestamp currTime => rfl
  | check2Dneigh addr iface timestamp => rfl
  | cleanup timestamp => rfl
  | neighborReset helloInterval => rfl

/-- In the course of the call, which starts in `start`, the callback is called in `s`. -/
def CallsBack (start : NeighborTable × List Schedule) (op : NtOp) (s : NeighborTable × List Schedule)
    (el : TimeslotElement Nat) : Prop :=
  ∃ pre post, (op.purge start).2 = pre ++ el :: post ∧ pre.foldl dbNtOnNeigborTimeout (op.purge start).1 = s

theorem purge_ptrs {start : NeighborTable × List Schedule} (hn : start.1.Ok) (op : NtOp) :
    ((op.purge start).1.1.entries.map NeighborEntry.ptr).Nodup := by
  cases op with
  | cap2Dneigh cfg addr helloSeq iface timestamp currTime =>
    obtain ⟨-, -, htracked, -⟩ := hn.captured addr helloSeq iface 0
    exact htracked.ptrs
  | check2Dneigh addr iface timestamp => exact hn.tracked.ptrs
  | cleanup timestamp => exact hn.tracked.ptrs
  | neighborReset helloInterval => exact List.nodup_nil

theorem CallsBack.ptrs {start s : NeighborTable × List Schedule} {op : NtOp} {el : TimeslotElement Nat}
    (hn : start.1.Ok) (h : op.CallsBack start s el) : (s.1.entries.map NeighborEntry.ptr).Nodup := by
  obtain ⟨pre, post, -, rfl⟩ := h
  rw [NeighborTable.foldl_onTimeout]
  exact (List.filter_sublist.map _).nodup (purge_ptrs hn op)

end NtOp

namespace NeighborTable

theorem onTimeout_keeps {s : NeighborTable × List Schedule} {el : TimeslotElement Nat} {e f : NeighborEntry}
    (hl : Keyed.lookup NeighborEntry.ptr el.object s.1.entries = some e) (hf : f ∈ s.1.entries)
    (hne : f.ptr ≠ e.ptr) :
    f ∈ (dbNtOnNeigborTimeout s el).1.entries ∧ (dbNtOnNeigborTimeout s el).1.ts = s.1.ts := by
  rw [onTimeout_entries]
  refine ⟨Keyed.mem_erase.mpr ⟨hf, ?_⟩, rfl⟩
  rw [← Keyed.lookup_key hl]
  exact hne

theorem mem_onTimeout {s : NeighborTable × List Schedule} {el : TimeslotElement Nat} {e : NeighborEntry}
    (hl : Keyed.lookup NeighborEntry.ptr el.object s.1.entries = some e) {sc : Schedule} :
    sc ∈ (dbNtOnNeigborTimeout s el).2 ↔ sc = e.lostSchedule el.purgeTime ∨
      sc ∈ s.2 ∧ sc.key ≠ (e.etherNeighbor, .sendOutRerr) ∧ sc.key ≠ (e.etherNeighbor, .updateRssi) := by
  unfold dbNtOnNeigborTimeout
  rw [hl]
  simp only
  rw [mem_dropschedule, mem_addschedule, or_and_right, and_assoc]
  refine or_congr_left (and_iff_left_of_imp fun h => ?_)
  -- the request itself has another type than the schedule that is dropped
  rw [h]
  exact key_ne_of_type ScheduleType.noConfusion

/-! ## The table of a daemon -/

/-- Only signal strengths have changed. -/
structure SameNeighbors (nt nt' : NeighborTable) : Prop where
  ts : nt'.ts = nt.ts
  fresh : nt'.fresh = nt.fresh
  keys : nt'.entries.map NeighborEntry.key = nt.entries.map NeighborEntry.key
  ptrs : nt'.entries.map NeighborEntry.ptr = nt.entries.map NeighborEntry.ptr

theorem SameNeighbors.of_eq {nt nt' : NeighborTable} (h : nt' = nt) : SameNeighbors nt nt' := by
  rw [h]
  exact ⟨rfl, rfl, rfl, rfl⟩

theorem sameNeighbors_modify (nt : NeighborTable) (k : NeighborKey) {f : NeighborEntry → NeighborEntry}
    (hk : ∀ e, (f e).key = e.key) (hp : ∀ e, (f e).ptr = e.ptr) :
    SameNeighbors nt { nt with entries := Keyed.modify NeighborEntry.key k f nt.entries } :=
  ⟨rfl, rfl, Keyed.map_modify NeighborEntry.key k f hk nt.entries, Keyed.map_modify NeighborEntry.key k f hp nt.entries⟩

theorem updateRssi_same (nt : NeighborTable) (addr : MacAddr) (iface : Meshif) (avgRssi : Int8) :
    SameNeighbors nt (dbNtUpdateRssi nt addr iface avgRssi).1 := by
  unfold dbNtUpdateRssi
  split
  · exact .of_eq rfl
  · dsimp only
    generalize (if avgRssi ≠ 0 then avgRssi else aodvSignalStrengthInit) = new
    split
    · exact sameNeighbors_modify nt (addr, iface) (fun _ => rfl) fun _ => rfl
    · exact .of_eq rfl

theorem Ok.same {nt nt' : NeighborTable} (hn : nt.Ok) (h : SameNeighbors nt nt') : nt'.Ok := by
  have hmem : ∀ p, (∃ e ∈ nt'.entries, e.ptr = p) ↔ ∃ e ∈ nt.entries, e.ptr = p := by
    intro p
    rw [← List.mem_map, ← List.mem_map, h.ptrs]
  refine ⟨h.ts ▸ hn.ordered, ⟨h.keys ▸ hn.tracked.keys, h.ptrs ▸ hn.tracked.ptrs, fun p => ?_⟩, fun e he => ?_⟩
  · rw [h.ts, hn.tracked.timed, hmem]
  · obtain ⟨e', he', hp⟩ := (hmem e.ptr).mp ⟨e, he, rfl⟩
    rw [h.fresh, ← hp]
    exact hn.allocated e' he'

theorem Ok.step {s : NeighborTable × List Schedule} (hn : s.1.Ok) (op : NtOp) : (op.step s).1.Ok := by
  cases op with
  | cap2Dneigh cfg addr helloSeq iface timestamp currTime =>
    exact (hn.cap2Dneigh s.2 cfg addr helloSeq iface timestamp currTime).1
  | check2Dneigh addr iface timestamp => exact (hn.cleanup s.2 timestamp).1
  | cleanup timestamp => exact (hn.cleanup s.2 timestamp).1
  | neighborReset helloInterval => exact ok_empty helloInterval s.1.fresh

end NeighborTable

namespace Node

open NeighborTable

/-- The call on the neighbor table in the course of an event. -/
def ntOp (n : Node) : NodeEvent → Option NtOp
  | .mesh .dropErrors env msg =>
    if env.lflags.l2Src || env.lflags.l25Src then none
    else if msg.getRreq.isSome || msg.getRrep.isSome then some (.check2Dneigh msg.l2Shost env.iface env.now)
    else none
  | .mesh .handleHello env msg =>
    if msg.getHello.isNone then none
    else if msg.ttl - 1 ≥ 1 then none
    else if env.iface.hwaddr = msg.l2Dhost then
      some (.cap2Dneigh n.cfg msg.l2Shost msg.u16 env.iface env.now env.now)
    else none
  | .cleanupDatabase now => if n.hung then none else some (.cleanup now)
  | .neighborReset => some (.neighborReset n.cfg.helloInterval)
  | _ => none

/-- An event either calls the neighbor table once or changes signal strengths at most. -/
def NtStep (n : Node) (ev : NodeEvent) (n' : Node) : Prop :=
  (∃ op, n.ntOp ev = some op ∧ (n'.nt, n'.st) = op.step (n.nt, n.st)) ∨
    n.ntOp ev = none ∧ SameNeighbors n.nt n'.nt

theorem NtStep.same {n n' : Node} {ev : NodeEvent} (ho : n.ntOp ev = none) (h : n'.nt = n.nt) : NtStep n ev n' :=
  .inr ⟨ho, .of_eq h⟩

section
variable (n : Node) (env : RxEnv) (msg : DessertMsg)

theorem dropErrors_nt : NtStep n (.mesh .dropErrors env msg) (n.aodvDropErrors env msg).1 := by
  unfold aodvDropErrors
  split
  · rename_i hs
    exact .same (by simp [ntOp, hs]) rfl
  · rename_i hs
    split
    · rename_i hs'
      exact .same (by simp [ntOp, hs']) rfl
    · rename_i hs'
      split
      · rename_i hr
        exact .inl ⟨.check2Dneigh msg.l2Shost env.iface env.now, by simp [ntOp, hs, hs', hr], rfl⟩
      · rename_i hr
        exact .same (by simp [ntOp, hr]) rfl

theorem handleHello_nt : NtStep n (.mesh .handleHello env msg) (n.aodvHandleHello env msg).1 := by
  unfold aodvHandleHello
  split
  · rename_i hh
    exact .same (by simp [ntOp, hh]) rfl
  · rename_i hello hh
    simp only
    split
    · rename_i ht
      exact .same (by simp only [ntOp, ht, if_true, ite_self]) rfl
    · rename_i ht
      split
      · rename_i hd
        refine .inl ⟨.cap2Dneigh n.cfg msg.l2Shost msg.u16 env.iface env.now env.now, ?_, rfl⟩
        simp only [ntOp, hh, ht, hd, Option.isNone_some, Bool.false_eq_true, if_true, if_false]
      · rename_i hd
        exact .same (by simp [ntOp, hd]) rfl

end

section
variable (n : Node)

theorem SeriesWork.nt {n n' : Node} (h : SeriesWork n n') : n'.nt = n.nt := by
  obtain ⟨series, st, rreqLog, seqNumGlobal, rfl⟩ := h
  rfl

theorem BufferWork.nt {n n' : Node} (h : BufferWork n n') : n'.nt = n.nt := by
  obtain ⟨series, st, pb, dataSeqGlobal, rfl⟩ := h
  rfl

theorem captRrep_nt (host nextHop : MacAddr) (iface : Meshif) (seq : UInt32) (metric : Metric) (hopCount : UInt8)
    (timestamp now : Timeval) :
    SameNeighbors n.nt (n.captRrep host nextHop iface seq metric hopCount timestamp now).1.nt := by
  have hnt : (n.captRrep host nextHop iface seq metric hopCount timestamp now).1.nt =
      if 0 < n.cfg.signalStrengthThreshold then dbNtResetRssi n.nt nextHop iface else n.nt := rfl
  rw [hnt]
  split
  · exact sameNeighbors_modify n.nt (nextHop, iface) (fun _ => rfl) fun _ => rfl
  · exact .of_eq rfl

theorem rreqAsRrep_nt (env : RxEnv) (msg : DessertMsg) : SameNeighbors n.nt (n.rreqAsRrep env msg).1.nt := by
  have h := captRrep_nt n msg.l25Shost msg.l2Shost env.iface 0 msg.u16 msg.u8 env.now env.now
  simp only [rreqAsRrep]
  split
  · rw [(sendPackets_work _ msg.l25Shost msg.l2Shost env.iface).nt]
    exact h
  · exact h

theorem handleRreq_nt (env : RxEnv) (msg : DessertMsg) : SameNeighbors n.nt (n.aodvHandleRreq env msg).1.nt := by
  unfold aodvHandleRreq
  split
  · exact .of_eq rfl
  · rename_i rreq _
    simp only
    split
    · exact .of_eq rfl
    · have h := rreqAsRrep_nt (n.captRreq msg.l25Dhost msg.l25Shost msg.l2Shost env.iface
        rreq.originatorSequenceNumber (n.countHop env msg).u16 (n.countHop env msg).u8 env.now env.now).1 env
        (n.countHop env msg)
      simp only [acceptRreq]
      split <;> exact h

theorem handleRrep_nt (env : RxEnv) (msg : DessertMsg) : SameNeighbors n.nt (n.aodvHandleRrep env msg).1.nt := by
  cases hr : msg.getRrep with
  | none =>
    simp only [aodvHandleRrep, hr]
    exact .of_eq rfl
  | some rrep =>
    cases hd : env.lflags.l2Dst with
    | false =>
      rw [handleRrep_drop n env hr hd]
      exact .of_eq rfl
    | true =>
      have h := captRrep_nt n msg.l25Shost msg.l2Shost env.iface rrep.destinationSequenceNumber
        (n.countHop env msg).u16 (n.countHop env msg).u8 env.now env.now
      rw [handleRrep_node n env hr hd]
      split
      · split
        · rw [(sendPackets_work _ msg.l25Shost msg.l2Shost env.iface).nt]
          exact h
        · exact h
      · exact h

theorem sys2rp_nt (msg : DessertMsg) (now : Timeval) : (n.aodvSys2rp msg now).1.nt = n.nt := by
  obtain ⟨_, _, _, _, _, _, _, h⟩ := sys2rp_eq n msg now
  rw [h]

variable (L : Libdessert)

theorem scexecute_nt (now : Timeval) (avgRssi : Int8) :
    SameNeighbors n.nt (n.aodvPeriodicScexecute L now avgRssi).1.nt := by
  unfold aodvPeriodicScexecute
  cases hpop : aodvDbScPopschedule n.st now with
  | none => exact .of_eq rfl
  | some popped =>
    obtain ⟨sc, st⟩ := popped
    simp only
    split
    · split
      · exact .of_eq (sendRreqReal_work _ _ now).nt
      · exact .of_eq rfl
    · obtain ⟨rt, rerrLog, hung, h⟩ := scSendOutRerr_eq L { n with st } sc.etherAddr now
      rw [h]
      exact .of_eq rfl
    · exact .of_eq (sendRreqs_work _ _ now).nt
    · split
      · rename_i iface _
        have h := updateRssi_same n.nt sc.etherAddr iface avgRssi
        split <;> exact h
      · exact .of_eq rfl

theorem step_nt (ev : NodeEvent) : NtStep n ev (n.step L ev) := by
  cases ev with
  | mesh cb env msg =>
    cases cb with
    | dropErrors => exact dropErrors_nt n env msg
    | handleHello => exact handleHello_nt n env msg
    | handleRreq => exact .inr ⟨rfl, handleRreq_nt n env msg⟩
    | handleRerr =>
      obtain ⟨rt, h⟩ := handleRerr_eq n env msg
      have hnt := congrArg Node.nt h
      exact .same rfl hnt
    | handleRrep => exact .inr ⟨rfl, handleRrep_nt n env msg⟩
    | forwardBroadcast =>
      obtain ⟨ds, h⟩ := forwardBroadcast_eq n env msg
      have hnt := congrArg Node.nt h
      exact .same rfl hnt
    | forwardMulticast => exact .same rfl rfl
    | forward =>
      obtain ⟨ds, rt, rerrLog, h⟩ := forward_eq L n env msg
      have hnt := congrArg Node.nt h
      exact .same rfl hnt
    | localUnicast =>
      obtain ⟨ds, h⟩ := localUnicast_eq n env msg
      have hnt := congrArg Node.nt h
      exact .same rfl hnt
  | sysRx l25Shost l25Dhost payload now => exact .same rfl (sys2rp_nt n _ now)
  | cliSendRreq host now => exact .same rfl (sendRreq_work n host now).nt
  | routingReset => exact .same rfl rfl
  | neighborReset => exact .inl ⟨.neighborReset n.cfg.helloInterval, rfl, rfl⟩
  | sendHello =>
    simp only [step, handle]
    split <;> exact .same rfl rfl
  | sendRreq now =>
    simp only [step, handle]
    split
    · exact .same rfl rfl
    · exact .same rfl (sendRreqs_work n _ now).nt
  | cleanupDatabase now =>
    simp only [step, handle]
    split
    · rename_i hh
      exact .same (if_pos hh) rfl
    · rename_i hh
      exact .inl ⟨.cleanup now, if_neg hh, rfl⟩
  | scexecute now avgRssi =>
    simp only [step, handle]
    split
    · exact .same rfl rfl
    · exact .inr ⟨rfl, scexecute_nt n L now avgRssi⟩

end

section
variable {L : Libdessert} {n : Node}

theorem Reachable.neighbors (h : Reachable L n) : n.nt.Ok := by
  refine h.inv (I := fun n => n.nt.Ok) (fun cfg _ _ => ok_empty cfg.helloInterval 0) fun n ev hn => ?_
  rcases step_nt n L ev with ⟨op, -, hop⟩ | ⟨-, hs⟩
  · have h := Ok.step (s := (n.nt, n.st)) hn op
    rw [← hop] at h
    exact h
  · exact hn.same hs

/-- When the entry of a neighbor expires while another entry of its address is there, the callback leaves
that entry and its time, and of the schedules it replaces the one that sends out a RERR for the address and
drops the one that updates the signal strength, on whichever interface. The schedule it asks for
invalidates, unless too many RERRs have been sent, the entries that the index lists under the address and
no others; with an exact index these are the routes over the address, on whichever interface. -/
theorem linkLoss_by_address (hr : Reachable L n) :
    (∀ ev op s el e f, n.ntOp ev = some op → op.CallsBack (n.nt, n.st) s el →
      Keyed.lookup NeighborEntry.ptr el.object s.1.entries = some e → f ∈ s.1.entries →
      f.etherNeighbor = e.etherNeighbor → f.iface ≠ e.iface →
      f ∈ (dbNtOnNeigborTimeout s el).1.entries ∧ (dbNtOnNeigborTimeout s el).1.ts = s.1.ts ∧
        ∀ sc, sc ∈ (dbNtOnNeigborTimeout s el).2 ↔ sc = e.lostSchedule el.purgeTime ∨
          sc ∈ s.2 ∧ sc.key ≠ (e.etherNeighbor, .sendOutRerr) ∧ sc.key ≠ (e.etherNeighbor, .updateRssi)) ∧
    (∀ now avgRssi sc st, n.hung = false → aodvDbScPopschedule n.st now = some (sc, st) →
      sc.scheduleId = .sendOutRerr → ∀ host,
      (n.step L (.scexecute now avgRssi)).rt.find host =
        if n.rerrLimited now then n.rt.find host else (n.rt.find host).map (n.rt.markListed sc.etherAddr)) ∧
    (n.rt.Indexed → ∀ x ∈ n.rt.entries, ∀ nextHop,
      n.rt.listedUnder nextHop x = true ↔ x.flags.nextHopUnknown = false ∧ x.nextHop = nextHop) := by
  refine ⟨fun ev op s el e f _ hcb hl hf ha hi => ?_, fun now avgRssi sc st hh hp hs host => ?_,
    fun hi x hx nextHop => hi.listedUnder_iff hr.wf hr.nht hx nextHop⟩
  · have hne : f.ptr ≠ e.ptr := by
      intro hp
      rw [List.inj_on_of_nodup_map (hcb.ptrs hr.neighbors) hf (Keyed.lookup_mem hl) hp] at hi
      exact hi rfl
    obtain ⟨hmem, hts⟩ := onTimeout_keeps hl hf hne
    exact ⟨hmem, hts, fun sc => mem_onTimeout hl⟩
  · exact find_after_sendOutRerr hh hp hs host

end

/-! ## A neighbor on two interfaces -/

def eth : Meshif := { ifindex := 2, hwaddr := 0x20 }

def rxOn (iface : Meshif) (now : Timeval) : RxEnv := { rxAt now with iface }

def helloOn (iface : Meshif) (neighbor : MacAddr) : DessertMsg := { helloFrom neighbor with l2Dhost := iface.hwaddr }

def twoIfaces : Node := aodvDbInit { signalStrengthThreshold := 20 } 8 [wlan, eth]

/-- Node 1 is heard on both interfaces, on `wlan` no longer, and leads to 5 on `eth`. -/
def oneLinkSilent : List NodeEvent :=
  [.mesh .handleHello (rxOn wlan 0) (helloOn wlan 1), .scexecute 20000 (-50),
    .mesh .handleHello (rxOn eth 1000000) (helloOn eth 1), .scexecute 1020000 (-50),
    .mesh .handleRreq (rxOn eth 4000000) (rreqFrom 5 9 1 1 0),
    .mesh .handleHello (rxOn eth 4995000) (helloOn eth 1)]

def oneLinkLost : Node :=
  (Runs.exec (Node.step roomy) twoIfaces oneLinkSilent).step roomy (.cleanupDatabase 5000000)

def entryOn (iface : Meshif) (ptr : Nat) (maxRssi : Int8) : NeighborEntry :=
  { ptr, etherNeighbor := 1, iface, lastHelloSeq := 0, maxRssi }

theorem linkLoss_by_address_lost :
    let n := Runs.exec (Node.step roomy) twoIfaces oneLinkSilent
    let s := ((NtOp.cleanup 5000000).purge (n.nt, n.st)).1
    entryOn eth 1 (-120) ∈ (dbNtOnNeigborTimeout s { purgeTime := 5000000, object := 0 }).1.entries ∧
      (oneLinkLost.step roomy (.scexecute 5010000 (-50))).rt.find 5 =
        (oneLinkLost.rt.find 5).map (oneLinkLost.rt.markListed 1) := by
  intro n s
  have hn : Reachable roomy n := ⟨_, _, _, oneLinkSilent, rfl⟩
  refine ⟨((linkLoss_by_address hn).1 (.cleanupDatabase 5000000) (.cleanup 5000000) s
    { purgeTime := 5000000, object := 0 } (entryOn wlan 0 (-50)) (entryOn eth 1 (-120)) (by decide)
    ⟨[], [], by decide, rfl⟩ (by decide) (by decide) rfl (by decide)).1, ?_⟩
  have hlim : oneLinkLost.rerrLimited 5010000 = false := by decide
  have h := (linkLoss_by_address (hn.step (.cleanupDatabase 5000000))).2.1 5010000 (-50) lostSchedule []
    (by decide) (by decide) rfl 5
  rw [show n.step roomy (.cleanupDatabase 5000000) = oneLinkLost from rfl, hlim] at h
  exact h

def rssiSchedule : Schedule :=
  { executeTs := 4995000, etherAddr := 1, scheduleId := .updateRssi, scheduleParam := .iface eth }

/-- The loss of the link on `wlan` takes away the schedule of `eth` and the route over it. -/
theorem linkLoss_reaches_other :
    let n := Runs.exec (Node.step roomy) twoIfaces oneLinkSilent
    let n₁ := oneLinkLost
    let n₂ := n₁.step roomy (.scexecute 5010000 (-50))
    ((Keyed.lookup NeighborEntry.key (1, wlan) n.nt.entries).isSome = true ∧
        (Keyed.lookup NeighborEntry.key (1, wlan) n₁.nt.entries).isSome = false ∧
        (Keyed.lookup NeighborEntry.key (1, eth) n₂.nt.entries).isSome = true) ∧
      (rssiSchedule ∈ n.st ∧ rssiSchedule ∉ n₁.st) ∧
      n₁.routeTo 5 = some (1, some eth) ∧ n₂.routeTo 5 = none := by
  decide

end Node

end DesAodv
