import DesAodv.Frames
import DesAodv.NodeSteps

/-!
# Data packets are passed on at most once

The data packets of a source are numbered from 0 on, and a packet carries its
number modulo `2 ^ 16`. `aodv_db_ds_capt_data_seq` also takes a packet as newer
that was sent before the last wrap-around and is therefore older.
-/

namespace DesAodv

/-! ## The table of sources -/

structure DataSeq.WF (ds : DataSeq) : Prop where
  addrs : (ds.entries.map DataPacketId.srcAddr).Nodup
  ptrs : (ds.entries.map DataPacketId.ptr).Nodup
  allocated : ∀ e ∈ ds.entries, e.ptr < ds.fresh

namespace DataSeq

def find (ds : DataSeq) (srcAddr : MacAddr) : Option DataPacketId :=
  Keyed.lookup DataPacketId.srcAddr srcAddr ds.entries

theorem init_wf : dbDsInit.WF := ⟨List.nodup_nil, List.nodup_nil, by simp [dbDsInit]⟩

/-- Entries have been purged. -/
structure Purged (gone : List Nat) (ds ds' : DataSeq) : Prop where
  entries : ds'.entries = ds.entries.filter fun e => decide (e.ptr ∉ gone)
  fresh : ds'.fresh = ds.fresh

theorem foldl_onTimeout (purged : List (TimeslotElement Nat)) (ds : DataSeq) :
    Purged (purged.map TimeslotElement.object) ds (purged.foldl dbNtOnDsTimeout ds) where
  entries := Keyed.foldl_erase DataSeq.entries (fun _ _ => rfl) purged ds
  fresh := by
    induction purged generalizing ds with
    | nil => rfl
    | cons el els ih => exact ih (dbNtOnDsTimeout ds el)

section
variable {ds ds' : DataSeq} (hw : ds.WF)
include hw

theorem Purged.wf {gone : List Nat} (hp : Purged gone ds ds') : ds'.WF := by
  refine ⟨?_, ?_, ?_⟩
  · rw [hp.entries]
    exact hw.addrs.sublist (List.filter_sublist.map _)
  · rw [hp.entries]
    exact hw.ptrs.sublist (List.filter_sublist.map _)
  · rw [hp.entries, hp.fresh]
    exact fun e he => hw.allocated e (List.mem_of_mem_filter he)

theorem Purged.find {gone : List Nat} (hp : Purged gone ds ds') {src : MacAddr} {e : DataPacketId}
    (he : ds'.find src = some e) : ds.find src = some e := by
  unfold DataSeq.find at he
  rw [hp.entries, Keyed.lookup_filter hw.addrs] at he
  exact (Option.filter_eq_some_iff.mp he).1

omit hw in
theorem timeslotAddobject_purged (now : Timeval) (object : Nat) :
    ∃ gone, Purged gone ds (dsTimeslotAddobject ds now now object) := by
  have h := foldl_onTimeout (timeslotAddobject ds.ts now now object).2
    { ds with ts := (timeslotAddobject ds.ts now now object).1 }
  exact ⟨_, h.entries, h.fresh⟩

omit hw in
theorem cleanup_purged (now : Timeval) : ∃ gone, Purged gone ds (dbDsCleanup ds now) := by
  have h := foldl_onTimeout (timeslotPurgeobjects ds.ts now).2 { ds with ts := (timeslotPurgeobjects ds.ts now).1 }
  exact ⟨_, h.entries, h.fresh⟩

/-! ## One packet -/

/-- The table when the number of a packet has been recorded, before the timeslot is renewed. -/
def recorded (ds : DataSeq) (src : MacAddr) (seq : UInt16) : DataSeq × Nat :=
  match ds.find src with
  | none =>
    ({ ds with
        entries := ds.entries ++ [{ ptr := ds.fresh, srcAddr := src, seqNum := seq }]
        fresh := ds.fresh + 1 }, ds.fresh)
  | some x =>
    ({ ds with entries := Keyed.modify DataPacketId.ptr x.ptr (fun e => { e with seqNum := seq }) ds.entries },
      x.ptr)

/-- Whether a packet with number `seq` counts as new. -/
def takesAsNew (ds : DataSeq) (src : MacAddr) (seq : UInt16) : Bool :=
  ((ds.find src).map fun x => dataSeqNewer x.seqNum seq).getD true

omit hw in
theorem captDataSeq_eq (src : MacAddr) (seq : UInt16) (now : Timeval) :
    aodvDbDsCaptDataSeq ds src seq now now =
      if ds.takesAsNew src seq then
        (dsTimeslotAddobject (ds.recorded src seq).1 now now (ds.recorded src seq).2, true)
      else (ds, false) := by
  unfold aodvDbDsCaptDataSeq takesAsNew recorded find
  cases Keyed.lookup DataPacketId.srcAddr src ds.entries with
  | none => rfl
  | some x => rfl

theorem recorded_wf (src : MacAddr) (seq : UInt16) : (ds.recorded src seq).1.WF := by
  unfold recorded
  cases h : ds.find src with
  | none =>
    exact ⟨Keyed.nodup_concat hw.addrs h, Keyed.nodup_concat hw.ptrs (Keyed.lookup_fresh hw.allocated),
      Keyed.allocated_concat hw.allocated rfl⟩
  | some x =>
    refine ⟨?_, ?_, ?_⟩
    · have hm := @Keyed.map_modify DataPacketId MacAddr Nat _ DataPacketId.srcAddr DataPacketId.ptr x.ptr
        (fun e => { e with seqNum := seq }) (fun _ => rfl) ds.entries
      exact hm.symm ▸ hw.addrs
    · have hm := @Keyed.map_modify DataPacketId Nat Nat _ DataPacketId.ptr DataPacketId.ptr x.ptr
        (fun e => { e with seqNum := seq }) (fun _ => rfl) ds.entries
      exact hm.symm ▸ hw.ptrs
    · exact Keyed.allocated_modify hw.allocated fun _ => rfl

theorem recorded_find_self {src : MacAddr} {seq : UInt16} {e : DataPacketId}
    (he : (ds.recorded src seq).1.find src = some e) : e.seqNum = seq := by
  unfold recorded at he
  cases h : ds.find src with
  | none =>
    rw [h] at he
    have hself := Keyed.lookup_concat_self DataPacketId.srcAddr
      (a := ({ ptr := ds.fresh, srcAddr := src, seqNum := seq } : DataPacketId)) h
    rw [← Option.some.inj (hself.symm.trans he)]
  | some x =>
    rw [h] at he
    have hmod := Keyed.lookup_modify_found hw.ptrs h (f := fun e => { e with seqNum := seq }) (fun _ => rfl) src
    rw [if_pos rfl] at hmod
    rw [← Option.some.inj (hmod.symm.trans he)]

theorem recorded_find_ne {src src' : MacAddr} (hne : src' ≠ src) (seq : UInt16) :
    (ds.recorded src seq).1.find src' = ds.find src' := by
  unfold recorded
  cases h : ds.find src with
  | none => exact Keyed.lookup_concat_ne (Ne.symm hne)
  | some x =>
    exact (Keyed.lookup_modify_found hw.ptrs h (f := fun e => { e with seqNum := seq }) (fun _ => rfl) src').trans
      (if_neg hne)

theorem capt_wf (src : MacAddr) (seq : UInt16) (now : Timeval) : (aodvDbDsCaptDataSeq ds src seq now now).1.WF := by
  rw [captDataSeq_eq]
  split
  · obtain ⟨gone, hp⟩ := @timeslotAddobject_purged (ds.recorded src seq).1 now (ds.recorded src seq).2
    exact hp.wf (recorded_wf hw src seq)
  · exact hw

theorem capt_find_ne {src src' : MacAddr} (hne : src' ≠ src) (seq : UInt16) (now : Timeval) {e : DataPacketId}
    (he : (aodvDbDsCaptDataSeq ds src seq now now).1.find src' = some e) : ds.find src' = some e := by
  rw [captDataSeq_eq] at he
  split at he
  · obtain ⟨gone, hp⟩ := @timeslotAddobject_purged (ds.recorded src seq).1 now (ds.recorded src seq).2
    rw [← recorded_find_ne hw hne seq]
    exact hp.find (recorded_wf hw src seq) he
  · exact he

theorem capt_find_self {src : MacAddr} {seq : UInt16} (now : Timeval) (hnew : ds.takesAsNew src seq = true)
    {e : DataPacketId} (he : (aodvDbDsCaptDataSeq ds src seq now now).1.find src = some e) : e.seqNum = seq := by
  rw [captDataSeq_eq, if_pos hnew] at he
  obtain ⟨gone, hp⟩ := @timeslotAddobject_purged (ds.recorded src seq).1 now (ds.recorded src seq).2
  exact recorded_find_self hw (hp.find (recorded_wf hw src seq) he)

end

end DataSeq

/-! ## The comparison -/

/-- Against the newest number `newest` accepted so far, a packet less than half a circle away counts as new
if it is newer, or if the numbers have wrapped around since it was sent. -/
theorem dataSeqNewer_iff {newest index : Nat} (hahead : index < newest + 32768) (hbehind : newest < index + 32768) :
    dataSeqNewer (UInt16.ofNat newest) (UInt16.ofNat index) = true ↔
      newest < index ∨ index / 65536 < newest / 65536 := by
  have hn : (UInt16.ofNat newest).toNat = newest % 65536 := UInt16.toNat_ofNat'
  have hi : (UInt16.ofNat index).toNat = index % 65536 := UInt16.toNat_ofNat'
  rw [dataSeqNewer, Bool.or_eq_true, decide_eq_true_eq, decide_eq_true_eq, UInt16.lt_iff_toNat_lt, hn, hi]
  omega

/-! ## What a daemon does with data packets -/

/-- The packet that is handed to `aodv_db_ds_capt_data_seq`. -/
def NodeEvent.dataPacket : NodeEvent → Option (RxEnv × DessertMsg)
  | .mesh .forwardBroadcast env msg =>
    if env.lflags.l25Broadcast && decide (msg.ttl ≠ 0) then some (env, msg) else none
  | .mesh .forward env msg =>
    if env.lflags.l2Dst && !env.lflags.l25Dst && decide (msg.ttl ≠ 0) then some (env, msg) else none
  | .mesh .localUnicast env msg =>
    if env.lflags.l25Dst && decide (msg.ttl ≠ 0) then some (env, msg) else none
  | _ => none

/-- The same packet, up to what a hop changes. -/
def Sent.carries (packet : DessertMsg) : Sent → Bool
  | .mesh m _ | .sys m =>
    decide (m.l25Shost = packet.l25Shost ∧ m.l25Dhost = packet.l25Dhost ∧ m.u16 = packet.u16 ∧
      m.payload = packet.payload)

namespace Node

section
variable (L : Libdessert) (src : MacAddr)

/-- `aodv_db_ds_capt_data_seq` accepts a packet of `src`. -/
def acceptsData (n : Node) (ev : NodeEvent) : Bool :=
  ev.dataPacket.any fun p =>
    decide (p.2.l25Shost = src) && (aodvDbDsCaptDataSeq n.ds p.2.l25Shost p.2.u16 p.1.now p.1.now).2

/-- A packet of `src` is forwarded or delivered. -/
def passes (n : Node) (ev : NodeEvent) : Bool :=
  ev.dataPacket.any fun p => decide (p.2.l25Shost = src) && (n.handle L ev).2.any (Sent.carries p.2)

/-- What an event does to the table of sources. -/
inductive DsStep (n : Node) (ev : NodeEvent) (ds : DataSeq) : Prop
  | same (hp : ev.dataPacket = none) (h : ds = n.ds)
  | cleanup (hp : ev.dataPacket = none) (now : Timeval) (h : ds = dbDsCleanup n.ds now)
  | packet (env : RxEnv) (msg : DessertMsg) (hp : ev.dataPacket = some (env, msg))
      (h : ds = (aodvDbDsCaptDataSeq n.ds msg.l25Shost msg.u16 env.now env.now).1)
      (hsent : (aodvDbDsCaptDataSeq n.ds msg.l25Shost msg.u16 env.now env.now).2 = false → (n.handle L ev).2 = [])

theorem RouteWork.ds {n n' : Node} (h : RouteWork n n') : n'.ds = n.ds := by
  obtain ⟨_, _, _, _, _, _, _, rfl⟩ := h
  rfl

theorem SeriesWork.ds {n n' : Node} (h : SeriesWork n n') : n'.ds = n.ds := by
  obtain ⟨_, _, _, _, rfl⟩ := h
  rfl

theorem rerrUnroutable_ds (n : Node) (env : RxEnv) (dhost : MacAddr) : (n.rerrUnroutable L env dhost).1.ds = n.ds := by
  unfold rerrUnroutable
  simp only
  split
  · rfl
  · split <;> rfl

theorem ttl_le_zero {ttl : UInt8} : ttl ≤ 0 ↔ ttl = 0 := by
  rw [UInt8.le_iff_toNat_le, ← UInt8.toNat_inj]
  exact Nat.le_zero

theorem forward_ds (n : Node) (env : RxEnv) (msg : DessertMsg) :
    DsStep L n (.mesh .forward env msg) (n.aodvForward L env msg).1.ds := by
  by_cases hd : (!env.lflags.l2Dst || env.lflags.l25Dst) = true
  · have hn : n.aodvForward L env msg = (n, [], .keep) := by simp only [aodvForward, hd, if_true]
    have hp : NodeEvent.dataPacket (.mesh .forward env msg) = none := by
      cases h₁ : env.lflags.l2Dst <;> cases h₂ : env.lflags.l25Dst <;> simp_all [NodeEvent.dataPacket]
    rw [hn]
    exact .same hp rfl
  · have hflags : (env.lflags.l2Dst && !env.lflags.l25Dst) = true := by
      cases h₁ : env.lflags.l2Dst <;> cases h₂ : env.lflags.l25Dst <;> simp_all
    by_cases ht : msg.ttl = 0
    · have hn : n.aodvForward L env msg = (n, [], .drop) := by
        unfold aodvForward
        rw [if_neg hd, if_pos (ttl_le_zero.mpr ht)]
      rw [hn]
      exact .same (by simp [NodeEvent.dataPacket, ht]) rfl
    · have hp : NodeEvent.dataPacket (.mesh .forward env msg) = some (env, msg) := by
        simp [NodeEvent.dataPacket, hflags, ht]
      have ht' : ¬ msg.ttl ≤ 0 := mt ttl_le_zero.mp ht
      refine .packet env msg hp ?_ ?_
      · unfold aodvForward
        rw [if_neg hd, if_neg ht']
        simp only
        split
        · rfl
        · split
          · rename_i n' nextHop outputIface hn
            exact (congrArg (fun r => r.1.ds) hn).symm
          · rename_i n' hn
            rw [rerrUnroutable_ds]
            exact (congrArg (fun r => r.1.ds) hn).symm
      · intro hold
        simp only [handle, callback]
        unfold aodvForward
        rw [if_neg hd, if_neg ht']
        simp only [hold, Bool.not_false, if_true]

theorem forwardBroadcast_ds (n : Node) (env : RxEnv) (msg : DessertMsg) :
    DsStep L n (.mesh .forwardBroadcast env msg) (n.aodvForwardBroadcast env msg).1.ds := by
  cases hb : env.lflags.l25Broadcast with
  | false =>
    have hn : n.aodvForwardBroadcast env msg = (n, [], .keep) := by
      simp only [aodvForwardBroadcast, hb]
      rfl
    rw [hn]
    exact .same (by simp [NodeEvent.dataPacket, hb]) rfl
  | true =>
    by_cases ht : msg.ttl = 0
    · have hn : n.aodvForwardBroadcast env msg = (n, [], .drop) := by
        simp only [aodvForwardBroadcast, hb, ht, ttl_le_zero, if_true]
      rw [hn]
      exact .same (by simp [NodeEvent.dataPacket, ht]) rfl
    · refine .packet env msg (by simp [NodeEvent.dataPacket, hb, ht]) ?_ ?_
      · simp only [aodvForwardBroadcast, hb, ht, ttl_le_zero, if_true, if_false]
        split <;> rfl
      · intro hold
        simp only [handle, callback, aodvForwardBroadcast, hb, ht, ttl_le_zero, hold, if_true, if_false]
        rfl

theorem localUnicast_ds (n : Node) (env : RxEnv) (msg : DessertMsg) :
    DsStep L n (.mesh .localUnicast env msg) (n.aodvLocalUnicast env msg).1.ds := by
  cases hd : env.lflags.l25Dst with
  | false =>
    have hn : n.aodvLocalUnicast env msg = (n, [], .drop) := by
      simp only [aodvLocalUnicast, hd]
      rfl
    rw [hn]
    exact .same (by simp [NodeEvent.dataPacket, hd]) rfl
  | true =>
    by_cases ht : msg.ttl = 0
    · have hn : n.aodvLocalUnicast env msg = (n, [], .drop) := by
        simp only [aodvLocalUnicast, hd, ht, ttl_le_zero, if_true]
      rw [hn]
      exact .same (by simp [NodeEvent.dataPacket, ht]) rfl
    · refine .packet env msg (by simp [NodeEvent.dataPacket, hd, ht]) ?_ ?_
      · simp only [aodvLocalUnicast, hd, ht, ttl_le_zero, if_true, if_false]
        split <;> rfl
      · intro hold
        simp only [handle, callback, aodvLocalUnicast, hd, ht, ttl_le_zero, hold, if_true, if_false]
        rfl

theorem sys2rp_ds (n : Node) (msg : DessertMsg) (now : Timeval) : (n.aodvSys2rp msg now).1.ds = n.ds := by
  obtain ⟨_, _, _, _, _, _, _, h⟩ := sys2rp_eq n msg now
  rw [h]

theorem scSendOutRerr_ds (n : Node) (etherAddr : MacAddr) (now : Timeval) :
    (n.scSendOutRerr L etherAddr now).1.ds = n.ds := by
  obtain ⟨_, _, _, h⟩ := scSendOutRerr_eq L n etherAddr now
  rw [h]

theorem scexecute_ds (n : Node) (now : Timeval) (avgRssi : Int8) :
    (n.aodvPeriodicScexecute L now avgRssi).1.ds = n.ds := by
  unfold aodvPeriodicScexecute
  split
  · rfl
  · simp only
    split
    · split
      · exact (sendRreqReal_work _ _ now).ds
      · rfl
    · exact scSendOutRerr_ds L _ _ now
    · exact (sendRreqs_work _ _ now).ds
    · split
      · split <;> rfl
      · rfl

theorem step_ds (n : Node) (ev : NodeEvent) : DsStep L n ev (n.step L ev).ds := by
  cases ev with
  | mesh cb env msg =>
    cases cb with
    | dropErrors =>
      obtain ⟨nt, st, h⟩ := dropErrors_eq n env msg
      have hds := congrArg Node.ds h
      exact .same rfl hds
    | handleHello =>
      obtain ⟨nt, st, h⟩ := handleHello_eq n env msg
      have hds := congrArg Node.ds h
      exact .same rfl hds
    | handleRreq => exact .same rfl (handleRreq_work n env msg).ds
    | handleRerr =>
      obtain ⟨rt, h⟩ := handleRerr_eq n env msg
      have hds := congrArg Node.ds h
      exact .same rfl hds
    | handleRrep => exact .same rfl (handleRrep_work n env msg).ds
    | forwardBroadcast => exact forwardBroadcast_ds L n env msg
    | forwardMulticast => exact .same rfl rfl
    | forward => exact forward_ds L n env msg
    | localUnicast => exact localUnicast_ds L n env msg
  | sysRx l25Shost l25Dhost payload now => exact .same rfl (sys2rp_ds n _ now)
  | cliSendRreq host now => exact .same rfl (sendRreq_work n host now).ds
  | routingReset => exact .same rfl rfl
  | neighborReset => exact .same rfl rfl
  | sendHello =>
    simp only [step, handle]
    split <;> exact .same rfl rfl
  | sendRreq now =>
    simp only [step, handle]
    split
    · exact .same rfl rfl
    · exact .same rfl (sendRreqs_work n _ now).ds
  | cleanupDatabase now =>
    simp only [step, handle]
    split
    · exact .same rfl rfl
    · exact .cleanup rfl now rfl
  | scexecute now avgRssi =>
    simp only [step, handle]
    split
    · exact .same rfl rfl
    · exact .same rfl (scexecute_ds L n now avgRssi)

variable {L src}

theorem acceptsData_eq {n : Node} {ev : NodeEvent} {env : RxEnv} {msg : DessertMsg}
    (hp : ev.dataPacket = some (env, msg)) (hs : msg.l25Shost = src) :
    n.acceptsData src ev = n.ds.takesAsNew src msg.u16 := by
  simp only [acceptsData, hp, Option.any_some, hs, decide_true, Bool.true_and, DataSeq.captDataSeq_eq]
  split
  · rename_i h
    exact h.symm
  · rename_i h
    exact (Bool.not_eq_true _ ▸ h).symm

theorem packet_of_acceptsData {n : Node} {ev : NodeEvent} (h : n.acceptsData src ev = true) :
    ∃ env msg, ev.dataPacket = some (env, msg) ∧ msg.l25Shost = src := by
  obtain ⟨⟨env, msg⟩, hp, hm⟩ := (Option.any_eq_true _ _).mp h
  rw [Bool.and_eq_true, decide_eq_true_eq] at hm
  exact ⟨env, msg, hp, hm.1⟩

theorem acceptsData_of_passes {n : Node} {ev : NodeEvent} (h : n.passes L src ev = true) :
    n.acceptsData src ev = true := by
  obtain ⟨⟨env, msg⟩, hp, hm⟩ := (Option.any_eq_true _ _).mp h
  rw [Bool.and_eq_true, decide_eq_true_eq] at hm
  obtain ⟨hs, hany⟩ := hm
  cases step_ds L n ev with
  | same hp' _ => rw [hp] at hp'; cases hp'
  | cleanup hp' _ _ => rw [hp] at hp'; cases hp'
  | packet env' msg' hp' _ hsent =>
    rw [hp] at hp'
    cases hp'
    cases hacc : (aodvDbDsCaptDataSeq n.ds msg.l25Shost msg.u16 env.now env.now).2 with
    | true => simp only [acceptsData, hp, Option.any_some, decide_true, Bool.true_and, ← hs, hacc]
    | false =>
      rw [hsent hacc] at hany
      cases hany

theorem step_ds_packet {n : Node} {ev : NodeEvent} {env : RxEnv} {msg : DessertMsg}
    (hp : ev.dataPacket = some (env, msg)) :
    (n.step L ev).ds = (aodvDbDsCaptDataSeq n.ds msg.l25Shost msg.u16 env.now env.now).1 := by
  cases step_ds L n ev with
  | same hp' _ => rw [hp] at hp'; cases hp'
  | cleanup hp' _ _ => rw [hp] at hp'; cases hp'
  | packet env' msg' hp' h _ =>
    rw [hp] at hp'
    cases hp'
    exact h

/-- An event that accepts no packet of `src` leaves its entry alone or purges it. -/
theorem step_ds_refused {n : Node} (hw : n.ds.WF) {ev : NodeEvent} (hacc : n.acceptsData src ev = false) :
    (n.step L ev).ds.WF ∧ ∀ e, (n.step L ev).ds.find src = some e → n.ds.find src = some e := by
  cases step_ds L n ev with
  | same _ h =>
    rw [h]
    exact ⟨hw, fun e he => he⟩
  | cleanup _ now h =>
    obtain ⟨gone, hg⟩ := @DataSeq.cleanup_purged n.ds now
    rw [h]
    exact ⟨hg.wf hw, fun e he => hg.find hw he⟩
  | packet env msg hp h _ =>
    rw [h]
    refine ⟨DataSeq.capt_wf hw _ _ _, ?_⟩
    intro e he
    by_cases hs : msg.l25Shost = src
    · have hold : ¬ n.ds.takesAsNew src msg.u16 = true := by
        rw [← acceptsData_eq hp hs, hacc]
        exact Bool.false_ne_true
      rw [hs, DataSeq.captDataSeq_eq, if_neg hold] at he
      exact he
    · exact DataSeq.capt_find_ne hw (Ne.symm hs) msg.u16 env.now he

end

end Node

/-! ## Runs -/

/-- A daemon with the numbers of the packets of one source that it has accepted, and of those it has
forwarded or delivered. -/
structure Receiver where
  node : Node
  accepted : List Nat
  passed : List Nat

namespace Receiver

section
variable (L : Libdessert) (src : MacAddr)

/-- An event comes with the number of its packet, if it is a packet of `src`. -/
def step (r : Receiver) (p : NodeEvent × Nat) : Receiver :=
  { node := r.node.step L p.1
    accepted := if r.node.acceptsData src p.1 then r.accepted ++ [p.2] else r.accepted
    passed := if r.node.passes L src p.1 then r.passed ++ [p.2] else r.passed }

def IsPacket (p : NodeEvent × Nat) : Prop := ∃ q ∈ p.1.dataPacket, q.2.l25Shost = src

/-- A packet of `src` carries its number. -/
def Numbered (p : NodeEvent × Nat) : Prop :=
  ∀ q ∈ p.1.dataPacket, q.2.l25Shost = src → q.2.u16 = UInt16.ofNat p.2

/-- An arriving number is less than `2 ^ 15` from the largest accepted so far. -/
def Near (r : Receiver) (p : NodeEvent × Nat) : Prop :=
  IsPacket src p → ∀ newest ∈ r.accepted.max?, p.2 < newest + 32768 ∧ newest < p.2 + 32768

/-- The entry of the source is not purged. -/
def Kept (r : Receiver) : Prop := r.accepted ≠ [] → r.node.ds.find src ≠ none

/-- The numbers have not wrapped around between an arriving packet and the newest accepted so far. -/
def NotWrapped (r : Receiver) (p : NodeEvent × Nat) : Prop :=
  IsPacket src p → ∀ newest ∈ r.accepted.max?, newest / 65536 ≤ p.2 / 65536

/-- Only what is newer than everything accepted so far is accepted. -/
def OnlyNewer (r : Receiver) (p : NodeEvent × Nat) : Prop :=
  r.node.acceptsData src p.1 = true → ∀ index ∈ r.accepted, index < p.2

/-- The numbers have been accepted in order, and the table holds the last. -/
structure InOrder (r : Receiver) : Prop where
  wf : r.node.ds.WF
  unknown : r.accepted = [] → r.node.ds.find src = none
  newest : ∀ index e, r.accepted.max? = some index → r.node.ds.find src = some e → e.seqNum = UInt16.ofNat index
  sorted : r.accepted.Pairwise (· < ·)
  passed : r.passed.Sublist r.accepted

variable {L src} {r : Receiver} {p : NodeEvent × Nat}

theorem acceptsData_iff (hr : r.InOrder src) (hn : Numbered src p) (hnear : r.Near src p) (hk : r.Kept src)
    (hp : IsPacket src p) : r.node.acceptsData src p.1 = true ↔
      ∀ newest ∈ r.accepted.max?, newest < p.2 ∨ p.2 / 65536 < newest / 65536 := by
  obtain ⟨⟨env, msg⟩, hmsg, hs⟩ := id hp
  rw [Node.acceptsData_eq hmsg hs, hn (env, msg) hmsg hs, DataSeq.takesAsNew]
  cases hm : r.accepted.max? with
  | none =>
    rw [hr.unknown (List.max?_eq_none_iff.mp hm)]
    simp
  | some newest =>
    have hne : r.accepted ≠ [] := by
      intro h
      rw [h] at hm
      cases hm
    obtain ⟨e, he⟩ := Option.ne_none_iff_exists'.mp (hk hne)
    obtain ⟨hahead, hbehind⟩ := hnear hp newest hm
    rw [he, Option.map_some, Option.getD_some, hr.newest newest e hm he, dataSeqNewer_iff hahead hbehind]
    simp

theorem onlyNewer_iff (hr : r.InOrder src) (hn : Numbered src p) (hnear : r.Near src p) (hk : r.Kept src) :
    r.OnlyNewer src p ↔ r.NotWrapped src p := by
  constructor
  · intro ho hp newest hm
    apply Classical.byContradiction
    intro hlt
    have hacc := (acceptsData_iff hr hn hnear hk hp).mpr (by
      intro newest' hm'
      rw [hm] at hm'
      cases hm'
      exact .inr (Nat.not_le.mp hlt))
    have hlt' := ho hacc newest (List.max?_mem hm)
    exact hlt (Nat.div_le_div_right (Nat.le_of_lt hlt'))
  · intro hw hacc index hi
    obtain ⟨env, msg, hmsg, hs⟩ := Node.packet_of_acceptsData hacc
    have hp : IsPacket src p := ⟨(env, msg), hmsg, hs⟩
    cases hm : r.accepted.max? with
    | none =>
      rw [List.max?_eq_none_iff.mp hm] at hi
      cases hi
    | some newest =>
      have hle : index ≤ newest := (List.max?_eq_some_iff.mp hm).2 index hi
      have hcase := (acceptsData_iff hr hn hnear hk hp).mp hacc newest hm
      have hnw := hw hp newest hm
      omega

theorem step_inOrder (hr : r.InOrder src) (hn : Numbered src p) (hnear : r.Near src p) (hk : r.Kept src)
    (hw : r.NotWrapped src p) : (step L src r p).InOrder src := by
  have hnewer := (onlyNewer_iff hr hn hnear hk).mpr hw
  cases hacc : r.node.acceptsData src p.1 with
  | true =>
    obtain ⟨env, msg, hmsg, hs⟩ := Node.packet_of_acceptsData hacc
    have hlast : (step L src r p).accepted = r.accepted ++ [p.2] := by simp only [step, hacc, if_true]
    have hds : (step L src r p).node.ds = (aodvDbDsCaptDataSeq r.node.ds src msg.u16 env.now env.now).1 :=
      hs ▸ Node.step_ds_packet hmsg
    have hnew : r.node.ds.takesAsNew src msg.u16 = true := (Node.acceptsData_eq hmsg hs).symm.trans hacc
    have hmax : (r.accepted ++ [p.2]).max? = some p.2 := by
      rw [List.max?_eq_some_iff]
      refine ⟨List.mem_append_right _ List.mem_cons_self, ?_⟩
      intro index hi
      rcases List.mem_append.mp hi with hi | hi
      · exact Nat.le_of_lt (hnewer hacc index hi)
      · exact Nat.le_of_eq (List.mem_singleton.mp hi)
    refine ⟨?_, ?_, ?_, ?_, ?_⟩
    · rw [hds]
      exact DataSeq.capt_wf hr.wf src msg.u16 env.now
    · intro hnil
      rw [hlast] at hnil
      exact absurd hnil (List.append_ne_nil_of_right_ne_nil _ (List.cons_ne_nil _ _))
    · intro index e hi he
      rw [hlast, hmax] at hi
      rw [hds] at he
      rw [← Option.some.inj hi, DataSeq.capt_find_self hr.wf env.now hnew he]
      exact hn (env, msg) hmsg hs
    · rw [hlast, List.pairwise_append]
      refine ⟨hr.sorted, List.pairwise_singleton _ _, ?_⟩
      intro index hi j hj
      rw [List.mem_singleton.mp hj]
      exact hnewer hacc index hi
    · rw [hlast]
      simp only [step]
      split
      · exact hr.passed.append (List.Sublist.refl _)
      · exact hr.passed.trans (List.sublist_append_left _ _)
  | false =>
    have hsame : (step L src r p).accepted = r.accepted := by simp [step, hacc]
    have hpassed : (step L src r p).passed = r.passed := by
      have hno : r.node.passes L src p.1 = false := by
        cases h : r.node.passes L src p.1 with
        | false => rfl
        | true => rw [Node.acceptsData_of_passes h] at hacc; cases hacc
      simp [step, hno]
    have hds : (step L src r p).node.ds.WF ∧
        ∀ e, (step L src r p).node.ds.find src = some e → r.node.ds.find src = some e :=
      Node.step_ds_refused hr.wf hacc
    refine ⟨hds.1, ?_, ?_, ?_, ?_⟩
    · intro hnil
      rw [hsame] at hnil
      cases he : (step L src r p).node.ds.find src with
      | none => rfl
      | some e =>
        rw [hr.unknown hnil] at hds
        cases hds.2 e he
    · intro index e hi he
      rw [hsame] at hi
      exact hr.newest index e hi (hds.2 e he)
    · rw [hsame]
      exact hr.sorted
    · rw [hsame, hpassed]
      exact hr.passed

def start (n : Node) : Receiver := { node := n, accepted := [], passed := [] }

theorem start_inOrder {L : Libdessert} {n : Node} (hn : Node.Reachable L n) (hnone : n.ds.find src = none) :
    (start n).InOrder src where
  wf := by
    apply hn.inv (I := fun n => n.ds.WF) (fun _ _ _ => DataSeq.init_wf)
    intro n ev hw
    cases Node.step_ds L n ev with
    | same _ h => exact h.symm ▸ hw
    | cleanup _ now h =>
      obtain ⟨gone, hg⟩ := @DataSeq.cleanup_purged n.ds now
      exact h.symm ▸ hg.wf hw
    | packet env msg _ h _ => exact h.symm ▸ DataSeq.capt_wf hw _ _ _
  unknown := fun _ => hnone
  newest := by
    intro index e hi
    cases hi
  sorted := List.Pairwise.nil
  passed := List.Sublist.refl _

/-- As long as no packet arrives that was sent before the last wrap-around of the numbers, every number is
accepted at most once. Exactly then nothing is accepted that is not newer than everything before. -/
theorem data_once {n : Node} (hn : Node.Reachable L n) (hnone : n.ds.find src = none) {ps : List (NodeEvent × Nat)}
    (hnum : ∀ p ∈ ps, Numbered src p) (hnear : Runs.Always (step L src) (Near src) (start n) ps)
    (hkept : Runs.Throughout (step L src) (Kept src) (start n) ps) :
    (Runs.Always (step L src) (NotWrapped src) (start n) ps →
        Runs.Throughout (step L src) (fun r => r.accepted.Nodup ∧ r.passed.Nodup) (start n) ps) ∧
      (Runs.Always (step L src) (OnlyNewer src) (start n) ps ↔
        Runs.Always (step L src) (NotWrapped src) (start n) ps) := by
  have hH := (Runs.always_of_mem hnum).and (hnear.and hkept.always)
  have h0 := start_inOrder hn hnone
  constructor
  · intro hw
    have hgood : Runs.Throughout (step L src) (InOrder src) (start n) ps := by
      apply Runs.throughout_of_always ?_ h0 (hH.and hw)
      exact fun r p hr h => step_inOrder hr h.1.1 h.1.2.1 h.1.2.2 h.2
    apply hgood.imp
    intro r hr
    have hnodup : r.accepted.Nodup := hr.sorted.imp Nat.ne_of_lt
    exact ⟨hnodup, hnodup.sublist hr.passed⟩
  · apply Runs.always_congr_along ?_ ?_ h0 hH
    · exact fun r p hr h => onlyNewer_iff hr h.1 h.2.1 h.2.2
    · exact fun r p hr h hw => step_inOrder hr h.1 h.2.1 h.2.2 hw

end

/-! ## A packet from before the wrap-around -/

section
variable (src : MacAddr) (r : Receiver) (p : NodeEvent × Nat)

instance : Decidable (IsPacket src p) := inferInstanceAs (Decidable (∃ q ∈ p.1.dataPacket, q.2.l25Shost = src))
instance : Decidable (Numbered src p) :=
  inferInstanceAs (Decidable (∀ q ∈ p.1.dataPacket, q.2.l25Shost = src → q.2.u16 = UInt16.ofNat p.2))
instance : Decidable (Near src r p) :=
  inferInstanceAs (Decidable (IsPacket src p → ∀ newest ∈ r.accepted.max?, _))
instance : Decidable (NotWrapped src r p) :=
  inferInstanceAs (Decidable (IsPacket src p → ∀ newest ∈ r.accepted.max?, _))
instance : Decidable (Kept src r) := inferInstanceAs (Decidable (r.accepted ≠ [] → _ ≠ none))

end

def packetArrives (index : Nat) : NodeEvent × Nat :=
  (.mesh .localUnicast { rxAt 0 with lflags := { (rxAt 0).lflags with l25Dst := true } }
    { dessertMsgNew with ttl := 1, u16 := UInt16.ofNat index, l25Shost := 8, payload := [1] }, index)

def destination : Node := aodvDbInit {} 9 [wlan]

theorem data_once_wrap :
    Runs.Throughout (step roomy 8) (fun r => r.accepted.Nodup ∧ r.passed.Nodup) (start destination)
      [packetArrives 65535, packetArrives 65536, packetArrives 65536] := by
  refine (@data_once roomy 8 destination ⟨{}, 9, [wlan], [], rfl⟩ rfl _ (by decide) (by decide) ?_).1
    (by decide)
  refine ⟨by decide, by decide, by decide, ?_⟩
  show Kept 8 _
  decide

/-- A packet that is one behind across the wrap-around is accepted, and then the newest once more. -/
theorem data_twice :
    let ps := [packetArrives 65536, packetArrives 65535, packetArrives 65536]
    (∀ p ∈ ps, Numbered 8 p) ∧ Runs.Always (step roomy 8) (Near 8) (start destination) ps ∧
      Kept 8 (Runs.exec (step roomy 8) (start destination) (ps.take 1)) ∧
      Kept 8 (Runs.exec (step roomy 8) (start destination) (ps.take 2)) ∧
      Kept 8 (Runs.exec (step roomy 8) (start destination) ps) ∧
      (Runs.exec (step roomy 8) (start destination) ps).accepted = [65536, 65535, 65536] ∧
      (Runs.exec (step roomy 8) (start destination) ps).passed = [65536, 65535, 65536] := by
  decide

end Receiver

end DesAodv
