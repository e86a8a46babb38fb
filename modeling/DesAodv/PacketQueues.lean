import DesAodv.Logs

/-!
# The queues of the packet buffer

A packet waits in the queue of its destination. Purging drops whole queues;
pushing and popping change one queue and leave the others alone.
-/

namespace DesAodv

structure PacketBuffer.WF (pb : PacketBuffer) : Prop where
  hosts : (pb.entries.map PbEl.dhostEther).Nodup
  ptrs : (pb.entries.map PbEl.ptr).Nodup
  allocated : ∀ x ∈ pb.entries, x.ptr < pb.fresh

namespace PacketBuffer

def find (pb : PacketBuffer) (host : MacAddr) : Option PbEl := Keyed.lookup PbEl.dhostEther host pb.entries

theorem init_wf : pbInit.WF := ⟨List.nodup_nil, List.nodup_nil, by simp [pbInit]⟩

/-! ## Purging -/

/-- Queues have been purged. -/
structure Purged (gone : List Nat) (pb pb' : PacketBuffer) : Prop where
  entries : pb'.entries = pb.entries.filter fun x => decide (x.ptr ∉ gone)
  fresh : pb'.fresh = pb.fresh

theorem foldl_purged (purged : List (TimeslotElement Nat)) (pb : PacketBuffer) :
    Purged (purged.map TimeslotElement.object) pb (purged.foldl purgePackets pb) where
  entries := Keyed.foldl_erase PacketBuffer.entries (fun _ _ => rfl) purged pb
  fresh := by
    induction purged generalizing pb with
    | nil => rfl
    | cons el els ih => exact ih (purgePackets pb el)

section
variable {pb pb' : PacketBuffer} (hw : pb.WF)
include hw

theorem Purged.wf {gone : List Nat} (hp : Purged gone pb pb') : pb'.WF := by
  refine ⟨?_, ?_, ?_⟩
  · rw [hp.entries]
    exact hw.hosts.sublist (List.filter_sublist.map _)
  · rw [hp.entries]
    exact hw.ptrs.sublist (List.filter_sublist.map _)
  · rw [hp.entries, hp.fresh]
    exact fun x hx => hw.allocated x (List.mem_of_mem_filter hx)

theorem Purged.queue {gone : List Nat} (hp : Purged gone pb pb') (host : MacAddr) :
    pb'.queue host = [] ∨ pb'.queue host = pb.queue host := by
  unfold PacketBuffer.queue
  rw [hp.entries, Keyed.lookup_filter hw.hosts]
  cases Keyed.lookup PbEl.dhostEther host pb.entries with
  | none => exact .inl rfl
  | some x =>
    rw [Option.filter_some]
    split
    · exact .inr rfl
    · exact .inl rfl

theorem WF.cleanup (timestamp : Timeval) :
    (pbCleanup pb timestamp).WF ∧
      ∀ host, (pbCleanup pb timestamp).queue host = [] ∨ (pbCleanup pb timestamp).queue host = pb.queue host := by
  have h := foldl_purged (timeslotPurgeobjects pb.ts timestamp).2
    { pb with ts := (timeslotPurgeobjects pb.ts timestamp).1 }
  have hp : Purged _ pb (pbCleanup pb timestamp) := ⟨h.entries, h.fresh⟩
  exact ⟨hp.wf hw, hp.queue hw⟩

/-! ## One queue -/

theorem WF.setQueue {x : PbEl} (hx : x ∈ pb.entries) (f : List DessertMsg → List DessertMsg)
    (he : pb'.entries = Keyed.modify PbEl.ptr x.ptr (fun y => { y with fl := f y.fl }) pb.entries)
    (hf : pb'.fresh = pb.fresh) :
    pb'.WF ∧ ∀ host, pb'.queue host = if host = x.dhostEther then f x.fl else pb.queue host := by
  refine ⟨⟨?_, ?_, ?_⟩, fun host => ?_⟩
  · have h := @Keyed.map_modify PbEl MacAddr Nat _ PbEl.dhostEther PbEl.ptr x.ptr
      (fun y => { y with fl := f y.fl }) (fun _ => rfl) pb.entries
    rw [he, h]
    exact hw.hosts
  · have h := @Keyed.map_modify PbEl Nat Nat _ PbEl.ptr PbEl.ptr x.ptr
      (fun y => { y with fl := f y.fl }) (fun _ => rfl) pb.entries
    rw [he, h]
    exact hw.ptrs
  · rw [he, hf]
    exact Keyed.allocated_modify hw.allocated fun _ => rfl
  · unfold PacketBuffer.queue
    have hfound := Keyed.lookup_modify_found hw.ptrs (Keyed.lookup_of_mem hw.hosts hx)
      (f := fun y => { y with fl := f y.fl }) (fun _ => rfl) host
    rw [he, hfound]
    by_cases hh : host = x.dhostEther
    · rw [if_pos hh, if_pos hh]
      rfl
    · rw [if_neg hh, if_neg hh]

theorem WF.newQueue {host : MacAddr} (hn : pb.find host = none) :
    let x : PbEl := { ptr := pb.fresh, dhostEther := host, fl := [] }
    let pb' := { pb with entries := pb.entries ++ [x], fresh := pb.fresh + 1 }
    pb'.WF ∧ ∀ other, pb'.queue other = pb.queue other := by
  intro x pb'
  refine ⟨⟨Keyed.nodup_concat hw.hosts hn, Keyed.nodup_concat hw.ptrs (Keyed.lookup_fresh hw.allocated),
    Keyed.allocated_concat hw.allocated rfl⟩, fun other => ?_⟩
  unfold PacketBuffer.queue
  by_cases ho : host = other
  · obtain rfl := ho
    rw [Keyed.lookup_concat_self PbEl.dhostEther (a := x) hn]
    rw [show Keyed.lookup PbEl.dhostEther host pb.entries = none from hn]
    rfl
  · rw [Keyed.lookup_concat_ne (a := x) ho]

theorem WF.push (host : MacAddr) (msg : DessertMsg) (timestamp currTime : Timeval) :
    (pbPushPacket pb host msg timestamp currTime).WF ∧
      ∀ other, other ≠ host → (pbPushPacket pb host msg timestamp currTime).queue other = [] ∨
        (pbPushPacket pb host msg timestamp currTime).queue other = pb.queue other := by
  obtain ⟨hwc, hqc⟩ := hw.cleanup timestamp
  -- a packet has been appended to the queue of `host`, and queues have been purged again
  have appended : ∀ (x : PbEl) (base : PacketBuffer), base.WF → x ∈ base.entries → x.dhostEther = host →
      (∀ other, base.queue other = (pbCleanup pb timestamp).queue other) → ∀ ts (purged : List (TimeslotElement Nat)),
      let entries := Keyed.modify PbEl.ptr x.ptr (fun y => { y with fl := y.fl ++ [msg] }) base.entries
      (purged.foldl purgePackets { base with entries, ts }).WF ∧ ∀ other, other ≠ host →
        (purged.foldl purgePackets { base with entries, ts }).queue other = [] ∨
        (purged.foldl purgePackets { base with entries, ts }).queue other = pb.queue other := by
    intro x base hwb hx hxh hqb ts purged entries
    have hset : ({ base with entries, ts } : PacketBuffer).WF ∧ _ := hwb.setQueue hx (fun fl => fl ++ [msg]) rfl rfl
    obtain ⟨hw', hq'⟩ := hset
    have hp := foldl_purged purged { base with entries, ts }
    refine ⟨hp.wf hw', fun other ho => ?_⟩
    rcases hp.queue hw' other with h | h
    · exact .inl h
    · rw [h, hq' other, if_neg (by rw [hxh]; exact ho), hqb other]
      exact hqc other
  unfold pbPushPacket
  cases hl : Keyed.lookup PbEl.dhostEther host (pbCleanup pb timestamp).entries with
  | some x =>
    simp only [hl]
    exact appended x (pbCleanup pb timestamp) hwc (Keyed.lookup_mem hl) (Keyed.lookup_key hl) (fun _ => rfl) _ _
  | none =>
    simp only [hl]
    obtain ⟨hwn, hqn⟩ := hwc.newQueue hl
    exact appended { ptr := (pbCleanup pb timestamp).fresh, dhostEther := host, fl := [] } _ hwn
      (List.mem_append_right _ (List.mem_singleton.mpr rfl)) rfl hqn _ _

theorem WF.pop (host : MacAddr) :
    (pbPopPacket pb host).1.WF ∧
      ∀ other, (pbPopPacket pb host).1.queue other =
        if other = host then (pb.queue host).tail else pb.queue other := by
  unfold pbPopPacket
  cases hl : Keyed.lookup PbEl.dhostEther host pb.entries with
  | none =>
    refine ⟨hw, fun other => ?_⟩
    by_cases ho : other = host
    · rw [if_pos ho, ho]
      unfold PacketBuffer.queue
      rw [hl]
      rfl
    · rw [if_neg ho]
  | some x =>
    have hx := Keyed.lookup_mem hl
    have hxh := Keyed.lookup_key hl
    have hqueue : pb.queue host = x.fl := by
      unfold PacketBuffer.queue
      rw [hl]
      rfl
    simp only
    split
    · rename_i htail
      refine ⟨⟨Keyed.nodup_erase hw.hosts host, Keyed.nodup_erase hw.ptrs host, ?_⟩, fun other => ?_⟩
      · exact fun y hy => hw.allocated y (Keyed.mem_erase.mp hy).1
      · by_cases ho : other = host
        · rw [if_pos ho, ho, hqueue, htail]
          unfold PacketBuffer.queue
          rw [Keyed.lookup_erase_self]
          rfl
        · rw [if_neg ho]
          unfold PacketBuffer.queue
          rw [Keyed.lookup_erase_ne PbEl.dhostEther (Ne.symm ho)]
    · let entries := Keyed.modify PbEl.ptr x.ptr (fun y => { y with fl := x.fl.tail }) pb.entries
      have hset : ({ pb with entries } : PacketBuffer).WF ∧ _ := hw.setQueue hx (fun _ => x.fl.tail) rfl rfl
      obtain ⟨hw', hq'⟩ := hset
      refine ⟨hw', fun other => ?_⟩
      rw [hqueue, ← hxh]
      exact hq' other

end

end PacketBuffer

end DesAodv
