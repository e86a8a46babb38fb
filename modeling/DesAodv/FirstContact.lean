import DesAodv.RtOps

/-!
# First contact

What the captures make of a host that the table knows nothing about: it has no
entry for the host, or the one that `rt_entry_create` has set up. A RREP is
used whatever it carries. A RREQ is compared with the sequence number 0 of that
entry as if it were one the host had sent.
-/

namespace DesAodv

/-- Nothing is known about the host. -/
def Rt.FirstContact (rt : Rt) (host : MacAddr) : Prop :=
  ∀ e ∈ rt.entries, e.addr = host → e = newRtEntry e.ptr host

section
variable {rt : Rt} {host : MacAddr}

theorem firstContact_empty : Rt.FirstContact aodvDbRtInit host := by
  intro e he
  cases he

theorem addobject_entries_sub (timestamp currTime : Timeval) (p : Nat) {e : RtEntry}
    (he : e ∈ (rtTimeslotAddobject rt timestamp currTime p).entries) : e ∈ rt.entries := by
  rw [rtTimeslotAddobject, purgeRtEntries_entries] at he
  exact List.mem_of_mem_filter he

theorem findOrCreate_entries (host' : MacAddr) (timestamp currTime : Timeval) {e : RtEntry}
    (he : e ∈ (rtFindOrCreate rt host' timestamp currTime).1.entries) :
    e ∈ rt.entries ∨ e = newRtEntry rt.fresh host' := by
  unfold rtFindOrCreate at he
  split at he
  · exact .inl he
  · rcases List.mem_append.mp he with he | he
    · exact .inl (@addobject_entries_sub { rt with fresh := rt.fresh + 1 } timestamp currTime rt.fresh e he)
    · exact .inr (List.mem_singleton.mp he)

theorem Rt.FirstContact.findOrCreate (h : rt.FirstContact host) (host' : MacAddr) (timestamp currTime : Timeval) :
    (rtFindOrCreate rt host' timestamp currTime).1.FirstContact host := by
  intro e he ha
  rcases findOrCreate_entries host' timestamp currTime he with he | rfl
  · exact h e he ha
  · exact congrArg (newRtEntry rt.fresh) ha

theorem Rt.FirstContact.found (h : rt.FirstContact host) (timestamp currTime : Timeval) :
    ∃ p, (rtFindOrCreate rt host timestamp currTime).2 = newRtEntry p host := by
  unfold rtFindOrCreate
  split
  · rename_i e he
    exact ⟨e.ptr, h e (Rt.find_mem he) (Rt.find_addr he)⟩
  · exact ⟨rt.fresh, rfl⟩

/-! ## The captures -/

/-- The number 0 is behind the numbers of one half of the circle only. -/
theorem hfCompU32_zero_neg {seq : UInt32} (hs : 1 ≤ seq.toNat) :
    hfCompU32 0 seq < 0 ↔ seq.toNat ≤ 2147483649 := by
  have hlt := seq.toNat_lt
  have h0 : (0 : UInt32).toNat = 0 := rfl
  rw [hfCompU32_neg, ahead_eq, h0]
  omega

/-- A number other than 0 is never the one of a new entry, so its metric does not count. -/
theorem rreqResult_new {metricType : AodvMetric} {p : Nat} {seq : UInt32} {metric : Metric} (hs : 1 ≤ seq.toNat) :
    rreqResult metricType (newRtEntry p host) seq metric =
      if seq.toNat ≤ 2147483649 then .new else .old := by
  have h0 : (newRtEntry p host).sequenceNumber = 0 := rfl
  have hne : hfCompU32 0 seq ≠ 0 := by
    intro h
    have hz : seq = 0 := (hfCompU32_eq_zero.mp h).symm
    rw [hz] at hs
    cases hs
  unfold rreqResult
  rw [h0, if_neg fun h => hne h.1]
  simp only [hfCompU32_zero_neg hs]

theorem captRrep_first (h : rt.FirstContact host) (nextHop : MacAddr) (iface : Meshif) (seq : UInt32)
    (metric : Metric) (hopCount : UInt8) (timestamp currTime : Timeval) :
    (rtCaptRrep rt host nextHop iface seq metric hopCount timestamp currTime).2 = true := by
  obtain ⟨p, hp⟩ := h.found timestamp currTime
  rw [captRrep_snd, hp]
  rfl

end

/-- A RREQ of a host that nothing is known about is accepted exactly if its number is not ahead of 0 by
more than half of the circle; a RREP for the host always is. -/
theorem first_contact_accepted_iff (metricType : AodvMetric) (rt : Rt)
    (destinationHost originatorHost prevHop : MacAddr) (iface : Meshif) (seq : UInt32) (metric : Metric)
    (hopCount : UInt8) (timestamp currTime : Timeval) (hs : 1 ≤ seq.toNat)
    (hf : rt.FirstContact originatorHost) :
    ((aodvDbRtCaptRreq metricType rt destinationHost originatorHost prevHop iface seq metric hopCount timestamp
          currTime).2 ≠ .old ∧
        ∀ nextHop iface' seq' metric' hopCount',
          (rtCaptRrep rt originatorHost nextHop iface' seq' metric' hopCount' timestamp currTime).2 = true) ↔
      seq.toNat ≤ 2147483649 := by
  obtain ⟨p, hp⟩ := (hf.findOrCreate destinationHost timestamp currTime).found timestamp currTime
  rw [captRreq_snd, hp, rreqResult_new hs]
  refine ⟨fun h => ?_, fun h => ⟨?_, ?_⟩⟩
  · -- beyond that the result is old
    by_cases hle : seq.toNat ≤ 2147483649
    · exact hle
    · rw [if_neg hle] at h
      exact absurd rfl h.1
  · rw [if_pos h]
    intro h'
    cases h'
  · intro nextHop iface' seq' metric' hopCount'
    exact captRrep_first hf nextHop iface' seq' metric' hopCount' timestamp currTime

theorem first_contact_rejected :
    (aodvDbRtCaptRreq .rfc aodvDbRtInit 9 5 1 { ifindex := 0, hwaddr := 9 } 2147483650 0 0 0 0).2 = .old := by
  decide

theorem first_contact_accepted_one :
    (aodvDbRtCaptRreq .rfc aodvDbRtInit 9 5 1 { ifindex := 0, hwaddr := 9 } 1 0 0 0 0).2 ≠ .old :=
  ((first_contact_accepted_iff .rfc aodvDbRtInit 9 5 1 { ifindex := 0, hwaddr := 9 } 1 0 0 0 0 (by decide)
    firstContact_empty).mpr (by decide)).1

end DesAodv
