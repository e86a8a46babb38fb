import Mathlib.Algebra.Group.Nat.Defs
import DesAodv.CircularOrder
import DesAodv.RtOps

/-!
# The circular order of sequence numbers

`hf_comp_u32` on a window of half of all sequence numbers, wherever it starts,
and the three tests of the routing table that decide which of two numbers is newer.
-/

namespace DesAodv

open Circular

/-- The number `k` places behind `b`. -/
def seqAt (b : UInt32) (k : Nat) : UInt32 := b + UInt32.ofNat k

theorem toNat_seqAt (b : UInt32) (k : Nat) : (seqAt b k).toNat = place 4294967296 b.toNat k := by
  rw [seqAt, UInt32.toNat_add, UInt32.toNat_ofNat', place, Nat.add_mod_mod]

theorem hfCompU32_eq_comp (i j : UInt32) : hfCompU32 i j = comp 4294967296 2147483647 i.toNat j.toNat := by
  by_cases h : i = j
  · rw [h, hfCompU32_self, comp, if_pos rfl]
  · rw [hfCompU32_of_ne h, comp, if_neg (mt UInt32.toNat_inj.mp h), Circular.ahead, DesAodv.ahead_eq]

theorem signLaw_seqAt (b : UInt32) {S : Set Nat} (hS : ∀ k ∈ S, k < 2 ^ 31) :
    SignLaw hfCompU32 (seqAt b) S ↔ ¬ (0 ∈ S ∧ 2147483647 ∈ S) := by
  have hcomp : SignLaw hfCompU32 (seqAt b) S ↔
      SignLaw (comp 4294967296 2147483647) (place 4294967296 b.toNat) S := by
    simp only [SignLaw, hfCompU32_eq_comp, toNat_seqAt]
  rw [hcomp, signLaw_iff (by decide : 2 * 2 ^ 31 ≤ 4294967296) (by decide) b.toNat_lt hS]
  refine ⟨fun h hends => ?_, fun h k hk l hl hfar => ?_⟩
  · exact h 2147483647 hends.2 0 hends.1 ⟨by decide, by decide⟩
  · -- only the two ends of the window are that far apart
    have hlt := hS k hk
    obtain rfl : l = 0 := by omega
    obtain rfl : k = 2147483647 := by omega
    exact h ⟨hl, hk⟩

/-! ## The tests of the routing table -/

/-- Every test of the routing table that compares `i` with `j` finds `i` newer exactly if `newer` holds: a
RREQ with `i` against an entry with `j`, and a RREP and a RERR with `j` against an entry with `i`. -/
structure FoundNewer (i j : UInt32) (newer : Prop) : Prop where
  captRreq : ∀ metricType rt destinationHost originatorHost prevHop iface metric hopCount timestamp currTime,
    (rtFindOrCreate (rtFindOrCreate rt destinationHost timestamp currTime).1 originatorHost timestamp
      currTime).2.sequenceNumber = j →
    ((aodvDbRtCaptRreq metricType rt destinationHost originatorHost prevHop iface i metric hopCount timestamp
      currTime).2 = .new ↔ newer)
  captRrep : ∀ rt host e nextHop iface metric hopCount timestamp currTime, Rt.find rt host = some e →
    e.flags.nextHopUnknown = false → e.sequenceNumber = i →
    ((rtCaptRrep rt host nextHop iface j metric hopCount timestamp currTime).2 = false ↔ newer)
  markrouteinv : ∀ rt host e, Rt.find rt host = some e → e.sequenceNumber = i →
    ((aodvDbRtMarkrouteinv rt host j).2 = false ↔ newer)

theorem rreqResult_eq_new {metricType : AodvMetric} {x : RtEntry} {seq : UInt32} {metric : Metric} :
    rreqResult metricType x seq metric = .new ↔ hfCompU32 x.sequenceNumber seq < 0 := by
  rcases hfCompU32_trichotomy x.sequenceNumber seq with h | h | h
  · rw [rreqResult_ahead h]
    exact iff_of_false (by decide) (by omega)
  · rw [rreqResult, h, hfCompU32_self]
    split <;> simp
  · rw [rreqResult_behind h]
    exact iff_of_true rfl h

theorem foundNewer {i j : UInt32} {newer : Prop} (hneg : hfCompU32 j i < 0 ↔ newer)
    (hpos : 0 < hfCompU32 i j ↔ newer) : FoundNewer i j newer where
  captRreq metricType rt destinationHost originatorHost prevHop iface metric hopCount timestamp currTime hj := by
    rw [captRreq_snd, rreqResult_eq_new, hj]
    exact hneg
  captRrep rt host e nextHop iface metric hopCount timestamp currTime he hknown hi := by
    have hfound : (rtFindOrCreate rt host timestamp currTime).2 = e := by rw [rtFindOrCreate, he]
    rw [captRrep_snd, hfound, rrepUsed, hknown, hi]
    simpa using hpos
  markrouteinv rt host e he hi := by
    rw [aodvDbRtMarkrouteinv, he]
    simp only [hi]
    by_cases h : hfCompU32 i j > 0
    · rw [if_pos h]
      exact iff_of_true rfl (hpos.mp h)
    · rw [if_neg h]
      exact iff_of_false (fun hf => Bool.noConfusion hf) (mt hpos.mpr h)

/-- In a window of `2 ^ 31` numbers all that is said about their order holds exactly of the sets of places
that do not contain both the first and the last. -/
theorem window_order_iff (b : UInt32) {S : Set Nat} (hS : ∀ k ∈ S, k < 2 ^ 31) :
    (SignLaw hfCompU32 (seqAt b) S ∧ LinearOn hfCompU32 (seqAt b) S ∧
        ∀ k ∈ S, ∀ l ∈ S, FoundNewer (seqAt b k) (seqAt b l) (l < k)) ↔
      ¬ (0 ∈ S ∧ 2147483647 ∈ S) := by
  rw [← signLaw_seqAt b hS]
  refine ⟨And.left, fun h => ⟨h, h.linear, fun k hk l hl => ?_⟩⟩
  exact foundNewer (h.neg_iff hl hk) (h.pos_iff hk hl)

/-- Across the wrap: the numbers are 3 and 4294967293. -/
theorem window_order_wrap :
    SignLaw hfCompU32 (seqAt 4294967290) {k | k < 2147483647} ∧ FoundNewer 3 4294967293 (3 < 9) := by
  have h := (@window_order_iff 4294967290 {k | k < 2147483647} fun _ hk => Nat.lt_succ_of_lt hk).mpr
    fun hends => absurd hends.2 (Nat.lt_irrefl _)
  exact ⟨h.1, h.2.2 9 (by decide : 9 < 2147483647) 3 (by decide : 3 < 2147483647)⟩

theorem ends_behind (b : UInt32) :
    hfCompU32 b (seqAt b 2147483647) < 0 ∧ hfCompU32 (seqAt b 2147483647) b < 0 := by
  have hb := b.toNat_lt
  rw [hfCompU32_neg, hfCompU32_neg, ahead_eq, ahead_eq, toNat_seqAt, place]
  omega

theorem not_signLaw_window : ¬ ∀ b, SignLaw hfCompU32 (seqAt b) {k | k < 2 ^ 31} := by
  intro h
  have hlast : 2147483647 < 2 ^ 31 := by decide
  have hfirst : 0 < 2 ^ 31 := by decide
  have hlt := ((h 0).neg_iff hlast hfirst).mp (ends_behind 0).2
  exact absurd hlt (Nat.not_lt_zero _)

end DesAodv
