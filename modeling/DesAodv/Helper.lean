import Mathlib.Tactic.Basic

/-!
# Constants, types and comparisons

The constants and types of `config.h` and the comparisons of `helper.c`.
-/

namespace DesAodv

abbrev MacAddr := BitVec 48

/-- `struct timeval`, in microseconds. -/
abbrev Timeval := Nat

abbrev Metric := UInt16

def rreqRetries : Nat := 5
def rreqRatelimit : UInt32 := 10
def ttlStart : UInt8 := 1
def ttlIncrement : UInt8 := 2
def ttlThreshold : UInt8 := 7
def ttlMax : UInt8 := 255

def activeRouteTimeout : Nat := 3000
def allowedHelloLost : Nat := 4
def nodeTraversalTime : Nat := 20
def netDiameter : Nat := 16
def netTraversalTime : Nat := 2 * nodeTraversalTime * netDiameter
def blacklistTimeout : Nat := rreqRetries * netTraversalTime
def myRouteTimeout : Nat := 2 * activeRouteTimeout
def rerrRatelimit : UInt32 := 10

def uint32Max : UInt32 := 4294967295
def aodvMaxMetric : Metric := 65535
def aodvSignalStrengthInit : Int8 := -120
def maxMeshIfacesCount : Nat := 8

/-- A time interval given in milliseconds. -/
def msec (ms : Nat) : Timeval := 1000 * ms

def hfTvAddMs (tv : Timeval) (ms : Nat) : Timeval := tv + msec ms

inductive AodvGossip
  | gossipNone | gossip0 | gossip1 | gossip3 | pissog0 | pissog3
  deriving DecidableEq, Repr

inductive AodvMetric
  | rfc | hopCount | rssi | etxAdd | etxMul | pdr
  deriving DecidableEq, Repr

/-- A mesh interface. A pointer to one is the interface itself. -/
structure Meshif where
  ifindex : Nat
  hwaddr : MacAddr
  deriving DecidableEq, Repr

/-- The settings of a daemon that its command line changes. -/
structure Config where
  helloInterval : UInt16 := 1000
  destOnly : Bool := false
  ringSearch : Bool := true
  gossipType : AodvGossip := .gossipNone
  metricType : AodvMetric := .rfc
  metricStartvalue : Metric := 0
  signalStrengthThreshold : Int8 := 0
  deriving DecidableEq, Repr

def hfCompU32 (i j : UInt32) : Int :=
  if i = j then 0
  else
    let diff := i - j
    if diff < uint32Max >>> 1 then 1 else -1

/-- The operands are promoted to `int`, so nothing wraps. -/
def hfCompMetric (metricType : AodvMetric) (i j : Metric) : Int :=
  match metricType with
  | .etxMul | .pdr => (i.toNat : Int) - j.toNat
  | _ => (j.toNat : Int) - i.toNat

def hfRssi2interval (rssi : Int8) : UInt8 :=
  if rssi = 0 then 8
  else if rssi > -40 then 1
  else if rssi > -60 then 2
  else if rssi > -70 then 4
  else 8

/-! ## The circular order -/

/-- How far `i` lies ahead of `j` on the circle. -/
def ahead (i j : UInt32) : Nat := (i - j).toNat

theorem ahead_eq (i j : UInt32) : ahead i j = (4294967296 - j.toNat + i.toNat) % 4294967296 := by
  unfold ahead; rw [UInt32.toNat_sub]

theorem ahead_pos {i j : UInt32} (h : i ≠ j) : 0 < ahead i j := by
  have := mt UInt32.toNat_inj.mp h
  have hi := i.toNat_lt
  have hj := j.toNat_lt
  rw [ahead_eq]; omega

theorem hfCompU32_of_ne {i j : UInt32} (h : i ≠ j) :
    hfCompU32 i j = if ahead i j < 2147483647 then 1 else -1 := by
  unfold hfCompU32
  rw [if_neg h]
  rfl

@[simp] theorem hfCompU32_self (i : UInt32) : hfCompU32 i i = 0 := by simp [hfCompU32]

theorem hfCompU32_eq_zero {i j : UInt32} : hfCompU32 i j = 0 ↔ i = j := by
  constructor
  · intro h
    apply Classical.byContradiction
    intro hne
    rw [hfCompU32_of_ne hne] at h
    split at h <;> cases h
  · intro h
    rw [h]
    exact hfCompU32_self _

theorem hfCompU32_pos {i j : UInt32} : 0 < hfCompU32 i j ↔ 0 < ahead i j ∧ ahead i j < 2147483647 := by
  by_cases h : i = j
  · subst h; simp [ahead]
  · rw [hfCompU32_of_ne h]
    have := ahead_pos h
    split <;> simp <;> omega

theorem hfCompU32_neg {i j : UInt32} : hfCompU32 i j < 0 ↔ 2147483647 ≤ ahead i j := by
  by_cases h : i = j
  · subst h; simp [ahead]
  · rw [hfCompU32_of_ne h]
    split <;> simp <;> omega

/-- Far from the wrap the comparison is that of the numbers. -/
theorem hfCompU32_nonpos {i j : UInt32} (h : i.toNat ≤ j.toNat) (hj : j.toNat < 2147483648) :
    hfCompU32 i j ≤ 0 := by
  refine Int.not_lt.mp fun hp => ?_
  rw [hfCompU32_pos, ahead_eq] at hp
  omega

theorem toNat_add_ofNat {seq : UInt32} {j : Nat} (h : seq.toNat + j < 4294967296) :
    (seq + UInt32.ofNat j).toNat = seq.toNat + j := by
  rw [UInt32.toNat_add, UInt32.toNat_ofNat']
  omega

theorem hfCompU32_trichotomy (i j : UInt32) : 0 < hfCompU32 i j ∨ i = j ∨ hfCompU32 i j < 0 := by
  rcases Int.lt_trichotomy (hfCompU32 i j) 0 with h | h | h
  · exact .inr (.inr h)
  · exact .inr (.inl (hfCompU32_eq_zero.mp h))
  · exact .inl h

theorem hfCompU32_neg_of_pos {i j : UInt32} (h : 0 < hfCompU32 i j) : hfCompU32 j i < 0 := by
  have hi := i.toNat_lt
  have hj := j.toNat_lt
  rw [hfCompU32_pos, ahead_eq] at h
  rw [hfCompU32_neg, ahead_eq]
  omega

/-- In a window that starts at `base` the comparison is that of the distances from `base`. -/
theorem hfCompU32_window {i j base : UInt32} (hi : ahead i base < 2147483647) (hj : ahead j base < 2147483647) :
    0 < hfCompU32 i j ↔ ahead j base < ahead i base := by
  have hb := base.toNat_lt
  have hi' := i.toNat_lt
  have hj' := j.toNat_lt
  rw [ahead_eq] at hi hj
  rw [hfCompU32_pos, ahead_eq i j, ahead_eq i base, ahead_eq j base]
  omega

theorem ahead_inj {i j base : UInt32} : ahead i base = ahead j base ↔ i = j := by
  refine ⟨fun h => UInt32.toNat_inj.mp ?_, fun h => by rw [h]⟩
  have hb := base.toNat_lt
  have hi' := i.toNat_lt
  have hj' := j.toNat_lt
  rw [ahead_eq, ahead_eq] at h
  omega

/-! ## The metric order -/

/-- The rank of a metric among those of its type: more is better. -/
def metricRank (metricType : AodvMetric) (metric : Metric) : Int :=
  match metricType with
  | .etxMul | .pdr => metric.toNat
  | _ => -metric.toNat

theorem hfCompMetric_rank (t : AodvMetric) (i j : Metric) : hfCompMetric t i j = metricRank t i - metricRank t j := by
  cases t <;> simp only [hfCompMetric, metricRank] <;> omega

theorem hfCompMetric_self (t : AodvMetric) (i : Metric) : hfCompMetric t i i = 0 := by
  rw [hfCompMetric_rank, Int.sub_self]

theorem hfCompMetric_antisymm (t : AodvMetric) (i j : Metric) : hfCompMetric t i j = -hfCompMetric t j i := by
  rw [hfCompMetric_rank, hfCompMetric_rank, Int.neg_sub]

theorem hfCompMetric_trans (t : AodvMetric) (i j k : Metric) :
    hfCompMetric t i k = hfCompMetric t i j + hfCompMetric t j k := by
  rw [hfCompMetric_rank, hfCompMetric_rank t i j, hfCompMetric_rank t j k]
  omega

end DesAodv
