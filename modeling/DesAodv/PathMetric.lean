import Mathlib.Data.Int.Order.Basic
import DesAodv.Node
import DesAodv.BoundedSums

/-!
# The metric of a path

`aodv_metric_do` hop by hop along a path, from the metric a message carries.
-/

namespace DesAodv

open Runs

def metricHop (metricType : AodvMetric) (metric : Metric) (link : LinkSample) : Metric :=
  aodvMetricDo metricType link metric

def pathMetric (metricType : AodvMetric) (metric : Metric) (path : List LinkSample) : Metric :=
  exec (metricHop metricType) metric path

/-- The metric never gets better: more hops are not ranked better than fewer. -/
theorem comp_prefix {t : AodvMetric} {metric : Metric} {path pre post : List LinkSample}
    (h : Always (metricHop t) (fun m link => metricRank t (metricHop t m link) ≤ metricRank t m) metric path)
    (he : path = pre ++ post) : hfCompMetric t (pathMetric t metric path) (pathMetric t metric pre) ≤ 0 := by
  rw [hfCompMetric_rank]
  have hle := exec_rank_le_prefix (metricRank t) h he
  exact Int.sub_nonpos_of_le hle

/-! ## Multiplicative metrics -/

/-- The quotient before the cast. An unknown link counts as 0. -/
def hopQuotient (metricType : AodvMetric) (metric : Metric) (link : LinkSample) : Nat :=
  match metricType with
  | .etxMul => metric.toNat * (link.etxMul.getD 0).toNat / (aodvMaxMetric.toNat / 32)
  | .pdr => metric.toNat * (link.pdr.getD 0).toNat / aodvMaxMetric.toNat
  | _ => metric.toNat

/-- Hops from the best metric: each quotient fits, no hop makes the metric better, and the path is not
ranked better than one of its prefixes. -/
structure NeverImproves (t : AodvMetric) (path : List LinkSample) : Prop where
  hops : Always (metricHop t) (fun m link => hopQuotient t m link ≤ 65535 ∧ (metricHop t m link).toNat ≤ m.toNat)
    aodvMaxMetric path
  prefixes : ∀ pre post, path = pre ++ post →
    hfCompMetric t (pathMetric t aodvMaxMetric path) (pathMetric t aodvMaxMetric pre) ≤ 0

theorem metricHop_etxMul (m : Metric) (link : LinkSample) :
    metricHop .etxMul m link = UInt16.ofNat (hopQuotient .etxMul m link) := by
  simp only [metricHop, aodvMetricDo, hopQuotient]
  cases link.etxMul with
  | none => simp
  | some l => rfl

theorem metricHop_pdr (m : Metric) (link : LinkSample) :
    metricHop .pdr m link = UInt16.ofNat (hopQuotient .pdr m link) := by
  simp only [metricHop, aodvMetricDo, hopQuotient]
  cases link.pdr with
  | none => simp
  | some l => rfl

/-- The product is computed in 32 bits. -/
theorem pdr_product_lt (m l : Metric) : m.toNat * l.toNat < 4294967296 := by
  have hm := m.toNat_lt
  have hl := l.toNat_lt
  calc m.toNat * l.toNat ≤ 65535 * 65535 := Nat.mul_le_mul (by omega) (by omega)
    _ < 4294967296 := by decide

/-- A hop fits and makes nothing better exactly if the quotient is at most the metric before. -/
theorem quotient_le_iff {m m' : Metric} {q : Nat} (h : m' = UInt16.ofNat q) :
    (q ≤ 65535 ∧ m'.toNat ≤ m.toNat) ↔ q ≤ m.toNat := by
  have hm := m.toNat_lt
  rw [h, UInt16.toNat_ofNat']
  refine ⟨fun hq => ?_, fun hq => ⟨by omega, ?_⟩⟩
  · obtain ⟨hfit, hle⟩ := hq
    rwa [Nat.mod_eq_of_lt (by omega)] at hle
  · rwa [Nat.mod_eq_of_lt (by omega)]

theorem pdr_quotient_le (m : Metric) (link : LinkSample) : hopQuotient .pdr m link ≤ m.toNat := by
  have hl := (link.pdr.getD 0).toNat_lt
  have hmax : aodvMaxMetric.toNat = 65535 := rfl
  simp only [hopQuotient, hmax]
  exact Nat.div_le_of_le_mul ((Nat.mul_le_mul_left _ (Nat.le_of_lt_succ hl)).trans_eq (Nat.mul_comm _ _))

theorem etxMul_quotient_le (m : Metric) (link : LinkSample) :
    hopQuotient .etxMul m link ≤ m.toNat ↔ m.toNat * ((link.etxMul.getD 0).toNat - 2047) < 2047 := by
  have hdiv : aodvMaxMetric.toNat / 32 = 2047 := rfl
  simp only [hopQuotient, hdiv]
  generalize (link.etxMul.getD 0).toNat = l
  rw [← Nat.lt_succ_iff, Nat.div_lt_iff_lt_mul (by decide), Nat.succ_mul, Nat.mul_sub]
  have hmul : m.toNat * l ≤ m.toNat * 2047 ∨ m.toNat * 2047 ≤ m.toNat * l := Nat.le_total _ _
  omega

theorem rank_of_le {t : AodvMetric} (ht : t = .etxMul ∨ t = .pdr) {m m' : Metric} :
    metricRank t m' ≤ metricRank t m ↔ m'.toNat ≤ m.toNat := by
  rcases ht with rfl | rfl <;> exact Int.ofNat_le

theorem neverImproves_iff {t : AodvMetric} (ht : t = .etxMul ∨ t = .pdr) (path : List LinkSample) :
    NeverImproves t path ↔ Always (metricHop t) (fun m link => hopQuotient t m link ≤ m.toNat) aodvMaxMetric path := by
  have hcast : ∀ m link, metricHop t m link = UInt16.ofNat (hopQuotient t m link) := by
    rcases ht with rfl | rfl
    · exact metricHop_etxMul
    · exact metricHop_pdr
  refine ⟨fun h => ?_, fun h => ?_⟩
  · exact h.hops.imp fun m link hq => (quotient_le_iff (hcast m link)).mp hq
  · have hhops := h.imp fun m link hq => (quotient_le_iff (hcast m link)).mpr hq
    exact ⟨hhops, fun _ _ he => comp_prefix (hhops.imp fun m link hq => (rank_of_le ht).mpr hq.2) he⟩

/-- PDR paths never get better. ETX_MUL paths do not exactly if no hop multiplies the metric up. -/
theorem multiplicative_never_improves (path : List LinkSample) :
    NeverImproves .pdr path ∧
      (NeverImproves .etxMul path ↔
        Always (metricHop .etxMul) (fun m link => m.toNat * ((link.etxMul.getD 0).toNat - 2047) < 2047)
          aodvMaxMetric path) := by
  refine ⟨(neverImproves_iff (.inr rfl) path).mpr ?_, (neverImproves_iff (.inl rfl) path).trans ?_⟩
  · exact always_iff.mpr fun pre link post _ => pdr_quotient_le _ link
  · exact ⟨fun h => h.imp fun m link => (etxMul_quotient_le m link).mp,
      fun h => h.imp fun m link => (etxMul_quotient_le m link).mpr⟩

theorem etxMul_improves :
    ¬ NeverImproves .etxMul [{ avgRssi := 0, etxAdd := none, etxMul := some 65535, pdr := none }] := by
  intro h
  exact absurd h.hops.1.1 (by decide)

/-! ## Additive metrics -/

/-- An unknown link costs the most. -/
def linkCost (metricType : AodvMetric) (link : LinkSample) : Nat :=
  match metricType with
  | .hopCount => 1
  | .rssi => (hfRssi2interval link.avgRssi).toNat
  | .etxAdd => (link.etxAdd.getD aodvMaxMetric).toNat
  | _ => 0

/-- The costs are summed up to the greatest metric, no hop makes the metric smaller, and the path is not
ranked better than one of its prefixes. -/
structure Saturates (t : AodvMetric) (metric : Metric) (path : List LinkSample) : Prop where
  total : (pathMetric t metric path).toNat = min 65535 (metric.toNat + (path.map (linkCost t)).sum)
  hops : Always (metricHop t) (fun m link => m.toNat ≤ (metricHop t m link).toNat) metric path
  prefixes : ∀ pre post, path = pre ++ post → hfCompMetric t (pathMetric t metric path) (pathMetric t metric pre) ≤ 0

theorem toNat_le_max (m : Metric) : m.toNat ≤ 65535 := Nat.le_of_lt_succ m.toNat_lt

theorem metricHop_etxAdd (m : Metric) (link : LinkSample) :
    (metricHop .etxAdd m link).toNat = BoundedSums.addClamped 65535 m.toNat (linkCost .etxAdd link) := by
  have hmax : aodvMaxMetric.toNat = 65535 := rfl
  simp only [metricHop, aodvMetricDo, linkCost, BoundedSums.addClamped]
  generalize link.etxAdd.getD aodvMaxMetric = l
  have hl := toNat_le_max l
  have hle : l ≤ aodvMaxMetric := UInt16.le_iff_toNat_le.mpr (hmax ▸ hl)
  have hsub : (aodvMaxMetric - l).toNat = 65535 - l.toNat := UInt16.toNat_sub_of_le _ _ hle
  by_cases h : aodvMaxMetric - l > m
  · rw [if_pos h]
    have hlt := UInt16.lt_iff_toNat_lt.mp h
    rw [UInt16.toNat_add]
    omega
  · rw [if_neg h, hmax]
    have hge := UInt16.le_iff_toNat_le.mp (UInt16.not_lt.mp h)
    omega

theorem metricHop_hopCount (m : Metric) (link : LinkSample) :
    (metricHop .hopCount m link).toNat = BoundedSums.addWrapped 65535 m.toNat (linkCost .hopCount link) :=
  UInt16.toNat_add m 1

theorem metricHop_rssi (m : Metric) (link : LinkSample) :
    (metricHop .rssi m link).toNat = BoundedSums.addWrapped 65535 m.toNat (linkCost .rssi link) := by
  simp only [metricHop, aodvMetricDo, linkCost]
  rw [UInt16.toNat_add, UInt8.toNat_toUInt16]
  rfl

theorem rank_of_ge {t : AodvMetric} (ht : t ≠ .etxMul ∧ t ≠ .pdr) {m m' : Metric} :
    metricRank t m' ≤ metricRank t m ↔ m.toNat ≤ m'.toNat := by
  cases t with
  | etxMul => exact absurd rfl ht.1
  | pdr => exact absurd rfl ht.2
  | _ => simp only [metricRank]; omega

theorem Saturates.of_hops {t : AodvMetric} (ht : t ≠ .etxMul ∧ t ≠ .pdr) {metric : Metric} {path : List LinkSample}
    (htotal : (pathMetric t metric path).toNat = min 65535 (metric.toNat + (path.map (linkCost t)).sum))
    (hhops : Always (metricHop t) (fun m link => m.toNat ≤ (metricHop t m link).toNat) metric path) :
    Saturates t metric path :=
  ⟨htotal, hhops, fun _ _ he => comp_prefix (hhops.imp fun _ _ hle => (rank_of_ge ht).mpr hle) he⟩

theorem etxAdd_saturates (metric : Metric) (path : List LinkSample) : Saturates .etxAdd metric path := by
  refine Saturates.of_hops ⟨by decide, by decide⟩ ?_ ?_
  · rw [pathMetric, exec_map metricHop_etxAdd]
    exact BoundedSums.exec_addClamped (toNat_le_max metric) _
  · have h := (always_map metricHop_etxAdd).mp
      (BoundedSums.always_addClamped (toNat_le_max metric) (path.map (linkCost .etxAdd)))
    refine h.imp fun m link hle => ?_
    rw [metricHop_etxAdd]
    exact hle

theorem linkCost_le (t : AodvMetric) (link : LinkSample) : linkCost t link ≤ 65535 := by
  cases t with
  | hopCount => exact (by decide : 1 ≤ 65535)
  | rssi => exact (Nat.le_of_lt (UInt8.toNat_lt _)).trans (by decide)
  | etxAdd => exact toNat_le_max _
  | _ => exact Nat.zero_le _

/-- A metric whose sum wraps stays right exactly as long as nothing wraps. -/
theorem wrapped_saturates_iff {t : AodvMetric} (ht : t ≠ .etxMul ∧ t ≠ .pdr)
    (hstep : ∀ m link, (metricHop t m link).toNat = BoundedSums.addWrapped 65535 m.toNat (linkCost t link))
    (metric : Metric) (path : List LinkSample) :
    Saturates t metric path ↔ metric.toNat + (path.map (linkCost t)).sum ≤ 65535 := by
  have hcosts : ∀ c ∈ path.map (linkCost t), c ≤ 65535 := by
    intro c hc
    obtain ⟨link, -, rfl⟩ := List.mem_map.mp hc
    exact linkCost_le t link
  have hwrap := BoundedSums.always_addWrapped (toNat_le_max metric) hcosts
  rw [always_map hstep] at hwrap
  refine ⟨fun h => ?_, fun h => Saturates.of_hops ht ?_ ?_⟩
  · exact hwrap.mp (h.hops.imp fun m link hle => hstep m link ▸ hle)
  · rw [pathMetric, exec_map hstep, BoundedSums.exec_addWrapped h]
    exact (Nat.min_eq_right h).symm
  · exact (hwrap.mpr h).imp fun m link hle => (hstep m link).symm ▸ hle

/-- ETX_ADD saturates. The hop count and the RSSI metric do exactly where the whole sum fits. -/
theorem additive_saturates (metric : Metric) (path : List LinkSample) :
    Saturates .etxAdd metric path ∧
      (Saturates .hopCount metric path ↔ metric.toNat + (path.map (linkCost .hopCount)).sum ≤ 65535) ∧
      (Saturates .rssi metric path ↔ metric.toNat + (path.map (linkCost .rssi)).sum ≤ 65535) :=
  ⟨etxAdd_saturates metric path,
    wrapped_saturates_iff ⟨by decide, by decide⟩ metricHop_hopCount metric path,
    wrapped_saturates_iff ⟨by decide, by decide⟩ metricHop_rssi metric path⟩

/-- One hop from the greatest metric gives 0, the best one. -/
theorem hopCount_wraps :
    ¬ Saturates .hopCount 65535 [{ avgRssi := 0, etxAdd := none, etxMul := none, pdr := none }] := by
  intro h
  exact absurd h.total (by decide)

end DesAodv
