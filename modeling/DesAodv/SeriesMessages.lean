import DesAodv.NodeSteps

/-!
# The messages of the RREQ series

A property of RREQs that survives numbering and a new ttl is a property of the
messages of all series, if it holds for the RREQs a daemon creates.
-/

namespace DesAodv

/-- A property that neither the number nor the ttl of a RREQ matters to. -/
structure Steady (P : DessertMsg → Prop) : Prop where
  number : ∀ msg seqNum, P msg → P (Node.numberRreq msg seqNum)
  ttl : ∀ (msg : DessertMsg) ttl, P msg → P { msg with ttl }

namespace Node

def SeriesAll (P : DessertMsg → Prop) (n : Node) : Prop := ∀ s ∈ n.series.heap, P s.msg

section
variable {P : DessertMsg → Prop} {n : Node} (h : n.SeriesAll P)
include h

theorem SeriesAll.congr {n' : Node} (hs : n'.series = n.series) : n'.SeriesAll P := by
  unfold SeriesAll
  rw [hs]
  exact h

theorem SeriesAll.deref {ptr : Nat} {s : RreqSeries} (hs : n.seriesDeref ptr = some s) : P s.msg :=
  h s (Keyed.lookup_mem hs)

theorem SeriesAll.write (ptr : Nat) {f : RreqSeries → RreqSeries} (hf : ∀ s, P s.msg → P (f s).msg) :
    (n.seriesWrite ptr f).SeriesAll P := by
  intro s hs
  obtain ⟨a, ha, rfl⟩ := Keyed.mem_modify hs
  split
  · exact hf a (h a ha)
  · exact h a ha

theorem SeriesAll.free (ptr : Nat) : (n.seriesFree ptr).SeriesAll P :=
  fun s hs => h s (Keyed.mem_erase.mp hs).1

theorem SeriesAll.reschedule (when : Timeval) (ptr : Nat) : (n.aodvPipelineRescheduleSeries when ptr).SeriesAll P := by
  unfold aodvPipelineRescheduleSeries
  split
  · exact h
  · split
    · exact h.free ptr
    · exact h

theorem SeriesAll.delete (ptr : Nat) : (n.aodvPipelineDeleteSeries ptr).SeriesAll P := by
  unfold aodvPipelineDeleteSeries
  split
  · exact h
  · split
    · exact h
    · have hw : ∀ seriesList : List Nat, (({ n with series := { n.series with seriesList } } : Node).seriesWrite ptr
          fun s => { s with stop := true }).SeriesAll P := by
        intro seriesList
        have hl : ({ n with series := { n.series with seriesList } } : Node).SeriesAll P := h
        exact hl.write ptr fun _ hs => hs
      simp only
      split
      · exact (hw _).free ptr
      · exact hw _

theorem SeriesAll.deleteEther (addr : MacAddr) : (n.aodvPipelineDeleteSeriesEther addr).SeriesAll P := by
  unfold aodvPipelineDeleteSeriesEther
  split
  · exact h
  · exact h.delete _

theorem SeriesAll.new {msg : DessertMsg} (hm : P msg) : (n.aodvPipelineNewSeries msg).1.SeriesAll P := by
  unfold aodvPipelineNewSeries
  split
  · exact h
  · intro s hs
    rcases List.mem_append.mp hs with hs | hs
    · exact h s hs
    · rw [List.mem_singleton.mp hs]
      exact hm

theorem SeriesAll.sendPackets (host nextHop : MacAddr) (iface : Meshif) :
    (n.aodvSendPacketsFromBuffer host nextHop iface).1.SeriesAll P := by
  have hfold : ∀ (packets : List DessertMsg) (acc : Node × List Sent), acc.1.SeriesAll P →
      (packets.foldl (fun acc _ => sendBuffered host nextHop iface acc) acc).1.SeriesAll P := by
    intro packets
    induction packets with
    | nil => exact fun _ ha => ha
    | cons p ps ih =>
      intro acc ha
      apply ih
      unfold sendBuffered
      simp only
      split <;> exact ha
  exact hfold _ _ (h.deleteEther host)

variable (hP : Steady P)
include hP

theorem SeriesAll.sendRreqReal (ptr : Nat) (now : Timeval) : (n.aodvSendRreqReal ptr now).1.SeriesAll P := by
  unfold aodvSendRreqReal
  split
  · exact h
  · rename_i series hs
    have hw : ∀ (rreqLog : RateLog) (seqNumGlobal : UInt32), (({ n with rreqLog, seqNumGlobal } : Node).seriesWrite ptr
        fun s => { s with msg := numberRreq series.msg seqNumGlobal }).SeriesAll P := by
      intro rreqLog seqNumGlobal
      have hc : ({ n with rreqLog, seqNumGlobal } : Node).SeriesAll P := h
      exact hc.write ptr fun _ _ => hP.number _ _ (h.deref hs)
    simp only
    split
    · refine SeriesAll.reschedule ?_ _ ptr
      exact h
    · split
      · exact (hw _ _).delete ptr
      · refine SeriesAll.reschedule (SeriesAll.write (hw _ _) ptr ?_) _ ptr
        exact fun s hs => hP.ttl s.msg _ hs

end

end Node

end DesAodv
