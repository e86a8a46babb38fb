import DesAodv.Traffic
import DesAodv.LocalRepair
import Mathlib.Logic.Function.Basic

/-!
# The best capture for a destination

What a node has captured for a destination, in an order of sequence numbers and
metrics: the best so far, and the previous hop it came over. Under the condition
that a capture is better than it or comes over the same hop, the routing table
and the messages of the node are no better than the best captures.
-/

namespace DesAodv

/-- An order of the sequence numbers and metrics for a host, in which 0 is no better than any other
number. -/
structure Quality where
  of : MacAddr → UInt32 → Metric → Nat
  zero_le : ∀ host seq metric, of host 0 metric ≤ of host seq metric

structure Best where
  quality : Nat
  via : MacAddr
  time : Nat
  deriving DecidableEq, Repr

/-- The best capture after one of the given quality. -/
def Best.next (old : Option Best) (quality : Nat) (via : MacAddr) (time : Nat) : Best :=
  match old with
  | none => { quality, via, time }
  | some h => if h.quality < quality then { quality, via, time } else h

/-- What a received frame makes a node write into the entry of `host`; `received` is the metric in the
frame. -/
structure Capture where
  host : MacAddr
  number : UInt32
  received : Metric
  metric : Metric
  via : MacAddr
  deriving DecidableEq, Repr

/-- The capture is no better than what the neighbor has sent, and better than the best one so far unless
it comes over the same hop. -/
def Capture.InOrder (q : Quality) (best : MacAddr → Option Best) (c : Capture) : Prop :=
  q.of c.host c.number c.metric ≤ q.of c.host c.number c.received ∧
    ∀ h ∈ best c.host, h.quality < q.of c.host c.number c.metric ∨ h.via = c.via

instance (q : Quality) (best : MacAddr → Option Best) (c : Capture) : Decidable (c.InOrder q best) :=
  inferInstanceAs (Decidable (q.of c.host c.number c.metric ≤ q.of c.host c.number c.received ∧
    ∀ h ∈ best c.host, h.quality < q.of c.host c.number c.metric ∨ h.via = c.via))

def Capture.next (q : Quality) (best : MacAddr → Option Best) (time : Nat) (c : Capture) : MacAddr → Option Best :=
  Function.update best c.host
    (some (Best.next (best c.host) (q.of c.host c.number c.metric) c.via time))

def Capture.nextOpt (q : Quality) (best : MacAddr → Option Best) (time : Nat) : Option Capture → MacAddr → Option Best
  | none => best
  | some c => c.next q best time

/-- What the node captures when the frame arrives. -/
def Node.capture (n : Node) (env : RxEnv) (msg : DessertMsg) : Option Capture :=
  let (n, verdict) := n.aodvDropErrors env msg
  let metric := (n.countHop env msg).u16
  if verdict = .drop then none
  else
    match msg.getRreq with
    | some rreq =>
      if n.judgeRreq env msg rreq = .old then none
      else some { host := msg.l25Shost, number := rreq.originatorSequenceNumber, received := msg.u16, metric,
                  via := msg.l2Shost }
    | none =>
      match msg.getRrep with
      | some rrep =>
        if env.lflags.l2Dst &&
            rrepUsed (rtFindOrCreate n.rt msg.l25Shost env.now env.now).2 rrep.destinationSequenceNumber then
          some { host := msg.l25Shost, number := rrep.destinationSequenceNumber, received := msg.u16, metric,
                 via := msg.l2Shost }
        else none
      | none => none

/-! ## Best captures -/

section
variable {q : Quality} {best : MacAddr → Option Best} {c : Capture} {time : Nat}

/-- The best captures have become better or stayed. -/
def BestLe (best best' : MacAddr → Option Best) : Prop :=
  ∀ host h, best host = some h → ∃ h', best' host = some h' ∧ (h' = h ∨ h.quality < h'.quality)

theorem BestLe.refl (best : MacAddr → Option Best) : BestLe best best := fun _ h hh => ⟨h, hh, .inl rfl⟩

theorem Capture.next_le (c : Capture) : BestLe best (c.next q best time) := by
  intro host h hh
  unfold Capture.next
  by_cases hc : host = c.host
  · subst hc
    rw [Function.update_self, hh]
    refine ⟨_, rfl, ?_⟩
    simp only [Best.next]
    split
    · rename_i hlt
      exact .inr hlt
    · exact .inl rfl
  · rw [Function.update_of_ne hc]
    exact ⟨h, hh, .inl rfl⟩

theorem Capture.InOrder.next (ho : c.InOrder q best) (time : Nat) :
    ∃ h, c.next q best time c.host = some h ∧ q.of c.host c.number c.metric ≤ h.quality ∧ c.via = h.via ∧
      (best c.host = some h ∨ h = { quality := q.of c.host c.number c.metric, via := c.via, time }) := by
  unfold Capture.next
  rw [Function.update_self]
  refine ⟨_, rfl, ?_⟩
  cases hb : best c.host with
  | none => exact ⟨Nat.le_refl _, rfl, .inr rfl⟩
  | some h =>
    simp only [Best.next]
    split
    · exact ⟨Nat.le_refl _, rfl, .inr rfl⟩
    · rename_i hlt
      exact ⟨Nat.not_lt.mp hlt, ((ho.2 h hb).resolve_left hlt).symm, .inl rfl⟩

end

/-! ## What a node says and holds -/

section
variable (q : Quality) (l25 : MacAddr) (iface : Meshif) (best : MacAddr → Option Best)

/-- The node is `host`, or has captured something for it that is no worse. -/
def Claims (host : MacAddr) (seq : UInt32) (metric : Metric) : Prop :=
  l25 = host ∨ ∃ h, best host = some h ∧ q.of host seq metric ≤ h.quality

/-- A plain message, or a RREQ or RREP whose number and metric the node may claim. -/
inductive Backed (msg : DessertMsg) : Prop
  | plain (h : msg.Plain)
  | rreq (r : AodvMsgRreq) (he : msg.exts = [.rreq r])
      (h : Claims q l25 best msg.l25Shost r.originatorSequenceNumber msg.u16)
  | rrep (r : AodvMsgRrep) (he : msg.exts = [.rrep r])
      (h : Claims q l25 best msg.l25Shost r.destinationSequenceNumber msg.u16)

def Sent.Backed : Sent → Prop
  | .mesh msg (some i) => i = iface ∧ DesAodv.Backed q l25 best msg
  | .mesh msg none => DesAodv.Backed q l25 best msg
  | .sys _ => True

/-- The entry for another host is over the interface and the hop of the best capture, and no better. -/
structure Anchored (host : MacAddr) (e : RtEntry) : Prop where
  iface : e.outputIface = some iface
  foreign : l25 ≠ host
  best : ∃ h, best host = some h ∧ q.of host e.sequenceNumber e.metric ≤ h.quality ∧ e.nextHop = h.via

/-- A daemon on one interface whose entries are anchored. -/
structure Held (n : Node) : Prop where
  l25Defsrc : n.l25Defsrc = l25
  meshiflist : n.meshiflist = [iface]
  wf : n.rt.WF
  stored : n.Stored
  anchored : ∀ host e, n.rt.find host = some e → e.flags.nextHopUnknown = false →
    Anchored q l25 iface best host e

variable {q l25 iface best}

theorem Claims.mono {best' : MacAddr → Option Best} (hb : BestLe best best') {host : MacAddr} {seq : UInt32}
    {metric : Metric} (h : Claims q l25 best host seq metric) : Claims q l25 best' host seq metric := by
  rcases h with h | ⟨b, hh, hle⟩
  · exact .inl h
  · obtain ⟨b', hh', hor⟩ := hb host b hh
    refine .inr ⟨b', hh', ?_⟩
    rcases hor with rfl | hlt
    · exact hle
    · exact Nat.le_trans hle (Nat.le_of_lt hlt)

theorem Backed.mono {best' : MacAddr → Option Best} (hb : BestLe best best') {msg : DessertMsg}
    (h : Backed q l25 best msg) : Backed q l25 best' msg := by
  cases h with
  | plain h => exact .plain h
  | rreq r he h => exact .rreq r he (h.mono hb)
  | rrep r he h => exact .rrep r he (h.mono hb)

theorem Backed.congr {msg msg' : DessertMsg} (h : Backed q l25 best msg) (he : msg'.exts = msg.exts)
    (hs : msg'.l25Shost = msg.l25Shost) (hu : msg'.u16 = msg.u16) : Backed q l25 best msg' := by
  cases h with
  | plain h => exact .plain (h.congr he)
  | rreq r hr h => exact .rreq r (he.trans hr) (by rw [hs, hu]; exact h)
  | rrep r hr h => exact .rrep r (he.trans hr) (by rw [hs, hu]; exact h)

theorem Sent.Plain.backed {s : Sent} (h : s.Plain iface) : s.Backed q l25 iface best := by
  match s, h with
  | .mesh msg (some i), h => exact ⟨h.1, .plain h.2⟩
  | .mesh msg none, h => exact .plain h
  | .sys _, _ => trivial

theorem Sent.Own.backed {s : Sent} (h : s.Own l25) : s.Backed q l25 iface best := by
  obtain ⟨msg, rfl, hl, rreq, he⟩ := h
  exact .rreq rreq he (.inl hl.symm)

theorem Anchored.weaker {host : MacAddr} {e e' : RtEntry} (h : Anchored q l25 iface best host e)
    (hw : e.Weaker e') : Anchored q l25 iface best host e' := by
  refine ⟨hw.outputIface.trans h.iface, h.foreign, ?_⟩
  rw [hw.sequenceNumber, hw.metric, hw.nextHop]
  exact h.best

theorem Held.routedOver {n : Node} (h : Held q l25 iface best n) : n.RoutedOver iface :=
  fun host e he hk => (h.anchored host e he hk).iface

theorem Held.quiet {n n' : Node} (h : Held q l25 iface best n) (hq : n.Quiet n') (hs : n'.Stored) :
    Held q l25 iface best n' where
  l25Defsrc := hq.l25Defsrc.trans h.l25Defsrc
  meshiflist := hq.meshiflist.trans h.meshiflist
  wf := hq.rt.wf h.wf
  stored := hs
  anchored := by
    intro host e' he' hk
    obtain ⟨e, he, hw⟩ := (hq.rt.shrinks h.wf).entry host e' he'
    exact (h.anchored host e he (hw.unknown ▸ hk)).weaker hw

theorem Capture.InOrder.anchored {c : Capture} (ho : c.InOrder q best) (time : Nat) (hf : l25 ≠ c.host)
    {y : RtEntry} (hi : y.outputIface = some iface) (hm : y.metric = c.metric) (hn : y.nextHop = c.via)
    (hs : y.sequenceNumber = 0 ∨ y.sequenceNumber = c.number) :
    Anchored q l25 iface (c.next q best time) c.host y := by
  obtain ⟨h, hh, hle, hv, -⟩ := ho.next time
  refine ⟨hi, hf, h, hh, ?_, hn.trans hv⟩
  rw [hm]
  rcases hs with hs | hs
  · rw [hs]
    exact Nat.le_trans (q.zero_le c.host c.number c.metric) hle
  · rw [hs]
    exact hle

/-- A capture into a table that has grown: the other entries are old ones, or not in use. -/
theorem Held.wrote {n : Node} (h : Held q l25 iface best n) {best' : MacAddr → Option Best} (host : MacAddr)
    (hb : ∀ k, k ≠ host → best' k = best k) {mid rt' : Rt} (hg : Rt.Grows n.rt mid) {y : RtEntry}
    (hw : Rt.Wrote mid host y rt') (hy : y.flags.nextHopUnknown = false → Anchored q l25 iface best' host y)
    (k : MacAddr) (e : RtEntry) (he : rt'.find k = some e) (hk : e.flags.nextHopUnknown = false) :
    Anchored q l25 iface best' k e := by
  rw [hw.find] at he
  by_cases hkh : k = host
  · rw [if_pos hkh] at he
    obtain rfl := Option.some.inj he
    exact hkh ▸ hy hk
  · rw [if_neg hkh] at he
    have ha := h.anchored k e (hg.known he hk) hk
    refine ⟨ha.iface, ha.foreign, ?_⟩
    rw [hb k hkh]
    exact ha.best

end

end DesAodv
