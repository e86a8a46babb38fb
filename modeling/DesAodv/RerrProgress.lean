import Mathlib.Algebra.BigOperators.Group.Finset.Basic
import Mathlib.Algebra.Order.BigOperators.Group.Finset
import Mathlib.Data.Fintype.Basic
import DesAodv.RerrReception

/-!
# Progress of route errors

A RERR is rebroadcast if one of its records hits an entry, whether that entry is
still valid or not. As long as every RERR that hits anything hits a valid entry,
each rebroadcast costs some node a valid route.
-/

namespace DesAodv

namespace Node

/-! ## Valid routes -/

def validHosts (n : Node) : Finset MacAddr := ((n.rt.entries.filter RtEntry.valid).map RtEntry.addr).toFinset

theorem mem_validHosts {n : Node} (hw : n.rt.WF) {host : MacAddr} :
    host ∈ n.validHosts ↔ ∃ e, n.rt.find host = some e ∧ e.valid = true := by
  simp only [validHosts, List.mem_toFinset, List.mem_map, List.mem_filter]
  constructor
  · intro h
    obtain ⟨e, ⟨he, hv⟩, ha⟩ := h
    exact ⟨e, hw.find_iff.mpr ⟨he, ha⟩, hv⟩
  · intro h
    obtain ⟨e, he, hv⟩ := h
    obtain ⟨hm, ha⟩ := hw.find_iff.mp he
    exact ⟨e, ⟨hm, hv⟩, ha⟩

theorem mem_validHosts_iff {n : Node} (hw : n.rt.WF) {host : MacAddr} :
    host ∈ n.validHosts ↔ n.routeTo host ≠ none := by
  rw [mem_validHosts hw, ne_eq, routeTo_eq_none]
  constructor
  · intro hx hno
    obtain ⟨e, he, hv⟩ := hx
    rw [hno e he] at hv
    cases hv
  · intro h
    apply Classical.byContradiction
    intro hno
    apply h
    intro e he
    cases hv : e.valid with
    | false => rfl
    | true => exact absurd ⟨e, he, hv⟩ hno

/-! ## What is hit -/

/-- Some record of the RERR hits the entry of `host`. -/
def Hits (n : Node) (msg : DessertMsg) (host : MacAddr) : Prop :=
  ∃ rerr e, msg.getRerr = some rerr ∧ n.rt.find host = some e ∧ anyHit rerr msg.records host e = true

/-- The RERR is sent on. -/
def Rebroadcasts (n : Node) (env : RxEnv) (msg : DessertMsg) : Prop := (n.aodvHandleRerr env msg).2.1 ≠ []

instance (n : Node) (env : RxEnv) (msg : DessertMsg) : Decidable (n.Rebroadcasts env msg) :=
  inferInstanceAs (Decidable (_ ≠ _))

/-- The RERR is sent on only if it costs a valid route. -/
def Progresses (n : Node) (env : RxEnv) (msg : DessertMsg) : Prop :=
  n.Rebroadcasts env msg → ∃ host, n.routeTo host ≠ none ∧ (n.aodvHandleRerr env msg).1.routeTo host = none

/-- A RERR that hits any entry hits a valid one. -/
def HitsValid (n : Node) (msg : DessertMsg) : Prop :=
  (∃ host, n.Hits msg host) → ∃ host, n.Hits msg host ∧ n.routeTo host ≠ none

section
variable {n : Node} (hw : n.rt.WF) (env : RxEnv) (msg : DessertMsg)
include hw

theorem rebroadcasts_iff : n.Rebroadcasts env msg ↔ ∃ host, n.Hits msg host := by
  cases hr : msg.getRerr with
  | none =>
    have hno : (n.aodvHandleRerr env msg).2.1 = [] := by simp only [aodvHandleRerr, hr]
    apply iff_of_false
    · exact fun h => h hno
    · intro hx
      obtain ⟨host, rerr, e, hr', -⟩ := hx
      rw [hr] at hr'
      cases hr'
  | some rerr =>
    have hflag := (rerrRecords_marked rerr msg.records (n.rt, false) hw).flag
    have hsent : n.Rebroadcasts env msg ↔ (msg.records.foldl (rerrRecord rerr) (n.rt, false)).2 = true := by
      unfold Rebroadcasts
      simp only [aodvHandleRerr, hr]
      split
      · rename_i hb
        exact iff_of_true (List.cons_ne_nil _ _) hb
      · rename_i hb
        exact iff_of_false (fun h => h rfl) hb
    rw [hsent, hflag]
    constructor
    · intro hx
      rcases hx with hb | ⟨host, e, he, hh⟩
      · cases hb
      · exact ⟨host, rerr, e, hr, he, hh⟩
    · intro hx
      obtain ⟨host, rerr', e, hr', he, hh⟩ := hx
      rw [hr] at hr'
      cases hr'
      exact .inr ⟨host, e, he, hh⟩

theorem handleRerr_find (host : MacAddr) :
    (n.aodvHandleRerr env msg).1.rt.find host = n.rt.find host ∧ ¬ n.Hits msg host ∨
      (n.aodvHandleRerr env msg).1.rt.find host = (n.rt.find host).map RtEntry.markInvalid ∧ n.Hits msg host := by
  cases hr : msg.getRerr with
  | none =>
    have hn : n.aodvHandleRerr env msg = (n, [], .keep) := by simp only [aodvHandleRerr, hr]
    rw [hn]
    refine .inl ⟨rfl, ?_⟩
    intro h
    obtain ⟨rerr, e, hr', -⟩ := h
    rw [hr] at hr'
    cases hr'
  | some rerr =>
    have hf := (rerrRecords_marked rerr msg.records (n.rt, false) hw).find host
    rw [← handleRerr_rt n env hr] at hf
    cases he : n.rt.find host with
    | none =>
      rw [he] at hf
      refine .inl ⟨hf, ?_⟩
      intro h
      obtain ⟨rerr', e, -, he', -⟩ := h
      rw [he] at he'
      cases he'
    | some e =>
      rw [he, Option.map_some] at hf
      by_cases hh : anyHit rerr msg.records host e = true
      · rw [if_pos hh] at hf
        exact .inr ⟨hf, rerr, e, hr, he, hh⟩
      · rw [if_neg hh] at hf
        refine .inl ⟨hf, ?_⟩
        intro h
        obtain ⟨rerr', e', hr', he', hh'⟩ := h
        rw [hr] at hr'
        rw [he] at he'
        cases hr'
        cases he'
        exact hh hh'

theorem handleRerr_wf : (n.aodvHandleRerr env msg).1.rt.WF := (handleRerr_quiet n env msg).rt.wf hw

theorem hits_again (host : MacAddr) : (n.aodvHandleRerr env msg).1.Hits msg host ↔ n.Hits msg host := by
  rcases handleRerr_find hw env msg host with ⟨hf, -⟩ | ⟨hf, hh⟩
  · unfold Hits
    rw [hf]
  · refine iff_of_true ?_ hh
    obtain ⟨rerr, e, hr, he, hm⟩ := hh
    rw [he] at hf
    exact ⟨rerr, e.markInvalid, hr, hf, hm⟩

theorem validHosts_handleRerr (host : MacAddr) :
    host ∈ (n.aodvHandleRerr env msg).1.validHosts ↔ host ∈ n.validHosts ∧ ¬ n.Hits msg host := by
  rw [mem_validHosts (handleRerr_wf hw env msg), mem_validHosts hw]
  rcases handleRerr_find hw env msg host with ⟨hf, hh⟩ | ⟨hf, hh⟩
  · rw [hf]
    exact ⟨fun h => ⟨h, hh⟩, And.left⟩
  · apply iff_of_false
    · intro hx
      obtain ⟨e', he', hv⟩ := hx
      rw [hf] at he'
      obtain ⟨e, -, rfl⟩ := Option.map_eq_some_iff.mp he'
      simp [RtEntry.valid, RtEntry.markInvalid] at hv
    · exact fun h => h.2 hh

theorem progresses_iff : n.Progresses env msg ↔ n.HitsValid msg := by
  unfold Progresses HitsValid
  rw [rebroadcasts_iff hw env msg]
  apply imp_congr_right
  intro _
  apply exists_congr
  intro host
  have hv := validHosts_handleRerr hw env msg host
  rw [mem_validHosts_iff (handleRerr_wf hw env msg), mem_validHosts_iff hw] at hv
  constructor
  · intro h
    obtain ⟨hb, ha⟩ := h
    refine ⟨?_, hb⟩
    apply Classical.byContradiction
    intro hno
    exact hv.mpr ⟨hb, hno⟩ ha
  · intro h
    obtain ⟨hh, hb⟩ := h
    refine ⟨hb, ?_⟩
    apply Classical.byContradiction
    intro hno
    exact (hv.mp hno).2 hh

theorem validHosts_mono : (n.aodvHandleRerr env msg).1.validHosts ⊆ n.validHosts := by
  intro host h
  exact ((validHosts_handleRerr hw env msg host).mp h).1

theorem validHosts_lt (hp : n.HitsValid msg) (hb : n.Rebroadcasts env msg) :
    (n.aodvHandleRerr env msg).1.validHosts.card < n.validHosts.card := by
  obtain ⟨host, hh, hv⟩ := hp ((rebroadcasts_iff hw env msg).mp hb)
  apply Finset.card_lt_card
  rw [Finset.ssubset_iff_of_subset (validHosts_mono hw env msg)]
  refine ⟨host, (mem_validHosts_iff hw).mpr hv, ?_⟩
  rw [validHosts_handleRerr hw env msg host]
  exact fun h => h.2 hh

end

end Node

/-! ## RERRs in a network -/

/-- A RERR arrives at a node. -/
structure RerrArrival (N : Type) where
  node : N
  env : RxEnv
  msg : DessertMsg

section
variable {N : Type} [DecidableEq N]

def receiveRerr (nodes : N → Node) (a : RerrArrival N) : N → Node :=
  Function.update nodes a.node ((nodes a.node).aodvHandleRerr a.env a.msg).1

/-- How often RERRs are sent on. -/
def rebroadcastCount : (N → Node) → List (RerrArrival N) → Nat
  | _, [] => 0
  | nodes, a :: as =>
    (if (nodes a.node).Rebroadcasts a.env a.msg then 1 else 0) + rebroadcastCount (receiveRerr nodes a) as

/-- The valid routes of all nodes. -/
def validRoutes [Fintype N] (nodes : N → Node) : Nat := ∑ i, (nodes i).validHosts.card

theorem receiveRerr_wf {nodes : N → Node} (hw : ∀ i, (nodes i).rt.WF) (a : RerrArrival N) (i : N) :
    (receiveRerr nodes a i).rt.WF := by
  unfold receiveRerr
  by_cases hi : i = a.node
  · rw [hi, Function.update_self]
    exact Node.handleRerr_wf (hw a.node) a.env a.msg
  · rw [Function.update_of_ne hi]
    exact hw i

variable [Fintype N]

theorem validRoutes_receiveRerr {nodes : N → Node} (hw : ∀ i, (nodes i).rt.WF) (a : RerrArrival N)
    (hp : (nodes a.node).HitsValid a.msg) :
    (if (nodes a.node).Rebroadcasts a.env a.msg then 1 else 0) + validRoutes (receiveRerr nodes a) ≤
      validRoutes nodes := by
  have hle : ∀ i, (receiveRerr nodes a i).validHosts.card ≤ (nodes i).validHosts.card := by
    intro i
    unfold receiveRerr
    by_cases hi : i = a.node
    · rw [hi, Function.update_self]
      exact Finset.card_le_card (Node.validHosts_mono (hw a.node) a.env a.msg)
    · rw [Function.update_of_ne hi]
  by_cases hb : (nodes a.node).Rebroadcasts a.env a.msg
  · rw [if_pos hb, Nat.add_comm]
    apply Nat.succ_le_of_lt
    apply Finset.sum_lt_sum (fun i _ => hle i)
    refine ⟨a.node, Finset.mem_univ _, ?_⟩
    have hlt := Node.validHosts_lt (hw a.node) a.env a.msg hp hb
    simpa only [receiveRerr, Function.update_self] using hlt
  · rw [if_neg hb, Nat.zero_add]
    exact Finset.sum_le_sum fun i _ => hle i

/-- As long as every RERR that hits anything hits a valid entry, there are no more rebroadcasts than
valid routes. -/
theorem rebroadcastCount_le {nodes : N → Node} (hw : ∀ i, (nodes i).rt.WF) {as : List (RerrArrival N)}
    (h : Runs.Always receiveRerr (fun nodes a => (nodes a.node).HitsValid a.msg) nodes as) :
    rebroadcastCount nodes as ≤ validRoutes nodes := by
  induction as generalizing nodes with
  | nil => exact Nat.zero_le _
  | cons a as ih =>
    have hstep := validRoutes_receiveRerr hw a h.1
    have hrest := ih (receiveRerr_wf hw a) h.2
    simp only [rebroadcastCount]
    omega

/-- A RERR is sent on only at the cost of a valid route exactly if it hits a valid entry or nothing. Then
it does not circulate. A RERR that is handled twice is sent on twice, unless it hits nothing. -/
theorem rerr_progress (L : Libdessert) {nodes : N → Node} (hn : ∀ i, Node.Reachable L (nodes i))
    (as : List (RerrArrival N)) :
    (Runs.Always receiveRerr (fun nodes a => (nodes a.node).Progresses a.env a.msg) nodes as ↔
        Runs.Always receiveRerr (fun nodes a => (nodes a.node).HitsValid a.msg) nodes as) ∧
      (Runs.Always receiveRerr (fun nodes a => (nodes a.node).HitsValid a.msg) nodes as →
        rebroadcastCount nodes as ≤ validRoutes nodes) ∧
      ∀ i env env' msg, ¬ ((nodes i).aodvHandleRerr env msg).1.Rebroadcasts env' msg ↔
        ¬ ∃ host, (nodes i).Hits msg host := by
  have hw : ∀ i, (nodes i).rt.WF := fun i => (hn i).wf
  refine ⟨?_, rebroadcastCount_le hw, ?_⟩
  · apply Runs.always_congr_while (J := fun nodes => ∀ i, (nodes i).rt.WF) (G := fun _ => True)
    · exact fun nodes a h => receiveRerr_wf h a
    · exact fun _ _ _ => trivial
    · exact fun nodes a h _ => Node.progresses_iff (h a.node) a.env a.msg
    · exact hw
    · trivial
  · intro i env env' msg
    rw [Node.rebroadcasts_iff (Node.handleRerr_wf (hw i) env msg) env' msg]
    apply not_congr
    apply exists_congr
    exact fun host => Node.hits_again (hw i) env msg host

end

/-! ## Two nodes that route over each other -/

/-- A node whose route to 9 leads over `nextHop`. -/
def routedOver (l25 : MacAddr) (iface : Meshif) (nextHop : MacAddr) : Node :=
  (aodvDbInit {} l25 [iface]).step roomy (.mesh .handleRrep (rxAt 0) (rrepFrom 9 l25 nextHop 4 0))

def leftNode : Node := routedOver 7 { ifindex := 1, hwaddr := 0x10 } 0x20
def rightNode : Node := routedOver 8 { ifindex := 1, hwaddr := 0x20 } 0x10

/-- The RERR of the node with interface `addr`: 9 is gone. -/
def rerrOf (addr : MacAddr) : DessertMsg :=
  { dessertMsgNew with
    ttl := ttlMax
    exts := [.rerr { flagN := true, ifaceAddrCount := 1, ifaces := [addr] },
      .rerrdl [{ host := 9, sequenceNumber := 4 }]] }

/-- The first RERR costs the left node its route. -/
theorem rerr_progress_left :
    rebroadcastCount (fun _ : Unit => leftNode) [{ node := (), env := rxAt 1, msg := rerrOf 0x20 }] ≤
        validRoutes (fun _ : Unit => leftNode) ∧
      rebroadcastCount (fun _ : Unit => leftNode) [{ node := (), env := rxAt 1, msg := rerrOf 0x20 }] = 1 := by
  have hn : ∀ i : Unit, Node.Reachable roomy ((fun _ => leftNode) i) := fun _ =>
    ⟨{}, 7, [{ ifindex := 1, hwaddr := 0x10 }], [.mesh .handleRrep (rxAt 0) (rrepFrom 9 7 0x20 4 0)], rfl⟩
  refine ⟨(rerr_progress roomy hn [{ node := (), env := rxAt 1, msg := rerrOf 0x20 }]).2.1 ⟨?_, trivial⟩,
    by decide⟩
  intro _
  refine ⟨9, ⟨{ flagN := true, ifaceAddrCount := 1, ifaces := [0x20] }, (leftNode.rt.find 9).get (by decide),
    rfl, (Option.some_get _).symm, by decide⟩, by decide⟩

/-- Once both routes are invalid, the RERR goes back and forth and changes nothing. -/
theorem rerr_circulates :
    let left := (leftNode.aodvHandleRerr (rxAt 1) (rerrOf 0x20)).1
    let right := (rightNode.aodvHandleRerr (rxAt 1) (rerrOf 0x10)).1
    left.validHosts = ∅ ∧ right.validHosts = ∅ ∧
      left.aodvHandleRerr (rxAt 2) (rerrOf 0x20) = (left, [.mesh (rerrOf 0x10) none], .drop) ∧
      right.aodvHandleRerr (rxAt 2) (rerrOf 0x10) = (right, [.mesh (rerrOf 0x20) none], .drop) ∧
      ¬ left.Progresses (rxAt 2) (rerrOf 0x20) := by
  intro left right
  have hleft : Node.Reachable roomy leftNode :=
    ⟨{}, 7, [{ ifindex := 1, hwaddr := 0x10 }], [.mesh .handleRrep (rxAt 0) (rrepFrom 9 7 0x20 4 0)], rfl⟩
  have hw : left.rt.WF := Node.handleRerr_wf hleft.wf (rxAt 1) (rerrOf 0x20)
  have hempty : left.validHosts = ∅ := by decide
  have hsent : left.Rebroadcasts (rxAt 2) (rerrOf 0x20) := by decide
  refine ⟨hempty, by decide, by decide, by decide, ?_⟩
  intro hp
  obtain ⟨host, hv, -⟩ := hp hsent
  have hmem := (Node.mem_validHosts_iff hw).mpr hv
  rw [hempty] at hmem
  cases hmem

end DesAodv
