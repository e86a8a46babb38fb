import DesAodv.ReverseRoute

/-!
# The ttl of messages that are sent on

Four handlers send a received message on. Two of them do not look at the ttl
before they count it down: a HELLO with ttl 0 comes out with ttl 255, and a RREP
with ttl 0 with ttl 0.
-/

namespace DesAodv

def Sent.onMesh : Sent → Option DessertMsg
  | .mesh msg _ => some msg
  | .sys _ => none

/-- The handlers that send on what they have received. -/
inductive Relay
  | handleHello | handleRrep | forward | forwardBroadcast
  deriving DecidableEq, Repr

/-- A reception by one of them. -/
structure Hop where
  node : Node
  relay : Relay
  env : RxEnv
  msg : DessertMsg
  deriving DecidableEq

namespace Hop

section
variable (L : Libdessert)

def sent (hop : Hop) : List DessertMsg :=
  match hop.relay with
  | .handleHello => (hop.node.aodvHandleHello hop.env hop.msg).2.1.filterMap Sent.onMesh
  | .handleRrep => (hop.node.aodvHandleRrep hop.env hop.msg).2.1.filterMap Sent.onMesh
  | .forward => (hop.node.aodvForward L hop.env hop.msg).2.1.filterMap Sent.onMesh
  | .forwardBroadcast => (hop.node.aodvForwardBroadcast hop.env hop.msg).2.1.filterMap Sent.onMesh

/-- What is sent is not the received message: the packets that have waited for the RREP, or the RERR for
a packet without a route. -/
def sendsOther (hop : Hop) : Bool :=
  match hop.relay with
  | .handleRrep => hop.env.lflags.l25Dst
  | .forward => (hop.node.routeTo hop.msg.l25Dhost).isNone
  | _ => false

/-- The received message as it is sent on. -/
def resent (hop : Hop) : List DessertMsg := if hop.sendsOther then [] else hop.sent L

/-- What is sent on had a ttl and has one less. -/
def CountsDown (hop : Hop) : Prop :=
  ∀ m ∈ hop.resent L, 1 ≤ hop.msg.ttl.toNat ∧ m.ttl.toNat = hop.msg.ttl.toNat - 1

end

/-- The RREP is used, is for another node and has a route to go on. -/
def ForwardsRrep (hop : Hop) : Prop :=
  ∃ rrep ∈ hop.msg.getRrep, hop.env.lflags.l2Dst = true ∧ hop.env.lflags.l25Dst = false ∧
    let msg := hop.node.countHop hop.env hop.msg
    let r := hop.node.captRrep msg.l25Shost msg.l2Shost hop.env.iface rrep.destinationSequenceNumber msg.u16 msg.u8
      hop.env.now hop.env.now
    r.2 = true ∧ r.1.routeTo msg.l25Dhost ≠ none

/-- A message without ttl that its handler sends on all the same. -/
def WornOut (hop : Hop) : Prop :=
  hop.msg.ttl = 0 ∧
    match hop.relay with
    | .handleHello => hop.msg.getHello ≠ none
    | .handleRrep => hop.ForwardsRrep
    | _ => False

/-! ## One handler -/

theorem toNat_pred {ttl : UInt8} (h : ttl ≠ 0) : 1 ≤ ttl.toNat ∧ (ttl - 1).toNat = ttl.toNat - 1 := by
  have hpos : 1 ≤ ttl.toNat := by
    apply Nat.one_le_iff_ne_zero.mpr
    exact fun h0 => h (UInt8.toNat_inj.mp h0)
  refine ⟨hpos, ?_⟩
  exact UInt8.toNat_sub_of_le ttl 1 (UInt8.le_iff_toNat_le.mpr hpos)

section
variable {L : Libdessert} {n : Node} {env : RxEnv} {msg : DessertMsg}

theorem countsDown_iff_of {hop : Hop} {P : Prop}
    (hdec : hop.msg.ttl ≠ 0 → ∀ m ∈ hop.resent L, m.ttl = hop.msg.ttl - 1)
    (hzero : hop.msg.ttl = 0 → (hop.resent L ≠ [] ↔ P)) : hop.CountsDown L ↔ ¬ (hop.msg.ttl = 0 ∧ P) := by
  by_cases h0 : hop.msg.ttl = 0
  · rw [and_iff_right h0, ← hzero h0, not_not]
    constructor
    · intro h
      apply List.eq_nil_iff_forall_not_mem.mpr
      intro m hm
      have hpos := (h m hm).1
      rw [h0] at hpos
      exact absurd hpos (by decide)
    · intro h m hm
      rw [h] at hm
      cases hm
  · apply iff_of_true ?_ (fun h => h0 h.1)
    intro m hm
    rw [hdec h0 m hm]
    exact toNat_pred h0

theorem handleHello_resent : resent L ⟨n, .handleHello, env, msg⟩ =
    (n.aodvHandleHello env msg).2.1.filterMap Sent.onMesh := rfl

theorem handleHello_countsDown :
    CountsDown L ⟨n, .handleHello, env, msg⟩ ↔ ¬ WornOut ⟨n, .handleHello, env, msg⟩ := by
  apply countsDown_iff_of
  · intro _ m hm
    rw [handleHello_resent] at hm
    unfold Node.aodvHandleHello at hm
    split at hm
    · cases hm
    · simp only at hm
      split at hm
      · rw [List.mem_singleton.mp hm]
        rfl
      · split at hm <;> cases hm
  · intro h0
    rw [handleHello_resent]
    simp only at h0
    have h255 : (0 : UInt8) - 1 ≥ 1 := by decide
    unfold Node.aodvHandleHello
    cases hh : msg.getHello with
    | none => simp
    | some hello =>
      simp only [h0]
      rw [if_pos h255]
      exact iff_of_true (List.cons_ne_nil _ _) (Option.some_ne_none hello)

theorem handleRrep_resent : resent L ⟨n, .handleRrep, env, msg⟩ =
    if env.lflags.l25Dst then [] else (n.aodvHandleRrep env msg).2.1.filterMap Sent.onMesh := rfl

theorem handleRrep_passing (hd : env.lflags.l25Dst = false) :
    (¬ ForwardsRrep ⟨n, .handleRrep, env, msg⟩ ∧ (n.aodvHandleRrep env msg).2.1 = []) ∨
      (ForwardsRrep ⟨n, .handleRrep, env, msg⟩ ∧ ∃ nextHop outputIface,
        (n.aodvHandleRrep env msg).2.1 = [.mesh { n.countHop env msg with l2Dhost := nextHop } outputIface]) := by
  cases hr : msg.getRrep with
  | none =>
    left
    refine ⟨?_, ?_⟩
    · intro hx
      obtain ⟨rrep, hr', -⟩ := hx
      simp [hr] at hr'
    · simp only [Node.aodvHandleRrep, hr]
  | some rrep =>
    have hforwards : ForwardsRrep ⟨n, .handleRrep, env, msg⟩ ↔ env.lflags.l2Dst = true ∧
        (n.captRrep (n.countHop env msg).l25Shost (n.countHop env msg).l2Shost env.iface
          rrep.destinationSequenceNumber (n.countHop env msg).u16 (n.countHop env msg).u8 env.now env.now).2 = true ∧
        (n.captRrep (n.countHop env msg).l25Shost (n.countHop env msg).l2Shost env.iface
          rrep.destinationSequenceNumber (n.countHop env msg).u16 (n.countHop env msg).u8 env.now
          env.now).1.routeTo (n.countHop env msg).l25Dhost ≠ none := by
      constructor
      · intro hx
        obtain ⟨rrep', hr', hl2, -, hused, hroute⟩ := hx
        obtain rfl := Option.some.inj (hr.symm.trans hr')
        exact ⟨hl2, hused, hroute⟩
      · intro hx
        obtain ⟨hl2, hused, hroute⟩ := hx
        exact ⟨rrep, hr, hl2, hd, hused, hroute⟩
    rw [hforwards]
    cases hl2 : env.lflags.l2Dst with
    | false =>
      left
      exact ⟨fun h => Bool.false_ne_true h.1, by simp only [Node.aodvHandleRrep, hr, hl2, Bool.not_false, if_true]⟩
    | true =>
      simp only [Node.aodvHandleRrep, hr, hl2, hd, Bool.not_true, Bool.false_eq_true, if_false]
      generalize n.captRrep (n.countHop env msg).l25Shost (n.countHop env msg).l2Shost env.iface
        rrep.destinationSequenceNumber (n.countHop env msg).u16 (n.countHop env msg).u8 env.now env.now = r
      cases hused : r.2 with
      | false =>
        left
        simp
      | true =>
        simp only [Bool.not_true, Bool.false_eq_true, if_false, true_and]
        have hroute := Node.getroute2dest_snd r.1 (n.countHop env msg).l25Dhost env.now env.now aodvFlagsUnused
        split
        · rename_i n' hn
          rw [hn] at hroute
          left
          exact ⟨fun h => h hroute.symm, rfl⟩
        · rename_i n' nextHop outputIface hn
          rw [hn] at hroute
          right
          refine ⟨?_, nextHop, outputIface, rfl⟩
          rw [← hroute]
          exact Option.some_ne_none _

theorem handleRrep_countsDown :
    CountsDown L ⟨n, .handleRrep, env, msg⟩ ↔ ¬ WornOut ⟨n, .handleRrep, env, msg⟩ := by
  cases hd : env.lflags.l25Dst with
  | true =>
    apply iff_of_true
    · intro m hm
      rw [handleRrep_resent, hd, if_pos rfl] at hm
      cases hm
    · intro hx
      obtain ⟨-, rrep, -, -, hd', -⟩ := hx
      rw [hd] at hd'
      cases hd'
  | false =>
    have hresent := @handleRrep_resent L n env msg
    rw [hd, if_neg Bool.false_ne_true] at hresent
    apply countsDown_iff_of
    · intro h0 m hm
      rw [hresent] at hm
      rcases @handleRrep_passing n env msg hd with ⟨-, hs⟩ | ⟨-, nextHop, outputIface, hs⟩
      · rw [hs] at hm
        cases hm
      · rw [hs] at hm
        rw [List.mem_singleton.mp hm]
        exact if_pos h0
    · intro _
      rw [hresent]
      rcases @handleRrep_passing n env msg hd with ⟨hf, hs⟩ | ⟨hf, nextHop, outputIface, hs⟩
      · rw [hs]
        exact iff_of_false (fun h => h rfl) hf
      · rw [hs]
        exact iff_of_true (List.cons_ne_nil _ _) hf

theorem forward_countsDown :
    CountsDown L ⟨n, .forward, env, msg⟩ ↔ ¬ WornOut ⟨n, .forward, env, msg⟩ := by
  have hresent : resent L ⟨n, .forward, env, msg⟩ =
      if (n.routeTo msg.l25Dhost).isNone then [] else (n.aodvForward L env msg).2.1.filterMap Sent.onMesh := rfl
  apply countsDown_iff_of
  · intro _ m hm
    rw [hresent] at hm
    split at hm
    · cases hm
    · rename_i hroute
      unfold Node.aodvForward at hm
      split at hm
      · cases hm
      · split at hm
        · cases hm
        · simp only at hm
          split at hm
          · cases hm
          · split at hm
            · rw [List.mem_singleton.mp hm]
            · rename_i n' hn
              have hsame : n.routeTo msg.l25Dhost = none :=
                (Node.getroute2dest_snd _ msg.l25Dhost env.now env.now aodvFlagsUnused).symm.trans
                  (congrArg Prod.snd hn)
              rw [hsame] at hroute
              exact absurd rfl hroute
  · intro h0
    apply iff_of_false ?_ id
    intro hne
    apply hne
    simp only at h0
    rw [hresent]
    split
    · rfl
    · unfold Node.aodvForward
      split
      · rfl
      · rw [if_pos (h0 ▸ UInt8.le_refl 0)]
        rfl

theorem forwardBroadcast_countsDown :
    CountsDown L ⟨n, .forwardBroadcast, env, msg⟩ ↔ ¬ WornOut ⟨n, .forwardBroadcast, env, msg⟩ := by
  have hresent : resent L ⟨n, .forwardBroadcast, env, msg⟩ =
      (n.aodvForwardBroadcast env msg).2.1.filterMap Sent.onMesh := rfl
  apply countsDown_iff_of
  · intro _ m hm
    rw [hresent] at hm
    unfold Node.aodvForwardBroadcast at hm
    split at hm
    · split at hm
      · cases hm
      · simp only at hm
        split at hm
        · cases hm
        · rw [List.mem_singleton.mp hm]
    · cases hm
  · intro h0
    apply iff_of_false ?_ id
    intro hne
    apply hne
    simp only at h0
    rw [hresent]
    unfold Node.aodvForwardBroadcast
    split
    · rw [if_pos (h0 ▸ UInt8.le_refl 0)]
      rfl
    · rfl

end

/-- What a handler sends on has one hop less, unless it had none left and is a HELLO or a RREP. -/
theorem countsDown_iff {L : Libdessert} (hop : Hop) : hop.CountsDown L ↔ ¬ hop.WornOut := by
  obtain ⟨n, relay, env, msg⟩ := hop
  cases relay with
  | handleHello => exact handleHello_countsDown
  | handleRrep => exact handleRrep_countsDown
  | forward => exact forward_countsDown
  | forwardBroadcast => exact forwardBroadcast_countsDown

/-! ## Chains of hops -/

/-- Each hop receives what the hop before it has sent on, the first one `start`. -/
inductive Chain (L : Libdessert) : DessertMsg → List Hop → Prop
  | nil (start : DessertMsg) : Chain L start []
  | cons (hop : Hop) (hops : List Hop) (m : DessertMsg) (l2Shost : MacAddr) (hm : m ∈ hop.resent L)
      (rest : Chain L { m with l2Shost } hops) : Chain L hop.msg (hop :: hops)

theorem chain_length {L : Libdessert} {start : DessertMsg} {hops : List Hop} (h : Chain L start hops) :
    hops.length ≤ start.ttl.toNat ↔ ∀ hop ∈ hops, ¬ hop.WornOut := by
  induction h with
  | nil start => simp
  | cons hop hops m l2Shost hm _ ih =>
    by_cases hw : hop.WornOut
    · have h0 : hop.msg.ttl.toNat = 0 := by rw [hw.1]; rfl
      apply iff_of_false
      · rw [h0, List.length_cons]
        omega
      · exact fun hall => hall hop List.mem_cons_self hw
    · obtain ⟨hpos, hdec⟩ := (countsDown_iff hop).mpr hw m hm
      have hlen : (hop :: hops).length ≤ hop.msg.ttl.toNat ↔ hops.length ≤ m.ttl.toNat := by
        rw [List.length_cons]
        omega
      rw [hlen, List.forall_mem_cons, and_iff_right hw]
      exact ih

/-- A handler counts the ttl of what it sends on down by one, and a chain of hops is no longer than the ttl
it starts with, exactly if no message is worn out. -/
theorem hop_bound (L : Libdessert) {start : DessertMsg} {hops : List Hop} (h : Chain L start hops) :
    (∀ hop : Hop, hop.CountsDown L ↔ ¬ hop.WornOut) ∧
      (hops.length ≤ start.ttl.toNat ↔ ∀ hop ∈ hops, ¬ hop.WornOut) :=
  ⟨countsDown_iff, chain_length h⟩

/-! ## Messages without ttl -/

def floods (l25 : MacAddr) (ttl : UInt8) : Hop :=
  { node := aodvDbInit {} l25 [wlan]
    relay := .forwardBroadcast
    env := { rxAt 0 with lflags := { (rxAt 0).lflags with l25Broadcast := true } }
    msg := { dessertMsgNew with ttl, u8 := 2 - ttl, l2Shost := 0x10, l25Shost := 8, l25Dhost := etherBroadcast } }

theorem hop_bound_flood :
    [floods 6 2, floods 7 1].length ≤ (floods 6 2).msg.ttl.toNat ∧ (floods 7 0).resent roomy = [] := by
  refine ⟨(@hop_bound roomy (floods 6 2).msg _ ?_).2.mpr ?_, by decide⟩
  · apply Chain.cons (floods 6 2) [floods 7 1] { (floods 7 1).msg with l2Shost := 0x10 } 0x10 (by decide)
    apply Chain.cons (floods 7 1) [] { (floods 7 0).msg with l2Shost := 0x10 } 0x10 (by decide)
    exact Chain.nil _
  · intro hop hm hw
    rcases List.mem_pair.mp hm with rfl | rfl
    · exact hw.2
    · exact hw.2

/-- A node with a route to 5 receives a RREP for 5 from 9 whose ttl is 0. -/
def wornOutRrep : Hop :=
  { node := (aodvDbInit {} 7 [wlan]).step roomy (.mesh .handleRreq (rxAt 0) (rreqFrom 5 9 1 1 0))
    relay := .handleRrep
    env := rxAt 1
    msg := { rrepFrom 9 5 2 4 0 with ttl := 0 } }

/-- A HELLO with ttl 0 is received. -/
def wornOutHello : Hop :=
  { node := aodvDbInit {} 7 [wlan]
    relay := .handleHello
    env := rxAt 0
    msg := { dessertMsgNew with l2Shost := 2, exts := [.hello { helloRcvdCount := 0, helloInterval := 1000 }] } }

theorem wornOut_sent_on :
    wornOutRrep.msg.ttl = 0 ∧ (wornOutRrep.resent roomy).map DessertMsg.ttl = [0] ∧
      wornOutHello.msg.ttl = 0 ∧ (wornOutHello.resent roomy).map DessertMsg.ttl = [255] ∧
      Chain roomy wornOutRrep.msg [wornOutRrep] := by
  refine ⟨by decide, by decide, by decide, by decide, ?_⟩
  apply Chain.cons wornOutRrep [] ((wornOutRrep.resent roomy).head (by decide)) 0x10 (List.head_mem _)
  exact Chain.nil _

end Hop

end DesAodv
