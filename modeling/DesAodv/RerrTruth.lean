import DesAodv.IndexAccess
import DesAodv.Sending

/-!
# The destinations in the RERRs of a daemon

A RERR lists destinations that are to be unreachable through its sender. The
RERRs for unroutable packets and lost neighbors do, as long as the index refers
to no entry that is gone. A forwarded RERR keeps the records of the one received,
whether they applied here or not.
-/

namespace DesAodv

/-- The message, if it is a RERR to all neighbors. -/
def Sent.rerr : Sent → Option DessertMsg
  | .mesh msg none => if msg.getRerr.isSome then some msg else none
  | _ => none

theorem Sent.rerr_eq_some {s : Sent} {m : DessertMsg} :
    s.rerr = some m ↔ s = .mesh m none ∧ m.getRerr.isSome = true := by
  cases s with
  | sys msg => simp [rerr]
  | mesh msg iface =>
    cases iface with
    | some i => simp [rerr]
    | none =>
      simp only [rerr, Sent.mesh.injEq, and_true]
      constructor
      · intro h
        split at h
        · rename_i hm
          rw [← Option.some.inj h]
          exact ⟨rfl, hm⟩
        · cases h
      · intro hx
        obtain ⟨rfl, hm⟩ := hx
        rw [if_pos hm]

theorem getRerr_own {l25 : MacAddr} {m : DessertMsg} (h : m.OwnRreq l25) : m.getRerr = none := by
  obtain ⟨-, rreq, he⟩ := h
  simp [DessertMsg.getRerr, he]

section
variable (rerr : AodvMsgRerr)

theorem setRerr_records (msg : DessertMsg) : (msg.setRerr rerr).records = msg.records := by
  refine congrArg List.flatten (DessertMsg.filterMap_setExt (fun e e' hp => ?_) msg.exts)
  cases e with
  | rerr m => cases Option.some.inj hp; exact ⟨rfl, rfl⟩
  | _ => cases hp

theorem setRerr_getRerr {msg : DessertMsg} (hm : msg.getRerr.isSome = true) :
    (msg.setRerr rerr).getRerr = some rerr := by
  refine DessertMsg.findSome?_setExt_self (fun e => ?_) hm
  cases e with
  | rerr m => exact .inr ⟨.rerr rerr, rfl, rfl⟩
  | _ => exact .inl ⟨rfl, rfl⟩

end

namespace Node

section
variable (L : Libdessert)

/-- The RERRs sent by the handlers that make or forward them. -/
def rerrsSent (n : Node) (ev : NodeEvent) : List DessertMsg :=
  match ev with
  | .mesh .forward .. | .mesh .handleRerr .. | .scexecute .. => (n.handle L ev).2.filterMap Sent.rerr
  | _ => []

/-- The event follows no reference to a freed entry, and right after it there is no route to any
destination in the RERRs it has sent. -/
def Truthful (n : Node) (ev : NodeEvent) : Prop :=
  (n.step L ev).rt.fault = false ∧
    ∀ m ∈ n.rerrsSent L ev, ∀ dest ∈ m.records, (n.step L ev).routeTo dest.host = none

instance (n : Node) (ev : NodeEvent) : Decidable (n.Truthful L ev) :=
  inferInstanceAs (Decidable ((n.step L ev).rt.fault = false ∧
    ∀ m ∈ n.rerrsSent L ev, ∀ dest ∈ m.records, (n.step L ev).routeTo dest.host = none))

/-- If one record of a received RERR applies, then so it is for every listed destination with a valid
route: some record invalidates it. -/
def RecordsApply (n : Node) : NodeEvent → Prop
  | .mesh .handleRerr _ msg => ∀ rerr ∈ msg.getRerr,
    (∃ dest ∈ msg.records, ∃ e ∈ n.rt.find dest.host, hit rerr dest e = true) →
      ∀ dest ∈ msg.records, ∀ e ∈ n.rt.find dest.host, e.valid = true → anyHit rerr msg.records dest.host e = true
  | _ => True

variable {L} {n : Node}

/-! ## The RERRs of a lost neighbor -/

theorem scSendOutRerr_records {etherAddr : MacAddr} {now : Timeval} {m : DessertMsg}
    (hs : .mesh m none ∈ (n.scSendOutRerr L etherAddr now).2) {dest : AodvMacSeq} (hd : dest ∈ m.records) :
    n.rerrLimited now = false ∧
      ∃ e ∈ n.rt.entries, e.addr = dest.host ∧ n.rt.listedUnder etherAddr e = true := by
  unfold scSendOutRerr at hs
  simp only at hs
  split at hs
  · cases hs
  rename_i hlim
  refine ⟨decide_eq_false hlim, ?_⟩
  split at hs
  · cases hs
  split at hs
  · cases hs
  rename_i destlist hl
  obtain ⟨m', hm', he⟩ := List.mem_map.mp hs
  obtain rfl := (Sent.mesh.inj he).1
  have hdl := sendRerrs_subset L _ hm' hd
  unfold aodvDbRtGetDestlist at hl
  rw [Rt.invOverNexthop_nht] at hl
  cases hx : nhtFind n.rt.nht etherAddr with
  | none =>
    rw [hx] at hl
    cases hl
  | some x =>
    rw [hx] at hl
    rw [← Option.some.inj hl] at hdl
    obtain ⟨e', he', rfl⟩ := List.mem_map.mp hdl
    obtain ⟨r, hr, hre⟩ := List.mem_filterMap.mp he'
    obtain ⟨d, hdx, rfl⟩ := List.mem_map.mp hr
    have hmem := Keyed.lookup_mem hre
    have hptr := Keyed.lookup_key hre
    rw [Rt.invOverNexthop_entries] at hmem
    obtain ⟨e, hent, rfl⟩ := List.mem_map.mp hmem
    have hp : (n.rt.markListed etherAddr e).ptr = e.ptr := by
      unfold Rt.markListed
      split <;> rfl
    refine ⟨e, hent, (Rt.markListed_addr n.rt etherAddr e).symm, ?_⟩
    simp only [Rt.listedUnder, hx, Option.any_some, List.any_eq_true, decide_eq_true_eq]
    exact ⟨d, hdx, hptr.symm.trans hp⟩

theorem scSendOutRerr_truthful (hw : n.rt.WF) {etherAddr : MacAddr} {now : Timeval} {m : DessertMsg}
    (hs : .mesh m none ∈ (n.scSendOutRerr L etherAddr now).2) {dest : AodvMacSeq} (hd : dest ∈ m.records) :
    (n.scSendOutRerr L etherAddr now).1.routeTo dest.host = none := by
  obtain ⟨hlim, e, he, ha, hl⟩ := scSendOutRerr_records hs hd
  rw [routeTo_eq_none]
  intro e' he'
  rw [find_scSendOutRerr, hlim, if_neg Bool.false_ne_true, hw.find_iff.mpr ⟨he, ha⟩, Option.map_some] at he'
  have hm : n.rt.markListed etherAddr e = e.markInvalid := if_pos hl
  rw [← Option.some.inj he', hm]
  simp [RtEntry.valid, RtEntry.markInvalid]

theorem scexecute_truthful (hw : n.rt.WF) (hst : n.Stored) {now : Timeval} {avgRssi : Int8} {m : DessertMsg}
    (hm : m ∈ n.rerrsSent L (.scexecute now avgRssi)) {dest : AodvMacSeq} (hd : dest ∈ m.records) :
    (n.step L (.scexecute now avgRssi)).routeTo dest.host = none := by
  obtain ⟨s, hs, hr⟩ := List.mem_filterMap.mp hm
  obtain ⟨rfl, hrerr⟩ := Sent.rerr_eq_some.mp hr
  have hown : ∀ {l : MacAddr}, Sent.Own l (.mesh m none) → False := by
    intro l h
    obtain ⟨m', he, ho⟩ := h
    obtain rfl := (Sent.mesh.inj he).1
    rw [getRerr_own ho] at hrerr
    cases hrerr
  cases hh : n.hung with
  | true =>
    simp only [handle, hh, if_true] at hs
    cases hs
  | false =>
    have hsc : n.handle L (.scexecute now avgRssi) = n.aodvPeriodicScexecute L now avgRssi :=
      if_neg (by rw [hh]; exact Bool.false_ne_true)
    cases hp : aodvDbScPopschedule n.st now with
    | none =>
      simp only [hsc, aodvPeriodicScexecute, hp] at hs
      cases hs
    | some r =>
      obtain ⟨sc, st⟩ := r
      have hst' : ({ n with st } : Node).Stored := hst.congr rfl rfl rfl
      cases hid : sc.scheduleId with
      | sendOutRerr =>
        rw [step, step_sendOutRerr hh hp hid]
        rw [step_sendOutRerr hh hp hid] at hs
        exact scSendOutRerr_truthful (n := { n with st }) hw hs hd
      | repeatRreq =>
        simp only [hsc, aodvPeriodicScexecute, hp, hid] at hs
        split at hs
        · exact (hown ((sendRreqReal_stored hst' _ now).2 _ hs)).elim
        · cases hs
      | sendOutRwarn =>
        simp only [hsc, aodvPeriodicScexecute, hp, hid] at hs
        have hst'' : ({ n with
            st, rt := (aodvDbRtGetWarnEndpointsFromNeighborAndSetWarn n.rt sc.etherAddr).1 } : Node).Stored :=
          hst.congr rfl rfl rfl
        exact (hown ((sendRreqs_stored hst'' _ now).2 _ hs)).elim
      | updateRssi =>
        simp only [hsc, aodvPeriodicScexecute, hp, hid] at hs
        split at hs
        · split at hs <;> cases hs
        · cases hs

/-! ## The RERR for an unroutable packet -/

theorem forward_truthful (hw : n.rt.WF) {env : RxEnv} {msg m : DessertMsg}
    (hm : m ∈ n.rerrsSent L (.mesh .forward env msg)) {dest : AodvMacSeq} (hd : dest ∈ m.records) :
    (n.step L (.mesh .forward env msg)).routeTo dest.host = none := by
  obtain ⟨s, hs, hr⟩ := List.mem_filterMap.mp hm
  obtain ⟨rfl, -⟩ := Sent.rerr_eq_some.mp hr
  obtain ⟨hroute, hrt, rest, hc⟩ := forward_rerr L hw hs
  have hrec := addRerrdls_records L 1 n.rerrHeader [{ host := msg.l25Dhost, sequenceNumber := uint32Max }]
  have hc' : addRerrdls L 1 n.rerrHeader [{ host := msg.l25Dhost, sequenceNumber := uint32Max }] = (m, rest) :=
    Option.some.inj hc
  rw [hc', rerrHeader_records, List.nil_append] at hrec
  have hd' := List.mem_append_left rest hd
  rw [hrec] at hd'
  rw [List.mem_singleton.mp hd', routeTo_eq_none]
  intro e he
  have he' : n.rt.find msg.l25Dhost = some e := hrt ▸ he
  exact routeTo_eq_none.mp hroute e he'

/-! ## Forwarded RERRs -/

theorem rerrsSent_handleRerr (env : RxEnv) {msg : DessertMsg} {rerr : AodvMsgRerr}
    (hr : msg.getRerr = some rerr) {m : DessertMsg} :
    m ∈ n.rerrsSent L (.mesh .handleRerr env msg) ↔
      (msg.records.foldl (rerrRecord rerr) (n.rt, false)).2 = true ∧
        m = msg.setRerr { rerr with
          ifaceAddrCount := UInt8.ofNat n.ownIfaces.length
          ifaces := n.ownIfaces ++ rerr.ifaces.drop n.ownIfaces.length } := by
  simp only [rerrsSent, handle, callback, aodvHandleRerr, hr, List.mem_filterMap, Sent.rerr_eq_some]
  split
  · rename_i hb
    rw [and_iff_right hb]
    constructor
    · intro hx
      obtain ⟨s, hs, rfl, -⟩ := hx
      exact (Sent.mesh.inj (List.mem_singleton.mp hs)).1
    · intro hx
      obtain rfl := hx
      exact ⟨_, List.mem_singleton_self _, rfl, by rw [setRerr_getRerr _ (by rw [hr]; rfl)]; rfl⟩
  · rename_i hb
    refine iff_of_false ?_ fun h => hb h.1
    intro hx
    obtain ⟨s, hs, -⟩ := hx
    cases hs

theorem handleRerr_truthful_iff (hw : n.rt.WF) (env : RxEnv) (msg : DessertMsg) :
    (∀ m ∈ n.rerrsSent L (.mesh .handleRerr env msg), ∀ dest ∈ m.records,
        (n.step L (.mesh .handleRerr env msg)).routeTo dest.host = none) ↔
      n.RecordsApply (.mesh .handleRerr env msg) := by
  cases hr : msg.getRerr with
  | none =>
    refine iff_of_true (fun m hm => ?_) fun rerr h => ?_
    · simp [rerrsSent, handle, callback, aodvHandleRerr, hr] at hm
    · rw [hr] at h
      cases h
  | some rerr =>
    have hmark := rerrRecords_marked rerr msg.records (n.rt, false) hw
    have hroute : ∀ host, (n.step L (.mesh .handleRerr env msg)).routeTo host = none ↔
        ∀ e ∈ n.rt.find host, e.valid = true → anyHit rerr msg.records host e = true := by
      intro host
      rw [routeTo_eq_none]
      simp only [step, handle, callback]
      rw [handleRerr_rt n env hr, hmark.find]
      cases hf : n.rt.find host with
      | none => simp
      | some e =>
        cases hh : anyHit rerr msg.records host e with
        | true => simp [hh, RtEntry.valid, RtEntry.markInvalid]
        | false => simp [hh]
    have hsent : (∃ m, m ∈ n.rerrsSent L (.mesh .handleRerr env msg)) ↔
        ∃ dest ∈ msg.records, ∃ e ∈ n.rt.find dest.host, hit rerr dest e = true := by
      simp only [rerrsSent_handleRerr env hr, exists_and_left, exists_eq, and_true, hmark.flag]
      constructor
      · intro hx
        rcases hx with h | ⟨h, e, he, hh⟩
        · cases h
        · obtain ⟨dest, hd, hhit⟩ := List.any_eq_true.mp hh
          rw [Bool.and_eq_true, decide_eq_true_eq] at hhit
          obtain ⟨rfl, hhit⟩ := hhit
          exact ⟨dest, hd, e, he, hhit⟩
      · intro hx
        obtain ⟨dest, hd, e, he, hh⟩ := hx
        refine .inr ⟨dest.host, e, he, List.any_eq_true.mpr ⟨dest, hd, ?_⟩⟩
        rw [hh, decide_eq_true rfl]
        rfl
    simp only [hroute, RecordsApply, hr, Option.mem_some_iff, forall_eq']
    rw [← hsent]
    constructor
    · intro h hx dest hd
      obtain ⟨m, hm⟩ := hx
      have hm' := ((rerrsSent_handleRerr env hr).mp hm).2
      apply h m hm dest
      rw [hm', setRerr_records]
      exact hd
    · intro h m hm dest hd
      rw [((rerrsSent_handleRerr env hr).mp hm).2, setRerr_records] at hd
      exact h ⟨m, hm⟩ dest hd

/-! ## Runs -/

/-- In a state without wrong accesses an event is truthful exactly if its accesses are in order and the
records of the RERR it forwards apply. -/
theorem truthful_iff (hn : Reachable L n) (hf : n.rt.fault = false) (ev : NodeEvent) :
    n.Truthful L ev ↔ n.accessOk ev = true ∧ n.RecordsApply ev := by
  have hfault : (n.step L ev).rt.fault = false ↔ n.accessOk ev = true := by
    rw [step_fault L hn.wf, hf, Bool.false_or, Bool.not_eq_false']
  apply and_congr hfault
  have hnone : n.rerrsSent L ev = [] → ((∀ m ∈ n.rerrsSent L ev, ∀ dest ∈ m.records,
      (n.step L ev).routeTo dest.host = none) ↔ True) := by
    intro h
    simp [h]
  cases ev with
  | mesh cb env msg =>
    cases cb with
    | handleRerr => exact handleRerr_truthful_iff hn.wf env msg
    | forward => exact iff_of_true (fun m hm dest hd => forward_truthful hn.wf hm hd) trivial
    | _ => exact hnone rfl
  | scexecute now avgRssi =>
    exact iff_of_true (fun m hm dest hd => scexecute_truthful hn.wf hn.stored hm hd) trivial
  | _ => exact hnone rfl

/-- The RERRs of a run are truthful exactly if no event of the run follows a reference to a freed entry
and every RERR that is forwarded lists no destination with a valid route here but those it invalidates. -/
theorem truthful_run_iff (L : Libdessert) (cfg : Config) (l25Defsrc : MacAddr) (meshiflist : List Meshif)
    (evs : List NodeEvent) :
    Runs.Always (Node.step L) (Truthful L) (aodvDbInit cfg l25Defsrc meshiflist) evs ↔
      Runs.Always (Node.step L) (fun n ev => n.accessOk ev = true ∧ n.RecordsApply ev)
        (aodvDbInit cfg l25Defsrc meshiflist) evs :=
  Runs.always_congr_while (J := Reachable L) (G := fun n => n.rt.fault = false) (fun _ ev h => h.step ev)
    (fun _ _ h => h.1) (fun _ ev hn hf => truthful_iff hn hf ev) ⟨cfg, l25Defsrc, meshiflist, [], rfl⟩ rfl

end

/-- A node with routes to 9 over 1 and to 10 over 2 hears from 1 that both are gone. -/
def rerrForBoth : List NodeEvent :=
  [.mesh .handleRrep (rxAt 0) (rrepFrom 9 8 1 4 0), .mesh .handleRrep (rxAt 0) (rrepFrom 10 8 2 4 0),
    .mesh .handleRerr (rxAt 1)
      { dessertMsgNew with
        exts := [.rerr { flagN := true, ifaceAddrCount := 1, ifaces := [1] },
          .rerrdl [{ host := 9, sequenceNumber := 4 }, { host := 10, sequenceNumber := 4 }]] }]

/-- It passes on that 10 is gone. -/
theorem rerrForBoth_untruthful :
    ¬ Runs.Always (Node.step roomy) (Truthful roomy) (aodvDbInit {} 8 [wlan]) rerrForBoth := by
  decide

end Node

end DesAodv
