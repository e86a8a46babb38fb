import DesAodv.RerrReception

/-!
# What a RERR leaves alone

The loops of `aodv_handle_rerr` over extensions, records and addresses look up
entries and mark them in turn. A mark changes neither the next hop nor the
sequence number of an entry, so the outcome is that of marking at once every
entry the RERR affects, whatever the order of its records and addresses.
-/

namespace DesAodv

/-- Mark the entries that `hits` selects as invalid. -/
def Rt.markAll (hits : RtEntry → Bool) (rt : Rt) : Rt :=
  { rt with entries := rt.entries.map fun e => if hits e then e.markInvalid else e }

namespace Rt

theorem find_markAll (hits : RtEntry → Bool) (rt : Rt) (h : MacAddr) :
    (rt.markAll hits).find h = (rt.find h).map fun e => if hits e then e.markInvalid else e := by
  refine Keyed.lookup_map RtEntry.addr h _ (fun e => ?_) rt.entries
  split <;> rfl

theorem map_addr_markAll (hits : RtEntry → Bool) (rt : Rt) :
    (rt.markAll hits).entries.map RtEntry.addr = rt.entries.map RtEntry.addr := by
  unfold markAll
  rw [List.map_map]
  refine List.map_congr_left fun e _ => ?_
  simp only [Function.comp]
  split <;> rfl

/-- Only the contents of entries differ. -/
structure Touched (rt rt' : Rt) : Prop where
  ts : rt'.ts = rt.ts
  nht : rt'.nht = rt.nht
  fresh : rt'.fresh = rt.fresh
  fault : rt'.fault = rt.fault
  addrs : rt'.entries.map RtEntry.addr = rt.entries.map RtEntry.addr

theorem Touched.refl (rt : Rt) : Touched rt rt := ⟨rfl, rfl, rfl, rfl, rfl⟩

theorem Touched.trans {r₁ r₂ r₃ : Rt} (h : Touched r₁ r₂) (h' : Touched r₂ r₃) : Touched r₁ r₃ :=
  ⟨h'.ts.trans h.ts, h'.nht.trans h.nht, h'.fresh.trans h.fresh, h'.fault.trans h.fault, h'.addrs.trans h.addrs⟩

theorem Touched.ext {rt r₁ r₂ : Rt} (h₁ : Touched rt r₁) (h₂ : Touched rt r₂)
    (hn : (rt.entries.map RtEntry.addr).Nodup) (hf : ∀ h, r₁.find h = r₂.find h) : r₁ = r₂ := by
  have he : r₁.entries = r₂.entries :=
    Keyed.ext_lookup (h₁.addrs.trans h₂.addrs.symm) (h₂.addrs.symm ▸ hn) hf
  obtain ⟨es₁, ts₁, nht₁, fresh₁, fault₁⟩ := r₁
  obtain ⟨es₂, ts₂, nht₂, fresh₂, fault₂⟩ := r₂
  obtain ⟨hts₁, hnht₁, hfresh₁, hfault₁, -⟩ := h₁
  obtain ⟨hts₂, hnht₂, hfresh₂, hfault₂, -⟩ := h₂
  simp_all

theorem WF.touched_markrouteinv {rt : Rt} (hw : rt.WF) (host : MacAddr) (seq : UInt32) :
    Touched rt (aodvDbRtMarkrouteinv rt host seq).1 := by
  unfold aodvDbRtMarkrouteinv
  split
  · exact .refl rt
  · rename_i e he
    split
    · exact .refl rt
    · refine ⟨rfl, rfl, rfl, hw.fault_write (find_mem he) _, ?_⟩
      exact Keyed.map_modify RtEntry.ptr e.ptr RtEntry.markInvalid (fun _ => rfl) rt.entries

end Rt

namespace Node

/-- The RERR is about the entry: its next hop is known and among the addresses of the sender, and a record
for its host has a number that the stored one is not ahead of. -/
def Affects (rerr : AodvMsgRerr) (records : List AodvMacSeq) (e : RtEntry) : Prop :=
  e.flags.nextHopUnknown = false ∧ e.nextHop ∈ rerrIfaces rerr ∧
    ∃ dest ∈ records, dest.host = e.addr ∧ hfCompU32 e.sequenceNumber dest.sequenceNumber ≤ 0

theorem anyHit_iff (rerr : AodvMsgRerr) (records : List AodvMacSeq) (e : RtEntry) :
    anyHit rerr records e.addr e = true ↔ Affects rerr records e := by
  unfold anyHit hit reaches Affects
  rw [List.any_eq_true]
  simp only [Bool.and_eq_true, decide_eq_true_eq, Bool.not_eq_true']
  constructor
  · intro ⟨dest, hm, ha, ⟨hk, hi⟩, hs⟩
    exact ⟨hk, hi, dest, hm, ha, hs⟩
  · intro ⟨hk, hi, dest, hm, ha, hs⟩
    exact ⟨dest, hm, ha, ⟨hk, hi⟩, hs⟩

instance (rerr : AodvMsgRerr) (records : List AodvMacSeq) (e : RtEntry) : Decidable (Affects rerr records e) :=
  decidable_of_iff (anyHit rerr records e.addr e = true) (anyHit_iff rerr records e)

/-! ## The loops touch entries only -/

theorem rerrIfaces_touched (dest : AodvMacSeq) (nextHop : MacAddr) (ifaces : List MacAddr) (acc : Rt × Bool)
    (hw : acc.1.WF) : acc.1.Touched (ifaces.foldl (rerrIface dest nextHop) acc).1 := by
  induction ifaces generalizing acc with
  | nil => exact .refl acc.1
  | cons a as ih =>
    refine Rt.Touched.trans ?_ (ih _ ((rerrIface_quietly dest nextHop acc a).wf hw))
    unfold rerrIface
    split
    · exact hw.touched_markrouteinv dest.host dest.sequenceNumber
    · exact .refl acc.1

section
variable {rerr : AodvMsgRerr} (hcount : rerr.ifaceAddrCount.toNat ≤ rerr.ifaces.length)
include hcount

theorem rerrRecord_touched (dest : AodvMacSeq) {acc : Rt × Bool} (hw : acc.1.WF) :
    acc.1.Touched (rerrRecord rerr acc dest).1 := by
  unfold rerrRecord
  split
  · exact .refl acc.1
  · -- the count of addresses stays within the array
    have hin : decide (rerr.ifaces.length < rerr.ifaceAddrCount.toNat) = false :=
      decide_eq_false (Nat.not_lt.mpr hcount)
    simp only [hin, Bool.or_false]
    exact rerrIfaces_touched dest _ _ acc hw

theorem rerrRecords_touched (records : List AodvMacSeq) (acc : Rt × Bool) (hw : acc.1.WF) :
    acc.1.Touched (records.foldl (rerrRecord rerr) acc).1 := by
  induction records generalizing acc with
  | nil => exact .refl acc.1
  | cons d ds ih =>
    exact (rerrRecord_touched hcount d hw).trans (ih _ ((rerrRecord_quietly rerr acc d).wf hw))

/-- All loops together mark the affected entries. -/
theorem rerrRecords_markAll (records : List AodvMacSeq) {rt : Rt} (hw : rt.WF) :
    (records.foldl (rerrRecord rerr) (rt, false)).1 =
      rt.markAll fun e => decide (Affects rerr records e) := by
  refine (rerrRecords_touched hcount records (rt, false) hw).ext ?_ hw.addrs fun h => ?_
  · exact ⟨rfl, rfl, rfl, rfl, Rt.map_addr_markAll _ rt⟩
  · rw [(rerrRecords_marked rerr records (rt, false) hw).find, Rt.find_markAll]
    cases hf : rt.find h with
    | none => rfl
    | some e =>
      obtain rfl := Rt.find_addr hf
      simp only [Option.map_some, decide_eq_true_eq, anyHit_iff]

end

theorem handleRerr_markAll {n : Node} (hw : n.rt.WF) (env : RxEnv) {msg : DessertMsg} {rerr : AodvMsgRerr}
    (hr : msg.getRerr = some rerr) (hcount : rerr.ifaceAddrCount.toNat ≤ rerr.ifaces.length) :
    (n.aodvHandleRerr env msg).1 =
      { n with rt := n.rt.markAll fun e => decide (Affects rerr msg.records e) } := by
  rw [← rerrRecords_markAll hcount msg.records hw]
  simp only [aodvHandleRerr, hr]
  split <;> rfl

theorem affects_congr {rerr rerr' : AodvMsgRerr} {records records' : List AodvMacSeq}
    (hi : ∀ a, a ∈ rerrIfaces rerr' ↔ a ∈ rerrIfaces rerr) (hd : ∀ d, d ∈ records' ↔ d ∈ records) (e : RtEntry) :
    Affects rerr' records' e ↔ Affects rerr records e := by
  unfold Affects
  simp only [hi, hd]

/-- A RERR invalidates exactly the entries it affects and changes nothing else in the node; permuting or
repeating its records or addresses makes no difference. -/
theorem handleRerr_exact {L : Libdessert} (n : Node) (hn : Reachable L n) (env : RxEnv) (msg : DessertMsg)
    (rerr : AodvMsgRerr) (hr : msg.getRerr = some rerr) (hlen : rerr.ifaces.length = maxMeshIfacesCount)
    (hcount : rerr.ifaceAddrCount.toNat ≤ maxMeshIfacesCount) :
    (n.aodvHandleRerr env msg).1 =
        { n with rt := n.rt.markAll fun e => decide (Affects rerr msg.records e) } ∧
      ∀ (env' : RxEnv) (msg' : DessertMsg) (rerr' : AodvMsgRerr), msg'.getRerr = some rerr' →
        rerr'.ifaces.length = maxMeshIfacesCount → rerr'.ifaceAddrCount.toNat ≤ maxMeshIfacesCount →
        (∀ a, a ∈ rerrIfaces rerr' ↔ a ∈ rerrIfaces rerr) → (∀ d, d ∈ msg'.records ↔ d ∈ msg.records) →
        (n.aodvHandleRerr env' msg').1 = (n.aodvHandleRerr env msg).1 := by
  have h := handleRerr_markAll hn.wf env hr (hlen ▸ hcount)
  refine ⟨h, ?_⟩
  intro env' msg' rerr' hr' hlen' hcount' hi hd
  rw [h, handleRerr_markAll hn.wf env' hr' (hlen' ▸ hcount')]
  simp only [affects_congr hi hd]

/-- A node with a route to 9 over 1. -/
def routedTo9 : Node :=
  Runs.exec (Node.step roomy) (aodvDbInit {} 8 [wlan]) [.mesh .handleRrep (rxAt 0) (rrepFrom 9 8 1 4 0)]

/-- The RERR of the host 1. -/
def lossAt1 (records : List AodvMacSeq) : DessertMsg :=
  { dessertMsgNew with
    exts := [.rerr { flagN := true, ifaceAddrCount := 1, ifaces := [1, 0, 0, 0, 0, 0, 0, 0] }, .rerrdl records] }

theorem handleRerr_exact_repeated :
    (routedTo9.aodvHandleRerr (rxAt 1)
        (lossAt1 [{ host := 9, sequenceNumber := 4 }, { host := 7, sequenceNumber := 1 },
          { host := 9, sequenceNumber := 4 }])).1 =
      (routedTo9.aodvHandleRerr (rxAt 1)
        (lossAt1 [{ host := 7, sequenceNumber := 1 }, { host := 9, sequenceNumber := 4 }])).1 :=
  (@handleRerr_exact roomy routedTo9 ⟨{}, 8, [wlan], _, rfl⟩ (rxAt 1) (lossAt1 [_, _]) _ rfl rfl
    (by decide)).2 (rxAt 1) (lossAt1 [_, _, _]) _ rfl rfl (by decide) (fun _ => Iff.rfl)
    (by simp [DessertMsg.records, DessertMsg.getRerrdls, lossAt1])

end Node

end DesAodv
