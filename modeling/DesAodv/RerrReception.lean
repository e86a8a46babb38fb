import DesAodv.ReverseRoute
import DesAodv.RerrMessages

/-!
# What a RERR invalidates

`aodv_handle_rerr` goes through the records and, for each, through the interface
addresses of the RERR. Together they mark the entries that `hit` selects.
-/

namespace DesAodv

/-- From one state of the loops to a later one: the entries `m` selects have been marked invalid, and the
flag is set if there are any. -/
structure MarkedBy (m : MacAddr → RtEntry → Bool) (acc acc' : Rt × Bool) : Prop where
  find : ∀ h, acc'.1.find h = (acc.1.find h).map fun e => if m h e = true then e.markInvalid else e
  flag : acc'.2 = true ↔ acc.2 = true ∨ ∃ h e, acc.1.find h = some e ∧ m h e = true

namespace MarkedBy

theorem none {m : MacAddr → RtEntry → Bool} {acc : Rt × Bool}
    (h : ∀ k e, acc.1.find k = some e → m k e = false) : MarkedBy m acc acc := by
  constructor
  · intro k
    cases hf : acc.1.find k with
    | none => rfl
    | some e => simp [h k e hf]
  · constructor
    · exact .inl
    · intro hx
      rcases hx with hb | ⟨k, e, hf, hm⟩
      · exact hb
      · rw [h k e hf] at hm
        cases hm

theorem trans {m m' : MacAddr → RtEntry → Bool} {a b c : Rt × Bool}
    (hm' : ∀ k e, m' k e.markInvalid = m' k e) (h : MarkedBy m a b) (h' : MarkedBy m' b c) :
    MarkedBy (fun k e => m k e || m' k e) a c := by
  constructor
  · intro k
    rw [h'.find, h.find, Option.map_map]
    congr 1
    funext e
    simp only [Function.comp]
    cases hk : m k e <;> cases hk' : m' k e <;> simp [hm', hk']
  · rw [h'.flag, h.flag, or_assoc]
    apply or_congr Iff.rfl
    constructor
    · intro hx
      rcases hx with ⟨k, e, hf, hk⟩ | ⟨k, e', hf, hk⟩
      · exact ⟨k, e, hf, by rw [hk]; rfl⟩
      · rw [h.find] at hf
        obtain ⟨e, hfe, rfl⟩ := Option.map_eq_some_iff.mp hf
        refine ⟨k, e, hfe, ?_⟩
        split at hk
        · rename_i hm
          rw [hm]; rfl
        · rw [hk]; exact Bool.or_true _
    · intro hx
      obtain ⟨k, e, hf, hk⟩ := hx
      cases hm : m k e with
      | true => exact .inl ⟨k, e, hf, hm⟩
      | false =>
        rw [hm, Bool.false_or] at hk
        refine .inr ⟨k, e, ?_, hk⟩
        rw [h.find, hf, Option.map_some, if_neg (by rw [hm]; exact Bool.false_ne_true)]

theorem congr {m m' : MacAddr → RtEntry → Bool} {a b : Rt × Bool} (h : MarkedBy m a b)
    (hm : ∀ k e, a.1.find k = some e → m k e = m' k e) : MarkedBy m' a b := by
  constructor
  · intro k
    rw [h.find]
    cases hf : a.1.find k with
    | none => rfl
    | some e => simp only [Option.map_some, hm k e hf]
  · rw [h.flag]
    apply or_congr Iff.rfl
    constructor
    · intro hx
      obtain ⟨k, e, hf, hk⟩ := hx
      exact ⟨k, e, hf, hm k e hf ▸ hk⟩
    · intro hx
      obtain ⟨k, e, hf, hk⟩ := hx
      exact ⟨k, e, hf, (hm k e hf).symm ▸ hk⟩

/-- Nothing is marked where only the entry of one host could be, and is not. -/
theorem unmarked {host : MacAddr} {f : RtEntry → Bool} {acc : Rt × Bool}
    (h : ∀ x, acc.1.find host = some x → f x = false) : MarkedBy (fun k e => decide (host = k) && f e) acc acc := by
  apply MarkedBy.none
  intro k e hk
  by_cases hd : host = k
  · rw [← hd] at hk
    simp [h e hk]
  · simp [hd]

end MarkedBy

/-- The record is for an entry as old as the stored one or older: its number is not behind. -/
def reaches (dest : AodvMacSeq) (e : RtEntry) : Bool := decide (hfCompU32 e.sequenceNumber dest.sequenceNumber ≤ 0)

namespace Node

/-- The addresses of a RERR that are read. -/
def rerrIfaces (rerr : AodvMsgRerr) : List MacAddr := rerr.ifaces.take rerr.ifaceAddrCount.toNat

/-- The record invalidates the entry of its destination. -/
def hit (rerr : AodvMsgRerr) (dest : AodvMacSeq) (e : RtEntry) : Bool :=
  !e.flags.nextHopUnknown && decide (e.nextHop ∈ rerrIfaces rerr) && reaches dest e

/-- Some record invalidates the entry of the host. -/
def anyHit (rerr : AodvMsgRerr) (records : List AodvMacSeq) (host : MacAddr) (e : RtEntry) : Bool :=
  records.any fun dest => decide (dest.host = host) && hit rerr dest e

/-! ## The loops -/

section
variable (dest : AodvMacSeq) (nextHop : MacAddr)

theorem markrouteinv_marked {acc : Rt × Bool} (hw : acc.1.WF) :
    MarkedBy (fun h e => decide (dest.host = h) && reaches dest e) acc
      ((aodvDbRtMarkrouteinv acc.1 dest.host dest.sequenceNumber).1,
        acc.2 || (aodvDbRtMarkrouteinv acc.1 dest.host dest.sequenceNumber).2) := by
  unfold aodvDbRtMarkrouteinv
  cases hf : acc.1.find dest.host with
  | none =>
    simp only [Bool.or_false]
    apply MarkedBy.unmarked
    intro x hx
    rw [hf] at hx
    cases hx
  | some x =>
    by_cases hc : hfCompU32 x.sequenceNumber dest.sequenceNumber > 0
    · simp only [hc, if_true, Bool.or_false]
      apply MarkedBy.unmarked
      intro y hy
      obtain rfl := Option.some.inj (hf.symm.trans hy)
      simp [reaches, hc]
    · simp only [hc, if_false, Bool.or_true]
      have hr : reaches dest x = true := decide_eq_true (Int.not_lt.mp hc)
      constructor
      · intro k
        rw [hw.find_write_entry (f := RtEntry.markInvalid) (fun _ => rfl) hf]
        by_cases hd : k = dest.host
        · rw [if_pos hd, hd, hf, Option.map_some, hr]
          simp
        · rw [if_neg hd]
          have hd' : ¬ dest.host = k := fun h => hd h.symm
          simp [hd']
      · refine iff_of_true rfl (.inr ⟨dest.host, x, hf, ?_⟩)
        simp [hr]

theorem rerrIfaces_marked (ifaces : List MacAddr) (acc : Rt × Bool) (hw : acc.1.WF) :
    MarkedBy (fun h e => decide (dest.host = h) && decide (nextHop ∈ ifaces) && reaches dest e) acc
      (ifaces.foldl (rerrIface dest nextHop) acc) := by
  induction ifaces generalizing acc with
  | nil => exact MarkedBy.none fun k e _ => by simp
  | cons a as ih =>
    rw [List.foldl_cons]
    have hw' : (rerrIface dest nextHop acc a).1.WF := (rerrIface_quietly dest nextHop acc a).wf hw
    by_cases ha : a = nextHop
    · have hi : rerrIface dest nextHop acc a =
          ((aodvDbRtMarkrouteinv acc.1 dest.host dest.sequenceNumber).1,
            acc.2 || (aodvDbRtMarkrouteinv acc.1 dest.host dest.sequenceNumber).2) := by
        simp only [rerrIface, ha, if_true]
      have h := markrouteinv_marked dest hw
      rw [← hi] at h
      refine (h.trans (fun k e => rfl) (ih _ hw')).congr fun k e _ => ?_
      simp only [ha, List.mem_cons, true_or, decide_true, Bool.and_true]
      cases decide (dest.host = k) <;> cases reaches dest e <;> simp
    · have hi : rerrIface dest nextHop acc a = acc := by simp only [rerrIface, ha, if_false]
      rw [hi]
      refine (ih _ hw).congr fun k e _ => ?_
      have ha' : ¬ nextHop = a := fun h => ha h.symm
      simp [ha']

end

theorem rerrRecord_marked (rerr : AodvMsgRerr) (dest : AodvMacSeq) {acc : Rt × Bool} (hw : acc.1.WF) :
    MarkedBy (fun h e => decide (dest.host = h) && hit rerr dest e) acc (rerrRecord rerr acc dest) := by
  unfold rerrRecord aodvDbRtGetnexthop Rt.known
  cases hf : acc.1.find dest.host with
  | none =>
    apply MarkedBy.unmarked
    intro x hx
    rw [hf] at hx
    cases hx
  | some x =>
    cases hk : x.flags.nextHopUnknown with
    | true =>
      simp only [Option.filter_some, hk, Bool.not_true, Bool.false_eq_true, if_false, Option.map_none]
      apply MarkedBy.unmarked
      intro y hy
      obtain rfl := Option.some.inj (hf.symm.trans hy)
      simp [hit, hk]
    | false =>
      simp only [Option.filter_some, hk, Bool.not_false, if_true, Option.map_some]
      have h := rerrIfaces_marked dest x.nextHop (rerrIfaces rerr)
        ({ acc.1 with fault := acc.1.fault || decide (rerr.ifaces.length < rerr.ifaceAddrCount.toNat) },
          acc.2) (hw.setFault _)
      have h' : MarkedBy (fun h e => decide (dest.host = h) && decide (x.nextHop ∈ rerrIfaces rerr) &&
          reaches dest e) acc _ := ⟨h.find, h.flag⟩
      apply h'.congr
      intro k e hke
      by_cases hd : dest.host = k
      · rw [← hd, hf] at hke
        rw [← Option.some.inj hke]
        simp [hit, hk, Bool.and_assoc]
      · simp [hd]

theorem rerrRecords_marked (rerr : AodvMsgRerr) (records : List AodvMacSeq) (acc : Rt × Bool) (hw : acc.1.WF) :
    MarkedBy (anyHit rerr records) acc (records.foldl (rerrRecord rerr) acc) := by
  induction records generalizing acc with
  | nil => exact MarkedBy.none fun k e _ => rfl
  | cons d ds ih =>
    rw [List.foldl_cons]
    have hw' := (rerrRecord_quietly rerr acc d).wf hw
    refine ((rerrRecord_marked rerr d hw).trans (fun k e => rfl) (ih _ hw')).congr fun k e _ => ?_
    simp [anyHit]

theorem handleRerr_rt (n : Node) (env : RxEnv) {msg : DessertMsg} {rerr : AodvMsgRerr}
    (hr : msg.getRerr = some rerr) :
    (n.aodvHandleRerr env msg).1.rt = (msg.records.foldl (rerrRecord rerr) (n.rt, false)).1 := by
  simp only [aodvHandleRerr, hr]
  split <;> rfl

/-! ## The RERR for an unroutable packet -/

section
variable (L : Libdessert) {n : Node}

theorem createRerr_congr {n' : Node} (hl : n'.l25Defsrc = n.l25Defsrc) (hm : n'.meshiflist = n.meshiflist)
    (destlist : List AodvMacSeq) : n'.aodvCreateRerr L destlist = n.aodvCreateRerr L destlist := by
  simp only [aodvCreateRerr, rerrHeader, hl, hm]

theorem rerrUnroutable_sent {env : RxEnv} {dhost : MacAddr} {m : DessertMsg}
    (hs : .mesh m none ∈ (n.rerrUnroutable L env dhost).2) :
    ∃ rest, n.aodvCreateRerr L [{ host := dhost, sequenceNumber := uint32Max }] = some (m, rest) := by
  have hc : ({ n with rerrLog := (aodvDbRlGetrerrcount n.rerrLog env.now).1 } : Node).aodvCreateRerr L
      [{ host := dhost, sequenceNumber := uint32Max }] =
      n.aodvCreateRerr L [{ host := dhost, sequenceNumber := uint32Max }] := createRerr_congr L rfl rfl _
  simp only [rerrUnroutable, hc] at hs
  split at hs
  · cases hs
  · split at hs
    · cases hs
    · rename_i rerrMsg rest hm
      obtain rfl := (Sent.mesh.inj (List.mem_singleton.mp hs)).1
      exact ⟨rest, hm⟩

/-- What `aodv_forward` sends on all interfaces is the RERR for a destination without a valid route. -/
theorem forward_rerr (hw : n.rt.WF) {env : RxEnv} {msg m : DessertMsg}
    (hs : .mesh m none ∈ (n.aodvForward L env msg).2.1) :
    n.routeTo msg.l25Dhost = none ∧ (n.aodvForward L env msg).1.rt = n.rt ∧
      ∃ rest, n.aodvCreateRerr L [{ host := msg.l25Dhost, sequenceNumber := uint32Max }] = some (m, rest) := by
  unfold aodvForward at hs ⊢
  split at hs
  · cases hs
  rename_i h₁
  rw [if_neg h₁]
  split at hs
  · cases hs
  rename_i h₂
  rw [if_neg h₂]
  simp only at hs ⊢
  split at hs
  · cases hs
  rename_i h₃
  rw [if_neg h₃]
  have hw' : ({ n with ds := (aodvDbDsCaptDataSeq n.ds msg.l25Shost msg.u16 env.now env.now).1 } :
    Node).rt.WF := hw
  split at hs
  · rename_i n' nextHop outputIface hn
    have hr := (getroute2dest_snd _ msg.l25Dhost env.now env.now aodvFlagsUnused).symm.trans (congrArg Prod.snd hn)
    have hi := routeTo_iface hw' hr
    rw [(Sent.mesh.inj (List.mem_singleton.mp hs)).2.symm] at hi
    cases hi
  · rename_i n' hn
    have hr := (getroute2dest_snd _ msg.l25Dhost env.now env.now aodvFlagsUnused).symm.trans (congrArg Prod.snd hn)
    rw [getroute2dest_none hr] at hn
    have hrt : n'.rt = n.rt := (congrArg (fun r => r.1.rt) hn).symm
    have hl : n'.l25Defsrc = n.l25Defsrc := (congrArg (fun r => r.1.l25Defsrc) hn).symm
    have hm : n'.meshiflist = n.meshiflist := (congrArg (fun r => r.1.meshiflist) hn).symm
    have hf := rerrUnroutable_frame L n' env msg.l25Dhost
    obtain ⟨rest, hc⟩ := rerrUnroutable_sent L hs
    exact ⟨hr, hf.rt.trans hrt, rest, (createRerr_congr L hl hm _).symm.trans hc⟩

theorem createRerr_one (hlen : sizeofAodvMacSeq ≤ L.maxExtDataLen)
    (hroom : ∀ len ≤ L.maxExtDataLen, L.room n.rerrHeader len = true) (dest : AodvMacSeq) :
    n.aodvCreateRerr L [dest] =
      some ({ n.rerrHeader with exts := n.rerrHeader.exts ++ [.rerrdl [dest]] }, []) := by
  have hle : [dest].length ≤ L.maxMacSeqPerExt := (le_maxMacSeqPerExt L).mp (by simpa using hlen)
  have hr := hroom ([dest].length * sizeofAodvMacSeq) (by simpa using hlen)
  exact congrArg some (addRerrdls_short L (List.cons_ne_nil dest []) hle hr 0)

end

/-- `UINT32_MAX` is not behind the numbers from `2 ^ 31 - 2` on. -/
theorem reaches_uint32Max (host : MacAddr) (e : RtEntry) :
    reaches { host, sequenceNumber := uint32Max } e = true ↔ 2147483646 ≤ e.sequenceNumber.toNat := by
  have hs := e.sequenceNumber.toNat_lt
  have hm : uint32Max.toNat = 4294967295 := rfl
  rw [reaches, decide_eq_true_eq, ← Int.not_lt, hfCompU32_pos, ahead_eq, hm]
  omega

section
variable {L : Libdessert} {F U : Node} (hF : Reachable L F) (hU : Reachable L U)
  (hlen : sizeofAodvMacSeq ≤ L.maxExtDataLen)
  (hroom : ∀ len ≤ L.maxExtDataLen, L.room F.rerrHeader len = true)
include hF hU hlen hroom

/-- The RERR for an unroutable packet leaves the route of a node upstream invalid exactly if it was so
before or the stored number is at least `2 ^ 31 - 2`. -/
theorem unroutable_invalid_iff {envF envU : RxEnv} {packet m frame : DessertMsg} {rerr : AodvMsgRerr}
    {e : RtEntry} (hs : .mesh m none ∈ (F.aodvForward L envF packet).2.1) (hfr : frame.exts = m.exts)
    (hr : frame.getRerr = some rerr) (he : U.rt.find packet.l25Dhost = some e)
    (hk : e.flags.nextHopUnknown = false) (hn : e.nextHop ∈ rerrIfaces rerr) :
    (∃ e', (U.aodvHandleRerr envU frame).1.rt.find packet.l25Dhost = some e' ∧ e'.flags.routeInvalid = true) ↔
      e.flags.routeInvalid = true ∨ 2147483646 ≤ e.sequenceNumber.toNat := by
  obtain ⟨-, -, rest, hc⟩ := forward_rerr L hF.wf hs
  rw [createRerr_one L hlen hroom] at hc
  obtain ⟨rfl, -⟩ := Prod.mk.inj (Option.some.inj hc)
  have hrec : frame.records = [{ host := packet.l25Dhost, sequenceNumber := uint32Max }] := by
    simp only [DessertMsg.records, DessertMsg.getRerrdls, hfr]
    rfl
  have hmark := (rerrRecords_marked rerr frame.records (U.rt, false) hU.wf).find packet.l25Dhost
  rw [← handleRerr_rt U envU hr, he, Option.map_some] at hmark
  have hhit : anyHit rerr frame.records packet.l25Dhost e =
      reaches { host := packet.l25Dhost, sequenceNumber := uint32Max } e := by
    simp [anyHit, hrec, hit, hk, hn]
  rw [hhit] at hmark
  rw [← reaches_uint32Max packet.l25Dhost e]
  cases hreach : reaches { host := packet.l25Dhost, sequenceNumber := uint32Max } e with
  | true =>
    rw [hreach, if_pos rfl] at hmark
    exact iff_of_true ⟨_, hmark, rfl⟩ (.inr rfl)
  | false =>
    rw [hreach, if_neg Bool.false_ne_true] at hmark
    simp only [Bool.false_eq_true, or_false]
    constructor
    · intro h
      obtain ⟨e', he', hi⟩ := h
      rw [hmark] at he'
      rw [Option.some.inj he']
      exact hi
    · exact fun hi => ⟨e, hmark, hi⟩

end

/-! ## An unroutable packet -/

/-- A forwarder without routes, on an interface with address `0x20`. -/
def forwarder : Node := aodvDbInit {} 2 [{ ifindex := 1, hwaddr := 0x20 }]

def packetTo (destination : MacAddr) : DessertMsg :=
  { dessertMsgNew with ttl := ttlMax, l25Shost := 8, l25Dhost := destination }

/-- Its RERR for a packet to 9. -/
def unroutableRerr : DessertMsg :=
  { forwarder.rerrHeader with
    l2Shost := 0x20
    exts := forwarder.rerrHeader.exts ++ [.rerrdl [{ host := 9, sequenceNumber := uint32Max }]] }

/-- A node whose route to 9 leads over the forwarder and has number `seq`. -/
def upstream (seq : UInt32) : Node :=
  (aodvDbInit {} 8 [wlan]).step roomy (.mesh .handleRrep (rxAt 0) (rrepFrom 9 8 0x20 seq 0))

theorem unroutable_invalid_old :
    ∃ e', ((upstream 2147483646).aodvHandleRerr (rxAt 1) unroutableRerr).1.rt.find 9 = some e' ∧
      e'.flags.routeInvalid = true :=
  (@unroutable_invalid_iff roomy forwarder (upstream 2147483646)
    ⟨{}, 2, [{ ifindex := 1, hwaddr := 0x20 }], [], rfl⟩
    ⟨{}, 8, [wlan], [.mesh .handleRrep (rxAt 0) (rrepFrom 9 8 0x20 2147483646 0)], rfl⟩ (by decide)
    (fun _ _ => rfl) (rxAt 1) (rxAt 1) (packetTo 9) { unroutableRerr with l2Shost := 0 } unroutableRerr
    { flagN := true, ifaceAddrCount := 1, ifaces := [0x20] }
    (((upstream 2147483646).rt.find 9).get (by decide))
    (by decide) rfl rfl (by decide) (by decide) (by decide)).mpr
    (.inr (by decide))

/-- A route with a small number survives the RERR. -/
theorem unroutable_ignored :
    .mesh { unroutableRerr with l2Shost := 0 } none ∈ (forwarder.aodvForward roomy (rxAt 1) (packetTo 9)).2.1 ∧
      ((upstream 4).aodvHandleRerr (rxAt 1) unroutableRerr).1.routeTo 9 = some (0x20, some wlan) := by
  decide

end Node

end DesAodv
