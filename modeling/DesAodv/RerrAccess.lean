import DesAodv.RerrWire
import DesAodv.RerrExact

/-!
# Which bytes a RERR reads and writes

`aodv_handle_rerr` takes the number of addresses from the message and the place
for its own addresses from the structure, but compares neither with the length of
the extension. The loops are run over the bytes of the received message, and every
access is recorded.
-/

namespace DesAodv

def ethAlen : Nat := 6

/-- An extension that `dessert_msg_check_cb` has accepted: its data begin at `data`. -/
structure ReceivedExt where
  type : ExtType
  data : Nat
  len : UInt8
  header : 2 ≤ len.toNat
  deriving DecidableEq

def ReceivedExt.size (ext : ReceivedExt) : Nat := ext.len.toNat - 2

/-- The memory from the first byte of a received message on, and the extensions in it. -/
structure ReceivedMsg where
  bytes : Nat → UInt8
  length : Nat
  exts : List ReceivedExt
  inside : ∀ ext ∈ exts, ext.data + ext.size ≤ length

/-- An access to `rerr_msg`, or to record `i` of a `RERRDL` extension. -/
inductive RerrAccess
  | readIfaceAddrCount
  | readIface (j : Nat)
  | readDest (rerrdlExt : ReceivedExt) (i : Nat)
  | writeIfaceAddrCount
  | writeIface (j : Nat)
  deriving DecidableEq

/-- The offset of `ifaces` in `struct aodv_msg_rerr`; `iface_addr_count` is the byte before. -/
def offsetofIfaces : Nat := 2

/-- The access stays in the array, and in the data of its extension. -/
def RerrAccess.Inside (rerrExt : ReceivedExt) : RerrAccess → Prop
  | .readIfaceAddrCount | .writeIfaceAddrCount => offsetofIfaces ≤ rerrExt.size
  | .readIface j => j < maxMeshIfacesCount ∧ offsetofIfaces + (j + 1) * ethAlen ≤ rerrExt.size
  | .readDest rerrdlExt i => (i + 1) * sizeofAodvMacSeq ≤ rerrdlExt.size
  | .writeIface j => offsetofIfaces + (j + 1) * ethAlen ≤ rerrExt.size

instance (rerrExt : ReceivedExt) (a : RerrAccess) : Decidable (a.Inside rerrExt) := by
  cases a <;> unfold RerrAccess.Inside <;> infer_instance

/-- The variables of the loops. -/
structure RerrRun where
  rt : Rt
  rebroadcastRerr : Bool
  accesses : List RerrAccess

def RerrRun.access (run : RerrRun) (a : RerrAccess) : RerrRun := { run with accesses := run.accesses ++ [a] }

namespace ReceivedMsg

def getexts (m : ReceivedMsg) (type : ExtType) : List ReceivedExt := m.exts.filter fun e => decide (e.type = type)

def read (m : ReceivedMsg) (a len : Nat) : List UInt8 := (List.range len).map fun k => m.bytes (a + k)

section
variable (m : ReceivedMsg) (rerrExt : ReceivedExt) (bigEndian : Bool)

def ifaceAddrCount : UInt8 := m.bytes (rerrExt.data + 1)

def iface (j : Nat) : MacAddr :=
  BitVec.ofNat 48 (Bytes.ofBytes (m.read (rerrExt.data + offsetofIfaces + j * ethAlen) ethAlen).reverse)

def dest (rerrdlExt : ReceivedExt) (i : Nat) : AodvMacSeq :=
  AodvMacSeq.decode bigEndian (m.read (rerrdlExt.data + i * sizeofAodvMacSeq) sizeofAodvMacSeq)

def ifaceTurn (dest : AodvMacSeq) (nextHop : MacAddr) (run : RerrRun) (j : Nat) : RerrRun :=
  let run := (run.access .readIfaceAddrCount).access (.readIface j)
  if m.iface rerrExt j = nextHop then
    let (rt, invRoute) := aodvDbRtMarkrouteinv run.rt dest.host dest.sequenceNumber
    { run with
      rt
      rebroadcastRerr := run.rebroadcastRerr || invRoute }
  else run

def destTurn (rerrdlExt : ReceivedExt) (run : RerrRun) (i : Nat) : RerrRun :=
  let dest := m.dest bigEndian rerrdlExt i
  let run := run.access (.readDest rerrdlExt i)
  match aodvDbRtGetnexthop run.rt dest.host with
  | none => run
  | some nextHop =>
    ((List.range (m.ifaceAddrCount rerrExt).toNat).foldl (m.ifaceTurn rerrExt dest nextHop) run).access
      .readIfaceAddrCount

def rerrdlTurn (run : RerrRun) (rerrdlExt : ReceivedExt) : RerrRun :=
  let destinationCount := rerrdlExt.size / sizeofAodvMacSeq
  (List.range destinationCount).foldl (m.destTurn rerrExt bigEndian rerrdlExt) run

def rerrLoops (rt : Rt) : RerrRun :=
  (m.getexts .rerrdl).foldl (m.rerrdlTurn rerrExt bigEndian) { rt, rebroadcastRerr := false, accesses := [] }

end

end ReceivedMsg

/-- The loop that writes the own addresses over those of the sender. -/
def writeOwnIfaces : List Meshif → Nat → List RerrAccess
  | [], _ => []
  | _ :: ifaces, ifaceAddrCount =>
    .readIfaceAddrCount ::
      if ifaceAddrCount < maxMeshIfacesCount then
        .writeIface ifaceAddrCount :: .writeIfaceAddrCount :: writeOwnIfaces ifaces (ifaceAddrCount + 1)
      else []

/-- `aodv_handle_rerr` on the bytes of a message: the routing table, and the accesses to the message. -/
def Node.receiveRerr (bigEndian : Bool) (n : Node) (m : ReceivedMsg) : Node × List RerrAccess :=
  match (m.getexts .rerr).head? with
  | none => (n, [])
  | some rerrExt =>
    let run := m.rerrLoops rerrExt bigEndian n.rt
    ({ n with rt := run.rt },
      run.accesses ++
        if run.rebroadcastRerr then .writeIfaceAddrCount :: writeOwnIfaces n.meshiflist 0 else [])

/-! ## The loops as loops over parsed data -/

namespace ReceivedMsg

section
variable (m : ReceivedMsg) (rerrExt : ReceivedExt) (bigEndian : Bool)

/-- The RERR as `aodv_handle_rerr` reads it: as many addresses as it says, wherever they end. -/
def rerr : AodvMsgRerr :=
  { flagN := decide (128 ≤ m.bytes rerrExt.data)
    ifaceAddrCount := m.ifaceAddrCount rerrExt
    ifaces := (List.range (m.ifaceAddrCount rerrExt).toNat).map (m.iface rerrExt) }

/-- The places of all records, in the order in which they are read. -/
def places : List (ReceivedExt × Nat) :=
  (m.getexts .rerrdl).flatMap fun ext => (List.range (ext.size / sizeofAodvMacSeq)).map fun i => (ext, i)

def records : List AodvMacSeq := m.places.map fun p => m.dest bigEndian p.1 p.2

end

end ReceivedMsg

def RerrRun.table (run : RerrRun) : Rt × Bool := (run.rt, run.rebroadcastRerr)

namespace ReceivedMsg

section
variable (m : ReceivedMsg) (rerrExt : ReceivedExt) (bigEndian : Bool)

theorem rerrLoops_places (rt : Rt) : m.rerrLoops rerrExt bigEndian rt =
    m.places.foldl (fun run p => m.destTurn rerrExt bigEndian p.1 run p.2)
      { rt, rebroadcastRerr := false, accesses := [] } := by
  unfold rerrLoops places rerrdlTurn
  rw [List.foldl_flatMap]
  simp only [List.foldl_map]

theorem ifaceTurn_table (dest : AodvMacSeq) (nextHop : MacAddr) (run : RerrRun) (j : Nat) :
    (m.ifaceTurn rerrExt dest nextHop run j).table =
      Node.rerrIface dest nextHop run.table (m.iface rerrExt j) := by
  unfold ifaceTurn Node.rerrIface
  split <;> rfl

theorem ifaceTurns_table (dest : AodvMacSeq) (nextHop : MacAddr) (js : List Nat) (run : RerrRun) :
    (js.foldl (m.ifaceTurn rerrExt dest nextHop) run).table =
      (js.map (m.iface rerrExt)).foldl (Node.rerrIface dest nextHop) run.table := by
  induction js generalizing run with
  | nil => rfl
  | cons j js ih =>
    rw [List.foldl_cons, ih, ifaceTurn_table]
    rfl

theorem destTurn_table (rerrdlExt : ReceivedExt) (run : RerrRun) (i : Nat) :
    (m.destTurn rerrExt bigEndian rerrdlExt run i).table =
      Node.rerrRecord (m.rerr rerrExt) run.table (m.dest bigEndian rerrdlExt i) := by
  have hlen : (m.rerr rerrExt).ifaces.length = (m.rerr rerrExt).ifaceAddrCount.toNat := by
    simp [rerr]
  have hget : aodvDbRtGetnexthop (run.access (.readDest rerrdlExt i)).rt (m.dest bigEndian rerrdlExt i).host =
      aodvDbRtGetnexthop run.table.1 (m.dest bigEndian rerrdlExt i).host := rfl
  unfold destTurn Node.rerrRecord
  simp only [hget]
  cases aodvDbRtGetnexthop run.table.1 (m.dest bigEndian rerrdlExt i).host with
  | none => rfl
  | some nextHop =>
    simp only [hlen, Nat.lt_irrefl, decide_false, Bool.or_false]
    rw [← hlen, List.take_length]
    exact ifaceTurns_table m rerrExt _ nextHop _ (run.access (.readDest rerrdlExt i))

theorem destTurns_table (ps : List (ReceivedExt × Nat)) (run : RerrRun) :
    (ps.foldl (fun run p => m.destTurn rerrExt bigEndian p.1 run p.2) run).table =
      (ps.map fun p => m.dest bigEndian p.1 p.2).foldl (Node.rerrRecord (m.rerr rerrExt)) run.table := by
  induction ps generalizing run with
  | nil => rfl
  | cons p ps ih =>
    rw [List.foldl_cons, ih, destTurn_table]
    rfl

/-- On the routing table the loops do what they do on the parsed message. -/
theorem rerrLoops_table (rt : Rt) : (m.rerrLoops rerrExt bigEndian rt).table =
    (m.records bigEndian).foldl (Node.rerrRecord (m.rerr rerrExt)) (rt, false) := by
  rw [rerrLoops_places, destTurns_table]
  rfl

end

end ReceivedMsg

/-! ## The accesses of the loops -/

def RerrRun.AllInside (rerrExt : ReceivedExt) (run : RerrRun) : Prop := ∀ a ∈ run.accesses, a.Inside rerrExt

/-- The addresses that the RERR says it has are in the array, and in the data of the extension. -/
def ReceivedMsg.HoldsIfaces (m : ReceivedMsg) (rerrExt : ReceivedExt) : Prop :=
  (m.ifaceAddrCount rerrExt).toNat ≤ maxMeshIfacesCount ∧
    offsetofIfaces + (m.ifaceAddrCount rerrExt).toNat * ethAlen ≤ rerrExt.size

namespace ReceivedMsg

section
variable {m : ReceivedMsg} {rerrExt : ReceivedExt} {bigEndian : Bool}

theorem allInside_access {run : RerrRun} {a : RerrAccess} :
    (run.access a).AllInside rerrExt ↔ run.AllInside rerrExt ∧ a.Inside rerrExt := by
  unfold RerrRun.AllInside RerrRun.access
  simp only [List.mem_append, List.mem_singleton]
  constructor
  · intro h
    exact ⟨fun b hb => h b (.inl hb), h a (.inr rfl)⟩
  · intro ⟨h, ha⟩ b hb
    rcases hb with hb | rfl
    · exact h b hb
    · exact ha

theorem ifaceTurn_inside (dest : AodvMacSeq) (nextHop : MacAddr) (run : RerrRun) (j : Nat) :
    (m.ifaceTurn rerrExt dest nextHop run j).AllInside rerrExt ↔
      run.AllInside rerrExt ∧ RerrAccess.Inside rerrExt .readIfaceAddrCount ∧
        RerrAccess.Inside rerrExt (.readIface j) := by
  rw [← and_assoc, ← allInside_access, ← allInside_access]
  unfold ifaceTurn
  split <;> exact Iff.rfl

theorem ifaceTurns_inside (dest : AodvMacSeq) (nextHop : MacAddr) (js : List Nat) (run : RerrRun) :
    (js.foldl (m.ifaceTurn rerrExt dest nextHop) run).AllInside rerrExt ↔
      run.AllInside rerrExt ∧ ∀ j ∈ js, RerrAccess.Inside rerrExt .readIfaceAddrCount ∧
        RerrAccess.Inside rerrExt (.readIface j) := by
  induction js generalizing run with
  | nil => simp
  | cons j js ih => rw [List.foldl_cons, ih, ifaceTurn_inside, List.forall_mem_cons, and_assoc]

theorem holdsIfaces_iff : m.HoldsIfaces rerrExt ↔
    (∀ j ∈ List.range (m.ifaceAddrCount rerrExt).toNat, RerrAccess.Inside rerrExt .readIfaceAddrCount ∧
      RerrAccess.Inside rerrExt (.readIface j)) ∧ RerrAccess.Inside rerrExt .readIfaceAddrCount := by
  unfold HoldsIfaces
  simp only [RerrAccess.Inside, List.mem_range, offsetofIfaces, ethAlen]
  generalize (m.ifaceAddrCount rerrExt).toNat = count
  constructor
  · intro ⟨hc, hs⟩
    refine ⟨fun j hj => ⟨?_, ?_, ?_⟩, ?_⟩ <;> omega
  · intro ⟨h, hs⟩
    cases count with
    | zero => exact ⟨Nat.zero_le _, by omega⟩
    | succ k =>
      -- the last address is the one that decides
      obtain ⟨-, hk, hsize⟩ := h k (Nat.lt_succ_self k)
      exact ⟨hk, hsize⟩

theorem destTurn_inside (rerrdlExt : ReceivedExt) (run : RerrRun) {i : Nat}
    (hi : i < rerrdlExt.size / sizeofAodvMacSeq) :
    (m.destTurn rerrExt bigEndian rerrdlExt run i).AllInside rerrExt ↔
      run.AllInside rerrExt ∧
        ((aodvDbRtGetnexthop run.rt (m.dest bigEndian rerrdlExt i).host).isSome → m.HoldsIfaces rerrExt) := by
  have hread : RerrAccess.Inside rerrExt (.readDest rerrdlExt i) := by
    have := Nat.div_mul_le_self rerrdlExt.size sizeofAodvMacSeq
    exact Nat.le_trans (Nat.mul_le_mul_right _ hi) this
  have hget : aodvDbRtGetnexthop (run.access (.readDest rerrdlExt i)).rt (m.dest bigEndian rerrdlExt i).host =
      aodvDbRtGetnexthop run.rt (m.dest bigEndian rerrdlExt i).host := rfl
  unfold destTurn
  simp only [hget]
  cases aodvDbRtGetnexthop run.rt (m.dest bigEndian rerrdlExt i).host with
  | none => simp [allInside_access, hread]
  | some nextHop =>
    simp only [Option.isSome_some, forall_const]
    rw [allInside_access, ifaceTurns_inside, allInside_access, and_iff_left hread, and_assoc, holdsIfaces_iff]

theorem getnexthop_marked {hits : MacAddr → RtEntry → Bool} {acc acc' : Rt × Bool} (h : MarkedBy hits acc acc')
    (host : MacAddr) : aodvDbRtGetnexthop acc'.1 host = aodvDbRtGetnexthop acc.1 host := by
  unfold aodvDbRtGetnexthop Rt.known
  rw [h.find]
  cases acc.1.find host with
  | none => rfl
  | some e =>
    have hk : (if hits host e = true then e.markInvalid else e).flags.nextHopUnknown = e.flags.nextHopUnknown ∧
        (if hits host e = true then e.markInvalid else e).nextHop = e.nextHop := by
      split
      · exact ⟨rfl, rfl⟩
      · exact ⟨rfl, rfl⟩
    rw [Option.map_some, Option.filter_some, Option.filter_some, hk.1]
    split
    · exact congrArg some hk.2
    · rfl

theorem destTurns_inside (ps : List (ReceivedExt × Nat)) (hps : ∀ p ∈ ps, p.2 < p.1.size / sizeofAodvMacSeq)
    (run : RerrRun) (hw : run.rt.WF) :
    (ps.foldl (fun run p => m.destTurn rerrExt bigEndian p.1 run p.2) run).AllInside rerrExt ↔
      run.AllInside rerrExt ∧ ∀ p ∈ ps,
        (aodvDbRtGetnexthop run.rt (m.dest bigEndian p.1 p.2).host).isSome → m.HoldsIfaces rerrExt := by
  induction ps generalizing run with
  | nil => simp
  | cons p ps ih =>
    have htable := destTurn_table m rerrExt bigEndian p.1 run p.2
    have hmark := @Node.rerrRecord_marked (m.rerr rerrExt) (m.dest bigEndian p.1 p.2) run.table hw
    rw [← htable] at hmark
    have hw' : (m.destTurn rerrExt bigEndian p.1 run p.2).rt.WF := by
      have := (Node.rerrRecord_quietly (m.rerr rerrExt) run.table (m.dest bigEndian p.1 p.2)).wf hw
      rw [← htable] at this
      exact this
    have hget : ∀ host, aodvDbRtGetnexthop (m.destTurn rerrExt bigEndian p.1 run p.2).rt host =
        aodvDbRtGetnexthop run.rt host := getnexthop_marked hmark
    rw [List.foldl_cons, ih (fun q hq => hps q (List.mem_cons_of_mem p hq)) _ hw',
      destTurn_inside p.1 run (hps p List.mem_cons_self), List.forall_mem_cons, and_assoc]
    simp only [hget]

variable (m) in
theorem places_lt : ∀ p ∈ m.places, p.2 < p.1.size / sizeofAodvMacSeq := by
  intro p hp
  obtain ⟨ext, -, hm⟩ := List.mem_flatMap.mp hp
  obtain ⟨i, hi, rfl⟩ := List.mem_map.mp hm
  exact List.mem_range.mp hi

theorem rerrLoops_inside {rt : Rt} (hw : rt.WF) : (m.rerrLoops rerrExt bigEndian rt).AllInside rerrExt ↔
    ((∃ dest ∈ m.records bigEndian, (aodvDbRtGetnexthop rt dest.host).isSome) → m.HoldsIfaces rerrExt) := by
  rw [rerrLoops_places]
  refine (destTurns_inside m.places (places_lt m) { rt, rebroadcastRerr := false, accesses := [] } hw).trans ?_
  have hnil : RerrRun.AllInside rerrExt { rt, rebroadcastRerr := false, accesses := [] } := fun a ha => nomatch ha
  rw [and_iff_right hnil]
  unfold records
  constructor
  · intro h ⟨dest, hd, hk⟩
    obtain ⟨p, hp, rfl⟩ := List.mem_map.mp hd
    exact h p hp hk
  · intro h p hp hk
    exact h ⟨_, List.mem_map_of_mem hp, hk⟩

theorem rerrLoops_rebroadcast {rt : Rt} (hw : rt.WF) : (m.rerrLoops rerrExt bigEndian rt).rebroadcastRerr = true ↔
    ∃ e ∈ rt.entries, Node.Affects (m.rerr rerrExt) (m.records bigEndian) e := by
  have hflag := (Node.rerrRecords_marked (m.rerr rerrExt) (m.records bigEndian) (rt, false) hw).flag
  rw [← rerrLoops_table] at hflag
  refine hflag.trans ?_
  simp only [Bool.false_eq_true, false_or]
  constructor
  · intro ⟨h, e, hf, hh⟩
    obtain rfl := Rt.find_addr hf
    exact ⟨e, Rt.find_mem hf, (Node.anyHit_iff _ _ e).mp hh⟩
  · intro ⟨e, he, ha⟩
    exact ⟨e.addr, e, hw.find_iff.mpr ⟨he, rfl⟩, (Node.anyHit_iff _ _ e).mpr ha⟩

end

end ReceivedMsg

theorem writeOwnIfaces_inside {rerrExt : ReceivedExt} (ifaces : List Meshif) (ifaceAddrCount : Nat)
    (hle : ifaceAddrCount ≤ maxMeshIfacesCount) (hfit : offsetofIfaces + ifaceAddrCount * ethAlen ≤ rerrExt.size) :
    (∀ a ∈ writeOwnIfaces ifaces ifaceAddrCount, a.Inside rerrExt) ↔
      offsetofIfaces + min (ifaceAddrCount + ifaces.length) maxMeshIfacesCount * ethAlen ≤ rerrExt.size := by
  have hread : RerrAccess.Inside rerrExt .readIfaceAddrCount := Nat.le_trans (Nat.le_add_right _ _) hfit
  have hwrite : RerrAccess.Inside rerrExt .writeIfaceAddrCount := hread
  induction ifaces generalizing ifaceAddrCount with
  | nil =>
    rw [List.length_nil, Nat.add_zero, Nat.min_eq_left hle]
    simpa [writeOwnIfaces] using hfit
  | cons i ifaces ih =>
    rw [writeOwnIfaces, List.forall_mem_cons, and_iff_right hread, List.length_cons]
    by_cases hlt : ifaceAddrCount < maxMeshIfacesCount
    · rw [if_pos hlt, List.forall_mem_cons, List.forall_mem_cons, and_iff_right hwrite]
      have hlen : ifaceAddrCount + (ifaces.length + 1) = ifaceAddrCount + 1 + ifaces.length := by omega
      rw [hlen]
      by_cases hin : RerrAccess.Inside rerrExt (.writeIface ifaceAddrCount)
      · rw [and_iff_right hin]
        exact ih (ifaceAddrCount + 1) hlt hin
      · refine iff_of_false (fun h => hin h.1) fun h => hin (Nat.le_trans ?_ h)
        have hmin : ifaceAddrCount + 1 ≤ min (ifaceAddrCount + 1 + ifaces.length) maxMeshIfacesCount := by omega
        exact Nat.add_le_add_left (Nat.mul_le_mul_right _ hmin) _
    · obtain rfl : ifaceAddrCount = maxMeshIfacesCount := Nat.le_antisymm hle (Nat.not_lt.mp hlt)
      rw [if_neg hlt, Nat.min_eq_right (Nat.le_add_right _ _)]
      simpa using hfit

namespace Node

section
variable (bigEndian : Bool) (n : Node) (m : ReceivedMsg)

/-- Every access to the message stays in the array, and in the data of its extension. -/
def StaysInside : Prop :=
  ∀ rerrExt, (m.getexts .rerr).head? = some rerrExt → ∀ a ∈ (n.receiveRerr bigEndian m).2, a.Inside rerrExt

/-- If a record is for a host whose next hop is known, then the extension holds the addresses it says it
has; and if the RERR affects a route, also those of this node. -/
def RerrFits : Prop :=
  ∀ rerrExt, (m.getexts .rerr).head? = some rerrExt →
    ((∃ dest ∈ m.records bigEndian, (aodvDbRtGetnexthop n.rt dest.host).isSome) → m.HoldsIfaces rerrExt) ∧
      ((∃ e ∈ n.rt.entries, Affects (m.rerr rerrExt) (m.records bigEndian) e) →
        offsetofIfaces + min n.meshiflist.length maxMeshIfacesCount * ethAlen ≤ rerrExt.size)

variable {bigEndian n m}

/-- On the bytes the handler does to the node what it does on the parsed message. -/
theorem receiveRerr_parsed {rerrExt : ReceivedExt} (hext : (m.getexts .rerr).head? = some rerrExt) (env : RxEnv)
    {msg : DessertMsg} (hr : msg.getRerr = some (m.rerr rerrExt)) (hd : msg.records = m.records bigEndian) :
    (n.receiveRerr bigEndian m).1 = (n.aodvHandleRerr env msg).1 := by
  have htable := congrArg Prod.fst (ReceivedMsg.rerrLoops_table m rerrExt bigEndian n.rt)
  have hrt : (m.rerrLoops rerrExt bigEndian n.rt).rt =
      (msg.records.foldl (rerrRecord (m.rerr rerrExt)) (n.rt, false)).1 := hd.symm ▸ htable
  simp only [receiveRerr, hext, aodvHandleRerr, hr]
  rw [hrt]
  split <;> rfl

theorem known_of_affects (hw : n.rt.WF) {rerr : AodvMsgRerr} {records : List AodvMacSeq} {e : RtEntry}
    (he : e ∈ n.rt.entries) (ha : Affects rerr records e) :
    ∃ dest ∈ records, (aodvDbRtGetnexthop n.rt dest.host).isSome := by
  obtain ⟨hk, -, dest, hd, hh, -⟩ := ha
  refine ⟨dest, hd, ?_⟩
  have hf : n.rt.find dest.host = some e := hw.find_iff.mpr ⟨he, hh.symm⟩
  simp [aodvDbRtGetnexthop, Rt.known, hf, hk]

/-- The accesses stay inside exactly if the extension is long enough for what is read and written. -/
theorem staysInside_iff {L : Libdessert} (bigEndian : Bool) (n : Node) (hn : Reachable L n) (m : ReceivedMsg) :
    n.StaysInside bigEndian m ↔ n.RerrFits bigEndian m := by
  unfold StaysInside RerrFits
  refine forall₂_congr fun rerrExt hext => ?_
  have hloops := @ReceivedMsg.rerrLoops_inside m rerrExt bigEndian n.rt hn.wf
  have hsend := @ReceivedMsg.rerrLoops_rebroadcast m rerrExt bigEndian n.rt hn.wf
  simp only [receiveRerr, hext]
  rw [List.forall_mem_append]
  refine and_congr_right_iff.mpr (fun hin => ?_) |>.trans (and_congr_left' hloops)
  by_cases hs : (m.rerrLoops rerrExt bigEndian n.rt).rebroadcastRerr = true
  · obtain ⟨e, he, ha⟩ := hsend.mp hs
    have hholds := hloops.mp hin (known_of_affects hn.wf he ha)
    have hzero : offsetofIfaces + 0 * ethAlen ≤ rerrExt.size := by
      rw [Nat.zero_mul]
      exact Nat.le_trans (Nat.le_add_right _ _) hholds.2
    have hcount : RerrAccess.Inside rerrExt .writeIfaceAddrCount := hzero
    rw [if_pos hs, List.forall_mem_cons, and_iff_right hcount,
      writeOwnIfaces_inside n.meshiflist 0 (Nat.zero_le _) hzero, Nat.zero_add]
    exact ⟨fun h _ => h, fun h => h ⟨e, he, ha⟩⟩
  · rw [if_neg hs]
    exact iff_of_true (fun a ha => nomatch ha) fun h => absurd (hsend.mpr h) hs

end

/-- A RERR extension of full size that says it has `count` addresses, and a record for the host 9. -/
def rerrOf (count : UInt8) : ReceivedMsg where
  bytes a :=
    ([3, 52, 128, count] ++ List.replicate 48 0 ++ [4, 12, 0, 0, 0, 0, 0, 9, 4, 0, 0, 0] : List UInt8).getD a 0
  length := 64
  exts :=
    [{ type := .rerr, data := 2, len := 52, header := by decide },
      { type := .rerrdl, data := 54, len := 12, header := by decide }]
  inside := by decide

theorem staysInside_eightIfaces : routedTo9.StaysInside false (rerrOf 8) := by
  refine (@staysInside_iff roomy false routedTo9 ⟨{}, 8, [wlan], _, rfl⟩ (rerrOf 8)).mpr ?_
  intro rerrExt hext
  obtain rfl := Option.some.inj hext
  exact ⟨fun _ => by unfold ReceivedMsg.HoldsIfaces; decide, fun _ => by decide⟩

/-- The ninth address is read behind the array and behind the extension. -/
theorem not_staysInside_nineIfaces : ¬ routedTo9.StaysInside false (rerrOf 9) := by
  intro h
  have hread := h _ rfl (.readIface 8) (by decide)
  exact absurd hread (by decide)

end Node

end DesAodv
