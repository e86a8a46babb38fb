import DesAodv.Bytes
import DesAodv.RerrMessages

/-!
# RERR records on the wire

`aodv_create_rerr` lays the records of an extension out as packed structures;
`aodv_handle_rerr` computes their number from the length of the extension. Hosts
are byte arrays, sequence numbers are copied in the byte order of the machine.
-/

namespace DesAodv

/-- `struct aodv_mac_seq` in memory. -/
def AodvMacSeq.encode (bigEndian : Bool) (dest : AodvMacSeq) : List UInt8 :=
  let seq := Bytes.toBytes 4 dest.sequenceNumber.toNat
  (Bytes.toBytes 6 dest.host.toNat).reverse ++ if bigEndian then seq.reverse else seq

def AodvMacSeq.decode (bigEndian : Bool) (bs : List UInt8) : AodvMacSeq :=
  let seq := bs.drop 6
  { host := BitVec.ofNat 48 (Bytes.ofBytes (bs.take 6).reverse)
    sequenceNumber := UInt32.ofNat (Bytes.ofBytes (if bigEndian then seq.reverse else seq)) }

inductive ExtType
  | rreq | rrep | rerr | rerrdl | hello
  deriving DecidableEq, Repr

/-- `dessert_ext_t`: the length counts the two bytes before the data. -/
structure DessertExt where
  type : ExtType
  len : Nat
  data : List UInt8
  deriving DecidableEq, Repr

section
variable (bigEndian : Bool) (otherData : Ext → List UInt8)

def Ext.type : Ext → ExtType
  | .rreq _ => .rreq
  | .rrep _ => .rrep
  | .rerr _ => .rerr
  | .rerrdl _ => .rerrdl
  | .hello _ => .hello

def Ext.data (e : Ext) : List UInt8 :=
  match e with
  | .rerrdl dl => Bytes.writeRecords (AodvMacSeq.encode bigEndian) dl
  | e => otherData e

def Ext.wire (e : Ext) : DessertExt :=
  { type := e.type, len := (e.data bigEndian otherData).length + 2, data := e.data bigEndian otherData }

def DessertMsg.wire (msg : DessertMsg) : List DessertExt := msg.exts.map (Ext.wire bigEndian otherData)

end

/-! ## Reading -/

/-- `dessert_msg_getext`: the extension with this index among those of its type. -/
def dessertMsgGetext (exts : List DessertExt) (type : ExtType) (index : Nat) : Option DessertExt :=
  (exts.filter fun e => decide (e.type = type))[index]?

/-- The loop over one destination list. -/
def readDestinations (bigEndian : Bool) (rerrdlExt : DessertExt) : List AodvMacSeq :=
  let destinationCount := (rerrdlExt.len - 2) / sizeofAodvMacSeq
  Bytes.readRecords sizeofAodvMacSeq (AodvMacSeq.decode bigEndian) destinationCount rerrdlExt.data

/-- The loop over the extensions, cut off after a number of turns: the records read, and whether the loop
has ended. -/
def readRerrdls (bigEndian : Bool) (exts : List DessertExt) : Nat → Nat → List AodvMacSeq × Bool
  | 0, _ => ([], false)
  | turns + 1, rerrdlNum =>
    match dessertMsgGetext exts .rerrdl rerrdlNum with
    | none => ([], true)
    | some rerrdlExt =>
      let (rest, ended) := readRerrdls bigEndian exts turns (rerrdlNum + 1)
      (readDestinations bigEndian rerrdlExt ++ rest, ended)

/-! ## One record -/

section
variable (bigEndian : Bool)

theorem length_encode (dest : AodvMacSeq) : (dest.encode bigEndian).length = sizeofAodvMacSeq := by
  cases bigEndian <;> simp [AodvMacSeq.encode, sizeofAodvMacSeq]

theorem decode_encode (dest : AodvMacSeq) : AodvMacSeq.decode bigEndian (dest.encode bigEndian) = dest := by
  have hhost : Bytes.ofBytes (Bytes.toBytes 6 dest.host.toNat) = dest.host.toNat :=
    Bytes.ofBytes_toBytes_of_lt dest.host.isLt
  have hseq : Bytes.ofBytes (Bytes.toBytes 4 dest.sequenceNumber.toNat) = dest.sequenceNumber.toNat :=
    Bytes.ofBytes_toBytes_of_lt dest.sequenceNumber.toNat_lt
  have htake : (dest.encode bigEndian).take 6 = (Bytes.toBytes 6 dest.host.toNat).reverse := by
    apply List.take_left'
    rw [List.length_reverse, Bytes.length_toBytes]
  have hdrop : (dest.encode bigEndian).drop 6 =
      if bigEndian then (Bytes.toBytes 4 dest.sequenceNumber.toNat).reverse
      else Bytes.toBytes 4 dest.sequenceNumber.toNat := by
    apply List.drop_left'
    rw [List.length_reverse, Bytes.length_toBytes]
  simp only [AodvMacSeq.decode, htake, hdrop, List.reverse_reverse, hhost, BitVec.ofNat_toNat, BitVec.setWidth_eq]
  cases bigEndian <;> simp [hseq]

theorem readDestinations_wire (otherData : Ext → List UInt8) (dl : List AodvMacSeq) :
    readDestinations bigEndian ((Ext.rerrdl dl).wire bigEndian otherData) = dl := by
  have hlen := Bytes.length_writeRecords (length_encode bigEndian) dl
  have hcount : ((Ext.rerrdl dl).wire bigEndian otherData).len - 2 = dl.length * sizeofAodvMacSeq := hlen
  have hdiv : dl.length * sizeofAodvMacSeq / sizeofAodvMacSeq = dl.length := Nat.mul_div_cancel _ (by decide)
  simp only [readDestinations, hcount, hdiv]
  exact Bytes.readRecords_writeRecords (length_encode bigEndian) (decode_encode bigEndian) dl

/-! ## All extensions -/

theorem filter_wire (otherData : Ext → List UInt8) (msg : DessertMsg) :
    (msg.wire bigEndian otherData).filter (fun e => decide (e.type = .rerrdl)) =
      msg.getRerrdls.map fun dl => (Ext.rerrdl dl).wire bigEndian otherData := by
  unfold DessertMsg.wire DessertMsg.getRerrdls
  induction msg.exts with
  | nil => rfl
  | cons e es ih =>
    cases e with
    | rerrdl dl =>
      rw [List.map_cons, List.filter_cons_of_pos (by rfl), ih]
      rfl
    | _ =>
      rw [List.map_cons, List.filter_cons_of_neg (by simp [Ext.wire, Ext.type]), ih]
      rfl

theorem getext_wire (otherData : Ext → List UInt8) (msg : DessertMsg) (rerrdlNum : Nat) :
    dessertMsgGetext (msg.wire bigEndian otherData) .rerrdl rerrdlNum =
      (msg.getRerrdls[rerrdlNum]?).map fun dl => (Ext.rerrdl dl).wire bigEndian otherData := by
  rw [dessertMsgGetext, filter_wire, List.getElem?_map]

theorem readRerrdls_from (otherData : Ext → List UInt8) (msg : DessertMsg) (turns rerrdlNum : Nat)
    (hle : rerrdlNum ≤ msg.getRerrdls.length) (hturns : msg.getRerrdls.length < rerrdlNum + turns) :
    readRerrdls bigEndian (msg.wire bigEndian otherData) turns rerrdlNum =
      ((msg.getRerrdls.drop rerrdlNum).flatten, true) := by
  induction turns generalizing rerrdlNum with
  | zero => omega
  | succ turns ih =>
    rw [readRerrdls, getext_wire]
    by_cases hlt : rerrdlNum < msg.getRerrdls.length
    · rw [List.getElem?_eq_getElem hlt, Option.map_some]
      simp only
      rw [ih (rerrdlNum + 1) (by omega) (by omega), readDestinations_wire, List.drop_eq_getElem_cons hlt,
        List.flatten_cons]
    · have hge : msg.getRerrdls.length ≤ rerrdlNum := Nat.not_lt.mp hlt
      rw [List.getElem?_eq_none hge, Option.map_none, List.drop_eq_nil_of_le hge]
      rfl

theorem length_getRerrdls (msg : DessertMsg) : msg.getRerrdls.length ≤ msg.exts.length :=
  List.length_filterMap_le _ _

theorem readRerrdls_wire (otherData : Ext → List UInt8) (msg : DessertMsg) (more : Nat) :
    readRerrdls bigEndian (msg.wire bigEndian otherData) (msg.exts.length + 1 + more) 0 = (msg.records, true) := by
  have hlen := length_getRerrdls msg
  rw [readRerrdls_from bigEndian otherData msg _ 0 (Nat.zero_le _) (by omega), List.drop_zero]
  rfl

/-- The RERR that is made from a destination list is read back as the part of the list that went in. -/
theorem rerr_wire (L : Libdessert) (otherData : Ext → List UInt8) {n : Node} {destlist rest : List AodvMacSeq}
    {msg : DessertMsg} (h : n.aodvCreateRerr L destlist = some (msg, rest)) (more : Nat) :
    ∃ records, readRerrdls bigEndian (msg.wire bigEndian otherData) (msg.exts.length + 1 + more) 0 =
        (records, true) ∧ records ++ rest = destlist := by
  refine ⟨msg.records, readRerrdls_wire bigEndian otherData msg more, ?_⟩
  unfold Node.aodvCreateRerr at h
  split at h
  · cases h
  · have hrec := addRerrdls_records L destlist.length n.rerrHeader destlist
    rw [Option.some.inj h, Node.rerrHeader_records, List.nil_append] at hrec
    exact hrec

end

/-- A RERR for two destinations, read on a machine with the least significant byte first. -/
theorem rerr_wire_two :
    let destlist : List AodvMacSeq := [{ host := 9, sequenceNumber := 4 }, { host := 10, sequenceNumber := 70000 }]
    ∃ msg, Node.aodvCreateRerr roomy (aodvDbInit {} 8 [wlan]) destlist = some (msg, []) ∧
      ∃ records, readRerrdls false (msg.wire false fun _ => []) (msg.exts.length + 1 + 0) 0 = (records, true) ∧
        records ++ [] = destlist := by
  intro destlist
  have h : Node.aodvCreateRerr roomy (aodvDbInit {} 8 [wlan]) destlist =
      some ({ (aodvDbInit {} 8 [wlan]).rerrHeader with
        exts := (aodvDbInit {} 8 [wlan]).rerrHeader.exts ++ [.rerrdl destlist] }, []) := by decide
  exact ⟨_, h, rerr_wire false roomy (fun _ => []) h 0⟩

end DesAodv
