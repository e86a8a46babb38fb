import DesAodv.Helper

/-!
# Messages

The messages of `aodv_pipeline.h` as extensions of a libdessert message. The
records of an extension are parsed data; `Libdessert` stands for the limits the
library puts on adding one.
-/

namespace DesAodv

/-- `struct aodv_msg_rreq` with the flags the daemon sets and tests. -/
structure AodvMsgRreq where
  flagU : Bool
  flagD : Bool
  destinationSequenceNumber : UInt32
  originatorSequenceNumber : UInt32
  deriving DecidableEq, Repr

structure AodvMsgRrep where
  flags : UInt8
  destinationSequenceNumber : UInt32
  lifetime : Nat
  deriving DecidableEq, Repr

/-- `struct aodv_msg_rerr`. `ifaces` are the slots of the address array; `ifaceAddrCount` comes with
the message and need not agree with them. -/
structure AodvMsgRerr where
  flagN : Bool
  ifaceAddrCount : UInt8
  ifaces : List MacAddr
  deriving DecidableEq, Repr

structure AodvMsgHello where
  helloRcvdCount : UInt8
  helloInterval : UInt16
  deriving DecidableEq, Repr

/-- `aodv_mac_seq_t`; an `aodv_link_break_element_t` holds the same two values. -/
structure AodvMacSeq where
  host : MacAddr
  sequenceNumber : UInt32
  deriving DecidableEq, Repr

/-- Packed: six bytes and four bytes. -/
def sizeofAodvMacSeq : Nat := 10

inductive Ext
  | rreq (m : AodvMsgRreq)
  | rrep (m : AodvMsgRrep)
  | rerr (m : AodvMsgRerr)
  | rerrdl (dl : List AodvMacSeq)
  | hello (m : AodvMsgHello)
  deriving DecidableEq, Repr

/-- A message with its frame header `l2h`, the Ethernet header of `DESSERT_EXT_ETH` and the other
extensions in order. -/
structure DessertMsg where
  ttl : UInt8
  u8 : UInt8
  u16 : UInt16
  l2Shost : MacAddr
  l2Dhost : MacAddr
  l25Shost : MacAddr
  l25Dhost : MacAddr
  exts : List Ext
  payload : List UInt8
  deriving DecidableEq, Repr

def etherBroadcast : MacAddr := 0xFFFFFFFFFFFF

namespace DessertMsg

def getRreq (msg : DessertMsg) : Option AodvMsgRreq :=
  msg.exts.findSome? fun | .rreq m => some m | _ => none

def getRrep (msg : DessertMsg) : Option AodvMsgRrep :=
  msg.exts.findSome? fun | .rrep m => some m | _ => none

def getRerr (msg : DessertMsg) : Option AodvMsgRerr :=
  msg.exts.findSome? fun | .rerr m => some m | _ => none

def getHello (msg : DessertMsg) : Option AodvMsgHello :=
  msg.exts.findSome? fun | .hello m => some m | _ => none

/-- The `RERRDL` extensions, in the order of their index. -/
def getRerrdls (msg : DessertMsg) : List (List AodvMacSeq) :=
  msg.exts.filterMap fun | .rerrdl dl => some dl | _ => none

/-- Writing through the pointer to the first extension of a type. -/
def setExt (put : Ext → Option Ext) : List Ext → List Ext
  | [] => []
  | e :: es =>
    match put e with
    | some e' => e' :: es
    | none => e :: setExt put es

def setRreq (msg : DessertMsg) (m : AodvMsgRreq) : DessertMsg :=
  { msg with exts := setExt (fun | .rreq _ => some (.rreq m) | _ => none) msg.exts }

def setRerr (msg : DessertMsg) (m : AodvMsgRerr) : DessertMsg :=
  { msg with exts := setExt (fun | .rerr _ => some (.rerr m) | _ => none) msg.exts }

def setHello (msg : DessertMsg) (m : AodvMsgHello) : DessertMsg :=
  { msg with exts := setExt (fun | .hello _ => some (.hello m) | _ => none) msg.exts }

/-- The destination records of a message, in the order `aodv_handle_rerr` reads them. -/
def records (msg : DessertMsg) : List AodvMacSeq := msg.getRerrdls.flatten

/-! ## Writing extensions -/

section
variable {β : Type} {put : Ext → Option Ext} {get : Ext → Option β}

theorem findSome?_setExt (h : ∀ e e', put e = some e' → get e = none ∧ get e' = none) (es : List Ext) :
    (setExt put es).findSome? get = es.findSome? get := by
  induction es with
  | nil => rfl
  | cons e es ih =>
    rw [setExt]
    cases hp : put e with
    | none => simp only [List.findSome?_cons, ih]
    | some e' => simp only [List.findSome?_cons, h e e' hp]

theorem filterMap_setExt (h : ∀ e e', put e = some e' → get e = none ∧ get e' = none) (es : List Ext) :
    (setExt put es).filterMap get = es.filterMap get := by
  induction es with
  | nil => rfl
  | cons e es ih =>
    rw [setExt]
    cases hp : put e with
    | none => simp only [List.filterMap_cons, ih]
    | some e' => simp only [List.filterMap_cons, h e e' hp]

theorem findSome?_setExt_self {x : β}
    (h : ∀ e, put e = none ∧ get e = none ∨ ∃ e', put e = some e' ∧ get e' = some x) {es : List Ext}
    (hs : (es.findSome? get).isSome = true) : (setExt put es).findSome? get = some x := by
  induction es with
  | nil => cases hs
  | cons e es ih =>
    rw [setExt]
    rcases h e with ⟨hp, hg⟩ | ⟨e', hp, hg⟩
    · rw [List.findSome?_cons, hg] at hs
      simp only [hp, List.findSome?_cons, hg]
      exact ih hs
    · simp only [hp, List.findSome?_cons, hg]

end

end DessertMsg

/-- `proc->lflags`, as far as the daemon tests it. -/
structure LFlags where
  l2Src : Bool
  l2Dst : Bool
  l25Src : Bool
  l25Dst : Bool
  l25Broadcast : Bool
  l25Multicast : Bool
  deriving DecidableEq, Repr

/-- What the daemon hands to libdessert: a message for one mesh interface, for all of them
(`none`), or for the system. -/
inductive Sent
  | mesh (msg : DessertMsg) (iface : Option Meshif)
  | sys (msg : DessertMsg)
  deriving DecidableEq, Repr

/-- The result of a pipeline callback. -/
inductive Verdict
  | keep | drop
  deriving DecidableEq, Repr

/-- The limits of `dessert_msg_addext`: the largest extension, and whether a message has room left for
that many bytes of data. -/
structure Libdessert where
  maxExtDataLen : Nat
  room : DessertMsg → Nat → Bool

namespace Libdessert
variable (L : Libdessert)

def maxMacSeqPerExt : Nat := L.maxExtDataLen / sizeofAodvMacSeq

/-- `dessert_msg_addext` of a `RERRDL` extension: it fails without effect, or appends. -/
def addRerrdl (msg : DessertMsg) (dl : List AodvMacSeq) : Option DessertMsg :=
  let len := dl.length * sizeofAodvMacSeq
  if L.maxExtDataLen < len then none
  else if L.room msg len then some { msg with exts := msg.exts ++ [.rerrdl dl] }
  else none

end Libdessert

end DesAodv
