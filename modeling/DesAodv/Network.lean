import DesAodv.Daemon
import DesAodv.Runs
import DesAodv.Chain

/-!
# Networks of daemons

Any number of daemons and the frames in flight between them. A frame that is
sent is put in flight to every neighbor of the sender; frames in flight are
received in any order, or lost.
-/

namespace DesAodv

/-- A frame on its way to one receiver. -/
structure Flight (N : Type) where
  receiver : N
  msg : DessertMsg
  deriving DecidableEq

structure Net (N : Type) where
  nodes : N → Node
  inFlight : List (Flight N)

/-- `dessert_msg_ifaceflags_cb`. -/
def Node.lflags (n : Node) (msg : DessertMsg) : LFlags :=
  { l2Src := n.meshiflist.any fun i => decide (i.hwaddr = msg.l2Shost)
    l2Dst := n.meshiflist.any fun i => decide (i.hwaddr = msg.l2Dhost)
    l25Src := decide (n.l25Defsrc = msg.l25Shost)
    l25Dst := decide (n.l25Defsrc = msg.l25Dhost)
    l25Broadcast := decide (msg.l25Dhost = etherBroadcast)
    l25Multicast := msg.l25Dhost.getLsbD 40 && decide (msg.l25Dhost ≠ etherBroadcast) }

/-- The frames of a message: one for each interface it is sent on, with the address of that interface as
source. -/
def Node.frames (n : Node) : Sent → List DessertMsg
  | .mesh msg (some iface) => [{ msg with l2Shost := iface.hwaddr }]
  | .mesh msg none => n.meshiflist.map fun iface => { msg with l2Shost := iface.hwaddr }
  | .sys _ => []

/-- What happens in a network: something other than a reception at a node, the reception of the `k`-th
frame in flight, or its loss. -/
inductive NetAction (N : Type)
  | own (i : N) (ev : NodeEvent)
  | receive (k : Nat) (now : Timeval) (link : LinkSample) (gossip : Bool) (rcvdHellos : Option UInt8)
  | lose (k : Nat)

section
variable (L : Libdessert) {N : Type} [DecidableEq N] (neighbors : N → List N)

def Net.transmit (n : Node) (i : N) (sent : List Sent) : List (Flight N) :=
  (sent.flatMap n.frames).flatMap fun msg => (neighbors i).map fun receiver => { receiver, msg }

/-- Node `i` has taken an event. -/
def Net.update (net : Net N) (i : N) (r : Node × List Sent) : Net N :=
  { nodes := Function.update net.nodes i r.1
    inFlight := net.inFlight ++ Net.transmit neighbors r.1 i r.2 }

def Net.rxEnv (n : Node) (msg : DessertMsg) (now : Timeval) (link : LinkSample) (gossip : Bool)
    (rcvdHellos : Option UInt8) : RxEnv :=
  { lflags := n.lflags msg, iface := n.meshiflist.headD { ifindex := 0, hwaddr := 0 }, now, link, gossip,
    rcvdHellos }

def Net.step (net : Net N) : NetAction N → Net N
  | .own _ (.mesh ..) => net
  | .own i ev => net.update neighbors i ((net.nodes i).handle L ev)
  | .receive k now link gossip rcvdHellos =>
    match net.inFlight[k]? with
    | none => net
    | some f =>
      let n := net.nodes f.receiver
      let env := Net.rxEnv n f.msg now link gossip rcvdHellos
      { net with inFlight := net.inFlight.eraseIdx k }.update neighbors f.receiver (n.receive L env f.msg)
  | .lose k => { net with inFlight := net.inFlight.eraseIdx k }

end

end DesAodv
