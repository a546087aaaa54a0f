import Swarna.Client
import Swarna.Network
import Swarna.Relay

/-!
# Swarna.Deployment

The nodes of a testbed as a `Network`: the border router, relays and clients, with their RPL
tables, addresses and radio neighbours. A node's outputs become datagrams: one for each address
`send_to_parents` sends to, one for each node that hears a broadcast.
-/

namespace Swarna

inductive Port where
  /-- `PARENT_UDP_CHECKSUM_PORT`. -/
  | checksum
  /-- `CHECKSUM_PORT`. -/
  | broadcast
  deriving DecidableEq, Repr

structure Datagram where
  port : Port
  pkt : ResponsePkt
  deriving DecidableEq, Repr

/-- The border router takes responses in and sends none. -/
inductive NodeState where
  | router
  | relay (s : Relay.State)
  | client (s : Client.State)

/-- What happens at a node besides the datagrams of other nodes. -/
inductive NodeEvent where
  | request (mpkt : RequestPacket)
  | periodicExpiry
  | pExpiry
  deriving DecidableEq, Repr

structure Deployment (ι : Type) where
  node : ι → Node
  addr : ι → Addr
  /-- The node an address belongs to. -/
  resolve : Addr → Option ι
  resolve_addr : ∀ n, resolve (addr n) = some n
  /-- The nodes that hear a broadcast of a node. -/
  hears : ι → List ι
  /-- `attest_memory` of a client. -/
  attest : ι → BitVec 32 → Option Checksum
  buffers : Buffers

/-- The trace of one node. -/
abbrev NodeHistory (ι : Type) := Trace (Input ι Datagram NodeEvent) Action

variable {ι : Type}

def Asked (τ : NodeHistory ι) : Prop := ∃ x ∈ τ, ∃ mpkt, x.1 = .ext (.request mpkt)

def IsClient (nodes : ι → NodeState) (n : ι) : Prop := ∃ s, nodes n = .client s

namespace Deployment

/-- The nodes as given, nothing in flight. -/
def start (nodes : ι → NodeState) : Network.State ι NodeState Datagram := ⟨nodes, []⟩

variable (D : Deployment ι)

def relayEvent : Input ι Datagram NodeEvent → Relay.Event
  | .recv src ⟨.checksum, pkt⟩ => .tcpip (D.addr src) pkt
  | .recv src ⟨.broadcast, pkt⟩ => .broadcast (D.addr src) pkt
  | .ext (.request mpkt) => .mcast mpkt
  | .ext .periodicExpiry => .periodicExpiry
  | .ext .pExpiry => .pExpiry

/-- A client has no timers. -/
def clientEvent : Input ι Datagram NodeEvent → Option Client.Event
  | .recv _ ⟨.checksum, pkt⟩ => some (.tcpip pkt)
  | .recv _ ⟨.broadcast, pkt⟩ => some (.broadcast pkt)
  | .ext (.request mpkt) => some (.mcast mpkt)
  | .ext .periodicExpiry => none
  | .ext .pExpiry => none

def step (n : ι) : NodeState → Input ι Datagram NodeEvent → Except Fault (NodeState × List Action)
  | .router, _ => .ok (.router, [])
  | .relay s, x =>
    match Relay.step (D.node n) D.buffers s (D.relayEvent x) with
    | .error f => .error f
    | .ok (s, out) => .ok (.relay s, out)
  | .client s, x =>
    match clientEvent x with
    | none => .ok (.client s, [])
    | some e =>
      let (s, out) := Client.step (D.node n) (D.attest n) s e
      .ok (.client s, out)

variable {D} in
theorem step_relay {n : ι} {s s' : Relay.State} {x : Input ι Datagram NodeEvent}
    {out : List Action}
    (h : Relay.step (D.node n) D.buffers s (D.relayEvent x) = .ok (s', out)) :
    D.step n (.relay s) x = .ok (.relay s', out) := by
  simp only [step, h]

variable {D} in
theorem step_relay_inv {n : ι} {s : Relay.State} {v : NodeState} {x : Input ι Datagram NodeEvent}
    {out : List Action} (h : D.step n (.relay s) x = .ok (v, out)) :
    ∃ s', Relay.step (D.node n) D.buffers s (D.relayEvent x) = .ok (s', out) ∧ v = .relay s' := by
  simp only [step] at h
  split at h
  · cases h
  · rename_i s' out' hs
    cases h
    exact ⟨s', hs, rfl⟩

/-- The datagrams of an action. A second-round answer goes to the border router's own port. -/
def post (n : ι) : Action → List (ι × Datagram)
  | .sendToParents pkt _ dst => (dst.filterMap D.resolve).map fun d => (d, ⟨.checksum, pkt⟩)
  | .storeBroadcast _ => []
  | .broadcastToParents pkt => (D.hears n).map fun d => (d, ⟨.broadcast, pkt⟩)
  | .sendSecResp _ => []

/-- The checksum of a node as an honest node reports it. -/
def own (n : ι) : Checksum := ownChecksum (D.node n).id

def network : Network ι NodeState Datagram NodeEvent Action Fault := ⟨D.step, D.post⟩

end Deployment

end Swarna
