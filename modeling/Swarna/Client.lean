import Swarna.Utility

/-!
# Swarna.Client

The client (`udp-client.c`), as compiled: `BROADCAST_TO_PARENTS` and `ATTESTATION_TIME_TEST` are 1,
`BINARY_TREE` is 0, so `p_timer` is never set. `attest` stands for the node's `attest_memory`.
-/

namespace Swarna
namespace Client

structure State where
  checksum : Checksum
  ctimerResp : ResponsePkt
  /-- `send_to_parents` has opened its connection, which is bound to the checksum port. -/
  parentConn : Bool
  deriving DecidableEq, Repr

def init : State := ⟨0, .other 0, false⟩

/-- The response, `none` if the attestation failed, and the state with `checksum` set. -/
def createResponse (nd : Node) (attest : BitVec 32 → Option Checksum) (s : State)
    (mpkt : RequestPacket) : State × Option ResponsePkt :=
  match attest mpkt.seed with
  | none => (s, none)
  | some checksum =>
    ({ s with checksum := checksum },
      if mpkt.pktType = topology then
        some (.topology
          { pathindex := 1, path := [nd.id], maxLeafRank := nd.rank, checksum := checksum })
      else if mpkt.pktType = attestation then some (.attestation checksum)
      else some (.other 0))

/-- `tcpip_handler`. Only the assignment to `ctimer_resp` depends on the success of
`create_response`; without it, a packet of zeros or the previous response goes out. -/
def tcpipHandler (nd : Node) (attest : BitVec 32 → Option Checksum) (s : State)
    (mpkt : RequestPacket) : State × List Action :=
  let (s, resp) := createResponse nd attest s mpkt
  let s := { s with ctimerResp := resp.getD s.ctimerResp }
  if mpkt.pktType = topology then
    ({ s with parentConn := true }, [sendToParents nd (resp.getD (.other 0)) true])
  else (s, [.broadcastToParents s.ctimerResp])

theorem tcpipHandler_topology {nd : Node} {attest : BitVec 32 → Option Checksum} {s : State}
    {mpkt : RequestPacket} {x : Checksum} (h : mpkt.pktType = topology)
    (hx : attest mpkt.seed = some x) : tcpipHandler nd attest s mpkt =
      ({ checksum := x, ctimerResp := .topology ⟨1, [nd.id], nd.rank, x⟩, parentConn := true },
        [sendToParents nd (.topology ⟨1, [nd.id], nd.rank, x⟩) true]) := by
  simp [tcpipHandler, createResponse, h, hx]

def udpSecreqCallback (s : State) (secreq : RequestPacket) : List Action :=
  if secreq.pktType = secondRound then [.sendSecResp ⟨0, s.checksum⟩] else []

inductive Event where
  /-- A request sent to the multicast group. -/
  | mcast (mpkt : RequestPacket)
  /-- A response on the checksum port. -/
  | tcpip (pkt : ResponsePkt)
  /-- A response on the broadcast port. -/
  | broadcast (pkt : ResponsePkt)
  | secReq (secreq : RequestPacket)
  deriving DecidableEq, Repr

/-- One event. A response of a neighbour is read as a request; before the first answer to a
topology request no connection accepts it. -/
def step (nd : Node) (attest : BitVec 32 → Option Checksum) (s : State) : Event →
    State × List Action
  | .mcast mpkt => tcpipHandler nd attest s mpkt
  | .tcpip pkt => if s.parentConn then tcpipHandler nd attest s (asRequest pkt) else (s, [])
  | .broadcast _ => (s, [])
  | .secReq secreq => (s, udpSecreqCallback s secreq)

end Client
end Swarna
