import Swarna.ChildList
import Swarna.Machine

/-!
# Swarna.Relay

The relay (`udp-relay.c`), as compiled: `BROADCAST_TO_PARENTS` and `ATTESTATION_TIME_TEST` are 1,
`BINARY_TREE` is 0.

`State` holds the static variables, `step` runs the handler of one event to its end; handlers are
not interrupted. Time is not modelled: an armed timer may expire at any moment. The UDP
connection `send_to_parents` asks for is taken to be granted.

`process_topology_req` reads the packet through a pointer while it sends. What the pointer reads
after a send is up to the network stack (`Buffers`): `tcpip_handler` passes a pointer into the
stack's own buffer, `checksum_receiver` one into a copy.
-/

namespace Swarna

/-! ## Callback timers -/

/-- A `ctimer` and the callback it was last set with. -/
structure CTimer (α : Type) where
  armed : Bool
  callback : Option α
  deriving DecidableEq, Repr

namespace CTimer

variable {α : Type}

def unset : CTimer α := ⟨false, none⟩

/-- `ctimer_set`. -/
def set (_ : CTimer α) (f : α) : CTimer α := ⟨true, some f⟩

/-- `ctimer_reset`: armed again, with the callback last set. -/
def reset (t : CTimer α) : CTimer α := ⟨true, t.callback⟩

/-- The callback an expiry calls, if the timer is armed and has one, and the timer after it. -/
def expire (t : CTimer α) : Option α × CTimer α :=
  (if t.armed then t.callback else none, ⟨false, t.callback⟩)

theorem expire_eq_some {t : CTimer α} {f : α} :
    t.expire.1 = some f ↔ t.armed = true ∧ t.callback = some f := by
  cases h : t.armed <;> simp [expire, h]

theorem expire_eq_none {t : CTimer α} (h : t.callback = none) : t.expire.1 = none := by
  simp [expire, h]

theorem expire_unarmed {t : CTimer α} (h : t.armed = false) : t.expire.1 = none := by
  simp [expire, h]

@[simp] theorem expire_armed (t : CTimer α) : t.expire.2.armed = false := rfl
@[simp] theorem expire_callback (t : CTimer α) : t.expire.2.callback = t.callback := rfl

end CTimer

/-- The functions `periodic_timer` is set with. -/
inductive PeriodicCallback where
  | sendTopologyResp
  | sendAttestationResp
  deriving DecidableEq, Repr

/-- The function `p_timer` is set with. -/
inductive PCallback where
  | broadcastToParents
  deriving DecidableEq, Repr

/-- What the packet pointer of a handler reads once a packet has been sent, from what it read
before and the packet sent. -/
structure Buffers where
  /-- `uip_appdata`, passed on by `tcpip_handler`. -/
  uipAppdata : TopologyInfo → TopologyInfo → TopologyInfo
  /-- The data handed to `checksum_receiver`. -/
  databuffer : TopologyInfo → TopologyInfo → TopologyInfo

/-- Contiki's buffers: a sent packet is built where `uip_appdata` points to; `simple_udp` hands its
callback a copy. -/
def Buffers.contiki : Buffers := ⟨fun _ sent => sent, fun received _ => received⟩

namespace Relay

/-- The static variables of `udp-relay.c` and its child table. -/
structure State where
  checksumChildren : Vector Checksum maxChild
  secChecksumChildren : Vector Checksum maxChild
  maxIndex : BitVec 8
  firstRoundCompleted : Bool
  myChecksum : Checksum
  paths : Vector NodeId maxPathNodes
  curLoc : Nat
  pathsLoc : Nat
  firstChild : Bool
  periodicTimer : CTimer PeriodicCallback
  pTimer : CTimer PCallback
  maxLeafRank : Rank
  ctimerResp : ResponsePkt
  childList : ChildList
  deriving DecidableEq, Repr

/-- The state at start-up, with the child table `network_settled` will build. -/
def init (children : ChildList) : State where
  checksumChildren := Vector.replicate maxChild 0
  secChecksumChildren := Vector.replicate maxChild 0
  maxIndex := 0
  firstRoundCompleted := true
  myChecksum := 0
  paths := Vector.replicate maxPathNodes 0
  curLoc := 0
  pathsLoc := 0
  firstChild := true
  periodicTimer := .unset
  pTimer := .unset
  maxLeafRank := 0
  ctimerResp := .other 0
  childList := children

def resetVariable (s : State) : State :=
  { s with
    firstRoundCompleted := true
    maxIndex := BitVec.ofNat 8 s.curLoc
    secChecksumChildren := s.checksumChildren
    curLoc := 0
    pathsLoc := 0
    firstChild := true
    paths := Vector.replicate maxPathNodes 0
    childList := s.childList.restChildList }

/-- `checksum_children[cur_loc] = checksum`, and `cur_loc` moves on. -/
def storeChecksum (s : State) (checksum : Checksum) : Except Fault State :=
  if h : s.curLoc < maxChild then
    .ok { s with
      checksumChildren := s.checksumChildren.set s.curLoc checksum h
      curLoc := s.curLoc + 1 }
  else .error .checksumOverflow

/-- The loop of `get_combined_checksum`, with `n` rounds to go. `c_index` is a `uint8_t`: it would
wrap before reaching a `cur_loc` past 255, but a read past the array comes first. -/
def combine (a : Vector Checksum maxChild) :
    (n : Nat) → (cIndex : Nat) → Checksum → Except Fault Checksum
  | 0, _, combined => .ok combined
  | n + 1, cIndex, combined =>
    if h : cIndex < maxChild then combine a n (cIndex + 1) (combined ^^^ a[cIndex])
    else .error .checksumOverread

/-- The combined checksum, and the state with `my_checksum` set. -/
def getCombinedChecksum (nd : Node) (s : State) : Except Fault (Checksum × State) :=
  match combine s.checksumChildren s.curLoc 0 0 with
  | .error f => .error f
  | .ok combined =>
    match attestMemory nd.id (combined.setWidth 32) with
    | some mine => .ok (combined ^^^ mine, { s with myChecksum := mine })
    | none => .ok (0, s)

def sendAttestationResp (nd : Node) (s : State) : Except Fault (State × List Action) :=
  match getCombinedChecksum nd s with
  | .error f => .error f
  | .ok (combined, s) =>
    if combined ≠ 0 then
      let resp := ResponsePkt.attestation combined
      .ok (resetVariable
        { s with ctimerResp := resp, pTimer := s.pTimer.set .broadcastToParents },
        [.storeBroadcast resp])
    else .ok (s, [])

/-- The packet `send_topology_resp` builds. -/
def buildTopologyResp (nd : Node) (s : State) (combined : Checksum) : Except Fault TopologyInfo :=
  if maxPathNodes < s.pathsLoc then .error .pathOverflow
  else if maxPathNodes - 1 ≤ s.pathsLoc then .error .pathindexUnset
  else .ok
    { pathindex := BitVec.ofNat 8 (s.pathsLoc + 1)
      path := s.paths.toList.take s.pathsLoc ++ [nd.id]
      maxLeafRank := s.maxLeafRank
      checksum := combined }

/-- `send_topology_resp`, with the packet it sends. -/
def sendTopologyResp (nd : Node) (s : State) : Except Fault (State × TopologyInfo) :=
  match getCombinedChecksum nd s with
  | .error f => .error f
  | .ok (combined, s) =>
    match buildTopologyResp nd s combined with
    | .error f => .error f
    | .ok resp => .ok (resetVariable s, resp)

def processAttestationReq (s : State) (checksum : Checksum) (childId : NodeId) :
    Except Fault State :=
  match storeChecksum s checksum with
  | .error f => .error f
  | .ok s =>
    if !s.childList.isChild childId then .ok s
    else if s.firstChild then
      .ok { s with
        periodicTimer := s.periodicTimer.set .sendAttestationResp
        firstChild := false }
    else .ok s

def isPresentPaths (s : State) (recvId : NodeId) : Bool :=
  (s.paths.toList.take s.pathsLoc).contains recvId

/-- The variables of the copying loop of `process_topology_req`. -/
structure Copy where
  s : State
  resp : TopologyInfo
  i : Nat
  sent : List TopologyInfo
  deriving DecidableEq, Repr

/-- The body of the loop for an id that is not present: append it, and send the path if full. -/
def copyId (nd : Node) (after : TopologyInfo → TopologyInfo → TopologyInfo) (l : Copy)
    (id : NodeId) : Except Fault Copy :=
  if h : l.i < maxPathNodes then
    let s := { l.s with paths := l.s.paths.set l.i id h }
    let i := l.i + 1
    if maxPathNodes - 2 ≤ i then
      match sendTopologyResp nd { s with pathsLoc := i } with
      | .error f => .error f
      | .ok (s, out) =>
        .ok { s := resetVariable s
              resp := if parents nd false = [] then l.resp else after l.resp out
              i := 0
              sent := l.sent ++ [out] }
    else .ok { l with s := s, i := i }
  else .error .pathOverflow

/-- The copying loop from index `j` on. `pathindex` is one byte, so `fuel` starts at 256 and is
used up only when `j` has passed every possible `pathindex`. -/
def copyPaths (nd : Node) (after : TopologyInfo → TopologyInfo → TopologyInfo) :
    (fuel : Nat) → (j : Nat) → Copy → Except Fault Copy
  | 0, _, l => .ok l
  | fuel + 1, j, l =>
    if j < l.resp.pathindex.toNat then
      if isPresentPaths l.s (l.resp.path.getD j 0) then copyPaths nd after fuel (j + 1) l
      else
        match copyId nd after l (l.resp.path.getD j 0) with
        | .error f => .error f
        | .ok l' => copyPaths nd after fuel (j + 1) l'
    else .ok l

/-- The state after the loop: `paths_loc = i`, and the packet's leaf rank if it is greater. -/
def Copy.taken (l : Copy) : State :=
  { l.s with
    pathsLoc := l.i
    maxLeafRank :=
      if l.s.maxLeafRank < l.resp.maxLeafRank then l.resp.maxLeafRank else l.s.maxLeafRank }

/-- `process_topology_req` on a packet of a child, up to the question whether all children have
answered; with the responses sent on the way. -/
def acceptTopologyReq (nd : Node) (after : TopologyInfo → TopologyInfo → TopologyInfo)
    (s : State) (resp : TopologyInfo) (childId : NodeId) :
    Except Fault (State × List TopologyInfo) :=
  match storeChecksum
    { s with
      periodicTimer := s.periodicTimer.reset
      childList := (s.childList.childSetPktReceived childId).2 } resp.checksum with
  | .error f => .error f
  | .ok s =>
    match copyPaths nd after 256 0 ⟨s, resp, s.pathsLoc, []⟩ with
    | .error f => .error f
    | .ok l => .ok (l.taken, l.sent)

/-- The end of `process_topology_req`: the response, or the timer. -/
def finishTopologyReq (nd : Node) (s : State) (sent : List TopologyInfo) :
    Except Fault (State × List TopologyInfo) :=
  if s.curLoc = s.childList.getChildCount then
    match sendTopologyResp nd s with
    | .error f => .error f
    | .ok (s, out) => .ok (s, sent ++ [out])
  else .ok ({ s with periodicTimer := s.periodicTimer.set .sendTopologyResp }, sent)

/-- `process_topology_req`, with the responses it sends. -/
def processTopologyReq (nd : Node) (after : TopologyInfo → TopologyInfo → TopologyInfo)
    (s : State) (resp : TopologyInfo) (childId : NodeId) :
    Except Fault (State × List TopologyInfo) :=
  if !s.childList.isChild childId then .ok (s, [])
  else
    match acceptTopologyReq nd after s resp childId with
    | .error f => .error f
    | .ok (s, sent) => finishTopologyReq nd s sent

/-! ## Requests -/

def isLeaf (s : State) : Bool := s.childList.getChildCount == 0

def createResponse (nd : Node) (mpkt : RequestPacket) : Option ResponsePkt :=
  match attestMemory nd.id mpkt.seed with
  | none => none
  | some checksum =>
    if mpkt.pktType = topology then
      some (.topology
        { pathindex := 1, path := [nd.id], maxLeafRank := nd.rank, checksum := checksum })
    else if mpkt.pktType = attestation then some (.attestation checksum)
    else some (.other 0)

def mcastTcpipHandler (nd : Node) (s : State) (mpkt : RequestPacket) : State × List Action :=
  match createResponse nd mpkt with
  | none => (s, [])
  | some resp =>
    if mpkt.pktType = topology then (s, [sendToParents nd resp true])
    else if mpkt.pktType = attestation then
      ({ s with ctimerResp := resp }, [.broadcastToParents resp])
    else (s, [])

def udpSecreqCallback (s : State) (secreq : RequestPacket) : List Action :=
  if secreq.pktType = secondRound ∧ s.firstRoundCompleted then
    [.sendSecResp ⟨s.maxIndex, s.myChecksum⟩]
  else []

/-! ## Events -/

inductive Event where
  /-- A response on the checksum port, `PARENT_UDP_CHECKSUM_PORT`. -/
  | tcpip (src : Addr) (pkt : ResponsePkt)
  /-- A response on the broadcast port, `CHECKSUM_PORT`. -/
  | broadcast (src : Addr) (pkt : ResponsePkt)
  /-- A request sent to the multicast group. -/
  | mcast (mpkt : RequestPacket)
  /-- A request on the second-round port. -/
  | secReq (secreq : RequestPacket)
  | periodicExpiry
  | pExpiry
  deriving DecidableEq, Repr

/-- A response packet for the handler of an inner relay: the common part of `tcpip_handler` and
`checksum_receiver`. -/
def receive (nd : Node) (after : TopologyInfo → TopologyInfo → TopologyInfo) (s : State)
    (src : Addr) : ResponsePkt → Except Fault (State × List Action)
  | .topology t =>
    match processTopologyReq nd after s t (getIdFromAddr src) with
    | .error f => .error f
    | .ok (s, sent) => .ok (s, sent.map fun t => sendToParents nd (.topology t) false)
  | .attestation checksum =>
    match processAttestationReq s checksum (getIdFromAddr src) with
    | .error f => .error f
    | .ok s => .ok (s, [])
  | .other _ => .ok (s, [])

def periodicExpiry (nd : Node) (s : State) : Except Fault (State × List Action) :=
  let s' := { s with periodicTimer := s.periodicTimer.expire.2 }
  match s.periodicTimer.expire.1 with
  | none => .ok (s', [])
  | some .sendTopologyResp =>
    match sendTopologyResp nd s' with
    | .error f => .error f
    | .ok (s, out) => .ok (s, [sendToParents nd (.topology out) false])
  | some .sendAttestationResp => sendAttestationResp nd s'

def pExpiry (s : State) : State × List Action :=
  let s' := { s with pTimer := s.pTimer.expire.2 }
  match s.pTimer.expire.1 with
  | none => (s', [])
  | some .broadcastToParents => (s', [.broadcastToParents s.ctimerResp])

/-- One event. `udp_relay_process` dispatches by `is_leaf` alone; a relay with children has not
joined the multicast group and hears no request. -/
def step (nd : Node) (b : Buffers) (s : State) : Event → Except Fault (State × List Action)
  | .tcpip src pkt =>
    if isLeaf s then .ok (mcastTcpipHandler nd s (asRequest pkt))
    else receive nd b.uipAppdata s src pkt
  | .broadcast src pkt => receive nd b.databuffer s src pkt
  | .mcast mpkt => .ok (if isLeaf s then mcastTcpipHandler nd s mpkt else (s, []))
  | .secReq secreq => .ok (s, udpSecreqCallback s secreq)
  | .periodicExpiry => periodicExpiry nd s
  | .pExpiry => .ok (pExpiry s)

def machine (nd : Node) (b : Buffers) : Machine State Event Action Fault := ⟨step nd b⟩

end Relay

end Swarna
