import Mathlib.Data.BitVec

/-!
# Swarna.Utility

What relays and clients share (`utility-functions.h`, `utility-functions.c`): the constants as
compiled, the packet types, the node's view of its RPL neighbours, and the functions on them.

A packet is its fields. `TopologyInfo.path` lists the 16-bit words found from `path[0]` on: for a
packet a node has built these are the entries it wrote, for a packet from the network they are
whatever the receiver reads there, also past `maxPathNodes`.

An attempt to step outside an array, or to send a field that was never set, is a `Fault`: the
behaviour of the C program is not defined from there on.
-/

namespace Swarna

abbrev NodeId := BitVec 16

/-- Whether an id is in a list is decided with it. -/
instance : LawfulBEq NodeId := inferInstance

abbrev Rank := BitVec 16
abbrev Checksum := BitVec 64
/-- An IPv6 address, first byte most significant. -/
abbrev Addr := BitVec 128

def maxPathNodes : Nat := 10
def maxChild : Nat := 10

/-! ## Request and packet types -/

def topology : BitVec 8 := 30
def attestation : BitVec 8 := 40
def secondRound : BitVec 8 := 50

structure RequestPacket where
  pktType : BitVec 8
  seed : BitVec 32
  deriving DecidableEq, Repr

structure TopologyInfo where
  pathindex : BitVec 8
  path : List NodeId
  maxLeafRank : Rank
  checksum : Checksum
  deriving DecidableEq, Repr

/-- The ids a packet reports, `path[0..pathindex)`. -/
def TopologyInfo.ids (t : TopologyInfo) : List NodeId :=
  (List.range t.pathindex.toNat).map fun j => t.path.getD j 0

structure SecRndResp where
  maxIndex : BitVec 8
  checksum : Checksum
  deriving DecidableEq, Repr

/-- `struct response_pkt`: the type byte selects the member of the union. -/
inductive ResponsePkt where
  | topology (t : TopologyInfo)
  | attestation (checksum : Checksum)
  /-- Any other type byte, the union all zero. -/
  | other (pktType : BitVec 8)
  deriving DecidableEq, Repr

/-- The first five bytes of a response, read as a request. -/
def asRequest : ResponsePkt → RequestPacket
  | .topology t =>
    ⟨topology, (t.path.getD 1 0).setWidth 8 ++ t.path.getD 0 0 ++ t.pathindex⟩
  | .attestation checksum => ⟨attestation, checksum.setWidth 32⟩
  | .other pktType => ⟨pktType, 0⟩

inductive Fault where
  /-- `checksum_children[cur_loc] = ..` with `cur_loc` past the array. -/
  | checksumOverflow
  /-- `checksum_children[c_index]` read past the array. -/
  | checksumOverread
  /-- `paths[i]` or `path[i]` past the array. -/
  | pathOverflow
  /-- A topology packet goes out with `pathindex` never set. -/
  | pathindexUnset
  /-- `memb_alloc` has no block left and its `NULL` is written through. -/
  | childAlloc
  deriving DecidableEq, Repr

/-! ## The node and its neighbours -/

/-- `rpl_parent_t`: an entry of the RPL neighbour table. -/
structure Nbr where
  addr : Addr
  rank : Rank
  deriving DecidableEq, Repr

/-- What a node reads of itself: `iotlab_uid`, its rank in the current DAG, `rpl_parents`. -/
structure Node where
  id : NodeId
  rank : Rank
  nbrs : List Nbr
  deriving DecidableEq, Repr

/-- Byte `k` of an address, `uid->u8[k]`. -/
def Addr.u8 (a : Addr) (k : Nat) : BitVec 8 := a.extractLsb' (8 * (15 - k)) 8

def getIdFromAddr (uid : Addr) : NodeId :=
  (uid.u8 14).setWidth 16 <<< 8 ||| (uid.u8 15).setWidth 16

/-- The id is the low 16 bits of the address. -/
theorem getIdFromAddr_eq (uid : Addr) : getIdFromAddr uid = uid.setWidth 16 := by
  ext i hi
  simp only [getIdFromAddr, Addr.u8, BitVec.getElem_or, BitVec.getElem_shiftLeft,
    BitVec.getElem_setWidth, BitVec.getLsbD_extractLsb']
  by_cases h : i < 8
  · simp [h]
  · have h' : i - 8 < 8 := by omega
    have e : 8 + (i - 8) = i := by omega
    simp [h, h', e]

/-- `attest_memory`: the checksum of node `id`. It ignores the nonce and never fails. -/
def attestMemory (id : NodeId) (_nonce : BitVec 32) : Option Checksum :=
  some (0x11e108b7#64 ^^^ id.setWidth 64)

/-- The checksum of an honest node. -/
def ownChecksum (id : NodeId) : Checksum := 0x11e108b7#64 ^^^ id.setWidth 64

@[simp] theorem attestMemory_eq (id : NodeId) (nonce : BitVec 32) :
    attestMemory id nonce = some (ownChecksum id) := rfl

theorem ownChecksum_ne_zero (id : NodeId) : ownChecksum id ≠ 0 := by
  intro h
  have := congrArg (BitVec.getLsbD · 28) h
  simp [ownChecksum] at this

def rplNeighborIsParent (nd : Node) (nbr : Nbr) (isClient : Bool) : Bool :=
  if isClient then true else nbr.rank < nd.rank

/-- What a handler asks of the network stack, and the one response it keeps for later. -/
inductive Action where
  /-- One call of `send_to_parents`, with the addresses the packet was sent to. -/
  | sendToParents (pkt : ResponsePkt) (isClient : Bool) (dst : List Addr)
  /-- `ctimer_resp = resp`, with `p_timer` started to broadcast it. -/
  | storeBroadcast (pkt : ResponsePkt)
  | broadcastToParents (pkt : ResponsePkt)
  /-- The answer to a second-round request, to the border router. -/
  | sendSecResp (resp : SecRndResp)
  deriving DecidableEq, Repr

/-- The neighbours `send_to_parents` sends to. -/
def parents (nd : Node) (isClient : Bool) : List Addr :=
  (nd.nbrs.filter fun p => rplNeighborIsParent nd p isClient).map Nbr.addr

def sendToParents (nd : Node) (pkt : ResponsePkt) (isClient : Bool) : Action :=
  .sendToParents pkt isClient (parents nd isClient)

end Swarna
