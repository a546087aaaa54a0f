import Swarna.CString
import Swarna.Machine
import Swarna.Utility

/-!
# Swarna.Verifier

The verifier (`sec_server.c`): it reads the map of node ids and addresses, then works through a
request file. For a line of node ids it asks one node after the other, and goes on to the next
line when it has counted as many datagrams as the line has ids.

`main` is split at its receive loop: `loadMap` and `begin` are what comes before it, `step` is one
datagram. The loop ends with `Process.exited`. Files that open are given by their text; sockets
are taken to open and `sendto` to succeed. `recv_count` is taken not to overflow.
-/

namespace Swarna
namespace Verifier

open CString

def maxNodes : Nat := 5
/-- `INET6_ADDRSTRLEN`. -/
def inet6AddrStrLen : Nat := 46
/-- The length of `req_pkt.node_addr`. -/
def maxIds : Nat := 150

theorem maxIds_pos : 0 < maxIds := by decide

/-- The size of the line buffers. -/
def lineSize : Nat := 1000

def secondTimeStart : BitVec 8 := 60
def secondTimeStop : BitVec 8 := 70
def secondTimeDone : BitVec 8 := 45

/-- What the program takes from its platform. -/
structure Libc where
  /-- `LONG_MAX`. -/
  longMax : Nat
  inetPton : List Char → Option Addr
  inetNtop : Addr → List Char
  /-- The string a fresh block of `malloc` happens to hold. -/
  heap : List Char

inductive Fault where
  /-- `map[map_loc]` past the array. -/
  | mapOverflow
  /-- `strcpy` past `map[map_loc].addr`. -/
  | addrOverflow
  /-- A `NULL` of `strtok` is read as a string. -/
  | nullString
  /-- `rpkt.node_addr[sec_client_count]` past the array. -/
  | nodeAddrOverflow
  /-- `local_rpkt.node_addr[node_index]` read past the array. -/
  | nodeAddrOverread
  /-- A file that did not open is read or closed. -/
  | nullFile
  /-- There is no receive loop any more. -/
  | exited
  deriving DecidableEq, Repr

/-! ## The map -/

/-- `struct node_id_addr_mapp`. The address may end with the newline of its line. -/
structure Entry where
  id : BitVec 8
  addr : List Char
  length_lt : addr.length < inet6AddrStrLen
  deriving DecidableEq, Repr

structure NodeMap where
  entries : List Entry
  length_le : entries.length ≤ maxNodes
  deriving DecidableEq, Repr

namespace NodeMap

def empty : NodeMap := ⟨[], Nat.zero_le _⟩

def push (m : NodeMap) (e : Entry) (h : m.entries.length < maxNodes) : NodeMap :=
  ⟨m.entries ++ [e], by rw [List.length_append]; exact h⟩

end NodeMap

section

variable (L : Libc)

/-- The loop of `main` over the lines of `node_id_addr.txt`. -/
def loadMap : List (List Char) → NodeMap → Except Fault NodeMap
  | [], m => .ok m
  | line :: fp, m =>
    match strtok ['\t'] (cstr line) with
    | none => .error .nullString
    | some (tok, rest) =>
      if hm : m.entries.length < maxNodes then
        match strtok ['\t'] rest with
        | none => .error .nullString
        | some (addr, _) =>
          if ha : addr.length < inet6AddrStrLen then
            loadMap fp (m.push ⟨BitVec.ofInt 8 (atoi L.longMax tok), addr, ha⟩ hm)
          else .error .addrOverflow
      else .error .mapOverflow

def getIdFromAddr (m : NodeMap) (a : List Char) : BitVec 8 :=
  match m.entries.find? fun e => strncmpEq 10 a e.addr with
  | some e => e.id
  | none => 0

/-- The loop does not stop at a match: the last entry of the id is copied. Without one the buffer
stays as `malloc` left it. -/
def getAddrFromId (m : NodeMap) (id : BitVec 8) : List Char :=
  m.entries.foldl (fun a e => if e.id = id then e.addr else a) L.heap

/-! ## Requests -/

/-- `struct request_packet`, with the address it is sent to. -/
structure Request where
  pktType : BitVec 8
  runCount : BitVec 8
  dst : Addr
  deriving DecidableEq, Repr

/-- `req_pkt`. -/
structure ReqPkt where
  reqType : BitVec 8
  size : BitVec 8
  nodeAddr : Vector (BitVec 8) maxIds
  deriving DecidableEq, Repr

/-- A `req_pkt` set to zero. -/
def ReqPkt.zero : ReqPkt := ⟨0, 0, Vector.replicate maxIds 0⟩

/-- The static variables, and `recv_count`. -/
structure State where
  map : NodeMap
  /-- The lines of the request file not read yet, `none` if it did not open. -/
  fp : Option (List (List Char))
  runNo : Int
  localRpkt : ReqPkt
  nodeIndex : Nat
  sentId : BitVec 8
  secClientCount : Nat
  startSent : Bool
  recvCount : Nat
  deriving DecidableEq, Repr

def init (m : NodeMap) (fp : Option (List (List Char))) : State where
  map := m
  fp := fp
  runNo := 0
  localRpkt := .zero
  nodeIndex := 0
  sentId := 0
  secClientCount := 0
  startSent := false
  recvCount := 0

/-- `serv_addr`. -/
def servAddr : List Char := "fd00::a469".toList

/-- The address text up to its newline, as `inet_pton` reads it. A text it rejects leaves the
destination zero. -/
def destination (addr : List Char) : Addr := (L.inetPton (addr.takeWhile (· ≠ '\n'))).getD 0

def secondUdpSend (pktType : BitVec 8) (runNo : Int) (addr : List Char) : Request :=
  ⟨pktType, BitVec.ofInt 8 runNo, destination L addr⟩

def sendReqSingleNode (s : State) : Except Fault (State × List Request) :=
  if h : s.nodeIndex < maxIds then
    let id := s.localRpkt.nodeAddr[s.nodeIndex]
    if id = 0 then .ok ({ s with sentId := id }, [])
    else
      .ok ({ s with sentId := id, nodeIndex := s.nodeIndex + 1 },
        [secondUdpSend L secondRound s.runNo (getAddrFromId L s.map id)])
  else .error .nodeAddrOverread

def sendUnicastSecondRoundReq (s : State) (rpkt : ReqPkt) : Except Fault (State × List Request) :=
  let start :=
    if s.startSent then [] else [secondUdpSend L secondTimeStart s.runNo servAddr]
  match sendReqSingleNode L { s with startSent := true, localRpkt := rpkt, nodeIndex := 0 } with
  | .error f => .error f
  | .ok (s, out) => .ok (s, start ++ out)

/-! ## The request file -/

/-- What a line asks for. -/
inductive Line where
  | runNo (n : Int)
  | ignored
  | nodes (tokens : List (List Char))
  deriving DecidableEq, Repr

/-- The string after the first token: `strtok(line, delims)`, then `strtok(NULL, delims)`. -/
def secondToken (delims line : List Char) : Option (List Char) :=
  match strtok delims line with
  | none => none
  | some (_, rest) => (strtok delims rest).map Prod.fst

/-- The tests of `read_line_send_req` on a line. -/
def classify (line : List Char) : Except Fault Line :=
  if strstr line "Run_no".toList then
    match secondToken ": ".toList line with
    | none => .error .nullString
    | some tok => .ok (.runNo (atoi L.longMax tok))
  else if strstr line "faulty_nodes".toList then
    match secondToken ": ".toList line with
    | none => .error .nullString
    | some _ => .ok .ignored
  else if strstr line "****".toList then .ok .ignored
  else .ok (.nodes (strtokAll ", ".toList line))

/-- The loop over the tokens of a line of node ids; `n` is `sec_client_count`. -/
def storeIds : List (List Char) → ReqPkt → (n : Nat) → Except Fault (ReqPkt × Nat)
  | [], rpkt, n => .ok (rpkt, n)
  | tok :: toks, rpkt, n =>
    if h : n < maxIds then
      storeIds toks
        { rpkt with nodeAddr := rpkt.nodeAddr.set n (BitVec.ofInt 8 (atoi L.longMax tok)) h }
        (n + 1)
    else .error .nodeAddrOverflow

/-- The loop of `read_line_send_req` over the lines of the file; the last component is its
result. -/
def readLines : List (List Char) → State → Except Fault (State × List Request × Bool)
  | [], s => .ok ({ s with fp := some [] }, [], false)
  | line :: fp, s =>
    match classify L (cstr line) with
    | .error f => .error f
    | .ok (.runNo n) => readLines fp { s with runNo := n }
    | .ok .ignored => readLines fp s
    | .ok (.nodes tokens) =>
      match storeIds L tokens { ReqPkt.zero with reqType := secondRound } 0 with
      | .error f => .error f
      | .ok (rpkt, n) =>
        match sendUnicastSecondRoundReq L { s with fp := some fp, secClientCount := n }
          { rpkt with size := BitVec.ofNat 8 n } with
        | .error f => .error f
        | .ok (s, out) => .ok (s, out, true)

def readLineSendReq (s : State) : Except Fault (State × List Request × Bool) :=
  match s.fp with
  | none => .error .nullFile
  | some fp => readLines L fp s

/-! ## `main` -/

inductive Process where
  | running (s : State)
  | exited (code : Nat)
  deriving DecidableEq, Repr

/-- `main`, from the request file to its receive loop. -/
def begin (m : NodeMap) : (temp : Option (List Char)) → Except Fault (Process × List Request)
  | none =>
    let rpkt := { ReqPkt.zero with
      reqType := secondRound, size := 1, nodeAddr := ReqPkt.zero.nodeAddr.set 0 6 maxIds_pos }
    match sendUnicastSecondRoundReq L (init m none) rpkt with
    | .error f => .error f
    | .ok (s, out) => .ok (.running s, out)
  | some text =>
    match readLineSendReq L (init m (some (fgetsAll lineSize text))) with
    | .error f => .error f
    | .ok (s, out, true) => .ok (.running s, out)
    | .ok (_, out, false) => .ok (.exited 0, out)

/-- `main` up to its receive loop, from the texts of its two files. -/
def main (nodeIdAddr temp : Option (List Char)) : Except Fault (Process × List Request) :=
  match nodeIdAddr with
  | none => .error .nullFile
  | some text =>
    match loadMap L (fgetsAll lineSize text) .empty with
    | .error f => .error f
    | .ok m => begin L m temp

inductive Event where
  /-- A datagram is received; of its contents nothing is used. -/
  | datagram (src : Addr)
  | recvFailed
  deriving DecidableEq, Repr

/-- The body of the receive loop for a datagram. -/
def receive (s : State) (src : Addr) : Except Fault (Process × List Request) :=
  let s := { s with recvCount := s.recvCount + 1 }
  if s.secClientCount = s.recvCount then
    let stop := secondUdpSend L secondTimeStop s.runNo servAddr
    match readLineSendReq L { s with recvCount := 0 } with
    | .error f => .error f
    | .ok (s', out, true) => .ok (.running s', stop :: out)
    | .ok (_, out, false) =>
      -- `spkt1` still has the `run_count` of the stop
      .ok (.exited 0, stop :: (out ++ [secondUdpSend L secondTimeDone s.runNo servAddr]))
  else if s.sentId = getIdFromAddr s.map (L.inetNtop src) then
    match sendReqSingleNode L s with
    | .error f => .error f
    | .ok (s, out) => .ok (.running s, out)
  else .ok (.running s, [])

def step : Process → Event → Except Fault (Process × List Request)
  | .exited _, _ => .error .exited
  | .running _, .recvFailed => .ok (.exited 4, [])
  | .running s, .datagram src => receive L s src

def machine : Machine Process Event Request Fault := ⟨step L⟩

end

end Verifier
end Swarna
