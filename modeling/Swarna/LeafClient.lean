import Swarna.Client
import Swarna.LeafRelays

/-!
# Swarna.LeafClient

A relay without children does the job of a client, with code of its own: `mcast_tcpip_handler` and
`tcpip_handler`, and an `udp_secreq_callback` each.

* `Sent`: a packet with its destination.
* `Joined`: the states in which a relay joins the multicast group.
* `alike_iff`: the two answer a list of requests with the same packets exactly when all multicast
  requests start a round and no `SECOND_ROUND` request comes after one of them.
* `second_round_after_topology`: a leaf relay forgets its checksum.
-/

namespace Swarna
namespace LeafClient

/-! ## Requests and packets -/

inductive Request where
  /-- To the multicast group. -/
  | mcast (mpkt : RequestPacket)
  /-- To the second-round port. -/
  | secReq (secreq : RequestPacket)
  deriving DecidableEq, Repr

def Request.toRelay : Request → Relay.Event
  | .mcast mpkt => .mcast mpkt
  | .secReq secreq => .secReq secreq

def Request.toClient : Request → Client.Event
  | .mcast mpkt => .mcast mpkt
  | .secReq secreq => .secReq secreq

/-- What goes out, and to whom. -/
inductive Sent where
  | unicast (pkt : ResponsePkt) (dst : Addr)
  | broadcast (pkt : ResponsePkt)
  | toRouter (resp : SecRndResp)
  deriving DecidableEq, Repr

def sentBy : Action → List Sent
  | .sendToParents pkt _ dst => dst.map (.unicast pkt)
  | .storeBroadcast _ => []
  | .broadcastToParents pkt => [.broadcast pkt]
  | .sendSecResp resp => [.toRouter resp]

/-- The packet, with `max_index` 0 if it is an answer of the second round. -/
def Sent.maxIndexZero : Sent → Sent
  | .toRouter resp => .toRouter { resp with maxIndex := 0 }
  | p => p

def clientMachine (nd : Node) : Machine Client.State Client.Event Action Fault :=
  ⟨fun s e => .ok (Client.step nd (attestMemory nd.id) s e)⟩

/-- The packets of a relay in state `s`, if nothing faults. -/
def relayPackets (nd : Node) (b : Buffers) (s : Relay.State) (es : List Request) :
    Option (List Sent) :=
  ((Relay.machine nd b).observe s (es.map Request.toRelay)).map (·.flatMap sentBy)

def clientPackets (nd : Node) (s : Client.State) (es : List Request) : Option (List Sent) :=
  ((clientMachine nd).observe s (es.map Request.toClient)).map (·.flatMap sentBy)

/-- The same packets in the same order, but for the `max_index` of the relay. -/
def Same (nd : Node) (b : Buffers) (s : Relay.State) (c : Client.State) (es : List Request) :
    Prop :=
  (relayPackets nd b s es).map (·.map Sent.maxIndexZero) = clientPackets nd c es

/-- The relay behaves like a client that has just started. -/
def Alike (nd : Node) (b : Buffers) (s : Relay.State) (es : List Request) : Prop :=
  Same nd b s Client.init es

/-- A state in which a relay joins the multicast group: after whatever it has heard since its start,
`network_settled` finds no children. -/
def Joined (s : Relay.State) : Prop :=
  ∃ nd b t s₀, (Relay.machine nd b).Run (Relay.init .empty) t s₀ ∧
    Relay.networkSettled nd s₀ = .ok s ∧ Relay.isLeaf s = true

def Request.isMcast : Request → Bool
  | .mcast _ => true
  | .secReq _ => false

def Request.isSecondRound : Request → Bool
  | .mcast _ => false
  | .secReq secreq => secreq.pktType = secondRound

/-- The packet starts a round. -/
def StartsRound (mpkt : RequestPacket) : Prop :=
  mpkt.pktType = topology ∨ mpkt.pktType = attestation

/-- The requests on which the two agree. -/
structure Agreed (es : List Request) : Prop where
  rounds : ∀ mpkt, .mcast mpkt ∈ es → StartsRound mpkt
  order : es.Pairwise fun r q => r.isMcast = true → q.isSecondRound = false

/-! ## One request -/

/-- A relay that has never taken a checksum of its own. -/
structure Idle (s : Relay.State) : Prop extends Settling.Unused s where
  myChecksum : s.myChecksum = 0
  firstRoundCompleted : s.firstRoundCompleted = true

/-- The answer to a request that starts a round. -/
def reply (nd : Node) (mpkt : RequestPacket) : Action :=
  if mpkt.pktType = topology then
    sendToParents nd (.topology ⟨1, [nd.id], nd.rank, ownChecksum nd.id⟩) true
  else .broadcastToParents (.attestation (ownChecksum nd.id))

theorem mcastTcpipHandler_reply (nd : Node) (s : Relay.State) {mpkt : RequestPacket}
    (h : StartsRound mpkt) : (Relay.mcastTcpipHandler nd s mpkt).2 = [reply nd mpkt] := by
  have hne : attestation ≠ topology := by decide
  rcases h with ht | ha
  · simp [Relay.mcastTcpipHandler, Relay.createResponse, reply, ht]
  · simp [Relay.mcastTcpipHandler, Relay.createResponse, reply, ha, hne]

theorem mcastTcpipHandler_other (nd : Node) (s : Relay.State) {mpkt : RequestPacket}
    (h : ¬ StartsRound mpkt) : (Relay.mcastTcpipHandler nd s mpkt).2 = [] := by
  obtain ⟨ht, ha⟩ := not_or.1 h
  simp [Relay.mcastTcpipHandler, Relay.createResponse, ht, ha]

theorem tcpipHandler_reply (nd : Node) (c : Client.State) {mpkt : RequestPacket}
    (h : StartsRound mpkt) :
    (Client.tcpipHandler nd (attestMemory nd.id) c mpkt).2 = [reply nd mpkt] := by
  have hne : attestation ≠ topology := by decide
  rcases h with ht | ha
  · simp [Client.tcpipHandler, Client.createResponse, reply, ht]
  · simp [Client.tcpipHandler, Client.createResponse, reply, ha, hne]

/-- Only the assignment to `ctimer_resp` is guarded, so the zeros go out. -/
theorem tcpipHandler_other (nd : Node) (c : Client.State) {mpkt : RequestPacket}
    (h : ¬ StartsRound mpkt) : (Client.tcpipHandler nd (attestMemory nd.id) c mpkt).2 =
      [.broadcastToParents (.other 0)] := by
  obtain ⟨ht, ha⟩ := not_or.1 h
  simp [Client.tcpipHandler, Client.createResponse, ht, ha]

theorem tcpipHandler_checksum (nd : Node) (c : Client.State) (mpkt : RequestPacket) :
    (Client.tcpipHandler nd (attestMemory nd.id) c mpkt).1.checksum = ownChecksum nd.id := by
  by_cases ht : mpkt.pktType = topology <;>
    simp [Client.tcpipHandler, Client.createResponse, ht]

theorem Idle.mcast {s : Relay.State} (h : Idle s) (nd : Node) (b : Buffers)
    (mpkt : RequestPacket) : ∃ s', Idle s' ∧
      Relay.step nd b s (.mcast mpkt) = .ok (s', (Relay.mcastTcpipHandler nd s mpkt).2) := by
  have hleaf : Relay.isLeaf s = true := Relay.isLeaf_iff.2 h.children
  obtain ⟨r, hr⟩ := Relay.mcastTcpipHandler_state nd s mpkt
  refine ⟨(Relay.mcastTcpipHandler nd s mpkt).1, ?_, ?_⟩
  · rw [hr]
    exact ⟨⟨h.children, h.periodicTimer, h.pTimer⟩, h.myChecksum, h.firstRoundCompleted⟩
  · rw [Relay.step, hleaf]
    rfl

theorem Idle.secReq {s : Relay.State} (h : Idle s) (secreq : RequestPacket) :
    Relay.udpSecreqCallback s secreq =
      if secreq.pktType = secondRound then [.sendSecResp ⟨s.maxIndex, 0⟩] else [] := by
  simp [Relay.udpSecreqCallback, h.myChecksum, h.firstRoundCompleted]

/-! ## Before the requests -/

theorem idle_init : Idle (Relay.init .empty) := ⟨Settling.unused_init, rfl, rfl⟩

/-- Nothing a relay without children hears makes it take a checksum. -/
theorem Idle.step {s s' : Relay.State} (h : Idle s) {nd : Node} {b : Buffers} {e : Relay.Event}
    {out : List Action} (hs : Relay.step nd b s e = .ok (s', out)) : Idle s' := by
  have hleaf : Relay.isLeaf s = true := Relay.isLeaf_iff.2 h.children
  cases e with
  | tcpip src pkt =>
    obtain ⟨s₁, h₁, hm⟩ := h.mcast nd b (asRequest pkt)
    have heq : Relay.step nd b s (.tcpip src pkt) = Relay.step nd b s (.mcast (asRequest pkt)) := by
      simp only [Relay.step, hleaf, if_true]
    rw [heq, hm] at hs
    cases hs
    exact h₁
  | broadcast src pkt =>
    have hu := (h.toUnused.receive hs).1
    have hc := h.isChild (getIdFromAddr src)
    cases pkt with
    | topology t =>
      simp only [Relay.step, Relay.receive, Relay.processTopologyReq_stranger hc] at hs
      cases hs
      exact h
    | attestation x =>
      by_cases hcur : s.curLoc < maxChild
      · obtain ⟨a, ha, -⟩ := Relay.processAttestationReq_eq x (getIdFromAddr src) hcur
        simp only [Relay.step, Relay.receive, ha] at hs
        cases hs
        exact ⟨hu, h.myChecksum, h.firstRoundCompleted⟩
      · simp [Relay.step, Relay.receive, Relay.processAttestationReq,
          Relay.storeChecksum_overflow hcur] at hs
    | other ty =>
      simp only [Relay.step, Relay.receive] at hs
      cases hs
      exact h
  | mcast mpkt =>
    obtain ⟨s₁, h₁, hm⟩ := h.mcast nd b mpkt
    rw [hm] at hs
    cases hs
    exact h₁
  | secReq secreq =>
    cases hs
    exact h
  | periodicExpiry =>
    rw [Relay.step_periodicIdle _ _ (CTimer.expire_eq_none h.periodicTimer)] at hs
    cases hs
    exact ⟨⟨h.children, h.periodicTimer, h.pTimer⟩, h.myChecksum, h.firstRoundCompleted⟩
  | pExpiry =>
    rw [Relay.step_pIdle _ _ (CTimer.expire_eq_none h.pTimer)] at hs
    cases hs
    exact ⟨⟨h.children, h.periodicTimer, h.pTimer⟩, h.myChecksum, h.firstRoundCompleted⟩

theorem Joined.idle {s : Relay.State} (h : Joined s) : Idle s := by
  obtain ⟨nd, b, t, s₀, hr, hset, hleaf⟩ := h
  have h₀ : Idle s₀ := hr.invariant (P := fun _ s => Idle s) idle_init
    fun _ _ _ _ _ hi _ hs => hi.step hs
  simp only [Relay.networkSettled] at hset
  split at hset
  · cases hset
  · cases hset
    exact ⟨⟨Relay.isLeaf_iff.1 hleaf, h₀.periodicTimer, h₀.pTimer⟩, h₀.myChecksum,
      h₀.firstRoundCompleted⟩

/-! ## A list of requests -/

section Requests

variable {nd : Node} {b : Buffers} {s s' : Relay.State} {c c' : Client.State} {e : Request}
  {es : List Request} {out out' : List Action}

theorem relayPackets_cons (h : Relay.step nd b s e.toRelay = .ok (s', out)) :
    relayPackets nd b s (e :: es) = (relayPackets nd b s' es).map (out.flatMap sentBy ++ ·) := by
  rw [relayPackets, relayPackets, List.map_cons,
    Machine.observe_cons (M := Relay.machine nd b) h, Option.map_map, Option.map_map]
  congr 1
  funext l
  exact List.flatMap_append

theorem clientPackets_cons
    (h : Client.step nd (attestMemory nd.id) c e.toClient = (c', out)) :
    clientPackets nd c (e :: es) = (clientPackets nd c' es).map (out.flatMap sentBy ++ ·) := by
  have hstep : (clientMachine nd).step c e.toClient = .ok (c', out) := congrArg Except.ok h
  rw [clientPackets, clientPackets, List.map_cons, Machine.observe_cons hstep, Option.map_map,
    Option.map_map]
  congr 1
  funext l
  exact List.flatMap_append

/-- After the same packets the rest decides. -/
theorem same_cons_iff (h : Relay.step nd b s e.toRelay = .ok (s', out))
    (h' : Client.step nd (attestMemory nd.id) c e.toClient = (c', out'))
    (hout : (out.flatMap sentBy).map Sent.maxIndexZero = out'.flatMap sentBy) :
    Same nd b s c (e :: es) ↔ Same nd b s' c' es := by
  have hrelay : (relayPackets nd b s (e :: es)).map (·.map Sent.maxIndexZero) =
      ((relayPackets nd b s' es).map (·.map Sent.maxIndexZero)).map (out'.flatMap sentBy ++ ·) := by
    rw [relayPackets_cons h, Option.map_map, Option.map_map]
    congr 1
    funext l
    rw [← hout]
    exact List.map_append
  rw [Same, Same, hrelay, clientPackets_cons h']
  exact (Option.map_injective fun _ _ => List.append_cancel_left).eq_iff

/-- A leaf relay never sends a packet without a type. -/
theorem Idle.packets (h : Idle s) (nd : Node) (b : Buffers) (es : List Request) :
    ∃ l, relayPackets nd b s es = some l ∧ .broadcast (.other 0) ∉ l := by
  induction es generalizing s with
  | nil => exact ⟨[], rfl, List.not_mem_nil⟩
  | cons e es ih =>
    have hstep : ∃ s' out, Idle s' ∧ Relay.step nd b s e.toRelay = .ok (s', out) ∧
        .broadcast (.other 0) ∉ out.flatMap sentBy := by
      cases e with
      | mcast mpkt =>
        obtain ⟨s', h', hs⟩ := h.mcast nd b mpkt
        refine ⟨s', _, h', hs, ?_⟩
        by_cases hr : StartsRound mpkt
        · rw [mcastTcpipHandler_reply nd s hr, reply]
          split <;> simp [sendToParents, sentBy]
        · rw [mcastTcpipHandler_other nd s hr]
          exact List.not_mem_nil
      | secReq secreq =>
        refine ⟨s, _, h, rfl, ?_⟩
        rw [h.secReq]
        split <;> simp [sentBy]
    obtain ⟨s', out, h', hs, hout⟩ := hstep
    obtain ⟨l, hl, hnot⟩ := ih h'
    refine ⟨out.flatMap sentBy ++ l, by rw [relayPackets_cons hs, hl]; rfl, ?_⟩
    rw [List.mem_append]
    exact not_or.2 ⟨hout, hnot⟩

/-- A client, after a multicast request or before the first. -/
def Answering (nd : Node) (asked : Bool) (c : Client.State) : Prop :=
  c.checksum = if asked then ownChecksum nd.id else 0

theorem agreed_mcast {mpkt : RequestPacket} : Agreed (.mcast mpkt :: es) ↔
    StartsRound mpkt ∧ Agreed es ∧ ∀ q ∈ es, q.isSecondRound = false := by
  constructor
  · rintro ⟨hr, ho⟩
    obtain ⟨hfirst, ho⟩ := List.pairwise_cons.1 ho
    exact ⟨hr mpkt List.mem_cons_self, ⟨fun m hm => hr m (List.mem_cons_of_mem _ hm), ho⟩,
      fun q hq => hfirst q hq rfl⟩
  · rintro ⟨hs, ⟨hr, ho⟩, hnone⟩
    refine ⟨fun m hm => ?_, List.pairwise_cons.2 ⟨fun q hq _ => hnone q hq, ho⟩⟩
    rcases List.mem_cons.1 hm with heq | hm
    · cases heq
      exact hs
    · exact hr m hm

theorem agreed_secReq {secreq : RequestPacket} : Agreed (.secReq secreq :: es) ↔ Agreed es := by
  constructor
  · rintro ⟨hr, ho⟩
    exact ⟨fun m hm => hr m (List.mem_cons_of_mem _ hm), (List.pairwise_cons.1 ho).2⟩
  · rintro ⟨hr, ho⟩
    refine ⟨fun m hm => ?_, List.pairwise_cons.2 ⟨fun q _ hq => ?_, ho⟩⟩
    · rcases List.mem_cons.1 hm with heq | hm
      · cases heq
      · exact hr m hm
    · cases hq

/-- A request of the second round: the relay answers with checksum 0. -/
theorem same_secondRound {secreq : RequestPacket} (h : Idle s)
    (ht : secreq.pktType = secondRound) :
    Same nd b s c (.secReq secreq :: es) ↔ c.checksum = 0 ∧ Same nd b s c es := by
  have hr : Relay.step nd b s (Request.secReq secreq).toRelay =
      .ok (s, [.sendSecResp ⟨s.maxIndex, 0⟩]) := by
    show Except.ok (s, Relay.udpSecreqCallback s secreq) = _
    rw [h.secReq, if_pos ht]
  have hc : Client.step nd (attestMemory nd.id) c (Request.secReq secreq).toClient =
      (c, [.sendSecResp ⟨0, c.checksum⟩]) := by
    show (c, Client.udpSecreqCallback c secreq) = _
    rw [Client.udpSecreqCallback, if_pos ht]
  by_cases hzero : c.checksum = 0
  · rw [same_cons_iff hr hc (by rw [hzero]; rfl)]
    exact (and_iff_right hzero).symm
  · refine iff_of_false (fun hsame => ?_) fun hand => hzero hand.1
    obtain ⟨l, hl, -⟩ := h.packets nd b es
    rw [Same, relayPackets_cons hr, clientPackets_cons hc, hl] at hsame
    obtain ⟨l', -, heq⟩ := Option.map_eq_some_iff.1 hsame.symm
    have hresp := Sent.toRouter.inj (List.cons.inj heq).1
    exact hzero (SecRndResp.mk.inj hresp).2

/-- The packet of zeros has no counterpart. -/
theorem not_same_other {mpkt : RequestPacket} (h : Idle s) (ht : ¬ StartsRound mpkt) :
    ¬ Same nd b s c (.mcast mpkt :: es) := by
  intro hsame
  have hc : Client.step nd (attestMemory nd.id) c (Request.mcast mpkt).toClient =
      ((Client.tcpipHandler nd (attestMemory nd.id) c mpkt).1,
        [.broadcastToParents (.other 0)]) := by
    rw [← tcpipHandler_other nd c ht]
    rfl
  obtain ⟨l, hl, hnot⟩ := h.packets nd b (.mcast mpkt :: es)
  rw [Same, hl, clientPackets_cons hc] at hsame
  obtain ⟨l', -, heq⟩ := Option.map_eq_some_iff.1 hsame.symm
  have hmem : Sent.broadcast (.other 0) ∈ l.map Sent.maxIndexZero := by
    rw [← show _ = l.map Sent.maxIndexZero from heq]
    exact List.mem_cons_self
  obtain ⟨p, hp, hzero⟩ := List.mem_map.1 hmem
  cases p with
  | unicast pkt dst => cases hzero
  | broadcast pkt =>
    cases hzero
    exact hnot hp
  | toRouter resp => cases hzero

variable (nd b c es) in
/-- A request that starts a round is answered alike. -/
theorem same_startsRound {mpkt : RequestPacket} (h : Idle s) (ht : StartsRound mpkt) :
    ∃ s' c', Idle s' ∧ Answering nd true c' ∧
      (Same nd b s c (.mcast mpkt :: es) ↔ Same nd b s' c' es) := by
  obtain ⟨s', h', hr⟩ := h.mcast nd b mpkt
  rw [mcastTcpipHandler_reply nd s ht] at hr
  have hc : Client.step nd (attestMemory nd.id) c (Request.mcast mpkt).toClient =
      ((Client.tcpipHandler nd (attestMemory nd.id) c mpkt).1, [reply nd mpkt]) := by
    rw [← tcpipHandler_reply nd c ht]
    rfl
  refine ⟨s', _, h', tcpipHandler_checksum nd c mpkt, same_cons_iff hr hc ?_⟩
  rw [reply]
  split <;> simp [sendToParents, sentBy, Sent.maxIndexZero]

theorem same_iff {asked : Bool} (h : Idle s) (hc : Answering nd asked c) : Same nd b s c es ↔
    Agreed es ∧ (asked = true → ∀ q ∈ es, q.isSecondRound = false) := by
  induction es generalizing s c asked with
  | nil => exact iff_of_true rfl ⟨⟨nofun, .nil⟩, fun _ => nofun⟩
  | cons e es ih =>
    cases e with
    | mcast mpkt =>
      by_cases ht : StartsRound mpkt
      · obtain ⟨s', c', h', hc', hsame⟩ := same_startsRound nd b c es h ht
        rw [hsame, ih h' hc', agreed_mcast]
        constructor
        · rintro ⟨hag, hnone⟩
          exact ⟨⟨ht, hag, hnone rfl⟩, fun _ => List.forall_mem_cons.2 ⟨rfl, hnone rfl⟩⟩
        · rintro ⟨⟨-, hag, hnone⟩, -⟩
          exact ⟨hag, fun _ => hnone⟩
      · exact iff_of_false (not_same_other h ht) fun hand => ht (agreed_mcast.1 hand.1).1
    | secReq secreq =>
      rw [agreed_secReq]
      by_cases ht : secreq.pktType = secondRound
      · rw [same_secondRound h ht, ih h hc, hc]
        cases asked with
        | false => simp
        | true =>
          refine iff_of_false (fun hand => ownChecksum_ne_zero nd.id hand.1) fun hand => ?_
          have hlast := hand.2 rfl _ List.mem_cons_self
          simp [Request.isSecondRound, ht] at hlast
      · have hr : Relay.step nd b s (Request.secReq secreq).toRelay = .ok (s, []) := by
          show Except.ok (s, Relay.udpSecreqCallback s secreq) = _
          rw [h.secReq, if_neg ht]
        have hc₀ : Client.step nd (attestMemory nd.id) c (Request.secReq secreq).toClient =
            (c, []) := by
          show (c, Client.udpSecreqCallback c secreq) = _
          rw [Client.udpSecreqCallback, if_neg ht]
        rw [same_cons_iff hr hc₀ rfl, ih h hc]
        simp [Request.isSecondRound, ht]

end Requests

theorem alike_iff {s : Relay.State} (h : Joined s) (nd : Node) (b : Buffers) (es : List Request) :
    Alike nd b s es ↔ Agreed es := by
  have hfirst : Answering nd false Client.init := rfl
  rw [Alike, same_iff h.idle hfirst]
  exact and_iff_left nofun

/-- A relay that has heard nothing, next to a parent. -/
theorem joined_sample : Joined (Relay.init .empty) :=
  ⟨Relay.sampleNode, .contiki, [], _, .start, rfl, rfl⟩

theorem alike_two_rounds : Joined (Relay.init .empty) ∧
    Alike Relay.sampleNode .contiki (Relay.init .empty)
      [.secReq ⟨secondRound, 0⟩, .mcast ⟨topology, 7⟩, .mcast ⟨attestation, 8⟩] := by
  refine ⟨joined_sample, (alike_iff joined_sample _ _ _).2 ⟨fun mpkt h => ?_, ?_⟩⟩
  · simp only [List.mem_cons, reduceCtorEq, Request.mcast.injEq, List.not_mem_nil, false_or,
      or_false] at h
    rcases h with rfl | rfl
    · exact .inl rfl
    · exact .inr rfl
  · simp [Request.isSecondRound, Request.isMcast]

/-- The checksum of the answer never reaches `my_checksum`. A packet of another type gets no answer
from the relay, and a packet of zeros from the client. -/
theorem second_round_after_topology :
    Joined (Relay.init .empty) ∧
      relayPackets Relay.sampleNode .contiki (Relay.init .empty)
        [.mcast ⟨topology, 7⟩, .secReq ⟨secondRound, 0⟩] =
          some [.unicast (.topology ⟨1, [1], 512, ownChecksum 1⟩) 0, .toRouter ⟨0, 0⟩] ∧
      clientPackets Relay.sampleNode Client.init
        [.mcast ⟨topology, 7⟩, .secReq ⟨secondRound, 0⟩] =
          some [.unicast (.topology ⟨1, [1], 512, ownChecksum 1⟩) 0,
            .toRouter ⟨0, ownChecksum 1⟩] ∧
      ¬ Alike Relay.sampleNode .contiki (Relay.init .empty)
        [.mcast ⟨topology, 7⟩, .secReq ⟨secondRound, 0⟩] ∧
      relayPackets Relay.sampleNode .contiki (Relay.init .empty) [.mcast ⟨secondRound, 0⟩] =
        some [] ∧
      clientPackets Relay.sampleNode Client.init [.mcast ⟨secondRound, 0⟩] =
        some [.broadcast (.other 0)] := by
  refine ⟨joined_sample, rfl, rfl, fun hsame => ?_, rfl, rfl⟩
  have hresp : (Option.some [Sent.unicast (.topology ⟨1, [1], 512, ownChecksum 1⟩) 0,
      .toRouter ⟨0, 0⟩]) = some [.unicast (.topology ⟨1, [1], 512, ownChecksum 1⟩) 0,
        .toRouter ⟨0, ownChecksum 1⟩] := hsame
  exact absurd hresp (by decide)

end LeafClient
end Swarna
