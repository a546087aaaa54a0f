import Swarna.Deployment
import Swarna.RelayHistory

/-!
# Swarna.TopologyPath

Whether the path and the checksum of a topology response describe the same nodes, in any network of
honest nodes. A relay skips an id it has already, but takes the whole checksum of the packet that
brought it; and a path that fills up leaves ids behind whose checksums have gone out.

* `path_matches_checksum`: the two agree in every response of every run in which no relay is
  brought an id it has already, or more ids than fit, or an attestation packet. The timers may be
  set for anything at the start.
* `diamond_mismatch`: a client heard by two relays of one parent.
-/

namespace Swarna

/-- The checksum is that of the nodes in the path. -/
def Consistent (o : TopologyInfo) : Prop := o.checksum = xorAll (o.ids.map ownChecksum)

theorem consistent_own (id : NodeId) (r : Rank) : Consistent ⟨1, [id], r, ownChecksum id⟩ := by
  simp [Consistent, TopologyInfo.ids]

namespace Relay

/-- What every relay keeps, in any run: without children the periodic timer is never set, and the
packet kept for broadcast is no topology packet. -/
structure Plain (s : State) : Prop where
  leaf : s.childList.ids = [] → s.periodicTimer.callback = none
  resp : ∀ o, s.ctimerResp ≠ .topology o

/-- A relay whose waiting ids and waiting checksums are those of the same nodes. -/
structure Matched (s : State) : Prop where
  bounded : Bounded s
  plain : Plain s
  sums : s.childList.ids ≠ [] → xorAll s.checksums = xorAll (s.ids.map ownChecksum)

/-- A topology packet that goes out is consistent. -/
def Action.SendsConsistent : Action → Prop
  | .sendToParents (.topology o) _ _ => Consistent o
  | .broadcastToParents (.topology o) => Consistent o
  | _ => True

theorem Plain.of_attestation {s : State} {x : Checksum}
    (hleaf : s.childList.ids = [] → s.periodicTimer.callback = none)
    (hresp : s.ctimerResp = .attestation x) : Plain s := by
  refine ⟨hleaf, fun o ho => ?_⟩
  rw [hresp] at ho
  cases ho

theorem plain_init (c : ChildList) : Plain (init c) := by
  refine ⟨fun _ => rfl, fun o ho => ?_⟩
  cases ho

theorem Plain.reset {s : State} (h : Plain s) : Plain (resetVariable s) :=
  ⟨fun hn => h.leaf (by simpa using hn), h.resp⟩

theorem mcastTcpipHandler_topology (nd : Node) (s : State) {mpkt : RequestPacket}
    (h : mpkt.pktType = topology) : mcastTcpipHandler nd s mpkt =
      (s, [sendToParents nd (.topology ⟨1, [nd.id], nd.rank, ownChecksum nd.id⟩) true]) := by
  simp [mcastTcpipHandler, createResponse, h]

/-- A request changes at most the packet kept for broadcast, and what goes out is consistent. -/
theorem request_plain (nd : Node) (s : State) (mpkt : RequestPacket) (h : Plain s) :
    ∃ r, (mcastTcpipHandler nd s mpkt).1 = { s with ctimerResp := r } ∧
      Plain { s with ctimerResp := r } ∧
      ∀ a ∈ (mcastTcpipHandler nd s mpkt).2, Action.SendsConsistent a := by
  by_cases htop : mpkt.pktType = topology
  · rw [mcastTcpipHandler_topology nd s htop]
    refine ⟨s.ctimerResp, rfl, h, fun a ha => ?_⟩
    rw [List.mem_singleton.1 ha]
    exact consistent_own nd.id nd.rank
  · by_cases hatt : mpkt.pktType = attestation
    · have hrun : mcastTcpipHandler nd s mpkt =
          ({ s with ctimerResp := .attestation (ownChecksum nd.id) },
            [.broadcastToParents (.attestation (ownChecksum nd.id))]) := by
        simp [mcastTcpipHandler, createResponse, if_neg htop, if_pos hatt]
      rw [hrun]
      refine ⟨_, rfl, .of_attestation h.leaf rfl, fun a ha => ?_⟩
      rw [List.mem_singleton.1 ha]
      trivial
    · have hrun : mcastTcpipHandler nd s mpkt = (s, []) := by
        simp [mcastTcpipHandler, createResponse, htop, hatt]
      rw [hrun]
      exact ⟨s.ctimerResp, rfl, h, by simp⟩

theorem plain_step {nd : Node} {s s' : State} {e : Event} {out : List Action} (h : Plain s)
    (ho : StepOutcome nd s e s' out) : Plain s' := by
  cases ho with
  | ignored | secReq => exact h
  | request mpkt =>
    obtain ⟨r, hr, hplain, -⟩ := request_plain nd s mpkt h
    rw [hr]
    exact hplain
  | topology _ hmem _ ho =>
    have hne : s'.childList.ids ≠ [] := by
      rw [ho.childList_ids]
      exact List.ne_nil_of_mem hmem
    refine ⟨fun hn => absurd hn hne, ?_⟩
    cases ho with
    | waits hacc | completes hacc =>
      obtain ⟨a, p, n, rfl⟩ := hacc.frame
      exact h.resp
    | splits => exact h.resp
  | @attestation _ cid =>
    refine ⟨fun hn => ?_, h.resp⟩
    have hstranger : s.childList.isChild cid = false := by
      rw [Bool.eq_false_iff]
      intro hc
      rw [ChildList.isChild_iff, show s.childList.ids = [] from hn] at hc
      cases hc
    simpa [attested, hstranger] using h.leaf hn
  | periodicIdle | periodicZero | pIdle | pBroadcast => exact ⟨h.leaf, h.resp⟩
  | periodicTopology => exact Plain.reset ⟨h.leaf, h.resp⟩
  | periodicAttestation => exact Plain.reset (.of_attestation h.leaf rfl)

theorem run_plain {nd : Node} {b : Buffers} {c : ChildList} {t : History} {s : State}
    (hr : (machine nd b).Run (init c) t s) : Plain s := by
  refine (hr.invariant (P := fun t s => Good c.ids t s ∧ Plain s)
    ⟨good_init c, plain_init c⟩ ?_).2
  rintro t s e s' out ⟨hg, hp⟩ - hs
  have ho := outcome_of_step hg.bounded hs
  exact ⟨good_step hg ho, plain_step hp ho⟩

theorem consistent_topologyResp {nd : Node} {s : State} (h : s.pathsLoc ≤ maxPathNodes - 2)
    (hs : xorAll s.checksums = xorAll (s.ids.map ownChecksum)) :
    Consistent (topologyResp nd s) := by
  rw [Consistent, topologyResp_ids h]
  simp [topologyResp, hs]

/-- Of a listed child, the packet brings only ids that are not in `paths` and that fit. -/
def BringsNew (s : State) (src : Addr) (o : TopologyInfo) : Prop :=
  getIdFromAddr src ∈ s.childList.ids →
    (∀ x ∈ o.ids, x ∉ s.ids) ∧ s.pathsLoc + o.ids.length ≤ maxPathNodes - 3

/-- What may reach a relay: consistent topology packets that bring new ids, and attestation packets
only where there are no children. -/
def TopologyEvent (s : State) : Event → Prop
  | .tcpip src pkt | .broadcast src pkt =>
    (∀ o, pkt = .topology o → Consistent o ∧ BringsNew s src o) ∧
      ∀ x, pkt = .attestation x → s.childList.ids = []
  | .mcast _ => True
  | .secReq _ => True
  | .periodicExpiry => True
  | .pExpiry => True

theorem TopologyEvent.topology {s : State} {e : Event} {cid : NodeId} {o : TopologyInfo}
    (h : TopologyEvent s e) (hh : heard s.childList.ids e = some (cid, .topology o)) :
    Consistent o ∧ (cid ∈ s.childList.ids →
      (∀ x ∈ o.ids, x ∉ s.ids) ∧ s.pathsLoc + o.ids.length ≤ maxPathNodes - 3) := by
  cases e with
  | tcpip src pkt =>
    simp only [heard] at hh
    split at hh
    · cases hh
    · cases hh
      exact h.1 _ rfl
  | broadcast src pkt =>
    cases hh
    exact h.1 _ rfl
  | mcast | secReq | periodicExpiry | pExpiry => cases hh

theorem TopologyEvent.attestation {s : State} {e : Event} {cid : NodeId} {x : Checksum}
    (h : TopologyEvent s e) (hh : heard s.childList.ids e = some (cid, .attestation x)) :
    s.childList.ids = [] := by
  cases e with
  | tcpip src pkt =>
    simp only [heard] at hh
    split at hh
    · cases hh
    · cases hh
      exact h.2 _ rfl
  | broadcast src pkt =>
    cases hh
    exact h.2 _ rfl
  | mcast | secReq | periodicExpiry | pExpiry => cases hh

theorem matched_child {nd : Node} {after : TopologyInfo → TopologyInfo → TopologyInfo}
    {s s' : State} {o : TopologyInfo} {cid : NodeId} {out : List TopologyInfo} (h : Matched s)
    (hplain : Plain s') (hmem : cid ∈ s.childList.ids) (hcur : s.curLoc < maxChild)
    (ho : Consistent o) (hnew : ∀ x ∈ o.ids, x ∉ s.ids)
    (hfit : s.pathsLoc + o.ids.length ≤ maxPathNodes - 3)
    (hs : processTopologyReq nd after s o cid = .ok (s', out)) :
    Matched s' ∧ ∀ r ∈ out, Consistent r := by
  have hfresh : fresh s o.ids = o.ids := by
    rw [fresh, List.filter_eq_self]
    intro x hx
    have hx' : x ∉ s.paths.toList.take s.pathsLoc := hnew x hx
    simpa [isPresentPaths] using hx'
  obtain ⟨s₂, hacc, hids, hcase⟩ :=
    processTopologyReq_fits nd after (ChildList.isChild_iff.2 hmem) hcur (by rwa [hfresh])
  have hsums : xorAll s₂.checksums = xorAll (s₂.ids.map ownChecksum) := by
    have ho' : o.checksum = xorAll (o.ids.map ownChecksum) := ho
    rw [hacc.checksums, hids, hfresh]
    simp [h.sums (List.ne_nil_of_mem hmem), ho']
  have hloc : s₂.pathsLoc ≤ maxPathNodes - 2 := by have := hacc.bounded.pathsLoc_le; omega
  rcases hcase with ⟨-, hrun⟩ | ⟨-, hrun⟩ <;> rw [hrun] at hs <;> cases hs
  · refine ⟨⟨resetVariable_bounded _, hplain, by simp⟩, ?_⟩
    intro r hr
    rw [List.mem_singleton.1 hr]
    exact consistent_topologyResp hloc hsums
  · exact ⟨⟨⟨hacc.bounded.curLoc_le, hacc.bounded.pathsLoc_le⟩, hplain, fun _ => hsums⟩, by simp⟩

theorem matched_step {nd : Node} {b : Buffers} {s s' : State} {e : Event} {out : List Action}
    (h : Matched s) (he : TopologyEvent s e) (hs : step nd b s e = .ok (s', out)) :
    Matched s' ∧ ∀ a ∈ out, Action.SendsConsistent a := by
  have ho := outcome_of_step h.bounded hs
  have hplain := plain_step h.plain ho
  cases ho with
  | ignored => exact ⟨h, by simp⟩
  | request mpkt =>
    obtain ⟨r, hr, -, hacts⟩ := request_plain nd s mpkt h.plain
    rw [hr] at hplain ⊢
    exact ⟨⟨⟨h.bounded.curLoc_le, h.bounded.pathsLoc_le⟩, hplain, h.sums⟩, hacts⟩
  | topology hh hmem hcur _ =>
    obtain ⟨hcons, hnew⟩ := he.topology hh
    obtain ⟨hids, hfit⟩ := hnew hmem
    obtain ⟨sent, hreq, hsent⟩ := step_topology_ok hh hs
    obtain ⟨hm, hresp⟩ := matched_child h hplain hmem hcur hcons hids hfit hreq
    refine ⟨hm, fun a ha => ?_⟩
    rw [hsent] at ha
    obtain ⟨r, hr, rfl⟩ := List.mem_map.1 ha
    exact hresp r hr
  | attestation hh hcur _ =>
    have hleaf := he.attestation hh
    exact ⟨⟨⟨hcur, h.bounded.pathsLoc_le⟩, hplain, fun hne => absurd hleaf hne⟩, by simp⟩
  | secReq secreq =>
    refine ⟨h, fun a ha => ?_⟩
    obtain ⟨-, resp, rfl⟩ := mem_udpSecreqCallback ha
    trivial
  | periodicIdle | periodicZero | pIdle =>
    exact ⟨⟨⟨h.bounded.curLoc_le, h.bounded.pathsLoc_le⟩, hplain, h.sums⟩, by simp⟩
  | periodicTopology hx =>
    refine ⟨⟨resetVariable_bounded _, hplain, by simp⟩, fun a ha => ?_⟩
    -- the timer was set, so there are children
    have hne : s.childList.ids ≠ [] := by
      intro hn
      rw [CTimer.expire_eq_none (h.plain.leaf hn)] at hx
      cases hx
    have hloc := h.bounded.pathsLoc_le
    rw [List.mem_singleton.1 ha]
    exact consistent_topologyResp (by omega) (h.sums hne)
  | periodicAttestation =>
    refine ⟨⟨resetVariable_bounded _, hplain, by simp⟩, fun a ha => ?_⟩
    rw [List.mem_singleton.1 ha]
    trivial
  | pBroadcast =>
    refine ⟨⟨⟨h.bounded.curLoc_le, h.bounded.pathsLoc_le⟩, hplain, h.sums⟩, fun a ha => ?_⟩
    rw [List.mem_singleton.1 ha]
    cases hr : s.ctimerResp with
    | topology o => exact absurd hr (h.plain.resp o)
    | attestation | other => trivial

end Relay

namespace Deployment

variable {ι : Type} (D : Deployment ι)

/-- All clients compute their own checksum. -/
def Honest : Prop := ∀ n seed, D.attest n seed = attestMemory (D.node n).id seed

/-- No relay with children is delivered an attestation packet, or by a listed child a topology
packet with an id it has already, or with more ids than fit. -/
def BringsNew (_ : Network.History ι Datagram NodeEvent Action)
    (s : Network.State ι NodeState Datagram) : Network.Label ι Datagram NodeEvent → Prop
  | .deliver p => ∀ rs, s.node p.dst = .relay rs →
      (∀ o, p.body.pkt = .topology o → Relay.BringsNew rs (D.addr p.src) o) ∧
        ∀ x, p.body.pkt = .attestation x → rs.childList.ids = []
  | .ext _ _ => True

/-- A node at the start of a round: a relay may have come to any state in which nothing waits, with
its timers as they are. -/
def RoundStart (n : ι) : NodeState → Prop
  | .router => True
  | .relay s => s.curLoc = 0 ∧ s.pathsLoc = 0 ∧
      ∃ c t, (Relay.machine (D.node n) D.buffers).Run (Relay.init c) t s
  | .client _ => True

def MatchedNode : NodeState → Prop
  | .router => True
  | .relay s => Relay.Matched s
  | .client _ => True

theorem RoundStart.matched {n : ι} {v : NodeState} (h : D.RoundStart n v) : MatchedNode v := by
  cases v with
  | router | client => trivial
  | relay s =>
    obtain ⟨hcur, hloc, c, t, hr⟩ := h
    exact ⟨⟨by omega, by omega⟩, Relay.run_plain hr,
      by simp [Relay.State.checksums, Relay.State.ids, hcur, hloc]⟩

/-- The packets of honest nodes. -/
def ConsistentPacket (p : Packet ι Datagram) : Prop :=
  ∀ o, p.body.pkt = .topology o → Consistent o

theorem consistent_post {n : ι} {a : Action} (h : Relay.Action.SendsConsistent a) :
    ∀ p ∈ D.network.packets n a, ConsistentPacket p := by
  intro p hp o ho
  obtain ⟨⟨d, body⟩, hx, rfl⟩ := List.mem_map.1 hp
  cases a with
  | sendToParents pkt isClient dst =>
    obtain ⟨d, -, hd⟩ := List.mem_map.1 hx
    cases hd
    subst ho
    exact h
  | broadcastToParents pkt =>
    obtain ⟨d, -, hd⟩ := List.mem_map.1 hx
    cases hd
    subst ho
    exact h
  | storeBroadcast | sendSecResp => cases hx

theorem client_consistent (hD : D.Honest) (n : ι) (s : Client.State) (e : Client.Event) :
    ∀ a ∈ (Client.step (D.node n) (D.attest n) s e).2, Relay.Action.SendsConsistent a := by
  have hreq : ∀ mpkt, ∀ a ∈ (Client.tcpipHandler (D.node n) (D.attest n) s mpkt).2,
      Relay.Action.SendsConsistent a := by
    intro mpkt a ha
    by_cases htop : mpkt.pktType = topology
    · rw [Client.tcpipHandler_topology htop (hD n mpkt.seed)] at ha
      rw [List.mem_singleton.1 ha]
      exact consistent_own (D.node n).id (D.node n).rank
    · simp only [Client.tcpipHandler, Client.createResponse, hD n mpkt.seed, attestMemory, htop,
        if_false, List.mem_singleton] at ha
      rw [ha]
      split <;> trivial
  cases e with
  | mcast mpkt => exact hreq mpkt
  | tcpip pkt =>
    simp only [Client.step]
    split
    · exact hreq _
    · simp
  | broadcast pkt => simp [Client.step]
  | secReq secreq =>
    intro a ha
    simp only [Client.step, Client.udpSecreqCallback] at ha
    split at ha
    · rw [List.mem_singleton.1 ha]
      trivial
    · cases ha

theorem matched_node_step (hD : D.Honest) {t : Network.History ι Datagram NodeEvent Action}
    {s : Network.State ι NodeState Datagram} {l : Network.Label ι Datagram NodeEvent}
    {v : NodeState} {acts : List Action} (hc : D.BringsNew t s l)
    (h : MatchedNode (s.node l.target)) (hp : ∀ p ∈ l.packet?, ConsistentPacket p)
    (hs : D.step l.target (s.node l.target) l.input = .ok (v, acts)) :
    MatchedNode v ∧ ∀ a ∈ acts, Relay.Action.SendsConsistent a := by
  cases hv : s.node l.target with
  | router =>
    rw [hv] at hs
    cases hs
    exact ⟨trivial, by simp⟩
  | relay rs =>
    rw [hv] at h hs
    have he : Relay.TopologyEvent rs (D.relayEvent l.input) := by
      cases l with
      | deliver p =>
        obtain ⟨src, dst, port, pkt⟩ := p
        obtain ⟨hnew, hatt⟩ := hc rs hv
        have hcons := hp _ rfl
        cases port <;> exact ⟨fun o ho => ⟨hcons o ho, hnew o ho⟩, hatt⟩
      | ext n e => cases e <;> trivial
    obtain ⟨rs', hrs, rfl⟩ := step_relay_inv hs
    exact Relay.matched_step h he hrs
  | client cs =>
    rw [hv] at hs
    simp only [step] at hs
    split at hs
    · cases hs
      exact ⟨trivial, by simp⟩
    · rename_i e he
      cases hs
      exact ⟨trivial, D.client_consistent hD _ cs e⟩

variable [DecidableEq ι]

/-- In every run, from any state in which nothing waits, in which no relay is delivered attestation
packets, an id it has already, or more ids than fit, path and checksum of every topology response
agree. -/
theorem path_matches_checksum (hD : D.Honest) {nodes : ι → NodeState}
    (hstart : ∀ n, D.RoundStart n (nodes n)) {t : Network.History ι Datagram NodeEvent Action}
    {s : Network.State ι NodeState Datagram}
    (hr : D.network.machine.RunIf D.BringsNew (start nodes) t s) :
    ∀ n o isClient dst,
      .sendToParents (.topology o) isClient dst ∈ (Network.traceOf n t).outputs → Consistent o := by
  have hall : ∀ n, MatchedNode (s.node n) ∧
      ∀ a ∈ (Network.traceOf n t).outputs, Relay.Action.SendsConsistent a := by
    refine (Network.nodewise
      (fun _ t v => MatchedNode v ∧ ∀ a ∈ t.outputs, Relay.Action.SendsConsistent a)
      ConsistentPacket hr (fun n => ⟨(hstart n).matched, by simp⟩) (by simp [start]) ?_).1
    intro t s l v acts _ hc hI hQ hmem hv
    obtain ⟨hm, hacts⟩ := D.matched_node_step hD hc (hI _).1 (fun p hp => hQ p (hmem p hp)) hv
    refine ⟨⟨hm, fun a ha => ?_⟩, fun a ha => D.consistent_post (hacts a ha)⟩
    rw [Trace.outputs_snoc] at ha
    rcases List.mem_append.1 ha with ha | ha
    · exact (hI _).2 a ha
    · exact hacts a ha
  intro n o c dst hmem
  exact (hall n).2 _ hmem

/-! ## A network with two ways up -/

/-- Client 4 below the relays 2 and 3, both below relay 1, below border router 0. -/
def diamond : Deployment (Fin 5) where
  node
    | 0 => ⟨0, 256, []⟩
    | 1 => ⟨1, 512, [⟨0, 256⟩, ⟨2, 768⟩, ⟨3, 768⟩]⟩
    | 2 => ⟨2, 768, [⟨1, 512⟩, ⟨4, 1024⟩]⟩
    | 3 => ⟨3, 768, [⟨1, 512⟩, ⟨4, 1024⟩]⟩
    | 4 => ⟨4, 1024, [⟨2, 768⟩, ⟨3, 768⟩]⟩
  addr n := BitVec.ofNat 128 n
  resolve a := if h : a.toNat < 5 then some ⟨a.toNat, h⟩ else none
  resolve_addr := by decide
  hears _ := []
  attest n seed := attestMemory (BitVec.ofNat 16 n) seed
  buffers := .contiki

def diamondNodes : Fin 5 → NodeState
  | 0 => .router
  | 1 => .relay (Relay.init (.pair 2 3))
  | 2 => .relay (Relay.init (.single 4))
  | 3 => .relay (Relay.init (.single 4))
  | 4 => .client Client.init

/-- Topology response `o` arrives. -/
def carry (src dst : Fin 5) (o : TopologyInfo) : Network.Label (Fin 5) Datagram NodeEvent :=
  .deliver ⟨src, dst, ⟨.checksum, .topology o⟩⟩

def fromClient : TopologyInfo := ⟨1, [4], 1024, ownChecksum 4⟩

def fromRelay (id : NodeId) : TopologyInfo := ⟨2, [4, id], 1024, ownChecksum 4 ^^^ ownChecksum id⟩

/-- After the client's answer. -/
def diamondAnswered : Network.State (Fin 5) NodeState Datagram :=
  match diamond.network.machine.step (start diamondNodes) (.ext 4 (.request ⟨topology, 0⟩)) with
  | .ok (s, _) => s
  | .error _ => start diamondNodes

theorem diamond_node (n : Fin 5) : n = 0 ∨ n = 1 ∨ n = 2 ∨ n = 3 ∨ n = 4 := by
  decide +revert

theorem path_matches_checksum_diamond :
    ∃ t s, diamond.network.machine.RunIf diamond.BringsNew (start diamondNodes) t s ∧
      sendToParents (diamond.node 2) (.topology (fromRelay 2)) false ∈
        (Network.traceOf 2 t).outputs ∧ Consistent (fromRelay 2) := by
  obtain ⟨out₁, hs₁⟩ : ∃ out, diamond.network.machine.step (start diamondNodes)
      (.ext 4 (.request ⟨topology, 0⟩)) = .ok (diamondAnswered, out) := ⟨_, rfl⟩
  have hr₁ : diamond.network.machine.RunIf diamond.BringsNew (start diamondNodes)
      [(.ext 4 (.request ⟨topology, 0⟩), out₁)] diamondAnswered :=
    .next (t := []) .start trivial hs₁
  have hnew : diamond.BringsNew [(.ext 4 (.request ⟨topology, 0⟩), out₁)] diamondAnswered
      (carry 4 2 fromClient) := by
    intro rs hrs
    have hnode : diamondAnswered.node 2 = .relay (Relay.init (.single 4)) := rfl
    cases hnode.symm.trans hrs
    refine ⟨fun o ho _ => ?_, nofun⟩
    cases ho
    exact ⟨by simp [Relay.State.ids, Relay.init], by decide⟩
  obtain ⟨s, hs⟩ : ∃ s, diamond.network.machine.step diamondAnswered (carry 4 2 fromClient) =
      .ok (s, [(2, sendToParents (diamond.node 2) (.topology (fromRelay 2)) false)]) := ⟨_, rfl⟩
  have hr := hr₁.next hnew hs
  have hout : sendToParents (diamond.node 2) (.topology (fromRelay 2)) false ∈
      (Network.traceOf 2 ([(.ext 4 (.request ⟨topology, 0⟩), out₁)] ++ [(carry 4 2 fromClient,
        [(2, sendToParents (diamond.node 2) (.topology (fromRelay 2)) false)])])).outputs := by
    simp [Network.traceOf, Network.Label.target, carry, Trace.outputs]
  refine ⟨_, _, hr, hout, ?_⟩
  · refine diamond.path_matches_checksum (fun n seed => ?_) (fun n => ?_) hr 2 (fromRelay 2) false _
      hout
    · rcases diamond_node n with rfl | rfl | rfl | rfl | rfl <;> rfl
    · rcases diamond_node n with rfl | rfl | rfl | rfl | rfl
      · trivial
      · exact ⟨rfl, rfl, _, _, .start⟩
      · exact ⟨rfl, rfl, _, _, .start⟩
      · exact ⟨rfl, rfl, _, _, .start⟩
      · trivial

/-- The client's checksum reaches relay 1 twice and cancels; its id is in the path once. -/
theorem diamond_mismatch :
    ∃ t s o dst, diamond.network.machine.exec (start diamondNodes)
        [.ext 4 (.request ⟨topology, 0⟩), carry 4 2 fromClient, carry 4 3 fromClient,
          carry 2 1 (fromRelay 2), carry 3 1 (fromRelay 3)] = .ok (t, s) ∧
      .sendToParents (.topology o) false dst ∈ (Network.traceOf 1 t).outputs ∧
      ¬ Consistent o := by
  refine ⟨_, _, ⟨4, [4, 2, 3, 1], 1024, ownChecksum 2 ^^^ ownChecksum 3 ^^^ ownChecksum 1⟩, [0],
    rfl, ?_, ?_⟩
  · decide
  · simp only [Consistent]; decide

end Deployment

end Swarna
