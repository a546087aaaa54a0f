import Swarna.Deployment
import Swarna.RelayHistory
import Swarna.Tree

/-!
# Swarna.Timeouts

How long relays wait for their children in the attestation round. `get_attestation_timeout` counts
the hops to the farthest leaf from `max_leaf_rank`, which the topology round has collected.

* `RankedTree`: a tree of relays and clients whose ranks grow by three hop increments at least.
* `farthest`: the greatest rank of a client below a node.
* `run_status`: in every run in which relays respond after all their children, a relay's
  `max_leaf_rank` is the farthest rank of the children heard, and what a node reports is its own
  farthest rank.
* `parents_wait_longer`: once all children were heard, every relay waits longer than each relay
  below it, and no timeout is cut off at 8 bits.
-/

namespace Swarna

/-- `RPL_MIN_HOPRANKINC`, 256 for objective function 0. -/
def rplMinHoprankinc : Nat := 256

namespace Relay

/-- The quotient `get_attestation_timeout` computes, as an `int`. -/
def timeoutQuotient (nd : Node) (s : State) : Int :=
  ((s.maxLeafRank.toNat / rplMinHoprankinc : Nat) - (nd.rank.toNat / rplMinHoprankinc : Nat) :
    Int).tdiv 3

def getAttestationTimeout (nd : Node) (s : State) : BitVec 8 :=
  BitVec.ofInt 8 (timeoutQuotient nd s)

/-- A relay that is no farther from the root than its farthest leaf. -/
theorem getAttestationTimeout_exact {nd : Node} {s : State} (h : nd.rank ≤ s.maxLeafRank) :
    ((getAttestationTimeout nd s).toNat : Int) = timeoutQuotient nd s ∧
      timeoutQuotient nd s =
        ((s.maxLeafRank.toNat / 256 - nd.rank.toNat / 256) / 3 : Nat) := by
  have hle : nd.rank.toNat / 256 ≤ s.maxLeafRank.toNat / 256 := Nat.div_le_div_right h
  have hlt : s.maxLeafRank.toNat / 256 < 256 := by have := s.maxLeafRank.isLt; omega
  have hq : timeoutQuotient nd s =
      ((s.maxLeafRank.toNat / 256 - nd.rank.toNat / 256) / 3 : Nat) := by
    rw [timeoutQuotient, rplMinHoprankinc, ← Nat.cast_sub hle]
    exact Int.ofNat_tdiv _ _
  refine ⟨?_, hq⟩
  rw [getAttestationTimeout, hq, BitVec.toNat_ofInt]
  omega

end Relay

open Network (traceOf)

variable {ι : Type}

/-! ## The round -/

/-- The nodes whose topology packets were delivered to a node. -/
def reporters (τ : NodeHistory ι) : List ι :=
  τ.filterMap fun x =>
    match x.1 with
    | .recv c ⟨_, .topology _⟩ => some c
    | _ => none

theorem reporters_topology {τ : NodeHistory ι} {src : ι} {port : Port} {o : TopologyInfo}
    {out : List Action} : reporters (τ ++ [(.recv src ⟨port, .topology o⟩, out)]) =
      reporters τ ++ [src] := by
  simp [reporters]

theorem reporters_other {τ : NodeHistory ι} {x : Input ι Datagram NodeEvent} {out : List Action}
    (hx : ∀ src port o, x ≠ .recv src ⟨port, .topology o⟩) :
    reporters (τ ++ [(x, out)]) = reporters τ := by
  simp only [reporters, List.filterMap_append]
  cases x with
  | recv src body =>
    obtain ⟨port, pkt⟩ := body
    cases pkt with
    | topology o => exact absurd rfl (hx src port o)
    | attestation | other => simp
  | ext e => simp

/-- A topology response is among the actions. -/
def Responds (out : List Action) : Prop :=
  ∃ o isClient dst, .sendToParents (.topology o) isClient dst ∈ out

/-- A deployment from the states `nodes` on the tree `T`, with any ids and RPL tables that make
relays list their children. -/
structure RankedTree (D : Deployment ι) (T : Tree ι) (nodes : ι → NodeState) : Prop where
  no_router : ∀ n p, T.parent n = some p → nodes n ≠ .router
  client_leaf : ∀ n s, nodes n = .client s → ∀ c, T.parent c ≠ some n
  relay_child : ∀ n s, nodes n = .relay s → ∃ c, T.parent c = some n
  relay_listed : ∀ n s, nodes n = .relay s →
    ∀ m, getIdFromAddr (D.addr m) ∈ s.childList.ids ↔ T.parent m = some n
  relay_start : ∀ n s, nodes n = .relay s → Relay.Bounded s ∧ s.maxLeafRank = 0
  /-- No response of an earlier round waits to be broadcast. -/
  relay_idle : ∀ n s, nodes n = .relay s → ∀ o, s.ctimerResp ≠ .topology o
  client_idle : ∀ n s, nodes n = .client s → ∀ o, s.ctimerResp ≠ .topology o
  rank_step : ∀ n p, T.parent n = some p →
    (D.node p).rank.toNat + 3 * rplMinHoprankinc ≤ (D.node n).rank.toNat

/-- Events in any order, such that no child's packet overfills the path, and a relay responds when
it has been delivered the topology packets of all its children, the present one included. -/
def AfterChildren (D : Deployment ι) (T : Tree ι) [DecidableEq ι]
    (t : Network.History ι Datagram NodeEvent Action) (s : Network.State ι NodeState Datagram)
    (l : Network.Label ι Datagram NodeEvent) : Prop :=
  ∀ rs, s.node l.target = .relay rs →
    (∀ src port o, l.input = .recv src ⟨port, .topology o⟩ → T.parent src = some l.target →
      rs.pathsLoc + (Relay.fresh rs o.ids).length ≤ maxPathNodes - 3) ∧
    ∀ v out, D.step l.target (s.node l.target) l.input = .ok (v, out) → Responds out →
      ∀ c, T.parent c = some l.target → c ∈ reporters (traceOf l.target t ++ [(l.input, out)])

namespace RankedTree

variable {D : Deployment ι} {T : Tree ι} {nodes : ι → NodeState}

/-! ## Packets of a step -/

/-- The packet an action sends to other nodes. -/
def actionPkt? : Action → Option ResponsePkt
  | .sendToParents pkt _ _ => some pkt
  | .storeBroadcast _ => none
  | .broadcastToParents pkt => some pkt
  | .sendSecResp _ => none

theorem packets_pkt {n : ι} {a : Action} {p : Packet ι Datagram} (hp : p ∈ D.network.packets n a) :
    p.src = n ∧ actionPkt? a = some p.body.pkt := by
  obtain ⟨x, hx, rfl⟩ := List.mem_map.1 hp
  cases a with
  | sendToParents pkt isClient dst =>
    obtain ⟨d, -, rfl⟩ := List.mem_map.1 hx
    exact ⟨rfl, rfl⟩
  | broadcastToParents pkt =>
    obtain ⟨d, -, rfl⟩ := List.mem_map.1 hx
    exact ⟨rfl, rfl⟩
  | storeBroadcast | sendSecResp => cases hx

theorem recv_of_heard {children : List NodeId} {x : Input ι Datagram NodeEvent} {cid : NodeId}
    {o : TopologyInfo} (h : Relay.heard children (D.relayEvent x) = some (cid, .topology o)) :
    ∃ src port, x = .recv src ⟨port, .topology o⟩ := by
  cases x with
  | recv src body =>
    obtain ⟨port, pkt⟩ := body
    cases port with
    | checksum =>
      simp only [Deployment.relayEvent, Relay.heard] at h
      split at h
      · cases h
      · cases h
        exact ⟨src, .checksum, rfl⟩
    | broadcast =>
      cases h
      exact ⟨src, .broadcast, rfl⟩
  | ext e => cases e <;> cases h

/-! ## The farthest leaf -/

def leafRank (D : Deployment ι) (nodes : ι → NodeState) (n : ι) : Nat :=
  match nodes n with
  | .client _ => (D.node n).rank.toNat
  | _ => 0

/-- The greatest rank of a client in the subtree of a node. -/
noncomputable def farthest [Fintype ι] (D : Deployment ι) (T : Tree ι) (nodes : ι → NodeState)
    (n : ι) : Nat := (T.subtree n).sup (leafRank D nodes)

variable [Fintype ι]

variable (D nodes) in
theorem farthest_child_le {c p : ι} (hc : T.parent c = some p) :
    farthest D T nodes c ≤ farthest D T nodes p :=
  Finset.sup_mono (Tree.subtree_subset hc)

/-! ## What clients report -/

/-- A packet that, if it is a topology packet, reports the farthest rank of node `n`. -/
def Tells (D : Deployment ι) (T : Tree ι) (nodes : ι → NodeState) (n : ι) (pkt : ResponsePkt) :
    Prop :=
  ∀ o, pkt = .topology o → o.maxLeafRank.toNat = farthest D T nodes n

/-- So do all packets sent. -/
def AllTell (D : Deployment ι) (T : Tree ι) (nodes : ι → NodeState) (n : ι) (out : List Action) :
    Prop :=
  ∀ a ∈ out, ∀ pkt, actionPkt? a = some pkt → Tells D T nodes n pkt

theorem allTell_nil {n : ι} : AllTell D T nodes n [] := by
  intro a ha
  cases ha

theorem allTell_singleton {n : ι} {a : Action} {pkt : ResponsePkt} (ha : actionPkt? a = some pkt)
    (h : Tells D T nodes n pkt) : AllTell D T nodes n [a] := by
  intro a' ha' pkt' hp
  rw [List.mem_singleton.1 ha', ha] at hp
  cases hp
  exact h

theorem allTell_none {n : ι} {out : List Action} (h : ∀ a ∈ out, actionPkt? a = none) :
    AllTell D T nodes n out := by
  intro a ha pkt hp
  rw [h a ha] at hp
  cases hp

theorem tells_other {n : ι} {ty : BitVec 8} : Tells D T nodes n (.other ty) := by
  intro o ho
  cases ho

/-- The response a client creates, if any, reports its own rank. -/
theorem createResponse_tells {n : ι} {s : Client.State} {attest : BitVec 32 → Option Checksum}
    {mpkt : RequestPacket} {pkt : ResponsePkt}
    (hfar : farthest D T nodes n = (D.node n).rank.toNat)
    (h : (Client.createResponse (D.node n) attest s mpkt).2 = some pkt) :
    Tells D T nodes n pkt := by
  unfold Client.createResponse at h
  split at h
  · cases h
  · simp only at h
    split at h
    · cases h
      intro o ho
      cases ho
      exact hfar.symm
    · split at h
      · cases h
        intro o ho
        cases ho
      · cases h
        exact tells_other

/-- What a client answers a request with, and what it keeps for later. -/
theorem tcpipHandler_tells {n : ι} {s s' : Client.State} {attest : BitVec 32 → Option Checksum}
    {mpkt : RequestPacket} {out : List Action}
    (hfar : farthest D T nodes n = (D.node n).rank.toNat) (hs : Tells D T nodes n s.ctimerResp)
    (h : Client.tcpipHandler (D.node n) attest s mpkt = (s', out)) :
    Tells D T nodes n s'.ctimerResp ∧ AllTell D T nodes n out := by
  have hkeep : (Client.createResponse (D.node n) attest s mpkt).1.ctimerResp = s.ctimerResp := by
    unfold Client.createResponse
    split <;> rfl
  have hcreate : ∀ pkt, (Client.createResponse (D.node n) attest s mpkt).2 = some pkt →
      Tells D T nodes n pkt := fun pkt => createResponse_tells hfar
  unfold Client.tcpipHandler at h
  generalize Client.createResponse (D.node n) attest s mpkt = r at h hkeep hcreate
  obtain ⟨s₁, resp⟩ := r
  have hdefault : ∀ pkt₀, Tells D T nodes n pkt₀ → Tells D T nodes n (resp.getD pkt₀) := by
    intro pkt₀ h₀
    cases resp with
    | none => exact h₀
    | some pkt => exact hcreate pkt rfl
  have hresp : Tells D T nodes n (resp.getD s₁.ctimerResp) := hdefault _ (by rwa [hkeep])
  simp only at h
  split at h
  · cases h
    exact ⟨hresp, allTell_singleton rfl (hdefault _ tells_other)⟩
  · cases h
    exact ⟨hresp, allTell_singleton rfl hresp⟩

theorem client_step {n : ι} {s s' : Client.State} {attest : BitVec 32 → Option Checksum}
    {e : Client.Event} {out : List Action}
    (hfar : farthest D T nodes n = (D.node n).rank.toNat) (hs : Tells D T nodes n s.ctimerResp)
    (h : Client.step (D.node n) attest s e = (s', out)) :
    Tells D T nodes n s'.ctimerResp ∧ AllTell D T nodes n out := by
  cases e with
  | mcast mpkt => exact tcpipHandler_tells hfar hs h
  | tcpip pkt =>
    simp only [Client.step] at h
    split at h
    · exact tcpipHandler_tells hfar hs h
    · cases h
      exact ⟨hs, allTell_nil⟩
  | broadcast pkt =>
    cases h
    exact ⟨hs, allTell_nil⟩
  | secReq secreq =>
    cases h
    refine ⟨hs, allTell_none fun a ha => ?_⟩
    unfold Client.udpSecreqCallback at ha
    split at ha
    · rw [List.mem_singleton.1 ha]
      rfl
    · cases ha

variable [DecidableEq ι]

/-! ## The farthest leaf of a relay -/

theorem farthest_client (hT : RankedTree D T nodes) {n : ι} {s : Client.State}
    (hn : nodes n = .client s) : farthest D T nodes n = (D.node n).rank.toNat := by
  rw [farthest, Tree.subtree_leaf (hT.client_leaf n s hn), Finset.sup_singleton, leafRank, hn]

theorem farthest_relay {n : ι} {s : Relay.State} (hn : nodes n = .relay s) :
    farthest D T nodes n = (T.children n).sup (farthest D T nodes) := by
  rw [farthest, Tree.sup_subtree, leafRank, hn]
  exact Nat.zero_max _

/-- From the leaves up: a client's rank is its own, a relay's farthest leaf is below a child. -/
theorem rank_le_farthest (hT : RankedTree D T nodes) (n : ι) :
    nodes n ≠ .router → (D.node n).rank.toNat ≤ farthest D T nodes n := by
  induction n using T.children_first with
  | h n ih =>
    intro hn
    cases hs : nodes n with
    | router => exact absurd hs hn
    | client s => exact Nat.le_of_eq (hT.farthest_client hs).symm
    | relay s =>
      obtain ⟨c, hc⟩ := hT.relay_child n s hs
      have h₁ := hT.rank_step c n hc
      have h₂ := ih c hc (hT.no_router c n hc)
      have h₃ := farthest_child_le D nodes hc
      omega

theorem relay_rank_le (hT : RankedTree D T nodes) {n : ι} {s : Relay.State}
    (hn : nodes n = .relay s) :
    (D.node n).rank.toNat + 3 * rplMinHoprankinc ≤ farthest D T nodes n := by
  obtain ⟨c, hc⟩ := hT.relay_child n s hn
  have h₁ := hT.rank_step c n hc
  have h₂ := hT.rank_le_farthest c (hT.no_router c n hc)
  have h₃ := farthest_child_le D nodes hc
  omega

/-! ## What relays hold -/

/-- The farthest rank of the children that have reported. -/
noncomputable def reported (D : Deployment ι) (T : Tree ι) (nodes : ι → NodeState) (n : ι)
    (τ : NodeHistory ι) : Nat :=
  ((T.children n).filter (· ∈ reporters τ)).sup (farthest D T nodes)

/-- What a relay holds. -/
structure Holding (D : Deployment ι) (T : Tree ι) (nodes : ι → NodeState) (n : ι)
    (τ : NodeHistory ι) (s : Relay.State) : Prop where
  bounded : Relay.Bounded s
  listed : ∀ m, getIdFromAddr (D.addr m) ∈ s.childList.ids ↔ T.parent m = some n
  idle : ∀ o, s.ctimerResp ≠ .topology o
  rank : s.maxLeafRank.toNat = reported D T nodes n τ

inductive Status (D : Deployment ι) (T : Tree ι) (nodes : ι → NodeState) (n : ι)
    (τ : NodeHistory ι) (v : NodeState) : Prop where
  | router : nodes n = .router → v = .router → Status D T nodes n τ v
  | client {cs s : Client.State} : nodes n = .client cs → v = .client s →
      Tells D T nodes n s.ctimerResp → Status D T nodes n τ v
  | relay {rs s : Relay.State} : nodes n = .relay rs → v = .relay s → Holding D T nodes n τ s →
      Status D T nodes n τ v

theorem status_start (hT : RankedTree D T nodes) (n : ι) : Status D T nodes n [] (nodes n) := by
  cases hn : nodes n with
  | router => exact .router hn rfl
  | client s => exact .client hn rfl fun o ho => absurd ho (hT.client_idle n s hn o)
  | relay s =>
    obtain ⟨hb, hrank⟩ := hT.relay_start n s hn
    refine .relay hn rfl ⟨hb, hT.relay_listed n s hn, hT.relay_idle n s hn, ?_⟩
    rw [hrank]
    simp [reported, reporters]

/-- A packet of a child is one more report; one of a stranger is none. -/
theorem reported_topology {τ : NodeHistory ι} {n src : ι} {port : Port} {o : TopologyInfo}
    {out : List Action} :
    reported D T nodes n (τ ++ [(.recv src ⟨port, .topology o⟩, out)]) =
      if T.parent src = some n then farthest D T nodes src ⊔ reported D T nodes n τ
      else reported D T nodes n τ := by
  rw [reported, reporters_topology]
  split
  · rename_i hsrc
    rw [reported, ← Finset.sup_insert]
    congr 1
    ext c
    simp only [Finset.mem_filter, Tree.mem_children, List.mem_append, List.mem_singleton,
      Finset.mem_insert]
    constructor
    · rintro ⟨hc, hmem | rfl⟩
      · exact .inr ⟨hc, hmem⟩
      · exact .inl rfl
    · rintro (rfl | ⟨hc, hmem⟩)
      · exact ⟨hsrc, .inr rfl⟩
      · exact ⟨hc, .inl hmem⟩
  · rename_i hsrc
    rw [reported]
    congr 1
    ext c
    simp only [Finset.mem_filter, Tree.mem_children, List.mem_append, List.mem_singleton]
    constructor
    · rintro ⟨hc, hmem | rfl⟩
      · exact ⟨hc, hmem⟩
      · exact absurd hc hsrc
    · rintro ⟨hc, hmem⟩
      exact ⟨hc, .inl hmem⟩

/-- With reports of all children, a relay knows its farthest leaf. -/
theorem reported_all {n : ι} {rs : Relay.State} (hn : nodes n = .relay rs) {τ : NodeHistory ι}
    (hall : ∀ c, T.parent c = some n → c ∈ reporters τ) :
    reported D T nodes n τ = farthest D T nodes n := by
  rw [farthest_relay hn, reported, Finset.filter_true_of_mem]
  exact fun c hc => hall c (Tree.mem_children.1 hc)

/-! ## One step -/

/-- The packet of a child taken in. -/
theorem Holding.accepted {n src : ι} {s s₂ : Relay.State} {τ : NodeHistory ι} {port : Port}
    {o : TopologyInfo} {out : List Action} {cid : NodeId} {new : List NodeId}
    (h : Holding D T nodes n τ s) (hsrc : T.parent src = some n)
    (ho : o.maxLeafRank.toNat = farthest D T nodes src) (hacc : Relay.Accepted s o cid new s₂) :
    Holding D T nodes n (τ ++ [(.recv src ⟨port, .topology o⟩, out)]) s₂ := by
  obtain ⟨a, p, k, hframe⟩ := hacc.frame
  refine ⟨hacc.bounded, fun m => ?_, ?_, ?_⟩
  · rw [hframe]
    exact (congrArg (_ ∈ ·) (ChildList.ids_childSetPktReceived ..)).to_iff.trans (h.listed m)
  · rw [hframe]
    exact h.idle
  · rw [reported_topology, if_pos hsrc, hframe, ← ho, ← h.rank]
    show (if s.maxLeafRank < o.maxLeafRank then o.maxLeafRank else s.maxLeafRank).toNat = _
    split <;> rename_i hlt <;> rw [BitVec.lt_def] at hlt <;> omega

/-- `reset_variable` keeps what a relay holds. -/
theorem Holding.reset {n : ι} {s : Relay.State} {τ : NodeHistory ι} (h : Holding D T nodes n τ s) :
    Holding D T nodes n τ (Relay.resetVariable s) :=
  ⟨Relay.resetVariable_bounded _, by simpa using h.listed, h.idle, h.rank⟩

/-- The response of a relay that all its children have reported to. -/
theorem Holding.response {n : ι} {rs s : Relay.State} {τ : NodeHistory ι}
    (h : Holding D T nodes n τ s) (hn : nodes n = .relay rs)
    (hall : ∀ c, T.parent c = some n → c ∈ reporters τ) :
    Tells D T nodes n (.topology (Relay.topologyResp (D.node n) s)) := by
  intro o ho
  cases ho
  rw [← reported_all hn hall]
  exact h.rank

theorem responds_topology (nd : Node) (o : TopologyInfo) :
    Responds [sendToParents nd (.topology o) false] :=
  ⟨_, _, _, List.mem_singleton_self _⟩

/-- A relay takes a child's packet in, or ignores a stranger's. -/
theorem relay_topology_step {n src : ι} {rs s s' : Relay.State} {τ : NodeHistory ι} {port : Port}
    {o : TopologyInfo} {out : List Action} (hn : nodes n = .relay rs)
    (hne : ∃ c, T.parent c = some n) (h : Holding D T nodes n τ s)
    (ho : o.maxLeafRank.toNat = farthest D T nodes src)
    (hfit : T.parent src = some n →
      s.pathsLoc + (Relay.fresh s o.ids).length ≤ maxPathNodes - 3)
    (hall : Responds out → ∀ c, T.parent c = some n →
      c ∈ reporters (τ ++ [(.recv src ⟨port, .topology o⟩, out)]))
    (hs : Relay.step (D.node n) D.buffers s (D.relayEvent (.recv src ⟨port, .topology o⟩)) =
      .ok (s', out)) :
    Holding D T nodes n (τ ++ [(.recv src ⟨port, .topology o⟩, out)]) s' ∧
      AllTell D T nodes n out := by
  obtain ⟨d, hd⟩ := hne
  have hids : s.childList.ids ≠ [] := List.ne_nil_of_mem ((h.listed d).2 hd)
  have hh : Relay.heard s.childList.ids (D.relayEvent (.recv src ⟨port, .topology o⟩)) =
      some (getIdFromAddr (D.addr src), .topology o) := by
    cases port <;> simp [Deployment.relayEvent, Relay.heard, hids]
  obtain ⟨sent, hreq, rfl⟩ := Relay.step_topology_ok hh hs
  by_cases hsrc : T.parent src = some n
  · have hchild := ChildList.isChild_iff.2 ((h.listed src).2 hsrc)
    by_cases hcur : s.curLoc < maxChild
    · obtain ⟨s₂, hacc, -, hcase⟩ := Relay.processTopologyReq_fits (D.node n)
        (Relay.Event.after D.buffers (D.relayEvent (.recv src ⟨port, .topology o⟩))) hchild hcur
        (hfit hsrc)
      rcases hcase with ⟨-, hrun⟩ | ⟨-, hrun⟩
      · rw [hrun] at hreq
        cases hreq
        have hold : Holding D T nodes n (τ ++ [(.recv src ⟨port, .topology o⟩,
            [sendToParents (D.node n) (.topology (Relay.topologyResp (D.node n) s₂)) false])]) s₂ :=
          h.accepted hsrc ho hacc
        have hcomplete := hall (responds_topology _ _)
        exact ⟨⟨Relay.resetVariable_bounded _, hold.reset.listed, hold.idle, hold.rank⟩,
          allTell_singleton rfl (hold.response hn hcomplete)⟩
      · rw [hrun] at hreq
        cases hreq
        have hold : Holding D T nodes n (τ ++ [(.recv src ⟨port, .topology o⟩, [])]) s₂ :=
          h.accepted hsrc ho hacc
        exact ⟨⟨⟨hold.bounded.curLoc_le, hold.bounded.pathsLoc_le⟩, hold.listed, hold.idle,
          hold.rank⟩, allTell_nil⟩
    · rw [Relay.processTopologyReq_overflow hchild hcur] at hreq
      cases hreq
  · have hstranger : s.childList.isChild (getIdFromAddr (D.addr src)) = false := by
      by_contra hc
      exact hsrc ((h.listed src).1 (ChildList.isChild_iff.1 (by simpa using hc)))
    rw [Relay.processTopologyReq_stranger hstranger] at hreq
    cases hreq
    refine ⟨⟨h.bounded, h.listed, h.idle, ?_⟩, allTell_nil⟩
    rw [h.rank, reported_topology, if_neg hsrc]

/-- Any other event leaves the rank as it is. -/
theorem relay_other_step {n : ι} {rs s s' : Relay.State} {τ : NodeHistory ι}
    {x : Input ι Datagram NodeEvent} {out : List Action} (hn : nodes n = .relay rs)
    (hne : ∃ c, T.parent c = some n) (h : Holding D T nodes n τ s)
    (hx : ∀ src port o, x ≠ .recv src ⟨port, .topology o⟩)
    (hall : Responds out → ∀ c, T.parent c = some n → c ∈ reporters (τ ++ [(x, out)]))
    (hs : Relay.step (D.node n) D.buffers s (D.relayEvent x) = .ok (s', out)) :
    Holding D T nodes n (τ ++ [(x, out)]) s' ∧ AllTell D T nodes n out := by
  obtain ⟨d, hd⟩ := hne
  have hids : s.childList.ids ≠ [] := List.ne_nil_of_mem ((h.listed d).2 hd)
  have hold : Holding D T nodes n (τ ++ [(x, out)]) s := by
    refine ⟨h.bounded, h.listed, h.idle, ?_⟩
    rw [h.rank, reported, reported, reporters_other hx]
  have hout := Relay.outcome_of_step h.bounded hs
  generalize he : D.relayEvent x = e at hout
  cases hout with
  | ignored _ _ => exact ⟨hold, allTell_nil⟩
  | request mpkt _ hl _ => exact absurd (Relay.isLeaf_iff.1 hl) hids
  | @topology _ cid t _ _ _ hh _ _ _ =>
    -- only a topology packet is heard as one
    rw [← he] at hh
    obtain ⟨src, port, rfl⟩ := recv_of_heard hh
    exact absurd rfl (hx src port t)
  | attestation _ hcur _ =>
    exact ⟨⟨⟨hcur, h.bounded.pathsLoc_le⟩, hold.listed, hold.idle, hold.rank⟩, allTell_nil⟩
  | secReq q =>
    refine ⟨hold, allTell_none fun a ha => ?_⟩
    obtain ⟨-, resp, rfl⟩ := Relay.mem_udpSecreqCallback ha
    rfl
  | periodicIdle _ | periodicZero _ _ | pIdle _ =>
    exact ⟨⟨⟨h.bounded.curLoc_le, h.bounded.pathsLoc_le⟩, hold.listed, hold.idle, hold.rank⟩,
      allTell_nil⟩
  | periodicTopology _ =>
    have hcomplete := hall (responds_topology _ _)
    exact ⟨⟨Relay.resetVariable_bounded _, hold.reset.listed, hold.idle, hold.rank⟩,
      allTell_singleton rfl (hold.response hn hcomplete)⟩
  | periodicAttestation _ _ =>
    refine ⟨⟨Relay.resetVariable_bounded _, hold.reset.listed, fun o ho => ?_, hold.rank⟩,
      allTell_none fun a ha => ?_⟩
    · cases ho
    · rw [List.mem_singleton.1 ha]
      rfl
  | pBroadcast _ =>
    exact ⟨⟨⟨h.bounded.curLoc_le, h.bounded.pathsLoc_le⟩, hold.listed, hold.idle, hold.rank⟩,
      allTell_singleton rfl fun o ho => absurd ho (h.idle o)⟩

/-! ## Runs -/

theorem node_step (hT : RankedTree D T nodes) {t : Network.History ι Datagram NodeEvent Action}
    {s : Network.State ι NodeState Datagram} {l : Network.Label ι Datagram NodeEvent}
    {v : NodeState} {out : List Action} (hc : AfterChildren D T t s l)
    (hin : ∀ src port o, l.input = .recv src ⟨port, .topology o⟩ →
      Tells D T nodes src (.topology o))
    (h : Status D T nodes l.target (traceOf l.target t) (s.node l.target))
    (hv : D.step l.target (s.node l.target) l.input = .ok (v, out)) :
    Status D T nodes l.target (traceOf l.target t ++ [(l.input, out)]) v ∧
      AllTell D T nodes l.target out := by
  cases h with
  | router hn hs =>
    rw [hs] at hv
    cases hv
    exact ⟨.router hn rfl, allTell_nil⟩
  | @client cs s₁ hn hs hkeep =>
    rw [hs] at hv
    simp only [Deployment.step] at hv
    split at hv
    · cases hv
      exact ⟨.client hn rfl hkeep, allTell_nil⟩
    · rename_i e _
      cases hv
      obtain ⟨hkeep', hsent⟩ := client_step (hT.farthest_client hn) hkeep
        (rfl : Client.step (D.node l.target) (D.attest l.target) s₁ e = (_, _))
      exact ⟨.client hn rfl hkeep', hsent⟩
  | @relay rs s₁ hn hs hold =>
    obtain ⟨hfit, hall⟩ := hc s₁ hs
    have hall' := hall v out hv
    rw [hs] at hv
    obtain ⟨s₂, hstep, rfl⟩ := Deployment.step_relay_inv hv
    have hne := hT.relay_child _ rs hn
    by_cases hx : ∃ src port o, l.input = .recv src ⟨port, .topology o⟩
    · obtain ⟨src, port, o, hx⟩ := hx
      have ho := hin src port o hx o rfl
      rw [hx] at hstep hall' ⊢
      obtain ⟨hold', hsent⟩ := relay_topology_step hn hne hold ho (hfit src port o hx) hall' hstep
      exact ⟨.relay hn rfl hold', hsent⟩
    · have hx' : ∀ src port o, l.input ≠ .recv src ⟨port, .topology o⟩ :=
        fun src port o he => hx ⟨src, port, o, he⟩
      obtain ⟨hold', hsent⟩ := relay_other_step hn hne hold hx' hall' hstep
      exact ⟨.relay hn rfl hold', hsent⟩

theorem run_status (hT : RankedTree D T nodes)
    {t : Network.History ι Datagram NodeEvent Action} {s : Network.State ι NodeState Datagram}
    (hr : D.network.machine.RunIf (AfterChildren D T) (Deployment.start nodes) t s) :
    (∀ n, Status D T nodes n (traceOf n t) (s.node n)) ∧
      ∀ p ∈ s.flight, Tells D T nodes p.src p.body.pkt := by
  refine Network.nodewise (Status D T nodes) (fun p => Tells D T nodes p.src p.body.pkt) hr
    hT.status_start (by simp [Deployment.start]) ?_
  intro t s l v out _ hc hI hQ hmem hv
  have hin : ∀ src port o, l.input = .recv src ⟨port, .topology o⟩ →
      Tells D T nodes src (.topology o) := by
    intro src port o hx
    cases l with
    | ext n e => cases hx
    | deliver p =>
      have hp := hQ p (hmem p rfl)
      obtain ⟨from', dst, body⟩ := p
      cases hx
      exact hp
  obtain ⟨hstatus, hsent⟩ := hT.node_step hc hin (hI l.target) hv
  refine ⟨hstatus, fun a ha p hp => ?_⟩
  obtain ⟨hsrc, hpkt⟩ := packets_pkt hp
  rw [hsrc]
  exact hsent a ha _ hpkt

/-- With the reports of all its children, a relay knows the rank of its farthest leaf. -/
theorem maxLeafRank_eq (hT : RankedTree D T nodes)
    {t : Network.History ι Datagram NodeEvent Action} {s : Network.State ι NodeState Datagram}
    (hr : D.network.machine.RunIf (AfterChildren D T) (Deployment.start nodes) t s) {n : ι}
    (hall : ∀ c, T.parent c = some n → c ∈ reporters (traceOf n t)) {rs : Relay.State}
    (hn : s.node n = .relay rs) :
    rs.maxLeafRank.toNat = farthest D T nodes n ∧
      (D.node n).rank.toNat + 3 * rplMinHoprankinc ≤ farthest D T nodes n := by
  cases (hT.run_status hr).1 n with
  | router _ hv | client _ hv _ =>
    rw [hn] at hv
    cases hv
  | relay hn₀ hv hold =>
    rw [hn] at hv
    cases hv
    exact ⟨hold.rank.trans (reported_all hn₀ hall), hT.relay_rank_le hn₀⟩

/-- A topology round that is over: every relay has been delivered the topology packets of all its
children. -/
def RoundOver (T : Tree ι) (nodes : ι → NodeState)
    (t : Network.History ι Datagram NodeEvent Action) : Prop :=
  ∀ n rs, nodes n = .relay rs → ∀ c, T.parent c = some n → c ∈ reporters (traceOf n t)

theorem parents_wait_longer (hT : RankedTree D T nodes)
    {t : Network.History ι Datagram NodeEvent Action} {s : Network.State ι NodeState Datagram}
    (hr : D.network.machine.RunIf (AfterChildren D T) (Deployment.start nodes) t s)
    (hover : RoundOver T nodes t) {p c : ι} {ps cs : Relay.State} (hparent : T.parent c = some p)
    (hp : s.node p = .relay ps) (hc : s.node c = .relay cs) :
    (Relay.getAttestationTimeout (D.node c) cs).toNat + 1 ≤
        (Relay.getAttestationTimeout (D.node p) ps).toNat ∧
      ((Relay.getAttestationTimeout (D.node p) ps).toNat : Int) =
        Relay.timeoutQuotient (D.node p) ps ∧
      ((Relay.getAttestationTimeout (D.node c) cs).toNat : Int) =
        Relay.timeoutQuotient (D.node c) cs := by
  have hrelay : ∀ n rs, s.node n = .relay rs → ∀ d, T.parent d = some n →
      d ∈ reporters (traceOf n t) := by
    intro n rs hn
    cases (hT.run_status hr).1 n with
    | router _ hv | client _ hv _ =>
      rw [hn] at hv
      cases hv
    | relay hn₀ _ _ => exact hover n _ hn₀
  obtain ⟨hleaf, hfar⟩ := hT.maxLeafRank_eq hr (hrelay p ps hp) hp
  obtain ⟨hleaf', hfar'⟩ := hT.maxLeafRank_eq hr (hrelay c cs hc) hc
  have hup := farthest_child_le D nodes hparent
  have hstep := hT.rank_step c p hparent
  rw [← hleaf] at hfar hup
  rw [← hleaf'] at hfar' hup
  unfold rplMinHoprankinc at hfar hfar' hstep
  have hle : (D.node p).rank ≤ ps.maxLeafRank := BitVec.le_def.2 (by omega)
  have hle' : (D.node c).rank ≤ cs.maxLeafRank := BitVec.le_def.2 (by omega)
  obtain ⟨hq, hexact⟩ := Relay.getAttestationTimeout_exact hle
  obtain ⟨hq', hexact'⟩ := Relay.getAttestationTimeout_exact hle'
  refine ⟨?_, hq, hq'⟩
  rw [hexact] at hq
  rw [hexact'] at hq'
  omega

/-! ## A line of two relays -/

/-- Client 3 below relay 2 below relay 1 below border router 0. -/
def line : Deployment (Fin 4) where
  node
    | 0 => ⟨0, 256, [⟨1, 1030⟩]⟩
    | 1 => ⟨1, 1030, [⟨0, 256⟩, ⟨2, 1800⟩]⟩
    | 2 => ⟨2, 1800, [⟨1, 1030⟩, ⟨3, 2600⟩]⟩
    | 3 => ⟨3, 2600, [⟨2, 1800⟩]⟩
  addr n := BitVec.ofNat 128 n
  resolve a := if h : a.toNat < 4 then some ⟨a.toNat, h⟩ else none
  resolve_addr := by decide
  hears _ := []
  attest n seed := attestMemory (BitVec.ofNat 16 n) seed
  buffers := .contiki

def lineTree : Tree (Fin 4) where
  parent
    | ⟨0, _⟩ => none
    | ⟨k + 1, h⟩ => some ⟨k, Nat.lt_of_succ_lt h⟩
  rank n := n
  rank_lt := by decide

def lineNodes : Fin 4 → NodeState
  | 0 => .router
  | 1 => .relay (Relay.init (.single 2))
  | 2 => .relay (Relay.init (.single 3))
  | 3 => .client Client.init

theorem line_rankedTree : RankedTree line lineTree lineNodes where
  no_router n p h := match n with
    | 0 => by cases h
    | 1 | 2 | 3 => by simp [lineNodes]
  client_leaf n s h := match n with
    | 0 | 1 | 2 => by cases h
    | 3 => by decide
  relay_child n s h := match n with
    | 0 | 3 => by cases h
    | 1 => ⟨2, rfl⟩
    | 2 => ⟨3, rfl⟩
  relay_listed n s h := match n with
    | 0 | 3 => by cases h
    | 1 | 2 => by cases h; decide
  relay_start n s h := match n with
    | 0 | 3 => by cases h
    | 1 | 2 => by cases h; exact ⟨⟨Nat.zero_le _, Nat.zero_le _⟩, rfl⟩
  relay_idle n s h o := match n with
    | 0 | 3 => by cases h
    | 1 | 2 => by cases h; exact fun ho => by cases ho
  client_idle n s h o := match n with
    | 0 | 1 | 2 => by cases h
    | 3 => by cases h; exact fun ho => by cases ho
  rank_step := by decide

omit [Fintype ι] in
/-- The packet of an only child. -/
theorem afterChildren_onlyChild {t : Network.History ι Datagram NodeEvent Action}
    {s : Network.State ι NodeState Datagram} {c r : ι} {o : TopologyInfo}
    (honly : ∀ d, T.parent d = some r → d = c)
    (hfit : ∀ rs, s.node r = .relay rs →
      rs.pathsLoc + (Relay.fresh rs o.ids).length ≤ maxPathNodes - 3) :
    AfterChildren D T t s (.deliver ⟨c, r, ⟨.checksum, .topology o⟩⟩) := by
  refine fun rs hrs => ⟨fun src port o' hx _ => ?_, fun v out _ _ d hd => ?_⟩
  · cases hx
    exact hfit rs hrs
  · rw [honly d hd]
    show c ∈ reporters (_ ++ [(.recv c ⟨.checksum, .topology o⟩, out)])
    rw [reporters_topology]
    simp

/-- The client is asked, and the two relays pass the answer up. -/
theorem parents_wait_longer_line :
    ∃ t s ps cs, line.network.machine.RunIf (AfterChildren line lineTree)
        (Deployment.start lineNodes) t s ∧ s.node 1 = .relay ps ∧ s.node 2 = .relay cs ∧
      (Relay.getAttestationTimeout (line.node 2) cs).toNat + 1 ≤
        (Relay.getAttestationTimeout (line.node 1) ps).toNat := by
  have hr : line.network.machine.RunIf (AfterChildren line lineTree) (Deployment.start lineNodes)
      [(.ext 3 (.request ⟨topology, 0⟩), _),
        (.deliver ⟨3, 2, ⟨.checksum, .topology ⟨1, [3], 2600, ownChecksum 3⟩⟩⟩, _),
        (.deliver ⟨2, 1, ⟨.checksum,
          .topology ⟨2, [3, 2], 2600, ownChecksum 3 ^^^ ownChecksum 2⟩⟩⟩, _)] _ :=
    .next (t := [_, _]) (.next (t := [_]) (.next (t := [])
      .start (by intro rs h; cases h) rfl)
        (afterChildren_onlyChild (by decide) (by rintro rs h; cases h; decide)) rfl)
        (afterChildren_onlyChild (by decide) (by rintro rs h; cases h; decide)) rfl
  refine ⟨_, _, _, _, hr, rfl, rfl, (line_rankedTree.parents_wait_longer hr (fun n rs h c hc => ?_)
    (c := 2) (p := 1) rfl rfl rfl).1⟩
  match n with
  | 0 | 3 => cases h
  | 1 =>
    have hc' : c = 2 := by revert c; decide
    subst hc'
    exact List.mem_singleton_self _
  | 2 =>
    have hc' : c = 3 := by revert c; decide
    subst hc'
    exact List.mem_singleton_self _

end RankedTree
end Swarna
